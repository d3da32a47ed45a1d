import HcMap.Db.Rows

/-!
# Row-level security

The policies of the migrations, as the request's session evaluates them.
Policies are permissive, so a row passes when one of them lets it pass. The
helper functions of the policies are `SECURITY DEFINER` and see every row.
-/

namespace HcMap

/-- What `stamp_session` stamps into the transaction, and the transaction's
`now()`. -/
structure Session where
  userId : Uuid
  role : UserRole
  personId : Uuid
  now : Time
  deriving DecidableEq

def sampleAdmin : Session := ⟨1, .admin, 1, 100⟩
def sampleOwner : Session := ⟨2, .editor, 2, 100⟩
def sampleGuest : Session := ⟨3, .editor, 3, 100⟩

variable (db : Database) (s : Session)

def appUserOwnsEvent (eid : Uuid) : Prop :=
  ∃ e ∈ db.events, e.id = eid ∧ e.createdBy = some s.userId

def appUserCanSeeEvent (eid : Uuid) : Prop :=
  s.role = .admin ∨ (∃ ep ∈ db.participants, ep.eventId = eid ∧ ep.personId = s.personId) ∨
    (s.role = .editor ∧ ∃ e ∈ db.events, e.id = eid ∧ e.createdBy = some s.userId)

instance (eid : Uuid) : Decidable (appUserOwnsEvent db s eid) := by
  unfold appUserOwnsEvent
  infer_instance

instance (eid : Uuid) : Decidable (appUserCanSeeEvent db s eid) := by
  unfold appUserCanSeeEvent
  infer_instance

-- ---------------------------------------------------------------------------
-- event and its children
-- ---------------------------------------------------------------------------

/-- `event_admin_all`, `event_editor_insert`, `event_editor_update` and
`event_editor_delete` share one predicate. -/
def eventWritable (e : Event) : Prop :=
  s.role = .admin ∨ (s.role = .editor ∧ e.createdBy = some s.userId)

def childWritable (eid : Uuid) : Prop :=
  s.role = .admin ∨ (s.role = .editor ∧ appUserOwnsEvent db s eid)

def participantWritable (ep : EventParticipant) : Prop := childWritable db s ep.eventId

def applicationWritable (a : Application) : Prop := childWritable db s a.eventId

def participantVisible (ep : EventParticipant) : Prop :=
  participantWritable db s ep ∨ appUserCanSeeEvent db s ep.eventId

/-- `event_admin_all`, `event_member_select` and `event_editor_select_own`. The
sub-select of the second is itself under the policies of `event_participant`. -/
def eventVisible (e : Event) : Prop :=
  s.role = .admin ∨
    ((s.role = .editor ∨ s.role = .viewer) ∧
      ∃ ep ∈ db.participants, participantVisible db s ep ∧ ep.eventId = e.id ∧
        ep.personId = s.personId) ∨
    (s.role = .editor ∧ e.createdBy = some s.userId)

def applicationVisible (a : Application) : Prop :=
  applicationWritable db s a ∨ appUserCanSeeEvent db s a.eventId ∨
    (s.role = .editor ∧ a.createdBy = some s.userId)

instance (e : Event) : Decidable (eventWritable s e) := by unfold eventWritable; infer_instance
instance (eid : Uuid) : Decidable (childWritable db s eid) := by
  unfold childWritable
  infer_instance
instance (ep : EventParticipant) : Decidable (participantWritable db s ep) :=
  inferInstanceAs (Decidable (childWritable db s ep.eventId))
instance (a : Application) : Decidable (applicationWritable db s a) :=
  inferInstanceAs (Decidable (childWritable db s a.eventId))
instance (ep : EventParticipant) : Decidable (participantVisible db s ep) := by
  unfold participantVisible
  infer_instance
instance (e : Event) : Decidable (eventVisible db s e) := by unfold eventVisible; infer_instance
instance (a : Application) : Decidable (applicationVisible db s a) := by
  unfold applicationVisible
  infer_instance

-- ---------------------------------------------------------------------------
-- application_restraint and the catalogs
-- ---------------------------------------------------------------------------

/-- The sub-select on `application` is under that table's policies. -/
def restraintWritable (r : ApplicationRestraint) : Prop :=
  s.role = .admin ∨
    (s.role = .editor ∧ ∃ a ∈ db.applications, applicationVisible db s a ∧
      a.id = r.applicationId ∧ appUserOwnsEvent db s a.eventId)

def restraintVisible (r : ApplicationRestraint) : Prop :=
  restraintWritable db s r ∨
    ∃ a ∈ db.applications, applicationVisible db s a ∧ a.id = r.applicationId ∧
      appUserCanSeeEvent db s a.eventId

def catalogVisible (c : CatalogEntry) : Prop :=
  s.role = .admin ∨ c.status = .approved ∨
    ((c.status = .pending ∨ c.status = .rejected) ∧ c.suggestedBy = some s.userId)

instance (r : ApplicationRestraint) : Decidable (restraintWritable db s r) := by
  unfold restraintWritable
  infer_instance
instance (r : ApplicationRestraint) : Decidable (restraintVisible db s r) := by
  unfold restraintVisible
  infer_instance
instance (c : CatalogEntry) : Decidable (catalogVisible s c) := by
  unfold catalogVisible
  infer_instance

-- ---------------------------------------------------------------------------
-- How the policies relate
-- ---------------------------------------------------------------------------

variable {db s} {eid : Uuid} {e : Event} {a : Application} {ep : EventParticipant}

theorem canSee_of_childWritable (h : childWritable db s eid) : appUserCanSeeEvent db s eid := by
  rcases h with h | ⟨hr, ho⟩
  · exact .inl h
  · exact .inr (.inr ⟨hr, ho⟩)

/-- The `SELECT` policies, which PostgreSQL also applies to the rows an
`UPDATE` or `DELETE` reads, take no writable row away. -/
theorem eventVisible_of_writable (h : eventWritable s e) : eventVisible db s e := by
  rcases h with h | h
  · exact .inl h
  · exact .inr (.inr h)

theorem applicationVisible_of_writable (h : applicationWritable db s a) :
    applicationVisible db s a := .inl h

theorem participantVisible_iff : participantVisible db s ep ↔ appUserCanSeeEvent db s ep.eventId :=
  ⟨fun h => h.elim canSee_of_childWritable id, .inr⟩

theorem applicationVisible_iff : applicationVisible db s a ↔
    appUserCanSeeEvent db s a.eventId ∨ (s.role = .editor ∧ a.createdBy = some s.userId) :=
  ⟨fun h => h.elim (fun hw => .inl (canSee_of_childWritable hw)) id, .inr⟩

/-- For a row of an application that exists once, the sub-select finds it. -/
theorem restraintWritable_iff {r : ApplicationRestraint} (ha : a ∈ db.applications)
    (hid : a.id = r.applicationId) : restraintWritable db s r ↔ applicationWritable db s a := by
  constructor
  · rintro (h | ⟨hr, a', ha', -, hid', ho⟩)
    · exact .inl h
    · obtain rfl := Table.eq_of_key ha' ha (hid'.trans hid.symm)
      exact .inr ⟨hr, ho⟩
  · intro h
    rcases id h with h' | ⟨hr, ho⟩
    · exact .inl h'
    · exact .inr ⟨hr, a, ha, applicationVisible_of_writable h, hid, ho⟩

theorem restraintVisible_iff {r : ApplicationRestraint} (ha : a ∈ db.applications)
    (hid : a.id = r.applicationId) :
    restraintVisible db s r ↔ appUserCanSeeEvent db s a.eventId := by
  constructor
  · rintro (hw | ⟨a', ha', -, hid', hsee⟩)
    · exact canSee_of_childWritable ((restraintWritable_iff ha hid).mp hw)
    · obtain rfl := Table.eq_of_key ha' ha (hid'.trans hid.symm)
      exact hsee
  · intro hsee
    exact .inr ⟨a, ha, .inr (.inl hsee), hid, hsee⟩

end HcMap
