import HcMap.Sync.Isolation

/-!
# Lost updates

Pushes carry whole documents. `pushes_keep_iff`: a run of pushes by any
clients overwrites no field that its client left untouched exactly when every
accepted update finds the fields that it leaves untouched unwritten, or with the
assumed value.
-/

namespace HcMap.Sync

open Services (eventWritten childAfter_eq find?_applications_eventWritten
  find?_events_eventWritten_self)

-- ---------------------------------------------------------------------------
-- Last-write-wins fields
-- ---------------------------------------------------------------------------

inductive EventField
  | title
  | note
  | timePrecision
  | revealParticipants
  | legacyExternalRef
  deriving DecidableEq

def EventField.Agree : EventField → EventDoc → EventDoc → Prop
  | .title, d, d' => d.title = d'.title
  | .note, d, d' => d.note = d'.note
  | .timePrecision, d, d' => d.timePrecision = d'.timePrecision
  | .revealParticipants, d, d' => d.revealParticipants = d'.revealParticipants
  | .legacyExternalRef, d, d' => d.legacyExternalRef = d'.legacyExternalRef

inductive ApplicationField
  | performer
  | recipient
  | armPosition
  | handPosition
  | handOrientation
  | note
  | restraints
  deriving DecidableEq

def ApplicationField.Agree : ApplicationField → ApplicationDoc → ApplicationDoc → Prop
  | .performer, d, d' => d.performerId = d'.performerId
  | .recipient, d, d' => d.recipientId = d'.recipientId
  | .armPosition, d, d' => d.armPositionId = d'.armPositionId
  | .handPosition, d, d' => d.handPositionId = d'.handPositionId
  | .handOrientation, d, d' => d.handOrientationId = d'.handOrientationId
  | .note, d, d' => d.note = d'.note
  | .restraints, d, d' => ∀ rid, rid ∈ d.restraintTypeIds ↔ rid ∈ d'.restraintTypeIds

/-- Nobody has written the field since `assumed`. The row's stamp tells for its
columns; a push of nothing but a restraint set leaves the stamp as it is. -/
def ApplicationField.Unwritten : ApplicationField → ApplicationDoc → ApplicationDoc → Prop
  | .restraints, stored, assumed => ApplicationField.restraints.Agree stored assumed
  | _, stored, assumed => stored.updatedAt = assumed.updatedAt

def storedDoc (db : Database) (a : Application) : ApplicationDoc :=
  applicationToDoc a
    ((db.restraints.rows.filter fun r => r.applicationId = a.id).map
      ApplicationRestraint.restraintTypeId)

theorem EventField.equivalence (f : EventField) : Equivalence f.Agree := by
  cases f <;> exact ⟨fun _ => Eq.refl _, Eq.symm, Eq.trans⟩

theorem ApplicationField.equivalence (f : ApplicationField) : Equivalence f.Agree := by
  cases f
  case restraints => exact ⟨fun _ _ => .rfl, fun h rid => (h rid).symm,
    fun h h' rid => (h rid).trans (h' rid)⟩
  all_goals exact ⟨fun _ => Eq.refl _, Eq.symm, Eq.trans⟩

theorem EventField.Agree.rfl {f : EventField} {d : EventDoc} : f.Agree d d :=
  f.equivalence.refl d

theorem ApplicationField.Agree.rfl {f : ApplicationField} {d : ApplicationDoc} : f.Agree d d :=
  f.equivalence.refl d

/-- A write after which every field holds the value of `new` changes only what
its client changed, or a field unwritten since, exactly when each field the client
left untouched is unwritten or as assumed. -/
theorem write_keeps_iff {φ δ : Type} {Agree : φ → δ → δ → Prop} {before after assumed new : δ}
    {unwritten : φ → Prop} (hequiv : ∀ f, Equivalence (Agree f))
    (hwritten : ∀ f, Agree f after new) :
    (∀ f, ¬ Agree f before after → ¬ Agree f assumed new ∨ unwritten f) ↔
      ∀ f, Agree f assumed new → unwritten f ∨ Agree f before assumed := by
  refine forall_congr' fun f => ⟨fun h hsame => ?_, fun h hne => ?_⟩
  · by_contra hnot
    obtain ⟨hun, hne⟩ := not_or.mp hnot
    refine (h fun hafter => hne ?_).elim (fun hchanged => hchanged hsame) hun
    exact (hequiv f).trans hafter ((hequiv f).trans (hwritten f) ((hequiv f).symm hsame))
  · by_cases hsame : Agree f assumed new
    · refine .inr ((h hsame).resolve_right fun hbefore => hne ?_)
      exact (hequiv f).trans hbefore ((hequiv f).trans hsame ((hequiv f).symm (hwritten f)))
    · exact .inl hsame

-- ---------------------------------------------------------------------------
-- Items that keep what others wrote
-- ---------------------------------------------------------------------------

/-- An accepted event item changes a field of an event only if it is the
item's own event and the client changed the field, or the row has not been
written since the assumed state; it changes no application's field. -/
def EventItemKeeps (s : Session) (db : Database) (item : Time × EventPushItem) : Prop :=
  ∀ db', pushEvent s db item = .ok (db', []) →
    (∀ id before after (f : EventField), db.events.find? id = some before →
      db'.events.find? id = some after → ¬ f.Agree (eventToDoc before) (eventToDoc after) →
      id = item.2.newDocumentState.id ∧ ∃ assumed, item.2.assumedMasterState = some assumed ∧
        (¬ f.Agree assumed item.2.newDocumentState ∨ before.updatedAt = assumed.updatedAt)) ∧
    ∀ id before after (f : ApplicationField), db.applications.find? id = some before →
      db'.applications.find? id = some after → f.Agree (storedDoc db before) (storedDoc db' after)

def ApplicationItemKeeps (s : Session) (db : Database) (item : Time × ApplicationPushItem) : Prop :=
  ∀ db', pushApplication s db item = .ok (db', []) →
    (∀ id before after (f : ApplicationField), db.applications.find? id = some before →
      db'.applications.find? id = some after →
      ¬ f.Agree (storedDoc db before) (storedDoc db' after) →
      id = item.2.newDocumentState.id ∧ ∃ assumed, item.2.assumedMasterState = some assumed ∧
        (¬ f.Agree assumed item.2.newDocumentState ∨ f.Unwritten (storedDoc db before) assumed)) ∧
    ∀ id before after (f : EventField), db.events.find? id = some before →
      db'.events.find? id = some after → f.Agree (eventToDoc before) (eventToDoc after)

/-- An update the session may write finds each field that the client left
untouched unwritten since the assumed state, or with its value. -/
def EventItemCurrent (s : Session) (db : Database) (item : EventPushItem) : Prop :=
  ∀ existing assumed, EventUpdateAllowed s db item existing → eventWritable s existing →
    item.assumedMasterState = some assumed →
      ∀ f : EventField, f.Agree assumed item.newDocumentState →
        existing.updatedAt = assumed.updatedAt ∨ f.Agree (eventToDoc existing) assumed

def ApplicationItemCurrent (s : Session) (db : Database) (item : ApplicationPushItem) : Prop :=
  ∀ existing assumed, ApplicationUpdateAllowed s db item existing →
    applicationWritable db s existing → PersonsKnown db existing item.newDocumentState →
    item.assumedMasterState = some assumed →
      ∀ f : ApplicationField, f.Agree assumed item.newDocumentState →
        f.Unwritten (storedDoc db existing) assumed ∨ f.Agree (storedDoc db existing) assumed

-- ---------------------------------------------------------------------------
-- Event items
-- ---------------------------------------------------------------------------

section
variable {s : Session} {db db' : Database} {clock : Time} {item : EventPushItem} {existing : Event}

theorem agree_storedDoc {a : Application} {f : ApplicationField}
    (h : ∀ rid, HasRestraint db' a.id rid ↔ HasRestraint db a.id rid) :
    f.Agree (storedDoc db a) (storedDoc db' a) := by
  have hmem : ∀ (db : Database) rid,
      rid ∈ (storedDoc db a).restraintTypeIds ↔ HasRestraint db a.id rid := fun db rid => by
    simp [storedDoc, applicationToDoc, HasRestraint, Table.mem_rows, and_assoc]
  cases f
  case restraints => exact fun rid => (hmem db rid).trans ((h rid).symm.trans (hmem db' rid).symm)
  all_goals exact Eq.refl _

theorem agree_childAfter {old new : Event} {a : Application} {f : ApplicationField}
    (hr : db'.restraints = db.restraints) :
    f.Agree (storedDoc db a) (storedDoc db' (Services.childAfter clock old new a)) := by
  obtain ⟨_, _, _, _, h⟩ := childAfter_eq clock old new a
  rw [h]
  cases f
  case restraints =>
    intro rid
    simp [storedDoc, applicationToDoc, hr]
  all_goals exact Eq.refl _

theorem agree_of_not_eventChanges {newDoc : EventDoc} (f : EventField)
    (h : ¬ EventChanges existing newDoc) : f.Agree (eventToDoc existing) newDoc := by
  simp only [EventChanges, ne_eq, not_or, not_not] at h
  obtain ⟨-, htitle, hnote, hprec, hrev, hleg, -⟩ := h
  cases f
  · exact htitle.symm
  · exact hnote.symm
  · exact hprec.symm
  · exact hrev.symm
  · exact hleg.symm

theorem pushEvent_agrees (clock : Time) (h : EventUpdateAllowed s db item existing)
    (hw : eventWritable s existing) :
    ∃ db' after, pushEvent s db (clock, item) = .ok (db', []) ∧
      db'.events.find? existing.id = some after ∧
      ∀ f : EventField, f.Agree (eventToDoc after) item.newDocumentState := by
  rw [pushEvent_update h]
  by_cases hc : EventChanges existing item.newDocumentState
  · refine ⟨eventWritten db clock existing
        (applyEventUpdate existing item.newDocumentState clock),
      { applyEventUpdate existing item.newDocumentState clock with updatedAt := clock },
      by simp [hc, hw], find?_events_eventWritten_self clock existing (by simp [h.find]), ?_⟩
    intro f
    cases f <;> exact Eq.refl _
  · exact ⟨db, existing, by simp [hc], h.find, fun f => agree_of_not_eventChanges f hc⟩

theorem pushEvent_changed {before after : Event} {f : EventField}
    (hcur : EventItemCurrent s db item) (hallow : EventUpdateAllowed s db item existing)
    (hw : eventWritable s existing) (hp : pushEvent s db (clock, item) = .ok (db', []))
    (hbefore : db.events.find? item.newDocumentState.id = some before)
    (hafter : db'.events.find? item.newDocumentState.id = some after)
    (hne : ¬ f.Agree (eventToDoc before) (eventToDoc after)) :
    ∃ assumed, item.assumedMasterState = some assumed ∧
      (¬ f.Agree assumed item.newDocumentState ∨ before.updatedAt = assumed.updatedAt) := by
  obtain ⟨db'', after', hp', hafter', hagree⟩ := pushEvent_agrees clock hallow hw
  rw [hp] at hp'
  obtain ⟨rfl, -⟩ := Prod.mk.inj (Except.ok.inj hp')
  rw [hallow.id_eq] at hafter'
  obtain rfl := Option.some.inj (hafter.symm.trans hafter')
  have hbefore' := hallow.find
  rw [hallow.id_eq] at hbefore'
  obtain rfl := Option.some.inj (hbefore.symm.trans hbefore')
  obtain ⟨assumed, hm⟩ := Option.isSome_iff_exists.mp hallow.update
  exact ⟨assumed, hm, (write_keeps_iff EventField.equivalence hagree).mpr
    (hcur before assumed hallow hw hm) f hne⟩

theorem pushEvent_applications_agree {id : Uuid} {before after : Application}
    {f : ApplicationField} (hp : pushEvent s db (clock, item) = .ok (db', []))
    (hbefore : db.applications.find? id = some before)
    (hafter : db'.applications.find? id = some after) :
    f.Agree (storedDoc db before) (storedDoc db' after) := by
  have hcases := pushEvent_cases s db clock item
  rw [hp] at hcases
  cases hcases with
  | inserted t =>
    rw [ensureParticipant_applications] at hafter
    obtain rfl := Option.some.inj (hbefore.symm.trans hafter)
    exact agree_storedDoc fun rid => hasRestraint_congr (by simp)
  | untouched =>
    obtain rfl := Option.some.inj (hbefore.symm.trans hafter)
    exact .rfl
  | written existing =>
    rw [find?_applications_eventWritten, hbefore] at hafter
    obtain rfl := Option.some.inj hafter
    exact agree_childAfter rfl

theorem eventItemKeeps_iff :
    EventItemKeeps s db (clock, item) ↔ EventItemCurrent s db item := by
  constructor
  · intro hkeeps existing assumed hallow hw hm
    obtain ⟨db', after, hp, hafter, hagree⟩ := pushEvent_agrees clock hallow hw
    refine (write_keeps_iff EventField.equivalence hagree).mp fun f hne => ?_
    obtain ⟨-, m, hm', hjust⟩ := (hkeeps db' hp).1 existing.id existing after f hallow.find hafter
      hne
    obtain rfl := Option.some.inj (hm.symm.trans hm')
    exact hjust
  · intro hcur db' hp
    refine ⟨?_, fun id before after f => pushEvent_applications_agree hp⟩
    intro id before after f hbefore hafter hne
    by_cases hid : id = item.newDocumentState.id
    · refine ⟨hid, ?_⟩
      subst hid
      have hcases := pushEvent_cases s db clock item
      rw [hp] at hcases
      cases hcases with
      | inserted t _ _ ht =>
        have := (Table.insert?_eq_some.mp ht).1
        simp only [key_event, newEvent, hbefore] at this
        cases this
      | untouched existing hallow =>
        obtain rfl := Option.some.inj (hbefore.symm.trans hafter)
        exact absurd .rfl hne
      | written existing hallow hc hw =>
        exact pushEvent_changed hcur hallow hw hp hbefore hafter hne
    · rw [(pushEvent_frame hp hid).1, hbefore] at hafter
      obtain rfl := Option.some.inj hafter
      exact absurd .rfl hne

end

-- ---------------------------------------------------------------------------
-- Application items
-- ---------------------------------------------------------------------------

section
variable {s : Session} {db db' : Database} {clock : Time} {item : ApplicationPushItem}
  {existing : Application}

theorem agree_storedDoc_of_fields {a : Application} {newDoc : ApplicationDoc}
    (hfields : a.performerId = newDoc.performerId ∧ a.recipientId = newDoc.recipientId ∧
      a.armPositionId = newDoc.armPositionId ∧ a.handPositionId = newDoc.handPositionId ∧
      a.handOrientationId = newDoc.handOrientationId ∧ a.note = newDoc.note)
    (hset : ∀ rid, HasRestraint db a.id rid ↔ rid ∈ newDoc.restraintTypeIds)
    (f : ApplicationField) : f.Agree (storedDoc db a) newDoc := by
  obtain ⟨hperf, hrec, harm, hhand, hori, hnote⟩ := hfields
  cases f
  case restraints =>
    intro rid
    rw [← hset rid]
    simp [storedDoc, applicationToDoc, HasRestraint, Table.mem_rows, and_assoc]
  all_goals assumption

theorem pushApplication_agrees (clock : Time) (h : ApplicationUpdateAllowed s db item existing)
    (hw : applicationWritable db s existing)
    (hp : PersonsKnown db existing item.newDocumentState) :
    ∃ db' after, pushApplication s db (clock, item) = .ok (db', []) ∧
      db'.applications.find? existing.id = some after ∧
      ∀ f : ApplicationField, f.Agree (storedDoc db' after) item.newDocumentState := by
  rw [pushApplication_update h]
  by_cases hc : ApplicationChanges existing item.newDocumentState
  · refine ⟨syncApplicationRestraints
        (applicationWritten db clock
          (applyApplicationUpdate existing item.newDocumentState clock))
        s existing.id item.newDocumentState.restraintTypeIds,
      { applyApplicationUpdate existing item.newDocumentState clock with updatedAt := clock },
      by simp [hc, hw, hp], ?_, agree_storedDoc_of_fields ⟨rfl, rfl, rfl, rfl, rfl, rfl⟩
        fun rid => hasRestraint_applicationWritten h hw⟩
    rw [syncApplicationRestraints_applications]
    exact find?_applicationWritten_self db clock (by simp [h.find])
  · refine ⟨_, existing, by simp [hc], by simpa using h.find, agree_storedDoc_of_fields ?_
      fun rid => hasRestraint_syncApplicationRestraints h.mem rfl hw
        fun rid hrid => restraintsAllowed_isSome h.restraints hrid⟩
    simp only [ApplicationChanges, ne_eq, not_or, not_not] at hc
    obtain ⟨-, hperf, hrec, harm, hhand, hori, hnote, -⟩ := hc
    exact ⟨hperf.symm, hrec.symm, harm.symm, hhand.symm, hori.symm, hnote.symm⟩

theorem personsKnown_of_not_changes (h : ¬ ApplicationChanges existing item.newDocumentState) :
    PersonsKnown db existing item.newDocumentState := by
  simp only [ApplicationChanges, ne_eq, not_or, not_not] at h
  exact ⟨.inl h.2.1, .inl h.2.2.1⟩

theorem pushApplication_changed {before after : Application} {f : ApplicationField}
    (hcur : ApplicationItemCurrent s db item)
    (hallow : ApplicationUpdateAllowed s db item existing)
    (hw : applicationWritable db s existing)
    (hknown : PersonsKnown db existing item.newDocumentState)
    (hp : pushApplication s db (clock, item) = .ok (db', []))
    (hbefore : db.applications.find? item.newDocumentState.id = some before)
    (hafter : db'.applications.find? item.newDocumentState.id = some after)
    (hne : ¬ f.Agree (storedDoc db before) (storedDoc db' after)) :
    ∃ assumed, item.assumedMasterState = some assumed ∧
      (¬ f.Agree assumed item.newDocumentState ∨ f.Unwritten (storedDoc db before) assumed) := by
  obtain ⟨db'', after', hp', hafter', hagree⟩ := pushApplication_agrees clock hallow hw hknown
  rw [hp] at hp'
  obtain ⟨rfl, -⟩ := Prod.mk.inj (Except.ok.inj hp')
  rw [hallow.id_eq] at hafter'
  obtain rfl := Option.some.inj (hafter.symm.trans hafter')
  have hbefore' := hallow.find
  rw [hallow.id_eq] at hbefore'
  obtain rfl := Option.some.inj (hbefore.symm.trans hbefore')
  obtain ⟨assumed, hm⟩ := Option.isSome_iff_exists.mp hallow.update
  exact ⟨assumed, hm, (write_keeps_iff ApplicationField.equivalence hagree).mpr
    (hcur before assumed hallow hw hknown hm) f hne⟩

theorem applicationItemKeeps_iff :
    ApplicationItemKeeps s db (clock, item) ↔ ApplicationItemCurrent s db item := by
  constructor
  · intro hkeeps existing assumed hallow hw hknown hm
    obtain ⟨db', after, hp, hafter, hagree⟩ := pushApplication_agrees clock hallow hw hknown
    refine (write_keeps_iff ApplicationField.equivalence hagree).mp fun f hne => ?_
    obtain ⟨-, m, hm', hjust⟩ := (hkeeps db' hp).1 existing.id existing after f hallow.find hafter
      hne
    obtain rfl := Option.some.inj (hm.symm.trans hm')
    exact hjust
  · intro hcur db' hp
    refine ⟨?_, ?_⟩
    · intro id before after f hbefore hafter hne
      by_cases hid : id = item.newDocumentState.id
      · refine ⟨hid, ?_⟩
        subst hid
        have hcases := pushApplication_cases s db clock item
        rw [hp] at hcases
        cases hcases with
        | inserted t _ _ ht =>
          have := (Table.insert?_eq_some.mp ht).1
          simp only [key_application, newApplication, hbefore] at this
          cases this
        | untouched existing hallow hc =>
          by_cases hw : applicationWritable db s existing
          · exact pushApplication_changed hcur hallow hw (personsKnown_of_not_changes hc) hp hbefore
              hafter hne
          · rw [syncApplicationRestraints_readonly hallow.mem rfl hw] at hafter hne
            obtain rfl := Option.some.inj (hbefore.symm.trans hafter)
            exact absurd .rfl hne
        | written existing hallow hc hw hknown =>
          exact pushApplication_changed hcur hallow hw hknown hp hbefore hafter hne
      · obtain ⟨hfind, hset⟩ := pushApplication_frame hp hid
        rw [hfind, hbefore] at hafter
        obtain rfl := Option.some.inj hafter
        have hbid : before.id = id := Table.key_of_find? hbefore
        subst hbid
        exact absurd (agree_storedDoc hset) hne
    · intro id before after f hbefore hafter
      rw [pushApplication_events hp, hbefore] at hafter
      obtain rfl := Option.some.inj hafter
      exact .rfl

end

-- ---------------------------------------------------------------------------
-- Runs of pushes
-- ---------------------------------------------------------------------------

inductive Push
  | events (s : Session) (items : List (Time × EventPushItem))
  | applications (s : Session) (items : List (Time × ApplicationPushItem))

def Push.step (db : Database) : Push → Database
  | .events s items =>
    match pushEvents s db items with
    | .ok (db', _) => db'
    | .error _ => db
  | .applications s items =>
    match pushApplications s db items with
    | .ok (db', _) => db'
    | .error _ => db

def Push.Keeps (db : Database) : Push → Prop
  | .events s items =>
    (pushEvents s db items).isOk → Batch.Along (pushEvent s) (EventItemKeeps s) db items
  | .applications s items =>
    (pushApplications s db items).isOk →
      Batch.Along (pushApplication s) (ApplicationItemKeeps s) db items

/-- Of a request that returns, every update finds its row current. -/
def Push.Current (db : Database) : Push → Prop
  | .events s items =>
    (pushEvents s db items).isOk →
      Batch.Along (pushEvent s) (fun db item => EventItemCurrent s db item.2) db items
  | .applications s items =>
    (pushApplications s db items).isOk →
      Batch.Along (pushApplication s) (fun db item => ApplicationItemCurrent s db item.2) db items

theorem Push.keeps_iff (db : Database) (push : Push) : push.Keeps db ↔ push.Current db := by
  cases push with
  | events s items =>
    refine imp_congr_right fun _ => ⟨fun h => h.mono ?_, fun h => h.mono ?_⟩
    · exact fun db item => eventItemKeeps_iff.mp
    · exact fun db item => eventItemKeeps_iff.mpr
  | applications s items =>
    refine imp_congr_right fun _ => ⟨fun h => h.mono ?_, fun h => h.mono ?_⟩
    · exact fun db item => applicationItemKeeps_iff.mp
    · exact fun db item => applicationItemKeeps_iff.mpr

/-- A run of pushes by any clients loses no update exactly when every accepted
update finds its row current. -/
theorem pushes_keep_iff (db : Database) (pushes : List Push) :
    Run.Along Push.step (fun db push => push.Keeps db) db pushes ↔
      Run.Along Push.step (fun db push => push.Current db) db pushes :=
  ⟨fun h => h.mono fun db push => (push.keeps_iff db).mp,
    fun h => h.mono fun db push => (push.keeps_iff db).mpr⟩

def sampleNoted : EventDoc := { eventToDoc sampleEvent with note := some sampleNote }

/-- Both clients hold the event as `sampleEvent`; the admin's title is lost to
the owner's push of a note. -/
def stalePushes : List Push :=
  [.events sampleAdmin [(50, ⟨some (eventToDoc sampleEvent), sampleTitled⟩)],
    .events sampleOwner [(60, ⟨some (eventToDoc sampleEvent), sampleNoted⟩)]]

theorem stalePushes_not_keep :
    ¬ Run.Along Push.step (fun db push => push.Keeps db) sample stalePushes := by
  rintro ⟨-, hkeeps, -⟩
  have hcur := ((Push.keeps_iff _ _).mp hkeeps (by decide +kernel)).1
  have hallow : EventUpdateAllowed sampleOwner
      (Push.step sample (.events sampleAdmin
        [(50, ⟨some (eventToDoc sampleEvent), sampleTitled⟩)]))
      ⟨some (eventToDoc sampleEvent), sampleNoted⟩
      { sampleEvent with title := some sampleTitle, updatedAt := 50 } :=
    ⟨by decide +kernel, rfl, by decide +kernel⟩
  rcases hcur _ _ hallow (by decide) rfl .title rfl with h | h
  · exact absurd h (by decide)
  · exact absurd h (by simp [EventField.Agree, eventToDoc, sampleEvent])

end HcMap.Sync
