import HcMap.Lib.Sql
import HcMap.Db.Policies

/-!
# The policies in SQL

The helper functions and the policies as the migrations spell them out, over
the settings of a transaction and with comparisons that may be unknown. A
setting that was never stamped reads as `NULL`, as `current_setting` with
`missing_ok` does.
-/

namespace HcMap.SqlPolicies

open Sql

structure Settings where
  currentRole : Option UserRole
  currentUserId : Option Uuid
  currentPersonId : Option Uuid
  deriving DecidableEq

variable (db : Database) (g : Settings)

-- ---------------------------------------------------------------------------
-- SECURITY DEFINER functions
-- ---------------------------------------------------------------------------

def appUserOwnsEvent (eid : Uuid) : Truth :=
  exists? db.events fun e => (eq (some e.id) (some eid)).and (eq e.createdBy g.currentUserId)

def appUserCanSeeEvent (eid : Uuid) : Truth :=
  ((eq g.currentRole (some .admin)).or
    (exists? db.participants fun ep =>
      (eq (some ep.eventId) (some eid)).and (eq (some ep.personId) g.currentPersonId))).or
    ((eq g.currentRole (some .editor)).and
      (exists? db.events fun e =>
        (eq (some e.id) (some eid)).and (eq e.createdBy g.currentUserId)))

-- ---------------------------------------------------------------------------
-- Policies
-- ---------------------------------------------------------------------------

def adminAll : Truth := eq g.currentRole (some .admin)

def editorModify (eid : Uuid) : Truth :=
  (eq g.currentRole (some .editor)).and (appUserOwnsEvent db g eid)

def editorSelectOwn (createdBy : Option Uuid) : Truth :=
  (eq g.currentRole (some .editor)).and (eq createdBy g.currentUserId)

def eventParticipantMemberSelect (ep : EventParticipant) : Truth :=
  appUserCanSeeEvent db g ep.eventId

/-- Permissive policies are joined by `OR`. -/
def eventParticipantSelect (ep : EventParticipant) : Truth :=
  ((adminAll g).or (eventParticipantMemberSelect db g ep)).or (editorModify db g ep.eventId)

/-- The rows of the sub-select are those its table's policies let pass. -/
def eventMemberSelect (e : Event) : Truth :=
  (isIn g.currentRole [.editor, .viewer]).and
    (exists? (db.participants.filter fun ep => (eventParticipantSelect db g ep).Holds) fun ep =>
      (eq (some ep.eventId) (some e.id)).and (eq (some ep.personId) g.currentPersonId))

def eventSelect (e : Event) : Truth :=
  ((adminAll g).or (eventMemberSelect db g e)).or (editorSelectOwn g e.createdBy)

def applicationMemberSelect (a : Application) : Truth := appUserCanSeeEvent db g a.eventId

def applicationSelect (a : Application) : Truth :=
  (((adminAll g).or (applicationMemberSelect db g a)).or (editorModify db g a.eventId)).or
    (editorSelectOwn g a.createdBy)

def applicationRestraintMemberSelect (r : ApplicationRestraint) : Truth :=
  exists? (db.applications.filter fun a => (applicationSelect db g a).Holds) fun a =>
    (eq (some a.id) (some r.applicationId)).and (appUserCanSeeEvent db g a.eventId)

def applicationRestraintEditorModify (r : ApplicationRestraint) : Truth :=
  (eq g.currentRole (some .editor)).and
    (exists? (db.applications.filter fun a => (applicationSelect db g a).Holds) fun a =>
      (eq (some a.id) (some r.applicationId)).and (appUserOwnsEvent db g a.eventId))

def applicationRestraintSelect (r : ApplicationRestraint) : Truth :=
  ((adminAll g).or (applicationRestraintMemberSelect db g r)).or
    (applicationRestraintEditorModify db g r)

def catalogSelect (c : CatalogEntry) : Truth :=
  ((eq g.currentRole (some .admin)).or (eq (some c.status) (some .approved))).or
    ((isIn (some c.status) [.pending, .rejected]).and (eq c.suggestedBy g.currentUserId))

-- ---------------------------------------------------------------------------
-- The two visibilities of an event
-- ---------------------------------------------------------------------------

variable {db g} {eid : Uuid} {e : Event}

theorem holds_appUserOwnsEvent :
    (appUserOwnsEvent db g eid).Holds ↔
      ∃ e ∈ db.events, e.id = eid ∧ ∃ u, e.createdBy = some u ∧ g.currentUserId = some u := by
  simp [appUserOwnsEvent, holds_eq, eq_comm]

/-- The helper's own sub-select on `event` looks at one row, the event's. -/
theorem owns_iff (he : e ∈ db.events) :
    (appUserOwnsEvent db g e.id).Holds ↔ (eq e.createdBy g.currentUserId).Holds := by
  rw [holds_appUserOwnsEvent, holds_eq]
  constructor
  · rintro ⟨e', he', hid, h⟩
    obtain rfl := Table.eq_of_key he' he hid
    exact h
  · intro h
    exact ⟨e, he, rfl, h⟩

def Member (db : Database) (g : Settings) (eid : Uuid) : Prop :=
  ∃ ep ∈ db.participants, ep.eventId = eid ∧ g.currentPersonId = some ep.personId

theorem holds_appUserCanSeeEvent :
    (appUserCanSeeEvent db g eid).Holds ↔
      g.currentRole = some .admin ∨ Member db g eid ∨
        (g.currentRole = some .editor ∧ (appUserOwnsEvent db g eid).Holds) := by
  simp [appUserCanSeeEvent, appUserOwnsEvent, Member, or_assoc, eq_comm]

theorem holds_eventParticipantSelect {ep : EventParticipant} :
    (eventParticipantSelect db g ep).Holds ↔ (appUserCanSeeEvent db g ep.eventId).Holds := by
  rw [holds_appUserCanSeeEvent]
  simp only [eventParticipantSelect, adminAll, editorModify, eventParticipantMemberSelect,
    holds_or, holds_and, holds_eq_some, holds_appUserCanSeeEvent]
  tauto

theorem holds_eventMemberSelect :
    (eventMemberSelect db g e).Holds ↔
      (g.currentRole = some .editor ∨ g.currentRole = some .viewer) ∧ Member db g e.id := by
  have hexists : (∃ ep ∈ db.participants.filter fun ep => (eventParticipantSelect db g ep).Holds,
      ep.eventId = e.id ∧ g.currentPersonId = some ep.personId) ↔ Member db g e.id := by
    constructor
    · rintro ⟨ep, hep, h⟩
      exact ⟨ep, (Table.mem_filter.mp hep).1, h⟩
    · rintro ⟨ep, hep, heid, hpid⟩
      have hvisible : (eventParticipantSelect db g ep).Holds := by
        rw [holds_eventParticipantSelect, holds_appUserCanSeeEvent]
        exact .inr (.inl ⟨ep, hep, rfl, hpid⟩)
      exact ⟨ep, Table.mem_filter.mpr ⟨hep, by simpa using hvisible⟩, heid, hpid⟩
  rw [← hexists]
  simp [eventMemberSelect, eq_comm]

theorem holds_eventSelect :
    (eventSelect db g e).Holds ↔
      g.currentRole = some .admin ∨
        ((g.currentRole = some .editor ∨ g.currentRole = some .viewer) ∧ Member db g e.id) ∨
        (g.currentRole = some .editor ∧ (eq e.createdBy g.currentUserId).Holds) := by
  simp [eventSelect, adminAll, editorSelectOwn, holds_eventMemberSelect, or_assoc]

theorem eventSelect_iff_canSee {role : UserRole} (hrole : g.currentRole = some role)
    (he : e ∈ db.events) :
    (eventSelect db g e).Holds ↔ (appUserCanSeeEvent db g e.id).Holds := by
  rw [holds_eventSelect, holds_appUserCanSeeEvent, owns_iff he, hrole]
  cases role with
  | admin => simp
  | editor => simp
  | viewer => simp

theorem eventSelect_iff_canSee_sample :
    (eventSelect sample ⟨some .editor, none, some 3⟩ sampleEvent).Holds :=
  (eventSelect_iff_canSee rfl (by decide)).mpr (by decide)

-- ---------------------------------------------------------------------------
-- The stamped session
-- ---------------------------------------------------------------------------

def settings (s : Session) : Settings := ⟨some s.role, some s.userId, some s.personId⟩

section
variable {s : Session} {a : Application} {c : CatalogEntry} {r : ApplicationRestraint}
  {ep : EventParticipant}

theorem appUserOwnsEvent_settings :
    (appUserOwnsEvent db (settings s) eid).Holds ↔ HcMap.appUserOwnsEvent db s eid := by
  simp [appUserOwnsEvent, HcMap.appUserOwnsEvent, settings, eq_comm]

theorem appUserCanSeeEvent_settings :
    (appUserCanSeeEvent db (settings s) eid).Holds ↔ HcMap.appUserCanSeeEvent db s eid := by
  rw [holds_appUserCanSeeEvent, appUserOwnsEvent_settings]
  simp [Member, HcMap.appUserCanSeeEvent, HcMap.appUserOwnsEvent, settings, eq_comm]

theorem editorModify_settings :
    (adminAll (settings s)).Holds ∨ (editorModify db (settings s) eid).Holds ↔
      childWritable db s eid := by
  rw [editorModify, holds_and, appUserOwnsEvent_settings]
  simp [adminAll, childWritable, settings]

theorem eventParticipantSelect_settings :
    (eventParticipantSelect db (settings s) ep).Holds ↔ participantVisible db s ep := by
  rw [holds_eventParticipantSelect, appUserCanSeeEvent_settings, participantVisible_iff]

theorem eventSelect_settings : (eventSelect db (settings s) e).Holds ↔ eventVisible db s e := by
  simp only [eventSelect, adminAll, eventMemberSelect, editorSelectOwn, holds_or, holds_and,
    holds_exists?, Table.mem_filter, decide_eq_true_eq, eventParticipantSelect_settings]
  simp [eventVisible, settings, or_assoc, and_assoc, eq_comm]

theorem applicationSelect_settings :
    (applicationSelect db (settings s) a).Holds ↔ applicationVisible db s a := by
  rw [applicationSelect, holds_or, holds_or, holds_or, applicationMemberSelect,
    appUserCanSeeEvent_settings]
  have hmodify : applicationWritable db s a ↔
      (adminAll (settings s)).Holds ∨ (editorModify db (settings s) a.eventId).Holds :=
    editorModify_settings.symm
  have hown : (editorSelectOwn (settings s) a.createdBy).Holds ↔
      s.role = .editor ∧ a.createdBy = some s.userId := by
    simp [editorSelectOwn, settings]
  unfold applicationVisible
  rw [hmodify, hown]
  tauto

theorem applicationRestraintSelect_settings :
    (applicationRestraintSelect db (settings s) r).Holds ↔ restraintVisible db s r := by
  simp only [applicationRestraintSelect, adminAll, applicationRestraintMemberSelect,
    applicationRestraintEditorModify, holds_or, holds_and, holds_exists?, Table.mem_filter,
    decide_eq_true_eq, applicationSelect_settings, appUserCanSeeEvent_settings,
    appUserOwnsEvent_settings]
  simp only [restraintVisible, restraintWritable, settings, holds_eq_some, and_assoc,
    Option.some.injEq]
  exact or_right_comm

theorem catalogSelect_settings : (catalogSelect (settings s) c).Holds ↔ catalogVisible s c := by
  simp [catalogSelect, catalogVisible, settings, or_assoc, eq_comm]

end

end HcMap.SqlPolicies
