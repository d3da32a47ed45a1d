import HcMap.Routes.Writes
import HcMap.Routes.Anchored

/-!
# Write integrity

What a user who is not an admin sends leaves every event of somebody else as
it is, with its applications, links and restraint sets, whatever the order of
requests and pushes.
-/

namespace HcMap.Routes

open Sync (applicationWritten)
open Services (eventWritten)

def Foreign (db : Database) (userId eid : Uuid) : Prop :=
  ∃ e ∈ db.events, e.id = eid ∧ e.createdBy ≠ some userId

/-- No row that belongs to somebody else's event was inserted, changed or
deleted. -/
structure SameForeign (userId : Uuid) (db db' : Database) : Prop where
  events : ∀ e : Event, e.createdBy ≠ some userId → (e ∈ db'.events ↔ e ∈ db.events)
  participants : ∀ ep : EventParticipant, Foreign db userId ep.eventId →
    (ep ∈ db'.participants ↔ ep ∈ db.participants)
  applications : ∀ a : Application, Foreign db userId a.eventId →
    (a ∈ db'.applications ↔ a ∈ db.applications)
  restraints : ∀ (r : ApplicationRestraint), ∀ a ∈ db.applications, a.id = r.applicationId →
    Foreign db userId a.eventId → (r ∈ db'.restraints ↔ r ∈ db.restraints)

section
variable {db db' db'' : Database} {s : Session} {clock : Time} {userId eid : Uuid}

theorem SameForeign.refl (userId : Uuid) (db : Database) : SameForeign userId db db :=
  ⟨fun _ _ => .rfl, fun _ _ => .rfl, fun _ _ => .rfl, fun _ _ _ _ _ => .rfl⟩

theorem SameForeign.foreign (h : SameForeign userId db db') :
    Foreign db' userId eid ↔ Foreign db userId eid := by
  constructor
  · rintro ⟨e, he, hid, hby⟩
    exact ⟨e, (h.events e hby).mp he, hid, hby⟩
  · rintro ⟨e, he, hid, hby⟩
    exact ⟨e, (h.events e hby).mpr he, hid, hby⟩

theorem SameForeign.trans (h : SameForeign userId db db') (h' : SameForeign userId db' db'') :
    SameForeign userId db db'' where
  events e hby := (h'.events e hby).trans (h.events e hby)
  participants ep hf := (h'.participants ep (h.foreign.mpr hf)).trans (h.participants ep hf)
  applications a hf := (h'.applications a (h.foreign.mpr hf)).trans (h.applications a hf)
  restraints r a ha hid hf :=
    (h'.restraints r a ((h.applications a hf).mpr ha) hid (h.foreign.mpr hf)).trans
      (h.restraints r a ha hid hf)

theorem SameForeign.of_events (he : db'.events = db.events)
    (hp : ∀ ep : EventParticipant, Foreign db userId ep.eventId →
      (ep ∈ db'.participants ↔ ep ∈ db.participants))
    (ha : ∀ a : Application, Foreign db userId a.eventId →
      (a ∈ db'.applications ↔ a ∈ db.applications))
    (hr : ∀ (r : ApplicationRestraint), ∀ a ∈ db.applications, a.id = r.applicationId →
      Foreign db userId a.eventId → (r ∈ db'.restraints ↔ r ∈ db.restraints)) :
    SameForeign userId db db' :=
  ⟨fun _ _ => by rw [he], hp, ha, hr⟩

-- ---------------------------------------------------------------------------
-- What the policies let write is not foreign
-- ---------------------------------------------------------------------------

theorem not_foreign_of_childWritable (hr : s.role ≠ .admin) (h : childWritable db s eid) :
    ¬ Foreign db s.userId eid := by
  rintro ⟨e, he, hid, hby⟩
  rcases h with hadmin | ⟨-, own, hown, hid', hby'⟩
  · exact hr hadmin
  · obtain rfl := Table.eq_of_key he hown (hid.trans hid'.symm)
    exact hby hby'

theorem createdBy_of_eventWritable {e : Event} (hr : s.role ≠ .admin) (h : eventWritable s e) :
    e.createdBy = some s.userId := by
  rcases h with hadmin | ⟨-, hby⟩
  · exact absurd hadmin hr
  · exact hby

theorem not_foreign_of_eventWritable {e : Event} (hr : s.role ≠ .admin) (he : e ∈ db.events)
    (h : eventWritable s e) : ¬ Foreign db s.userId e.id := by
  rintro ⟨e', he', hid, hby⟩
  obtain rfl := Table.eq_of_key he' he hid
  exact hby (createdBy_of_eventWritable hr h)

-- ---------------------------------------------------------------------------
-- Each write
-- ---------------------------------------------------------------------------

theorem SameForeign.eventWritten {old new : Event} (hr : s.role ≠ .admin) (hold : old ∈ db.events)
    (hid : new.id = old.id) (hby : new.createdBy = old.createdBy) (hw : eventWritable s old) :
    SameForeign s.userId db (eventWritten db clock old new) := by
  have hown := createdBy_of_eventWritable hr hw
  have hne : ∀ eid, Foreign db s.userId eid → eid ≠ new.id := by
    rintro eid hf rfl
    exact not_foreign_of_eventWritable hr hold hw (hid ▸ hf)
  constructor
  · intro e he
    constructor
    · intro hm
      rcases Services.mem_events_eventWritten hm with rfl | ⟨hm, -⟩
      · exact absurd (hby.trans hown) he
      · exact hm
    · intro hm
      refine Table.mem_set_of_ne hm fun hk => he ?_
      obtain rfl := Table.eq_of_key hm hold (hk.trans hid)
      exact hown
  · intro ep hf
    rw [Services.mem_participants_eventWritten]
    constructor
    · rintro ⟨r, hm, rfl⟩
      rw [Services.linkAfter_eventId] at hf
      rwa [Services.linkAfter_of_ne (hne _ hf)]
    · intro hm
      exact ⟨ep, hm, Services.linkAfter_of_ne (hne _ hf)⟩
  · intro a hf
    rw [Services.mem_applications_eventWritten]
    constructor
    · rintro ⟨r, hm, rfl⟩
      rw [Services.childAfter_eventId] at hf
      rwa [Services.childAfter_of_ne (hne _ hf)]
    · intro hm
      exact ⟨a, hm, Services.childAfter_of_ne (hne _ hf)⟩
  · intro r a _ _ _
    exact .rfl

theorem SameForeign.deleteEvent {e : Event} (hr : s.role ≠ .admin) (he : e ∈ db.events) :
    SameForeign s.userId db (db.deleteEvent s e) := by
  unfold Database.deleteEvent
  split
  · rename_i hw
    have hne : ∀ eid, Foreign db s.userId eid → eid ≠ e.id := by
      rintro eid hf rfl
      exact not_foreign_of_eventWritable hr he hw hf
    constructor
    · intro e' hby
      rw [Table.mem_filter]
      refine and_iff_left_of_imp fun hm => ?_
      have : e'.id ≠ e.id := hne _ ⟨e', hm, rfl, hby⟩
      simpa using this
    · intro ep hf
      rw [Table.mem_filter]
      exact and_iff_left (by simpa using hne _ hf)
    · intro a hf
      rw [Table.mem_filter]
      exact and_iff_left (by simpa using hne _ hf)
    · intro r a ha hid hf
      rw [Table.mem_filter]
      refine and_iff_left ?_
      simp only [decide_eq_true_eq]
      intro a' ha' hid'
      obtain rfl := Table.eq_of_key ha' ha (hid'.trans hid.symm)
      exact hne _ hf
  · exact .refl s.userId db

theorem SameForeign.deleteApplication {a : Application} (hr : s.role ≠ .admin)
    (ha : a ∈ db.applications) : SameForeign s.userId db (db.deleteApplication s a) := by
  unfold Database.deleteApplication
  split
  · rename_i hw
    have hne : ∀ a' ∈ db.applications, Foreign db s.userId a'.eventId → a'.id ≠ a.id := by
      intro a' ha' hf hid
      obtain rfl := Table.eq_of_key ha' ha hid
      exact not_foreign_of_childWritable hr hw hf
    refine .of_events rfl (fun _ _ => .rfl) (fun a' hf => ?_) fun r a' ha' hid hf => ?_
    · rw [Table.mem_filter]
      exact and_iff_left_of_imp fun hm => by simpa using hne a' hm hf
    · rw [Table.mem_filter]
      exact and_iff_left (by simpa [hid] using hne a' ha' hf)
  · exact .refl s.userId db

theorem SameForeign.deleteParticipant {ep : EventParticipant} (hr : s.role ≠ .admin)
    (hep : ep ∈ db.participants) : SameForeign s.userId db (db.deleteParticipant s ep) := by
  unfold Database.deleteParticipant
  split
  · rename_i hw
    refine .of_events rfl (fun ep' hf => ?_) (fun _ _ => .rfl) fun _ _ _ _ _ => .rfl
    rw [Table.mem_filter]
    refine and_iff_left_of_imp fun hm => ?_
    have : ep'.id ≠ ep.id := by
      intro hid
      obtain rfl := Table.eq_of_key hm hep hid
      exact not_foreign_of_childWritable hr hw hf
    simpa using this
  · exact .refl s.userId db

theorem SameForeign.applicationWritten {old new : Application} (hr : s.role ≠ .admin)
    (hold : old ∈ db.applications) (hid : new.id = old.id) (he : new.eventId = old.eventId)
    (hw : applicationWritable db s old) :
    SameForeign s.userId db (applicationWritten db clock new) := by
  have hf : ¬ Foreign db s.userId old.eventId := not_foreign_of_childWritable hr hw
  refine .of_events rfl (fun _ _ => .rfl) (fun a hfa => ⟨fun hm => ?_, fun hm => ?_⟩)
    fun _ _ _ _ _ => .rfl
  · rcases Table.mem_set hm with rfl | ⟨hm, -⟩
    · exact absurd (he ▸ hfa) hf
    · exact hm
  · refine Table.mem_set_of_ne hm fun hk => ?_
    obtain rfl := Table.eq_of_key hm hold (hk.trans hid)
    exact hf hfa

theorem SameForeign.restraintsChanged {a : Application} {restraints : Table ApplicationRestraint}
    (hr : s.role ≠ .admin) (h : RestraintsChanged db s a restraints) :
    SameForeign s.userId db { db with restraints := restraints } := by
  refine .of_events rfl (fun _ _ => .rfl) (fun _ _ => .rfl) fun r a' ha' hid hf => ?_
  refine h.others r fun hra => ?_
  obtain rfl := Table.eq_of_key ha' h.mem (hid.trans hra)
  exact not_foreign_of_childWritable hr h.writable hf

theorem Write.sameForeign {may : Special → Prop} (hr : s.role ≠ .admin)
    (h : Write may s clock db db') :
    SameForeign s.userId db db' := by
  cases h with
  | eventInserted ht hw hby hat =>
    refine ⟨fun e he => ?_, fun _ _ => .rfl, fun _ _ => .rfl, fun _ _ _ _ _ => .rfl⟩
    rw [Table.mem_insert? ht]
    refine or_iff_left ?_
    rintro rfl
    exact he hby
  | eventWritten hold hid hby hw => exact .eventWritten hr (Table.mem_of_find? hold) hid hby hw
  | eventDeleted he _ => exact .deleteEvent hr he
  | linkInserted ht hw he hat =>
    refine .of_events rfl (fun ep hf => ?_) (fun _ _ => .rfl) fun _ _ _ _ _ => .rfl
    rw [Table.mem_insert? ht]
    refine or_iff_left ?_
    rintro rfl
    exact not_foreign_of_childWritable hr hw hf
  | linkDeleted hep _ => exact .deleteParticipant hr hep
  | applicationInserted ht hw he hby hat hpos =>
    refine .of_events rfl (fun _ _ => .rfl) (fun a hf => ?_) fun _ _ _ _ _ => .rfl
    rw [Table.mem_insert? ht]
    refine or_iff_left ?_
    rintro rfl
    exact not_foreign_of_childWritable hr hw hf
  | applicationWritten hold hid he hby hw hpos => exact .applicationWritten hr hold hid he hw
  | applicationPatched hold hw _ => exact .applicationWritten hr hold rfl rfl hw
  | applicationDeleted ha _ => exact .deleteApplication hr ha
  | restraintsSet h hat => exact .restraintsChanged hr h
  | restraintsReplaced h _ => exact .restraintsChanged hr h
  | personsMerged hadmin hne hfree => exact absurd hadmin hr

-- ---------------------------------------------------------------------------
-- Every run
-- ---------------------------------------------------------------------------

/-- The request is this user's, who is an editor or a viewer when it comes. -/
def AsNonAdmin (userId : Uuid) (db : Database) (request : Request) : Prop :=
  request.userId = userId ∧ ∀ user ∈ db.users, user.id = userId → user.role ≠ .admin

instance (userId : Uuid) (db : Database) (request : Request) :
    Decidable (AsNonAdmin userId db request) := by
  unfold AsNonAdmin
  infer_instance

theorem authenticate_ok {now : Time} (h : authenticate db userId now = .ok s) :
    ∃ user ∈ db.users, user.id = userId ∧ user.isActive = true ∧
      s = ⟨user.id, user.role, user.personId, now⟩ := by
  unfold authenticate at h
  split at h
  · rename_i user hfind
    split at h
    · rename_i hactive
      cases h
      exact ⟨user, Table.mem_of_find? hfind, Table.key_of_find? hfind, hactive, rfl⟩
    · cases h
  · cases h

theorem step_sameForeign {request : Request} (h : AsNonAdmin userId db request) :
    SameForeign userId db (step db request) := by
  rcases step_cases db request with he | ⟨s, db', hs, hx, he⟩
  · rw [he]
    exact .refl userId db
  · obtain ⟨user, hmem, hid, -, rfl⟩ := authenticate_ok hs
    have hrole : user.role ≠ .admin := h.2 user hmem (hid.trans h.1)
    obtain rfl : user.id = userId := hid.trans h.1
    rw [he]
    rcases execute_writes hx with ⟨tables, -, rfl⟩ | hwrites
    · exact .of_events rfl (fun _ _ => .rfl) (fun _ _ => .rfl) fun _ _ _ _ _ => .rfl
    · exact hwrites.rule (SameForeign.refl user.id) (fun _ _ _ => SameForeign.trans)
        fun _ _ _ _ hw => hw.sameForeign hrole

/-- No sequence of requests and pushes of a user who is not an admin touches
what belongs to somebody else's event. -/
theorem run_sameForeign (userId : Uuid) (db : Database) (requests : List Request)
    (h : Run.Along step (AsNonAdmin userId) db requests) :
    SameForeign userId db (Run.run step db requests) := by
  induction requests generalizing db with
  | nil => exact .refl userId db
  | cons request requests ih => exact (step_sameForeign h.1).trans (ih (step db request) h.2)

end

def guestRequests : List Request :=
  [⟨3, 100, 100, .deleteEvent 1⟩, ⟨3, 101, 101, .removeParticipant 1 2⟩,
    ⟨3, 102, 102, .deleteApplication 1⟩]

theorem guestRequests_confined : SameForeign 3 sample (Run.run step sample guestRequests) :=
  run_sameForeign 3 sample guestRequests (by decide)

end HcMap.Routes
