import Mathlib.Data.List.Induction
import HcMap.Routes.Writes
import HcMap.Routes.Anchored

/-!
# Where a user's applications lie

An editor adds applications to the editor's own events alone, an admin to any.
The creator of an event, the event of an application and its creator never
change, so whatever lies in another user's event was added by an admin.
-/

namespace HcMap.Routes

structure SameOrigin (a a' : Application) : Prop where
  id : a'.id = a.id
  event : a'.eventId = a.eventId
  creator : a'.createdBy = a.createdBy

/-- The application lies in an event of the user who created it. -/
def AtHome (db : Database) (a : Application) : Prop :=
  ∀ u, a.createdBy = some u → ∃ e ∈ db.events, e.id = a.eventId ∧ e.createdBy = some u

/-- The request adds the application, and comes from its creator, who is an admin. -/
def AddedByAdmin (db : Database) (request : Request) (a : Application) : Prop :=
  ∃ s, authenticate db request.userId request.now = .ok s ∧ s.role = .admin ∧
    a.createdBy = some s.userId ∧ db.applications.find? a.id = none ∧
    ∃ a' ∈ (step db request).applications, SameOrigin a' a

def CreatedAsAdmin (db : Database) (requests : List Request) (a : Application) : Prop :=
  ∃ earlier request later, requests = earlier ++ request :: later ∧
    AddedByAdmin (Run.run step db earlier) request a

/-- Events stay below their creators, ids of applications stay taken, and what
is new was added by the session, by an editor in an event of the editor's own. -/
structure Grown (s : Session) (db db' : Database) : Prop where
  events : ∀ e ∈ db.events, ∃ e' ∈ db'.events, e'.id = e.id ∧ e'.createdBy = e.createdBy
  taken : ∀ a ∈ db.applications, ∃ a' ∈ db'.applications, a'.id = a.id
  applications : ∀ a' ∈ db'.applications, (∃ a ∈ db.applications, SameOrigin a a') ∨
    (db.applications.find? a'.id = none ∧ a'.createdBy = some s.userId ∧
      (s.role ≠ .admin → AtHome db' a'))

/-- The application was there before, and is at home if it was, or the session
added it, an editor at home. -/
def Accounted (s : Session) (db db' : Database) (a' : Application) : Prop :=
  (∃ a ∈ db.applications, SameOrigin a a' ∧ (AtHome db a → AtHome db' a')) ∨
    (db.applications.find? a'.id = none ∧ a'.createdBy = some s.userId ∧
      (s.role ≠ .admin → AtHome db' a'))

section
variable {db db' db'' : Database} {s : Session} {clock : Time} {clocks : Set Time}
  {may : Special → Prop} {a a' a'' : Application}

theorem SameOrigin.rfl : SameOrigin a a := ⟨Eq.refl _, Eq.refl _, Eq.refl _⟩

theorem SameOrigin.trans (h : SameOrigin a a') (h' : SameOrigin a' a'') : SameOrigin a a'' :=
  ⟨h'.id.trans h.id, h'.event.trans h.event, h'.creator.trans h.creator⟩

theorem AtHome.mono (h : AtHome db a) (hsame : SameOrigin a a')
    (hevents : ∀ e ∈ db.events, e.id = a.eventId →
      ∃ e' ∈ db'.events, e'.id = e.id ∧ e'.createdBy = e.createdBy) : AtHome db' a' := by
  intro u hu
  obtain ⟨e, he, hid, hby⟩ := h u (hsame.creator ▸ hu)
  obtain ⟨e', he', hid', hby'⟩ := hevents e he hid
  exact ⟨e', he', (hid'.trans hid).trans hsame.event.symm, hby'.trans hby⟩

theorem Grown.of_same (hevents : ∀ e ∈ db.events, e ∈ db'.events)
    (htaken : ∀ a ∈ db.applications, ∃ a' ∈ db'.applications, a'.id = a.id)
    (hold : ∀ a' ∈ db'.applications, ∃ a ∈ db.applications, SameOrigin a a') : Grown s db db' :=
  ⟨fun e he => ⟨e, hevents e he, rfl, rfl⟩, htaken, fun a' ha' => .inl (hold a' ha')⟩

theorem Grown.refl (s : Session) (db : Database) : Grown s db db :=
  .of_same (fun _ he => he) (fun a ha => ⟨a, ha, rfl⟩) fun a ha => ⟨a, ha, .rfl⟩

theorem Grown.trans (h : Grown s db db') (h' : Grown s db' db'') : Grown s db db'' where
  events e he := by
    obtain ⟨e', he', hid, hby⟩ := h.events e he
    obtain ⟨e'', he'', hid', hby'⟩ := h'.events e' he'
    exact ⟨e'', he'', hid'.trans hid, hby'.trans hby⟩
  taken a ha := by
    obtain ⟨a', ha', hid⟩ := h.taken a ha
    obtain ⟨a'', ha'', hid'⟩ := h'.taken a' ha'
    exact ⟨a'', ha'', hid'.trans hid⟩
  applications a'' ha'' := by
    rcases h'.applications a'' ha'' with ⟨a', ha', hsame'⟩ | ⟨hfresh, hby, hhome⟩
    · rcases h.applications a' ha' with ⟨a, ha, hsame⟩ | ⟨hfresh, hby, hhome⟩
      · exact .inl ⟨a, ha, hsame.trans hsame'⟩
      · refine .inr ⟨by rw [hsame'.id, hfresh], hsame'.creator.trans hby, fun hrole => ?_⟩
        exact (hhome hrole).mono hsame' fun e he _ => h'.events e he
    · refine .inr ⟨Table.find?_eq_none.mpr fun a ha hid => ?_, hby, hhome⟩
      obtain ⟨a', ha', hid'⟩ := h.taken a ha
      exact Table.find?_eq_none.mp hfresh a' ha' (hid'.trans hid)

-- ---------------------------------------------------------------------------
-- Each write
-- ---------------------------------------------------------------------------

theorem grown_applicationWritten {old new : Application} (hold : old ∈ db.applications)
    (hsame : SameOrigin old new) : Grown s db (Sync.applicationWritten db clock new) := by
  refine .of_same (fun _ he => he) (Table.keeps_set (fun _ => rfl) hold hsame.id hsame.id)
    fun a' ha' => ?_
  rcases Table.mem_set ha' with rfl | ⟨ha', -⟩
  · exact ⟨old, hold, hsame.id, hsame.event, hsame.creator⟩
  · exact ⟨a', ha', .rfl⟩

theorem Write.grown (hw : Write may s clock db db') (hevent : ∀ eid, ¬ may (.eventDelete eid))
    (happlication : ∀ aid, ¬ may (.applicationDelete aid)) : Grown s db db' := by
  have hsame : ∀ {db' : Database}, db'.events = db.events →
      db'.applications = db.applications → Grown s db db' := fun hevents happlications => by
    refine .of_same (fun _ he => hevents ▸ he) (fun a ha => ⟨a, happlications ▸ ha, rfl⟩)
      fun a ha => ⟨a, happlications ▸ ha, .rfl⟩
  cases hw with
  | eventInserted ht =>
    exact .of_same (fun _ he => (Table.mem_insert? ht).mpr (.inl he)) (fun a ha => ⟨a, ha, rfl⟩)
      fun a ha => ⟨a, ha, .rfl⟩
  | @eventWritten old new hold hid hby _ =>
    refine ⟨?_, fun a ha => ?_, fun a' ha' => ?_⟩
    · exact Table.keeps_set (fun _ => ⟨rfl, rfl⟩) (Table.mem_of_find? hold) hid ⟨hid, hby⟩
    · exact ⟨_, Services.mem_applications_eventWritten.mpr ⟨a, ha, rfl⟩, by simp⟩
    · obtain ⟨a, ha, rfl⟩ := Services.mem_applications_eventWritten.mp ha'
      exact .inl ⟨a, ha, by simp, by simp, by simp⟩
  | eventDeleted _ hmay => exact absurd hmay (hevent _)
  | linkInserted | restraintsSet | restraintsReplaced => exact hsame rfl rfl
  | linkDeleted =>
    unfold Database.deleteParticipant
    split <;> exact hsame rfl rfl
  | @applicationInserted a t ht hw _ hby =>
    refine ⟨fun e he => ⟨e, he, rfl, rfl⟩,
      fun a ha => ⟨a, (Table.mem_insert? ht).mpr (.inl ha), rfl⟩, fun a' ha' => ?_⟩
    rcases (Table.mem_insert? ht).mp ha' with ha' | rfl
    · exact .inl ⟨a', ha', .rfl⟩
    · refine .inr ⟨(Table.insert?_eq_some.mp ht).1, hby, fun hrole u hu => ?_⟩
      obtain ⟨-, e, he, hid, howner⟩ := hw.resolve_left hrole
      exact ⟨e, he, hid, howner.trans (hby.symm.trans hu)⟩
  | applicationWritten hold hid he hby => exact grown_applicationWritten hold ⟨hid, he, hby⟩
  | applicationPatched hold => exact grown_applicationWritten hold ⟨rfl, rfl, rfl⟩
  | applicationDeleted _ hmay => exact absurd hmay (happlication _)
  | personsMerged =>
    refine ⟨fun e he => ⟨e, he, rfl, rfl⟩, fun a ha => ?_, fun a' ha' => ?_⟩
    · exact ⟨_, Services.mem_applications_repoint_of_mem ha, by simp⟩
    · obtain ⟨a, ha, t, rfl⟩ := Services.mem_applications_repoint ha'
      exact .inl ⟨a, ha, rfl, rfl, rfl⟩

theorem Writes.grown (h : Writes may s clocks db db') (hevent : ∀ eid, ¬ may (.eventDelete eid))
    (happlication : ∀ aid, ¬ may (.applicationDelete aid)) : Grown s db db' :=
  h.rule (.refl s) (fun _ _ _ => .trans) fun _ _ _ _ hw => hw.grown hevent happlication

-- ---------------------------------------------------------------------------
-- Each request
-- ---------------------------------------------------------------------------

theorem deleteEvent_home {e : Event} (ha : a ∈ (db.deleteEvent s e).applications) :
    a ∈ db.applications ∧ (AtHome db a → AtHome (db.deleteEvent s e) a) := by
  unfold Database.deleteEvent at ha ⊢
  split at ha
  · rename_i hw
    obtain ⟨ha, hne⟩ := Table.mem_filter.mp ha
    refine ⟨ha, fun h => ?_⟩
    rw [if_pos hw]
    refine h.mono .rfl fun e' he' hid => ⟨e', Table.mem_filter.mpr ⟨he', ?_⟩, rfl, rfl⟩
    simpa [hid] using hne
  · rename_i hw
    rw [if_neg hw]
    exact ⟨ha, id⟩

theorem deleteApplication_home {x : Application}
    (ha : a ∈ (db.deleteApplication s x).applications) :
    a ∈ db.applications ∧ (AtHome db a → AtHome (db.deleteApplication s x) a) := by
  unfold Database.deleteApplication at ha ⊢
  split at ha
  · rename_i hw
    rw [if_pos hw]
    exact ⟨(Table.mem_filter.mp ha).1, id⟩
  · rename_i hw
    rw [if_neg hw]
    exact ⟨ha, id⟩

theorem Grown.accounted (h : Grown s db db') (ha' : a' ∈ db'.applications) :
    Accounted s db db' a' := by
  rcases h.applications a' ha' with ⟨a, ha, hsame⟩ | hnew
  · exact .inl ⟨a, ha, hsame, fun hhome => hhome.mono hsame fun e he _ => h.events e he⟩
  · exact .inr hnew

theorem execute_accounted {operation : Operation} (hx : execute db s clock operation = .ok db')
    (ha' : a' ∈ db'.applications) : Accounted s db db' a' := by
  cases operation with
  | deleteEvent eid =>
    cases execute_cases hx with
    | deleteEvent =>
      obtain ⟨ha, hhome⟩ := deleteEvent_home ha'
      exact .inl ⟨a', ha, .rfl, hhome⟩
  | deleteApplication aid =>
    cases execute_cases hx with
    | deleteApplication =>
      obtain ⟨ha, hhome⟩ := deleteApplication_home ha'
      exact .inl ⟨a', ha, .rfl, hhome⟩
  | _ =>
    rcases execute_writes hx with ⟨tables, -, rfl⟩ | hwrites
    · exact .inl ⟨a', ha', .rfl, id⟩
    · exact (hwrites.grown (by simp [Operation.may]) (by simp [Operation.may])).accounted ha'

theorem step_home (request : Request) (ha' : a' ∈ (step db request).applications) :
    (∃ a ∈ db.applications, SameOrigin a a' ∧ (AtHome db a → AtHome (step db request) a')) ∨
      AtHome (step db request) a' ∨ AddedByAdmin db request a' := by
  rcases step_cases db request with he | ⟨s, db', hs, hx, rfl⟩
  · rw [he] at ha' ⊢
    exact .inl ⟨a', ha', .rfl, id⟩
  · rcases execute_accounted hx ha' with hold | ⟨hfresh, hby, hhome⟩
    · exact .inl hold
    · by_cases hrole : s.role = .admin
      · exact .inr (.inr ⟨s, hs, hrole, hby, hfresh, a', ha', .rfl⟩)
      · exact .inr (.inl (hhome hrole))

-- ---------------------------------------------------------------------------
-- Every run
-- ---------------------------------------------------------------------------

theorem CreatedAsAdmin.more {requests : List Request} (h : CreatedAsAdmin db requests a)
    (hsame : SameOrigin a a') (request : Request) :
    CreatedAsAdmin db (requests ++ [request]) a' := by
  obtain ⟨earlier, r, later, rfl, s, hs, hrole, hby, hfresh, x, hx, hsame'⟩ := h
  refine ⟨earlier, r, later ++ [request], by simp, s, hs, hrole, ?_, ?_, x, hx, hsame'.trans hsame⟩
  · rw [hsame.creator, hby]
  · rw [hsame.id, hfresh]

/-- Whatever was requested: an application lies in an event of its creator, or was
added when its creator was an admin. -/
theorem run_home (hhome : ∀ a ∈ db.applications, AtHome db a) (requests : List Request) :
    ∀ a ∈ (Run.run step db requests).applications,
      AtHome (Run.run step db requests) a ∨ CreatedAsAdmin db requests a := by
  induction requests using List.reverseRecOn with
  | nil => exact fun a ha => .inl (hhome a ha)
  | append_singleton requests request ih =>
    rw [Run.run_append, Run.run_cons, Run.run_nil]
    intro a' ha'
    rcases step_home request ha' with ⟨a, ha, hsame, hkeep⟩ | hnew | hadded
    · exact (ih a ha).imp hkeep fun h => h.more hsame request
    · exact .inl hnew
    · exact .inr ⟨requests, request, [], rfl, hadded⟩

end

end HcMap.Routes
