import HcMap.Routes.Requests
import HcMap.Sync.Frames

/-!
# What a request does

Every operation that succeeds changes the database in one of a few ways: it
adds an event or an application with its participants, writes one event with
its cascades, writes one application, adds or removes a link, deletes, or
merges two persons. `execute_cases` says which operation does what.
-/

namespace HcMap.Routes

open Sync (ApplicationPushItem)
open Services (EventCreate EventStart EventUpdate ApplicationCreate ApplicationLiveStart
  ApplicationUpdate flush flush_ok autoStopOnEnd eventWritten)

-- ---------------------------------------------------------------------------
-- Success of a step
-- ---------------------------------------------------------------------------

section
variable {α β ε : Type}

theorem bind_ok {x : Except ε α} {f : α → Except ε β} {b : β} :
    (x >>= f) = .ok b ↔ ∃ a, x = .ok a ∧ f a = .ok b := by
  cases x <;> simp [bind, Except.bind]

@[simp] theorem pure_ok {a b : α} : (pure a : Except ε α) = .ok b ↔ a = b := by
  simp [pure, Except.pure]

@[simp] theorem throw_ok {e : ε} {b : α} : ¬ (throw e : Except ε α) = .ok b := by
  simp [throw, throwThe, MonadExceptOf.throw]

end

-- ---------------------------------------------------------------------------
-- The ways to change the database
-- ---------------------------------------------------------------------------

/-- The people of `pids` become participants of the event, if the session can
make them so. -/
def addLinks (db : Database) (s : Session) (clock : Time) (eid : Uuid) (pids : List Uuid) :
    Database :=
  pids.foldl (fun db pid => Sync.ensureParticipant db s clock eid pid) db

inductive EventAdded (db : Database) (s : Session) (clock : Time) (e : Event) : Database → Prop
  | mk (t : Table Event) (pids : List Uuid) (ht : db.events.insert? e = some t) :
      EventAdded db s clock e (addLinks { db with events := t } s clock e.id pids)

inductive EventChanged (db : Database) (clock : Time) (old new : Event) : Database → Prop
  | same (h : new = old) : EventChanged db clock old new db
  | written (h : old ∈ db.events) (hid : new.id = old.id) :
      EventChanged db clock old new (eventWritten db clock old new)

/-- The application is new; its performer and its recipient became
participants, and it has some restraint set. -/
inductive ApplicationAdded (db : Database) (s : Session) (clock : Time) (a : Application) :
    Database → Prop
  | mk (t : Table Application) (restraints : Table ApplicationRestraint)
      (ht : db.applications.insert? a = some t) (hw : childWritable db s a.eventId)
      (he : (db.events.find? a.eventId).isSome) (hp : (db.persons.find? a.performerId).isSome)
      (hr : (db.persons.find? a.recipientId).isSome) :
      ApplicationAdded db s clock a
        { Sync.ensureParticipants { db with applications := t } s clock a.eventId a.performerId
            a.recipientId with restraints := restraints }

inductive ApplicationChanged (db : Database) (clock : Time) (old new : Application) :
    Database → Prop
  | same (restraints : Table ApplicationRestraint) (h : new = old) :
      ApplicationChanged db clock old new { db with restraints := restraints }
  | written (restraints : Table ApplicationRestraint) (h : old ∈ db.applications)
      (hid : new.id = old.id) (he : new.eventId = old.eventId) :
      ApplicationChanged db clock old new
        { Sync.applicationWritten db clock new with restraints := restraints }

/-- What an operation that succeeds leaves. The items of a push have their own
outcomes. -/
inductive Effect (db : Database) (s : Session) (clock : Time) : Operation → Database → Prop
  | pushEvents {items} {ds} {db'} (h : Sync.pushEvents s db items = .ok (db', ds)) :
      Effect db s clock (.pushEvents items) db'
  | pushApplications {items} {ds} {db'} (h : Sync.pushApplications s db items = .ok (db', ds)) :
      Effect db s clock (.pushApplications items) db'
  | createEvent {payload} {e : Event} {db'} (hlive : e.isDeleted = false)
      (h : EventAdded db s clock e db') : Effect db s clock (.createEvent payload) db'
  | startEvent {payload} {e : Event} {db'} (hlive : e.isDeleted = false)
      (h : EventAdded db s clock e db') : Effect db s clock (.startEvent payload) db'
  | endEvent {eid} {e : Event} {db'} (hlive : e.isDeleted = false) (hrun : e.endedAt = none)
      (h : EventChanged db clock e { e with endedAt := some clock } db') :
      Effect db s clock (.endEvent eid) db'
  | endedEvent {eid} : Effect db s clock (.endEvent eid) db
  | patchEvent {eid} {payload : EventUpdate} {e : Event} {db'} (hlive : e.isDeleted = false)
      (h : EventChanged db clock e (payload.apply e) db') :
      Effect db s clock (.patchEvent eid payload) db'
  | deleteEvent {eid} {e : Event} : Effect db s clock (.deleteEvent eid) (db.deleteEvent s e)
  | addParticipant {eid pid} :
      Effect db s clock (.addParticipant eid pid) (Sync.ensureParticipant db s clock eid pid)
  | removeParticipant {eid pid} {ep : EventParticipant} (hep : ep ∈ db.participants)
      (he : ep.eventId = eid) (hp : ep.personId = pid) :
      Effect db s clock (.removeParticipant eid pid) (db.deleteParticipant s ep)
  | createApplication {eid} {payload : ApplicationCreate} {strict} {a : Application} {db'}
      (he : a.eventId = eid) (hp : a.performerId = payload.performerId)
      (hr : a.recipientId = payload.recipientId) (hend : a.endedAt = payload.endedAt)
      (h : ApplicationAdded db s clock a db') :
      Effect db s clock (.createApplication eid payload strict) db'
  | startApplication {eid} {payload : ApplicationLiveStart} {a : Application} {db'}
      (he : a.eventId = eid) (hp : a.performerId = payload.performerId.getD s.personId)
      (hr : a.recipientId = payload.recipientId.getD s.personId)
      (h : ApplicationAdded db s clock a db') :
      Effect db s clock (.startApplication eid payload) db'
  | patchApplication {aid} {payload : ApplicationUpdate} {a : Application} {db'}
      (hfind : db.applications.find? aid = some a) (hlive : a.isDeleted = false)
      (h : ApplicationChanged db clock a (payload.apply a) db') :
      Effect db s clock (.patchApplication aid payload) db'
  | endApplication {aid} {a : Application} {db'} (hmem : a ∈ db.applications)
      (hlive : a.isDeleted = false) (hrun : a.endedAt = none)
      (h : ApplicationChanged db clock a { a with endedAt := some clock } db') :
      Effect db s clock (.endApplication aid) db'
  | endedApplication {aid} : Effect db s clock (.endApplication aid) db
  | deleteApplication {aid} {a : Application} :
      Effect db s clock (.deleteApplication aid) (db.deleteApplication s a)
  | mergePerson {sid tid} {source : Person} (hne : sid ≠ tid) :
      Effect db s clock (.mergePerson sid tid)
        (Services.repoint db clock source sid tid)
  | editEvent {eid} {note} {reveal deleted : Bool} {e : Event} {db'}
      (hfind : db.events.find? eid = some e)
      (h : EventChanged db clock e
        { e with note := note, revealParticipants := reveal, isDeleted := deleted } db') :
      Effect db s clock (.editEvent eid note reveal deleted) db'
  | writeReference {tables} : Effect db s clock (.writeReference tables) (writeReference db tables)

-- ---------------------------------------------------------------------------
-- Links
-- ---------------------------------------------------------------------------

section
variable {db db' : Database} {s : Session} {clock : Time} {eid pid : Uuid} {pids : List Uuid}
  {ep : EventParticipant}

theorem addParticipant_ok (h : Services.addParticipant db s clock eid pid = .ok db') :
    db' = Sync.ensureParticipant db s clock eid pid := by
  unfold Services.addParticipant at h
  unfold Sync.ensureParticipant
  split at h
  · rename_i hv
    simp only [hv, if_true]
    exact (Except.ok.inj h).symm
  · rename_i hv
    simp only [hv, if_false, flush_ok.mp h]

theorem addLinks_eq (db : Database) (s : Session) (clock : Time) (eid : Uuid) (pids : List Uuid) :
    ∃ t, addLinks db s clock eid pids = { db with participants := t } := by
  induction pids generalizing db with
  | nil => exact ⟨db.participants, rfl⟩
  | cons pid pids ih =>
    obtain ⟨t, ht⟩ := Sync.ensureParticipant_eq db s clock eid pid
    obtain ⟨t', ht'⟩ := ih (Sync.ensureParticipant db s clock eid pid)
    exact ⟨t', ht'.trans (by rw [ht])⟩

theorem mem_addLinks (h : ep ∈ (addLinks db s clock eid pids).participants) :
    ep ∈ db.participants ∨ (ep.eventId = eid ∧ ep.isDeleted = false) := by
  induction pids generalizing db with
  | nil => exact .inl h
  | cons pid pids ih =>
    rcases ih h with h | h
    · rcases Sync.mem_ensureParticipant h with h | ⟨-, -, -, -, rfl⟩
      · exact .inl h
      · exact .inr ⟨rfl, rfl⟩
    · exact .inr h

end

-- ---------------------------------------------------------------------------
-- Each operation
-- ---------------------------------------------------------------------------

section
variable {db db' : Database} {s : Session} {clock : Time} {eid pid aid : Uuid}

theorem orNotFound_ok {α : Type} {o : Option α} {a : α} : orNotFound o = .ok a ↔ o = some a := by
  cases o <;> simp [orNotFound]

theorem getEvent_live {e : Event} (h : Services.getEvent db s eid = some e) :
    db.events.find? e.id = some e ∧ e.isDeleted = false := by
  obtain ⟨hg, hlive⟩ := Option.filter_eq_some_iff.mp h
  have hfind := (Database.getEvent_eq_some.mp hg).1
  rw [← Table.key_of_find? hfind] at hfind
  exact ⟨hfind, by simpa using hlive⟩

theorem getApplication_live {a : Application} (h : Services.getApplication db s aid = some a) :
    db.applications.find? aid = some a ∧ a.isDeleted = false := by
  obtain ⟨hg, hlive⟩ := Option.filter_eq_some_iff.mp h
  exact ⟨(Database.getApplication_eq_some.mp hg).1, by simpa using hlive⟩

theorem buildDetail_ok (h : buildDetail db s eid = .ok db') : db' = db := by
  obtain ⟨_, -, h⟩ := bind_ok.mp h
  exact (pure_ok.mp h).symm

theorem serviceCreateEvent_ok {payload : EventCreate}
    (h : Services.createEvent db s clock payload = .ok (db', eid)) :
    ∃ (e : Event) (t : Table Event), e.isDeleted = false ∧ e.endedAt = payload.endedAt ∧
      e.id = eid ∧ db.events.insert? e = some t ∧ db' = { db with events := t } := by
  obtain ⟨db₁, hf, h⟩ := bind_ok.mp h
  obtain ⟨rfl, rfl⟩ := Prod.mk.inj (pure_ok.mp h)
  obtain ⟨-, -, t, ht, rfl⟩ := Database.insertRow_ok.mp (flush_ok.mp hf)
  exact ⟨_, t, rfl, rfl, rfl, ht, rfl⟩

theorem createEvent_ok {payload : EventCreate} (h : createEvent db s clock payload = .ok db') :
    ∃ e : Event, e.isDeleted = false ∧ EventAdded db s clock e db' := by
  obtain ⟨⟨db₁, eid⟩, hc, h⟩ := bind_ok.mp h
  obtain ⟨e, t, hlive, -, rfl, ht, rfl⟩ := serviceCreateEvent_ok hc
  dsimp only at h
  obtain ⟨db₂, hl, h⟩ := bind_ok.mp h
  rw [buildDetail_ok h, addParticipant_ok hl]
  exact ⟨e, hlive, .mk t [s.personId] ht⟩

theorem startEvent_ok {payload : EventStart} (h : startEvent db s clock payload = .ok db') :
    ∃ e : Event, e.isDeleted = false ∧ e.endedAt = none ∧ EventAdded db s clock e db' := by
  obtain ⟨⟨db₁, eid⟩, hs, h⟩ := bind_ok.mp h
  obtain rfl := buildDetail_ok h
  obtain ⟨⟨db₂, eid₂⟩, hc, hs⟩ := bind_ok.mp hs
  obtain ⟨e, t, hlive, hrun, rfl, ht, rfl⟩ := serviceCreateEvent_ok hc
  dsimp only at hs
  obtain ⟨db₃, hl, hs⟩ := bind_ok.mp hs
  obtain rfl := addParticipant_ok hl
  refine ⟨e, hlive, hrun, ?_⟩
  split at hs
  · obtain ⟨rfl, -⟩ := Prod.mk.inj (pure_ok.mp hs)
    exact .mk t [s.personId] ht
  · rename_i rid _
    split at hs
    · obtain ⟨db₄, hl', hs⟩ := bind_ok.mp hs
      obtain ⟨rfl, -⟩ := Prod.mk.inj (pure_ok.mp hs)
      rw [addParticipant_ok hl']
      exact .mk t [s.personId, rid] ht
    · obtain ⟨rfl, -⟩ := Prod.mk.inj (pure_ok.mp hs)
      exact .mk t [s.personId] ht

theorem eventChanged_of_stop {db₁ : Database} {old new : Event}
    (hold : db.events.find? old.id = some old) (hid : new.id = old.id)
    (hc : new.createdBy = old.createdBy) (h : db.updateEvent s clock old new = .ok db₁) :
    EventChanged db clock old new (autoStopOnEnd db₁ s clock old new) := by
  rcases Services.updateEvent_then_autoStop hold hid hc h with ⟨hn, he⟩ | ⟨-, -, he⟩
  · rw [he]
    exact .same hn
  · rw [he]
    exact .written (Table.mem_of_find? hold) hid

theorem endEvent_ok (h : endEvent db s clock eid = .ok db') :
    db' = db ∨ ∃ e : Event, e.id = eid ∧ e.isDeleted = false ∧ e.endedAt = none ∧
      EventChanged db clock e { e with endedAt := some clock } db' := by
  obtain ⟨e, he, h⟩ := bind_ok.mp h
  obtain ⟨db₁, h, hd⟩ := bind_ok.mp h
  obtain rfl := buildDetail_ok hd
  have he := orNotFound_ok.mp he
  have hid := Table.key_of_find?
    (Database.getEvent_eq_some.mp (Option.filter_eq_some_iff.mp he).1).1
  obtain ⟨hfind, hlive⟩ := getEvent_live he
  cases hend : e.endedAt with
  | some t =>
    simp only [Services.endEvent, hend] at h
    exact .inl (Except.ok.inj h).symm
  | none =>
    simp only [Services.endEvent, hend] at h
    obtain ⟨db₂, hf, h⟩ := bind_ok.mp h
    rw [← pure_ok.mp h]
    exact .inr ⟨e, hid, hlive, hend, eventChanged_of_stop hfind rfl rfl (flush_ok.mp hf)⟩

theorem patchEvent_ok {payload : EventUpdate} (h : patchEvent db s clock eid payload = .ok db') :
    ∃ e : Event, e.isDeleted = false ∧ EventChanged db clock e (payload.apply e) db' := by
  obtain ⟨e, he, h⟩ := bind_ok.mp h
  obtain ⟨db₁, h, hd⟩ := bind_ok.mp h
  obtain rfl := buildDetail_ok hd
  obtain ⟨hfind, hlive⟩ := getEvent_live (orNotFound_ok.mp he)
  unfold Services.updateEvent at h
  obtain ⟨_, -, h⟩ := bind_ok.mp h
  obtain ⟨db₂, hf, h⟩ := bind_ok.mp h
  rw [← pure_ok.mp h]
  exact ⟨e, hlive, eventChanged_of_stop hfind rfl rfl (flush_ok.mp hf)⟩

theorem editEvent_ok {note : Option Text} {reveal deleted : Bool}
    (h : editEvent db s clock eid note reveal deleted = .ok db') :
    ∃ e, db.events.find? eid = some e ∧ EventChanged db clock e
      { e with note := note, revealParticipants := reveal, isDeleted := deleted } db' := by
  obtain ⟨_, -, h⟩ := bind_ok.mp h
  obtain ⟨e, he, h⟩ := bind_ok.mp h
  have hfind := (Database.getEvent_eq_some.mp (orNotFound_ok.mp he)).1
  refine ⟨e, hfind, ?_⟩
  rw [← Table.key_of_find? hfind] at hfind
  -- `ended_at` stays, so there is nothing to stop.
  have hstop : ∀ new : Event, new.endedAt = e.endedAt → ∀ db,
      autoStopOnEnd db s clock e new = db := by
    intro new hnew db
    unfold autoStopOnEnd
    rw [hnew]
    cases e.endedAt <;> rfl
  have := eventChanged_of_stop hfind (by exact rfl) (by exact rfl) (flush_ok.mp h)
  rwa [hstop _ (by exact rfl)] at this

theorem removeParticipant_ok (h : Services.removeParticipant db s eid pid = .ok db') :
    ∃ ep ∈ db.participants, ep.eventId = eid ∧ ep.personId = pid ∧
      db' = db.deleteParticipant s ep := by
  unfold Services.removeParticipant at h
  split at h
  · cases h
  · rename_i ep hfind
    have := List.find?_some hfind
    simp only [decide_eq_true_eq] at this
    exact ⟨ep, List.mem_of_find?_eq_some hfind, this.2.1, this.2.2, (Except.ok.inj h).symm⟩

theorem addRestraints_ok {ids : List Uuid}
    (h : ids.foldlM (fun db rid => flush (db.insertRestraint s ⟨aid, rid, s.now⟩)) db = .ok db') :
    ∃ t, db' = { db with restraints := t } := by
  induction ids generalizing db with
  | nil => exact ⟨db.restraints, (pure_ok.mp h).symm⟩
  | cons rid ids ih =>
    rw [List.foldlM_cons] at h
    obtain ⟨db₁, hf, h⟩ := bind_ok.mp h
    obtain ⟨-, -, t, -, rfl⟩ := Database.insertRow_ok.mp (flush_ok.mp hf)
    obtain ⟨t', rfl⟩ := ih h
    exact ⟨t', rfl⟩

theorem addApplication_ok {a : Application} {ids : List Uuid}
    (h : Services.addApplication db s clock a ids = .ok db') :
    ApplicationAdded db s clock a db' := by
  unfold Services.addApplication at h
  obtain ⟨db₁, hf, h⟩ := bind_ok.mp h
  obtain ⟨hw, ⟨⟨he, hp, hr, -⟩, -⟩, t, ht, rfl⟩ := Database.insertRow_ok.mp (flush_ok.mp hf)
  obtain ⟨db₂, hl, h⟩ := bind_ok.mp h
  obtain ⟨db₃, hl', h⟩ := bind_ok.mp h
  obtain ⟨restraints, rfl⟩ := addRestraints_ok h
  have : db₃ = Sync.ensureParticipants { db with applications := t } s clock a.eventId
      a.performerId a.recipientId := by
    unfold Sync.ensureParticipants
    rw [addParticipant_ok hl] at hl'
    by_cases hne : a.recipientId ≠ a.performerId
    · rw [if_pos hne] at hl' ⊢
      exact addParticipant_ok hl'
    · rw [if_neg hne] at hl' ⊢
      exact (pure_ok.mp hl').symm
  rw [this]
  exact .mk t restraints ht hw he hp hr

theorem applicationChanged_of_flush {old new : Application} (hold : old ∈ db.applications)
    (hid : new.id = old.id) (he : new.eventId = old.eventId)
    (h : db.updateApplication s clock old new = .ok db') :
    ApplicationChanged db clock old new db' := by
  rcases Database.updateApplication_ok.mp h with ⟨hn, rfl⟩ | ⟨-, -, -, rfl⟩
  · exact .same db'.restraints hn
  · exact .written db.restraints hold hid he

theorem patchApplication_ok {payload : ApplicationUpdate}
    (h : patchApplication db s clock aid payload = .ok db') :
    ∃ a, db.applications.find? aid = some a ∧ a.isDeleted = false ∧
      ApplicationChanged db clock a (payload.apply a) db' := by
  obtain ⟨a, ha, h⟩ := bind_ok.mp h
  obtain ⟨hfind, hlive⟩ := getApplication_live (orNotFound_ok.mp ha)
  unfold Services.updateApplication at h
  obtain ⟨_, -, h⟩ := bind_ok.mp h
  exact ⟨a, hfind, hlive,
    applicationChanged_of_flush (Table.mem_of_find? hfind) rfl rfl (flush_ok.mp h)⟩

theorem endApplication_ok (h : endApplication db s clock aid = .ok db') :
    db' = db ∨ ∃ a, db.applications.find? aid = some a ∧ a.isDeleted = false ∧ a.endedAt = none ∧
      ApplicationChanged db clock a { a with endedAt := some clock } db' := by
  obtain ⟨a, ha, h⟩ := bind_ok.mp h
  obtain ⟨hfind, hlive⟩ := getApplication_live (orNotFound_ok.mp ha)
  cases hend : a.endedAt with
  | some t =>
    simp only [Services.endApplication, hend] at h
    exact .inl (Except.ok.inj h).symm
  | none =>
    simp only [Services.endApplication, hend] at h
    exact .inr ⟨a, hfind, hlive, hend,
      applicationChanged_of_flush (Table.mem_of_find? hfind) rfl rfl (flush_ok.mp h)⟩

/-- What a merge has checked when it succeeds. -/
theorem mergePersons_ok {sid tid : Uuid}
    (h : Services.mergePersons db clock sid tid = .ok db') :
    sid ≠ tid ∧
      (∃ target, db.persons.find? tid = some target ∧ target.isDeleted = false) ∧
      (∀ u ∈ db.users, u.personId ≠ sid ∧ u.personId ≠ tid) ∧
      ∃ source, db.persons.find? sid = some source ∧
        db' = Services.repoint db clock source sid tid := by
  obtain ⟨_, hne, h⟩ := bind_ok.mp h
  refine ⟨Services.rejectIf_ok.mp hne, ?_⟩
  split at h
  · rename_i source hsource
    split at h
    · rename_i target htarget
      obtain ⟨_, -, h⟩ := bind_ok.mp h
      obtain ⟨_, hlive, h⟩ := bind_ok.mp h
      obtain ⟨_, hunlinked, h⟩ := bind_ok.mp h
      refine ⟨⟨target, htarget, ?_⟩, fun u hu => ?_, source, hsource, (pure_ok.mp h).symm⟩
      · simpa using Services.rejectIf_ok.mp hlive
      · rw [← not_or]
        exact fun hor => Services.rejectIf_ok.mp hunlinked ⟨u, hu, hor⟩
    · exact absurd h throw_ok
  · exact absurd h throw_ok

theorem mergePerson_ok {sid tid : Uuid} (h : mergePerson db s clock sid tid = .ok db') :
    sid ≠ tid ∧ ∃ source, db' = Services.repoint db clock source sid tid := by
  obtain ⟨_, -, h⟩ := bind_ok.mp h
  obtain ⟨hne, -, -, source, -, rfl⟩ := mergePersons_ok h
  exact ⟨hne, source, rfl⟩

end

-- ---------------------------------------------------------------------------
-- The items of a push
-- ---------------------------------------------------------------------------

section
variable {db : Database} {s : Session} {clock : Time} {item : ApplicationPushItem}

theorem applicationAdded_of_push {t : Table Application}
    (h : Sync.ApplicationInsertAllowed s db item.newDocumentState)
    (ht : db.applications.insert? (Sync.newApplication s clock
      (Sync.nextSequenceNo db s item.newDocumentState.eventId) item.newDocumentState) = some t) :
    ApplicationAdded db s clock (Sync.newApplication s clock
        (Sync.nextSequenceNo db s item.newDocumentState.eventId) item.newDocumentState)
      (Sync.applicationInserted s db clock t item.newDocumentState) := by
  obtain ⟨restraints, hr⟩ := Sync.syncApplicationRestraints_eq
    (Sync.ensureParticipants { db with applications := t } s clock item.newDocumentState.eventId
      item.newDocumentState.performerId item.newDocumentState.recipientId)
    s item.newDocumentState.id item.newDocumentState.restraintTypeIds
  rw [Sync.applicationInserted, hr]
  exact .mk t restraints ht h.writable h.event h.performer h.recipient

theorem applicationChanged_of_push_same (clock : Time) (existing : Application)
    (ids : List Uuid) :
    ApplicationChanged db clock existing existing
      (Sync.syncApplicationRestraints db s existing.id ids) := by
  obtain ⟨restraints, hr⟩ := Sync.syncApplicationRestraints_eq db s existing.id ids
  rw [hr]
  exact .same restraints rfl

theorem applicationChanged_of_push {existing : Application}
    (h : Sync.ApplicationUpdateAllowed s db item existing) (ids : List Uuid) :
    ApplicationChanged db clock existing
      (Sync.applyApplicationUpdate existing item.newDocumentState clock)
      (Sync.syncApplicationRestraints (Sync.applicationWritten db clock
        (Sync.applyApplicationUpdate existing item.newDocumentState clock)) s existing.id ids) := by
  obtain ⟨restraints, hr⟩ := Sync.syncApplicationRestraints_eq
    (Sync.applicationWritten db clock
      (Sync.applyApplicationUpdate existing item.newDocumentState clock)) s existing.id ids
  rw [hr]
  exact .written restraints h.mem rfl rfl

end

-- ---------------------------------------------------------------------------
-- All operations
-- ---------------------------------------------------------------------------

section
variable {db db' : Database} {s : Session} {clock : Time} {operation : Operation}

theorem pushed_ok {δ : Type} {r : Except DbError (Database × List δ)} :
    pushed r = .ok db' ↔ ∃ ds, r = .ok (db', ds) := by
  cases r with
  | error e => simp [pushed, Except.mapError, Except.map]
  | ok p =>
    obtain ⟨d, ds⟩ := p
    simp [pushed, Except.mapError, Except.map]

theorem execute_cases (h : execute db s clock operation = .ok db') :
    Effect db s clock operation db' := by
  cases operation with
  | pushEvents items =>
    obtain ⟨ds, h⟩ := pushed_ok.mp h
    exact .pushEvents h
  | pushApplications items =>
    obtain ⟨ds, h⟩ := pushed_ok.mp h
    exact .pushApplications h
  | createEvent payload =>
    obtain ⟨e, hlive, h⟩ := createEvent_ok h
    exact .createEvent hlive h
  | startEvent payload =>
    obtain ⟨e, hlive, -, h⟩ := startEvent_ok h
    exact .startEvent hlive h
  | endEvent eid =>
    rcases endEvent_ok h with rfl | ⟨e, -, hlive, hrun, h⟩
    · exact .endedEvent
    · exact .endEvent hlive hrun h
  | patchEvent eid payload =>
    obtain ⟨e, hlive, h⟩ := patchEvent_ok h
    exact .patchEvent hlive h
  | deleteEvent eid =>
    obtain ⟨e, -, h⟩ := bind_ok.mp h
    rw [← pure_ok.mp h]
    exact .deleteEvent
  | addParticipant eid pid =>
    rw [addParticipant_ok h]
    exact .addParticipant
  | removeParticipant eid pid =>
    obtain ⟨ep, hep, he, hp, rfl⟩ := removeParticipant_ok h
    exact .removeParticipant hep he hp
  | createApplication eid payload strict =>
    obtain ⟨_, -, h⟩ := bind_ok.mp h
    obtain ⟨_, -, h⟩ := bind_ok.mp h
    exact .createApplication rfl rfl rfl rfl (addApplication_ok h)
  | startApplication eid payload =>
    obtain ⟨_, -, h⟩ := bind_ok.mp h
    exact .startApplication rfl rfl rfl (addApplication_ok h)
  | patchApplication aid payload =>
    obtain ⟨a, hfind, hlive, h⟩ := patchApplication_ok h
    exact .patchApplication hfind hlive h
  | endApplication aid =>
    rcases endApplication_ok h with rfl | ⟨a, hfind, hlive, hrun, h⟩
    · exact .endedApplication
    · exact .endApplication (Table.mem_of_find? hfind) hlive hrun h
  | deleteApplication aid =>
    obtain ⟨a, -, h⟩ := bind_ok.mp h
    rw [← pure_ok.mp h]
    exact .deleteApplication
  | mergePerson sid tid =>
    obtain ⟨hne, source, rfl⟩ := mergePerson_ok h
    exact .mergePerson hne
  | editEvent eid note reveal deleted =>
    obtain ⟨e, hfind, h⟩ := editEvent_ok h
    exact .editEvent hfind h
  | writeReference tables =>
    cases h
    exact .writeReference

end

end HcMap.Routes
