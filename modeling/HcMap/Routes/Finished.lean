import HcMap.Routes.Anchored

/-!
# Finished events

ADR-057: a finished event has no running children. Ending an event stops them
and nothing restarts them behind its back, so the rule can only be broken by
what brings a running application and a finished event together: an insert
into a finished event, an end taken back, a restore.
-/

namespace HcMap.Routes

open Sync (EventPushItem ApplicationPushItem EventDoc ApplicationDoc)

/-- Every live application of a live event that has ended has ended too. -/
def FinishedClosed (db : Database) : Prop :=
  ∀ e ∈ db.events, e.isDeleted = false → e.endedAt ≠ none →
    ∀ a ∈ db.applications, a.eventId = e.id → a.isDeleted = false → a.endedAt ≠ none

def StillOpen (db : Database) (eid : Uuid) : Prop :=
  ∀ e ∈ db.events, e.id = eid → e.isDeleted = false → e.endedAt = none

def AllStopped (db : Database) (eid : Uuid) : Prop :=
  ∀ a ∈ db.applications, a.eventId = eid → a.isDeleted = false → a.endedAt ≠ none

instance (db : Database) : Decidable (FinishedClosed db) := by
  unfold FinishedClosed
  infer_instance
instance (db : Database) (eid : Uuid) : Decidable (StillOpen db eid) := by
  unfold StillOpen
  infer_instance

-- ---------------------------------------------------------------------------
-- The condition
-- ---------------------------------------------------------------------------

def RestoresStopped (s : Session) (db : Database) (item : EventPushItem) : Prop :=
  ∀ existing, Sync.EventUpdateAllowed s db item existing → existing.isDeleted = true →
    item.newDocumentState.deleted = false → existing.endedAt ≠ none → AllStopped db existing.id

/-- A push that inserts or restores a running application finds its event
open. -/
def RunsInOpen (s : Session) (db : Database) (item : ApplicationPushItem) : Prop :=
  item.newDocumentState.deleted = false → item.newDocumentState.endedAt = none →
    (item.assumedMasterState = none → Sync.ApplicationInsertAllowed s db item.newDocumentState →
      StillOpen db item.newDocumentState.eventId) ∧
    ∀ existing, Sync.ApplicationUpdateAllowed s db item existing → existing.isDeleted = true →
      existing.endedAt = none → StillOpen db existing.eventId

/-- The operation brings no running application and no finished event
together. -/
def KeepsFinished (db : Database) (s : Session) : Operation → Prop
  | .pushEvents items =>
    Batch.Along (Sync.pushEvent s) (fun db item => RestoresStopped s db item.2) db items
  | .pushApplications items =>
    Batch.Along (Sync.pushApplication s) (fun db item => RunsInOpen s db item.2) db items
  | .createApplication eid payload _ => payload.endedAt = none → StillOpen db eid
  | .startApplication eid _ => StillOpen db eid
  | .patchApplication aid payload =>
    payload.endedAt = some none →
      ∀ a, db.applications.find? aid = some a → a.isDeleted = false → StillOpen db a.eventId
  | .editEvent eid _ _ deleted =>
    deleted = false → ∀ e, db.events.find? eid = some e → e.isDeleted = true → e.endedAt ≠ none →
      AllStopped db e.id
  | _ => True

-- ---------------------------------------------------------------------------
-- Each way to change the database
-- ---------------------------------------------------------------------------

section
variable {db db' : Database} {s : Session} {clock : Time}

theorem FinishedClosed.stillOpen {a : Application} (h : FinishedClosed db)
    (ha : a ∈ db.applications) (hlive : a.isDeleted = false) (hrun : a.endedAt = none) :
    StillOpen db a.eventId := by
  intro e he hid hel
  by_contra hend
  exact h e he hel hend a ha hid.symm hlive hrun

theorem FinishedClosed.congr (h : FinishedClosed db) (he : db'.events = db.events)
    (ha : db'.applications = db.applications) : FinishedClosed db' := by
  unfold FinishedClosed
  rwa [he, ha]

theorem FinishedClosed.eventAdded {e : Event} (h : FinishedClosed db) (hanch : Anchored db)
    (ha : EventAdded db s clock e db') : FinishedClosed db' := by
  obtain ⟨t, pids, ht⟩ := ha
  obtain ⟨ps, hps⟩ := addLinks_eq { db with events := t } s clock e.id pids
  rw [hps]
  intro e' he' hlive hend a ha hid
  rcases (Table.mem_insert? ht).mp he' with hm | rfl
  · exact h e' hm hlive hend a ha hid
  · -- A new event has no applications.
    have hnone := (Table.insert?_eq_some.mp ht).1
    have hsome := hanch.applications a ha
    rw [hid, ← key_event, hnone] at hsome
    cases hsome

theorem FinishedClosed.eventChanged {old new : Event} (h : FinishedClosed db)
    (hc : EventChanged db clock old new db')
    (hrestore : old.isDeleted = true → new.isDeleted = false → old.endedAt ≠ none →
      AllStopped db old.id) : FinishedClosed db' := by
  cases hc with
  | same => exact h
  | written hold hid =>
    intro e he hlive hend a' ha' haid halive
    obtain ⟨a, ha, rfl⟩ := Services.mem_applications_eventWritten.mp ha'
    rw [Services.childAfter_eventId] at haid
    rcases Services.mem_events_eventWritten he with rfl | ⟨he, hne⟩
    · have hlive' : new.isDeleted = false := hlive
      have hdel : ¬ Services.Deletes old new := fun h => by simp [h.1] at hlive'
      rw [Services.childAfter, Services.cascadeAfter_of_live hdel] at halive ⊢
      rw [Services.stopAfter_isDeleted] at halive
      cases hold' : old.endedAt with
      | none => exact Services.stopAfter_stops haid halive hold' hend
      | some t =>
        refine Services.stopAfter_endedAt ?_
        have hidold : a.eventId = old.id := haid.trans hid
        cases hd : old.isDeleted with
        | true => exact hrestore hd hlive' (by simp [hold']) a ha hidold halive
        | false => exact h old hold hd (by simp [hold']) a ha hidold halive
    · rw [Services.childAfter_of_ne (by rw [haid]; exact hne)] at halive ⊢
      exact h e he hlive hend a ha haid halive

theorem FinishedClosed.applicationAdded {a : Application} (h : FinishedClosed db)
    (ha : ApplicationAdded db s clock a db')
    (hopen : a.isDeleted = false → a.endedAt = none → StillOpen db a.eventId) :
    FinishedClosed db' := by
  obtain ⟨t, restraints, ht⟩ := ha
  obtain ⟨ps, hps⟩ := Sync.ensureParticipants_eq { db with applications := t } s clock a.eventId
    a.performerId a.recipientId
  rw [hps]
  intro e he hlive hend a' ha' hid halive
  rcases (Table.mem_insert? ht).mp ha' with hm | rfl
  · exact h e he hlive hend a' hm hid halive
  · intro hrun
    exact hend (hopen halive hrun e he hid.symm hlive)

theorem FinishedClosed.applicationChanged {old new : Application} (h : FinishedClosed db)
    (hc : ApplicationChanged db clock old new db')
    (hopen : new.isDeleted = false → new.endedAt = none → StillOpen db old.eventId) :
    FinishedClosed db' := by
  cases hc with
  | same => exact h
  | written _ hold _ heq =>
    intro e he hlive hend a ha hid halive
    rcases Table.mem_set ha with rfl | ⟨ha, -⟩
    · intro hrun
      exact hend (hopen halive hrun e he (hid.symm.trans heq) hlive)
    · exact h e he hlive hend a ha hid halive

theorem FinishedClosed.deleteEvent {e : Event} (h : FinishedClosed db) :
    FinishedClosed (db.deleteEvent s e) := by
  unfold Database.deleteEvent
  split
  · intro e' he' hlive hend a ha
    exact h e' (Table.mem_filter.mp he').1 hlive hend a (Table.mem_filter.mp ha).1
  · exact h

theorem FinishedClosed.deleteApplication {a : Application} (h : FinishedClosed db) :
    FinishedClosed (db.deleteApplication s a) := by
  unfold Database.deleteApplication
  split
  · intro e he hlive hend a' ha'
    exact h e he hlive hend a' (Table.mem_filter.mp ha').1
  · exact h

theorem FinishedClosed.repoint {source : Person} {sid tid : Uuid} (h : FinishedClosed db) :
    FinishedClosed (Services.repoint db clock source sid tid) := by
  intro e he hlive hend a ha hid halive
  obtain ⟨r, hr, t, rfl⟩ := Services.mem_applications_repoint ha
  exact h e he hlive hend r hr hid halive

theorem FinishedClosed.pushEvent {item : Time × EventPushItem} {ds : List EventDoc}
    (h : FinishedClosed db) (hanch : Anchored db) (hcond : RestoresStopped s db item.2)
    (hp : Sync.pushEvent s db item = .ok (db', ds)) : FinishedClosed db' := by
  have hcases := Sync.pushEvent_cases s db item.1 item.2
  rw [hp] at hcases
  cases hcases with
  | reported => exact h
  | inserted t _ _ ht => exact h.eventAdded hanch (.mk t [s.personId] ht)
  | untouched => exact h
  | written existing hallow =>
    exact h.eventChanged (.written (Table.mem_of_find? hallow.find) rfl) (hcond existing hallow)

theorem FinishedClosed.pushApplication {item : Time × ApplicationPushItem}
    {ds : List ApplicationDoc} (h : FinishedClosed db) (hcond : RunsInOpen s db item.2)
    (hp : Sync.pushApplication s db item = .ok (db', ds)) : FinishedClosed db' := by
  have hcases := Sync.pushApplication_cases s db item.1 item.2
  rw [hp] at hcases
  cases hcases with
  | reported => exact h
  | inserted t hitem hi ht =>
    exact h.applicationAdded (applicationAdded_of_push hi ht) fun hlive hrun =>
      (hcond hlive hrun).1 hitem hi
  | untouched existing hallow hc =>
    refine h.applicationChanged (applicationChanged_of_push_same item.1 existing _)
      fun hlive hrun => h.stillOpen hallow.mem hlive hrun
  | written existing hallow =>
    refine h.applicationChanged (applicationChanged_of_push hallow _) fun hlive hrun => ?_
    rw [Sync.applyApplicationUpdate_endedAt, Option.or_eq_none_iff] at hrun
    cases hd : existing.isDeleted with
    | false => exact h.stillOpen hallow.mem hd hrun.1
    | true => exact (hcond hlive hrun.2).2 existing hallow hd hrun.1

end

-- ---------------------------------------------------------------------------
-- Runs
-- ---------------------------------------------------------------------------

section
variable {db db' : Database} {s : Session} {clock : Time} {operation : Operation}
  {requests : List Request}

theorem FinishedClosed.effect (h : FinishedClosed db) (hanch : Anchored db)
    (hcond : KeepsFinished db s operation) (he : Effect db s clock operation db') :
    FinishedClosed db' := by
  cases he with
  | pushEvents hp =>
    exact (Batch.invariant (fun db => Anchored db ∧ FinishedClosed db)
      (fun _ _ _ _ h hok hi => ⟨h.1.pushEvent hi, h.2.pushEvent h.1 hok hi⟩)
      hp hcond ⟨hanch, h⟩).2
  | pushApplications hp =>
    exact Batch.invariant FinishedClosed (fun _ _ _ _ h hok hi => h.pushApplication hok hi)
      hp hcond h
  | createEvent _ ha => exact h.eventAdded hanch ha
  | startEvent _ ha => exact h.eventAdded hanch ha
  | endEvent hlive _ hc => exact h.eventChanged hc fun hdel => by simp [hlive] at hdel
  | endedEvent => exact h
  | patchEvent hlive hc => exact h.eventChanged hc fun hdel => by simp [hlive] at hdel
  | deleteEvent => exact h.deleteEvent
  | addParticipant => exact h.congr (by simp) (by simp)
  | removeParticipant =>
    unfold Database.deleteParticipant
    split
    · exact h
    · exact h
  | createApplication he _ _ hend ha =>
    exact h.applicationAdded ha fun _ hrun => by
      rw [he]
      exact hcond (hend.symm.trans hrun)
  | startApplication he _ _ ha =>
    exact h.applicationAdded ha fun _ _ => by
      rw [he]
      exact hcond
  | @patchApplication aid payload a _ hfind hlive hc =>
    refine h.applicationChanged hc fun _ hrun => ?_
    have hrun' : payload.endedAt.getD a.endedAt = none := hrun
    cases hp : payload.endedAt with
    | none => exact h.stillOpen (Table.mem_of_find? hfind) hlive (by simpa [hp] using hrun')
    | some t => exact hcond (by simpa [hp] using hrun') a hfind hlive
  | endApplication _ _ _ hc => exact h.applicationChanged hc fun _ hrun => by cases hrun
  | endedApplication => exact h
  | deleteApplication => exact h.deleteApplication
  | mergePerson _ => exact h.repoint
  | editEvent hfind hc =>
    exact h.eventChanged hc fun hdel hlive hend => hcond hlive _ hfind hdel hend
  | writeReference => exact h

/-- Along requests that bring no running application and no finished event
together, a finished event has no running children. -/
theorem finished_closed_of_run (hrun : Run.Along step (Meets KeepsFinished) db requests)
    (hanch : Anchored db) (hclosed : FinishedClosed db) :
    FinishedClosed (Run.run step db requests) :=
  (run_invariant (fun db => Anchored db ∧ FinishedClosed db)
    (fun _ _ _ _ _ h hcond he => ⟨h.1.effect he, h.2.effect h.1 hcond he⟩)
    hrun ⟨hanch, hclosed⟩).2

theorem startThenEnd_closed :
    FinishedClosed (Run.run step sample
      [⟨2, 100, 100, .startApplication 1 ⟨none, none, none, none, none, none, []⟩⟩,
        ⟨2, 110, 110, .endEvent 1⟩]) :=
  finished_closed_of_run
    ⟨fun _ _ _ => (by decide : StillOpen sample 1), fun _ _ _ => trivial, trivial⟩
    anchored_sample (by decide)

/-- An editor records an event, ends it, and starts an application in it. -/
def startAfterEnd : List Request :=
  [⟨2, 100, 100, .startEvent ⟨.zero, .zero, none, false, none, none, .minute⟩⟩,
    ⟨2, 110, 110, .endEvent 1⟩,
    ⟨2, 120, 120, .startApplication 1 ⟨none, none, none, none, none, none, []⟩⟩]

theorem startAfterEnd_not_closed : ¬ FinishedClosed (Run.run step sampleUsers startAfterEnd) := by
  decide +kernel

end

end HcMap.Routes
