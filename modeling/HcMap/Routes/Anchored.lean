import HcMap.Routes.RequestLaws

/-!
# Runs of requests

A property that every operation keeps, under a condition on the operation and
the state it finds, holds after every run of requests that meet the condition.
The first such property needs none: every application and every link belongs
to an event that exists, since deleting an event deletes them too.
-/

namespace HcMap.Routes

open Sync (EventPushItem ApplicationPushItem EventDoc ApplicationDoc)
open Services (eventWritten)

-- ---------------------------------------------------------------------------
-- Runs
-- ---------------------------------------------------------------------------

/-- The request fails, or it meets the condition in the state it finds. -/
def Meets (cond : Database → Session → Operation → Prop) (db : Database) (request : Request) :
    Prop :=
  ∀ s, authenticate db request.userId request.now = .ok s →
    (execute db s request.clock request.operation).isOk → cond db s request.operation

section
variable {cond : Database → Session → Operation → Prop} {db : Database} {requests : List Request}

theorem step_cases (db : Database) (request : Request) :
    step db request = db ∨ ∃ s db', authenticate db request.userId request.now = .ok s ∧
      execute db s request.clock request.operation = .ok db' ∧ step db request = db' := by
  unfold step
  split
  · rename_i db' h
    obtain ⟨s, hs, h⟩ := bind_ok.mp h
    exact .inr ⟨s, db', hs, h, rfl⟩
  · exact .inl rfl

theorem run_invariant (inv : Database → Prop)
    (heffect : ∀ db s clock operation db', inv db → cond db s operation →
      Effect db s clock operation db' → inv db')
    (h : Run.Along step (Meets cond) db requests) (h0 : inv db) :
    inv (Run.run step db requests) := by
  refine h.invariant h0 fun db request hinv hmeets => ?_
  rcases step_cases db request with he | ⟨s, db', hs, hx, he⟩
  · rwa [he]
  · rw [he]
    have hcond := hmeets s hs (by rw [hx]; rfl)
    exact heffect db s request.clock request.operation db' hinv hcond (execute_cases hx)

end

-- ---------------------------------------------------------------------------
-- Anchored rows
-- ---------------------------------------------------------------------------

structure Anchored (db : Database) : Prop where
  applications : ∀ a ∈ db.applications, (db.events.find? a.eventId).isSome
  participants : ∀ ep ∈ db.participants, (db.events.find? ep.eventId).isSome

theorem anchored_sample : Anchored sample := ⟨by decide, by decide⟩

section
variable {db db' : Database} {s : Session} {clock : Time} {eid pid : Uuid}

theorem Anchored.ensureParticipant (h : Anchored db) :
    Anchored (Sync.ensureParticipant db s clock eid pid) := by
  refine ⟨?_, fun ep hep => ?_⟩
  · simpa using h.applications
  · rw [Sync.ensureParticipant_events]
    rcases Sync.mem_ensureParticipant hep with hm | ⟨-, -, he, -, rfl⟩
    · exact h.participants ep hm
    · exact he

theorem Anchored.addLinks (h : Anchored db) (pids : List Uuid) :
    Anchored (addLinks db s clock eid pids) := by
  induction pids generalizing db with
  | nil => exact h
  | cons pid pids ih => exact ih h.ensureParticipant

theorem Anchored.ensureParticipants {rid : Uuid} (h : Anchored db) :
    Anchored (Sync.ensureParticipants db s clock eid pid rid) := by
  unfold Sync.ensureParticipants
  split
  · exact h.ensureParticipant.ensureParticipant
  · exact h.ensureParticipant

theorem Anchored.eventAdded {e : Event} (h : Anchored db) (ha : EventAdded db s clock e db') :
    Anchored db' := by
  obtain ⟨t, pids, ht⟩ := ha
  refine Anchored.addLinks ⟨fun a ha => ?_, fun ep hep => ?_⟩ pids
  · rw [Table.find?_insert? ht]
    split
    · rfl
    · exact h.applications a ha
  · rw [Table.find?_insert? ht]
    split
    · rfl
    · exact h.participants ep hep

theorem Anchored.eventChanged {old new : Event} (h : Anchored db)
    (hc : EventChanged db clock old new db') : Anchored db' := by
  cases hc with
  | same => exact h
  | written =>
    refine ⟨fun a ha => ?_, fun ep hep => ?_⟩
    · obtain ⟨r, hr, rfl⟩ := Services.mem_applications_eventWritten.mp ha
      rw [eventWritten, Table.find?_set_isSome, Services.childAfter_eventId]
      exact h.applications r hr
    · obtain ⟨r, hr, rfl⟩ := Services.mem_participants_eventWritten.mp hep
      rw [eventWritten, Table.find?_set_isSome, Services.linkAfter_eventId]
      exact h.participants r hr

theorem Anchored.applicationAdded {a : Application} (h : Anchored db)
    (ha : ApplicationAdded db s clock a db') : Anchored db' := by
  obtain ⟨t, restraints, ht, -, he⟩ := ha
  have hrow : Anchored { db with applications := t } := by
    refine ⟨fun a' ha' => ?_, h.participants⟩
    rcases (Table.mem_insert? ht).mp ha' with ha' | rfl
    · exact h.applications a' ha'
    · exact he
  have hlinks : Anchored (Sync.ensureParticipants { db with applications := t } s clock a.eventId
      a.performerId a.recipientId) := hrow.ensureParticipants
  exact ⟨hlinks.applications, hlinks.participants⟩

theorem Anchored.applicationChanged {old new : Application} (h : Anchored db)
    (hc : ApplicationChanged db clock old new db') : Anchored db' := by
  cases hc with
  | same => exact ⟨h.applications, h.participants⟩
  | written _ hold _ he =>
    refine ⟨fun a ha => ?_, h.participants⟩
    rcases Table.mem_set ha with rfl | ⟨ha, -⟩
    · have := h.applications old hold
      rwa [← he] at this
    · exact h.applications a ha

theorem Anchored.deleteEvent {e : Event} (h : Anchored db) : Anchored (db.deleteEvent s e) := by
  unfold Database.deleteEvent
  split
  · have hfind : ∀ id, id ≠ e.id → (db.events.find? id).isSome →
        ((db.events.filter fun x => x.id ≠ e.id).find? id).isSome := fun id hne hs => by
      obtain ⟨x, hx⟩ := Option.isSome_iff_exists.mp hs
      have hid : x.id = id := Table.key_of_find? hx
      rw [Table.find?_filter hx (by simpa [hid] using hne)]
      rfl
    refine ⟨fun a ha => ?_, fun ep hep => ?_⟩
    · obtain ⟨ha, hne⟩ := Table.mem_filter.mp ha
      exact hfind _ (by simpa using hne) (h.applications a ha)
    · obtain ⟨hep, hne⟩ := Table.mem_filter.mp hep
      exact hfind _ (by simpa using hne) (h.participants ep hep)
  · exact h

theorem Anchored.deleteApplication {a : Application} (h : Anchored db) :
    Anchored (db.deleteApplication s a) := by
  unfold Database.deleteApplication
  split
  · exact ⟨fun a' ha' => h.applications a' (Table.mem_filter.mp ha').1, h.participants⟩
  · exact h

theorem Anchored.deleteParticipant {ep : EventParticipant} (h : Anchored db) :
    Anchored (db.deleteParticipant s ep) := by
  unfold Database.deleteParticipant
  split
  · exact ⟨h.applications, fun ep' hep' => h.participants ep' (Table.mem_filter.mp hep').1⟩
  · exact h

theorem Anchored.repoint {source : Person} {sid tid : Uuid} (h : Anchored db) :
    Anchored (Services.repoint db clock source sid tid) := by
  refine ⟨fun a ha => ?_, fun ep hep => ?_⟩
  · obtain ⟨r, hr, t, rfl⟩ := Services.mem_applications_repoint ha
    exact h.applications r hr
  · obtain ⟨r, hr, rfl⟩ := Services.mem_participants_repoint.mp hep
    rw [Services.moveParticipant_eventId, Services.dropOverlap_eventId]
    exact h.participants r hr

theorem Anchored.pushEvent {item : Time × EventPushItem} {ds : List EventDoc} (h : Anchored db)
    (hp : Sync.pushEvent s db item = .ok (db', ds)) : Anchored db' := by
  have hcases := Sync.pushEvent_cases s db item.1 item.2
  rw [hp] at hcases
  cases hcases with
  | reported => exact h
  | inserted t _ _ ht => exact h.eventAdded (.mk t [s.personId] ht)
  | untouched => exact h
  | written existing hallow =>
    exact h.eventChanged (.written (Table.mem_of_find? hallow.find) rfl)

theorem Anchored.pushApplication {item : Time × ApplicationPushItem} {ds : List ApplicationDoc}
    (h : Anchored db) (hp : Sync.pushApplication s db item = .ok (db', ds)) : Anchored db' := by
  have hcases := Sync.pushApplication_cases s db item.1 item.2
  rw [hp] at hcases
  cases hcases with
  | reported => exact h
  | inserted t _ hi ht => exact h.applicationAdded (applicationAdded_of_push hi ht)
  | untouched existing =>
    exact h.applicationChanged (applicationChanged_of_push_same item.1 existing _)
  | written existing hallow =>
    exact h.applicationChanged (applicationChanged_of_push hallow _)

theorem Anchored.effect {operation : Operation} (h : Anchored db)
    (he : Effect db s clock operation db') : Anchored db' := by
  cases he with
  | pushEvents hp => exact Batch.preserves (fun _ _ _ _ h hi => h.pushEvent hi) hp h
  | pushApplications hp => exact Batch.preserves (fun _ _ _ _ h hi => h.pushApplication hi) hp h
  | createEvent _ ha => exact h.eventAdded ha
  | startEvent _ ha => exact h.eventAdded ha
  | endEvent _ _ hc => exact h.eventChanged hc
  | endedEvent => exact h
  | patchEvent _ hc => exact h.eventChanged hc
  | deleteEvent => exact h.deleteEvent
  | addParticipant => exact h.ensureParticipant
  | removeParticipant => exact h.deleteParticipant
  | createApplication _ _ _ _ ha => exact h.applicationAdded ha
  | startApplication _ _ _ ha => exact h.applicationAdded ha
  | patchApplication _ _ hc => exact h.applicationChanged hc
  | endApplication _ _ _ hc => exact h.applicationChanged hc
  | endedApplication => exact h
  | deleteApplication => exact h.deleteApplication
  | mergePerson => exact h.repoint
  | editEvent _ hc => exact h.eventChanged hc
  | writeReference => exact ⟨h.applications, h.participants⟩

end

end HcMap.Routes
