import HcMap.Routes.Anchored

/-!
# Tombstones

The cascade of the schema fires when an event goes from live to deleted. Rows
that come under a deleted event later, or with it, escape it; `KeepsTombstones`
lists how they can.
-/

namespace HcMap.Routes

open Sync (EventPushItem ApplicationPushItem EventDoc ApplicationDoc)

/-- Whatever belongs to a deleted event is deleted. -/
structure TombstonesClosed (db : Database) : Prop where
  applications : ∀ e ∈ db.events, e.isDeleted = true →
    ∀ a ∈ db.applications, a.eventId = e.id → a.isDeleted = true
  participants : ∀ e ∈ db.events, e.isDeleted = true →
    ∀ ep ∈ db.participants, ep.eventId = e.id → ep.isDeleted = true

def EventLive (db : Database) (eid : Uuid) : Prop :=
  ∀ e ∈ db.events, e.id = eid → e.isDeleted = false

instance (db : Database) (eid : Uuid) : Decidable (EventLive db eid) := by
  unfold EventLive
  infer_instance

-- ---------------------------------------------------------------------------
-- The condition
-- ---------------------------------------------------------------------------

def InsertsLive (s : Session) (db : Database) (item : EventPushItem) : Prop :=
  item.assumedMasterState = none → item.newDocumentState.deleted = true →
    s.role = .viewer ∨ (db.events.find? item.newDocumentState.id).isSome ∨
      db.persons.find? s.personId = none

/-- A push that inserts or restores an application finds its event live, but
for the tombstone of one whose people are linked already. -/
def InsertsIntoLive (s : Session) (db : Database) (item : ApplicationPushItem) : Prop :=
  (item.assumedMasterState = none → Sync.ApplicationInsertAllowed s db item.newDocumentState →
    EventLive db item.newDocumentState.eventId ∨
      (item.newDocumentState.deleted = true ∧
        db.Linked item.newDocumentState.eventId item.newDocumentState.performerId ∧
        db.Linked item.newDocumentState.eventId item.newDocumentState.recipientId)) ∧
  ∀ existing, Sync.ApplicationUpdateAllowed s db item existing → existing.isDeleted = true →
    item.newDocumentState.deleted = false → EventLive db existing.eventId

/-- The operation brings no live row under a deleted event. -/
def KeepsTombstones (db : Database) (s : Session) : Operation → Prop
  | .pushEvents items =>
    Batch.Along (Sync.pushEvent s) (fun db item => InsertsLive s db item.2) db items
  | .pushApplications items =>
    Batch.Along (Sync.pushApplication s) (fun db item => InsertsIntoLive s db item.2) db items
  | .addParticipant eid pid => EventLive db eid ∨ db.Linked eid pid
  | .createApplication eid _ _ => EventLive db eid
  | .startApplication eid _ => EventLive db eid
  | _ => True

-- ---------------------------------------------------------------------------
-- Each way to change the database
-- ---------------------------------------------------------------------------

section
variable {db db' : Database} {s : Session} {clock : Time}

theorem TombstonesClosed.eventLive {a : Application} (h : TombstonesClosed db)
    (ha : a ∈ db.applications) (hlive : a.isDeleted = false) : EventLive db a.eventId := by
  intro e he hid
  by_contra hdel
  have := h.applications e he (by simpa using hdel) a ha hid.symm
  simp [hlive] at this

theorem TombstonesClosed.ensureParticipant {eid pid : Uuid} (h : TombstonesClosed db)
    (hlive : EventLive db eid ∨ db.Linked eid pid) :
    TombstonesClosed (Sync.ensureParticipant db s clock eid pid) := by
  refine ⟨?_, fun e he hdel ep hep hid => ?_⟩
  · simpa using h.applications
  · rw [Sync.ensureParticipant_events] at he
    rcases Sync.mem_ensureParticipant hep with hm | ⟨hn, -, -, -, rfl⟩
    · exact h.participants e he hdel ep hm hid
    · rcases hlive with hlive | hlinked
      · simp [hlive e he hid.symm] at hdel
      · exact absurd hlinked hn

theorem TombstonesClosed.eventAdded {e : Event} (h : TombstonesClosed db) (hanch : Anchored db)
    (ha : EventAdded db s clock e db')
    (hnew : e.isDeleted = true → ∀ ep ∈ db'.participants, ep ∈ db.participants) :
    TombstonesClosed db' := by
  obtain ⟨t, pids, ht⟩ := ha
  have hnone := (Table.insert?_eq_some.mp ht).1
  obtain ⟨ps, hps⟩ := addLinks_eq { db with events := t } s clock e.id pids
  have hevents : (addLinks { db with events := t } s clock e.id pids).events = t := by rw [hps]
  refine ⟨fun e' he' hdel a ha hid => ?_, fun e' he' hdel ep hep hid => ?_⟩
  · rw [hevents] at he'
    rw [hps] at ha
    rcases (Table.mem_insert? ht).mp he' with hm | rfl
    · exact h.applications e' hm hdel a ha hid
    · -- A new event has no applications.
      have hsome := hanch.applications a ha
      rw [hid, ← key_event, hnone] at hsome
      cases hsome
  · rw [hevents] at he'
    have hold : ep ∈ db.participants := by
      rcases (Table.mem_insert? ht).mp he' with hm | rfl
      · rcases mem_addLinks hep with hm' | ⟨hep', -⟩
        · exact hm'
        · have := Table.find?_eq_none.mp hnone e' hm
          exact absurd (hid.symm.trans hep') this
      · exact hnew hdel ep hep
    rcases (Table.mem_insert? ht).mp he' with hm | rfl
    · exact h.participants e' hm hdel ep hold hid
    · have hsome := hanch.participants ep hold
      rw [hid, ← key_event, hnone] at hsome
      cases hsome

theorem TombstonesClosed.eventChanged {old new : Event} (h : TombstonesClosed db)
    (hc : EventChanged db clock old new db') : TombstonesClosed db' := by
  cases hc with
  | same => exact h
  | written hold hid =>
    refine ⟨fun e he hdel a' ha' haid => ?_, fun e he hdel ep' hep' hpid => ?_⟩
    · obtain ⟨a, ha, rfl⟩ := Services.mem_applications_eventWritten.mp ha'
      rw [Services.childAfter_eventId] at haid
      rcases Services.mem_events_eventWritten he with rfl | ⟨he, hne⟩
      · cases hd : old.isDeleted with
        | true =>
          exact Services.childAfter_isDeleted (h.applications old hold hd a ha (haid.trans hid))
        | false => exact Services.childAfter_deletes ⟨hdel, by simp [hd]⟩ haid
      · exact Services.childAfter_isDeleted (h.applications e he hdel a ha haid)
    · obtain ⟨ep, hep, rfl⟩ := Services.mem_participants_eventWritten.mp hep'
      rw [Services.linkAfter_eventId] at hpid
      rcases Services.mem_events_eventWritten he with rfl | ⟨he, hne⟩
      · cases hd : old.isDeleted with
        | true =>
          exact Services.linkAfter_isDeleted (h.participants old hold hd ep hep (hpid.trans hid))
        | false => exact Services.linkAfter_deletes ⟨hdel, by simp [hd]⟩ hpid
      · exact Services.linkAfter_isDeleted (h.participants e he hdel ep hep hpid)

theorem TombstonesClosed.applicationAdded {a : Application} (h : TombstonesClosed db)
    (ha : ApplicationAdded db s clock a db')
    (hlive : EventLive db a.eventId ∨ (a.isDeleted = true ∧
      db.Linked a.eventId a.performerId ∧ db.Linked a.eventId a.recipientId)) :
    TombstonesClosed db' := by
  obtain ⟨t, restraints, ht⟩ := ha
  obtain ⟨ps, hps⟩ := Sync.ensureParticipants_eq { db with applications := t } s clock a.eventId
    a.performerId a.recipientId
  refine ⟨fun e he hdel a' ha' hid => ?_, fun e he hdel ep hep hid => ?_⟩
  · rw [hps] at he ha'
    rcases (Table.mem_insert? ht).mp ha' with hm | rfl
    · exact h.applications e he hdel a' hm hid
    · rcases hlive with hlive | hlive
      · simp [hlive e he hid.symm] at hdel
      · exact hlive.1
  · rw [hps] at he
    rcases Sync.mem_ensureParticipants hep with hm | ⟨heid, hpid, -, -, hn⟩
    · exact h.participants e he hdel ep hm hid
    · rcases hlive with hlive | ⟨-, hperf, hrec⟩
      · simp [hlive e he (hid.symm.trans heid)] at hdel
      · rcases hpid with hpid | hpid
        · exact absurd (by rwa [hpid]) hn
        · exact absurd (by rwa [hpid]) hn

theorem TombstonesClosed.applicationChanged {old new : Application} (h : TombstonesClosed db)
    (hc : ApplicationChanged db clock old new db')
    (hrestore : new.isDeleted = false → old.isDeleted = true → EventLive db old.eventId) :
    TombstonesClosed db' := by
  cases hc with
  | same => exact ⟨h.applications, h.participants⟩
  | written _ hold _ heq =>
    refine ⟨fun e he hdel a ha hid => ?_, h.participants⟩
    rcases Table.mem_set ha with rfl | ⟨ha, -⟩
    · have hid' : e.id = old.eventId := hid.symm.trans heq
      cases hnew : new.isDeleted with
      | true => rfl
      | false =>
        have hlive : EventLive db old.eventId := by
          cases hd : old.isDeleted with
          | true => exact hrestore hnew hd
          | false => exact h.eventLive hold hd
        simp [hlive e he hid'] at hdel
    · exact h.applications e he hdel a ha hid

theorem TombstonesClosed.deleteEvent {e : Event} (h : TombstonesClosed db) :
    TombstonesClosed (db.deleteEvent s e) := by
  unfold Database.deleteEvent
  split
  · refine ⟨fun e' he' hdel a ha => ?_, fun e' he' hdel ep hep => ?_⟩
    · exact h.applications e' (Table.mem_filter.mp he').1 hdel a (Table.mem_filter.mp ha).1
    · exact h.participants e' (Table.mem_filter.mp he').1 hdel ep (Table.mem_filter.mp hep).1
  · exact h

theorem TombstonesClosed.deleteParticipant {ep : EventParticipant} (h : TombstonesClosed db) :
    TombstonesClosed (db.deleteParticipant s ep) := by
  unfold Database.deleteParticipant
  split
  · exact ⟨h.applications,
      fun e he hdel ep' hep' => h.participants e he hdel ep' (Table.mem_filter.mp hep').1⟩
  · exact h

theorem TombstonesClosed.deleteApplication {a : Application} (h : TombstonesClosed db) :
    TombstonesClosed (db.deleteApplication s a) := by
  unfold Database.deleteApplication
  split
  · exact ⟨fun e he hdel a' ha' => h.applications e he hdel a' (Table.mem_filter.mp ha').1,
      h.participants⟩
  · exact h

theorem TombstonesClosed.repoint {source : Person} {sid tid : Uuid} (h : TombstonesClosed db) :
    TombstonesClosed (Services.repoint db clock source sid tid) := by
  refine ⟨fun e he hdel a ha hid => ?_, fun e he hdel ep hep hid => ?_⟩
  · obtain ⟨r, hr, t, rfl⟩ := Services.mem_applications_repoint ha
    exact h.applications e he hdel r hr hid
  · obtain ⟨r, hr, rfl⟩ := Services.mem_participants_repoint.mp hep
    rw [Services.moveParticipant_eventId, Services.dropOverlap_eventId] at hid
    rw [Services.moveParticipant_isDeleted]
    exact Services.dropOverlap_isDeleted (h.participants e he hdel r hr hid)

theorem TombstonesClosed.pushEvent {item : Time × EventPushItem} {ds : List EventDoc}
    (h : TombstonesClosed db) (hanch : Anchored db) (hcond : InsertsLive s db item.2)
    (hp : Sync.pushEvent s db item = .ok (db', ds)) : TombstonesClosed db' := by
  have hcases := Sync.pushEvent_cases s db item.1 item.2
  rw [hp] at hcases
  cases hcases with
  | reported => exact h
  | inserted t hitem hw ht =>
    refine h.eventAdded hanch (.mk t [s.personId] ht) fun hdel ep hep => ?_
    rcases Sync.mem_ensureParticipant hep with hm | ⟨-, -, -, hperson, -⟩
    · exact hm
    · rcases hcond hitem hdel with hr | hsome | hnone
      · rcases hw with hw | ⟨hw, -⟩ <;> simp [hr] at hw
      · have hfree := (Table.insert?_eq_some.mp ht).1
        simp only [key_event, Sync.newEvent] at hfree
        simp [hfree] at hsome
      · have hperson' : (db.persons.find? s.personId).isSome := hperson
        simp [hnone] at hperson'
  | untouched => exact h
  | written existing hallow => exact h.eventChanged (.written (Table.mem_of_find? hallow.find) rfl)

theorem TombstonesClosed.pushApplication {item : Time × ApplicationPushItem}
    {ds : List ApplicationDoc} (h : TombstonesClosed db) (hcond : InsertsIntoLive s db item.2)
    (hp : Sync.pushApplication s db item = .ok (db', ds)) : TombstonesClosed db' := by
  have hcases := Sync.pushApplication_cases s db item.1 item.2
  rw [hp] at hcases
  cases hcases with
  | reported => exact h
  | inserted t hitem hi ht =>
    exact h.applicationAdded (applicationAdded_of_push hi ht) (hcond.1 hitem hi)
  | untouched existing =>
    exact h.applicationChanged (applicationChanged_of_push_same item.1 existing _)
      fun hlive hdel => by simp [hlive] at hdel
  | written existing hallow =>
    exact h.applicationChanged (applicationChanged_of_push hallow _) fun hlive hdel =>
      hcond.2 existing hallow hdel hlive

end

-- ---------------------------------------------------------------------------
-- Runs
-- ---------------------------------------------------------------------------

section
variable {db db' : Database} {s : Session} {clock : Time} {operation : Operation}
  {requests : List Request}

theorem TombstonesClosed.effect (h : TombstonesClosed db) (hanch : Anchored db)
    (hcond : KeepsTombstones db s operation) (he : Effect db s clock operation db') :
    TombstonesClosed db' := by
  cases he with
  | pushEvents hp =>
    exact (Batch.invariant (fun db => Anchored db ∧ TombstonesClosed db)
      (fun _ _ _ _ h hok hi => ⟨h.1.pushEvent hi, h.2.pushEvent h.1 hok hi⟩)
      hp hcond ⟨hanch, h⟩).2
  | pushApplications hp =>
    exact Batch.invariant TombstonesClosed (fun _ _ _ _ h hok hi => h.pushApplication hok hi)
      hp hcond h
  | createEvent hlive ha => exact h.eventAdded hanch ha fun hdel => by simp [hlive] at hdel
  | startEvent hlive ha => exact h.eventAdded hanch ha fun hdel => by simp [hlive] at hdel
  | endEvent _ _ hc => exact h.eventChanged hc
  | endedEvent => exact h
  | patchEvent _ hc => exact h.eventChanged hc
  | deleteEvent => exact h.deleteEvent
  | addParticipant => exact h.ensureParticipant hcond
  | removeParticipant => exact h.deleteParticipant
  | createApplication he _ _ _ ha => exact h.applicationAdded ha (.inl (by rwa [he]))
  | startApplication he _ _ ha => exact h.applicationAdded ha (.inl (by rwa [he]))
  | patchApplication _ hlive hc =>
    exact h.applicationChanged hc fun _ hdel => by simp [hlive] at hdel
  | endApplication _ hlive _ hc =>
    exact h.applicationChanged hc fun _ hdel => by simp [hlive] at hdel
  | endedApplication => exact h
  | deleteApplication => exact h.deleteApplication
  | mergePerson => exact h.repoint
  | editEvent _ hc => exact h.eventChanged hc
  | writeReference => exact ⟨h.applications, h.participants⟩

/-- Along requests that bring no live row under a deleted event, whatever
belongs to a deleted event is deleted. -/
theorem tombstones_closed_of_run (hrun : Run.Along step (Meets KeepsTombstones) db requests)
    (hanch : Anchored db) (hclosed : TombstonesClosed db) :
    TombstonesClosed (Run.run step db requests) :=
  (run_invariant (fun db => Anchored db ∧ TombstonesClosed db)
    (fun _ _ _ _ _ h hcond he => ⟨h.1.effect he, h.2.effect h.1 hcond he⟩)
    hrun ⟨hanch, hclosed⟩).2

def deletePush (startedAt : Time) : EventPushItem where
  assumedMasterState := some (Sync.eventToDoc sampleEvent)
  newDocumentState :=
    { Sync.eventToDoc sampleEvent with startedAt := startedAt, deleted := true }

theorem deleteThenRestore_closed :
    TombstonesClosed (Run.run step sample
      [⟨2, 100, 100, .pushEvents [(100, deletePush 10)]⟩,
        ⟨1, 110, 110, .editEvent 1 none false false⟩]) :=
  tombstones_closed_of_run
    ⟨fun _ _ _ => ⟨(fun h => nomatch h), fun _ _ _ => trivial⟩, fun _ _ _ => trivial, trivial⟩
    anchored_sample ⟨by decide, by decide⟩

/-- An editor records an event, deletes it, and starts an application in it. -/
def startAfterDelete : List Request :=
  [⟨2, 100, 100, .startEvent ⟨.zero, .zero, none, false, none, none, .minute⟩⟩,
    ⟨2, 110, 110, .pushEvents [(110, deletePush 100)]⟩,
    ⟨2, 120, 120, .startApplication 1 ⟨none, none, none, none, none, none, []⟩⟩]

theorem startAfterDelete_not_closed :
    ¬ TombstonesClosed (Run.run step sampleUsers startAfterDelete) := fun h =>
  absurd h.applications (by decide +kernel)

end

end HcMap.Routes
