import HcMap.Routes.Anchored
import HcMap.Sync.EndEvent
import HcMap.Sync.Isolation

/-!
# Intervals

Nothing ends before it starts (ADR-039). Pushed documents are ordered by
themselves, and the merge of two ends keeps the one of the row, whose start
cannot change. An end that the server sets on its own, by its clock or by the
auto-stop of an event, is not compared with the start of the row it ends.
-/

namespace HcMap.Routes

open Sync (EventPushItem ApplicationPushItem EventDoc ApplicationDoc IsRunning)
open Services (Deletes childAfter)

structure Intervals (db : Database) : Prop where
  events : ∀ e ∈ db.events, ∀ t ∈ e.endedAt, e.startedAt ≤ t
  applications : ∀ a ∈ db.applications, ∀ u ∈ a.startedAt, ∀ t ∈ a.endedAt, u ≤ t

/-- A push of the claimed kind: the documents are in order by themselves. -/
def OrderedEventDoc (doc : EventDoc) : Prop := ∀ t ∈ doc.endedAt, doc.startedAt ≤ t

def OrderedApplicationDoc (doc : ApplicationDoc) : Prop :=
  ∀ u ∈ doc.startedAt, ∀ t ∈ doc.endedAt, u ≤ t

def StartsOrEnds : Operation → Prop
  | .pushEvents items => ∀ item ∈ items, OrderedEventDoc item.2.newDocumentState
  | .pushApplications items => ∀ item ∈ items, OrderedApplicationDoc item.2.newDocumentState
  | .startEvent _ | .endEvent _ | .startApplication _ _ | .endApplication _ => True
  | _ => False

-- ---------------------------------------------------------------------------
-- The condition
-- ---------------------------------------------------------------------------

def StartedBy (db : Database) (eid : Uuid) (t : Time) : Prop :=
  ∀ a ∈ db.applications, IsRunning eid a → ∀ u ∈ a.startedAt, u ≤ t

/-- A pushed end of a running event, which it does not delete, comes after the
start of what it stops. -/
def StopsStarted (s : Session) (db : Database) (item : EventPushItem) : Prop :=
  ∀ existing, Sync.EventUpdateAllowed s db item existing → existing.endedAt = none →
    ∀ t ∈ item.newDocumentState.endedAt,
      (item.newDocumentState.deleted = true → existing.isDeleted = true) →
        StartedBy db existing.id t

/-- What the server ends on its own has started by then. -/
def EndsStarted (db : Database) (s : Session) (clock : Time) : Operation → Prop
  | .pushEvents items =>
    Batch.Along (Sync.pushEvent s) (fun db item => StopsStarted s db item.2) db items
  | .endEvent eid =>
    ∀ e ∈ db.events, e.id = eid → e.isDeleted = false → e.endedAt = none →
      e.startedAt ≤ clock ∧ StartedBy db eid clock
  | .endApplication aid =>
    ∀ a ∈ db.applications, a.id = aid → IsRunning a.eventId a → ∀ u ∈ a.startedAt, u ≤ clock
  | _ => True

def InTime (db : Database) (request : Request) : Prop :=
  ∀ s, authenticate db request.userId request.now = .ok s →
    (execute db s request.clock request.operation).isOk →
      EndsStarted db s request.clock request.operation

instance (db : Database) (eid : Uuid) (t : Time) : Decidable (StartedBy db eid t) := by
  unfold StartedBy
  infer_instance

instance (db : Database) : Decidable (Intervals db) :=
  decidable_of_iff
    ((∀ e ∈ db.events, ∀ t ∈ e.endedAt, e.startedAt ≤ t) ∧
      ∀ a ∈ db.applications, ∀ u ∈ a.startedAt, ∀ t ∈ a.endedAt, u ≤ t)
    ⟨fun h => ⟨h.1, h.2⟩, fun h => ⟨h.1, h.2⟩⟩

-- ---------------------------------------------------------------------------
-- Each way to change the database
-- ---------------------------------------------------------------------------

section
variable {db db' : Database} {s : Session} {clock : Time}

/-- A child keeps its end, or is stopped at the end of its event. -/
theorem childAfter_endedAt (clock : Time) (old new : Event) (a : Application) :
    (childAfter clock old new a).endedAt = a.endedAt ∨
      (IsRunning new.id a ∧ ¬ Deletes old new ∧ old.endedAt = none ∧
        (childAfter clock old new a).endedAt = new.endedAt) := by
  by_cases hd : Deletes old new
  · refine .inl ?_
    cases ha : a.isDeleted <;> by_cases hid : a.eventId = new.id <;>
      simp [childAfter, Services.stopAfter, Services.cascadeAfter, hd, ha, hid]
  · rw [childAfter, Services.cascadeAfter_of_live hd]
    unfold Services.stopAfter
    split
    · rename_i h
      exact .inr ⟨⟨h.1, h.2.2.2.2, by simpa using h.2.1⟩, hd, h.2.2.1, rfl⟩
    · exact .inl rfl

theorem childAfter_startedAt (clock : Time) (old new : Event) (a : Application) :
    (childAfter clock old new a).startedAt = a.startedAt := by
  obtain ⟨_, _, _, _, h⟩ := Services.childAfter_eq clock old new a
  rw [h]

theorem Intervals.congr (h : Intervals db) (he : db'.events = db.events)
    (ha : db'.applications = db.applications) : Intervals db' :=
  ⟨by rw [he]; exact h.events, by rw [ha]; exact h.applications⟩

theorem Intervals.eventAdded {e : Event} (h : Intervals db) (ha : EventAdded db s clock e db')
    (hnew : ∀ t ∈ e.endedAt, e.startedAt ≤ t) : Intervals db' := by
  obtain ⟨t, pids, ht⟩ := ha
  obtain ⟨ps, hps⟩ := addLinks_eq { db with events := t } s clock e.id pids
  rw [hps]
  refine ⟨fun e' he' => ?_, h.applications⟩
  rcases (Table.mem_insert? ht).mp he' with he' | rfl
  · exact h.events e' he'
  · exact hnew

/-- The cascade is in order when what it stops has started. -/
theorem Intervals.eventChanged {old new : Event} (h : Intervals db)
    (hc : EventChanged db clock old new db') (hnew : ∀ t ∈ new.endedAt, new.startedAt ≤ t)
    (hstop : old.endedAt = none → ¬ Deletes old new → ∀ t ∈ new.endedAt, StartedBy db new.id t) :
    Intervals db' := by
  cases hc with
  | same => exact h
  | written =>
    refine ⟨fun e he => ?_, fun a ha u hu t ht => ?_⟩
    · rcases Services.mem_events_eventWritten he with rfl | ⟨he, -⟩
      · exact hnew
      · exact h.events e he
    · obtain ⟨r, hr, rfl⟩ := Services.mem_applications_eventWritten.mp ha
      rw [childAfter_startedAt] at hu
      rcases childAfter_endedAt clock old new r with hend | ⟨hrun, hdel, hopen, hend⟩
      · rw [hend] at ht
        exact h.applications r hr u hu t ht
      · rw [hend] at ht
        exact hstop hopen hdel t ht r hr hrun u hu

theorem Intervals.applicationAdded {a : Application} (h : Intervals db)
    (ha : ApplicationAdded db s clock a db')
    (hnew : ∀ u ∈ a.startedAt, ∀ t ∈ a.endedAt, u ≤ t) : Intervals db' := by
  obtain ⟨t, restraints, ht⟩ := ha
  obtain ⟨ps, hps⟩ := Sync.ensureParticipants_eq { db with applications := t } s clock a.eventId
    a.performerId a.recipientId
  rw [hps]
  refine ⟨h.events, fun a' ha' => ?_⟩
  rcases (Table.mem_insert? ht).mp ha' with ha' | rfl
  · exact h.applications a' ha'
  · exact hnew

theorem Intervals.applicationChanged {old new : Application} (h : Intervals db)
    (hc : ApplicationChanged db clock old new db')
    (hnew : ∀ u ∈ new.startedAt, ∀ t ∈ new.endedAt, u ≤ t) : Intervals db' := by
  cases hc with
  | same => exact ⟨h.events, h.applications⟩
  | written =>
    refine ⟨h.events, fun a ha => ?_⟩
    rcases Table.mem_set ha with rfl | ⟨ha, -⟩
    · exact hnew
    · exact h.applications a ha

-- ---------------------------------------------------------------------------
-- Pushes
-- ---------------------------------------------------------------------------

theorem ordered_or {old new : Option Time} {start : Time} (hold : ∀ t ∈ old, start ≤ t)
    (hnew : ∀ t ∈ new, start ≤ t) : ∀ t ∈ old.or new, start ≤ t := by
  cases old with
  | none => exact hnew
  | some t => exact hold

theorem Intervals.pushEvent {item : Time × EventPushItem} {ds : List EventDoc}
    (h : Intervals db) (hdoc : OrderedEventDoc item.2.newDocumentState)
    (hcond : StopsStarted s db item.2) (hp : Sync.pushEvent s db item = .ok (db', ds)) :
    Intervals db' := by
  have hcases := Sync.pushEvent_cases s db item.1 item.2
  rw [hp] at hcases
  cases hcases with
  | reported => exact h
  | inserted t _ _ ht => exact h.eventAdded (.mk t [s.personId] ht) hdoc
  | untouched => exact h
  | written existing hallow =>
    have hmem := Table.mem_of_find? hallow.find
    have hstart := (Sync.checkEventUpdate_none hallow.passes).1
    refine h.eventChanged (.written hmem rfl) ?_ fun hopen hdel t ht => ?_
    · refine ordered_or (h.events existing hmem) fun t ht => ?_
      exact hstart.le.trans (hdoc t ht)
    · rw [Sync.applyEventUpdate_endedAt, hopen] at ht
      refine hcond existing hallow hopen t ht fun hdeleted => ?_
      by_contra hlive
      exact hdel ⟨hdeleted, hlive⟩

theorem Intervals.pushApplication {item : Time × ApplicationPushItem} {ds : List ApplicationDoc}
    (h : Intervals db) (hdoc : OrderedApplicationDoc item.2.newDocumentState)
    (hp : Sync.pushApplication s db item = .ok (db', ds)) : Intervals db' := by
  have hcases := Sync.pushApplication_cases s db item.1 item.2
  rw [hp] at hcases
  cases hcases with
  | reported => exact h
  | inserted t _ hi ht => exact h.applicationAdded (applicationAdded_of_push hi ht) hdoc
  | untouched existing hallow =>
    exact h.applicationChanged (applicationChanged_of_push_same item.1 existing _)
      (h.applications existing hallow.mem)
  | written existing hallow =>
    refine h.applicationChanged (applicationChanged_of_push hallow _) ?_
    obtain ⟨-, -, hstart, -⟩ := Sync.checkApplicationUpdate_none hallow.passes
    refine fun u hu => ordered_or (h.applications existing hallow.mem u hu) (hdoc u ?_)
    rw [← hstart]
    exact hu

end

-- ---------------------------------------------------------------------------
-- Runs
-- ---------------------------------------------------------------------------

section
variable {db db' : Database} {s : Session} {clock : Time} {operation : Operation}
  {requests : List Request}

theorem Intervals.execute (h : Intervals db) (hop : StartsOrEnds operation)
    (hcond : EndsStarted db s clock operation)
    (hx : Routes.execute db s clock operation = .ok db') : Intervals db' := by
  cases operation with
  | pushEvents items =>
    obtain ⟨ds, hp⟩ := pushed_ok.mp hx
    refine Batch.invariant_of_mem Intervals (fun item hitem _ _ _ h hok hi => ?_) hp hcond h
    exact h.pushEvent (hop item hitem) hok hi
  | pushApplications items =>
    obtain ⟨ds, hp⟩ := pushed_ok.mp hx
    exact Batch.preserves_of_mem
      (fun item hitem _ _ _ h hi => Intervals.pushApplication h (hop item hitem) hi) hp h
  | startEvent payload =>
    obtain ⟨e, -, hrun, ha⟩ := startEvent_ok hx
    exact h.eventAdded ha (by simp [hrun])
  | endEvent eid =>
    rcases endEvent_ok hx with rfl | ⟨e, rfl, hlive, hrun, hc⟩
    · exact h
    · have hstarted : e ∈ db.events → e.startedAt ≤ clock ∧ StartedBy db e.id clock :=
        fun he => hcond e he rfl hlive hrun
      cases hc with
      | same => exact h
      | written he =>
        refine h.eventChanged (.written he rfl) ?_ ?_
        · rintro t ⟨⟩
          exact (hstarted he).1
        · rintro - - t ⟨⟩
          exact (hstarted he).2
  | startApplication eid payload =>
    obtain ⟨_, -, hx⟩ := bind_ok.mp hx
    exact h.applicationAdded (addApplication_ok hx) (by simp)
  | endApplication aid =>
    rcases endApplication_ok hx with rfl | ⟨a, hfind, hlive, hrun, hc⟩
    · exact h
    · refine h.applicationChanged hc ?_
      rintro u hu t ⟨⟩
      exact hcond a (Table.mem_of_find? hfind) (Table.key_of_find? hfind) ⟨rfl, hrun, hlive⟩ u hu
  | _ => exact hop.elim

/-- Along pushes of ordered documents and starts and ends, where no end that
the server sets comes before the start of what it ends, every interval of every
state is in order. -/
theorem intervals_of_run (hops : ∀ request ∈ requests, StartsOrEnds request.operation)
    (htime : Run.Along step InTime db requests) (h : Intervals db) :
    Run.Always step Intervals db requests := by
  induction requests generalizing db with
  | nil => exact h
  | cons request requests ih =>
    refine ⟨h, ih (fun r hr => hops r (List.mem_cons_of_mem _ hr)) htime.2 ?_⟩
    rcases step_cases db request with hs | ⟨s, db', hs, hx, hstep⟩
    · rwa [hs]
    · rw [hstep]
      have hcond := htime.1 s hs (by rw [hx]; rfl)
      exact h.execute (hops request List.mem_cons_self) hcond hx

theorem endEvent_intervals :
    Run.Always step Intervals sample [⟨2, 100, 100, .endEvent 1⟩] := by
  have hcond : EndsStarted sample sampleOwner 100 (.endEvent 1) := by
    show ∀ e ∈ sample.events, e.id = 1 → e.isDeleted = false → e.endedAt = none →
      e.startedAt ≤ 100 ∧ StartedBy sample 1 100
    decide +kernel
  exact intervals_of_run (by simp [StartsOrEnds]) ⟨fun _ _ _ => hcond, trivial⟩ (by decide +kernel)

/-- The owner's device pushes an end of the event that lies before the start of
the application that runs in it. -/
def endsTooEarly : List Request :=
  [⟨2, 100, 100, .pushEvents
    [(100, Sync.endingItem sampleEvent (Sync.eventToDoc sampleEvent) 15)]⟩]

theorem endsTooEarly_unordered :
    ¬ ∀ (db : Database) (requests : List Request), Intervals db →
      (∀ request ∈ requests, StartsOrEnds request.operation) →
        Run.Always step Intervals db requests := by
  intro h
  have hops : ∀ request ∈ endsTooEarly, StartsOrEnds request.operation := by
    simp [endsTooEarly, StartsOrEnds, OrderedEventDoc, Sync.endingItem, Sync.eventToDoc,
      sampleEvent]
  have hlast := (h sample endsTooEarly (by decide +kernel) hops).last
  exact absurd hlast (by decide +kernel)

end

end HcMap.Routes
