import HcMap.Sync.EventLaws

/-!
# Ending an event

An event is ended by its own endpoint, by a patch of its end, or by a pushed
document. The three are written apart; each sets the end and stops what still
runs, and each finds nothing left to do when it is repeated.
-/

namespace HcMap.Sync

open Services (EventUpdate eventWritten childAfter stopAfter cascadeAfter_of_live
  linkAfter_of_live written_eq autoStopOnEnd flush)

def IsRunning (eid : Uuid) (a : Application) : Prop :=
  a.eventId = eid ∧ a.endedAt = none ∧ a.isDeleted = false

instance (eid : Uuid) (a : Application) : Decidable (IsRunning eid a) := by
  unfold IsRunning
  infer_instance

/-- What ending the event `e` at `endedAt` is for: the event and its running
applications get that end, and `updatedAt` as their stamp; nothing else
changes. -/
def eventEnded (db : Database) (e : Event) (endedAt updatedAt : Time) : Database :=
  { db with
    events := db.events.set { e with endedAt := some endedAt, updatedAt := updatedAt }
    applications := db.applications.map
      (fun a => if IsRunning e.id a then { a with endedAt := some endedAt, updatedAt := updatedAt }
        else a)
      fun a => by split <;> rfl }

def endedAtOnly (endedAt : Time) : EventUpdate where
  startedAt := none
  endedAt := some (some endedAt)
  lat := none
  lon := none
  revealParticipants := none
  title := none
  note := none
  timePrecision := none
  legacyExternalRef := none

/-- The event's current document with another end, pushed as an update. -/
def endingItem (e : Event) (assumed : EventDoc) (endedAt : Time) : EventPushItem where
  assumedMasterState := some assumed
  newDocumentState := { eventToDoc e with endedAt := some endedAt }

-- ---------------------------------------------------------------------------
-- Ending
-- ---------------------------------------------------------------------------

section
variable {db : Database} {s : Session} {e : Event} {clock endedAt : Time} {assumed : EventDoc}

def withEnd (e : Event) (endedAt : Time) : Event := { e with endedAt := some endedAt }

theorem withEnd_ne (hrun : e.endedAt = none) : withEnd e endedAt ≠ e := by
  intro h
  have := congrArg Event.endedAt h
  simp [withEnd, hrun] at this

theorem eventWritten_withEnd (clock endedAt : Time) (hrun : e.endedAt = none) :
    eventWritten db clock e (withEnd e endedAt) = eventEnded db e endedAt clock := by
  have hlive : ¬ Services.Deletes e (withEnd e endedAt) := fun h => h.2 h.1
  have hchild : ∀ a, childAfter clock e (withEnd e endedAt) a =
      if IsRunning e.id a then { a with endedAt := some endedAt, updatedAt := clock } else a := by
    intro a
    rw [childAfter, cascadeAfter_of_live hlive]
    simp [stopAfter, IsRunning, withEnd, hrun, and_comm]
  unfold eventWritten eventEnded
  congr 1
  · exact Table.map_eq_self fun ep _ => linkAfter_of_live hlive
  · exact Table.map_congr fun a _ => hchild a

theorem services_end (clock : Time) (he : e ∈ db.events) (hw : eventWritable s e)
    (hrun : e.endedAt = none) :
    (do let db ← flush (db.updateEvent s clock e (withEnd e endedAt))
        pure (autoStopOnEnd db s clock e (withEnd e endedAt)) :
      Except Services.Failure Database) = .ok (eventEnded db e endedAt clock) := by
  have hfind : db.events.find? e.id = some e := Table.find?_eq_some.mpr ⟨he, rfl⟩
  have hid : (withEnd e endedAt).id = e.id := rfl
  have hby : (withEnd e endedAt).createdBy = e.createdBy := rfl
  rw [Database.updateEvent_ok.mpr (.inr ⟨withEnd_ne hrun, hw, rfl⟩)]
  show Except.ok (autoStopOnEnd _ s clock e (withEnd e endedAt)) = _
  rw [written_eq hfind hid hby hw, eventWritten_withEnd clock endedAt hrun]

theorem endEvent_eq (he : e ∈ db.events) (hw : eventWritable s e) (hrun : e.endedAt = none) :
    Services.endEvent db s clock e = .ok (eventEnded db e clock clock) := by
  unfold Services.endEvent
  simp only [hrun]
  exact services_end clock he hw hrun

theorem updateEvent_endedAtOnly (clock : Time) (he : e ∈ db.events) (hw : eventWritable s e)
    (hrun : e.endedAt = none) :
    Services.updateEvent db s clock e (endedAtOnly endedAt) =
      .ok (eventEnded db e endedAt clock) :=
  services_end clock he hw hrun

theorem endingItem_allowed {stored : Event} (assumed : EventDoc) (endedAt : Time)
    (he : stored ∈ db.events) (hw : eventWritable s stored)
    (hdoc : ({ eventToDoc e with endedAt := some endedAt } : EventDoc) =
      { eventToDoc stored with endedAt := some endedAt, updatedAt := e.updatedAt })
    (hend : stored.endedAt = none ∨ stored.endedAt = some endedAt) :
    EventUpdateAllowed s db (endingItem e assumed endedAt) stored where
  found := by
    have hid : stored.id = e.id := (congrArg EventDoc.id hdoc).symm
    exact Database.getEvent_eq_some.mpr
      ⟨Table.find?_eq_some.mpr ⟨he, hid⟩, eventVisible_of_writable hw⟩
  update := rfl
  passes := by
    rw [endingItem, hdoc]
    cases hdel : stored.isDeleted <;>
      rcases hend with hend | hend <;> simp [checkEventUpdate, eventToDoc, hend, hdel]

theorem pushEvents_endingItem (clock : Time) (assumed : EventDoc) (he : e ∈ db.events)
    (hw : eventWritable s e) (hrun : e.endedAt = none) :
    pushEvents s db [(clock, endingItem e assumed endedAt)] =
      .ok (eventEnded db e endedAt clock, []) := by
  have hchanges : EventChanges e (endingItem e assumed endedAt).newDocumentState :=
    .inl ⟨hrun, by simp [endingItem]⟩
  have hnew : applyEventUpdate e (endingItem e assumed endedAt).newDocumentState clock =
      withEnd e endedAt := by
    simp [applyEventUpdate, endingItem, eventToDoc, withEnd, hrun]
  have hallow := endingItem_allowed assumed endedAt he hw rfl (.inl hrun)
  have hitem : pushEvent s db (clock, endingItem e assumed endedAt) =
      .ok (eventEnded db e endedAt clock, []) := by
    rw [pushEvent_update hallow, if_neg (not_not.mpr hchanges), if_pos hw, hnew,
      eventWritten_withEnd clock endedAt hrun]
  exact Batch.process_cons_ok.mpr ⟨_, [], [], hitem, rfl, rfl⟩

-- ---------------------------------------------------------------------------
-- Ending again
-- ---------------------------------------------------------------------------

theorem mem_eventEnded (endedAt updatedAt : Time) (he : e ∈ db.events) :
    { withEnd e endedAt with updatedAt := updatedAt } ∈
      (eventEnded db e endedAt updatedAt).events :=
  Table.mem_set_self he rfl

theorem end_again {stored : Event} {updatedAt : Time} (assumed : EventDoc) (clock : Time)
    (he : stored ∈ db.events) (hw : eventWritable s stored)
    (hstored : stored = { withEnd e endedAt with updatedAt := updatedAt }) :
    Services.endEvent db s clock stored = .ok db ∧
      Services.updateEvent db s clock stored (endedAtOnly endedAt) = .ok db ∧
      pushEvents s db [(clock, endingItem e assumed endedAt)] = .ok (db, []) := by
  have hended : stored.endedAt = some endedAt := by rw [hstored]; rfl
  refine ⟨?_, ?_, ?_⟩
  · simp [Services.endEvent, hended]
  · have hsame : (endedAtOnly endedAt).apply stored = stored := by
      rw [hstored]
      rfl
    have hflush : db.updateEvent s clock stored stored = .ok db := by simp [Database.updateEvent]
    have hstop : autoStopOnEnd db s clock stored stored = db := by
      simp [autoStopOnEnd, hended]
    unfold Services.updateEvent
    rw [hsame, hflush]
    show Except.ok (autoStopOnEnd db s clock stored stored) = _
    rw [hstop]
  · have hchanges : ¬ EventChanges stored (endingItem e assumed endedAt).newDocumentState := by
      rw [hstored]
      simp [EventChanges, endingItem, eventToDoc, withEnd]
    have hallow : EventUpdateAllowed s db (endingItem e assumed endedAt) stored :=
      endingItem_allowed assumed endedAt he hw (by rw [hstored]; rfl) (.inr hended)
    have hitem : pushEvent s db (clock, endingItem e assumed endedAt) = .ok (db, []) := by
      rw [pushEvent_update hallow, if_pos hchanges]
    exact Batch.process_cons_ok.mpr ⟨_, [], [], hitem, rfl, rfl⟩

/-- All three ways to end an event leave `eventEnded`, each with
its own stamp; done again, by whichever way and at whatever clock, they leave
the database as it is. -/
theorem endings_agree (db : Database) (s : Session) (e : Event) (endedAt : Time)
    (he : e ∈ db.events) (hw : eventWritable s e) (hrun : e.endedAt = none) :
    Services.endEvent db s endedAt e = .ok (eventEnded db e endedAt endedAt) ∧
    (∀ clock, Services.updateEvent db s clock e (endedAtOnly endedAt) =
      .ok (eventEnded db e endedAt clock)) ∧
    (∀ clock assumed, pushEvents s db [(clock, endingItem e assumed endedAt)] =
      .ok (eventEnded db e endedAt clock, [])) ∧
    ∀ stamp clock assumed,
      let db' := eventEnded db e endedAt stamp
      ∃ stored ∈ db'.events, stored.id = e.id ∧
        Services.endEvent db' s clock stored = .ok db' ∧
        Services.updateEvent db' s clock stored (endedAtOnly endedAt) = .ok db' ∧
        pushEvents s db' [(clock, endingItem e assumed endedAt)] = .ok (db', []) := by
  refine ⟨endEvent_eq he hw hrun, fun clock => updateEvent_endedAtOnly clock he hw hrun,
    fun clock assumed => pushEvents_endingItem clock assumed he hw hrun, ?_⟩
  intro stamp clock assumed db'
  have hstored := mem_eventEnded endedAt stamp he
  exact ⟨_, hstored, rfl, end_again assumed clock hstored hw rfl⟩

theorem endings_agree_sample :
    Services.endEvent sample sampleOwner 50 sampleEvent =
      .ok (eventEnded sample sampleEvent 50 50) ∧
    pushEvents sampleOwner sample [(70, endingItem sampleEvent (eventToDoc sampleEvent) 50)] =
      .ok (eventEnded sample sampleEvent 50 70, []) :=
  have h := endings_agree sample sampleOwner sampleEvent 50 (by decide +kernel)
    (by decide +kernel) rfl
  ⟨h.1, h.2.2.1 70 (eventToDoc sampleEvent)⟩

end

end HcMap.Sync
