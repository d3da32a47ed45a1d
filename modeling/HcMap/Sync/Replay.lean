import HcMap.Sync.LostUpdate

/-!
# Replayed pushes

A client that loses the answer sends its push again. `push_replay`: the second
run of a push that returned finds nothing left to do. What the first run did
to an item shows in the item being settled afterwards: its insert is taken or
refused for good, and its update would change nothing.
-/

namespace HcMap.Sync

open Services (eventWritten find?_events_eventWritten_self)

-- ---------------------------------------------------------------------------
-- Settled items
-- ---------------------------------------------------------------------------

structure EventSettled (s : Session) (db : Database) (item : EventPushItem) : Prop where
  insert : item.assumedMasterState = none → ¬ EventInsertAllowed s db item.newDocumentState
  update : ∀ existing, EventUpdateAllowed s db item existing →
    ¬ EventChanges existing item.newDocumentState

/-- The same, the restraint set included where the session may write it. -/
structure ApplicationSettled (s : Session) (db : Database) (item : ApplicationPushItem) :
    Prop where
  insert : item.assumedMasterState = none → ¬ ApplicationInsertAllowed s db item.newDocumentState
  update : ∀ existing, ApplicationUpdateAllowed s db item existing →
    ¬ ApplicationChanges existing item.newDocumentState ∧
      (applicationWritable db s existing →
        ∀ rid, HasRestraint db existing.id rid ↔ rid ∈ item.newDocumentState.restraintTypeIds)

-- ---------------------------------------------------------------------------
-- Event items
-- ---------------------------------------------------------------------------

section
variable {s : Session} {db db' : Database} {clock : Time} {item other : EventPushItem}
  {existing : Event} {ds : List EventDoc}

theorem EventSettled.idle (h : EventSettled s db item) (clock : Time) :
    ∃ ds, pushEvent s db (clock, item) = .ok (db, ds) := by
  have hcases := pushEvent_cases s db clock item
  cases hp : pushEvent s db (clock, item) with
  | error e =>
    rw [hp] at hcases
    cases hcases with
    | raised existing hallow hc => exact absurd hc (h.update existing hallow)
  | ok answer =>
    rw [hp] at hcases
    cases hcases with
    | reported doc => exact ⟨[doc], rfl⟩
    | inserted t hitem =>
      exact absurd (eventInsertAllowed_of_push hitem hp) (h.insert hitem)
    | untouched => exact ⟨[], rfl⟩
    | written existing hallow hc => exact absurd hc (h.update existing hallow)

theorem not_eventChanges_applied (existing : Event) (newDoc : EventDoc) (clock clock' : Time) :
    ¬ EventChanges { applyEventUpdate existing newDoc clock with updatedAt := clock' } newDoc := by
  rintro (⟨hnone, hsome⟩ | h)
  · have hor : existing.endedAt.or newDoc.endedAt = none := hnone
    exact hsome (Option.or_eq_none_iff.mp hor).2
  · simp [applyEventUpdate] at h

theorem pushEvent_settles (h : pushEvent s db (clock, item) = .ok (db', ds)) :
    EventSettled s db' item := by
  have hcases := pushEvent_cases s db clock item
  rw [h] at hcases
  cases hcases with
  | reported doc hid hno =>
    refine ⟨fun hitem hallow => ?_, fun existing hallow => absurd hallow (hno existing)⟩
    obtain ⟨t, -, hok⟩ := hallow.push hitem clock
    simp [h] at hok
  | inserted t hitem hw ht =>
    refine ⟨fun _ hallow => ?_, fun existing hallow => ?_⟩
    · have hfree := hallow.free
      rw [ensureParticipant_events] at hfree
      have hself : t.find? item.newDocumentState.id = some _ := Table.find?_insert?_self ht
      simp [hfree] at hself
    · have := hallow.update
      simp [hitem] at this
  | untouched existing hallow hc =>
    refine ⟨fun hitem => by simpa [hitem] using hallow.update, fun existing' hallow' => ?_⟩
    obtain rfl := Option.some.inj (hallow.found.symm.trans hallow'.found)
    exact hc
  | written existing hallow =>
    refine ⟨fun hitem => by simpa [hitem] using hallow.update, fun existing' hallow' => ?_⟩
    have hself : (eventWritten db clock existing (applyEventUpdate existing
        item.newDocumentState clock)).events.find? existing.id =
          some { applyEventUpdate existing item.newDocumentState clock with updatedAt := clock } :=
      find?_events_eventWritten_self clock existing (by simp [hallow.find])
    have hfind := hallow'.find
    rw [hallow'.id_eq, ← hallow.id_eq] at hfind
    obtain rfl := Option.some.inj (hself.symm.trans hfind)
    exact not_eventChanges_applied existing _ clock clock

theorem EventSettled.frame (h : EventSettled s db item)
    (hpush : pushEvent s db (clock, other) = .ok (db', ds))
    (hid : item.newDocumentState.id ≠ other.newDocumentState.id) : EventSettled s db' item where
  insert hitem hallow := by
    refine h.insert hitem ⟨?_, hallow.writable, ?_⟩
    · rw [← (pushEvent_frame hpush hid).1]
      exact hallow.free
    · rw [← pushEvent_users hpush]
      exact hallow.user
  update existing hallow := h.update existing ((eventUpdateAllowed_frame hpush hid).mp hallow)

end

-- ---------------------------------------------------------------------------
-- Application items
-- ---------------------------------------------------------------------------

section
variable {s : Session} {db db' : Database} {clock : Time} {item other : ApplicationPushItem}
  {existing : Application} {ds : List ApplicationDoc}

theorem ApplicationSettled.idle (h : ApplicationSettled s db item) (clock : Time) :
    ∃ ds, pushApplication s db (clock, item) = .ok (db, ds) := by
  have hcases := pushApplication_cases s db clock item
  cases hp : pushApplication s db (clock, item) with
  | error e =>
    rw [hp] at hcases
    cases hcases with
    | raised existing e hallow hc => exact absurd hc (h.update existing hallow).1
  | ok answer =>
    rw [hp] at hcases
    cases hcases with
    | reported doc => exact ⟨[doc], rfl⟩
    | inserted t hitem hallow => exact absurd hallow (h.insert hitem)
    | untouched existing hallow =>
      have hset : syncApplicationRestraints db s existing.id
          item.newDocumentState.restraintTypeIds = db := by
        by_cases hw : applicationWritable db s existing
        · exact syncApplicationRestraints_eq_self hallow.mem ((h.update existing hallow).2 hw)
        · exact syncApplicationRestraints_readonly hallow.mem rfl hw
      exact ⟨[], by rw [hset]⟩
    | written existing hallow hc => exact absurd hc (h.update existing hallow).1

theorem not_applicationChanges_applied (existing : Application) (newDoc : ApplicationDoc)
    (clock clock' : Time) :
    ¬ ApplicationChanges { applyApplicationUpdate existing newDoc clock with updatedAt := clock' }
      newDoc := by
  rintro (⟨hnone, hsome⟩ | h)
  · have hor : existing.endedAt.or newDoc.endedAt = none := hnone
    exact hsome (Option.or_eq_none_iff.mp hor).2
  · simp [applyApplicationUpdate] at h

theorem pushApplication_settles (h : pushApplication s db (clock, item) = .ok (db', ds)) :
    ApplicationSettled s db' item := by
  have hcases := pushApplication_cases s db clock item
  rw [h] at hcases
  cases hcases with
  | reported doc hid hno hni => exact ⟨hni, fun existing hallow => absurd hallow (hno existing)⟩
  | inserted t hitem _ ht =>
    refine ⟨fun _ hallow => ?_, fun existing hallow => ?_⟩
    · have hfree := hallow.free
      rw [applicationInserted_applications] at hfree
      have hself : t.find? item.newDocumentState.id = some _ := Table.find?_insert?_self ht
      simp [hfree] at hself
    · have := hallow.update
      simp [hitem] at this
  | untouched existing hallow hc =>
    refine ⟨fun hitem => by simpa [hitem] using hallow.update, fun existing' hallow' => ?_⟩
    have hfind := hallow'.find_doc
    rw [syncApplicationRestraints_applications] at hfind
    obtain rfl := Option.some.inj (hallow.find_doc.symm.trans hfind)
    refine ⟨hc, fun hw rid => ?_⟩
    have hw : applicationWritable db s existing :=
      (childWritable_congr (.of_events (pushApplication_events h))).mp hw
    exact hasRestraint_syncApplicationRestraints hallow.mem rfl hw
      fun rid hrid => restraintsAllowed_isSome hallow.restraints hrid
  | written existing hallow hc hw =>
    refine ⟨fun hitem => by simpa [hitem] using hallow.update, fun existing' hallow' => ?_⟩
    have hself : (applicationWritten db clock (applyApplicationUpdate existing
        item.newDocumentState clock)).applications.find? existing.id =
          some { applyApplicationUpdate existing item.newDocumentState clock with
            updatedAt := clock } :=
      find?_applicationWritten_self db clock (by simp [hallow.find])
    have hfind := hallow'.find
    rw [syncApplicationRestraints_applications, hallow'.id_eq, ← hallow.id_eq] at hfind
    obtain rfl := Option.some.inj (hself.symm.trans hfind)
    exact ⟨not_applicationChanges_applied existing _ clock clock,
      fun _ rid => hasRestraint_applicationWritten hallow hw⟩

theorem ApplicationSettled.frame (h : ApplicationSettled s db item)
    (hpush : pushApplication s db (clock, other) = .ok (db', ds))
    (hid : item.newDocumentState.id ≠ other.newDocumentState.id) :
    ApplicationSettled s db' item where
  insert hitem hallow := by
    have hacc := pushApplication_sameAccess hpush
    refine h.insert hitem (hallow.congr hacc.symm.reference (pushApplication_events hpush).symm ?_)
    exact (pushApplication_frame hpush hid).1.symm
  update existing hallow := by
    have hallow := (applicationUpdateAllowed_frame hpush hid).mp hallow
    obtain ⟨hc, hset⟩ := h.update existing hallow
    refine ⟨hc, fun hw rid => ?_⟩
    have hw : applicationWritable db s existing :=
      (childWritable_congr (.of_events (pushApplication_events hpush))).mp hw
    rw [hallow.id_eq, (pushApplication_frame hpush hid).2 rid, ← hallow.id_eq]
    exact hset hw rid

end

-- ---------------------------------------------------------------------------
-- The push again
-- ---------------------------------------------------------------------------

def Push.Completes (db : Database) : Push → Prop
  | .events s items => (pushEvents s db items).isOk
  | .applications s items => (pushApplications s db items).isOk

def Push.DistinctIds : Push → Prop
  | .events _ items => (items.map fun item => item.2.newDocumentState.id).Nodup
  | .applications _ items => (items.map fun item => item.2.newDocumentState.id).Nodup

def Push.Repeats : Push → Push → Prop
  | .events s' items', .events s items =>
    s' = { s with now := s'.now } ∧ items'.map Prod.snd = items.map Prod.snd
  | .applications s' items', .applications s items =>
    s' = { s with now := s'.now } ∧ items'.map Prod.snd = items.map Prod.snd
  | _, _ => False

section
variable {s : Session} {db : Database}

theorem EventSettled.at {item : EventPushItem} (h : EventSettled s db item) (now : Time) :
    EventSettled { s with now := now } db item :=
  ⟨fun hitem hallow => h.insert hitem ⟨hallow.free, hallow.writable, hallow.user⟩,
    fun existing hallow => h.update existing ⟨hallow.found, hallow.update, hallow.passes⟩⟩

theorem ApplicationSettled.at {item : ApplicationPushItem} (h : ApplicationSettled s db item)
    (now : Time) : ApplicationSettled { s with now := now } db item :=
  ⟨fun hitem hallow => h.insert hitem (hallow.at s.now),
    fun existing hallow => h.update existing ⟨hallow.found, hallow.update, hallow.passes,
      hallow.restraints, hallow.positions⟩⟩

theorem exists_same_item {ι : Type} {items items' : List (Time × ι)}
    (hitems : items'.map Prod.snd = items.map Prod.snd) {item : Time × ι} (h : item ∈ items') :
    ∃ item₀ ∈ items, item₀.2 = item.2 := by
  have hmem : item.2 ∈ items.map Prod.snd := hitems ▸ List.mem_map_of_mem h
  exact List.mem_map.mp hmem

theorem pushEvents_replay {db' : Database} {items items' : List (Time × EventPushItem)}
    {ds : List EventDoc} (hids : (items.map fun item => item.2.newDocumentState.id).Nodup)
    (h : pushEvents s db items = .ok (db', ds)) (now : Time)
    (hitems : items'.map Prod.snd = items.map Prod.snd) :
    ∃ ds', pushEvents { s with now := now } db' items' = .ok (db', ds') := by
  have hsettled := Batch.settles (fun item db => EventSettled s db item.2)
    (fun item other => item.2.newDocumentState.id ≠ other.2.newDocumentState.id)
    (fun _ _ _ _ hi => pushEvent_settles hi)
    (fun _ _ (_, _) _ _ hne hset hi => hset.frame hi hne) (List.pairwise_map.mp hids) h
  refine Batch.idle fun item hitem => ?_
  obtain ⟨item₀, hitem₀, heq⟩ := exists_same_item hitems hitem
  have hset : EventSettled s db' item.2 := heq ▸ hsettled item₀ hitem₀
  exact (hset.at now).idle item.1

theorem pushApplications_replay {db' : Database} {items items' : List (Time × ApplicationPushItem)}
    {ds : List ApplicationDoc} (hids : (items.map fun item => item.2.newDocumentState.id).Nodup)
    (h : pushApplications s db items = .ok (db', ds)) (now : Time)
    (hitems : items'.map Prod.snd = items.map Prod.snd) :
    ∃ ds', pushApplications { s with now := now } db' items' = .ok (db', ds') := by
  have hsettled := Batch.settles (fun item db => ApplicationSettled s db item.2)
    (fun item other => item.2.newDocumentState.id ≠ other.2.newDocumentState.id)
    (fun _ _ _ _ hi => pushApplication_settles hi)
    (fun _ _ (_, _) _ _ hne hset hi => hset.frame hi hne) (List.pairwise_map.mp hids) h
  refine Batch.idle fun item hitem => ?_
  obtain ⟨item₀, hitem₀, heq⟩ := exists_same_item hitems hitem
  have hset : ApplicationSettled s db' item.2 := heq ▸ hsettled item₀ hitem₀
  exact (hset.at now).idle item.1

/-- A push that returned, sent again with nothing in between, returns and
leaves every row as the first one left it. -/
theorem push_replay (db : Database) (push again : Push) (hids : push.DistinctIds)
    (hok : push.Completes db) (hagain : again.Repeats push) :
    again.Completes (push.step db) ∧ again.step (push.step db) = push.step db := by
  cases push with
  | events s items =>
    cases again with
    | applications => exact hagain.elim
    | events s' items' =>
      obtain ⟨hs, hitems⟩ := hagain
      cases h : pushEvents s db items with
      | error e => simp [Push.Completes, h, Except.isOk, Except.toBool] at hok
      | ok answer =>
        obtain ⟨ds', hreplay⟩ := pushEvents_replay hids h s'.now hitems
        rw [← hs] at hreplay
        simp [Push.Completes, Push.step, h, hreplay, Except.isOk, Except.toBool]
  | applications s items =>
    cases again with
    | events => exact hagain.elim
    | applications s' items' =>
      obtain ⟨hs, hitems⟩ := hagain
      cases h : pushApplications s db items with
      | error e => simp [Push.Completes, h, Except.isOk, Except.toBool] at hok
      | ok answer =>
        obtain ⟨ds', hreplay⟩ := pushApplications_replay hids h s'.now hitems
        rw [← hs] at hreplay
        simp [Push.Completes, Push.step, h, hreplay, Except.isOk, Except.toBool]

end

/-- The owner ends the event and records another; the answer is lost. -/
def lostItems : List EventPushItem :=
  [⟨some (eventToDoc sampleEvent), { sampleTitled with endedAt := some 40 }⟩,
    ⟨none, { sampleTitled with id := 2 }⟩]

def lostPush : Push := .events sampleOwner (lostItems.map fun item => (50, item))

def sentAgain : Push :=
  .events { sampleOwner with now := 200 } (lostItems.map fun item => (210, item))

theorem sentAgain_idle :
    sentAgain.Completes (lostPush.step sample) ∧
      sentAgain.step (lostPush.step sample) = lostPush.step sample :=
  push_replay sample lostPush sentAgain
    (show (lostItems.map fun item => item.newDocumentState.id).Nodup by decide)
    (show (pushEvents _ _ _).isOk by decide +kernel) ⟨rfl, rfl⟩

end HcMap.Sync
