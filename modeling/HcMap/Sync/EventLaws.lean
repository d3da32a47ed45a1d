import HcMap.Services.EventLaws
import HcMap.Sync.PushEvents

/-!
# What an event item does

`pushEvent_cases` reads one item's result as one of five outcomes, each with
the facts that led there and the database it leaves. Nothing after this module
unfolds the loop body of the event push.
-/

namespace HcMap.Sync

open Services (eventWritten written_eq autoStopOnEnd)

-- ---------------------------------------------------------------------------
-- Auto-participants
-- ---------------------------------------------------------------------------

section
variable {db : Database} {s : Session} {clock : Time} {eid pid : Uuid} {ep : EventParticipant}

theorem ensureParticipant_cases (db : Database) (s : Session) (clock : Time) (eid pid : Uuid) :
    ensureParticipant db s clock eid pid = db ∨
      (¬ db.Linked eid pid ∧ childWritable db s eid ∧ (db.events.find? eid).isSome ∧
        (db.persons.find? pid).isSome ∧ ∃ t,
          db.participants.insert? (db.newParticipant s clock eid pid) = some t ∧
            ensureParticipant db s clock eid pid = { db with participants := t }) := by
  unfold ensureParticipant
  split
  · exact .inl rfl
  · split
    · rename_i db' h
      obtain ⟨hw, ⟨he, hp, hn⟩, t, ht, rfl⟩ := Database.insertRow_ok.mp h
      exact .inr ⟨hn, hw, he, hp, t, ht, rfl⟩
    · exact .inl rfl

theorem ensureParticipant_eq (db : Database) (s : Session) (clock : Time) (eid pid : Uuid) :
    ∃ t, ensureParticipant db s clock eid pid = { db with participants := t } := by
  rcases ensureParticipant_cases db s clock eid pid with h | ⟨-, -, -, -, t, -, h⟩
  · exact ⟨db.participants, h⟩
  · exact ⟨t, h⟩

@[simp] theorem ensureParticipant_persons :
    (ensureParticipant db s clock eid pid).persons = db.persons := by
  obtain ⟨_, h⟩ := ensureParticipant_eq db s clock eid pid
  rw [h]

@[simp] theorem ensureParticipant_events :
    (ensureParticipant db s clock eid pid).events = db.events := by
  obtain ⟨_, h⟩ := ensureParticipant_eq db s clock eid pid
  rw [h]

@[simp] theorem ensureParticipant_applications :
    (ensureParticipant db s clock eid pid).applications = db.applications := by
  obtain ⟨_, h⟩ := ensureParticipant_eq db s clock eid pid
  rw [h]

@[simp] theorem ensureParticipant_restraints :
    (ensureParticipant db s clock eid pid).restraints = db.restraints := by
  obtain ⟨_, h⟩ := ensureParticipant_eq db s clock eid pid
  rw [h]

theorem mem_ensureParticipant (h : ep ∈ (ensureParticipant db s clock eid pid).participants) :
    ep ∈ db.participants ∨
      (¬ db.Linked eid pid ∧ childWritable db s eid ∧ (db.events.find? eid).isSome ∧
        (db.persons.find? pid).isSome ∧ ep = db.newParticipant s clock eid pid) := by
  rcases ensureParticipant_cases db s clock eid pid with he | ⟨hn, hw, hev, hp, t, ht, he⟩
  · rw [he] at h
    exact .inl h
  · rw [he] at h
    rcases (Table.mem_insert? ht).mp h with h | h
    · exact .inl h
    · exact .inr ⟨hn, hw, hev, hp, h⟩

theorem mem_ensureParticipant_of_mem (h : ep ∈ db.participants) :
    ep ∈ (ensureParticipant db s clock eid pid).participants := by
  rcases ensureParticipant_cases db s clock eid pid with he | ⟨-, -, -, -, t, ht, he⟩
  · rwa [he]
  · rw [he]
    exact (Table.mem_insert? ht).mpr (.inl h)

theorem linked_ensureParticipant_ne {eid' pid' : Uuid} (h : eid' ≠ eid) :
    (ensureParticipant db s clock eid pid).Linked eid' pid' ↔ db.Linked eid' pid' := by
  constructor
  · rintro ⟨ep, hep, he, hp⟩
    rcases mem_ensureParticipant hep with hm | ⟨-, -, -, -, rfl⟩
    · exact ⟨ep, hm, he, hp⟩
    · exact absurd he.symm h
  · rintro ⟨ep, hep, hk⟩
    exact ⟨ep, mem_ensureParticipant_of_mem hep, hk⟩

/-- Where the session may write and both ends exist, the link is there
afterwards. -/
theorem linked_ensureParticipant (clock : Time) (hw : childWritable db s eid)
    (he : (db.events.find? eid).isSome) (hp : (db.persons.find? pid).isSome) :
    (ensureParticipant db s clock eid pid).Linked eid pid := by
  by_cases hl : db.Linked eid pid
  · obtain ⟨ep, hep, hk⟩ := hl
    exact ⟨ep, mem_ensureParticipant_of_mem hep, hk⟩
  · have hv : ¬ db.LinkVisible s eid pid := fun ⟨ep, hep, _, hk⟩ => hl ⟨ep, hep, hk⟩
    obtain ⟨t, ht⟩ := Table.insert?_isSome (r := db.newParticipant s clock eid pid)
      (Table.find?_fresh db.participants)
    have hi : db.insertParticipant s (db.newParticipant s clock eid pid) =
        .ok { db with participants := t } :=
      Database.insertRow_ok.mpr ⟨hw, ⟨he, hp, hl⟩, t, ht, rfl⟩
    simp only [ensureParticipant, hv, hi, if_false]
    exact ⟨_, (Table.mem_insert? ht).mpr (.inr rfl), rfl, rfl⟩

end

-- ---------------------------------------------------------------------------
-- The update path
-- ---------------------------------------------------------------------------

/-- The item is an update of the row `existing`, and no check refuses it. -/
structure EventUpdateAllowed (s : Session) (db : Database) (item : EventPushItem)
    (existing : Event) : Prop where
  found : db.getEvent s item.newDocumentState.id = some existing
  update : item.assumedMasterState.isSome
  passes : checkEventUpdate existing item.newDocumentState s.role = none

def EventChanges (existing : Event) (newDoc : EventDoc) : Prop :=
  (existing.endedAt = none ∧ newDoc.endedAt ≠ none) ∨ newDoc.title ≠ existing.title ∨
    newDoc.note ≠ existing.note ∨ newDoc.timePrecision ≠ existing.timePrecision ∨
    newDoc.revealParticipants ≠ existing.revealParticipants ∨
    newDoc.legacyExternalRef ≠ existing.legacyExternalRef ∨ newDoc.deleted ≠ existing.isDeleted

instance (existing : Event) (newDoc : EventDoc) : Decidable (EventChanges existing newDoc) := by
  unfold EventChanges
  infer_instance

section
variable {db : Database} {s : Session} {clock : Time} {existing : Event} {newDoc : EventDoc}
  {item : EventPushItem}

@[simp] theorem flipDeletedAt_self {b : Bool} {old new : Option Time} :
    flipDeletedAt b b old new clock = old := by
  cases b <;> rfl

@[simp] theorem applyEventUpdate_id :
    (applyEventUpdate existing newDoc clock).id = existing.id := rfl

@[simp] theorem applyEventUpdate_endedAt :
    (applyEventUpdate existing newDoc clock).endedAt = existing.endedAt.or newDoc.endedAt := rfl

@[simp] theorem applyEventUpdate_isDeleted :
    (applyEventUpdate existing newDoc clock).isDeleted = newDoc.deleted := rfl

theorem applyEventUpdate_eq_self (existing : Event) (newDoc : EventDoc) (clock : Time) :
    applyEventUpdate existing newDoc clock = existing ↔ ¬ EventChanges existing newDoc := by
  constructor
  · intro h hc
    have hf : ∀ {α : Type} (f : Event → α),
        f (applyEventUpdate existing newDoc clock) = f existing := fun f => congrArg f h
    rcases hc with ⟨hn, hd⟩ | hc | hc | hc | hc | hc | hc
    · have := hf Event.endedAt
      simp [hn, hd] at this
    · exact hc (hf Event.title)
    · exact hc (hf Event.note)
    · exact hc (hf Event.timePrecision)
    · exact hc (hf Event.revealParticipants)
    · exact hc (hf Event.legacyExternalRef)
    · exact hc (hf Event.isDeleted)
  · intro h
    simp only [EventChanges, ne_eq, not_or, not_not, not_and] at h
    obtain ⟨hend, htitle, hnote, hprec, hrev, hleg, hdel⟩ := h
    have he : existing.endedAt.or newDoc.endedAt = existing.endedAt := by
      cases ho : existing.endedAt with
      | none => simp [hend ho]
      | some t => rfl
    simp [applyEventUpdate, he, htitle, hnote, hprec, hrev, hleg, hdel]

theorem updateEventRow_eq (hfind : db.events.find? existing.id = some existing) :
    updateEventRow s db clock existing newDoc =
      if ¬ EventChanges existing newDoc then .ok db
      else if eventWritable s existing then
        .ok (eventWritten db clock existing (applyEventUpdate existing newDoc clock))
      else .error .staleData := by
  have hself := applyEventUpdate_eq_self existing newDoc clock
  unfold updateEventRow Database.updateEvent
  by_cases hc : EventChanges existing newDoc
  · have hne : applyEventUpdate existing newDoc clock ≠ existing := fun h => hself.mp h hc
    by_cases hw : eventWritable s existing
    · simp only [hne, hw, hc, not_true_eq_false, if_true, if_false]
      exact congrArg Except.ok (written_eq hfind rfl rfl hw)
    · simp [hne, hw, hc, afterFailedFlush, DbError.Caught]
  · have heq : applyEventUpdate existing newDoc clock = existing := hself.mpr hc
    have hstop : autoStopOnEnd db s clock existing existing = db := by
      unfold autoStopOnEnd
      cases existing.endedAt <;> rfl
    simp [heq, hc, hstop]

theorem EventUpdateAllowed.find (h : EventUpdateAllowed s db item existing) :
    db.events.find? existing.id = some existing := by
  have := (Database.getEvent_eq_some.mp h.found).1
  rwa [← Table.key_of_find? this] at this

theorem EventUpdateAllowed.id_eq (h : EventUpdateAllowed s db item existing) :
    existing.id = item.newDocumentState.id :=
  Table.key_of_find? (Database.getEvent_eq_some.mp h.found).1

theorem pushEvent_update (h : EventUpdateAllowed s db item existing) :
    pushEvent s db (clock, item) =
      if ¬ EventChanges existing item.newDocumentState then .ok (db, [])
      else if eventWritable s existing then
        .ok (eventWritten db clock existing
          (applyEventUpdate existing item.newDocumentState clock), [])
      else .error .staleData := by
  obtain ⟨m, hm⟩ := Option.isSome_iff_exists.mp h.update
  simp only [pushEvent, h.found, hm, h.passes, updateEventRow_eq h.find]
  by_cases hc : EventChanges existing item.newDocumentState
  · by_cases hw : eventWritable s existing <;> simp [hc, hw]
  · simp [hc]

end

-- ---------------------------------------------------------------------------
-- The outcomes
-- ---------------------------------------------------------------------------

structure EventInsertAllowed (s : Session) (db : Database) (newDoc : EventDoc) : Prop where
  free : db.events.find? newDoc.id = none
  writable : s.role = .admin ∨ s.role = .editor
  user : (db.users.find? s.userId).isSome

/-- What one item does, by the result of the loop body. -/
inductive EventOutcome (s : Session) (db : Database) (clock : Time) (item : EventPushItem) :
    Except DbError (Database × List EventDoc) → Prop
  | reported (doc : EventDoc) (hid : doc.id = item.newDocumentState.id)
      (hno : ∀ existing, ¬ EventUpdateAllowed s db item existing) :
      EventOutcome s db clock item (.ok (db, [doc]))
  | inserted (t : Table Event) (hitem : item.assumedMasterState = none)
      (hw : eventWritable s (newEvent s clock item.newDocumentState))
      (ht : db.events.insert? (newEvent s clock item.newDocumentState) = some t) :
      EventOutcome s db clock item
        (.ok (ensureParticipant { db with events := t } s clock item.newDocumentState.id s.personId,
          []))
  | untouched (existing : Event) (h : EventUpdateAllowed s db item existing)
      (hc : ¬ EventChanges existing item.newDocumentState) :
      EventOutcome s db clock item (.ok (db, []))
  | written (existing : Event) (h : EventUpdateAllowed s db item existing)
      (hc : EventChanges existing item.newDocumentState) (hw : eventWritable s existing) :
      EventOutcome s db clock item
        (.ok (eventWritten db clock existing
          (applyEventUpdate existing item.newDocumentState clock), []))
  | raised (existing : Event) (h : EventUpdateAllowed s db item existing)
      (hc : EventChanges existing item.newDocumentState) (hw : ¬ eventWritable s existing) :
      EventOutcome s db clock item (.error .staleData)

section
variable {db : Database} {s : Session} {clock : Time} {newDoc : EventDoc} {item : EventPushItem}

theorem checkEventUpdate_doc {existing : Event} {doc : EventDoc}
    (h : checkEventUpdate existing newDoc s.role = some doc) : doc = eventToDoc existing := by
  unfold checkEventUpdate at h
  split at h
  · exact (Option.some.inj h).symm
  split at h
  · exact (Option.some.inj h).symm
  split at h
  · exact (Option.some.inj h).symm
  · cases h

theorem insertEventOrConflict_some {db' : Database} :
    insertEventOrConflict s db clock newDoc = some db' ↔
      eventWritable s (newEvent s clock newDoc) ∧ (db.users.find? s.userId).isSome ∧ ∃ t,
        db.events.insert? (newEvent s clock newDoc) = some t ∧
          db' = ensureParticipant { db with events := t } s clock newDoc.id s.personId := by
  unfold insertEventOrConflict
  cases h : db.insertEvent s (newEvent s clock newDoc) with
  | error e =>
    simp only [reduceCtorEq, false_iff, not_and, not_exists]
    intro hw hu t ht _
    have hrefs : db.users.References (newEvent s clock newDoc).createdBy := by
      rintro k ⟨⟩
      exact hu
    have hok : db.insertEvent s (newEvent s clock newDoc) = .ok { db with events := t } :=
      Database.insertRow_ok.mpr ⟨hw, hrefs, t, ht, rfl⟩
    rw [hok] at h
    cases h
  | ok db₁ =>
    obtain ⟨hw, hu, t, ht, rfl⟩ := Database.insertRow_ok.mp h
    simp [hw, ht, hu s.userId rfl, eq_comm]

theorem EventInsertAllowed.push (h : EventInsertAllowed s db item.newDocumentState)
    (hitem : item.assumedMasterState = none) (clock : Time) :
    ∃ t, db.events.insert? (newEvent s clock item.newDocumentState) = some t ∧
      pushEvent s db (clock, item) =
        .ok (ensureParticipant { db with events := t } s clock item.newDocumentState.id s.personId,
          []) := by
  obtain ⟨t, ht⟩ := Table.insert?_isSome (r := newEvent s clock item.newDocumentState) h.free
  have hg : db.getEvent s item.newDocumentState.id = none := by
    simp [Database.getEvent, h.free]
  have hw : eventWritable s (newEvent s clock item.newDocumentState) :=
    h.writable.imp_right fun hr => ⟨hr, rfl⟩
  have hi := insertEventOrConflict_some.mpr ⟨hw, h.user, t, ht, rfl⟩
  exact ⟨t, ht, by simp only [pushEvent, hg, hitem, hi]⟩

theorem eventInsertAllowed_of_push {db' : Database} (hitem : item.assumedMasterState = none)
    (h : pushEvent s db (clock, item) = .ok (db', [])) :
    EventInsertAllowed s db item.newDocumentState := by
  simp only [pushEvent, hitem] at h
  cases hg : db.getEvent s item.newDocumentState.id with
  | some existing => simp [hg] at h
  | none =>
    cases hi : insertEventOrConflict s db clock item.newDocumentState with
    | none => simp [hg, hi] at h
    | some db'' =>
      obtain ⟨hw, hu, t, ht, -⟩ := insertEventOrConflict_some.mp hi
      exact ⟨(Table.insert?_eq_some.mp ht).1, hw.imp_right And.left, hu⟩

/-- What the server answers for an id: its row as the session sees it, or a
tombstone in its place. -/
def eventMaster (db : Database) (s : Session) (clock : Time) (id : Uuid) : EventDoc :=
  match db.getEvent s id with
  | some existing => eventToDoc existing
  | none => syntheticEventTombstone clock id

theorem pushEvent_reply {db' : Database} {ds : List EventDoc} {d : EventDoc}
    (h : pushEvent s db (clock, item) = .ok (db', ds)) (hd : d ∈ ds) :
    db' = db ∧ d = eventMaster db s clock item.newDocumentState.id := by
  have hanswer : ∀ doc, pushEvent s db (clock, item) = .ok (db, [doc]) →
      doc = eventMaster db s clock item.newDocumentState.id →
      db' = db ∧ d = eventMaster db s clock item.newDocumentState.id := fun doc hpush hdoc => by
    rw [hpush] at h
    cases h
    exact ⟨rfl, (List.mem_singleton.mp hd).trans hdoc⟩
  cases hg : db.getEvent s item.newDocumentState.id with
  | none =>
    have hmaster : syntheticEventTombstone clock item.newDocumentState.id =
        eventMaster db s clock item.newDocumentState.id := by simp [eventMaster, hg]
    cases ha : item.assumedMasterState with
    | some m => exact hanswer _ (by simp [pushEvent, hg, ha]) hmaster
    | none =>
      cases hi : insertEventOrConflict s db clock item.newDocumentState with
      | none => exact hanswer _ (by simp [pushEvent, hg, ha, hi]) hmaster
      | some db₁ =>
        simp only [pushEvent, hg, ha, hi] at h
        cases h
        cases hd
  | some existing =>
    have hmaster : eventToDoc existing = eventMaster db s clock item.newDocumentState.id := by
      simp [eventMaster, hg]
    cases ha : item.assumedMasterState with
    | none => exact hanswer _ (by simp [pushEvent, hg, ha]) hmaster
    | some m =>
      cases hch : checkEventUpdate existing item.newDocumentState s.role with
      | some doc =>
        exact hanswer doc (by simp [pushEvent, hg, ha, hch])
          ((checkEventUpdate_doc hch).trans hmaster)
      | none =>
        rw [pushEvent_update ⟨hg, by simp [ha], hch⟩] at h
        split at h
        · cases h
          cases hd
        split at h
        · cases h
          cases hd
        · cases h

theorem pushEvent_cases (s : Session) (db : Database) (clock : Time) (item : EventPushItem) :
    EventOutcome s db clock item (pushEvent s db (clock, item)) := by
  cases hg : db.getEvent s item.newDocumentState.id with
  | none =>
    have hno : ∀ existing, ¬ EventUpdateAllowed s db item existing := fun e h => by
      simpa [hg] using h.found
    cases ha : item.assumedMasterState with
    | some m =>
      simp only [pushEvent, hg, ha]
      exact .reported _ rfl hno
    | none =>
      cases hi : insertEventOrConflict s db clock item.newDocumentState with
      | none =>
        simp only [pushEvent, hg, ha, hi]
        exact .reported _ rfl hno
      | some db' =>
        obtain ⟨hw, -, t, ht, rfl⟩ := insertEventOrConflict_some.mp hi
        simp only [pushEvent, hg, ha, hi]
        exact .inserted t ha hw ht
  | some existing =>
    have hid := Table.key_of_find? (Database.getEvent_eq_some.mp hg).1
    cases ha : item.assumedMasterState with
    | none =>
      simp only [pushEvent, hg, ha]
      exact .reported _ hid fun e h => by simpa [ha] using h.update
    | some m =>
      cases hch : checkEventUpdate existing item.newDocumentState s.role with
      | some doc =>
        simp only [pushEvent, hg, ha, hch]
        have hdoc : doc.id = existing.id := congrArg EventDoc.id (checkEventUpdate_doc hch)
        refine .reported _ (hdoc.trans hid) fun e h => ?_
        have he : existing = e := Option.some.inj (hg.symm.trans h.found)
        subst he
        simpa [hch] using h.passes
      | none =>
        have h : EventUpdateAllowed s db item existing := ⟨hg, by simp [ha], hch⟩
        rw [pushEvent_update h]
        split
        · rename_i hc
          exact .untouched existing h hc
        split
        · rename_i hc hw
          exact .written existing h (not_not.mp hc) hw
        · rename_i hc hw
          exact .raised existing h (not_not.mp hc) hw

end

end HcMap.Sync
