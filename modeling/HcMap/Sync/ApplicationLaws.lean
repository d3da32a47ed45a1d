import HcMap.Sync.EventLaws
import HcMap.Sync.RestraintLaws

/-!
# What an application item does

`pushApplication_cases` is `pushEvent_cases` for applications. An update of a
row the session may see but not write raises when a column changes; when only
the restraint set differs, it is dropped without a reply.
-/

namespace HcMap.Sync

-- ---------------------------------------------------------------------------
-- Auto-participants
-- ---------------------------------------------------------------------------

section
variable {db : Database} {s : Session} {clock : Time} {eid pid rid : Uuid} {ep : EventParticipant}

theorem ensureParticipants_eq (db : Database) (s : Session) (clock : Time) (eid pid rid : Uuid) :
    ∃ t, ensureParticipants db s clock eid pid rid = { db with participants := t } := by
  obtain ⟨t, ht⟩ := ensureParticipant_eq db s clock eid pid
  obtain ⟨t', ht'⟩ := ensureParticipant_eq (ensureParticipant db s clock eid pid) s clock eid rid
  unfold ensureParticipants
  split
  · exact ⟨t', by rw [ht', ht]⟩
  · exact ⟨t, ht⟩

theorem mem_ensureParticipants_of_mem (h : ep ∈ db.participants) :
    ep ∈ (ensureParticipants db s clock eid pid rid).participants := by
  unfold ensureParticipants
  split
  · exact mem_ensureParticipant_of_mem (mem_ensureParticipant_of_mem h)
  · exact mem_ensureParticipant_of_mem h

theorem mem_ensureParticipants
    (h : ep ∈ (ensureParticipants db s clock eid pid rid).participants) :
    ep ∈ db.participants ∨
      (ep.eventId = eid ∧ (ep.personId = pid ∨ ep.personId = rid) ∧ ep.isDeleted = false ∧
        childWritable db s eid ∧ ¬ db.Linked eid ep.personId) := by
  have hone : ∀ {ep}, ep ∈ (ensureParticipant db s clock eid pid).participants →
      ep ∈ db.participants ∨ (ep.eventId = eid ∧ ep.personId = pid ∧ ep.isDeleted = false ∧
        childWritable db s eid ∧ ¬ db.Linked eid ep.personId) := fun h => by
    rcases mem_ensureParticipant h with h | ⟨hn, hw, -, -, rfl⟩
    · exact .inl h
    · exact .inr ⟨rfl, rfl, rfl, hw, hn⟩
  have hw : childWritable (ensureParticipant db s clock eid pid) s eid →
      childWritable db s eid := by
    obtain ⟨t, ht⟩ := ensureParticipant_eq db s clock eid pid
    rw [ht]
    exact id
  unfold ensureParticipants at h
  split at h
  · rcases mem_ensureParticipant h with h | ⟨hn, hw', -, -, rfl⟩
    · rcases hone h with h | ⟨he, hp, hd, hw', hn⟩
      · exact .inl h
      · exact .inr ⟨he, .inl hp, hd, hw', hn⟩
    · refine .inr ⟨rfl, .inr rfl, rfl, hw hw', ?_⟩
      rintro ⟨ep, hep, hk⟩
      exact hn ⟨ep, mem_ensureParticipant_of_mem hep, hk⟩
  · rcases hone h with h | ⟨he, hp, hd, hw', hn⟩
    · exact .inl h
    · exact .inr ⟨he, .inl hp, hd, hw', hn⟩

theorem linked_ensureParticipants (clock : Time) (hw : childWritable db s eid)
    (he : (db.events.find? eid).isSome) (hp : (db.persons.find? pid).isSome)
    (hr : (db.persons.find? rid).isSome) :
    (ensureParticipants db s clock eid pid rid).Linked eid pid ∧
      (ensureParticipants db s clock eid pid rid).Linked eid rid := by
  have hone := linked_ensureParticipant clock hw he hp
  unfold ensureParticipants
  split
  · have hw' : childWritable (ensureParticipant db s clock eid pid) s eid := by
      obtain ⟨t, ht⟩ := ensureParticipant_eq db s clock eid pid
      rw [ht]
      exact hw
    obtain ⟨ep, hep, hk⟩ := hone
    exact ⟨⟨ep, mem_ensureParticipant_of_mem hep, hk⟩,
      linked_ensureParticipant clock hw' (by simpa using he) (by simpa using hr)⟩
  · rename_i heq
    have heq : rid = pid := not_not.mp heq
    subst heq
    exact ⟨hone, hone⟩

-- ---------------------------------------------------------------------------
-- The sequence number
-- ---------------------------------------------------------------------------

theorem le_of_mem_sequence {a : Application} (ha : a ∈ db.applications) (he : a.eventId = eid)
    (hv : applicationVisible db s a) : a.sequenceNo < nextSequenceNo db s eid := by
  have hmem : a.sequenceNo ∈ (db.applications.rows.filter fun a =>
      a.eventId = eid ∧ applicationVisible db s a).map Application.sequenceNo :=
    List.mem_map.mpr ⟨a, List.mem_filter.mpr ⟨ha, by simp [he, hv]⟩, rfl⟩
  have := Table.le_foldr_max hmem
  unfold nextSequenceNo Services.nextSequenceNo
  omega

theorem nextSequenceNo_free (hw : childWritable db s eid) :
    ¬ db.SequenceTaken eid (nextSequenceNo db s eid) := by
  rintro ⟨a, ha, he, hn⟩
  have hv : applicationVisible db s a := by
    refine applicationVisible_of_writable ?_
    rwa [applicationWritable, he]
  have := le_of_mem_sequence ha he hv
  omega

end

-- ---------------------------------------------------------------------------
-- The update path
-- ---------------------------------------------------------------------------

/-- The item is an update of the row `existing`, and no check refuses it. -/
structure ApplicationUpdateAllowed (s : Session) (db : Database) (item : ApplicationPushItem)
    (existing : Application) : Prop where
  found : db.getApplication s item.newDocumentState.id = some existing
  update : item.assumedMasterState.isSome
  passes : checkApplicationUpdate existing item.newDocumentState s.role = none
  restraints : restraintsAllowed db s item.newDocumentState.restraintTypeIds
  positions : positionFksAllowed db s item.newDocumentState

def ApplicationChanges (existing : Application) (newDoc : ApplicationDoc) : Prop :=
  (existing.endedAt = none ∧ newDoc.endedAt ≠ none) ∨
    newDoc.performerId ≠ existing.performerId ∨ newDoc.recipientId ≠ existing.recipientId ∨
    newDoc.armPositionId ≠ existing.armPositionId ∨
    newDoc.handPositionId ≠ existing.handPositionId ∨
    newDoc.handOrientationId ≠ existing.handOrientationId ∨ newDoc.note ≠ existing.note ∨
    newDoc.deleted ≠ existing.isDeleted

def PersonsKnown (db : Database) (existing : Application) (newDoc : ApplicationDoc) : Prop :=
  (newDoc.performerId = existing.performerId ∨ (db.persons.find? newDoc.performerId).isSome) ∧
    (newDoc.recipientId = existing.recipientId ∨ (db.persons.find? newDoc.recipientId).isSome)

instance (existing : Application) (newDoc : ApplicationDoc) :
    Decidable (ApplicationChanges existing newDoc) := by
  unfold ApplicationChanges
  infer_instance

instance (db : Database) (existing : Application) (newDoc : ApplicationDoc) :
    Decidable (PersonsKnown db existing newDoc) := by
  unfold PersonsKnown
  infer_instance

section
variable {db : Database} {s : Session} {clock : Time} {existing : Application}
  {newDoc : ApplicationDoc} {item : ApplicationPushItem}

@[simp] theorem applyApplicationUpdate_id :
    (applyApplicationUpdate existing newDoc clock).id = existing.id := rfl

@[simp] theorem applyApplicationUpdate_endedAt :
    (applyApplicationUpdate existing newDoc clock).endedAt = existing.endedAt.or newDoc.endedAt :=
  rfl

theorem applyApplicationUpdate_eq_self (existing : Application) (newDoc : ApplicationDoc)
    (clock : Time) :
    applyApplicationUpdate existing newDoc clock = existing ↔
      ¬ ApplicationChanges existing newDoc := by
  constructor
  · intro h hc
    have hf : ∀ {α : Type} (f : Application → α),
        f (applyApplicationUpdate existing newDoc clock) = f existing := fun f => congrArg f h
    rcases hc with ⟨hn, hd⟩ | hc | hc | hc | hc | hc | hc | hc
    · have := hf Application.endedAt
      simp [hn, hd] at this
    · exact hc (hf Application.performerId)
    · exact hc (hf Application.recipientId)
    · exact hc (hf Application.armPositionId)
    · exact hc (hf Application.handPositionId)
    · exact hc (hf Application.handOrientationId)
    · exact hc (hf Application.note)
    · exact hc (hf Application.isDeleted)
  · intro h
    simp only [ApplicationChanges, ne_eq, not_or, not_not, not_and] at h
    obtain ⟨hend, hperf, hrec, harm, hhand, hori, hnote, hdel⟩ := h
    have he : existing.endedAt.or newDoc.endedAt = existing.endedAt := by
      cases ho : existing.endedAt with
      | none => simp [hend ho]
      | some t => rfl
    simp [applyApplicationUpdate, he, hperf, hrec, harm, hhand, hori, hnote, hdel]

theorem positionAllowed_references {t : Table CatalogEntry} {id : Option Uuid}
    (h : positionAllowed t s id) : t.References id := by
  intro k hk
  obtain ⟨c, hc, -⟩ := h k hk
  simp [(Database.getCatalogEntry_eq_some.mp hc).1]

theorem changedRefs_iff (existing : Application) (clock : Time)
    (h : positionFksAllowed db s newDoc) :
    db.ChangedRefs existing (applyApplicationUpdate existing newDoc clock) ↔
      PersonsKnown db existing newDoc := by
  obtain ⟨harm, hhand, hori⟩ := h
  constructor
  · rintro ⟨hp, hr, -⟩
    exact ⟨hp, hr⟩
  · rintro ⟨hp, hr⟩
    exact ⟨hp, hr, .inr (positionAllowed_references harm), .inr (positionAllowed_references hhand),
      .inr (positionAllowed_references hori)⟩

theorem ApplicationUpdateAllowed.find (h : ApplicationUpdateAllowed s db item existing) :
    db.applications.find? existing.id = some existing := by
  have := (Database.getApplication_eq_some.mp h.found).1
  rwa [← Table.key_of_find? this] at this

theorem ApplicationUpdateAllowed.find_doc (h : ApplicationUpdateAllowed s db item existing) :
    db.applications.find? item.newDocumentState.id = some existing :=
  (Database.getApplication_eq_some.mp h.found).1

theorem ApplicationUpdateAllowed.mem (h : ApplicationUpdateAllowed s db item existing) :
    existing ∈ db.applications := Table.mem_of_find? h.find

theorem ApplicationUpdateAllowed.id_eq (h : ApplicationUpdateAllowed s db item existing) :
    existing.id = item.newDocumentState.id :=
  Table.key_of_find? (Database.getApplication_eq_some.mp h.found).1

def applicationWritten (db : Database) (clock : Time) (new : Application) : Database :=
  { db with applications := db.applications.set { new with updatedAt := clock } }

theorem find?_applicationWritten_self (db : Database) (clock : Time) {new : Application}
    (h : (db.applications.find? new.id).isSome) :
    (applicationWritten db clock new).applications.find? new.id =
      some { new with updatedAt := clock } := by
  have h' : (db.applications.find? (key { new with updatedAt := clock })).isSome := h
  exact Table.find?_set_self h'

theorem find?_applicationWritten_ne (db : Database) (clock : Time) {new : Application} {id : Uuid}
    (h : new.id ≠ id) :
    (applicationWritten db clock new).applications.find? id = db.applications.find? id :=
  Table.find?_set_ne h

theorem pushApplication_update (h : ApplicationUpdateAllowed s db item existing) :
    pushApplication s db (clock, item) =
      if ¬ ApplicationChanges existing item.newDocumentState then
        .ok (syncApplicationRestraints db s existing.id item.newDocumentState.restraintTypeIds, [])
      else if ¬ applicationWritable db s existing then .error .staleData
      else if ¬ PersonsKnown db existing item.newDocumentState then .error .pendingRollback
      else .ok (syncApplicationRestraints
        (applicationWritten db clock
          (applyApplicationUpdate existing item.newDocumentState clock))
        s existing.id item.newDocumentState.restraintTypeIds, []) := by
  obtain ⟨m, hm⟩ := Option.isSome_iff_exists.mp h.update
  have hself := applyApplicationUpdate_eq_self existing item.newDocumentState clock
  have hrefs := changedRefs_iff existing clock h.positions
  simp only [pushApplication, h.found, hm, h.passes, h.restraints, h.positions,
    updateApplicationRow, Database.updateApplication, not_true_eq_false, Option.isSome_none,
    Bool.false_eq_true, or_self, if_false]
  by_cases hc : ApplicationChanges existing item.newDocumentState
  · have hne : applyApplicationUpdate existing item.newDocumentState clock ≠ existing :=
      fun h => hself.mp h hc
    by_cases hw : applicationWritable db s existing
    · by_cases hp : PersonsKnown db existing item.newDocumentState
      · simp [hne, hc, hw, hp, hrefs, applicationWritten]
      · simp [hne, hc, hw, hp, hrefs, afterFailedFlush, DbError.Caught]
    · simp [hne, hc, hw, afterFailedFlush, DbError.Caught]
  · simp [hself.mpr hc, hc]

end

-- ---------------------------------------------------------------------------
-- The outcomes
-- ---------------------------------------------------------------------------

def applicationInserted (s : Session) (db : Database) (clock : Time) (t : Table Application)
    (newDoc : ApplicationDoc) : Database :=
  syncApplicationRestraints
    (ensureParticipants { db with applications := t } s clock newDoc.eventId newDoc.performerId
      newDoc.recipientId)
    s newDoc.id newDoc.restraintTypeIds

structure ApplicationInsertAllowed (s : Session) (db : Database) (newDoc : ApplicationDoc) :
    Prop where
  free : db.applications.find? newDoc.id = none
  restraints : restraintsAllowed db s newDoc.restraintTypeIds
  positions : positionFksAllowed db s newDoc
  writable : childWritable db s newDoc.eventId
  event : (db.events.find? newDoc.eventId).isSome
  performer : (db.persons.find? newDoc.performerId).isSome
  recipient : (db.persons.find? newDoc.recipientId).isSome
  user : (db.users.find? s.userId).isSome

/-- What one item does, by the result of the loop body. -/
inductive ApplicationOutcome (s : Session) (db : Database) (clock : Time)
    (item : ApplicationPushItem) : Except DbError (Database × List ApplicationDoc) → Prop
  | reported (doc : ApplicationDoc) (hid : doc.id = item.newDocumentState.id)
      (hno : ∀ existing, ¬ ApplicationUpdateAllowed s db item existing)
      (hni : item.assumedMasterState = none →
        ¬ ApplicationInsertAllowed s db item.newDocumentState) :
      ApplicationOutcome s db clock item (.ok (db, [doc]))
  | inserted (t : Table Application) (hitem : item.assumedMasterState = none)
      (h : ApplicationInsertAllowed s db item.newDocumentState)
      (ht : db.applications.insert? (newApplication s clock
        (nextSequenceNo db s item.newDocumentState.eventId) item.newDocumentState) = some t) :
      ApplicationOutcome s db clock item
        (.ok (applicationInserted s db clock t item.newDocumentState, []))
  | untouched (existing : Application) (h : ApplicationUpdateAllowed s db item existing)
      (hc : ¬ ApplicationChanges existing item.newDocumentState) :
      ApplicationOutcome s db clock item
        (.ok (syncApplicationRestraints db s existing.id item.newDocumentState.restraintTypeIds,
          []))
  | written (existing : Application) (h : ApplicationUpdateAllowed s db item existing)
      (hc : ApplicationChanges existing item.newDocumentState)
      (hw : applicationWritable db s existing)
      (hp : PersonsKnown db existing item.newDocumentState) :
      ApplicationOutcome s db clock item
        (.ok (syncApplicationRestraints
          (applicationWritten db clock
            (applyApplicationUpdate existing item.newDocumentState clock))
          s existing.id item.newDocumentState.restraintTypeIds, []))
  | raised (existing : Application) (e : DbError)
      (h : ApplicationUpdateAllowed s db item existing)
      (hc : ApplicationChanges existing item.newDocumentState)
      (hw : ¬ (applicationWritable db s existing ∧
        PersonsKnown db existing item.newDocumentState)) :
      ApplicationOutcome s db clock item (.error e)

section
variable {db : Database} {s : Session} {clock : Time} {newDoc : ApplicationDoc}
  {item : ApplicationPushItem}

theorem ApplicationInsertAllowed.at (h : ApplicationInsertAllowed s db newDoc) (now : Time) :
    ApplicationInsertAllowed { s with now := now } db newDoc :=
  ⟨h.free, h.restraints, h.positions, h.writable, h.event, h.performer, h.recipient, h.user⟩

theorem insertApplicationOrConflict_of_allowed (clock : Time)
    (h : ApplicationInsertAllowed s db newDoc) :
    ∃ t, db.applications.insert?
        (newApplication s clock (nextSequenceNo db s newDoc.eventId) newDoc) = some t ∧
      insertApplicationOrConflict s db clock newDoc =
        some (ensureParticipants { db with applications := t } s clock newDoc.eventId
          newDoc.performerId newDoc.recipientId) := by
  obtain ⟨t, ht⟩ := Table.insert?_isSome
    (r := newApplication s clock (nextSequenceNo db s newDoc.eventId) newDoc) h.free
  have hrefs : db.ApplicationRefs
      (newApplication s clock (nextSequenceNo db s newDoc.eventId) newDoc) := by
    refine ⟨h.event, h.performer, h.recipient, positionAllowed_references h.positions.1,
      positionAllowed_references h.positions.2.1, positionAllowed_references h.positions.2.2, ?_⟩
    rintro k ⟨⟩
    exact h.user
  have hok : db.insertApplication s
      (newApplication s clock (nextSequenceNo db s newDoc.eventId) newDoc) =
        .ok { db with applications := t } :=
    Database.insertRow_ok.mpr ⟨h.writable, ⟨hrefs, nextSequenceNo_free h.writable⟩, t, ht, rfl⟩
  exact ⟨t, ht, by simp [insertApplicationOrConflict, h.positions, hok]⟩

theorem insertApplicationOrConflict_of_not_allowed
    (hr : restraintsAllowed db s newDoc.restraintTypeIds)
    (h : ¬ ApplicationInsertAllowed s db newDoc) :
    insertApplicationOrConflict s db clock newDoc = none := by
  unfold insertApplicationOrConflict
  split
  · rfl
  · rename_i hpos
    cases hi : db.insertApplication s
        (newApplication s clock (nextSequenceNo db s newDoc.eventId) newDoc) with
    | error e => rfl
    | ok db' =>
      obtain ⟨hw, ⟨⟨he, hp, hr', -, -, -, hu⟩, -⟩, t, ht, -⟩ := Database.insertRow_ok.mp hi
      exact absurd ⟨(Table.insert?_eq_some.mp ht).1, hr, not_not.mp hpos, hw, he, hp, hr',
        hu s.userId rfl⟩ h

theorem pushApplication_insert (clock : Time) (hitem : item.assumedMasterState = none)
    (h : ApplicationInsertAllowed s db item.newDocumentState) :
    ∃ t, db.applications.insert? (newApplication s clock
        (nextSequenceNo db s item.newDocumentState.eventId) item.newDocumentState) = some t ∧
      pushApplication s db (clock, item) =
        .ok (applicationInserted s db clock t item.newDocumentState, []) := by
  obtain ⟨t, ht, hi⟩ := insertApplicationOrConflict_of_allowed clock h
  have hg : db.getApplication s item.newDocumentState.id = none := by
    simp [Database.getApplication, h.free]
  exact ⟨t, ht, by simp [pushApplication, hg, hitem, h.restraints, hi, applicationInserted]⟩

/-- What the server answers for an id: its row with the restraint set, as the
session sees them, or a tombstone in its place. -/
def applicationMaster (db : Database) (s : Session) (clock : Time) (newDoc : ApplicationDoc) :
    ApplicationDoc :=
  match db.getApplication s newDoc.id with
  | some existing => applicationConflictDoc db s existing
  | none => syntheticApplicationTombstone clock newDoc.id newDoc.eventId

theorem pushApplication_reply {db' : Database} {ds : List ApplicationDoc} {d : ApplicationDoc}
    (h : pushApplication s db (clock, item) = .ok (db', ds)) (hd : d ∈ ds) :
    db' = db ∧ d = applicationMaster db s clock item.newDocumentState := by
  have hanswer : ∀ doc, pushApplication s db (clock, item) = .ok (db, [doc]) →
      doc = applicationMaster db s clock item.newDocumentState →
      db' = db ∧ d = applicationMaster db s clock item.newDocumentState := fun doc hpush hdoc => by
    rw [hpush] at h
    cases h
    exact ⟨rfl, (List.mem_singleton.mp hd).trans hdoc⟩
  cases hg : db.getApplication s item.newDocumentState.id with
  | none =>
    have hmaster : syntheticApplicationTombstone clock item.newDocumentState.id
        item.newDocumentState.eventId = applicationMaster db s clock item.newDocumentState := by
      simp [applicationMaster, hg]
    cases ha : item.assumedMasterState with
    | some m => exact hanswer _ (by simp [pushApplication, hg, ha]) hmaster
    | none =>
      by_cases hr : restraintsAllowed db s item.newDocumentState.restraintTypeIds
      · cases hi : insertApplicationOrConflict s db clock item.newDocumentState with
        | none => exact hanswer _ (by simp [pushApplication, hg, ha, hr, hi]) hmaster
        | some db₁ =>
          simp only [pushApplication, hg, ha, hr, hi, not_true_eq_false, if_false] at h
          cases h
          cases hd
      · exact hanswer _ (by simp [pushApplication, hg, ha, hr]) hmaster
  | some existing =>
    have hmaster : applicationConflictDoc db s existing =
        applicationMaster db s clock item.newDocumentState := by simp [applicationMaster, hg]
    cases ha : item.assumedMasterState with
    | none => exact hanswer _ (by simp [pushApplication, hg, ha]) hmaster
    | some m =>
      by_cases hbad : (checkApplicationUpdate existing item.newDocumentState s.role).isSome ∨
          ¬ restraintsAllowed db s item.newDocumentState.restraintTypeIds ∨
          ¬ positionFksAllowed db s item.newDocumentState
      · exact hanswer _ (by simp only [pushApplication, hg, ha, hbad, if_true]) hmaster
      · simp only [not_or, not_not, Option.not_isSome_iff_eq_none] at hbad
        rw [pushApplication_update ⟨hg, by simp [ha], hbad.1, hbad.2.1, hbad.2.2⟩] at h
        split at h
        · cases h
          cases hd
        split at h
        · cases h
        split at h
        · cases h
        · cases h
          cases hd

theorem pushApplication_cases (s : Session) (db : Database) (clock : Time)
    (item : ApplicationPushItem) :
    ApplicationOutcome s db clock item (pushApplication s db (clock, item)) := by
  cases hg : db.getApplication s item.newDocumentState.id with
  | none =>
    have hno : ∀ existing, ¬ ApplicationUpdateAllowed s db item existing := fun e h => by
      simpa [hg] using h.found
    cases ha : item.assumedMasterState with
    | some m =>
      simp only [pushApplication, hg, ha]
      exact .reported _ rfl hno (by simp [ha])
    | none =>
      by_cases hi : ApplicationInsertAllowed s db item.newDocumentState
      · obtain ⟨t, ht, hp⟩ := pushApplication_insert clock ha hi
        rw [hp]
        exact .inserted t ha hi ht
      · by_cases hr : restraintsAllowed db s item.newDocumentState.restraintTypeIds
        · simp only [pushApplication, hg, ha, hr, not_true_eq_false, if_false,
            insertApplicationOrConflict_of_not_allowed hr hi]
          exact .reported _ rfl hno fun _ => hi
        · simp only [pushApplication, hg, ha, hr, not_false_eq_true, if_true]
          exact .reported _ rfl hno fun _ => hi
  | some existing =>
    have hid := Table.key_of_find? (Database.getApplication_eq_some.mp hg).1
    cases ha : item.assumedMasterState with
    | none =>
      simp only [pushApplication, hg, ha]
      refine .reported _ hid (fun e h => by simpa [ha] using h.update) fun _ h => ?_
      have := (Database.getApplication_eq_some.mp hg).1
      simp [h.free] at this
    | some m =>
      by_cases hok : ApplicationUpdateAllowed s db item existing
      · rw [pushApplication_update hok]
        split
        · rename_i hc
          exact .untouched existing hok hc
        rename_i hc
        split
        · rename_i hw
          exact .raised existing _ hok (not_not.mp hc) fun h => hw h.1
        split
        · rename_i hp
          exact .raised existing _ hok (not_not.mp hc) fun h => hp h.2
        · rename_i hw hp
          exact .written existing hok (not_not.mp hc) (not_not.mp hw) (not_not.mp hp)
      · have hbad : (checkApplicationUpdate existing item.newDocumentState s.role).isSome ∨
            ¬ restraintsAllowed db s item.newDocumentState.restraintTypeIds ∨
            ¬ positionFksAllowed db s item.newDocumentState := by
          by_contra hnot
          simp only [not_or, not_not, Option.not_isSome_iff_eq_none] at hnot
          exact hok ⟨hg, by simp [ha], hnot.1, hnot.2.1, hnot.2.2⟩
        simp only [pushApplication, hg, ha, hbad, if_true]
        refine .reported _ hid (fun e h => ?_) (by simp [ha])
        have he : existing = e := Option.some.inj (hg.symm.trans h.found)
        subst he
        exact hok h

end

end HcMap.Sync
