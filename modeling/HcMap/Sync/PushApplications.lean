import HcMap.Services.Applications
import HcMap.Sync.PushEvents

/-!
# Pushing applications

`push_applications` of `app/sync/services.py`, in the terms of the event push.
-/

namespace HcMap.Sync

/-- The push path's copy of the service's query. -/
def nextSequenceNo (db : Database) (s : Session) (eventId : Uuid) : Nat :=
  Services.nextSequenceNo db s eventId

def positionAllowed (t : Table CatalogEntry) (s : Session) (id : Option Uuid) : Prop :=
  ∀ k, id = some k → ∃ c, Database.getCatalogEntry t s k = some c ∧
    (s.role = .admin ∨ c.status = .approved)

instance (t : Table CatalogEntry) (s : Session) (id : Option Uuid) :
    Decidable (positionAllowed t s id) :=
  match id with
  | none => .isTrue fun _ h => nomatch h
  | some k =>
    match h : Database.getCatalogEntry t s k with
    | none => .isFalse fun hp => by simpa [h] using hp k rfl
    | some c =>
      decidable_of_iff (s.role = .admin ∨ c.status = .approved) (by simp [positionAllowed, h])

/-- Editors may only link approved positions; for an admin the row must exist. -/
def positionFksAllowed (db : Database) (s : Session) (newDoc : ApplicationDoc) : Prop :=
  positionAllowed db.armPositions s newDoc.armPositionId ∧
    positionAllowed db.handPositions s newDoc.handPositionId ∧
    positionAllowed db.handOrientations s newDoc.handOrientationId

instance (db : Database) (s : Session) (newDoc : ApplicationDoc) :
    Decidable (positionFksAllowed db s newDoc) := by
  unfold positionFksAllowed
  infer_instance

def selectedRestraintTypes (db : Database) (s : Session) (ids : List Uuid) : List CatalogEntry :=
  db.restraintTypes.rows.filter fun c => c.id ∈ ids ∧ catalogVisible s c

def restraintsAllowed (db : Database) (s : Session) (ids : List Uuid) : Prop :=
  ids = [] ∨
    ((selectedRestraintTypes db s ids).length = ids.dedup.length ∧
      (s.role = .admin ∨ ∀ c ∈ selectedRestraintTypes db s ids, c.status = .approved))

instance (db : Database) (s : Session) (ids : List Uuid) :
    Decidable (restraintsAllowed db s ids) := by
  unfold restraintsAllowed
  infer_instance

/-- One added link, inside its own savepoint. -/
def addRestraint (s : Session) (applicationId : Uuid) (db : Database) (restraintTypeId : Uuid) :
    Database :=
  match db.insertRestraint s ⟨applicationId, restraintTypeId, s.now⟩ with
  | .ok db' => db'
  | .error _ => db

def deleteRestraints (db : Database) (s : Session) (applicationId : Uuid)
    (restraintTypeIds : List Uuid) : Database :=
  { db with
    restraints := db.restraints.filter fun r =>
      ¬ (r.applicationId = applicationId ∧ r.restraintTypeId ∈ restraintTypeIds ∧
        restraintWritable db s r) }

/-- Replace the restraint set of one application (ADR-046): delete what is
not in the target, then add what is missing. -/
def syncApplicationRestraints (db : Database) (s : Session) (applicationId : Uuid)
    (targetIds : List Uuid) : Database :=
  let current := loadRestraintSet db s applicationId
  let toDelete := current.filter fun id => id ∉ targetIds
  let toAdd := targetIds.dedup.filter fun id => id ∉ current
  toAdd.foldl (addRestraint s applicationId) (deleteRestraints db s applicationId toDelete)

def newApplication (s : Session) (clock : Time) (sequenceNo : Nat) (newDoc : ApplicationDoc) :
    Application where
  id := newDoc.id
  eventId := newDoc.eventId
  performerId := newDoc.performerId
  recipientId := newDoc.recipientId
  armPositionId := newDoc.armPositionId
  handPositionId := newDoc.handPositionId
  handOrientationId := newDoc.handOrientationId
  sequenceNo := sequenceNo
  startedAt := newDoc.startedAt
  endedAt := newDoc.endedAt
  note := newDoc.note
  createdBy := some s.userId
  createdAt := s.now
  updatedAt := clock
  isDeleted := newDoc.deleted
  deletedAt := if newDoc.deleted then newDoc.deletedAt else none

def ensureParticipants (db : Database) (s : Session) (clock : Time)
    (eventId performerId recipientId : Uuid) : Database :=
  let db' := ensureParticipant db s clock eventId performerId
  if recipientId ≠ performerId then ensureParticipant db' s clock eventId recipientId else db'

/-- `none` when a position is not allowed or the insert failed. -/
def insertApplicationOrConflict (s : Session) (db : Database) (clock : Time)
    (newDoc : ApplicationDoc) : Option Database :=
  if ¬ positionFksAllowed db s newDoc then none
  else
    match db.insertApplication s
      (newApplication s clock (nextSequenceNo db s newDoc.eventId) newDoc) with
    | .error _ => none
    | .ok db' =>
      some (ensureParticipants db' s clock newDoc.eventId newDoc.performerId newDoc.recipientId)

def checkApplicationUpdate (existing : Application) (newDoc : ApplicationDoc) (role : UserRole) :
    Option ApplicationDoc :=
  if existing.eventId ≠ newDoc.eventId ∨ existing.sequenceNo ≠ newDoc.sequenceNo ∨
      existing.startedAt ≠ newDoc.startedAt ∨ existing.createdBy ≠ newDoc.createdBy then
    some (applicationToDoc existing [])
  else if existing.endedAt ≠ none ∧ newDoc.endedAt ≠ none ∧ existing.endedAt ≠ newDoc.endedAt then
    some (applicationToDoc existing [])
  else if existing.isDeleted ∧ ¬ newDoc.deleted ∧ role ≠ .admin then
    some (applicationToDoc existing [])
  else none

def applyApplicationUpdate (existing : Application) (newDoc : ApplicationDoc) (clock : Time) :
    Application :=
  { existing with
    endedAt := existing.endedAt.or newDoc.endedAt
    performerId := newDoc.performerId
    recipientId := newDoc.recipientId
    armPositionId := newDoc.armPositionId
    handPositionId := newDoc.handPositionId
    handOrientationId := newDoc.handOrientationId
    note := newDoc.note
    isDeleted := newDoc.deleted
    deletedAt := flipDeletedAt existing.isDeleted newDoc.deleted existing.deletedAt
      newDoc.deletedAt clock }

/-- The update path; here too the flush comes before the savepoint. -/
def updateApplicationRow (s : Session) (db : Database) (clock : Time) (existing : Application)
    (newDoc : ApplicationDoc) : Except DbError Database :=
  match db.updateApplication s clock existing (applyApplicationUpdate existing newDoc clock) with
  | .error e => .error (afterFailedFlush e)
  | .ok db' => .ok (syncApplicationRestraints db' s existing.id newDoc.restraintTypeIds)

/-- The loop body: one item at one clock reading. -/
def pushApplication (s : Session) (db : Database) (item : Time × ApplicationPushItem) :
    Except DbError (Database × List ApplicationDoc) :=
  let (clock, item) := item
  let newDoc := item.newDocumentState
  let tombstone := syntheticApplicationTombstone clock newDoc.id newDoc.eventId
  match db.getApplication s newDoc.id, item.assumedMasterState with
  | some existing, none => .ok (db, [applicationConflictDoc db s existing])
  | none, some _ => .ok (db, [tombstone])
  | none, none =>
    if ¬ restraintsAllowed db s newDoc.restraintTypeIds then .ok (db, [tombstone])
    else match insertApplicationOrConflict s db clock newDoc with
    | none => .ok (db, [tombstone])
    | some db' => .ok (syncApplicationRestraints db' s newDoc.id newDoc.restraintTypeIds, [])
  | some existing, some _ =>
    if (checkApplicationUpdate existing newDoc s.role).isSome ∨
        ¬ restraintsAllowed db s newDoc.restraintTypeIds ∨ ¬ positionFksAllowed db s newDoc then
      .ok (db, [applicationConflictDoc db s existing])
    else match updateApplicationRow s db clock existing newDoc with
    | .error e => .error e
    | .ok db' => .ok (db', [])

def pushApplications (s : Session) (db : Database) (items : List (Time × ApplicationPushItem)) :
    Except DbError (Database × List ApplicationDoc) :=
  Batch.process (pushApplication s) db items

end HcMap.Sync
