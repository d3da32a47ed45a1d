import HcMap.Lib.Run
import HcMap.Services.Events
import HcMap.Sync.Docs

/-!
# Pushing events

`push_events` of `app/sync/services.py`. Every item carries the clock reading
at which the loop reaches it. An error is one nothing in the loop catches: the
request ends with it and its transaction is rolled back.
-/

namespace HcMap.Sync

open Services (autoStopOnEnd)

/-- Auto-participant insert of the push path: a failed insert is dropped with
its savepoint. -/
def ensureParticipant (db : Database) (s : Session) (clock : Time) (eventId personId : Uuid) :
    Database :=
  if db.LinkVisible s eventId personId then db
  else match db.insertParticipant s (db.newParticipant s clock eventId personId) with
    | .ok db' => db'
    | .error _ => db

/-- What is left of a flush that fails before its savepoint opens: an error
the handler catches has deactivated the transaction, so its `refresh` raises. -/
def afterFailedFlush (e : DbError) : DbError := if e.Caught then .pendingRollback else e

def newEvent (s : Session) (clock : Time) (newDoc : EventDoc) : Event where
  id := newDoc.id
  startedAt := newDoc.startedAt
  endedAt := newDoc.endedAt
  lat := newDoc.lat.toNumeric
  lon := newDoc.lon.toNumeric
  legacyExternalRef := newDoc.legacyExternalRef
  revealParticipants := newDoc.revealParticipants
  title := newDoc.title
  note := newDoc.note
  timePrecision := newDoc.timePrecision
  createdBy := some s.userId
  createdAt := s.now
  updatedAt := clock
  isDeleted := newDoc.deleted
  deletedAt := if newDoc.deleted then newDoc.deletedAt else none

/-- `none` when the insert failed inside its savepoint. -/
def insertEventOrConflict (s : Session) (db : Database) (clock : Time) (newDoc : EventDoc) :
    Option Database :=
  match db.insertEvent s (newEvent s clock newDoc) with
  | .error _ => none
  | .ok db' => some (ensureParticipant db' s clock newDoc.id s.personId)

/-- The server master doc as a conflict, or `none` to proceed. -/
def checkEventUpdate (existing : Event) (newDoc : EventDoc) (role : UserRole) : Option EventDoc :=
  -- Immutable after create.
  if existing.startedAt ≠ newDoc.startedAt ∨ existing.lat.toFloat ≠ newDoc.lat ∨
      existing.lon.toFloat ≠ newDoc.lon ∨ existing.createdBy ≠ newDoc.createdBy then
    some (eventToDoc existing)
  -- First write wins on `ended_at`.
  else if existing.endedAt ≠ none ∧ newDoc.endedAt ≠ none ∧ existing.endedAt ≠ newDoc.endedAt then
    some (eventToDoc existing)
  -- Restore only by an admin.
  else if existing.isDeleted ∧ ¬ newDoc.deleted ∧ role ≠ .admin then
    some (eventToDoc existing)
  else none

def flipDeletedAt (wasDeleted deleted : Bool) (old new : Option Time) (clock : Time) :
    Option Time :=
  if deleted ∧ ¬ wasDeleted then some (new.getD clock)
  else if ¬ deleted ∧ wasDeleted then none
  else old

def applyEventUpdate (existing : Event) (newDoc : EventDoc) (clock : Time) : Event :=
  { existing with
    endedAt := existing.endedAt.or newDoc.endedAt
    title := newDoc.title
    note := newDoc.note
    timePrecision := newDoc.timePrecision
    revealParticipants := newDoc.revealParticipants
    legacyExternalRef := newDoc.legacyExternalRef
    isDeleted := newDoc.deleted
    deletedAt := flipDeletedAt existing.isDeleted newDoc.deleted existing.deletedAt
      newDoc.deletedAt clock }

/-- The update path. `begin_nested` flushes the changed row before it opens
the savepoint; inside, only the auto-stop runs. -/
def updateEventRow (s : Session) (db : Database) (clock : Time) (existing : Event)
    (newDoc : EventDoc) : Except DbError Database :=
  match db.updateEvent s clock existing (applyEventUpdate existing newDoc clock) with
  | .error e => .error (afterFailedFlush e)
  | .ok db' => .ok (autoStopOnEnd db' s clock existing (applyEventUpdate existing newDoc clock))

/-- The loop body: one item at one clock reading. -/
def pushEvent (s : Session) (db : Database) (item : Time × EventPushItem) :
    Except DbError (Database × List EventDoc) :=
  let (clock, item) := item
  let newDoc := item.newDocumentState
  match db.getEvent s newDoc.id, item.assumedMasterState with
  -- Mismatched expectations.
  | some existing, none => .ok (db, [eventToDoc existing])
  | none, some _ => .ok (db, [syntheticEventTombstone clock newDoc.id])
  | none, none =>
    match insertEventOrConflict s db clock newDoc with
    | none => .ok (db, [syntheticEventTombstone clock newDoc.id])
    | some db' => .ok (db', [])
  | some existing, some _ =>
    match checkEventUpdate existing newDoc s.role with
    | some conflict => .ok (db, [conflict])
    | none =>
      match updateEventRow s db clock existing newDoc with
      | .error e => .error e
      | .ok db' => .ok (db', [])

def pushEvents (s : Session) (db : Database) (items : List (Time × EventPushItem)) :
    Except DbError (Database × List EventDoc) :=
  Batch.process (pushEvent s) db items

end HcMap.Sync
