import HcMap.Services.Events

/-!
# The application service

`app/services/applications.py`. The routes that create an application hand
the event's id on without looking the event up.
-/

namespace HcMap.Services

structure ApplicationCreate where
  performerId : Uuid
  recipientId : Uuid
  armPositionId : Option Uuid
  handPositionId : Option Uuid
  handOrientationId : Option Uuid
  startedAt : Option Time
  endedAt : Option Time
  note : Option Text
  restraintTypeIds : List Uuid
  deriving DecidableEq

structure ApplicationLiveStart where
  performerId : Option Uuid
  recipientId : Option Uuid
  armPositionId : Option Uuid
  handPositionId : Option Uuid
  handOrientationId : Option Uuid
  note : Option Text
  restraintTypeIds : List Uuid
  deriving DecidableEq

/-- A `PATCH` body, in the terms of `EventUpdate`. -/
structure ApplicationUpdate where
  performerId : Option (Option Uuid)
  recipientId : Option (Option Uuid)
  armPositionId : Option (Option Uuid)
  handPositionId : Option (Option Uuid)
  handOrientationId : Option (Option Uuid)
  startedAt : Option (Option Time)
  endedAt : Option (Option Time)
  note : Option (Option Text)
  deriving DecidableEq

-- ---------------------------------------------------------------------------
-- Creation
-- ---------------------------------------------------------------------------

def catalogPairs (db : Database) (armPositionId handPositionId handOrientationId : Option Uuid)
    (restraintTypeIds : List Uuid) : List (String × Table CatalogEntry × Uuid) :=
  armPositionId.toList.map (fun id => ("arm_position", db.armPositions, id)) ++
    handPositionId.toList.map (fun id => ("hand_position", db.handPositions, id)) ++
    handOrientationId.toList.map (fun id => ("hand_orientation", db.handOrientations, id)) ++
    restraintTypeIds.map fun id => ("restraint_type", db.restraintTypes, id)

def ensureApprovedCatalog (db : Database) (s : Session)
    (armPositionId handPositionId handOrientationId : Option Uuid) (restraintTypeIds : List Uuid) :
    Except Failure Unit :=
  if s.role = .admin then pure ()
  else
    let pairs := catalogPairs db armPositionId handPositionId handOrientationId restraintTypeIds
    match pairs.find? fun (_, t, refId) =>
      (Database.getCatalogEntry t s refId).map CatalogEntry.status ≠ some .approved with
    | some (table, _, refId) => throw (.notApproved table refId)
    | none => pure ()

/-- One more than the largest number the session can select in the event. -/
def nextSequenceNo (db : Database) (s : Session) (eventId : Uuid) : Nat :=
  ((db.applications.rows.filter fun a => a.eventId = eventId ∧ applicationVisible db s a).map
    Application.sequenceNo).foldr max 0 + 1

def ensureParticipant (db : Database) (s : Session) (clock : Time) (eventId personId : Uuid) :
    Except Failure Database :=
  addParticipant db s clock eventId personId

/-- The common end of `create_application` and `start_application`: the row,
its participants, its restraint links. -/
def addApplication (db : Database) (s : Session) (clock : Time) (application : Application)
    (restraintTypeIds : List Uuid) : Except Failure Database := do
  let db ← flush (db.insertApplication s application)
  let db ← ensureParticipant db s clock application.eventId application.performerId
  let db ← (if application.recipientId ≠ application.performerId then
    ensureParticipant db s clock application.eventId application.recipientId else pure db :
      Except Failure Database)
  restraintTypeIds.foldlM
    (fun db rtId => flush (db.insertRestraint s ⟨application.id, rtId, s.now⟩)) db

def createApplication (db : Database) (s : Session) (clock : Time) (eventId : Uuid)
    (payload : ApplicationCreate) (strict : Bool) : Except Failure Database := do
  rejectIf (strict ∧ payload.performerId = payload.recipientId) .strictMode
  ensureApprovedCatalog db s payload.armPositionId payload.handPositionId
    payload.handOrientationId payload.restraintTypeIds
  addApplication db s clock
    { id := db.applications.fresh
      eventId := eventId
      performerId := payload.performerId
      recipientId := payload.recipientId
      armPositionId := payload.armPositionId
      handPositionId := payload.handPositionId
      handOrientationId := payload.handOrientationId
      sequenceNo := nextSequenceNo db s eventId
      startedAt := payload.startedAt
      endedAt := payload.endedAt
      note := payload.note
      createdBy := some s.userId
      createdAt := s.now
      updatedAt := clock
      isDeleted := false
      deletedAt := none }
    payload.restraintTypeIds

/-- Create a Live-mode application (ADR-024 §B); performer and recipient
default to the requester's person. -/
def startApplication (db : Database) (s : Session) (clock : Time) (eventId : Uuid)
    (payload : ApplicationLiveStart) : Except Failure Database := do
  ensureApprovedCatalog db s payload.armPositionId payload.handPositionId
    payload.handOrientationId payload.restraintTypeIds
  addApplication db s clock
    { id := db.applications.fresh
      eventId := eventId
      performerId := payload.performerId.getD s.personId
      recipientId := payload.recipientId.getD s.personId
      armPositionId := payload.armPositionId
      handPositionId := payload.handPositionId
      handOrientationId := payload.handOrientationId
      sequenceNo := nextSequenceNo db s eventId
      startedAt := some clock
      endedAt := none
      note := payload.note
      createdBy := some s.userId
      createdAt := s.now
      updatedAt := clock
      isDeleted := false
      deletedAt := none }
    payload.restraintTypeIds

-- ---------------------------------------------------------------------------
-- Changes
-- ---------------------------------------------------------------------------

def getApplication (db : Database) (s : Session) (applicationId : Uuid) : Option Application :=
  (db.getApplication s applicationId).filter fun a => !a.isDeleted

def endApplication (db : Database) (s : Session) (clock : Time) (application : Application) :
    Except Failure Database :=
  match application.endedAt with
  | some _ => .ok db
  | none =>
    flush (db.updateApplication s clock application { application with endedAt := some clock })

def ApplicationUpdate.apply (payload : ApplicationUpdate) (a : Application) : Application :=
  { a with
    performerId := (payload.performerId.getD none).getD a.performerId
    recipientId := (payload.recipientId.getD none).getD a.recipientId
    armPositionId := payload.armPositionId.getD a.armPositionId
    handPositionId := payload.handPositionId.getD a.handPositionId
    handOrientationId := payload.handOrientationId.getD a.handOrientationId
    startedAt := payload.startedAt.getD a.startedAt
    endedAt := payload.endedAt.getD a.endedAt
    note := payload.note.getD a.note }

def ApplicationUpdate.NullsRequired (payload : ApplicationUpdate) : Prop :=
  payload.performerId = some none ∨ payload.recipientId = some none

instance (payload : ApplicationUpdate) : Decidable payload.NullsRequired := by
  unfold ApplicationUpdate.NullsRequired
  infer_instance

def updateApplication (db : Database) (s : Session) (clock : Time) (application : Application)
    (payload : ApplicationUpdate) : Except Failure Database := do
  rejectIf payload.NullsRequired (.raised .integrity)
  flush (db.updateApplication s clock application (payload.apply application))

end HcMap.Services
