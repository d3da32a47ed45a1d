import Mathlib.Data.List.Sort
import HcMap.Db.Statements

/-!
# Wire documents

The documents of `app/sync/schemas.py`: what a client pushes, what it is
answered with and what it pulls.
-/

namespace HcMap.Sync

structure EventDoc where
  id : Uuid
  startedAt : Time
  endedAt : Option Time := none
  lat : Degrees 90
  lon : Degrees 180
  legacyExternalRef : Option Text := none
  revealParticipants : Bool := false
  title : Option Text := none
  note : Option Text := none
  timePrecision : TimePrecision := .minute
  createdBy : Option Uuid := none
  createdAt : Time
  updatedAt : Time
  deletedAt : Option Time := none
  deleted : Bool := false
  deriving DecidableEq

structure EventParticipantDoc where
  id : Uuid
  eventId : Uuid
  personId : Uuid
  createdAt : Time
  updatedAt : Time
  deletedAt : Option Time := none
  deleted : Bool := false
  deriving DecidableEq

structure ApplicationDoc where
  id : Uuid
  eventId : Uuid
  performerId : Uuid
  recipientId : Uuid
  armPositionId : Option Uuid := none
  handPositionId : Option Uuid := none
  handOrientationId : Option Uuid := none
  sequenceNo : Nat
  startedAt : Option Time := none
  endedAt : Option Time := none
  note : Option Text := none
  createdBy : Option Uuid := none
  createdAt : Time
  updatedAt : Time
  deletedAt : Option Time := none
  deleted : Bool := false
  restraintTypeIds : List Uuid := []
  deriving DecidableEq

structure PushItem (δ : Type) where
  assumedMasterState : Option δ
  newDocumentState : δ
  deriving DecidableEq

abbrev EventPushItem := PushItem EventDoc
abbrev ApplicationPushItem := PushItem ApplicationDoc

-- ---------------------------------------------------------------------------
-- Rows to documents
-- ---------------------------------------------------------------------------

def eventToDoc (row : Event) : EventDoc where
  id := row.id
  startedAt := row.startedAt
  endedAt := row.endedAt
  lat := row.lat.toFloat
  lon := row.lon.toFloat
  legacyExternalRef := row.legacyExternalRef
  revealParticipants := row.revealParticipants
  title := row.title
  note := row.note
  timePrecision := row.timePrecision
  createdBy := row.createdBy
  createdAt := row.createdAt
  updatedAt := row.updatedAt
  deletedAt := row.deletedAt
  deleted := row.isDeleted

def eventParticipantToDoc (row : EventParticipant) : EventParticipantDoc where
  id := row.id
  eventId := row.eventId
  personId := row.personId
  createdAt := row.createdAt
  updatedAt := row.updatedAt
  deletedAt := row.deletedAt
  deleted := row.isDeleted

def applicationToDoc (row : Application) (restraintTypeIds : List Uuid) : ApplicationDoc where
  id := row.id
  eventId := row.eventId
  performerId := row.performerId
  recipientId := row.recipientId
  armPositionId := row.armPositionId
  handPositionId := row.handPositionId
  handOrientationId := row.handOrientationId
  sequenceNo := row.sequenceNo
  startedAt := row.startedAt
  endedAt := row.endedAt
  note := row.note
  createdBy := row.createdBy
  createdAt := row.createdAt
  updatedAt := row.updatedAt
  deletedAt := row.deletedAt
  deleted := row.isDeleted
  restraintTypeIds := restraintTypeIds

/-- The restraint links of one application that the session can select,
sorted as `_load_restraint_sets` sorts them. -/
def loadRestraintSet (db : Database) (s : Session) (applicationId : Uuid) : List Uuid :=
  ((db.restraints.rows.filter fun r =>
    r.applicationId = applicationId ∧ restraintVisible db s r).map
      ApplicationRestraint.restraintTypeId).insertionSort (· ≤ ·)

def applicationConflictDoc (db : Database) (s : Session) (row : Application) : ApplicationDoc :=
  applicationToDoc row (loadRestraintSet db s row.id)

/-- RxDB needs a master document even when the row is gone. -/
def syntheticEventTombstone (now : Time) (eventId : Uuid) : EventDoc where
  id := eventId
  startedAt := now
  lat := Degrees.zero
  lon := Degrees.zero
  createdAt := now
  updatedAt := now
  deletedAt := some now
  deleted := true

def syntheticApplicationTombstone (now : Time) (applicationId eventId : Uuid) : ApplicationDoc where
  id := applicationId
  eventId := eventId
  performerId := 0
  recipientId := 0
  sequenceNo := 1
  createdAt := now
  updatedAt := now
  deletedAt := some now
  deleted := true

end HcMap.Sync
