import HcMap.Db.Policies
import HcMap.Services.CatalogTrail

/-!
# The JSON export

`build_json_export`: five queries, each under the policies of its table.
-/

namespace HcMap.Services

open Catalog (RestraintCategory RestraintMechanicalType RestraintTypeColumns)

structure ExportedEvent where
  id : Uuid
  startedAt : Time
  endedAt : Option Time
  lat : Numeric 90
  lon : Numeric 180
  revealParticipants : Bool
  note : Option Text
  legacyExternalRef : Option Text
  createdBy : Option Uuid
  createdAt : Time
  deriving DecidableEq

structure ExportedApplication where
  id : Uuid
  eventId : Uuid
  performerId : Uuid
  recipientId : Uuid
  armPositionId : Option Uuid
  handPositionId : Option Uuid
  handOrientationId : Option Uuid
  sequenceNo : Nat
  startedAt : Option Time
  endedAt : Option Time
  note : Option Text
  createdAt : Time
  deriving DecidableEq

structure ExportedParticipant where
  eventId : Uuid
  personId : Uuid
  createdAt : Time
  deriving DecidableEq

structure ExportedRestraint where
  applicationId : Uuid
  restraintTypeId : Uuid
  createdAt : Time
  deriving DecidableEq

structure ExportedRestraintType where
  id : Uuid
  category : RestraintCategory
  brand : Option Text
  model : Option Text
  mechanicalType : Option RestraintMechanicalType
  displayName : Text
  status : CatalogStatus
  deriving DecidableEq

structure JsonExport where
  version : String
  events : List ExportedEvent
  applications : List ExportedApplication
  eventParticipants : List ExportedParticipant
  applicationRestraints : List ExportedRestraint
  restraintTypes : List ExportedRestraintType
  deriving DecidableEq

def eventToDict (e : Event) : ExportedEvent where
  id := e.id
  startedAt := e.startedAt
  endedAt := e.endedAt
  lat := e.lat
  lon := e.lon
  revealParticipants := e.revealParticipants
  note := e.note
  legacyExternalRef := e.legacyExternalRef
  createdBy := e.createdBy
  createdAt := e.createdAt

def appToDict (a : Application) : ExportedApplication where
  id := a.id
  eventId := a.eventId
  performerId := a.performerId
  recipientId := a.recipientId
  armPositionId := a.armPositionId
  handPositionId := a.handPositionId
  handOrientationId := a.handOrientationId
  sequenceNo := a.sequenceNo
  startedAt := a.startedAt
  endedAt := a.endedAt
  note := a.note
  createdAt := a.createdAt

def epToDict (ep : EventParticipant) : ExportedParticipant where
  eventId := ep.eventId
  personId := ep.personId
  createdAt := ep.createdAt

def arToDict (ar : ApplicationRestraint) : ExportedRestraint where
  applicationId := ar.applicationId
  restraintTypeId := ar.restraintTypeId
  createdAt := ar.createdAt

def rtToDict (columns : Uuid → RestraintTypeColumns) (rt : CatalogEntry) :
    ExportedRestraintType where
  id := rt.id
  category := (columns rt.id).category
  brand := (columns rt.id).brand
  model := (columns rt.id).model
  mechanicalType := (columns rt.id).mechanicalType
  displayName := (columns rt.id).displayName
  status := rt.status

def buildJsonExport (columns : Uuid → RestraintTypeColumns) (db : Database) (s : Session) :
    JsonExport :=
  let events := db.events.rows.filter fun e => eventVisible db s e ∧ e.isDeleted = false
  let apps := db.applications.rows.filter fun a => applicationVisible db s a ∧ a.isDeleted = false
  let eps := db.participants.rows.filter fun ep =>
    participantVisible db s ep ∧ ep.isDeleted = false
  let ars := db.restraints.rows.filter fun ar => restraintVisible db s ar
  let referencedRtIds := ars.map ApplicationRestraint.restraintTypeId
  let rts := db.restraintTypes.rows.filter fun rt => catalogVisible s rt ∧ rt.id ∈ referencedRtIds
  { version := "1"
    events := events.map eventToDict
    applications := apps.map appToDict
    eventParticipants := eps.map epToDict
    applicationRestraints := ars.map arToDict
    restraintTypes := rts.map (rtToDict columns) }

-- ---------------------------------------------------------------------------
-- What is in it
-- ---------------------------------------------------------------------------

section
variable {columns : Uuid → RestraintTypeColumns} {db : Database} {s : Session}

theorem mem_export_events {x : ExportedEvent} :
    x ∈ (buildJsonExport columns db s).events ↔
      ∃ e ∈ db.events, eventVisible db s e ∧ e.isDeleted = false ∧ eventToDict e = x := by
  simp [buildJsonExport, Table.mem_rows, and_assoc]

theorem mem_export_applications {x : ExportedApplication} :
    x ∈ (buildJsonExport columns db s).applications ↔
      ∃ a ∈ db.applications, applicationVisible db s a ∧ a.isDeleted = false ∧
        appToDict a = x := by
  simp [buildJsonExport, Table.mem_rows, and_assoc]

theorem mem_export_participants {x : ExportedParticipant} :
    x ∈ (buildJsonExport columns db s).eventParticipants ↔
      ∃ ep ∈ db.participants, participantVisible db s ep ∧ ep.isDeleted = false ∧
        epToDict ep = x := by
  simp [buildJsonExport, Table.mem_rows, and_assoc]

theorem mem_export_restraints {x : ExportedRestraint} :
    x ∈ (buildJsonExport columns db s).applicationRestraints ↔
      ∃ ar ∈ db.restraints, restraintVisible db s ar ∧ arToDict ar = x := by
  simp [buildJsonExport, Table.mem_rows, and_assoc]

theorem mem_export_restraintTypes {x : ExportedRestraintType} :
    x ∈ (buildJsonExport columns db s).restraintTypes ↔
      ∃ rt ∈ db.restraintTypes, catalogVisible s rt ∧
        (∃ ar ∈ db.restraints, restraintVisible db s ar ∧ ar.restraintTypeId = rt.id) ∧
          rtToDict columns rt = x := by
  simp [buildJsonExport, Table.mem_rows, and_assoc]

end

end HcMap.Services
