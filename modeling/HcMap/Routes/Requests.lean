import HcMap.Services.PersonMerge
import HcMap.Sync.PushApplications

/-!
# Requests

Every request that writes an event, a participant link, an application or a
restraint link: the routes of `app/routes` and `app/sync`, and the one form of
`app/admin_ui` that edits such rows. A request runs in one transaction, which
is rolled back when the request fails.
-/

namespace HcMap.Routes

open Sync (EventPushItem ApplicationPushItem)
open Services (EventCreate EventStart EventUpdate ApplicationCreate ApplicationLiveStart
  ApplicationUpdate Failure flush rejectIf)

/-- Tables that nothing here writes; the person, user and catalog services do. -/
structure Reference where
  users : Table User
  persons : Table Person
  armPositions : Table CatalogEntry
  handPositions : Table CatalogEntry
  handOrientations : Table CatalogEntry
  restraintTypes : Table CatalogEntry

inductive Operation
  | pushEvents (items : List (Time × EventPushItem))
  | pushApplications (items : List (Time × ApplicationPushItem))
  | createEvent (payload : EventCreate)
  | startEvent (payload : EventStart)
  | endEvent (eventId : Uuid)
  | patchEvent (eventId : Uuid) (payload : EventUpdate)
  | deleteEvent (eventId : Uuid)
  | addParticipant (eventId personId : Uuid)
  | removeParticipant (eventId personId : Uuid)
  | createApplication (eventId : Uuid) (payload : ApplicationCreate) (strict : Bool)
  | startApplication (eventId : Uuid) (payload : ApplicationLiveStart)
  | patchApplication (applicationId : Uuid) (payload : ApplicationUpdate)
  | endApplication (applicationId : Uuid)
  | deleteApplication (applicationId : Uuid)
  | mergePerson (sourceId targetId : Uuid)
  -- The SQLAdmin form of an event.
  | editEvent (eventId : Uuid) (note : Option Text) (revealParticipants isDeleted : Bool)
  -- Whatever the other services write to the tables they own.
  | writeReference (tables : Reference)

/-- Who asks for what; `clock` is what the request's clocks read, those of a
push apart, whose items carry their own. -/
structure Request where
  userId : Uuid
  now : Time
  clock : Time
  operation : Operation

variable (db : Database) (s : Session) (clock : Time)

def authenticate (userId : Uuid) (now : Time) : Except Failure Session :=
  match db.users.find? userId with
  | some user => if user.isActive then .ok ⟨user.id, user.role, user.personId, now⟩
    else .error .unauthorized
  | none => .error .unauthorized

def requireAdmin : Except Failure Unit := rejectIf (s.role ≠ .admin) .forbidden

def orNotFound {α : Type} : Option α → Except Failure α
  | some a => .ok a
  | none => .error .notFound

/-- `_build_detail` reads the event once more before the request ends. -/
def buildDetail (eventId : Uuid) : Except Failure Database := do
  let _ ← orNotFound (Services.getEvent db s eventId)
  pure db

def createEvent (payload : EventCreate) : Except Failure Database := do
  let (db, eventId) ← Services.createEvent db s clock payload
  let db ← Services.addParticipant db s clock eventId s.personId
  buildDetail db s eventId

def startEvent (payload : EventStart) : Except Failure Database := do
  let (db, eventId) ← Services.startEvent db s clock payload
  buildDetail db s eventId

def endEvent (eventId : Uuid) : Except Failure Database := do
  let event ← orNotFound (Services.getEvent db s eventId)
  let db ← Services.endEvent db s clock event
  buildDetail db s eventId

def patchEvent (eventId : Uuid) (payload : EventUpdate) : Except Failure Database := do
  let event ← orNotFound (Services.getEvent db s eventId)
  let db ← Services.updateEvent db s clock event payload
  buildDetail db s eventId

def deleteEvent (eventId : Uuid) : Except Failure Database := do
  let event ← orNotFound (Services.getEvent db s eventId)
  pure (db.deleteEvent s event)

def patchApplication (applicationId : Uuid) (payload : ApplicationUpdate) :
    Except Failure Database := do
  let application ← orNotFound (Services.getApplication db s applicationId)
  Services.updateApplication db s clock application payload

def endApplication (applicationId : Uuid) : Except Failure Database := do
  let application ← orNotFound (Services.getApplication db s applicationId)
  Services.endApplication db s clock application

def deleteApplication (applicationId : Uuid) : Except Failure Database := do
  let application ← orNotFound (Services.getApplication db s applicationId)
  pure (db.deleteApplication s application)

def mergePerson (sourceId targetId : Uuid) : Except Failure Database := do
  requireAdmin s
  Services.mergePersons db clock sourceId targetId

/-- The columns of the form, flushed as any change of an event. The form finds
a soft-deleted event too. -/
def editEvent (eventId : Uuid) (note : Option Text) (revealParticipants isDeleted : Bool) :
    Except Failure Database := do
  requireAdmin s
  let event ← orNotFound (db.getEvent s eventId)
  flush (db.updateEvent s clock event
    { event with
      note := note
      revealParticipants := revealParticipants
      isDeleted := isDeleted })

def writeReference (tables : Reference) : Database :=
  { db with
    users := tables.users
    persons := tables.persons
    armPositions := tables.armPositions
    handPositions := tables.handPositions
    handOrientations := tables.handOrientations
    restraintTypes := tables.restraintTypes }

/-- A sync route answers with its conflicts; the database is what it leaves. -/
def pushed {δ : Type} (r : Except DbError (Database × List δ)) : Except Failure Database :=
  (r.mapError Failure.raised).map Prod.fst

def execute : Operation → Except Failure Database
  | .pushEvents items => pushed (Sync.pushEvents s db items)
  | .pushApplications items => pushed (Sync.pushApplications s db items)
  | .createEvent payload => createEvent db s clock payload
  | .startEvent payload => startEvent db s clock payload
  | .endEvent eventId => endEvent db s clock eventId
  | .patchEvent eventId payload => patchEvent db s clock eventId payload
  | .deleteEvent eventId => deleteEvent db s eventId
  | .addParticipant eventId personId => Services.addParticipant db s clock eventId personId
  | .removeParticipant eventId personId => Services.removeParticipant db s eventId personId
  | .createApplication eventId payload strict =>
    Services.createApplication db s clock eventId payload strict
  | .startApplication eventId payload => Services.startApplication db s clock eventId payload
  | .patchApplication applicationId payload => patchApplication db s clock applicationId payload
  | .endApplication applicationId => endApplication db s clock applicationId
  | .deleteApplication applicationId => deleteApplication db s applicationId
  | .mergePerson sourceId targetId => mergePerson db s clock sourceId targetId
  | .editEvent eventId note revealParticipants isDeleted =>
    editEvent db s clock eventId note revealParticipants isDeleted
  | .writeReference tables => .ok (writeReference db tables)

def respond (request : Request) : Except Failure Database := do
  let s ← authenticate db request.userId request.now
  execute db s request.clock request.operation

def step (request : Request) : Database :=
  match respond db request with
  | .ok db' => db'
  | .error _ => db

end HcMap.Routes
