import HcMap.Db.Statements

/-!
# The event service

`app/services/events.py`. A request that fails rolls its transaction back, so
a service either gives the new database or a `Failure`. A generated id is one
no row has; which one does not matter to anything modelled.
-/

namespace HcMap.Services

inductive PersonMergeError
  | sameSourceAndTarget
  | sourceNotFound
  | targetNotFound
  | sourceDeleted
  | targetDeleted
  | linkedToUser
  deriving DecidableEq, Repr

/-- What a request ends with when it does not succeed. -/
inductive Failure
  | unauthorized
  | forbidden
  | notFound
  | strictMode
  | notApproved (tablename : String) (refId : Uuid)
  | merge (e : PersonMergeError)
  | raised (e : DbError)
  deriving DecidableEq, Repr

def flush (r : Except DbError Database) : Except Failure Database := r.mapError .raised

theorem flush_ok {r : Except DbError Database} {db : Database} : flush r = .ok db ↔ r = .ok db := by
  cases r <;> simp [flush, Except.mapError]

def rejectIf (p : Prop) [Decidable p] (e : Failure) : Except Failure Unit :=
  if p then .error e else .ok ()

theorem rejectIf_ok {p : Prop} [Decidable p] {e : Failure} {u : Unit} :
    rejectIf p e = .ok u ↔ ¬ p := by
  unfold rejectIf
  split <;> simp [*]

structure EventCreate where
  startedAt : Time
  endedAt : Option Time
  lat : Degrees 90
  lon : Degrees 180
  revealParticipants : Bool
  title : Option Text
  note : Option Text
  timePrecision : TimePrecision
  legacyExternalRef : Option Text
  deriving DecidableEq

structure EventStart where
  lat : Degrees 90
  lon : Degrees 180
  recipientId : Option Uuid
  revealParticipants : Bool
  title : Option Text
  note : Option Text
  timePrecision : TimePrecision
  deriving DecidableEq

/-- A `PATCH` body: the outer `none` is a field left unset, the inner `none`
an explicit null. -/
structure EventUpdate where
  startedAt : Option (Option Time)
  endedAt : Option (Option Time)
  lat : Option (Option (Degrees 90))
  lon : Option (Option (Degrees 180))
  revealParticipants : Option (Option Bool)
  title : Option (Option Text)
  note : Option (Option Text)
  timePrecision : Option (Option TimePrecision)
  legacyExternalRef : Option (Option Text)
  deriving DecidableEq

/-- Close every running, non-deleted application of the event (ADR-057): one
bulk `UPDATE` of the rows the session may write. -/
def autoStopOpenApplications (db : Database) (s : Session) (clock : Time) (eventId : Uuid)
    (endedAt : Time) : Database :=
  { db with
    applications := db.applications.map
      (fun a =>
        if a.eventId = eventId ∧ a.endedAt = none ∧ ¬ a.isDeleted ∧ applicationWritable db s a then
          { a with endedAt := some endedAt, updatedAt := clock }
        else a)
      fun a => by split <;> rfl }

def autoStopOnEnd (db : Database) (s : Session) (clock : Time) (old new : Event) : Database :=
  match old.endedAt, new.endedAt with
  | none, some endedAt => autoStopOpenApplications db s clock new.id endedAt
  | _, _ => db

/-- Fetch an event by id; a soft-deleted row is treated as absent. -/
def getEvent (db : Database) (s : Session) (eventId : Uuid) : Option Event :=
  (db.getEvent s eventId).filter fun e => !e.isDeleted

def createEvent (db : Database) (s : Session) (clock : Time) (payload : EventCreate) :
    Except Failure (Database × Uuid) := do
  let event : Event :=
    { id := db.events.fresh
      startedAt := payload.startedAt
      endedAt := payload.endedAt
      lat := payload.lat.toNumeric
      lon := payload.lon.toNumeric
      revealParticipants := payload.revealParticipants
      title := payload.title
      note := payload.note
      timePrecision := payload.timePrecision
      legacyExternalRef := payload.legacyExternalRef
      createdBy := some s.userId
      createdAt := s.now
      updatedAt := clock
      isDeleted := false
      deletedAt := none }
  let db ← flush (db.insertEvent s event)
  pure (db, event.id)

def addParticipant (db : Database) (s : Session) (clock : Time) (eventId personId : Uuid) :
    Except Failure Database :=
  if db.LinkVisible s eventId personId then .ok db
  else flush (db.insertParticipant s (db.newParticipant s clock eventId personId))

def removeParticipant (db : Database) (s : Session) (eventId personId : Uuid) :
    Except Failure Database :=
  match db.participants.rows.find? fun ep =>
    participantVisible db s ep ∧ ep.eventId = eventId ∧ ep.personId = personId with
  | none => .error .notFound
  | some link => .ok (db.deleteParticipant s link)

def EventUpdate.apply (payload : EventUpdate) (e : Event) : Event :=
  { e with
    startedAt := (payload.startedAt.getD none).getD e.startedAt
    endedAt := payload.endedAt.getD e.endedAt
    lat := ((payload.lat.getD none).map Degrees.toNumeric).getD e.lat
    lon := ((payload.lon.getD none).map Degrees.toNumeric).getD e.lon
    revealParticipants := (payload.revealParticipants.getD none).getD e.revealParticipants
    title := payload.title.getD e.title
    note := payload.note.getD e.note
    timePrecision := (payload.timePrecision.getD none).getD e.timePrecision
    legacyExternalRef := payload.legacyExternalRef.getD e.legacyExternalRef }

/-- An explicit null for a `NOT NULL` column; the flush raises. -/
def EventUpdate.NullsRequired (payload : EventUpdate) : Prop :=
  payload.startedAt = some none ∨ payload.lat = some none ∨ payload.lon = some none ∨
    payload.revealParticipants = some none ∨ payload.timePrecision = some none

instance (payload : EventUpdate) : Decidable payload.NullsRequired := by
  unfold EventUpdate.NullsRequired
  infer_instance

def updateEvent (db : Database) (s : Session) (clock : Time) (event : Event)
    (payload : EventUpdate) : Except Failure Database := do
  rejectIf payload.NullsRequired (.raised .integrity)
  let db ← flush (db.updateEvent s clock event (payload.apply event))
  pure (autoStopOnEnd db s clock event (payload.apply event))

/-- Create a Live-mode event with `started_at = now()` (ADR-024 §B). -/
def startEvent (db : Database) (s : Session) (clock : Time) (payload : EventStart) :
    Except Failure (Database × Uuid) := do
  let (db, eventId) ← createEvent db s clock
    { startedAt := clock
      endedAt := none
      lat := payload.lat
      lon := payload.lon
      revealParticipants := payload.revealParticipants
      title := payload.title
      note := payload.note
      timePrecision := payload.timePrecision
      legacyExternalRef := none }
  let db ← addParticipant db s clock eventId s.personId
  let db ←
    match payload.recipientId with
    | none => pure db
    | some recipientId =>
      if recipientId ≠ s.personId then addParticipant db s clock eventId recipientId else pure db
  pure (db, eventId)

/-- Set `ended_at = now()` if not already set, and stop what still runs. -/
def endEvent (db : Database) (s : Session) (clock : Time) (event : Event) :
    Except Failure Database :=
  match event.endedAt with
  | some _ => .ok db
  | none => do
    let ended := { event with endedAt := some clock }
    let db ← flush (db.updateEvent s clock event ended)
    pure (autoStopOnEnd db s clock event ended)

end HcMap.Services
