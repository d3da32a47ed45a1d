import HcMap.Db.Policies

/-!
# Statements

The statements the services send, under the session's policies, the
constraints and the triggers of the schema. A statement either gives the new
database or raises; whether the error is caught is for the caller to say.
`clock` is what `clock_timestamp()` and `datetime.now()` read.

An ORM flush sends no `UPDATE` for a row none of whose attributes changed
value, and an `UPDATE` that matches no row raises `StaleDataError`.
-/

namespace HcMap

/-- What a statement raises. `pendingRollback` is what the session answers
once a flush outside a savepoint has failed. -/
inductive DbError
  | integrity
  | programming
  | staleData
  | pendingRollback
  deriving DecidableEq, Repr

def DbError.Caught (e : DbError) : Prop := e = .integrity ∨ e = .programming

instance (e : DbError) : Decidable e.Caught := by unfold DbError.Caught; infer_instance

namespace Database

-- ---------------------------------------------------------------------------
-- session.get
-- ---------------------------------------------------------------------------

def getEvent (db : Database) (s : Session) (id : Uuid) : Option Event :=
  (db.events.find? id).filter fun e => eventVisible db s e

def getApplication (db : Database) (s : Session) (id : Uuid) : Option Application :=
  (db.applications.find? id).filter fun a => applicationVisible db s a

def getCatalogEntry (t : Table CatalogEntry) (s : Session) (id : Uuid) : Option CatalogEntry :=
  (t.find? id).filter fun c => catalogVisible s c

section
variable {db : Database} {s : Session} {id : Uuid} {e : Event} {a : Application}
  {c : CatalogEntry} {t : Table CatalogEntry}

theorem getEvent_eq_some :
    db.getEvent s id = some e ↔ db.events.find? id = some e ∧ eventVisible db s e := by
  simp [getEvent, Option.filter_eq_some_iff]

theorem getApplication_eq_some :
    db.getApplication s id = some a ↔
      db.applications.find? id = some a ∧ applicationVisible db s a := by
  simp [getApplication, Option.filter_eq_some_iff]

theorem getCatalogEntry_eq_some :
    getCatalogEntry t s id = some c ↔ t.find? id = some c ∧ catalogVisible s c := by
  simp [getCatalogEntry, Option.filter_eq_some_iff]

end

-- ---------------------------------------------------------------------------
-- INSERT
-- ---------------------------------------------------------------------------

def ApplicationRefs (db : Database) (a : Application) : Prop :=
  (db.events.find? a.eventId).isSome ∧ (db.persons.find? a.performerId).isSome ∧
    (db.persons.find? a.recipientId).isSome ∧ db.armPositions.References a.armPositionId ∧
    db.handPositions.References a.handPositionId ∧
    db.handOrientations.References a.handOrientationId ∧ db.users.References a.createdBy

def SequenceTaken (db : Database) (eventId : Uuid) (sequenceNo : Nat) : Prop :=
  ∃ a ∈ db.applications, a.eventId = eventId ∧ a.sequenceNo = sequenceNo

/-- Some row links the event and the person, whatever its tombstone says. -/
def Linked (db : Database) (eventId personId : Uuid) : Prop :=
  ∃ ep ∈ db.participants, ep.eventId = eventId ∧ ep.personId = personId

def LinksUnique (db : Database) : Prop :=
  ∀ ep ∈ db.participants, ∀ ep' ∈ db.participants,
    ep.eventId = ep'.eventId → ep.personId = ep'.personId → ep = ep'

instance (db : Database) : Decidable db.LinksUnique := by
  unfold LinksUnique
  infer_instance
instance (db : Database) (a : Application) : Decidable (db.ApplicationRefs a) := by
  unfold ApplicationRefs
  infer_instance
instance (db : Database) (eid : Uuid) (n : Nat) : Decidable (db.SequenceTaken eid n) := by
  unfold SequenceTaken
  infer_instance
instance (db : Database) (eid pid : Uuid) : Decidable (db.Linked eid pid) := by
  unfold Linked
  infer_instance

/-- An `INSERT`: the policy's `WITH CHECK`, then the constraints, then the
primary key. -/
def insertRow {ρ κ : Type} [Keyed ρ κ] [DecidableEq κ] (t : Table ρ) (r : ρ) (allowed sound : Prop)
    [Decidable allowed] [Decidable sound] (put : Table ρ → Database) : Except DbError Database :=
  if ¬ allowed then .error .programming
  else if ¬ sound then .error .integrity
  else match t.insert? r with
    | none => .error .integrity
    | some t' => .ok (put t')

def insertEvent (db : Database) (s : Session) (e : Event) : Except DbError Database :=
  insertRow db.events e (eventWritable s e) (db.users.References e.createdBy)
    fun t => { db with events := t }

def insertApplication (db : Database) (s : Session) (a : Application) : Except DbError Database :=
  insertRow db.applications a (applicationWritable db s a)
    (db.ApplicationRefs a ∧ ¬ db.SequenceTaken a.eventId a.sequenceNo)
    fun t => { db with applications := t }

def insertParticipant (db : Database) (s : Session) (ep : EventParticipant) :
    Except DbError Database :=
  insertRow db.participants ep (participantWritable db s ep)
    ((db.events.find? ep.eventId).isSome ∧ (db.persons.find? ep.personId).isSome ∧
      ¬ db.Linked ep.eventId ep.personId)
    fun t => { db with participants := t }

def insertRestraint (db : Database) (s : Session) (r : ApplicationRestraint) :
    Except DbError Database :=
  insertRow db.restraints r (restraintWritable db s r)
    ((db.applications.find? r.applicationId).isSome ∧
      (db.restraintTypes.find? r.restraintTypeId).isSome)
    fun t => { db with restraints := t }

def newParticipant (db : Database) (s : Session) (clock : Time) (eventId personId : Uuid) :
    EventParticipant where
  id := db.participants.fresh
  eventId := eventId
  personId := personId
  createdAt := s.now
  updatedAt := clock
  isDeleted := false
  deletedAt := none

def LinkVisible (db : Database) (s : Session) (eventId personId : Uuid) : Prop :=
  ∃ ep ∈ db.participants, participantVisible db s ep ∧ ep.eventId = eventId ∧
    ep.personId = personId

instance (db : Database) (s : Session) (eid pid : Uuid) : Decidable (db.LinkVisible s eid pid) := by
  unfold LinkVisible
  infer_instance

section
variable {ρ κ : Type} [Keyed ρ κ] [DecidableEq κ] {t : Table ρ} {r : ρ} {allowed sound : Prop}
  [Decidable allowed] [Decidable sound] {put : Table ρ → Database} {db' : Database} {err : DbError}

theorem insertRow_ok :
    insertRow t r allowed sound put = .ok db' ↔
      allowed ∧ sound ∧ ∃ t', t.insert? r = some t' ∧ db' = put t' := by
  unfold insertRow
  split
  · rename_i h
    simp [h]
  split
  · rename_i h
    simp [h]
  · rename_i ha hs
    simp only [not_not] at ha hs
    cases t.insert? r <;> simp [ha, hs, eq_comm]

end

-- ---------------------------------------------------------------------------
-- UPDATE of an event, with the soft-delete cascade
-- ---------------------------------------------------------------------------

/-- The trigger function `cascade_event_soft_delete`, run by the session that
updates the event; `set_updated_at` stamps every row it touches. -/
def cascadeEventSoftDelete (db : Database) (s : Session) (clock : Time) (old new : Event) :
    Database :=
  if new.isDeleted ∧ ¬ old.isDeleted then
    { db with
      applications := db.applications.map
        (fun a =>
          if a.eventId = new.id ∧ ¬ a.isDeleted ∧ applicationWritable db s a then
            { a with isDeleted := true, deletedAt := some (new.deletedAt.getD clock),
                     updatedAt := clock }
          else a)
        fun a => by split <;> rfl
      participants := db.participants.map
        (fun ep =>
          if ep.eventId = new.id ∧ ¬ ep.isDeleted ∧ participantWritable db s ep then
            { ep with isDeleted := true, deletedAt := some (new.deletedAt.getD clock),
                      updatedAt := clock }
          else ep)
        fun ep => by split <;> rfl }
  else db

def updateEvent (db : Database) (s : Session) (clock : Time) (old new : Event) :
    Except DbError Database :=
  if new = old then .ok db
  else if ¬ eventWritable s old then .error .staleData
  else
    .ok (cascadeEventSoftDelete
      { db with events := db.events.set { new with updatedAt := clock } } s clock old new)

-- ---------------------------------------------------------------------------
-- UPDATE of an application
-- ---------------------------------------------------------------------------

/-- The foreign keys PostgreSQL checks on an `UPDATE`: those that changed. -/
def ChangedRefs (db : Database) (old new : Application) : Prop :=
  (new.performerId = old.performerId ∨ (db.persons.find? new.performerId).isSome) ∧
    (new.recipientId = old.recipientId ∨ (db.persons.find? new.recipientId).isSome) ∧
    (new.armPositionId = old.armPositionId ∨ db.armPositions.References new.armPositionId) ∧
    (new.handPositionId = old.handPositionId ∨ db.handPositions.References new.handPositionId) ∧
    (new.handOrientationId = old.handOrientationId ∨
      db.handOrientations.References new.handOrientationId)

instance (db : Database) (old new : Application) : Decidable (db.ChangedRefs old new) := by
  unfold ChangedRefs
  infer_instance

def updateApplication (db : Database) (s : Session) (clock : Time) (old new : Application) :
    Except DbError Database :=
  if new = old then .ok db
  else if ¬ applicationWritable db s old then .error .staleData
  else if ¬ db.ChangedRefs old new then .error .integrity
  else .ok { db with applications := db.applications.set { new with updatedAt := clock } }

section
variable {db db' : Database} {s : Session} {clock : Time} {oldE newE : Event}
  {old new : Application}

theorem updateEvent_ok :
    db.updateEvent s clock oldE newE = .ok db' ↔
      (newE = oldE ∧ db' = db) ∨ (newE ≠ oldE ∧ eventWritable s oldE ∧
        db' = cascadeEventSoftDelete
          { db with events := db.events.set { newE with updatedAt := clock } }
          s clock oldE newE) := by
  unfold updateEvent
  split
  · rename_i h; simp [h, eq_comm]
  split
  · rename_i h' h; simp [h, h']
  · rename_i h' h
    simp only [not_not] at h
    simp [h, h', eq_comm]

theorem updateApplication_ok :
    db.updateApplication s clock old new = .ok db' ↔
      (new = old ∧ db' = db) ∨ (new ≠ old ∧ applicationWritable db s old ∧ db.ChangedRefs old new ∧
        db' = { db with applications := db.applications.set { new with updatedAt := clock } }) := by
  unfold updateApplication
  split
  · rename_i h; simp [h, eq_comm]
  split
  · rename_i h' h; simp [h, h']
  split
  · rename_i h'' h' h; simp [h, h'']
  · rename_i h'' h' h
    simp only [not_not] at h h'
    simp [h, h', h'', eq_comm]

end

-- ---------------------------------------------------------------------------
-- DELETE
-- ---------------------------------------------------------------------------

/-- `session.delete(application)`, with its restraint links by
`ON DELETE CASCADE`. A `DELETE` the policies filter to no row only warns. -/
def deleteApplication (db : Database) (s : Session) (a : Application) : Database :=
  if applicationWritable db s a then
    { db with
      applications := db.applications.filter fun x => x.id ≠ a.id
      restraints := db.restraints.filter fun r => r.applicationId ≠ a.id }
  else db

/-- `session.delete(event)`, with everything below it by `ON DELETE CASCADE`. -/
def deleteEvent (db : Database) (s : Session) (e : Event) : Database :=
  if eventWritable s e then
    { db with
      events := db.events.filter fun x => x.id ≠ e.id
      participants := db.participants.filter fun ep => ep.eventId ≠ e.id
      applications := db.applications.filter fun a => a.eventId ≠ e.id
      restraints := db.restraints.filter fun r =>
        ∀ a ∈ db.applications, a.id = r.applicationId → a.eventId ≠ e.id }
  else db

def deleteParticipant (db : Database) (s : Session) (ep : EventParticipant) : Database :=
  if participantWritable db s ep then
    { db with participants := db.participants.filter fun x => x.id ≠ ep.id }
  else db

end Database

end HcMap
