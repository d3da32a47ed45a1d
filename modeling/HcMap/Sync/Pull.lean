import Mathlib.Data.Prod.Lex
import HcMap.Lib.Cursor
import HcMap.Lib.Run
import HcMap.Sync.Docs

/-!
# Pulling

The three pulls of `app/sync/services.py` and the pull handler of
`replication.ts`, while other transactions write. A transaction's writes are
stamped one by one as `set_updated_at` does, and become visible together when
it commits. Row locks and constraints are not modelled; they only take
interleavings away.
-/

namespace HcMap.Sync

open Cursor (Feed After page advance)

-- ---------------------------------------------------------------------------
-- The server's pages
-- ---------------------------------------------------------------------------

structure SyncCheckpoint where
  updatedAt : Time
  id : Uuid
  deriving DecidableEq

/-- The order of `(updated_at, id)`. -/
instance : LinearOrder SyncCheckpoint :=
  LinearOrder.lift' (fun c => toLex (c.updatedAt, c.id)) fun a b h => by
    cases a
    cases b
    simpa using h

theorem SyncCheckpoint.lt_iff {c d : SyncCheckpoint} :
    c < d ↔ d.updatedAt > c.updatedAt ∨ (d.updatedAt = c.updatedAt ∧ d.id > c.id) := by
  show toLex (c.updatedAt, c.id) < toLex (d.updatedAt, d.id) ↔ _
  rw [Prod.Lex.lt_iff]
  simp [eq_comm]

def eventPosition (e : Event) : SyncCheckpoint := ⟨e.updatedAt, e.id⟩
def applicationPosition (a : Application) : SyncCheckpoint := ⟨a.updatedAt, a.id⟩
def participantPosition (ep : EventParticipant) : SyncCheckpoint := ⟨ep.updatedAt, ep.id⟩

structure PullResponse (δ : Type) where
  documents : List δ
  checkpoint : Option SyncCheckpoint

def pullEvents (db : Database) (s : Session) (checkpoint : Option SyncCheckpoint) (limit : Nat) :
    PullResponse EventDoc :=
  let rows := page eventPosition db.events (eventVisible db s) checkpoint limit
  ⟨rows.map eventToDoc, advance eventPosition checkpoint rows⟩

/-- `_load_restraint_sets` is a statement of its own, so it may find a later
state. -/
def pullApplications (db later : Database) (s : Session) (checkpoint : Option SyncCheckpoint)
    (limit : Nat) : PullResponse ApplicationDoc :=
  let rows := page applicationPosition db.applications (applicationVisible db s) checkpoint limit
  ⟨rows.map fun a => applicationToDoc a (loadRestraintSet later s a.id),
    advance applicationPosition checkpoint rows⟩

def pullEventParticipants (db : Database) (s : Session) (checkpoint : Option SyncCheckpoint)
    (limit : Nat) : PullResponse EventParticipantDoc :=
  let rows :=
    page participantPosition db.participants (participantVisible db s) checkpoint limit
  ⟨rows.map eventParticipantToDoc, advance participantPosition checkpoint rows⟩

-- ---------------------------------------------------------------------------
-- The client's handler
-- ---------------------------------------------------------------------------

/-- Store the documents and move the checkpoint to the last of them, or to what
the server echoed. -/
def receive {δ : Type} (id : δ → Uuid) (updatedAt : δ → Time)
    (feed : Feed Uuid SyncCheckpoint δ) (result : PullResponse δ) : Feed Uuid SyncCheckpoint δ where
  checkpoint :=
    match result.documents.getLast? with
    | some tail => some ⟨updatedAt tail, id tail⟩
    | none => result.checkpoint.or feed.checkpoint
  docs := result.documents.foldl (fun docs d => Function.update docs (id d) (some d)) feed.docs

/-- A document keeps its row's key and position, so the handler reads a page as
a feed does. -/
theorem receive_eq_read {ρ δ : Type} [Keyed ρ Uuid] {id : δ → Uuid} {updatedAt : δ → Time}
    {feed : Feed Uuid SyncCheckpoint δ} {pos : ρ → SyncCheckpoint} {render : ρ → δ} {rows : List ρ}
    (hid : ∀ r, id (render r) = key r) (hpos : ∀ r, pos r = ⟨updatedAt (render r), id (render r)⟩) :
    receive id updatedAt feed ⟨rows.map render, advance pos feed.checkpoint rows⟩ =
      feed.read pos render rows := by
  unfold receive Feed.read Cursor.store
  congr 1
  · rw [List.getLast?_map]
    unfold advance
    cases rows.getLast? with
    | some last => simp [hpos]
    | none => simp
  · simp [List.foldl_map, hid]

section
variable {db later : Database} {s : Session} {limit : Nat}

theorem receive_pullEvents (feed : Feed Uuid SyncCheckpoint EventDoc) :
    receive EventDoc.id EventDoc.updatedAt feed (pullEvents db s feed.checkpoint limit) =
      feed.read eventPosition eventToDoc
        (page eventPosition db.events (eventVisible db s) feed.checkpoint limit) :=
  receive_eq_read (fun _ => rfl) fun _ => rfl

theorem receive_pullApplications (feed : Feed Uuid SyncCheckpoint ApplicationDoc) :
    receive ApplicationDoc.id ApplicationDoc.updatedAt feed
        (pullApplications db later s feed.checkpoint limit) =
      feed.read applicationPosition (fun a => applicationToDoc a (loadRestraintSet later s a.id))
        (page applicationPosition db.applications (applicationVisible db s) feed.checkpoint
          limit) :=
  receive_eq_read (fun _ => rfl) fun _ => rfl

theorem receive_pullEventParticipants (feed : Feed Uuid SyncCheckpoint EventParticipantDoc) :
    receive EventParticipantDoc.id EventParticipantDoc.updatedAt feed
        (pullEventParticipants db s feed.checkpoint limit) =
      feed.read participantPosition eventParticipantToDoc
        (page participantPosition db.participants (participantVisible db s) feed.checkpoint
          limit) :=
  receive_eq_read (fun _ => rfl) fun _ => rfl

end

-- ---------------------------------------------------------------------------
-- Writers and a reader
-- ---------------------------------------------------------------------------

/-- What a statement of a transaction leaves of a row. -/
inductive Change
  | event (e : Event)
  | application (a : Application)
  | participant (ep : EventParticipant)
  | deleteEvent (id : Uuid)
  | deleteApplication (id : Uuid)
  | deleteParticipant (id : Uuid)

def Change.stamp (clock : Time) : Change → Change
  | .event e => .event { e with updatedAt := clock }
  | .application a => .application { a with updatedAt := clock }
  | .participant ep => .participant { ep with updatedAt := clock }
  | c => c

def Change.apply (db : Database) : Change → Database
  | .event e => { db with events := db.events.put e }
  | .application a => { db with applications := db.applications.put a }
  | .participant ep => { db with participants := db.participants.put ep }
  | .deleteEvent id => { db with events := db.events.filter fun e => e.id ≠ id }
  | .deleteApplication id => { db with applications := db.applications.filter fun a => a.id ≠ id }
  | .deleteParticipant id => { db with participants := db.participants.filter fun ep => ep.id ≠ id }

/-- The committed database, the clock, the writes of the open transactions, and
what the client has pulled. -/
structure World where
  db : Database
  clock : Time
  pending : Nat → List Change
  events : Feed Uuid SyncCheckpoint EventDoc
  applications : Feed Uuid SyncCheckpoint ApplicationDoc
  participants : Feed Uuid SyncCheckpoint EventParticipantDoc

inductive Action
  | tick (d : Nat)
  | write (tx : Nat) (c : Change)
  | commit (tx : Nat)
  | rollback (tx : Nat)
  | pullEvents (limit : Nat)
  | pullApplications (limit : Nat) (later : Database)
  | pullEventParticipants (limit : Nat)

def World.start (db : Database) (clock : Time) : World :=
  ⟨db, clock, fun _ => [], .empty, .empty, .empty⟩

def World.committed (w : World) (tx : Nat) : Database := (w.pending tx).foldl Change.apply w.db

def World.step (s : Session) (w : World) : Action → World
  | .tick d => { w with clock := w.clock + d }
  | .write tx c =>
    { w with pending := Function.update w.pending tx (w.pending tx ++ [c.stamp w.clock]) }
  | .commit tx =>
    { w with db := w.committed tx, pending := Function.update w.pending tx [] }
  | .rollback tx => { w with pending := Function.update w.pending tx [] }
  | .pullEvents limit =>
    { w with
      events := receive EventDoc.id EventDoc.updatedAt w.events
        (Sync.pullEvents w.db s w.events.checkpoint limit) }
  | .pullApplications limit later =>
    { w with
      applications := receive ApplicationDoc.id ApplicationDoc.updatedAt w.applications
        (Sync.pullApplications w.db later s w.applications.checkpoint limit) }
  | .pullEventParticipants limit =>
    { w with
      participants := receive EventParticipantDoc.id EventParticipantDoc.updatedAt w.participants
        (Sync.pullEventParticipants w.db s w.participants.checkpoint limit) }

-- ---------------------------------------------------------------------------
-- Positions
-- ---------------------------------------------------------------------------

theorem eventPosition_inj {e e' : Event} {t : Table Event} (he : e ∈ t) (he' : e' ∈ t)
    (h : eventPosition e = eventPosition e') : e = e' :=
  Table.eq_of_key he he' (congrArg SyncCheckpoint.id h)

theorem applicationPosition_inj {a a' : Application} {t : Table Application} (ha : a ∈ t)
    (ha' : a' ∈ t) (h : applicationPosition a = applicationPosition a') : a = a' :=
  Table.eq_of_key ha ha' (congrArg SyncCheckpoint.id h)

theorem participantPosition_inj {ep ep' : EventParticipant} {t : Table EventParticipant}
    (hep : ep ∈ t) (hep' : ep' ∈ t)
    (h : participantPosition ep = participantPosition ep') : ep = ep' :=
  Table.eq_of_key hep hep' (congrArg SyncCheckpoint.id h)

-- ---------------------------------------------------------------------------
-- Commits in order
-- ---------------------------------------------------------------------------

/-- Every row version that the commit of `db` brings in lies ahead of what the
client has pulled, if the client may see it. -/
structure Ahead (s : Session) (w : World) (db : Database) : Prop where
  events : ∀ e ∈ db.events, e ∉ w.db.events → eventVisible db s e →
    After eventPosition w.events.checkpoint e
  applications : ∀ a ∈ db.applications, a ∉ w.db.applications → applicationVisible db s a →
    After applicationPosition w.applications.checkpoint a
  participants : ∀ ep ∈ db.participants, ep ∉ w.db.participants → participantVisible db s ep →
    After participantPosition w.participants.checkpoint ep

/-- No commit comes after a pull has passed a row that it brings in. -/
def InOrder (s : Session) (w : World) : Action → Prop
  | .commit tx => Ahead s w (w.committed tx)
  | _ => True

instance (s : Session) (w : World) (db : Database) : Decidable (Ahead s w db) :=
  decidable_of_iff (_ ∧ _ ∧ _)
    ⟨fun h => ⟨h.1, h.2.1, h.2.2⟩, fun h => ⟨h.events, h.applications, h.participants⟩⟩

instance (s : Session) (w : World) (action : Action) : Decidable (InOrder s w action) := by
  cases action <;> unfold InOrder <;> infer_instance

def EventSeen (s : Session) (id : Uuid) (w : World) : Prop :=
  ∀ e ∈ w.db.events, e.id = id → eventVisible w.db s e

def ApplicationSeen (s : Session) (id : Uuid) (w : World) : Prop :=
  ∀ a ∈ w.db.applications, a.id = id → applicationVisible w.db s a

def ParticipantSeen (s : Session) (id : Uuid) (w : World) : Prop :=
  ∀ ep ∈ w.db.participants, ep.id = id → participantVisible w.db s ep

def ShowsApplication (d : ApplicationDoc) (a : Application) : Prop :=
  ∃ restraintTypeIds, d = applicationToDoc a restraintTypeIds

section
variable {s : Session} {id : Uuid} {w : World} {action : Action}

def EventCurrent (id : Uuid) (w : World) : Prop :=
  ∀ e ∈ w.db.events, e.id = id → w.events.Current eventPosition (fun d e => d = eventToDoc e) e

def ApplicationCurrent (id : Uuid) (w : World) : Prop :=
  ∀ a ∈ w.db.applications, a.id = id →
    w.applications.Current applicationPosition ShowsApplication a

def ParticipantCurrent (id : Uuid) (w : World) : Prop :=
  ∀ ep ∈ w.db.participants, ep.id = id →
    w.participants.Current participantPosition (fun d ep => d = eventParticipantToDoc ep) ep

theorem EventCurrent.step (h : EventCurrent id w) (hok : InOrder s w action)
    (hseen : EventSeen s id w) (hseen' : EventSeen s id (w.step s action)) :
    EventCurrent id (w.step s action) := by
  intro e he hid
  cases action with
  | commit tx =>
    by_cases hold : e ∈ w.db.events
    · exact h e hold hid
    · exact .inr (hok.events e he hold (hseen' e he hid))
  | pullEvents limit =>
    rw [World.step, receive_pullEvents]
    exact (h e he hid).read limit (fun _ ha _ hb => eventPosition_inj ha hb) he (hseen e he hid)
      fun _ => rfl
  | tick | write | rollback | pullApplications | pullEventParticipants => exact h e he hid

theorem ApplicationCurrent.step (h : ApplicationCurrent id w) (hok : InOrder s w action)
    (hseen : ApplicationSeen s id w) (hseen' : ApplicationSeen s id (w.step s action)) :
    ApplicationCurrent id (w.step s action) := by
  intro a ha hid
  cases action with
  | commit tx =>
    by_cases hold : a ∈ w.db.applications
    · exact h a hold hid
    · exact .inr (hok.applications a ha hold (hseen' a ha hid))
  | pullApplications limit later =>
    rw [World.step, receive_pullApplications]
    exact (h a ha hid).read limit (fun _ ha _ hb => applicationPosition_inj ha hb) ha
      (hseen a ha hid) fun _ => ⟨_, rfl⟩
  | tick | write | rollback | pullEvents | pullEventParticipants => exact h a ha hid

theorem ParticipantCurrent.step (h : ParticipantCurrent id w) (hok : InOrder s w action)
    (hseen : ParticipantSeen s id w) (hseen' : ParticipantSeen s id (w.step s action)) :
    ParticipantCurrent id (w.step s action) := by
  intro ep hep hid
  cases action with
  | commit tx =>
    by_cases hold : ep ∈ w.db.participants
    · exact h ep hold hid
    · exact .inr (hok.participants ep hep hold (hseen' ep hep hid))
  | pullEventParticipants limit =>
    rw [World.step, receive_pullEventParticipants]
    exact (h ep hep hid).read limit (fun _ ha _ hb => participantPosition_inj ha hb) hep
      (hseen ep hep hid) fun _ => rfl
  | tick | write | rollback | pullEvents | pullApplications => exact h ep hep hid

/-- Where commits come in order, a client that pulls until a page is empty holds
every row it could see all along, as it is. -/
theorem replica_latest (s : Session) (db : Database) (clock : Time) (actions : List Action)
    (hok : Run.Along (World.step s) (InOrder s) (World.start db clock) actions) (limit : Nat)
    (hlimit : 0 < limit) :
    let w := Run.run (World.step s) (World.start db clock) actions
    let seen := fun p => Run.Always (World.step s) p (World.start db clock) actions
    ((pullEvents w.db s w.events.checkpoint limit).documents = [] →
      ∀ e ∈ w.db.events, seen (EventSeen s e.id) → w.events.docs e.id = some (eventToDoc e)) ∧
    ((pullApplications w.db w.db s w.applications.checkpoint limit).documents = [] →
      ∀ a ∈ w.db.applications, seen (ApplicationSeen s a.id) →
        ∃ d, w.applications.docs a.id = some d ∧ ShowsApplication d a) ∧
    ((pullEventParticipants w.db s w.participants.checkpoint limit).documents = [] →
      ∀ ep ∈ w.db.participants, seen (ParticipantSeen s ep.id) →
        w.participants.docs ep.id = some (eventParticipantToDoc ep)) := by
  intro w seen
  refine ⟨fun hempty e he hseen => ?_, fun hempty a ha hseen => ?_, fun hempty ep hep hseen => ?_⟩
  · have hcur : EventCurrent e.id w :=
      hseen.invariant hok (fun _ _ _ => Cursor.current_empty) fun _ _ h hok hs hs' =>
        h.step hok hs hs'
    obtain ⟨d, hd, rfl⟩ := (hcur e he rfl).holds hlimit (List.map_eq_nil_iff.mp hempty) he
      (hseen.last e he rfl)
    exact hd
  · have hcur : ApplicationCurrent a.id w :=
      hseen.invariant hok (fun _ _ _ => Cursor.current_empty) fun _ _ h hok hs hs' =>
        h.step hok hs hs'
    exact (hcur a ha rfl).holds hlimit (List.map_eq_nil_iff.mp hempty) ha (hseen.last a ha rfl)
  · have hcur : ParticipantCurrent ep.id w :=
      hseen.invariant hok (fun _ _ _ => Cursor.current_empty) fun _ _ h hok hs hs' =>
        h.step hok hs hs'
    obtain ⟨d, hd, rfl⟩ := (hcur ep hep rfl).holds hlimit (List.map_eq_nil_iff.mp hempty) hep
      (hseen.last ep hep rfl)
    exact hd

theorem eventSeen_admin (id : Uuid) (w : World) : EventSeen sampleAdmin id w := fun _ _ _ =>
  .inl rfl

def commitsInOrder : List Action :=
  [.tick 30, .write 1 (.event { sampleEvent with note := some sampleNote }), .tick 10,
    .write 2 (.event { sampleEvent with id := 2 }), .commit 1, .pullEvents 100, .commit 2,
    .pullEvents 100]

theorem commitsInOrder_latest :
    let w := Run.run (World.step sampleAdmin) (World.start sample 20) commitsInOrder
    ∀ e ∈ w.db.events, w.events.docs e.id = some (eventToDoc e) := fun e he =>
  (replica_latest sampleAdmin sample 20 commitsInOrder (by decide +kernel) 100 (by decide)).1
    (by decide +kernel) e he (Run.always_of_forall (eventSeen_admin e.id))

/-- The one that writes first commits last, after a pull of the other's row. -/
def commitsOvertaken : List Action :=
  [.tick 30, .write 1 (.event { sampleEvent with note := some sampleNote }), .tick 10,
    .write 2 (.event { sampleEvent with id := 2 }), .commit 2, .pullEvents 100, .commit 1,
    .pullEvents 100]

theorem commitsOvertaken_not_latest :
    let w := Run.run (World.step sampleAdmin) (World.start sample 20) commitsOvertaken
    let e := { sampleEvent with note := some sampleNote, updatedAt := 50 }
    (pullEvents w.db sampleAdmin w.events.checkpoint 100).documents = [] ∧ e ∈ w.db.events ∧
      Run.Always (World.step sampleAdmin) (EventSeen sampleAdmin e.id) (World.start sample 20)
        commitsOvertaken ∧
      w.events.docs e.id ≠ some (eventToDoc e) :=
  ⟨by decide +kernel, by decide +kernel, Run.always_of_forall (eventSeen_admin 1),
    by decide +kernel⟩

end

end HcMap.Sync
