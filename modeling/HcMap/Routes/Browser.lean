import HcMap.Lib.Store
import HcMap.Routes.Confined
import HcMap.Routes.Deletions
import HcMap.Routes.Grants
import HcMap.Sync.ConflictReplies
import HcMap.Sync.Replication

/-!
# A browser

One browser, in which users work one after another. `database.ts` opens one
database under one name, and `replication.ts` goes on from the checkpoints kept
under one identifier. Neither way to log out, nor the provider's clean-up,
touches any of it: who logs in next finds what was left.
-/

namespace HcMap.Sync

instance : Keyed EventParticipantDoc Uuid := ⟨EventParticipantDoc.id⟩

end HcMap.Sync

namespace HcMap.Routes

open Sync (EventDoc ApplicationDoc EventParticipantDoc SyncCheckpoint Delivery items receive
  eventToDoc eventParticipantToDoc applicationConflictDoc)

abbrev Collection (δ : Type) [Keyed δ Uuid] := LocalStore Uuid SyncCheckpoint δ Uuid

/-- The server's database and the last reading of its clock, the browser's
collections, whose session it has, and who was the last to log in. -/
structure Browser where
  db : Database
  clock : Time
  events : Collection EventDoc
  applications : Collection ApplicationDoc
  participants : Collection EventParticipantDoc
  user : Option Uuid
  lastUser : Option Uuid

namespace Browser

inductive Move
  -- Anyone's, from elsewhere.
  | request (r : Request)
  | login (userId : Uuid)
  | logout (answered : Bool)
  | forceLogout (answered : Bool)
  | writeEvent (d : EventDoc)
  | writeApplication (d : ApplicationDoc)
  | pull (p : Sync.Pull)
  | pushEvents (b : Delivery) (answered : Bool)
  | pushApplications (b : Delivery) (answered : Bool)

def start (db : Database) (clock : Time) : Browser :=
  ⟨db, clock, .empty, .empty, .empty, none, none⟩

variable (br : Browser)

def session : Option Session := br.user.bind fun userId => (authenticate br.db userId 0).toOption

-- ---------------------------------------------------------------------------
-- Sessions
-- ---------------------------------------------------------------------------

def useLogin (userId : Uuid) : Browser :=
  match authenticate br.db userId 0 with
  | .ok _ => { br with user := some userId, lastUser := some userId }
  | .error _ => br

/-- The cookie is gone once the server answers. -/
def useLogout (answered : Bool) : Browser := if answered then { br with user := none } else br

/-- It clears the PIN record, and goes on to the login page in any case. -/
def forceLogout (answered : Bool) : Browser := if answered then { br with user := none } else br

-- ---------------------------------------------------------------------------
-- Replication
-- ---------------------------------------------------------------------------

def writeEvent (d : EventDoc) : Browser :=
  match br.user with
  | some userId => { br with events := br.events.write userId d }
  | none => br

def writeApplication (d : ApplicationDoc) : Browser :=
  match br.user with
  | some userId => { br with applications := br.applications.write userId d }
  | none => br

def absorb {δ : Type} [Keyed δ Uuid] (id : δ → Uuid) (updatedAt : δ → Time) (st : Collection δ)
    (result : Sync.PullResponse δ) : Collection δ :=
  st.absorb (receive id updatedAt st.feed result).checkpoint result.documents

def pull (s : Session) : Sync.Pull → Browser
  | .events limit =>
    { br with
      events := absorb EventDoc.id EventDoc.updatedAt br.events
        (Sync.pullEvents br.db s br.events.checkpoint limit) }
  | .applications limit =>
    { br with
      applications := absorb ApplicationDoc.id ApplicationDoc.updatedAt br.applications
        (Sync.pullApplications br.db br.db s br.applications.checkpoint limit) }
  | .participants limit =>
    { br with
      participants := absorb EventParticipantDoc.id EventParticipantDoc.updatedAt br.participants
        (Sync.pullEventParticipants br.db s br.participants.checkpoint limit) }

def pushEvents (s : Session) (b : Delivery) (answered : Bool) : Browser :=
  match Sync.pushEvents { s with now := b.now } br.db (items br.events.replica b) with
  | .ok (db, conflicts) =>
    { br with
      db := db
      clock := max br.clock
        ((Operation.pushEvents (items br.events.replica b)).lastReading br.clock)
      events := if answered then br.events.settle b.size conflicts else br.events }
  | .error _ => br

def pushApplications (s : Session) (b : Delivery) (answered : Bool) : Browser :=
  match Sync.pushApplications { s with now := b.now } br.db (items br.applications.replica b) with
  | .ok (db, conflicts) =>
    { br with
      db := db
      clock := max br.clock
        ((Operation.pushApplications (items br.applications.replica b)).lastReading br.clock)
      applications := if answered then br.applications.settle b.size conflicts
        else br.applications }
  | .error _ => br

/-- A request without a session is answered with a 401, and the handler
throws. -/
def online (act : Session → Browser) : Browser :=
  match br.session with
  | some s => act s
  | none => br

def step : Move → Browser
  | .request r =>
    { br with
      db := Routes.step br.db r
      clock := max br.clock (r.operation.lastReading r.clock) }
  | .login userId => br.useLogin userId
  | .logout answered => br.useLogout answered
  | .forceLogout answered => br.forceLogout answered
  | .writeEvent d => br.writeEvent d
  | .writeApplication d => br.writeApplication d
  | .pull p => br.online fun s => br.pull s p
  | .pushEvents b answered => br.online fun s => br.pushEvents s b answered
  | .pushApplications b answered => br.online fun s => br.pushApplications s b answered

def OnTime : Move → Prop
  | .request r => ∀ c ∈ r.operation.clocks r.clock, br.clock < c
  | .pushEvents b _ => ∀ item ∈ items br.events.replica b, br.clock < item.1
  | .pushApplications b _ => ∀ item ∈ items br.applications.replica b, br.clock < item.1
  | _ => True

end Browser

-- ---------------------------------------------------------------------------
-- What a user may see
-- ---------------------------------------------------------------------------

def eventView (db : Database) (userId : Uuid) (e : Event) : Option EventDoc :=
  match authenticate db userId 0 with
  | .ok s => if eventVisible db s e then some (eventToDoc e) else none
  | .error _ => none

def applicationView (db : Database) (userId : Uuid) (a : Application) : Option ApplicationDoc :=
  match authenticate db userId 0 with
  | .ok s => if applicationVisible db s a then some (applicationConflictDoc db s a) else none
  | .error _ => none

def participantView (db : Database) (userId : Uuid) (ep : EventParticipant) :
    Option EventParticipantDoc :=
  match authenticate db userId 0 with
  | .ok s => if participantVisible db s ep then some (eventParticipantToDoc ep) else none
  | .error _ => none

end HcMap.Routes
