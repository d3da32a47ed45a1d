import HcMap.Routes.Stamps
import HcMap.Sync.Client

/-!
# Grants

Requests one after another, and between them the pulls of one client. A client
keeps up with the events it has in sight, since every change is stamped later
than its checkpoints. An event that comes into sight brings its old stamps
along.
-/

namespace HcMap.Routes

open Sync (Client eventToDoc eventParticipantToDoc applicationConflictDoc)

-- ---------------------------------------------------------------------------
-- A server and a client
-- ---------------------------------------------------------------------------

/-- The committed database, the last reading of its clock, and one client. -/
structure Site where
  db : Database
  clock : Time
  client : Client

inductive Move
  | request (r : Request)
  | pull (p : Sync.Pull)

def Operation.lastReading (clock : Time) : Operation → Time
  | .pushEvents items => (items.map Prod.fst).foldr max 0
  | .pushApplications items => (items.map Prod.fst).foldr max 0
  | _ => clock

def Site.start (db : Database) (clock : Time) : Site := ⟨db, clock, ⟨.empty, .empty, .empty⟩⟩

def Site.step (q : Session) (site : Site) : Move → Site
  | .request r =>
    { site with
      db := Routes.step site.db r
      clock := max site.clock (r.operation.lastReading r.clock) }
  | .pull p => { site with client := site.client.pull site.db q p }

def OnTime (site : Site) : Move → Prop
  | .request r => ∀ c ∈ r.operation.clocks r.clock, site.clock < c
  | .pull _ => True

-- ---------------------------------------------------------------------------
-- The condition
-- ---------------------------------------------------------------------------

/-- Each row of the event is held as it is, or lies ahead of the checkpoint. -/
structure EventAhead (db : Database) (q : Session) (client : Client) (eid : Uuid) : Prop where
  event : ∀ e ∈ db.events, e.id = eid → client.EventCurrent e
  applications : ∀ a ∈ db.applications, a.eventId = eid → client.ApplicationCurrent db q a
  participants : ∀ ep ∈ db.participants, ep.eventId = eid → client.ParticipantCurrent ep

/-- What a request brings into sight, the client has ahead; and no push changes
restraint links alone. -/
def GrantsAhead (q : Session) (site : Site) : Move → Prop
  | .request r => Meets TouchesRows site.db r ∧
    ∀ eid, ¬ appUserCanSeeEvent site.db q eid → appUserCanSeeEvent (step site.db r) q eid →
      EventAhead (step site.db r) q site.client eid
  | .pull _ => True

structure HoldsEvent (db : Database) (q : Session) (client : Client) (e : Event) : Prop where
  event : client.events.docs e.id = some (eventToDoc e)
  applications : ∀ a ∈ db.applications, a.eventId = e.id →
    client.applications.docs a.id = some (applicationConflictDoc db q a)
  participants : ∀ ep ∈ db.participants, ep.eventId = e.id →
    client.participants.docs ep.id = some (eventParticipantToDoc ep)

-- ---------------------------------------------------------------------------
-- One step
-- ---------------------------------------------------------------------------

structure Follows (q : Session) (site : Site) : Prop where
  stamped : StampedBy site.clock site.db
  precedes : site.client.Precedes site.clock
  ahead : ∀ eid, appUserCanSeeEvent site.db q eid → EventAhead site.db q site.client eid

section
variable {db db' : Database} {q s : Session} {site : Site} {client : Client} {eid : Uuid}
  {clocks : Set Time} {t : Time}

theorem follows_start (h : StampedBy t db) : Follows q (Site.start db t) where
  stamped := h
  precedes := ⟨by simp [Site.start, Cursor.Feed.empty], by simp [Site.start, Cursor.Feed.empty],
    by simp [Site.start, Cursor.Feed.empty]⟩
  ahead _ _ := ⟨fun _ _ _ => Cursor.current_empty, fun _ _ _ => Cursor.current_empty,
    fun _ _ _ => Cursor.current_empty⟩

theorem le_lastReading {operation : Operation} {clock c : Time}
    (hc : c ∈ operation.clocks clock) : c ≤ operation.lastReading clock := by
  cases operation with
  | pushEvents items | pushApplications items => exact Table.le_foldr_max hc
  | _ => exact (Set.mem_singleton_iff.mp hc).le

/-- An application without a new stamp makes the document it made. -/
theorem Stamped.applicationCurrent {a : Application} (h : Stamped clocks db db')
    (ha : a ∈ db'.applications) (hc : a.updatedAt ∉ clocks)
    (hsee : appUserCanSeeEvent db q a.eventId) (hsee' : appUserCanSeeEvent db' q a.eventId)
    (hcur : client.ApplicationCurrent db q a) : client.ApplicationCurrent db' q a := by
  have hload : Sync.loadRestraintSet db q a.id = Sync.loadRestraintSet db' q a.id := by
    refine Sync.loadRestraintSet_congr fun rid => ?_
    rw [Sync.mem_loadRestraintSet_of_canSee (h.applications a ha hc) hsee,
      Sync.mem_loadRestraintSet_of_canSee ha hsee', h.hasRestraint ha hc rid]
  exact hcur.imp_left fun ⟨d, hd, hshows⟩ =>
    ⟨d, hd, hshows.trans (congrArg (Sync.applicationToDoc a) hload)⟩

theorem EventAhead.stamped (h : EventAhead db q client eid) (hs : Stamped clocks db db')
    (hclient : client.Precedes t) (hclock : ∀ c ∈ clocks, t < c)
    (hsee : appUserCanSeeEvent db q eid) (hsee' : appUserCanSeeEvent db' q eid) :
    EventAhead db' q client eid where
  event e he hid := by
    by_cases hc : e.updatedAt ∈ clocks
    · exact .inr (Sync.after_of_later hclient.events (hclock _ hc))
    · exact h.event e (hs.events e he hc) hid
  applications a ha hid := by
    by_cases hc : a.updatedAt ∈ clocks
    · exact .inr (Sync.after_of_later hclient.applications (hclock _ hc))
    · have hcur := h.applications a (hs.applications a ha hc) hid
      subst hid
      exact hs.applicationCurrent ha hc hsee hsee' hcur
  participants ep hep hid := by
    by_cases hc : ep.updatedAt ∈ clocks
    · exact .inr (Sync.after_of_later hclient.participants (hclock _ hc))
    · exact h.participants ep (hs.participants ep hep hc) hid

theorem EventAhead.pull {p : Sync.Pull} (h : EventAhead db q client eid)
    (hsee : appUserCanSeeEvent db q eid) : EventAhead db q (client.pull db q p) eid where
  event e he hid := by
    subst hid
    exact (h.event e he rfl).pull he (eventVisible_of_canSee he hsee)
  applications a ha hid := by
    subst hid
    exact (h.applications a ha rfl).pull ha (.inr (.inl hsee))
  participants ep hep hid := by
    subst hid
    exact (h.participants ep hep rfl).pull hep (participantVisible_iff.mpr hsee)

theorem step_stamped {request : Request} (h : Meets TouchesRows db request) :
    Stamped (request.operation.clocks request.clock) db (step db request) := by
  rcases step_cases db request with he | ⟨s, db', hs, hx, he⟩
  · rw [he]
    exact .refl _ db
  · rw [he]
    exact execute_stamped hx (h s hs (by rw [hx]; rfl))

theorem Follows.step {move : Move} (h : Follows q site) (htime : OnTime site move)
    (hok : GrantsAhead q site move) : Follows q (site.step q move) := by
  cases move with
  | pull p =>
    exact ⟨h.stamped,
      h.precedes.pull h.stamped.events h.stamped.applications h.stamped.participants,
      fun eid hsee => (h.ahead eid hsee).pull hsee⟩
  | request r =>
    obtain ⟨htouch, hgrant⟩ := hok
    have hs := step_stamped htouch
    refine ⟨h.stamped.stamped hs.toRowsStamped (le_max_left ..) ?_, ?_, fun eid hsee' => ?_⟩
    · exact fun c hc => (le_lastReading hc).trans (le_max_right ..)
    · exact h.precedes.mono (le_max_left ..)
    · by_cases hsee : appUserCanSeeEvent site.db q eid
      · exact (h.ahead eid hsee).stamped hs h.precedes htime hsee hsee'
      · exact hgrant eid hsee hsee'

-- ---------------------------------------------------------------------------
-- Every run
-- ---------------------------------------------------------------------------

theorem Follows.holds (h : Follows q site) {limit : Nat} (hlimit : 0 < limit)
    (hdone : site.client.UpToDate site.db q limit) {e : Event} (he : e ∈ site.db.events)
    (hv : eventVisible site.db q e) : HoldsEvent site.db q site.client e := by
  have hsee := canSee_of_eventVisible he hv
  have hahead := h.ahead e.id hsee
  refine ⟨(hahead.event e he rfl).holds hlimit hdone he hv, fun a ha hid => ?_,
    fun ep hep hid => ?_⟩
  · exact (hahead.applications a ha hid).holds hlimit hdone ha (.inr (.inl (hid ▸ hsee)))
  · exact (hahead.participants ep hep hid).holds hlimit hdone hep
      (participantVisible_iff.mpr (hid ▸ hsee))

/-- Where every event comes into sight ahead of the client's checkpoints, a
client that pulls until its pages are empty holds every event it can see, with
all its rows. -/
theorem run_grants_reach (q : Session) {db : Database} {t : Time} (hdb : StampedBy t db)
    {moves : List Move} (htime : Run.Along (Site.step q) OnTime (Site.start db t) moves)
    (hok : Run.Along (Site.step q) (GrantsAhead q) (Site.start db t) moves) {limit : Nat}
    (hlimit : 0 < limit) :
    let site := Run.run (Site.step q) (Site.start db t) moves
    site.client.UpToDate site.db q limit →
      ∀ e ∈ site.db.events, eventVisible site.db q e → HoldsEvent site.db q site.client e := by
  intro site hdone e he hv
  have hfollows : Follows q site :=
    (htime.and hok).invariant (follows_start hdb) fun _ _ h hok => h.step hok.1 hok.2
  exact hfollows.holds hlimit hdone he hv

end

-- ---------------------------------------------------------------------------
-- A grant early and a grant late
-- ---------------------------------------------------------------------------

def sampleCreate : Services.EventCreate where
  startedAt := 25
  endedAt := none
  lat := ⟨0, by decide, by decide⟩
  lon := ⟨0, by decide, by decide⟩
  revealParticipants := false
  title := none
  note := none
  timePrecision := .minute
  legacyExternalRef := none

def pullAll : List Move :=
  [.pull (.events 100), .pull (.applications 100), .pull (.participants 100)]

def grantedEarly : List Move :=
  [.request ⟨2, 30, 30, .createEvent sampleCreate⟩,
    .request ⟨2, 50, 50, .addParticipant 1 3⟩] ++ pullAll

theorem grantedEarly_reaches :
    let site := Run.run (Site.step sampleGuest) (Site.start sampleUsers 20) grantedEarly
    ∀ e ∈ site.db.events, eventVisible site.db sampleGuest e →
      HoldsEvent site.db sampleGuest site.client e := by
  have hnew : ∀ db eid, EventAhead db sampleGuest ⟨.empty, .empty, .empty⟩ eid := fun _ _ =>
    ⟨fun _ _ _ => Cursor.current_empty, fun _ _ _ => Cursor.current_empty,
      fun _ _ _ => Cursor.current_empty⟩
  have htime : Run.Along (Site.step sampleGuest) OnTime (Site.start sampleUsers 20)
      grantedEarly :=
    ⟨by rintro _ rfl; decide, by rintro _ rfl; decide, trivial, trivial, trivial, trivial⟩
  have hok : Run.Along (Site.step sampleGuest) (GrantsAhead sampleGuest)
      (Site.start sampleUsers 20) grantedEarly :=
    ⟨⟨fun _ _ _ => trivial, fun _ _ _ => hnew _ _⟩,
      ⟨fun _ _ _ => trivial, fun _ _ _ => hnew _ _⟩, trivial, trivial, trivial, trivial⟩
  exact run_grants_reach sampleGuest ⟨by decide, by decide, by decide⟩ htime hok
    (by decide : 0 < 100) ⟨by decide +kernel, by decide +kernel, by decide +kernel⟩

/-- The guest records an event of their own and pulls it before the owner adds
them to the older one. -/
def grantedLate : List Move :=
  [.request ⟨2, 30, 30, .createEvent sampleCreate⟩,
    .request ⟨3, 40, 40, .createEvent sampleCreate⟩] ++ pullAll ++
    [.request ⟨2, 50, 50, .addParticipant 1 3⟩] ++ pullAll

theorem grantedLate_missed :
    let site := Run.run (Site.step sampleGuest) (Site.start sampleUsers 20) grantedLate
    site.client.UpToDate site.db sampleGuest 100 ∧
      ∃ e ∈ site.db.events, eventVisible site.db sampleGuest e ∧
        ¬ HoldsEvent site.db sampleGuest site.client e := by
  refine ⟨⟨by decide +kernel, by decide +kernel, by decide +kernel⟩, ?_⟩
  have hmiss : ∃ e ∈ (Run.run (Site.step sampleGuest) (Site.start sampleUsers 20)
      grantedLate).db.events,
      eventVisible (Run.run (Site.step sampleGuest) (Site.start sampleUsers 20) grantedLate).db
        sampleGuest e ∧
      (Run.run (Site.step sampleGuest) (Site.start sampleUsers 20) grantedLate).client.events.docs
        e.id = none := by decide +kernel
  obtain ⟨e, he, hv, hnone⟩ := hmiss
  exact ⟨e, he, hv, fun h => by simpa [hnone] using h.event⟩

end HcMap.Routes
