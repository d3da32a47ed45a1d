import HcMap.Sync.Pull
import HcMap.Sync.RestraintLaws
import HcMap.Sync.Frames

/-!
# A client

The three pull streams of `replication.ts` against one database. A row that
lies ahead of its stream's checkpoint is held, as it is, once the stream's next
page is empty.
-/

namespace HcMap.Sync

open Cursor (Feed After)

structure Client where
  events : Feed Uuid SyncCheckpoint EventDoc
  applications : Feed Uuid SyncCheckpoint ApplicationDoc
  participants : Feed Uuid SyncCheckpoint EventParticipantDoc

inductive Pull
  | events (limit : Nat)
  | applications (limit : Nat)
  | participants (limit : Nat)

namespace Client

variable (db : Database) (s : Session) (client : Client)

def pull : Pull → Client
  | .events limit =>
    { client with
      events := receive EventDoc.id EventDoc.updatedAt client.events
        (pullEvents db s client.events.checkpoint limit) }
  | .applications limit =>
    { client with
      applications := receive ApplicationDoc.id ApplicationDoc.updatedAt client.applications
        (pullApplications db db s client.applications.checkpoint limit) }
  | .participants limit =>
    { client with
      participants := receive EventParticipantDoc.id EventParticipantDoc.updatedAt
        client.participants (pullEventParticipants db s client.participants.checkpoint limit) }

structure UpToDate (limit : Nat) : Prop where
  events : (pullEvents db s client.events.checkpoint limit).documents = []
  applications : (pullApplications db db s client.applications.checkpoint limit).documents = []
  participants : (pullEventParticipants db s client.participants.checkpoint limit).documents = []

structure Precedes (t : Time) : Prop where
  events : ∀ c ∈ client.events.checkpoint, c.updatedAt ≤ t
  applications : ∀ c ∈ client.applications.checkpoint, c.updatedAt ≤ t
  participants : ∀ c ∈ client.participants.checkpoint, c.updatedAt ≤ t

def EventCurrent (e : Event) : Prop :=
  client.events.Current eventPosition (fun d e => d = eventToDoc e) e

def ApplicationCurrent (a : Application) : Prop :=
  client.applications.Current applicationPosition (fun d a => d = applicationConflictDoc db s a) a

def ParticipantCurrent (ep : EventParticipant) : Prop :=
  client.participants.Current participantPosition (fun d ep => d = eventParticipantToDoc ep) ep

end Client

-- ---------------------------------------------------------------------------
-- Pulling
-- ---------------------------------------------------------------------------

section
variable {db : Database} {s : Session} {client : Client} {p : Pull} {pulls : List Pull}
  {e : Event} {a : Application} {ep : EventParticipant} {limit : Nat} {t : Time}

theorem Client.pull_events : (client.pull db s (.events limit)).events =
    client.events.read eventPosition eventToDoc
      (Cursor.page eventPosition db.events (eventVisible db s) client.events.checkpoint limit) :=
  receive_pullEvents client.events

theorem Client.pull_applications : (client.pull db s (.applications limit)).applications =
    client.applications.read applicationPosition (applicationConflictDoc db s)
      (Cursor.page applicationPosition db.applications (applicationVisible db s)
        client.applications.checkpoint limit) :=
  receive_pullApplications client.applications

theorem Client.pull_participants : (client.pull db s (.participants limit)).participants =
    client.participants.read participantPosition eventParticipantToDoc
      (Cursor.page participantPosition db.participants (participantVisible db s)
        client.participants.checkpoint limit) :=
  receive_pullEventParticipants client.participants

theorem Client.EventCurrent.pull (h : client.EventCurrent e) (he : e ∈ db.events)
    (hv : eventVisible db s e) : (client.pull db s p).EventCurrent e := by
  cases p with
  | events limit =>
    rw [EventCurrent, pull_events]
    exact Feed.Current.read limit h (fun _ ha _ hb => eventPosition_inj ha hb) he hv fun _ => rfl
  | applications | participants => exact h

theorem Client.ApplicationCurrent.pull (h : client.ApplicationCurrent db s a)
    (ha : a ∈ db.applications) (hv : applicationVisible db s a) :
    (client.pull db s p).ApplicationCurrent db s a := by
  cases p with
  | applications limit =>
    rw [ApplicationCurrent, pull_applications]
    exact Feed.Current.read limit h (fun _ ha _ hb => applicationPosition_inj ha hb) ha hv
      fun _ => rfl
  | events | participants => exact h

theorem Client.ParticipantCurrent.pull (h : client.ParticipantCurrent ep)
    (hep : ep ∈ db.participants) (hv : participantVisible db s ep) :
    (client.pull db s p).ParticipantCurrent ep := by
  cases p with
  | participants limit =>
    rw [ParticipantCurrent, pull_participants]
    exact Feed.Current.read limit h (fun _ ha _ hb => participantPosition_inj ha hb) hep hv
      fun _ => rfl
  | events | applications => exact h

theorem Client.EventCurrent.run (h : client.EventCurrent e) (he : e ∈ db.events)
    (hv : eventVisible db s e) : (Run.run (Client.pull db s) client pulls).EventCurrent e := by
  induction pulls generalizing client with
  | nil => exact h
  | cons p pulls ih => exact ih (h.pull he hv)

theorem Client.ApplicationCurrent.run (h : client.ApplicationCurrent db s a)
    (ha : a ∈ db.applications) (hv : applicationVisible db s a) :
    (Run.run (Client.pull db s) client pulls).ApplicationCurrent db s a := by
  induction pulls generalizing client with
  | nil => exact h
  | cons p pulls ih => exact ih (h.pull ha hv)

theorem Client.ParticipantCurrent.run (h : client.ParticipantCurrent ep)
    (hep : ep ∈ db.participants) (hv : participantVisible db s ep) :
    (Run.run (Client.pull db s) client pulls).ParticipantCurrent ep := by
  induction pulls generalizing client with
  | nil => exact h
  | cons p pulls ih => exact ih (h.pull hep hv)

theorem Client.EventCurrent.holds (h : client.EventCurrent e) (hlimit : 0 < limit)
    (hdone : client.UpToDate db s limit) (he : e ∈ db.events) (hv : eventVisible db s e) :
    client.events.docs e.id = some (eventToDoc e) := by
  obtain ⟨d, hd, rfl⟩ :=
    Feed.Current.holds h hlimit (List.map_eq_nil_iff.mp hdone.events) he hv
  exact hd

theorem Client.ApplicationCurrent.holds (h : client.ApplicationCurrent db s a) (hlimit : 0 < limit)
    (hdone : client.UpToDate db s limit) (ha : a ∈ db.applications)
    (hv : applicationVisible db s a) :
    client.applications.docs a.id = some (applicationConflictDoc db s a) := by
  obtain ⟨d, hd, rfl⟩ :=
    Feed.Current.holds h hlimit (List.map_eq_nil_iff.mp hdone.applications) ha hv
  exact hd

theorem Client.ParticipantCurrent.holds (h : client.ParticipantCurrent ep) (hlimit : 0 < limit)
    (hdone : client.UpToDate db s limit) (hep : ep ∈ db.participants)
    (hv : participantVisible db s ep) :
    client.participants.docs ep.id = some (eventParticipantToDoc ep) := by
  obtain ⟨d, hd, rfl⟩ :=
    Feed.Current.holds h hlimit (List.map_eq_nil_iff.mp hdone.participants) hep hv
  exact hd

theorem Client.Precedes.mono {t' : Time} (h : client.Precedes t) (ht : t ≤ t') :
    client.Precedes t' :=
  ⟨fun c hc => (h.events c hc).trans ht, fun c hc => (h.applications c hc).trans ht,
    fun c hc => (h.participants c hc).trans ht⟩

theorem advance_precedes {ρ : Type} {pos : ρ → SyncCheckpoint}
    {checkpoint : Option SyncCheckpoint} {rows : List ρ}
    (h : ∀ c ∈ checkpoint, c.updatedAt ≤ t) (hrows : ∀ r ∈ rows, (pos r).updatedAt ≤ t) :
    ∀ c ∈ Cursor.advance pos checkpoint rows, c.updatedAt ≤ t := by
  unfold Cursor.advance
  split
  · rename_i last hlast
    rintro c ⟨⟩
    exact hrows last (List.mem_of_getLast? hlast)
  · exact h

theorem Client.Precedes.pull (h : client.Precedes t) (he : ∀ e ∈ db.events, e.updatedAt ≤ t)
    (ha : ∀ a ∈ db.applications, a.updatedAt ≤ t) (hep : ∀ ep ∈ db.participants, ep.updatedAt ≤ t) :
    (client.pull db s p).Precedes t := by
  cases p with
  | events limit =>
    refine ⟨?_, h.applications, h.participants⟩
    rw [pull_events]
    exact advance_precedes h.events fun e hm => he e (Cursor.mem_of_mem_page hm).1
  | applications limit =>
    refine ⟨h.events, ?_, h.participants⟩
    rw [pull_applications]
    exact advance_precedes h.applications fun a hm => ha a (Cursor.mem_of_mem_page hm).1
  | participants limit =>
    refine ⟨h.events, h.applications, ?_⟩
    rw [pull_participants]
    exact advance_precedes h.participants fun ep hm => hep ep (Cursor.mem_of_mem_page hm).1

theorem after_of_later {ρ : Type} {pos : ρ → SyncCheckpoint} {checkpoint : Option SyncCheckpoint}
    {r : ρ} (h : ∀ c ∈ checkpoint, c.updatedAt ≤ t) (hr : t < (pos r).updatedAt) :
    After pos checkpoint r := fun c hc =>
  SyncCheckpoint.lt_iff.mpr (.inl (lt_of_le_of_lt (h c hc) hr))

-- ---------------------------------------------------------------------------
-- Restraint sets
-- ---------------------------------------------------------------------------

/-- A session that sees the event sees all restraint links of its applications. -/
theorem mem_loadRestraintSet_of_canSee {rid : Uuid} (ha : a ∈ db.applications)
    (hv : appUserCanSeeEvent db s a.eventId) :
    rid ∈ loadRestraintSet db s a.id ↔ HasRestraint db a.id rid := by
  rw [mem_loadRestraintSet_iff ha, and_iff_right hv]

theorem nodup_loadRestraintSet (db : Database) (s : Session) (aid : Uuid) :
    (loadRestraintSet db s aid).Nodup := by
  unfold loadRestraintSet
  rw [(List.perm_insertionSort (· ≤ ·) _).nodup_iff]
  refine (List.Nodup.of_map key (db.restraints.nodup)).filter _ |>.map_on ?_
  intro r hr r' hr' heq
  rw [List.mem_filter, decide_eq_true_eq] at hr hr'
  refine Table.eq_of_key hr.1 hr'.1 ?_
  simp [hr.2.1, hr'.2.1, heq]

theorem loadRestraintSet_congr {db' : Database} {s' : Session} {aid aid' : Uuid}
    (h : ∀ rid, rid ∈ loadRestraintSet db s aid ↔ rid ∈ loadRestraintSet db' s' aid') :
    loadRestraintSet db s aid = loadRestraintSet db' s' aid' := by
  have hperm := (List.perm_ext_iff_of_nodup (nodup_loadRestraintSet db s aid)
    (nodup_loadRestraintSet db' s' aid')).mpr h
  exact hperm.eq_of_pairwise' (List.pairwise_insertionSort (· ≤ ·) _)
    (List.pairwise_insertionSort (· ≤ ·) _)

end

end HcMap.Sync
