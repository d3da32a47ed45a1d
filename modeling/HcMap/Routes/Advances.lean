import HcMap.Routes.Stamps
import HcMap.Sync.Client

/-!
# Changes that are sent

A client hears of a change by the stamp of the row that carries the document.
Every operation stamps what it changes, but for a pushed update that replaces
the restraint links of an application and writes no column of it.
-/

namespace HcMap.Routes

open Sync (EventPushItem ApplicationPushItem Client Pull eventToDoc eventParticipantToDoc
  applicationConflictDoc loadRestraintSet)

-- ---------------------------------------------------------------------------
-- Documents
-- ---------------------------------------------------------------------------

/-- The session has the event in sight before and after, and finds another
document of the application. -/
structure SeesChange (db db' : Database) (q : Session) (a a' : Application) : Prop where
  before : appUserCanSeeEvent db q a.eventId
  after : appUserCanSeeEvent db' q a'.eventId
  changed : applicationConflictDoc db' q a' ≠ applicationConflictDoc db q a

structure Advances (db db' : Database) : Prop where
  events : ∀ e ∈ db.events, ∀ e' ∈ db'.events, e'.id = e.id →
    eventToDoc e' ≠ eventToDoc e → e.updatedAt < e'.updatedAt
  participants : ∀ ep ∈ db.participants, ∀ ep' ∈ db'.participants, ep'.id = ep.id →
    eventParticipantToDoc ep' ≠ eventParticipantToDoc ep → ep.updatedAt < ep'.updatedAt
  applications : ∀ a ∈ db.applications, ∀ a' ∈ db'.applications, a'.id = a.id →
    ∀ q, SeesChange db db' q a a' → a.updatedAt < a'.updatedAt

/-- A client with no checkpoint later than `t` that pulls until its pages are
empty holds every document that is new or changed. -/
structure Delivers (t : Time) (db db' : Database) (q : Session) (client : Client)
    (pulls : List Pull) : Prop where
  events : ∀ e' ∈ db'.events, eventVisible db' q e' →
    (∀ e ∈ db.events, e.id = e'.id → eventToDoc e' ≠ eventToDoc e) →
      (Run.run (Client.pull db' q) client pulls).events.docs e'.id = some (eventToDoc e')
  participants : ∀ ep' ∈ db'.participants, participantVisible db' q ep' →
    (∀ ep ∈ db.participants, ep.id = ep'.id →
      eventParticipantToDoc ep' ≠ eventParticipantToDoc ep) →
      (Run.run (Client.pull db' q) client pulls).participants.docs ep'.id =
        some (eventParticipantToDoc ep')
  applications : ∀ a' ∈ db'.applications, applicationVisible db' q a' →
    (∀ a ∈ db.applications, a.id = a'.id → SeesChange db db' q a a') →
      (Run.run (Client.pull db' q) client pulls).applications.docs a'.id =
        some (applicationConflictDoc db' q a')

section
variable {db db' : Database} {s q : Session} {clock t : Time} {clocks : Set Time}

-- ---------------------------------------------------------------------------
-- Stamped changes
-- ---------------------------------------------------------------------------

theorem Stamped.event_stamped (h : Stamped clocks db db') {e' : Event} (he' : e' ∈ db'.events)
    (hnew : ∀ e ∈ db.events, e.id = e'.id → eventToDoc e' ≠ eventToDoc e) :
    e'.updatedAt ∈ clocks := by
  by_contra hc
  exact hnew e' (h.events e' he' hc) rfl rfl

theorem Stamped.participant_stamped (h : Stamped clocks db db') {ep' : EventParticipant}
    (hep' : ep' ∈ db'.participants)
    (hnew : ∀ ep ∈ db.participants, ep.id = ep'.id →
      eventParticipantToDoc ep' ≠ eventParticipantToDoc ep) : ep'.updatedAt ∈ clocks := by
  by_contra hc
  exact hnew ep' (h.participants ep' hep' hc) rfl rfl

theorem Stamped.application_stamped (h : Stamped clocks db db') {a' : Application}
    (ha' : a' ∈ db'.applications)
    (hnew : ∀ a ∈ db.applications, a.id = a'.id → SeesChange db db' q a a') :
    a'.updatedAt ∈ clocks := by
  by_contra hc
  have ha := h.applications a' ha' hc
  have hsees := hnew a' ha rfl
  refine hsees.changed (congrArg (Sync.applicationToDoc a')
    (Sync.loadRestraintSet_congr fun rid => ?_))
  rw [Sync.mem_loadRestraintSet_of_canSee ha' hsees.after,
    Sync.mem_loadRestraintSet_of_canSee ha hsees.before, h.hasRestraint ha' hc rid]

theorem Stamped.advances (h : Stamped clocks db db') (hdb : StampedBy t db)
    (hclocks : ∀ c ∈ clocks, t < c) : Advances db db' where
  events e he e' he' hid hdoc := by
    have hstamp := h.event_stamped he' fun x hx hidx => by
      obtain rfl := Table.eq_of_key hx he (hidx.trans hid)
      exact hdoc
    exact lt_of_le_of_lt (hdb.events e he) (hclocks _ hstamp)
  participants ep hep ep' hep' hid hdoc := by
    have hstamp := h.participant_stamped hep' fun x hx hidx => by
      obtain rfl := Table.eq_of_key hx hep (hidx.trans hid)
      exact hdoc
    exact lt_of_le_of_lt (hdb.participants ep hep) (hclocks _ hstamp)
  applications a ha a' ha' hid q hsees := by
    have hstamp := h.application_stamped ha' fun x hx hidx => by
      obtain rfl := Table.eq_of_key hx ha (hidx.trans hid)
      exact hsees
    exact lt_of_le_of_lt (hdb.applications a ha) (hclocks _ hstamp)

theorem Stamped.delivers (h : Stamped clocks db db') (hclocks : ∀ c ∈ clocks, t < c)
    {client : Client} (hclient : client.Precedes t) {pulls : List Pull} {limit : Nat}
    (hlimit : 0 < limit)
    (hdone : (Run.run (Client.pull db' q) client pulls).UpToDate db' q limit) :
    Delivers t db db' q client pulls where
  events e' he' hv hnew := by
    have hahead : client.EventCurrent e' :=
      .inr (Sync.after_of_later hclient.events (hclocks _ (h.event_stamped he' hnew)))
    exact (hahead.run he' hv).holds hlimit hdone he' hv
  participants ep' hep' hv hnew := by
    have hahead : client.ParticipantCurrent ep' :=
      .inr (Sync.after_of_later hclient.participants (hclocks _ (h.participant_stamped hep' hnew)))
    exact (hahead.run hep' hv).holds hlimit hdone hep' hv
  applications a' ha' hv hnew := by
    have hahead : client.ApplicationCurrent db' q a' :=
      .inr (Sync.after_of_later hclient.applications (hclocks _ (h.application_stamped ha' hnew)))
    exact (hahead.run ha' hv).holds hlimit hdone ha' hv

-- ---------------------------------------------------------------------------
-- Links replaced alone
-- ---------------------------------------------------------------------------

/-- Whoever pushed the new set sees it in a row that keeps its stamp. -/
theorem ReplacesRestraints.not_advances {item : Time × ApplicationPushItem}
    (h : ReplacesRestraints db s item.2) :
    ∃ db', Sync.pushApplication s db item = .ok (db', []) ∧ ¬ Advances db db' := by
  obtain ⟨existing, hok, hno, hw, hdiff⟩ := h
  obtain ⟨clock, item⟩ := item
  refine ⟨_, by rw [Sync.pushApplication_update hok, if_pos hno], fun hadv => hdiff fun rid => ?_⟩
  set ids := item.newDocumentState.restraintTypeIds
  set db' := Sync.syncApplicationRestraints db s existing.id ids with hdb'
  have happs : db'.applications = db.applications := by simp [hdb']
  have hevents : db'.events = db.events := by
    obtain ⟨restraints, he⟩ := Sync.syncApplicationRestraints_eq db s existing.id ids
    rw [hdb', he]
  have hmem : existing ∈ db'.applications := happs ▸ hok.mem
  have hw' : applicationWritable db' s existing :=
    (childWritable_congr (.of_events hevents)).mpr hw
  have hset : Sync.HasRestraint db' existing.id rid ↔ rid ∈ ids :=
    Sync.hasRestraint_syncApplicationRestraints hok.mem rfl hw
      fun _ hid => Sync.restraintsAllowed_isSome hok.restraints hid
  by_contra hne
  refine lt_irrefl _ (hadv.applications existing hok.mem existing hmem rfl s
    ⟨canSee_of_childWritable hw, canSee_of_childWritable hw', fun hdoc => hne ?_⟩)
  have hload : loadRestraintSet db' s existing.id = loadRestraintSet db s existing.id :=
    congrArg Sync.ApplicationDoc.restraintTypeIds hdoc
  rw [← Sync.mem_loadRestraintSet_of_writable hok.mem hw, ← hload,
    Sync.mem_loadRestraintSet_of_writable hmem hw', hset]

end

-- ---------------------------------------------------------------------------
-- Every operation
-- ---------------------------------------------------------------------------

/-- The items of a push, each of which reads the clock, or another operation as
a whole advance what they change. -/
def Advancing (db : Database) (s : Session) (clock : Time) : Operation → Prop
  | .pushEvents items =>
    Batch.Along (Sync.pushEvent s)
      (fun db item => ∀ db' ds, Sync.pushEvent s db item = .ok (db', ds) → Advances db db') db items
  | .pushApplications items =>
    Batch.Along (Sync.pushApplication s)
      (fun db item => ∀ db' ds, Sync.pushApplication s db item = .ok (db', ds) → Advances db db')
      db items
  | operation => ∀ db', execute db s clock operation = .ok db' → Advances db db'

def Operation.Rises : Operation → Prop
  | .pushEvents items => items.Pairwise fun i j => i.1 < j.1
  | .pushApplications items => items.Pairwise fun i j => i.1 < j.1
  | _ => True

section
variable {db db' : Database} {s q : Session} {clock t : Time}

theorem along_advances {ι δ : Type}
    {item : Database → Time × ι → Except DbError (Database × List δ)}
    {ok : Database → Time × ι → Prop} {items : List (Time × ι)}
    (hitem : ∀ db i db' ds, ok db i → item db i = .ok (db', ds) → Stamped {i.1} db db')
    (hok : Batch.Along item ok db items) (hdb : StampedBy t db)
    (hclock : ∀ c ∈ items.map Prod.fst, t < c)
    (hrise : items.Pairwise fun i j => i.1 < j.1) :
    Batch.Along item (fun db i => ∀ db' ds, item db i = .ok (db', ds) → Advances db db')
      db items := by
  induction items generalizing db t with
  | nil => trivial
  | cons i items ih =>
    obtain ⟨hfirst, hrise⟩ := List.pairwise_cons.mp hrise
    have hi : t < i.1 := hclock i.1 (by simp)
    have hrest : ∀ c ∈ items.map Prod.fst, i.1 < c := by
      intro c hc
      obtain ⟨j, hj, rfl⟩ := List.mem_map.mp hc
      exact hfirst j hj
    refine ⟨fun db' ds h => ?_, fun db' ds h => ?_⟩
    · exact (hitem db i db' ds hok.1 h).advances hdb (by simpa using hi)
    · have hs := (hitem db i db' ds hok.1 h).toRowsStamped
      exact ih (hok.2 db' ds h) (hdb.stamped hs hi.le (by simp)) hrest hrise

theorem advancing_iff {operation : Operation} (hdb : StampedBy t db)
    (hclock : ∀ c ∈ operation.clocks clock, t < c) (hrise : operation.Rises) :
    Advancing db s clock operation ↔ TouchesRows db s operation := by
  cases operation with
  | pushEvents items =>
    have hok : Batch.Along (Sync.pushEvent s) (fun _ _ => True) db items :=
      Batch.along_of_forall fun _ _ => trivial
    exact iff_of_true
      (along_advances (fun _ _ _ _ _ h => pushEvent_stamped h) hok hdb hclock hrise) trivial
  | pushApplications items =>
    constructor
    · intro h
      refine h.mono fun db item hadv hrep => ?_
      obtain ⟨db', hpush, hno⟩ := hrep.not_advances
      exact hno (hadv db' [] hpush)
    · intro h
      exact along_advances (fun _ _ _ _ hno h => pushApplication_stamped h hno) h hdb hclock hrise
  | _ =>
    exact iff_of_true (fun db' hx => (execute_stamped hx trivial).advances hdb hclock) trivial

/-- Every operation advances what it changes exactly when no push replaces
restraint links alone, and then the changes reach whoever pulls. -/
theorem execute_advances {operation : Operation} (hdb : StampedBy t db)
    (hclock : ∀ c ∈ operation.clocks clock, t < c) (hrise : operation.Rises) :
    (Advancing db s clock operation ↔ TouchesRows db s operation) ∧
      (TouchesRows db s operation → ∀ db', execute db s clock operation = .ok db' →
        Advances db db' ∧
          ∀ (q : Session) (client : Client) (pulls : List Pull) (limit : Nat),
            client.Precedes t → 0 < limit →
              (Run.run (Client.pull db' q) client pulls).UpToDate db' q limit →
                Delivers t db db' q client pulls) := by
  refine ⟨advancing_iff hdb hclock hrise, fun hok db' hx => ?_⟩
  have hstamped := execute_stamped hx hok
  exact ⟨hstamped.advances hdb hclock,
    fun q client pulls limit hclient hlimit hdone =>
      hstamped.delivers hclock hclient hlimit hdone⟩

end

def newClient : Client := ⟨.empty, .empty, .empty⟩

theorem endApplication_advances :
    ∃ db', execute sample sampleOwner 50 (.endApplication 1) = .ok db' ∧ Advances sample db' ∧
      Delivers 20 sample db' sampleGuest newClient
        [.events 10, .applications 10, .participants 10] := by
  have hclock : ∀ c ∈ Operation.clocks 50 (.endApplication 1), 20 < c := by
    simp [Operation.clocks]
  have hends : ∃ db', execute sample sampleOwner 50 (.endApplication 1) = .ok db' ∧
      (Run.run (Client.pull db' sampleGuest) newClient
        [.events 10, .applications 10, .participants 10]).UpToDate db' sampleGuest 10 :=
    ⟨_, rfl, by decide +kernel, by decide +kernel, by decide +kernel⟩
  obtain ⟨db', hexecute, hdone⟩ := hends
  obtain ⟨hadvances, hdelivers⟩ :=
    (execute_advances stampedBy_sample hclock trivial).2 trivial db' hexecute
  exact ⟨db', hexecute, hadvances, hdelivers sampleGuest newClient _ 10
    ⟨nofun, nofun, nofun⟩ (by decide) hdone⟩

def restraintAdded : Operation :=
  .pushApplications [(50, ⟨some (Sync.applicationToDoc sampleApplication []),
    Sync.applicationToDoc sampleApplication [1]⟩)]

theorem restraintAdded_not_advanced :
    ∃ db', execute sample sampleOwner 50 restraintAdded = .ok db' ∧ ¬ Advances sample db' := by
  refine ⟨{ sample with restraints := ⟨[⟨1, 1, 100⟩], by decide⟩ }, by decide +kernel, fun h => ?_⟩
  have hsees : SeesChange sample { sample with restraints := ⟨[⟨1, 1, 100⟩], by decide⟩ }
      sampleOwner sampleApplication sampleApplication :=
    ⟨by decide, by decide, by decide +kernel⟩
  exact lt_irrefl _ (h.applications sampleApplication (by decide) sampleApplication (by decide)
    rfl sampleOwner hsees)

end HcMap.Routes
