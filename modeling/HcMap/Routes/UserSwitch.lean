import HcMap.Routes.Browser

/-!
# Users of one browser

While a user is logged in, the browser's collections hold what the server lets
that user see or what the user wrote, and nothing of anyone else waits to be
pushed. A login in which somebody else's collections are found breaks both, and
the pulls go on from a checkpoint that other rows were behind of.
-/

namespace HcMap.Routes

open Sync (EventDoc ApplicationDoc EventParticipantDoc SyncCheckpoint Delivery items eventToDoc
  eventParticipantToDoc applicationConflictDoc eventPosition applicationPosition
  participantPosition HasRestraint mem_loadRestraintSet_iff)

namespace Browser

-- ---------------------------------------------------------------------------
-- Collections of one user
-- ---------------------------------------------------------------------------

/-- While `userId` is logged in: no other user's documents, and once a pull
brings nothing more, every document the user may see. -/
structure Separated (br : Browser) (userId : Uuid) : Prop where
  events : br.events.Private br.db.events (eventView br.db userId) (·.deleted = false) userId
  applications : br.applications.Private br.db.applications (applicationView br.db userId)
    (·.deleted = false) userId
  participants : br.participants.Private br.db.participants (participantView br.db userId)
    (·.deleted = false) userId
  allEvents : ∀ s, br.session = some s → ∀ limit, 0 < limit →
    (Sync.pullEvents br.db s br.events.checkpoint limit).documents = [] →
      ∀ e ∈ br.db.events, ∀ d, eventView br.db userId e = some d → br.events.Holds userId e d
  allApplications : ∀ s, br.session = some s → ∀ limit, 0 < limit →
    (Sync.pullApplications br.db br.db s br.applications.checkpoint limit).documents = [] →
      ∀ a ∈ br.db.applications, ∀ d, applicationView br.db userId a = some d →
        br.applications.Holds userId a d
  allParticipants : ∀ s, br.session = some s → ∀ limit, 0 < limit →
    (Sync.pullEventParticipants br.db s br.participants.checkpoint limit).documents = [] →
      ∀ ep ∈ br.db.participants, ∀ d, participantView br.db userId ep = some d →
        br.participants.Holds userId ep d

structure Serves (br : Browser) (userId : Uuid) : Prop where
  events : br.events.Serves eventPosition br.db.events (eventView br.db userId)
    (·.deleted = false) userId
  applications : br.applications.Serves applicationPosition br.db.applications
    (applicationView br.db userId) (·.deleted = false) userId
  participants : br.participants.Serves participantPosition br.db.participants
    (participantView br.db userId) (·.deleted = false) userId

/-- The server's database becomes `db'`: nothing that is held goes out of the
user's sight, and nothing comes into it behind the checkpoints. -/
structure Keeps (br : Browser) (db' : Database) (userId : Uuid) : Prop where
  events : br.events.Keeps eventPosition br.db.events db'.events (eventView br.db userId)
    (eventView db' userId) (·.deleted = false) userId
  applications : br.applications.Keeps applicationPosition br.db.applications db'.applications
    (applicationView br.db userId) (applicationView db' userId) (·.deleted = false) userId
  participants : br.participants.Keeps participantPosition br.db.participants db'.participants
    (participantView br.db userId) (participantView db' userId) (·.deleted = false) userId

/-- Who logs in is the last user once more, or finds collections that fit; and
what others do keeps the last user's collections fit. -/
def Fit (br : Browser) : Move → Prop
  | .login userId => br.lastUser = some userId ∨ br.Serves userId
  | .request r => ∀ userId ∈ br.lastUser, br.Keeps (Routes.step br.db r) userId
  | _ => True

structure Precedes (br : Browser) : Prop where
  events : ∀ c ∈ br.events.checkpoint, c.updatedAt ≤ br.clock
  applications : ∀ c ∈ br.applications.checkpoint, c.updatedAt ≤ br.clock
  participants : ∀ c ∈ br.participants.checkpoint, c.updatedAt ≤ br.clock

structure Sound (br : Browser) : Prop where
  anchored : Anchored br.db
  stamped : StampedBy br.clock br.db
  precedes : br.Precedes
  last : ∀ userId ∈ br.user, br.lastUser = some userId
  serves : ∀ userId ∈ br.lastUser, br.Serves userId

end Browser

-- ---------------------------------------------------------------------------
-- Views
-- ---------------------------------------------------------------------------

section
variable {db db' : Database} {s : Session} {userId : Uuid} {clock : Time} {e : Event}
  {a : Application} {ep : EventParticipant} {k eid id : Uuid}

theorem eventView_eq (h : authenticate db userId 0 = .ok s) (e : Event) :
    eventView db userId e = if eventVisible db s e then some (eventToDoc e) else none := by
  rw [eventView, h]

theorem applicationView_eq (h : authenticate db userId 0 = .ok s) (a : Application) :
    applicationView db userId a =
      if applicationVisible db s a then some (applicationConflictDoc db s a) else none := by
  rw [applicationView, h]

theorem participantView_eq (h : authenticate db userId 0 = .ok s) (ep : EventParticipant) :
    participantView db userId ep =
      if participantVisible db s ep then some (eventParticipantToDoc ep) else none := by
  rw [participantView, h]

theorem authenticate_congr (h : db'.users = db.users) :
    authenticate db' userId 0 = authenticate db userId 0 := by
  unfold authenticate
  rw [h]

theorem eventView_congr (hs : authenticate db userId 0 = .ok s)
    (hs' : authenticate db' userId 0 = .ok s) (he : e ∈ db.events) (he' : e ∈ db'.events)
    (hsee : appUserCanSeeEvent db' s e.id ↔ appUserCanSeeEvent db s e.id) :
    eventView db' userId e = eventView db userId e := by
  have hvis : eventVisible db' s e ↔ eventVisible db s e :=
    ⟨fun hv => eventVisible_of_canSee he (hsee.mp (canSee_of_eventVisible he' hv)),
      fun hv => eventVisible_of_canSee he' (hsee.mpr (canSee_of_eventVisible he hv))⟩
  rw [eventView_eq hs, eventView_eq hs']
  simp only [hvis]

theorem applicationView_congr (hs : authenticate db userId 0 = .ok s)
    (hs' : authenticate db' userId 0 = .ok s) (ha : a ∈ db.applications)
    (ha' : a ∈ db'.applications)
    (hsee : appUserCanSeeEvent db' s a.eventId ↔ appUserCanSeeEvent db s a.eventId)
    (hlinks : ∀ rid, HasRestraint db' a.id rid ↔ HasRestraint db a.id rid) :
    applicationView db' userId a = applicationView db userId a := by
  have hvis : applicationVisible db' s a ↔ applicationVisible db s a := by
    rw [applicationVisible_iff, applicationVisible_iff, hsee]
  have hload : Sync.loadRestraintSet db' s a.id = Sync.loadRestraintSet db s a.id := by
    refine Sync.loadRestraintSet_congr fun rid => ?_
    rw [mem_loadRestraintSet_iff ha', mem_loadRestraintSet_iff ha, hsee, hlinks rid]
  rw [applicationView_eq hs, applicationView_eq hs', applicationConflictDoc,
    applicationConflictDoc, hload]
  simp only [hvis]

theorem participantView_congr (hs : authenticate db userId 0 = .ok s)
    (hs' : authenticate db' userId 0 = .ok s)
    (hsee : appUserCanSeeEvent db' s ep.eventId ↔ appUserCanSeeEvent db s ep.eventId) :
    participantView db' userId ep = participantView db userId ep := by
  rw [participantView_eq hs, participantView_eq hs']
  simp only [participantVisible_iff, hsee]

theorem seen_events (h : RowsKept s.personId db db') (hs : authenticate db userId 0 = .ok s)
    (hs' : authenticate db' userId 0 = .ok s)
    (hseen : LocalStore.Seen db.events (eventView db userId) k) :
    LocalStore.Seen db'.events (eventView db' userId) k := by
  obtain ⟨e, he, rfl, hsome⟩ := hseen
  obtain ⟨d, hd⟩ := Option.isSome_iff_exists.mp hsome
  obtain ⟨hv, -⟩ := LocalStore.visible_of_view (eventView_eq hs) hd
  obtain ⟨e', he', hid, hby⟩ := h.events e he
  exact ⟨e', he', hid, by rw [eventView_eq hs', if_pos (h.eventVisible hid hby hv)]; rfl⟩

theorem seen_applications (h : RowsKept s.personId db db')
    (hs : authenticate db userId 0 = .ok s) (hs' : authenticate db' userId 0 = .ok s)
    (hseen : LocalStore.Seen db.applications (applicationView db userId) k) :
    LocalStore.Seen db'.applications (applicationView db' userId) k := by
  obtain ⟨a, ha, rfl, hsome⟩ := hseen
  obtain ⟨d, hd⟩ := Option.isSome_iff_exists.mp hsome
  obtain ⟨hv, -⟩ := LocalStore.visible_of_view (applicationView_eq hs) hd
  obtain ⟨a', ha', hid, he, hby⟩ := h.applications a ha
  refine ⟨a', ha', hid, ?_⟩
  rw [applicationView_eq hs', if_pos (h.applicationVisible he hby hv)]
  rfl

theorem seen_participants (h : RowsKept s.personId db db')
    (hs : authenticate db userId 0 = .ok s) (hs' : authenticate db' userId 0 = .ok s)
    (hseen : LocalStore.Seen db.participants (participantView db userId) k) :
    LocalStore.Seen db'.participants (participantView db' userId) k := by
  obtain ⟨ep, hep, rfl, hsome⟩ := hseen
  obtain ⟨d, hd⟩ := Option.isSome_iff_exists.mp hsome
  obtain ⟨hv, -⟩ := LocalStore.visible_of_view (participantView_eq hs) hd
  obtain ⟨ep', hep', hid, he, -⟩ := h.participants ep hep
  refine ⟨ep', hep', hid, ?_⟩
  rw [participantView_eq hs', if_pos (participantVisible_iff.mpr ?_)]
  · rfl
  · rw [he]
    exact h.canSee (participantVisible_iff.mp hv)

end

-- ---------------------------------------------------------------------------
-- Pulls
-- ---------------------------------------------------------------------------

namespace Browser

section
variable {br : Browser} {db' : Database} {s : Session} {userId : Uuid} {b : Delivery}
  {answered : Bool} {p : Sync.Pull} {t : Time} {clocks : Set Time}

theorem session_eq_some : br.session = some s ↔
    ∃ userId, br.user = some userId ∧ authenticate br.db userId 0 = .ok s := by
  unfold session
  rw [Option.bind_eq_some_iff]
  refine exists_congr fun userId => and_congr_right fun _ => ?_
  cases authenticate br.db userId 0 with
  | ok s' => simp [Except.toOption]
  | error e => simp [Except.toOption]

theorem absorb_eq {ρ δ : Type} [Keyed ρ Uuid] [Keyed δ Uuid] {id : δ → Uuid}
    {updatedAt : δ → Time} {st : Collection δ} {pos : ρ → SyncCheckpoint} {render : ρ → δ}
    {rows : List ρ} (hid : ∀ r, id (render r) = key r)
    (hpos : ∀ r, pos r = ⟨updatedAt (render r), id (render r)⟩) :
    absorb id updatedAt st ⟨rows.map render, Cursor.advance pos st.checkpoint rows⟩ =
      st.absorb (Cursor.advance pos st.checkpoint rows) (rows.map render) := by
  have hread : Sync.receive id updatedAt st.feed
      ⟨rows.map render, Cursor.advance pos st.checkpoint rows⟩ = st.feed.read pos render rows :=
    Sync.receive_eq_read hid hpos
  rw [absorb, hread]
  rfl

theorem pull_events {limit : Nat} : (br.pull s (.events limit)).events =
    br.events.absorb
      (Cursor.advance eventPosition br.events.checkpoint
        (Cursor.page eventPosition br.db.events (eventVisible br.db s) br.events.checkpoint limit))
      ((Cursor.page eventPosition br.db.events (eventVisible br.db s) br.events.checkpoint
        limit).map eventToDoc) :=
  absorb_eq (fun _ => rfl) fun _ => rfl

theorem pull_applications {limit : Nat} : (br.pull s (.applications limit)).applications =
    br.applications.absorb
      (Cursor.advance applicationPosition br.applications.checkpoint
        (Cursor.page applicationPosition br.db.applications (applicationVisible br.db s)
          br.applications.checkpoint limit))
      ((Cursor.page applicationPosition br.db.applications (applicationVisible br.db s)
        br.applications.checkpoint limit).map (applicationConflictDoc br.db s)) :=
  absorb_eq (fun _ => rfl) fun _ => rfl

theorem pull_participants {limit : Nat} : (br.pull s (.participants limit)).participants =
    br.participants.absorb
      (Cursor.advance participantPosition br.participants.checkpoint
        (Cursor.page participantPosition br.db.participants (participantVisible br.db s)
          br.participants.checkpoint limit))
      ((Cursor.page participantPosition br.db.participants (participantVisible br.db s)
        br.participants.checkpoint limit).map eventParticipantToDoc) :=
  absorb_eq (fun _ => rfl) fun _ => rfl

theorem Serves.pull (h : br.Serves userId) (hs : authenticate br.db userId 0 = .ok s) :
    (br.pull s p).Serves userId := by
  cases p with
  | events limit =>
    refine ⟨?_, h.applications, h.participants⟩
    rw [pull_events]
    exact h.events.absorb limit (fun _ ha _ hb => Sync.eventPosition_inj ha hb) (fun _ => rfl)
      (eventView_eq hs)
  | applications limit =>
    refine ⟨h.events, ?_, h.participants⟩
    rw [pull_applications]
    exact h.applications.absorb limit (fun _ ha _ hb => Sync.applicationPosition_inj ha hb)
      (fun _ => rfl) (applicationView_eq hs)
  | participants limit =>
    refine ⟨h.events, h.applications, ?_⟩
    rw [pull_participants]
    exact h.participants.absorb limit (fun _ ha _ hb => Sync.participantPosition_inj ha hb)
      (fun _ => rfl) (participantView_eq hs)

theorem Precedes.pull (h : br.Precedes) (hstamped : StampedBy br.clock br.db) :
    (br.pull s p).Precedes := by
  cases p with
  | events limit =>
    refine ⟨?_, h.applications, h.participants⟩
    rw [pull_events]
    exact Sync.advance_precedes h.events fun e hm =>
      hstamped.events e (Cursor.mem_of_mem_page hm).1
  | applications limit =>
    refine ⟨h.events, ?_, h.participants⟩
    rw [pull_applications]
    exact Sync.advance_precedes h.applications fun a hm =>
      hstamped.applications a (Cursor.mem_of_mem_page hm).1
  | participants limit =>
    refine ⟨h.events, h.applications, ?_⟩
    rw [pull_participants]
    exact Sync.advance_precedes h.participants fun ep hm =>
      hstamped.participants ep (Cursor.mem_of_mem_page hm).1

theorem Serves.separated (h : br.Serves userId) (hu : br.user = some userId) :
    br.Separated userId := by
  have hauth : ∀ s, br.session = some s → authenticate br.db userId 0 = .ok s := fun s hs => by
    obtain ⟨userId', hu', hauth⟩ := session_eq_some.mp hs
    obtain rfl := Option.some.inj (hu.symm.trans hu')
    exact hauth
  refine ⟨h.events.toPrivate, h.applications.toPrivate, h.participants.toPrivate,
    fun s hs limit hlimit hempty => ?_, fun s hs limit hlimit hempty => ?_,
    fun s hs limit hlimit hempty => ?_⟩
  · exact h.events.complete (eventView_eq (hauth s hs)) hlimit (List.map_eq_nil_iff.mp hempty)
  · exact h.applications.complete (applicationView_eq (hauth s hs)) hlimit
      (List.map_eq_nil_iff.mp hempty)
  · exact h.participants.complete (participantView_eq (hauth s hs)) hlimit
      (List.map_eq_nil_iff.mp hempty)

-- ---------------------------------------------------------------------------
-- Changes of the server
-- ---------------------------------------------------------------------------

/-- Rows that change are stamped after the checkpoints. -/
theorem Serves.change (h : br.Serves userId) (hkeeps : br.Keeps db' userId)
    (hstamped : RowsStamped clocks br.db db') (hclock : ∀ c ∈ clocks, br.clock < c)
    (hprecedes : br.Precedes) (t : Time) : { br with db := db', clock := t }.Serves userId where
  events := h.events.change hkeeps.events fun e he hnew => by
    have hc : e.updatedAt ∈ clocks := by
      by_contra hc
      exact hnew (hstamped.events e he hc)
    exact Sync.after_of_later hprecedes.events (hclock _ hc)
  applications := h.applications.change hkeeps.applications fun a ha hnew => by
    have hc : a.updatedAt ∈ clocks := by
      by_contra hc
      exact hnew (hstamped.applications a ha hc)
    exact Sync.after_of_later hprecedes.applications (hclock _ hc)
  participants := h.participants.change hkeeps.participants fun ep hep hnew => by
    have hc : ep.updatedAt ∈ clocks := by
      by_contra hc
      exact hnew (hstamped.participants ep hep hc)
    exact Sync.after_of_later hprecedes.participants (hclock _ hc)

theorem keeps_of_sameSight (hanchored : Anchored br.db)
    (hs : authenticate br.db userId 0 = .ok s) (hs' : authenticate db' userId 0 = .ok s)
    (hkept : RowsKept s.personId br.db db')
    (hsee : ∀ e ∈ br.db.events,
      (appUserCanSeeEvent db' s e.id ↔ appUserCanSeeEvent br.db s e.id))
    (hlinks : ∀ a ∈ br.db.applications, a ∈ db'.applications →
      (∀ rid, HasRestraint db' a.id rid ↔ HasRestraint br.db a.id rid) ∨
        ∀ d, br.applications.Current applicationPosition userId a d) : br.Keeps db' userId := by
  have hevent : ∀ eid, (br.db.events.find? eid).isSome →
      (appUserCanSeeEvent db' s eid ↔ appUserCanSeeEvent br.db s eid) := fun eid heid => by
    obtain ⟨e, he, rfl⟩ := Table.find?_isSome.mp heid
    exact hsee e he
  refine ⟨⟨fun k d _ _ _ hseen => ?_, fun e he' he d hd hne => ?_⟩,
    ⟨fun k d _ _ _ hseen => ?_, fun a ha' ha d hd hne => ?_⟩,
    ⟨fun k d _ _ _ hseen => ?_, fun ep hep' hep d hd hne => ?_⟩⟩
  · exact seen_events hkept hs hs' hseen
  · have hview := eventView_congr hs hs' he he' (hsee e he)
    exact absurd (hview ▸ hd) hne
  · exact seen_applications hkept hs hs' hseen
  · rcases hlinks a ha ha' with hsame | hcurrent
    · have hview := applicationView_congr hs hs' ha ha'
        (hevent _ (hanchored.applications a ha)) hsame
      exact absurd (hview ▸ hd) hne
    · exact hcurrent d
  · exact seen_participants hkept hs hs' hseen
  · have hview := participantView_congr hs hs' (hevent _ (hanchored.participants ep hep))
    exact absurd (hview ▸ hd) hne

-- ---------------------------------------------------------------------------
-- Pushes
-- ---------------------------------------------------------------------------

structure Pushed (s : Session) (userId : Uuid) (clocks : Set Time) (db db' : Database) : Prop where
  auth : authenticate db' userId 0 = .ok s
  kept : RowsKept s.personId db db'
  stamped : RowsStamped clocks db db'

theorem pushed_of_execute {db : Database} {s' : Session} {clock : Time} {operation : Operation}
    (hs : authenticate db userId 0 = .ok s) (h : execute db s' clock operation = .ok db')
    (hop : ∀ tables, operation ≠ .writeReference tables) (hno : ¬ RemovesRow db s' operation) :
    Pushed s userId (operation.clocks clock) db db' where
  auth := by
    rcases execute_writes h with ⟨tables, rfl, -⟩ | hwrites
    · exact absurd rfl (hop tables)
    · rw [authenticate_congr hwrites.users, hs]
  kept := by
    obtain ⟨user, huser, -, -, rfl⟩ := authenticate_ok hs
    exact execute_kept h hno ⟨user, huser, rfl⟩
  stamped := execute_rowsStamped h

theorem waits_of_item {δ : Type} [Keyed δ Uuid] {st : Collection δ}
    {item : Time × Sync.PushItem δ} (h : item ∈ items st.replica b) :
    key item.2.newDocumentState ∈ st.replica.queue := by
  obtain ⟨w, hw, rfl⟩ := Sync.mem_items.mp h
  obtain ⟨k, hk, hd, -⟩ := Replica.mem_batch.mp hw
  rw [st.keyed k w.2 hd]
  exact List.mem_of_mem_take hk

/-- A push gives no access to an event that was there, and replaces restraint
links only of applications that waited to be pushed. -/
theorem keeps_pushEvents {ds : List EventDoc} (hanchored : Anchored br.db)
    (hstampedBy : StampedBy br.clock br.db) (hs : authenticate br.db userId 0 = .ok s)
    (hpushed : Pushed s userId clocks br.db db') (hstamped : Stamped clocks br.db db')
    (hclock : ∀ c ∈ clocks, br.clock < c)
    (h : Sync.pushEvents { s with now := b.now } br.db (items br.events.replica b) =
      .ok (db', ds)) : br.Keeps db' userId := by
  refine keeps_of_sameSight hanchored hs hpushed.auth hpushed.kept (fun e he => ?_)
    fun a ha ha' => .inl ?_
  · have hsome : (br.db.events.find? e.id).isSome := Table.find?_isSome.mpr ⟨e, he, rfl⟩
    have hsame := Sync.pushEvents_canSee h hsome
    exact hsame
  · have hold : a.updatedAt ∉ clocks := fun hc =>
      absurd (hstampedBy.applications a ha) (hclock _ hc).not_ge
    exact hstamped.hasRestraint ha' hold

theorem keeps_pushApplications {ds : List ApplicationDoc} (hanchored : Anchored br.db)
    (hserves : br.Serves userId) (hs : authenticate br.db userId 0 = .ok s)
    (hpushed : Pushed s userId clocks br.db db')
    (h : Sync.pushApplications { s with now := b.now } br.db (items br.applications.replica b) =
      .ok (db', ds)) : br.Keeps db' userId := by
  obtain ⟨hacc, -⟩ := Sync.pushApplications_sameAccess h
  refine keeps_of_sameSight hanchored hs hpushed.auth hpushed.kept (fun e _ => hacc.canSee e.id)
    fun a ha ha' => ?_
  by_cases hid : ∀ item ∈ items br.applications.replica b, a.id ≠ item.2.newDocumentState.id
  · exact .inl (Sync.pushApplications_frame h hid)
  · push Not at hid
    obtain ⟨item, hitem, hid⟩ := hid
    have hwaits : key a ∈ br.applications.replica.queue := by
      rw [key_application, hid]
      exact waits_of_item hitem
    exact .inr fun d => .inl (hserves.applications.holds hwaits d)

theorem distinctIds_items {δ : Type} [Keyed δ Uuid] (st : Collection δ) (b : Delivery) :
    Sync.DistinctIds key (items st.replica b) :=
  Sync.items_pairwise (Replica.batch_pairwise b.size st.nodup fun k _ d hd => st.keyed k d hd)

/-- A conflict is what the user pulls of the row, or stands for a row out of
sight. -/
theorem eventConflicts (hs : authenticate db' userId 0 = .ok s) {db : Database}
    {conflicts : List EventDoc}
    (h : Sync.pushEvents { s with now := b.now } db (items br.events.replica b) =
      .ok (db', conflicts)) :
    ∀ c ∈ conflicts, (∃ e ∈ db'.events, key e = key c ∧ eventView db' userId e = some c) ∨
      (¬ c.deleted = false ∧ ∀ e ∈ db'.events, key e = key c → eventView db' userId e = none) := by
  intro c hc
  obtain ⟨item, -, rfl⟩ := Sync.pushEvents_master (distinctIds_items br.events b) h c hc
  unfold Sync.eventMaster
  split
  · rename_i e hget
    obtain ⟨hfind, hv⟩ := Database.getEvent_eq_some.mp hget
    have hv : eventVisible db' s e := hv
    exact .inl ⟨e, Table.mem_of_find? hfind, rfl, by rw [eventView_eq hs, if_pos hv]⟩
  · rename_i hget
    refine .inr ⟨by simp [Sync.syntheticEventTombstone], fun e he hkey => ?_⟩
    rw [eventView_eq hs, if_neg]
    intro hv
    have hfound : db'.getEvent { s with now := b.now } item.2.newDocumentState.id = some e :=
      Database.getEvent_eq_some.mpr ⟨Table.find?_eq_some.mpr ⟨he, hkey⟩, hv⟩
    simp [hget] at hfound

theorem applicationConflicts (hs : authenticate db' userId 0 = .ok s) {db : Database}
    {conflicts : List ApplicationDoc}
    (h : Sync.pushApplications { s with now := b.now } db (items br.applications.replica b) =
      .ok (db', conflicts)) :
    ∀ c ∈ conflicts,
      (∃ a ∈ db'.applications, key a = key c ∧ applicationView db' userId a = some c) ∨
      (¬ c.deleted = false ∧
        ∀ a ∈ db'.applications, key a = key c → applicationView db' userId a = none) := by
  intro c hc
  obtain ⟨item, -, rfl⟩ :=
    Sync.pushApplications_master (distinctIds_items br.applications b) h c hc
  unfold Sync.applicationMaster
  split
  · rename_i a hget
    obtain ⟨hfind, hv⟩ := Database.getApplication_eq_some.mp hget
    have hv : applicationVisible db' s a := hv
    refine .inl ⟨a, Table.mem_of_find? hfind, rfl, ?_⟩
    rw [applicationView_eq hs, if_pos hv]
    rfl
  · rename_i hget
    refine .inr ⟨by simp [Sync.syntheticApplicationTombstone], fun a ha hkey => ?_⟩
    rw [applicationView_eq hs, if_neg]
    intro hv
    have hfound : db'.getApplication { s with now := b.now } item.2.newDocumentState.id = some a :=
      Database.getApplication_eq_some.mpr ⟨Table.find?_eq_some.mpr ⟨ha, hkey⟩, hv⟩
    simp [hget] at hfound

-- ---------------------------------------------------------------------------
-- One step
-- ---------------------------------------------------------------------------

theorem Sound.change (h : br.Sound) (hkeeps : ∀ userId ∈ br.lastUser, br.Keeps db' userId)
    (hanchored : Anchored db') (hstamped : RowsStamped clocks br.db db')
    (hclock : ∀ c ∈ clocks, br.clock < c) (ht : br.clock ≤ t) (hclocks : ∀ c ∈ clocks, c ≤ t) :
    { br with db := db', clock := t }.Sound where
  anchored := hanchored
  stamped := h.stamped.stamped hstamped ht hclocks
  precedes :=
    ⟨fun c hc => (h.precedes.events c hc).trans ht,
      fun c hc => (h.precedes.applications c hc).trans ht,
      fun c hc => (h.precedes.participants c hc).trans ht⟩
  last := h.last
  serves userId hu :=
    (h.serves userId hu).change (hkeeps userId hu) hstamped hclock h.precedes t

theorem Sound.withEvents (h : br.Sound) {st : Collection EventDoc}
    (hcheckpoint : st.checkpoint = br.events.checkpoint)
    (hserves : ∀ userId ∈ br.lastUser, st.Serves eventPosition br.db.events
      (eventView br.db userId) (·.deleted = false) userId) : { br with events := st }.Sound where
  anchored := h.anchored
  stamped := h.stamped
  precedes := ⟨hcheckpoint ▸ h.precedes.events, h.precedes.applications, h.precedes.participants⟩
  last := h.last
  serves userId hu :=
    ⟨hserves userId hu, (h.serves userId hu).applications, (h.serves userId hu).participants⟩

theorem Sound.withApplications (h : br.Sound) {st : Collection ApplicationDoc}
    (hcheckpoint : st.checkpoint = br.applications.checkpoint)
    (hserves : ∀ userId ∈ br.lastUser, st.Serves applicationPosition br.db.applications
      (applicationView br.db userId) (·.deleted = false) userId) :
    { br with applications := st }.Sound where
  anchored := h.anchored
  stamped := h.stamped
  precedes := ⟨h.precedes.events, hcheckpoint ▸ h.precedes.applications, h.precedes.participants⟩
  last := h.last
  serves userId hu :=
    ⟨(h.serves userId hu).events, hserves userId hu, (h.serves userId hu).participants⟩

/-- What was pushed is stamped after the checkpoints, or taken over as it is
answered. -/
theorem Sound.pushEvents (h : br.Sound) (hlast : br.lastUser = some userId)
    (hs : authenticate br.db userId 0 = .ok s) (htime : br.OnTime (.pushEvents b answered)) :
    (br.pushEvents s b answered).Sound := by
  unfold Browser.pushEvents
  split
  · rename_i db' conflicts hpush
    have hx : execute br.db { s with now := b.now } br.clock
        (.pushEvents (items br.events.replica b)) = .ok db' := pushed_ok.mpr ⟨_, hpush⟩
    have hpushed := pushed_of_execute hs hx (fun _ hop => nomatch hop) id
    have hclock : ∀ c ∈ (Operation.pushEvents (items br.events.replica b)).clocks br.clock,
        br.clock < c := fun c hc => by
      obtain ⟨item, hitem, rfl⟩ := List.mem_map.mp hc
      exact htime item hitem
    have hkeeps : ∀ u ∈ br.lastUser, br.Keeps db' u := fun u hu => by
      obtain rfl := Option.some.inj (hlast.symm.trans hu)
      exact keeps_pushEvents h.anchored h.stamped hs hpushed (execute_stamped hx trivial) hclock
        hpush
    have hchange := h.change hkeeps (h.anchored.effect (execute_cases hx)) hpushed.stamped hclock
      (le_max_left ..) fun c hc => (le_lastReading hc).trans (le_max_right ..)
    cases answered with
    | false => exact hchange
    | true =>
      refine hchange.withEvents rfl fun u hu => ?_
      obtain rfl := Option.some.inj (hlast.symm.trans hu)
      exact (hchange.serves _ hlast).events.settle b.size (eventConflicts hpushed.auth hpush)
  · exact h

theorem Sound.pushApplications (h : br.Sound) (hlast : br.lastUser = some userId)
    (hs : authenticate br.db userId 0 = .ok s)
    (htime : br.OnTime (.pushApplications b answered)) :
    (br.pushApplications s b answered).Sound := by
  unfold Browser.pushApplications
  split
  · rename_i db' conflicts hpush
    have hx : execute br.db { s with now := b.now } br.clock
        (.pushApplications (items br.applications.replica b)) = .ok db' :=
      pushed_ok.mpr ⟨_, hpush⟩
    have hpushed := pushed_of_execute hs hx (fun _ hop => nomatch hop) id
    have hclock : ∀ c ∈ (Operation.pushApplications
        (items br.applications.replica b)).clocks br.clock, br.clock < c := fun c hc => by
      obtain ⟨item, hitem, rfl⟩ := List.mem_map.mp hc
      exact htime item hitem
    have hkeeps : ∀ u ∈ br.lastUser, br.Keeps db' u := fun u hu => by
      obtain rfl := Option.some.inj (hlast.symm.trans hu)
      exact keeps_pushApplications h.anchored (h.serves _ hlast) hs hpushed hpush
    have hchange := h.change hkeeps (h.anchored.effect (execute_cases hx)) hpushed.stamped hclock
      (le_max_left ..) fun c hc => (le_lastReading hc).trans (le_max_right ..)
    cases answered with
    | false => exact hchange
    | true =>
      refine hchange.withApplications rfl fun u hu => ?_
      obtain rfl := Option.some.inj (hlast.symm.trans hu)
      exact (hchange.serves _ hlast).applications.settle b.size
        (applicationConflicts hpushed.auth hpush)
  · exact h

theorem Sound.pull (h : br.Sound) (hlast : br.lastUser = some userId)
    (hs : authenticate br.db userId 0 = .ok s) : (br.pull s p).Sound := by
  have hprecedes := h.precedes.pull (s := s) (p := p) h.stamped
  have hserves : ∀ u ∈ br.lastUser, (br.pull s p).Serves u := fun u hu => by
    obtain rfl := Option.some.inj (hlast.symm.trans hu)
    exact (h.serves _ hlast).pull hs
  cases p with
  | events | applications | participants =>
    exact ⟨h.anchored, h.stamped, hprecedes, h.last, hserves⟩

theorem Sound.online {act : Session → Browser} (h : br.Sound)
    (hact : ∀ s userId, br.lastUser = some userId → authenticate br.db userId 0 = .ok s →
      (act s).Sound) : (br.online act).Sound := by
  unfold Browser.online
  split
  · rename_i s hs
    obtain ⟨userId, hu, hauth⟩ := session_eq_some.mp hs
    exact hact s userId (h.last userId hu) hauth
  · exact h

theorem Sound.step {move : Move} (h : br.Sound) (htime : br.OnTime move) (hfit : br.Fit move) :
    (br.step move).Sound := by
  cases move with
  | request r =>
    have hrows : RowsStamped (r.operation.clocks r.clock) br.db (Routes.step br.db r) ∧
        Anchored (Routes.step br.db r) := by
      rcases step_cases br.db r with he | ⟨s, db', hs, hx, he⟩
      · rw [he]
        exact ⟨.refl _ br.db, h.anchored⟩
      · rw [he]
        exact ⟨execute_rowsStamped hx, h.anchored.effect (execute_cases hx)⟩
    exact h.change hfit hrows.2 hrows.1 htime (le_max_left ..) fun c hc =>
      (le_lastReading hc).trans (le_max_right ..)
  | login userId =>
    show (br.useLogin userId).Sound
    unfold useLogin
    split
    · refine ⟨h.anchored, h.stamped, ⟨h.precedes.events, h.precedes.applications,
        h.precedes.participants⟩, fun u hu => hu, fun u hu => ?_⟩
      obtain rfl := Option.some.inj hu
      have hserves : br.Serves userId := hfit.elim (h.serves userId) id
      exact ⟨hserves.events, hserves.applications, hserves.participants⟩
    · exact h
  | logout answered | forceLogout answered =>
    cases answered with
    | false => exact h
    | true =>
      exact ⟨h.anchored, h.stamped, ⟨h.precedes.events, h.precedes.applications,
        h.precedes.participants⟩, fun u hu => (nomatch hu), fun u hu =>
          ⟨(h.serves u hu).events, (h.serves u hu).applications, (h.serves u hu).participants⟩⟩
  | writeEvent d =>
    show (br.writeEvent d).Sound
    unfold writeEvent
    split
    · rename_i userId hu
      refine h.withEvents rfl fun u hlast => ?_
      obtain rfl := Option.some.inj ((h.last userId hu).symm.trans hlast)
      exact (h.serves _ hlast).events.write d
    · exact h
  | writeApplication d =>
    show (br.writeApplication d).Sound
    unfold writeApplication
    split
    · rename_i userId hu
      refine h.withApplications rfl fun u hlast => ?_
      obtain rfl := Option.some.inj ((h.last userId hu).symm.trans hlast)
      exact (h.serves _ hlast).applications.write d
    · exact h
  | pull p => exact h.online fun s userId hlast hs => h.pull hlast hs
  | pushEvents b answered => exact h.online fun s userId hlast hs => h.pushEvents hlast hs htime
  | pushApplications b answered =>
    exact h.online fun s userId hlast hs => h.pushApplications hlast hs htime

-- ---------------------------------------------------------------------------
-- Every run
-- ---------------------------------------------------------------------------

theorem sound_start {db : Database} (hanchored : Anchored db) (hstamped : StampedBy t db) :
    (start db t).Sound where
  anchored := hanchored
  stamped := hstamped
  precedes := ⟨fun _ hc => (nomatch hc), fun _ hc => (nomatch hc), fun _ hc => (nomatch hc)⟩
  last _ hu := nomatch hu
  serves _ hu := nomatch hu

/-- Where whoever logs in finds their own collections or such that fit them,
and others keep the rows of the user in sight, no user meets another's data. -/
theorem always_separated {db : Database} (hanchored : Anchored db) (hstamped : StampedBy t db)
    {moves : List Move} (htime : Run.Along step OnTime (start db t) moves)
    (hfit : Run.Along step Fit (start db t) moves) :
    Run.Always step (fun br => ∀ userId ∈ br.user, br.Separated userId) (start db t) moves :=
  (htime.and hfit).always (sound_start hanchored hstamped)
    (fun _ _ h hok => h.step hok.1 hok.2)
    fun _ h userId hu => (h.serves userId (h.last userId hu)).separated hu

def sampleOffline : EventDoc where
  id := 9
  startedAt := 45
  lat := .zero
  lon := .zero
  createdAt := 45
  updatedAt := 45

def pullAll : List Move :=
  [.pull (.events 100), .pull (.applications 100), .pull (.participants 100)]

def handedOverEmpty : List Move :=
  [.request ⟨3, 30, 30, .createEvent sampleCreate⟩, .login 2, .logout true, .login 3,
    .request ⟨2, 40, 40, .createEvent sampleCreate⟩] ++ pullAll ++
  [.writeEvent sampleOffline, .forceLogout true, .login 3,
    .pushEvents ⟨50, 60, fun _ => 60⟩ true] ++ pullAll

theorem handedOverEmpty_separated :
    Run.Always step (fun br => ∀ userId ∈ br.user, br.Separated userId) (start sampleUsers 20)
      handedOverEmpty := by
  have htime : Run.Along step OnTime (start sampleUsers 20) handedOverEmpty := by
    refine ⟨by rintro _ rfl; decide, trivial, trivial, trivial, by rintro _ rfl; decide, trivial,
      trivial, trivial, trivial, trivial, trivial, ?_, trivial, trivial, trivial, trivial⟩
    intro item hitem
    obtain ⟨w, -, rfl⟩ := Sync.mem_items.mp hitem
    show (_ : Nat) < 60
    decide +kernel
  have hfit : Run.Along step Fit (start sampleUsers 20) handedOverEmpty := by
    refine ⟨fun _ hu => (nomatch hu),
      .inr ⟨LocalStore.serves_empty, LocalStore.serves_empty, LocalStore.serves_empty⟩, trivial,
      .inr ⟨LocalStore.serves_empty, LocalStore.serves_empty, LocalStore.serves_empty⟩, ?_, trivial,
      trivial, trivial, trivial, trivial, .inl rfl, trivial, trivial, trivial, trivial, trivial⟩
    rintro _ ⟨⟩
    refine keeps_of_sameSight ⟨by decide +kernel, by decide +kernel⟩ rfl rfl
      ⟨by decide +kernel, by decide +kernel, by decide +kernel⟩ (by decide +kernel) fun a ha => ?_
    exact absurd ha (List.not_mem_nil)
  exact always_separated ⟨by decide, by decide⟩ ⟨by decide, by decide, by decide⟩ htime hfit

/-- 2 pulls, writes an event that is not pushed, and leaves for 3, who pulls
until nothing more comes. -/
def handedOver (leave : Move) : List Move :=
  [.request ⟨3, 30, 30, .createEvent sampleCreate⟩, .login 2,
    .request ⟨2, 40, 40, .createEvent sampleCreate⟩] ++ pullAll ++
  [.writeEvent sampleOffline, leave, .login 3] ++ pullAll

/-- 3 finds 2's event, has 2's unpushed one pushed under their own name, and does
not get their own, which lay behind 2's checkpoint. -/
theorem handedOver_mixed :
    let br := Run.run step (start sampleUsers 20) (handedOver (.logout true))
    br.user = some 3 ∧
    (∃ d, br.events.replica.docs 2 = some d ∧ d.deleted = false ∧ 3 ∉ br.events.authors 2 ∧
      ¬ LocalStore.Seen br.db.events (eventView br.db 3) 2) ∧
    (9 ∈ br.events.replica.queue ∧ br.events.authors 9 = [2] ∧
      ∃ e ∈ (br.step (.pushEvents ⟨50, 60, fun _ => 60⟩ true)).db.events,
        e.id = 9 ∧ e.createdBy = some 3) ∧
    ((Sync.pullEvents br.db sampleGuest br.events.checkpoint 100).documents = [] ∧
      ∃ e ∈ br.db.events, (eventView br.db 3 e).isSome ∧ br.events.replica.docs e.id = none) ∧
    ¬ Run.Always step (fun br => ∀ userId ∈ br.user, br.Separated userId) (start sampleUsers 20)
      (handedOver (.logout true)) ∧
    ¬ Run.Always step (fun br => ∀ userId ∈ br.user, br.Separated userId) (start sampleUsers 20)
      (handedOver (.forceLogout true)) := by
  refine ⟨by decide +kernel, ⟨_, rfl, by decide +kernel, by decide +kernel, by decide +kernel⟩,
    ⟨by decide +kernel, by decide +kernel, by decide +kernel⟩,
    ⟨by decide +kernel, by decide +kernel⟩, fun h => ?_, fun h => ?_⟩
  · have hown := (h.last 3 (by decide +kernel)).events.own 9 (by decide +kernel) 2
      (by decide +kernel)
    exact absurd hown (by decide)
  · have hown := (h.last 3 (by decide +kernel)).events.own 9 (by decide +kernel) 2
      (by decide +kernel)
    exact absurd hown (by decide)

end

end Browser

end HcMap.Routes
