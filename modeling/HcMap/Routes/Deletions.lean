import HcMap.Routes.Stamps
import HcMap.Sync.Client

/-!
# Deletions

A soft delete, a cascade and a merge leave the row, with a new stamp and
`is_deleted`, and everyone who saw the row sees it still. The three `DELETE`
routes leave nothing.
-/

namespace HcMap.Routes

open Sync (Client eventPosition applicationPosition participantPosition)
open Cursor (After)

-- ---------------------------------------------------------------------------
-- Rows that stay
-- ---------------------------------------------------------------------------

def Special.Removes : Special → Prop
  | .eventDelete _ | .linkDelete _ _ | .applicationDelete _ => True
  | _ => False

/-- Every row is still there, below the same event, by the same creator, and as
a link of person `p` if it was one. -/
structure RowsKept (p : Uuid) (db db' : Database) : Prop where
  events : ∀ e ∈ db.events, ∃ e' ∈ db'.events, e'.id = e.id ∧ e'.createdBy = e.createdBy
  participants : ∀ ep ∈ db.participants, ∃ ep' ∈ db'.participants, ep'.id = ep.id ∧
    ep'.eventId = ep.eventId ∧ (ep.personId = p → ep'.personId = p)
  applications : ∀ a ∈ db.applications, ∃ a' ∈ db'.applications, a'.id = a.id ∧
    a'.eventId = a.eventId ∧ a'.createdBy = a.createdBy

def HasUser (p : Uuid) (db : Database) : Prop := ∃ u ∈ db.users, u.personId = p

section
variable {db db' db'' : Database} {s q : Session} {clock t : Time} {clocks : Set Time}
  {p eid : Uuid} {may : Special → Prop}

theorem RowsKept.of_subset (he : ∀ e ∈ db.events, e ∈ db'.events)
    (hep : ∀ ep ∈ db.participants, ep ∈ db'.participants)
    (ha : ∀ a ∈ db.applications, a ∈ db'.applications) : RowsKept p db db' where
  events := Table.keeps_of_subset (fun _ => ⟨rfl, rfl⟩) he
  participants := Table.keeps_of_subset (fun _ => ⟨rfl, rfl, id⟩) hep
  applications := Table.keeps_of_subset (fun _ => ⟨rfl, rfl, rfl⟩) ha

theorem RowsKept.refl (p : Uuid) (db : Database) : RowsKept p db db :=
  .of_subset (fun _ hm => hm) (fun _ hm => hm) fun _ hm => hm

theorem RowsKept.trans (h : RowsKept p db db') (h' : RowsKept p db' db'') : RowsKept p db db'' where
  events := Table.Keeps.trans h.events h'.events fun _ _ _ ⟨hid, hby⟩ ⟨hid', hby'⟩ =>
    ⟨hid'.trans hid, hby'.trans hby⟩
  participants := Table.Keeps.trans h.participants h'.participants
    fun _ _ _ ⟨hid, he, hp⟩ ⟨hid', he', hp'⟩ => ⟨hid'.trans hid, he'.trans he, hp' ∘ hp⟩
  applications := Table.Keeps.trans h.applications h'.applications
    fun _ _ _ ⟨hid, he, hby⟩ ⟨hid', he', hby'⟩ =>
      ⟨hid'.trans hid, he'.trans he, hby'.trans hby⟩

-- ---------------------------------------------------------------------------
-- Each write
-- ---------------------------------------------------------------------------

theorem Write.users (hw : Write may s clock db db') : db'.users = db.users := by
  cases hw with
  | eventDeleted =>
    unfold Database.deleteEvent
    split <;> rfl
  | linkDeleted =>
    unfold Database.deleteParticipant
    split <;> rfl
  | applicationDeleted =>
    unfold Database.deleteApplication
    split <;> rfl
  | _ => rfl

theorem Writes.users (h : Writes may s clocks db db') : db'.users = db.users :=
  h.rule (R := fun db db' => db'.users = db.users) (fun _ => rfl) (fun _ _ _ h h' => h'.trans h)
    fun _ _ _ _ hw => hw.users

theorem kept_applicationWritten {old new : Application} (hold : old ∈ db.applications)
    (hid : new.id = old.id) (he : new.eventId = old.eventId) (hby : new.createdBy = old.createdBy) :
    RowsKept p db (Sync.applicationWritten db clock new) where
  events e hm := ⟨e, hm, rfl, rfl⟩
  participants ep hm := ⟨ep, hm, rfl, rfl, id⟩
  applications := Table.keeps_set (fun _ => ⟨rfl, rfl, rfl⟩) hold hid ⟨hid, he, hby⟩

/-- A merge moves no link of a person who is a user. -/
theorem kept_repoint {source : Person} {sid tid : Uuid} (hp : p ≠ sid) :
    RowsKept p db (Services.repoint db clock source sid tid) where
  events e hm := ⟨e, hm, rfl, rfl⟩
  participants ep hm := by
    refine ⟨_, Services.mem_participants_repoint.mpr ⟨ep, hm, rfl⟩, by simp, by simp, ?_⟩
    rintro rfl
    simp [Services.moveParticipant, Services.dropOverlap, hp]
  applications a hm := by
    obtain ⟨t, ht⟩ := Services.movePerformer_eq clock sid tid a
    obtain ⟨t', ht'⟩ :=
      Services.moveRecipient_eq clock sid tid (Services.movePerformer clock sid tid a)
    refine ⟨_, Services.mem_applications_repoint_of_mem hm, by simp, ?_, ?_⟩
    · rw [ht', ht]
    · rw [ht', ht]

theorem Write.kept (hw : Write may s clock db db') (hno : ∀ x, may x → ¬ x.Removes)
    (hp : HasUser p db) : RowsKept p db db' := by
  cases hw with
  | eventInserted ht =>
    exact .of_subset (fun _ hm => (Table.mem_insert? ht).mpr (.inl hm)) (fun _ hm => hm)
      fun _ hm => hm
  | @eventWritten old new hold hid hby _ =>
    refine ⟨?_, fun ep hm => ?_, fun a hm => ?_⟩
    · exact Table.keeps_set (fun _ => ⟨rfl, rfl⟩) (Table.mem_of_find? hold) hid ⟨hid, hby⟩
    · exact ⟨_, Services.mem_participants_eventWritten.mpr ⟨ep, hm, rfl⟩, by simp, by simp,
        fun h => by simpa using h⟩
    · exact ⟨_, Services.mem_applications_eventWritten.mpr ⟨a, hm, rfl⟩, by simp, by simp, by simp⟩
  | eventDeleted _ hmay | linkDeleted _ hmay | applicationDeleted _ hmay =>
    exact absurd trivial (hno _ hmay)
  | linkInserted ht =>
    exact .of_subset (fun _ hm => hm) (fun _ hm => (Table.mem_insert? ht).mpr (.inl hm))
      fun _ hm => hm
  | applicationInserted ht =>
    exact .of_subset (fun _ hm => hm) (fun _ hm => hm)
      fun _ hm => (Table.mem_insert? ht).mpr (.inl hm)
  | applicationWritten hold hid he hby => exact kept_applicationWritten hold hid he hby
  | applicationPatched hold => exact kept_applicationWritten hold rfl rfl rfl
  | restraintsSet | restraintsReplaced =>
    exact .of_subset (fun _ hm => hm) (fun _ hm => hm) fun _ hm => hm
  | personsMerged _ _ hfree =>
    obtain ⟨u, hu, hup⟩ := hp
    exact kept_repoint fun h => hfree u hu (hup.trans h)

theorem Writes.kept (h : Writes may s clocks db db') (hno : ∀ x, may x → ¬ x.Removes)
    (hp : HasUser p db) : RowsKept p db db' := by
  have hrule := h.rule (R := fun db db' => HasUser p db → RowsKept p db db' ∧ HasUser p db')
    (fun db hp => ⟨.refl p db, hp⟩)
    (fun _ _ _ h h' hp => ⟨(h hp).1.trans (h' (h hp).2).1, (h' (h hp).2).2⟩)
    fun _ _ _ _ hw hp => ⟨hw.kept hno hp, by rwa [HasUser, hw.users]⟩
  exact (hrule hp).1

-- ---------------------------------------------------------------------------
-- Each operation
-- ---------------------------------------------------------------------------

def RemovesRow (db : Database) (s : Session) : Operation → Prop
  | .deleteEvent eid => ∃ e ∈ db.events, e.id = eid ∧ e.isDeleted = false ∧ eventWritable s e
  | .removeParticipant eid pid => db.Linked eid pid ∧ childWritable db s eid
  | .deleteApplication aid =>
    ∃ a ∈ db.applications, a.id = aid ∧ a.isDeleted = false ∧ applicationWritable db s a
  | _ => False

theorem deleteEvent_kept (h : deleteEvent db s eid = .ok db')
    (hno : ¬ RemovesRow db s (.deleteEvent eid)) : db' = db := by
  obtain ⟨e, he, h⟩ := bind_ok.mp h
  obtain ⟨hfind, hlive⟩ := getEvent_live (orNotFound_ok.mp he)
  have hid : e.id = eid := Table.key_of_find?
    (Database.getEvent_eq_some.mp (Option.filter_eq_some_iff.mp (orNotFound_ok.mp he)).1).1
  rw [← pure_ok.mp h, Database.deleteEvent, if_neg]
  exact fun hw => hno ⟨e, Table.mem_of_find? hfind, hid, hlive, hw⟩

theorem deleteApplication_kept {aid : Uuid} (h : deleteApplication db s aid = .ok db')
    (hno : ¬ RemovesRow db s (.deleteApplication aid)) : db' = db := by
  obtain ⟨a, ha, h⟩ := bind_ok.mp h
  obtain ⟨hfind, hlive⟩ := getApplication_live (orNotFound_ok.mp ha)
  rw [← pure_ok.mp h, Database.deleteApplication, if_neg]
  exact fun hw => hno ⟨a, Table.mem_of_find? hfind, Table.key_of_find? hfind, hlive, hw⟩

theorem removeParticipant_kept {pid : Uuid}
    (h : Services.removeParticipant db s eid pid = .ok db')
    (hno : ¬ RemovesRow db s (.removeParticipant eid pid)) : db' = db := by
  obtain ⟨ep, hep, rfl, rfl, rfl⟩ := removeParticipant_ok h
  rw [Database.deleteParticipant, if_neg]
  exact fun hw => hno ⟨⟨ep, hep, rfl, rfl⟩, hw⟩

theorem execute_kept {operation : Operation} (h : execute db s clock operation = .ok db')
    (hno : ¬ RemovesRow db s operation) (hp : HasUser p db) : RowsKept p db db' := by
  cases operation with
  | deleteEvent eid =>
    rw [deleteEvent_kept h hno]
    exact .refl p db
  | removeParticipant eid pid =>
    rw [removeParticipant_kept h hno]
    exact .refl p db
  | deleteApplication aid =>
    rw [deleteApplication_kept h hno]
    exact .refl p db
  | _ =>
    rcases execute_writes h with ⟨tables, -, rfl⟩ | hwrites
    · exact .of_subset (fun _ hm => hm) (fun _ hm => hm) fun _ hm => hm
    · refine hwrites.kept (fun x hx => ?_) hp
      cases x <;> simp_all [Operation.may, Special.Removes]

-- ---------------------------------------------------------------------------
-- What is still seen
-- ---------------------------------------------------------------------------

theorem RowsKept.linked (h : RowsKept p db db') (hl : db.Linked eid p) : db'.Linked eid p := by
  obtain ⟨ep, hep, he, hp⟩ := hl
  obtain ⟨ep', hep', -, he', hp'⟩ := h.participants ep hep
  exact ⟨ep', hep', he'.trans he, hp' hp⟩

theorem RowsKept.canSee (h : RowsKept q.personId db db') (hv : appUserCanSeeEvent db q eid) :
    appUserCanSeeEvent db' q eid := by
  rcases hv with hr | hl | ⟨hr, e, he, hid, hby⟩
  · exact .inl hr
  · exact .inr (.inl (h.linked hl))
  · obtain ⟨e', he', hid', hby'⟩ := h.events e he
    exact .inr (.inr ⟨hr, e', he', hid'.trans hid, hby'.trans hby⟩)

theorem RowsKept.eventVisible {e e' : Event} (h : RowsKept q.personId db db') (hid : e'.id = e.id)
    (hby : e'.createdBy = e.createdBy) (hv : eventVisible db q e) : eventVisible db' q e' := by
  rw [eventVisible_iff] at hv ⊢
  rw [hid, hby]
  exact hv.imp_right fun hv => hv.imp_left fun hv => ⟨hv.1, h.linked hv.2⟩

theorem RowsKept.applicationVisible {a a' : Application} (h : RowsKept q.personId db db')
    (he : a'.eventId = a.eventId) (hby : a'.createdBy = a.createdBy)
    (hv : applicationVisible db q a) : applicationVisible db' q a' := by
  rw [applicationVisible_iff] at hv ⊢
  rw [he, hby]
  exact hv.imp_left h.canSee

end

-- ---------------------------------------------------------------------------
-- Every run
-- ---------------------------------------------------------------------------

/-- What the client could see as live is there for it: as live, or as a
tombstone with a later stamp, ahead of the client's checkpoint. -/
structure LeavesTombstones (db db' : Database) (q : Session) (client : Client) : Prop where
  events : ∀ e ∈ db.events, e.isDeleted = false → eventVisible db q e →
    ∃ e' ∈ db'.events, e'.id = e.id ∧ eventVisible db' q e' ∧
      (e'.isDeleted = true →
        e.updatedAt < e'.updatedAt ∧ After eventPosition client.events.checkpoint e')
  participants : ∀ ep ∈ db.participants, ep.isDeleted = false → participantVisible db q ep →
    ∃ ep' ∈ db'.participants, ep'.id = ep.id ∧ participantVisible db' q ep' ∧
      (ep'.isDeleted = true →
        ep.updatedAt < ep'.updatedAt ∧ After participantPosition client.participants.checkpoint ep')
  applications : ∀ a ∈ db.applications, a.isDeleted = false → applicationVisible db q a →
    ∃ a' ∈ db'.applications, a'.id = a.id ∧ applicationVisible db' q a' ∧
      (a'.isDeleted = true →
        a.updatedAt < a'.updatedAt ∧ After applicationPosition client.applications.checkpoint a')

def KeepsRows (db : Database) (request : Request) : Prop :=
  ∀ s, authenticate db request.userId request.now = .ok s → ¬ RemovesRow db s request.operation

section
variable {db db' : Database} {q : Session} {client : Client} {t : Time} {clocks : Set Time}
  {p : Uuid}

theorem RowsKept.leavesTombstones (h : RowsKept q.personId db db') (hs : RowsStamped clocks db db')
    (hdb : StampedBy t db) (hclient : client.Precedes t) (hclock : ∀ c ∈ clocks, t < c) :
    LeavesTombstones db db' q client where
  events e he hlive hv := by
    obtain ⟨e', he', hid, hby⟩ := h.events e he
    refine ⟨e', he', hid, h.eventVisible hid hby hv, fun hdel => ?_⟩
    have hstamp : e'.updatedAt ∈ clocks := by
      by_contra hc
      obtain rfl := Table.eq_of_key (hs.events e' he' hc) he hid
      simp [hlive] at hdel
    exact ⟨lt_of_le_of_lt (hdb.events e he) (hclock _ hstamp),
      Sync.after_of_later hclient.events (hclock _ hstamp)⟩
  participants ep hep hlive hv := by
    obtain ⟨ep', hep', hid, he, -⟩ := h.participants ep hep
    have hv' : participantVisible db' q ep' := by
      rw [participantVisible_iff] at hv ⊢
      rw [he]
      exact h.canSee hv
    refine ⟨ep', hep', hid, hv', fun hdel => ?_⟩
    have hstamp : ep'.updatedAt ∈ clocks := by
      by_contra hc
      obtain rfl := Table.eq_of_key (hs.participants ep' hep' hc) hep hid
      simp [hlive] at hdel
    exact ⟨lt_of_le_of_lt (hdb.participants ep hep) (hclock _ hstamp),
      Sync.after_of_later hclient.participants (hclock _ hstamp)⟩
  applications a ha hlive hv := by
    obtain ⟨a', ha', hid, he, hby⟩ := h.applications a ha
    refine ⟨a', ha', hid, h.applicationVisible he hby hv, fun hdel => ?_⟩
    have hstamp : a'.updatedAt ∈ clocks := by
      by_contra hc
      obtain rfl := Table.eq_of_key (hs.applications a' ha' hc) ha hid
      simp [hlive] at hdel
    exact ⟨lt_of_le_of_lt (hdb.applications a ha) (hclock _ hstamp),
      Sync.after_of_later hclient.applications (hclock _ hstamp)⟩

theorem step_kept {request : Request} (hok : KeepsRows db request) (hp : HasUser p db) :
    RowsKept p db (step db request) ∧
      RowsStamped (request.operation.clocks request.clock) db (step db request) := by
  rcases step_cases db request with he | ⟨s, db', hs, hx, he⟩
  · rw [he]
    exact ⟨.refl p db, .refl _ db⟩
  · rw [he]
    exact ⟨execute_kept hx (hok s hs) hp, execute_rowsStamped hx⟩

theorem run_kept {requests : List Request}
    (hclocks : ∀ request ∈ requests, request.operation.clocks request.clock ⊆ clocks)
    (huser : Run.Always step (HasUser p) db requests) (hok : Run.Along step KeepsRows db requests) :
    RowsKept p db (Run.run step db requests) ∧
      RowsStamped clocks db (Run.run step db requests) := by
  induction requests generalizing db with
  | nil => exact ⟨.refl p db, .refl _ db⟩
  | cons request requests ih =>
    obtain ⟨hkept, hstamped⟩ := step_kept hok.1 huser.1
    obtain ⟨hkept', hstamped'⟩ :=
      ih (fun r hr => hclocks r (List.mem_cons_of_mem request hr)) huser.2 hok.2
    exact ⟨hkept.trans hkept', (hstamped.mono (hclocks request (by simp))).trans hstamped'⟩

/-- In a run without `DELETE` every disappearance leaves a tombstone, for every
client whose person stays a user. -/
theorem run_leavesTombstones {requests : List Request} (hdb : StampedBy t db)
    (hclient : client.Precedes t)
    (hclock : ∀ request ∈ requests, ∀ c ∈ request.operation.clocks request.clock, t < c)
    (huser : Run.Always step (HasUser q.personId) db requests)
    (hok : Run.Along step KeepsRows db requests) :
    LeavesTombstones db (Run.run step db requests) q client := by
  have hlater : ∀ request ∈ requests,
      request.operation.clocks request.clock ⊆ {c | t < c} := hclock
  obtain ⟨hkept, hstamped⟩ := run_kept hlater huser hok
  exact hkept.leavesTombstones hstamped hdb hclient fun _ hc => hc

end

def guestClient : Client :=
  Client.pull sample sampleGuest ⟨.empty, .empty, .empty⟩ (.events 100)

theorem guestClient_precedes : guestClient.Precedes 20 :=
  ⟨by decide +kernel, by decide +kernel, by decide +kernel⟩

theorem editEvent_leavesTombstones :
    LeavesTombstones sample (Run.run step sample [⟨1, 100, 101, .editEvent 1 none false true⟩])
      sampleGuest guestClient :=
  run_leavesTombstones stampedBy_sample guestClient_precedes (by simp [Operation.clocks])
    ⟨by unfold HasUser; decide, by unfold Run.Always HasUser; decide +kernel⟩
    ⟨fun _ _ h => h, trivial⟩

/-- The owner deletes it by `DELETE /api/events/1`. -/
theorem deleteEvent_leaves_nothing :
    ¬ LeavesTombstones sample (Run.run step sample [⟨2, 100, 101, .deleteEvent 1⟩]) sampleGuest
      guestClient := by
  intro h
  obtain ⟨e', he', -⟩ := h.events sampleEvent (by decide) rfl (by decide)
  have hgone : (Run.run step sample [⟨2, 100, 101, .deleteEvent 1⟩]).events = ∅ := by
    decide +kernel
  rw [hgone] at he'
  cases he'

end HcMap.Routes
