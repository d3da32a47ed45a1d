import HcMap.Routes.RequestLaws
import Mathlib.Logic.Relation

/-!
# What a session writes

Every operation that succeeds is a sequence of writes, each to one row with
what follows from it: a statement with its triggers and cascades. A write
carries what the policies and the checks of the services promise about it, so
that a property that every write keeps is a property of every request.
-/

namespace HcMap.Routes

open Sync (EventPushItem ApplicationPushItem applicationWritten)
open Services (EventCreate EventStart EventUpdate ApplicationCreate ApplicationLiveStart
  ApplicationUpdate flush flush_ok rejectIf_ok autoStopOnEnd eventWritten)

-- ---------------------------------------------------------------------------
-- Approved references
-- ---------------------------------------------------------------------------

def Approved (t : Table CatalogEntry) (id : Uuid) : Prop :=
  ∃ c ∈ t, c.id = id ∧ c.status = .approved

/-- The positions of `new` that are not those of `old` are approved. -/
structure PositionsApproved (db : Database) (old : Option Application) (new : Application) :
    Prop where
  armPosition : ∀ k, new.armPositionId = some k →
    old.bind Application.armPositionId = some k ∨ Approved db.armPositions k
  handPosition : ∀ k, new.handPositionId = some k →
    old.bind Application.handPositionId = some k ∨ Approved db.handPositions k
  handOrientation : ∀ k, new.handOrientationId = some k →
    old.bind Application.handOrientationId = some k ∨ Approved db.handOrientations k

structure RestraintsChanged (db : Database) (s : Session) (a : Application)
    (restraints : Table ApplicationRestraint) : Prop where
  mem : a ∈ db.applications
  writable : applicationWritable db s a
  others : ∀ r, r.applicationId ≠ a.id → (r ∈ restraints ↔ r ∈ db.restraints)
  approved : s.role ≠ .admin →
    ∀ r ∈ restraints, r ∈ db.restraints ∨ Approved db.restraintTypes r.restraintTypeId

-- ---------------------------------------------------------------------------
-- Writes
-- ---------------------------------------------------------------------------

/-- Writes that only one kind of operation makes. -/
inductive Special
  | eventDelete (eventId : Uuid)
  | linkDelete (eventId personId : Uuid)
  | applicationDelete (applicationId : Uuid)
  -- `PATCH /applications/{id}` looks at no catalog.
  | applicationPatch (applicationId : Uuid) (payload : ApplicationUpdate)
  -- A pushed update that changes the links and no column.
  | restraintsReplace

inductive Write (may : Special → Prop) (s : Session) (clock : Time) (db : Database) :
    Database → Prop
  | eventInserted {e t} (ht : db.events.insert? e = some t) (hw : eventWritable s e)
      (hby : e.createdBy = some s.userId) (hat : e.updatedAt = clock) :
      Write may s clock db { db with events := t }
  | eventWritten {old new : Event} (hold : db.events.find? old.id = some old)
      (hid : new.id = old.id) (hby : new.createdBy = old.createdBy) (hw : eventWritable s old) :
      Write may s clock db (eventWritten db clock old new)
  | eventDeleted {e} (h : e ∈ db.events) (hmay : may (.eventDelete e.id)) :
      Write may s clock db (db.deleteEvent s e)
  | linkInserted {ep t} (ht : db.participants.insert? ep = some t)
      (hw : childWritable db s ep.eventId) (he : (db.events.find? ep.eventId).isSome)
      (hat : ep.updatedAt = clock) :
      Write may s clock db { db with participants := t }
  | linkDeleted {ep} (h : ep ∈ db.participants) (hmay : may (.linkDelete ep.eventId ep.personId)) :
      Write may s clock db (db.deleteParticipant s ep)
  | applicationInserted {a t} (ht : db.applications.insert? a = some t)
      (hw : childWritable db s a.eventId) (he : (db.events.find? a.eventId).isSome)
      (hby : a.createdBy = some s.userId) (hat : a.updatedAt = clock)
      (hpos : s.role ≠ .admin → PositionsApproved db none a) :
      Write may s clock db { db with applications := t }
  | applicationWritten {old new : Application} (hold : old ∈ db.applications)
      (hid : new.id = old.id) (he : new.eventId = old.eventId)
      (hby : new.createdBy = old.createdBy) (hw : applicationWritable db s old)
      (hpos : s.role ≠ .admin → PositionsApproved db (some old) new) :
      Write may s clock db (applicationWritten db clock new)
  | applicationPatched {old : Application} {payload : ApplicationUpdate}
      (hold : old ∈ db.applications) (hw : applicationWritable db s old)
      (hmay : may (.applicationPatch old.id payload)) :
      Write may s clock db (applicationWritten db clock (payload.apply old))
  | applicationDeleted {a} (h : a ∈ db.applications) (hmay : may (.applicationDelete a.id)) :
      Write may s clock db (db.deleteApplication s a)
  -- The links of a row that was written at the same time.
  | restraintsSet {a restraints} (h : RestraintsChanged db s a restraints)
      (hat : a.updatedAt = clock) : Write may s clock db { db with restraints := restraints }
  | restraintsReplaced {a restraints} (h : RestraintsChanged db s a restraints)
      (hmay : may .restraintsReplace) : Write may s clock db { db with restraints := restraints }
  | personsMerged {source sid tid} (hadmin : s.role = .admin) (hne : sid ≠ tid)
      (hfree : ∀ u ∈ db.users, u.personId ≠ sid) :
      Write may s clock db (Services.repoint db clock source sid tid)

def Writes (may : Special → Prop) (s : Session) (clocks : Set Time) : Database → Database → Prop :=
  Relation.ReflTransGen fun db db' => ∃ clock ∈ clocks, Write may s clock db db'

def Operation.may : Operation → Special → Prop
  | .deleteEvent eventId, x => x = .eventDelete eventId
  | .removeParticipant eventId personId, x => x = .linkDelete eventId personId
  | .deleteApplication applicationId, x => x = .applicationDelete applicationId
  | .patchApplication applicationId payload, x => x = .applicationPatch applicationId payload
  | .pushApplications _, x => x = .restraintsReplace
  | _, _ => False

def Operation.clocks (clock : Time) : Operation → Set Time
  | .pushEvents items => {c | c ∈ items.map Prod.fst}
  | .pushApplications items => {c | c ∈ items.map Prod.fst}
  | _ => {clock}

section
variable {may may' : Special → Prop} {db db' db'' : Database} {s : Session} {clock : Time}
  {clocks clocks' : Set Time}

theorem Writes.none : Writes may s clocks db db := .refl

theorem Writes.one (h : Write may s clock db db') : Writes may s {clock} db db' :=
  .single ⟨clock, rfl, h⟩

theorem Writes.trans (h : Writes may s clocks db db') (h' : Writes may s clocks db' db'') :
    Writes may s clocks db db'' := Relation.ReflTransGen.trans h h'

theorem Writes.then (h : Writes may s {clock} db db') (h' : Write may s clock db' db'') :
    Writes may s {clock} db db'' := h.trans (.one h')

theorem Write.mono (h : Write may s clock db db') (hmay : ∀ x, may x → may' x) :
    Write may' s clock db db' := by
  cases h with
  | eventInserted ht hw hby hat => exact .eventInserted ht hw hby hat
  | eventWritten hold hid hby hw => exact .eventWritten hold hid hby hw
  | eventDeleted h hm => exact .eventDeleted h (hmay _ hm)
  | linkInserted ht hw he hat => exact .linkInserted ht hw he hat
  | linkDeleted h hm => exact .linkDeleted h (hmay _ hm)
  | applicationInserted ht hw he hby hat hpos => exact .applicationInserted ht hw he hby hat hpos
  | applicationWritten hold hid he hby hw hpos => exact .applicationWritten hold hid he hby hw hpos
  | applicationPatched hold hw hm => exact .applicationPatched hold hw (hmay _ hm)
  | applicationDeleted h hm => exact .applicationDeleted h (hmay _ hm)
  | restraintsSet h hat => exact .restraintsSet h hat
  | restraintsReplaced h hm => exact .restraintsReplaced h (hmay _ hm)
  | personsMerged hadmin hne hfree => exact .personsMerged hadmin hne hfree

theorem Writes.mono (h : Writes may s clocks db db') (hmay : ∀ x, may x → may' x)
    (hsub : clocks ⊆ clocks') : Writes may' s clocks' db db' :=
  Relation.ReflTransGen.mono (fun _ _ ⟨clock, hc, hw⟩ => ⟨clock, hsub hc, hw.mono hmay⟩) _ _ h

/-- What holds of every write, and of two changes if of each, holds of a
sequence of writes. -/
theorem Writes.rule {R : Database → Database → Prop} (h : Writes may s clocks db db')
    (hrefl : ∀ db, R db db) (htrans : ∀ db db' db'', R db db' → R db' db'' → R db db'')
    (hwrite : ∀ db db' clock, clock ∈ clocks → Write may s clock db db' → R db db') :
    R db db' := by
  induction h with
  | refl => exact hrefl db
  | tail _ hw ih =>
    obtain ⟨clock, hc, hw⟩ := hw
    exact htrans _ _ _ ih (hwrite _ _ clock hc hw)

theorem Writes.preserves {inv : Database → Prop} (h : Writes may s clocks db db')
    (hwrite : ∀ db db' clock, Write may s clock db db' → inv db → inv db') (h0 : inv db) :
    inv db' :=
  h.rule (R := fun db db' => inv db → inv db') (fun _ h => h) (fun _ _ _ h h' h0 => h' (h h0))
    (fun db db' clock _ => hwrite db db' clock) h0

end

-- ---------------------------------------------------------------------------
-- The services
-- ---------------------------------------------------------------------------

section
variable {may : Special → Prop} {db db' : Database} {s : Session} {clock : Time}
  {eid pid aid : Uuid}

theorem ensureParticipant_writes (db : Database) (s : Session) (clock : Time) (eid pid : Uuid) :
    Writes may s {clock} db (Sync.ensureParticipant db s clock eid pid) := by
  rcases Sync.ensureParticipant_cases db s clock eid pid with h | ⟨-, hw, he, -, t, ht, h⟩
  · rw [h]
    exact .none
  · rw [h]
    exact .one (.linkInserted ht hw he rfl)

theorem ensureParticipants_writes (db : Database) (s : Session) (clock : Time)
    (eid pid rid : Uuid) :
    Writes may s {clock} db (Sync.ensureParticipants db s clock eid pid rid) := by
  unfold Sync.ensureParticipants
  split
  · exact (ensureParticipant_writes db s clock eid pid).trans
      (ensureParticipant_writes _ s clock eid rid)
  · exact ensureParticipant_writes db s clock eid pid

theorem addParticipant_writes (h : Services.addParticipant db s clock eid pid = .ok db') :
    Writes may s {clock} db db' := by
  rw [addParticipant_ok h]
  exact ensureParticipant_writes db s clock eid pid

theorem serviceCreateEvent_writes {payload : EventCreate}
    (h : Services.createEvent db s clock payload = .ok (db', eid)) :
    Writes may s {clock} db db' := by
  obtain ⟨db₁, hf, h⟩ := bind_ok.mp h
  obtain ⟨rfl, rfl⟩ := Prod.mk.inj (pure_ok.mp h)
  obtain ⟨hw, -, t, ht, rfl⟩ := Database.insertRow_ok.mp (flush_ok.mp hf)
  exact .one (.eventInserted ht hw rfl rfl)

theorem createEvent_writes {payload : EventCreate} (h : createEvent db s clock payload = .ok db') :
    Writes may s {clock} db db' := by
  obtain ⟨⟨db₁, eid⟩, hc, h⟩ := bind_ok.mp h
  obtain ⟨db₂, hl, h⟩ := bind_ok.mp h
  rw [buildDetail_ok h]
  exact (serviceCreateEvent_writes hc).trans (addParticipant_writes hl)

theorem startEvent_writes {payload : EventStart} (h : startEvent db s clock payload = .ok db') :
    Writes may s {clock} db db' := by
  obtain ⟨⟨db₁, eid⟩, hs, h⟩ := bind_ok.mp h
  obtain rfl := buildDetail_ok h
  obtain ⟨⟨db₂, eid₂⟩, hc, hs⟩ := bind_ok.mp hs
  obtain ⟨db₃, hl, hs⟩ := bind_ok.mp hs
  have hwrites : Writes may s {clock} db db₃ :=
    (serviceCreateEvent_writes hc).trans (addParticipant_writes hl)
  split at hs
  · obtain ⟨rfl, -⟩ := Prod.mk.inj (pure_ok.mp hs)
    exact hwrites
  · split at hs
    · obtain ⟨db₄, hl', hs⟩ := bind_ok.mp hs
      obtain ⟨rfl, -⟩ := Prod.mk.inj (pure_ok.mp hs)
      exact hwrites.trans (addParticipant_writes hl')
    · obtain ⟨rfl, -⟩ := Prod.mk.inj (pure_ok.mp hs)
      exact hwrites

theorem event_writes {db₁ : Database} {old new : Event}
    (hold : db.events.find? old.id = some old) (hid : new.id = old.id)
    (hby : new.createdBy = old.createdBy) (h : db.updateEvent s clock old new = .ok db₁) :
    Writes may s {clock} db (autoStopOnEnd db₁ s clock old new) := by
  rcases Services.updateEvent_then_autoStop hold hid hby h with ⟨-, he⟩ | ⟨-, hw, he⟩
  · rw [he]
    exact .none
  · rw [he]
    exact .one (.eventWritten hold hid hby hw)

theorem endEvent_writes (h : endEvent db s clock eid = .ok db') : Writes may s {clock} db db' := by
  obtain ⟨e, he, h⟩ := bind_ok.mp h
  obtain ⟨db₁, h, hd⟩ := bind_ok.mp h
  obtain rfl := buildDetail_ok hd
  obtain ⟨hfind, -⟩ := getEvent_live (orNotFound_ok.mp he)
  cases hend : e.endedAt with
  | some t =>
    simp only [Services.endEvent, hend] at h
    rw [← Except.ok.inj h]
    exact .none
  | none =>
    simp only [Services.endEvent, hend] at h
    obtain ⟨db₂, hf, h⟩ := bind_ok.mp h
    rw [← pure_ok.mp h]
    exact event_writes hfind rfl rfl (flush_ok.mp hf)

theorem patchEvent_writes {payload : EventUpdate}
    (h : patchEvent db s clock eid payload = .ok db') : Writes may s {clock} db db' := by
  obtain ⟨e, he, h⟩ := bind_ok.mp h
  obtain ⟨db₁, h, hd⟩ := bind_ok.mp h
  obtain rfl := buildDetail_ok hd
  obtain ⟨hfind, -⟩ := getEvent_live (orNotFound_ok.mp he)
  unfold Services.updateEvent at h
  obtain ⟨_, -, h⟩ := bind_ok.mp h
  obtain ⟨db₂, hf, h⟩ := bind_ok.mp h
  rw [← pure_ok.mp h]
  exact event_writes hfind rfl rfl (flush_ok.mp hf)

theorem deleteEvent_writes (h : deleteEvent db s eid = .ok db') :
    Writes (fun x => x = .eventDelete eid) s {clock} db db' := by
  obtain ⟨e, he, h⟩ := bind_ok.mp h
  rw [← pure_ok.mp h]
  have hfind := (Database.getEvent_eq_some.mp
    (Option.filter_eq_some_iff.mp (orNotFound_ok.mp he)).1).1
  obtain rfl : e.id = eid := Table.key_of_find? hfind
  exact .one (.eventDeleted (Table.mem_of_find? hfind) rfl)

theorem editEvent_writes {note : Option Text} {reveal deleted : Bool}
    (h : editEvent db s clock eid note reveal deleted = .ok db') : Writes may s {clock} db db' := by
  obtain ⟨_, -, h⟩ := bind_ok.mp h
  obtain ⟨e, he, h⟩ := bind_ok.mp h
  have hfind := (Database.getEvent_eq_some.mp (orNotFound_ok.mp he)).1
  rw [← Table.key_of_find? hfind] at hfind
  have hwrites : Writes may s {clock} db _ :=
    event_writes hfind (by exact rfl) (by exact rfl) (flush_ok.mp h)
  -- `ended_at` stays, so there is nothing to stop.
  unfold autoStopOnEnd at hwrites
  cases hend : e.endedAt <;> simpa [hend] using hwrites

theorem removeParticipant_writes (h : Services.removeParticipant db s eid pid = .ok db') :
    Writes (fun x => x = .linkDelete eid pid) s {clock} db db' := by
  obtain ⟨ep, hep, rfl, rfl, rfl⟩ := removeParticipant_ok h
  exact .one (.linkDeleted hep rfl)

end

-- ---------------------------------------------------------------------------
-- The catalog checks
-- ---------------------------------------------------------------------------

section
variable {may : Special → Prop} {db db' : Database} {s : Session} {clock : Time} {aid : Uuid}
  {ids : List Uuid} {arm hand orientation : Option Uuid}

theorem approved_of_getCatalogEntry {t : Table CatalogEntry} {k : Uuid}
    (h : (Database.getCatalogEntry t s k).map CatalogEntry.status = some .approved) :
    Approved t k := by
  obtain ⟨c, hc, hstatus⟩ := Option.map_eq_some_iff.mp h
  have hfind := (Database.getCatalogEntry_eq_some.mp hc).1
  exact ⟨c, Table.mem_of_find? hfind, Table.key_of_find? hfind, hstatus⟩

theorem ensureApprovedCatalog_iff :
    Services.ensureApprovedCatalog db s arm hand orientation ids = .ok () ↔
      s.role = .admin ∨ ∀ p ∈ Services.catalogPairs db arm hand orientation ids,
        (Database.getCatalogEntry p.2.1 s p.2.2).map CatalogEntry.status = some .approved := by
  unfold Services.ensureApprovedCatalog
  by_cases hr : s.role = .admin
  · simp [hr]
  · simp only [hr, if_false, false_or]
    split
    · rename_i table t refId hfind
      have hbad := List.find?_some hfind
      refine ⟨fun h => absurd h throw_ok, fun h => ?_⟩
      have hok := h _ (List.mem_of_find?_eq_some hfind)
      simp [hok] at hbad
    · rename_i hfind
      refine ⟨fun _ p hp => ?_, fun _ => rfl⟩
      have hok := List.find?_eq_none.mp hfind p hp
      simpa using hok

theorem approved_of_ensureApprovedCatalog {u : Unit}
    (h : Services.ensureApprovedCatalog db s arm hand orientation ids = .ok u)
    (hr : s.role ≠ .admin) :
    ∀ p ∈ Services.catalogPairs db arm hand orientation ids, Approved p.2.1 p.2.2 := by
  intro p hp
  rcases ensureApprovedCatalog_iff.mp h with hadmin | hok
  · exact absurd hadmin hr
  · exact approved_of_getCatalogEntry (hok p hp)

theorem positionsApproved_of_catalogPairs {a : Application}
    (h : ∀ p ∈ Services.catalogPairs db arm hand orientation ids, Approved p.2.1 p.2.2)
    (harm : a.armPositionId = arm) (hhand : a.handPositionId = hand)
    (hori : a.handOrientationId = orientation) : PositionsApproved db none a := by
  subst harm hhand hori
  constructor
  · intro k hk
    exact .inr (h ("arm_position", db.armPositions, k) (by simp [Services.catalogPairs, hk]))
  · intro k hk
    exact .inr (h ("hand_position", db.handPositions, k) (by simp [Services.catalogPairs, hk]))
  · intro k hk
    exact .inr (h ("hand_orientation", db.handOrientations, k)
      (by simp [Services.catalogPairs, hk]))

theorem restraintApproved_of_catalogPairs {rid : Uuid}
    (h : ∀ p ∈ Services.catalogPairs db arm hand orientation ids, Approved p.2.1 p.2.2)
    (hid : rid ∈ ids) : Approved db.restraintTypes rid :=
  h ("restraint_type", db.restraintTypes, rid) (by simp [Services.catalogPairs, hid])

theorem approved_of_positionAllowed {t : Table CatalogEntry} {k : Uuid} (hr : s.role ≠ .admin)
    (h : Sync.positionAllowed t s (some k)) : Approved t k := by
  obtain ⟨c, hc, hadmin | hstatus⟩ := h k rfl
  · exact absurd hadmin hr
  · have hfind := (Database.getCatalogEntry_eq_some.mp hc).1
    exact ⟨c, Table.mem_of_find? hfind, Table.key_of_find? hfind, hstatus⟩

theorem positionsApproved_of_positionFksAllowed {newDoc : Sync.ApplicationDoc}
    {old : Option Application} {a : Application} (hr : s.role ≠ .admin)
    (h : Sync.positionFksAllowed db s newDoc) (harm : a.armPositionId = newDoc.armPositionId)
    (hhand : a.handPositionId = newDoc.handPositionId)
    (hori : a.handOrientationId = newDoc.handOrientationId) : PositionsApproved db old a := by
  obtain ⟨h₁, h₂, h₃⟩ := h
  rw [← harm] at h₁
  rw [← hhand] at h₂
  rw [← hori] at h₃
  exact ⟨fun k hk => .inr (approved_of_positionAllowed hr (hk ▸ h₁)),
    fun k hk => .inr (approved_of_positionAllowed hr (hk ▸ h₂)),
    fun k hk => .inr (approved_of_positionAllowed hr (hk ▸ h₃))⟩

theorem positionsApproved_same {old new : Application}
    (harm : new.armPositionId = old.armPositionId) (hhand : new.handPositionId = old.handPositionId)
    (hori : new.handOrientationId = old.handOrientationId) :
    PositionsApproved db (some old) new :=
  ⟨fun _ hk => .inl (harm.symm.trans hk), fun _ hk => .inl (hhand.symm.trans hk),
    fun _ hk => .inl (hori.symm.trans hk)⟩

theorem approved_of_restraintsAllowed {rid : Uuid} (hr : s.role ≠ .admin)
    (h : Sync.restraintsAllowed db s ids) (hid : rid ∈ ids) : Approved db.restraintTypes rid := by
  obtain ⟨c, hc, hcid, hadmin | hstatus⟩ := Sync.restraintsAllowed_mem h hid
  · exact absurd hadmin hr
  · exact ⟨c, (List.mem_filter.mp hc).1, hcid, hstatus⟩

-- ---------------------------------------------------------------------------
-- Restraint sets
-- ---------------------------------------------------------------------------

/-- The set of one application is replaced, or the session may not write it. -/
theorem syncApplicationRestraints_changed {a : Application} (ha : a ∈ db.applications)
    (hid : a.id = aid)
    (happ : s.role ≠ .admin → ∀ rid ∈ ids, Approved db.restraintTypes rid) :
    Sync.syncApplicationRestraints db s aid ids = db ∨
      ∃ restraints, RestraintsChanged db s a restraints ∧
        Sync.syncApplicationRestraints db s aid ids = { db with restraints := restraints } := by
  by_cases hw : applicationWritable db s a
  · obtain ⟨restraints, he⟩ := Sync.syncApplicationRestraints_eq db s aid ids
    have hmem : ∀ r, r ∈ restraints ↔
        r ∈ (Sync.syncApplicationRestraints db s aid ids).restraints := by simp [he]
    refine .inr ⟨restraints, ⟨ha, hw, fun r hr => ?_, fun hrole r hr => ?_⟩, he⟩
    · rw [hmem]
      exact Sync.mem_syncApplicationRestraints_ne (hid ▸ hr)
    · exact (Sync.mem_syncApplicationRestraints ((hmem r).mp hr)).imp_right (happ hrole _)
  · exact .inl (Sync.syncApplicationRestraints_readonly ha hid hw)

theorem restraints_writes {a : Application} (h : Writes may s {clock} db db')
    (ha : a ∈ db'.applications) (hid : a.id = aid) (hat : a.updatedAt = clock)
    (happ : s.role ≠ .admin → ∀ rid ∈ ids, Approved db'.restraintTypes rid) :
    Writes may s {clock} db (Sync.syncApplicationRestraints db' s aid ids) := by
  rcases syncApplicationRestraints_changed ha hid happ with he | ⟨restraints, hch, he⟩
  · rw [he]
    exact h
  · rw [he]
    exact h.then (.restraintsSet hch hat)

theorem mem_addRestraints {r : ApplicationRestraint}
    (h : ids.foldlM (fun db rid => flush (db.insertRestraint s ⟨aid, rid, s.now⟩)) db = .ok db')
    (hr : r ∈ db'.restraints) :
    r ∈ db.restraints ∨ (r.applicationId = aid ∧ r.restraintTypeId ∈ ids) := by
  induction ids generalizing db with
  | nil =>
    rw [pure_ok.mp h]
    exact .inl hr
  | cons rid ids ih =>
    rw [List.foldlM_cons] at h
    obtain ⟨db₁, hf, h⟩ := bind_ok.mp h
    obtain ⟨-, -, t, ht, rfl⟩ := Database.insertRow_ok.mp (flush_ok.mp hf)
    rcases ih h with h | h
    · rcases (Table.mem_insert? ht).mp h with h | rfl
      · exact .inl h
      · exact .inr ⟨rfl, by simp⟩
    · exact .inr ⟨h.1, List.mem_cons_of_mem rid h.2⟩

theorem mem_addRestraints_of_mem {r : ApplicationRestraint}
    (h : ids.foldlM (fun db rid => flush (db.insertRestraint s ⟨aid, rid, s.now⟩)) db = .ok db')
    (hr : r ∈ db.restraints) : r ∈ db'.restraints := by
  induction ids generalizing db with
  | nil =>
    rw [← pure_ok.mp h]
    exact hr
  | cons rid ids ih =>
    rw [List.foldlM_cons] at h
    obtain ⟨db₁, hf, h⟩ := bind_ok.mp h
    obtain ⟨-, -, t, ht, rfl⟩ := Database.insertRow_ok.mp (flush_ok.mp hf)
    exact ih h ((Table.mem_insert? ht).mpr (.inl hr))

end

-- ---------------------------------------------------------------------------
-- Applications, merges, pushes
-- ---------------------------------------------------------------------------

section
variable {may : Special → Prop} {db db' : Database} {s : Session} {clock : Time}
  {aid sid tid : Uuid}

theorem addApplication_writes {a : Application} {ids : List Uuid}
    (h : Services.addApplication db s clock a ids = .ok db')
    (hby : a.createdBy = some s.userId) (hat : a.updatedAt = clock)
    (hpos : s.role ≠ .admin → PositionsApproved db none a)
    (hids : s.role ≠ .admin → ∀ rid ∈ ids, Approved db.restraintTypes rid) :
    Writes may s {clock} db db' := by
  unfold Services.addApplication at h
  obtain ⟨db₁, hf, h⟩ := bind_ok.mp h
  obtain ⟨hw, ⟨⟨he, -⟩, -⟩, t, ht, rfl⟩ := Database.insertRow_ok.mp (flush_ok.mp hf)
  obtain ⟨db₂, hl, h⟩ := bind_ok.mp h
  obtain ⟨db₃, hl', h⟩ := bind_ok.mp h
  have hlinks : Writes may s {clock} { db with applications := t } db₃ := by
    refine (addParticipant_writes hl).trans ?_
    split at hl'
    · exact addParticipant_writes hl'
    · rw [pure_ok.mp hl']
      exact .none
  have heq : ∃ p, db₃ = { db with applications := t, participants := p } := by
    obtain ⟨p, hp⟩ := Sync.ensureParticipant_eq { db with applications := t } s clock a.eventId
      a.performerId
    rw [addParticipant_ok hl, hp] at hl'
    split at hl'
    · obtain ⟨p', hp'⟩ := Sync.ensureParticipant_eq
        { db with applications := t, participants := p } s clock a.eventId a.recipientId
      exact ⟨p', by rw [addParticipant_ok hl', hp']⟩
    · exact ⟨p, (pure_ok.mp hl').symm⟩
  have hrow : Writes may s {clock} db db₃ :=
    (Writes.one (.applicationInserted ht hw he hby hat hpos)).trans hlinks
  obtain ⟨p, rfl⟩ := heq
  obtain ⟨restraints, rfl⟩ := addRestraints_ok h
  refine hrow.then (.restraintsSet ⟨?_, ?_, fun r hr => ⟨fun hm => ?_, ?_⟩, ?_⟩ hat)
  · exact (Table.mem_insert? ht).mpr (.inr rfl)
  · exact hw
  · exact (mem_addRestraints h hm).resolve_right fun hnew => hr hnew.1
  · exact mem_addRestraints_of_mem h
  · intro hrole r hm
    exact (mem_addRestraints h hm).imp_right fun hnew => hids hrole _ hnew.2

theorem createApplication_writes {eid : Uuid} {payload : ApplicationCreate} {strict : Bool}
    (h : Services.createApplication db s clock eid payload strict = .ok db') :
    Writes may s {clock} db db' := by
  obtain ⟨_, -, h⟩ := bind_ok.mp h
  obtain ⟨_, hcat, h⟩ := bind_ok.mp h
  exact addApplication_writes h rfl rfl
    (fun hr => positionsApproved_of_catalogPairs (approved_of_ensureApprovedCatalog hcat hr)
      rfl rfl rfl)
    fun hr _ hid =>
      restraintApproved_of_catalogPairs (approved_of_ensureApprovedCatalog hcat hr) hid

theorem startApplication_writes {eid : Uuid} {payload : ApplicationLiveStart}
    (h : Services.startApplication db s clock eid payload = .ok db') :
    Writes may s {clock} db db' := by
  obtain ⟨_, hcat, h⟩ := bind_ok.mp h
  exact addApplication_writes h rfl rfl
    (fun hr => positionsApproved_of_catalogPairs (approved_of_ensureApprovedCatalog hcat hr)
      rfl rfl rfl)
    fun hr _ hid =>
      restraintApproved_of_catalogPairs (approved_of_ensureApprovedCatalog hcat hr) hid

theorem patchApplication_writes {payload : ApplicationUpdate}
    (h : patchApplication db s clock aid payload = .ok db') :
    Writes (fun x => x = .applicationPatch aid payload) s {clock} db db' := by
  obtain ⟨a, ha, h⟩ := bind_ok.mp h
  obtain ⟨hfind, -⟩ := getApplication_live (orNotFound_ok.mp ha)
  have hid : a.id = aid := Table.key_of_find? hfind
  unfold Services.updateApplication at h
  obtain ⟨_, -, h⟩ := bind_ok.mp h
  rcases Database.updateApplication_ok.mp (flush_ok.mp h) with ⟨-, rfl⟩ | ⟨-, hw, -, rfl⟩
  · exact .none
  · exact .one (.applicationPatched (Table.mem_of_find? hfind) hw (by rw [hid]))

theorem endApplication_writes (h : endApplication db s clock aid = .ok db') :
    Writes may s {clock} db db' := by
  obtain ⟨a, ha, h⟩ := bind_ok.mp h
  obtain ⟨hfind, -⟩ := getApplication_live (orNotFound_ok.mp ha)
  cases hend : a.endedAt with
  | some t =>
    simp only [Services.endApplication, hend] at h
    rw [← Except.ok.inj h]
    exact .none
  | none =>
    simp only [Services.endApplication, hend] at h
    rcases Database.updateApplication_ok.mp (flush_ok.mp h) with ⟨-, rfl⟩ | ⟨-, hw, -, rfl⟩
    · exact .none
    · exact .one (.applicationWritten (Table.mem_of_find? hfind) rfl rfl rfl hw
        fun _ => positionsApproved_same rfl rfl rfl)

theorem deleteApplication_writes (h : deleteApplication db s aid = .ok db') :
    Writes (fun x => x = .applicationDelete aid) s {clock} db db' := by
  obtain ⟨a, ha, h⟩ := bind_ok.mp h
  rw [← pure_ok.mp h]
  obtain ⟨hfind, -⟩ := getApplication_live (orNotFound_ok.mp ha)
  obtain rfl : a.id = aid := Table.key_of_find? hfind
  exact .one (.applicationDeleted (Table.mem_of_find? hfind) rfl)

theorem mergePerson_writes (h : mergePerson db s clock sid tid = .ok db') :
    Writes may s {clock} db db' := by
  obtain ⟨_, hadmin, h⟩ := bind_ok.mp h
  obtain ⟨_, hne, h⟩ := bind_ok.mp h
  have hadmin : s.role = .admin := not_not.mp (rejectIf_ok.mp hadmin)
  split at h
  · split at h
    · obtain ⟨_, -, h⟩ := bind_ok.mp h
      obtain ⟨_, -, h⟩ := bind_ok.mp h
      obtain ⟨_, hfree, h⟩ := bind_ok.mp h
      rw [← pure_ok.mp h]
      have hfree := rejectIf_ok.mp hfree
      exact .one (.personsMerged hadmin (rejectIf_ok.mp hne) fun u hu hp => hfree ⟨u, hu, .inl hp⟩)
    · exact absurd h throw_ok
  · exact absurd h throw_ok

theorem pushEvent_writes {item : Time × EventPushItem} {ds : List Sync.EventDoc}
    (h : Sync.pushEvent s db item = .ok (db', ds)) : Writes may s {item.1} db db' := by
  obtain ⟨clock, item⟩ := item
  have hout := Sync.pushEvent_cases s db clock item
  rw [h] at hout
  cases hout with
  | reported => exact .none
  | inserted t _ hw ht =>
    exact (Writes.one (.eventInserted ht hw rfl rfl)).trans (ensureParticipant_writes ..)
  | untouched => exact .none
  | written existing hok _ hw => exact .one (.eventWritten hok.find rfl rfl hw)

theorem applicationInserted_writes {newDoc : Sync.ApplicationDoc} {t : Table Application}
    (hok : Sync.ApplicationInsertAllowed s db newDoc)
    (ht : db.applications.insert? (Sync.newApplication s clock
      (Sync.nextSequenceNo db s newDoc.eventId) newDoc) = some t) :
    Writes may s {clock} db (Sync.applicationInserted s db clock t newDoc) := by
  have hrow : Writes may s {clock} db { db with applications := t } :=
    .one (.applicationInserted ht hok.writable hok.event rfl rfl
      fun hr => positionsApproved_of_positionFksAllowed hr hok.positions rfl rfl rfl)
  have hlinks := hrow.trans (ensureParticipants_writes _ s clock newDoc.eventId
    newDoc.performerId newDoc.recipientId)
  obtain ⟨p, hp⟩ := Sync.ensureParticipants_eq { db with applications := t } s clock
    newDoc.eventId newDoc.performerId newDoc.recipientId
  have hmem : Sync.newApplication s clock (Sync.nextSequenceNo db s newDoc.eventId) newDoc ∈
      ({ db with applications := t, participants := p } : Database).applications :=
    (Table.mem_insert? ht).mpr (.inr rfl)
  rw [Sync.applicationInserted, hp]
  rw [hp] at hlinks
  exact restraints_writes hlinks hmem rfl rfl
    fun hr _ hid => approved_of_restraintsAllowed hr hok.restraints hid

theorem applicationUpdated_writes {item : ApplicationPushItem} {existing : Application}
    (hok : Sync.ApplicationUpdateAllowed s db item existing)
    (hw : applicationWritable db s existing) :
    Writes may s {clock} db (Sync.syncApplicationRestraints
      (applicationWritten db clock
        (Sync.applyApplicationUpdate existing item.newDocumentState clock))
      s existing.id item.newDocumentState.restraintTypeIds) := by
  have hrow : Writes may s {clock} db (applicationWritten db clock
      (Sync.applyApplicationUpdate existing item.newDocumentState clock)) :=
    .one (.applicationWritten hok.mem rfl rfl rfl hw
      fun hr => positionsApproved_of_positionFksAllowed hr hok.positions rfl rfl rfl)
  exact restraints_writes hrow (Table.mem_set_self hok.mem rfl) rfl rfl
    fun hr _ hid => approved_of_restraintsAllowed hr hok.restraints hid

/-- The item replaces the restraint set of a row that it leaves as it is. -/
def ReplacesRestraints (db : Database) (s : Session) (item : ApplicationPushItem) : Prop :=
  ∃ existing, Sync.ApplicationUpdateAllowed s db item existing ∧
    ¬ Sync.ApplicationChanges existing item.newDocumentState ∧
      applicationWritable db s existing ∧
        ¬ ∀ rid, Sync.HasRestraint db existing.id rid ↔
          rid ∈ item.newDocumentState.restraintTypeIds

theorem pushApplication_writes {item : Time × ApplicationPushItem} {ds : List Sync.ApplicationDoc}
    (h : Sync.pushApplication s db item = .ok (db', ds)) :
    Writes (fun x => x = .restraintsReplace ∧ ReplacesRestraints db s item.2) s {item.1} db
      db' := by
  obtain ⟨clock, item⟩ := item
  have hout := Sync.pushApplication_cases s db clock item
  rw [h] at hout
  cases hout with
  | reported => exact .none
  | inserted t _ hok ht => exact applicationInserted_writes hok ht
  | untouched existing hok hno =>
    by_cases hsame : ∀ rid, Sync.HasRestraint db existing.id rid ↔
        rid ∈ item.newDocumentState.restraintTypeIds
    · rw [Sync.syncApplicationRestraints_eq_self hok.mem hsame]
      exact .none
    rcases syncApplicationRestraints_changed hok.mem rfl
        (fun hr _ hid => approved_of_restraintsAllowed hr hok.restraints hid) with he | ⟨_, hch, he⟩
    · rw [he]
      exact .none
    · rw [he]
      exact .one (.restraintsReplaced hch ⟨rfl, existing, hok, hno, hch.writable, hsame⟩)
  | written existing hok _ hw _ => exact applicationUpdated_writes hok hw

theorem process_writes {ι δ : Type}
    {item : Database → Time × ι → Except DbError (Database × List δ)} {items : List (Time × ι)}
    {ds : List δ}
    (hitem : ∀ db i db' ds, item db i = .ok (db', ds) → Writes may s {i.1} db db')
    (h : Batch.process item db items = .ok (db', ds)) :
    Writes may s {c | c ∈ items.map Prod.fst} db db' := by
  refine Batch.preserves_of_mem (fun i hi db₁ db₂ ds hwrites hp => ?_) h .none
  refine hwrites.trans ((hitem db₁ i db₂ ds hp).mono (fun _ => id) ?_)
  rintro c rfl
  exact List.mem_map_of_mem hi

end

/-- Every operation that succeeds is a sequence of writes, unless another
service writes its tables. -/
theorem execute_writes {db db' : Database} {s : Session} {clock : Time} {operation : Operation}
    (h : execute db s clock operation = .ok db') :
    (∃ tables, operation = .writeReference tables ∧ db' = writeReference db tables) ∨
      Writes operation.may s (operation.clocks clock) db db' := by
  cases operation with
  | writeReference tables => exact .inl ⟨tables, rfl, (Except.ok.inj h).symm⟩
  | pushEvents items =>
    obtain ⟨ds, h⟩ := pushed_ok.mp h
    exact .inr (process_writes (fun _ _ _ _ => pushEvent_writes) h)
  | pushApplications items =>
    obtain ⟨ds, h⟩ := pushed_ok.mp h
    exact .inr (process_writes
      (fun _ _ _ _ hi => (pushApplication_writes hi).mono (fun _ hx => hx.1) subset_rfl) h)
  | createEvent payload => exact .inr (createEvent_writes h)
  | startEvent payload => exact .inr (startEvent_writes h)
  | endEvent eid => exact .inr (endEvent_writes h)
  | patchEvent eid payload => exact .inr (patchEvent_writes h)
  | deleteEvent eid => exact .inr (deleteEvent_writes h)
  | addParticipant eid pid => exact .inr (addParticipant_writes h)
  | removeParticipant eid pid => exact .inr (removeParticipant_writes h)
  | createApplication eid payload strict => exact .inr (createApplication_writes h)
  | startApplication eid payload => exact .inr (startApplication_writes h)
  | patchApplication aid payload => exact .inr (patchApplication_writes h)
  | endApplication aid => exact .inr (endApplication_writes h)
  | deleteApplication aid => exact .inr (deleteApplication_writes h)
  | mergePerson sid tid => exact .inr (mergePerson_writes h)
  | editEvent eid note reveal deleted => exact .inr (editEvent_writes h)

end HcMap.Routes
