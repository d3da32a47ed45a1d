import HcMap.Routes.Orphans

/-!
# The two ways to create an application

A client that is online posts an application, one that was offline pushes it.
The service links the restraint types of the payload one by one, the push
replaces the empty set by the set of them; an id that the payload repeats is a
second link to the service, which the primary key refuses.
-/

namespace HcMap

def EventParticipant.bare (ep : EventParticipant) : EventParticipant :=
  { ep with id := 0, createdAt := 0, updatedAt := 0 }

def Application.bare (a : Application) : Application :=
  { a with id := 0, createdAt := 0, updatedAt := 0 }

namespace Routes

open Sync (ApplicationDoc ApplicationPushItem ApplicationInsertAllowed HasRestraint addRestraint
  ensureParticipants positionAllowed positionFksAllowed restraintsAllowed newApplication
  pushApplication pushApplications nextSequenceNo)
open Services (ApplicationCreate Failure flush flush_ok rejectIf ensureApprovedCatalog catalogPairs
  addApplication createApplication)

/-- The insert a client pushes for what it would have posted; the id, the
number and the stamps it made up itself. -/
def createdOffline (eventId : Uuid) (payload : ApplicationCreate) (doc : ApplicationDoc) :
    ApplicationPushItem where
  assumedMasterState := none
  newDocumentState :=
    { doc with
      eventId := eventId
      performerId := payload.performerId
      recipientId := payload.recipientId
      armPositionId := payload.armPositionId
      handPositionId := payload.handPositionId
      handOrientationId := payload.handOrientationId
      startedAt := payload.startedAt
      endedAt := payload.endedAt
      note := payload.note
      deleted := false
      restraintTypeIds := payload.restraintTypeIds }

/-- The application `a` is new, with some new links of its event and the
restraint set `ids`; nothing else changed. -/
structure Created (db : Database) (a : Application) (links : List EventParticipant)
    (ids : List Uuid) (db' : Database) : Prop where
  applications : db'.applications.rows = db.applications.rows ++ [a]
  participants : db'.participants.rows = db.participants.rows ++ links
  restraints : ∀ rid, HasRestraint db' a.id rid ↔ rid ∈ ids
  otherRestraints : ∀ r : ApplicationRestraint, r.applicationId ≠ a.id →
    (r ∈ db'.restraints ↔ r ∈ db.restraints)
  rest : db' = { db with
    applications := db'.applications
    participants := db'.participants
    restraints := db'.restraints }

/-- What the route answers and what the push answers to one insert. Of a
request that fails nothing is committed. -/
inductive Agree (db : Database) :
    Except Failure Database → Except DbError (Database × List ApplicationDoc) → Prop
  | created {a a' : Application} {links links' : List EventParticipant} {ids : List Uuid}
      {db₁ db₂ : Database} (h : Created db a links ids db₁) (h' : Created db a' links' ids db₂)
      (happ : a.bare = a'.bare)
      (hlinks : links.map EventParticipant.bare = links'.map EventParticipant.bare) :
      Agree db (.ok db₁) (.ok (db₂, []))
  | refused {e : Failure} {doc : ApplicationDoc} : Agree db (.error e) (.ok (db, [doc]))

-- ---------------------------------------------------------------------------
-- The catalog
-- ---------------------------------------------------------------------------

section
variable {db : Database} {s : Session} {arm hand orientation id : Option Uuid} {ids : List Uuid}
  {t : Table CatalogEntry} {rid : Uuid}

theorem getCatalogEntry_admin (hadmin : s.role = .admin) :
    Database.getCatalogEntry t s rid = t.find? rid := by
  unfold Database.getCatalogEntry
  cases t.find? rid <;> simp [Option.filter, catalogVisible, hadmin]

theorem positionAllowed_admin (hadmin : s.role = .admin) :
    positionAllowed t s id ↔ t.References id := by
  simp [positionAllowed, Table.References, getCatalogEntry_admin hadmin, hadmin,
    Option.isSome_iff_exists]

theorem restraintsAllowed_admin (hadmin : s.role = .admin) :
    restraintsAllowed db s ids ↔ ∀ rid ∈ ids, (db.restraintTypes.find? rid).isSome := by
  simp [Sync.restraintsAllowed_iff, getCatalogEntry_admin hadmin, hadmin,
    Option.isSome_iff_exists]

theorem status_approved_iff (hrole : s.role ≠ .admin) :
    (Database.getCatalogEntry t s rid).map CatalogEntry.status = some .approved ↔
      ∃ c, Database.getCatalogEntry t s rid = some c ∧
        (s.role = .admin ∨ c.status = .approved) := by
  simp [hrole, Option.map_eq_some_iff]

theorem catalogPairs_allowed_iff (hrole : s.role ≠ .admin) :
    (∀ pair ∈ catalogPairs db arm hand orientation ids,
        (Database.getCatalogEntry pair.2.1 s pair.2.2).map CatalogEntry.status =
          some .approved) ↔
      positionAllowed db.armPositions s arm ∧ positionAllowed db.handPositions s hand ∧
        positionAllowed db.handOrientations s orientation ∧ restraintsAllowed db s ids := by
  simp only [status_approved_iff hrole, catalogPairs, List.mem_append, List.mem_map,
    Option.mem_toList, positionAllowed, Sync.restraintsAllowed_iff, or_imp, forall_and,
    forall_exists_index, and_imp, and_assoc]
  constructor
  · rintro ⟨harm, hhand, horientation, hids⟩
    exact ⟨fun k hk => harm _ k hk rfl, fun k hk => hhand _ k hk rfl,
      fun k hk => horientation _ k hk rfl, fun k hk => hids _ k hk rfl⟩
  · rintro ⟨harm, hhand, horientation, hids⟩
    refine ⟨?_, ?_, ?_, ?_⟩
    · rintro _ k hk rfl
      exact harm k hk
    · rintro _ k hk rfl
      exact hhand k hk
    · rintro _ k hk rfl
      exact horientation k hk
    · rintro _ k hk rfl
      exact hids k hk

/-- The service's check of the catalog is the push's two, for all but admins. -/
theorem ensureApprovedCatalog_allowed_iff (db : Database) (s : Session)
    (arm hand orientation : Option Uuid) (ids : List Uuid) :
    ensureApprovedCatalog db s arm hand orientation ids = .ok () ↔
      s.role = .admin ∨ (positionAllowed db.armPositions s arm ∧
        positionAllowed db.handPositions s hand ∧
        positionAllowed db.handOrientations s orientation ∧ restraintsAllowed db s ids) := by
  rw [ensureApprovedCatalog_iff]
  by_cases hrole : s.role = .admin
  · simp [hrole]
  · rw [catalogPairs_allowed_iff hrole]

end

-- ---------------------------------------------------------------------------
-- The participants
-- ---------------------------------------------------------------------------

structure MayJoin (db : Database) (s : Session) (eid pid : Uuid) : Prop where
  writable : childWritable db s eid
  event : (db.events.find? eid).isSome
  person : (db.persons.find? pid).isSome

def SameLinks (db db₁ db₂ : Database) : Prop :=
  ∃ links links', db₁.participants.rows = db.participants.rows ++ links ∧
    db₂.participants.rows = db.participants.rows ++ links' ∧
    links.map EventParticipant.bare = links'.map EventParticipant.bare

section
variable {db db₁ db₂ : Database} {s s' : Session} {clock clock' : Time} {eid pid pid' rid : Uuid}

theorem MayJoin.ensureParticipant (h : MayJoin db s eid pid) :
    MayJoin (Sync.ensureParticipant db s clock eid pid') s eid pid := by
  obtain ⟨t, ht⟩ := Sync.ensureParticipant_eq db s clock eid pid'
  rw [ht]
  exact ⟨h.writable, h.event, h.person⟩

theorem MayJoin.addParticipant (h : MayJoin db s eid pid) (clock : Time) :
    Services.addParticipant db s clock eid pid =
      .ok (Sync.ensureParticipant db s clock eid pid) := by
  unfold Services.addParticipant Sync.ensureParticipant
  by_cases hv : db.LinkVisible s eid pid
  · simp [hv]
  · have hl : ¬ db.Linked eid pid := fun ⟨ep, hep, hev, hperson⟩ =>
      hv ⟨ep, hep, .inl (by rw [participantWritable, hev]; exact h.writable), hev, hperson⟩
    obtain ⟨t, ht⟩ := Table.insert?_isSome (r := db.newParticipant s clock eid pid)
      (Table.find?_fresh db.participants)
    have hi : db.insertParticipant s (db.newParticipant s clock eid pid) =
        .ok { db with participants := t } :=
      Database.insertRow_ok.mpr ⟨h.writable, ⟨h.event, h.person, hl⟩, t, ht, rfl⟩
    simp only [hv, hi, if_false]
    rfl

theorem MayJoin.rows (h : MayJoin db s eid pid) (clock : Time) :
    (Sync.ensureParticipant db s clock eid pid).participants.rows =
      if db.Linked eid pid then db.participants.rows
      else db.participants.rows ++ [db.newParticipant s clock eid pid] := by
  rcases Sync.ensureParticipant_cases db s clock eid pid with he | ⟨hn, -, -, -, t, ht, he⟩
  · have hl : db.Linked eid pid := by
      have := Sync.linked_ensureParticipant clock h.writable h.event h.person
      rwa [he] at this
    rw [he, if_pos hl]
  · rw [he, if_neg hn]
    exact (Table.insert?_eq_some.mp ht).2

theorem linked_iff_bare :
    db.Linked eid pid ↔ ∃ b ∈ db.participants.rows.map EventParticipant.bare,
      b.eventId = eid ∧ b.personId = pid := by
  simp only [List.mem_map, exists_exists_and_eq_and]
  rfl

theorem SameLinks.linked_iff (h : SameLinks db db₁ db₂) (eid pid : Uuid) :
    db₁.Linked eid pid ↔ db₂.Linked eid pid := by
  obtain ⟨links, links', h₁, h₂, hlinks⟩ := h
  rw [linked_iff_bare, linked_iff_bare, h₁, h₂, List.map_append, List.map_append, hlinks]

theorem SameLinks.ensureParticipant (h : SameLinks db db₁ db₂) (clock clock' : Time)
    (hj₁ : MayJoin db₁ s eid pid) (hj₂ : MayJoin db₂ s' eid pid) :
    SameLinks db (Sync.ensureParticipant db₁ s clock eid pid)
      (Sync.ensureParticipant db₂ s' clock' eid pid) := by
  have hiff := h.linked_iff eid pid
  obtain ⟨links, links', h₁, h₂, hlinks⟩ := h
  have hrows₁ := hj₁.rows clock
  have hrows₂ := hj₂.rows clock'
  by_cases hl : db₁.Linked eid pid
  · rw [if_pos hl] at hrows₁
    rw [if_pos (hiff.mp hl)] at hrows₂
    exact ⟨links, links', hrows₁.trans h₁, hrows₂.trans h₂, hlinks⟩
  · rw [if_neg hl, h₁, List.append_assoc] at hrows₁
    rw [if_neg fun h => hl (hiff.mpr h), h₂, List.append_assoc] at hrows₂
    refine ⟨_, _, hrows₁, hrows₂, ?_⟩
    rw [List.map_append, List.map_append, hlinks]
    rfl

theorem SameLinks.ensureParticipants (h : SameLinks db db₁ db₂) (clock clock' : Time)
    (hp₁ : MayJoin db₁ s eid pid) (hr₁ : MayJoin db₁ s eid rid) (hp₂ : MayJoin db₂ s' eid pid)
    (hr₂ : MayJoin db₂ s' eid rid) :
    SameLinks db (ensureParticipants db₁ s clock eid pid rid)
      (ensureParticipants db₂ s' clock' eid pid rid) := by
  have hone := h.ensureParticipant clock clock' hp₁ hp₂
  unfold Sync.ensureParticipants
  by_cases hne : rid ≠ pid
  · rw [if_pos hne, if_pos hne]
    exact hone.ensureParticipant clock clock' hr₁.ensureParticipant hr₂.ensureParticipant
  · rw [if_neg hne, if_neg hne]
    exact hone

end

-- ---------------------------------------------------------------------------
-- The restraint links
-- ---------------------------------------------------------------------------

section
variable {db db' : Database} {s : Session} {aid rid : Uuid} {ids : List Uuid}

theorem insertRestraint_iff (hw : restraintWritable db s ⟨aid, rid, s.now⟩)
    (ha : (db.applications.find? aid).isSome) :
    db.insertRestraint s ⟨aid, rid, s.now⟩ = .ok db' ↔
      (db.restraintTypes.find? rid).isSome ∧ ¬ HasRestraint db aid rid ∧
        db' = addRestraint s aid db rid := by
  have hfree : ¬ HasRestraint db aid rid ↔
      ∃ t, db.restraints.insert? ⟨aid, rid, s.now⟩ = some t := by
    rw [← Option.isSome_iff_exists, ← not_iff_not, not_not, Option.not_isSome_iff_eq_none,
      Table.insert?_eq_none]
    exact Sync.mem_restraints_iff_hasRestraint.symm
  constructor
  · intro h
    obtain ⟨-, ⟨-, htype⟩, t, ht, -⟩ := Database.insertRow_ok.mp h
    exact ⟨htype, hfree.mpr ⟨t, ht⟩, by simp [addRestraint, h]⟩
  · rintro ⟨htype, hnot, rfl⟩
    obtain ⟨t, ht⟩ := hfree.mp hnot
    have hok : db.insertRestraint s ⟨aid, rid, s.now⟩ = .ok { db with restraints := t } :=
      Database.insertRow_ok.mpr ⟨hw, ⟨ha, htype⟩, t, ht, rfl⟩
    simp [addRestraint, hok]

/-- The service's inserts are the push's when no id comes twice, and fail
otherwise. -/
theorem addRestraints_iff (hw : ∀ rid t, restraintWritable db s ⟨aid, rid, t⟩)
    (ha : (db.applications.find? aid).isSome) :
    ids.foldlM (fun db rid => flush (db.insertRestraint s ⟨aid, rid, s.now⟩)) db = .ok db' ↔
      ids.Nodup ∧ (∀ rid ∈ ids, (db.restraintTypes.find? rid).isSome ∧
        ¬ HasRestraint db aid rid) ∧ db' = ids.foldl (addRestraint s aid) db := by
  induction ids generalizing db with
  | nil =>
    exact ⟨fun h => ⟨List.nodup_nil, by simp, (pure_ok.mp h).symm⟩,
      fun h => pure_ok.mpr h.2.2.symm⟩
  | cons rid ids ih =>
    obtain ⟨t, ht⟩ := Sync.addRestraint_eq db s aid rid
    have hrest := @ih (addRestraint s aid db rid) (by rw [ht]; exact hw) (by rw [ht]; exact ha)
    have htypes : (addRestraint s aid db rid).restraintTypes = db.restraintTypes := by rw [ht]
    have hhas := fun x htype => Sync.hasRestraint_addRestraint (x := x) (hw rid s.now) ha htype
    rw [List.foldlM_cons, bind_ok]
    simp only [flush_ok, insertRestraint_iff (hw rid s.now) ha, List.foldl_cons]
    constructor
    · rintro ⟨_, ⟨htype, hnot, rfl⟩, h⟩
      obtain ⟨hnodup, hall, rfl⟩ := hrest.mp h
      simp only [htypes, hhas _ htype, not_or] at hall
      refine ⟨List.nodup_cons.mpr ⟨fun hmem => (hall rid hmem).2.2 rfl, hnodup⟩, ?_, rfl⟩
      intro x hx
      rcases List.mem_cons.mp hx with rfl | hx
      · exact ⟨htype, hnot⟩
      · exact ⟨(hall x hx).1, (hall x hx).2.1⟩
    · rintro ⟨hnodup, hall, rfl⟩
      obtain ⟨hfresh, hnodup⟩ := List.nodup_cons.mp hnodup
      obtain ⟨htype, hnot⟩ := hall rid (List.mem_cons_self ..)
      refine ⟨_, ⟨htype, hnot, rfl⟩, hrest.mpr ⟨hnodup, fun x hx => ?_, rfl⟩⟩
      rw [htypes, hhas x htype, not_or]
      obtain ⟨hxtype, hxnot⟩ := hall x (List.mem_cons_of_mem _ hx)
      exact ⟨hxtype, hxnot, fun h => hfresh (h ▸ hx)⟩

end

-- ---------------------------------------------------------------------------
-- The row, its participants and its restraint set
-- ---------------------------------------------------------------------------

def createdOnline (db : Database) (s : Session) (clock : Time) (eventId : Uuid)
    (payload : ApplicationCreate) : Application where
  id := db.applications.fresh
  eventId := eventId
  performerId := payload.performerId
  recipientId := payload.recipientId
  armPositionId := payload.armPositionId
  handPositionId := payload.handPositionId
  handOrientationId := payload.handOrientationId
  sequenceNo := Services.nextSequenceNo db s eventId
  startedAt := payload.startedAt
  endedAt := payload.endedAt
  note := payload.note
  createdBy := some s.userId
  createdAt := s.now
  updatedAt := clock
  isDeleted := false
  deletedAt := none

def joined (db : Database) (s : Session) (clock : Time) (a : Application) : Database :=
  ensureParticipants { db with applications := db.applications.put a } s clock a.eventId
    a.performerId a.recipientId

section
variable {db db' : Database} {s s' : Session} {clock clock' : Time} {a a' : Application}
  {eid rid : Uuid} {payload : ApplicationCreate} {doc : ApplicationDoc} {ids : List Uuid}

theorem createApplication_ok (doc : ApplicationDoc) :
    createApplication db s clock eid payload false = .ok db' ↔
      (s.role = .admin ∨
        (positionFksAllowed db s (createdOffline eid payload doc).newDocumentState ∧
          restraintsAllowed db s payload.restraintTypeIds)) ∧
      addApplication db s clock (createdOnline db s clock eid payload) payload.restraintTypeIds =
        .ok db' := by
  have hcat := ensureApprovedCatalog_allowed_iff db s payload.armPositionId payload.handPositionId
    payload.handOrientationId payload.restraintTypeIds
  rw [positionFksAllowed, and_assoc, and_assoc]
  refine Iff.trans ⟨fun h => ?_, fun h => ?_⟩ (and_congr hcat Iff.rfl)
  · obtain ⟨_, -, h⟩ := bind_ok.mp h
    obtain ⟨u, hcat, h⟩ := bind_ok.mp h
    exact ⟨hcat, h⟩
  · exact bind_ok.mpr ⟨(), rfl, bind_ok.mpr ⟨(), h⟩⟩

theorem addApplication_eq {db₁ : Database} (hi : db.insertApplication s a = .ok db₁)
    (hp : MayJoin db₁ s a.eventId a.performerId) (hr : MayJoin db₁ s a.eventId a.recipientId) :
    addApplication db s clock a ids =
      ids.foldlM (fun db rid => flush (db.insertRestraint s ⟨a.id, rid, s.now⟩))
        (ensureParticipants db₁ s clock a.eventId a.performerId a.recipientId) := by
  have hflush : flush (db.insertApplication s a) = .ok db₁ := flush_ok.mpr hi
  unfold addApplication Sync.ensureParticipants
  simp only [hflush, Services.ensureParticipant, hp.addParticipant clock, Except.bind, bind]
  by_cases hne : a.recipientId ≠ a.performerId
  · rw [if_pos hne, if_pos hne, hr.ensureParticipant.addParticipant clock]
  · rw [if_neg hne, if_neg hne]
    rfl

theorem ForeignKeys.no_restraint (hkeys : ForeignKeys db) {aid : Uuid}
    (hfree : db.applications.find? aid = none) (rid : Uuid) : ¬ HasRestraint db aid rid := by
  rintro ⟨r, hr, rfl, -⟩
  simpa [hfree] using hkeys.restraints r hr

theorem joined_eq (db : Database) (s : Session) (clock : Time) (a : Application) :
    ∃ links, joined db s clock a =
      { db with applications := db.applications.put a, participants := links } := by
  obtain ⟨links, h⟩ := Sync.ensureParticipants_eq
    { db with applications := db.applications.put a } s clock a.eventId a.performerId a.recipientId
  exact ⟨links, h⟩

theorem mem_joined (hid : db.applications.find? a.id = none) (s : Session) (clock : Time) :
    a ∈ (joined db s clock a).applications := by
  obtain ⟨links, h⟩ := joined_eq db s clock a
  rw [h]
  exact (Table.mem_insert? (Table.put_of_free (r := a) hid)).mpr (.inr rfl)

theorem applicationWritable_joined (clock : Time) (hw : childWritable db s a.eventId) :
    applicationWritable (joined db s clock a) s a := by
  obtain ⟨links, h⟩ := joined_eq db s clock a
  rw [h]
  exact hw

theorem mayJoin_performer (hw : childWritable db s a.eventId) (hrefs : db.ApplicationRefs a) :
    MayJoin { db with applications := db.applications.put a } s a.eventId a.performerId :=
  ⟨hw, hrefs.1, hrefs.2.1⟩

theorem mayJoin_recipient (hw : childWritable db s a.eventId) (hrefs : db.ApplicationRefs a) :
    MayJoin { db with applications := db.applications.put a } s a.eventId a.recipientId :=
  ⟨hw, hrefs.1, hrefs.2.2.1⟩

theorem addRestraints_joined (clock : Time) (hid : db.applications.find? a.id = none)
    (hnone : ∀ rid, ¬ HasRestraint db a.id rid) (hw : childWritable db s a.eventId) :
    ids.foldlM (fun db rid => flush (db.insertRestraint s ⟨a.id, rid, s.now⟩))
        (joined db s clock a) = .ok db' ↔
      ids.Nodup ∧ (∀ rid ∈ ids, (db.restraintTypes.find? rid).isSome) ∧
        db' = ids.foldl (addRestraint s a.id) (joined db s clock a) := by
  have ha := mem_joined hid s clock
  have hwr : ∀ rid now, restraintWritable (joined db s clock a) s ⟨a.id, rid, now⟩ :=
    fun rid now => (restraintWritable_iff ha rfl).mpr (applicationWritable_joined clock hw)
  have hfind := Table.find?_isSome.mpr ⟨a, ha, rfl⟩
  obtain ⟨links, h⟩ := joined_eq db s clock a
  rw [h] at hwr hfind ⊢
  rw [addRestraints_iff hwr hfind]
  have hsame : ∀ rid, ¬ HasRestraint
      { db with applications := db.applications.put a, participants := links } a.id rid := hnone
  simp only [hsame, not_false_eq_true, and_true]

/-- The service adds a numbered application exactly when the policies and the
foreign keys let it, and no restraint type comes twice. -/
theorem addApplication_iff (hid : db.applications.find? a.id = none)
    (hseq : a.sequenceNo = nextSequenceNo db s a.eventId)
    (hnone : ∀ rid, ¬ HasRestraint db a.id rid) :
    addApplication db s clock a ids = .ok db' ↔
      childWritable db s a.eventId ∧ db.ApplicationRefs a ∧ ids.Nodup ∧
        (∀ rid ∈ ids, (db.restraintTypes.find? rid).isSome) ∧
        db' = ids.foldl (addRestraint s a.id) (joined db s clock a) := by
  have heq : ∀ hw : childWritable db s a.eventId, ∀ hrefs : db.ApplicationRefs a,
      addApplication db s clock a ids =
        ids.foldlM (fun db rid => flush (db.insertRestraint s ⟨a.id, rid, s.now⟩))
          (joined db s clock a) := fun hw hrefs => by
    have hi : db.insertApplication s a = .ok { db with applications := db.applications.put a } :=
      Database.insertRow_ok.mpr ⟨hw, ⟨hrefs, by rw [hseq]; exact Sync.nextSequenceNo_free hw⟩,
        _, Table.put_of_free (r := a) hid, rfl⟩
    exact addApplication_eq hi (mayJoin_performer hw hrefs) (mayJoin_recipient hw hrefs)
  constructor
  · intro h
    obtain ⟨db₁, hi, -⟩ := bind_ok.mp h
    obtain ⟨hw, ⟨hrefs, -⟩, -⟩ := Database.insertRow_ok.mp (flush_ok.mp hi)
    rw [heq hw hrefs] at h
    exact ⟨hw, hrefs, (addRestraints_joined clock hid hnone hw).mp h⟩
  · rintro ⟨hw, hrefs, h⟩
    rw [heq hw hrefs]
    exact (addRestraints_joined clock hid hnone hw).mpr h

-- ---------------------------------------------------------------------------
-- What each leaves
-- ---------------------------------------------------------------------------

theorem created_of_joined {links : List EventParticipant} {restraints : Table ApplicationRestraint}
    (hid : db.applications.find? a.id = none)
    (hlinks : (joined db s clock a).participants.rows = db.participants.rows ++ links)
    (heq : db' = { joined db s clock a with restraints := restraints })
    (hset : ∀ rid, HasRestraint db' a.id rid ↔ rid ∈ ids)
    (hother : ∀ r : ApplicationRestraint, r.applicationId ≠ a.id →
      (r ∈ db'.restraints ↔ r ∈ (joined db s clock a).restraints)) :
    Created db a links ids db' := by
  obtain ⟨t, hjoined⟩ := joined_eq db s clock a
  rw [hjoined] at hlinks heq hother
  subst heq
  exact ⟨(Table.insert?_eq_some.mp (Table.put_of_free (r := a) hid)).2, hlinks, hset, hother, rfl⟩

theorem created_online {links : List EventParticipant} (hid : db.applications.find? a.id = none)
    (hnone : ∀ rid, ¬ HasRestraint db a.id rid) (hw : childWritable db s a.eventId)
    (htypes : ∀ rid ∈ ids, (db.restraintTypes.find? rid).isSome)
    (hlinks : (joined db s clock a).participants.rows = db.participants.rows ++ links) :
    Created db a links ids (ids.foldl (addRestraint s a.id) (joined db s clock a)) := by
  have ha := mem_joined hid s clock
  have hwr : ∀ rid now, restraintWritable (joined db s clock a) s ⟨a.id, rid, now⟩ :=
    fun rid now => (restraintWritable_iff ha rfl).mpr (applicationWritable_joined clock hw)
  obtain ⟨restraints, hfold⟩ := Sync.foldl_addRestraint_eq (joined db s clock a) s a.id ids
  refine created_of_joined hid hlinks hfold (fun rid => ?_)
    fun r hr => Sync.mem_foldl_addRestraint_ne hr
  obtain ⟨t, hjoined⟩ := joined_eq db s clock a
  have hempty : ¬ HasRestraint (joined db s clock a) a.id rid := by
    rw [hjoined]
    exact hnone rid
  rw [Sync.hasRestraint_foldl_addRestraint _ hwr (Table.find?_isSome.mpr ⟨a, ha, rfl⟩)
    (by rw [hjoined]; exact htypes), or_iff_right hempty]

theorem created_offline {links : List EventParticipant} (hid : db.applications.find? a.id = none)
    (hw : childWritable db s a.eventId)
    (htypes : ∀ rid ∈ ids, (db.restraintTypes.find? rid).isSome)
    (hlinks : (joined db s clock a).participants.rows = db.participants.rows ++ links) :
    Created db a links ids (Sync.syncApplicationRestraints (joined db s clock a) s a.id ids) := by
  obtain ⟨restraints, hsync⟩ := Sync.syncApplicationRestraints_eq (joined db s clock a) s a.id ids
  obtain ⟨t, hjoined⟩ := joined_eq db s clock a
  refine created_of_joined hid hlinks hsync (fun rid => ?_)
    fun r hr => Sync.mem_syncApplicationRestraints_ne hr
  exact Sync.hasRestraint_syncApplicationRestraints (mem_joined hid s clock) rfl
    (applicationWritable_joined clock hw) (by rw [hjoined]; exact htypes)

theorem sameLinks_joined (clock clock' : Time) (he : a'.eventId = a.eventId)
    (hp : a'.performerId = a.performerId) (hr : a'.recipientId = a.recipientId)
    (hw : childWritable db s a.eventId) (hrefs : db.ApplicationRefs a)
    (hw' : childWritable db s' a'.eventId) (hrefs' : db.ApplicationRefs a') :
    SameLinks db (joined db s clock a) (joined db s' clock' a') := by
  have hp' := mayJoin_performer hw' hrefs'
  have hr' := mayJoin_recipient hw' hrefs'
  have hsame : SameLinks db { db with applications := db.applications.put a }
      { db with applications := db.applications.put a' } := ⟨[], [], by simp, by simp, rfl⟩
  unfold joined
  rw [he, hp] at hp'
  rw [he, hr] at hr'
  rw [he, hp, hr]
  exact hsame.ensureParticipants clock clock' (mayJoin_performer hw hrefs)
    (mayJoin_recipient hw hrefs) hp' hr'

end

-- ---------------------------------------------------------------------------
-- The answers
-- ---------------------------------------------------------------------------

section
variable {db db' : Database} {s : Session} {clock : Time} {eid : Uuid}
  {payload : ApplicationCreate} {doc : ApplicationDoc} {item : ApplicationPushItem}

theorem insertAllowed_iff (clock : Time) (hfree : db.applications.find? doc.id = none) :
    ApplicationInsertAllowed s db (createdOffline eid payload doc).newDocumentState ↔
      (s.role = .admin ∨
        (positionFksAllowed db s (createdOffline eid payload doc).newDocumentState ∧
          restraintsAllowed db s payload.restraintTypeIds)) ∧
      childWritable db s eid ∧ db.ApplicationRefs (createdOnline db s clock eid payload) ∧
        ∀ rid ∈ payload.restraintTypeIds, (db.restraintTypes.find? rid).isSome := by
  constructor
  · intro h
    refine ⟨.inr ⟨h.positions, h.restraints⟩, h.writable, ?_, fun rid hrid =>
      Sync.restraintsAllowed_isSome h.restraints hrid⟩
    obtain ⟨harm, hhand, horientation⟩ := h.positions
    refine ⟨h.event, h.performer, h.recipient, Sync.positionAllowed_references harm,
      Sync.positionAllowed_references hhand, Sync.positionAllowed_references horientation, ?_⟩
    rintro k ⟨⟩
    exact h.user
  · rintro ⟨hcat, hw, ⟨he, hp, hr, harm, hhand, horientation, hu⟩, htypes⟩
    have hallowed : positionFksAllowed db s (createdOffline eid payload doc).newDocumentState ∧
        restraintsAllowed db s payload.restraintTypeIds := by
      rcases hcat with hadmin | h
      · exact ⟨⟨(positionAllowed_admin hadmin).mpr harm, (positionAllowed_admin hadmin).mpr hhand,
          (positionAllowed_admin hadmin).mpr horientation⟩,
          (restraintsAllowed_admin hadmin).mpr htypes⟩
      · exact h
    exact ⟨hfree, hallowed.2, hallowed.1, hw, he, hp, hr, hu s.userId rfl⟩

theorem createApplication_iff (s : Session) (clock : Time) (eid : Uuid)
    (payload : ApplicationCreate) (hkeys : ForeignKeys db)
    (hfree : db.applications.find? doc.id = none) (db' : Database) :
    createApplication db s clock eid payload false = .ok db' ↔
      ApplicationInsertAllowed s db (createdOffline eid payload doc).newDocumentState ∧
        payload.restraintTypeIds.Nodup ∧
        db' = payload.restraintTypeIds.foldl
          (addRestraint s (createdOnline db s clock eid payload).id)
          (joined db s clock (createdOnline db s clock eid payload)) := by
  have hid : db.applications.find? (createdOnline db s clock eid payload).id = none :=
    Table.find?_fresh db.applications
  rw [createApplication_ok doc, insertAllowed_iff clock hfree,
    addApplication_iff hid rfl (hkeys.no_restraint hid)]
  tauto

theorem pushApplications_refused (clock : Time) (hitem : item.assumedMasterState = none)
    (h : ¬ ApplicationInsertAllowed s db item.newDocumentState) :
    ∃ doc, pushApplications s db [(clock, item)] = .ok (db, [doc]) := by
  have hcases := Sync.pushApplication_cases s db clock item
  have hupdate : ∀ existing, ¬ Sync.ApplicationUpdateAllowed s db item existing :=
    fun existing hu => by simpa [hitem] using hu.update
  generalize hpush : pushApplication s db (clock, item) = r at hcases
  cases hcases with
  | reported doc => exact ⟨doc, Batch.process_cons_ok.mpr ⟨db, [doc], [], hpush, rfl, rfl⟩⟩
  | inserted _ _ hi => exact absurd hi h
  | untouched existing hu => exact absurd hu (hupdate existing)
  | written existing hu => exact absurd hu (hupdate existing)
  | raised existing _ hu => exact absurd hu (hupdate existing)

theorem pushApplications_accepted (clock : Time) (hitem : item.assumedMasterState = none)
    (h : ApplicationInsertAllowed s db item.newDocumentState) :
    pushApplications s db [(clock, item)] =
      .ok (Sync.syncApplicationRestraints
        (joined db s clock (newApplication s clock
          (nextSequenceNo db s item.newDocumentState.eventId) item.newDocumentState))
        s item.newDocumentState.id item.newDocumentState.restraintTypeIds, []) := by
  obtain ⟨t, ht, hpush⟩ := Sync.pushApplication_insert clock hitem h
  obtain rfl : db.applications.put _ = t :=
    Option.some.inj ((Table.put_of_free (Table.insert?_eq_some.mp ht).1).symm.trans ht)
  exact Batch.process_cons_ok.mpr ⟨_, [], [], hpush, rfl, rfl⟩

theorem Agree.accepted {r : Except Failure Database} (h : Agree db r (.ok (db', []))) :
    ∃ db₁, r = .ok db₁ := by
  cases h with
  | created => exact ⟨_, rfl⟩

theorem agree_of_refused (hkeys : ForeignKeys db)
    (hfree : db.applications.find? doc.id = none) (now clock' : Time)
    (h : ¬ ApplicationInsertAllowed s db (createdOffline eid payload doc).newDocumentState) :
    Agree db (createApplication db s clock eid payload false)
      (pushApplications { s with now := now } db
        [(clock', createdOffline eid payload doc)]) := by
  have hrefused : ¬ ApplicationInsertAllowed { s with now := now } db
      (createdOffline eid payload doc).newDocumentState := fun hallowed => h (hallowed.at s.now)
  obtain ⟨answer, hpush⟩ := pushApplications_refused clock' rfl hrefused
  rw [hpush]
  cases hrest : createApplication db s clock eid payload false with
  | error e => exact .refused
  | ok db' =>
    have hiff := createApplication_iff s clock eid payload hkeys hfree db'
    exact absurd (hiff.mp hrest).1 h

theorem agree_of_nodup (hkeys : ForeignKeys db)
    (hfree : db.applications.find? doc.id = none) (now clock' : Time)
    (h : ApplicationInsertAllowed s db (createdOffline eid payload doc).newDocumentState)
    (hnodup : payload.restraintTypeIds.Nodup) :
    Agree db (createApplication db s clock eid payload false)
      (pushApplications { s with now := now } db
        [(clock', createdOffline eid payload doc)]) := by
  have h' := h.at now
  have hid : db.applications.find? (createdOnline db s clock eid payload).id = none :=
    Table.find?_fresh db.applications
  obtain ⟨-, hw, hrefs, htypes⟩ := (insertAllowed_iff clock hfree).mp h
  obtain ⟨-, -, hrefs', -⟩ := (insertAllowed_iff clock' hfree).mp h'
  have hlinked : SameLinks db (joined db s clock (createdOnline db s clock eid payload))
      (joined db { s with now := now } clock'
        (newApplication { s with now := now } clock'
          (nextSequenceNo db { s with now := now } eid)
          (createdOffline eid payload doc).newDocumentState)) :=
    sameLinks_joined clock clock' rfl rfl rfl hw hrefs hw hrefs'
  obtain ⟨links, links', hlinks, hlinks', hsame⟩ := hlinked
  rw [pushApplications_accepted clock' rfl h',
    (createApplication_iff s clock eid payload hkeys hfree _).mpr ⟨h, hnodup, rfl⟩]
  exact .created
    (created_online hid (hkeys.no_restraint hid) hw htypes hlinks)
    (created_offline hfree hw htypes hlinks') rfl hsame

/-- The route and the push agree on a new application unless it repeats a
restraint type and nothing else refuses it: the route then fails with the
second link, and the push links the type once. -/
theorem createApplication_agree_iff (hkeys : ForeignKeys db)
    (hfree : db.applications.find? doc.id = none) (now clock' : Time) :
    Agree db (createApplication db s clock eid payload false)
        (pushApplications { s with now := now } db [(clock', createdOffline eid payload doc)]) ↔
      payload.restraintTypeIds.Nodup ∨
        ¬ ApplicationInsertAllowed s db (createdOffline eid payload doc).newDocumentState := by
  by_cases hallowed :
      ApplicationInsertAllowed s db (createdOffline eid payload doc).newDocumentState
  · constructor
    · intro h
      rw [pushApplications_accepted clock' rfl (hallowed.at now)] at h
      obtain ⟨db₁, hrest⟩ := h.accepted
      have hiff := createApplication_iff s clock eid payload hkeys hfree db₁
      exact .inl (hiff.mp hrest).2.1
    · rintro (hnodup | hnot)
      · exact agree_of_nodup hkeys hfree now clock' hallowed hnodup
      · exact absurd hallowed hnot
  · exact iff_of_true (agree_of_refused hkeys hfree now clock' hallowed) (.inr hallowed)

end

def listedTimes (n : Nat) : ApplicationCreate where
  performerId := 2
  recipientId := 3
  armPositionId := none
  handPositionId := none
  handOrientationId := none
  startedAt := none
  endedAt := none
  note := none
  restraintTypeIds := List.replicate n 1

def offlineDoc : ApplicationDoc where
  id := 7
  eventId := 0
  performerId := 0
  recipientId := 0
  sequenceNo := 1
  createdAt := 90
  updatedAt := 90

theorem createApplication_agree_sample :
    Agree sample (createApplication sample sampleOwner 100 1 (listedTimes 1) false)
      (pushApplications { sampleOwner with now := 101 } sample
        [(101, createdOffline 1 (listedTimes 1) offlineDoc)]) :=
  (createApplication_agree_iff foreignKeys_sample (by decide) 101 101).mpr (.inl (by decide))

/-- The same application with its one restraint type listed twice. -/
theorem createApplication_disagrees :
    ForeignKeys sample ∧ sample.applications.find? offlineDoc.id = none ∧
      ¬ Agree sample (createApplication sample sampleOwner 100 1 (listedTimes 2) false)
        (pushApplications { sampleOwner with now := 101 } sample
          [(101, createdOffline 1 (listedTimes 2) offlineDoc)]) := by
  refine ⟨foreignKeys_sample, by decide, fun h => ?_⟩
  have hpush : ∃ db', pushApplications { sampleOwner with now := 101 } sample
      [(101, createdOffline 1 (listedTimes 2) offlineDoc)] = .ok (db', []) := ⟨_, rfl⟩
  obtain ⟨db', hpush⟩ := hpush
  rw [hpush] at h
  obtain ⟨db₁, hrest⟩ := h.accepted
  have hfails : createApplication sample sampleOwner 100 1 (listedTimes 2) false =
      .error (.raised .integrity) := rfl
  rw [hfails] at hrest
  cases hrest

end Routes

end HcMap
