import HcMap.Routes.Confined

/-!
# Approved links

Editors may link approved catalog entries only. Creating, starting and pushing
an application check every reference; patching one checks none.
-/

namespace HcMap.Routes

open Sync (applicationWritten)
open Services (eventWritten ApplicationUpdate)

/-- Positions that are set and restraint links that are added refer to entries
that are approved in `db`. -/
structure LinksApproved (db db' : Database) : Prop where
  positions : ∀ a ∈ db'.applications, PositionsApproved db (db.applications.find? a.id) a
  restraints : ∀ r ∈ db'.restraints, r ∈ db.restraints ∨
    Approved db.restraintTypes r.restraintTypeId

structure SameCatalogs (db db' : Database) : Prop where
  armPositions : db'.armPositions = db.armPositions
  handPositions : db'.handPositions = db.handPositions
  handOrientations : db'.handOrientations = db.handOrientations
  restraintTypes : db'.restraintTypes = db.restraintTypes

section
variable {db db' db'' : Database} {s : Session} {clock : Time} {may : Special → Prop}

theorem positionsApproved_of_mem {a : Application} (h : a ∈ db.applications) :
    PositionsApproved db (db.applications.find? a.id) a := by
  have hfind : db.applications.find? a.id = some a := Table.find?_eq_some.mpr ⟨h, rfl⟩
  rw [hfind]
  exact positionsApproved_same rfl rfl rfl

theorem LinksApproved.of_applications (ha : db'.applications = db.applications)
    (hr : ∀ r ∈ db'.restraints, r ∈ db.restraints ∨
      Approved db.restraintTypes r.restraintTypeId) : LinksApproved db db' where
  positions _ hm := positionsApproved_of_mem (ha ▸ hm)
  restraints := hr

theorem LinksApproved.refl (db : Database) : LinksApproved db db :=
  .of_applications rfl fun _ hr => .inl hr

theorem PositionsApproved.trans {old : Option Application} {mid : Application}
    {new : Application} (hsame : SameCatalogs db db') (h : PositionsApproved db old mid)
    (h' : PositionsApproved db' (some mid) new) : PositionsApproved db old new := by
  constructor
  · intro k hk
    rcases h'.armPosition k hk with hmid | happ
    · exact h.armPosition k hmid
    · exact .inr (hsame.armPositions ▸ happ)
  · intro k hk
    rcases h'.handPosition k hk with hmid | happ
    · exact h.handPosition k hmid
    · exact .inr (hsame.handPositions ▸ happ)
  · intro k hk
    rcases h'.handOrientation k hk with hmid | happ
    · exact h.handOrientation k hmid
    · exact .inr (hsame.handOrientations ▸ happ)

theorem PositionsApproved.of_none {old : Option Application} {new : Application}
    (hsame : SameCatalogs db db') (h : PositionsApproved db' none new) :
    PositionsApproved db old new := by
  constructor
  · intro k hk
    exact .inr (hsame.armPositions ▸ (h.armPosition k hk).resolve_left (by simp))
  · intro k hk
    exact .inr (hsame.handPositions ▸ (h.handPosition k hk).resolve_left (by simp))
  · intro k hk
    exact .inr (hsame.handOrientations ▸ (h.handOrientation k hk).resolve_left (by simp))

theorem SameCatalogs.refl (db : Database) : SameCatalogs db db := ⟨rfl, rfl, rfl, rfl⟩

theorem SameCatalogs.trans (h : SameCatalogs db db') (h' : SameCatalogs db' db'') :
    SameCatalogs db db'' :=
  ⟨h'.armPositions.trans h.armPositions, h'.handPositions.trans h.handPositions,
    h'.handOrientations.trans h.handOrientations, h'.restraintTypes.trans h.restraintTypes⟩

theorem LinksApproved.trans (h : LinksApproved db db') (hsame : SameCatalogs db db')
    (h' : LinksApproved db' db'') : LinksApproved db db'' where
  positions a hm := by
    have hnew := h'.positions a hm
    cases hmid : db'.applications.find? a.id with
    | none =>
      rw [hmid] at hnew
      exact hnew.of_none hsame
    | some mid =>
      rw [hmid] at hnew
      have hid : mid.id = a.id := Table.key_of_find? hmid
      have hold := h.positions mid (Table.mem_of_find? hmid)
      rw [hid] at hold
      exact hold.trans hsame hnew
  restraints r hm := by
    rcases h'.restraints r hm with hm | happ
    · exact h.restraints r hm
    · exact .inr (hsame.restraintTypes ▸ happ)

-- ---------------------------------------------------------------------------
-- Each write
-- ---------------------------------------------------------------------------

theorem Write.sameCatalogs (h : Write may s clock db db') : SameCatalogs db db' := by
  cases h with
  | eventDeleted =>
    unfold Database.deleteEvent
    split <;> exact ⟨rfl, rfl, rfl, rfl⟩
  | linkDeleted =>
    unfold Database.deleteParticipant
    split <;> exact ⟨rfl, rfl, rfl, rfl⟩
  | applicationDeleted =>
    unfold Database.deleteApplication
    split <;> exact ⟨rfl, rfl, rfl, rfl⟩
  | _ => exact ⟨rfl, rfl, rfl, rfl⟩

theorem linksApproved_applicationWritten {old new : Application} (hold : old ∈ db.applications)
    (hid : new.id = old.id) (hpos : PositionsApproved db (some old) new) :
    LinksApproved db (applicationWritten db clock new) where
  positions a hm := by
    rcases Table.mem_set hm with rfl | ⟨hm, -⟩
    · rw [show db.applications.find? new.id = some old from
        Table.find?_eq_some.mpr ⟨hold, hid.symm⟩]
      exact ⟨hpos.armPosition, hpos.handPosition, hpos.handOrientation⟩
    · exact positionsApproved_of_mem hm
  restraints _ hr := .inl hr

theorem Write.linksApproved (hr : s.role ≠ .admin)
    (hno : ∀ aid payload, ¬ may (.applicationPatch aid payload)) (h : Write may s clock db db') :
    LinksApproved db db' := by
  cases h with
  | eventInserted => exact .of_applications rfl fun _ hr => .inl hr
  | @eventWritten old new _ _ _ _ =>
    refine ⟨fun a hm => ?_, fun _ hr => .inl hr⟩
    obtain ⟨r, hmem, rfl⟩ := Services.mem_applications_eventWritten.mp hm
    have hfind : db.applications.find? r.id = some r := Table.find?_eq_some.mpr ⟨hmem, rfl⟩
    rw [Services.childAfter_id, hfind]
    obtain ⟨_, _, _, _, he⟩ := Services.childAfter_eq clock old new r
    rw [he]
    exact positionsApproved_same rfl rfl rfl
  | eventDeleted =>
    unfold Database.deleteEvent
    split
    · exact ⟨fun a hm => positionsApproved_of_mem (Table.mem_filter.mp hm).1,
        fun r hm => .inl (Table.mem_filter.mp hm).1⟩
    · exact .refl db
  | linkInserted => exact .of_applications rfl fun _ hr => .inl hr
  | linkDeleted =>
    unfold Database.deleteParticipant
    split <;> exact .of_applications rfl fun _ hr => .inl hr
  | applicationInserted ht _ _ _ _ hpos =>
    refine ⟨fun a hm => ?_, fun _ hr => .inl hr⟩
    rcases (Table.mem_insert? ht).mp hm with hm | rfl
    · exact positionsApproved_of_mem hm
    · exact (hpos hr).of_none (.refl db)
  | applicationWritten hold hid _ _ _ hpos =>
    exact linksApproved_applicationWritten hold hid (hpos hr)
  | applicationPatched _ _ hmay => exact absurd hmay (hno _ _)
  | applicationDeleted =>
    unfold Database.deleteApplication
    split
    · exact ⟨fun a hm => positionsApproved_of_mem (Table.mem_filter.mp hm).1,
        fun r hm => .inl (Table.mem_filter.mp hm).1⟩
    · exact .refl db
  | restraintsSet h _ => exact .of_applications rfl (h.approved hr)
  | restraintsReplaced h _ => exact .of_applications rfl (h.approved hr)
  | personsMerged hadmin => exact absurd hadmin hr

end

-- ---------------------------------------------------------------------------
-- Every run
-- ---------------------------------------------------------------------------

/-- A patch that changes an application sets approved positions only. -/
def PatchApproved (db : Database) (s : Session) : Operation → Prop
  | .patchApplication aid payload =>
    ∀ a, Services.getApplication db s aid = some a → ¬ payload.NullsRequired →
      applicationWritable db s a → db.ChangedRefs a (payload.apply a) →
        PositionsApproved db (some a) (payload.apply a)
  | _ => True

section
variable {db db' : Database} {s : Session} {clock : Time}

theorem patchApplication_linksApproved {aid : Uuid} {payload : ApplicationUpdate}
    (h : patchApplication db s clock aid payload = .ok db') :
    LinksApproved db db' ↔ PatchApproved db s (.patchApplication aid payload) := by
  obtain ⟨a, ha, h⟩ := bind_ok.mp h
  have hget := orNotFound_ok.mp ha
  unfold Services.updateApplication at h
  obtain ⟨_, hnull, h⟩ := bind_ok.mp h
  have hold := Table.mem_of_find? (getApplication_live hget).1
  rcases Database.updateApplication_ok.mp (Services.flush_ok.mp h) with
    ⟨hsame, rfl⟩ | ⟨-, hw, hrefs, rfl⟩
  · refine iff_of_true (.refl db') fun a' ha' _ _ _ => ?_
    obtain rfl := Option.some.inj (hget.symm.trans ha')
    rw [hsame]
    exact positionsApproved_same rfl rfl rfl
  · constructor
    · intro hlinks a' ha' _ _ _
      obtain rfl := Option.some.inj (hget.symm.trans ha')
      have hnew := hlinks.positions { payload.apply a with updatedAt := clock }
        (Table.mem_set_self hold rfl)
      rw [show db.applications.find? (payload.apply a).id = some a from
        Table.find?_eq_some.mpr ⟨hold, rfl⟩] at hnew
      exact ⟨hnew.armPosition, hnew.handPosition, hnew.handOrientation⟩
    · intro hpatch
      exact linksApproved_applicationWritten hold rfl
        (hpatch a hget (Services.rejectIf_ok.mp hnull) hw hrefs)

theorem execute_linksApproved {operation : Operation} (hr : s.role ≠ .admin)
    (h : execute db s clock operation = .ok db') :
    LinksApproved db db' ↔ PatchApproved db s operation := by
  by_cases hpatch : ∃ aid payload, operation = .patchApplication aid payload
  · obtain ⟨aid, payload, rfl⟩ := hpatch
    exact patchApplication_linksApproved h
  · have hno : ∀ aid payload, ¬ operation.may (.applicationPatch aid payload) := by
      intro aid payload hmay
      cases operation with
      | patchApplication aid' payload' => exact hpatch ⟨aid', payload', rfl⟩
      | _ => simp [Operation.may] at hmay
    have htrue : PatchApproved db s operation := by
      cases operation with
      | patchApplication aid payload => exact absurd ⟨aid, payload, rfl⟩ hpatch
      | _ => trivial
    refine iff_of_true ?_ htrue
    rcases execute_writes h with ⟨tables, -, rfl⟩ | hwrites
    · exact .of_applications rfl fun _ hr => .inl hr
    · refine (hwrites.rule (R := fun db db' => LinksApproved db db' ∧ SameCatalogs db db')
        (fun db => ⟨.refl db, .refl db⟩)
        (fun _ _ _ h h' => ⟨h.1.trans h.2 h'.1, h.2.trans h'.2⟩)
        fun _ _ _ _ hw => ⟨hw.linksApproved hr hno, hw.sameCatalogs⟩).1

theorem patchApplication_accepted (clock : Time) {aid : Uuid} {payload : ApplicationUpdate}
    {a : Application} (hget : Services.getApplication db s aid = some a)
    (hnull : ¬ payload.NullsRequired) (hw : applicationWritable db s a)
    (hrefs : db.ChangedRefs a (payload.apply a)) :
    ∃ db', patchApplication db s clock aid payload = .ok db' := by
  unfold patchApplication Services.updateApplication
  simp only [hget, orNotFound, Services.rejectIf, hnull, if_false]
  by_cases hsame : payload.apply a = a
  · exact ⟨db, Services.flush_ok.mpr (Database.updateApplication_ok.mpr (.inl ⟨hsame, rfl⟩))⟩
  · exact ⟨_, Services.flush_ok.mpr
      (Database.updateApplication_ok.mpr (.inr ⟨hsame, hw, hrefs, rfl⟩))⟩

def RequestLinksApproved (db : Database) (request : Request) : Prop :=
  ∀ s db', authenticate db request.userId request.now = .ok s → s.role ≠ .admin →
    execute db s request.clock request.operation = .ok db' → LinksApproved db db'

def RequestPatchApproved (db : Database) (request : Request) : Prop :=
  ∀ s, authenticate db request.userId request.now = .ok s → s.role ≠ .admin →
    PatchApproved db s request.operation

theorem requestLinksApproved_iff {request : Request} :
    RequestLinksApproved db request ↔ RequestPatchApproved db request := by
  constructor
  · intro h s hs hr
    cases hop : request.operation with
    | patchApplication aid payload =>
      intro a hget hnull hw hrefs
      obtain ⟨db', hok⟩ := patchApplication_accepted request.clock hget hnull hw hrefs
      have hlinks := h s db' hs hr (hop ▸ hok)
      exact (patchApplication_linksApproved hok).mp hlinks a hget hnull hw hrefs
    | _ => trivial
  · intro h s db' hs hr hok
    exact (execute_linksApproved hr hok).mpr (h s hs hr)

end

/-- Every write of every run links approved entries exactly when every patch
does. -/
theorem run_linksApproved (db : Database) (requests : List Request) :
    Run.Along step RequestLinksApproved db requests ↔
      Run.Along step RequestPatchApproved db requests :=
  ⟨fun h => h.mono fun _ _ => requestLinksApproved_iff.mp,
    fun h => h.mono fun _ _ => requestLinksApproved_iff.mpr⟩

-- ---------------------------------------------------------------------------
-- A pending position
-- ---------------------------------------------------------------------------

def samplePending : Database :=
  { sample with armPositions := ⟨[⟨7, .pending, some 2⟩], by decide⟩ }

def patchPending : Request :=
  ⟨2, 100, 101, .patchApplication 1
    { performerId := none
      recipientId := none
      armPositionId := some (some 7)
      handPositionId := none
      handOrientationId := none
      startedAt := none
      endedAt := none
      note := none }⟩

theorem pending_position_linked :
    ¬ Run.Along step RequestLinksApproved samplePending [patchPending] := by
  intro h
  have hlinks := h.1 sampleOwner _ rfl (by decide) rfl
  rcases (hlinks.positions { sampleApplication with armPositionId := some 7, updatedAt := 101 }
    (by decide +kernel)).armPosition 7 rfl with hkept | ⟨c, hc, -, happ⟩
  · exact absurd hkept (by decide +kernel)
  · obtain rfl : c = ⟨7, .pending, some 2⟩ := List.mem_singleton.mp hc
    cases happ

end HcMap.Routes
