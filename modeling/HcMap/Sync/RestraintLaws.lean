import Mathlib.Data.List.Dedup
import Mathlib.Data.List.Perm.Subperm
import HcMap.Sync.PushApplications

/-!
# Restraint sets

`syncApplicationRestraints` replaces the set of one application where the
session may write it, and does nothing where it may not; either way it touches
no other application's set and no other table.
-/

namespace HcMap.Sync

def HasRestraint (db : Database) (applicationId restraintTypeId : Uuid) : Prop :=
  ∃ r ∈ db.restraints, r.applicationId = applicationId ∧ r.restraintTypeId = restraintTypeId

instance (db : Database) (aid rid : Uuid) : Decidable (HasRestraint db aid rid) := by
  unfold HasRestraint
  infer_instance

section
variable {db db' : Database} {s : Session} {aid rid : Uuid} {ids : List Uuid}
  {r : ApplicationRestraint}

theorem mem_restraints_iff_hasRestraint :
    (db.restraints.find? (aid, rid)).isSome ↔ HasRestraint db aid rid := by
  simp [Table.find?_isSome, HasRestraint]

theorem hasRestraint_congr (h : db'.restraints = db.restraints) :
    HasRestraint db' aid rid ↔ HasRestraint db aid rid := by
  unfold HasRestraint
  rw [h]

theorem mem_loadRestraintSet :
    rid ∈ loadRestraintSet db s aid ↔
      ∃ r ∈ db.restraints, (r.applicationId = aid ∧ restraintVisible db s r) ∧
        r.restraintTypeId = rid := by
  unfold loadRestraintSet
  rw [List.mem_insertionSort, List.mem_map]
  simp only [List.mem_filter, decide_eq_true_eq, Table.mem_rows, and_assoc]

theorem mem_loadRestraintSet_iff {a : Application} (ha : a ∈ db.applications) :
    rid ∈ loadRestraintSet db s a.id ↔
      appUserCanSeeEvent db s a.eventId ∧ HasRestraint db a.id rid := by
  rw [mem_loadRestraintSet]
  constructor
  · rintro ⟨r, hr, ⟨hra, hv⟩, hrx⟩
    exact ⟨(restraintVisible_iff ha hra.symm).mp hv, r, hr, hra, hrx⟩
  · rintro ⟨hsee, r, hr, hra, hrx⟩
    exact ⟨r, hr, ⟨hra, (restraintVisible_iff ha hra.symm).mpr hsee⟩, hrx⟩

-- ---------------------------------------------------------------------------
-- Adding links
-- ---------------------------------------------------------------------------

theorem addRestraint_cases (db : Database) (s : Session) (aid rid : Uuid) :
    addRestraint s aid db rid = db ∨
      (restraintWritable db s ⟨aid, rid, s.now⟩ ∧ ∃ t,
        db.restraints.insert? ⟨aid, rid, s.now⟩ = some t ∧
          addRestraint s aid db rid = { db with restraints := t }) := by
  unfold addRestraint
  split
  · rename_i db' h
    obtain ⟨hw, -, t, ht, rfl⟩ := Database.insertRow_ok.mp h
    exact .inr ⟨hw, t, ht, rfl⟩
  · exact .inl rfl

theorem addRestraint_eq (db : Database) (s : Session) (aid rid : Uuid) :
    ∃ t, addRestraint s aid db rid = { db with restraints := t } := by
  rcases addRestraint_cases db s aid rid with h | ⟨-, t, -, h⟩
  · exact ⟨db.restraints, h⟩
  · exact ⟨t, h⟩

theorem foldl_addRestraint_eq (db : Database) (s : Session) (aid : Uuid) (ids : List Uuid) :
    ∃ t, ids.foldl (addRestraint s aid) db = { db with restraints := t } := by
  induction ids generalizing db with
  | nil => exact ⟨db.restraints, rfl⟩
  | cons rid ids ih =>
    obtain ⟨t, ht⟩ := addRestraint_eq db s aid rid
    obtain ⟨t', ht'⟩ := ih (addRestraint s aid db rid)
    exact ⟨t', by rw [List.foldl_cons, ht', ht]⟩

theorem mem_foldl_addRestraint_ne (hr : r.applicationId ≠ aid) :
    r ∈ (ids.foldl (addRestraint s aid) db).restraints ↔ r ∈ db.restraints := by
  induction ids generalizing db with
  | nil => rfl
  | cons rid ids ih =>
    rw [List.foldl_cons, ih]
    rcases addRestraint_cases db s aid rid with h | ⟨-, t, ht, h⟩
    · rw [h]
    · rw [h, Table.mem_insert? ht, or_iff_left]
      rintro rfl
      exact hr rfl

theorem mem_foldl_addRestraint (h : r ∈ (ids.foldl (addRestraint s aid) db).restraints) :
    r ∈ db.restraints ∨ r.restraintTypeId ∈ ids := by
  induction ids generalizing db with
  | nil => exact .inl h
  | cons rid ids ih =>
    rw [List.foldl_cons] at h
    rcases ih h with h | h
    · rcases addRestraint_cases db s aid rid with he | ⟨-, t, ht, he⟩
      · rw [he] at h
        exact .inl h
      · rw [he, Table.mem_insert? ht] at h
        rcases h with h | rfl
        · exact .inl h
        · exact .inr (by simp)
    · exact .inr (List.mem_cons_of_mem rid h)

theorem foldl_addRestraint_readonly (hw : ∀ rid t, ¬ restraintWritable db s ⟨aid, rid, t⟩) :
    ids.foldl (addRestraint s aid) db = db := by
  induction ids generalizing db with
  | nil => rfl
  | cons rid ids ih =>
    have hstep : addRestraint s aid db rid = db := by
      rcases addRestraint_cases db s aid rid with h | ⟨h, -⟩
      · exact h
      · exact absurd h (hw _ _)
    rw [List.foldl_cons, hstep, ih hw]

theorem hasRestraint_addRestraint {x : Uuid} (hw : restraintWritable db s ⟨aid, rid, s.now⟩)
    (ha : (db.applications.find? aid).isSome) (hx : (db.restraintTypes.find? rid).isSome) :
    HasRestraint (addRestraint s aid db rid) aid x ↔ HasRestraint db aid x ∨ x = rid := by
  unfold addRestraint
  cases hi : db.restraints.insert? ⟨aid, rid, s.now⟩ with
  | none =>
    have hhas : HasRestraint db aid rid :=
      mem_restraints_iff_hasRestraint.mp (Table.insert?_eq_none.mp hi)
    have herr : db.insertRestraint s ⟨aid, rid, s.now⟩ = .error .integrity := by
      simp [Database.insertRestraint, Database.insertRow, hw, ha, hx, hi]
    rw [herr]
    constructor
    · exact .inl
    · rintro (h | rfl)
      · exact h
      · exact hhas
  | some t =>
    have hok : db.insertRestraint s ⟨aid, rid, s.now⟩ = .ok { db with restraints := t } :=
      Database.insertRow_ok.mpr ⟨hw, ⟨ha, hx⟩, t, hi, rfl⟩
    rw [hok]
    constructor
    · rintro ⟨r, hr, hra, hrx⟩
      rcases (Table.mem_insert? hi).mp hr with h | rfl
      · exact .inl ⟨r, h, hra, hrx⟩
      · exact .inr hrx.symm
    · rintro (⟨r, hr, hra⟩ | rfl)
      · exact ⟨r, (Table.mem_insert? hi).mpr (.inl hr), hra⟩
      · exact ⟨_, (Table.mem_insert? hi).mpr (.inr rfl), rfl, rfl⟩

theorem hasRestraint_foldl_addRestraint (db : Database) {x : Uuid}
    (hw : ∀ rid t, restraintWritable db s ⟨aid, rid, t⟩)
    (ha : (db.applications.find? aid).isSome)
    (hids : ∀ rid ∈ ids, (db.restraintTypes.find? rid).isSome) :
    HasRestraint (ids.foldl (addRestraint s aid) db) aid x ↔ HasRestraint db aid x ∨ x ∈ ids := by
  induction ids generalizing db with
  | nil => simp
  | cons rid ids ih =>
    have hstep := hasRestraint_addRestraint (x := x) (hw rid s.now) ha (hids rid (by simp))
    obtain ⟨t, ht⟩ := addRestraint_eq db s aid rid
    rw [List.foldl_cons, List.mem_cons, ← or_assoc, ← hstep, ht]
    exact ih _ (by exact hw) ha fun rid h => hids rid (List.mem_cons_of_mem _ h)

-- ---------------------------------------------------------------------------
-- Replacing the set
-- ---------------------------------------------------------------------------

theorem hasRestraint_deleteRestraints (hw : ∀ rid t, restraintWritable db s ⟨aid, rid, t⟩) :
    HasRestraint (deleteRestraints db s aid ids) aid rid ↔ HasRestraint db aid rid ∧ rid ∉ ids := by
  constructor
  · rintro ⟨r, hr, rfl, rfl⟩
    obtain ⟨hm, hf⟩ := Table.mem_filter.mp hr
    have hwr : restraintWritable db s r := hw r.restraintTypeId r.createdAt
    simp only [hwr, decide_eq_true_eq, true_and, and_true] at hf
    exact ⟨⟨r, hm, rfl, rfl⟩, hf⟩
  · rintro ⟨⟨r, hr, rfl, rfl⟩, hni⟩
    exact ⟨r, Table.mem_filter.mpr ⟨hr, by simp [hni]⟩, rfl, rfl⟩

theorem deleteRestraints_readonly (hw : ∀ rid t, ¬ restraintWritable db s ⟨aid, rid, t⟩) :
    deleteRestraints db s aid ids = db := by
  have hrows : (deleteRestraints db s aid ids).restraints = db.restraints := by
    refine Table.ext (List.filter_eq_self.mpr fun r _ => ?_)
    simp only [decide_eq_true_eq]
    rintro ⟨rfl, -, h⟩
    exact hw r.restraintTypeId r.createdAt h
  calc deleteRestraints db s aid ids
      = { db with restraints := (deleteRestraints db s aid ids).restraints } := rfl
    _ = db := by rw [hrows]

theorem syncApplicationRestraints_eq (db : Database) (s : Session) (aid : Uuid) (ids : List Uuid) :
    ∃ t, syncApplicationRestraints db s aid ids = { db with restraints := t } :=
  foldl_addRestraint_eq (deleteRestraints db s aid _) s aid _

theorem mem_syncApplicationRestraints_ne (hr : r.applicationId ≠ aid) :
    r ∈ (syncApplicationRestraints db s aid ids).restraints ↔ r ∈ db.restraints := by
  unfold syncApplicationRestraints
  rw [mem_foldl_addRestraint_ne hr, deleteRestraints, Table.mem_filter]
  simp [hr]

theorem mem_syncApplicationRestraints
    (h : r ∈ (syncApplicationRestraints db s aid ids).restraints) :
    r ∈ db.restraints ∨ r.restraintTypeId ∈ ids := by
  unfold syncApplicationRestraints at h
  rcases mem_foldl_addRestraint h with h | h
  · exact .inl (Table.mem_filter.mp h).1
  · exact .inr (List.mem_dedup.mp (List.mem_filter.mp h).1)

theorem hasRestraint_syncApplicationRestraints_ne {aid' : Uuid} (h : aid' ≠ aid) :
    HasRestraint (syncApplicationRestraints db s aid ids) aid' rid ↔ HasRestraint db aid' rid := by
  constructor
  · rintro ⟨r, hr, rfl, hx⟩
    exact ⟨r, (mem_syncApplicationRestraints_ne h).mp hr, rfl, hx⟩
  · rintro ⟨r, hr, rfl, hx⟩
    exact ⟨r, (mem_syncApplicationRestraints_ne h).mpr hr, rfl, hx⟩

theorem mem_loadRestraintSet_of_writable {a : Application} (ha : a ∈ db.applications)
    (hw : applicationWritable db s a) :
    rid ∈ loadRestraintSet db s a.id ↔ HasRestraint db a.id rid := by
  have hsee : appUserCanSeeEvent db s a.eventId := canSee_of_childWritable hw
  rw [mem_loadRestraintSet_iff ha, and_iff_right hsee]

/-- With write access the set becomes the target. -/
theorem hasRestraint_syncApplicationRestraints {a : Application} (ha : a ∈ db.applications)
    (hid : a.id = aid) (hw : applicationWritable db s a)
    (hids : ∀ rid ∈ ids, (db.restraintTypes.find? rid).isSome) :
    HasRestraint (syncApplicationRestraints db s aid ids) aid rid ↔ rid ∈ ids := by
  subst hid
  have hwr : ∀ rid t, restraintWritable db s ⟨a.id, rid, t⟩ := fun rid t =>
    (restraintWritable_iff ha rfl).mpr hw
  have hex : (db.applications.find? a.id).isSome := Table.find?_isSome.mpr ⟨a, ha, rfl⟩
  simp only [syncApplicationRestraints]
  rw [hasRestraint_foldl_addRestraint (deleteRestraints db s a.id _) (by exact hwr) hex,
    hasRestraint_deleteRestraints hwr]
  · simp only [List.mem_filter, List.mem_dedup, decide_eq_true_eq,
      mem_loadRestraintSet_of_writable ha hw]
    tauto
  · intro x hx
    exact hids x (List.mem_dedup.mp (List.mem_filter.mp hx).1)

theorem syncApplicationRestraints_readonly {a : Application} (ha : a ∈ db.applications)
    (hid : a.id = aid) (hw : ¬ applicationWritable db s a) :
    syncApplicationRestraints db s aid ids = db := by
  have hwr : ∀ rid t, ¬ restraintWritable db s ⟨aid, rid, t⟩ := fun rid t h =>
    hw ((restraintWritable_iff ha hid).mp h)
  simp only [syncApplicationRestraints]
  rw [deleteRestraints_readonly hwr, foldl_addRestraint_readonly hwr]

theorem syncApplicationRestraints_eq_self {a : Application} (ha : a ∈ db.applications)
    (h : ∀ rid, HasRestraint db a.id rid ↔ rid ∈ ids) :
    syncApplicationRestraints db s a.id ids = db := by
  by_cases hw : applicationWritable db s a
  · have hload : ∀ rid, rid ∈ loadRestraintSet db s a.id ↔ rid ∈ ids := fun rid =>
      (mem_loadRestraintSet_of_writable ha hw).trans (h rid)
    have hdel : (loadRestraintSet db s a.id).filter (fun id => id ∉ ids) = [] := by
      simp [hload]
    have hadd : ids.dedup.filter (fun id => id ∉ loadRestraintSet db s a.id) = [] := by
      simp [hload]
    have hkeep : deleteRestraints db s a.id [] = db := by
      have : (deleteRestraints db s a.id []).restraints = db.restraints :=
        Table.ext (List.filter_eq_self.mpr fun r _ => by simp)
      calc deleteRestraints db s a.id []
          = { db with restraints := (deleteRestraints db s a.id []).restraints } := rfl
        _ = db := by rw [this]
    simp only [syncApplicationRestraints]
    rw [hdel, hadd, hkeep]
    rfl
  · exact syncApplicationRestraints_readonly ha rfl hw

-- ---------------------------------------------------------------------------
-- Allowed sets
-- ---------------------------------------------------------------------------

/-- Counting the selected rows finds an unknown id. -/
theorem restraintsAllowed_mem (h : restraintsAllowed db s ids) (hid : rid ∈ ids) :
    ∃ c ∈ selectedRestraintTypes db s ids,
      c.id = rid ∧ (s.role = .admin ∨ c.status = .approved) := by
  rcases h with rfl | ⟨hlen, hall⟩
  · simp at hid
  have hnodup : ((selectedRestraintTypes db s ids).map CatalogEntry.id).Nodup :=
    db.restraintTypes.nodup.sublist (List.filter_sublist.map CatalogEntry.id)
  have hsub : (selectedRestraintTypes db s ids).map CatalogEntry.id ⊆ ids.dedup := by
    intro x hx
    obtain ⟨c, hc, rfl⟩ := List.mem_map.mp hx
    have := (List.mem_filter.mp hc).2
    simp only [decide_eq_true_eq] at this
    exact List.mem_dedup.mpr this.1
  have hperm := (hnodup.subperm hsub).perm_of_length_le (by simp [hlen])
  have hmem := hperm.mem_iff.mpr (List.mem_dedup.mpr hid)
  obtain ⟨c, hc, rfl⟩ := List.mem_map.mp hmem
  exact ⟨c, hc, rfl, hall.imp_right fun hall => hall c hc⟩

theorem restraintsAllowed_iff :
    restraintsAllowed db s ids ↔
      ∀ rid ∈ ids, ∃ c, Database.getCatalogEntry db.restraintTypes s rid = some c ∧
        (s.role = .admin ∨ c.status = .approved) := by
  constructor
  · intro h rid hid
    obtain ⟨c, hc, rfl, hmay⟩ := restraintsAllowed_mem h hid
    obtain ⟨hc, hv⟩ := List.mem_filter.mp hc
    simp only [decide_eq_true_eq] at hv
    exact ⟨c, Database.getCatalogEntry_eq_some.mpr
      ⟨Table.find?_eq_some.mpr ⟨hc, rfl⟩, hv.2⟩, hmay⟩
  · intro h
    refine .inr ⟨?_, ?_⟩
    · have hnodup : ((selectedRestraintTypes db s ids).map CatalogEntry.id).Nodup :=
        db.restraintTypes.nodup.sublist (List.filter_sublist.map CatalogEntry.id)
      have hperm : ((selectedRestraintTypes db s ids).map CatalogEntry.id).Perm ids.dedup := by
        refine (List.perm_ext_iff_of_nodup hnodup ids.nodup_dedup).mpr fun rid => ?_
        simp only [List.mem_map, selectedRestraintTypes, List.mem_filter, decide_eq_true_eq,
          List.mem_dedup]
        constructor
        · rintro ⟨c, ⟨-, hid, -⟩, rfl⟩
          exact hid
        · intro hid
          obtain ⟨c, hc, -⟩ := h rid hid
          obtain ⟨hfind, hv⟩ := Database.getCatalogEntry_eq_some.mp hc
          have hkey : c.id = rid := Table.key_of_find? hfind
          exact ⟨c, ⟨Table.mem_of_find? hfind, by rwa [hkey], hv⟩, hkey⟩
      simpa using hperm.length_eq
    · by_cases hadmin : s.role = .admin
      · exact .inl hadmin
      · refine .inr fun c hc => ?_
        obtain ⟨hmem, hv⟩ := List.mem_filter.mp hc
        simp only [decide_eq_true_eq] at hv
        obtain ⟨c', hc', hmay⟩ := h c.id hv.1
        have hfind := (Database.getCatalogEntry_eq_some.mp hc').1
        obtain rfl := Table.eq_of_key (Table.mem_of_find? hfind) hmem (Table.key_of_find? hfind)
        exact hmay.resolve_left hadmin

theorem restraintsAllowed_isSome (h : restraintsAllowed db s ids) (hid : rid ∈ ids) :
    (db.restraintTypes.find? rid).isSome := by
  obtain ⟨c, hc, rfl, -⟩ := restraintsAllowed_mem h hid
  exact Table.find?_isSome.mpr ⟨c, (List.mem_filter.mp hc).1, rfl⟩

end

end HcMap.Sync
