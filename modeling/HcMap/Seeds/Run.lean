import HcMap.Services.CatalogTrail

/-!
# Seeding the catalogs

`python -m app.seeds.run`: the four lists of seeds and the loop that inserts
them, in one transaction. The ids are what `uuid7` draws, one for each seed
whether or not its row is inserted.
-/

namespace HcMap.Seeds

open Catalog

-- ---------------------------------------------------------------------------
-- The loop
-- ---------------------------------------------------------------------------

/-- The audit columns that the `INSERT` leaves out are null. -/
def seedEntry (id : Uuid) : AuditedEntry where
  id := id
  status := .approved
  suggestedBy := none
  approvedBy := none
  rejectedBy := none
  rejectedAt := none
  rejectReason := none

section
variable {γ υ : Type} [CatalogModel γ υ]

/-- `INSERT … ON CONFLICT ON CONSTRAINT … DO NOTHING`, with its row count. A
clash of primary keys is not on that constraint, and raises. -/
def insertSql (t : Table (CatalogRow γ)) (id : Uuid) (columns : γ) :
    Option (Table (CatalogRow γ) × Nat) :=
  if ∃ r ∈ t, CatalogModel.unique r.columns columns then some (t, 0)
  else (t.insert? ⟨seedEntry id, columns⟩).map fun t' => (t', 1)

def seedRows : Table (CatalogRow γ) → List (Uuid × γ) → Nat → Option (Table (CatalogRow γ) × Nat)
  | t, [], inserted => some (t, inserted)
  | t, (id, columns) :: seeds, inserted => do
    let (t', rowcount) ← insertSql t id columns
    seedRows t' seeds (inserted + rowcount)

end

-- ---------------------------------------------------------------------------
-- The seeds
-- ---------------------------------------------------------------------------

def lookupSeed (name : Text) : LookupColumns := ⟨name, none⟩

def texts (l : List String) (h : ∀ s ∈ l, Char.ofNat 0 ∉ s.toList) : List Text := l.pmap Text.mk h

def armPositions : List LookupColumns :=
  (texts ["hinter dem Rücken", "vor dem Körper", "über dem Kopf", "hinter dem Kopf", "seitlich",
    "gespreizt", "am Körper anliegend", "Strappado"] (by decide)).map lookupSeed

def handPositions : List LookupColumns :=
  (texts ["Handgelenke", "Daumen", "Unterarme", "Handgelenk-an-Ellbogen"] (by decide)).map
    lookupSeed

def handOrientations : List LookupColumns :=
  (texts ["Handrücken zueinander", "Handflächen zueinander", "parallel", "überkreuzt",
    "Daumen-zu-Daumen"] (by decide)).map lookupSeed

/-- `note`, which no seed has and the `INSERT` does not write, is left out. -/
structure RestraintTypeSeed where
  category : RestraintCategory
  brand : Option String
  model : Option String
  mechanicalType : Option RestraintMechanicalType
  displayName : String

def mechanicalTypeValue : RestraintMechanicalType → String
  | .chain => "chain"
  | .hinged => "hinged"
  | .rigid => "rigid"

def cuff (brand model : String) (mech : RestraintMechanicalType) : RestraintTypeSeed where
  category := .handcuffs
  brand := some brand
  model := some model
  mechanicalType := some mech
  displayName := brand ++ " " ++ model ++ " (" ++ mechanicalTypeValue mech ++ ")"

def seeds : List RestraintTypeSeed :=
  [cuff "ASP" "Chain" .chain,
   cuff "Smith & Wesson" "Model 100" .chain,
   cuff "Peerless" "Model 700" .chain,
   cuff "ASP" "Ultra Cuffs" .hinged,
   cuff "TCH" "840" .hinged,
   cuff "Peerless" "Model 730" .hinged,
   cuff "Clejuso" "Model 13" .rigid,
   cuff "Clejuso" "Model 15 Heavy" .rigid,
   cuff "ASP" "Rigid Ultra" .rigid,
   ⟨.thumbcuffs, some "Clejuso", some "Standard", none, "Clejuso Daumenschellen"⟩,
   ⟨.legcuffs, some "Peerless", some "Model 703", some .chain, "Peerless Model 703 Beinschellen"⟩,
   ⟨.rope, none, some "Seil", none, "Seil"⟩,
   ⟨.tape, none, some "Bondage-Tape", none, "Bondage-Tape"⟩,
   ⟨.tape, none, some "Klebeband", none, "Klebeband"⟩,
   ⟨.cloth, none, some "Schal", none, "Schal"⟩,
   ⟨.strap, none, some "Lederriemen", none, "Lederriemen"⟩,
   ⟨.cableTie, none, some "Kabelbinder", none, "Kabelbinder"⟩]

def RestraintTypeSeed.Storable (seed : RestraintTypeSeed) : Prop :=
  (∀ s ∈ seed.brand, Char.ofNat 0 ∉ s.toList) ∧ (∀ s ∈ seed.model, Char.ofNat 0 ∉ s.toList) ∧
    Char.ofNat 0 ∉ seed.displayName.toList

instance (seed : RestraintTypeSeed) : Decidable seed.Storable := by
  unfold RestraintTypeSeed.Storable
  infer_instance

def RestraintTypeSeed.columns (seed : RestraintTypeSeed) (h : seed.Storable) :
    RestraintTypeColumns where
  category := seed.category
  brand := seed.brand.pmap Text.mk h.1
  model := seed.model.pmap Text.mk h.2.1
  mechanicalType := seed.mechanicalType
  displayName := ⟨seed.displayName, h.2.2⟩
  note := none

def restraintTypes : List RestraintTypeColumns :=
  seeds.pmap RestraintTypeSeed.columns (by decide)

def Distinct {γ υ : Type} [CatalogModel γ υ] (l : List γ) : Prop :=
  l.Pairwise fun c c' => ¬ CatalogModel.unique c c'

theorem distinct_restraintTypes : Distinct restraintTypes := by
  unfold Distinct
  decide

theorem distinct_armPositions : Distinct armPositions := by
  unfold Distinct
  decide

theorem distinct_handPositions : Distinct handPositions := by
  unfold Distinct
  decide

theorem distinct_handOrientations : Distinct handOrientations := by
  unfold Distinct
  decide

-- ---------------------------------------------------------------------------
-- The script
-- ---------------------------------------------------------------------------

structure Catalogs where
  restraintTypes : Table (CatalogRow RestraintTypeColumns)
  armPositions : Table (CatalogRow LookupColumns)
  handPositions : Table (CatalogRow LookupColumns)
  handOrientations : Table (CatalogRow LookupColumns)

structure Inserted where
  rt : Nat
  ap : Nat
  hp : Nat
  ho : Nat
  deriving DecidableEq

def withIds {γ : Type} (uuid7 : Nat → Uuid) (drawn : Nat) (l : List γ) : List (Uuid × γ) :=
  l.mapIdx fun i columns => (uuid7 (drawn + i), columns)

/-- `none` is a transaction that raises, and leaves the catalogs as they were. -/
def main (uuid7 : Nat → Uuid) (c : Catalogs) : Option (Catalogs × Inserted) := do
  let (rts, rt) ← seedRows c.restraintTypes (withIds uuid7 0 restraintTypes) 0
  let (aps, ap) ← seedRows c.armPositions (withIds uuid7 17 armPositions) 0
  let (hps, hp) ← seedRows c.handPositions (withIds uuid7 25 handPositions) 0
  let (hos, ho) ← seedRows c.handOrientations (withIds uuid7 29 handOrientations) 0
  pure (⟨rts, aps, hps, hos⟩, ⟨rt, ap, hp, ho⟩)

-- ---------------------------------------------------------------------------
-- What the loop does
-- ---------------------------------------------------------------------------

section
variable {γ υ : Type} [CatalogModel γ υ] {t t' : Table (CatalogRow γ)} {l : List (Uuid × γ)}
  {id : Uuid} {columns : γ} {inserted n : Nat}

/-- The catalog has what the seed stands for, under whatever status. -/
def Holds (t : Table (CatalogRow γ)) (columns : γ) : Prop :=
  ∃ r ∈ t, CatalogModel.unique r.columns columns

instance (t : Table (CatalogRow γ)) (columns : γ) : Decidable (Holds t columns) := by
  unfold Holds
  infer_instance

def seedRow (seed : Uuid × γ) : CatalogRow γ := ⟨seedEntry seed.1, seed.2⟩

def missing (t : Table (CatalogRow γ)) (l : List (Uuid × γ)) : List (Uuid × γ) :=
  l.filter fun seed => ¬ Holds t seed.2

theorem insertSql_held (h : Holds t columns) : insertSql t id columns = some (t, 0) := if_pos h

theorem insertSql_new (h : ¬ Holds t columns) :
    insertSql t id columns = (t.insert? (seedRow (id, columns))).map fun t' => (t', 1) :=
  if_neg h

theorem holds_insert? {r : CatalogRow γ} (h : t.insert? r = some t') :
    Holds t' columns ↔ Holds t columns ∨ CatalogModel.unique r.columns columns := by
  unfold Holds
  constructor
  · rintro ⟨x, hx, hunique⟩
    rcases (Table.mem_insert? h).mp hx with hx | rfl
    · exact .inl ⟨x, hx, hunique⟩
    · exact .inr hunique
  · rintro (⟨x, hx, hunique⟩ | hunique)
    · exact ⟨x, (Table.mem_insert? h).mpr (.inl hx), hunique⟩
    · exact ⟨r, (Table.mem_insert? h).mpr (.inr rfl), hunique⟩

/-- The loop appends the missing seeds, in their order, and counts them. -/
theorem seedRows_eq (hdistinct : Distinct (l.map Prod.snd))
    (h : seedRows t l inserted = some (t', n)) :
    t'.rows = t.rows ++ (missing t l).map seedRow ∧ n = inserted + (missing t l).length := by
  induction l generalizing t inserted with
  | nil =>
    simp only [seedRows, Option.some.injEq, Prod.mk.injEq] at h
    obtain ⟨rfl, rfl⟩ := h
    simp [missing]
  | cons seed l ih =>
    obtain ⟨id, columns⟩ := seed
    rw [List.map_cons, Distinct, List.pairwise_cons] at hdistinct
    obtain ⟨hfirst, hrest⟩ := hdistinct
    by_cases hheld : Holds t columns
    · have hmissing : missing t ((id, columns) :: l) = missing t l :=
        List.filter_cons_of_neg (by simpa using hheld)
      simp only [seedRows, insertSql_held hheld, Option.bind_eq_bind, Option.bind_some] at h
      rw [hmissing]
      exact ih hrest h
    · have hmissing : missing t ((id, columns) :: l) = (id, columns) :: missing t l :=
        List.filter_cons_of_pos (by simpa using hheld)
      simp only [seedRows, insertSql_new hheld] at h
      obtain ⟨⟨t₁, m⟩, hsome, h⟩ := Option.bind_eq_some_iff.mp h
      obtain ⟨t₂, hinsert, heq⟩ := Option.map_eq_some_iff.mp hsome
      cases heq
      -- the new row meets none of the seeds still to come
      have hsame : missing t₁ l = missing t l := by
        refine List.filter_congr fun seed hseed => ?_
        have hne := hfirst seed.2 (List.mem_map_of_mem hseed)
        simp [holds_insert? hinsert, seedRow, hne]
      obtain ⟨hrows, hn⟩ := ih hrest h
      rw [hsame, (Table.insert?_eq_some.mp hinsert).2] at hrows
      rw [hsame] at hn
      rw [hmissing]
      refine ⟨by simp [hrows], ?_⟩
      rw [hn, List.length_cons]
      omega

theorem mem_seedRows (h : seedRows t l inserted = some (t', n)) :
    (∀ r ∈ t, r ∈ t') ∧ ∀ r ∈ t', r ∈ t ∨ ∃ seed ∈ l, r = seedRow seed := by
  induction l generalizing t inserted with
  | nil =>
    simp only [seedRows, Option.some.injEq, Prod.mk.injEq] at h
    obtain ⟨rfl, -⟩ := h
    exact ⟨fun r hr => hr, fun r hr => .inl hr⟩
  | cons seed l ih =>
    obtain ⟨id, columns⟩ := seed
    by_cases hheld : Holds t columns
    · simp only [seedRows, insertSql_held hheld, Option.bind_eq_bind, Option.bind_some] at h
      obtain ⟨hstay, hcome⟩ := ih h
      refine ⟨hstay, fun r hr => (hcome r hr).imp_right ?_⟩
      exact fun ⟨seed, hseed, heq⟩ => ⟨seed, List.mem_cons_of_mem _ hseed, heq⟩
    · simp only [seedRows, insertSql_new hheld] at h
      obtain ⟨⟨t₁, m⟩, hsome, h⟩ := Option.bind_eq_some_iff.mp h
      obtain ⟨t₂, hinsert, heq⟩ := Option.map_eq_some_iff.mp hsome
      cases heq
      obtain ⟨hstay, hcome⟩ := ih h
      refine ⟨fun r hr => hstay r ((Table.mem_insert? hinsert).mpr (.inl hr)), fun r hr => ?_⟩
      rcases hcome r hr with hr | ⟨seed, hseed, heq⟩
      · exact ((Table.mem_insert? hinsert).mp hr).imp_right fun heq =>
          ⟨(id, columns), List.mem_cons_self .., heq⟩
      · exact .inr ⟨seed, List.mem_cons_of_mem _ hseed, heq⟩

theorem seedRows_isSome (hids : (l.map Prod.fst).Nodup)
    (hfree : ∀ seed ∈ l, t.find? seed.1 = none) : ∃ t' n, seedRows t l inserted = some (t', n) := by
  induction l generalizing t inserted with
  | nil => exact ⟨t, inserted, rfl⟩
  | cons seed l ih =>
    obtain ⟨id, columns⟩ := seed
    rw [List.map_cons, List.nodup_cons] at hids
    obtain ⟨hnew, hids⟩ := hids
    have hrest : ∀ seed ∈ l, t.find? seed.1 = none :=
      fun seed hseed => hfree seed (List.mem_cons_of_mem _ hseed)
    by_cases hheld : Holds t columns
    · simp only [seedRows, insertSql_held hheld]
      exact ih hids hrest
    · have hid : t.find? id = none := hfree (id, columns) (List.mem_cons_self ..)
      obtain ⟨t₁, hinsert⟩ := Table.insert?_isSome (r := seedRow (id, columns)) hid
      simp only [seedRows, insertSql_new hheld, hinsert]
      refine ih hids fun seed hseed => ?_
      rw [Table.find?_insert?_ne hinsert]
      · exact hrest seed hseed
      · exact fun hid => hnew (List.mem_map.mpr ⟨seed, hseed, hid.symm⟩)

/-- A catalog that has all the seeds is left as it is, whatever ids are drawn. -/
theorem seedRows_held (h : ∀ seed ∈ l, Holds t seed.2) :
    seedRows t l inserted = some (t, inserted) := by
  induction l with
  | nil => rfl
  | cons seed l ih =>
    obtain ⟨id, columns⟩ := seed
    have hheld : Holds t columns := h _ (List.mem_cons_self ..)
    simp only [seedRows, insertSql_held hheld]
    exact ih fun seed hseed => h seed (List.mem_cons_of_mem _ hseed)

structure Seeded (uuid7 : Nat → Uuid) (drawn : Nat) (l : List γ) (t t' : Table (CatalogRow γ))
    (inserted : Nat) : Prop where
  rows : t'.rows = t.rows ++ (missing t (withIds uuid7 drawn l)).map seedRow
  count : inserted = (missing t (withIds uuid7 drawn l)).length
  held : ∀ columns ∈ l, Holds t' columns

end

-- ---------------------------------------------------------------------------
-- What the script does
-- ---------------------------------------------------------------------------

class LawfulCatalog (γ : Type) {υ : Type} [CatalogModel γ υ] : Prop where
  unique_self : ∀ c : γ, CatalogModel.unique c c

instance : LawfulCatalog LookupColumns := ⟨fun c => by simp [CatalogModel.unique]⟩
instance : LawfulCatalog RestraintTypeColumns := ⟨fun c => by simp [CatalogModel.unique]⟩

section
variable {γ υ : Type} [CatalogModel γ υ] {t t' : Table (CatalogRow γ)} {l : List γ}
  {uuid7 : Nat → Uuid} {drawn n : Nat}

theorem map_snd_withIds (uuid7 : Nat → Uuid) (drawn : Nat) (l : List γ) :
    (withIds uuid7 drawn l).map Prod.snd = l :=
  List.ext_getElem (by simp [withIds]) (by simp [withIds])

theorem mem_withIds {seed : Uuid × γ} (h : seed ∈ withIds uuid7 drawn l) :
    seed.2 ∈ l ∧ ∃ i, seed.1 = uuid7 i := by
  obtain ⟨i, hi, rfl⟩ := List.mem_mapIdx.mp h
  exact ⟨List.getElem_mem hi, _, rfl⟩

theorem map_fst_withIds :
    (withIds uuid7 drawn l).map Prod.fst = (List.range l.length).map fun i => uuid7 (drawn + i) :=
  List.ext_getElem (by simp [withIds]) (by simp [withIds])

theorem nodup_withIds (huuid : Function.Injective uuid7) :
    ((withIds uuid7 drawn l).map Prod.fst).Nodup := by
  rw [map_fst_withIds]
  exact List.nodup_range.map fun i j h => Nat.add_left_cancel (huuid h)

theorem seedRows_seeded [LawfulCatalog γ] (hdistinct : Distinct l)
    (h : seedRows t (withIds uuid7 drawn l) 0 = some (t', n)) : Seeded uuid7 drawn l t t' n := by
  rw [← map_snd_withIds uuid7 drawn l] at hdistinct
  obtain ⟨hrows, hn⟩ := seedRows_eq hdistinct h
  refine ⟨hrows, by omega, fun columns hcolumns => ?_⟩
  rw [← map_snd_withIds uuid7 drawn l] at hcolumns
  obtain ⟨seed, hseed, rfl⟩ := List.mem_map.mp hcolumns
  by_cases hheld : Holds t seed.2
  · obtain ⟨r, hr, hunique⟩ := hheld
    refine ⟨r, ?_, hunique⟩
    rw [← Table.mem_rows, hrows]
    exact List.mem_append_left _ hr
  · have hmissing : seed ∈ missing t (withIds uuid7 drawn l) :=
      List.mem_filter.mpr ⟨hseed, by simpa using hheld⟩
    refine ⟨seedRow seed, ?_, LawfulCatalog.unique_self _⟩
    rw [← Table.mem_rows, hrows]
    exact List.mem_append_right _ (List.mem_map_of_mem hmissing)

theorem seedRows_total (l : List γ) (drawn : Nat) (huuid : Function.Injective uuid7)
    (hfree : ∀ i, t.find? (uuid7 i) = none) :
    ∃ t' n, seedRows t (withIds uuid7 drawn l) 0 = some (t', n) :=
  seedRows_isSome (nodup_withIds huuid) fun seed hseed => by
    obtain ⟨i, hi⟩ := (mem_withIds hseed).2
    rw [hi]
    exact hfree i

theorem Seeded.again (h : Seeded uuid7 drawn l t t' n) (uuid7' : Nat → Uuid) (drawn' : Nat) :
    seedRows t' (withIds uuid7' drawn' l) 0 = some (t', 0) :=
  seedRows_held fun seed hseed => h.held seed.2 (mem_withIds hseed).1

end

structure Catalogs.Free (c : Catalogs) (uuid7 : Nat → Uuid) : Prop where
  restraintTypes : ∀ i, c.restraintTypes.find? (uuid7 i) = none
  armPositions : ∀ i, c.armPositions.find? (uuid7 i) = none
  handPositions : ∀ i, c.handPositions.find? (uuid7 i) = none
  handOrientations : ∀ i, c.handOrientations.find? (uuid7 i) = none

/-- The script appends what is missing, leaves every row that is there as it
is, and finds nothing to do when it runs again. -/
theorem main_idempotent {uuid7 : Nat → Uuid} {c : Catalogs} (huuid : Function.Injective uuid7)
    (hfree : c.Free uuid7) :
    ∃ c' inserted, main uuid7 c = some (c', inserted) ∧
      Seeded uuid7 0 restraintTypes c.restraintTypes c'.restraintTypes inserted.rt ∧
      Seeded uuid7 17 armPositions c.armPositions c'.armPositions inserted.ap ∧
      Seeded uuid7 25 handPositions c.handPositions c'.handPositions inserted.hp ∧
      Seeded uuid7 29 handOrientations c.handOrientations c'.handOrientations inserted.ho ∧
      ∀ uuid7', main uuid7' c' = some (c', ⟨0, 0, 0, 0⟩) := by
  obtain ⟨rts, rt, hrt⟩ := seedRows_total restraintTypes 0 huuid hfree.restraintTypes
  obtain ⟨aps, ap, hap⟩ := seedRows_total armPositions 17 huuid hfree.armPositions
  obtain ⟨hps, hp, hhp⟩ := seedRows_total handPositions 25 huuid hfree.handPositions
  obtain ⟨hos, ho, hho⟩ := seedRows_total handOrientations 29 huuid hfree.handOrientations
  have hrt' := seedRows_seeded distinct_restraintTypes hrt
  have hap' := seedRows_seeded distinct_armPositions hap
  have hhp' := seedRows_seeded distinct_handPositions hhp
  have hho' := seedRows_seeded distinct_handOrientations hho
  refine ⟨⟨rts, aps, hps, hos⟩, ⟨rt, ap, hp, ho⟩, ?_, hrt', hap', hhp', hho', fun uuid7' => ?_⟩
  · simp [main, hrt, hap, hhp, hho]
  · simp [main, hrt'.again, hap'.again, hhp'.again, hho'.again]

theorem main_idempotent_empty :
    ∃ c' inserted, main id ⟨∅, ∅, ∅, ∅⟩ = some (c', inserted) ∧ inserted = ⟨17, 8, 4, 5⟩ ∧
      ∀ uuid7', main uuid7' c' = some (c', ⟨0, 0, 0, 0⟩) := by
  obtain ⟨c', inserted, hmain, hrt, hap, hhp, hho, hagain⟩ :=
    @main_idempotent id ⟨∅, ∅, ∅, ∅⟩ Function.injective_id
      ⟨fun _ => rfl, fun _ => rfl, fun _ => rfl, fun _ => rfl⟩
  refine ⟨c', inserted, hmain, ?_, hagain⟩
  cases inserted
  have h₁ := hrt.count
  have h₂ := hap.count
  have h₃ := hhp.count
  have h₄ := hho.count
  simp only at h₁ h₂ h₃ h₄
  rw [h₁, h₂, h₃, h₄]
  decide

end HcMap.Seeds
