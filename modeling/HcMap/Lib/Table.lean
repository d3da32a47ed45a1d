import Mathlib.Data.List.Nodup
import Mathlib.Data.List.Basic

/-!
# Keyed tables

A table is a finite list of rows, no two of which share a key: the primary
key constraint is a field, so a table with two rows of one key cannot be
built. Rows keep their order of insertion; nothing but a page's sort reads it.
-/

class Keyed (ρ : Type u) (κ : outParam (Type v)) where
  key : ρ → κ

export Keyed (key)

structure Table (ρ : Type u) {κ : Type v} [Keyed ρ κ] where
  rows : List ρ
  nodup : (rows.map key).Nodup

namespace Table

variable {ρ : Type u} {κ : Type v} [Keyed ρ κ] {t t' : Table ρ} {r x : ρ} {k : κ}

@[ext] theorem ext (h : t.rows = t'.rows) : t = t' := by
  cases t
  cases t'
  simpa using h

instance [DecidableEq ρ] : DecidableEq (Table ρ) := fun _ _ =>
  decidable_of_iff _ ⟨ext, congrArg rows⟩

instance : Membership ρ (Table ρ) := ⟨fun t r => r ∈ t.rows⟩

instance [DecidableEq ρ] (r : ρ) (t : Table ρ) : Decidable (r ∈ t) :=
  inferInstanceAs (Decidable (r ∈ t.rows))

instance {p : ρ → Prop} [DecidablePred p] (t : Table ρ) : Decidable (∃ r ∈ t, p r) :=
  inferInstanceAs (Decidable (∃ r ∈ t.rows, p r))

instance {p : ρ → Prop} [DecidablePred p] (t : Table ρ) : Decidable (∀ r ∈ t, p r) :=
  inferInstanceAs (Decidable (∀ r ∈ t.rows, p r))

theorem mem_rows : r ∈ t.rows ↔ r ∈ t := .rfl

instance : EmptyCollection (Table ρ) := ⟨⟨[], by simp⟩⟩

theorem eq_of_key (hr : r ∈ t) (hx : x ∈ t) (h : key r = key x) : r = x :=
  List.inj_on_of_nodup_map t.nodup hr hx h

-- ---------------------------------------------------------------------------
-- Lookup
-- ---------------------------------------------------------------------------

section
variable [DecidableEq κ]

def find? (t : Table ρ) (k : κ) : Option ρ := t.rows.find? fun r => key r = k

theorem find?_eq_some : t.find? k = some r ↔ r ∈ t ∧ key r = k := by
  constructor
  · intro h
    exact ⟨List.mem_of_find?_eq_some h, by simpa using List.find?_some h⟩
  · rintro ⟨hm, rfl⟩
    cases h : t.find? (key r) with
    | none =>
      have := List.find?_eq_none.mp h r hm
      simp at this
    | some x =>
      have hx := List.mem_of_find?_eq_some h
      have hk : key x = key r := by simpa using List.find?_some h
      rw [eq_of_key hx hm hk]

theorem find?_eq_none : t.find? k = none ↔ ∀ r ∈ t, key r ≠ k := by
  simp [find?, List.find?_eq_none, mem_rows]

theorem mem_of_find? (h : t.find? k = some r) : r ∈ t := (find?_eq_some.mp h).1

theorem key_of_find? (h : t.find? k = some r) : key r = k := (find?_eq_some.mp h).2

theorem find?_isSome : (t.find? k).isSome ↔ ∃ r ∈ t, key r = k := by
  simp [Option.isSome_iff_exists, find?_eq_some]

theorem filter_key (h : t.find? k = some r) : (t.rows.filter fun x => key x = k) = [r] := by
  obtain ⟨hr, rfl⟩ := find?_eq_some.mp h
  have hnodup : (t.rows.filter fun x => key x = key r).Nodup :=
    (List.Nodup.of_map key t.nodup).filter _
  refine List.perm_singleton.mp
    ((List.perm_ext_iff_of_nodup hnodup (List.nodup_singleton r)).mpr fun x => ?_)
  rw [List.mem_filter, List.mem_singleton, mem_rows]
  constructor
  · rintro ⟨hx, hk⟩
    exact eq_of_key hx hr (by simpa using hk)
  · rintro rfl
    exact ⟨hr, by simp⟩

/-- A nullable foreign key: null, or the key of a row. -/
def References (t : Table ρ) (k : Option κ) : Prop := ∀ k', k = some k' → (t.find? k').isSome

instance (t : Table ρ) (k : Option κ) : Decidable (t.References k) :=
  match k with
  | none => .isTrue fun _ h => nomatch h
  | some k' => decidable_of_iff (t.find? k').isSome (by simp [References])

-- ---------------------------------------------------------------------------
-- Insertion
-- ---------------------------------------------------------------------------

def insert? (t : Table ρ) (r : ρ) : Option (Table ρ) :=
  if h : key r ∈ t.rows.map key then none
  else some ⟨t.rows ++ [r], by simpa [List.nodup_append] using ⟨t.nodup, by simpa using h⟩⟩

theorem insert?_eq_none : t.insert? r = none ↔ (t.find? (key r)).isSome := by
  rw [find?_isSome]
  simp [insert?, mem_rows]

theorem insert?_eq_some :
    t.insert? r = some t' ↔ t.find? (key r) = none ∧ t'.rows = t.rows ++ [r] := by
  rw [find?_eq_none]
  unfold insert?
  split
  · rename_i h
    simp only [List.mem_map] at h
    obtain ⟨x, hx, hk⟩ := h
    simp only [reduceCtorEq, false_iff, not_and]
    intro hn
    exact absurd hk (hn x hx)
  · rename_i h
    have hn : ∀ x ∈ t, key x ≠ key r := fun x hx hk => h (List.mem_map.mpr ⟨x, hx, hk⟩)
    simp only [Option.some.injEq]
    constructor
    · rintro rfl
      exact ⟨hn, rfl⟩
    · rintro ⟨-, he⟩
      exact ext he.symm

theorem insert?_isSome (h : t.find? (key r) = none) : ∃ t', t.insert? r = some t' := by
  cases hi : t.insert? r with
  | some t' => exact ⟨t', rfl⟩
  | none => simp [insert?_eq_none, h] at hi

theorem mem_insert? (h : t.insert? r = some t') : x ∈ t' ↔ x ∈ t ∨ x = r := by
  rw [← mem_rows, (insert?_eq_some.mp h).2]
  simp [mem_rows]

theorem find?_insert? (h : t.insert? r = some t') :
    t'.find? k = if key r = k then some r else t.find? k := by
  obtain ⟨hn, hr⟩ := insert?_eq_some.mp h
  unfold find? at hn ⊢
  rw [hr, List.find?_append]
  split
  · rename_i hk
    subst hk
    simp [hn]
  · rename_i hk
    simp [hk]

theorem find?_insert?_ne (h : t.insert? r = some t') (hk : key r ≠ k) : t'.find? k = t.find? k := by
  rw [find?_insert? h, if_neg hk]

theorem find?_insert?_self (h : t.insert? r = some t') : t'.find? (key r) = some r := by
  rw [find?_insert? h, if_pos rfl]

end

-- ---------------------------------------------------------------------------
-- Updates
-- ---------------------------------------------------------------------------

def map (t : Table ρ) (f : ρ → ρ) (hf : ∀ r, key (f r) = key r) : Table ρ :=
  ⟨t.rows.map f, by simpa [Function.comp_def, hf] using t.nodup⟩

section
variable {f : ρ → ρ} {hf : ∀ r, key (f r) = key r}

theorem mem_map : x ∈ t.map f hf ↔ ∃ r ∈ t, f r = x := by
  rw [← mem_rows]
  simp [map, mem_rows]

theorem mem_map_of_mem (h : r ∈ t) : f r ∈ t.map f hf := mem_map.mpr ⟨r, h, rfl⟩

theorem map_eq_self (h : ∀ r ∈ t, f r = r) : t.map f hf = t := by
  apply ext
  show t.rows.map f = t.rows
  calc t.rows.map f = t.rows.map id := List.map_congr_left h
    _ = t.rows := by simp

theorem map_congr {g : ρ → ρ} {hg : ∀ r, key (g r) = key r} (h : ∀ r ∈ t, f r = g r) :
    t.map f hf = t.map g hg :=
  ext (List.map_congr_left h)

theorem map_map {g : ρ → ρ} {hg : ∀ r, key (g r) = key r} :
    (t.map f hf).map g hg = t.map (fun r => g (f r)) fun r => (hg _).trans (hf r) :=
  ext (by simp [map])

theorem find?_map [DecidableEq κ] : (t.map f hf).find? k = (t.find? k).map f := by
  cases h : t.find? k with
  | some r =>
    obtain ⟨hm, hk⟩ := find?_eq_some.mp h
    exact find?_eq_some.mpr ⟨mem_map_of_mem hm, by rw [hf, hk]⟩
  | none =>
    refine find?_eq_none.mpr fun x hx => ?_
    obtain ⟨r, hr, rfl⟩ := mem_map.mp hx
    rw [hf]
    exact find?_eq_none.mp h r hr

end

section
variable [DecidableEq κ]

/-- Replace the row that has the key of `r`, if there is one. -/
def set (t : Table ρ) (r : ρ) : Table ρ :=
  t.map (fun x => if key x = key r then r else x) fun x => by
    split
    · rename_i h
      exact h.symm
    · rfl

theorem find?_set_self (h : (t.find? (key r)).isSome) : (t.set r).find? (key r) = some r := by
  obtain ⟨x, hx⟩ := Option.isSome_iff_exists.mp h
  simp [set, find?_map, hx, key_of_find? hx]

theorem find?_set_ne (h : key r ≠ k) : (t.set r).find? k = t.find? k := by
  rw [set, find?_map]
  cases hk : t.find? k with
  | none => rfl
  | some x =>
    have hx : key x ≠ key r := by
      rw [key_of_find? hk]
      exact h.symm
    simp [hx]

theorem find?_set_isSome : ((t.set r).find? k).isSome = (t.find? k).isSome := by
  rw [set, find?_map, Option.isSome_map]

theorem mem_set (h : x ∈ t.set r) : x = r ∨ x ∈ t ∧ key x ≠ key r := by
  obtain ⟨y, hy, rfl⟩ := mem_map.mp h
  by_cases hk : key y = key r
  · simp [hk]
  · simp [hk, hy]

theorem mem_set_of_ne (hx : x ∈ t) (h : key x ≠ key r) : x ∈ t.set r :=
  mem_map.mpr ⟨x, hx, by simp [h]⟩

theorem mem_set_self (h : x ∈ t) (hk : key x = key r) : r ∈ t.set r :=
  mem_map.mpr ⟨x, h, by simp [hk]⟩

end

def put [DecidableEq κ] (t : Table ρ) (r : ρ) : Table ρ := (t.insert? r).getD (t.set r)

theorem mem_put [DecidableEq κ] (h : x ∈ t.put r) : x ∈ t ∨ x = r := by
  unfold put at h
  cases hi : t.insert? r with
  | some t' =>
    rw [hi] at h
    exact (mem_insert? hi).mp h
  | none =>
    rw [hi] at h
    rcases mem_set h with h | h
    · exact .inr h
    · exact .inl h.1

theorem mem_put_self [DecidableEq κ] : r ∈ t.put r := by
  unfold put
  cases hi : t.insert? r with
  | some t' => exact (mem_insert? hi).mpr (.inr rfl)
  | none =>
    obtain ⟨x, hx, hk⟩ := find?_isSome.mp (insert?_eq_none.mp hi)
    exact mem_set_self hx hk

theorem put_of_free [DecidableEq κ] (h : t.find? (key r) = none) :
    t.insert? r = some (t.put r) := by
  obtain ⟨t', ht⟩ := insert?_isSome h
  simp [put, ht]

theorem mem_foldl_put [DecidableEq κ] {rows : List ρ}
    (hrows : rows.Pairwise fun r x => key r ≠ key x)
    (hfree : ∀ r ∈ rows, t.find? (key r) = none) :
    x ∈ rows.foldl put t ↔ x ∈ t ∨ x ∈ rows := by
  induction rows generalizing t with
  | nil => simp
  | cons r rows ih =>
    rw [List.pairwise_cons] at hrows
    have hput := put_of_free (hfree r (List.mem_cons_self ..))
    have hfree' : ∀ x ∈ rows, (t.put r).find? (key x) = none := fun x hx => by
      rw [find?_insert?_ne hput (hrows.1 x hx)]
      exact hfree x (List.mem_cons_of_mem _ hx)
    rw [List.foldl_cons, ih hrows.2 hfree', mem_insert? hput, List.mem_cons, or_assoc]

-- ---------------------------------------------------------------------------
-- Rows that stay
-- ---------------------------------------------------------------------------

/-- Every row of `t` is still in `t'`, as a row related to it. -/
def Keeps (R : ρ → ρ → Prop) (t t' : Table ρ) : Prop := ∀ r ∈ t, ∃ r' ∈ t', R r r'

section
variable {R : ρ → ρ → Prop} {t'' : Table ρ}

theorem keeps_of_subset (hR : ∀ r, R r r) (h : ∀ r ∈ t, r ∈ t') : Keeps R t t' :=
  fun r hr => ⟨r, h r hr, hR r⟩

theorem Keeps.trans (h : Keeps R t t') (h' : Keeps R t' t'')
    (hR : ∀ a b c, R a b → R b c → R a c) : Keeps R t t'' := by
  intro r hr
  obtain ⟨r₁, hr₁, hrel⟩ := h r hr
  obtain ⟨r₂, hr₂, hrel'⟩ := h' r₁ hr₁
  exact ⟨r₂, hr₂, hR r r₁ r₂ hrel hrel'⟩

theorem keeps_map {f : ρ → ρ} {hf : ∀ r, key (f r) = key r} (h : ∀ r ∈ t, R r (f r)) :
    Keeps R t (t.map f hf) :=
  fun r hr => ⟨f r, mem_map_of_mem hr, h r hr⟩

theorem keeps_set [DecidableEq κ] (hR : ∀ r, R r r) (hx : x ∈ t) (hk : key r = key x)
    (hr : R x r) : Keeps R t (t.set r) := by
  refine keeps_map fun y hy => ?_
  split
  · rename_i hy'
    obtain rfl := eq_of_key hy hx (hy'.trans hk)
    exact hr
  · exact hR y

end

-- ---------------------------------------------------------------------------
-- Deletion
-- ---------------------------------------------------------------------------

def filter (t : Table ρ) (p : ρ → Bool) : Table ρ :=
  ⟨t.rows.filter p, t.nodup.sublist (List.filter_sublist.map key)⟩

theorem mem_filter {p : ρ → Bool} : x ∈ t.filter p ↔ x ∈ t ∧ p x := by
  rw [← mem_rows]
  simp [filter, mem_rows]

theorem find?_filter [DecidableEq κ] {p : ρ → Bool} (h : t.find? k = some r) (hp : p r) :
    (t.filter p).find? k = some r :=
  find?_eq_some.mpr ⟨mem_filter.mpr ⟨mem_of_find? h, hp⟩, key_of_find? h⟩

-- ---------------------------------------------------------------------------
-- Fresh keys
-- ---------------------------------------------------------------------------

def fresh {ρ : Type u} [Keyed ρ Nat] (t : Table ρ) : Nat := (t.rows.map key).foldr max 0 + 1

theorem le_foldr_max {n : Nat} {l : List Nat} (h : n ∈ l) : n ≤ l.foldr max 0 := by
  induction l with
  | nil => simp at h
  | cons m l ih =>
    simp only [List.foldr_cons]
    rcases List.mem_cons.mp h with rfl | h
    · exact Nat.le_max_left ..
    · have := ih h
      omega

theorem find?_fresh {ρ : Type u} [Keyed ρ Nat] (t : Table ρ) : t.find? t.fresh = none := by
  refine find?_eq_none.mpr fun r hr hk => ?_
  have := le_foldr_max (List.mem_map_of_mem (f := key) hr)
  unfold fresh at hk
  omega

end Table
