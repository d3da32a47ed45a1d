import Mathlib.Algebra.BigOperators.Group.List.Lemmas
import Mathlib.Algebra.GroupWithZero.Nat
import Mathlib.Data.List.Sort

/-!
# Groups and their sizes

`GROUP BY` with `count(*)`: the keys that occur, each with how often it does;
and the greatest groups, as many as a limit allows.
-/

namespace Group

variable {κ : Type u} [DecidableEq κ] {keys : List κ} {groups : List (κ × Nat)} {g g' : κ × Nat}
  {k : κ} {n : Nat}

def size (keys : List κ) (k : κ) : Nat := keys.count k

def counts (keys : List κ) : List (κ × Nat) := keys.dedup.map fun k => (k, size keys k)

def top (n : Nat) (groups : List (κ × Nat)) : List (κ × Nat) :=
  (groups.insertionSort fun g g' => g'.2 ≤ g.2).take n

theorem mem_counts : g ∈ counts keys ↔ g.1 ∈ keys ∧ g.2 = size keys g.1 := by
  simp only [counts, List.mem_map, List.mem_dedup]
  constructor
  · rintro ⟨k, hk, rfl⟩
    exact ⟨hk, rfl⟩
  · rintro ⟨hk, hcount⟩
    exact ⟨g.1, hk, Prod.ext rfl hcount.symm⟩

@[simp] theorem map_fst_counts : (counts keys).map Prod.fst = keys.dedup := by
  simp [counts, Function.comp_def]

theorem sum_counts : ((counts keys).map Prod.snd).sum = keys.length := by
  rw [counts, List.map_map]
  exact List.sum_map_count_dedup_eq_length keys

/-- The rows of a ranking: greatest groups, each with its size. -/
structure Ranking (n : Nat) (keys : List κ) (rows : List (κ × Nat)) : Prop where
  counted : ∀ g ∈ rows, g.2 = size keys g.1 ∧ 0 < g.2
  nodup : (rows.map Prod.fst).Nodup
  falling : rows.Pairwise fun g g' => g'.2 ≤ g.2
  length_le : rows.length ≤ n
  /-- A group is left out only if the ranking is full of groups no smaller. -/
  greatest : ∀ k ∈ keys, k ∉ rows.map Prod.fst →
    rows.length = n ∧ ∀ g ∈ rows, size keys k ≤ g.2

omit [DecidableEq κ] in
theorem falling_insertionSort :
    (groups.insertionSort fun g g' => g'.2 ≤ g.2).Pairwise fun g g' => g'.2 ≤ g.2 := by
  have htotal : Std.Total (fun g g' : κ × Nat => g'.2 ≤ g.2) := ⟨fun g g' => Nat.le_total g'.2 g.2⟩
  have htrans : IsTrans (κ × Nat) fun g g' => g'.2 ≤ g.2 :=
    ⟨fun _ _ _ h h' => Nat.le_trans h' h⟩
  exact List.pairwise_insertionSort _ groups

omit [DecidableEq κ] in
theorem mem_of_mem_top (h : g ∈ top n groups) : g ∈ groups :=
  (List.mem_insertionSort _).mp (List.mem_of_mem_take h)

omit [DecidableEq κ] in
theorem le_of_notMem_top (hg : g ∈ groups) (hout : g ∉ top n groups) :
    (top n groups).length = n ∧ ∀ g' ∈ top n groups, g.2 ≤ g'.2 := by
  have hsorted := @falling_insertionSort _ groups
  have hmem : g ∈ groups.insertionSort fun g g' => g'.2 ≤ g.2 := (List.mem_insertionSort _).mpr hg
  rw [← List.take_append_drop n (groups.insertionSort _)] at hsorted hmem
  have hrest := (List.mem_append.mp hmem).resolve_left hout
  refine ⟨?_, fun g' hg' => (List.pairwise_append.mp hsorted).2.2 g' hg' g hrest⟩
  have hlong := List.length_pos_of_mem hrest
  rw [List.length_drop] at hlong
  rw [top, List.length_take]
  omega

theorem ranking_top (n : Nat) (keys : List κ) : Ranking n keys (top n (counts keys)) where
  counted g hg := by
    obtain ⟨hkey, hcount⟩ := mem_counts.mp (mem_of_mem_top hg)
    exact ⟨hcount, hcount ▸ List.count_pos_iff.mpr hkey⟩
  nodup := by
    have hperm := (List.perm_insertionSort (fun g g' : κ × Nat => g'.2 ≤ g.2) (counts keys)).map
      Prod.fst
    rw [map_fst_counts] at hperm
    have hnodup := hperm.nodup_iff.mpr keys.nodup_dedup
    exact (List.Sublist.map Prod.fst (List.take_sublist n _)).nodup hnodup
  falling := List.Pairwise.sublist (List.take_sublist n _) falling_insertionSort
  length_le := List.length_take_le n _
  greatest k hk hout := by
    have hgroup : (k, size keys k) ∈ counts keys := mem_counts.mpr ⟨hk, rfl⟩
    exact le_of_notMem_top hgroup fun hin => hout (List.mem_map_of_mem hin)

end Group
