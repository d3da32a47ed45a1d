import Mathlib.Data.List.Sort

/-!
# Stable sorting

When two orders sort a list alike, and what a stable sort makes of the order
in which the entries came.
-/

namespace StableSort

open List

variable {α : Type u} {r r' : α → α → Prop} [DecidableRel r] [DecidableRel r'] {l : List α}
  {a b : α}

theorem orderedInsert_congr (h : ∀ b ∈ l, r a b ↔ r' a b) :
    l.orderedInsert r a = l.orderedInsert r' a := by
  induction l with
  | nil => rfl
  | cons b l ih =>
    rw [orderedInsert_cons, orderedInsert_cons, ih fun c hc => h c (mem_cons_of_mem b hc)]
    simp only [h b mem_cons_self]

/-- A stable sort keeps a pair in its order exactly when the order allows it. -/
theorem sublist_insertionSort_iff [Std.Total r] [IsTrans α r] (h : [a, b] <+ l) :
    [a, b] <+ l.insertionSort r ↔ r a b :=
  ⟨pairwise_iff_forall_sublist.mp (pairwise_insertionSort r l),
    fun hab => pair_sublist_insertionSort hab h⟩

/-- Two stable sorts agree on a list exactly when their orders agree on every
pair that stands in it, in the order in which it stands there. -/
theorem insertionSort_eq_iff [Std.Total r] [IsTrans α r] [Std.Total r'] [IsTrans α r'] :
    l.insertionSort r = l.insertionSort r' ↔ l.Pairwise fun a b => r a b ↔ r' a b := by
  constructor
  · intro h
    refine pairwise_iff_forall_sublist.mpr fun {a b} hab => ?_
    have hr : [a, b] <+ l.insertionSort r ↔ r a b := sublist_insertionSort_iff hab
    have hr' : [a, b] <+ l.insertionSort r' ↔ r' a b := sublist_insertionSort_iff hab
    rw [← hr, ← hr', h]
  · intro h
    induction l with
    | nil => rfl
    | cons a l ih =>
      obtain ⟨ha, hl⟩ := pairwise_cons.mp h
      rw [insertionSort_cons, insertionSort_cons, ih hl]
      exact orderedInsert_congr fun b hb => ha b ((mem_insertionSort r').mp hb)

-- ---------------------------------------------------------------------------
-- Pairs of a sorted list
-- ---------------------------------------------------------------------------

section
variable {F : α → α → Prop}

theorem rel_cons_of_rel {R : α → α → Prop} [IsTrans α R] {b : α} (hab : R a b)
    (hb : ∀ c ∈ l, R b c) : ∀ c ∈ b :: l, R a c :=
  forall_mem_cons.mpr ⟨hab, fun c hc => IsTrans.trans a b c hab (hb c hc)⟩

theorem pairwise_orderedInsert_iff [Std.Total r] [IsTrans α r] (h : l.Pairwise r) :
    (l.orderedInsert r a).Pairwise F ↔
      (∀ b ∈ l, (r a b → F a b) ∧ (¬ r a b → F b a)) ∧ l.Pairwise F := by
  induction l with
  | nil => simp
  | cons b l ih =>
    obtain ⟨hb, hl⟩ := pairwise_cons.mp h
    rw [orderedInsert_cons]
    split
    · rename_i hab
      have hall : ∀ c ∈ b :: l, r a c := rel_cons_of_rel hab hb
      rw [pairwise_cons]
      exact and_congr_left fun _ => forall₂_congr fun c hc =>
        ⟨fun hF => ⟨fun _ => hF, fun hnot => absurd (hall c hc) hnot⟩, fun hF => hF.1 (hall c hc)⟩
    · rename_i hab
      have hmem : ∀ P : α → Prop, (∀ c ∈ l.orderedInsert r a, P c) ↔ P a ∧ ∀ c ∈ l, P c := by
        intro P
        simp only [mem_orderedInsert, forall_eq_or_imp]
      rw [pairwise_cons, ih hl, hmem, pairwise_cons, forall_mem_cons]
      constructor
      · rintro ⟨⟨hba, hbl⟩, hal, hrest⟩
        exact ⟨⟨⟨fun h => absurd h hab, fun _ => hba⟩, hal⟩, hbl, hrest⟩
      · rintro ⟨⟨⟨-, hba⟩, hal⟩, hbl, hrest⟩
        exact ⟨⟨hba hab, hbl⟩, hal, hrest⟩

theorem pairwise_insertionSort_iff [Std.Total r] [IsTrans α r] :
    (l.insertionSort r).Pairwise F ↔
      l.Pairwise fun a b => (r a b → F a b) ∧ (¬ r a b → F b a) := by
  induction l with
  | nil => simp
  | cons a l ih =>
    rw [insertionSort_cons, pairwise_orderedInsert_iff (pairwise_insertionSort r l), ih,
      pairwise_cons]
    simp only [mem_insertionSort]

end

-- ---------------------------------------------------------------------------
-- The order of entry
-- ---------------------------------------------------------------------------

section
variable {F : α → α → Prop}

theorem pairwise_orderedInsert_of_comparable [DecidableRel F] [IsTrans α F] (hl : l.Pairwise F)
    (ha : ∀ b ∈ l, F a b ∨ F b a) : (l.orderedInsert F a).Pairwise F := by
  induction l with
  | nil => simp
  | cons b l ih =>
    obtain ⟨hb, hrest⟩ := pairwise_cons.mp hl
    rw [orderedInsert_cons]
    split
    · rename_i hab
      exact pairwise_cons.mpr ⟨rel_cons_of_rel hab hb, hl⟩
    · rename_i hab
      have hba : F b a := (ha b mem_cons_self).resolve_left hab
      have hinserted := ih hrest fun c hc => ha c (mem_cons_of_mem b hc)
      refine pairwise_cons.mpr ⟨fun c hc => ?_, hinserted⟩
      rcases (mem_orderedInsert F).mp hc with rfl | hc
      · exact hba
      · exact hb c hc

/-- A list whose entries can follow each other one way or the other has an
arrangement in which they do. -/
theorem exists_perm_pairwise [IsTrans α F] (h : l.Pairwise fun a b => F a b ∨ F b a) :
    ∃ l' : List α, l'.Perm l ∧ l'.Pairwise F := by
  classical
  induction l with
  | nil => exact ⟨[], .nil, .nil⟩
  | cons a l ih =>
    obtain ⟨ha, hl⟩ := pairwise_cons.mp h
    obtain ⟨l', hperm, hl'⟩ := ih hl
    exact ⟨l'.orderedInsert F a, (perm_orderedInsert F a l').trans (hperm.cons a),
      pairwise_orderedInsert_of_comparable hl' fun b hb => ha b (hperm.mem_iff.mp hb)⟩

theorem comparable_of_pairwise_insertionSort (h : (l.insertionSort r).Pairwise F) :
    l.Pairwise fun a b => F a b ∨ F b a :=
  ((perm_insertionSort r l).pairwise_iff Or.symm).mp (h.imp .inl)

theorem pairwise_insertionSort_of_ties [Std.Total r] [IsTrans α r] (hF : ∀ a b, F a b → r a b)
    {l' : List α} (hperm : l'.Perm l)
    (hties : l.Pairwise fun a b => r a b → r b a → F a b ∧ F b a)
    (h : (l.insertionSort r).Pairwise F) : (l'.insertionSort r).Pairwise F := by
  have hsort := (perm_insertionSort r l').trans hperm
  have hfits : (l'.insertionSort r).Pairwise fun a b => F a b ∨ F b a :=
    (hsort.pairwise_iff Or.symm).mpr (comparable_of_pairwise_insertionSort h)
  have hties' : (l'.insertionSort r).Pairwise fun a b => r a b → r b a → F a b ∧ F b a :=
    (hsort.pairwise_iff fun hab hba hab' => (hab hab' hba).symm).mpr hties
  have hsorted : (l'.insertionSort r).Pairwise r := pairwise_insertionSort r l'
  refine ((hsorted.and hfits).and hties').imp ?_
  rintro a b ⟨⟨hab, hfit⟩, htie⟩
  -- a pair that the sort leaves in this order may stand in it
  rcases hfit with hfit | hfit
  · exact hfit
  · exact (htie hab (hF b a hfit)).1

/-- Where following implies the order of the sort, it does not matter in which
order the entries came exactly if some two of them cannot follow each other
either way, or those that tie can do so both ways. -/
theorem pairwise_insertionSort_perm_iff [Std.Total r] [IsTrans α r] [IsTrans α F]
    (hF : ∀ a b, F a b → r a b) :
    (∀ l' : List α, l'.Perm l →
        ((l'.insertionSort r).Pairwise F ↔ (l.insertionSort r).Pairwise F)) ↔
      (¬ l.Pairwise fun a b => F a b ∨ F b a) ∨
        l.Pairwise fun a b => r a b → r b a → F a b ∧ F b a := by
  constructor
  · intro h
    by_contra hnot
    obtain ⟨hfits, hties⟩ := not_or.mp hnot
    obtain ⟨l', hperm, hl'⟩ := exists_perm_pairwise (not_not.mp hfits)
    have hsorted : (l'.insertionSort r).Pairwise F := by
      rwa [(hl'.imp @hF).insertionSort_eq]
    have hl := (h l' hperm).mp hsorted
    have hreverse := (h l.reverse (reverse_perm l)).mpr hl
    refine hties (pairwise_iff_forall_sublist.mpr fun {a b} hab har hbr => ⟨?_, ?_⟩)
    · exact pairwise_iff_forall_sublist.mp hl ((sublist_insertionSort_iff hab).mpr har)
    · have hba : [b, a] <+ l.reverse := by simpa using hab.reverse
      exact pairwise_iff_forall_sublist.mp hreverse ((sublist_insertionSort_iff hba).mpr hbr)
  · rintro (hclash | hties) l' hperm
    · refine iff_of_false (fun h => hclash ?_) fun h => ?_
      · exact (hperm.pairwise_iff Or.symm).mp (comparable_of_pairwise_insertionSort h)
      · exact hclash (comparable_of_pairwise_insertionSort h)
    · have hties' : l'.Pairwise fun a b => r a b → r b a → F a b ∧ F b a :=
        (hperm.pairwise_iff fun hab hba hab' => (hab hab' hba).symm).mpr hties
      exact ⟨pairwise_insertionSort_of_ties hF hperm.symm hties',
        pairwise_insertionSort_of_ties hF hperm hties⟩

end

end StableSort
