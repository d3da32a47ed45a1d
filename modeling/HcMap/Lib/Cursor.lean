import Mathlib.Data.List.Sort
import Mathlib.Order.Basic
import HcMap.Lib.Table

/-!
# Cursor feeds

A reader follows a table by pages: each page holds the first rows after the
reader's checkpoint in the order of their positions, and moves the checkpoint
to its last row. The rows change between pages. `Feed.Current` says that
nothing of a row is lost: the reader holds it, or it still lies ahead.
-/

namespace Cursor

variable {ρ : Type u} {κ : Type v} {π : Type w} {δ : Type x} [Keyed ρ κ] [LinearOrder π]

/-- The row lies ahead of the checkpoint. -/
def After (pos : ρ → π) (checkpoint : Option π) (r : ρ) : Prop :=
  ∀ c ∈ checkpoint, c < pos r

instance (pos : ρ → π) (checkpoint : Option π) (r : ρ) : Decidable (After pos checkpoint r) :=
  match checkpoint with
  | none => .isTrue fun _ h => nomatch h
  | some c => decidable_of_iff (c < pos r) (by simp [After])

/-- The first `limit` rows ahead of the checkpoint, among those the reader may
see, in the order of their positions. -/
def page (pos : ρ → π) (t : Table ρ) (visible : ρ → Prop) [DecidablePred visible]
    (checkpoint : Option π) (limit : Nat) : List ρ :=
  ((t.rows.filter fun r => visible r ∧ After pos checkpoint r).insertionSort
    (pos · ≤ pos ·)).take limit

/-- The position of the page's last row; an empty page moves nothing. -/
def advance (pos : ρ → π) (checkpoint : Option π) (rows : List ρ) : Option π :=
  match rows.getLast? with
  | some last => some (pos last)
  | none => checkpoint

-- ---------------------------------------------------------------------------
-- Pages
-- ---------------------------------------------------------------------------

section
variable {pos : ρ → π} {t : Table ρ} {visible : ρ → Prop} [DecidablePred visible]
  {checkpoint : Option π} {limit : Nat} {r : ρ}

theorem mem_of_mem_page (h : r ∈ page pos t visible checkpoint limit) :
    r ∈ t ∧ visible r ∧ After pos checkpoint r := by
  have hmem := List.mem_of_mem_take h
  rw [List.mem_insertionSort, List.mem_filter] at hmem
  simpa [Table.mem_rows] using hmem

theorem nodup_page : ((page pos t visible checkpoint limit).map key).Nodup := by
  have hperm := List.perm_insertionSort (pos · ≤ pos ·)
    (t.rows.filter fun r => visible r ∧ After pos checkpoint r)
  have hnodup : ((t.rows.filter fun r => visible r ∧ After pos checkpoint r).map key).Nodup :=
    t.nodup.sublist (List.filter_sublist.map key)
  exact ((hperm.map key).nodup_iff.mpr hnodup).sublist ((List.take_sublist _ _).map key)

theorem mem_page (hlimit : t.rows.length ≤ limit) :
    r ∈ page pos t visible checkpoint limit ↔ r ∈ t ∧ visible r ∧ After pos checkpoint r := by
  refine ⟨mem_of_mem_page, fun ⟨hr, hv, ha⟩ => ?_⟩
  have hlength :=
    List.length_filter_le (fun r => decide (visible r ∧ After pos checkpoint r)) t.rows
  rw [page, List.take_of_length_le (by rw [List.length_insertionSort]; omega),
    List.mem_insertionSort, List.mem_filter]
  exact ⟨hr, by simp [hv, ha]⟩

theorem mem_page_or_after (hinj : ∀ a ∈ t, ∀ b ∈ t, pos a = pos b → a = b) (hr : r ∈ t)
    (hv : visible r) (ha : After pos checkpoint r) :
    r ∈ page pos t visible checkpoint limit ∨
      After pos (advance pos checkpoint (page pos t visible checkpoint limit)) r := by
  by_cases hmem : r ∈ page pos t visible checkpoint limit
  · exact .inl hmem
  right
  unfold advance
  split
  · rename_i last hlast
    rintro c ⟨⟩
    have hlast := List.mem_of_getLast? hlast
    have hsorted := List.pairwise_insertionSort (pos · ≤ pos ·)
      (t.rows.filter fun r => visible r ∧ After pos checkpoint r)
    have hsplit := List.take_append_drop limit
      ((t.rows.filter fun r => visible r ∧ After pos checkpoint r).insertionSort
        (pos · ≤ pos ·))
    have hdrop : r ∈ ((t.rows.filter fun r => visible r ∧ After pos checkpoint r).insertionSort
        (pos · ≤ pos ·)).drop limit := by
      have hall : r ∈ (t.rows.filter fun r => visible r ∧ After pos checkpoint r).insertionSort
          (pos · ≤ pos ·) := by
        rw [List.mem_insertionSort, List.mem_filter]
        exact ⟨hr, by simp [hv, ha]⟩
      rw [← hsplit, List.mem_append] at hall
      exact hall.resolve_left hmem
    rw [← hsplit, List.pairwise_append] at hsorted
    have hle : pos last ≤ pos r := hsorted.2.2 last hlast r hdrop
    refine lt_of_le_of_ne hle fun heq => hmem ?_
    rwa [← hinj last (mem_of_mem_page hlast).1 r hr heq]
  · exact ha

theorem not_after_of_page_nil (hlimit : 0 < limit)
    (h : page pos t visible checkpoint limit = []) (hr : r ∈ t) (hv : visible r) :
    ¬ After pos checkpoint r := by
  intro ha
  have hall : r ∈ (t.rows.filter fun r => visible r ∧ After pos checkpoint r).insertionSort
      (pos · ≤ pos ·) := by
    rw [List.mem_insertionSort, List.mem_filter]
    exact ⟨hr, by simp [hv, ha]⟩
  unfold page at h
  rcases List.take_eq_nil_iff.mp h with h | h
  · omega
  · rw [h] at hall
    cases hall

end

-- ---------------------------------------------------------------------------
-- Walks
-- ---------------------------------------------------------------------------

/-- The rows a reader may see, each once, in the order of their positions. -/
structure Lists (pos : ρ → π) (t : Table ρ) (visible : ρ → Prop) (rows : List ρ) : Prop where
  increasing : rows.Pairwise (pos · < pos ·)
  mem : ∀ r, r ∈ rows ↔ r ∈ t ∧ visible r

section
variable {pos : ρ → π} {t t' : Table ρ} {visible visible' : ρ → Prop} {checkpoint : Option π}
  {limit k : Nat} {rows : List ρ} {a b r : ρ}

theorem exists_lists (pos : ρ → π) (t : Table ρ) (visible : ρ → Prop) [DecidablePred visible]
    (hinj : ∀ a ∈ t, ∀ b ∈ t, pos a = pos b → a = b) : ∃ rows, Lists pos t visible rows := by
  let rows := (t.rows.filter fun r => visible r).insertionSort (pos · ≤ pos ·)
  have hmem : ∀ r, r ∈ rows ↔ r ∈ t ∧ visible r := fun r => by
    simp [rows, List.mem_insertionSort, Table.mem_rows]
  have hnodup : rows.Nodup :=
    (List.perm_insertionSort _ _).nodup_iff.mpr ((List.Nodup.of_map key t.nodup).filter _)
  have hsorted : rows.Pairwise (pos · ≤ pos ·) := List.pairwise_insertionSort _ _
  refine ⟨rows, (hsorted.and hnodup).imp_of_mem fun ha hb h => ?_, hmem⟩
  exact lt_of_le_of_ne h.1 fun heq =>
    h.2 (hinj _ ((hmem _).mp ha).1 _ ((hmem _).mp hb).1 heq)

/-- Two readers that may see the same rows list them alike. -/
theorem Lists.congr (h : Lists pos t visible rows)
    (hsame : ∀ r, (r ∈ t' ∧ visible' r) ↔ (r ∈ t ∧ visible r)) : Lists pos t' visible' rows :=
  ⟨h.increasing, fun r => (h.mem r).trans (hsame r).symm⟩

theorem Lists.inj (h : Lists pos t visible rows) (ha : a ∈ rows) (hb : b ∈ rows)
    (heq : pos a = pos b) : a = b := by
  have hnodup : (rows.map pos).Nodup :=
    List.pairwise_map.mpr (h.increasing.imp fun hab => hab.ne)
  exact List.inj_on_of_nodup_map hnodup ha hb heq

theorem Lists.page_eq [DecidablePred visible] (h : Lists pos t visible rows) :
    page pos t visible checkpoint limit =
      (rows.filter fun r => After pos checkpoint r).take limit := by
  have hlt : (rows.filter fun r => After pos checkpoint r).Pairwise (pos · < pos ·) :=
    h.increasing.filter _
  have hnodup : (t.rows.filter fun r => visible r ∧ After pos checkpoint r).Nodup :=
    (List.Nodup.of_map key t.nodup).filter _
  have hnodup' : (rows.filter fun r => After pos checkpoint r).Nodup :=
    hlt.imp fun hab heq => hab.ne (congrArg pos heq)
  have hperm : (t.rows.filter fun r => visible r ∧ After pos checkpoint r).Perm
      (rows.filter fun r => After pos checkpoint r) := by
    refine (List.perm_ext_iff_of_nodup hnodup hnodup').mpr fun r => ?_
    simp [List.mem_filter, h.mem, Table.mem_rows, and_assoc]
  have hsort := (List.perm_insertionSort (pos · ≤ pos ·) _).trans hperm
  have heq := hsort.eq_of_pairwise
    (fun a b ha hb hab hba => h.inj (List.mem_filter.mp (hsort.mem_iff.mp ha)).1
      (List.mem_filter.mp hb).1 (le_antisymm hab hba))
    (List.pairwise_insertionSort _ _) (hlt.imp le_of_lt)
  rw [page, heq]

theorem Lists.ahead (h : Lists pos t visible rows) (k : Nat) :
    (rows.filter fun r => After pos (advance pos none (rows.take k)) r) = rows.drop k := by
  have hsplit := h.increasing
  rw [← List.take_append_drop k rows, List.pairwise_append] at hsplit
  obtain ⟨hdone, -, hcross⟩ := hsplit
  have hahead : ∀ r ∈ rows.drop k, After pos (advance pos none (rows.take k)) r := by
    intro r hr
    unfold advance
    split
    · rename_i last hlast
      rintro c ⟨⟩
      exact hcross last (List.mem_of_getLast? hlast) r hr
    · exact fun _ hc => nomatch hc
  have hpassed : ∀ r ∈ rows.take k, ¬ After pos (advance pos none (rows.take k)) r := by
    intro r hr hafter
    unfold advance at hafter
    split at hafter
    · rename_i last hlast
      have hlt : pos last < pos r := hafter (pos last) rfl
      obtain ⟨init, hinit⟩ := List.getLast?_eq_some_iff.mp hlast
      rw [hinit] at hr hdone
      rcases List.mem_append.mp hr with hr | hr
      · have := (List.pairwise_append.mp hdone).2.2 r hr last (by simp)
        exact lt_asymm hlt this
      · rw [List.mem_singleton.mp hr] at hlt
        exact lt_irrefl _ hlt
    · rename_i hnone
      rw [List.getLast?_eq_none_iff.mp hnone] at hr
      cases hr
  calc (rows.filter fun r => After pos (advance pos none (rows.take k)) r)
      = ((rows.take k ++ rows.drop k).filter fun r =>
          After pos (advance pos none (rows.take k)) r) := by rw [List.take_append_drop]
    _ = rows.drop k := by
      rw [List.filter_append, List.filter_eq_nil_iff.mpr (by simpa using hpassed),
        List.filter_eq_self.mpr (by simpa using hahead), List.nil_append]

theorem Lists.page_after [DecidablePred visible] (h : Lists pos t visible rows) (k limit : Nat) :
    page pos t visible (advance pos none (rows.take k)) limit = (rows.drop k).take limit := by
  rw [h.page_eq, h.ahead]

omit [LinearOrder π] in
theorem advance_take (pos : ρ → π) (rows : List ρ) (k limit : Nat) :
    advance pos (advance pos none (rows.take k)) ((rows.drop k).take limit) =
      advance pos none (rows.take (k + limit)) := by
  rw [List.take_add]
  cases h : ((rows.drop k).take limit).getLast? with
  | none =>
    have hnil := List.getLast?_eq_none_iff.mp h
    rw [hnil, List.append_nil]
    rfl
  | some last => simp [advance, h, List.getLast?_append]

end

-- ---------------------------------------------------------------------------
-- Readers
-- ---------------------------------------------------------------------------

/-- What a reader keeps of one table. -/
structure Feed (κ : Type v) (π : Type w) (δ : Type x) where
  checkpoint : Option π
  docs : κ → Option δ

def Feed.empty : Feed κ π δ := ⟨none, fun _ => none⟩

def store [DecidableEq κ] (render : ρ → δ) (docs : κ → Option δ) (rows : List ρ) : κ → Option δ :=
  rows.foldl (fun docs r => Function.update docs (key r) (some (render r))) docs

def Feed.read [DecidableEq κ] (feed : Feed κ π δ) (pos : ρ → π) (render : ρ → δ) (rows : List ρ) :
    Feed κ π δ where
  checkpoint := advance pos feed.checkpoint rows
  docs := store render feed.docs rows

/-- The reader holds a document of the row as it is, or the row lies ahead. -/
def Feed.Current (feed : Feed κ π δ) (pos : ρ → π) (shows : δ → ρ → Prop) (r : ρ) : Prop :=
  (∃ d, feed.docs (key r) = some d ∧ shows d r) ∨ After pos feed.checkpoint r

section
variable {feed : Feed κ π δ} {pos : ρ → π} {render : ρ → δ} {shows : δ → ρ → Prop} {rows : List ρ}
  {r : ρ} {k : κ}

theorem current_empty : (Feed.empty : Feed κ π δ).Current pos shows r := .inr fun _ h => nomatch h

/-- Once a page is empty, the reader holds every visible row that is current. -/
theorem Feed.Current.holds {t : Table ρ} {visible : ρ → Prop} [DecidablePred visible]
    {limit : Nat} (h : feed.Current pos shows r) (hlimit : 0 < limit)
    (hempty : page pos t visible feed.checkpoint limit = []) (hr : r ∈ t) (hv : visible r) :
    ∃ d, feed.docs (key r) = some d ∧ shows d r :=
  h.resolve_right (not_after_of_page_nil hlimit hempty hr hv)

variable [DecidableEq κ]

theorem store_of_notMem (docs : κ → Option δ) (h : ∀ r ∈ rows, key r ≠ k) :
    store render docs rows k = docs k := by
  induction rows generalizing docs with
  | nil => rfl
  | cons r rows ih =>
    rw [store, List.foldl_cons, ← store, ih _ fun x hx => h x (List.mem_cons_of_mem _ hx),
      Function.update_of_ne (h r (List.mem_cons_self ..)).symm]

theorem store_of_mem (docs : κ → Option δ) (hnodup : (rows.map key).Nodup) (h : r ∈ rows) :
    store render docs rows (key r) = some (render r) := by
  induction rows generalizing docs with
  | nil => cases h
  | cons x rows ih =>
    rw [List.map_cons, List.nodup_cons] at hnodup
    rw [store, List.foldl_cons, ← store]
    rcases List.mem_cons.mp h with rfl | h
    · have hfree : ∀ y ∈ rows, key y ≠ key r := fun y hy heq =>
        hnodup.1 (List.mem_map.mpr ⟨y, hy, heq⟩)
      rw [store_of_notMem _ hfree, Function.update_self]
    · exact ih _ hnodup.2 h

/-- Reading a page keeps every visible row current. -/
theorem Feed.Current.read {t : Table ρ} {visible : ρ → Prop} [DecidablePred visible] (limit : Nat)
    (h : feed.Current pos shows r) (hinj : ∀ a ∈ t, ∀ b ∈ t, pos a = pos b → a = b) (hr : r ∈ t)
    (hv : visible r) (hshows : ∀ r, shows (render r) r) :
    (feed.read pos render (page pos t visible feed.checkpoint limit)).Current pos shows r := by
  by_cases hmem : r ∈ page pos t visible feed.checkpoint limit
  · exact .inl ⟨render r, store_of_mem _ nodup_page hmem, hshows r⟩
  · rcases h with ⟨d, hd, hs⟩ | ha
    · refine .inl ⟨d, ?_, hs⟩
      rw [← hd]
      refine store_of_notMem _ fun x hx heq => hmem ?_
      rwa [← Table.eq_of_key (mem_of_mem_page hx).1 hr heq]
    · exact .inr ((mem_page_or_after hinj hr hv ha).resolve_left hmem)

end

end Cursor
