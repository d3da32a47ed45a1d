import Mathlib.Algebra.Order.Group.Defs
import Mathlib.Data.List.Basic
import Mathlib.Data.List.TakeWhile

/-!
# Rolling windows

A log of admitted times that is pruned from the front as time goes on. It holds
the admissions of the last window, so admitting only while it is short bounds
the admissions of every window.
-/

namespace RollingWindow

variable {τ : Type u} [LinearOrder τ]

def prune (start : τ) (bucket : List τ) : List τ := bucket.dropWhile fun t => t < start

section
variable {start t : τ} {bucket rest : List τ}

theorem prune_cons_of_lt (h : t < start) : prune start (t :: rest) = prune start rest := by
  simp [prune, h]

theorem prune_cons_of_le (h : start ≤ t) : prune start (t :: rest) = t :: rest := by
  simp [prune, not_lt.mpr h]

theorem length_prune_le : (prune start bucket).length ≤ bucket.length :=
  (List.dropWhile_suffix _).length_le

theorem prune_eq_filter (h : bucket.Pairwise (· ≤ ·)) :
    prune start bucket = bucket.filter fun t => start ≤ t := by
  induction bucket with
  | nil => rfl
  | cons t bucket ih =>
    obtain ⟨ht, hrest⟩ := List.pairwise_cons.mp h
    rcases lt_or_ge t start with hlt | hge
    · rw [prune_cons_of_lt hlt, ih hrest, List.filter_cons_of_neg (by simpa using hlt)]
    · rw [prune_cons_of_le hge, List.filter_eq_self.mpr]
      intro s hs
      rcases List.mem_cons.mp hs with rfl | hs
      · simpa using hge
      · simpa using hge.trans (ht s hs)

end

-- ---------------------------------------------------------------------------
-- The log and the history
-- ---------------------------------------------------------------------------

variable [AddCommGroup τ]

/-- The times of `times` in the closed window from `start` on. -/
def within (width start : τ) (times : List τ) : List τ :=
  times.filter fun t => start ≤ t ∧ t ≤ start + width

/-- What the log is at `now`: all admissions but some that are older than the
window, and there are at most `limit` admissions in any window. -/
structure Tracks (width : τ) (limit : Nat) (admitted bucket : List τ) (now : τ) : Prop where
  sorted : admitted.Pairwise (· ≤ ·)
  past : ∀ t ∈ admitted, t ≤ now
  split : ∃ gone, admitted = gone ++ bucket ∧ ∀ t ∈ gone, t < now - width
  sparse : ∀ start, (within width start admitted).length ≤ limit

section
variable {width now now' : τ} {limit : Nat} {admitted bucket : List τ}

theorem Tracks.empty (width : τ) (limit : Nat) (now : τ) : Tracks width limit [] [] now :=
  ⟨.nil, by simp, ⟨[], rfl, by simp⟩, by simp [within]⟩

theorem Tracks.prune_eq_since (h : Tracks width limit admitted bucket now) :
    prune (now - width) bucket = admitted.filter fun t => now - width ≤ t := by
  obtain ⟨gone, hsplit, hgone⟩ := h.split
  have hsorted : bucket.Pairwise (· ≤ ·) := (List.pairwise_append.mp (hsplit ▸ h.sorted)).2.1
  have hnone : gone.filter (fun t => now - width ≤ t) = [] := by
    refine List.filter_eq_nil_iff.mpr fun t ht => ?_
    simp [not_le.mpr (hgone t ht)]
  rw [prune_eq_filter hsorted, hsplit, List.filter_append, hnone, List.nil_append]

theorem Tracks.prune (h : Tracks width limit admitted bucket now) :
    Tracks width limit admitted (prune (now - width) bucket) now := by
  obtain ⟨gone, hsplit, hgone⟩ := h.split
  have hpruned := List.takeWhile_append_dropWhile (p := fun t => decide (t < now - width))
    (l := bucket)
  refine ⟨h.sorted, h.past, ⟨gone ++ bucket.takeWhile fun t => t < now - width, ?_, ?_⟩, h.sparse⟩
  · rw [List.append_assoc, RollingWindow.prune, hpruned, hsplit]
  · intro t ht
    rcases List.mem_append.mp ht with ht | ht
    · exact hgone t ht
    · simpa using List.mem_takeWhile_imp ht

variable [IsOrderedAddMonoid τ]

theorem Tracks.later (h : Tracks width limit admitted bucket now) (hle : now ≤ now') :
    Tracks width limit admitted bucket now' := by
  obtain ⟨gone, hsplit, hgone⟩ := h.split
  exact ⟨h.sorted, fun t ht => (h.past t ht).trans hle,
    ⟨gone, hsplit, fun t ht => (hgone t ht).trans_le (sub_le_sub_right hle width)⟩, h.sparse⟩

theorem Tracks.prune_eq (h : Tracks width limit admitted bucket now) :
    RollingWindow.prune (now - width) bucket = within width (now - width) admitted := by
  rw [h.prune_eq_since, within]
  refine List.filter_congr fun t ht => ?_
  simp [h.past t ht]

theorem Tracks.record (h : Tracks width limit admitted bucket now)
    (hroom : (RollingWindow.prune (now - width) bucket).length < limit) :
    Tracks width limit (admitted ++ [now]) (RollingWindow.prune (now - width) bucket ++ [now])
      now := by
  have hpruned := h.prune
  obtain ⟨gone, hsplit, hgone⟩ := hpruned.split
  refine ⟨?_, ?_, ⟨gone, by rw [hsplit, List.append_assoc], hgone⟩, fun start => ?_⟩
  · refine List.pairwise_append.mpr ⟨h.sorted, List.pairwise_singleton _ _, fun t ht s hs => ?_⟩
    rw [List.mem_singleton.mp hs]
    exact h.past t ht
  · intro t ht
    rcases List.mem_append.mp ht with ht | ht
    · exact h.past t ht
    · exact (List.mem_singleton.mp ht).le
  · rw [within, List.filter_append, List.length_append]
    by_cases hin : start ≤ now ∧ now ≤ start + width
    · have hbefore : (within width start admitted).length ≤
          (RollingWindow.prune (now - width) bucket).length := by
        rw [h.prune_eq_since]
        refine (List.monotone_filter_right admitted fun t ht => ?_).length_le
        have hin' : now - width ≤ start := sub_le_iff_le_add.mpr hin.2
        simp only [decide_eq_true_eq] at ht ⊢
        exact hin'.trans ht.1
      have hnow : [now].filter (fun t => start ≤ t ∧ t ≤ start + width) = [now] := by simp [hin]
      rw [hnow, List.length_singleton]
      exact (Nat.succ_le_succ hbefore).trans hroom
    · have hnow : [now].filter (fun t => start ≤ t ∧ t ≤ start + width) = [] := by
        simpa using hin
      rw [hnow]
      exact h.sparse start

end

end RollingWindow
