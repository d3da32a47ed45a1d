import Mathlib.Algebra.GroupWithZero.Nat
import Mathlib.Data.List.TakeWhile
import Mathlib.Data.List.TakeDrop

/-!
# Decimal digits

Numbers written with at least so many digits, and read back from exactly so
many. Texts are lists of characters; a reader answers with what it read and the
rest.
-/

namespace Digits

def value (ds : List Char) : Nat := Nat.ofDigitChars 10 ds 0

def allDigits (cs : List Char) : Bool := cs.all Char.isDigit

/-- The decimal digits, with zeros before them up to the width. -/
def pad (width n : Nat) : List Char := (Nat.toDigits 10 n).leftpad width '0'

def number (width : Nat) (cs : List Char) : Option (Nat × List Char) :=
  if (cs.take width).length = width ∧ allDigits (cs.take width) then
    some (value (cs.take width), cs.drop width)
  else none

def expect (c : Char) : List Char → Option (List Char)
  | [] => none
  | c' :: cs => if c' = c then some cs else none

section
variable {w n : Nat} {c c' : Char} {cs ds ds' : List Char}

@[simp] theorem expect_cons : expect c (c' :: cs) = if c' = c then some cs else none := rfl

theorem value_append : value (ds ++ ds') = 10 ^ ds'.length * value ds + value ds' := by
  rw [value, Nat.ofDigitChars_append, Nat.ofDigitChars_eq_ofDigitChars_zero]
  rfl

@[simp] theorem value_toDigits (n : Nat) : value (Nat.toDigits 10 n) = n :=
  Nat.ofDigitChars_ten_toDigits

theorem value_replicate_zero (k : Nat) : value (List.replicate k '0') = 0 := by
  rw [value, Nat.ofDigitChars_replicate_zero, Nat.mul_zero]

theorem allDigits_toDigits (n : Nat) : allDigits (Nat.toDigits 10 n) := by
  refine List.all_eq_true.mpr fun c hc => ?_
  exact Nat.isDigit_of_mem_toDigits (by decide) (by decide) hc

theorem allDigits_append : allDigits (ds ++ ds') = (allDigits ds && allDigits ds') :=
  List.all_append

@[simp] theorem value_pad : value (pad w n) = n := by
  rw [pad, List.leftpad, value_append, value_replicate_zero, value_toDigits, Nat.mul_zero,
    Nat.zero_add]

theorem allDigits_pad : allDigits (pad w n) := by
  have hzeros : ∀ k, allDigits (List.replicate k '0') := fun k => by
    refine List.all_eq_true.mpr fun c hc => ?_
    rw [List.eq_of_mem_replicate hc]
    rfl
  rw [pad, List.leftpad, allDigits_append, hzeros, allDigits_toDigits]
  rfl

theorem length_pad (hw : 0 < w) (h : n < 10 ^ w) : (pad w n).length = w := by
  have hshort := (Nat.length_toDigits_le_iff (by decide) hw).mpr h
  rw [pad, List.leftpad, List.length_append, List.length_replicate]
  omega

theorem pad_eq_toDigits (h : 10 ^ (w - 1) ≤ n) (hw : 1 < w) :
    pad w n = Nat.toDigits 10 n := by
  have hlong : ¬ (Nat.toDigits 10 n).length ≤ w - 1 := fun hle =>
    Nat.not_lt.mpr h ((Nat.length_toDigits_le_iff (by decide) (by omega)).mp hle)
  rw [pad, List.leftpad, Nat.sub_eq_zero_of_le (by omega)]
  rfl

theorem number_pad (hw : 0 < w) (h : n < 10 ^ w) (cs : List Char) :
    number w (pad w n ++ cs) = some (n, cs) := by
  have htake : (pad w n ++ cs).take w = pad w n :=
    List.take_left' (length_pad hw h)
  have hdrop : (pad w n ++ cs).drop w = cs := List.drop_left' (length_pad hw h)
  rw [number, htake, hdrop, if_pos ⟨length_pad hw h, allDigits_pad⟩, value_pad]

theorem span_eq_of_digits (h : allDigits ds) (hc : ¬ c.isDigit) :
    (ds ++ c :: cs).span Char.isDigit = (ds, c :: cs) := by
  have hds : ∀ d ∈ ds, d.isDigit := List.all_eq_true.mp h
  rw [List.span_eq_takeWhile_dropWhile, List.takeWhile_append_of_pos hds,
    List.dropWhile_append_of_pos hds, List.takeWhile_cons_of_neg hc, List.dropWhile_cons_of_neg hc,
    List.append_nil]

theorem span_eq_self_of_digits (h : allDigits ds) : ds.span Char.isDigit = (ds, []) := by
  have hds : ∀ d ∈ ds, d.isDigit := List.all_eq_true.mp h
  rw [List.span_eq_takeWhile_dropWhile, List.takeWhile_eq_self_iff.mpr hds,
    List.dropWhile_eq_nil_iff.mpr hds]

theorem toDigits_inj {m : Nat} : Nat.toDigits 10 n = Nat.toDigits 10 m ↔ n = m := by
  refine ⟨fun h => ?_, fun h => by rw [h]⟩
  rw [← value_toDigits n, h, value_toDigits]

theorem pad_inj {m : Nat} : pad w n = pad w m ↔ n = m := by
  refine ⟨fun h => ?_, fun h => by rw [h]⟩
  rw [← value_pad (w := w) (n := n), h, value_pad]

theorem not_mem_of_digits (h : allDigits ds) (hc : ¬ c.isDigit) : c ∉ ds :=
  fun hmem => hc (List.all_eq_true.mp h c hmem)

theorem separated_inj (hds : c ∉ ds) (hds' : c ∉ ds') {cs' : List Char} :
    ds ++ c :: cs = ds' ++ c :: cs' ↔ ds = ds' ∧ cs = cs' := by
  refine ⟨fun h => ?_, fun h => by rw [h.1, h.2]⟩
  induction ds generalizing ds' with
  | nil =>
    cases ds' with
    | nil => exact ⟨rfl, (List.cons.inj h).2⟩
    | cons d' ds' => exact absurd ((List.cons.inj h).1 ▸ List.mem_cons_self) hds'
  | cons d ds ih =>
    cases ds' with
    | nil => exact absurd ((List.cons.inj h).1 ▸ List.mem_cons_self) hds
    | cons d' ds' =>
      obtain ⟨rfl, htail⟩ := List.cons.inj h
      obtain ⟨rfl, hcs⟩ := ih (fun hm => hds (List.mem_cons_of_mem _ hm))
        (fun hm => hds' (List.mem_cons_of_mem _ hm)) htail
      exact ⟨rfl, hcs⟩

theorem digits_append_inj (hds : allDigits ds) (hds' : allDigits ds') (hc : ¬ c.isDigit)
    {cs' : List Char} : ds ++ c :: cs = ds' ++ c :: cs' ↔ ds = ds' ∧ cs = cs' :=
  separated_inj (not_mem_of_digits hds hc) (not_mem_of_digits hds' hc)

/-- `String(n)` of an integer -/
def integer (n : Int) : List Char :=
  if n < 0 then '-' :: Nat.toDigits 10 n.natAbs else Nat.toDigits 10 n.natAbs

theorem not_sign_of_toDigits (n : Nat) : Nat.toDigits 10 n ≠ '-' :: cs := by
  intro h
  have hdigits := allDigits_toDigits n
  rw [h] at hdigits
  cases hdigits

theorem integer_inj {n m : Int} : integer n = integer m ↔ n = m := by
  refine ⟨fun h => ?_, fun h => by rw [h]⟩
  unfold integer at h
  split at h <;> split at h
  · have hdigits := toDigits_inj.mp (List.cons.inj h).2
    omega
  · exact absurd h.symm (not_sign_of_toDigits _)
  · exact absurd h (not_sign_of_toDigits _)
  · have hdigits := toDigits_inj.mp h
    omega

end

end Digits
