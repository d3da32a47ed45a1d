import Mathlib.Data.List.DropRight
import Mathlib.Data.Rat.Floor
import Mathlib.Tactic.FieldSimp
import Mathlib.Tactic.Linarith
import Mathlib.Tactic.Ring
import HcMap.Lib.Digits

/-!
# Decimal numbers

How a browser reads numbers, `Number(text)`, and writes them with a fixed number
of decimals, `toFixed`. The numbers are exact.
-/

namespace Decimal

open Digits

-- ---------------------------------------------------------------------------
-- Reading
-- ---------------------------------------------------------------------------

def isSpace (c : Char) : Bool :=
  c.toNat ∈ [0x9, 0xA, 0xB, 0xC, 0xD, 0x20, 0xA0, 0x1680, 0x2028, 0x2029, 0x202F, 0x205F, 0x3000,
    0xFEFF] || (0x2000 ≤ c.toNat && c.toNat ≤ 0x200A)

def trim (cs : List Char) : List Char := (cs.dropWhile isSpace).rdropWhile isSpace

/-- The number with these digits before and after the point. -/
def fraction (int frac : List Char) : ℚ := value (int ++ frac) / 10 ^ frac.length

def digits? (ds : List Char) : Option Nat :=
  if ds ≠ [] ∧ allDigits ds then some (value ds) else none

def readExponent : List Char → Option Int
  | [] => some 0
  | c :: cs =>
    if c = 'e' ∨ c = 'E' then
      match cs with
      | '+' :: ds => (digits? ds).map fun n => (n : Int)
      | '-' :: ds => (digits? ds).map fun n => -(n : Int)
      | ds => (digits? ds).map fun n => (n : Int)
    else none

def readFraction : List Char → List Char × List Char
  | '.' :: cs => cs.span Char.isDigit
  | cs => ([], cs)

def readUnsigned (cs : List Char) : Option ℚ :=
  let (int, rest) := cs.span Char.isDigit
  let (frac, rest) := readFraction rest
  if int = [] ∧ frac = [] then none
  else (readExponent rest).map fun e => fraction int frac * 10 ^ e

def radix? : Char → Option Nat
  | 'x' | 'X' => some 16
  | 'o' | 'O' => some 8
  | 'b' | 'B' => some 2
  | _ => none

def hexValue (c : Char) : Nat :=
  if c.isDigit then c.toNat - 48
  else if 'a' ≤ c ∧ c ≤ 'f' then c.toNat - 87
  else if 'A' ≤ c ∧ c ≤ 'F' then c.toNat - 55
  else 16

def readRadix : List Char → Option ℚ
  | '0' :: c :: ds => do
    let radix ← radix? c
    if ds ≠ [] ∧ ds.all (fun d => hexValue d < radix) then
      some ((ds.foldl (fun n d => radix * n + hexValue d) 0 : Nat) : ℚ)
    else none
  | _ => none

/-- `Number(text)`; `none` for the values that are not finite. -/
def toNumber (s : String) : Option ℚ :=
  match trim s.toList with
  | [] => some 0
  | '-' :: cs => (readUnsigned cs).map Neg.neg
  | '+' :: cs => readUnsigned cs
  | cs => readRadix cs <|> readUnsigned cs

-- ---------------------------------------------------------------------------
-- Writing
-- ---------------------------------------------------------------------------

/-- The nearest multiple of `10 ^ -f`, as its numerator. -/
def scaled (f : Nat) (x : ℚ) : Nat := ⌊x * 10 ^ f + 1 / 2⌋₊

def fixedText (f n : Nat) : List Char := Nat.toDigits 10 (n / 10 ^ f) ++ '.' :: pad f (n % 10 ^ f)

/-- A number below 0 keeps its sign when it is rounded to 0. -/
def toFixed (f : Nat) (x : ℚ) : List Char :=
  if x < 0 then '-' :: fixedText f (scaled f (-x)) else fixedText f (scaled f x)

def rounded (f : Nat) (x : ℚ) : ℚ :=
  if x < 0 then -((scaled f (-x) : ℚ) / 10 ^ f) else (scaled f x : ℚ) / 10 ^ f

def zeros (cs : List Char) : Bool := cs ≠ [] && cs.all (· = '0')

/-- `/^\.?0+$/` -/
def zeroTail : List Char → Bool
  | '.' :: cs => zeros cs
  | cs => zeros cs

def stripZeros : List Char → List Char
  | [] => []
  | c :: cs => if zeroTail (c :: cs) then [] else c :: stripZeros cs

-- ---------------------------------------------------------------------------
-- What is written is read back
-- ---------------------------------------------------------------------------

section
variable {cs ds int frac : List Char} {c : Char} {f n : Nat} {x : ℚ}

theorem trim_eq_self (h : ∀ c ∈ cs, isSpace c = false) : trim cs = cs := by
  have hstart : cs.dropWhile isSpace = cs := by
    cases cs with
    | nil => rfl
    | cons c cs => rw [List.dropWhile_cons_of_neg (by simp [h c List.mem_cons_self])]
  rw [trim, hstart, List.rdropWhile_eq_self_iff]
  intro hne
  simp [h _ (List.getLast_mem hne)]

theorem isSpace_of_isDigit (h : c.isDigit) : isSpace c = false := by
  simp only [Char.isDigit, Bool.and_eq_true, decide_eq_true_eq] at h
  obtain ⟨hge, hle⟩ := h
  have hge' : 48 ≤ c.toNat := hge
  have hle' : c.toNat ≤ 57 := hle
  simp only [isSpace, List.mem_cons, List.not_mem_nil, or_false, Bool.or_eq_false_iff,
    decide_eq_false_iff_not, Bool.and_eq_false_iff]
  omega

theorem readUnsigned_int (hds : allDigits ds) (hne : ds ≠ []) :
    readUnsigned ds = some (value ds) := by
  unfold readUnsigned
  rw [span_eq_self_of_digits hds]
  simp [readFraction, readExponent, fraction, hne]

theorem readUnsigned_point (hint : allDigits int) (hne : int ≠ []) (hfrac : allDigits frac) :
    readUnsigned (int ++ '.' :: frac) = some (fraction int frac) := by
  have hrest : readFraction ('.' :: frac) = (frac, []) := span_eq_self_of_digits hfrac
  unfold readUnsigned
  rw [span_eq_of_digits hint (by decide)]
  simp only [hrest, readExponent, hne, false_and, if_false, Option.map_some, zpow_zero, mul_one]

theorem fraction_zeros (k : Nat) :
    fraction int (frac ++ List.replicate k '0') = fraction int frac := by
  unfold fraction
  rw [← List.append_assoc, value_append, value_replicate_zero, List.length_append,
    List.length_replicate]
  push_cast
  rw [pow_add]
  field_simp
  ring

theorem fraction_fixed (hf : 0 < f) :
    fraction (Nat.toDigits 10 (n / 10 ^ f)) (pad f (n % 10 ^ f)) = n / 10 ^ f := by
  have hlength : (pad f (n % 10 ^ f)).length = f :=
    length_pad hf (Nat.mod_lt _ (Nat.pow_pos (by decide)))
  rw [fraction, value_append, hlength, value_toDigits, value_pad, Nat.div_add_mod]

theorem stripZeros_digits (h : allDigits ds) :
    ∃ k, ds = stripZeros ds ++ List.replicate k '0' := by
  induction ds with
  | nil => exact ⟨0, rfl⟩
  | cons c cs ih =>
    rw [stripZeros]
    split
    · rename_i htail
      have hzeros : zeros (c :: cs) := by
        unfold zeroTail at htail
        split at htail
        · rename_i heq
          rw [heq] at h
          cases h
        · exact htail
      simp only [zeros, Bool.and_eq_true, List.all_eq_true, decide_eq_true_eq] at hzeros
      exact ⟨(c :: cs).length, List.eq_replicate_of_mem hzeros.2⟩
    · have hcs : allDigits cs := (Bool.and_eq_true_iff.mp h).2
      obtain ⟨k, hk⟩ := ih hcs
      exact ⟨k, by rw [List.cons_append, ← hk]⟩

theorem allDigits_stripZeros (h : allDigits ds) : allDigits (stripZeros ds) := by
  obtain ⟨k, hk⟩ := stripZeros_digits h
  rw [hk, allDigits_append, Bool.and_eq_true] at h
  exact h.1

theorem stripZeros_point (hint : allDigits int) :
    stripZeros (int ++ '.' :: frac) =
      int ++ if zeros frac then [] else '.' :: stripZeros frac := by
  induction int with
  | nil => simp [stripZeros, zeroTail]
  | cons c cs ih =>
    obtain ⟨hc, hcs⟩ := Bool.and_eq_true_iff.mp hint
    have hpoint : c ≠ '.' := fun heq => absurd (heq ▸ hc) (by decide)
    have htail : zeroTail (c :: (cs ++ '.' :: frac)) = false := by
      unfold zeroTail
      split
      · rename_i heq
        exact absurd (List.cons.inj heq).1 hpoint
      · simp [zeros]
    rw [List.cons_append, stripZeros, htail, if_neg Bool.false_ne_true, ih hcs, List.cons_append]

theorem readUnsigned_stripZeros (hf : 0 < f) :
    readUnsigned (stripZeros (fixedText f n)) = some ((n : ℚ) / 10 ^ f) := by
  have hint := allDigits_toDigits (n / 10 ^ f)
  have hne : Nat.toDigits 10 (n / 10 ^ f) ≠ [] := Nat.toDigits_ne_nil
  have hfrac : allDigits (pad f (n % 10 ^ f)) := allDigits_pad
  obtain ⟨k, hk⟩ := stripZeros_digits hfrac
  rw [fixedText, stripZeros_point hint, ← fraction_fixed hf]
  split
  · rename_i hzeros
    simp only [zeros, Bool.and_eq_true, List.all_eq_true, decide_eq_true_eq] at hzeros
    rw [List.append_nil, readUnsigned_int hint hne, List.eq_replicate_of_mem hzeros.2,
      ← List.nil_append (List.replicate _ '0'), fraction_zeros]
    simp [fraction]
  · rw [readUnsigned_point hint hne (allDigits_stripZeros hfrac)]
    conv_rhs => rw [hk, fraction_zeros]

theorem stripZeros_prefix : stripZeros cs <+: cs := by
  induction cs with
  | nil => exact List.prefix_rfl
  | cons c cs ih =>
    rw [stripZeros]
    split
    · exact List.nil_prefix
    · exact (List.prefix_cons_inj c).mpr ih

theorem stripZeros_neg : stripZeros ('-' :: cs) = '-' :: stripZeros cs := by
  have htail : zeroTail ('-' :: cs) = false := by simp [zeroTail, zeros]
  rw [stripZeros, htail, if_neg Bool.false_ne_true]

/-- Only digits and points. -/
def Plain (cs : List Char) : Prop := ∀ c ∈ cs, c.isDigit ∨ c = '.'

theorem Plain.ne {c' : Char} (h : Plain (c :: cs)) (hdigit : ¬ c'.isDigit) (hpoint : c' ≠ '.') :
    c ≠ c' := by
  rintro rfl
  rcases h c List.mem_cons_self with hc | hc
  · exact hdigit hc
  · exact hpoint hc

theorem Plain.isSpace (h : Plain cs) : ∀ c ∈ cs, isSpace c = false := by
  intro c hc
  rcases h c hc with hdigit | rfl
  · exact isSpace_of_isDigit hdigit
  · decide

theorem plain_stripZeros_fixedText (f n : Nat) : Plain (stripZeros (fixedText f n)) := by
  intro c hc
  have hmem := stripZeros_prefix.subset hc
  rcases List.mem_append.mp hmem with hint | hfrac
  · exact .inl (List.all_eq_true.mp (allDigits_toDigits _) c hint)
  · rcases List.mem_cons.mp hfrac with hpoint | hfrac
    · exact .inr hpoint
    · exact .inl (List.all_eq_true.mp allDigits_pad c hfrac)

theorem Plain.readRadix (h : Plain cs) : readRadix cs = none := by
  unfold Decimal.readRadix
  split
  · rename_i c ds
    have hradix : radix? c = none := by
      have hc : Plain (c :: ds) := fun c' hc' => h c' (List.mem_cons_of_mem _ hc')
      unfold radix?
      split
      all_goals first
        | rfl
        | exact absurd rfl (hc.ne (by decide) (by decide))
    rw [hradix]
    rfl
  · rfl

theorem toNumber_plain (h : Plain (c :: cs)) :
    toNumber (String.ofList (c :: cs)) = readUnsigned (c :: cs) := by
  unfold toNumber
  rw [String.toList_ofList, trim_eq_self h.isSpace]
  split
  · rename_i heq
    cases heq
  · rename_i heq
    exact absurd (List.cons.inj heq).1 (h.ne (by decide) (by decide))
  · rename_i heq
    exact absurd (List.cons.inj heq).1 (h.ne (by decide) (by decide))
  · rw [h.readRadix]
    rfl

theorem toNumber_neg (h : Plain cs) :
    toNumber (String.ofList ('-' :: cs)) = (readUnsigned cs).map Neg.neg := by
  have hspace : ∀ c ∈ '-' :: cs, isSpace c = false := by
    intro c hc
    rcases List.mem_cons.mp hc with rfl | hc
    · decide
    · exact h.isSpace c hc
  unfold toNumber
  rw [String.toList_ofList, trim_eq_self hspace]
  rfl

/-- The stripped text is the rounded number. -/
theorem toNumber_stripZeros_toFixed (hf : 0 < f) (x : ℚ) :
    toNumber (String.ofList (stripZeros (toFixed f x))) = some (rounded f x) := by
  unfold toFixed rounded
  split
  · rw [stripZeros_neg, toNumber_neg (plain_stripZeros_fixedText f _), readUnsigned_stripZeros hf]
    rfl
  · have hread := readUnsigned_stripZeros (n := scaled f x) hf
    have hplain := plain_stripZeros_fixedText f (scaled f x)
    cases hcs : stripZeros (fixedText f (scaled f x)) with
    | nil =>
      rw [hcs] at hread
      cases hread
    | cons c cs =>
      rw [hcs] at hread hplain
      rw [toNumber_plain hplain, hread]

-- ---------------------------------------------------------------------------
-- Rounding
-- ---------------------------------------------------------------------------

theorem scaled_div (f n : Nat) : scaled f ((n : ℚ) / 10 ^ f) = n := by
  have hpos : (10 : ℚ) ^ f ≠ 0 := by positivity
  have hhalf : ⌊(1 / 2 : ℚ)⌋₊ = 0 := by norm_num
  rw [scaled, div_mul_cancel₀ _ hpos, add_comm, Nat.floor_add_natCast (by norm_num), hhalf,
    Nat.zero_add]

theorem neg_scaled_neg (h : 0 < n) : -((n : ℚ) / 10 ^ f) < 0 := by
  have hn : (0 : ℚ) < n := by exact_mod_cast h
  exact neg_neg_of_pos (div_pos hn (by positivity))

/-- What is rounded is written as before, unless the sign of a 0 is lost. -/
theorem toFixed_rounded (f : Nat) (x : ℚ) :
    toFixed f (rounded f x) =
      if x < 0 ∧ scaled f (-x) = 0 then fixedText f 0 else toFixed f x := by
  unfold rounded
  split
  · rename_i hneg
    rcases Nat.eq_zero_or_pos (scaled f (-x)) with hzero | hscaled
    · have hwritten := scaled_div f 0
      rw [if_pos ⟨hneg, hzero⟩, hzero]
      rw [Nat.cast_zero, zero_div] at hwritten ⊢
      rw [neg_zero, toFixed, if_neg (lt_irrefl 0), hwritten]
    · rw [if_neg fun h => hscaled.ne' h.2, toFixed, toFixed, if_pos (neg_scaled_neg hscaled),
        if_pos hneg, neg_neg, scaled_div]
  · rename_i hnonneg
    have hge : ¬ (scaled f x : ℚ) / 10 ^ f < 0 := not_lt.mpr (by positivity)
    rw [if_neg fun h => hnonneg h.1, toFixed, toFixed, if_neg hge, if_neg hnonneg, scaled_div]

theorem rounded_of_nonneg (f n : Nat) : rounded f ((n : ℚ) / 10 ^ f) = (n : ℚ) / 10 ^ f := by
  have hge : ¬ (n : ℚ) / 10 ^ f < 0 := not_lt.mpr (by positivity)
  rw [rounded, if_neg hge, scaled_div]

theorem rounded_rounded (f : Nat) (x : ℚ) : rounded f (rounded f x) = rounded f x := by
  by_cases hneg : x < 0
  · have hx : rounded f x = -((scaled f (-x) : ℚ) / 10 ^ f) := if_pos hneg
    rw [hx]
    rcases Nat.eq_zero_or_pos (scaled f (-x)) with hzero | hscaled
    · have hrounded := rounded_of_nonneg f 0
      rw [Nat.cast_zero, zero_div] at hrounded
      rw [hzero, Nat.cast_zero, zero_div, neg_zero, hrounded]
    · have hlt : -((scaled f (-x) : ℚ) / 10 ^ f) < 0 := neg_scaled_neg hscaled
      rw [rounded, if_pos hlt, neg_neg, scaled_div]
  · have hx : rounded f x = (scaled f x : ℚ) / 10 ^ f := if_neg hneg
    rw [hx, rounded_of_nonneg]

theorem scaled_le (hx : 0 ≤ x) (h : x ≤ n) : scaled f x ≤ n * 10 ^ f := by
  have hpos : (0 : ℚ) < 10 ^ f := by positivity
  refine Nat.lt_succ_iff.mp ((Nat.floor_lt (by positivity)).mpr ?_)
  push_cast
  have hscaled : x * 10 ^ f ≤ n * 10 ^ f := mul_le_mul_of_nonneg_right h hpos.le
  linarith

theorem rounded_nonneg (f : Nat) (hx : 0 ≤ x) : 0 ≤ rounded f x := by
  rw [rounded, if_neg (not_lt.mpr hx)]
  positivity

theorem scaled_div_le (hx : 0 ≤ x) (h : x ≤ n) : (scaled f x : ℚ) / 10 ^ f ≤ n := by
  rw [div_le_iff₀ (by positivity)]
  exact_mod_cast scaled_le hx h

theorem rounded_bounds (f : Nat) (h : -(n : ℚ) ≤ x ∧ x ≤ n) :
    -(n : ℚ) ≤ rounded f x ∧ rounded f x ≤ n := by
  have hn : (0 : ℚ) ≤ n := Nat.cast_nonneg n
  rcases lt_or_ge x 0 with hneg | hnonneg
  · have hbound := scaled_div_le (f := f) (x := -x) (n := n) (by linarith) (by linarith)
    have hfraction : (0 : ℚ) ≤ (scaled f (-x) : ℚ) / 10 ^ f := by positivity
    rw [rounded, if_pos hneg]
    constructor <;> linarith
  · have hbound := scaled_div_le (f := f) hnonneg h.2
    have hrounded := rounded_nonneg f hnonneg
    rw [rounded, if_neg (not_lt.mpr hnonneg)] at hrounded ⊢
    exact ⟨by linarith, hbound⟩

theorem stripZeros_fixedText_ne_nil (f n : Nat) : stripZeros (fixedText f n) ≠ [] := by
  rw [fixedText, stripZeros_point (allDigits_toDigits _)]
  exact List.append_ne_nil_of_left_ne_nil Nat.toDigits_ne_nil _

end

end Decimal
