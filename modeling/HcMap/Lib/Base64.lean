import Mathlib.Data.List.Basic

/-!
# Base64

Three bytes are four characters of six bits each; the last group is filled up
with zero bits, and its text with `=`. The decoder is the forgiving one of the
web platform: it skips white space, and does not ask for the `=`.
-/

namespace HcMap.Base64

abbrev Sextet := Fin 64

def alphabet : List Char :=
  "ABCDEFGHIJKLMNOPQRSTUVWXYZabcdefghijklmnopqrstuvwxyz0123456789+/".toList

def charOf (s : Sextet) : Char := alphabet.getD s.val 'A'

def sextetOf (c : Char) : Option Sextet :=
  if h : alphabet.idxOf c < 64 then some ⟨alphabet.idxOf c, h⟩ else none

@[simp] theorem sextetOf_charOf : ∀ s : Sextet, sextetOf (charOf s) = some s := by decide +kernel

-- ---------------------------------------------------------------------------
-- Groups
-- ---------------------------------------------------------------------------

def first (x : UInt8) : Sextet := ⟨x.toNat / 4, by have := x.toNat_lt; omega⟩

def second (x y : UInt8) : Sextet :=
  ⟨x.toNat % 4 * 16 + y.toNat / 16, by have := y.toNat_lt; omega⟩

def third (y z : UInt8) : Sextet :=
  ⟨y.toNat % 16 * 4 + z.toNat / 64, by have := z.toNat_lt; omega⟩

def fourth (z : UInt8) : Sextet := ⟨z.toNat % 64, by omega⟩

def sextets : List UInt8 → List Sextet
  | [] => []
  | [x] => [first x, second x 0]
  | [x, y] => [first x, second x y, third y 0]
  | x :: y :: z :: rest => first x :: second x y :: third y z :: fourth z :: sextets rest

def opening (a b : Sextet) : UInt8 := .ofNat (a.val * 4 + b.val / 16)

def middle (b c : Sextet) : UInt8 := .ofNat (b.val % 16 * 16 + c.val / 4)

def closing (c d : Sextet) : UInt8 := .ofNat (c.val % 4 * 64 + d.val)

def octets : List Sextet → List UInt8
  | [] => []
  | [_] => []
  | [a, b] => [opening a b]
  | [a, b, c] => [opening a b, middle b c]
  | a :: b :: c :: d :: rest => opening a b :: middle b c :: closing c d :: octets rest

@[simp] theorem opening_second (x y : UInt8) : opening (first x) (second x y) = x := by
  have hy := y.toNat_lt
  have hsum : x.toNat / 4 * 4 + (x.toNat % 4 * 16 + y.toNat / 16) / 16 = x.toNat := by omega
  show UInt8.ofNat (x.toNat / 4 * 4 + (x.toNat % 4 * 16 + y.toNat / 16) / 16) = x
  rw [hsum, UInt8.ofNat_toNat]

@[simp] theorem middle_third (x y z : UInt8) : middle (second x y) (third y z) = y := by
  have hy := y.toNat_lt
  have hz := z.toNat_lt
  have hsum : (x.toNat % 4 * 16 + y.toNat / 16) % 16 * 16 +
      (y.toNat % 16 * 4 + z.toNat / 64) / 4 = y.toNat := by omega
  show UInt8.ofNat ((x.toNat % 4 * 16 + y.toNat / 16) % 16 * 16 +
    (y.toNat % 16 * 4 + z.toNat / 64) / 4) = y
  rw [hsum, UInt8.ofNat_toNat]

@[simp] theorem closing_fourth (y z : UInt8) : closing (third y z) (fourth z) = z := by
  have hz := z.toNat_lt
  have hsum : (y.toNat % 16 * 4 + z.toNat / 64) % 4 * 64 + z.toNat % 64 = z.toNat := by omega
  show UInt8.ofNat ((y.toNat % 16 * 4 + z.toNat / 64) % 4 * 64 + z.toNat % 64) = z
  rw [hsum, UInt8.ofNat_toNat]

@[simp] theorem octets_sextets (bytes : List UInt8) : octets (sextets bytes) = bytes := by
  induction bytes using sextets.induct with
  | case1 => rfl
  | case2 x => simp [sextets, octets]
  | case3 x y => simp [sextets, octets]
  | case4 x y z rest ih => simp [sextets, octets, ih]

-- ---------------------------------------------------------------------------
-- Texts
-- ---------------------------------------------------------------------------

def padding (length : Nat) : Nat := (3 - length % 3) % 3

def encode (bytes : List UInt8) : String :=
  String.ofList ((sextets bytes).map charOf ++ List.replicate (padding bytes.length) '=')

def whitespace (c : Char) : Bool := c ∈ ['\t', '\n', '\x0c', '\r', ' ']

def dropPad (cs : List Char) : List Char := if cs.getLast? = some '=' then cs.dropLast else cs

def unpad (cs : List Char) : List Char :=
  if cs.length % 4 = 0 then dropPad (dropPad cs) else cs

def decode (text : String) : Option (List UInt8) :=
  let cs := unpad (text.toList.filter fun c => !whitespace c)
  if cs.length % 4 = 1 then none else (cs.mapM sextetOf).map octets

@[simp] theorem length_sextets (bytes : List UInt8) :
    (sextets bytes).length = bytes.length + (bytes.length + 2) / 3 := by
  induction bytes using sextets.induct with
  | case1 => rfl
  | case2 x => simp [sextets]
  | case3 x y => simp [sextets]
  | case4 x y z rest ih =>
    simp only [sextets, List.length_cons, ih]
    omega

theorem charOf_ne : ∀ s : Sextet, charOf s ≠ '=' ∧ whitespace (charOf s) = false := by
  decide +kernel

theorem dropPad_self {cs : List Char} (h : ∀ c ∈ cs, c ≠ '=') : dropPad cs = cs := by
  refine if_neg fun hlast => ?_
  exact h _ (List.mem_of_getLast? hlast) rfl

theorem dropPad_append (cs : List Char) : dropPad (cs ++ ['=']) = cs := by
  simp [dropPad]

theorem unpad_append {cs : List Char} {n : Nat} (h : ∀ c ∈ cs, c ≠ '=') (hn : n ≤ 2)
    (hlength : (cs ++ List.replicate n '=').length % 4 = 0) :
    unpad (cs ++ List.replicate n '=') = cs := by
  rw [unpad, if_pos hlength]
  match n, hn with
  | 0, _ => simp [dropPad_self h]
  | 1, _ =>
    rw [List.replicate_one, dropPad_append, dropPad_self h]
  | 2, _ =>
    have htwo : cs ++ List.replicate 2 '=' = cs ++ ['='] ++ ['='] := by simp [List.replicate]
    rw [htwo, dropPad_append, dropPad_append]

@[simp] theorem mapM_sextetOf (ss : List Sextet) : (ss.map charOf).mapM sextetOf = some ss := by
  induction ss with
  | nil => rfl
  | cons s ss ih => simp [sextetOf_charOf, ih]

theorem decode_encode (bytes : List UInt8) : decode (encode bytes) = some bytes := by
  have hne : ∀ c ∈ (sextets bytes).map charOf, c ≠ '=' := by
    intro c hc
    obtain ⟨s, -, rfl⟩ := List.mem_map.mp hc
    exact (charOf_ne s).1
  have hpad : padding bytes.length ≤ 2 := by
    unfold padding
    omega
  have hlength : ((sextets bytes).map charOf ++
      List.replicate (padding bytes.length) '=').length % 4 = 0 := by
    simp only [List.length_append, List.length_map, List.length_replicate, length_sextets, padding]
    omega
  have hblank : ((sextets bytes).map charOf ++ List.replicate (padding bytes.length) '=').filter
      (fun c => !whitespace c) =
        (sextets bytes).map charOf ++ List.replicate (padding bytes.length) '=' := by
    refine List.filter_eq_self.mpr fun c hc => ?_
    rcases List.mem_append.mp hc with hc | hc
    · obtain ⟨s, -, rfl⟩ := List.mem_map.mp hc
      simp [(charOf_ne s).2]
    · obtain rfl := List.eq_of_mem_replicate hc
      rfl
  have hone : ((sextets bytes).map charOf).length % 4 ≠ 1 := by
    rw [List.length_map, length_sextets]
    omega
  rw [decode, encode, String.toList_ofList, hblank]
  simp only [unpad_append hne hpad hlength, if_neg hone, mapM_sextetOf, Option.map_some,
    octets_sextets]

end HcMap.Base64
