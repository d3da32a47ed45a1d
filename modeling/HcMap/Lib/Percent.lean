import HcMap.Lib.Query

/-!
# Form encoding

`application/x-www-form-urlencoded`: names and values as UTF-8, with `+` for a
blank and `%` before the two hexadecimal digits of any other byte that is not a
letter, a digit or one of `*-._`. What is written is read back as it was.
-/

namespace Percent

-- ---------------------------------------------------------------------------
-- Writing
-- ---------------------------------------------------------------------------

def unreserved (c : Char) : Bool :=
  c.isAlphanum || c = '*' || c = '-' || c = '.' || c = '_'

def hexDigit (n : Nat) : Char := "0123456789ABCDEF".toList.getD n '0'

def escape (b : UInt8) : List Char := ['%', hexDigit (b.toNat / 16), hexDigit (b.toNat % 16)]

def encodeChar (c : Char) : List Char :=
  if c = ' ' then ['+']
  else if unreserved c then [c]
  else (String.utf8EncodeChar c).flatMap escape

def encode (cs : List Char) : List Char := cs.flatMap encodeChar

def part (p : List Char × List Char) : List Char := encode p.1 ++ '=' :: encode p.2

def serialize (ps : List (List Char × List Char)) : List Char := ['&'].intercalate (ps.map part)

-- ---------------------------------------------------------------------------
-- Reading
-- ---------------------------------------------------------------------------

def hexValue (c : Char) : Option Nat :=
  if '0' ≤ c ∧ c ≤ '9' then some (c.toNat - '0'.toNat)
  else if 'A' ≤ c ∧ c ≤ 'F' then some (c.toNat - 'A'.toNat + 10)
  else if 'a' ≤ c ∧ c ≤ 'f' then some (c.toNat - 'a'.toNat + 10)
  else none

/-- A `%` without two hexadecimal digits stands for itself. -/
def bytes : List Char → List UInt8
  | [] => []
  | '%' :: hi :: lo :: cs =>
    match hexValue hi, hexValue lo with
    | some h, some l => UInt8.ofNat (16 * h + l) :: bytes cs
    | _, _ => String.utf8EncodeChar '%' ++ bytes (hi :: lo :: cs)
  | c :: cs => String.utf8EncodeChar c ++ bytes cs

/-- `lossy` is the decoding of bytes that are no UTF-8. -/
def unescape (lossy : List UInt8 → List Char) : Query.Unescape := fun cs =>
  match (bytes cs).toByteArray.utf8Decode? with
  | some decoded => decoded.toList
  | none => lossy (bytes cs)

-- ---------------------------------------------------------------------------
-- What is written is read
-- ---------------------------------------------------------------------------

/-- What reading makes of a `+`. -/
def blank (c : Char) : Char := if c = '+' then ' ' else c

section
variable {c : Char} {cs : List Char}

theorem hexValue_hexDigit {n : Nat} (h : n < 16) : hexValue (hexDigit n) = some n := by
  revert n
  decide

theorem hexDigit_plain {n : Nat} (h : n < 16) :
    hexDigit n ≠ '+' ∧ hexDigit n ≠ '&' ∧ hexDigit n ≠ '=' := by
  revert n
  decide

theorem unreserved_plain (h : unreserved c) : c ≠ '+' ∧ c ≠ '&' ∧ c ≠ '=' ∧ c ≠ '%' := by
  refine ⟨?_, ?_, ?_, ?_⟩ <;>
  · rintro rfl
    exact absurd h (by decide)

theorem bytes_cons (h : c ≠ '%') : bytes (c :: cs) = String.utf8EncodeChar c ++ bytes cs := by
  rw [bytes]
  rintro hi lo cs' rfl
  exact absurd rfl h

theorem bytes_escape (b : UInt8) : bytes (escape b ++ cs) = b :: bytes cs := by
  have hb : b.toNat < 256 := b.toNat_lt
  have hhi := hexValue_hexDigit (n := b.toNat / 16) (by omega)
  have hlo := hexValue_hexDigit (n := b.toNat % 16) (by omega)
  simp only [escape, List.cons_append, List.nil_append, bytes, hhi, hlo]
  rw [Nat.div_add_mod, UInt8.ofNat_toNat]

theorem bytes_flatMap_escape (bs : List UInt8) :
    bytes (bs.flatMap escape ++ cs) = bs ++ bytes cs := by
  induction bs with
  | nil => rfl
  | cons b bs ih => rw [List.flatMap_cons, List.append_assoc, bytes_escape, ih, List.cons_append]

theorem mem_escape {b : UInt8} (h : c ∈ escape b) : c ≠ '+' ∧ c ≠ '&' ∧ c ≠ '=' := by
  have hb : b.toNat < 256 := b.toNat_lt
  simp only [escape, List.mem_cons, List.not_mem_nil, or_false] at h
  rcases h with rfl | rfl | rfl
  · decide
  · exact hexDigit_plain (by omega)
  · exact hexDigit_plain (by omega)

theorem mem_encodeChar {d : Char} (h : d ∈ encodeChar c) : d ≠ '&' ∧ d ≠ '=' := by
  unfold encodeChar at h
  split_ifs at h with hblank hplain
  · rw [List.mem_singleton.mp h]
    decide
  · rw [List.mem_singleton.mp h]
    exact ⟨(unreserved_plain hplain).2.1, (unreserved_plain hplain).2.2.1⟩
  · obtain ⟨b, -, hd⟩ := List.mem_flatMap.mp h
    exact (mem_escape hd).2

theorem mem_encode (h : c ∈ encode cs) : c ≠ '&' ∧ c ≠ '=' := by
  obtain ⟨d, -, hc⟩ := List.mem_flatMap.mp h
  exact mem_encodeChar hc

theorem map_blank (h : '+' ∉ cs) : cs.map blank = cs := by
  refine (List.map_congr_left fun c hc => ?_).trans (List.map_id cs)
  exact if_neg (by rintro rfl; exact h hc)

theorem bytes_encodeChar (c : Char) :
    bytes ((encodeChar c).map blank ++ cs) = String.utf8EncodeChar c ++ bytes cs := by
  unfold encodeChar
  split_ifs with hblank hplain
  · subst hblank
    exact bytes_cons (by decide)
  · have hc := unreserved_plain hplain
    rw [List.map_singleton, blank, if_neg hc.1]
    exact bytes_cons hc.2.2.2
  · have hplus : '+' ∉ (String.utf8EncodeChar c).flatMap escape := by
      intro hmem
      obtain ⟨b, -, hb⟩ := List.mem_flatMap.mp hmem
      exact (mem_escape hb).1 rfl
    rw [map_blank hplus, bytes_flatMap_escape]

theorem bytes_encode : bytes ((encode cs).map blank) = cs.flatMap String.utf8EncodeChar := by
  induction cs with
  | nil => rfl
  | cons c cs ih =>
    rw [encode, List.flatMap_cons, List.map_append, bytes_encodeChar, List.flatMap_cons]
    exact congrArg _ ih

theorem bytes_of_not_mem (h : '%' ∉ cs) : bytes cs = cs.flatMap String.utf8EncodeChar := by
  induction cs with
  | nil => rfl
  | cons c cs ih =>
    rw [bytes_cons (List.ne_of_not_mem_cons h).symm, ih (List.not_mem_of_not_mem_cons h),
      List.flatMap_cons]

theorem utf8_injective {cs ds : List Char}
    (h : cs.flatMap String.utf8EncodeChar = ds.flatMap String.utf8EncodeChar) : cs = ds := by
  have hbytes : cs.utf8Encode = ds.utf8Encode := by
    rw [List.utf8Encode, List.utf8Encode, h]
  have hdecoded := congrArg ByteArray.utf8Decode? hbytes
  rw [List.utf8Decode?_utf8Encode, List.utf8Decode?_utf8Encode] at hdecoded
  simpa using hdecoded

variable {lossy : List UInt8 → List Char}

theorem decode_encode : Query.decode (unescape lossy) (encode cs) = cs := by
  change (if '%' ∈ (encode cs).map blank then unescape lossy ((encode cs).map blank)
    else (encode cs).map blank) = cs
  by_cases hescaped : '%' ∈ (encode cs).map blank
  · have hdecoded := List.utf8Decode?_utf8Encode (l := cs)
    rw [List.utf8Encode, ← bytes_encode] at hdecoded
    rw [if_pos hescaped, unescape]
    simp only [hdecoded]
  · rw [if_neg hescaped]
    exact utf8_injective ((bytes_of_not_mem hescaped).symm.trans bytes_encode)

end

section
variable {lossy : List UInt8 → List Char} {ps : List (List Char × List Char)}
  {p : List Char × List Char}

theorem readPart_part : Query.readPart (unescape lossy) (part p) = p := by
  have hne : ∀ c ∈ encode p.1, decide (c ≠ '=') = true := fun c hc =>
    decide_eq_true (mem_encode hc).2
  unfold Query.readPart part
  rw [List.takeWhile_append_of_pos hne, List.dropWhile_append_of_pos hne]
  simp [decode_encode]

theorem parts_serialize : Query.parts (unescape lossy) (serialize ps) = ps := by
  cases ps with
  | nil => rfl
  | cons p ps =>
    have hamp : ∀ text ∈ (p :: ps).map part, '&' ∉ text := by
      intro text htext hmem
      obtain ⟨q, -, rfl⟩ := List.mem_map.mp htext
      rcases List.mem_append.mp hmem with hmem | hmem
      · exact (mem_encode hmem).1 rfl
      · rcases List.mem_cons.mp hmem with heq | hmem
        · exact absurd heq (by decide)
        · exact (mem_encode hmem).1 rfl
    have hfilled : ((p :: ps).map part).filter (· ≠ []) = (p :: ps).map part := by
      refine List.filter_eq_self.mpr fun text htext => ?_
      obtain ⟨q, -, rfl⟩ := List.mem_map.mp htext
      simp [part]
    rw [Query.parts, show serialize (p :: ps) = ['&'].intercalate ((p :: ps).map part) from rfl,
      List.splitOn_intercalate '&' hamp (by simp), hfilled, List.map_map]
    exact (List.map_congr_left fun q _ => readPart_part).trans (List.map_id _)

/-- A value is read under its name as it was set. -/
theorem get_serialize {name : String} :
    Query.get (unescape lossy) (String.ofList (serialize ps)) name =
      (ps.find? fun p => p.1 = name.toList).map fun p => String.ofList p.2 := by
  rw [Query.get, String.toList_ofList, parts_serialize]

end

end Percent
