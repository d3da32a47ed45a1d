import Mathlib.Data.List.Basic

/-!
# PIN records

`src/lib/pin.ts`: a salted hash of the PIN, checked without an early exit. The
derivation is `crypto.subtle`'s PBKDF2, of which nothing is used here but that
it is a function. Salt and hash stand for the bytes that their base64 texts
encode. A PIN is made of digits, as its forms let nothing else pass.
-/

namespace HcMap.Pin

def pinVersion : Nat := 1
def pinAlgorithm : String := "PBKDF2-SHA256"
def pinIterations : Nat := 600000
def pinFailLimit : Nat := 5

structure PinRecord where
  version : Nat
  algorithm : String
  iterations : Nat
  salt : List UInt8
  hash : List UInt8
  failCount : Nat
  setAt : Nat
  deriving DecidableEq

abbrev DeriveBits := String → List UInt8 → Nat → List UInt8

variable (deriveBits : DeriveBits)

/-- `hashPin`, which throws on a PIN of another length; `salt` is drawn at
random, `setAt` the clock's time. -/
def hashPin (pin : String) (salt : List UInt8) (setAt : Nat) : Option PinRecord :=
  if pin.length < 4 ∨ 6 < pin.length then none
  else some
    { version := pinVersion
      algorithm := pinAlgorithm
      iterations := pinIterations
      salt := salt
      hash := deriveBits pin salt pinIterations
      failCount := 0
      setAt := setAt }

/-- The bits in which two byte strings of one length differ, all collected. -/
def difference (a b : List UInt8) : UInt8 := (a.zipWith (· ^^^ ·) b).foldl (· ||| ·) 0

def constantTimeEqual (a b : List UInt8) : Bool := a.length = b.length ∧ difference a b = 0

/-- `verifyPin`, which throws on an algorithm it does not know. -/
def verifyPin (pin : String) (record : PinRecord) : Option Bool :=
  if record.algorithm ≠ pinAlgorithm then none
  else some (constantTimeEqual record.hash (deriveBits pin record.salt record.iterations))

def PinRecord.withFailCount (record : PinRecord) (failCount : Nat) : PinRecord :=
  { record with failCount := failCount }

section
variable {a b : List UInt8} {pin : String} {record : PinRecord} {n m : Nat}

theorem foldl_or_eq_zero {l : List UInt8} {d : UInt8} :
    l.foldl (· ||| ·) d = 0 ↔ d = 0 ∧ ∀ x ∈ l, x = 0 := by
  induction l generalizing d with
  | nil => simp
  | cons x l ih =>
    rw [List.foldl_cons, ih, List.forall_mem_cons, ← and_assoc]
    have hor : d ||| x = 0 ↔ d = 0 ∧ x = 0 := UInt8.or_eq_zero_iff
    rw [hor]

/-- Collecting differences misses none: only equal strings pass. -/
theorem constantTimeEqual_iff : constantTimeEqual a b = true ↔ a = b := by
  simp only [constantTimeEqual, difference, decide_eq_true_eq, foldl_or_eq_zero, true_and]
  induction a generalizing b with
  | nil => cases b <;> simp
  | cons x a ih =>
    cases b with
    | nil => simp
    | cons y b =>
      have hxor : x ^^^ y = 0 ↔ x = y := UInt8.xor_eq_zero_iff
      have hrest := ih (b := b)
      simp only [List.length_cons, Nat.add_right_cancel_iff, List.zipWith_cons_cons,
        List.forall_mem_cons, hxor, List.cons.injEq]
      rw [← hrest]
      exact ⟨fun ⟨hl, he, hd⟩ => ⟨he, hl, hd⟩, fun ⟨he, hl, hd⟩ => ⟨hl, he, hd⟩⟩

@[simp] theorem withFailCount_failCount : (record.withFailCount n).failCount = n := rfl

@[simp] theorem verifyPin_withFailCount :
    verifyPin deriveBits pin (record.withFailCount n) = verifyPin deriveBits pin record := rfl

theorem verifyPin_hashPin {salt : List UInt8} {setAt : Nat}
    (h : hashPin deriveBits pin salt setAt = some record) :
    verifyPin deriveBits pin record = some true := by
  unfold hashPin at h
  split at h
  · cases h
  · cases h
    simp [verifyPin, constantTimeEqual_iff]

end
end HcMap.Pin
