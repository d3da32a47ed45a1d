import HcMap.Lib.Base64
import HcMap.Lib.DateText
import HcMap.Pin.Record

/-!
# Stored PIN records

The texts that `src/lib/pin.ts` writes into IndexedDB and reads again. The
records of `HcMap.Pin.Record` are what they stand for.
-/

namespace HcMap.Pin.Stored

structure PinRecord where
  version : Nat
  algorithm : String
  iterations : Nat
  saltB64 : String
  hashB64 : String
  failCount : Nat
  setAt : String
  deriving DecidableEq

def bytesToBase64 (bytes : List UInt8) : String := Base64.encode bytes

/-- `atob` throws on a text that is not base64. -/
def base64ToBytes (b64 : String) : Option (List UInt8) := Base64.decode b64

variable (deriveBits : DeriveBits)

def hashPin (pin : String) (salt : List UInt8) (setAt : Nat) : Option PinRecord :=
  if pin.length < 4 ∨ 6 < pin.length then none
  else some
    { version := pinVersion
      algorithm := pinAlgorithm
      iterations := pinIterations
      saltB64 := bytesToBase64 salt
      hashB64 := bytesToBase64 (deriveBits pin salt pinIterations)
      failCount := 0
      setAt := DateText.toISOString setAt }

def verifyPin (pin : String) (record : PinRecord) : Option Bool :=
  if record.algorithm ≠ pinAlgorithm then none
  else do
    let salt ← base64ToBytes record.saltB64
    let expected ← base64ToBytes record.hashB64
    return constantTimeEqual expected (deriveBits pin salt record.iterations)

def updateFailCount (record : PinRecord) (failCount : Nat) : PinRecord :=
  { record with failCount := failCount }

-- ---------------------------------------------------------------------------
-- What the texts stand for
-- ---------------------------------------------------------------------------

def ofRecord (record : Pin.PinRecord) : PinRecord :=
  { version := record.version
    algorithm := record.algorithm
    iterations := record.iterations
    saltB64 := bytesToBase64 record.salt
    hashB64 := bytesToBase64 record.hash
    failCount := record.failCount
    setAt := DateText.toISOString record.setAt }

section
variable {deriveBits : DeriveBits} {pin : String} {record : Pin.PinRecord}

@[simp] theorem base64ToBytes_bytesToBase64 (bytes : List UInt8) :
    base64ToBytes (bytesToBase64 bytes) = some bytes := Base64.decode_encode bytes

theorem hashPin_eq (salt : List UInt8) (setAt : Nat) :
    hashPin deriveBits pin salt setAt = (Pin.hashPin deriveBits pin salt setAt).map ofRecord := by
  unfold hashPin Pin.hashPin
  split <;> rfl

@[simp] theorem verifyPin_ofRecord :
    verifyPin deriveBits pin (ofRecord record) = Pin.verifyPin deriveBits pin record := by
  simp [verifyPin, Pin.verifyPin, ofRecord]

theorem updateFailCount_ofRecord (n : Nat) :
    updateFailCount (ofRecord record) n = ofRecord (record.withFailCount n) := rfl

theorem foldl_updateFailCount (record : Pin.PinRecord) (counts : List Nat) :
    ∃ n, counts.foldl updateFailCount (ofRecord record) = ofRecord (record.withFailCount n) := by
  induction counts generalizing record with
  | nil => exact ⟨record.failCount, rfl⟩
  | cons n counts ih =>
    rw [List.foldl_cons, updateFailCount_ofRecord]
    exact ih _

/-- However often its guesses were counted, the record that was stored for a PIN
is readable and opens just to what derives the same bits from its salt. -/
theorem verifyPin_stored (deriveBits : DeriveBits) {pin : String} {salt : List UInt8} {setAt : Nat}
    {record : PinRecord} (h : hashPin deriveBits pin salt setAt = some record) (counts : List Nat)
    (candidate : String) :
    verifyPin deriveBits candidate (counts.foldl updateFailCount record) =
      some (decide (deriveBits candidate salt pinIterations =
        deriveBits pin salt pinIterations)) := by
  rw [hashPin_eq] at h
  obtain ⟨r, hr, rfl⟩ := Option.map_eq_some_iff.mp h
  obtain ⟨n, hn⟩ := foldl_updateFailCount r counts
  rw [hn, verifyPin_ofRecord, verifyPin_withFailCount]
  unfold Pin.hashPin at hr
  split at hr
  · cases hr
  · cases hr
    have hequal : constantTimeEqual (deriveBits pin salt pinIterations)
        (deriveBits candidate salt pinIterations) =
          decide (deriveBits candidate salt pinIterations =
            deriveBits pin salt pinIterations) := by
      rw [Bool.eq_iff_iff, constantTimeEqual_iff, decide_eq_true_eq, eq_comm]
    simp only [Pin.verifyPin, ne_eq, not_true_eq_false, if_false, hequal]

def sampleDerivation (pin : String) (salt : List UInt8) (_ : Nat) : List UInt8 :=
  pin.toList.map (fun c => .ofNat c.toNat) ++ salt

def sampleRecord : PinRecord :=
  ⟨1, "PBKDF2-SHA256", 600000, "/wE=", "NDcxMv8B", 0, "1970-01-01T00:00:00.000Z"⟩

theorem verifyPin_stored_sample :
    verifyPin sampleDerivation "4711" ([1, 2].foldl updateFailCount sampleRecord) =
      some (decide (sampleDerivation "4711" [255, 1] pinIterations =
        sampleDerivation "4712" [255, 1] pinIterations)) := by
  have hrecord : hashPin sampleDerivation "4712" [255, 1] 0 = some sampleRecord := by
    decide +kernel
  exact verifyPin_stored sampleDerivation hrecord [1, 2] "4711"

end
end HcMap.Pin.Stored
