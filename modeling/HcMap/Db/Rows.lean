import Mathlib.Data.Rat.Floor
import Mathlib.Tactic.Linarith
import Mathlib.Tactic.FieldSimp
import HcMap.Lib.Table

/-!
# Rows

The columns the sync and REST services read or write. Left out are `geom`
(generated from `lat` and `lon`, read by nothing modelled here), the catalog
names and the audit columns of catalog entries.

A `sequence_no` stays below the end of `integer`: it is only ever assigned as
one more than a stored one.
-/

namespace HcMap

abbrev Uuid := Nat

/-- An instant in microseconds, the resolution of `datetime` and of
`timestamptz` alike; every instant carries a time zone (Regel-005). -/
abbrev Time := Nat

inductive UserRole
  | admin
  | editor
  | viewer
  deriving DecidableEq, Repr

inductive CatalogStatus
  | approved
  | pending
  | rejected
  deriving DecidableEq, Repr

inductive TimePrecision
  | year
  | month
  | day
  | hour
  | minute
  deriving DecidableEq, Repr

/-- A text of an event or an application. PostgreSQL stores every string
without a NUL character. -/
structure Text where
  string : String
  storable : Char.ofNat 0 ∉ string.toList
  deriving DecidableEq

-- ---------------------------------------------------------------------------
-- Coordinates
-- ---------------------------------------------------------------------------

def roundHalfAway (q : ℚ) : ℤ := if q < 0 then -⌊-q + 1 / 2⌋ else ⌊q + 1 / 2⌋

theorem roundHalfAway_int (n : ℤ) : roundHalfAway n = n := by
  unfold roundHalfAway
  have h : ∀ m : ℤ, ⌊(m : ℚ) + 1 / 2⌋ = m := fun m => by
    rw [Int.floor_eq_iff]
    constructor <;> linarith
  split
  · rw [← Int.cast_neg, h]
    omega
  · exact h n

theorem roundHalfAway_mono {p q : ℚ} (h : p ≤ q) : roundHalfAway p ≤ roundHalfAway q := by
  unfold roundHalfAway
  split <;> split
  · have : ⌊-q + 1 / 2⌋ ≤ ⌊-p + 1 / 2⌋ := Int.floor_le_floor (by linarith)
    omega
  · have hp : (0 : ℤ) ≤ ⌊-p + 1 / 2⌋ := Int.floor_nonneg.mpr (by linarith)
    have hq : (0 : ℤ) ≤ ⌊q + 1 / 2⌋ := Int.floor_nonneg.mpr (by linarith)
    omega
  · linarith
  · exact Int.floor_le_floor (by linarith)

/-- A coordinate on the wire, within the bounds its schema demands. A `float`
is identified with the decimal `str` prints for it, which is what the server
stores; a decimal of at most fifteen digits converts to a `float` and back
without loss, so comparing floats is comparing these decimals. -/
structure Degrees (bound : ℕ) where
  deg : ℚ
  lower : -(bound : ℚ) ≤ deg
  upper : deg ≤ bound
  deriving DecidableEq

def Degrees.zero : Degrees b := ⟨0, by simp, by simp⟩

structure Numeric (bound : ℕ) where
  micro : ℤ
  lower : -(bound * 10 ^ 6 : ℤ) ≤ micro
  upper : micro ≤ bound * 10 ^ 6
  deriving DecidableEq

/-- `Decimal(str(x))`, rounded by the column. -/
def Degrees.toNumeric (d : Degrees b) : Numeric b where
  micro := roundHalfAway (d.deg * 10 ^ 6)
  lower := by
    rw [← roundHalfAway_int (-(b * 10 ^ 6))]
    refine roundHalfAway_mono ?_
    push_cast
    linarith [d.lower]
  upper := by
    rw [← roundHalfAway_int (b * 10 ^ 6)]
    refine roundHalfAway_mono ?_
    push_cast
    linarith [d.upper]

def Numeric.toFloat (n : Numeric b) : Degrees b where
  deg := n.micro / 10 ^ 6
  lower := by
    have : (-(b * 10 ^ 6 : ℤ) : ℚ) ≤ n.micro := by exact_mod_cast n.lower
    rw [le_div_iff₀ (by norm_num)]
    push_cast at this
    linarith
  upper := by
    have : (n.micro : ℚ) ≤ (b * 10 ^ 6 : ℤ) := by exact_mod_cast n.upper
    rw [div_le_iff₀ (by norm_num)]
    push_cast at this
    linarith

/-- The column loses nothing of a coordinate with at most six decimals. -/
theorem Degrees.toFloat_toNumeric (d : Degrees b) :
    d.toNumeric.toFloat = d ↔ ∃ n : ℤ, d.deg * 10 ^ 6 = n := by
  have hext : d.toNumeric.toFloat = d ↔ (d.toNumeric.micro : ℚ) / 10 ^ 6 = d.deg := by
    constructor
    · intro h
      exact congrArg Degrees.deg h
    · intro h
      cases d
      simpa [Numeric.toFloat] using h
  rw [hext, div_eq_iff (by norm_num)]
  constructor
  · intro h
    exact ⟨_, h.symm⟩
  · rintro ⟨n, hn⟩
    have : d.toNumeric.micro = n := by
      show roundHalfAway (d.deg * 10 ^ 6) = n
      rw [hn, roundHalfAway_int]
    rw [this, hn]

theorem Numeric.toNumeric_toFloat (n : Numeric b) : n.toFloat.toNumeric = n := by
  have h : n.toFloat.toNumeric.micro = n.micro := by
    show roundHalfAway (n.micro / 10 ^ 6 * 10 ^ 6) = n.micro
    rw [div_mul_cancel₀ _ (by norm_num), roundHalfAway_int]
  cases n
  simpa [Degrees.toNumeric] using h

-- ---------------------------------------------------------------------------
-- Tables
-- ---------------------------------------------------------------------------

structure User where
  id : Uuid
  role : UserRole
  isActive : Bool
  personId : Uuid
  deriving DecidableEq

structure Person where
  id : Uuid
  name : String
  «alias» : Option String
  note : Option String
  isDeleted : Bool
  deletedAt : Option Time
  deriving DecidableEq

/-- A row of `restraint_type`, `arm_position`, `hand_position` or
`hand_orientation`. -/
structure CatalogEntry where
  id : Uuid
  status : CatalogStatus
  suggestedBy : Option Uuid
  deriving DecidableEq

structure Event where
  id : Uuid
  startedAt : Time
  endedAt : Option Time
  lat : Numeric 90
  lon : Numeric 180
  legacyExternalRef : Option Text
  revealParticipants : Bool
  title : Option Text
  note : Option Text
  timePrecision : TimePrecision
  createdBy : Option Uuid
  createdAt : Time
  updatedAt : Time
  isDeleted : Bool
  deletedAt : Option Time
  deriving DecidableEq

structure EventParticipant where
  id : Uuid
  eventId : Uuid
  personId : Uuid
  createdAt : Time
  updatedAt : Time
  isDeleted : Bool
  deletedAt : Option Time
  deriving DecidableEq

structure Application where
  id : Uuid
  eventId : Uuid
  performerId : Uuid
  recipientId : Uuid
  armPositionId : Option Uuid
  handPositionId : Option Uuid
  handOrientationId : Option Uuid
  sequenceNo : Nat
  startedAt : Option Time
  endedAt : Option Time
  note : Option Text
  createdBy : Option Uuid
  createdAt : Time
  updatedAt : Time
  isDeleted : Bool
  deletedAt : Option Time
  deriving DecidableEq

structure ApplicationRestraint where
  applicationId : Uuid
  restraintTypeId : Uuid
  createdAt : Time
  deriving DecidableEq

instance : Keyed User Uuid := ⟨User.id⟩
instance : Keyed Person Uuid := ⟨Person.id⟩
instance : Keyed CatalogEntry Uuid := ⟨CatalogEntry.id⟩
instance : Keyed Event Uuid := ⟨Event.id⟩
instance : Keyed EventParticipant Uuid := ⟨EventParticipant.id⟩
instance : Keyed Application Uuid := ⟨Application.id⟩
instance : Keyed ApplicationRestraint (Uuid × Uuid) :=
  ⟨fun r => (r.applicationId, r.restraintTypeId)⟩

@[simp] theorem key_event (r : Event) : key r = r.id := rfl
@[simp] theorem key_application (r : Application) : key r = r.id := rfl
@[simp] theorem key_applicationRestraint (r : ApplicationRestraint) :
    key r = (r.applicationId, r.restraintTypeId) := rfl

structure Database where
  users : Table User
  persons : Table Person
  armPositions : Table CatalogEntry
  handPositions : Table CatalogEntry
  handOrientations : Table CatalogEntry
  restraintTypes : Table CatalogEntry
  events : Table Event
  participants : Table EventParticipant
  applications : Table Application
  restraints : Table ApplicationRestraint
  deriving DecidableEq

-- ---------------------------------------------------------------------------
-- A sample
-- ---------------------------------------------------------------------------

def sampleTitle : Text := ⟨"x", by decide⟩
def sampleNote : Text := ⟨"n", by decide⟩

def sampleEvent : Event where
  id := 1
  startedAt := 10
  endedAt := none
  lat := ⟨0, by decide, by decide⟩
  lon := ⟨0, by decide, by decide⟩
  legacyExternalRef := none
  revealParticipants := false
  title := none
  note := none
  timePrecision := .minute
  createdBy := some 2
  createdAt := 10
  updatedAt := 10
  isDeleted := false
  deletedAt := none

def sampleApplication : Application where
  id := 1
  eventId := 1
  performerId := 2
  recipientId := 3
  armPositionId := none
  handPositionId := none
  handOrientationId := none
  sequenceNo := 1
  startedAt := some 20
  endedAt := none
  note := none
  createdBy := some 2
  createdAt := 20
  updatedAt := 20
  isDeleted := false
  deletedAt := none

/-- One live event of user 2, in which user 3's person takes part and one
application is running. User 1 is the admin. -/
def sample : Database where
  users := ⟨[⟨1, .admin, true, 1⟩, ⟨2, .editor, true, 2⟩, ⟨3, .editor, true, 3⟩], by decide⟩
  persons := ⟨[⟨1, "A", none, none, false, none⟩, ⟨2, "B", none, none, false, none⟩,
    ⟨3, "C", none, none, false, none⟩, ⟨4, "D", none, none, false, none⟩], by decide⟩
  armPositions := ∅
  handPositions := ∅
  handOrientations := ∅
  restraintTypes := ⟨[⟨1, .approved, none⟩], by decide⟩
  events := ⟨[sampleEvent], by decide⟩
  participants := ⟨[⟨1, 1, 2, 10, 10, false, none⟩, ⟨2, 1, 3, 10, 10, false, none⟩], by decide⟩
  applications := ⟨[sampleApplication], by decide⟩
  restraints := ∅

def sampleUsers : Database :=
  { sample with events := ∅, participants := ∅, applications := ∅ }

end HcMap
