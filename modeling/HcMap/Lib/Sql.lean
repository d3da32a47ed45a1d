import HcMap.Lib.Table

/-!
# Three-valued logic

Truth values as SQL has them, where a comparison with `NULL` is unknown and a
condition lets pass only what is true.
-/

namespace Sql

/-- `none` is unknown. -/
abbrev Truth := Option Bool

namespace Truth

def and : Truth → Truth → Truth
  | some false, _ => some false
  | _, some false => some false
  | some true, some true => some true
  | _, _ => none

def or : Truth → Truth → Truth
  | some true, _ => some true
  | _, some true => some true
  | some false, some false => some false
  | _, _ => none

/-- What a `WHERE`, a `USING` or a `WITH CHECK` lets pass. -/
def Holds (t : Truth) : Prop := t = some true

instance (t : Truth) : Decidable t.Holds := inferInstanceAs (Decidable (_ = _))

end Truth

section
variable {α : Type u} [DecidableEq α]

def eq : Option α → Option α → Truth
  | some a, some b => some (a = b)
  | _, _ => none

def isIn (a : Option α) (values : List α) : Truth :=
  values.foldr (fun value t => (eq a (some value)).or t) (some false)

end

/-- `EXISTS (SELECT 1 FROM t WHERE p)`, which is never unknown. -/
def exists? {ρ : Type u} {κ : Type v} [Keyed ρ κ] (t : Table ρ) (p : ρ → Truth) : Truth :=
  some (decide (∃ r ∈ t, (p r).Holds))

-- ---------------------------------------------------------------------------
-- What holds
-- ---------------------------------------------------------------------------

section
variable {a b : Truth}

@[simp] theorem holds_and : (a.and b).Holds ↔ a.Holds ∧ b.Holds := by
  unfold Truth.Holds Truth.and
  split
  · simp
  · simp
  · simp
  · rename_i ha hb hboth
    constructor
    · intro h
      cases h
    · rintro ⟨rfl, rfl⟩
      exact absurd rfl (hboth rfl)

@[simp] theorem holds_or : (a.or b).Holds ↔ a.Holds ∨ b.Holds := by
  unfold Truth.Holds Truth.or
  split
  · simp
  · simp
  · simp
  · rename_i ha hb hboth
    constructor
    · intro h
      cases h
    · rintro (rfl | rfl)
      · exact absurd rfl ha
      · exact absurd rfl hb

@[simp] theorem holds_some {b : Bool} : Truth.Holds (some b) ↔ b = true := by
  simp [Truth.Holds]

end

section
variable {α : Type u} [DecidableEq α] {a b : α} {x y : Option α} {values : List α}

theorem holds_eq : (eq x y).Holds ↔ ∃ a, x = some a ∧ y = some a := by
  cases x with
  | none => simp [eq, Truth.Holds]
  | some a =>
    cases y with
    | none => simp [eq, Truth.Holds]
    | some b => simp [eq, eq_comm]

@[simp] theorem holds_eq_some : (eq x (some b)).Holds ↔ x = some b := by
  rw [holds_eq]
  constructor
  · rintro ⟨a, rfl, h⟩
    rw [h]
  · intro h
    exact ⟨b, h, rfl⟩

@[simp] theorem holds_some_eq : (eq (some a) y).Holds ↔ y = some a := by
  rw [holds_eq]
  constructor
  · rintro ⟨b, h, rfl⟩
    rw [← h]
  · intro h
    exact ⟨a, rfl, h⟩

@[simp] theorem holds_isIn : (isIn x values).Holds ↔ ∃ value ∈ values, x = some value := by
  induction values with
  | nil => simp [isIn]
  | cons value values ih =>
    have h : (isIn x (value :: values)).Holds ↔ x = some value ∨ (isIn x values).Holds := by
      simp [isIn]
    rw [h, ih]
    simp

@[simp] theorem holds_exists? {ρ : Type u} {κ : Type v} [Keyed ρ κ] {t : Table ρ}
    {p : ρ → Truth} : (exists? t p).Holds ↔ ∃ r ∈ t, (p r).Holds := by
  simp [exists?]

end
end Sql
