import Mathlib.Logic.Function.Basic

/-!
# Exclusive locks

A lock is free or has one holder. Each party is at a place of its program, and
some places hold the lock; `Owned` says that the holder is the one party at
such a place. A party takes the free lock, gives it up, or moves without
touching it.
-/

namespace Lock

variable {ι : Type u} {π : Type v}

def Owned (holds : π → Bool) (holder : Option ι) (place : ι → π) : Prop :=
  ∀ i, holder = some i ↔ holds (place i) = true

variable {holds : π → Bool} {holder : Option ι} {place : ι → π} {i j : ι} {p : π}

theorem owned_start (h : ∀ i, holds (place i) = false) : Owned holds none place := by
  intro i
  simp [h i]

theorem Owned.unique (h : Owned holds holder place) (hi : holds (place i) = true)
    (hj : holds (place j) = true) : i = j := by
  have hi := (h i).mpr hi
  have hj := (h j).mpr hj
  exact Option.some.inj (hi.symm.trans hj)

variable [DecidableEq ι]

theorem Owned.take (h : Owned holds none place) (hp : holds p = true) :
    Owned holds (some i) (Function.update place i p) := by
  intro j
  by_cases hij : j = i
  · simp [hij, hp]
  · have := h j
    simp [hij, Ne.symm hij] at this ⊢
    exact this

theorem Owned.give (h : Owned holds holder place) (hi : holds (place i) = true)
    (hp : holds p = false) : Owned holds none (Function.update place i p) := by
  intro j
  by_cases hij : j = i
  · simp [hij, hp]
  · have hj : holds (place j) ≠ true := fun hj => hij (h.unique hj hi)
    simp [hij, hj]

theorem Owned.stay (h : Owned holds holder place) (hp : holds p = holds (place i)) :
    Owned holds holder (Function.update place i p) := by
  intro j
  by_cases hij : j = i
  · subst hij
    simp [hp, h j]
  · simp [hij, h j]

end Lock
