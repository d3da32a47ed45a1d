import Mathlib.Data.Int.Interval
import HcMap.Lib.Calendar
import HcMap.Lib.Group
import HcMap.Routes.Persons

/-!
# The figures of the dashboard

`get_stats` and `_top_position` of `app/routes/admin.py`, on a database that the
session of an administrator sees whole. Its time zone is UTC.
-/

namespace HcMap.Admin

open Calendar (dateOf Date)
open Group (Ranking)
open Persons (PersonOrigin)

structure MonthlyEventCount where
  year : Int
  month : Nat
  count : Nat
  deriving DecidableEq

/-- The groups of restraints and positions are given by their keys. -/
structure AdminStats where
  eventsTotal : Nat
  eventsPerMonthLast12 : List MonthlyEventCount
  topRestraints : List (Uuid × Nat)
  topArmPositions : List (Uuid × Nat)
  topHandPositions : List (Uuid × Nat)
  usersByRole : List (UserRole × Nat)
  personsTotal : Nat
  personsOnTheFlyUnlinked : Nat
  pendingCatalogProposals : Nat

def microsPerDay : Nat := 86400000000

def yearMonth (t : HcMap.Time) : Int × Nat :=
  let date := dateOf (t / microsPerDay : Nat)
  (date.year, date.month + 1)

section
variable (db : Database)

def liveEvents : List Event := db.events.rows.filter fun e => ¬ e.isDeleted

/-- The live events that started less than 365 days ago, or have yet to start. -/
def recentEvents (now : HcMap.Time) : List Event :=
  (liveEvents db).filter fun e => now ≤ e.startedAt + 365 * microsPerDay

def recentMonths (now : HcMap.Time) : List (Int × Nat) :=
  (recentEvents db now).map fun e => yearMonth e.startedAt

def noLater (g g' : (Int × Nat) × Nat) : Prop :=
  g.1.1 < g'.1.1 ∨ g.1.1 = g'.1.1 ∧ g.1.2 ≤ g'.1.2

instance : DecidableRel noLater := fun g g' =>
  inferInstanceAs (Decidable (g.1.1 < g'.1.1 ∨ g.1.1 = g'.1.1 ∧ g.1.2 ≤ g'.1.2))

def eventsPerMonth (now : HcMap.Time) : List MonthlyEventCount :=
  ((Group.counts (recentMonths db now)).insertionSort noLater).map fun g => ⟨g.1.1, g.1.2, g.2⟩

def usedRestraints : List Uuid :=
  (db.restraints.rows.filter fun link =>
    (db.restraintTypes.find? link.restraintTypeId).isSome ∧
      ∃ a ∈ db.applications, a.id = link.applicationId ∧ ¬ a.isDeleted).map
    fun link => link.restraintTypeId

def usedPositions (model : Table CatalogEntry) (fk : Application → Option Uuid) : List Uuid :=
  (db.applications.rows.filter fun a => ¬ a.isDeleted).filterMap fun a =>
    (fk a).filter fun id => (model.find? id).isSome

def topPosition (model : Table CatalogEntry) (fk : Application → Option Uuid) (limit : Nat) :
    List (Uuid × Nat) :=
  Group.top limit (Group.counts (usedPositions db model fk))

def pending (catalog : Table CatalogEntry) : Nat :=
  catalog.rows.countP fun entry => entry.status = .pending

def getStats (origin : Uuid → PersonOrigin) (now : HcMap.Time) : AdminStats where
  eventsTotal := (liveEvents db).length
  eventsPerMonthLast12 := eventsPerMonth db now
  topRestraints := Group.top 10 (Group.counts (usedRestraints db))
  topArmPositions := topPosition db db.armPositions Application.armPositionId 5
  topHandPositions := topPosition db db.handPositions Application.handPositionId 5
  usersByRole := Group.counts (db.users.rows.map fun u => u.role)
  personsTotal := db.persons.rows.countP fun p => ¬ p.isDeleted
  personsOnTheFlyUnlinked := db.persons.rows.countP fun p =>
    ¬ p.isDeleted ∧ origin p.id = .onTheFly ∧ ∀ u ∈ db.users, u.personId ≠ p.id
  pendingCatalogProposals :=
    (([db.restraintTypes, db.armPositions, db.handPositions, db.handOrientations].map pending)).sum

end

-- ---------------------------------------------------------------------------
-- The months
-- ---------------------------------------------------------------------------

def monthNumber (k : Int × Nat) : Int := 12 * k.1 + k.2

section
variable {db : Database} {now t : HcMap.Time} {k k' : Int × Nat}

theorem monthNumber_yearMonth :
    monthNumber (yearMonth t) = (dateOf (t / microsPerDay : Nat)).monthIndex + 1 := by
  simp only [monthNumber, yearMonth, Date.monthIndex]
  push_cast
  omega

theorem month_bounds (hk : k ∈ recentMonths db now) : 1 ≤ k.2 ∧ k.2 ≤ 12 := by
  obtain ⟨e, -, rfl⟩ := List.mem_map.mp hk
  have hlt := (dateOf (e.startedAt / microsPerDay : Nat)).month_lt
  exact ⟨Nat.le_add_left 1 _, hlt⟩

theorem monthNumber_inj (hk : k ∈ recentMonths db now) (hk' : k' ∈ recentMonths db now)
    (h : monthNumber k = monthNumber k') : k = k' := by
  have hbounds := month_bounds hk
  have hbounds' := month_bounds hk'
  unfold monthNumber at h
  exact Prod.ext (by omega) (by omega)

theorem day_close {micros micros' : Nat} (h : micros ≤ micros' + 365 * microsPerDay) :
    ((micros / microsPerDay : Nat) : Int) - 365 ≤ (micros' / microsPerDay : Nat) := by
  unfold microsPerDay at h ⊢
  omega

/-- The 365 days reach over thirteen months at most. -/
theorem monthNumber_close (hpast : ∀ e ∈ db.events, e.startedAt ≤ now)
    (hk : k ∈ recentMonths db now) :
    monthNumber (yearMonth now) - 12 ≤ monthNumber k ∧
      monthNumber k ≤ monthNumber (yearMonth now) := by
  obtain ⟨e, he, rfl⟩ := List.mem_map.mp hk
  obtain ⟨hlive, hrecent⟩ := List.mem_filter.mp he
  have hstarted := hpast e (List.mem_of_mem_filter hlive)
  have hage : now ≤ e.startedAt + 365 * microsPerDay := by simpa using hrecent
  have hday := day_close hage
  have hday' : ((e.startedAt / microsPerDay : Nat) : Int) ≤ (now / microsPerDay : Nat) := by
    exact_mod_cast Nat.div_le_div_right hstarted
  have hback := Calendar.monthIndex_year_before (now / microsPerDay : Nat)
  have hfrom := Calendar.monthIndex_mono hday
  have hto := Calendar.monthIndex_mono hday'
  rw [monthNumber_yearMonth, monthNumber_yearMonth]
  omega

theorem length_eventsPerMonth :
    (eventsPerMonth db now).length = (recentMonths db now).dedup.length := by
  rw [eventsPerMonth, List.length_map, List.length_insertionSort, Group.counts, List.length_map]

theorem length_eventsPerMonth_le (hpast : ∀ e ∈ db.events, e.startedAt ≤ now) :
    (eventsPerMonth db now).length ≤ 13 := by
  have hnodup : ((recentMonths db now).dedup.map monthNumber).Nodup := by
    refine List.Nodup.map_on (fun k hk k' hk' h => ?_) (List.nodup_dedup _)
    exact monthNumber_inj (List.mem_dedup.mp hk) (List.mem_dedup.mp hk') h
  have hsubset : ((recentMonths db now).dedup.map monthNumber).toFinset ⊆
      Finset.Icc (monthNumber (yearMonth now) - 12) (monthNumber (yearMonth now)) := by
    intro n hn
    obtain ⟨k, hk, rfl⟩ := List.mem_map.mp (List.mem_toFinset.mp hn)
    exact Finset.mem_Icc.mpr (monthNumber_close hpast (List.mem_dedup.mp hk))
  have hcard := Finset.card_le_card hsubset
  rw [List.toFinset_card_of_nodup hnodup, List.length_map, Int.card_Icc] at hcard
  rw [length_eventsPerMonth]
  omega

theorem mem_eventsPerMonth {row : MonthlyEventCount} :
    row ∈ eventsPerMonth db now ↔ (row.year, row.month) ∈ recentMonths db now ∧
      row.count = Group.size (recentMonths db now) (row.year, row.month) := by
  rw [eventsPerMonth, List.mem_map]
  constructor
  · rintro ⟨g, hg, rfl⟩
    exact Group.mem_counts.mp ((List.mem_insertionSort _).mp hg)
  · intro h
    exact ⟨((row.year, row.month), row.count),
      (List.mem_insertionSort _).mpr (Group.mem_counts.mpr h), rfl⟩

theorem perm_noLater : ((Group.counts (recentMonths db now)).insertionSort noLater).Perm
    (Group.counts (recentMonths db now)) := List.perm_insertionSort ..

theorem sum_eventsPerMonth :
    ((eventsPerMonth db now).map fun row => row.count).sum = (recentEvents db now).length := by
  have hsum := @Group.sum_counts _ _ (recentMonths db now)
  rw [eventsPerMonth, List.map_map]
  refine ((perm_noLater.map Prod.snd).sum_eq).trans (hsum.trans ?_)
  rw [recentMonths, List.length_map]

theorem rising_eventsPerMonth :
    (eventsPerMonth db now).Pairwise fun row row' =>
      row.year < row'.year ∨ row.year = row'.year ∧ row.month < row'.month := by
  have htotal : Std.Total noLater := ⟨fun g g' => by unfold noLater; omega⟩
  have htrans : IsTrans _ noLater := ⟨fun g g' g'' h h' => by unfold noLater at *; omega⟩
  have hsorted := List.pairwise_insertionSort noLater (Group.counts (recentMonths db now))
  have hnodup : (((Group.counts (recentMonths db now)).insertionSort noLater).map
      Prod.fst).Nodup := by
    refine (perm_noLater.map Prod.fst).nodup_iff.mpr ?_
    rw [Group.map_fst_counts]
    exact List.nodup_dedup _
  refine List.pairwise_map.mpr ((hsorted.and (List.pairwise_map.mp hnodup)).imp ?_)
  rintro g g' ⟨hle, hne⟩
  by_contra hlater
  unfold noLater at hle
  simp only at hlater
  exact hne (Prod.ext (by omega) (by omega))

end

-- From 26 April to 26 April: the first of the 365 days is in the thirteenth month.
example : monthNumber (yearMonth (20204 * microsPerDay)) =
    monthNumber (yearMonth (20569 * microsPerDay)) - 12 := by decide +kernel

/-- The rows of the months: in their order, each with the events of its month,
and together with all that are recent. -/
structure Monthly (db : Database) (now : HcMap.Time) (rows : List MonthlyEventCount) : Prop where
  counted : ∀ row, row ∈ rows ↔ (row.year, row.month) ∈ recentMonths db now ∧
    row.count = Group.size (recentMonths db now) (row.year, row.month)
  total : (rows.map fun row => row.count).sum = (recentEvents db now).length
  rising : rows.Pairwise fun row row' =>
    row.year < row'.year ∨ row.year = row'.year ∧ row.month < row'.month
  /-- The last twelve months can be thirteen. -/
  length_le : (∀ e ∈ db.events, e.startedAt ≤ now) → rows.length ≤ 13

/-- The figures add up, and the rankings leave out nothing that is greater. -/
theorem getStats_exact (db : Database) (origin : Uuid → PersonOrigin) (now : HcMap.Time) :
    Monthly db now (getStats db origin now).eventsPerMonthLast12 ∧
      Ranking 10 (usedRestraints db) (getStats db origin now).topRestraints ∧
      Ranking 5 (usedPositions db db.armPositions Application.armPositionId)
        (getStats db origin now).topArmPositions ∧
      Ranking 5 (usedPositions db db.handPositions Application.handPositionId)
        (getStats db origin now).topHandPositions ∧
      ((getStats db origin now).usersByRole.map Prod.snd).sum = db.users.rows.length :=
  ⟨⟨fun _ => mem_eventsPerMonth, sum_eventsPerMonth, rising_eventsPerMonth,
      length_eventsPerMonth_le⟩,
    Group.ranking_top 10 _, Group.ranking_top 5 _, Group.ranking_top 5 _,
    Group.sum_counts.trans (List.length_map _)⟩

end HcMap.Admin
