import Mathlib.Data.Rat.Cast.Order
import Mathlib.Order.CompletePartialOrder
import Mathlib.Order.Interval.Set.Disjoint
import HcMap.Forms.Backfill
import HcMap.Lib.Sort

/-!
# Overlaps in a backfill

The overlap check compares neighbours in the order of their starts. In that
order it says the same of all pairs, and it depends on the order of entry where
several applications start together.
-/

namespace HcMap.Backfill

def BackfillError.IsOverlap : BackfillError → Prop
  | .application _ .overlap _ => True
  | _ => False

section
variable (parse : String → Option Int)

/-- `b` may come after `a`: it does not start before it, nor before it ends. -/
def Follows (a b : BackfillApplicationInput) : Prop :=
  startsBefore parse a b ∧ ∀ endA, parseTime parse a.endedAt = some endA →
    endA ≤ (parseTime parse b.startedAt).getD 0

structure Checked (input : BackfillEventInput) : Prop where
  event : eventErrors parse input = []
  applications : ∀ app ∈ input.applications, applicationErrors parse input app = []

def Accepts (input : BackfillEventInput) : Prop :=
  ∃ sorted, validateBackfill parse input = .ok sorted

end

section
variable {parse : String → Option Int} {input : BackfillEventInput}
  {a b c app : BackfillApplicationInput} {l sorted : List BackfillApplicationInput}

instance : Std.Total (startsBefore parse) := ⟨fun _ _ => le_total _ _⟩
instance : IsTrans BackfillApplicationInput (startsBefore parse) := ⟨fun _ _ _ => le_trans⟩

theorem Follows.startsBefore (h : Follows parse a b) : startsBefore parse a b := h.1

theorem Follows.trans (hab : Follows parse a b) (hbc : Follows parse b c) : Follows parse a c :=
  ⟨le_trans hab.1 hbc.1, fun endA h => (hab.2 endA h).trans hbc.1⟩

instance : IsTrans BackfillApplicationInput (Follows parse) := ⟨fun _ _ _ => Follows.trans⟩
instance : Trans (Follows parse) (Follows parse) (Follows parse) := ⟨Follows.trans⟩

-- ---------------------------------------------------------------------------
-- Neighbours and pairs
-- ---------------------------------------------------------------------------

theorem before_known {t t' : Option Int} (h : t.isSome) :
    before t t' = false ↔ ∀ v, t' = some v → v ≤ t.getD 0 := by
  obtain ⟨s, rfl⟩ := Option.isSome_iff_exists.mp h
  cases t' with
  | none => simp [before]
  | some v => simp

/-- The loop over neighbours passes a list in the order of its starts when each
application follows each one before it. -/
theorem overlapErrors_eq_nil (hsorted : l.Pairwise (Backfill.startsBefore parse))
    (hknown : ∀ a ∈ l, (parseTime parse a.startedAt).isSome) :
    overlapErrors parse l = [] ↔ l.Pairwise (Follows parse) := by
  rw [← List.isChain_iff_pairwise]
  induction l with
  | nil => simp [overlapErrors]
  | cons a l ih =>
    cases l with
    | nil => simp [overlapErrors]
    | cons b l =>
      obtain ⟨ha, hrest⟩ := List.pairwise_cons.mp hsorted
      have hb := hknown b (List.mem_cons_of_mem a List.mem_cons_self)
      have ih := ih hrest fun c hc => hknown c (List.mem_cons_of_mem a hc)
      rw [overlapErrors, List.append_eq_nil_iff, check_eq_nil, before_known hb, ih,
        List.isChain_cons_cons]
      have hab := ha b List.mem_cons_self
      exact and_congr_left' ⟨fun h => ⟨hab, h⟩, fun h => h.2⟩

theorem known_of_checked (h : Checked parse input) (happ : app ∈ input.applications) :
    (parseTime parse app.startedAt).isSome := by
  have hnil := h.applications app happ
  simp only [applicationErrors, List.append_eq_nil_iff, check_eq_nil] at hnil
  obtain ⟨v, hv⟩ := known hnil.1.1.1.1
  rw [hv]
  rfl

theorem overlapErrors_of_known
    (hknown : ∀ app ∈ input.applications, (parseTime parse app.startedAt).isSome) :
    overlapErrors parse (sortApplications parse
        (input.applications.filter fun app => (parseTime parse app.startedAt).isSome)) = [] ↔
      (sortApplications parse input.applications).Pairwise (Follows parse) := by
  rw [List.filter_eq_self.mpr hknown]
  refine overlapErrors_eq_nil (List.pairwise_insertionSort _ _) fun app happ => hknown app ?_
  exact (List.mem_insertionSort _).mp happ

theorem validateBackfill_ok_iff :
    validateBackfill parse input = .ok sorted ↔
      Checked parse input ∧ sorted.Pairwise (Follows parse) ∧
        sortApplications parse input.applications = sorted := by
  rw [validateBackfill_ok, errors, List.append_eq_nil_iff, List.append_eq_nil_iff,
    List.flatMap_eq_nil_iff]
  constructor
  · rintro ⟨⟨⟨hevent, happs⟩, hoverlap⟩, rfl⟩
    have hchecked : Checked parse input := ⟨hevent, happs⟩
    exact ⟨hchecked, (overlapErrors_of_known fun _ => known_of_checked hchecked).mp hoverlap, rfl⟩
  · rintro ⟨hchecked, hpairs, rfl⟩
    exact ⟨⟨⟨hchecked.event, hchecked.applications⟩,
      (overlapErrors_of_known fun _ => known_of_checked hchecked).mpr hpairs⟩, rfl⟩

theorem accepts_iff :
    Accepts parse input ↔ Checked parse input ∧
      (sortApplications parse input.applications).Pairwise (Follows parse) := by
  simp only [Accepts, validateBackfill_ok_iff]
  constructor
  · rintro ⟨_, hchecked, hpairs, rfl⟩
    exact ⟨hchecked, hpairs⟩
  · rintro ⟨hchecked, hpairs⟩
    exact ⟨_, hchecked, hpairs, rfl⟩

end

-- ---------------------------------------------------------------------------
-- All pairs
-- ---------------------------------------------------------------------------

section
variable (parse : String → Option Int)

/-- Both starts are known and in this order, and `a` has ended when `b` starts. -/
def InOrder (a b : BackfillApplicationInput) : Prop :=
  ∃ startA startB, parseTime parse a.startedAt = some startA ∧
    parseTime parse b.startedAt = some startB ∧ startA ≤ startB ∧
      ∀ endA, parseTime parse a.endedAt = some endA → endA ≤ startB

def Spans (app : BackfillApplicationInput) : Prop :=
  ∃ start stop, parseTime parse app.startedAt = some start ∧
    parseTime parse app.endedAt = some stop ∧ start < stop

def span (app : BackfillApplicationInput) : Set ℚ :=
  {t | ∃ start stop, parseTime parse app.startedAt = some start ∧
    parseTime parse app.endedAt = some stop ∧ (start : ℚ) < t ∧ t < stop}

end

section
variable {parse : String → Option Int} {input : BackfillEventInput}
  {a b app : BackfillApplicationInput} {es : List BackfillError}

theorem Follows.inOrder (h : Follows parse a b) (ha : (parseTime parse a.startedAt).isSome)
    (hb : (parseTime parse b.startedAt).isSome) : InOrder parse a b := by
  obtain ⟨startA, hA⟩ := Option.isSome_iff_exists.mp ha
  obtain ⟨startB, hB⟩ := Option.isSome_iff_exists.mp hb
  obtain ⟨hstarts, hend⟩ := h
  rw [Backfill.startsBefore, hA, hB] at hstarts
  rw [hB] at hend
  exact ⟨startA, startB, hA, hB, hstarts, hend⟩

theorem span_eq {start stop : Int} (hstart : parseTime parse app.startedAt = some start)
    (hstop : parseTime parse app.endedAt = some stop) :
    span parse app = Set.Ioo (start : ℚ) stop := by
  ext t
  simp [span, hstart, hstop]

/-- Of two applications that take time, the later one follows the other when
their intervals have nothing in common. -/
theorem follows_iff_disjoint (ha : Spans parse a) (hb : Spans parse b)
    (hab : startsBefore parse a b) :
    Follows parse a b ↔ Disjoint (span parse a) (span parse b) := by
  obtain ⟨startA, stopA, hA, hA', hltA⟩ := ha
  obtain ⟨startB, stopB, hB, hB', hltB⟩ := hb
  have hle : startA ≤ startB := by
    rw [startsBefore, hA, hB] at hab
    exact hab
  have hfollows : Follows parse a b ↔ stopA ≤ startB := by
    simp [Follows, hab, hA', hB]
  have hmax : max (startA : ℚ) startB = startB := max_eq_right (by exact_mod_cast hle)
  have hnot : ¬ (stopB : ℚ) ≤ startB := by
    rw [not_le]
    exact_mod_cast hltB
  rw [hfollows, span_eq hA hA', span_eq hB hB', Set.Ioo_disjoint_Ioo, hmax, min_le_iff,
    or_iff_left hnot]
  exact_mod_cast Iff.rfl

theorem mem_check {failed : Bool} {error e : BackfillError} :
    e ∈ check failed error ↔ failed = true ∧ e = error := by
  cases failed <;> simp [check]

theorem isOverlap_of_mem_overlapErrors {l : List BackfillApplicationInput} {e : BackfillError}
    (h : e ∈ overlapErrors parse l) : e.IsOverlap := by
  fun_induction overlapErrors parse l with
  | case1 previous current rest ih =>
    rcases List.mem_append.mp h with h | h
    · obtain ⟨-, rfl⟩ := mem_check.mp h
      trivial
    · exact ih h
  | case2 => cases h

theorem not_isOverlap_of_mem_eventErrors {e : BackfillError} (h : e ∈ eventErrors parse input) :
    ¬ e.IsOverlap := by
  simp only [eventErrors, List.mem_append, mem_check] at h
  rcases h with (⟨-, rfl⟩ | ⟨-, rfl⟩) | ⟨-, rfl⟩ <;> exact id

theorem not_isOverlap_of_mem_applicationErrors {e : BackfillError}
    (h : e ∈ applicationErrors parse input app) : ¬ e.IsOverlap := by
  simp only [applicationErrors, List.mem_append, mem_check] at h
  rcases h with (((⟨-, rfl⟩ | ⟨-, rfl⟩) | ⟨-, rfl⟩) | ⟨-, rfl⟩) | ⟨-, rfl⟩ <;> exact id

theorem reports_overlap_iff :
    (∃ es, validateBackfill parse input = .error es ∧ ∃ error ∈ es, error.IsOverlap) ↔
      overlapErrors parse (sortApplications parse
        (input.applications.filter fun app => (parseTime parse app.startedAt).isSome)) ≠ [] := by
  constructor
  · rintro ⟨es, h, error, herror, hoverlap⟩
    unfold validateBackfill at h
    split at h
    · cases h
      simp only [errors, List.mem_append, List.mem_flatMap] at herror
      rcases herror with (hevent | ⟨app, -, happ⟩) | hloop
      · exact absurd hoverlap (not_isOverlap_of_mem_eventErrors hevent)
      · exact absurd hoverlap (not_isOverlap_of_mem_applicationErrors happ)
      · exact List.ne_nil_of_mem hloop
    · cases h
  · intro h
    obtain ⟨error, herror⟩ := List.exists_mem_of_ne_nil _ h
    have hmem : error ∈ errors parse input := List.mem_append_right _ herror
    exact ⟨errors parse input, if_pos (List.ne_nil_of_mem hmem), error, hmem,
      isOverlap_of_mem_overlapErrors herror⟩

theorem overlapCheck_complete :
    (∀ sorted, validateBackfill parse input = .ok sorted →
      sorted.Perm input.applications ∧ sorted.Pairwise (InOrder parse)) ∧
    ((∀ app ∈ input.applications, Spans parse app) →
      ((∃ es, validateBackfill parse input = .error es ∧ ∃ error ∈ es, error.IsOverlap) ↔
        ¬ input.applications.Pairwise fun a b => Disjoint (span parse a) (span parse b))) := by
  constructor
  · intro sorted h
    obtain ⟨hperm, -⟩ := validateBackfill_sorted h
    obtain ⟨hchecked, hpairs, -⟩ := validateBackfill_ok_iff.mp h
    have hknown : ∀ app ∈ sorted, (parseTime parse app.startedAt).isSome := fun app happ =>
      known_of_checked hchecked (hperm.mem_iff.mp happ)
    refine ⟨hperm, hpairs.imp_of_mem fun ha hb hab => ?_⟩
    exact hab.inOrder (hknown _ ha) (hknown _ hb)
  · intro hspans
    have hknown : ∀ app ∈ input.applications, (parseTime parse app.startedAt).isSome := by
      intro app happ
      obtain ⟨start, -, hstart, -⟩ := hspans app happ
      rw [hstart]
      rfl
    rw [reports_overlap_iff, ne_eq, overlapErrors_of_known hknown, not_iff_not]
    have hperm : (sortApplications parse input.applications).Perm input.applications :=
      List.perm_insertionSort _ _
    have hsorted : (sortApplications parse input.applications).Pairwise (startsBefore parse) :=
      List.pairwise_insertionSort _ _
    rw [← hperm.pairwise_iff fun h => h.symm]
    have hall : ∀ app ∈ sortApplications parse input.applications, Spans parse app :=
      fun app happ => hspans app (hperm.mem_iff.mp happ)
    constructor
    · intro h
      refine (hsorted.and h).imp_of_mem ?_
      rintro a b ha hb ⟨hab, hf⟩
      exact (follows_iff_disjoint (hall a ha) (hall b hb) hab).mp hf
    · intro h
      refine (hsorted.and h).imp_of_mem ?_
      rintro a b ha hb ⟨hab, hd⟩
      exact (follows_iff_disjoint (hall a ha) (hall b hb) hab).mpr hd

end

-- ---------------------------------------------------------------------------
-- The order of entry
-- ---------------------------------------------------------------------------

section
variable (parse : String → Option Int)

def Tie (a b : BackfillApplicationInput) : Prop :=
  parseTime parse a.startedAt = parseTime parse b.startedAt

def Lasts (app : BackfillApplicationInput) : Prop :=
  ∃ stop, parseTime parse app.endedAt = some stop ∧ (parseTime parse app.startedAt).getD 0 < stop

end

section
variable {parse : String → Option Int} {input : BackfillEventInput}
  {a b : BackfillApplicationInput} {apps : List BackfillApplicationInput}

theorem Tie.follows_iff (h : Tie parse a b) : Follows parse a b ↔ ¬ Lasts parse a := by
  have hstart : parseTime parse b.startedAt = parseTime parse a.startedAt := h.symm
  simp [Follows, Backfill.startsBefore, Lasts, hstart]

theorem tie_iff (ha : (parseTime parse a.startedAt).isSome)
    (hb : (parseTime parse b.startedAt).isSome) :
    Tie parse a b ↔ startsBefore parse a b ∧ startsBefore parse b a := by
  obtain ⟨s, hs⟩ := Option.isSome_iff_exists.mp ha
  obtain ⟨t, ht⟩ := Option.isSome_iff_exists.mp hb
  simp only [Tie, startsBefore, hs, ht, Option.some.injEq, Option.getD_some]
  exact le_antisymm_iff

theorem checked_perm (h : apps.Perm input.applications) :
    Checked parse { input with applications := apps } ↔ Checked parse input :=
  ⟨fun hc => ⟨hc.event, fun app happ => hc.applications app (h.mem_iff.mpr happ)⟩,
    fun hc => ⟨hc.event, fun app happ => hc.applications app (h.mem_iff.mp happ)⟩⟩

/-- Applications that can stand in either order are those that do not start
together, or do and end at once. -/
theorem ties_iff (hchecked : Checked parse input) :
    (input.applications.Pairwise fun a b => startsBefore parse a b → startsBefore parse b a →
        Follows parse a b ∧ Follows parse b a) ↔
      input.applications.Pairwise fun a b => Tie parse a b →
        ¬ Lasts parse a ∧ ¬ Lasts parse b := by
  refine List.Pairwise.iff_of_mem fun {a b} ha hb => ?_
  have htie := tie_iff (known_of_checked hchecked ha) (known_of_checked hchecked hb)
  rw [← and_imp, ← htie]
  exact imp_congr_right fun h => and_congr h.follows_iff (Tie.follows_iff h.symm)

/-- The verdict does not depend on the order of entry exactly when another
check rejects the input, two applications overlap whichever comes first, or none
that lasts starts together with another. -/
theorem accepts_perm_iff :
    (∀ apps, apps.Perm input.applications →
        (Accepts parse { input with applications := apps } ↔ Accepts parse input)) ↔
      ¬ Checked parse input ∨
        (¬ input.applications.Pairwise fun a b => Follows parse a b ∨ Follows parse b a) ∨
          input.applications.Pairwise fun a b => Tie parse a b →
            ¬ Lasts parse a ∧ ¬ Lasts parse b := by
  by_cases hchecked : Checked parse input
  · rw [or_iff_right (not_not.mpr hchecked), ← ties_iff hchecked,
      ← StableSort.pairwise_insertionSort_perm_iff fun _ _ h => h.startsBefore]
    refine forall_congr' fun apps => imp_congr_right fun hperm => ?_
    rw [accepts_iff, accepts_iff, and_iff_right hchecked,
      and_iff_right ((checked_perm hperm).mpr hchecked)]
    rfl
  · refine iff_of_true (fun apps hperm => ?_) (.inl hchecked)
    rw [accepts_iff, accepts_iff, checked_perm hperm]
    exact and_congr_right fun h => absurd h hchecked

end

-- ---------------------------------------------------------------------------
-- Two applications that start together
-- ---------------------------------------------------------------------------

def sampleMoment : BackfillApplicationInput := sampleApplication "2026-04-27T12:10:00.000Z"

def sampleRest : BackfillApplicationInput :=
  { sampleApplication "2026-04-27T13:00:00.000Z" with uiId := "b" }

def sampleFirst : BackfillApplicationInput :=
  { sampleMoment with uiId := "c", startedAt := "2026-04-27T12:00:00.000Z" }

def sampleEntries (apps : List BackfillApplicationInput) : BackfillEventInput :=
  { sampleBackfill none with applications := apps }

theorem overlapCheck_complete_sample :
    ([sampleFirst, sampleRest].Perm [sampleRest, sampleFirst] ∧
      [sampleFirst, sampleRest].Pairwise (InOrder sampleParse)) ∧
    ((∃ es, validateBackfill sampleParse (sampleEntries [sampleRest, sampleRest]) = .error es ∧
        ∃ error ∈ es, error.IsOverlap) ↔
      ¬ [sampleRest, sampleRest].Pairwise fun a b =>
        Disjoint (span sampleParse a) (span sampleParse b)) := by
  have hspans : ∀ app ∈ (sampleEntries [sampleRest, sampleRest]).applications,
      Spans sampleParse app := by
    intro app happ
    obtain rfl : app = sampleRest := by simpa [sampleEntries] using happ
    exact ⟨1777291800000, 1777294800000, by decide, by decide, by decide⟩
  have hentered : validateBackfill sampleParse (sampleEntries [sampleRest, sampleFirst]) =
      .ok [sampleFirst, sampleRest] := by decide
  exact ⟨overlapCheck_complete.1 [sampleFirst, sampleRest] hentered,
    overlapCheck_complete.2 hspans⟩

/-- Entered one way they are accepted, the other way the second overlaps. -/
theorem order_of_entry_matters :
    [sampleRest, sampleMoment].Perm (sampleEntries [sampleMoment, sampleRest]).applications ∧
      Accepts sampleParse (sampleEntries [sampleMoment, sampleRest]) ∧
        ¬ Accepts sampleParse (sampleEntries [sampleRest, sampleMoment]) := by
  refine ⟨.swap .., ⟨[sampleMoment, sampleRest], by decide⟩, ?_⟩
  rintro ⟨sorted, h⟩
  have hrejected : errors sampleParse (sampleEntries [sampleRest, sampleMoment]) ≠ [] := by decide
  rw [validateBackfill, if_pos hrejected] at h
  cases h

end HcMap.Backfill
