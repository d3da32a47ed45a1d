import HcMap.Db.Rows
import Mathlib.Data.List.Sort

/-!
# The backfill form's validation

`event-backfill-validation.ts`: all checks on an event that is entered after
the fact, with their errors, and the applications in chronological order. The
times are texts, read by `Date.parse`.
-/

namespace HcMap.Backfill

structure BackfillApplicationInput where
  uiId : String
  startedAt : Option String
  endedAt : Option String
  recipientId : Option String
  note : Option String
  deriving DecidableEq

structure BackfillEventInput where
  startedAt : Option String
  endedAt : Option String
  lat : Option ℚ
  lon : Option ℚ
  applications : List BackfillApplicationInput
  deriving DecidableEq

inductive EventField
  | location
  | startedAt
  | endedAt
  | duration
  deriving DecidableEq

inductive ApplicationField
  | startedAt
  | endedAt
  | recipient
  | duration
  | bounds
  | overlap
  deriving DecidableEq

inductive BackfillError
  | event (field : EventField) (message : String)
  | application (uiId : String) (field : ApplicationField) (message : String)
  deriving DecidableEq

/-- A null and an empty text are both falsy. -/
def truthy : Option String → Bool
  | none => false
  | some value => value ≠ ""

/-- `parse` is `Date.parse`, with `none` for `NaN`. -/
def parseTime (parse : String → Option Int) (value : Option String) : Option Int :=
  if truthy value then value.bind parse else none

-- ---------------------------------------------------------------------------
-- The checks
-- ---------------------------------------------------------------------------

def before : Option Int → Option Int → Bool
  | some t, some t' => t < t'
  | _, _ => false

def check (failed : Bool) (error : BackfillError) : List BackfillError :=
  if failed then [error] else []

section
variable (parse : String → Option Int)

def eventErrors (input : BackfillEventInput) : List BackfillError :=
  let eventStart := parseTime parse input.startedAt
  let eventEnd := parseTime parse input.endedAt
  check (input.lat.isNone || input.lon.isNone)
      (.event .location "Standort ist Pflicht. Tippe auf die Karte oder GPS antippen.") ++
    check eventStart.isNone (.event .startedAt "Start-Zeitstempel des Events ist Pflicht.") ++
    check (before eventEnd eventStart) (.event .duration "Event-Ende liegt vor dem Event-Start.")

def applicationErrors (input : BackfillEventInput) (app : BackfillApplicationInput) :
    List BackfillError :=
  let eventStart := parseTime parse input.startedAt
  let eventEnd := parseTime parse input.endedAt
  let appStart := parseTime parse app.startedAt
  let appEnd := parseTime parse app.endedAt
  check appStart.isNone (.application app.uiId .startedAt "Application-Start ist Pflicht.") ++
    check (!truthy app.recipientId) (.application app.uiId .recipient "Recipient ist Pflicht.") ++
    check (before appEnd appStart)
      (.application app.uiId .duration "Application-Ende liegt vor dem Start.") ++
    check (before appStart eventStart)
      (.application app.uiId .bounds "Application beginnt vor dem Event-Start.") ++
    check (before eventEnd appEnd)
      (.application app.uiId .bounds "Application endet nach dem Event-Ende.")

def overlapErrors : List BackfillApplicationInput → List BackfillError
  | previous :: current :: rest =>
    check (before (parseTime parse current.startedAt) (parseTime parse previous.endedAt))
        (.application current.uiId .overlap "Diese Application überlappt mit der vorigen.") ++
      overlapErrors (current :: rest)
  | _ => []

def startsBefore (a b : BackfillApplicationInput) : Prop :=
  (parseTime parse a.startedAt).getD 0 ≤ (parseTime parse b.startedAt).getD 0

instance (a b : BackfillApplicationInput) : Decidable (startsBefore parse a b) :=
  inferInstanceAs (Decidable (_ ≤ _))

/-- `Array.prototype.sort` is stable, as is `insertionSort`. -/
def sortApplications (apps : List BackfillApplicationInput) : List BackfillApplicationInput :=
  apps.insertionSort (startsBefore parse)

def errors (input : BackfillEventInput) : List BackfillError :=
  eventErrors parse input ++ input.applications.flatMap (applicationErrors parse input) ++
    overlapErrors parse (sortApplications parse
      (input.applications.filter fun app => (parseTime parse app.startedAt).isSome))

def validateBackfill (input : BackfillEventInput) :
    Except (List BackfillError) (List BackfillApplicationInput) :=
  if errors parse input ≠ [] then .error (errors parse input)
  else .ok (sortApplications parse input.applications)

end

-- ---------------------------------------------------------------------------
-- What is accepted
-- ---------------------------------------------------------------------------

@[simp] theorem check_eq_nil {failed : Bool} {error : BackfillError} :
    check failed error = [] ↔ failed = false := by
  cases failed <;> simp [check]

@[simp] theorem before_some {t t' : Int} : before (some t) (some t') = false ↔ t' ≤ t := by
  simp [before]

theorem known {t : Option Int} (h : t.isNone = false) : ∃ v, t = some v := by
  cases t with
  | none => cases h
  | some v => exact ⟨v, rfl⟩

section
variable {parse : String → Option Int} {input : BackfillEventInput}
  {app : BackfillApplicationInput} {sorted : List BackfillApplicationInput}

theorem validateBackfill_ok :
    validateBackfill parse input = .ok sorted ↔
      errors parse input = [] ∧ sortApplications parse input.applications = sorted := by
  unfold validateBackfill
  split
  · rename_i h
    simp [h]
  · rename_i h
    simp [not_not.mp h]

/-- The list for the caller holds the applications in chronological order. -/
theorem validateBackfill_sorted (h : validateBackfill parse input = .ok sorted) :
    sorted.Perm input.applications ∧ sorted.Pairwise (startsBefore parse) := by
  obtain ⟨-, rfl⟩ := validateBackfill_ok.mp h
  have : Std.Total (startsBefore parse) := ⟨fun a b => le_total _ _⟩
  have : IsTrans _ (startsBefore parse) := ⟨fun a b c => le_trans⟩
  exact ⟨List.perm_insertionSort _ _, List.pairwise_insertionSort _ _⟩

/-- The application lies within the event; in an event with an end it has one. -/
structure Within (parse : String → Option Int) (input : BackfillEventInput)
    (app : BackfillApplicationInput) : Prop where
  start : ∃ eventStart appStart, parseTime parse input.startedAt = some eventStart ∧
    parseTime parse app.startedAt = some appStart ∧ eventStart ≤ appStart
  stop : ∀ eventEnd, parseTime parse input.endedAt = some eventEnd →
    ∃ appStart appEnd, parseTime parse app.startedAt = some appStart ∧
      parseTime parse app.endedAt = some appEnd ∧ appStart ≤ eventEnd ∧ appEnd ≤ eventEnd

theorem accepted_application (h : validateBackfill parse input = .ok sorted)
    (happ : app ∈ input.applications) :
    ∃ eventStart appStart, parseTime parse input.startedAt = some eventStart ∧
      parseTime parse app.startedAt = some appStart ∧ eventStart ≤ appStart ∧
      ∀ appEnd, parseTime parse app.endedAt = some appEnd → appStart ≤ appEnd ∧
        ∀ eventEnd, parseTime parse input.endedAt = some eventEnd → appEnd ≤ eventEnd := by
  obtain ⟨hnil, -⟩ := validateBackfill_ok.mp h
  simp only [errors, List.append_eq_nil_iff, List.flatMap_eq_nil_iff] at hnil
  obtain ⟨⟨hevent, happs⟩, -⟩ := hnil
  have hthis := happs app happ
  simp only [eventErrors, applicationErrors, List.append_eq_nil_iff, check_eq_nil] at hevent hthis
  obtain ⟨⟨-, heventStart⟩, -⟩ := hevent
  obtain ⟨⟨⟨⟨happStart, -⟩, hduration⟩, hfrom⟩, hto⟩ := hthis
  obtain ⟨eventStart, hes⟩ := known heventStart
  obtain ⟨appStart, has⟩ := known happStart
  rw [hes, has, before_some] at hfrom
  refine ⟨eventStart, appStart, hes, has, hfrom, fun appEnd hae => ?_⟩
  rw [hae, has, before_some] at hduration
  refine ⟨hduration, fun eventEnd hee => ?_⟩
  rw [hee, hae, before_some] at hto
  exact hto

/-- In an accepted event with an end, the applications without an end are the
ones that are not within it. -/
theorem accepted_within_iff (h : validateBackfill parse input = .ok sorted) :
    (∀ app ∈ input.applications, Within parse input app) ↔
      ((parseTime parse input.endedAt).isSome →
        ∀ app ∈ input.applications, (parseTime parse app.endedAt).isSome) := by
  constructor
  · intro hwithin hend app happ
    obtain ⟨eventEnd, hee⟩ := Option.isSome_iff_exists.mp hend
    obtain ⟨-, appEnd, -, hae, -⟩ := (hwithin app happ).stop eventEnd hee
    rw [hae]
    rfl
  · intro hends app happ
    obtain ⟨eventStart, appStart, hes, has, hle, hto⟩ := accepted_application h happ
    refine ⟨⟨eventStart, appStart, hes, has, hle⟩, fun eventEnd hee => ?_⟩
    obtain ⟨appEnd, hae⟩ := Option.isSome_iff_exists.mp (hends (by rw [hee]; rfl) app happ)
    obtain ⟨hduration, hbound⟩ := hto appEnd hae
    have hend := hbound eventEnd hee
    exact ⟨appStart, appEnd, has, hae, hduration.trans hend, hend⟩

end

-- ---------------------------------------------------------------------------
-- An application left running
-- ---------------------------------------------------------------------------

def sampleParse : String → Option Int
  | "2026-04-27T12:00:00.000Z" => some 1777291200000
  | "2026-04-27T12:10:00.000Z" => some 1777291800000
  | "2026-04-27T13:00:00.000Z" => some 1777294800000
  | _ => none

def sampleApplication (endedAt : Option String) : BackfillApplicationInput where
  uiId := "a"
  startedAt := "2026-04-27T12:10:00.000Z"
  endedAt := endedAt
  recipientId := "11111111-2222-3333-4444-555555555555"
  note := none

def sampleBackfill (endedAt : Option String) : BackfillEventInput where
  startedAt := "2026-04-27T12:00:00.000Z"
  endedAt := "2026-04-27T13:00:00.000Z"
  lat := some (105 / 2)
  lon := some (67 / 5)
  applications := [sampleApplication endedAt]

theorem accepted_within_iff_sample :
    validateBackfill sampleParse (sampleBackfill "2026-04-27T13:00:00.000Z") =
        .ok [sampleApplication "2026-04-27T13:00:00.000Z"] ∧
      ∀ app ∈ (sampleBackfill "2026-04-27T13:00:00.000Z").applications,
        Within sampleParse (sampleBackfill "2026-04-27T13:00:00.000Z") app := by
  have h : validateBackfill sampleParse (sampleBackfill "2026-04-27T13:00:00.000Z") =
      .ok [sampleApplication "2026-04-27T13:00:00.000Z"] := by decide
  exact ⟨h, (accepted_within_iff h).mpr (by decide)⟩

theorem accepted_left_running :
    ∃ sorted, validateBackfill sampleParse (sampleBackfill none) = .ok sorted ∧
      ¬ ∀ app ∈ (sampleBackfill none).applications,
        Within sampleParse (sampleBackfill none) app := by
  refine ⟨[sampleApplication none], by decide, fun h => ?_⟩
  have hwithin := h (sampleApplication none) List.mem_cons_self
  obtain ⟨-, appEnd, -, hend, -⟩ := hwithin.stop 1777294800000 (by decide)
  cases hend

end HcMap.Backfill
