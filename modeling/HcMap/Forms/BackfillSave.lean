import HcMap.Forms.Backfill
import HcMap.Forms.EventTime
import HcMap.Lib.Run
import HcMap.Lib.Table

/-!
# Saving a backfill

`handleSubmit` of `event-backfill-form.tsx`: the event and its applications are
inserted into the local collections one by one, under new ids at each attempt.
An insert fails when the database says so, or when its id is taken.
-/

namespace HcMap.Backfill

open DateText EventTime

-- ---------------------------------------------------------------------------
-- Documents
-- ---------------------------------------------------------------------------

/-- `EventDocType` of `rxdb/types.ts` -/
structure EventDocType where
  id : String
  startedAt : String
  endedAt : Option String
  lat : ℚ
  lon : ℚ
  legacyExternalRef : Option String
  revealParticipants : Bool
  title : Option String
  note : Option String
  timePrecision : TimePrecision
  createdBy : Option String
  createdAt : String
  updatedAt : String
  deletedAt : Option String
  deleted : Bool
  deriving DecidableEq

structure ApplicationDocType where
  id : String
  eventId : String
  performerId : String
  recipientId : String
  armPositionId : Option String
  handPositionId : Option String
  handOrientationId : Option String
  sequenceNo : Nat
  startedAt : Option String
  endedAt : Option String
  note : Option String
  createdBy : Option String
  createdAt : String
  updatedAt : String
  deletedAt : Option String
  deleted : Bool
  restraintTypeIds : List String
  deriving DecidableEq

instance : Keyed EventDocType String := ⟨EventDocType.id⟩
instance : Keyed ApplicationDocType String := ⟨ApplicationDocType.id⟩

@[ext] structure Local where
  events : Table EventDocType
  applications : Table ApplicationDocType
  deriving DecidableEq

-- ---------------------------------------------------------------------------
-- The form
-- ---------------------------------------------------------------------------

structure AuthUser where
  id : String
  personId : String

/-- Of the recipient only the id is read. -/
structure ApplicationRow where
  uiId : String
  startedAt : String
  endedAt : String
  recipient : Option String
  note : String
  restraintTypeIds : List String
  armPositionId : Option String
  handPositionId : Option String
  handOrientationId : Option String
  deriving DecidableEq

structure BackfillForm where
  coords : Option (ℚ × ℚ)
  eventStartedAt : String
  eventEndedAt : String
  precision : TimePrecision
  yearValue : String
  monthValue : String
  dayValue : String
  title : String
  note : String
  legacyExternalRef : String
  applications : List ApplicationRow
  uiIds_nodup : (applications.map ApplicationRow.uiId).Nodup

def trimmed (text : String) : Option String :=
  let trim := String.ofList (Decimal.trim text.toList)
  if trim = "" then none else some trim

def toInput (b : Browser) (row : ApplicationRow) : BackfillApplicationInput where
  uiId := row.uiId
  startedAt := localToIso b row.startedAt
  endedAt := localToIso b row.endedAt
  recipientId := row.recipient
  note := trimmed row.note

namespace BackfillForm

variable (b : Browser) (form : BackfillForm)

def startedIso : Except Thrown (Option String) :=
  precisionStartedIso b form.precision form.yearValue form.monthValue form.dayValue
    form.eventStartedAt

def endedIso : Option String := precisionEndedIso b form.precision form.eventEndedAt

def input (startedIso : Option String) : BackfillEventInput where
  startedAt := startedIso
  endedAt := form.endedIso b
  lat := form.coords.map Prod.fst
  lon := form.coords.map Prod.snd
  applications := form.applications.map (toInput b)

end BackfillForm

-- ---------------------------------------------------------------------------
-- Submitting
-- ---------------------------------------------------------------------------

/-- What an attempt to submit finds: new ids, the time, and the inserts that the
database fails. -/
structure Attempt where
  eventId : String
  applicationIds : Nat → String
  now : String
  eventFails : Bool
  applicationFails : Nat → Bool

inductive Outcome
  | thrown
  | invalid (errors : List BackfillError)
  /-- "Event konnte nicht gespeichert werden" -/
  | failed
  /-- "Event erfasst", and on to the event's page -/
  | saved (eventId : String)
  deriving DecidableEq

def insertDoc {ρ : Type} [Keyed ρ String] (fails : Bool) (t : Table ρ) (doc : ρ) :
    Option (Table ρ) :=
  if fails then none else t.insert? doc

section
variable (b : Browser) (user : AuthUser) (form : BackfillForm) (attempt : Attempt)

/-- The validation has seen a start and a location. -/
def eventDoc (startedIso : Option String) : EventDocType where
  id := attempt.eventId
  startedAt := startedIso.getD ""
  endedAt := form.endedIso b
  lat := (form.coords.getD (0, 0)).1
  lon := (form.coords.getD (0, 0)).2
  legacyExternalRef := trimmed form.legacyExternalRef
  revealParticipants := false
  title := trimmed form.title
  note := trimmed form.note
  timePrecision := form.precision
  createdBy := some user.id
  createdAt := attempt.now
  updatedAt := attempt.now
  deletedAt := none
  deleted := false

def applicationDoc (i : Nat) (sorted : BackfillApplicationInput) (original : ApplicationRow) :
    ApplicationDocType where
  id := attempt.applicationIds i
  eventId := attempt.eventId
  performerId := user.personId
  recipientId := original.recipient.getD user.personId
  armPositionId := original.armPositionId
  handPositionId := original.handPositionId
  handOrientationId := original.handOrientationId
  sequenceNo := i + 1
  startedAt := sorted.startedAt
  endedAt := sorted.endedAt
  note := sorted.note
  createdBy := some user.id
  createdAt := attempt.now
  updatedAt := attempt.now
  deletedAt := none
  deleted := false
  restraintTypeIds := original.restraintTypeIds

def insertApplications (t : Table ApplicationDocType) (i : Nat) :
    List BackfillApplicationInput → Table ApplicationDocType × Bool
  | [] => (t, true)
  | sorted :: rest =>
    match form.applications.find? fun a => a.uiId = sorted.uiId with
    | none => (t, false)
    | some original =>
      match insertDoc (attempt.applicationFails i) t
          (applicationDoc user attempt i sorted original) with
      | none => (t, false)
      | some t' => insertApplications t' (i + 1) rest

/-- Nothing is taken back when an insert throws. -/
def save (db : Local) (startedIso : Option String)
    (sortedApplications : List BackfillApplicationInput) : Outcome × Local :=
  match insertDoc attempt.eventFails db.events (eventDoc b user form attempt startedIso) with
  | none => (.failed, db)
  | some events =>
    let (applications, done) := insertApplications user form attempt db.applications 0
      sortedApplications
    (if done then .saved attempt.eventId else .failed, { events, applications })

def handleSubmit (db : Local) : Outcome × Local :=
  match form.startedIso b with
  | .error _ => (.thrown, db)
  | .ok startedIso =>
    match validateBackfill b.parse (form.input b startedIso) with
    | .error errors => (.invalid errors, db)
    | .ok sortedApplications => save b user form attempt db startedIso sortedApplications

end

-- ---------------------------------------------------------------------------
-- One attempt
-- ---------------------------------------------------------------------------

section
variable {b : Browser} {user : AuthUser} {form : BackfillForm} {attempt : Attempt} {db : Local}
  {startedIso : Option String} {sorted : List BackfillApplicationInput}

structure Valid (b : Browser) (form : BackfillForm) (startedIso : Option String)
    (sorted : List BackfillApplicationInput) : Prop where
  started : form.startedIso b = .ok startedIso
  accepted : validateBackfill b.parse (form.input b startedIso) = .ok sorted

def rowsInOrder (b : Browser) (form : BackfillForm) : List ApplicationRow :=
  form.applications.insertionSort fun r r' => startsBefore b.parse (toInput b r) (toInput b r')

theorem Valid.sorted_eq (h : Valid b form startedIso sorted) :
    sorted = (rowsInOrder b form).map (toInput b) := by
  obtain ⟨-, hsorted⟩ := validateBackfill_ok.mp h.accepted
  rw [← hsorted, rowsInOrder, sortApplications,
    List.map_insertionSort _ (startsBefore b.parse) (toInput b) form.applications
      fun _ _ _ _ => .rfl]
  rfl

theorem rowsInOrder_perm : (rowsInOrder b form).Perm form.applications :=
  List.perm_insertionSort _ _

/-- A row is found by its `uiId`. -/
theorem find_row {row : ApplicationRow} (h : row ∈ form.applications) :
    (form.applications.find? fun a => a.uiId = (toInput b row).uiId) = some row := by
  cases hfind : form.applications.find? fun a => a.uiId = (toInput b row).uiId with
  | none => exact absurd (List.find?_eq_none.mp hfind row h) (by simp [toInput])
  | some original =>
    have hmem := List.mem_of_find?_eq_some hfind
    have hmatch := List.find?_some hfind
    have hui : original.uiId = row.uiId := of_decide_eq_true hmatch
    rw [List.inj_on_of_nodup_map form.uiIds_nodup hmem h hui]

def applicationDocs (b : Browser) (user : AuthUser) (attempt : Attempt) :
    Nat → List ApplicationRow → List ApplicationDocType
  | _, [] => []
  | i, row :: rows =>
    applicationDoc user attempt i (toInput b row) row ::
      applicationDocs b user attempt (i + 1) rows

theorem insertDoc_eq_some {ρ : Type} [Keyed ρ String] {fails : Bool} {t t' : Table ρ} {doc : ρ} :
    insertDoc fails t doc = some t' ↔
      fails = false ∧ t.find? (key doc) = none ∧ t'.rows = t.rows ++ [doc] := by
  unfold insertDoc
  cases fails with
  | true => simp
  | false => simp [Table.insert?_eq_some]

theorem insertDoc_eq_none {ρ : Type} [Keyed ρ String] {fails : Bool} {t : Table ρ} {doc : ρ} :
    insertDoc fails t doc = none ↔ fails = true ∨ key doc ∈ t.rows.map key := by
  unfold insertDoc
  cases fails with
  | true => simp
  | false => simp [Table.insert?_eq_none, Table.find?_isSome, Table.mem_rows]

theorem insertApplications_done (b : Browser) (user : AuthUser) (attempt : Attempt)
    {t : Table ApplicationDocType} {i : Nat} {rows : List ApplicationRow}
    (hrows : ∀ row ∈ rows, row ∈ form.applications) :
    (insertApplications user form attempt t i (rows.map (toInput b))).2 = true ↔
      (∀ j ∈ List.range' i rows.length, attempt.applicationFails j = false) ∧
        (t.rows.map key ++ (List.range' i rows.length).map attempt.applicationIds).Nodup := by
  induction rows generalizing t i with
  | nil => simpa [insertApplications] using t.nodup
  | cons row rows ih =>
    have hrest : ∀ r ∈ rows, r ∈ form.applications := fun r hr =>
      hrows r (List.mem_cons_of_mem _ hr)
    rw [List.map_cons, insertApplications, find_row (hrows row List.mem_cons_self),
      List.length_cons, List.range'_succ, List.forall_mem_cons, List.map_cons]
    simp only
    cases hinsert : insertDoc (attempt.applicationFails i) t
        (applicationDoc user attempt i (toInput b row) row) with
    | none =>
      refine iff_of_false Bool.false_ne_true ?_
      rintro ⟨⟨hsucceeds, -⟩, hnodup⟩
      rcases insertDoc_eq_none.mp hinsert with hfails | htaken
      · rw [hsucceeds] at hfails
        cases hfails
      · exact (List.disjoint_of_nodup_append hnodup) htaken List.mem_cons_self
    | some t' =>
      obtain ⟨hsucceeds, -, ht'⟩ := insertDoc_eq_some.mp hinsert
      have hids : t'.rows.map key = t.rows.map key ++ [attempt.applicationIds i] := by
        rw [ht', List.map_append]
        rfl
      simp only
      rw [ih hrest, hids, List.append_assoc, List.singleton_append, and_iff_right hsucceeds]

theorem insertApplications_rows (b : Browser) (user : AuthUser) (attempt : Attempt)
    {t : Table ApplicationDocType} {i : Nat} {rows : List ApplicationRow}
    (hrows : ∀ row ∈ rows, row ∈ form.applications)
    (hdone : (insertApplications user form attempt t i (rows.map (toInput b))).2 = true) :
    (insertApplications user form attempt t i (rows.map (toInput b))).1.rows =
      t.rows ++ applicationDocs b user attempt i rows := by
  induction rows generalizing t i with
  | nil => simp [insertApplications, applicationDocs]
  | cons row rows ih =>
    have hrest : ∀ r ∈ rows, r ∈ form.applications := fun r hr =>
      hrows r (List.mem_cons_of_mem _ hr)
    rw [List.map_cons, insertApplications, find_row (hrows row List.mem_cons_self)] at hdone ⊢
    simp only at hdone ⊢
    cases hinsert : insertDoc (attempt.applicationFails i) t
        (applicationDoc user attempt i (toInput b row) row) with
    | none =>
      rw [hinsert] at hdone
      cases hdone
    | some t' =>
      obtain ⟨-, -, ht'⟩ := insertDoc_eq_some.mp hinsert
      rw [hinsert] at hdone
      simp only at hdone ⊢
      rw [ih hrest hdone, ht', applicationDocs, List.append_assoc, List.singleton_append]

/-- The attempt fails before anything is stored. -/
def Attempt.Refused (attempt : Attempt) (db : Local) : Prop :=
  attempt.eventFails = true ∨ (db.events.find? attempt.eventId).isSome

structure Attempt.Completes (attempt : Attempt) (db : Local) (n : Nat) : Prop where
  event : ¬ attempt.Refused db
  applications : ∀ i < n, attempt.applicationFails i = false
  fresh : (db.applications.rows.map key ++ (List.range n).map attempt.applicationIds).Nodup

structure Stored (b : Browser) (user : AuthUser) (form : BackfillForm)
    (startedIso : Option String) (attempt : Attempt) (before after : Local) : Prop where
  events : after.events.rows = before.events.rows ++ [eventDoc b user form attempt startedIso]
  applications : ∃ rows, rows.Perm form.applications ∧
    rows.Pairwise (fun r r' => startsBefore b.parse (toInput b r) (toInput b r')) ∧
    after.applications.rows = before.applications.rows ++ applicationDocs b user attempt 0 rows ∧
    (applicationDocs b user attempt 0 rows).map ApplicationDocType.sequenceNo =
      List.range' 1 form.applications.length

/-- All that an attempt to submit a valid form can do. -/
inductive Submitted (b : Browser) (user : AuthUser) (form : BackfillForm)
    (startedIso : Option String) (attempt : Attempt) (db : Local) : Outcome × Local → Prop
  | refused (h : attempt.Refused db) :
      Submitted b user form startedIso attempt db (.failed, db)
  | stored {db' : Local} (h : attempt.Completes db form.applications.length)
      (hstored : Stored b user form startedIso attempt db db') :
      Submitted b user form startedIso attempt db (.saved attempt.eventId, db')
  | stopped {db' : Local} (h : ¬ attempt.Refused db)
      (hstops : ¬ attempt.Completes db form.applications.length)
      (hevents : db'.events.rows = db.events.rows ++ [eventDoc b user form attempt startedIso]) :
      Submitted b user form startedIso attempt db (.failed, db')

theorem sequenceNos (i : Nat) (rows : List ApplicationRow) :
    (applicationDocs b user attempt i rows).map ApplicationDocType.sequenceNo =
      List.range' (i + 1) rows.length := by
  induction rows generalizing i with
  | nil => rfl
  | cons row rows ih =>
    rw [applicationDocs, List.map_cons, ih, List.length_cons, List.range'_succ]
    rfl

theorem refused_iff :
    insertDoc attempt.eventFails db.events (eventDoc b user form attempt startedIso) = none ↔
      attempt.Refused db := by
  rw [insertDoc_eq_none, Attempt.Refused, Table.find?_isSome, List.mem_map]
  rfl

theorem rowsInOrder_sorted :
    (rowsInOrder b form).Pairwise fun r r' =>
      startsBefore b.parse (toInput b r) (toInput b r') := by
  have : Std.Total fun r r' => startsBefore b.parse (toInput b r) (toInput b r') :=
    ⟨fun _ _ => le_total _ _⟩
  have : IsTrans _ fun r r' => startsBefore b.parse (toInput b r) (toInput b r') :=
    ⟨fun _ _ _ => le_trans⟩
  exact List.pairwise_insertionSort _ _

theorem handleSubmit_cases (user : AuthUser) (attempt : Attempt) (db : Local)
    (h : Valid b form startedIso sorted) :
    Submitted b user form startedIso attempt db (handleSubmit b user form attempt db) := by
  rw [handleSubmit, h.started]
  simp only [h.accepted, h.sorted_eq]
  unfold save
  have hrows : ∀ row ∈ rowsInOrder b form, row ∈ form.applications := fun row =>
    rowsInOrder_perm.mem_iff.mp
  have hdone := insertApplications_done b user attempt (i := 0) (t := db.applications) hrows
  cases hinsert : insertDoc attempt.eventFails db.events
      (eventDoc b user form attempt startedIso) with
  | none => exact .refused (refused_iff.mp hinsert)
  | some events =>
    have hrefused : ¬ attempt.Refused db := fun h => by
      rw [refused_iff.mpr h] at hinsert
      cases hinsert
    obtain ⟨-, -, hevents⟩ := insertDoc_eq_some.mp hinsert
    have happlications := insertApplications_rows b user attempt (i := 0) (t := db.applications)
      hrows
    rw [← List.range_eq_range', rowsInOrder_perm.length_eq] at hdone
    simp only
    cases hloop : insertApplications user form attempt db.applications 0
        ((rowsInOrder b form).map (toInput b)) with
    | mk applications done =>
      rw [hloop] at hdone happlications
      cases done with
      | true =>
        obtain ⟨hsucceed, hfresh⟩ := hdone.mp rfl
        exact .stored ⟨hrefused, fun i hi => hsucceed i (List.mem_range.mpr hi), hfresh⟩
          ⟨hevents, rowsInOrder b form, rowsInOrder_perm, rowsInOrder_sorted, happlications rfl,
            by rw [sequenceNos, rowsInOrder_perm.length_eq]⟩
      | false =>
        refine .stopped hrefused (fun hcompletes => ?_) hevents
        exact Bool.false_ne_true (hdone.mpr
          ⟨fun i hi => hcompletes.applications i (List.mem_range.mp hi), hcompletes.fresh⟩)

end

-- ---------------------------------------------------------------------------
-- Attempts in a row
-- ---------------------------------------------------------------------------

/-- `pending` disables the button; after a success it stays. -/
structure FormState where
  db : Local
  pending : Bool
  deriving DecidableEq

section
variable (b : Browser) (user : AuthUser) (form : BackfillForm)

def submit (s : FormState) (attempt : Attempt) : FormState :=
  if s.pending then s
  else
    match handleSubmit b user form attempt s.db with
    | (.saved _, db) => ⟨db, true⟩
    | (_, db) => ⟨db, false⟩

/-- Nothing of the form is stored as long as the attempts fail, all of it once
after one has not. -/
def AllOrNothing (startedIso : Option String) (before : Local) (s : FormState) : Prop :=
  (s.pending = false → s.db = before) ∧
    (s.pending = true → ∃ attempt, Stored b user form startedIso attempt before s.db)

end

section
variable {b : Browser} {user : AuthUser} {form : BackfillForm} {startedIso : Option String}
  {sorted : List BackfillApplicationInput} {before : Local} {s : FormState} {attempt : Attempt}

theorem submit_iff (h : Valid b form startedIso sorted)
    (hs : AllOrNothing b user form startedIso before s) :
    AllOrNothing b user form startedIso before (submit b user form s attempt) ↔
      (s.pending = false →
        attempt.Refused s.db ∨ attempt.Completes s.db form.applications.length) := by
  unfold submit
  cases hpending : s.pending with
  | true => exact iff_of_true hs nofun
  | false =>
    obtain rfl := hs.1 hpending
    have hcases := handleSubmit_cases user attempt s.db h
    rw [if_neg Bool.false_ne_true]
    generalize handleSubmit b user form attempt s.db = result at hcases
    cases hcases with
    | refused hrefused => exact iff_of_true ⟨fun _ => rfl, nofun⟩ fun _ => .inl hrefused
    | stored hcompletes hstored =>
      exact iff_of_true ⟨nofun, fun _ => ⟨attempt, hstored⟩⟩ fun _ => .inr hcompletes
    | @stopped db' hrefused hstops hevents =>
      refine iff_of_false (fun hnothing => ?_) fun hok => ?_
      · have hdb : db' = s.db := hnothing.1 rfl
        rw [hdb] at hevents
        simp at hevents
      · rcases hok rfl with hrefuses | hcompletes
        · exact hrefused hrefuses
        · exact hstops hcompletes

/-- A run of attempts is all or nothing exactly when those that fail do so at the
insert of the event. -/
theorem allOrNothing_iff (h : Valid b form startedIso sorted) (before : Local)
    (attempts : List Attempt) :
    Run.Always (submit b user form) (AllOrNothing b user form startedIso before) ⟨before, false⟩
        attempts ↔
      Run.Along (submit b user form)
        (fun s attempt => s.pending = false →
          attempt.Refused s.db ∨ attempt.Completes s.db form.applications.length)
        ⟨before, false⟩ attempts :=
  Run.always_iff_along (fun _ _ hs => submit_iff h hs) ⟨fun _ => rfl, nofun⟩

end

-- ---------------------------------------------------------------------------
-- An application that cannot be stored
-- ---------------------------------------------------------------------------

def sampleUtc : Browser := ⟨Zone.utc, fun _ => none⟩

def sampleUser : AuthUser where
  id := "aaaaaaaa-0000-4000-8000-000000000001"
  personId := "bbbbbbbb-0000-4000-8000-000000000001"

def sampleRow : ApplicationRow where
  uiId := "cccccccc-0000-4000-8000-000000000001"
  startedAt := "2026-04-27T12:10"
  endedAt := ""
  recipient := some "bbbbbbbb-0000-4000-8000-000000000002"
  note := ""
  restraintTypeIds := []
  armPositionId := none
  handPositionId := none
  handOrientationId := none

def sampleForm : BackfillForm where
  coords := some (105 / 2, 67 / 5)
  eventStartedAt := "2026-04-27T12:00"
  eventEndedAt := ""
  precision := .minute
  yearValue := ""
  monthValue := ""
  dayValue := ""
  title := ""
  note := ""
  legacyExternalRef := ""
  applications := [sampleRow]
  uiIds_nodup := by decide

def sampleStart : Option String := some "2026-04-27T12:00:00.000Z"

theorem sample_valid : Valid sampleUtc sampleForm sampleStart [toInput sampleUtc sampleRow] where
  started := by decide +kernel
  accepted := by decide +kernel

def sampleAttempt (eventFails applicationFails : Bool) (eventId : String) : Attempt where
  eventId := eventId
  applicationIds := fun _ => "dddddddd-0000-4000-8000-000000000001"
  now := "2026-04-28T08:00:00.000Z"
  eventFails := eventFails
  applicationFails := fun _ => applicationFails

def emptyLocal : Local := ⟨∅, ∅⟩

def sampleRetry : List Attempt :=
  [sampleAttempt true false "eeeeeeee-0000-4000-8000-000000000001",
    sampleAttempt false false "eeeeeeee-0000-4000-8000-000000000002"]

def sampleStopped : List Attempt :=
  [sampleAttempt false true "eeeeeeee-0000-4000-8000-000000000001",
    sampleAttempt false false "eeeeeeee-0000-4000-8000-000000000002"]

theorem allOrNothing_iff_sample :
    Run.Always (submit sampleUtc sampleUser sampleForm)
        (AllOrNothing sampleUtc sampleUser sampleForm sampleStart emptyLocal)
        ⟨emptyLocal, false⟩ sampleRetry := by
  refine (allOrNothing_iff sample_valid emptyLocal sampleRetry).mpr
    ⟨fun _ => .inl (.inl rfl), fun _ => .inr ⟨?_, ?_, ?_⟩, trivial⟩
  · unfold Attempt.Refused
    decide +kernel
  · exact fun _ _ => rfl
  · decide +kernel

/-- The failed attempt leaves its event, and after the next one there are two. -/
theorem stored_twice :
    Valid sampleUtc sampleForm sampleStart [toInput sampleUtc sampleRow] ∧
      (∀ attempt ∈ sampleStopped.head?,
        (handleSubmit sampleUtc sampleUser sampleForm attempt emptyLocal).1 = .failed ∧
          (handleSubmit sampleUtc sampleUser sampleForm attempt emptyLocal).2 ≠ emptyLocal) ∧
      (Run.run (submit sampleUtc sampleUser sampleForm) ⟨emptyLocal, false⟩
          sampleStopped).db.events.rows.map EventDocType.startedAt =
        ["2026-04-27T12:00:00.000Z", "2026-04-27T12:00:00.000Z"] :=
  ⟨sample_valid, by decide +kernel, by decide +kernel⟩

end HcMap.Backfill
