import Mathlib.Data.List.Sort
import Mathlib.Data.Rat.Floor
import HcMap.Lib.Digits
import HcMap.Sync.Docs

/-!
# The timeline of an event

`ApplicationsTimeline` of `event-detail-view.tsx`, with `duration.ts`: the
applications in their order and the pauses between them, each with its duration
in whole seconds.
-/

namespace HcMap.Pages.Timeline

open Sync (ApplicationDoc)

-- ---------------------------------------------------------------------------
-- Durations
-- ---------------------------------------------------------------------------

def pad2 (value : Nat) : List Char := Digits.pad 2 value

def formatDuration (seconds : ℚ) : List Char :=
  let safe := (max 0 ⌊seconds⌋).toNat
  let hh := safe / 3600
  let mm := safe % 3600 / 60
  let ss := safe % 60
  if hh > 0 then Nat.toDigits 10 hh ++ ':' :: pad2 mm ++ ':' :: pad2 ss
  else pad2 mm ++ ':' :: pad2 ss

def dateParse (t : Time) : ℤ := t / 1000

def wholeSeconds (ms : ℤ) : Nat := ((ms + 500) / 1000).toNat

def diffSeconds (start «end» : Time) : Nat := wholeSeconds (dateParse «end» - dateParse start)

def readDuration (text : List Char) : Nat :=
  (text.splitOn ':').foldl (fun total ds => 60 * total + Digits.value ds) 0

-- ---------------------------------------------------------------------------
-- The list
-- ---------------------------------------------------------------------------

/-- The query of `useApplications`; ties are broken by the primary key. -/
def useApplications (docs : List ApplicationDoc) (eventId : Uuid) : List ApplicationDoc :=
  (docs.filter fun d => d.eventId = eventId ∧ ¬ d.deleted).insertionSort fun d d' =>
    d.sequenceNo < d'.sequenceNo ∨ d.sequenceNo = d'.sequenceNo ∧ d.id ≤ d'.id

inductive Item
  | app (application : ApplicationDoc)
  | gap (previousId appId : Uuid) (durationSeconds : Nat)
  deriving DecidableEq

def pause (previous app : ApplicationDoc) : List Item :=
  match previous.endedAt, app.startedAt with
  | some previousEnded, some nextStarted =>
    let gapSeconds := diffSeconds previousEnded nextStarted
    if gapSeconds ≥ 1 then [.gap previous.id app.id gapSeconds] else []
  | _, _ => []

def continued (previous : ApplicationDoc) : List ApplicationDoc → List Item
  | [] => []
  | app :: apps => pause previous app ++ .app app :: continued app apps

def timeline : List ApplicationDoc → List Item
  | [] => []
  | app :: apps => .app app :: continued app apps

def Item.seconds (now : ℤ) : Item → Nat
  | .gap _ _ durationSeconds => durationSeconds
  | .app application =>
    match application.startedAt, application.endedAt with
    | some startedAt, some endedAt => diffSeconds startedAt endedAt
    | some startedAt, none => wholeSeconds (now - dateParse startedAt)
    | none, _ => 0

def Item.application? : Item → Option ApplicationDoc
  | .gap _ _ _ => none
  | .app application => some application

def Item.text (now : ℤ) (item : Item) : List Char := formatDuration (item.seconds now)

-- ---------------------------------------------------------------------------
-- Durations are read back
-- ---------------------------------------------------------------------------

theorem readDuration_intercalate {parts : List (List Char)} (hne : parts ≠ [])
    (h : ∀ part ∈ parts, Digits.allDigits part) :
    readDuration ([':'].intercalate parts) =
      parts.foldl (fun total ds => 60 * total + Digits.value ds) 0 := by
  rw [readDuration, List.splitOn_intercalate ':' _ hne]
  exact fun part hpart => Digits.not_mem_of_digits (h part hpart) (by decide)

theorem readDuration_formatDuration (n : Nat) : readDuration (formatDuration n) = n := by
  have hsafe : (max 0 ⌊(n : ℚ)⌋).toNat = n := by simp
  have hdigits : ∀ k, Digits.allDigits (pad2 k) := fun _ => Digits.allDigits_pad
  unfold formatDuration
  simp only [hsafe]
  split_ifs with hhours
  · have htext : Nat.toDigits 10 (n / 3600) ++ ':' :: pad2 (n % 3600 / 60) ++ ':' :: pad2 (n % 60) =
        [':'].intercalate [Nat.toDigits 10 (n / 3600), pad2 (n % 3600 / 60), pad2 (n % 60)] := by
      simp [List.intercalate]
    rw [htext, readDuration_intercalate (by simp)
      (by simp [Digits.allDigits_toDigits, hdigits])]
    simp only [List.foldl_cons, List.foldl_nil, pad2, Digits.value_toDigits, Digits.value_pad]
    omega
  · have htext : pad2 (n % 3600 / 60) ++ ':' :: pad2 (n % 60) =
        [':'].intercalate [pad2 (n % 3600 / 60), pad2 (n % 60)] := by
      simp [List.intercalate]
    rw [htext, readDuration_intercalate (by simp) (by simp [hdigits])]
    simp only [List.foldl_cons, List.foldl_nil, pad2, Digits.value_pad]
    omega

-- ---------------------------------------------------------------------------
-- The durations add up
-- ---------------------------------------------------------------------------

section
variable (now : ℤ)

def startOf (app : ApplicationDoc) : ℤ := (app.startedAt.map dateParse).getD 0

def endOf (app : ApplicationDoc) : ℤ := (app.endedAt.map dateParse).getD now

/-- By how much the applications end after the next one starts, together. -/
def overlaps (previous : ApplicationDoc) : List ApplicationDoc → ℤ
  | [] => 0
  | app :: apps => max 0 (endOf now previous - startOf app) + overlaps app apps

def lastEnd (previous : ApplicationDoc) : List ApplicationDoc → ℤ
  | [] => endOf now previous
  | app :: apps => lastEnd app apps

/-- No application ends before it starts, and at most the last one runs. -/
structure Timed (apps : List ApplicationDoc) : Prop where
  started : ∀ app ∈ apps, app.startedAt.isSome
  forward : ∀ app ∈ apps, startOf app ≤ endOf now app
  ended : ∀ app ∈ apps.dropLast, app.endedAt.isSome

def readTotal (items : List Item) : Nat := (items.map fun item => readDuration (item.text now)).sum

end

section
variable {now ms : ℤ} {app previous : ApplicationDoc} {apps : List ApplicationDoc}
  {items items' : List Item} {item : Item}

theorem wholeSeconds_close : |(1000 * wholeSeconds ms : ℤ) - max 0 ms| ≤ 500 := by
  unfold wholeSeconds
  rw [abs_le]
  omega

@[simp] theorem readTotal_nil : readTotal now [] = 0 := rfl

@[simp] theorem readTotal_cons :
    readTotal now (item :: items) = item.seconds now + readTotal now items := by
  simp [readTotal, Item.text, readDuration_formatDuration]

@[simp] theorem readTotal_append :
    readTotal now (items ++ items') = readTotal now items + readTotal now items' := by
  simp [readTotal]

theorem seconds_close (hstarted : app.startedAt.isSome) (hforward : startOf app ≤ endOf now app) :
    |(1000 * (Item.app app).seconds now : ℤ) - (endOf now app - startOf app)| ≤ 500 := by
  have hmax : max 0 (endOf now app - startOf app) = endOf now app - startOf app :=
    max_eq_right (by omega)
  obtain ⟨startedAt, hstart⟩ := Option.isSome_iff_exists.mp hstarted
  have hseconds : (Item.app app).seconds now = wholeSeconds (endOf now app - startOf app) := by
    cases hend : app.endedAt <;>
      simp [Item.seconds, hstart, hend, endOf, startOf, diffSeconds]
  have hclose := @wholeSeconds_close (endOf now app - startOf app)
  rwa [hmax, ← hseconds] at hclose

theorem pause_close (hended : previous.endedAt.isSome) (hstarted : app.startedAt.isSome) :
    |(1000 * readTotal now (pause previous app) : ℤ) -
      max 0 (startOf app - endOf now previous)| ≤ 500 := by
  obtain ⟨startedAt, hstart⟩ := Option.isSome_iff_exists.mp hstarted
  obtain ⟨endedAt, hend⟩ := Option.isSome_iff_exists.mp hended
  have htotal : readTotal now (pause previous app) =
      wholeSeconds (startOf app - endOf now previous) := by
    simp only [pause, hend, hstart]
    split_ifs with hgap
    · simp [Item.seconds, diffSeconds, startOf, endOf, hstart, hend]
    · have hzero : diffSeconds endedAt startedAt = 0 := by omega
      simpa [diffSeconds, startOf, endOf, hstart, hend] using hzero.symm
  rw [htotal]
  exact wholeSeconds_close

theorem Timed.tail (h : Timed now (previous :: app :: apps)) : Timed now (app :: apps) where
  started a ha := h.started a (List.mem_cons_of_mem _ ha)
  forward a ha := h.forward a (List.mem_cons_of_mem _ ha)
  ended a ha := h.ended a (by simpa using .inr ha)

theorem continued_close (h : Timed now (previous :: apps)) :
    |(1000 * readTotal now (continued previous apps) : ℤ) -
      (lastEnd now previous apps - endOf now previous + overlaps now previous apps)| ≤
        1000 * apps.length := by
  induction apps generalizing previous with
  | nil => simp [continued, lastEnd, overlaps]
  | cons app apps ih =>
    have hrest := ih h.tail
    have happ := seconds_close (h.tail.started app List.mem_cons_self)
      (h.tail.forward app List.mem_cons_self)
    have hpause := @pause_close now app previous (h.ended previous (by simp))
      (h.tail.started app List.mem_cons_self)
    rw [abs_le] at hrest happ hpause ⊢
    simp only [continued, readTotal_append, readTotal_cons, lastEnd, overlaps, List.length_cons]
    push_cast
    omega

theorem filterMap_continued :
    (continued previous apps).filterMap Item.application? = apps := by
  induction apps generalizing previous with
  | nil => rfl
  | cons app apps ih =>
    have hpause : (pause previous app).filterMap Item.application? = [] := by
      unfold pause
      cases previous.endedAt <;> cases app.startedAt <;> simp only [List.filterMap_nil]
      split_ifs <;> rfl
    rw [continued, List.filterMap_append, hpause, List.filterMap_cons, ih]
    rfl

/-- The page shows every application, and where they are timed the durations and
pauses it shows add up to the time from the first start to the end of the last,
and that by which each ends after the next one starts, but for half a second an
entry. -/
theorem timeline_adds_up (docs : List ApplicationDoc) (eventId : Uuid) (app : ApplicationDoc)
    (apps : List ApplicationDoc) (happs : useApplications docs eventId = app :: apps)
    (h : Timed now (app :: apps)) :
    (timeline (useApplications docs eventId)).filterMap Item.application? =
        useApplications docs eventId ∧
      |(1000 * readTotal now (timeline (useApplications docs eventId)) : ℤ) -
        (lastEnd now app apps - startOf app + overlaps now app apps)| ≤
          500 * (2 * apps.length + 1) := by
  rw [happs]
  constructor
  · rw [timeline, List.filterMap_cons, filterMap_continued]
    rfl
  · have hfirst := seconds_close (h.started app List.mem_cons_self)
      (h.forward app List.mem_cons_self)
    have hrest := continued_close h
    rw [abs_le] at hfirst hrest ⊢
    simp only [timeline, readTotal_cons]
    push_cast
    omega

def sampleDocs : List ApplicationDoc :=
  [{ id := 2, eventId := 7, performerId := 1, recipientId := 1, sequenceNo := 2
     startedAt := some 300000000, createdAt := 0, updatedAt := 0 },
   { id := 1, eventId := 7, performerId := 1, recipientId := 1, sequenceNo := 1
     startedAt := some 60000000, endedAt := some 180000000, createdAt := 0, updatedAt := 0 }]

example : (timeline (useApplications sampleDocs 7)).map (Item.text 400000) =
    ["02:00".toList, "02:00".toList, "01:40".toList] := by decide +kernel

theorem timeline_adds_up_sample :
    |(1000 * readTotal 400000 (timeline (useApplications sampleDocs 7)) : ℤ) - 340000| ≤ 1500 :=
  (timeline_adds_up sampleDocs 7 sampleDocs[1] [sampleDocs[0]] rfl
    ⟨by decide, by decide, by decide⟩).2

end

end HcMap.Pages.Timeline
