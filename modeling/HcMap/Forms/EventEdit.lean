import HcMap.Forms.BackfillSave
import HcMap.Forms.Overlaps

/-!
# Saving an event again

`event-edit-form.tsx`: the form shows the times of an event and its applications
to the minute, checks what it shows on every change, and saves what differs from
what it showed at first.
-/

namespace HcMap.EventEdit

open Calendar Digits DateText Backfill EventTime

-- ---------------------------------------------------------------------------
-- The form
-- ---------------------------------------------------------------------------

/-- What the form reads of the event as the server sent it. -/
structure EventDetail where
  id : String
  startedAt : String
  endedAt : Option String
  lat : ℚ
  lon : ℚ
  title : Option String
  note : Option String
  legacyExternalRef : Option String
  revealParticipants : Bool
  deriving DecidableEq

structure EditableEvent where
  endedAt : String
  title : String
  note : String
  legacyExternalRef : String
  revealParticipants : Bool
  deriving DecidableEq

structure InitialApplication where
  endedAt : String
  recipientId : String
  note : String
  restraintTypeIds : List String
  armPositionId : Option String
  handPositionId : Option String
  handOrientationId : Option String
  deriving DecidableEq

structure EditableApplication where
  id : String
  startedAt : String
  endedAt : String
  recipientId : String
  note : String
  restraintTypeIds : List String
  armPositionId : Option String
  handPositionId : Option String
  handOrientationId : Option String
  endedAtWasLocked : Bool
  initial : InitialApplication
  deriving DecidableEq

structure EditState where
  event : EditableEvent
  eventInitial : EditableEvent
  eventEndedAtWasLocked : Bool
  applications : List EditableApplication
  deriving DecidableEq

section
variable (b : Browser)

def localText (dt : DateTime) : String :=
  String.ofList (integer dt.date.year ++ '-' :: (pad 2 (dt.date.month + 1) ++ '-' ::
    (pad 2 dt.date.day ++ 'T' :: minuteText dt.time)))

def isoToLocal (value : Option String) : String :=
  if truthy value then
    match value.bind b.parse with
    | none => ""
    | some ms => localText (b.localDateTime ms)
  else ""

-- ---------------------------------------------------------------------------
-- Loading
-- ---------------------------------------------------------------------------

def liveApplications (db : Local) (eventId : String) : List ApplicationDocType :=
  (db.applications.rows.filter fun a => a.eventId = eventId ∧ ¬ a.deleted).insertionSort
    fun a a' => a.sequenceNo ≤ a'.sequenceNo

/-- `findOne` passes over what is deleted. -/
def findEvent (db : Local) (id : String) : Option EventDocType :=
  (db.events.find? id).filter fun e => !e.deleted

def findApplication (db : Local) (id : String) : Option ApplicationDocType :=
  (db.applications.find? id).filter fun a => !a.deleted

/-- The end of the event, of the local document if it has one. -/
def storedEnd (initialEvent : EventDetail) (db : Local) : Option String :=
  ((findEvent db initialEvent.id).bind EventDocType.endedAt).or initialEvent.endedAt

def loadEvent (initialEvent : EventDetail) (db : Local) : EditableEvent :=
  let eventDoc := findEvent db initialEvent.id
  { endedAt := isoToLocal b (storedEnd initialEvent db)
    title := ((eventDoc.bind EventDocType.title).or initialEvent.title).getD ""
    note := ((eventDoc.bind EventDocType.note).or initialEvent.note).getD ""
    legacyExternalRef :=
      ((eventDoc.bind EventDocType.legacyExternalRef).or initialEvent.legacyExternalRef).getD ""
    revealParticipants :=
      (eventDoc.map EventDocType.revealParticipants).getD initialEvent.revealParticipants }

def loadApplication (json : ApplicationDocType) : EditableApplication where
  id := json.id
  startedAt := isoToLocal b json.startedAt
  endedAt := isoToLocal b json.endedAt
  recipientId := json.recipientId
  note := json.note.getD ""
  restraintTypeIds := json.restraintTypeIds
  armPositionId := json.armPositionId
  handPositionId := json.handPositionId
  handOrientationId := json.handOrientationId
  endedAtWasLocked := json.endedAt.isSome
  initial :=
    { endedAt := isoToLocal b json.endedAt
      recipientId := json.recipientId
      note := json.note.getD ""
      restraintTypeIds := json.restraintTypeIds
      armPositionId := json.armPositionId
      handPositionId := json.handPositionId
      handOrientationId := json.handOrientationId }

def load (initialEvent : EventDetail) (db : Local) : EditState where
  event := loadEvent b initialEvent db
  eventInitial := loadEvent b initialEvent db
  eventEndedAtWasLocked := (storedEnd initialEvent db).isSome
  applications := (liveApplications db initialEvent.id).map (loadApplication b)

-- ---------------------------------------------------------------------------
-- Checking
-- ---------------------------------------------------------------------------

def orNull (text : String) : Option String := if text = "" then none else some text

def editInput (a : EditableApplication) : BackfillApplicationInput where
  uiId := a.id
  startedAt := localToIso b a.startedAt
  endedAt := localToIso b a.endedAt
  recipientId := orNull a.recipientId
  note := orNull a.note

/-- The start of the event is not read back from the form. -/
def liveInput (initialEvent : EventDetail) (s : EditState) : BackfillEventInput where
  startedAt := some initialEvent.startedAt
  endedAt := localToIso b s.event.endedAt
  lat := some initialEvent.lat
  lon := some initialEvent.lon
  applications := s.applications.map (editInput b)

def liveErrors (initialEvent : EventDetail) (s : EditState) : List BackfillError :=
  match validateBackfill b.parse (liveInput b initialEvent s) with
  | .ok _ => []
  | .error errors => errors

-- ---------------------------------------------------------------------------
-- Saving
-- ---------------------------------------------------------------------------

inductive EventChange
  | title (value : Option String)
  | note (value : Option String)
  | legacyExternalRef (value : Option String)
  | revealParticipants (value : Bool)
  | endedAt (value : Option String)
  deriving DecidableEq

inductive ApplicationChange
  | note (value : Option String)
  | recipientId (value : String)
  | endedAt (value : Option String)
  | restraintTypeIds (value : List String)
  | armPositionId (value : Option String)
  | handPositionId (value : Option String)
  | handOrientationId (value : Option String)
  deriving DecidableEq

inductive Patch
  | event (id : String) (changes : List EventChange) (updatedAt : String)
  | application (id : String) (changes : List ApplicationChange) (updatedAt : String)
  deriving DecidableEq

def setEquals (xs ys : List String) : Bool := xs.length = ys.length && ys.all (· ∈ xs)

/-- `if (changed) patch.field = value`. -/
def change {ε : Type} (changed : Bool) (value : ε) : List ε := if changed then [value] else []

def eventPatch (s : EditState) : List EventChange :=
  change (s.event.title ≠ s.eventInitial.title) (.title (trimmed s.event.title)) ++
    change (s.event.note ≠ s.eventInitial.note) (.note (trimmed s.event.note)) ++
    change (s.event.legacyExternalRef ≠ s.eventInitial.legacyExternalRef)
      (.legacyExternalRef (trimmed s.event.legacyExternalRef)) ++
    change (s.event.revealParticipants ≠ s.eventInitial.revealParticipants)
      (.revealParticipants s.event.revealParticipants) ++
    change (!s.eventEndedAtWasLocked && s.event.endedAt ≠ s.eventInitial.endedAt)
      (.endedAt (localToIso b s.event.endedAt))

def applicationPatch (app : EditableApplication) : List ApplicationChange :=
  change (app.note ≠ app.initial.note) (.note (trimmed app.note)) ++
    change (app.recipientId ≠ "" && app.recipientId ≠ app.initial.recipientId)
      (.recipientId app.recipientId) ++
    change (!app.endedAtWasLocked && app.endedAt ≠ app.initial.endedAt)
      (.endedAt (localToIso b app.endedAt)) ++
    change (!setEquals app.restraintTypeIds app.initial.restraintTypeIds)
      (.restraintTypeIds app.restraintTypeIds) ++
    change (app.armPositionId ≠ app.initial.armPositionId) (.armPositionId app.armPositionId) ++
    change (app.handPositionId ≠ app.initial.handPositionId) (.handPositionId app.handPositionId) ++
    change (app.handOrientationId ≠ app.initial.handOrientationId)
      (.handOrientationId app.handOrientationId)

/-- The patches of the documents that are there, if there is something in them. -/
def patches (initialEvent : EventDetail) (s : EditState) (db : Local) (now : String) :
    List Patch :=
  (if (findEvent db initialEvent.id).isSome ∧ eventPatch b s ≠ [] then
      [.event initialEvent.id (eventPatch b s) now] else []) ++
    s.applications.filterMap fun app =>
      if (findApplication db app.id).isSome ∧ applicationPatch b app ≠ [] then
        some (.application app.id (applicationPatch b app) now) else none

def handleSubmit (initialEvent : EventDetail) (s : EditState) (db : Local) (now : String) :
    Except (List BackfillError) (List Patch) :=
  if liveErrors b initialEvent s ≠ [] then .error (liveErrors b initialEvent s)
  else .ok (patches b initialEvent s db now)

end

-- ---------------------------------------------------------------------------
-- Nothing changed
-- ---------------------------------------------------------------------------

section
variable (b : Browser)

/-- What the form reads back of a stored time. -/
def shown (value : Option String) : Option Int :=
  parseTime b.parse (localToIso b (isoToLocal b value))

def storedApplication (doc : ApplicationDocType) : BackfillApplicationInput where
  uiId := doc.id
  startedAt := doc.startedAt
  endedAt := doc.endedAt
  recipientId := orNull doc.recipientId
  note := orNull (doc.note.getD "")

def storedInput (initialEvent : EventDetail) (db : Local) : BackfillEventInput where
  startedAt := some initialEvent.startedAt
  endedAt := storedEnd initialEvent db
  lat := some initialEvent.lat
  lon := some initialEvent.lon
  applications := (liveApplications db initialEvent.id).map storedApplication

def shownApplication (doc : ApplicationDocType) : BackfillApplicationInput :=
  editInput b (loadApplication b doc)

end

section
variable {b : Browser} {initialEvent : EventDetail} {db : Local} {s : EditState} {now : String}
  {doc doc' : ApplicationDocType} {value value' : Option String}

theorem setEquals_self (xs : List String) : setEquals xs xs = true := by
  simp [setEquals]

theorem applicationPatch_unchanged : applicationPatch b (loadApplication b doc) = [] := by
  simp [applicationPatch, loadApplication, change, setEquals_self]

theorem eventPatch_unchanged : eventPatch b (load b initialEvent db) = [] := by
  simp [eventPatch, load, change]

theorem patches_unchanged : patches b initialEvent (load b initialEvent db) db now = [] := by
  rw [patches, eventPatch_unchanged, load]
  simp [List.filterMap_map, applicationPatch_unchanged]

theorem liveErrors_eq_nil :
    liveErrors b initialEvent s = [] ↔ Accepts b.parse (liveInput b initialEvent s) := by
  unfold liveErrors Accepts
  cases hresult : validateBackfill b.parse (liveInput b initialEvent s) with
  | ok sorted => simp
  | error errors =>
    unfold validateBackfill at hresult
    split at hresult
    · rename_i hne
      cases hresult
      simpa using hne
    · cases hresult

theorem handleSubmit_unchanged :
    liveErrors b initialEvent (load b initialEvent db) = [] ∧
        handleSubmit b initialEvent (load b initialEvent db) db now = .ok [] ↔
      Accepts b.parse (liveInput b initialEvent (load b initialEvent db)) := by
  rw [← liveErrors_eq_nil]
  refine and_iff_left_of_imp fun h => ?_
  rw [handleSubmit, if_neg (not_not.mpr h), patches_unchanged]

theorem eventErrors_eq_nil {parse : String → Option Int} {input : BackfillEventInput} :
    eventErrors parse input = [] ↔ input.lat.isSome ∧ input.lon.isSome ∧
      (parseTime parse input.startedAt).isSome ∧
      before (parseTime parse input.endedAt) (parseTime parse input.startedAt) = false := by
  simp [eventErrors, and_assoc]

theorem applicationErrors_eq_nil {parse : String → Option Int} {input : BackfillEventInput}
    {app : BackfillApplicationInput} :
    applicationErrors parse input app = [] ↔
      (parseTime parse app.startedAt).isSome ∧ truthy app.recipientId ∧
      before (parseTime parse app.endedAt) (parseTime parse app.startedAt) = false ∧
      before (parseTime parse app.startedAt) (parseTime parse input.startedAt) = false ∧
      before (parseTime parse input.endedAt) (parseTime parse app.endedAt) = false := by
  simp [applicationErrors]

end

-- ---------------------------------------------------------------------------
-- What the form makes of stored times
-- ---------------------------------------------------------------------------

section
variable (b : Browser) (initialEvent : EventDetail) (db : Local)

/-- Of two applications the one that starts first, or else stands first in the
list, is over when the other starts. -/
def InPlace (start stop start' stop' : Option Int) : Prop :=
  if before start' start then before start stop' = false else before start' stop = false

def StartsAfter (doc doc' : ApplicationDocType) : Prop :=
  before (parseTime b.parse doc'.startedAt) (parseTime b.parse doc.startedAt) = true

/-- The instant for which the clock of the zone shows the whole minute of `ms`. -/
def minuteOf (z : Zone) (ms : Int) : Int := z.instant (minuteStart (z.wall ms))

def minute (value : Option String) : Option Int := (parseTime b.parse value).map (minuteOf b.zone)

/-- The minutes, and the start of the event, are in the order in which the
validator wants the times. -/
structure ShownInOrder : Prop where
  stop : before (minute b (storedEnd initialEvent db))
    (parseTime b.parse (some initialEvent.startedAt)) = false
  starts : ∀ doc ∈ liveApplications db initialEvent.id,
    before (minute b doc.startedAt) (parseTime b.parse (some initialEvent.startedAt)) = false
  durations : ∀ doc ∈ liveApplications db initialEvent.id,
    before (minute b doc.endedAt) (minute b doc.startedAt) = false
  stops : ∀ doc ∈ liveApplications db initialEvent.id,
    before (minute b (storedEnd initialEvent db)) (minute b doc.endedAt) = false
  pairs : (liveApplications db initialEvent.id).Pairwise fun doc doc' =>
    InPlace (minute b doc.startedAt) (minute b doc.endedAt) (minute b doc'.startedAt)
      (minute b doc'.endedAt)

/-- The event starts no later than the minutes in which it ends and in which its
applications start. Of two that start in one minute, and stand in the list the
other way round, the first is over within that minute. -/
structure MinutesInOrder : Prop where
  stop : before (minute b (storedEnd initialEvent db))
    (parseTime b.parse (some initialEvent.startedAt)) = false
  starts : ∀ doc ∈ liveApplications db initialEvent.id,
    before (minute b doc.startedAt) (parseTime b.parse (some initialEvent.startedAt)) = false
  pairs : (liveApplications db initialEvent.id).Pairwise fun doc doc' =>
    minute b doc.startedAt = minute b doc'.startedAt → StartsAfter b doc doc' →
      before (minute b doc.startedAt) (minute b doc.endedAt) = false

def storedTimes : List (Option String) :=
  storedEnd initialEvent db ::
    (liveApplications db initialEvent.id).flatMap fun doc => [doc.startedAt, doc.endedAt]

/-- The year that the clock shows has four digits. -/
def FourDigits (value : Option String) : Prop :=
  ∀ ms, parseTime b.parse value = some ms →
    1000 ≤ (b.localDateTime ms).date.year ∧ (b.localDateTime ms).date.year ≤ 9999

/-- No clock is put back between the times. -/
def Steady (values : List (Option String)) : Prop :=
  ∀ value ∈ values, ∀ value' ∈ values, ∀ ms ms', parseTime b.parse value = some ms →
    parseTime b.parse value' = some ms' → ms ≤ ms' → minuteOf b.zone ms ≤ minuteOf b.zone ms'

end

section
variable {b : Browser} {initialEvent : EventDetail} {db : Local} {values : List (Option String)}
  {doc doc' : ApplicationDocType} {value value' : Option String}

theorem localText_eq {dt : DateTime} (h : 1000 ≤ dt.date.year ∧ dt.date.year ≤ 9999) :
    localText dt = String.ofList (dateText dt.date ++ 'T' :: minuteText dt.time) := by
  have hyear : integer dt.date.year = yearText dt.date.year := by
    have habs : dt.date.year.toNat = dt.date.year.natAbs := by omega
    rw [integer, yearText, if_neg (by omega), if_pos (by omega), habs,
      pad_eq_toDigits (by omega) (by omega)]
  rw [localText, hyear, dateText, List.append_assoc, List.cons_append, List.append_assoc,
    List.cons_append]

theorem isoToLocal_of_known {ms : Int} (hms : parseTime b.parse value = some ms) :
    isoToLocal b value = localText (b.localDateTime ms) := by
  unfold parseTime at hms
  unfold isoToLocal
  split
  · rename_i htruthy
    rw [if_pos htruthy] at hms
    rw [hms]
  · rename_i hfalsy
    rw [if_neg hfalsy] at hms
    cases hms

theorem parseTime_toISOString {ms : Int} (h : -maxTime ≤ ms ∧ ms ≤ maxTime) :
    parseTime b.parse (some (toISOString ms)) = some ms := by
  have hne : toISOString ms ≠ "" := by
    intro heq
    have hchars := congrArg String.toList heq
    simp [toISOString] at hchars
  rw [parseTime, truthy, if_pos (by simpa using hne)]
  exact b.parse_toISOString h

theorem shown_of_known {ms : Int} (hms : parseTime b.parse value = some ms)
    (hyear : FourDigits b value) : shown b value = some (minuteOf b.zone ms) := by
  have hrange := hyear ms hms
  obtain ⟨hhour, hminute, hwhole⟩ := time_minuteStart (b.zone.wall ms)
  have hdate : (dateTimeOf (minuteStart (b.zone.wall ms))).date = (b.localDateTime ms).date :=
    date_minuteStart (b.zone.wall ms)
  have hclock : minuteText (dateTimeOf (minuteStart (b.zone.wall ms))).time =
      minuteText (b.localDateTime ms).time := minuteText_inj.mpr ⟨hhour, hminute⟩
  have htext : isoToLocal b value = String.ofList
      (dateText (dateTimeOf (minuteStart (b.zone.wall ms))).date ++ 'T' ::
        minuteText (dateTimeOf (minuteStart (b.zone.wall ms))).time) := by
    rw [isoToLocal_of_known hms, localText_eq hrange, hdate, hclock]
  have hyears : 1 ≤ (dateTimeOf (minuteStart (b.zone.wall ms))).date.year ∧
      (dateTimeOf (minuteStart (b.zone.wall ms))).date.year ≤ 9999 := by
    rw [hdate]
    omega
  obtain ⟨hge, hlt⟩ := b.zone.instant_bounds (minuteStart (b.zone.wall ms))
  have hmax : -maxTime ≤ b.zone.instant (minuteStart (b.zone.wall ms)) ∧
      b.zone.instant (minuteStart (b.zone.wall ms)) ≤ maxTime :=
    Browser.in_range (dateTimeOf (minuteStart (b.zone.wall ms))) (by omega) (by
      rw [number_dateTimeOf]
      unfold msPerDay at *
      omega)
  rw [shown, localToIso_minutes htext hyears hwhole, number_dateTimeOf,
    parseTime_toISOString hmax, minuteOf]

theorem shown_none (h : parseTime b.parse value = none) : shown b value = none := by
  have htext : isoToLocal b value = "" := by
    unfold parseTime at h
    unfold isoToLocal
    split
    · rename_i htruthy
      rw [if_pos htruthy] at h
      rw [h]
    · rfl
  rw [shown, htext]
  rfl

theorem shown_eq (hyear : FourDigits b value) : shown b value = minute b value := by
  cases hms : parseTime b.parse value with
  | none => simp [shown_none hms, minute, hms]
  | some ms => simp [shown_of_known hms hyear, minute, hms]

theorem before_asymm {t t' : Option Int} (h : before t t' = true) : before t' t = false := by
  cases t with
  | none => cases h
  | some v =>
    cases t' with
    | none => rfl
    | some v' => exact before_some.mpr (of_decide_eq_true h).le

@[simp] theorem isSome_minute : (minute b value).isSome = (parseTime b.parse value).isSome := by
  simp [minute]

theorem Steady.before (h : Steady b values) (hv : value ∈ values) (hv' : value' ∈ values)
    (hle : Backfill.before (parseTime b.parse value) (parseTime b.parse value') = false) :
    Backfill.before (minute b value) (minute b value') = false := by
  cases hms : parseTime b.parse value with
  | none => simp [minute, hms, Backfill.before]
  | some ms =>
    cases hms' : parseTime b.parse value' with
    | none => simp [minute, hms', Backfill.before]
    | some ms' =>
      rw [hms, hms', before_some] at hle
      have hminutes := h value' hv' value hv ms' ms hms' hms hle
      simpa [minute, hms, hms'] using hminutes

theorem storedEnd_mem : storedEnd initialEvent db ∈ storedTimes initialEvent db :=
  List.mem_cons_self

theorem start_mem (h : doc ∈ liveApplications db initialEvent.id) :
    doc.startedAt ∈ storedTimes initialEvent db :=
  List.mem_cons_of_mem _ (List.mem_flatMap.mpr ⟨doc, h, List.mem_cons_self⟩)

theorem end_mem (h : doc ∈ liveApplications db initialEvent.id) :
    doc.endedAt ∈ storedTimes initialEvent db :=
  List.mem_cons_of_mem _
    (List.mem_flatMap.mpr ⟨doc, h, List.mem_cons_of_mem _ List.mem_cons_self⟩)

theorem accepted_application (h : Accepts b.parse (storedInput initialEvent db))
    (hdoc : doc ∈ liveApplications db initialEvent.id) :
    (parseTime b.parse doc.startedAt).isSome ∧ truthy (orNull doc.recipientId) ∧
      before (parseTime b.parse doc.endedAt) (parseTime b.parse doc.startedAt) = false ∧
      before (parseTime b.parse (storedEnd initialEvent db)) (parseTime b.parse doc.endedAt) =
        false := by
  obtain ⟨hchecked, -⟩ := accepts_iff.mp h
  have happ := hchecked.applications (storedApplication doc) (List.mem_map_of_mem hdoc)
  obtain ⟨hknown, hrecipient, hduration, -, hbound⟩ := applicationErrors_eq_nil.mp happ
  exact ⟨hknown, hrecipient, hduration, hbound⟩

theorem startsBefore_iff {parse : String → Option Int} {app app' : BackfillApplicationInput}
    {start start' : Int} (hstart : parseTime parse app.startedAt = some start)
    (hstart' : parseTime parse app'.startedAt = some start') :
    startsBefore parse app app' ↔ start ≤ start' := by
  rw [startsBefore, hstart, hstart']
  rfl

theorem follows_iff {parse : String → Option Int} {app app' : BackfillApplicationInput}
    {start start' : Int} (hstart : parseTime parse app.startedAt = some start)
    (hstart' : parseTime parse app'.startedAt = some start') :
    Follows parse app app' ↔
      start ≤ start' ∧ before (some start') (parseTime parse app.endedAt) = false := by
  rw [← hstart', before_known (by rw [hstart']; rfl), Follows, startsBefore_iff hstart hstart',
    hstart']

/-- What the sort and the overlap check come to for a pair. -/
theorem inPlace_iff {parse : String → Option Int} {app app' : BackfillApplicationInput}
    (hknown : (parseTime parse app.startedAt).isSome)
    (hknown' : (parseTime parse app'.startedAt).isSome) :
    (startsBefore parse app app' → Follows parse app app') ∧
        (¬ startsBefore parse app app' → Follows parse app' app) ↔
      InPlace (parseTime parse app.startedAt) (parseTime parse app.endedAt)
        (parseTime parse app'.startedAt) (parseTime parse app'.endedAt) := by
  obtain ⟨start, hstart⟩ := Option.isSome_iff_exists.mp hknown
  obtain ⟨start', hstart'⟩ := Option.isSome_iff_exists.mp hknown'
  rw [startsBefore_iff hstart hstart', follows_iff hstart hstart', follows_iff hstart' hstart,
    hstart, hstart', InPlace]
  rcases le_or_gt start start' with hle | hlt
  · simp [before_some.mpr hle, hle]
  · have hbefore : before (some start') (some start) = true := by simp [before, hlt]
    simp [hbefore, hlt.not_ge, hlt.le]

theorem accepted_pairs (h : Accepts b.parse (storedInput initialEvent db)) :
    (liveApplications db initialEvent.id).Pairwise fun doc doc' =>
      InPlace (parseTime b.parse doc.startedAt) (parseTime b.parse doc.endedAt)
        (parseTime b.parse doc'.startedAt) (parseTime b.parse doc'.endedAt) := by
  obtain ⟨-, hpairs⟩ := accepts_iff.mp h
  refine (List.pairwise_map.mp (StableSort.pairwise_insertionSort_iff.mp hpairs)).imp_of_mem ?_
  intro doc doc' hdoc hdoc' hpair
  exact (inPlace_iff (accepted_application h hdoc).1 (accepted_application h hdoc').1).mp hpair

theorem accepts_live_iff (h : Accepts b.parse (storedInput initialEvent db))
    (hyears : ∀ value ∈ storedTimes initialEvent db, FourDigits b value) :
    Accepts b.parse (liveInput b initialEvent (load b initialEvent db)) ↔
      ShownInOrder b initialEvent db := by
  obtain ⟨hchecked, -⟩ := accepts_iff.mp h
  obtain ⟨-, -, hstart, -⟩ := eventErrors_eq_nil.mp hchecked.event
  have happs : (liveInput b initialEvent (load b initialEvent db)).applications =
      (liveApplications db initialEvent.id).map (shownApplication b) := by
    simp [liveInput, load, shownApplication]
  have hend : parseTime b.parse (liveInput b initialEvent (load b initialEvent db)).endedAt =
      minute b (storedEnd initialEvent db) := shown_eq (hyears _ storedEnd_mem)
  have hfrom : ∀ doc ∈ liveApplications db initialEvent.id,
      parseTime b.parse (shownApplication b doc).startedAt = minute b doc.startedAt :=
    fun doc hdoc => shown_eq (hyears _ (start_mem hdoc))
  have hto : ∀ doc ∈ liveApplications db initialEvent.id,
      parseTime b.parse (shownApplication b doc).endedAt = minute b doc.endedAt :=
    fun doc hdoc => shown_eq (hyears _ (end_mem hdoc))
  have hknown : ∀ doc ∈ liveApplications db initialEvent.id,
      (parseTime b.parse (shownApplication b doc).startedAt).isSome := fun doc hdoc => by
    rw [hfrom doc hdoc, isSome_minute]
    exact (accepted_application h hdoc).1
  -- the overlap check on what is shown is the one on the minutes
  have hpair : ∀ doc ∈ liveApplications db initialEvent.id,
      ∀ doc' ∈ liveApplications db initialEvent.id,
      ((startsBefore b.parse (shownApplication b doc) (shownApplication b doc') →
            Follows b.parse (shownApplication b doc) (shownApplication b doc')) ∧
          (¬ startsBefore b.parse (shownApplication b doc) (shownApplication b doc') →
            Follows b.parse (shownApplication b doc') (shownApplication b doc)) ↔
        InPlace (minute b doc.startedAt) (minute b doc.endedAt) (minute b doc'.startedAt)
          (minute b doc'.endedAt)) := fun doc hdoc doc' hdoc' => by
    rw [inPlace_iff (hknown doc hdoc) (hknown doc' hdoc'), hfrom doc hdoc, hto doc hdoc,
      hfrom doc' hdoc', hto doc' hdoc']
  rw [accepts_iff, sortApplications, StableSort.pairwise_insertionSort_iff, happs,
    List.pairwise_map]
  constructor
  · rintro ⟨hlive, hpairs⟩
    have happ : ∀ doc ∈ liveApplications db initialEvent.id, applicationErrors b.parse
        (liveInput b initialEvent (load b initialEvent db)) (shownApplication b doc) = [] :=
      fun doc hdoc => hlive.applications _ (happs ▸ List.mem_map_of_mem hdoc)
    refine ⟨?_, fun doc hdoc => ?_, fun doc hdoc => ?_, fun doc hdoc => ?_, ?_⟩
    · rw [← hend]
      exact (eventErrors_eq_nil.mp hlive.event).2.2.2
    · rw [← hfrom doc hdoc]
      exact (applicationErrors_eq_nil.mp (happ doc hdoc)).2.2.2.1
    · rw [← hfrom doc hdoc, ← hto doc hdoc]
      exact (applicationErrors_eq_nil.mp (happ doc hdoc)).2.2.1
    · rw [← hend, ← hto doc hdoc]
      exact (applicationErrors_eq_nil.mp (happ doc hdoc)).2.2.2.2
    · exact hpairs.imp_of_mem fun hdoc hdoc' => (hpair _ hdoc _ hdoc').mp
  · intro hshown
    refine ⟨⟨eventErrors_eq_nil.mpr ⟨rfl, rfl, hstart, hend ▸ hshown.stop⟩, ?_⟩,
      hshown.pairs.imp_of_mem fun hdoc hdoc' => (hpair _ hdoc _ hdoc').mpr⟩
    rw [happs]
    intro app happ
    obtain ⟨doc, hdoc, rfl⟩ := List.mem_map.mp happ
    rw [applicationErrors_eq_nil, hfrom doc hdoc, hto doc hdoc, hend, isSome_minute]
    exact ⟨(accepted_application h hdoc).1, (accepted_application h hdoc).2.1,
      hshown.durations doc hdoc, hshown.starts doc hdoc, hshown.stops doc hdoc⟩

-- ---------------------------------------------------------------------------
-- Steady times
-- ---------------------------------------------------------------------------

/-- Of two applications in order, the minutes are in order too, but where they
start in one minute and stand the other way round. -/
theorem pair_iff (hsteady : Steady b (storedTimes initialEvent db))
    (hdoc : doc ∈ liveApplications db initialEvent.id)
    (hdoc' : doc' ∈ liveApplications db initialEvent.id)
    (hknown : (parseTime b.parse doc.startedAt).isSome)
    (hknown' : (parseTime b.parse doc'.startedAt).isSome)
    (hstored : InPlace (parseTime b.parse doc.startedAt) (parseTime b.parse doc.endedAt)
      (parseTime b.parse doc'.startedAt) (parseTime b.parse doc'.endedAt)) :
    InPlace (minute b doc.startedAt) (minute b doc.endedAt) (minute b doc'.startedAt)
        (minute b doc'.endedAt) ↔
      (minute b doc.startedAt = minute b doc'.startedAt → StartsAfter b doc doc' →
        before (minute b doc.startedAt) (minute b doc.endedAt) = false) := by
  obtain ⟨s, hs⟩ := Option.isSome_iff_exists.mp ((isSome_minute (b := b)).trans hknown)
  obtain ⟨s', hs'⟩ := Option.isSome_iff_exists.mp ((isSome_minute (b := b)).trans hknown')
  unfold InPlace at hstored ⊢
  by_cases hafter : before (parseTime b.parse doc'.startedAt) (parseTime b.parse doc.startedAt)
  · rw [if_pos hafter] at hstored
    have hover := hsteady.before (start_mem hdoc) (end_mem hdoc') hstored
    have hle := hsteady.before (start_mem hdoc) (start_mem hdoc') (before_asymm hafter)
    rw [hs] at hover ⊢
    rw [hs, hs', before_some] at hle
    rw [hs', Option.some.injEq]
    rcases hle.lt_or_eq with hlt | rfl
    · have hstarts : before (some s') (some s) = true := decide_eq_true hlt
      rw [if_pos hstarts]
      exact iff_of_true hover fun heq => absurd heq hlt.ne'
    · -- both start in the minute `s'`, and the list has the later one first
      rw [if_neg (by simp)]
      exact ⟨fun hpair _ _ => hpair, fun hmoment => hmoment rfl hafter⟩
  · rw [if_neg hafter] at hstored
    have hover := hsteady.before (start_mem hdoc') (end_mem hdoc) hstored
    have hle := hsteady.before (start_mem hdoc') (start_mem hdoc) (by simpa using hafter)
    rw [if_neg (by simp [hle])]
    exact iff_of_true hover fun _ hstarts => absurd hstarts hafter

theorem shown_iff_minutes (hsteady : Steady b (storedTimes initialEvent db))
    (h : Accepts b.parse (storedInput initialEvent db)) :
    ShownInOrder b initialEvent db ↔ MinutesInOrder b initialEvent db := by
  have hstored := accepted_pairs h
  constructor
  · intro hshown
    refine ⟨hshown.stop, hshown.starts, (hstored.and hshown.pairs).imp_of_mem ?_⟩
    rintro doc doc' hdoc hdoc' ⟨hinPlace, hpair⟩
    exact (pair_iff hsteady hdoc hdoc' (accepted_application h hdoc).1
      (accepted_application h hdoc').1 hinPlace).mp hpair
  · intro hminutes
    refine ⟨hminutes.stop, hminutes.starts, fun doc hdoc => ?_, fun doc hdoc => ?_,
      (hstored.and hminutes.pairs).imp_of_mem ?_⟩
    · exact hsteady.before (end_mem hdoc) (start_mem hdoc) (accepted_application h hdoc).2.2.1
    · exact hsteady.before storedEnd_mem (end_mem hdoc) (accepted_application h hdoc).2.2.2
    · rintro doc doc' hdoc hdoc' ⟨hinPlace, hpair⟩
      exact (pair_iff hsteady hdoc hdoc' (accepted_application h hdoc).1
        (accepted_application h hdoc').1 hinPlace).mpr hpair

theorem steady_fixed {offset : Int} {hoffset : -msPerDay < offset ∧ offset < msPerDay}
    (hzone : b.zone = Zone.fixed offset hoffset) : Steady b values := by
  intro value hvalue value' hvalue' ms ms' hms hms' hle
  rw [hzone]
  have hwall : ms + offset ≤ ms' + offset := by omega
  exact Int.sub_le_sub_right (minuteStart_mono hwall) offset

/-- The unchanged form has no error and saves nothing exactly when the minutes of
the stored times are in order. With one offset that is: the event does not start
after the minutes in which it ends or an application starts, and applications
that start in one minute stand in order or are over in it. -/
theorem unchanged_resave_iff {now : String}
    (h : Accepts b.parse (storedInput initialEvent db))
    (hyears : ∀ value ∈ storedTimes initialEvent db, FourDigits b value) :
    (liveErrors b initialEvent (load b initialEvent db) = [] ∧
        handleSubmit b initialEvent (load b initialEvent db) db now = .ok [] ↔
      ShownInOrder b initialEvent db) ∧
    ∀ offset hoffset, b.zone = Zone.fixed offset hoffset →
      (liveErrors b initialEvent (load b initialEvent db) = [] ∧
          handleSubmit b initialEvent (load b initialEvent db) db now = .ok [] ↔
        MinutesInOrder b initialEvent db) := by
  have hshown : liveErrors b initialEvent (load b initialEvent db) = [] ∧
      handleSubmit b initialEvent (load b initialEvent db) db now = .ok [] ↔
        ShownInOrder b initialEvent db :=
    handleSubmit_unchanged.trans (accepts_live_iff h hyears)
  exact ⟨hshown, fun _ _ hzone => hshown.trans (shown_iff_minutes (steady_fixed hzone) h)⟩

end

-- ---------------------------------------------------------------------------
-- Seconds of the event's start
-- ---------------------------------------------------------------------------

def sampleEvent : EventDetail where
  id := "eeeeeeee-0000-4000-8000-000000000001"
  startedAt := "2026-04-27T12:00:30.000Z"
  endedAt := none
  lat := 105 / 2
  lon := 67 / 5
  title := none
  note := none
  legacyExternalRef := none
  revealParticipants := false

def sampleDoc (startedAt : String) : ApplicationDocType where
  id := "dddddddd-0000-4000-8000-000000000001"
  eventId := "eeeeeeee-0000-4000-8000-000000000001"
  performerId := "bbbbbbbb-0000-4000-8000-000000000001"
  recipientId := "bbbbbbbb-0000-4000-8000-000000000002"
  armPositionId := none
  handPositionId := none
  handOrientationId := none
  sequenceNo := 1
  startedAt := some startedAt
  endedAt := none
  note := none
  createdBy := some "aaaaaaaa-0000-4000-8000-000000000001"
  createdAt := "2026-04-27T12:00:45.000Z"
  updatedAt := "2026-04-27T12:00:45.000Z"
  deletedAt := none
  deleted := false
  restraintTypeIds := []

def sampleLocal (startedAt : String) : Local := ⟨∅, ⟨[sampleDoc startedAt], by simp⟩⟩

theorem sample_accepted (startedAt : String)
    (h : validateBackfill sampleUtc.parse (storedInput sampleEvent (sampleLocal startedAt)) =
      .ok [storedApplication (sampleDoc startedAt)]) :
    Accepts sampleUtc.parse (storedInput sampleEvent (sampleLocal startedAt)) := ⟨_, h⟩

theorem unchanged_resave_iff_sample :
    liveErrors sampleUtc sampleEvent
        (load sampleUtc sampleEvent (sampleLocal "2026-04-27T12:01:45.000Z")) = [] ∧
      EventEdit.handleSubmit sampleUtc sampleEvent
          (load sampleUtc sampleEvent (sampleLocal "2026-04-27T12:01:45.000Z"))
          (sampleLocal "2026-04-27T12:01:45.000Z") "2026-04-28T08:00:00.000Z" = .ok [] := by
  have hstart :
      parseTime sampleUtc.parse (some "2026-04-27T12:01:45.000Z") = some 1777291305000 := by
    decide +kernel
  have hyears : ∀ value ∈ storedTimes sampleEvent (sampleLocal "2026-04-27T12:01:45.000Z"),
      FourDigits sampleUtc value := by
    refine List.forall_iff_forall_mem.mp ⟨?_, ?_, ?_⟩
    · exact fun _ hms => by cases hms
    · intro ms hms
      cases hstart.symm.trans hms
      decide +kernel
    · exact fun _ hms => by cases hms
  refine ((unchanged_resave_iff (sample_accepted _ (by decide +kernel)) hyears).2 0 (by decide)
    rfl).mpr ⟨by decide +kernel, List.forall_iff_forall_mem.mp ?_, List.pairwise_singleton ..⟩
  decide +kernel

/-- Fifteen seconds after the event the application starts, and is shown in the
minute in which the event had not. -/
theorem shown_before_event :
    Accepts sampleUtc.parse (storedInput sampleEvent (sampleLocal "2026-04-27T12:00:45.000Z")) ∧
      liveErrors sampleUtc sampleEvent
          (load sampleUtc sampleEvent (sampleLocal "2026-04-27T12:00:45.000Z")) =
        [.application "dddddddd-0000-4000-8000-000000000001" .bounds
          "Application beginnt vor dem Event-Start."] :=
  ⟨sample_accepted _ (by decide +kernel), by decide +kernel⟩

end HcMap.EventEdit
