import HcMap.Map.UrlState

/-!
# The events on the map

`map/event-marker-data.ts` and `map/event-filter.ts`: the documents that can be
drawn, the filter over them, and the GeoJSON that the map shows. `useMemo` in
`map-view.tsx` puts them together.
-/

namespace HcMap.Map

open Calendar DateText Query

-- ---------------------------------------------------------------------------
-- Markers
-- ---------------------------------------------------------------------------

/-- An event document as it is stored locally. A coordinate that is not finite
is `none`. -/
structure EventDocType where
  id : String
  lat : Option ℚ
  lon : Option ℚ
  startedAt : String
  endedAt : Option String
  title : Option String
  note : Option String
  timePrecision : Option String
  revealParticipants : Bool
  deleted : Bool

structure MappableEvent where
  id : String
  lat : ℚ
  lon : ℚ
  startedAt : String
  endedAt : Option String
  title : Option String
  note : Option String
  timePrecision : String
  revealParticipants : Bool

structure MappableEventFeature where
  coordinates : ℚ × ℚ
  id : String
  startedAt : String
  endedAt : Option String
  revealParticipants : Bool

def mappable (doc : EventDocType) : Option (ℚ × ℚ) :=
  if doc.deleted then none
  else
    match doc.lat, doc.lon with
    | some lat, some lon =>
      if lat < -90 ∨ 90 < lat then none
      else if lon < -180 ∨ 180 < lon then none
      else some (lat, lon)
    | _, _ => none

def isMappableEvent (doc : EventDocType) : Bool := (mappable doc).isSome

def selectMappableEvents (docs : List EventDocType) : List MappableEvent :=
  docs.filterMap fun doc =>
    (mappable doc).map fun (lat, lon) =>
      { id := doc.id, lat, lon, startedAt := doc.startedAt, endedAt := doc.endedAt
        title := doc.title, note := doc.note, timePrecision := doc.timePrecision.getD "minute"
        revealParticipants := doc.revealParticipants }

def toFeature (event : MappableEvent) : MappableEventFeature where
  coordinates := (event.lon, event.lat)
  id := event.id
  startedAt := event.startedAt
  endedAt := event.endedAt
  revealParticipants := event.revealParticipants

def eventsToGeoJSON (events : List MappableEvent) : List MappableEventFeature :=
  events.map toFeature

-- ---------------------------------------------------------------------------
-- Participants
-- ---------------------------------------------------------------------------

structure ParticipantRow where
  eventId : String
  personId : String
  deleted : Bool

abbrev ParticipantsIndex := String → Option (List String)

def addToSet (bucket : List String) (person : String) : List String :=
  if person ∈ bucket then bucket else bucket ++ [person]

def addRow (index : ParticipantsIndex) (row : ParticipantRow) : ParticipantsIndex :=
  if row.deleted then index
  else fun event =>
    if event = row.eventId then some (addToSet ((index row.eventId).getD []) row.personId)
    else index event

def buildParticipantsIndex (rows : List ParticipantRow) : ParticipantsIndex :=
  rows.foldl addRow fun _ => none

def hasIntersection (needle haystack : List String) : Bool :=
  needle.any fun id => toLowerCase id ∈ haystack || id ∈ haystack

-- ---------------------------------------------------------------------------
-- The filter
-- ---------------------------------------------------------------------------

section
variable (b : Browser)

/-- A bound that is set, in milliseconds; the inner `none` is `NaN`. An empty
text is as good as `null`. -/
def dayBound (suffix : String) (date : Option String) : Option (Option Int) :=
  date.bind fun date => if date = "" then none else some (b.parse (date ++ suffix))

/-- Nothing is smaller or greater than `NaN`. -/
def inPeriod (fromDate toDate : Option String) (startedAt : String) : Bool :=
  let fromTs := dayBound b "T00:00:00Z" fromDate
  let toTs := dayBound b "T23:59:59.999Z" toDate
  if fromTs.isNone ∧ toTs.isNone then true
  else
    match b.parse startedAt with
    | none => false
    | some startedTs => !fromTs.join.any (startedTs < ·) && !toTs.join.any (· < startedTs)

def takesPart (ids : List String) (index : ParticipantsIndex) (event : String) : Bool :=
  if 0 < ids.length then
    match index event with
    | none => false
    | some persons => hasIntersection (ids.map toLowerCase).eraseDups persons
  else true

def applyEventFilter (events : List MappableEvent) (filters : MapFilters)
    (index : ParticipantsIndex) : List MappableEvent :=
  events.filter fun event =>
    inPeriod b filters.fromDate filters.toDate event.startedAt &&
      takesPart filters.participantIds index event.id

end

def filtersAreEmpty (filters : MapFilters) : Bool :=
  filters.fromDate.isNone && filters.toDate.isNone && filters.participantIds.length = 0

def markers (b : Browser) (docs : List EventDocType) (rows : List ParticipantRow)
    (filters : MapFilters) : List MappableEventFeature :=
  let allEvents := selectMappableEvents docs
  eventsToGeoJSON
    (if filtersAreEmpty filters then allEvents
    else applyEventFilter b allEvents filters (buildParticipantsIndex rows))

-- ---------------------------------------------------------------------------
-- What the filter means
-- ---------------------------------------------------------------------------

/-- The UTC day `day` is between the dates that are set, both included. -/
def Within (fromDate toDate : Option Date) (day : Int) : Prop :=
  (∀ d ∈ fromDate, d.number ≤ day) ∧ ∀ d ∈ toDate, day ≤ d.number

def Begun (b : Browser) (fromDate toDate : Option Date) (startedAt : String) : Prop :=
  fromDate = none ∧ toDate = none ∨
    ∃ ts, b.parse startedAt = some ts ∧ Within fromDate toDate (ts / msPerDay)

def Attended (rows : List ParticipantRow) (ids : List String) (event : String) : Prop :=
  ids = [] ∨ ∃ row ∈ rows, row.deleted = false ∧ row.eventId = event ∧
    ∃ id ∈ ids, row.personId = toLowerCase id

structure Drawn (doc : EventDocType) (lat lon : ℚ) : Prop where
  live : doc.deleted = false
  lat_range : -90 ≤ lat ∧ lat ≤ 90
  lon_range : -180 ≤ lon ∧ lon ≤ 180
  lat : doc.lat = some lat
  lon : doc.lon = some lon

def dateParam (d : Date) : String := String.ofList (dateText d)

def IsDay (date : Option String) : Prop :=
  ∀ text ∈ date, ∃ d : Date, (0 ≤ d.year ∧ d.year ≤ 9999) ∧ text = dateParam d

section
variable {b : Browser} {rows : List ParticipantRow} {ids : List String} {event : String}
  {fromDate toDate : Option Date} {filters : MapFilters} {docs : List EventDocType} {d : Date}

theorem mappable_eq_some {doc : EventDocType} {lat lon : ℚ} :
    mappable doc = some (lat, lon) ↔ Drawn doc lat lon := by
  unfold mappable
  constructor
  · intro h
    split at h
    · cases h
    · rename_i hlive
      split at h
      · rename_i lat' lon' hlat hlon
        split at h
        · cases h
        · rename_i hlatRange
          split at h
          · cases h
          · rename_i hlonRange
            obtain ⟨rfl, rfl⟩ := Prod.mk.inj (Option.some.inj h)
            simp only [not_or, not_lt] at hlatRange hlonRange
            exact ⟨by simpa using hlive, hlatRange, hlonRange, hlat, hlon⟩
      · cases h
  · intro h
    rw [if_neg (by simp [h.live]), h.lat, h.lon]
    simp only [if_neg (not_or.mpr ⟨not_lt.mpr h.lat_range.1, not_lt.mpr h.lat_range.2⟩),
      if_neg (not_or.mpr ⟨not_lt.mpr h.lon_range.1, not_lt.mpr h.lon_range.2⟩)]

theorem mem_addToSet {bucket : List String} {person person' : String} :
    person ∈ addToSet bucket person' ↔ person' = person ∨ person ∈ bucket := by
  unfold addToSet
  split
  · rename_i hmem
    exact ⟨.inr, fun h => h.elim (fun heq => heq ▸ hmem) id⟩
  · simp [or_comm, eq_comm]

theorem mem_addRow {index : ParticipantsIndex} {row : ParticipantRow} {person : String} :
    (∃ persons, addRow index row event = some persons ∧ person ∈ persons) ↔
      (row.deleted = false ∧ row.eventId = event ∧ row.personId = person) ∨
        ∃ persons, index event = some persons ∧ person ∈ persons := by
  unfold addRow
  by_cases hdeleted : row.deleted
  · simp [hdeleted]
  · by_cases hevent : event = row.eventId
    · subst hevent
      cases hindex : index row.eventId <;> simp [hdeleted, mem_addToSet]
    · simp [hdeleted, hevent, Ne.symm hevent]

theorem mem_buildParticipantsIndex {person : String} :
    (∃ persons, buildParticipantsIndex rows event = some persons ∧ person ∈ persons) ↔
      ∃ row ∈ rows, row.deleted = false ∧ row.eventId = event ∧ row.personId = person := by
  have hfold : ∀ index : ParticipantsIndex,
      (∃ persons, rows.foldl addRow index event = some persons ∧ person ∈ persons) ↔
        (∃ row ∈ rows, row.deleted = false ∧ row.eventId = event ∧ row.personId = person) ∨
          ∃ persons, index event = some persons ∧ person ∈ persons := by
    induction rows with
    | nil => simp
    | cons row rows ih =>
      intro index
      simp only [List.foldl_cons, ih, mem_addRow, List.mem_cons, exists_eq_or_imp]
      exact or_left_comm.trans or_assoc.symm
  rw [buildParticipantsIndex, hfold]
  simp

theorem hasIntersection_iff {needle haystack : List String}
    (hlower : ∀ id ∈ needle, toLowerCase id = id) :
    hasIntersection needle haystack ↔ ∃ id ∈ needle, id ∈ haystack := by
  unfold hasIntersection
  rw [List.any_eq_true]
  refine exists_congr fun id => and_congr_right fun hid => ?_
  simp [hlower id hid]

theorem takesPart_iff (hlower : ∀ id ∈ ids, toLowerCase (toLowerCase id) = toLowerCase id) :
    takesPart ids (buildParticipantsIndex rows) event ↔ Attended rows ids event := by
  have hneedle : ∀ id ∈ (ids.map toLowerCase).eraseDups, toLowerCase id = id := by
    intro id hid
    obtain ⟨id', hid', rfl⟩ := List.mem_map.mp (List.mem_eraseDups.mp hid)
    exact hlower id' hid'
  unfold takesPart Attended
  by_cases hids : ids = []
  · simp [hids]
  · rw [if_pos (List.length_pos_iff.mpr hids)]
    simp only [hids, false_or]
    calc (match buildParticipantsIndex rows event with
          | none => false
          | some persons => hasIntersection (ids.map toLowerCase).eraseDups persons) = true
        ↔ ∃ person ∈ ids.map toLowerCase,
            ∃ persons, buildParticipantsIndex rows event = some persons ∧ person ∈ persons := by
          cases hindex : buildParticipantsIndex rows event with
          | none => simp
          | some persons =>
            simp only [hasIntersection_iff hneedle, List.mem_eraseDups, Option.some.injEq,
              exists_eq_left']
      _ ↔ _ := by
          simp only [mem_buildParticipantsIndex, List.mem_map]
          constructor
          · rintro ⟨_, ⟨id, hid, rfl⟩, row, hrow, hdeleted, hevent, hperson⟩
            exact ⟨row, hrow, hdeleted, hevent, id, hid, hperson⟩
          · rintro ⟨row, hrow, hdeleted, hevent, id, hid, hperson⟩
            exact ⟨_, ⟨id, hid, rfl⟩, row, hrow, hdeleted, hevent, hperson⟩

theorem parse_utc (b : Browser) (cs : List Char) {t : Calendar.Time}
    (hyear : 0 ≤ d.year ∧ d.year ≤ 9999) (htime : readTime cs = some (t, ['Z'])) :
    b.parse (dateParam d ++ String.ofList ('T' :: cs)) = some (DateTime.number ⟨d, t⟩) := by
  have hread : readDateTime (dateParam d ++ String.ofList ('T' :: cs)).toList =
      some (⟨d, t⟩, true) := by
    rw [String.toList_append, dateParam, String.toList_ofList, String.toList_ofList]
    simp only [readDateTime, readDate_dateText (d := d) (by omega), htime, Option.bind_eq_bind,
      Option.bind_some]
  have hrange : -maxTime ≤ DateTime.number ⟨d, t⟩ ∧ DateTime.number ⟨d, t⟩ ≤ maxTime :=
    Browser.in_range ⟨d, t⟩ hyear (by
      unfold msPerDay
      omega)
  rw [Browser.parse, hread]
  simp only [timeClip, if_pos hrange]

def lastMoment : Calendar.Time := ⟨23, 59, 59, 999, by decide, by decide, by decide, by decide⟩

theorem dateParam_ne_empty (d : Date) : dateParam d ≠ "" := by
  intro h
  have htext : (dateParam d).toList = [] := by rw [h]; rfl
  rw [dateParam, String.toList_ofList] at htext
  unfold dateText at htext
  simp at htext

theorem dayBound_from (hyear : 0 ≤ d.year ∧ d.year ≤ 9999) :
    dayBound b "T00:00:00Z" (some (dateParam d)) = some (some (d.number * msPerDay)) := by
  have hparse := parse_utc b "00:00:00Z".toList hyear
    (show readTime _ = some (midnight, ['Z']) by decide)
  have hnumber : DateTime.number ⟨d, midnight⟩ = d.number * msPerDay := by
    show d.number * msPerDay + midnight.number = _
    rw [show midnight.number = 0 from by decide, Int.add_zero]
  rw [dayBound, Option.bind_some, if_neg (dateParam_ne_empty d), ← hnumber]
  exact congrArg some hparse

theorem dayBound_to (hyear : 0 ≤ d.year ∧ d.year ≤ 9999) :
    dayBound b "T23:59:59.999Z" (some (dateParam d)) =
      some (some (d.number * msPerDay + (msPerDay - 1))) := by
  have hparse := parse_utc b "23:59:59.999Z".toList hyear
    (show readTime _ = some (lastMoment, ['Z']) by decide)
  have hnumber : DateTime.number ⟨d, lastMoment⟩ = d.number * msPerDay + (msPerDay - 1) := by
    show d.number * msPerDay + lastMoment.number = _
    rw [show lastMoment.number = msPerDay - 1 from by decide]
  rw [dayBound, Option.bind_some, if_neg (dateParam_ne_empty d), ← hnumber]
  exact congrArg some hparse

theorem inPeriod_iff (hfrom : ∀ d ∈ fromDate, 0 ≤ d.year ∧ d.year ≤ 9999)
    (hto : ∀ d ∈ toDate, 0 ≤ d.year ∧ d.year ≤ 9999) {startedAt : String} :
    inPeriod b (fromDate.map dateParam) (toDate.map dateParam) startedAt ↔
      Begun b fromDate toDate startedAt := by
  have hfromTs : dayBound b "T00:00:00Z" (fromDate.map dateParam) =
      fromDate.map fun d => some (d.number * msPerDay) := by
    cases hd : fromDate with
    | none => rfl
    | some d => exact dayBound_from (hfrom d hd)
  have htoTs : dayBound b "T23:59:59.999Z" (toDate.map dateParam) =
      toDate.map fun d => some (d.number * msPerDay + (msPerDay - 1)) := by
    cases hd : toDate with
    | none => rfl
    | some d => exact dayBound_to (hto d hd)
  have hge : ∀ d : Date, ∀ ts : Int, d.number * msPerDay ≤ ts ↔ d.number ≤ ts / msPerDay := by
    intro d ts
    unfold msPerDay
    omega
  have hle : ∀ d : Date, ∀ ts : Int,
      ts ≤ d.number * msPerDay + (msPerDay - 1) ↔ ts / msPerDay ≤ d.number := by
    intro d ts
    unfold msPerDay
    omega
  unfold inPeriod Begun Within
  rw [hfromTs, htoTs]
  cases fromDate with
  | none =>
    cases toDate with
    | none => simp
    | some d =>
      cases b.parse startedAt with
      | none => simp
      | some ts => simp [hle]
  | some d =>
    cases toDate with
    | none =>
      cases b.parse startedAt with
      | none => simp
      | some ts => simp [hge]
    | some d' =>
      cases b.parse startedAt with
      | none => simp
      | some ts => simp [hge, hle]

theorem mem_selectMappableEvents {event : MappableEvent} :
    event ∈ selectMappableEvents docs ↔ ∃ doc ∈ docs, ∃ lat lon, Drawn doc lat lon ∧
      event =
        { id := doc.id, lat, lon, startedAt := doc.startedAt, endedAt := doc.endedAt
          title := doc.title, note := doc.note, timePrecision := doc.timePrecision.getD "minute"
          revealParticipants := doc.revealParticipants } := by
  simp only [selectMappableEvents, List.mem_filterMap, Option.map_eq_some_iff, Prod.exists,
    mappable_eq_some]
  refine exists_congr fun doc => and_congr_right fun _ => ?_
  exact exists_congr fun lat => exists_congr fun lon => and_congr_right fun _ => eq_comm

/-- Without a filter the shortcut does what the filter would. -/
theorem markers_eq (filters : MapFilters) :
    markers b docs rows filters = eventsToGeoJSON
      (applyEventFilter b (selectMappableEvents docs) filters (buildParticipantsIndex rows)) := by
  unfold markers
  by_cases hempty : filtersAreEmpty filters
  · have hall : applyEventFilter b (selectMappableEvents docs) filters
        (buildParticipantsIndex rows) = selectMappableEvents docs := by
      simp only [filtersAreEmpty, Bool.and_eq_true, Option.isNone_iff_eq_none, decide_eq_true_eq,
        List.length_eq_zero_iff] at hempty
      obtain ⟨⟨hfrom, hto⟩, hids⟩ := hempty
      refine List.filter_eq_self.mpr fun event _ => ?_
      simp [inPeriod, dayBound, takesPart, hfrom, hto, hids]
    simp only [if_pos hempty, hall]
  · simp only [if_neg hempty]

/-- The markers on the map are the live documents on the globe that began, in
UTC, on a day of the period, and in which one of the persons takes part by a
live row. They are in the order of the documents. -/
theorem mem_markers {feature : MappableEventFeature}
    (hfrom : ∀ d ∈ fromDate, 0 ≤ d.year ∧ d.year ≤ 9999)
    (hto : ∀ d ∈ toDate, 0 ≤ d.year ∧ d.year ≤ 9999) (hids : ∀ id ∈ ids, isUuid id.toList) :
    (feature ∈ markers b docs rows ⟨fromDate.map dateParam, toDate.map dateParam, ids⟩ ↔
      ∃ doc ∈ docs, ∃ lat lon, Drawn doc lat lon ∧ Begun b fromDate toDate doc.startedAt ∧
        Attended rows ids doc.id ∧
        feature = ⟨(lon, lat), doc.id, doc.startedAt, doc.endedAt, doc.revealParticipants⟩) ∧
      ((markers b docs rows ⟨fromDate.map dateParam, toDate.map dateParam, ids⟩).map
        MappableEventFeature.id).Sublist (docs.map EventDocType.id) := by
  rw [markers_eq]
  constructor
  · simp only [eventsToGeoJSON, applyEventFilter, List.mem_map, List.mem_filter,
      mem_selectMappableEvents, Bool.and_eq_true, inPeriod_iff hfrom hto,
      takesPart_iff fun id hid => lower_lower (hids id hid)]
    constructor
    · rintro ⟨_, ⟨⟨doc, hdoc, lat, lon, hdrawn, rfl⟩, hbegun, hattended⟩, rfl⟩
      exact ⟨doc, hdoc, lat, lon, hdrawn, hbegun, hattended, rfl⟩
    · rintro ⟨doc, hdoc, lat, lon, hdrawn, hbegun, hattended, rfl⟩
      exact ⟨_, ⟨⟨doc, hdoc, lat, lon, hdrawn, rfl⟩, hbegun, hattended⟩, rfl⟩
  · have hselected : ((selectMappableEvents docs).map MappableEvent.id).Sublist
        (docs.map EventDocType.id) := by
      induction docs with
      | nil => exact List.Sublist.refl _
      | cons doc docs ih =>
        unfold selectMappableEvents at ih ⊢
        cases hdoc : mappable doc with
        | none => simpa [hdoc] using ih.cons doc.id
        | some place => simpa [hdoc] using ih
    have hkept := (List.filter_sublist (p := fun event : MappableEvent =>
      inPeriod b (fromDate.map dateParam) (toDate.map dateParam) event.startedAt &&
        takesPart ids (buildParticipantsIndex rows) event.id)
      (l := selectMappableEvents docs)).map MappableEvent.id
    have hmap : (eventsToGeoJSON (applyEventFilter b (selectMappableEvents docs)
        ⟨fromDate.map dateParam, toDate.map dateParam, ids⟩ (buildParticipantsIndex rows))).map
          MappableEventFeature.id =
        (applyEventFilter b (selectMappableEvents docs)
          ⟨fromDate.map dateParam, toDate.map dateParam, ids⟩
          (buildParticipantsIndex rows)).map MappableEvent.id := by
      rw [eventsToGeoJSON, List.map_map]
      rfl
    rw [hmap]
    exact hkept.trans hselected

theorem IsDay.accepted {date : Option String} (h : IsDay date) (b' : Browser)
    (hdate : parseIsoDate b date = date) : parseIsoDate b' date = date := by
  cases date with
  | none => rfl
  | some text =>
    obtain ⟨d, hyear, rfl⟩ := h text rfl
    have hparse := parse_utc b' "00:00:00Z".toList hyear
      (show readTime _ = some (midnight, ['Z']) by decide)
    have hread : (b'.parse (dateParam d ++ "T00:00:00Z")).isSome :=
      Option.isSome_iff_exists.mpr ⟨_, hparse⟩
    rw [parseIsoDate, Option.bind_some, if_pos ⟨isoDate_of_accepted hdate, hread⟩]

end

def sampleDoc : EventDocType where
  id := "e"
  lat := some 52
  lon := some 13
  startedAt := "2026-04-01T23:59:59.500Z"
  endedAt := none
  title := none
  note := none
  timePrecision := none
  revealParticipants := true
  deleted := false

def sampleRow : ParticipantRow := ⟨"e", "aaaaaaaa-bbbb-cccc-dddd-eeeeeeeeeeee", false⟩

def sampleDay : Date := dateOf 20544

theorem sampleDoc_marked :
    (⟨(13, 52), "e", "2026-04-01T23:59:59.500Z", none, true⟩ : MappableEventFeature) ∈
      markers sampleBrowser [sampleDoc] [sampleRow]
        ⟨some (dateParam sampleDay), some (dateParam sampleDay),
          ["AAAAAAAA-BBBB-CCCC-DDDD-EEEEEEEEEEEE"]⟩ := by
  have hyear : ∀ d ∈ some sampleDay, 0 ≤ d.year ∧ d.year ≤ 9999 := by
    rintro d ⟨⟩
    decide
  have hids : ∀ id ∈ ["AAAAAAAA-BBBB-CCCC-DDDD-EEEEEEEEEEEE"], isUuid id.toList := by
    decide +kernel
  refine (mem_markers hyear hyear hids).1.mpr
    ⟨sampleDoc, List.mem_singleton_self _, 52, 13, ?_, ?_, ?_, rfl⟩
  · constructor <;> norm_num [sampleDoc]
  · refine .inr ⟨1775087999500, by decide +kernel, ?_, ?_⟩ <;> · rintro d ⟨⟩; decide +kernel
  · exact .inr ⟨sampleRow, List.mem_singleton_self _, rfl, rfl, _, List.mem_singleton_self _,
      by decide +kernel⟩

end HcMap.Map
