import HcMap.Lib.DateText
import HcMap.Lib.Decimal
import HcMap.Lib.Query

/-!
# The state of the map in its URL

`parseMapUrlState` and `serializeMapUrlState` of `map/url-state.ts`: the viewport
and the filters of the map as a query string. Coordinates are exact decimals.
-/

namespace HcMap.Map

open Decimal DateText Query

structure MapViewport where
  lat : ℚ
  lon : ℚ
  zoom : ℚ
  deriving DecidableEq

structure MapFilters where
  fromDate : Option String
  toDate : Option String
  participantIds : List String
  deriving DecidableEq

structure MapUrlState where
  viewport : Option MapViewport
  filters : MapFilters
  deriving DecidableEq

-- ---------------------------------------------------------------------------
-- Parsing
-- ---------------------------------------------------------------------------

/-- `/^\d{4}-\d{2}-\d{2}$/` -/
def isoDate (s : String) : Bool :=
  match s.toList with
  | [y₁, y₂, y₃, y₄, '-', m₁, m₂, '-', d₁, d₂] => [y₁, y₂, y₃, y₄, m₁, m₂, d₁, d₂].all Char.isDigit
  | _ => false

def isHex (c : Char) : Bool := c ∈ "0123456789abcdefABCDEF".toList

def isUuid (cs : List Char) : Bool :=
  cs.length = 36 &&
    cs.zipIdx.all fun (c, i) => if i ∈ [8, 13, 18, 23] then c = '-' else isHex c

def parseFloatParam (raw : Option String) : Option ℚ :=
  raw.bind fun raw => if raw = "" then none else toNumber raw

section
variable (b : Browser)

def parseIsoDate (raw : Option String) : Option String :=
  raw.bind fun raw =>
    if isoDate raw ∧ (b.parse (raw ++ "T00:00:00Z")).isSome then some raw else none

/-- A `Set` keeps what is added first. -/
def parseParticipantIds (raw : Option String) : List String :=
  match raw with
  | none => []
  | some raw =>
    if raw = "" then []
    else
      let ids := (raw.toList.splitOn ',').filterMap fun part =>
        let candidate := trim part
        if isUuid candidate then some (String.ofList (candidate.map Char.toLower)) else none
      ids.eraseDups

variable (get : String → Option String)

def parseViewport : Option MapViewport :=
  match parseFloatParam (get "lat"), parseFloatParam (get "lon"), parseFloatParam (get "zoom") with
  | some lat, some lon, some zoom =>
    if lat < -90 ∨ 90 < lat then none
    else if lon < -180 ∨ 180 < lon then none
    else if zoom < 0 ∨ 22 < zoom then none
    else some { lat, lon, zoom }
  | _, _, _ => none

def parseFilters : MapFilters where
  fromDate := parseIsoDate b (get "from")
  toDate := parseIsoDate b (get "to")
  participantIds := parseParticipantIds (get "p")

def parseMapUrlState : MapUrlState where
  viewport := parseViewport get
  filters := parseFilters b get

end

-- ---------------------------------------------------------------------------
-- Serialising
-- ---------------------------------------------------------------------------

def trimFloat (value : ℚ) : List Char := stripZeros (toFixed 5 value)

/-- An empty text is left out, as is `null`. -/
def dateParts (name : String) (date : Option String) : List (String × List Char) :=
  match date with
  | none => []
  | some date => if date = "" then [] else [(name, date.toList)]

def viewportParts : Option MapViewport → List (String × List Char)
  | none => []
  | some v => [("lat", trimFloat v.lat), ("lon", trimFloat v.lon), ("zoom", trimFloat v.zoom)]

def joinIds (ids : List String) : List Char := [','].intercalate (ids.map String.toList)

def idParts (ids : List String) : List (String × List Char) :=
  if 0 < ids.length then [("p", joinIds ids)] else []

def params (state : MapUrlState) : List (String × List Char) :=
  viewportParts state.viewport ++ dateParts "from" state.filters.fromDate ++
    dateParts "to" state.filters.toDate ++ idParts state.filters.participantIds

def serializeMapUrlState (state : MapUrlState) : String := write (params state)

-- ---------------------------------------------------------------------------
-- States that the codec is for
-- ---------------------------------------------------------------------------

structure MapViewport.InRange (v : MapViewport) : Prop where
  lat : -90 ≤ v.lat ∧ v.lat ≤ 90
  lon : -180 ≤ v.lon ∧ v.lon ≤ 180
  zoom : 0 ≤ v.zoom ∧ v.zoom ≤ 22

structure MapUrlState.Valid (b : Browser) (state : MapUrlState) : Prop where
  viewport : ∀ v ∈ state.viewport, v.InRange
  fromDate : parseIsoDate b state.filters.fromDate = state.filters.fromDate
  toDate : parseIsoDate b state.filters.toDate = state.filters.toDate
  ids : ∀ id ∈ state.filters.participantIds, isUuid id.toList

def MapViewport.round (v : MapViewport) : MapViewport :=
  ⟨rounded 5 v.lat, rounded 5 v.lon, rounded 5 v.zoom⟩

def toLowerCase (id : String) : String := String.ofList (id.toList.map Char.toLower)

/-- Below 0, and rounded to it. -/
def LosesSign (x : ℚ) : Prop := -(1 / 200000) < x ∧ x < 0

/-- Coordinates and zoom to five decimals, ids in lower case and once each. -/
def MapUrlState.normalize (state : MapUrlState) : MapUrlState where
  viewport := state.viewport.map MapViewport.round
  filters :=
    { state.filters with
      participantIds := (state.filters.participantIds.map toLowerCase).eraseDups }

-- ---------------------------------------------------------------------------
-- Numbers
-- ---------------------------------------------------------------------------

section
variable {b : Browser} {unescape : Unescape} {state : MapUrlState} {v : MapViewport} {x : ℚ}
  {date : Option String} {id : String} {ids : List String} {cs : List Char}

theorem safe_of_plain (h : Plain cs) : Safe cs := by
  have hamp : ¬ '&'.isDigit := by decide
  have hpercent : ¬ '%'.isDigit := by decide
  have hplus : ¬ '+'.isDigit := by decide
  intro c hc
  refine ⟨?_, ?_, ?_⟩ <;> rintro rfl
  · exact (h _ hc).elim hamp (by decide)
  · exact (h _ hc).elim hpercent (by decide)
  · exact (h _ hc).elim hplus (by decide)

theorem safe_cons {c : Char} (hc : c ≠ '&' ∧ c ≠ '%' ∧ c ≠ '+') (h : Safe cs) : Safe (c :: cs) :=
  List.forall_mem_cons.mpr ⟨hc, h⟩

theorem safe_trimFloat (x : ℚ) : Safe (trimFloat x) := by
  unfold trimFloat toFixed
  split
  · rw [stripZeros_neg]
    exact safe_cons (by decide) (safe_of_plain (plain_stripZeros_fixedText 5 _))
  · exact safe_of_plain (plain_stripZeros_fixedText 5 _)

theorem parseFloatParam_trimFloat (x : ℚ) :
    parseFloatParam (some (String.ofList (trimFloat x))) = some (rounded 5 x) := by
  have hne : trimFloat x ≠ [] := by
    unfold trimFloat toFixed
    split
    · rw [stripZeros_neg]
      exact List.cons_ne_nil _ _
    · exact stripZeros_fixedText_ne_nil 5 _
  have htext : String.ofList (trimFloat x) ≠ "" := fun heq =>
    hne (by simpa using congrArg String.toList heq)
  rw [parseFloatParam, Option.bind_some, if_neg htext]
  exact toNumber_stripZeros_toFixed (by decide) x

theorem round_inRange (h : v.InRange) : v.round.InRange where
  lat := rounded_bounds (n := 90) 5 h.lat
  lon := rounded_bounds (n := 180) 5 h.lon
  zoom := by
    have hzoom := rounded_bounds (n := 22) (x := v.zoom) 5 ⟨by
      have := h.zoom.1
      push_cast
      linarith, h.zoom.2⟩
    exact ⟨rounded_nonneg 5 h.zoom.1, hzoom.2⟩

theorem parseViewport_eq {get : String → Option String} (h : v.InRange)
    (hlat : parseFloatParam (get "lat") = some v.lat)
    (hlon : parseFloatParam (get "lon") = some v.lon)
    (hzoom : parseFloatParam (get "zoom") = some v.zoom) :
    parseViewport get = some v := by
  rw [parseViewport, hlat, hlon, hzoom]
  simp only
  rw [if_neg (not_or.mpr ⟨not_lt.mpr h.lat.1, not_lt.mpr h.lat.2⟩),
    if_neg (not_or.mpr ⟨not_lt.mpr h.lon.1, not_lt.mpr h.lon.2⟩),
    if_neg (not_or.mpr ⟨not_lt.mpr h.zoom.1, not_lt.mpr h.zoom.2⟩)]

-- ---------------------------------------------------------------------------
-- Dates
-- ---------------------------------------------------------------------------

theorem safe_isoDate {s : String} (h : isoDate s) : Safe s.toList ∧ s ≠ "" := by
  unfold isoDate at h
  split at h
  · rename_i y₁ y₂ y₃ y₄ m₁ m₂ d₁ d₂ hs
    have hplain : Plain [y₁, y₂, y₃, y₄, m₁, m₂, d₁, d₂] := fun c hc =>
      .inl (List.all_eq_true.mp h c hc)
    have hsafe := safe_of_plain hplain
    refine ⟨?_, ?_⟩
    · rw [hs]
      intro c hc
      by_cases hdash : c = '-'
      · subst hdash
        decide
      · refine hsafe c ?_
        simpa [hdash] using hc
    · rintro rfl
      cases hs
  · cases h

theorem isoDate_of_accepted {raw : String} (h : parseIsoDate b (some raw) = some raw) :
    isoDate raw := by
  unfold parseIsoDate at h
  rw [Option.bind_some] at h
  split at h
  · rename_i hraw
    exact hraw.1
  · cases h

-- ---------------------------------------------------------------------------
-- Ids
-- ---------------------------------------------------------------------------

theorem uuid_chars (h : isUuid cs) : ∀ c ∈ cs, c = '-' ∨ isHex c := by
  intro c hc
  obtain ⟨-, hall⟩ := Bool.and_eq_true_iff.mp h
  have hmem : c ∈ (cs.zipIdx).map Prod.fst := by rwa [List.zipIdx_map_fst]
  obtain ⟨⟨c', i⟩, hpair, rfl⟩ := List.mem_map.mp hmem
  have hthis := List.all_eq_true.mp hall _ hpair
  simp only at hthis ⊢
  split at hthis
  · exact .inl (of_decide_eq_true hthis)
  · exact .inr hthis

theorem hex_chars {c : Char} (h : c = '-' ∨ isHex c) :
    isSpace c = false ∧ c ≠ ',' ∧ c ≠ '&' ∧ c ≠ '%' ∧ c ≠ '+' := by
  have hdigits : ('-' :: "0123456789abcdefABCDEF".toList).all fun c =>
      isSpace c = false ∧ c ≠ ',' ∧ c ≠ '&' ∧ c ≠ '%' ∧ c ≠ '+' := by decide +kernel
  refine of_decide_eq_true (List.all_eq_true.mp hdigits c (List.mem_cons.mpr (h.imp_right ?_)))
  exact of_decide_eq_true

theorem lower_hex {c : Char} (h : isHex c) :
    isHex c.toLower ∧ c.toLower.toLower = c.toLower := by
  have hdigits : "0123456789abcdefABCDEF".toList.all fun c =>
      isHex c.toLower ∧ c.toLower.toLower = c.toLower := by decide +kernel
  exact of_decide_eq_true (List.all_eq_true.mp hdigits c (of_decide_eq_true h))

theorem uuid_lower (h : isUuid cs) : isUuid (cs.map Char.toLower) := by
  obtain ⟨hlength, hall⟩ := Bool.and_eq_true_iff.mp h
  refine Bool.and_eq_true_iff.mpr ⟨by rwa [List.length_map], ?_⟩
  rw [List.zipIdx_map, List.all_map]
  refine List.all_eq_true.mpr fun pair hpair => ?_
  have hthis := List.all_eq_true.mp hall pair hpair
  obtain ⟨c, i⟩ := pair
  simp only [Function.comp_apply, Prod.map_apply, id_eq] at hthis ⊢
  split at hthis
  · rename_i hdash
    obtain rfl := of_decide_eq_true hthis
    rw [if_pos hdash]
    rfl
  · rename_i hdigit
    rw [if_neg hdigit]
    exact (lower_hex hthis).1

theorem lower_lower (h : isUuid id.toList) : toLowerCase (toLowerCase id) = toLowerCase id := by
  unfold toLowerCase
  rw [String.toList_ofList, List.map_map]
  refine congrArg String.ofList (List.map_congr_left fun c hc => ?_)
  rcases uuid_chars h c hc with rfl | hhex
  · rfl
  · exact (lower_hex hhex).2

theorem nodup_eraseDups (ids : List String) : ids.eraseDups.Nodup := by
  induction hn : ids.length using Nat.strong_induction_on generalizing ids with
  | _ n ih =>
    cases ids with
    | nil => exact List.nodup_nil
    | cons id ids =>
      have hshorter : (ids.filter fun id' => !id' == id).length < n := by
        have hfilter := List.length_filter_le (fun id' => !id' == id) ids
        rw [List.length_cons] at hn
        omega
      rw [List.eraseDups_cons]
      refine List.nodup_cons.mpr ⟨fun hmem => ?_, ih _ hshorter _ rfl⟩
      have hkept := (List.mem_filter.mp (List.mem_eraseDups.mp hmem)).2
      simp at hkept

theorem eraseDups_of_nodup (h : ids.Nodup) : ids.eraseDups = ids := by
  induction ids with
  | nil => rfl
  | cons id ids ih =>
    obtain ⟨hid, hids⟩ := List.nodup_cons.mp h
    have hfilter : ids.filter (fun id' => !id' == id) = ids := by
      refine List.filter_eq_self.mpr fun id' hid' => ?_
      simpa using fun heq : id' = id => hid (heq ▸ hid')
    rw [List.eraseDups_cons, hfilter, ih hids]

theorem uuid_ne_nil (h : isUuid cs) : cs ≠ [] := by
  rintro rfl
  cases h

theorem trim_uuid (h : isUuid cs) : trim cs = cs :=
  trim_eq_self fun c hc => (hex_chars (uuid_chars h c hc)).1

theorem uuid_no_comma (h : ∀ id ∈ ids, isUuid id.toList) :
    ∀ text ∈ ids.map String.toList, ',' ∉ text := by
  intro text htext hmem
  obtain ⟨id, hid, rfl⟩ := List.mem_map.mp htext
  exact (hex_chars (uuid_chars (h id hid) ',' hmem)).2.1 rfl

theorem splitOn_joinIds (hne : ids ≠ []) (h : ∀ id ∈ ids, isUuid id.toList) :
    (joinIds ids).splitOn ',' = ids.map String.toList :=
  List.splitOn_intercalate ',' (uuid_no_comma h) (by simpa using hne)

theorem parseParticipantIds_join (hne : ids ≠ []) (h : ∀ id ∈ ids, isUuid id.toList) :
    parseParticipantIds (some (String.ofList (joinIds ids))) =
      (ids.map toLowerCase).eraseDups := by
  have hparts := splitOn_joinIds hne h
  have htext : String.ofList (joinIds ids) ≠ "" := by
    intro heq
    have hnil : joinIds ids = [] := by simpa using congrArg String.toList heq
    rw [hnil] at hparts
    obtain ⟨id, hid⟩ := List.exists_mem_of_ne_nil ids hne
    have hmem : id.toList ∈ ([] : List Char).splitOn ',' := hparts ▸ List.mem_map_of_mem hid
    exact uuid_ne_nil (h id hid) (by simpa using hmem)
  have hlower : ∀ id ∈ ids,
      (if isUuid (trim id.toList) then
        some (String.ofList ((trim id.toList).map Char.toLower)) else none) =
        some (toLowerCase id) := by
    intro id hid
    rw [trim_uuid (h id hid), if_pos (h id hid), toLowerCase]
  rw [parseParticipantIds]
  simp only
  rw [if_neg htext, String.toList_ofList, hparts, List.filterMap_map]
  refine congrArg List.eraseDups ((List.filterMap_congr hlower).trans ?_)
  exact congrFun List.filterMap_eq_map ids

theorem safe_joinIds (h : ∀ id ∈ ids, isUuid id.toList) : Safe (joinIds ids) := by
  intro c hc
  rcases mem_intercalate hc with rfl | ⟨text, htext, hmem⟩
  · decide
  · obtain ⟨id, hid, rfl⟩ := List.mem_map.mp htext
    exact (hex_chars (uuid_chars (h id hid) c hmem)).2.2

-- ---------------------------------------------------------------------------
-- The parts of a query
-- ---------------------------------------------------------------------------

theorem safe_dateParts {name : String} (hname : Safe name.toList ∧ '=' ∉ name.toList)
    (hdate : parseIsoDate b date = date) : ∀ part ∈ dateParts name date, SafePart part := by
  intro part hpart
  cases date with
  | none => cases hpart
  | some date =>
    obtain ⟨hsafe, hne⟩ := safe_isoDate (isoDate_of_accepted hdate)
    rw [dateParts, if_neg hne, List.mem_singleton] at hpart
    subst hpart
    exact ⟨hname.1, hname.2, hsafe⟩

theorem safe_params (h : state.Valid b) : ∀ part ∈ params state, SafePart part := by
  have hnames : ∀ name ∈ ["lat", "lon", "zoom", "from", "to", "p"],
      Safe name.toList ∧ '=' ∉ name.toList := by
    decide +kernel
  intro part hpart
  simp only [params, List.mem_append] at hpart
  rcases hpart with ((hviewport | hfrom) | hto) | hids
  · cases hv : state.viewport with
    | none =>
      rw [hv] at hviewport
      cases hviewport
    | some v =>
      rw [hv] at hviewport
      simp only [viewportParts, List.mem_cons, List.not_mem_nil, or_false] at hviewport
      rcases hviewport with rfl | rfl | rfl
      · exact ⟨(hnames "lat" (by simp)).1, (hnames "lat" (by simp)).2, safe_trimFloat _⟩
      · exact ⟨(hnames "lon" (by simp)).1, (hnames "lon" (by simp)).2, safe_trimFloat _⟩
      · exact ⟨(hnames "zoom" (by simp)).1, (hnames "zoom" (by simp)).2, safe_trimFloat _⟩
  · exact safe_dateParts (hnames "from" (by simp)) h.fromDate part hfrom
  · exact safe_dateParts (hnames "to" (by simp)) h.toDate part hto
  · unfold idParts at hids
    split at hids
    · obtain rfl := List.mem_singleton.mp hids
      exact ⟨(hnames "p" (by simp)).1, (hnames "p" (by simp)).2, safe_joinIds h.ids⟩
    · cases hids

@[simp] theorem lookup_viewportParts {name : String} {viewport : Option MapViewport} :
    lookup name (viewportParts viewport) = viewport.bind fun v =>
      if "lat" = name then some (String.ofList (trimFloat v.lat))
      else if "lon" = name then some (String.ofList (trimFloat v.lon))
      else if "zoom" = name then some (String.ofList (trimFloat v.zoom))
      else none := by
  cases viewport <;> simp [viewportParts]

theorem lookup_dateParts {name name' : String} (hdate : parseIsoDate b date = date) :
    lookup name (dateParts name' date) = if name' = name then date else none := by
  cases date with
  | none => simp [dateParts]
  | some date =>
    obtain ⟨-, hne⟩ := safe_isoDate (isoDate_of_accepted hdate)
    simp [dateParts, hne]

@[simp] theorem lookup_idParts {name : String} :
    lookup name (idParts ids) =
      if "p" = name ∧ ids ≠ [] then some (String.ofList (joinIds ids)) else none := by
  cases ids <;> simp [idParts]

theorem get_serialize (h : state.Valid b) (name : String) :
    get unescape (serializeMapUrlState state) name =
      (((lookup name (viewportParts state.viewport)).or
        (if "from" = name then state.filters.fromDate else none)).or
          (if "to" = name then state.filters.toDate else none)).or
            (lookup name (idParts state.filters.participantIds)) := by
  rw [serializeMapUrlState, get_write (safe_params h), params, lookup_append, lookup_append,
    lookup_append, lookup_dateParts h.fromDate, lookup_dateParts h.toDate]

-- ---------------------------------------------------------------------------
-- What is written is read back
-- ---------------------------------------------------------------------------

theorem parseViewport_serialize (h : state.Valid b) :
    parseViewport (get unescape (serializeMapUrlState state)) =
      state.viewport.map MapViewport.round := by
  cases hv : state.viewport with
  | none =>
    have hlat : get unescape (serializeMapUrlState state) "lat" = none := by
      simp [get_serialize h, hv]
    rw [parseViewport, hlat]
    rfl
  | some v =>
    have hlat : get unescape (serializeMapUrlState state) "lat" =
        some (String.ofList (trimFloat v.lat)) := by simp [get_serialize h, hv]
    have hlon : get unescape (serializeMapUrlState state) "lon" =
        some (String.ofList (trimFloat v.lon)) := by simp [get_serialize h, hv]
    have hzoom : get unescape (serializeMapUrlState state) "zoom" =
        some (String.ofList (trimFloat v.zoom)) := by simp [get_serialize h, hv]
    refine parseViewport_eq (round_inRange (h.viewport v hv)) ?_ ?_ ?_
    · rw [hlat, parseFloatParam_trimFloat, MapViewport.round]
    · rw [hlon, parseFloatParam_trimFloat, MapViewport.round]
    · rw [hzoom, parseFloatParam_trimFloat, MapViewport.round]

theorem get_ids (h : state.Valid b) :
    get unescape (serializeMapUrlState state) "p" =
      if state.filters.participantIds ≠ [] then
        some (String.ofList (joinIds state.filters.participantIds)) else none := by
  cases hv : state.viewport <;> simp [get_serialize h, hv]

theorem parseParticipantIds_serialize (h : state.Valid b) :
    parseParticipantIds (get unescape (serializeMapUrlState state) "p") =
      (state.filters.participantIds.map toLowerCase).eraseDups := by
  rw [get_ids h]
  split
  · rename_i hne
    exact parseParticipantIds_join hne h.ids
  · rename_i hnil
    rw [not_not.mp hnil]
    rfl

theorem parse_serialize (h : state.Valid b) :
    parseMapUrlState b (get unescape (serializeMapUrlState state)) = state.normalize := by
  have hfrom : get unescape (serializeMapUrlState state) "from" = state.filters.fromDate := by
    cases hv : state.viewport <;> simp [get_serialize h, hv]
  have hto : get unescape (serializeMapUrlState state) "to" = state.filters.toDate := by
    cases hv : state.viewport <;> simp [get_serialize h, hv]
  rw [parseMapUrlState, parseFilters, parseViewport_serialize h, parseParticipantIds_serialize h,
    hfrom, hto, h.fromDate, h.toDate]
  rfl

-- ---------------------------------------------------------------------------
-- A second round
-- ---------------------------------------------------------------------------

theorem normalize_valid (h : state.Valid b) : state.normalize.Valid b where
  viewport := by
    intro v hv
    obtain ⟨v', hv', rfl⟩ := Option.map_eq_some_iff.mp hv
    exact round_inRange (h.viewport v' hv')
  fromDate := h.fromDate
  toDate := h.toDate
  ids := by
    intro id hid
    obtain ⟨id', hid', rfl⟩ := List.mem_map.mp (List.mem_eraseDups.mp hid)
    rw [toLowerCase, String.toList_ofList]
    exact uuid_lower (h.ids id' hid')

theorem map_lower_eraseDups (h : ∀ id ∈ ids, isUuid id.toList) :
    (ids.map toLowerCase).eraseDups.map toLowerCase = (ids.map toLowerCase).eraseDups := by
  refine (List.map_congr_left fun id hid => ?_).trans (List.map_id _)
  obtain ⟨id', hid', rfl⟩ := List.mem_map.mp (List.mem_eraseDups.mp hid)
  exact lower_lower (h id' hid')

theorem normalize_normalize (h : state.Valid b) : state.normalize.normalize = state.normalize := by
  have hids : ((state.filters.participantIds.map toLowerCase).eraseDups.map toLowerCase).eraseDups =
      (state.filters.participantIds.map toLowerCase).eraseDups := by
    rw [map_lower_eraseDups h.ids, eraseDups_of_nodup (nodup_eraseDups _)]
  have hviewport : (state.viewport.map MapViewport.round).map MapViewport.round =
      state.viewport.map MapViewport.round := by
    rw [Option.map_map]
    congr 1
    funext v
    simp [MapViewport.round, rounded_rounded]
  simp only [MapUrlState.normalize, hids, hviewport]

theorem trimFloat_rounded (h : ¬ LosesSign x) : trimFloat (rounded 5 x) = trimFloat x := by
  rw [trimFloat, toFixed_rounded, if_neg, trimFloat]
  rintro ⟨hneg, hzero⟩
  have hsmall : -x * 10 ^ 5 + 1 / 2 < 1 := Nat.floor_eq_zero.mp hzero
  exact h ⟨by linarith, hneg⟩

theorem viewportParts_round {viewport : Option MapViewport} (hrange : ∀ v ∈ viewport, v.InRange)
    (h : ∀ v ∈ viewport, ¬ LosesSign v.lat ∧ ¬ LosesSign v.lon) :
    viewportParts (viewport.map MapViewport.round) = viewportParts viewport := by
  cases viewport with
  | none => rfl
  | some v =>
    obtain ⟨hlat, hlon⟩ := h v rfl
    have hzoom : ¬ LosesSign v.zoom := fun hsign => (hrange v rfl).zoom.1.not_gt hsign.2
    simp only [Option.map_some, viewportParts, MapViewport.round, trimFloat_rounded hlat,
      trimFloat_rounded hlon, trimFloat_rounded hzoom]

theorem ids_of_serialize_eq {state' : MapUrlState} (h : state.Valid b) (h' : state'.Valid b)
    (heq : serializeMapUrlState state = serializeMapUrlState state') :
    state.filters.participantIds = state'.filters.participantIds := by
  have hget := congrArg (fun query => get id query "p") heq
  simp only [get_ids h, get_ids h'] at hget
  split at hget <;> split at hget
  · rename_i hne hne'
    have hjoin : joinIds state.filters.participantIds = joinIds state'.filters.participantIds :=
      String.ofList_inj.mp (Option.some.inj hget)
    have htexts := splitOn_joinIds hne h.ids
    rw [hjoin, splitOn_joinIds hne' h'.ids] at htexts
    exact (List.map_injective_iff.mpr (fun _ _ => String.toList_inj.mp) htexts).symm
  · cases hget
  · cases hget
  · rename_i hnil hnil'
    rw [not_not.mp hnil, not_not.mp hnil']

theorem normal_ids_iff (h : ∀ id ∈ ids, isUuid id.toList) :
    (ids.map toLowerCase).eraseDups = ids ↔ ids.map toLowerCase = ids ∧ ids.Nodup := by
  refine ⟨fun heq => ?_, fun ⟨hlower, hnodup⟩ => by rw [hlower, eraseDups_of_nodup hnodup]⟩
  have hlower := map_lower_eraseDups h
  have hnodup := nodup_eraseDups (ids.map toLowerCase)
  rw [heq] at hlower hnodup
  exact ⟨hlower, hnodup⟩

theorem serialize_normalize_iff (h : state.Valid b)
    (hsign : ∀ v ∈ state.viewport, ¬ LosesSign v.lat ∧ ¬ LosesSign v.lon) :
    serializeMapUrlState state.normalize = serializeMapUrlState state ↔
      state.filters.participantIds.map toLowerCase = state.filters.participantIds ∧
        state.filters.participantIds.Nodup := by
  rw [← normal_ids_iff h.ids]
  refine ⟨fun heq => ids_of_serialize_eq (normalize_valid h) h heq, fun hids => ?_⟩
  have hviewport := viewportParts_round h.viewport hsign
  simp only [serializeMapUrlState, params, MapUrlState.normalize, hviewport, hids]

end

def rewritten (b : Browser) (unescape : Unescape) (query : String) : String :=
  serializeMapUrlState (parseMapUrlState b (get unescape query))

/-- What is written is read back in normal form; a second round writes the same
query as the first when the ids were in normal form, and a third always writes
what the second wrote. -/
theorem codec_roundTrip {b : Browser} (unescape : Unescape) {state : MapUrlState}
    (h : state.Valid b) :
    parseMapUrlState b (get unescape (serializeMapUrlState state)) = state.normalize ∧
      ((∀ v ∈ state.viewport, ¬ LosesSign v.lat ∧ ¬ LosesSign v.lon) →
        (rewritten b unescape (serializeMapUrlState state) = serializeMapUrlState state ↔
          state.filters.participantIds.map toLowerCase = state.filters.participantIds ∧
            state.filters.participantIds.Nodup)) ∧
      rewritten b unescape (rewritten b unescape (serializeMapUrlState state)) =
        rewritten b unescape (serializeMapUrlState state) := by
  have hround : rewritten b unescape (serializeMapUrlState state) =
      serializeMapUrlState state.normalize := by rw [rewritten, parse_serialize h]
  refine ⟨parse_serialize h, fun hsign => ?_, ?_⟩
  · rw [hround]
    exact serialize_normalize_iff h hsign
  · rw [hround, rewritten, parse_serialize (normalize_valid h), normalize_normalize h]

def sampleBrowser : Browser := ⟨Zone.utc, fun _ => none⟩

def sampleState : MapUrlState :=
  ⟨some ⟨525 / 10, 134050009 / 10000000, 11⟩,
    ⟨some "2026-04-01", none,
      ["AAAAAAAA-BBBB-CCCC-DDDD-EEEEEEEEEEEE", "aaaaaaaa-bbbb-cccc-dddd-eeeeeeeeeeee"]⟩⟩

theorem sampleState_valid : sampleState.Valid sampleBrowser where
  viewport := by
    rintro v ⟨⟩
    constructor <;> norm_num
  fromDate := by decide +kernel
  toDate := rfl
  ids := by decide +kernel

theorem codec_roundTrip_sample :
    parseMapUrlState sampleBrowser (get id (serializeMapUrlState sampleState)) =
      ⟨some ⟨525 / 10, 13405 / 1000, 11⟩,
        ⟨some "2026-04-01", none, ["aaaaaaaa-bbbb-cccc-dddd-eeeeeeeeeeee"]⟩⟩ ∧
      rewritten sampleBrowser id (rewritten sampleBrowser id (serializeMapUrlState sampleState)) =
        rewritten sampleBrowser id (serializeMapUrlState sampleState) := by
  obtain ⟨hparse, -, hstable⟩ := codec_roundTrip id sampleState_valid
  have hnormal : sampleState.normalize = ⟨some ⟨525 / 10, 13405 / 1000, 11⟩,
      ⟨some "2026-04-01", none, ["aaaaaaaa-bbbb-cccc-dddd-eeeeeeeeeeee"]⟩⟩ := by decide +kernel
  exact ⟨hparse.trans hnormal, hstable⟩

def upperState : MapUrlState := ⟨none, ⟨none, none, ["AAAAAAAA-BBBB-CCCC-DDDD-EEEEEEEEEEEE"]⟩⟩

/-- The query with the upper case id is not what it becomes. -/
theorem upper_case_rewritten :
    upperState.Valid sampleBrowser ∧
      rewritten sampleBrowser id (serializeMapUrlState upperState) ≠
        serializeMapUrlState upperState :=
  ⟨⟨nofun, rfl, rfl, by decide +kernel⟩, by decide +kernel⟩

end HcMap.Map
