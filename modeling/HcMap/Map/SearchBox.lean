import HcMap.Lib.Decimal
import HcMap.Lib.Effect
import HcMap.Lib.Run

/-!
# The address search of the map

`geocode-search-box.tsx`: a text, a debounced copy of it, and a request for each
text that the debounce lets through. The answers may come late, in any order or
not at all. A coordinate is an exact number.
-/

namespace HcMap.Map

open Decimal Run

-- ---------------------------------------------------------------------------
-- What the upstream answers
-- ---------------------------------------------------------------------------

structure GeocodeFeature where
  id : String
  placeName : String
  center : ℚ × ℚ
  deriving DecidableEq

/-- The elements of a JSON array that may be a pair of coordinates: `none` is
no number, or not a finite one. -/
abbrev Candidate := List (Option ℚ)

/-- A field is `none` when it is missing or of another type. An id that is a
number is the text it is written as. -/
structure UpstreamFeature where
  id : Option String
  placeName : Option String
  center : Option Candidate
  coordinates : Option Candidate

abbrev UpstreamCollection := Option (List (Option UpstreamFeature))

inductive RequestError
  | api (status : Nat)
  | other

abbrev Answer := Except RequestError UpstreamCollection

def pickCenter (raw : UpstreamFeature) : Option (ℚ × ℚ) :=
  [raw.center, raw.coordinates].findSome? fun candidate =>
    match candidate with
    | some (some lon :: some lat :: _) => some (lon, lat)
    | _ => none

def normaliseFeature (index : Nat) (raw : UpstreamFeature) : Option GeocodeFeature :=
  let placeName := raw.placeName.getD ""
  if placeName = "" then none
  else
    (pickCenter raw).map fun center =>
      { id := raw.id.getD (toString index ++ "-" ++ placeName), placeName, center }

def normaliseFrom : Nat → List (Option UpstreamFeature) → Option (List GeocodeFeature)
  | _, [] => some []
  -- There is no `place_name` of `null`: the callback throws.
  | _, none :: _ => none
  | index, some raw :: rest =>
    (normaliseFrom (index + 1) rest).map fun features =>
      (normaliseFeature index raw).toList ++ features

/-- `none` where it throws. -/
def normaliseFeatures (payload : UpstreamCollection) : Option (List GeocodeFeature) :=
  normaliseFrom 0 (payload.getD [])

structure Toast where
  title : String
  description : String
  deriving DecidableEq

def toastFromError : RequestError → Toast
  | .api 429 => ⟨"Geocoding-Limit erreicht", "Bitte einen Moment warten und erneut suchen."⟩
  | .api 503 =>
    ⟨"Adress-Suche nicht konfiguriert", "Der Server hat keinen MapTiler-Schlüssel hinterlegt."⟩
  | .api 502 => ⟨"Adress-Suche nicht erreichbar", "MapTiler antwortet aktuell nicht."⟩
  | _ => ⟨"Adress-Suche fehlgeschlagen", "Die Karte funktioniert weiter ohne Suche."⟩

-- ---------------------------------------------------------------------------
-- The box
-- ---------------------------------------------------------------------------

def minQueryLength : Nat := 2
def resultLimit : Nat := 5

structure SearchRequest where
  seq : Nat
  q : String
  limit : Nat
  proximity : Option (ℚ × ℚ)
  deriving DecidableEq

/-- `timer` is the text that the debounce holds back. -/
structure SearchBox where
  query : String
  debouncedQuery : String
  results : List GeocodeFeature
  pending : Bool
  isOpen : Bool
  requestSeq : Nat
  timer : Option String
  calls : Effect SearchRequest

def trimText (text : String) : String := String.ofList (trim text.toList)

/-- `text.length`: a character beyond the first plane counts twice. -/
def utf16Length (text : String) : Nat :=
  (text.toList.map fun c => if c.toNat < 0x10000 then 1 else 2).sum

namespace SearchBox

def empty : SearchBox where
  query := ""
  debouncedQuery := ""
  results := []
  pending := false
  isOpen := false
  requestSeq := 0
  timer := none
  calls := .idle

variable (b : SearchBox)

/-- The effect of `[query]`. Its clean-up clears the timer. -/
def queryEffect : SearchBox :=
  if utf16Length (trimText b.query) < minQueryLength then
    { b with timer := none, debouncedQuery := "", results := [] }
  else { b with timer := some (trimText b.query) }

def searchEffect (proximity : Option (ℚ × ℚ)) : SearchBox :=
  if b.debouncedQuery = "" then
    { b with calls := b.calls.rerun, results := [], pending := false }
  else
    { b with
      calls := b.calls.rerun.begin ⟨b.requestSeq + 1, b.debouncedQuery, resultLimit, proximity⟩
      requestSeq := b.requestSeq + 1
      pending := true }

def unmount : SearchBox := { b with timer := none, calls := b.calls.cleanup }

def commit (old : SearchBox) (proximity : Option (ℚ × ℚ)) (new : SearchBox) : SearchBox :=
  let new := if new.query ≠ old.query then new.queryEffect else new
  if new.debouncedQuery ≠ old.debouncedQuery then new.searchEffect proximity else new

def showDropdown : Bool :=
  b.isOpen && 0 < b.results.length && minQueryLength ≤ utf16Length (trimText b.query)

def showEmptyHint : Bool :=
  b.isOpen && !b.pending && !b.showDropdown && minQueryLength ≤ utf16Length b.debouncedQuery

end SearchBox

inductive SearchAct
  | type (text : String)
  | focus
  -- 120 ms after it.
  | blur
  | clear
  | select (index : Nat)
  | timerFires (proximity : Option (ℚ × ℚ))
  | unmount
  | answer (id : Nat) (answer : Answer)

structure Search where
  mounted : Bool
  box : SearchBox
  answers : List (SearchRequest × Answer)
  selected : List (ℚ × ℚ)
  toasts : List Toast

namespace Search

def start : Search := ⟨true, .empty, [], [], []⟩

variable (s : Search)

/-- A click on a result that is shown. `onSelect` takes the latitude first. -/
def handleSelect (index : Nat) : Search :=
  if s.box.showDropdown then
    match s.box.results[index]? with
    | some feature =>
      { s with
        selected := (feature.center.2, feature.center.1) :: s.selected
        box := s.box.commit none { s.box with isOpen := false, query := feature.placeName } }
    | none => s
  else s

/-- The promise of a request settles: an answer that does not count any more is
dropped. -/
def settled (t : Effect.Task SearchRequest) (answer : Answer) : Search :=
  if t.cancelled ∨ t.arg.seq ≠ s.box.requestSeq then s
  else
    match answer with
    | .error e =>
      { s with
        box := { s.box with pending := false, results := [] }
        toasts := toastFromError e :: s.toasts }
    | .ok payload =>
      match normaliseFeatures payload with
      | some features =>
        { s with box := { s.box with results := features, isOpen := true, pending := false } }
      -- The callback threw, and `catch` is after it.
      | none =>
        { s with
          box := { s.box with pending := false, results := [] }
          toasts := toastFromError .other :: s.toasts }

def receive (id : Nat) (answer : Answer) : Search :=
  match s.box.calls.settle id with
  | some (t, calls) =>
    { s with
      box := { s.box with calls }
      answers := (t.arg, answer) :: s.answers }.settled t answer
  | none => s

def handle : SearchAct → Search
  | .type text => { s with box := s.box.commit none { s.box with query := text, isOpen := true } }
  | .focus => { s with box := { s.box with isOpen := true } }
  | .blur => { s with box := { s.box with isOpen := false } }
  | .clear =>
    { s with box := s.box.commit none { s.box with query := "", results := [], isOpen := false } }
  | .select index => s.handleSelect index
  | .timerFires proximity =>
    match s.box.timer with
    | some text =>
      { s with box := s.box.commit proximity { s.box with timer := none, debouncedQuery := text } }
    | none => s
  | .unmount => { s with mounted := false, box := s.box.unmount }
  | .answer id answer => s.receive id answer

/-- Afterwards only the requests under way still settle. -/
def step (act : SearchAct) : Search :=
  if s.mounted then s.handle act
  else
    match act with
    | .answer id answer => s.receive id answer
    | _ => s

end Search

-- ---------------------------------------------------------------------------
-- What is shown
-- ---------------------------------------------------------------------------

def wanted (query : String) : String :=
  if utf16Length (trimText query) < minQueryLength then "" else trimText query

def outcome : Answer → List GeocodeFeature
  | .ok payload => (normaliseFeatures payload).getD []
  | .error _ => []

structure Newest (answers : List (SearchRequest × Answer)) (q : String) (r : SearchRequest)
    (a : Answer) : Prop where
  mem : (r, a) ∈ answers
  asked : r.q = q
  newest : ∀ x ∈ answers, x.1.seq ≤ r.seq

namespace SearchBox

/-- One request counts: the newest, for the debounced text. -/
structure Awaits (b : SearchBox) : Prop where
  pending : b.pending = true
  asked : b.debouncedQuery ≠ ""
  live : ∃ t, b.calls.live = [t] ∧ t.arg.seq = b.requestSeq ∧ t.arg.q = b.debouncedQuery

/-- No request counts, and the results are those of the newest. -/
structure Rests (answers : List (SearchRequest × Answer)) (b : SearchBox) : Prop where
  pending : b.pending = false
  live : b.calls.live = []
  shown : b.debouncedQuery = "" ∧ b.results = [] ∨
    ∃ r a, (r, a) ∈ answers ∧ r.seq = b.requestSeq ∧ r.q = b.debouncedQuery ∧
      b.results = outcome a

structure Sound (answers : List (SearchRequest × Answer)) (b : SearchBox) : Prop where
  tidy : b.calls.Tidy
  asked : ∀ t ∈ b.calls.tasks, t.arg.seq ≤ b.requestSeq
  answered : ∀ x ∈ answers, x.1.seq ≤ b.requestSeq
  idle : b.timer = none → b.debouncedQuery = wanted b.query
  held : ∀ text ∈ b.timer, text = wanted b.query ∧ text ≠ ""
  calls : b.Awaits ∨ b.Rests answers

section
variable {answers : List (SearchRequest × Answer)} {b : SearchBox}

theorem utf16Length_pos {text : String} (h : minQueryLength ≤ utf16Length text) : text ≠ "" := by
  rintro rfl
  exact absurd h (by decide)

theorem sound_empty : Sound [] empty where
  tidy := Effect.tidy_idle
  asked _ h := nomatch h
  answered _ h := nomatch h
  idle _ := by decide +kernel
  held _ h := nomatch h
  calls := .inr ⟨rfl, rfl, .inl ⟨rfl, rfl⟩⟩

theorem Sound.rests (h : b.Sound answers) (hq : b.debouncedQuery = "") : b.Rests answers :=
  h.calls.resolve_left fun hawaits => hawaits.asked hq

theorem Sound.open (h : b.Sound answers) (isOpen : Bool) :
    Sound answers { b with isOpen } where
  tidy := h.tidy
  asked := h.asked
  answered := h.answered
  idle := h.idle
  held := h.held
  calls := h.calls.imp (fun ha => ⟨ha.pending, ha.asked, ha.live⟩)
    fun hr => ⟨hr.pending, hr.live, hr.shown⟩

theorem Sound.hold (h : b.Sound answers) {query : String} (hlong : wanted query ≠ "") :
    Sound answers { b with query, timer := some (wanted query) } where
  tidy := h.tidy
  asked := h.asked
  answered := h.answered
  idle htimer := nomatch htimer
  held text htext := by
    obtain rfl := Option.some.inj htext
    exact ⟨rfl, hlong⟩
  calls := h.calls.imp (fun ha => ⟨ha.pending, ha.asked, ha.live⟩)
    fun hr => ⟨hr.pending, hr.live, hr.shown⟩

theorem Sound.reset (h : b.Sound answers) {query : String} (hshort : wanted query = "") :
    Sound answers
      { b with
        query, timer := none, debouncedQuery := "", results := [], pending := false
        calls := b.calls.rerun } where
  tidy := h.tidy.rerun
  asked t ht := by
    obtain ⟨t', ht', rfl⟩ := List.mem_map.mp ht
    have hseq := h.asked t' ht'
    by_cases hrun : t'.run = b.calls.run <;> simpa [hrun] using hseq
  answered := h.answered
  idle _ := hshort.symm
  held _ htimer := nomatch htimer
  calls := .inr ⟨rfl, h.tidy.live_rerun, .inl ⟨rfl, rfl⟩⟩

theorem wanted_eq_empty {query : String} :
    wanted query = "" ↔ utf16Length (trimText query) < minQueryLength := by
  unfold wanted
  split
  · rename_i hshort
    simp [hshort]
  · rename_i hlong
    simp only [hlong, iff_false]
    exact utf16Length_pos (Nat.le_of_not_lt hlong)

theorem queryEffect_eq : b.queryEffect =
    if wanted b.query = "" then { b with timer := none, debouncedQuery := "", results := [] }
    else { b with timer := some (wanted b.query) } := by
  unfold queryEffect
  by_cases hshort : utf16Length (trimText b.query) < minQueryLength
  · rw [if_pos hshort, if_pos (wanted_eq_empty.mpr hshort)]
  · rw [if_neg hshort, if_neg fun h => hshort (wanted_eq_empty.mp h), wanted, if_neg hshort]

theorem Sound.debounced (h : b.Sound answers) (hshort : wanted b.query = "") :
    b.debouncedQuery = "" := by
  cases htimer : b.timer with
  | none => rw [h.idle htimer, hshort]
  | some text =>
    obtain ⟨htext, hne⟩ := h.held text htimer
    exact absurd (htext.trans hshort) hne

theorem Sound.commit_query (h : b.Sound answers) {query : String} {results : List GeocodeFeature}
    {isOpen : Bool} (hresults : results = b.results ∨ wanted query = "" ∧ results = []) :
    Sound answers (b.commit none { b with query, results, isOpen }) := by
  by_cases hq : query = b.query
  · -- No effect runs.
    have hcommit : b.commit none { b with query, results, isOpen } =
        { b with results, isOpen } := by simp [commit, hq]
    rw [hcommit]
    rcases hresults with rfl | ⟨hshort, rfl⟩
    · exact h.open isOpen
    · have hnone := h.debounced (hq ▸ hshort)
      have hrests := h.rests hnone
      exact { h.open isOpen with
        calls := .inr ⟨hrests.pending, hrests.live, .inl ⟨hnone, rfl⟩⟩ }
  · by_cases hshort : wanted query = ""
    · by_cases hnone : b.debouncedQuery = ""
      · have hcommit : b.commit none { b with query, results, isOpen } =
            { b with query, isOpen, timer := none, debouncedQuery := "", results := [] } := by
          simp [commit, hq, queryEffect_eq, hshort, hnone]
        have hrests := h.rests hnone
        rw [hcommit]
        exact
          { tidy := h.tidy
            asked := h.asked
            answered := h.answered
            idle := fun _ => hshort.symm
            held := fun _ htimer => nomatch htimer
            calls := .inr ⟨hrests.pending, hrests.live, .inl ⟨rfl, rfl⟩⟩ }
      · have hcommit : b.commit none { b with query, results, isOpen } =
            { b with
              query, isOpen, timer := none, debouncedQuery := "", results := []
              pending := false, calls := b.calls.rerun } := by
          simp [commit, hq, queryEffect_eq, hshort, Ne.symm hnone, searchEffect]
        rw [hcommit]
        exact (h.reset hshort).open isOpen
    · obtain rfl := hresults.resolve_right fun hr => hshort hr.1
      have hcommit : b.commit none { b with query, results := b.results, isOpen } =
          { b with query, isOpen, timer := some (wanted query) } := by
        simp [commit, hq, queryEffect_eq, hshort]
      rw [hcommit]
      exact (h.hold hshort).open isOpen

theorem Sound.commit_timer (h : b.Sound answers) {text : String} (htimer : b.timer = some text)
    (proximity : Option (ℚ × ℚ)) :
    Sound answers (b.commit proximity { b with timer := none, debouncedQuery := text }) := by
  obtain ⟨htext, hne⟩ := h.held text htimer
  by_cases hsame : text = b.debouncedQuery
  · have hcommit : b.commit proximity { b with timer := none, debouncedQuery := text } =
        { b with timer := none } := by simp [commit, hsame]
    rw [hcommit]
    exact
      { tidy := h.tidy
        asked := h.asked
        answered := h.answered
        idle := fun _ => hsame ▸ htext
        held := fun _ htimer => nomatch htimer
        calls := h.calls.imp (fun ha => ⟨ha.pending, ha.asked, ha.live⟩)
          fun hr => ⟨hr.pending, hr.live, hr.shown⟩ }
  · have hcommit : b.commit proximity { b with timer := none, debouncedQuery := text } =
        { b with
          timer := none, debouncedQuery := text, requestSeq := b.requestSeq + 1, pending := true
          calls := b.calls.rerun.begin ⟨b.requestSeq + 1, text, resultLimit, proximity⟩ } := by
      simp [commit, hsame, searchEffect, hne]
    rw [hcommit]
    exact
      { tidy := h.tidy.rerun.begin _
        asked := by
          intro t ht
          rcases List.mem_append.mp ht with ht | ht
          · have hreset := h.reset (show wanted "" = "" by decide +kernel)
            exact Nat.le_succ_of_le (hreset.asked t ht)
          · obtain rfl := List.mem_singleton.mp ht
            exact Nat.le_refl _
        answered := fun x hx => Nat.le_succ_of_le (h.answered x hx)
        idle := fun _ => htext
        held := fun _ htimer => nomatch htimer
        calls := by
          have hlive := Effect.live_begin b.calls.rerun
            ⟨b.requestSeq + 1, text, resultLimit, proximity⟩
          rw [h.tidy.live_rerun, List.nil_append] at hlive
          exact .inl ⟨rfl, hne, _, hlive, rfl, rfl⟩ }

theorem results_queryEffect {f : GeocodeFeature} (hf : f ∈ b.queryEffect.results) :
    f ∈ b.results := by
  rw [queryEffect_eq] at hf
  by_cases hshort : wanted b.query = ""
  · simp [hshort] at hf
  · simpa [hshort] using hf

theorem results_searchEffect (proximity : Option (ℚ × ℚ)) {f : GeocodeFeature}
    (hf : f ∈ (b.searchEffect proximity).results) : f ∈ b.results := by
  by_cases hq : b.debouncedQuery = ""
  · simp [searchEffect, hq] at hf
  · simpa [searchEffect, hq] using hf

theorem results_commit {new : SearchBox} {proximity : Option (ℚ × ℚ)} {f : GeocodeFeature}
    (hf : f ∈ (b.commit proximity new).results) : f ∈ new.results := by
  by_cases hq : new.query = b.query
  · by_cases hd : new.debouncedQuery = b.debouncedQuery
    · simpa [commit, hq, hd] using hf
    · refine results_searchEffect proximity ?_
      simpa [commit, hq, hd] using hf
  · refine results_queryEffect ?_
    by_cases hd : new.queryEffect.debouncedQuery = b.debouncedQuery
    · simpa [commit, hq, hd] using hf
    · refine results_searchEffect proximity ?_
      simpa [commit, hq, hd] using hf

end

end SearchBox

namespace Search

section
variable {s : Search} {t : Effect.Task SearchRequest} {calls : Effect SearchRequest} {id : Nat}
  {answer : Answer}

theorem settled_of_not_live (ht : t.cancelled = true ∨ t.arg.seq ≠ s.box.requestSeq) :
    s.settled t answer = s := if_pos ht

theorem settled_of_live (s : Search) (answer : Answer) (hlive : t.cancelled = false)
    (hseq : t.arg.seq = s.box.requestSeq) :
    ∃ isOpen toasts, s.settled t answer =
      { s with
        box := { s.box with pending := false, results := outcome answer, isOpen }
        toasts } := by
  have hcounts : ¬ (t.cancelled ∨ t.arg.seq ≠ s.box.requestSeq) := by simp [hlive, hseq]
  unfold settled
  rw [if_neg hcounts]
  cases answer with
  | error e => exact ⟨s.box.isOpen, toastFromError e :: s.toasts, rfl⟩
  | ok payload =>
    cases hfeatures : normaliseFeatures payload with
    | none =>
      exact ⟨s.box.isOpen, toastFromError .other :: s.toasts, by simp [outcome, hfeatures]⟩
    | some features => exact ⟨true, s.toasts, by simp [outcome, hfeatures]⟩

/-- What the map flies to, and what is shown, comes from the answers. -/
structure Sound (s : Search) : Prop where
  box : s.mounted = true → s.box.Sound s.answers
  -- Nothing that is under way counts any more.
  gone : s.mounted = false → s.box.timer = none ∧ s.box.calls.live = []
  shown : ∀ f ∈ s.box.results, ∃ x ∈ s.answers, f ∈ outcome x.2
  selected : ∀ p ∈ s.selected, ∃ x ∈ s.answers, ∃ f ∈ outcome x.2, p = (f.center.2, f.center.1)

theorem sound_start : start.Sound where
  box _ := SearchBox.sound_empty
  gone h := nomatch h
  shown _ h := nomatch h
  selected _ h := nomatch h

theorem Sound.commit (h : s.Sound) (hmounted : s.mounted = true) {new : SearchBox}
    {proximity : Option (ℚ × ℚ)} {selected : List (ℚ × ℚ)}
    (hbox : SearchBox.Sound s.answers (s.box.commit proximity new))
    (hresults : ∀ f ∈ new.results, f ∈ s.box.results)
    (hselected : ∀ p ∈ selected,
      ∃ x ∈ s.answers, ∃ f ∈ outcome x.2, p = (f.center.2, f.center.1)) :
    Sound { s with box := s.box.commit proximity new, selected } where
  box _ := hbox
  gone hgone := absurd hmounted (by simp [show s.mounted = false from hgone])
  shown f hf := h.shown f (hresults f (SearchBox.results_commit hf))
  selected := hselected

theorem receive_dropped (hsettle : s.box.calls.settle id = some (t, calls))
    (ht : t.cancelled = true ∨ t.arg.seq ≠ s.box.requestSeq) :
    s.receive id answer =
      { s with box := { s.box with calls }, answers := (t.arg, answer) :: s.answers } := by
  simp only [receive, hsettle]
  exact settled_of_not_live (s :=
    { s with box := { s.box with calls }, answers := (t.arg, answer) :: s.answers }) ht

theorem Sound.dropped (h : s.Sound) (hgone : s.mounted = false)
    (hsettle : s.box.calls.settle id = some (t, calls)) : t.cancelled = true :=
  Effect.cancelled_of_live_nil (h.gone hgone).2 hsettle

theorem Sound.shown_cons (h : s.Sound) (x : SearchRequest × Answer) :
    ∀ f ∈ s.box.results, ∃ x' ∈ x :: s.answers, f ∈ outcome x'.2 := fun f hf => by
  obtain ⟨x', hx', hf⟩ := h.shown f hf
  exact ⟨x', List.mem_cons_of_mem _ hx', hf⟩

theorem Sound.selected_cons (h : s.Sound) (x : SearchRequest × Answer) :
    ∀ p ∈ s.selected, ∃ x' ∈ x :: s.answers,
      ∃ f ∈ outcome x'.2, p = (f.center.2, f.center.1) := fun p hp => by
  obtain ⟨x', hx', hf⟩ := h.selected p hp
  exact ⟨x', List.mem_cons_of_mem _ hx', hf⟩

theorem Sound.receive_gone (h : s.Sound) (hgone : s.mounted = false)
    (hsettle : s.box.calls.settle id = some (t, calls)) : (s.receive id answer).Sound := by
  rw [receive_dropped hsettle (.inl (h.dropped hgone hsettle))]
  obtain ⟨htimer, hlive⟩ := h.gone hgone
  have hleft : calls.live = [] := List.eq_nil_iff_forall_not_mem.mpr fun t' ht' => by
    have hold := ((Effect.mem_live_settle hsettle).mp ht').1
    rw [hlive] at hold
    cases hold
  exact
    { box := fun hmounted => absurd hmounted (by simp [hgone])
      gone := fun _ => ⟨htimer, hleft⟩
      shown := h.shown_cons (t.arg, answer)
      selected := h.selected_cons (t.arg, answer) }

theorem Sound.receive_mounted (h : s.Sound) (hmounted : s.mounted = true)
    (hsettle : s.box.calls.settle id = some (t, calls)) : (s.receive id answer).Sound := by
  have hbox := h.box hmounted
  obtain ⟨ht, -⟩ := Effect.mem_of_settle hsettle
  have htidy := hbox.tidy.settle hsettle
  obtain ⟨-, hcalls⟩ := Effect.settle_eq_some.mp hsettle
  have hasked : ∀ t' ∈ calls.tasks, t'.arg.seq ≤ s.box.requestSeq := by
    intro t' ht'
    subst hcalls
    exact hbox.asked t' (List.mem_of_mem_filter ht')
  have hanswered : ∀ x ∈ (t.arg, answer) :: s.answers, x.1.seq ≤ s.box.requestSeq := by
    intro x hx
    rcases List.mem_cons.mp hx with rfl | hx
    · exact hbox.asked t ht
    · exact hbox.answered x hx
  have hthere : ∀ {P : Prop}, s.mounted = false → P :=
    fun hgone => absurd hmounted (by simp [hgone])
  by_cases hc : t.cancelled
  · -- It does not count, and what was awaited still is.
    have hlive := hbox.tidy.live_settle_cancelled hsettle hc
    rw [receive_dropped hsettle (.inl hc)]
    exact
      { box := fun _ =>
          { tidy := htidy, asked := hasked, answered := hanswered
            idle := hbox.idle, held := hbox.held
            calls := hbox.calls.imp (fun ha => ⟨ha.pending, ha.asked, hlive ▸ ha.live⟩)
              fun hr => ⟨hr.pending, hlive ▸ hr.live, hr.shown.imp_right
                fun ⟨r, a, hmem, hra⟩ => ⟨r, a, List.mem_cons_of_mem _ hmem, hra⟩⟩ }
        gone := hthere
        shown := h.shown_cons (t.arg, answer)
        selected := h.selected_cons (t.arg, answer) }
  · have hawaits := hbox.calls.resolve_right fun hrests =>
      hc (Effect.cancelled_of_live_nil hrests.live hsettle)
    obtain ⟨t', hlive, hseq, hq⟩ := hawaits.live
    obtain ⟨rfl, hleft⟩ := Effect.live_settle_one hlive hsettle (by simpa using hc)
    obtain ⟨isOpen, toasts, hsettled⟩ := settled_of_live
      { s with box := { s.box with calls }, answers := (t.arg, answer) :: s.answers } answer
      (by simpa using hc) hseq
    rw [Search.receive, hsettle]
    dsimp only
    rw [hsettled]
    exact
      { box := fun _ =>
          { tidy := htidy, asked := hasked, answered := hanswered
            idle := hbox.idle, held := hbox.held
            calls := .inr ⟨rfl, hleft, .inr
              ⟨t.arg, answer, List.mem_cons_self, hseq, hq, rfl⟩⟩ }
        gone := hthere
        shown := fun f hf => ⟨_, List.mem_cons_self, hf⟩
        selected := h.selected_cons (t.arg, answer) }

theorem Sound.receive (h : s.Sound) (id : Nat) (answer : Answer) :
    (s.receive id answer).Sound := by
  cases hsettle : s.box.calls.settle id with
  | none => simpa only [Search.receive, hsettle] using h
  | some p =>
    cases hmounted : s.mounted with
    | false => exact h.receive_gone hmounted hsettle
    | true => exact h.receive_mounted hmounted hsettle

theorem Sound.handleSelect (h : s.Sound) (hmounted : s.mounted = true) (index : Nat) :
    (s.handleSelect index).Sound := by
  unfold Search.handleSelect
  by_cases hshown : s.box.showDropdown
  · rw [if_pos hshown]
    cases hfeature : s.box.results[index]? with
    | none => exact h
    | some feature =>
      obtain ⟨x, hx, hf⟩ := h.shown feature (List.mem_of_getElem? hfeature)
      refine h.commit hmounted ((h.box hmounted).commit_query (.inl rfl)) (fun f hf => hf)
        fun p hp => ?_
      rcases List.mem_cons.mp hp with rfl | hp
      · exact ⟨x, hx, feature, hf, rfl⟩
      · exact h.selected p hp
  · rw [if_neg hshown]
    exact h

theorem Sound.open (h : s.Sound) (isOpen : Bool) :
    Sound { s with box := { s.box with isOpen } } where
  box hmounted := (h.box hmounted).open isOpen
  gone := h.gone
  shown := h.shown
  selected := h.selected

theorem Sound.unmount (h : s.Sound) (hmounted : s.mounted = true) :
    Sound { s with mounted := false, box := s.box.unmount } where
  box hmounted := nomatch hmounted
  gone _ := ⟨rfl, (h.box hmounted).tidy.live_cleanup⟩
  shown := h.shown
  selected := h.selected

theorem Sound.handle (h : s.Sound) (hmounted : s.mounted = true) (act : SearchAct) :
    (s.handle act).Sound := by
  have hbox := h.box hmounted
  cases act with
  | type text =>
    exact h.commit hmounted (hbox.commit_query (.inl rfl)) (fun f hf => hf) h.selected
  | focus => exact h.open true
  | blur => exact h.open false
  | clear =>
    have hshort : wanted "" = "" := by decide +kernel
    exact h.commit hmounted (hbox.commit_query (.inr ⟨hshort, rfl⟩)) (fun f hf => nomatch hf)
      h.selected
  | select index => exact h.handleSelect hmounted index
  | timerFires proximity =>
    cases htimer : s.box.timer with
    | none => simpa only [Search.handle, htimer] using h
    | some text =>
      simp only [Search.handle, htimer]
      exact h.commit hmounted (hbox.commit_timer htimer proximity) (fun f hf => hf) h.selected
  | unmount => exact h.unmount hmounted
  | answer id answer => exact h.receive id answer

theorem step_mounted (hmounted : s.mounted = true) (act : SearchAct) :
    s.step act = s.handle act := if_pos hmounted

theorem step_answer (id : Nat) (answer : Answer) :
    s.step (.answer id answer) = s.receive id answer := by
  cases hmounted : s.mounted <;> simp [Search.step, Search.handle, hmounted]

theorem step_gone (hgone : s.mounted = false) (act : SearchAct) :
    s.step act = s ∨ ∃ id answer, s.step act = s.receive id answer := by
  cases act with
  | answer id answer => exact .inr ⟨id, answer, step_answer id answer⟩
  | _ =>
    left
    simp [Search.step, hgone]

theorem Sound.step (h : s.Sound) (act : SearchAct) : (s.step act).Sound := by
  cases hmounted : s.mounted with
  | true =>
    rw [step_mounted hmounted]
    exact h.handle hmounted act
  | false =>
    rcases step_gone hmounted act with hsame | ⟨id, answer, hreceive⟩
    · rwa [hsame]
    · rw [hreceive]
      exact h.receive id answer

/-- What a user sees once the debounce is over and the request answered, what is
said to have no results, and where the map was sent. An answer that comes late
only counts as come, and nothing else happens once the box is gone. -/
structure Shows (s : Search) : Prop where
  current : s.mounted = true → s.box.timer = none → s.box.pending = false →
    wanted s.box.query = "" ∧ s.box.results = [] ∨
      ∃ r a, Newest s.answers (wanted s.box.query) r a ∧ s.box.results = outcome a
  hint : s.mounted = true → s.box.showEmptyHint →
    ∃ r a, Newest s.answers s.box.debouncedQuery r a ∧ outcome a = []
  late : ∀ id t calls answer, s.box.calls.settle id = some (t, calls) →
    t.arg.seq ≠ s.box.requestSeq ∨ s.box.debouncedQuery = "" ∨ s.mounted = false →
      s.step (.answer id answer) =
        { s with box := { s.box with calls }, answers := (t.arg, answer) :: s.answers }
  gone : s.mounted = false → ∀ act, s.step act = s ∨
    ∃ id t calls answer, s.box.calls.settle id = some (t, calls) ∧ act = .answer id answer
  selected : ∀ p ∈ s.selected, ∃ x ∈ s.answers, ∃ f ∈ outcome x.2, p = (f.center.2, f.center.1)

theorem Sound.newest (h : s.Sound) (hmounted : s.mounted = true)
    (hpending : s.box.pending = false) (hq : s.box.debouncedQuery ≠ "") :
    ∃ r a, Newest s.answers s.box.debouncedQuery r a ∧ s.box.results = outcome a := by
  have hbox := h.box hmounted
  have hrests := hbox.calls.resolve_left fun hawaits => by simp [hawaits.pending] at hpending
  obtain ⟨r, a, hmem, hseq, hasked, hshown⟩ := hrests.shown.resolve_left fun hnone => hq hnone.1
  exact ⟨r, a, ⟨hmem, hasked, fun x hx => hseq ▸ hbox.answered x hx⟩, hshown⟩

theorem Sound.shows (h : s.Sound) : s.Shows where
  current hmounted htimer hpending := by
    have hbox := h.box hmounted
    rw [← hbox.idle htimer]
    by_cases hq : s.box.debouncedQuery = ""
    · have hrests := hbox.rests hq
      rcases hrests.shown with hnone | ⟨r, a, hmem, hseq, hasked, hshown⟩
      · exact .inl hnone
      · exact .inr ⟨r, a, ⟨hmem, hasked, fun x hx => hseq ▸ hbox.answered x hx⟩, hshown⟩
    · exact .inr (h.newest hmounted hpending hq)
  hint hmounted hhint := by
    have hbox := h.box hmounted
    simp only [SearchBox.showEmptyHint, Bool.and_eq_true, Bool.not_eq_true', decide_eq_true_eq]
      at hhint
    obtain ⟨⟨⟨hopen, hpending⟩, hdropdown⟩, hlong⟩ := hhint
    have hq := SearchBox.utf16Length_pos hlong
    obtain ⟨r, a, hnewest, hshown⟩ := h.newest hmounted hpending hq
    refine ⟨r, a, hnewest, ?_⟩
    -- The dropdown is only hidden because there is nothing in it.
    have hquery : minQueryLength ≤ utf16Length (trimText s.box.query) := by
      by_contra hshort
      exact hq (hbox.debounced (SearchBox.wanted_eq_empty.mpr (Nat.lt_of_not_le hshort)))
    rw [← hshown]
    by_contra hresults
    have hpos := List.length_pos_iff.mpr hresults
    simp [SearchBox.showDropdown, hopen, hpos, hquery] at hdropdown
  late id t calls answer hsettle hlate := by
    have hdropped : t.cancelled = true ∨ t.arg.seq ≠ s.box.requestSeq := by
      cases hmounted : s.mounted with
      | false => exact .inl (h.dropped hmounted hsettle)
      | true =>
        rcases hlate with hseq | hq | hgone
        · exact .inr hseq
        · exact .inl (Effect.cancelled_of_live_nil ((h.box hmounted).rests hq).live hsettle)
        · simp [hmounted] at hgone
    rw [step_answer, receive_dropped hsettle hdropped]
  gone hgone act := by
    cases act with
    | answer id answer =>
      cases hsettle : s.box.calls.settle id with
      | none => exact .inl (by simp [step_answer, Search.receive, hsettle])
      | some p => exact .inr ⟨id, p.1, p.2, answer, hsettle, rfl⟩
    | _ => exact .inl (by simp [Search.step, hgone])
  selected := h.selected

end

end Search

end HcMap.Map
