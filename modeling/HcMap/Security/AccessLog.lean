import HcMap.Lib.Redact

/-!
# The access log

`logging_middleware.py`: each request leaves one line, with the template of its
route or, if it matches none, with its path without the identifiers in it.
-/

namespace HcMap.Security.AccessLog

open Redact (Token)

structure Unicode where
  isalnum : Char → Bool
  ascii : ∀ c, c.toNat < 128 → isalnum c = c.isAlphanum

def Unicode.word (u : Unicode) (c : Char) : Bool := u.isalnum c || c = '_'

def hexadecimal (c : Char) : Bool := c ∈ "0123456789abcdefABCDEF".toList

def hyphen (c : Char) : Bool := c = '-'

def uuidShape : List (Char → Bool) :=
  [hyphen].intercalate ([8, 4, 4, 4, 12].map fun n => List.replicate n hexadecimal)

def redactedUuid : List Char := "\x7bredacted_uuid\x7d".toList

theorem word_hexadecimal (u : Unicode) {c : Char} (h : hexadecimal c) : u.word c := by
  have hall : ∀ d ∈ "0123456789abcdefABCDEF".toList, d.toNat < 128 ∧ d.isAlphanum := by simp
  obtain ⟨hascii, halnum⟩ := hall c (by simpa [hexadecimal] using h)
  rw [Unicode.word, u.ascii c hascii, halnum]
  rfl

def uuidToken (u : Unicode) : Token where
  word := u.word
  shape := uuidShape
  mark := redactedUuid
  starts := by
    rintro p hp c hc
    cases Option.some.inj hp
    exact word_hexadecimal u hc
  ends := by
    rintro p hp c hc
    cases Option.some.inj hp
    exact word_hexadecimal u hc
  filled := List.cons_ne_nil _ _
  opens := by
    refine ⟨_, _, rfl, ?_, by decide⟩
    rw [Unicode.word, u.ascii _ (by decide)]
    rfl
  apart := by decide

-- ---------------------------------------------------------------------------
-- The middleware
-- ---------------------------------------------------------------------------

/-- What the middleware reads of a request. `template` is the path of the route
that the application has matched, and is only there once it has answered. -/
structure Request where
  method : String
  path : List Char
  template : Option (List Char)
  requestId : Option String

inductive Outcome
  | raised
  | answered (statusCode : Nat)

inductive Level
  | info | warning | error
  deriving DecidableEq

structure LogLine where
  level : Level
  event : String
  method : Option String
  route : Option (List Char)
  status : Option Nat
  requestId : Option String
  deriving DecidableEq

section
variable (u : Unicode)

def routeTemplate (request : Request) : List Char :=
  match request.template.filter (· ≠ []) with
  | some template => template
  | none => (uuidToken u).sub 0 none request.path

def levelForStatus (status : Nat) : Level :=
  if status ≥ 500 then .error else if status ≥ 400 then .warning else .info

/-- The lines of a request, without their times. `freshId` is what `uuid4` gives. -/
def requestLogger (freshId : String) (request : Request) (outcome : Outcome) : List LogLine :=
  let requestId := (request.requestId.filter (· ≠ "")).getD freshId
  let line (level : Level) (status : Nat) : LogLine :=
    ⟨level, "http.request", some request.method, some (routeTemplate u request), some status,
      some requestId⟩
  match outcome with
  | .raised => [line .error 500]
  | .answered statusCode =>
    line (levelForStatus statusCode) statusCode ::
      if "/auth/login".toList.isSuffixOf request.path ∧ 400 ≤ statusCode ∧ statusCode < 500 then
        [⟨.warning, "auth.login.failed", none, none, some statusCode, some requestId⟩]
      else if "/auth/logout".toList.isSuffixOf request.path ∧ statusCode < 400 then
        [⟨.info, "auth.logout.success", none, none, none, some requestId⟩]
      else []

end

-- ---------------------------------------------------------------------------
-- No identifier is logged
-- ---------------------------------------------------------------------------

section
variable {u : Unicode} {freshId : String} {request : Request} {outcome : Outcome} {line : LogLine}

theorem route_of_line (h : line ∈ requestLogger u freshId request outcome) :
    line.route = some (routeTemplate u request) ∨ line.route = none := by
  cases outcome with
  | raised =>
    rw [List.mem_singleton.mp h]
    exact .inl rfl
  | answered statusCode =>
    rcases List.mem_cons.mp h with rfl | hline
    · exact .inl rfl
    · split_ifs at hline
      · rw [List.mem_singleton.mp hline]
        exact .inr rfl
      · rw [List.mem_singleton.mp hline]
        exact .inr rfl
      · cases hline

def IsUuid (u : Unicode) (text : List Char) : Prop := (uuidToken u).Is text

theorem not_isUuid_of_free {route : List Char} (h : (uuidToken u).Free none route)
    {segment : List Char} (hsegment : segment ∈ route.splitOn '/') : ¬ IsUuid u segment := by
  have hslash : (uuidToken u).word '/' = false := by
    show u.word '/' = false
    rw [Unicode.word, u.ascii _ (by decide)]
    rfl
  have htext : ['/'].intercalate (route.splitOn '/') = route := List.intercalate_splitOn '/'
  rw [← htext] at h
  exact h.not_is hslash rfl hsegment

/-- No template has an identifier in it; then no line has one as a segment of its
route, and the path of a request without a route is logged unchanged if it has
none. -/
theorem log_discreet (u : Unicode) (freshId : String) (request : Request) (outcome : Outcome)
    (htemplate : ∀ template ∈ request.template, (uuidToken u).Free none template) :
    (∀ line ∈ requestLogger u freshId request outcome, ∀ route ∈ line.route,
        ∀ segment ∈ route.splitOn '/', ¬ IsUuid u segment) ∧
      (request.template = none → (uuidToken u).Free none request.path →
        routeTemplate u request = request.path) := by
  have hfree : (uuidToken u).Free none (routeTemplate u request) := by
    unfold routeTemplate
    cases hroute : request.template.filter (· ≠ []) with
    | none => exact Token.free_sub (.inl rfl)
    | some template => exact htemplate template (Option.filter_eq_some_iff.mp hroute).1
  refine ⟨fun line hline route hroute segment hsegment => ?_, fun hroute hpath => ?_⟩
  · rcases route_of_line hline with hlogged | hnone
    · rw [hlogged] at hroute
      cases Option.some.inj hroute
      exact not_isUuid_of_free hfree hsegment
    · rw [hnone] at hroute
      cases hroute
  · rw [routeTemplate, hroute]
    exact Token.sub_of_free hpath

def asciiOnly : Unicode := ⟨Char.isAlphanum, fun _ _ => rfl⟩

def sampleRequest : Request where
  method := "GET"
  path := "/api/nonexistent/deadbeef-1234-5678-9abc-deadbeefdead".toList
  template := none
  requestId := none

example : routeTemplate asciiOnly sampleRequest =
    "/api/nonexistent/\x7bredacted_uuid\x7d".toList := by
  decide +kernel

theorem log_discreet_sample :
    (requestLogger asciiOnly "1" sampleRequest (.answered 404)).length = 1 ∧
      ∀ line ∈ requestLogger asciiOnly "1" sampleRequest (.answered 404), ∀ route ∈ line.route,
        ∀ segment ∈ route.splitOn '/', ¬ IsUuid asciiOnly segment :=
  ⟨rfl, (log_discreet asciiOnly "1" sampleRequest (.answered 404) (by simp [sampleRequest])).1⟩

end

end HcMap.Security.AccessLog
