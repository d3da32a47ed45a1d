import HcMap.Lib.Cookies
import HcMap.Lib.Run

/-!
# The double-submitted token

A login sets the cookie `hcmap_csrf`, which scripts may read. `api.ts` and
`replication.ts` read it, each in its own way, and send it as a header;
`csrf.py` lets a request that changes something pass only if the header equals
the cookie.
-/

namespace HcMap.Security

open Cookies Run

def csrfCookie : List Char := "hcmap_csrf".toList

def sessionCookie : List Char := "hcmap_session".toList

-- ---------------------------------------------------------------------------
-- The clients
-- ---------------------------------------------------------------------------

/-- What an escape sequence stands for is left open; a token has none. -/
def decodeURIComponent (unescape : List Char → List Char) (text : List Char) : List Char :=
  if '%' ∈ text then unescape text else text

section
variable (unescape : List Char → List Char) (cookie : List Char)

def readCookie (name : List Char) : Option (List Char) :=
  (lookup cookie name).map (decodeURIComponent unescape)

def readCsrfCookie : Option (List Char) :=
  (firstMatch csrfCookie cookie).map (decodeURIComponent unescape)

def mutationMethods : List String := ["POST", "PUT", "PATCH", "DELETE"]

def apiFetchHeader (method : String) : Option (List Char) :=
  if method ∈ mutationMethods then (readCookie unescape cookie csrfCookie).filter (· ≠ [])
  else none

/-- The header of a push; without a token the handler throws. -/
def pushHeader : Option (List Char) := (readCsrfCookie unescape cookie).filter (· ≠ [])

end

-- ---------------------------------------------------------------------------
-- The middleware
-- ---------------------------------------------------------------------------

def safeMethods : List String := ["GET", "HEAD", "OPTIONS"]

def whitelistPrefixes : List String :=
  ["/api/health", "/api/auth/login", "/api/auth/logout", "/api/auth/forgot-password",
    "/api/auth/reset-password", "/api/auth/request-verify-token", "/api/auth/verify",
    "/api/openapi.json", "/api/docs"]

def isWhitelisted (path : String) : Bool :=
  whitelistPrefixes.any fun p => p.toList.isPrefixOf path.toList

/-- The request goes on, is answered 403, or `compare_digest` raises on text
that is not ASCII. -/
inductive Verdict
  | next | forbidden | raised
  deriving DecidableEq

def compareDigest (a b : List Char) : Verdict :=
  if (a ++ b).all (·.toNat < 128) then if a = b then .next else .forbidden else .raised

/-- `CSRFMiddleware.dispatch`; `cookies` is what the framework reads a cookie
of a name from the header `Cookie` by. -/
def dispatch (cookies : List Char → List Char → Option (List Char)) (cookieHeader : List Char)
    (method path : String) (header : Option (List Char)) : Verdict :=
  if method ∈ safeMethods ∨ isWhitelisted path then .next
  else
    match (cookies cookieHeader csrfCookie).filter (· ≠ []), header.filter (· ≠ []) with
    | some cookie, some header => compareDigest cookie header
    | _, _ => .forbidden

-- ---------------------------------------------------------------------------
-- The browser
-- ---------------------------------------------------------------------------

/-- The cookies of the site, and the token of the latest login that has not been
taken back. -/
structure Browser where
  jar : Jar
  issued : Option (List Char)

inductive CookieAct
  -- The answer to a login.
  | login (session token : List Char)
  | logout
  -- Any other cookie of the site.
  | other (c : Cookie)
  | expired (name : List Char)

namespace Browser

variable (b : Browser)

def documentCookie : List Char := joined (b.jar.filter (!·.httpOnly))

def cookieHeader : List Char := joined b.jar

def expire (name : List Char) : Browser :=
  { jar := delete b.jar name, issued := if name = csrfCookie then none else b.issued }

def step : CookieAct → Browser
  | .login session token =>
    { jar :=
        Cookies.set (Cookies.set b.jar ⟨sessionCookie, session, true⟩) ⟨csrfCookie, token, false⟩
      issued := some token }
  | .logout => (b.expire sessionCookie).expire csrfCookie
  | .other c => { b with jar := Cookies.set b.jar c }
  | .expired name => b.expire name

end Browser

-- ---------------------------------------------------------------------------
-- What holds at any moment
-- ---------------------------------------------------------------------------

def urlSafe (x : Char) : Bool := x.isAlphanum || x = '-' || x = '_'

def Token (token : List Char) : Prop := token ≠ [] ∧ ∀ x ∈ token, urlSafe x = true

/-- Cookies are set with sound texts, and nothing but a login sets the token. -/
def Honest (_ : Browser) : CookieAct → Prop
  | .login session token => (Cookie.mk sessionCookie session true).Sound ∧ Token token
  | .other c => c.Sound ∧ c.name ≠ csrfCookie
  | _ => True

def Parses (cookies : List Char → List Char → Option (List Char)) : Prop :=
  ∀ jar : Jar, Cookies.Sound jar → (∀ c ∈ jar, c.name = csrfCookie → Token c.value) →
    cookies (joined jar) csrfCookie = find jar csrfCookie

structure Guarded (unescape : List Char → List Char)
    (cookies : List Char → List Char → Option (List Char)) (b : Browser) : Prop where
  apiFetch : ∀ method ∈ mutationMethods, apiFetchHeader unescape b.documentCookie method = b.issued
  push : pushHeader unescape b.documentCookie = b.issued
  server : ∀ method path header,
    dispatch cookies b.cookieHeader method path header = .next ↔
      method ∈ safeMethods ∨ isWhitelisted path ∨
        ∃ token, b.issued = some token ∧ header = some token

structure Browser.Sound (b : Browser) : Prop where
  jar : Cookies.Sound b.jar
  issued : find b.jar csrfCookie = b.issued
  tokens : ∀ c ∈ b.jar, c.name = csrfCookie → Token c.value ∧ c.httpOnly = false

section
variable {unescape : List Char → List Char}
  {cookies : List Char → List Char → Option (List Char)} {b : Browser} {x : Char}
  {token : List Char}

theorem urlSafe_bounds (h : urlSafe x = true) :
    45 ≤ x.toNat ∧ x.toNat ≤ 122 ∧ x.toNat ≠ 59 := by
  simp only [urlSafe, Char.isAlphanum, Bool.or_eq_true, decide_eq_true_eq] at h
  rcases h with ((hletter | hdigit) | rfl) | rfl
  · have hcase : (decide (x.val ≥ 65 ∧ x.val ≤ 90) ||
        decide (x.val ≥ 97) && decide (x.val ≤ 122)) = true := hletter
    simp only [Bool.or_eq_true, Bool.and_eq_true, decide_eq_true_eq] at hcase
    change (65 ≤ x.toNat ∧ x.toNat ≤ 90) ∨ (97 ≤ x.toNat ∧ x.toNat ≤ 122) at hcase
    omega
  · have hbounds : (decide (x.val ≥ 48) && decide (x.val ≤ 57)) = true := hdigit
    simp only [Bool.and_eq_true, decide_eq_true_eq] at hbounds
    change 48 ≤ x.toNat ∧ x.toNat ≤ 57 at hbounds
    omega
  · decide
  · decide

theorem Token.plain (h : Token token) : ∀ x ∈ token, x ≠ ';' ∧ Decimal.isSpace x = false := by
  intro x hx
  obtain ⟨hge, hle, hne⟩ := urlSafe_bounds (h.2 x hx)
  refine ⟨fun heq => hne (heq ▸ rfl), ?_⟩
  simp only [Decimal.isSpace, List.mem_cons, List.not_mem_nil, or_false, Bool.or_eq_false_iff,
    decide_eq_false_iff_not, Bool.and_eq_false_imp, decide_eq_true_eq]
  omega

theorem Token.ascii (h : Token token) : token.all (·.toNat < 128) = true := by
  refine List.all_eq_true.mpr fun x hx => ?_
  have hbounds := urlSafe_bounds (h.2 x hx)
  simp only [decide_eq_true_eq]
  omega

theorem Token.decoded (h : Token token) : decodeURIComponent unescape token = token := by
  refine if_neg fun hmem => ?_
  have hbounds := urlSafe_bounds (h.2 _ hmem)
  exact absurd hbounds.1 (by decide)

theorem compareDigest_next {a b : List Char} (h : a.all (·.toNat < 128) = true) :
    compareDigest a b = .next ↔ a = b := by
  unfold compareDigest
  constructor
  · intro hnext
    split at hnext
    · split at hnext
      · assumption
      · cases hnext
    · cases hnext
  · rintro rfl
    simp [List.all_append, h]

theorem Browser.Sound.setOther {c : Cookie} (h : b.Sound) (hc : c.Sound)
    (hname : c.name ≠ csrfCookie) : Browser.Sound { b with jar := Cookies.set b.jar c } where
  jar := h.jar.set hc
  issued := by rw [find_set, if_neg (Ne.symm hname), h.issued]
  tokens d hd hdname := by
    rcases mem_set hd with rfl | hd
    · exact absurd hdname hname
    · exact h.tokens d hd hdname

theorem Browser.Sound.setToken (h : b.Sound) (ht : Token token) :
    Browser.Sound
      { jar := Cookies.set b.jar ⟨csrfCookie, token, false⟩, issued := some token } where
  jar := h.jar.set
    { name_ne := show csrfCookie ≠ [] by decide
      name := (List.forall_iff_forall_mem (l := csrfCookie)).mp (by decide)
      value := ht.plain }
  issued := by rw [find_set, if_pos rfl]
  tokens d hd hdname := by
    rcases mem_set hd with rfl | hd
    · exact ⟨ht, rfl⟩
    · exact h.tokens d hd hdname

theorem Browser.Sound.expire (h : b.Sound) (name : List Char) : (b.expire name).Sound where
  jar := h.jar.filter _
  issued := by
    rw [Browser.expire, find_delete, h.issued]
    by_cases hname : name = csrfCookie
    · rw [if_pos hname.symm, if_pos hname]
    · rw [if_neg (Ne.symm hname), if_neg hname]
  tokens d hd := h.tokens d (List.mem_of_mem_filter hd)

theorem Browser.Sound.step {act : CookieAct} (h : b.Sound) (hact : Honest b act) :
    (b.step act).Sound := by
  cases act with
  | login session token =>
    have hsession := h.setOther hact.1 (show sessionCookie ≠ csrfCookie by decide)
    exact hsession.setToken hact.2
  | logout => exact (h.expire sessionCookie).expire csrfCookie
  | other c => exact h.setOther hact.1 hact.2
  | expired name => exact h.expire name

theorem Browser.Sound.find_documentCookie (h : b.Sound) :
    find (b.jar.filter (!·.httpOnly)) csrfCookie = b.issued := by
  rw [find_filter fun c hc hname => by simp [(h.tokens c hc hname).2], h.issued]

theorem Browser.Sound.isToken (h : b.Sound) (hissued : b.issued = some token) : Token token := by
  obtain ⟨c, hc, rfl⟩ := Option.map_eq_some_iff.mp (h.issued.trans hissued)
  exact (h.tokens c (List.mem_of_find?_eq_some hc) (by simpa using List.find?_some hc)).1

theorem Browser.Sound.filter_issued (h : b.Sound) :
    (b.issued.map (decodeURIComponent unescape)).filter (· ≠ []) = b.issued := by
  cases hissued : b.issued with
  | none => rfl
  | some token =>
    have ht := h.isToken hissued
    simp [ht.decoded, Option.filter, ht.1]

theorem Browser.Sound.guarded (h : b.Sound) (hcookies : Parses cookies) :
    Guarded unescape cookies b where
  apiFetch method hmethod := by
    have hjar := h.jar.filter (!·.httpOnly)
    rw [apiFetchHeader, if_pos hmethod, readCookie, Browser.documentCookie,
      lookup_joined hjar.cookies (by decide), h.find_documentCookie, h.filter_issued]
  push := by
    have hjar := h.jar.filter (!·.httpOnly)
    have hvalue : ∀ c ∈ b.jar.filter (!·.httpOnly), c.name = csrfCookie → c.value ≠ [] :=
      fun c hc hname => (h.tokens c (List.mem_of_mem_filter hc) hname).1.1
    rw [pushHeader, readCsrfCookie, Browser.documentCookie,
      firstMatch_eq_find hjar.cookies (by decide) hvalue, h.find_documentCookie, h.filter_issued]
  server method path header := by
    have hread : cookies b.cookieHeader csrfCookie = b.issued :=
      (hcookies b.jar h.jar fun c hc hname => (h.tokens c hc hname).1).trans h.issued
    unfold dispatch
    rw [hread, ← or_assoc]
    by_cases hfree : method ∈ safeMethods ∨ isWhitelisted path
    · simp [hfree]
    simp only [hfree, if_false, false_or]
    cases hissued : b.issued with
    | none => simp
    | some token =>
      have ht := h.isToken hissued
      rw [Option.filter_some_pos (by simpa using ht.1)]
      cases header with
      | none => simp
      | some text =>
        by_cases htext : text = []
        · subst htext
          simp [ht.1, Option.filter]
        · rw [Option.filter_some_pos (by simpa using htext)]
          simp only [compareDigest_next ht.ascii, Option.some.injEq, exists_eq_left', eq_comm]

end

/-- In every run of logins, logouts and other cookies, both clients read the token
of the latest login and the requests they send with it pass; any other request
that changes something is refused. -/
theorem handshake (unescape : List Char → List Char)
    {cookies : List Char → List Char → Option (List Char)} (hcookies : Parses cookies)
    {acts : List CookieAct} (hacts : Along Browser.step Honest ⟨[], none⟩ acts) :
    Always Browser.step (Guarded unescape cookies) ⟨[], none⟩ acts := by
  have hstart : Browser.Sound ⟨[], none⟩ := ⟨⟨nofun, List.nodup_nil⟩, rfl, nofun⟩
  exact hacts.always hstart (fun _ _ h hact => h.step hact) fun _ h => h.guarded hcookies

theorem handshake_sample :
    Always Browser.step (Guarded id lookup) ⟨[], none⟩
      [.other ⟨['a'], ['1'], false⟩, .login ['s'] ['t', '-', '1']] := by
  have hparses : Parses lookup := fun jar hjar _ => lookup_joined hjar.cookies (by decide)
  have hletter : (Cookie.mk ['a'] ['1'] false).Sound :=
    ⟨by decide, List.forall_iff_forall_mem.mp (by decide),
      List.forall_iff_forall_mem.mp (by decide)⟩
  have hsession : (Cookie.mk sessionCookie ['s'] true).Sound :=
    ⟨by decide, List.forall_iff_forall_mem.mp (by decide),
      List.forall_iff_forall_mem.mp (by decide)⟩
  have htoken : Token ['t', '-', '1'] :=
    ⟨by decide, List.forall_iff_forall_mem.mp (by decide)⟩
  exact handshake id hparses ⟨⟨hletter, by decide⟩, ⟨hsession, htoken⟩, trivial⟩

end HcMap.Security
