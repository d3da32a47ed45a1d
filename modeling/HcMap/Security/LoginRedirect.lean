import Mathlib.Data.List.TakeWhile
import HcMap.Lib.Percent

/-!
# The way through the login

`proxy.ts` sends a visitor without a session to the login page and puts the page
they asked for into `next`; `login-form.tsx` goes there once they are logged in.
-/

namespace HcMap.Security

-- ---------------------------------------------------------------------------
-- The addresses of the site
-- ---------------------------------------------------------------------------

def isControl (c : Char) : Bool := c = '\t' || c = '\n' || c = '\r'

/-- `pathname` and `search` of a URL that the platform has parsed. -/
structure Address where
  pathname : List Char
  search : List Char
  rooted : ∃ rest, pathname = '/' :: rest
  plainPath : ∀ c ∈ pathname, c ≠ '?' ∧ c ≠ '#' ∧ c ≠ '\\' ∧ isControl c = false
  plainSearch : ∀ c ∈ search, c ≠ '#' ∧ isControl c = false
  query : search = [] ∨ ∃ c cs, search = '?' :: c :: cs

def isSlash (c : Char) : Bool := c = '/' || c = '\\'

def namesHost : List Char → Bool
  | c :: d :: _ => isSlash c && isSlash d
  | _ => false

/-- The page of this site that a text beginning with a slash leads to; `none` if
the text names a host. -/
def resolve (target : List Char) : Option (List Char × List Char) :=
  let text := target.filter (isControl · = false)
  if namesHost text then none
  else
    let body := text.takeWhile (· ≠ '#')
    let search := body.dropWhile (· ≠ '?')
    some ((body.takeWhile (· ≠ '?')).map fun c => if c = '\\' then '/' else c,
      if search = ['?'] then [] else search)

-- ---------------------------------------------------------------------------
-- The two sides
-- ---------------------------------------------------------------------------

def publicPaths : List (List Char) :=
  ["/login".toList, "/forgot-password".toList, "/reset-password".toList]

def isPublic (pathname : List Char) : Bool :=
  "/api".toList.isPrefixOf pathname || "/_next".toList.isPrefixOf pathname ||
    pathname = "/favicon.ico".toList ||
    publicPaths.any fun p => pathname = p || (p ++ ['/']).isPrefixOf pathname

inductive Reply
  | next
  /-- The path and the query of the `Location`. -/
  | redirect (pathname : List Char) (query : String)
  deriving DecidableEq

def loginQuery (pathname search : List Char) : String :=
  String.ofList <| Percent.serialize <|
    if pathname ≠ ['/'] then [("next".toList, pathname ++ search)] else []

def proxy (pathname search : List Char) (session : Option String) : Reply :=
  if isPublic pathname then .next
  else if (session.filter (· ≠ "")).isSome then .next
  else .redirect "/login".toList (loginQuery pathname search)

def loginTarget (unescape : Query.Unescape) (query : String) : List Char :=
  match Query.get unescape query "next" with
  | some next => if "/".toList.isPrefixOf next.toList then next.toList else ['/']
  | none => ['/']

-- ---------------------------------------------------------------------------
-- There and back
-- ---------------------------------------------------------------------------

section
variable {address : Address} {lossy : List UInt8 → List Char} {session : Option String}

theorem Address.namesHost_append :
    namesHost (address.pathname ++ address.search) = namesHost address.pathname := by
  obtain ⟨rest, hrest⟩ := address.rooted
  rw [hrest]
  cases rest with
  | nil =>
    rcases address.query with hquery | ⟨c, cs, hquery⟩
    · rw [hquery, List.append_nil]
    · rw [hquery]
      rfl
  | cons d rest => rfl

theorem Address.takeWhile_query :
    (address.pathname ++ address.search).takeWhile (· ≠ '?') = address.pathname := by
  rw [List.takeWhile_append_of_pos fun c hc => decide_eq_true (address.plainPath c hc).1]
  rcases address.query with hquery | ⟨c, cs, hquery⟩ <;> simp [hquery]

theorem Address.dropWhile_query :
    (address.pathname ++ address.search).dropWhile (· ≠ '?') = address.search := by
  rw [List.dropWhile_append_of_pos fun c hc => decide_eq_true (address.plainPath c hc).1]
  rcases address.query with hquery | ⟨c, cs, hquery⟩ <;> simp [hquery]

theorem Address.plain {c : Char} (hc : c ∈ address.pathname ++ address.search) :
    c ≠ '#' ∧ isControl c = false := by
  rcases List.mem_append.mp hc with hpath | hsearch
  · exact ⟨(address.plainPath c hpath).2.1, (address.plainPath c hpath).2.2.2⟩
  · exact address.plainSearch c hsearch

/-- A parsed URL is parsed again as it is, unless its path begins with two slashes. -/
theorem Address.resolve_text :
    resolve (address.pathname ++ address.search) =
      if namesHost address.pathname then none else some (address.pathname, address.search) := by
  have htext : (address.pathname ++ address.search).filter (isControl · = false) =
      address.pathname ++ address.search :=
    List.filter_eq_self.mpr fun c hc => decide_eq_true (address.plain hc).2
  have hbody : (address.pathname ++ address.search).takeWhile (· ≠ '#') =
      address.pathname ++ address.search :=
    List.takeWhile_eq_self_iff.mpr fun c hc => decide_eq_true (address.plain hc).1
  have hpath : (address.pathname.map fun c => if c = '\\' then '/' else c) = address.pathname := by
    refine (List.map_congr_left fun c hc => ?_).trans (List.map_id _)
    exact if_neg (address.plainPath c hc).2.2.1
  have hsearch : address.search ≠ ['?'] := by
    rcases address.query with hquery | ⟨c, cs, hquery⟩ <;> simp [hquery]
  unfold resolve
  simp only [htext, hbody, address.namesHost_append, address.takeWhile_query,
    address.dropWhile_query, hpath, if_neg hsearch]

theorem loginTarget_loginQuery :
    loginTarget (Percent.unescape lossy) (loginQuery address.pathname address.search) =
      if address.pathname = ['/'] then ['/'] else address.pathname ++ address.search := by
  rw [loginTarget, loginQuery, Percent.get_serialize]
  by_cases hroot : address.pathname = ['/']
  · simp [hroot]
  · obtain ⟨rest, hrest⟩ := address.rooted
    rw [if_pos hroot, if_neg hroot, hrest]
    simp

/-- A visitor who asks for a page without a session is sent to the login page,
which answers without one, and from there to the page they asked for. The start
page loses its query, and a path with two slashes names another host. -/
theorem login_returns (address : Address) (lossy : List UInt8 → List Char)
    (session : Option String) (hpage : isPublic address.pathname = false)
    (hsession : session.filter (· ≠ "") = none) :
    ∃ query, proxy address.pathname address.search session = .redirect "/login".toList query ∧
      (∀ search, proxy "/login".toList search session = .next) ∧
      resolve (loginTarget (Percent.unescape lossy) query) =
        if address.pathname = ['/'] then some (['/'], [])
        else if namesHost address.pathname then none
        else some (address.pathname, address.search) := by
  refine ⟨loginQuery address.pathname address.search, ?_, fun _ => rfl, ?_⟩
  · rw [proxy, hpage, hsession]
    rfl
  · rw [loginTarget_loginQuery]
    by_cases hroot : address.pathname = ['/']
    · rw [if_pos hroot, if_pos hroot]
      rfl
    · rw [if_neg hroot, if_neg hroot, address.resolve_text]

def sampleAddress : Address where
  pathname := "/events/1".toList
  search := "?q=a+b&c=%26".toList
  rooted := ⟨_, rfl⟩
  plainPath := List.forall_iff_forall_mem.mp (by decide)
  plainSearch := List.forall_iff_forall_mem.mp (by decide)
  query := .inr ⟨_, _, rfl⟩

theorem login_returns_sample :
    ∃ query, proxy "/events/1".toList "?q=a+b&c=%26".toList none =
        .redirect "/login".toList query ∧
      resolve (loginTarget (Percent.unescape fun _ => []) query) =
        some ("/events/1".toList, "?q=a+b&c=%26".toList) := by
  obtain ⟨query, hredirect, -, htarget⟩ :=
    login_returns sampleAddress (fun _ => []) none (by decide) rfl
  exact ⟨query, hredirect, htarget⟩

end

end HcMap.Security
