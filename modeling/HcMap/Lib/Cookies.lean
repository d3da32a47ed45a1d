import HcMap.Lib.Decimal
import Mathlib.Data.List.Find

/-!
# Cookie jars

The cookies of a site and the text that lists them, as a script and a server
get it: `name=value` pairs, joined by a semicolon and a space.
-/

namespace HcMap.Cookies

open Decimal (isSpace trim trim_eq_self)

structure Cookie where
  name : List Char
  value : List Char
  httpOnly : Bool
  deriving DecidableEq

def Cookie.text (c : Cookie) : List Char := c.name ++ '=' :: c.value

abbrev Jar := List Cookie

def joined : Jar → List Char
  | [] => []
  | [c] => c.text
  | c :: d :: jar => c.text ++ ';' :: ' ' :: joined (d :: jar)

def find (jar : Jar) (name : List Char) : Option (List Char) :=
  (jar.find? (·.name = name)).map Cookie.value

/-- A cookie of a name that is there takes its place. -/
def set (jar : Jar) (c : Cookie) : Jar :=
  if c.name ∈ jar.map Cookie.name then jar.map fun d => if d.name = c.name then c else d
  else jar ++ [c]

def delete (jar : Jar) (name : List Char) : Jar := jar.filter (·.name ≠ name)

def parts (text : List Char) : List (List Char) := (text.splitOn ';').map trim

def lookup (text name : List Char) : Option (List Char) :=
  ((parts text).find? fun part => (name ++ ['=']).isPrefixOf part).map (·.drop (name.length + 1))

/-- The pattern `name=([^;]+)`, at one place. -/
def matchHere (name text : List Char) : Option (List Char) :=
  if (name ++ ['=']).isPrefixOf text ∧ (text.drop (name.length + 1)).takeWhile (· ≠ ';') ≠ [] then
    some ((text.drop (name.length + 1)).takeWhile (· ≠ ';'))
  else none

/-- Behind the first semicolon, and the space after it, where it matches. -/
def matchLater (name : List Char) : List Char → Option (List Char)
  | [] => none
  | x :: text =>
    if x = ';' then (matchHere name (text.dropWhile isSpace)).or (matchLater name text)
    else matchLater name text

/-- The first match of `(?:^|;\s*)name=([^;]+)`. -/
def firstMatch (name text : List Char) : Option (List Char) :=
  (matchHere name text).or (matchLater name text)

/-- Names and values without separators. -/
structure Cookie.Sound (c : Cookie) : Prop where
  name_ne : c.name ≠ []
  name : ∀ x ∈ c.name, x ≠ '=' ∧ x ≠ ';' ∧ isSpace x = false
  value : ∀ x ∈ c.value, x ≠ ';' ∧ isSpace x = false

structure Sound (jar : Jar) : Prop where
  cookies : ∀ c ∈ jar, c.Sound
  names : (jar.map Cookie.name).Nodup

section
variable {c : Cookie} {jar : Jar} {name : List Char}

-- ---------------------------------------------------------------------------
-- Writing and reading
-- ---------------------------------------------------------------------------

theorem Cookie.Sound.text (h : c.Sound) : ∀ x ∈ c.text, x ≠ ';' ∧ isSpace x = false := by
  intro x hx
  rcases List.mem_append.mp hx with hx | hx
  · exact (h.name x hx).2
  · rcases List.mem_cons.mp hx with rfl | hx
    · exact ⟨by decide, by decide⟩
    · exact h.value x hx

theorem Cookie.Sound.trim_text (h : c.Sound) : trim c.text = c.text :=
  trim_eq_self fun x hx => (h.text x hx).2

theorem Cookie.Sound.not_mem_text (h : c.Sound) : ';' ∉ c.text :=
  fun hmem => (h.text _ hmem).1 rfl

theorem parts_space (text : List Char) : parts (' ' :: text) = parts text := by
  unfold parts
  rw [List.splitOn_cons_eq_if_modifyHead, if_neg (by decide)]
  cases htext : text.splitOn ';' with
  | nil => exact absurd htext (List.splitOn_ne_nil ';' text)
  | cons part rest =>
    have hpart : trim (' ' :: part) = trim part := by
      rw [trim, List.dropWhile_cons_of_pos (by decide), ← trim]
    simp [hpart]

theorem parts_joined (h : ∀ c ∈ jar, c.Sound) (hne : jar ≠ []) :
    parts (joined jar) = jar.map Cookie.text := by
  induction jar with
  | nil => exact absurd rfl hne
  | cons c jar ih =>
    have hc := h c List.mem_cons_self
    cases jar with
    | nil =>
      simp [joined, parts, List.splitOn_eq_singleton hc.not_mem_text, hc.trim_text]
    | cons d jar =>
      have hrest := ih (fun e he => h e (List.mem_cons_of_mem _ he)) (List.cons_ne_nil d jar)
      have hspace := parts_space (joined (d :: jar))
      rw [List.map_cons, ← hrest, ← hspace]
      simp only [joined, parts, List.splitOn_append_cons_self_of_not_mem hc.not_mem_text,
        List.map_cons, hc.trim_text]

theorem isPrefixOf_text {name' rest : List Char} (hname : '=' ∉ name) (hname' : '=' ∉ name') :
    (name ++ ['=']).isPrefixOf (name' ++ '=' :: rest) = decide (name' = name) := by
  induction name generalizing name' with
  | nil =>
    cases name' with
    | nil => simp
    | cons x name' =>
      have hx : '=' ≠ x := fun heq => hname' (heq ▸ List.mem_cons_self)
      simp [List.isPrefixOf_cons_cons, hx]
  | cons x name ih =>
    cases name' with
    | nil =>
      have hx : x ≠ '=' := fun heq => hname (heq ▸ List.mem_cons_self)
      simp [List.isPrefixOf_cons_cons, hx]
    | cons y name' =>
      have hrest := ih (fun hmem => hname (List.mem_cons_of_mem _ hmem))
        (fun hmem => hname' (List.mem_cons_of_mem _ hmem))
      rw [List.cons_append, List.cons_append, List.isPrefixOf_cons_cons, hrest, Bool.eq_iff_iff]
      simp only [Bool.and_eq_true, beq_iff_eq, decide_eq_true_eq, List.cons.injEq, @eq_comm _ x y]

theorem Cookie.Sound.isPrefixOf (h : c.Sound) (hname : '=' ∉ name) (rest : List Char) :
    (name ++ ['=']).isPrefixOf (c.text ++ rest) = decide (c.name = name) := by
  rw [Cookie.text, List.append_assoc, List.cons_append]
  exact isPrefixOf_text hname fun hmem => (h.name _ hmem).1 rfl

theorem drop_text (c : Cookie) (rest : List Char) :
    (c.text ++ rest).drop (c.name.length + 1) = c.value ++ rest := by
  have htext : c.text ++ rest = (c.name ++ ['=']) ++ (c.value ++ rest) := by simp [Cookie.text]
  rw [htext, List.drop_left' (by simp)]

theorem lookup_joined (h : ∀ c ∈ jar, c.Sound) (hname : '=' ∉ name) :
    lookup (joined jar) name = find jar name := by
  cases jar with
  | nil =>
    have hno : (name ++ ['=']).isPrefixOf (trim []) = false := by cases name <;> rfl
    simp only [lookup, find, joined, parts, List.splitOn_nil, List.map_cons, List.map_nil,
      List.find?_cons, hno, List.find?_nil, Option.map_none]
  | cons c jar =>
    have hfind : ∀ d ∈ c :: jar, (name ++ ['=']).isPrefixOf d.text = decide (d.name = name) := by
      intro d hd
      have hprefix := (h d hd).isPrefixOf hname []
      rwa [List.append_nil] at hprefix
    have hvalue : ∀ d : Cookie, d.name = name → d.text.drop (name.length + 1) = d.value := by
      rintro d rfl
      have hdrop := drop_text d []
      rwa [List.append_nil, List.append_nil] at hdrop
    have hsame : (c :: jar).find? ((fun part => (name ++ ['=']).isPrefixOf part) ∘ Cookie.text) =
        (c :: jar).find? (·.name = name) := List.find?_congr hfind
    rw [lookup, parts_joined h (List.cons_ne_nil c jar), find, List.find?_map, Option.map_map,
      hsame]
    cases hfound : (c :: jar).find? (·.name = name) with
    | none => rfl
    | some d => simp [hvalue d (by simpa using List.find?_some hfound)]

theorem matchLater_append {text rest : List Char} (h : ';' ∉ text) :
    matchLater name (text ++ rest) = matchLater name rest := by
  induction text with
  | nil => rfl
  | cons x text ih =>
    have hx : x ≠ ';' := fun heq => h (heq ▸ List.mem_cons_self)
    rw [List.cons_append, matchLater, if_neg hx, ih fun hmem => h (List.mem_cons_of_mem _ hmem)]

theorem matchHere_text (h : c.Sound) (hname : '=' ∉ name) {rest : List Char}
    (hrest : rest = [] ∨ ∃ rest', rest = ';' :: rest') :
    matchHere name (c.text ++ rest) =
      if c.name = name ∧ c.value ≠ [] then some c.value else none := by
  have hvalue : (c.value ++ rest).takeWhile (· ≠ ';') = c.value := by
    have hall : ∀ x ∈ c.value, (decide (x ≠ ';')) = true := by
      intro x hx
      simpa using (h.value x hx).1
    rw [List.takeWhile_append_of_pos hall]
    rcases hrest with rfl | ⟨rest', rfl⟩ <;> simp
  unfold matchHere
  rw [h.isPrefixOf hname]
  by_cases hn : c.name = name
  · subst hn
    rw [drop_text, hvalue]
    simp
  · simp [hn]

theorem joined_head (jar : List Cookie) (h : c.Sound) :
    ∃ x text, joined (c :: jar) = x :: text ∧ isSpace x = false := by
  obtain ⟨x, cs, hcs⟩ := List.exists_cons_of_ne_nil h.name_ne
  have hx := (h.name x (hcs ▸ List.mem_cons_self)).2.2
  cases jar with
  | nil => exact ⟨x, cs ++ '=' :: c.value, by simp [joined, Cookie.text, hcs], hx⟩
  | cons d jar =>
    exact ⟨x, cs ++ '=' :: c.value ++ ';' :: ' ' :: joined (d :: jar),
      by simp [joined, Cookie.text, hcs], hx⟩

theorem firstMatch_joined (h : ∀ c ∈ jar, c.Sound) (hname : '=' ∉ name) :
    firstMatch name (joined jar) =
      (jar.find? fun c => c.name = name ∧ c.value ≠ []).map Cookie.value := by
  induction jar with
  | nil =>
    have hno : (name ++ ['=']).isPrefixOf [] = false := by cases name <;> rfl
    simp only [firstMatch, joined, matchHere, hno, matchLater]
    rfl
  | cons c jar ih =>
    have hc := h c List.mem_cons_self
    have hjar : ∀ d ∈ jar, d.Sound := fun d hd => h d (List.mem_cons_of_mem _ hd)
    have hfind : ∀ later : Option (List Char),
        (if c.name = name ∧ c.value ≠ [] then some c.value else none).or later =
          if c.name = name ∧ c.value ≠ [] then some c.value else later := by
      intro later
      split <;> rfl
    cases jar with
    | nil =>
      have hhere := matchHere_text hc hname (.inl rfl)
      have hlater : matchLater name (c.text ++ []) = none := matchLater_append hc.not_mem_text
      rw [List.append_nil] at hhere hlater
      rw [joined, firstMatch, hhere, hlater, hfind, List.find?_cons]
      by_cases hp : c.name = name ∧ c.value ≠ [] <;> simp [hp]
    | cons d jar =>
      obtain ⟨x, text, hjoined, hx⟩ := joined_head jar (hjar d List.mem_cons_self)
      have hskip : (' ' :: joined (d :: jar)).dropWhile isSpace = joined (d :: jar) := by
        rw [List.dropWhile_cons_of_pos (by decide), hjoined,
          List.dropWhile_cons_of_neg (by simp [hx])]
      have hlater : matchLater name (c.text ++ ';' :: ' ' :: joined (d :: jar)) =
          firstMatch name (joined (d :: jar)) := by
        rw [matchLater_append hc.not_mem_text, matchLater, if_pos rfl, hskip, matchLater,
          if_neg (by decide), firstMatch]
      rw [joined, firstMatch, matchHere_text hc hname (.inr ⟨_, rfl⟩), hlater, ih hjar, hfind]
      rw [@List.find?_cons _ c (d :: jar)]
      by_cases hp : c.name = name ∧ c.value ≠ []
      · simp only [hp, not_false_eq_true, and_self, ne_eq, if_true, decide_true, Option.map_some]
      · simp only [hp, if_false, decide_false]

/-- A cookie that no filter takes away is still found. -/
theorem find_filter {p : Cookie → Bool} (h : ∀ c ∈ jar, c.name = name → p c = true) :
    find (jar.filter p) name = find jar name := by
  unfold find
  rw [List.find?_filter]
  refine congrArg _ (List.find?_congr fun c hc => ?_)
  by_cases hname : c.name = name
  · simp [hname, h c hc hname]
  · simp [hname]

theorem firstMatch_eq_find (h : ∀ c ∈ jar, c.Sound) (hname : '=' ∉ name)
    (hvalue : ∀ c ∈ jar, c.name = name → c.value ≠ []) :
    firstMatch name (joined jar) = find jar name := by
  rw [firstMatch_joined h hname]
  refine congrArg _ (List.find?_congr fun c hc => ?_)
  by_cases hn : c.name = name
  · simp [hn, hvalue c hc hn]
  · simp [hn]

-- ---------------------------------------------------------------------------
-- Setting and deleting
-- ---------------------------------------------------------------------------

theorem find_eq_none : find jar name = none ↔ name ∉ jar.map Cookie.name := by
  simp [find, List.find?_eq_none]

theorem find_set (jar : Jar) (c : Cookie) (name : List Char) :
    find (set jar c) name = if name = c.name then some c.value else find jar name := by
  unfold set
  split
  · rename_i hmem
    have hnames : ((fun d : Cookie => decide (d.name = name)) ∘ fun d =>
        if d.name = c.name then c else d) = fun d => decide (d.name = name) := by
      funext d
      by_cases hd : d.name = c.name <;> simp [hd]
    rw [find, List.find?_map, hnames]
    cases hfound : jar.find? (·.name = name) with
    | none =>
      have hnone : find jar name = none := by rw [find, hfound]; rfl
      have hne : name ≠ c.name := fun heq => find_eq_none.mp hnone (heq ▸ hmem)
      simp [hne, hnone]
    | some d =>
      have hd : d.name = name := by simpa using List.find?_some hfound
      by_cases hname : name = c.name <;> simp [find, hfound, hd, hname]
  · rename_i hmem
    rw [find, List.find?_append]
    by_cases hname : name = c.name
    · subst hname
      have hnone : jar.find? (·.name = c.name) = none := by
        simpa only [find, Option.map_eq_none_iff] using find_eq_none.mpr hmem
      simp [hnone]
    · have hlast : [c].find? (·.name = name) = none := by simp [Ne.symm hname]
      simp [hlast, hname, find]

theorem mem_set {d : Cookie} (h : d ∈ set jar c) : d = c ∨ d ∈ jar := by
  unfold set at h
  split at h
  · obtain ⟨d', hd', rfl⟩ := List.mem_map.mp h
    split
    · exact .inl rfl
    · exact .inr hd'
  · rcases List.mem_append.mp h with h | h
    · exact .inr h
    · exact .inl (List.mem_singleton.mp h)

theorem find_delete (jar : Jar) (name name' : List Char) :
    find (delete jar name) name' = if name' = name then none else find jar name' := by
  unfold find delete
  rw [List.find?_filter]
  split
  · rename_i hname
    have hnone : jar.find? (fun d => decide (d.name ≠ name) && decide (d.name = name')) = none := by
      simp [List.find?_eq_none, hname]
    simpa using hnone
  · rename_i hname
    refine congrArg _ (List.find?_congr fun d _ => ?_)
    by_cases hd : d.name = name' <;> simp [hd, hname]

theorem Sound.set (h : Sound jar) (hc : c.Sound) : Sound (set jar c) := by
  unfold Cookies.set
  split
  · have hnames : (jar.map fun d => if d.name = c.name then c else d).map Cookie.name =
        jar.map Cookie.name := by
      rw [List.map_map]
      refine List.map_congr_left fun d _ => ?_
      by_cases hd : d.name = c.name <;> simp [hd]
    refine ⟨fun d hd => ?_, hnames ▸ h.names⟩
    obtain ⟨d', hd', rfl⟩ := List.mem_map.mp hd
    split
    · exact hc
    · exact h.cookies d' hd'
  · rename_i hmem
    refine ⟨fun d hd => ?_, ?_⟩
    · rcases List.mem_append.mp hd with hd | hd
      · exact h.cookies d hd
      · exact List.mem_singleton.mp hd ▸ hc
    · rw [List.map_append, List.map_singleton]
      exact List.nodup_append.mpr ⟨h.names, by simp, by
        rintro a ha b hb rfl
        exact hmem (List.mem_singleton.mp hb ▸ ha)⟩

theorem Sound.filter (h : Sound jar) (p : Cookie → Bool) : Sound (jar.filter p) where
  cookies c hc := h.cookies c (List.mem_of_mem_filter hc)
  names := h.names.sublist (List.filter_sublist.map _)

end
end HcMap.Cookies
