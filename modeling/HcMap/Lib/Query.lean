import Mathlib.Data.List.Basic

/-!
# Query strings

A query is a list of `name=value` parts, read back by their names. What an
escape sequence stands for is left open; the parts written here have none.
-/

namespace Query

/-- What the sequences with a `%` stand for. -/
abbrev Unescape := List Char → List Char

def decode (unescape : Unescape) (cs : List Char) : List Char :=
  let spaced := cs.map fun c => if c = '+' then ' ' else c
  if '%' ∈ spaced then unescape spaced else spaced

def readPart (unescape : Unescape) (part : List Char) : List Char × List Char :=
  (decode unescape (part.takeWhile (· ≠ '=')),
    decode unescape ((part.dropWhile (· ≠ '=')).drop 1))

def parts (unescape : Unescape) (query : List Char) : List (List Char × List Char) :=
  ((query.splitOn '&').filter (· ≠ [])).map (readPart unescape)

def get (unescape : Unescape) (query name : String) : Option String :=
  ((parts unescape query.toList).find? fun part => part.1 = name.toList).map fun part =>
    String.ofList part.2

def writePart (part : String × List Char) : List Char := part.1.toList ++ '=' :: part.2

def write (parts : List (String × List Char)) : String :=
  String.ofList (['&'].intercalate (parts.map writePart))

def lookup (name : String) (parts : List (String × List Char)) : Option String :=
  (parts.find? fun part => part.1 = name).map fun part => String.ofList part.2

/-- No character that means something else in a query. -/
def Safe (cs : List Char) : Prop := ∀ c ∈ cs, c ≠ '&' ∧ c ≠ '%' ∧ c ≠ '+'

instance (cs : List Char) : Decidable (Safe cs) := List.decidableBAll _ cs

/-- A name is safe and ends at the first `=`. -/
def SafePart (part : String × List Char) : Prop :=
  Safe part.1.toList ∧ '=' ∉ part.1.toList ∧ Safe part.2

theorem mem_intercalate {α : Type*} {x y : α} {texts : List (List α)}
    (h : y ∈ [x].intercalate texts) : y = x ∨ ∃ text ∈ texts, y ∈ text := by
  induction texts with
  | nil => cases h
  | cons text texts ih =>
    cases texts with
    | nil =>
      rw [List.intercalate_singleton] at h
      exact .inr ⟨text, List.mem_cons_self, h⟩
    | cons text' texts =>
      rw [List.intercalate_cons_cons, List.mem_append, List.mem_append, List.mem_singleton] at h
      rcases h with (htext | hx) | hrest
      · exact .inr ⟨text, List.mem_cons_self, htext⟩
      · exact .inl hx
      · refine (ih hrest).imp_right ?_
        rintro ⟨text'', hmem, hy⟩
        exact ⟨text'', List.mem_cons_of_mem _ hmem, hy⟩

section
variable {unescape : Unescape} {cs : List Char} {part : String × List Char}
  {ps : List (String × List Char)} {name : String}

theorem decode_of_safe (h : Safe cs) : decode unescape cs = cs := by
  have hspaced : (cs.map fun c => if c = '+' then ' ' else c) = cs := by
    refine (List.map_congr_left fun c hc => ?_).trans (List.map_id cs)
    exact if_neg (h c hc).2.2
  unfold decode
  simp only
  rw [hspaced, if_neg fun hmem => (h '%' hmem).2.1 rfl]

theorem readPart_writePart (h : SafePart part) :
    readPart unescape (writePart part) = (part.1.toList, part.2) := by
  obtain ⟨hname, hequals, hvalue⟩ := h
  have hne : ∀ c ∈ part.1.toList, decide (c ≠ '=') = true := fun c hc =>
    decide_eq_true fun heq => hequals (heq ▸ hc)
  unfold readPart writePart
  rw [List.takeWhile_append_of_pos hne, List.dropWhile_append_of_pos hne]
  simp [decode_of_safe hname, decode_of_safe hvalue]

theorem not_mem_writePart (h : SafePart part) : '&' ∉ writePart part := by
  intro hmem
  rcases List.mem_append.mp hmem with hmem | hmem
  · exact (h.1 _ hmem).1 rfl
  · rcases List.mem_cons.mp hmem with heq | hmem
    · exact absurd heq (by decide)
    · exact (h.2.2 _ hmem).1 rfl

theorem parts_write (h : ∀ part ∈ ps, SafePart part) :
    parts unescape (write ps).toList = ps.map fun part => (part.1.toList, part.2) := by
  rw [parts, write, String.toList_ofList]
  cases ps with
  | nil => rfl
  | cons p ps =>
    have hamp : ∀ text ∈ (p :: ps).map writePart, '&' ∉ text := by
      intro text htext
      obtain ⟨part, hpart, rfl⟩ := List.mem_map.mp htext
      exact not_mem_writePart (h part hpart)
    have hfilled : ((p :: ps).map writePart).filter (· ≠ []) = (p :: ps).map writePart := by
      refine List.filter_eq_self.mpr fun text htext => ?_
      obtain ⟨part, -, rfl⟩ := List.mem_map.mp htext
      simp [writePart]
    rw [List.splitOn_intercalate '&' hamp (by simp), hfilled, List.map_map]
    exact List.map_congr_left fun part hpart => readPart_writePart (h part hpart)

@[simp] theorem lookup_nil : lookup name [] = none := rfl

@[simp] theorem lookup_cons :
    lookup name (part :: ps) =
      if part.1 = name then some (String.ofList part.2) else lookup name ps := by
  rw [lookup, List.find?_cons]
  by_cases hname : part.1 = name <;> simp [hname, lookup]

@[simp] theorem lookup_append {ps' : List (String × List Char)} :
    lookup name (ps ++ ps') = (lookup name ps).or (lookup name ps') := by
  rw [lookup, List.find?_append, Option.map_or]
  rfl

theorem get_write (h : ∀ part ∈ ps, SafePart part) :
    get unescape (write ps) name = lookup name ps := by
  rw [get, parts_write h, List.find?_map, Option.map_map, lookup]
  have hname : (fun part : String × List Char => decide (part.1.toList = name.toList)) =
      fun part => decide (part.1 = name) := by
    funext part
    simp [String.toList_inj]
  simp only [Function.comp_def, hname]

end

end Query
