import Mathlib.Data.List.Basic

/-!
# Comma-separated values

The writer quotes what needs it and doubles the quotes inside, and ends a row
with CR LF. The reader goes over the text a character at a time. What is written
is read back, whatever the fields hold.
-/

namespace Csv

abbrev Field := List Char
abbrev Row := List Field

-- ---------------------------------------------------------------------------
-- Writing
-- ---------------------------------------------------------------------------

def special (c : Char) : Bool := c = ',' || c = '"' || c = '\r' || c = '\n'

def escape (c : Char) : List Char := if c = '"' then ['"', '"'] else [c]

def writeField (f : Field) : List Char :=
  if f.any special then '"' :: (f.flatMap escape ++ ['"']) else f

def lineEnd : List Char := ['\r', '\n']

/-- A row of one empty field is told from an empty row by its quotes. -/
def writeRow (fields : Row) : List Char :=
  if fields = [[]] then ['"', '"'] ++ lineEnd
  else [','].intercalate (fields.map writeField) ++ lineEnd

def write (rows : List Row) : List Char := rows.flatMap writeRow

-- ---------------------------------------------------------------------------
-- Reading
-- ---------------------------------------------------------------------------

/-- Where the reader is: before a field, which may be the first of its row, in
one, after a quote inside quotes, or after a CR that ended a row. -/
inductive Place
  | start (first : Bool)
  | plain
  | quoted
  | quote
  | cr
  deriving DecidableEq

structure Reader where
  place : Place
  field : Field
  row : Row
  rows : List Row

namespace Reader

variable (r : Reader)

def endField : Reader := { r with place := .start false, field := [], row := r.row ++ [r.field] }

/-- An empty line is an empty row. -/
def endRow (place : Place) : Reader :=
  let row := if r.place = .start true then r.row else r.row ++ [r.field]
  ⟨place, [], [], r.rows ++ [row]⟩

def separate (c : Char) : Option Reader :=
  if c = ',' then some r.endField
  else if c = '\r' then some (r.endRow .cr)
  else if c = '\n' then some (r.endRow (.start true))
  else none

def add (c : Char) (place : Place) : Reader := { r with place, field := r.field ++ [c] }

def step (c : Char) : Reader :=
  match r.place with
  | .start _ =>
    if c = '"' then { r with place := .quoted } else (r.separate c).getD (r.add c .plain)
  | .plain => (r.separate c).getD (r.add c .plain)
  | .quoted => if c = '"' then { r with place := .quote } else r.add c .quoted
  | .quote => if c = '"' then r.add c .quoted else (r.separate c).getD (r.add c .plain)
  | .cr =>
    let r := { r with place := .start true }
    if c = '\n' then r
    else if c = '"' then { r with place := .quoted }
    else (r.separate c).getD (r.add c .plain)

def feed (cs : List Char) : Reader := cs.foldl step r

end Reader

def read (cs : List Char) : List Row :=
  let r := Reader.feed ⟨.start true, [], [], []⟩ cs
  if r.place = .start true ∨ r.place = .cr then r.rows else (r.endRow (.start true)).rows

-- ---------------------------------------------------------------------------
-- What is written is read back
-- ---------------------------------------------------------------------------

section
variable {r : Reader} {f acc : Field} {cs : List Char} {place : Place} {row : Row}
  {rows : List Row}

theorem feed_append (cs' : List Char) : r.feed (cs ++ cs') = (r.feed cs).feed cs' :=
  List.foldl_append

theorem separate_of_not_special {c : Char} (h : special c = false) : r.separate c = none := by
  simp only [special, Bool.or_eq_false_iff, decide_eq_false_iff_not] at h
  obtain ⟨⟨⟨hcomma, -⟩, hcr⟩, hlf⟩ := h
  simp [Reader.separate, hcomma, hcr, hlf]

theorem feed_plain (h : ∀ c ∈ f, special c = false) :
    Reader.feed ⟨.plain, acc, row, rows⟩ f = ⟨.plain, acc ++ f, row, rows⟩ := by
  induction f generalizing acc with
  | nil => simp [Reader.feed]
  | cons c f ih =>
    have hc := h c List.mem_cons_self
    have hstep : Reader.step ⟨.plain, acc, row, rows⟩ c = ⟨.plain, acc ++ [c], row, rows⟩ := by
      simp [Reader.step, separate_of_not_special hc, Reader.add]
    rw [Reader.feed, List.foldl_cons, hstep]
    have hrest : Reader.feed ⟨.plain, acc ++ [c], row, rows⟩ f =
        ⟨.plain, acc ++ [c] ++ f, row, rows⟩ := ih fun c' hc' => h c' (List.mem_cons_of_mem _ hc')
    simpa [Reader.feed] using hrest

/-- Inside quotes every character stands for itself, a doubled quote for one. -/
theorem feed_quoted :
    Reader.feed ⟨.quoted, acc, row, rows⟩ (f.flatMap escape) = ⟨.quoted, acc ++ f, row, rows⟩ := by
  induction f generalizing acc with
  | nil => simp [Reader.feed]
  | cons c f ih =>
    have hstep : Reader.feed ⟨.quoted, acc, row, rows⟩ (escape c) =
        ⟨.quoted, acc ++ [c], row, rows⟩ := by
      by_cases hc : c = '"' <;> simp [escape, hc, Reader.feed, Reader.step, Reader.add]
    rw [List.flatMap_cons, feed_append, hstep, ih, List.append_assoc]
    rfl

/-- After a field the reader has all of it, and stands where it ends; an empty
one without quotes has not been noticed. -/
theorem feed_writeField (f : Field) (row : Row) (rows : List Row) (first : Bool) :
    ∃ place, Reader.feed ⟨.start first, [], row, rows⟩ (writeField f) = ⟨place, f, row, rows⟩ ∧
      (place = .start first ∧ f = [] ∨ place = .plain ∨ place = .quote) := by
  unfold writeField
  split
  · refine ⟨.quote, ?_, .inr (.inr rfl)⟩
    have hopen : Reader.step ⟨.start first, [], row, rows⟩ '"' = ⟨.quoted, [], row, rows⟩ := rfl
    rw [Reader.feed, List.foldl_cons, hopen, ← Reader.feed, feed_append, feed_quoted]
    rfl
  · rename_i hplain
    simp only [List.any_eq_true, not_exists, not_and, Bool.not_eq_true] at hplain
    cases f with
    | nil => exact ⟨.start first, rfl, .inl ⟨rfl, rfl⟩⟩
    | cons c f =>
      refine ⟨.plain, ?_, .inr (.inl rfl)⟩
      have hc := hplain c List.mem_cons_self
      have hquote : c ≠ '"' := by
        rintro rfl
        cases hc
      have hstep : Reader.step ⟨.start first, [], row, rows⟩ c = ⟨.plain, [c], row, rows⟩ := by
        simp [Reader.step, hquote, separate_of_not_special hc, Reader.add]
      rw [Reader.feed, List.foldl_cons, hstep, ← Reader.feed,
        feed_plain fun c' hc' => hplain c' (List.mem_cons_of_mem _ hc')]
      rfl

theorem step_comma (h : place ≠ .quoted ∧ place ≠ .cr) :
    Reader.step ⟨place, f, row, rows⟩ ',' = ⟨.start false, [], row ++ [f], rows⟩ := by
  cases place with
  | start first => rfl
  | plain => rfl
  | quoted => exact absurd rfl h.1
  | quote => rfl
  | cr => exact absurd rfl h.2

theorem feed_lineEnd (h : place = .start false ∨ place = .plain ∨ place = .quote) :
    Reader.feed ⟨place, f, row, rows⟩ lineEnd = ⟨.start true, [], [], rows ++ [row ++ [f]]⟩ := by
  rcases h with rfl | rfl | rfl <;> rfl

theorem feed_fields {fields : Row} (hne : fields ≠ []) :
    Reader.feed ⟨.start false, [], row, rows⟩
        ([','].intercalate (fields.map writeField) ++ lineEnd) =
      ⟨.start true, [], [], rows ++ [row ++ fields]⟩ := by
  induction fields generalizing row with
  | nil => exact absurd rfl hne
  | cons f fields ih =>
    obtain ⟨place, hfeed, hplace⟩ := feed_writeField f row rows false
    cases fields with
    | nil =>
      have hend : place = .start false ∨ place = .plain ∨ place = .quote :=
        hplace.imp_left And.left
      simp [feed_append, hfeed, feed_lineEnd hend]
    | cons f' fields =>
      have hin : place ≠ .quoted ∧ place ≠ .cr := by
        rcases hplace with ⟨rfl, -⟩ | rfl | rfl <;> simp
      have hrest : Reader.feed ⟨.start false, [], row ++ [f], rows⟩
          ([','].intercalate ((f' :: fields).map writeField) ++ lineEnd) =
            ⟨.start true, [], [], rows ++ [row ++ [f] ++ f' :: fields]⟩ :=
        ih (List.cons_ne_nil f' fields)
      rw [List.map_cons, List.map_cons, List.intercalate_cons_cons, List.append_assoc,
        List.append_assoc, feed_append, hfeed, feed_append]
      have hcomma : Reader.feed ⟨place, f, row, rows⟩ [','] =
          ⟨.start false, [], row ++ [f], rows⟩ := step_comma hin
      rw [hcomma, ← List.map_cons, hrest]
      simp

theorem feed_writeRow (fields : Row) :
    Reader.feed ⟨.start true, [], [], rows⟩ (writeRow fields) =
      ⟨.start true, [], [], rows ++ [fields]⟩ := by
  unfold writeRow
  split
  · rename_i hone
    subst hone
    rfl
  · rename_i hone
    match fields, hone with
    | [], _ => rfl
    | [f], hone =>
      obtain ⟨place, hfeed, hplace⟩ := feed_writeField f [] rows true
      have hend := hplace.resolve_left fun hempty => hone (by rw [hempty.2])
      simp [feed_append, hfeed, feed_lineEnd (.inr hend)]
    | f :: f' :: fields, _ =>
      obtain ⟨place, hfeed, hplace⟩ := feed_writeField f [] rows true
      have hin : place ≠ .quoted ∧ place ≠ .cr := by
        rcases hplace with ⟨rfl, -⟩ | rfl | rfl <;> simp
      have hcomma : Reader.feed ⟨place, f, [], rows⟩ [','] = ⟨.start false, [], [f], rows⟩ :=
        step_comma hin
      rw [List.map_cons, List.map_cons, List.intercalate_cons_cons, List.append_assoc,
        List.append_assoc, feed_append, hfeed, feed_append, hcomma, ← List.map_cons,
        feed_fields (List.cons_ne_nil f' fields)]
      rfl

theorem feed_write (rows' : List Row) :
    Reader.feed ⟨.start true, [], [], rows⟩ (write rows') =
      ⟨.start true, [], [], rows ++ rows'⟩ := by
  induction rows' generalizing rows with
  | nil => simp [write, Reader.feed]
  | cons fields rows' ih =>
    rw [write, List.flatMap_cons, feed_append, feed_writeRow, ← write, ih, List.append_assoc]
    rfl

theorem read_write (rows : List Row) : read (write rows) = rows := by
  unfold read
  rw [feed_write]
  rfl

end

end Csv
