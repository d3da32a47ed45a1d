import HcMap.Lib.Csv
import HcMap.Services.Exports

/-!
# The CSV exports

`stream_events_csv` and `stream_applications_csv`: a header and a line for each
visible row, streamed one after another.
-/

namespace HcMap.Services

/-- How Python writes the values: `str` of an id and of a decimal, and
`isoformat`. -/
structure Rendering where
  uuid : Uuid → String
  time : Time → String
  decimal : ∀ {bound : ℕ}, Numeric bound → String

/-- A `None` and an empty text are both written as nothing. -/
def orEmpty (text : Option Text) : String := (text.map Text.string).getD ""

def csvLine (values : List String) : List Char := Csv.writeRow (values.map String.toList)

section
variable (r : Rendering)

def eventHeaders : List String :=
  ["id", "started_at", "ended_at", "lat", "lon", "reveal_participants", "note", "created_by",
    "created_at"]

def eventValues (e : Event) : List String :=
  [r.uuid e.id, r.time e.startedAt, (e.endedAt.map r.time).getD "", r.decimal e.lat,
    r.decimal e.lon, if e.revealParticipants then "true" else "false", orEmpty e.note,
    (e.createdBy.map r.uuid).getD "", r.time e.createdAt]

/-- The chunks of the response. -/
def streamEventsCsv (db : Database) (s : Session) : List (List Char) :=
  let rows := db.events.rows.filter fun e => eventVisible db s e ∧ e.isDeleted = false
  csvLine eventHeaders :: rows.map fun e => csvLine (eventValues r e)

def applicationHeaders : List String :=
  ["id", "event_id", "performer_id", "recipient_id", "sequence_no", "started_at", "ended_at",
    "note"]

def applicationValues (a : Application) : List String :=
  [r.uuid a.id, r.uuid a.eventId, r.uuid a.performerId, r.uuid a.recipientId,
    toString a.sequenceNo, (a.startedAt.map r.time).getD "", (a.endedAt.map r.time).getD "",
    orEmpty a.note]

def streamApplicationsCsv (db : Database) (s : Session) : List (List Char) :=
  let rows := db.applications.rows.filter fun a => applicationVisible db s a ∧ a.isDeleted = false
  csvLine applicationHeaders :: rows.map fun a => csvLine (applicationValues r a)

-- ---------------------------------------------------------------------------
-- What a reader finds
-- ---------------------------------------------------------------------------

def eventColumns (x : ExportedEvent) : List String :=
  [r.uuid x.id, r.time x.startedAt, (x.endedAt.map r.time).getD "", r.decimal x.lat,
    r.decimal x.lon, if x.revealParticipants then "true" else "false", orEmpty x.note,
    (x.createdBy.map r.uuid).getD "", r.time x.createdAt]

def applicationColumns (x : ExportedApplication) : List String :=
  [r.uuid x.id, r.uuid x.eventId, r.uuid x.performerId, r.uuid x.recipientId,
    toString x.sequenceNo, (x.startedAt.map r.time).getD "", (x.endedAt.map r.time).getD "",
    orEmpty x.note]

end

def readCsv (chunks : List (List Char)) : List (List String) :=
  (Csv.read chunks.flatten).map fun row => row.map String.ofList

theorem readCsv_lines (lines : List (List String)) : readCsv (lines.map csvLine) = lines := by
  have hwrite : (lines.map csvLine).flatten = Csv.write (lines.map (·.map String.toList)) := by
    rw [Csv.write, List.flatMap_map, ← List.flatMap_def]
    rfl
  have hback : ∀ values : List String, (values.map String.toList).map String.ofList = values := by
    intro values
    rw [List.map_map]
    exact (List.map_congr_left fun text _ => String.ofList_toList).trans (List.map_id values)
  rw [readCsv, hwrite, Csv.read_write, List.map_map]
  exact (List.map_congr_left fun values _ => hback values).trans (List.map_id lines)

/-- Whatever is written in the notes, a CSV reader finds the header and, in its
columns, the very objects of the JSON export, in their order. -/
theorem csv_agrees_with_json (r : Rendering) (columns : Uuid → Catalog.RestraintTypeColumns)
    (db : Database) (s : Session) :
    readCsv (streamEventsCsv r db s) =
        eventHeaders :: (buildJsonExport columns db s).events.map (eventColumns r) ∧
      readCsv (streamApplicationsCsv r db s) =
        applicationHeaders ::
          (buildJsonExport columns db s).applications.map (applicationColumns r) := by
  constructor
  · have hlines : streamEventsCsv r db s =
        (eventHeaders :: (buildJsonExport columns db s).events.map (eventColumns r)).map
          csvLine := by
      simp only [streamEventsCsv, buildJsonExport, List.map_cons, List.map_map]
      rfl
    rw [hlines, readCsv_lines]
  · have hlines : streamApplicationsCsv r db s =
        (applicationHeaders ::
          (buildJsonExport columns db s).applications.map (applicationColumns r)).map
            csvLine := by
      simp only [streamApplicationsCsv, buildJsonExport, List.map_cons, List.map_map]
      rfl
    rw [hlines, readCsv_lines]

end HcMap.Services
