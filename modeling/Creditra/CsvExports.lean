import Creditra.CsvText
import Creditra.FloatNumbers
import Creditra.IsoDates
import Creditra.JsonRoundTrip

/-!
# Streamed exports

`utils/exportStream.ts`: the rows of an export as comma-separated lines. A cell
is what reading a column of a row gives; an object inside a cell is taken as
`JSON.stringify` reads it, so that a nested date is a text and a nested `NaN` null.
-/
namespace Creditra.CsvExports
open JsonValues FloatNumbers IsoDates JsonRoundTrip

inductive Cell where
  | undefined
  | null
  | boolean (b : Bool)
  | number (x : Value)
  | bigint (n : ℤ)
  | string (s : String)
  | function (source : String)
  | date (t : { t : ℤ // ValidTime t })
  | object (v : { v : Json // Printable v })

/-- The own entries of a row; any other name reads what every object inherits. -/
abbrev Row := List (String × Cell)

/-- The string form of a cell: `raw`, and nothing for null. -/
def cellText : Cell → String
  | .undefined => ""
  | .null => ""
  | .boolean b => if b then "true" else "false"
  | .number x => FloatNumbers.toText x
  | .bigint n => toString n
  | .string s => s
  | .function source => source
  | .date t => toISOString t.1
  | .object v => stringify v.1

/-- `/[",\r\n]/.test(raw)`. -/
def needsQuotes (raw : String) : Bool :=
  raw.toList.any fun c => c = '"' ∨ c = ',' ∨ c = '\r' ∨ c = '\n'

/-- `raw.replace(/"/g, '""')`. -/
def doubleQuotes (raw : String) : String :=
  String.ofList (raw.toList.flatMap fun c => if c = '"' then ['"','"'] else [c])

def escapeCsvField (value : Cell) : String :=
  match value with
  | .null => ""
  | .undefined => ""
  | value =>
      if needsQuotes (cellText value) then "\"" ++ doubleQuotes (cellText value) ++ "\""
      else cellText value

section Stream
variable (inherited : String → Cell)

/-- `row[col]`. -/
def cellAt (row : Row) (col : String) : Cell := (row.lookup col).getD (inherited col)

structure Response where
  headers : List (String × String)
  chunks : List String
  ended : Bool

namespace Response

/-- Header names are compared without their case. -/
def setHeader (res : Response) (name value : String) : Response :=
  { res with headers := res.headers.filter (·.1.toLower ≠ name.toLower) ++ [(name,value)] }

def write (res : Response) (chunk : String) : Response :=
  { res with chunks := res.chunks ++ [chunk] }

def finished (res : Response) : Response := { res with ended := true }

/-- All that has been written. -/
def body (res : Response) : String := String.join res.chunks

end Response

/-- The loop over the rows. -/
def writeRows (columns : List String) : Response → List Row → Response
  | res, [] => res
  | res, row :: rows =>
      let line := ",".intercalate (columns.map fun col => escapeCsvField (cellAt inherited row col))
      writeRows columns (res.write (line ++ "\n")) rows

def streamCsv (res : Response) (columns : List String) (rows : List Row) (filename : String) :
    Response :=
  let res := res.setHeader "Content-Type" "text/csv; charset=utf-8"
  let res := res.setHeader "Content-Disposition"
    ("attachment; filename=\"" ++ filename ++ "\"")
  let res := res.setHeader "Cache-Control" "no-store"
  let header := ",".intercalate (columns.map fun col => escapeCsvField (.string col))
  let res := res.write (header ++ "\n")
  let res := writeRows inherited columns res rows
  res.finished

end Stream

def flattenCell : Cell → Cell
  | .date t => .string (toISOString t.1)
  | .object v => .string (stringify v.1)
  | value => value

/-- An own key `__proto__` is not copied: assigning to it makes no entry. -/
def flattenForExport (row : Row) : Row :=
  (row.filter fun entry => entry.1 ≠ "__proto__").map fun (key,value) => (key,flattenCell value)

/-! ## The text as a table -/

theorem doubleQuotes_toList (raw : String) :
    (doubleQuotes raw).toList = CsvText.doubled raw.toList := by
  rw [doubleQuotes,String.toList_ofList]
  induction raw.toList with
  | nil => rfl
  | cons c cs ih =>
      rw [List.flatMap_cons,ih,CsvText.doubled]
      split_ifs <;> rfl

theorem escapeCsvField_toList (value : Cell) :
    (escapeCsvField value).toList = CsvText.fieldText (cellText value).toList := by
  have hquoted : ∀ raw : String,
      (if needsQuotes raw then "\"" ++ doubleQuotes raw ++ "\"" else raw).toList =
        CsvText.fieldText raw.toList := by
    intro raw
    have hspecial : needsQuotes raw = raw.toList.any CsvText.special := rfl
    rw [CsvText.fieldText,← hspecial]
    split_ifs
    · rw [String.toList_append,String.toList_append,doubleQuotes_toList]
      rfl
    · rfl
  cases value with
  | null => rfl
  | undefined => rfl
  | boolean b => exact hquoted _
  | number x => exact hquoted _
  | bigint n => exact hquoted _
  | string s => exact hquoted _
  | function source => exact hquoted _
  | date t => exact hquoted _
  | object v => exact hquoted _

theorem intercalate_toList (values : List Cell) :
    (",".intercalate (values.map escapeCsvField)).toList =
      CsvText.recordText (values.map fun value => (cellText value).toList) := by
  rw [String.toList_intercalate]
  induction values with
  | nil => rfl
  | cons value values ih =>
      cases values with
      | nil => simp [CsvText.recordText,escapeCsvField_toList]
      | cons next values =>
          simp only [List.map_cons] at ih ⊢
          rw [CsvText.recordText,← ih,← escapeCsvField_toList value]
          simp [List.intercalate,List.intersperse]

section Table
variable (inherited : String → Cell) (columns : List String)

/-- The string forms of a row's cells. -/
def rowTexts (row : Row) : List String := columns.map fun col => cellText (cellAt inherited row col)

theorem line_toList (row : Row) :
    (",".intercalate (columns.map fun col => escapeCsvField (cellAt inherited row col))).toList =
      CsvText.recordText ((rowTexts inherited columns row).map String.toList) := by
  have h := intercalate_toList (columns.map fun col => cellAt inherited row col)
  rw [List.map_map,List.map_map] at h
  rw [rowTexts,List.map_map]
  exact h

theorem header_toList :
    (",".intercalate (columns.map fun col => escapeCsvField (.string col))).toList =
      CsvText.recordText (columns.map String.toList) := by
  have h := intercalate_toList (columns.map Cell.string)
  rw [List.map_map,List.map_map] at h
  exact h

theorem body_write (res : Response) (chunk : String) :
    (res.write chunk).body.toList = res.body.toList ++ chunk.toList := by
  rw [Response.write,Response.body,Response.body,String.toList_join,String.toList_join,
    List.flatMap_append,List.flatMap_singleton]

theorem body_writeRows (res : Response) (rows : List Row) :
    (writeRows inherited columns res rows).body.toList =
      res.body.toList ++
        CsvText.linesText (rows.map fun row =>
          (rowTexts inherited columns row).map String.toList) := by
  induction rows generalizing res with
  | nil => rw [writeRows,List.map_nil,CsvText.linesText,List.flatMap_nil,List.append_nil]
  | cons row rows ih =>
      rw [writeRows,ih,body_write,String.toList_append,line_toList,List.append_assoc]
      rfl

/-- The header and the rows are the lines of one table. -/
theorem body_streamCsv (headers : List (String × String)) (rows : List Row) (filename : String) :
    (streamCsv inherited ⟨headers,[],false⟩ columns rows filename).body.toList =
      CsvText.linesText ((columns :: rows.map (rowTexts inherited columns)).map fun row =>
        row.map String.toList) := by
  have hfinished : ∀ res : Response, res.finished.body = res.body := fun _ => rfl
  have hheaders : ∀ (res : Response) (name value : String),
      (res.setHeader name value).body = res.body := fun _ _ _ => rfl
  rw [streamCsv,hfinished,body_writeRows,body_write,hheaders,hheaders,hheaders,
    String.toList_append,header_toList,List.map_cons,List.map_map]
  rfl

end Table

/-- A table with a column is read back cell by cell. -/
theorem parse_streamCsv (inherited : String → Cell) {columns : List String}
    (hcolumns : columns ≠ []) (rows : List Row) (headers : List (String × String))
    (filename : String) :
    CsvText.parse (streamCsv inherited ⟨headers,[],false⟩ columns rows filename).body =
      some (columns :: rows.map (rowTexts inherited columns)) := by
  rw [← String.ofList_toList (s := (streamCsv inherited ⟨headers,[],false⟩ columns rows
    filename).body),body_streamCsv]
  apply CsvText.parse_linesText
  intro texts htexts
  rcases List.mem_cons.mp htexts with rfl | htexts
  · exact hcolumns
  · obtain ⟨row,-,rfl⟩ := List.mem_map.mp htexts
    rw [rowTexts,ne_eq,List.map_eq_nil_iff]
    exact hcolumns

/-- Every table with at least one column is read back: the header, and row by row
the string form of each cell. -/
theorem csv_export_lossless (inherited : String → Cell) (columns : List String)
    (hcolumns : columns ≠ []) (rows : List Row) (headers : List (String × String))
    (filename : String) :
    CsvText.parse (streamCsv inherited ⟨headers,[],false⟩ columns rows filename).body =
      some (columns :: rows.map fun row =>
        columns.map fun col => cellText (cellAt inherited row col)) :=
  parse_streamCsv inherited hcolumns rows headers filename

/-- A cell with a quote, a comma and both line ends, beside one that is missing. -/
theorem csv_export_lossless_quoted :
    CsvText.parse (streamCsv (fun _ => .undefined) ⟨[],[],false⟩ ["id","a,b"]
        [[("id",.string "say \"hi\",\r\n")],[("a,b",.boolean true)]] "out.csv").body =
      some [["id","a,b"],["say \"hi\",\r\n",""],["","true"]] :=
  csv_export_lossless (fun _ => .undefined) ["id","a,b"] (by decide)
    [[("id",.string "say \"hi\",\r\n")],[("a,b",.boolean true)]] [] "out.csv"

/-- A record has at least one field: without columns the header line is read as a
header with one empty name. -/
theorem csv_export_no_columns :
    ¬ ∀ (inherited : String → Cell) (columns : List String) (rows : List Row)
        (headers : List (String × String)) (filename : String),
      CsvText.parse (streamCsv inherited ⟨headers,[],false⟩ columns rows filename).body =
        some (columns :: rows.map fun row =>
          columns.map fun col => cellText (cellAt inherited row col)) := by
  intro h
  have hread := h (fun _ => .undefined) [] [] [] "out.csv"
  have hbody : CsvText.parse
      (streamCsv (fun _ => .undefined) ⟨[],[],false⟩ [] [] "out.csv").body = some [[""]] := by
    rfl
  rw [hbody] at hread
  simp at hread

end Creditra.CsvExports
