import Creditra.CsvExports

/-!
# Exports as JSON

`streamJson` of `utils/exportStream.ts` writes an envelope piece by piece: its
opening, the rows one at a time with commas between them, the description of the
page, and its end. The pieces are what `JSON.stringify` would give for the whole
envelope. A bigint has no JSON form; it breaks the stream off at its row.

The service flattens the rows of an export before either format is written, and
then both formats carry the same cells.
-/
namespace Creditra.JsonExports
open CsvExports FloatNumbers IsoDates JsNumbers JsonRoundTrip JsonText JsonValues NumberText

/-- What `JSON.stringify` makes of a value: nothing for one that it leaves out. -/
def cellJson : Cell → Option Json
  | .undefined => none
  | .null => some .null
  | .boolean b => some (.bool b)
  | .number (.finite x) => some (.number (String.ofList (numberText x)))
  | .number _ => some .null
  | .bigint _ => none
  | .string s => some (.string s)
  | .function _ => none
  | .date t => some (.string (toISOString t.1))
  | .object v => some v.1

def isBigint : Cell → Bool
  | .bigint _ => true
  | _ => false

def fieldOf (entry : String × Cell) : Option (String × Json) :=
  (cellJson entry.2).map fun v => (entry.1,v)

def rowObject (row : Row) : Json := .object (row.filterMap fieldOf)

/-- `JSON.stringify(row)`, which throws when it meets a bigint. -/
def rowText (row : Row) : Option String :=
  if row.any fun entry => isBigint entry.2 then none else some (stringify (rowObject row))

structure StreamMeta where
  resource : String
  format : String
  count : Double
  limit : Double
  offset : Double
  truncated : Bool
  fromDate : String
  toDate : String
  generatedAt : String

def number (x : Double) : Json := .number (String.ofList (numberText x))

def StreamMeta.json (page : StreamMeta) : Json :=
  .object [("resource",.string page.resource),("format",.string page.format),
    ("count",number page.count),("limit",number page.limit),("offset",number page.offset),
    ("truncated",.bool page.truncated),("from",.string page.fromDate),("to",.string page.toDate),
    ("generatedAt",.string page.generatedAt)]

/-- `rows.forEach`, from the row at `index` on; `none` when a row throws. -/
def writeObjects : ℕ → Response → List Row → Option Response
  | _, res, [] => some res
  | index, res, row :: rows => do
      let res := if 0 < index then res.write "," else res
      let text ← rowText row
      writeObjects (index + 1) (res.write text) rows

def streamJson (res : Response) (rows : List Row) (page : StreamMeta) : Option Response := do
  let res := res.setHeader "Content-Type" "application/json; charset=utf-8"
  let res := res.setHeader "Cache-Control" "no-store"
  let res := res.write "\x7b\"data\":["
  let res ← writeObjects 0 res rows
  let res := res.write "],\"meta\":"
  let res := res.write (stringify page.json)
  let res := res.write ",\"error\":null\x7d"
  pure res.finished

def envelope (rows : List Row) (page : StreamMeta) : Json :=
  .object [("data",.array (rows.map rowObject)),("meta",page.json),("error",.null)]

/-- An object of the runtime: no key twice. -/
abbrev ObjectRow := { row : Row // (row.map Prod.fst).Nodup }

/-! ## The text -/

section Text

/-- The rows with commas between them, as they are written behind `index` others. -/
def behind (index : ℕ) (texts : List (List Char)) : List Char :=
  match texts with
  | [] => []
  | _ => (if 0 < index then [','] else []) ++ commas texts

theorem commas_cons (text : List Char) (texts : List (List Char)) :
    commas (text :: texts) = text ++ behind 1 texts := by
  cases texts with
  | nil => simp [commas,behind]
  | cons next texts => rfl

theorem writeObjects_body {rows : List Row}
    (h : ∀ row ∈ rows, (row.any fun entry => isBigint entry.2) = false) (index : ℕ)
    (res : Response) :
    ∃ written, writeObjects index res rows = some written ∧
      written.body.toList =
        res.body.toList ++ behind index (rows.map fun row => valueText (rowObject row)) := by
  induction rows generalizing index res with
  | nil => exact ⟨res,rfl,by simp [behind]⟩
  | cons row rows ih =>
      have htext : rowText row = some (stringify (rowObject row)) := by
        rw [rowText,if_neg]
        simp [h row List.mem_cons_self]
      obtain ⟨written,hw,hbody⟩ := ih (fun r hr => h r (List.mem_cons_of_mem row hr)) (index + 1)
        ((if 0 < index then res.write "," else res).write (stringify (rowObject row)))
      refine ⟨written,?_,?_⟩
      · simp only [writeObjects,htext]
        exact hw
      · rw [hbody,body_write,stringify,String.toList_ofList,List.map_cons]
        have hone : behind (index + 1) (rows.map fun row => valueText (rowObject row)) =
            behind 1 (rows.map fun row => valueText (rowObject row)) := by
          unfold behind
          cases rows <;> rfl
        rw [hone,List.append_assoc,← commas_cons]
        change _ = res.body.toList ++ ((if 0 < index then [','] else []) ++ commas _)
        split
        · rw [body_write,List.append_assoc]
          rfl
        · rfl

theorem behind_zero (texts : List (List Char)) : behind 0 texts = commas texts := by
  cases texts <;> rfl

theorem toList_envelope (rows : List Row) (page : StreamMeta) :
    (stringify (envelope rows page)).toList =
      "\x7b\"data\":[".toList ++ commas (rows.map fun row => valueText (rowObject row)) ++
        "],\"meta\":".toList ++ valueText page.json ++ ",\"error\":null\x7d".toList := by
  have hdata : (quote "data").toList = "\"data\"".toList := by decide
  have hmeta : (quote "meta").toList = "\"meta\"".toList := by decide
  have herror : (quote "error").toList = "\"error\"".toList := by decide
  have hrows : valueText (.array (rows.map rowObject)) =
      '[' :: (commas (rows.map fun row => valueText (rowObject row)) ++ [']']) := by
    rw [valueText,itemTexts_eq,List.map_map]
    rfl
  rw [stringify,String.toList_ofList,envelope,valueText,fieldTexts_eq]
  simp only [List.map_cons,List.map_nil,hdata,hmeta,herror,hrows,commas]
  simp [valueText]

/-- The pieces are the text of the whole. -/
theorem streamJson_body {rows : List Row}
    (h : ∀ row ∈ rows, (row.any fun entry => isBigint entry.2) = false) (page : StreamMeta)
    (headers : List (String × String)) :
    ∃ res, streamJson ⟨headers,[],false⟩ rows page = some res ∧ res.ended = true ∧
      res.body = stringify (envelope rows page) := by
  obtain ⟨written,hw,hbody⟩ := writeObjects_body h 0
    ((((Response.mk headers [] false).setHeader "Content-Type"
      "application/json; charset=utf-8").setHeader "Cache-Control" "no-store").write
        "\x7b\"data\":[")
  refine ⟨(((written.write "],\"meta\":").write (stringify page.json)).write
    ",\"error\":null\x7d").finished,?_,rfl,?_⟩
  · simp only [streamJson,hw]
    rfl
  · have hstart : ((((Response.mk headers [] false).setHeader "Content-Type"
        "application/json; charset=utf-8").setHeader "Cache-Control" "no-store").write
          "\x7b\"data\":[").body = "\x7b\"data\":[" := by
      simp [Response.write,Response.setHeader,Response.body]
    have hfinished : ∀ res : Response, res.finished.body = res.body := fun _ => rfl
    have hpage : (stringify page.json).toList = valueText page.json := String.toList_ofList
    rw [← String.toList_inj,toList_envelope,hfinished,body_write,body_write,body_write,hbody,
      behind_zero,hstart,hpage]

/-- A row with a bigint breaks the stream off. -/
theorem streamJson_bigint {rows : List Row} {row : Row} (hrow : row ∈ rows)
    (h : (row.any fun entry => isBigint entry.2) = true) (res : Response) (page : StreamMeta) :
    streamJson res rows page = none := by
  have hnone : ∀ (index : ℕ) (res : Response), writeObjects index res rows = none := by
    induction rows with
    | nil => cases hrow
    | cons first rows ih =>
        intro index res
        rcases List.mem_cons.mp hrow with rfl | hrow
        · simp [writeObjects,rowText,h]
        · cases htext : rowText first with
          | none => simp [writeObjects,htext]
          | some text => simp [writeObjects,htext,ih hrow]
  simp [streamJson,hnone]

end Text

/-! ## Both formats -/

/-- A cell that has a JSON form and keeps it: no bigint, no function, no infinity. -/
def plain : Cell → Bool
  | .bigint _ => false
  | .function _ => false
  | .number x => x.isFinite
  | _ => true

def Plain (row : Row) : Prop := ∀ entry ∈ row, plain entry.2 = true

/-- The string form of a value that was read back, and nothing for one that is missing. -/
def fieldText : Option Json → String
  | some (.bool b) => if b then "true" else "false"
  | some (.number text) => text
  | some (.string s) => s
  | _ => ""

theorem printable_cellJson {value : Cell} {v : Json} (h : cellJson value = some v) :
    Printable v := by
  cases value with
  | undefined => cases h
  | null => cases h; exact .null
  | boolean b => cases h; exact .bool b
  | number x =>
      cases x with
      | finite x => cases h; exact .number x
      | infinite negative => cases h; exact .null
      | nan => cases h; exact .null
  | bigint n => cases h
  | string s => cases h; exact .string s
  | function source => cases h
  | date t => cases h; exact .string _
  | object v => cases h; exact v.2

theorem keys_rowObject (row : Row) :
    ((row.filterMap fieldOf).map Prod.fst).Sublist (row.map Prod.fst) := by
  induction row with
  | nil => exact .slnil
  | cons entry row ih =>
      rw [List.filterMap_cons,fieldOf]
      cases cellJson entry.2 with
      | none => exact ih.cons _
      | some v => exact ih.cons_cons _

theorem printable_rowObject (row : ObjectRow) : Printable (rowObject row.1) := by
  apply Printable.object
  · intro f hf
    obtain ⟨entry,-,he⟩ := List.mem_filterMap.mp hf
    obtain ⟨v,hv,rfl⟩ := Option.map_eq_some_iff.mp he
    exact printable_cellJson hv
  · exact row.2.sublist (keys_rowObject row.1)

theorem printable_json (page : StreamMeta) : Printable page.json := by
  apply Printable.object
  · simp [Printable.string,Printable.bool,number,Printable.number]
  · simp only [List.map_cons,List.map_nil]
    decide

theorem printable_envelope (rows : List ObjectRow) (page : StreamMeta) :
    Printable (envelope (rows.map Subtype.val) page) := by
  apply Printable.object
  · intro f hf
    simp only [List.mem_cons,List.not_mem_nil,or_false] at hf
    rcases hf with rfl | rfl | rfl
    · apply Printable.array
      intro v hv
      obtain ⟨row,hrow,rfl⟩ := List.mem_map.mp hv
      obtain ⟨object,-,rfl⟩ := List.mem_map.mp hrow
      exact printable_rowObject object
    · exact printable_json page
    · exact .null
  · simp only [List.map_cons,List.map_nil]
    decide

theorem fieldText_flattenCell {value : Cell} (h : plain value = true) :
    fieldText (cellJson (flattenCell value)) = cellText (flattenCell value) := by
  cases value with
  | undefined => rfl
  | null => rfl
  | boolean b => rfl
  | number x =>
      cases x with
      | finite x => rfl
      | infinite negative => cases h
      | nan => cases h
  | bigint n => cases h
  | string s => rfl
  | function source => cases h
  | date t => rfl
  | object v => rfl

/-- Of the fields of an object, the one under a column is that of the row's own entry. -/
theorem find_fieldOf {row : Row} (h : (row.map Prod.fst).Nodup) (col : String) :
    (row.filterMap fieldOf).find? (·.1 = col) =
      ((row.lookup col).bind cellJson).map fun v => (col,v) := by
  induction row with
  | nil => rfl
  | cons entry row ih =>
      rw [List.map_cons,List.nodup_cons] at h
      rw [List.filterMap_cons,fieldOf,List.lookup_cons]
      by_cases hkey : col = entry.1
      · subst hkey
        rw [beq_self_eq_true]
        cases hv : cellJson entry.2 with
        | some v => simp [hv]
        | none =>
            -- left out, and no other entry has the key
            simp only [hv,Option.map_none,Option.bind_some]
            rw [List.find?_eq_none]
            intro f hf hcol
            have hsub := (keys_rowObject row).subset (List.mem_map_of_mem hf)
            rw [of_decide_eq_true hcol] at hsub
            exact h.1 hsub
      · rw [beq_eq_false_iff_ne.mpr hkey]
        cases cellJson entry.2 with
        | none => exact ih h.2
        | some v =>
            rw [Option.map_some]
            simp only
            rw [List.find?_cons_of_neg (by simpa using Ne.symm hkey)]
            exact ih h.2

/-- Reading a column of the object back gives the text of the cell, if every cell keeps its. -/
theorem fieldText_rowObject (row : ObjectRow)
    (h : ∀ entry ∈ row.1, fieldText (cellJson entry.2) = cellText entry.2)
    (inherited : String → Cell) {col : String} (hcol : inherited col = .undefined) :
    fieldText (field col (rowObject row.1)) = cellText (cellAt inherited row.1 col) := by
  rw [rowObject,field,find_fieldOf row.2,cellAt]
  cases hlookup : row.1.lookup col with
  | none =>
      rw [Option.getD_none,hcol]
      rfl
  | some value =>
      obtain ⟨before,after,hrow,-⟩ := List.lookup_eq_some_iff.mp hlookup
      have hvalue : fieldText (cellJson value) = cellText value :=
        h (col,value) (by rw [hrow]; exact List.mem_append_right _ List.mem_cons_self)
      rw [Option.getD_some,← hvalue]
      cases hv : cellJson value <;> simp [hv]

/-- An entry of a flattened row comes from one of the row. -/
theorem mem_flattenForExport {row : Row} {entry : String × Cell}
    (h : entry ∈ flattenForExport row) : ∃ source ∈ row, entry = (source.1,flattenCell source.2) := by
  obtain ⟨source,hs,rfl⟩ := List.mem_map.mp h
  exact ⟨source,List.mem_of_mem_filter hs,rfl⟩

theorem not_bigint_flattenForExport {row : Row} (h : Plain row) :
    ((flattenForExport row).any fun entry => isBigint entry.2) = false := by
  rw [List.any_eq_false]
  intro entry hentry
  obtain ⟨source,hs,rfl⟩ := mem_flattenForExport hentry
  have hplain := h source hs
  cases hvalue : source.2 with
  | bigint n =>
      rw [hvalue] at hplain
      cases hplain
  | _ => simp [flattenCell,isBigint]

def flat (row : ObjectRow) : ObjectRow :=
  ⟨flattenForExport row.1,by
    rw [flattenForExport,List.map_map]
    exact row.2.sublist (List.filter_sublist.map Prod.fst)⟩

/-- Rows of cells that JSON keeps are flattened for an export and written in either format: a
reader of the JSON finds the flattened rows as objects, and a reader of the CSV finds in the
columns what stands under them in these objects. -/
theorem formats_agree (inherited : String → Cell) (columns : List String) (rows : List ObjectRow)
    (page : StreamMeta) (headers : List (String × String)) (filename : String)
    (hcolumns : columns ≠ []) (hown : ∀ col ∈ columns, inherited col = .undefined)
    (hplain : ∀ row ∈ rows, Plain row.1) :
    ∃ res, streamJson ⟨headers,[],false⟩ (rows.map fun row => flattenForExport row.1) page =
        some res ∧
      parseJson res.body = some (.object
        [("data",.array (rows.map fun row => rowObject (flattenForExport row.1))),
          ("meta",page.json),("error",.null)]) ∧
      CsvText.parse (streamCsv inherited ⟨headers,[],false⟩ columns
          (rows.map fun row => flattenForExport row.1) filename).body =
        some (columns :: rows.map fun row =>
          columns.map fun col => fieldText (field col (rowObject (flattenForExport row.1)))) := by
  have hrows : (rows.map fun row => flattenForExport row.1) = (rows.map flat).map Subtype.val := by
    rw [List.map_map]
    rfl
  have hbigint : ∀ row ∈ rows.map fun row => flattenForExport row.1,
      (row.any fun entry => isBigint entry.2) = false := by
    intro row hrow
    obtain ⟨source,hs,rfl⟩ := List.mem_map.mp hrow
    exact not_bigint_flattenForExport (hplain source hs)
  obtain ⟨res,hres,-,hbody⟩ := streamJson_body hbigint page headers
  refine ⟨res,hres,?_,?_⟩
  · have hobjects : (.object [("data",.array (rows.map fun row =>
        rowObject (flattenForExport row.1))),("meta",page.json),("error",.null)] : Json) =
          envelope ((rows.map flat).map Subtype.val) page := by
      rw [envelope,List.map_map,List.map_map]
      rfl
    rw [hobjects,hbody,hrows]
    exact parseJson_stringify (printable_envelope (rows.map flat) page)
  · rw [parse_streamCsv inherited hcolumns,List.map_map]
    congr 2
    apply List.map_congr_left
    intro row hrow
    apply List.map_congr_left
    intro col hcol
    refine (fieldText_rowObject (flat row) ?_ inherited (hown col hcol)).symm
    intro entry hentry
    obtain ⟨source,hs,rfl⟩ := mem_flattenForExport hentry
    exact fieldText_flattenCell (hplain row hrow source hs)

/-- An own key `__proto__` is lost in both formats. -/
example : flattenForExport [("id",.string "1"),("__proto__",.string "x")] =
    [("id",.string "1")] := by rfl

/-- A record whose details are an object, and one with a field left out. -/
def records : List ObjectRow :=
  [⟨[("action",.string "credit.opened"),
      ("details",.object ⟨.object [("wallet",.string "G\"A")],
        .object (by simp [Printable.string]) (by simp)⟩)],by decide⟩,
    ⟨[("action",.string "a,b"),("details",.undefined)],by decide⟩]

def recordsPage : StreamMeta :=
  ⟨"audit","json",⟨2,by decide +kernel⟩,⟨25,by decide +kernel⟩,⟨50,by decide +kernel⟩,false,
    "2024-01-01T00:00:00.000Z","2024-02-01T00:00:00.000Z","2024-02-02T00:00:00.000Z"⟩

theorem formats_agree_records :
    ∃ res, streamJson ⟨[],[],false⟩ (records.map fun row => flattenForExport row.1) recordsPage =
        some res ∧
      parseJson res.body = some (.object
        [("data",.array (records.map fun row => rowObject (flattenForExport row.1))),
          ("meta",recordsPage.json),("error",.null)]) ∧
      CsvText.parse (streamCsv (fun _ => .undefined) ⟨[],[],false⟩ ["action","details"]
          (records.map fun row => flattenForExport row.1) "audit.csv").body =
        some (["action","details"] :: records.map fun row => ["action","details"].map fun col =>
          fieldText (field col (rowObject (flattenForExport row.1)))) :=
  formats_agree (fun _ => .undefined) ["action","details"] records recordsPage [] "audit.csv"
    (by decide) (fun _ _ => rfl) (by unfold Plain; decide)

end Creditra.JsonExports
