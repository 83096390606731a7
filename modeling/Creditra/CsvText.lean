import Mathlib.Data.List.Basic

/-!
# Comma-separated text

The format of RFC 4180 with records ended by a line feed. The parser is strict:
a quote inside a field that does not begin with one, a carriage return outside
quotes and anything but a separator after a closing quote are refused.
-/
namespace Creditra.CsvText

/-- A character that a field outside quotes cannot hold. -/
def special (c : Char) : Bool := c = '"' ∨ c = ',' ∨ c = '\r' ∨ c = '\n'

/-! ## The parser -/

/-- Where the parser stands in a field. -/
inductive Place where
  | start
  | bare
  | quoted
  | closed
  deriving DecidableEq

/-- The records from `text` on, after the fields of `record` and the characters of
`field` have been read. -/
def records : Place → List Char → List (List Char) → List Char → Option (List (List (List Char)))
  | .start, _, [], [] => some []
  | .quoted, _, _, [] => none
  | _, field, record, [] => some [record ++ [field]]
  | .quoted, field, record, c :: text =>
      if c = '"' then records .closed field record text
      else records .quoted (field ++ [c]) record text
  | .closed, field, record, c :: text =>
      if c = '"' then records .quoted (field ++ ['"']) record text
      else if c = ',' then records .start [] (record ++ [field]) text
      else if c = '\n' then
        (records .start [] [] text).map fun rest => (record ++ [field]) :: rest
      else none
  | .start, field, record, c :: text =>
      if c = '"' then records .quoted field record text
      else if c = ',' then records .start [] (record ++ [field]) text
      else if c = '\n' then
        (records .start [] [] text).map fun rest => (record ++ [field]) :: rest
      else if c = '\r' then none
      else records .bare (field ++ [c]) record text
  | .bare, field, record, c :: text =>
      if c = ',' then records .start [] (record ++ [field]) text
      else if c = '\n' then
        (records .start [] [] text).map fun rest => (record ++ [field]) :: rest
      else if c = '"' ∨ c = '\r' then none
      else records .bare (field ++ [c]) record text

/-- The records of a whole text. -/
def parse (text : String) : Option (List (List String)) :=
  (records .start [] [] text.toList).map fun rows => rows.map fun row => row.map String.ofList

/-! ## Writing -/

/-- Every quote twice. -/
def doubled : List Char → List Char
  | [] => []
  | c :: cs => if c = '"' then '"' :: '"' :: doubled cs else c :: doubled cs

/-- A field, between quotes if it holds a special character. -/
def fieldText (field : List Char) : List Char :=
  if field.any special then '"' :: (doubled field ++ ['"']) else field

/-- The text of one record without its line feed. -/
def recordText : List (List Char) → List Char
  | [] => []
  | [field] => fieldText field
  | field :: next :: record => fieldText field ++ ',' :: recordText (next :: record)

/-! ## Reading what was written -/

/-- What the parser does at a separator after a whole field. -/
def finish (field : List Char) (record : List (List Char)) (c : Char) (text : List Char) :
    Option (List (List (List Char))) :=
  if c = ',' then records .start [] (record ++ [field]) text
  else (records .start [] [] text).map fun rest => (record ++ [field]) :: rest

variable {record : List (List Char)} {c : Char} {text : List Char}

theorem records_closed (hc : c = ',' ∨ c = '\n') (field : List Char) :
    records .closed field record (c :: text) = finish field record c text := by
  cases hc with
  | inl h => subst h; simp [records,finish]
  | inr h => subst h; simp [records,finish]

theorem records_quoted (hc : c = ',' ∨ c = '\n') (cs field : List Char) :
    records .quoted field record (doubled cs ++ '"' :: c :: text) =
      finish (field ++ cs) record c text := by
  induction cs generalizing field with
  | nil =>
      rw [doubled,List.nil_append,records,if_pos rfl,records_closed hc,List.append_nil]
  | cons d cs ih =>
      rw [doubled]
      by_cases hd : d = '"'
      · rw [if_pos hd,List.cons_append,List.cons_append,records,if_pos rfl,records,if_pos rfl,ih,
          hd,List.append_assoc,List.singleton_append]
      · rw [if_neg hd,List.cons_append,records,if_neg hd,ih,List.append_assoc,
          List.singleton_append]

theorem records_bare (hc : c = ',' ∨ c = '\n') {cs : List Char} (hcs : cs.any special = false)
    (field : List Char) :
    records .bare field record (cs ++ c :: text) = finish (field ++ cs) record c text := by
  induction cs generalizing field with
  | nil =>
      cases hc with
      | inl h => subst h; simp [records,finish]
      | inr h => subst h; simp [records,finish]
  | cons d cs ih =>
      simp only [List.any_cons,Bool.or_eq_false_iff,special,decide_eq_false_iff_not,not_or] at hcs
      obtain ⟨⟨hquote,hcomma,hreturn,hfeed⟩,hrest⟩ := hcs
      rw [List.cons_append,records,if_neg hcomma,if_neg hfeed,
        if_neg (not_or.mpr ⟨hquote,hreturn⟩),ih hrest,List.append_assoc,List.singleton_append]

/-- A written field and the separator after it are read as that field. -/
theorem records_fieldText (hc : c = ',' ∨ c = '\n') (field : List Char) :
    records .start [] record (fieldText field ++ c :: text) = finish field record c text := by
  unfold fieldText
  split_ifs with hspecial
  · rw [List.cons_append,records,if_pos rfl,List.append_assoc,List.singleton_append,
      records_quoted hc,List.nil_append]
  · cases field with
    | nil =>
        cases hc with
        | inl h => subst h; simp [records,finish]
        | inr h => subst h; simp [records,finish]
    | cons d cs =>
        have hcs : (d :: cs).any special = false := Bool.eq_false_iff.mpr hspecial
        simp only [List.any_cons,Bool.or_eq_false_iff] at hcs
        have hd := hcs.1
        simp only [special,decide_eq_false_iff_not,not_or] at hd
        obtain ⟨hquote,hcomma,hreturn,hfeed⟩ := hd
        rw [List.cons_append,records,if_neg hquote,if_neg hcomma,if_neg hfeed,if_neg hreturn,
          records_bare hc hcs.2]
        rfl

/-- A written record with at least one field is read as that record. -/
theorem records_recordText {fields : List (List Char)} (hne : fields ≠ [])
    (before : List (List Char)) :
    records .start [] before (recordText fields ++ '\n' :: text) =
      (records .start [] [] text).map fun rest => (before ++ fields) :: rest := by
  induction fields generalizing before with
  | nil => exact absurd rfl hne
  | cons field fields ih =>
      cases fields with
      | nil =>
          rw [recordText,records_fieldText (.inr rfl),finish,if_neg (by decide)]
      | cons next fields =>
          rw [recordText,List.append_assoc,List.cons_append,records_fieldText (.inl rfl),finish,
            if_pos rfl,ih (List.cons_ne_nil _ _),List.append_assoc,List.singleton_append]

/-- The lines of a table. -/
def linesText (rows : List (List (List Char))) : List Char :=
  rows.flatMap fun row => recordText row ++ ['\n']

theorem records_linesText {rows : List (List (List Char))} (h : ∀ row ∈ rows, row ≠ []) :
    records .start [] [] (linesText rows) = some rows := by
  induction rows with
  | nil => rfl
  | cons row rows ih =>
      have hrow := h row List.mem_cons_self
      have hrows := ih fun r hr => h r (List.mem_cons_of_mem _ hr)
      rw [linesText,List.flatMap_cons,List.append_assoc,List.singleton_append,
        records_recordText hrow,List.nil_append]
      change (records .start [] [] (linesText rows)).map _ = _
      rw [hrows,Option.map_some]

/-- A written table is read back, field by field. -/
theorem parse_linesText {rows : List (List String)} (h : ∀ row ∈ rows, row ≠ []) :
    parse (String.ofList (linesText (rows.map fun row => row.map String.toList))) = some rows := by
  have hne : ∀ row ∈ rows.map fun row => row.map String.toList, row ≠ [] := by
    intro row hrow
    obtain ⟨source,hsource,rfl⟩ := List.mem_map.mp hrow
    rw [ne_eq,List.map_eq_nil_iff]
    exact h source hsource
  rw [parse,String.toList_ofList,records_linesText hne,Option.map_some,List.map_map]
  congr 1
  refine List.map_id'' (fun row => ?_) rows
  rw [Function.comp_apply,List.map_map]
  exact List.map_id'' (fun field => String.ofList_toList) row

end Creditra.CsvText
