import Creditra.Base64
import Creditra.JsonText
import Creditra.StellarDiagnostics

/-!
# Cursor pagination

The helpers of `src/utils/cursorPagination.ts`: the cursor codec, the order of
the keys and the pages. A key's time is a finite number; the difference of two
such numbers has the sign of the exact difference, which is all its callers
look at.
-/
namespace Creditra.CursorPagination
open Base64 JsNumbers JsStrings JsonText JsonValues NumberText StellarDiagnostics

structure CursorKey where
  t : Double
  i : String
  deriving DecidableEq

structure CursorPage (α : Type) where
  items : List α
  nextCursor : Option String
  hasMore : Bool
  limit : ℤ

inductive CursorSortOrder where
  | asc | desc
  deriving DecidableEq, Repr

def defaultPageSize : ℕ := 25

def minPageSize : ℕ := 1

def maxPageSize : ℕ := 100

def error (message : String) : Thrown := ⟨"Error",message⟩

def invalidCursorError (message : String) : Thrown := ⟨"InvalidCursorError",message⟩

def clampLimit (limit : Option Number) (defaultLimit : ℕ) (min : ℕ := minPageSize)
    (max : ℕ := maxPageSize) : Except Thrown ℕ :=
  let notInteger := error
    ("Limit must be an integer between " ++ toString min ++ " and " ++ toString max)
  match limit with
  | none => .ok defaultLimit
  | some .nan => .ok defaultLimit
  | some (.infinite _) => .error notInteger
  | some (.finite q) =>
      if q.den ≠ 1 then .error notInteger
      else if q < min then
        .error (error (if min = 1 then "Limit must be greater than 0"
          else "Limit must be at least " ++ toString min))
      else if (max : ℚ) < q then .error (error ("Limit cannot exceed " ++ toString max))
      else .ok q.num.toNat

/-! ## The cursor codec -/

/-- `JSON.stringify({ v: CURSOR_VERSION, t: key.t, i: key.i })`. -/
def payload (key : CursorKey) : String :=
  String.ofList ("\x7b\"v\":1,\"t\":".toList ++ numberText key.t ++ ",\"i\":".toList ++
    (quote key.i).toList ++ "\x7d".toList)

def encodeCursor (key : CursorKey) : Except Thrown String :=
  if JsStrings.length key.i = 0 then .error (error "Cannot encode cursor: invalid key")
  else .ok (toBase64url (utf8 (payload key)))

/-- The number a parsed JSON number stands for, if it is finite. -/
def numberValue (text : String) : Option Double :=
  match parseLiteral text.toList with
  | some (literal,[]) => finiteNumber literal.number
  | _ => none

/-- An answer to a bad cursor, or the error the strict mode throws. -/
def rejected (strict : Bool) (message : String) : Except Thrown (Option CursorKey) :=
  if strict then .error (invalidCursorError message) else .ok none

/-- `value === n`, for a whole number. -/
def isNumber (n : ℕ) : Option Json → Bool
  | some (.number text) => (numberValue text).any fun x => decide (x.1 = (n : ℚ))
  | _ => false

def cursorVersion : ℕ := 1

def decodePayload (strict : Bool) (parsed : Json) : Except Thrown (Option CursorKey) :=
  if ! isNumber cursorVersion (field "v" parsed) then
    rejected strict "Unsupported cursor version"
  else
    match field "t" parsed, field "i" parsed with
    | some (.number text), some (.string i) =>
        match numberValue text with
        | some t =>
            if i = "" then rejected strict "Malformed cursor payload" else .ok (some ⟨t,i⟩)
        | none => rejected strict "Malformed cursor payload"
    | _, _ => rejected strict "Malformed cursor payload"

/-- The format `timestamp|id` of early clients. -/
def decodeLegacy (strict : Bool) (legacyRaw : List Char) : Except Thrown (Option CursorKey) :=
  let before := legacyRaw.takeWhile (· ≠ '|')
  match legacyRaw.dropWhile (· ≠ '|') with
  | '|' :: i =>
      match finiteNumber (stringToNumber before) with
      | some t =>
          if before ≠ [] ∧ i ≠ [] then .ok (some ⟨t,String.ofList i⟩)
          else rejected strict "Malformed cursor"
      | none => rejected strict "Malformed cursor"
  | _ => rejected strict "Malformed cursor"

/-- An absent cursor and `null` are the same. -/
def decodeCursor (cursor : Option String) (strict : Bool := false) :
    Except Thrown (Option CursorKey) :=
  match cursor with
  | none => .ok none
  | some cursor =>
      if cursor = "" then .ok none
      else
        let raw := fromUtf8 (fromBase64 cursor)
        if raw.toList.head? = some '\x7b' then
          match parseJson raw with
          | some parsed => decodePayload strict parsed
          | none => rejected strict "Malformed cursor"
        else decodeLegacy strict raw.toList

def one : Literal := ⟨false,['1'],[],none⟩

theorem toList_payload (key : CursorKey) :
    (payload key).toList = '\x7b' :: '"' :: 'v' :: '"' :: ':' :: '1' :: ',' :: '"' :: 't' :: '"' ::
      ':' :: (numberText key.t ++ ',' :: '"' :: 'i' :: '"' :: ':' :: '"' ::
        ((key.i.toList.flatMap fun c => (escape c).toList) ++ ['"','\x7d'])) := by
  have hversion : "\x7b\"v\":1,\"t\":".toList =
      ['\x7b','"','v','"',':','1',',','"','t','"',':'] := by decide
  have hid : ",\"i\":".toList = [',','"','i','"',':'] := by decide
  have hend : "\x7d".toList = ['\x7d'] := by decide
  unfold payload
  rw [String.toList_ofList,toList_quote,hversion,hid,hend]
  simp only [List.append_assoc,List.cons_append,List.nil_append]

theorem parseJson_payload (key : CursorKey) :
    parseJson (payload key) = some (.object [("v",.number (printed one.number)),
      ("t",.number (String.ofList (numberText key.t))),("i",.string key.i)]) := by
  have hfuel : ∃ fuel, (payload key).toList.length + 1 = fuel + 5 := by
    rw [toList_payload]
    exact ⟨_,by simp only [List.length_cons]; rfl⟩
  rcases hfuel with ⟨fuel,hfuel⟩
  have hvalue : ∀ rest, parseValue (fuel + 2) (numberText key.t ++ ',' :: rest) =
      some (.number (String.ofList (numberText key.t)),',' :: rest) := by
    intro rest
    rw [parseValue_number (parseLiteral_numberText key.t (stops_comma rest)),printed_literalOf]
  have hone : ∀ rest, parseValue (fuel + 3) ('1' :: ',' :: rest) =
      some (.number (printed one.number),',' :: rest) := fun rest => parseValue_number rfl _
  unfold parseJson
  rw [hfuel,toList_payload,parseValue_members,parseMembers_more rfl (hone _),
    parseMembers_more rfl (hvalue _),parseMembers_last rfl (parseValue_string key.i _ _)]
  rfl

theorem numberValue_numberText (x : Double) :
    numberValue (String.ofList (numberText x)) = some x := by
  have hstops : Stops [] := by
    intro c hc
    cases hc
  have hparse := parseLiteral_numberText x hstops
  rw [List.append_nil] at hparse
  unfold numberValue
  rw [String.toList_ofList,hparse]
  simp only [literalOf_number,finiteNumber]
  rw [dif_pos x.2]

theorem isNumber_version : isNumber cursorVersion (some (.number (printed one.number))) = true := by
  have hdouble : toDouble |(1 : ℚ)| = some |(1 : ℚ)| := by decide +kernel
  have hone : one.number = .finite 1 := by
    have hmagnitude : one.magnitude = |(1 : ℚ)| := by
      simp [Literal.magnitude,Literal.exponentValue,one,decimal,digitValue]
    simp only [Literal.number,hmagnitude,hdouble]
    simp [one]
  have hprinted : printed one.number = String.ofList (numberText ⟨1,hdouble⟩) := by
    rw [hone]
    simp only [printed]
    rw [dif_pos hdouble]
  rw [hprinted,isNumber,numberValue_numberText]
  simp [cursorVersion]

theorem decodePayload_of (strict : Bool) {key : CursorKey} (hi : key.i ≠ "") :
    decodePayload strict (.object [("v",.number (printed one.number)),
      ("t",.number (String.ofList (numberText key.t))),("i",.string key.i)]) =
        .ok (some key) := by
  have hv : field "v" (.object [("v",.number (printed one.number)),
      ("t",.number (String.ofList (numberText key.t))),("i",.string key.i)]) =
        some (.number (printed one.number)) := rfl
  have ht : field "t" (.object [("v",.number (printed one.number)),
      ("t",.number (String.ofList (numberText key.t))),("i",.string key.i)]) =
        some (.number (String.ofList (numberText key.t))) := rfl
  have hid : field "i" (.object [("v",.number (printed one.number)),
      ("t",.number (String.ofList (numberText key.t))),("i",.string key.i)]) =
        some (.string key.i) := rfl
  unfold decodePayload
  rw [hv,ht,hid,isNumber_version]
  simp only [Bool.not_true,Bool.false_eq_true,if_false,numberValue_numberText,if_neg hi]

/-- A cursor reads back as the key it was made from. -/
theorem decodeCursor_encodeCursor {key : CursorKey} {cursor : String}
    (h : encodeCursor key = .ok cursor) (strict : Bool) :
    decodeCursor (some cursor) strict = .ok (some key) := by
  unfold encodeCursor at h
  split at h
  · cases h
  · rename_i hlength
    have hcursor : cursor = toBase64url (utf8 (payload key)) := (Except.ok.inj h).symm
    have hi : key.i ≠ "" := by
      intro hempty
      rw [hempty] at hlength
      exact hlength rfl
    have hraw : fromUtf8 (fromBase64 cursor) = payload key := by
      rw [hcursor,fromBase64_toBase64url,fromUtf8_utf8]
    have hhead : (payload key).toList.head? = some '\x7b' := by
      rw [toList_payload]
      rfl
    have hne : cursor ≠ "" := by
      intro hempty
      rw [hempty] at hraw
      have hnil : (payload key).toList = [] := by
        rw [← hraw]
        rfl
      rw [hnil] at hhead
      cases hhead
    unfold decodeCursor
    simp only [if_neg hne,hraw,hhead,if_true,parseJson_payload]
    exact decodePayload_of strict hi

/-! ## Keys and pages -/

section Keys
variable (collation : Collation)

def compareCursorKeysAsc (a b : CursorKey) : ℚ :=
  if a.t ≠ b.t then a.t.1 - b.t.1 else collation.localeCompare a.i b.i

def compareCursorKeysDesc (a b : CursorKey) : ℚ :=
  if a.t ≠ b.t then b.t.1 - a.t.1 else collation.localeCompare a.i b.i

def compareCursorKeys (order : CursorSortOrder) (a b : CursorKey) : ℚ :=
  match order with
  | .asc => compareCursorKeysAsc collation a b
  | .desc => compareCursorKeysDesc collation a b

def isAfterCursor (item cursor : CursorKey) (order : CursorSortOrder := .asc) : Bool :=
  match order with
  | .asc => 0 < compareCursorKeysAsc collation item cursor
  | .desc =>
      if item.t ≠ cursor.t then item.t.1 < cursor.t.1
      else 0 < collation.localeCompare item.i cursor.i

end Keys

/-- `items.slice(0, limit)`, which counts a negative limit from the end. -/
def sliceTo {α : Type} (items : List α) (limit : ℤ) : List α :=
  if 0 ≤ limit then items.take limit.toNat else items.take (items.length - limit.natAbs)

def buildPageFromOverfetch {α : Type} (overfetched : List α) (limit : ℤ) (getKey : α → CursorKey) :
    Except Thrown (CursorPage α) :=
  let hasMore := decide (limit < overfetched.length)
  let items := if hasMore then sliceTo overfetched limit else overfetched
  match hasMore, items.getLast? with
  | true, some last =>
      match encodeCursor (getKey last) with
      | .ok cursor => .ok ⟨items,some cursor,hasMore,limit⟩
      | .error e => .error e
  | _, _ => .ok ⟨items,none,hasMore,limit⟩

/-- The index of the first item behind the cursor. -/
def startIndex {α : Type} (collation : Collation) (getKey : α → CursorKey)
    (order : CursorSortOrder) (sorted : List α) : Option CursorKey → ℕ
  | none => 0
  | some decoded =>
      match sorted.findIdx? fun item =>
          (getKey item).t = decoded.t ∧ (getKey item).i = decoded.i with
      | some exact => exact + 1
      | none =>
          match sorted.findIdx? fun item => isAfterCursor collation (getKey item) decoded order with
          | some index => index
          | none => sorted.length

def sortItems {α : Type} (collation : Collation) (getKey : α → CursorKey)
    (order : CursorSortOrder) (items : List α) : List α :=
  items.insertionSort fun a b => compareCursorKeys collation order (getKey a) (getKey b) ≤ 0

def paginateArray {α : Type} (collation : Collation) (getKey : α → CursorKey) (items : List α)
    (cursor : Option String) (limit : Option Number) (order : CursorSortOrder := .asc)
    (strictCursor : Bool := false) (defaultLimit : ℕ := defaultPageSize) :
    Except Thrown (CursorPage α) :=
  match clampLimit limit defaultLimit with
  | .error e => .error e
  | .ok limit =>
      let sorted := sortItems collation getKey order items
      match decodeCursor cursor strictCursor with
      | .error e => .error e
      | .ok decoded =>
          let start := startIndex collation getKey order sorted decoded
          buildPageFromOverfetch ((sorted.drop start).take (limit + 1)) limit getKey

end Creditra.CursorPagination
