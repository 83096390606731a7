import Creditra.JsStrings
import Mathlib.Data.List.Sort

/-!
# JSON values

Values as `JSON.parse` returns them. A number carries the text the runtime
prints for it, which is all the modelled sources look at. The fields of an
object are listed in the object's own key order, no key twice.
-/
namespace Creditra.JsonValues
open JsStrings

inductive Json where
  | null
  | bool (b : Bool)
  | number (text : String)
  | string (s : String)
  | array (items : List Json)
  | object (fields : List (String × Json))

/-- One UTF-16 unit as four hexadecimal digits. -/
def hex4 (n : ℕ) : String :=
  String.ofList ([n / 4096 % 16,n / 256 % 16,n / 16 % 16,n % 16].map Nat.digitChar)

/-- The escapes of `JSON.stringify`. -/
def escape (c : Char) : String :=
  if c = '"' then "\\\""
  else if c = '\\' then "\\\\"
  else if c.toNat = 0x08 then "\\b"
  else if c.toNat = 0x09 then "\\t"
  else if c.toNat = 0x0A then "\\n"
  else if c.toNat = 0x0C then "\\f"
  else if c.toNat = 0x0D then "\\r"
  else if c.toNat < 0x20 then "\\u" ++ hex4 c.toNat
  else c.toString

def quote (s : String) : String := "\"" ++ String.join (s.toList.map escape) ++ "\""

mutual

/-- Object keys in sorted order, whatever order the client sent them in. -/
def stableStringify : Json → String
  | .null => "null"
  | .bool b => if b then "true" else "false"
  | .number text => text
  | .string s => quote s
  | .array items => "[" ++ String.intercalate "," (stableItems items) ++ "]"
  | .object fields =>
      "\x7b" ++ String.intercalate ","
        (((stableFields fields).insertionSort fun p q => sortsBefore p.1 q.1).map fun p =>
          quote p.1 ++ ":" ++ p.2) ++ "\x7d"

def stableItems : List Json → List String
  | [] => []
  | item :: items => stableStringify item :: stableItems items

def stableFields : List (String × Json) → List (String × String)
  | [] => []
  | field :: fields => (field.1,stableStringify field.2) :: stableFields fields

end

mutual

/-- What a template literal prints. An own property called `toString` is no
function, and converting such an object throws. -/
def toText : Json → Option String
  | .null => some "null"
  | .bool b => some (if b then "true" else "false")
  | .number text => some text
  | .string s => some s
  | .array items => (itemTexts items).map (String.intercalate "," ·)
  | .object fields => if fields.any (·.1 = "toString") then none else some "[object Object]"

/-- The items of an array as `join` prints them. -/
def itemTexts : List Json → Option (List String)
  | [] => some []
  | .null :: items => (itemTexts items).map ("" :: ·)
  | item :: items => (toText item).bind fun text => (itemTexts items).map (text :: ·)

end

/-- A value that a condition takes for true. -/
def truthy : Json → Bool
  | .null => false
  | .bool b => b
  | .number text => text ≠ "0"
  | .string s => s ≠ ""
  | .array _ => true
  | .object _ => true

/-- `record[key]`, for a value that may not be a record. -/
def field (key : String) : Json → Option Json
  | .object fields => (fields.find? (·.1 = key)).map Prod.snd
  | _ => none

end Creditra.JsonValues
