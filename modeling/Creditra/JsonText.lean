import Creditra.JsonValues
import Creditra.NumberText

/-!
# JSON texts

`JSON.parse`. Numbers are kept as the text the runtime prints for them, as in
`JsonValues`, and the printed texts read back. An escaped surrogate that has no
partner is no scalar value and is read as the replacement character.
-/
namespace Creditra.JsonText
open JsNumbers JsStrings JsonValues NumberText

/-! ## Strings -/

def codeUnit (a b c d : Char) : Option ℕ := do
  return ((← hexDigit a) * 4096 + (← hexDigit b) * 256 + (← hexDigit c) * 16 + (← hexDigit d))

def simpleEscape : Char → Option Char
  | '"' => some '"'
  | '\\' => some '\\'
  | '/' => some '/'
  | 'b' => some (Char.ofNat 0x08)
  | 'f' => some (Char.ofNat 0x0C)
  | 'n' => some (Char.ofNat 0x0A)
  | 'r' => some (Char.ofNat 0x0D)
  | 't' => some (Char.ofNat 0x09)
  | _ => none

/-- A character of a string body, or a code unit given by its number. -/
inductive Item where
  | char (c : Char)
  | unit (n : ℕ)

/-- The body of a string up to its closing quote. -/
def stringItems : List Char → Option (List Item × List Char)
  | [] => none
  | '"' :: rest => some ([],rest)
  | '\\' :: 'u' :: a :: b :: c :: d :: rest =>
      (codeUnit a b c d).bind fun n =>
        (stringItems rest).map fun r => (.unit n :: r.1,r.2)
  | '\\' :: c :: rest =>
      (simpleEscape c).bind fun e => (stringItems rest).map fun r => (.char e :: r.1,r.2)
  | c :: rest =>
      if c.toNat < 0x20 then none
      else (stringItems rest).map fun r => (.char c :: r.1,r.2)

def isHighSurrogate (n : ℕ) : Bool := 0xD800 ≤ n ∧ n ≤ 0xDBFF

def isLowSurrogate (n : ℕ) : Bool := 0xDC00 ≤ n ∧ n ≤ 0xDFFF

def joinItems : List Item → List Char
  | [] => []
  | .char c :: rest => c :: joinItems rest
  | .unit high :: .unit low :: rest =>
      if isHighSurrogate high ∧ isLowSurrogate low then
        Char.ofNat (0x10000 + (high - 0xD800) * 0x400 + (low - 0xDC00)) :: joinItems rest
      else if isHighSurrogate high ∨ isLowSurrogate high then
        replacement :: joinItems (.unit low :: rest)
      else Char.ofNat high :: joinItems (.unit low :: rest)
  | .unit n :: rest =>
      (if isHighSurrogate n ∨ isLowSurrogate n then replacement else Char.ofNat n) ::
        joinItems rest

/-- A string, behind its opening quote. -/
def parseString (cs : List Char) : Option (String × List Char) :=
  (stringItems cs).map fun r => (String.ofList (joinItems r.1),r.2)

/-- How an escaped character is read. -/
def itemOf (c : Char) : Item :=
  if c.toNat < 0x20 ∧ c.toNat ∉ [0x08,0x09,0x0A,0x0C,0x0D] then .unit c.toNat else .char c

theorem stringItems_plain {c : Char} (hquote : c ≠ '"') (hslash : c ≠ '\\')
    (hcontrol : ¬ c.toNat < 0x20) (tail : List Char) :
    stringItems (c :: tail) = (stringItems tail).map fun r => (.char c :: r.1,r.2) := by
  rw [stringItems]
  · rw [if_neg hcontrol]
  · exact hquote
  · intro _ _ _ _ _ h
    exact absurd h hslash
  · intro _ _ h
    exact absurd h hslash

theorem stringItems_control {n : ℕ} (h : n < 0x20) (tail : List Char) :
    stringItems ((escape (Char.ofNat n)).toList ++ tail) =
      (stringItems tail).map fun r => (itemOf (Char.ofNat n) :: r.1,r.2) := by
  interval_cases n <;> rfl

theorem stringItems_escape (c : Char) (tail : List Char) :
    stringItems ((escape c).toList ++ tail) =
      (stringItems tail).map fun r => (itemOf c :: r.1,r.2) := by
  by_cases hcontrol : c.toNat < 0x20
  · have h := stringItems_control hcontrol tail
    rw [Char.ofNat_toNat] at h
    exact h
  · by_cases hquote : c = '"'
    · rw [hquote]
      rfl
    · by_cases hslash : c = '\\'
      · rw [hslash]
        rfl
      · have hescape : (escape c).toList = [c] := by
          unfold escape
          rw [if_neg hquote,if_neg hslash,if_neg (by omega),if_neg (by omega),if_neg (by omega),
            if_neg (by omega),if_neg (by omega),if_neg hcontrol]
          exact String.toList_singleton c
        have hitem : itemOf c = .char c := if_neg fun h => hcontrol h.1
        rw [hescape,hitem]
        exact stringItems_plain hquote hslash hcontrol tail

theorem stringItems_escaped (cs rest : List Char) :
    stringItems ((cs.flatMap fun c => (escape c).toList) ++ '"' :: rest) =
      some (cs.map itemOf,rest) := by
  induction cs with
  | nil => rfl
  | cons c cs ih =>
      rw [List.flatMap_cons,List.append_assoc,stringItems_escape,ih]
      rfl

theorem joinItems_unit {n : ℕ} (h : n < 0x20) (rest : List Item) :
    joinItems (.unit n :: rest) = Char.ofNat n :: joinItems rest := by
  have hhigh : isHighSurrogate n = false := by
    unfold isHighSurrogate
    rw [decide_eq_false_iff_not]
    omega
  have hlow : isLowSurrogate n = false := by
    unfold isLowSurrogate
    rw [decide_eq_false_iff_not]
    omega
  cases rest with
  | nil => simp [joinItems,hhigh,hlow]
  | cons item rest => cases item <;> simp [joinItems,hhigh,hlow]

theorem joinItems_map (cs : List Char) : joinItems (cs.map itemOf) = cs := by
  induction cs with
  | nil => rfl
  | cons c cs ih =>
      rw [List.map_cons,itemOf]
      split
      · rename_i h
        rw [joinItems_unit h.1,Char.ofNat_toNat,ih]
      · rw [joinItems,ih]

/-- A quoted string is read back, behind its opening quote. -/
theorem parseString_escaped (s : String) (rest : List Char) :
    parseString ((s.toList.flatMap fun c => (escape c).toList) ++ '"' :: rest) = some (s,rest) := by
  unfold parseString
  rw [stringItems_escaped,Option.map_some,joinItems_map,String.ofList_toList]

theorem toList_quote (s : String) :
    (quote s).toList = '"' :: ((s.toList.flatMap fun c => (escape c).toList) ++ ['"']) := by
  unfold quote
  simp [String.toList_append,String.toList_join,List.flatMap_map]

/-! ## Values -/

def skipSpace (cs : List Char) : List Char :=
  cs.dropWhile fun c => c = ' ' ∨ c.toNat = 0x09 ∨ c.toNat = 0x0A ∨ c.toNat = 0x0D

/-- The text the runtime prints for a number. -/
def printed : Number → String
  | .finite q =>
      if h : toDouble |q| = some |q| then String.ofList (numberText ⟨q,h⟩) else "NaN"
  | .infinite negative => if negative then "-Infinity" else "Infinity"
  | .nan => "NaN"

/-- A repeated key keeps its place and takes the last value. -/
def setField (key : String) (value : Json) (fields : List (String × Json)) :
    List (String × Json) :=
  if fields.any (·.1 = key) then fields.map fun f => if f.1 = key then (key,value) else f
  else fields ++ [(key,value)]

mutual

/-- Each nested call has read at least one character, so that the length of the
text bounds the nesting. -/
def parseValue : ℕ → List Char → Option (Json × List Char)
  | 0, _ => none
  | fuel + 1, cs =>
      match skipSpace cs with
      | 'n' :: 'u' :: 'l' :: 'l' :: rest => some (.null,rest)
      | 't' :: 'r' :: 'u' :: 'e' :: rest => some (.bool true,rest)
      | 'f' :: 'a' :: 'l' :: 's' :: 'e' :: rest => some (.bool false,rest)
      | '"' :: rest => (parseString rest).map fun r => (.string r.1,r.2)
      | '[' :: rest =>
          match skipSpace rest with
          | ']' :: rest => some (.array [],rest)
          | rest => parseItems fuel [] rest
      | '\x7b' :: rest =>
          match skipSpace rest with
          | '\x7d' :: rest => some (.object [],rest)
          | rest => parseMembers fuel [] rest
      | rest => (parseLiteral rest).map fun r => (.number (printed r.1.number),r.2)

def parseItems : ℕ → List Json → List Char → Option (Json × List Char)
  | 0, _, _ => none
  | fuel + 1, items, cs =>
      (parseValue fuel cs).bind fun r =>
        match skipSpace r.2 with
        | ',' :: rest => parseItems fuel (items ++ [r.1]) rest
        | ']' :: rest => some (.array (items ++ [r.1]),rest)
        | _ => none

def parseMembers : ℕ → List (String × Json) → List Char → Option (Json × List Char)
  | 0, _, _ => none
  | fuel + 1, fields, cs =>
      match skipSpace cs with
      | '"' :: rest =>
          (parseString rest).bind fun key =>
            match skipSpace key.2 with
            | ':' :: rest =>
                (parseValue fuel rest).bind fun value =>
                  match skipSpace value.2 with
                  | ',' :: rest => parseMembers fuel (setField key.1 value.1 fields) rest
                  | '\x7d' :: rest => some (.object (setField key.1 value.1 fields),rest)
                  | _ => none
            | _ => none
      | _ => none

end

/-- `JSON.parse(text)`; absent when it throws. -/
def parseJson (text : String) : Option Json :=
  match parseValue (text.toList.length + 1) text.toList with
  | some (value,rest) => if skipSpace rest = [] then some value else none
  | none => none

/-! ## Reading printed values -/

theorem parseDigits_head {cs : List Char} {r : List Char × List Char}
    (h : parseDigits cs = some r) : ∃ c tail, cs = c :: tail ∧ isDigit c = true := by
  cases cs with
  | nil => cases h
  | cons c tail =>
      refine ⟨c,tail,rfl,?_⟩
      by_contra hc
      unfold parseDigits at h
      rw [List.takeWhile_cons_of_neg hc,if_pos rfl] at h
      cases h

theorem parseMagnitude_head {negative : Bool} {cs : List Char} {r : Literal × List Char}
    (h : parseMagnitude negative cs = some r) : ∃ c tail, cs = c :: tail ∧ isDigit c = true := by
  cases hwhole : parseWhole cs with
  | none => simp [parseMagnitude,hwhole] at h
  | some w =>
      unfold parseWhole at hwhole
      split at hwhole
      · exact ⟨'0',_,rfl,rfl⟩
      · exact parseDigits_head hwhole

theorem parseLiteral_head {cs : List Char} {r : Literal × List Char}
    (h : parseLiteral cs = some r) :
    ∃ c tail, cs = c :: tail ∧ (c = '-' ∨ isDigit c = true) := by
  unfold parseLiteral at h
  split at h
  · exact ⟨'-',_,rfl,.inl rfl⟩
  · rcases parseMagnitude_head h with ⟨c,tail,hcs,hc⟩
    exact ⟨c,tail,hcs,.inr hc⟩

theorem parseValue_number {cs rest : List Char} {l : Literal}
    (h : parseLiteral cs = some (l,rest)) (fuel : ℕ) :
    parseValue (fuel + 1) cs = some (.number (printed l.number),rest) := by
  rcases parseLiteral_head h with ⟨c,tail,rfl,hc⟩
  have hspace : skipSpace (c :: tail) = c :: tail := by
    rcases hc with rfl | hc
    · rfl
    · have hrange : 48 ≤ c.toNat ∧ c.toNat ≤ 57 := of_decide_eq_true hc
      unfold skipSpace
      rw [List.dropWhile_cons_of_neg]
      rw [decide_eq_true_eq]
      rintro (rfl | h | h | h)
      · exact absurd hrange.1 (by decide)
      · omega
      · omega
      · omega
  have hnot : ∀ d, isDigit d = false → d ≠ '-' → c ≠ d := by
    rintro d hd hminus rfl
    rcases hc with rfl | hc
    · exact hminus rfl
    · rw [hc] at hd
      cases hd
  unfold parseValue
  rw [hspace]
  split
  · rename_i heq
    exact absurd (List.cons.inj heq).1 (hnot _ rfl (by decide))
  · rename_i heq
    exact absurd (List.cons.inj heq).1 (hnot _ rfl (by decide))
  · rename_i heq
    exact absurd (List.cons.inj heq).1 (hnot _ rfl (by decide))
  · rename_i heq
    exact absurd (List.cons.inj heq).1 (hnot _ rfl (by decide))
  · rename_i heq
    exact absurd (List.cons.inj heq).1 (hnot _ rfl (by decide))
  · rename_i heq
    exact absurd (List.cons.inj heq).1 (hnot _ rfl (by decide))
  · rw [h]
    rfl

theorem parseValue_string (s : String) (rest : List Char) (fuel : ℕ) :
    parseValue (fuel + 1) ('"' :: ((s.toList.flatMap fun c => (escape c).toList) ++ '"' :: rest)) =
      some (.string s,rest) := by
  unfold parseValue
  change (parseString _).map _ = _
  rw [parseString_escaped]
  rfl

/-- The number a printed number reads as. -/
theorem printed_literalOf (x : Double) :
    printed (literalOf x).number = String.ofList (numberText x) := by
  rw [literalOf_number]
  simp only [printed]
  rw [dif_pos x.2]

theorem stops_comma (rest : List Char) : Stops (',' :: rest) := by
  intro c hc
  have hcomma : c = ',' := (Option.some.inj hc).symm
  rw [hcomma]
  decide

theorem parseMembers_more {fuel : ℕ} {fields : List (String × Json)} {cs after rest : List Char}
    {key : String} {value : Json} (hkey : parseString cs = some (key,':' :: after))
    (hvalue : parseValue fuel after = some (value,',' :: rest)) :
    parseMembers (fuel + 1) fields ('"' :: cs) =
      parseMembers fuel (setField key value fields) rest := by
  rw [parseMembers]
  change (parseString cs).bind _ = _
  rw [hkey]
  change (parseValue fuel after).bind _ = _
  rw [hvalue]
  rfl

theorem parseMembers_last {fuel : ℕ} {fields : List (String × Json)} {cs after rest : List Char}
    {key : String} {value : Json} (hkey : parseString cs = some (key,':' :: after))
    (hvalue : parseValue fuel after = some (value,'\x7d' :: rest)) :
    parseMembers (fuel + 1) fields ('"' :: cs) =
      some (.object (setField key value fields),rest) := by
  rw [parseMembers]
  change (parseString cs).bind _ = _
  rw [hkey]
  change (parseValue fuel after).bind _ = _
  rw [hvalue]
  rfl

theorem parseValue_members (cs : List Char) (fuel : ℕ) :
    parseValue (fuel + 1) ('\x7b' :: '"' :: cs) = parseMembers fuel [] ('"' :: cs) := by
  rw [parseValue]
  rfl

end Creditra.JsonText
