import Creditra.CursorPagination
import Creditra.FloatNumbers

/-!
# The two formats of a cursor

`decodeCursor` of `src/utils/cursorPagination.ts` reads the cursors that
`encodeCursor` mints, and those that early clients hold: `timestamp|id` in the
standard alphabet of Base64. It tells them apart by the first character of what
the cursor decodes to, and a printed number never begins with a brace.
-/
namespace Creditra.CursorCodec
open Base64 CursorPagination FloatNumbers JsNumbers JsStrings JsonText JsonValues NumberText

inductive CursorFormat where
  | json | legacy
  deriving DecidableEq, Repr

/-- The format that `decodeCursor` takes a cursor for. -/
def formatOf (cursor : String) : CursorFormat :=
  if (fromUtf8 (fromBase64 cursor)).toList.head? = some '\x7b' then .json else .legacy

theorem decodeCursor_formatOf {cursor : String} (hne : cursor ≠ "") (strict : Bool) :
    decodeCursor (some cursor) strict =
      match formatOf cursor with
      | .json =>
          match parseJson (fromUtf8 (fromBase64 cursor)) with
          | some parsed => decodePayload strict parsed
          | none => rejected strict "Malformed cursor"
      | .legacy => decodeLegacy strict (fromUtf8 (fromBase64 cursor)).toList := by
  unfold decodeCursor formatOf
  simp only [if_neg hne]
  generalize parseJson (fromUtf8 (fromBase64 cursor)) = parsed
  split_ifs
  · cases parsed with
    | none => rfl
    | some json => rfl
  · rfl

/-- `${t}|${i}`. -/
def legacyRaw (key : CursorKey) : List Char := numberText key.t ++ '|' :: key.i.toList

/-- What early clients were given. -/
def legacyCursor (key : CursorKey) : String := toBase64 (utf8 (String.ofList (legacyRaw key)))

/-! ## Printed numbers -/

section Numbers
variable {l : Literal}

/-- The characters of a printed number. -/
theorem mem_text (h : l.WellFormed) {c : Char} (hc : c ∈ l.text) :
    isDigit c = true ∨ c ∈ ['-','+','.','e'] := by
  have hdigits : ∀ {cs : List Char}, cs.all isDigit = true → c ∈ cs →
      isDigit c = true ∨ c ∈ ['-','+','.','e'] :=
    fun hcs hmem => .inl (List.all_eq_true.mp hcs c hmem)
  unfold Literal.text at hc
  simp only [List.mem_append] at hc
  rcases hc with ((hsign | hwhole) | hfraction) | hexponent
  · split_ifs at hsign
    · rw [List.mem_singleton.mp hsign]
      decide
    · cases hsign
  · exact hdigits h.whole hwhole
  · split_ifs at hfraction
    · cases hfraction
    · cases List.mem_cons.mp hfraction with
      | inl hpoint =>
          rw [hpoint]
          decide
      | inr hmem => exact hdigits h.fraction hmem
  · cases hexp : l.exponent with
    | none =>
        rw [hexp] at hexponent
        cases hexponent
    | some e =>
        rw [hexp,Literal.exponentText,List.mem_cons,List.mem_cons] at hexponent
        rcases hexponent with rfl | hsign | hmem
        · decide
        · rw [hsign]
          split_ifs <;> decide
        · exact hdigits (h.exponent e.1 e.2 hexp).2 hmem

theorem text_plain (h : l.WellFormed) {c : Char} (hc : c ∈ l.text) :
    isWhiteSpace c = false ∧ c ≠ '|' ∧ c ≠ '\x7b' := by
  cases mem_text h hc with
  | inl hdigit =>
      refine ⟨(digit_facts hdigit).1,?_,?_⟩
      · rintro rfl
        cases hdigit
      · rintro rfl
        cases hdigit
  | inr hmark =>
      simp only [List.mem_cons,List.not_mem_nil,or_false] at hmark
      rcases hmark with rfl | rfl | rfl | rfl <;> decide

/-- What follows the whole part of a printed number. -/
def tailText (l : Literal) : List Char :=
  (if l.fraction = [] then [] else '.' :: l.fraction) ++ Literal.exponentText l.exponent

theorem unsignedNumber_eq (negative : Bool) (cs : List Char) :
    unsignedNumber negative cs =
      if cs = "Infinity".toList then .infinite negative
      else if cs.takeWhile isDigit = [] ∧ (fractionAtFront (cs.dropWhile isDigit)).1 = [] then .nan
      else
        match parseExponent (fractionAtFront (cs.dropWhile isDigit)).2 with
        | some (exponent,[]) => Literal.number
            ⟨negative,cs.takeWhile isDigit,(fractionAtFront (cs.dropWhile isDigit)).1,exponent⟩
        | _ => .nan := rfl

theorem exists_whole (h : l.WellFormed) : ∃ c rest, l.whole = c :: rest ∧ isDigit c = true := by
  have hcons : ∃ c rest, l.whole = c :: rest := by
    cases h.zero with
    | inl hzero => exact ⟨'0',[],hzero⟩
    | inr hcons =>
        rcases hcons with ⟨c,rest,hcons,-⟩
        exact ⟨c,rest,hcons⟩
  rcases hcons with ⟨c,rest,hcons⟩
  have hall := h.whole
  rw [hcons,List.all_cons,Bool.and_eq_true] at hall
  exact ⟨c,rest,hcons,hall.1⟩

theorem unsignedNumber_text (h : l.WellFormed) (negative : Bool) :
    unsignedNumber negative (l.whole ++ tailText l) =
      Literal.number ⟨negative,l.whole,l.fraction,l.exponent⟩ := by
  have hstops : Stops [] := by
    intro c hc
    cases hc
  have hexponent := parseExponent_append h.exponent hstops
  have hhead : ∀ c ∈ (Literal.exponentText l.exponent ++ []).head?, isDigit c = false ∧ c ≠ '.' :=
    head_exponentText hstops
  rw [List.append_nil] at hexponent hhead
  have hfraction := fractionAtFront_append h.fraction hhead
  have hdigits : _ ∧ (l.whole ++ tailText l).dropWhile isDigit = tailText l :=
    digits_append h.whole (head_fraction l.fraction hhead)
  rcases exists_whole h with ⟨c,rest,hwhole,hc⟩
  have hne : l.whole ≠ [] := by
    rw [hwhole]
    exact List.cons_ne_nil c rest
  have hfinite : l.whole ++ tailText l ≠ "Infinity".toList := by
    intro heq
    rw [hwhole,List.cons_append] at heq
    exact (digit_facts hc).2.2.2 (List.cons.inj heq).1
  rw [unsignedNumber_eq,if_neg hfinite,hdigits.1,hdigits.2,tailText,hfraction,
    if_neg fun hnil => hne hnil.1]
  dsimp only
  rw [hexponent]

/-- No radix prefix. -/
theorem radix_notMem (h : l.WellFormed) {c : Char} (hc : c ∈ ['x','X','o','O','b','B']) :
    c ∉ l.text := by
  intro hmem
  simp only [List.mem_cons,List.not_mem_nil,or_false] at hc
  cases mem_text h hmem with
  | inl hdigit => rcases hc with rfl | rfl | rfl | rfl | rfl | rfl <;> cases hdigit
  | inr hmark => rcases hc with rfl | rfl | rfl | rfl | rfl | rfl <;> simp at hmark

theorem stringToNumber_text (h : l.WellFormed) : stringToNumber l.text = l.number := by
  have htext : l.text = (if l.negative then ['-'] else []) ++ (l.whole ++ tailText l) := by
    unfold Literal.text tailText
    simp only [List.append_assoc]
  have hradix : ∀ c rest, c ∈ ['x','X','o','O','b','B'] → l.text ≠ '0' :: c :: rest := by
    intro c rest hc heq
    exact radix_notMem h hc (by rw [heq]; simp)
  unfold stringToNumber
  rw [trimChars_eq_self fun c hc => (text_plain h hc).1]
  rcases exists_whole h with ⟨c,rest,hwhole,hc⟩
  cases hneg : l.negative with
  | true =>
      rw [htext,if_pos hneg,List.singleton_append]
      change unsignedNumber true _ = _
      rw [unsignedNumber_text h true,← hneg]
  | false =>
      rw [hneg,if_neg Bool.false_ne_true,List.nil_append] at htext
      have hfirst : ∀ d rest', l.text = d :: rest' → d = c := by
        intro d rest' heq
        rw [htext,hwhole,List.cons_append] at heq
        exact (List.cons.inj heq).1.symm
      split
      · rename_i hnil
        rw [htext,hwhole] at hnil
        cases hnil
      · rename_i heq
        exact absurd heq (hradix _ _ (by decide))
      · rename_i heq
        exact absurd heq (hradix _ _ (by decide))
      · rename_i heq
        exact absurd heq (hradix _ _ (by decide))
      · rename_i heq
        exact absurd heq (hradix _ _ (by decide))
      · rename_i heq
        exact absurd heq (hradix _ _ (by decide))
      · rename_i heq
        exact absurd heq (hradix _ _ (by decide))
      · rename_i heq
        exact absurd (hfirst _ _ heq).symm (digit_facts hc).2.1
      · rename_i heq
        exact absurd (hfirst _ _ heq).symm (digit_facts hc).2.2.1
      · rw [htext,unsignedNumber_text h false,← hneg]

end Numbers

/-! ## Reading back -/

theorem numberText_plain (x : Double) {c : Char} (hc : c ∈ numberText x) :
    c ≠ '|' ∧ c ≠ '\x7b' :=
  (text_plain (literalOf_wellFormed x) hc).2

theorem stringToNumber_numberText (x : Double) :
    finiteNumber (stringToNumber (numberText x)) = some x := by
  unfold numberText
  rw [stringToNumber_text (literalOf_wellFormed x),literalOf_number,finiteNumber,dif_pos x.2]

theorem numberText_ne_nil (x : Double) : numberText x ≠ [] := by
  rcases exists_whole (literalOf_wellFormed x) with ⟨c,rest,hwhole,-⟩
  unfold numberText Literal.text
  rw [hwhole]
  simp

/-- The first separator is the one behind the time, whatever the identifier contains. -/
theorem decodeLegacy_legacyRaw {key : CursorKey} (hi : key.i ≠ "") (strict : Bool) :
    decodeLegacy strict (legacyRaw key) = .ok (some key) := by
  have hpos : ∀ c ∈ numberText key.t, decide (c ≠ '|') = true :=
    fun c hc => decide_eq_true (numberText_plain key.t hc).1
  have hbefore : (legacyRaw key).takeWhile (· ≠ '|') = numberText key.t := by
    unfold legacyRaw
    rw [List.takeWhile_append_of_pos hpos]
    simp
  have hbehind : (legacyRaw key).dropWhile (· ≠ '|') = '|' :: key.i.toList := by
    unfold legacyRaw
    rw [List.dropWhile_append_of_pos hpos]
    simp
  have hlist : key.i.toList ≠ [] := by
    rw [Ne,String.toList_eq_nil_iff]
    exact hi
  unfold decodeLegacy
  rw [hbefore,hbehind]
  dsimp only
  rw [stringToNumber_numberText]
  change (if numberText key.t ≠ [] ∧ key.i.toList ≠ [] then _ else _) = _
  rw [if_pos ⟨numberText_ne_nil key.t,hlist⟩,String.ofList_toList]

theorem head_legacyRaw (key : CursorKey) : (legacyRaw key).head? ≠ some '\x7b' := by
  unfold legacyRaw
  cases htext : numberText key.t with
  | nil => exact absurd htext (numberText_ne_nil key.t)
  | cons c rest =>
      rw [List.cons_append,List.head?_cons,Ne,Option.some.injEq]
      exact (numberText_plain key.t (by rw [htext]; exact List.mem_cons_self)).2

theorem raw_legacyCursor (key : CursorKey) :
    (fromUtf8 (fromBase64 (legacyCursor key))).toList = legacyRaw key := by
  unfold legacyCursor
  rw [fromBase64_toBase64,fromUtf8_utf8,String.toList_ofList]

theorem formatOf_legacyCursor (key : CursorKey) : formatOf (legacyCursor key) = .legacy := by
  unfold formatOf
  rw [raw_legacyCursor,if_neg (head_legacyRaw key)]

theorem legacyCursor_ne_empty (key : CursorKey) : legacyCursor key ≠ "" := by
  intro hempty
  have hraw := raw_legacyCursor key
  rw [hempty] at hraw
  have hnil : legacyRaw key = [] := hraw.symm
  unfold legacyRaw at hnil
  simp at hnil

theorem formatOf_encodeCursor {key : CursorKey} {cursor : String}
    (h : encodeCursor key = .ok cursor) : formatOf cursor = .json := by
  unfold encodeCursor at h
  split_ifs at h
  have hcursor : toBase64url (utf8 (payload key)) = cursor := Except.ok.inj h
  unfold formatOf
  rw [← hcursor,fromBase64_toBase64url,fromUtf8_utf8,toList_payload]
  exact if_pos rfl

/-- Cursors of either format read back as the key they were made from, and neither is taken for
the other. -/
theorem cursor_codec (key : CursorKey) (strict : Bool) (hi : key.i ≠ "") :
    (∃ cursor, encodeCursor key = .ok cursor ∧ formatOf cursor = .json ∧
      decodeCursor (some cursor) strict = .ok (some key)) ∧
    formatOf (legacyCursor key) = .legacy ∧
    decodeCursor (some (legacyCursor key)) strict = .ok (some key) := by
  have hlength : JsStrings.length key.i ≠ 0 := by
    rw [Ne,length_eq_zero_iff]
    exact hi
  have hencode : encodeCursor key = .ok (toBase64url (utf8 (payload key))) := if_neg hlength
  refine ⟨⟨_,hencode,formatOf_encodeCursor hencode,decodeCursor_encodeCursor hencode strict⟩,
    formatOf_legacyCursor key,?_⟩
  rw [decodeCursor_formatOf (legacyCursor_ne_empty key),formatOf_legacyCursor,raw_legacyCursor]
  exact decodeLegacy_legacyRaw hi strict

/-- An identifier with a separator, a brace and a character outside ASCII. -/
def awkwardKey : CursorKey := ⟨⟨1700000000000,by decide +kernel⟩,"|\x7bé"⟩

theorem cursor_codec_awkwardKey :
    awkwardKey.i ≠ "" ∧ formatOf (legacyCursor awkwardKey) = .legacy ∧
      decodeCursor (some (legacyCursor awkwardKey)) true = .ok (some awkwardKey) :=
  ⟨by decide,(cursor_codec awkwardKey true (by decide)).2⟩

end Creditra.CursorCodec
