import Creditra.JsonText

/-!
# Printed JSON values are read back

`JSON.stringify` of a value without white space, and what `JSON.parse` makes of
it: the value itself, when its numbers carry the texts that are printed for
numbers and no object has a key twice. A value that is followed by more text is
read up to where it ends, so that no text is the beginning of another one.
-/
namespace Creditra.JsonRoundTrip
open JsNumbers JsStrings JsonText JsonValues NumberText

/-- Induction over the members of arrays and objects. -/
theorem json_induction {P : Json → Prop} (null : P .null) (bool : ∀ b, P (.bool b))
    (number : ∀ text, P (.number text)) (string : ∀ s, P (.string s))
    (array : ∀ items, (∀ v ∈ items, P v) → P (.array items))
    (object : ∀ fields : List (String × Json), (∀ f ∈ fields, P f.2) → P (.object fields))
    (v : Json) : P v := by
  refine @Json.rec P (fun items => ∀ v ∈ items, P v) (fun fields => ∀ f ∈ fields, P f.2)
    (fun f => P f.2) null bool number string array object ?_ ?_ ?_ ?_ ?_ v
  · intro v hv
    cases hv
  · intro v items hv hitems w hw
    cases List.mem_cons.mp hw with
    | inl heq => exact heq ▸ hv
    | inr hmem => exact hitems w hmem
  · intro f hf
    cases hf
  · intro f fields hf hfields g hg
    cases List.mem_cons.mp hg with
    | inl heq => exact heq ▸ hf
    | inr hmem => exact hfields g hmem
  · intro key v hv
    exact hv

/-- Texts with commas between them. -/
def commas : List (List Char) → List Char
  | [] => []
  | [text] => text
  | text :: next :: texts => text ++ ',' :: commas (next :: texts)

mutual

def valueText : Json → List Char
  | .null => "null".toList
  | .bool b => if b then "true".toList else "false".toList
  | .number text => text.toList
  | .string s => (quote s).toList
  | .array items => '[' :: (commas (itemTexts items) ++ [']'])
  | .object fields => '\x7b' :: (commas (fieldTexts fields) ++ ['\x7d'])

def itemTexts : List Json → List (List Char)
  | [] => []
  | v :: items => valueText v :: itemTexts items

def fieldTexts : List (String × Json) → List (List Char)
  | [] => []
  | f :: fields => ((quote f.1).toList ++ ':' :: valueText f.2) :: fieldTexts fields

end

/-- `JSON.stringify(v)`. -/
def stringify (v : Json) : String := String.ofList (valueText v)

theorem itemTexts_eq (items : List Json) : itemTexts items = items.map valueText := by
  induction items with
  | nil => rw [itemTexts,List.map_nil]
  | cons v items ih => rw [itemTexts,List.map_cons,ih]

theorem fieldTexts_eq (fields : List (String × Json)) :
    fieldTexts fields = fields.map fun f => (quote f.1).toList ++ ':' :: valueText f.2 := by
  induction fields with
  | nil => rw [fieldTexts,List.map_nil]
  | cons f fields ih => rw [fieldTexts,List.map_cons,ih]

/-- Numbers carry the text that is printed for them, and no object has a key twice. -/
inductive Printable : Json → Prop
  | null : Printable .null
  | bool (b : Bool) : Printable (.bool b)
  | number (x : Double) : Printable (.number (String.ofList (numberText x)))
  | string (s : String) : Printable (.string s)
  | array {items : List Json} (h : ∀ v ∈ items, Printable v) : Printable (.array items)
  | object {fields : List (String × Json)} (h : ∀ f ∈ fields, Printable f.2)
      (hkeys : (fields.map Prod.fst).Nodup) : Printable (.object fields)

/-- A character that a value may begin with: no space and no closing bracket. -/
def Begins (c : Char) : Prop := 33 ≤ c.toNat ∧ c ≠ ']' ∧ c ≠ '\x7d' ∧ c ≠ 'u'

theorem skipSpace_begins {c : Char} (h : Begins c) (rest : List Char) :
    skipSpace (c :: rest) = c :: rest := by
  have hlow := h.1
  unfold skipSpace
  rw [List.dropWhile_cons_of_neg]
  rw [decide_eq_true_eq]
  intro hspace
  obtain hc | hc | hc | hc := hspace
  · rw [hc] at hlow
    exact absurd hlow (by decide)
  · omega
  · omega
  · omega

theorem begins_digit {c : Char} (h : c = '-' ∨ isDigit c = true) : Begins c := by
  cases h with
  | inl hminus =>
      rw [hminus]
      unfold Begins
      decide
  | inr hdigit =>
      have hrange : 48 ≤ c.toNat ∧ c.toNat ≤ 57 := of_decide_eq_true hdigit
      have hother : ∀ d : Char, ¬ (48 ≤ d.toNat ∧ d.toNat ≤ 57) → c ≠ d := by
        intro d hd hc
        rw [hc] at hrange
        exact hd hrange
      exact ⟨by omega,hother _ (by decide),hother _ (by decide),hother _ (by decide)⟩

theorem stops_nil : Stops [] := by
  intro c hc
  cases hc

theorem begins_valueText {v : Json} (h : Printable v) :
    ∃ c tail, valueText v = c :: tail ∧ Begins c := by
  unfold Begins
  cases h with
  | null => exact ⟨'n',_,by rw [valueText]; rfl,by decide⟩
  | bool b =>
      cases b with
      | true => exact ⟨'t',_,by rw [valueText]; rfl,by decide⟩
      | false => exact ⟨'f',_,by rw [valueText]; rfl,by decide⟩
  | number x =>
      obtain ⟨c,tail,hcs,hc⟩ := parseLiteral_head (parseLiteral_numberText x stops_nil)
      rw [List.append_nil] at hcs
      exact ⟨c,tail,by rw [valueText,String.toList_ofList,hcs],begins_digit hc⟩
  | string s => exact ⟨'"',_,by rw [valueText,toList_quote],by decide⟩
  | array hitems => exact ⟨'[',_,by rw [valueText],by decide⟩
  | object hfields hkeys => exact ⟨'\x7b',_,by rw [valueText],by decide⟩

/-! ## Reading -/

/-- A value is read up to where it ends. -/
def Reads (v : Json) : Prop :=
  ∀ (rest : List Char) (fuel : ℕ), Stops rest → (valueText v).length ≤ fuel →
    parseValue fuel (valueText v ++ rest) = some (v,rest)

theorem stops_bracket (rest : List Char) : Stops (']' :: rest) := by
  intro c hc
  have hbracket : c = ']' := (Option.some.inj hc).symm
  rw [hbracket]
  decide

theorem stops_brace (rest : List Char) : Stops ('\x7d' :: rest) := by
  intro c hc
  have hbrace : c = '\x7d' := (Option.some.inj hc).symm
  rw [hbrace]
  decide

theorem parseItems_more {fuel : ℕ} {items : List Json} {cs rest : List Char} {v : Json}
    (h : parseValue fuel cs = some (v,',' :: rest)) :
    parseItems (fuel + 1) items cs = parseItems fuel (items ++ [v]) rest := by
  rw [parseItems,h]
  rfl

theorem parseItems_last {fuel : ℕ} {items : List Json} {cs rest : List Char} {v : Json}
    (h : parseValue fuel cs = some (v,']' :: rest)) :
    parseItems (fuel + 1) items cs = some (.array (items ++ [v]),rest) := by
  rw [parseItems,h]
  rfl

theorem parseValue_items {c : Char} (hc : Begins c) (tail : List Char) (fuel : ℕ) :
    parseValue (fuel + 1) ('[' :: c :: tail) = parseItems fuel [] (c :: tail) := by
  have hbracket : skipSpace ('[' :: c :: tail) = '[' :: c :: tail :=
    skipSpace_begins (by unfold Begins; decide) _
  rw [parseValue,hbracket]
  simp only [skipSpace_begins hc]
  split
  · rename_i heq
    exact absurd (List.cons.inj heq).1 hc.2.1
  · rfl

theorem parseItems_commas {items : List Json} (hne : items ≠ []) (h : ∀ v ∈ items, Reads v)
    (acc : List Json) (rest : List Char) (fuel : ℕ)
    (hfuel : (commas (items.map valueText)).length + 1 ≤ fuel) :
    parseItems fuel acc (commas (items.map valueText) ++ ']' :: rest) =
      some (.array (acc ++ items),rest) := by
  induction items generalizing acc fuel with
  | nil => exact absurd rfl hne
  | cons v items ih =>
      obtain ⟨fuel,rfl⟩ : ∃ f, fuel = f + 1 := ⟨fuel - 1,by omega⟩
      have hv := h v List.mem_cons_self
      cases items with
      | nil =>
          rw [List.map_singleton,commas] at hfuel ⊢
          exact parseItems_last (hv _ fuel (stops_bracket rest) (by omega))
      | cons w items =>
          rw [List.map_cons,List.map_cons,commas,List.length_append,List.length_cons,
            ← List.map_cons] at hfuel
          have hrest := ih (List.cons_ne_nil w items) (fun u hu => h u (List.mem_cons_of_mem v hu))
            (acc ++ [v]) fuel (by omega)
          rw [List.map_cons,List.map_cons,commas,List.append_assoc,List.cons_append,← List.map_cons,
            parseItems_more (hv _ fuel (stops_comma _) (by omega)),hrest,List.append_assoc]
          rfl

theorem setField_new {key : String} {fields : List (String × Json)} (h : key ∉ fields.map Prod.fst)
    (v : Json) : setField key v fields = fields ++ [(key,v)] := by
  rw [setField,if_neg]
  rw [List.any_eq_true]
  intro hany
  obtain ⟨f,hf,hkey⟩ := hany
  exact h (List.mem_map.mpr ⟨f,hf,of_decide_eq_true hkey⟩)

/-- The text of a field, apart from its opening quote. -/
def fieldTail (f : String × Json) : List Char :=
  (f.1.toList.flatMap fun c => (escape c).toList) ++ '"' :: ':' :: valueText f.2

theorem fieldText_eq (f : String × Json) :
    (quote f.1).toList ++ ':' :: valueText f.2 = '"' :: fieldTail f := by
  rw [toList_quote,fieldTail,List.cons_append,List.append_assoc]
  rfl

theorem parseString_fieldTail (f : String × Json) (rest : List Char) :
    parseString (fieldTail f ++ rest) = some (f.1,':' :: (valueText f.2 ++ rest)) := by
  rw [fieldTail,List.append_assoc,List.cons_append,List.cons_append,parseString_escaped]

theorem parseMembers_commas {fields : List (String × Json)} (hne : fields ≠ [])
    (h : ∀ f ∈ fields, Reads f.2) (acc : List (String × Json))
    (hkeys : ((acc ++ fields).map Prod.fst).Nodup) (rest : List Char) (fuel : ℕ)
    (hfuel : (commas (fields.map fun f => '"' :: fieldTail f)).length + 1 ≤ fuel) :
    parseMembers fuel acc (commas (fields.map fun f => '"' :: fieldTail f) ++ '\x7d' :: rest) =
      some (.object (acc ++ fields),rest) := by
  induction fields generalizing acc fuel with
  | nil => exact absurd rfl hne
  | cons f fields ih =>
      obtain ⟨fuel,rfl⟩ : ∃ n, fuel = n + 1 := ⟨fuel - 1,by omega⟩
      have hf := h f List.mem_cons_self
      have hnew : f.1 ∉ acc.map Prod.fst := by
        rw [List.map_append,List.nodup_append] at hkeys
        intro hold
        exact hkeys.2.2 f.1 hold f.1 (by simp) rfl
      have htext : (valueText f.2).length ≤ (fieldTail f).length := by
        rw [fieldTail,List.length_append,List.length_cons,List.length_cons]
        omega
      cases fields with
      | nil =>
          rw [List.map_singleton,commas,List.length_cons] at hfuel
          rw [List.map_singleton,commas,List.cons_append,
            parseMembers_last (parseString_fieldTail f _)
              (hf _ fuel (stops_brace rest) (by omega)),setField_new hnew]
      | cons g fields =>
          rw [List.map_cons,List.map_cons,commas,List.length_append,List.length_cons,
            List.length_cons,← List.map_cons (f := fun f => '"' :: fieldTail f)] at hfuel
          have hacc : acc ++ f :: g :: fields = acc ++ [f] ++ g :: fields := by simp
          rw [hacc] at hkeys
          have hrest := ih (List.cons_ne_nil g fields) (fun u hu => h u (List.mem_cons_of_mem f hu))
            (acc ++ [f]) hkeys fuel (by omega)
          rw [List.map_cons,List.map_cons,commas,List.append_assoc,List.cons_append,
            List.cons_append,← List.map_cons (f := fun f => '"' :: fieldTail f),
            parseMembers_more (parseString_fieldTail f _)
              (hf _ fuel (stops_comma _) (by omega)),setField_new hnew,hrest,hacc]

theorem length_pos {v : Json} (h : Printable v) {fuel : ℕ} (hfuel : (valueText v).length ≤ fuel) :
    ∃ n, fuel = n + 1 := by
  obtain ⟨c,tail,htext,-⟩ := begins_valueText h
  rw [htext,List.length_cons] at hfuel
  exact ⟨fuel - 1,by omega⟩

theorem reads_array {items : List Json} (h : Printable (.array items))
    (hitems : ∀ v ∈ items, Printable v) (ih : ∀ v ∈ items, Reads v) : Reads (.array items) := by
  intro rest fuel _ hfuel
  obtain ⟨fuel,rfl⟩ := length_pos h hfuel
  rw [valueText,itemTexts_eq] at hfuel ⊢
  rw [List.length_cons,List.length_append,List.length_singleton] at hfuel
  cases items with
  | nil =>
      rw [parseValue]
      rfl
  | cons v items =>
      obtain ⟨c,tail,htext,hc⟩ := begins_valueText (hitems v List.mem_cons_self)
      have hhead : ∃ more, commas ((v :: items).map valueText) = c :: more := by
        cases items with
        | nil => exact ⟨tail,by rw [List.map_singleton,commas,htext]⟩
        | cons w items =>
            exact ⟨_,by rw [List.map_cons,List.map_cons,commas,htext,List.cons_append]⟩
      obtain ⟨more,hmore⟩ := hhead
      have hread := parseItems_commas (List.cons_ne_nil v items) ih [] rest fuel (by omega)
      rw [hmore] at hread ⊢
      rw [List.cons_append,List.append_assoc,List.cons_append,parseValue_items hc]
      exact hread

theorem reads_object {fields : List (String × Json)} (h : Printable (.object fields))
    (hkeys : (fields.map Prod.fst).Nodup) (ih : ∀ f ∈ fields, Reads f.2) :
    Reads (.object fields) := by
  intro rest fuel _ hfuel
  obtain ⟨fuel,rfl⟩ := length_pos h hfuel
  rw [valueText,fieldTexts_eq] at hfuel ⊢
  simp only [fieldText_eq] at hfuel ⊢
  rw [List.length_cons,List.length_append,List.length_singleton] at hfuel
  cases fields with
  | nil =>
      rw [parseValue]
      rfl
  | cons f fields =>
      have hhead : ∃ more,
          commas ((f :: fields).map fun f => '"' :: fieldTail f) = '"' :: more := by
        cases fields with
        | nil => exact ⟨_,by rw [List.map_singleton,commas]⟩
        | cons g fields => exact ⟨_,by rw [List.map_cons,List.map_cons,commas,List.cons_append]⟩
      obtain ⟨more,hmore⟩ := hhead
      have hread := parseMembers_commas (List.cons_ne_nil f fields) ih [] hkeys rest fuel (by omega)
      rw [hmore] at hread ⊢
      rw [List.cons_append,List.append_assoc,List.cons_append,parseValue_members]
      exact hread

/-- What is printed is read back. -/
theorem reads_of_printable {v : Json} (h : Printable v) : Reads v := by
  induction h with
  | null =>
      intro rest fuel _ hfuel
      obtain ⟨fuel,rfl⟩ := length_pos .null hfuel
      rw [valueText,parseValue]
      rfl
  | bool b =>
      intro rest fuel _ hfuel
      obtain ⟨fuel,rfl⟩ := length_pos (.bool b) hfuel
      rw [valueText,parseValue]
      cases b with
      | true => rfl
      | false => rfl
  | number x =>
      intro rest fuel hrest hfuel
      obtain ⟨fuel,rfl⟩ := length_pos (.number x) hfuel
      rw [valueText,String.toList_ofList,
        parseValue_number (parseLiteral_numberText x hrest),printed_literalOf]
  | string s =>
      intro rest fuel _ hfuel
      obtain ⟨fuel,rfl⟩ := length_pos (.string s) hfuel
      rw [valueText,toList_quote,List.cons_append,List.append_assoc]
      exact parseValue_string s rest fuel
  | array hitems ih => exact reads_array (.array hitems) hitems ih
  | object hfields hkeys ih => exact reads_object (.object hfields hkeys) hkeys ih

/-- `JSON.parse(JSON.stringify(v))` is the value again. -/
theorem parseJson_stringify {v : Json} (h : Printable v) : parseJson (stringify v) = some v := by
  have hread := reads_of_printable h [] ((valueText v).length + 1) stops_nil (Nat.le_succ _)
  rw [List.append_nil] at hread
  rw [parseJson,stringify,String.toList_ofList,hread]
  rfl

/-- Where the texts of two values begin one text, the values are the same. -/
theorem valueText_append_inj {v w : Json} (hv : Printable v) (hw : Printable w)
    {rest rest' : List Char} (hrest : Stops rest) (hrest' : Stops rest')
    (h : valueText v ++ rest = valueText w ++ rest') : v = w ∧ rest = rest' := by
  have hreadv := reads_of_printable hv rest ((valueText v).length + (valueText w).length) hrest
    (by omega)
  have hreadw := reads_of_printable hw rest' ((valueText v).length + (valueText w).length) hrest'
    (by omega)
  rw [h,hreadw,Option.some.injEq,Prod.mk.injEq] at hreadv
  exact ⟨hreadv.1.symm,hreadv.2.symm⟩

end Creditra.JsonRoundTrip
