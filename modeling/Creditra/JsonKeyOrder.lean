import Creditra.JsonRoundTrip
import Mathlib.Data.List.Perm.Basic

/-!
# Values up to the order of their keys

Printing a value with the keys of its objects sorted prints the value whose
objects are sorted so. Whatever the order is, the text says what the value is
but for the order of its keys: two values with one text have the same keys with
the same values in every object.
-/
namespace Creditra.JsonKeyOrder
open JsonRoundTrip JsonText JsonValues NumberText

mutual

/-- Two values that differ at most in the order of the keys of their objects. -/
inductive Same : Json → Json → Prop
  | null : Same .null .null
  | bool (b : Bool) : Same (.bool b) (.bool b)
  | number (text : String) : Same (.number text) (.number text)
  | string (s : String) : Same (.string s) (.string s)
  | array {items items' : List Json} (h : SameItems items items') :
      Same (.array items) (.array items')
  | object {fields moved fields' : List (String × Json)} (hmoved : fields.Perm moved)
      (h : SameFields moved fields') : Same (.object fields) (.object fields')

inductive SameItems : List Json → List Json → Prop
  | nil : SameItems [] []
  | cons {v v' : Json} {items items' : List Json} (hv : Same v v') (h : SameItems items items') :
      SameItems (v :: items) (v' :: items')

inductive SameFields : List (String × Json) → List (String × Json) → Prop
  | nil : SameFields [] []
  | cons (key : String) {v v' : Json} {fields fields' : List (String × Json)} (hv : Same v v')
      (h : SameFields fields fields') : SameFields ((key,v) :: fields) ((key,v') :: fields')

end

/-- A permutation of images comes from a permutation. -/
theorem exists_moved {α β : Type} {f : α → β} {xs : List α} {ys : List β}
    (h : ys.Perm (xs.map f)) : ∃ moved : List α, ys = moved.map f ∧ moved.Perm xs := by
  have hcomp := congrFun (congrFun (List.eq_map_comp_perm f) ys) xs
  exact hcomp.mpr h

section Sorting
variable (before : String → String → Bool)

mutual

/-- The value with the keys of every object sorted. -/
def sortKeys : Json → Json
  | .null => .null
  | .bool b => .bool b
  | .number text => .number text
  | .string s => .string s
  | .array items => .array (sortItems items)
  | .object fields => .object ((sortFields fields).insertionSort fun p q => before p.1 q.1)

def sortItems : List Json → List Json
  | [] => []
  | v :: items => sortKeys v :: sortItems items

def sortFields : List (String × Json) → List (String × Json)
  | [] => []
  | f :: fields => (f.1,sortKeys f.2) :: sortFields fields

end

mutual

/-- The text of a value, the entries of its objects sorted by their keys. -/
def sortedText : Json → List Char
  | .null => "null".toList
  | .bool b => if b then "true".toList else "false".toList
  | .number text => text.toList
  | .string s => (quote s).toList
  | .array items => '[' :: (commas (sortedItems items) ++ [']'])
  | .object fields =>
      '\x7b' :: (commas (((sortedEntries fields).insertionSort fun p q => before p.1 q.1).map
        fun p => (quote p.1).toList ++ ':' :: p.2) ++ ['\x7d'])

def sortedItems : List Json → List (List Char)
  | [] => []
  | v :: items => sortedText v :: sortedItems items

def sortedEntries : List (String × Json) → List (String × List Char)
  | [] => []
  | f :: fields => (f.1,sortedText f.2) :: sortedEntries fields

end

theorem sortItems_eq (items : List Json) :
    sortItems before items = items.map (sortKeys before) := by
  induction items with
  | nil => rw [sortItems,List.map_nil]
  | cons v items ih => rw [sortItems,List.map_cons,ih]

theorem sortFields_eq (fields : List (String × Json)) :
    sortFields before fields = fields.map fun f => (f.1,sortKeys before f.2) := by
  induction fields with
  | nil => rw [sortFields,List.map_nil]
  | cons f fields ih => rw [sortFields,List.map_cons,ih]

theorem sortedItems_eq (items : List Json) :
    sortedItems before items = items.map (sortedText before) := by
  induction items with
  | nil => rw [sortedItems,List.map_nil]
  | cons v items ih => rw [sortedItems,List.map_cons,ih]

theorem sortedEntries_eq (fields : List (String × Json)) :
    sortedEntries before fields = fields.map fun f => (f.1,sortedText before f.2) := by
  induction fields with
  | nil => rw [sortedEntries,List.map_nil]
  | cons f fields ih => rw [sortedEntries,List.map_cons,ih]

/-- Sorting the entries and printing them is printing the sorted fields. -/
theorem map_sorted {α β : Type} (f : α → β) (entries : List (String × α)) :
    (entries.map fun e => (e.1,f e.2)).insertionSort (fun p q => before p.1 q.1) =
      (entries.insertionSort fun p q => before p.1 q.1).map fun e => (e.1,f e.2) := by
  symm
  apply List.map_insertionSort
  intro a _ b _
  exact Iff.rfl

/-- The text with sorted keys is the text of the value with sorted keys. -/
theorem sortedText_eq (v : Json) : sortedText before v = valueText (sortKeys before v) := by
  induction v using json_induction with
  | null => rw [sortedText,sortKeys,valueText]
  | bool b => rw [sortedText,sortKeys,valueText]
  | number text => rw [sortedText,sortKeys,valueText]
  | string s => rw [sortedText,sortKeys,valueText]
  | array items ih =>
      rw [sortedText,sortKeys,valueText,itemTexts_eq,sortItems_eq,sortedItems_eq,List.map_map]
      rw [List.map_congr_left ih]
      rfl
  | object fields ih =>
      rw [sortedText,sortKeys,valueText,fieldTexts_eq,sortFields_eq,sortedEntries_eq]
      have htexts : fields.map (fun f => (f.1,sortedText before f.2)) =
          (fields.map fun f => (f.1,sortKeys before f.2)).map fun f => (f.1,valueText f.2) := by
        rw [List.map_map]
        apply List.map_congr_left
        intro f hf
        rw [ih f hf]
        rfl
      rw [htexts,map_sorted before valueText,List.map_map]
      rfl

theorem printable_sortKeys {v : Json} (h : Printable v) : Printable (sortKeys before v) := by
  induction h with
  | null =>
      rw [sortKeys]
      exact .null
  | bool b =>
      rw [sortKeys]
      exact .bool b
  | number x =>
      rw [sortKeys]
      exact .number x
  | string s =>
      rw [sortKeys]
      exact .string s
  | array hitems ih =>
      rw [sortKeys,sortItems_eq]
      apply Printable.array
      intro w hw
      obtain ⟨v,hv,rfl⟩ := List.mem_map.mp hw
      exact ih v hv
  | @object fields hfields hkeys ih =>
      rw [sortKeys,sortFields_eq]
      have hperm := List.perm_insertionSort (fun p q : String × Json => before p.1 q.1 = true)
        (fields.map fun f => (f.1,sortKeys before f.2))
      apply Printable.object
      · intro g hg
        obtain ⟨f,hf,rfl⟩ := List.mem_map.mp (hperm.mem_iff.mp hg)
        exact ih f hf
      · rw [(hperm.map Prod.fst).nodup_iff,List.map_map]
        exact hkeys

theorem sameItems_of_map {items items' : List Json}
    (ih : ∀ v ∈ items, ∀ w, sortKeys before v = sortKeys before w → Same v w)
    (h : items.map (sortKeys before) = items'.map (sortKeys before)) : SameItems items items' := by
  induction items generalizing items' with
  | nil =>
      rw [List.map_nil,List.nil_eq,List.map_eq_nil_iff] at h
      rw [h]
      exact .nil
  | cons v items hitems =>
      cases items' with
      | nil => cases h
      | cons w items' =>
          rw [List.map_cons,List.map_cons,List.cons.injEq] at h
          apply SameItems.cons (ih v List.mem_cons_self w h.1)
          exact hitems (fun u hu => ih u (List.mem_cons_of_mem v hu)) h.2

theorem sameFields_of_map {fields fields' : List (String × Json)}
    (ih : ∀ f ∈ fields, ∀ w, sortKeys before f.2 = sortKeys before w → Same f.2 w)
    (h : fields.map (fun f => (f.1,sortKeys before f.2)) =
      fields'.map fun f => (f.1,sortKeys before f.2)) : SameFields fields fields' := by
  induction fields generalizing fields' with
  | nil =>
      rw [List.map_nil,List.nil_eq,List.map_eq_nil_iff] at h
      rw [h]
      exact .nil
  | cons f fields hfields =>
      cases fields' with
      | nil => cases h
      | cons g fields' =>
          rw [List.map_cons,List.map_cons,List.cons.injEq,Prod.mk.injEq] at h
          obtain ⟨⟨hkey,hvalue⟩,hrest⟩ := h
          obtain ⟨key,v⟩ := f
          obtain ⟨key',w⟩ := g
          subst hkey
          apply SameFields.cons key (ih (key,v) List.mem_cons_self w hvalue)
          exact hfields (fun u hu => ih u (List.mem_cons_of_mem (key,v) hu)) hrest

/-- Objects whose sorted fields are the same have the same fields in some order. -/
theorem same_object {fields fields' : List (String × Json)}
    (ih : ∀ f ∈ fields, ∀ w, sortKeys before f.2 = sortKeys before w → Same f.2 w)
    (h : (fields.map fun f => (f.1,sortKeys before f.2)).insertionSort
        (fun p q => before p.1 q.1) =
      (fields'.map fun f => (f.1,sortKeys before f.2)).insertionSort
        fun p q => before p.1 q.1) : Same (.object fields) (.object fields') := by
  have hleft := List.perm_insertionSort (fun p q : String × Json => before p.1 q.1 = true)
    (fields'.map fun f => (f.1,sortKeys before f.2))
  have hright := List.perm_insertionSort (fun p q : String × Json => before p.1 q.1 = true)
    (fields.map fun f => (f.1,sortKeys before f.2))
  rw [h] at hright
  obtain ⟨moved,hmap,hmoved⟩ := exists_moved (hleft.symm.trans hright)
  apply Same.object hmoved.symm
  apply sameFields_of_map before _ hmap.symm
  intro f hf w hw
  exact ih f (hmoved.mem_iff.mp hf) w hw

/-- Values that are one value when their keys are sorted. -/
theorem same_of_sortKeys {v w : Json} (h : sortKeys before v = sortKeys before w) : Same v w := by
  induction v using json_induction generalizing w with
  | null =>
      cases w with
      | null => exact .null
      | bool b | number text | string s | array items | object fields =>
          simp only [sortKeys,reduceCtorEq] at h
  | bool b =>
      cases w with
      | bool b' =>
          simp only [sortKeys,Json.bool.injEq] at h
          rw [h]
          exact .bool b'
      | null | number text | string s | array items | object fields =>
          simp only [sortKeys,reduceCtorEq] at h
  | number text =>
      cases w with
      | number text' =>
          simp only [sortKeys,Json.number.injEq] at h
          rw [h]
          exact .number text'
      | null | bool b | string s | array items | object fields =>
          simp only [sortKeys,reduceCtorEq] at h
  | string s =>
      cases w with
      | string s' =>
          simp only [sortKeys,Json.string.injEq] at h
          rw [h]
          exact .string s'
      | null | bool b | number text | array items | object fields =>
          simp only [sortKeys,reduceCtorEq] at h
  | array items ih =>
      cases w with
      | array items' =>
          simp only [sortKeys,Json.array.injEq,sortItems_eq] at h
          exact .array (sameItems_of_map before (fun v hv w hw => ih v hv hw) h)
      | null | bool b | number text | string s | object fields =>
          simp only [sortKeys,reduceCtorEq] at h
  | object fields ih =>
      cases w with
      | object fields' =>
          simp only [sortKeys,Json.object.injEq,sortFields_eq] at h
          exact same_object before (fun f hf w hw => ih f hf hw) h
      | null | bool b | number text | string s | array items =>
          simp only [sortKeys,reduceCtorEq] at h

/-- Two values that print the same text with sorted keys, with more text behind it. -/
theorem sortedText_append_inj {v w : Json} (hv : Printable v) (hw : Printable w)
    {rest rest' : List Char} (hrest : Stops rest) (hrest' : Stops rest')
    (h : sortedText before v ++ rest = sortedText before w ++ rest') : Same v w ∧ rest = rest' := by
  rw [sortedText_eq,sortedText_eq] at h
  obtain ⟨hsorted,htail⟩ := valueText_append_inj (printable_sortKeys before hv)
    (printable_sortKeys before hw) hrest hrest' h
  exact ⟨same_of_sortKeys before hsorted,htail⟩

end Sorting

/-! ## One text for the same values -/

section Canonical
variable {before : String → String → Bool}

/-- An order in which distinct keys have one arrangement. -/
structure Arranges (before : String → String → Bool) : Prop where
  total : ∀ a b, before a b = true ∨ before b a = true
  trans : ∀ {a b c}, before a b = true → before b c = true → before a c = true
  antisymm : ∀ {a b}, before a b = true → before b a = true → a = b

theorem insertionSort_eq_of_perm (h : Arranges before) {α : Type}
    {entries moved : List (String × α)}
    (hkeys : (entries.map Prod.fst).Nodup) (hmoved : entries.Perm moved) :
    entries.insertionSort (fun p q => before p.1 q.1) =
      moved.insertionSort fun p q => before p.1 q.1 := by
  have htotal : Std.Total fun p q : String × α => before p.1 q.1 = true :=
    ⟨fun p q => h.total p.1 q.1⟩
  have htrans : IsTrans (String × α) fun p q => before p.1 q.1 = true :=
    ⟨fun _ _ _ => h.trans⟩
  have hleft := List.perm_insertionSort (fun p q : String × α => before p.1 q.1 = true) entries
  have hright := List.perm_insertionSort (fun p q : String × α => before p.1 q.1 = true) moved
  refine List.Perm.eq_of_pairwise ?_ (List.pairwise_insertionSort _ entries)
    (List.pairwise_insertionSort _ moved) (hleft.trans (hmoved.trans hright.symm))
  intro p q hp hq hpq hqp
  exact List.inj_on_of_nodup_map hkeys (hleft.mem_iff.mp hp)
    (hmoved.mem_iff.mpr (hright.mem_iff.mp hq)) (h.antisymm hpq hqp)

theorem map_of_sameItems {items items' : List Json} (h : SameItems items items')
    (ih : ∀ v ∈ items, ∀ w, Same v w → sortKeys before v = sortKeys before w) :
    items.map (sortKeys before) = items'.map (sortKeys before) := by
  induction items generalizing items' with
  | nil =>
      cases h
      rfl
  | cons v items hitems =>
      cases h with
      | cons hv hrest =>
          rw [List.map_cons,List.map_cons,ih v List.mem_cons_self _ hv,
            hitems hrest fun u hu => ih u (List.mem_cons_of_mem v hu)]

theorem map_of_sameFields {fields fields' : List (String × Json)} (h : SameFields fields fields')
    (ih : ∀ f ∈ fields, ∀ w, Same f.2 w → sortKeys before f.2 = sortKeys before w) :
    fields.map (fun f => (f.1,sortKeys before f.2)) =
      fields'.map fun f => (f.1,sortKeys before f.2) := by
  induction fields generalizing fields' with
  | nil =>
      cases h
      rfl
  | cons f fields hfields =>
      cases h with
      | cons key hv hrest =>
          rw [List.map_cons,List.map_cons,ih _ List.mem_cons_self _ hv,
            hfields hrest fun u hu => ih u (List.mem_cons_of_mem _ hu)]

theorem sortKeys_of_same (h : Arranges before) {v : Json} (hv : Printable v) :
    ∀ w, Same v w → sortKeys before v = sortKeys before w := by
  induction hv with
  | null =>
      intro w hw
      cases hw
      rfl
  | bool b =>
      intro w hw
      cases hw
      rfl
  | number x =>
      intro w hw
      cases hw
      rfl
  | string s =>
      intro w hw
      cases hw
      rfl
  | array hitems ih =>
      intro w hw
      cases hw with
      | array hsame => rw [sortKeys,sortKeys,sortItems_eq,sortItems_eq,map_of_sameItems hsame ih]
  | @object fields hfields hkeys ih =>
      intro w hw
      cases hw with
      | @object _ moved _ hmoved hsame =>
          have hmap := map_of_sameFields hsame fun f hf => ih f (hmoved.mem_iff.mpr hf)
          rw [sortKeys,sortKeys,sortFields_eq,sortFields_eq,← hmap]
          congr 1
          apply insertionSort_eq_of_perm h
          · rw [List.map_map]
            exact hkeys
          · exact hmoved.map _

/-- The text with sorted keys is the same for two values exactly when they differ at most in the
order of their keys. -/
theorem sortedText_eq_iff (h : Arranges before) {v w : Json} (hv : Printable v) (hw : Printable w) :
    sortedText before v = sortedText before w ↔ Same v w := by
  constructor
  · intro heq
    have happend : sortedText before v ++ [] = sortedText before w ++ [] := by rw [heq]
    exact (sortedText_append_inj before hv hw stops_nil stops_nil happend).1
  · intro hsame
    rw [sortedText_eq,sortedText_eq,sortKeys_of_same h hv w hsame]

end Canonical

end Creditra.JsonKeyOrder
