import Creditra.FloatNumbers
import Creditra.InsertionMaps
import Creditra.LogRedaction
import Mathlib.Data.Fintype.Card

/-!
# Redacted values

`redactLogValue` of `utils/logRedact.ts` on values with shared and cyclic
references: objects live in a heap and refer to each other by address. The result
is a tree, since an object that has been met before is replaced by a text. Objects
are arrays, plain objects and errors; an error has its name, message and stack, and
its own enumerable fields, among which may be a name.
-/
namespace Creditra.LogValues
open FloatNumbers InsertionMaps LogRedaction StellarDiagnostics WordPatterns

inductive Item (n : ℕ) where
  | undefined
  | null
  | boolean (b : Bool)
  | number (x : Value)
  | string (s : String)
  | object (address : Fin n)

abbrev Entries (n : ℕ) : Type := InsertionMap String (Item n)

inductive Obj (n : ℕ) where
  | error (name message : String) (stack : Option String) (extra : Entries n)
  | array (items : List (Item n))
  | plain (entries : Entries n)

abbrev Heap (n : ℕ) : Type := Fin n → Obj n

inductive Out where
  | undefined
  | null
  | boolean (b : Bool)
  | number (x : Value)
  | string (s : String)
  | error (fields : List (String × Out))
  | array (items : List Out)
  | plain (entries : List (String × Out))

/-- A string that is reachable in a result: a value, a key, or a field of an error. -/
inductive Occurs (s : String) : Out → Prop
  | string : Occurs s (.string s)
  | errorKey {fields : List (String × Out)} {o : Out} (h : (s,o) ∈ fields) :
      Occurs s (.error fields)
  | errorField {fields : List (String × Out)} {k : String} {o : Out} (h : (k,o) ∈ fields)
      (ho : Occurs s o) : Occurs s (.error fields)
  | item {items : List Out} {o : Out} (h : o ∈ items) (ho : Occurs s o) : Occurs s (.array items)
  | key {entries : List (String × Out)} {o : Out} (h : (s,o) ∈ entries) : Occurs s (.plain entries)
  | entry {entries : List (String × Out)} {k : String} {o : Out} (h : (k,o) ∈ entries)
      (ho : Occurs s o) : Occurs s (.plain entries)

/-- The text holds a word-bounded address, secret seed or muxed account. -/
def Exposes (text : String) : Prop :=
  ∃ m, IsWord isWordChar text.toList m ∧ (IsKey 'G' 55 m ∨ IsKey 'S' 55 m ∨ IsKey 'M' 68 m)

/-- The lines below the message in the stack of a new error. They name functions and
files of the program, and no keys. -/
structure Frames where
  text : String
  plain : StartsPlain isWordChar text.toList
  clean : ¬ Exposes text

/-! ## The walk -/

/-- Visits one after the other, each with what the ones before have seen. -/
def visitAll {σ ι ο : Type} (visit : σ → ι → Option (ο × σ)) : σ → List ι → Option (List ο × σ)
  | s, [] => some ([],s)
  | s, i :: is => do
      let (o,s) ← visit s i
      let (os,s) ← visitAll visit s is
      some (o :: os,s)

/-- The stack of `new Error(message)`. -/
def newStack (frames : Frames) (message : String) : String :=
  (if message = "" then "Error" else "Error: " ++ message) ++ frames.text

/-- The new error before the extra fields are assigned. -/
def redactedError (frames : Frames) (name message : String) (stack : Option String) :
    InsertionMap String Out :=
  let message := redactLogString message false
  let error := InsertionMap.empty.set "stack" (Out.string (newStack frames message))
  let error := error.set "message" (.string message)
  let error := error.set "name" (.string name)
  match stack with
  | none => error
  | some stack =>
      if stack = "" then error else error.set "stack" (.string (redactLogString stack false))

section Walk
variable {n : ℕ} (heap : Heap n) (frames : Frames)

/-- The fuel bounds how deep objects are nested. -/
def redactValueInternal : ℕ → Finset (Fin n) → Item n → Option (Out × Finset (Fin n))
  | _, seen, .undefined => some (.undefined,seen)
  | _, seen, .null => some (.null,seen)
  | _, seen, .boolean b => some (.boolean b,seen)
  | _, seen, .number x => some (.number x,seen)
  | _, seen, .string s => some (.string (redactLogString s false),seen)
  | 0, _, .object _ => none
  | fuel + 1, seen, .object address =>
      let visitEntry := fun (seen : Finset (Fin n)) (entry : String × Item n) =>
        (redactValueInternal fuel seen entry.2).map fun (nested,seen) => ((entry.1,nested),seen)
      if address ∈ seen then some (.string "[Circular]",seen)
      else match heap address with
        | .error name message stack extra =>
            (visitAll visitEntry (insert address seen) extra.entries).map fun (nested,seen) =>
              (.error (nested.foldl (fun error entry => error.set entry.1 entry.2)
                (redactedError frames name message stack)).entries,seen)
        | .array items =>
            (visitAll (redactValueInternal fuel) (insert address seen) items).map
              fun (nested,seen) => (.array nested,seen)
        | .plain entries =>
            (visitAll visitEntry (insert address seen) entries.entries).map
              fun (nested,seen) => (.plain nested,seen)

/-- `redactLogValue(value)` with the debug flag off. -/
def redactLogValue (value : Item n) : Option Out :=
  (redactValueInternal heap frames (n + 1) ∅ value).map Prod.fst

end Walk

/-! ## What a walk visits -/

namespace Obj
variable {n : ℕ}

/-- What an object holds. -/
def children : Obj n → List (Item n)
  | .error _ _ _ extra => extra.entries.map Prod.snd
  | .array items => items
  | .plain entries => entries.entries.map Prod.snd

/-- The strings that are copied as they are: the keys, and the name of an error
unless it is a field. -/
def copied : Obj n → List String
  | .error name _ _ extra => extra.keys ++ if "name" ∈ extra.keys then [] else [name]
  | .array _ => []
  | .plain entries => entries.keys

end Obj

/-- The objects that can be reached from a value. -/
inductive Reaches {n : ℕ} (heap : Heap n) : Item n → Fin n → Prop
  | here (a : Fin n) : Reaches heap (.object a) a
  | through {a b : Fin n} {i : Item n} (hi : i ∈ (heap a).children) (h : Reaches heap i b) :
      Reaches heap (.object a) b

section Visits
variable {n : ℕ} {heap : Heap n}

/-- What visiting some items adds to the objects seen, and which strings come of it. -/
structure Visit (heap : Heap n) (items : List (Item n)) (seen seen' : Finset (Fin n))
    (occurs : String → Prop) : Prop where
  grows : seen ⊆ seen'
  reached : ∀ a, .object a ∈ items → a ∈ seen'
  within : ∀ b ∈ seen', b ∉ seen → ∃ i ∈ items, Reaches heap i b
  closed : ∀ b ∈ seen', b ∉ seen → ∀ a, .object a ∈ (heap b).children → a ∈ seen'
  exposed : ∀ s, occurs s → Exposes s → ∃ b ∈ seen', b ∉ seen ∧ s ∈ (heap b).copied
  copied : ∀ b ∈ seen', b ∉ seen → ∀ s ∈ (heap b).copied, occurs s

theorem Visit.nothing {item : Item n} {seen : Finset (Fin n)} {occurs : String → Prop}
    (hitem : ∀ a, item = .object a → a ∈ seen) (h : ∀ s, occurs s → ¬ Exposes s) :
    Visit heap [item] seen seen occurs where
  grows := Finset.Subset.refl seen
  reached a ha := hitem a (List.mem_singleton.mp ha).symm
  within _ hb hnot := absurd hb hnot
  closed _ hb hnot := absurd hb hnot
  exposed s hs hexposes := absurd hexposes (h s hs)
  copied _ hb hnot := absurd hb hnot

theorem Visit.nil (seen : Finset (Fin n)) : Visit heap [] seen seen fun _ => False where
  grows := Finset.Subset.refl seen
  reached _ ha := absurd ha List.not_mem_nil
  within _ hb hnot := absurd hb hnot
  closed _ hb hnot := absurd hb hnot
  exposed _ hs _ := hs.elim
  copied _ hb hnot := absurd hb hnot

theorem Visit.cons {item : Item n} {items : List (Item n)} {seen seen' seen'' : Finset (Fin n)}
    {occurs occurs' : String → Prop} (h : Visit heap [item] seen seen' occurs)
    (h' : Visit heap items seen' seen'' occurs') :
    Visit heap (item :: items) seen seen'' fun s => occurs s ∨ occurs' s where
  grows := h.grows.trans h'.grows
  reached a ha := by
    rcases List.mem_cons.mp ha with rfl | ha
    · exact h'.grows (h.reached a (List.mem_singleton.mpr rfl))
    · exact h'.reached a ha
  within b hb hnot := by
    by_cases hmid : b ∈ seen'
    · obtain ⟨i,hi,hreach⟩ := h.within b hmid hnot
      exact ⟨i,List.mem_cons.mpr (.inl (List.mem_singleton.mp hi)),hreach⟩
    · obtain ⟨i,hi,hreach⟩ := h'.within b hb hmid
      exact ⟨i,List.mem_cons_of_mem _ hi,hreach⟩
  closed b hb hnot a ha := by
    by_cases hmid : b ∈ seen'
    · exact h'.grows (h.closed b hmid hnot a ha)
    · exact h'.closed b hb hmid a ha
  exposed s hs hexposes := by
    rcases hs with hs | hs
    · obtain ⟨b,hb,hnot,hcopied⟩ := h.exposed s hs hexposes
      exact ⟨b,h'.grows hb,hnot,hcopied⟩
    · obtain ⟨b,hb,hnot,hcopied⟩ := h'.exposed s hs hexposes
      exact ⟨b,hb,fun hseen => hnot (h.grows hseen),hcopied⟩
  copied b hb hnot s hs := by
    by_cases hmid : b ∈ seen'
    · exact .inl (h.copied b hmid hnot s hs)
    · exact .inr (h'.copied b hb hmid s hs)

/-- An object is seen before what it holds is visited. -/
theorem Visit.object {address : Fin n} {seen seen' : Finset (Fin n)} {occurs total : String → Prop}
    (hnew : address ∉ seen)
    (h : Visit heap (heap address).children (insert address seen) seen' occurs)
    (hcopied : ∀ s ∈ (heap address).copied, total s) (hbelow : ∀ s, occurs s → total s)
    (htotal : ∀ s, total s → occurs s ∨ s ∈ (heap address).copied ∨ ¬ Exposes s) :
    Visit heap [.object address] seen seen' total := by
  have haddress : address ∈ seen' := h.grows (Finset.mem_insert_self _ _)
  have hcases : ∀ b ∈ seen', b ∉ seen → b = address ∨ b ∉ insert address seen := by
    intro b _ hnot
    by_cases hb : b = address
    · exact .inl hb
    · refine .inr fun hmem => ?_
      rcases Finset.mem_insert.mp hmem with heq | hmem
      · exact hb heq
      · exact hnot hmem
  refine ⟨fun b hb => h.grows (Finset.mem_insert_of_mem hb),?_,?_,?_,?_,?_⟩
  · intro a ha
    obtain rfl := Item.object.inj (List.mem_singleton.mp ha)
    exact haddress
  · intro b hb hnot
    refine ⟨.object address,List.mem_singleton.mpr rfl,?_⟩
    rcases hcases b hb hnot with rfl | hnot'
    · exact .here b
    · obtain ⟨i,hi,hreach⟩ := h.within b hb hnot'
      exact .through hi hreach
  · intro b hb hnot a ha
    rcases hcases b hb hnot with rfl | hnot'
    · exact h.reached a ha
    · exact h.closed b hb hnot' a ha
  · intro s hs hexposes
    rcases htotal s hs with hs | hs | hclean
    · obtain ⟨b,hb,hnot,hcopied⟩ := h.exposed s hs hexposes
      exact ⟨b,hb,fun hseen => hnot (Finset.mem_insert_of_mem hseen),hcopied⟩
    · exact ⟨address,haddress,hnew,hs⟩
    · exact absurd hexposes hclean
  · intro b hb hnot s hs
    rcases hcases b hb hnot with rfl | hnot'
    · exact hcopied s hs
    · exact hbelow s (h.copied b hb hnot' s hs)

/-- Items that can each be visited, with room for all objects not yet seen, can be
visited one after the other. -/
theorem visitAll_spec {ι ο : Type} {visit : Finset (Fin n) → ι → Option (ο × Finset (Fin n))}
    {item : ι → Item n} {occurs : ο → String → Prop} {R : ι → ο → Prop} {fuel : ℕ}
    (hvisit : ∀ seen i, n < seen.card + fuel → ∃ o seen', visit seen i = some (o,seen') ∧
      R i o ∧ Visit heap [item i] seen seen' (occurs o))
    (is : List ι) (seen : Finset (Fin n)) (hfuel : n < seen.card + fuel) :
    ∃ os seen', visitAll visit seen is = some (os,seen') ∧ List.Forall₂ R is os ∧
      Visit heap (is.map item) seen seen' fun s => ∃ o ∈ os, occurs o s := by
  induction is generalizing seen with
  | nil =>
      refine ⟨[],seen,rfl,.nil,?_⟩
      have hnone : (fun s => ∃ o ∈ ([] : List ο), occurs o s) = fun _ => False := by
        funext s
        simp
      rw [hnone]
      exact .nil seen
  | cons i is ih =>
      obtain ⟨o,seen',hi,hR,hone⟩ := hvisit seen i hfuel
      have hcard := Finset.card_le_card hone.grows
      obtain ⟨os,seen'',his,hRs,hrest⟩ := ih seen' (by omega)
      refine ⟨o :: os,seen'',?_,.cons hR hRs,?_⟩
      · rw [visitAll,hi]
        simp only [Option.bind_eq_bind,Option.bind_some,his]
      · have hboth : (fun s => ∃ o' ∈ o :: os, occurs o' s) =
            fun s => occurs o s ∨ ∃ o' ∈ os, occurs o' s := by
          funext s
          simp
        rw [hboth]
        exact hone.cons hrest

end Visits

/-! ## What is redacted -/

theorem length_of_exposing {m : List Char}
    (h : IsKey 'G' 55 m ∨ IsKey 'S' 55 m ∨ IsKey 'M' 68 m) : 56 ≤ m.length := by
  rcases h with h | h | h
  · rw [h.2.1]
  · rw [h.2.1]
  · rw [h.2.1]
    decide

theorem not_exposes_redactLogString (value : String) : ¬ Exposes (redactLogString value false) := by
  intro h
  obtain ⟨m,hm,hkey⟩ := h
  have hlength := length_of_exposing hkey
  rcases mem_words_redactLogString (mem_words_iff.mpr hm) with hshort | ⟨-,hS,hM,hG⟩
  · omega
  · tauto

theorem not_exposes_short {text : String} (h : text.toList.length < 56) : ¬ Exposes text := by
  intro hexposes
  obtain ⟨m,hm,hkey⟩ := hexposes
  have hlength := length_of_exposing hkey
  have hle := length_le_of_mem_words (mem_words_iff.mpr hm)
  omega

theorem not_exposes_newStack (frames : Frames) (message : String) :
    ¬ Exposes (newStack frames (redactLogString message false)) := by
  intro h
  obtain ⟨m,hm,hkey⟩ := h
  have hmem := mem_words_iff.mpr hm
  have hlength := length_of_exposing hkey
  have hsplit : m ∈ words isWordChar (if redactLogString message false = "" then "Error"
      else "Error: " ++ redactLogString message false).toList ++ words isWordChar frames.text.toList := by
    rw [newStack,String.toList_append] at hmem
    rwa [words,wordsFrom_append_of_startsPlain _ frames.plain] at hmem
  rcases List.mem_append.mp hsplit with hmem | hmem
  · split_ifs at hmem
    · have hle := length_le_of_mem_words hmem
      have hfive : "Error".toList.length = 5 := by decide
      omega
    · rw [String.toList_append,words,wordsFrom_append_of_endsPlain (by decide) (by
        intro c hc
        obtain rfl : ' ' = c := Option.some.inj hc
        decide)] at hmem
      rcases List.mem_append.mp hmem with hmem | hmem
      · have hle := @length_le_of_mem_words _ isWordChar _ _ hmem
        have hseven : "Error: ".toList.length = 7 := by decide
        omega
      · exact not_exposes_redactLogString message ⟨m,mem_words_iff.mp hmem,hkey⟩
  · exact frames.clean ⟨m,mem_words_iff.mp hmem,hkey⟩

theorem get_redactedError_name (frames : Frames) (name message : String) (stack : Option String) :
    (redactedError frames name message stack).get "name" = some (.string name) := by
  unfold redactedError
  cases stack with
  | none => simp
  | some stack =>
      dsimp only
      split_ifs
      · simp
      · rw [InsertionMap.get_set_of_ne _ (by decide)]
        simp

/-- The fields of the new error: its name, and clean texts under fixed names. -/
theorem get_redactedError {frames : Frames} {name message : String} {stack : Option String}
    {k : String} {o : Out} (h : (redactedError frames name message stack).get k = some o) :
    ¬ Exposes k ∧ (k = "name" ∧ o = .string name ∨ ∃ s, o = .string s ∧ ¬ Exposes s) := by
  have hbase : (((InsertionMap.empty.set "stack"
      (Out.string (newStack frames (redactLogString message false)))).set "message"
      (.string (redactLogString message false))).set "name" (.string name)).get k = some o →
      ¬ Exposes k ∧ (k = "name" ∧ o = .string name ∨ ∃ s, o = .string s ∧ ¬ Exposes s) := by
    intro h
    rcases InsertionMap.get_set_cases h with ⟨rfl,rfl⟩ | ⟨-,h⟩
    · exact ⟨not_exposes_short (by decide),.inl ⟨rfl,rfl⟩⟩
    · rcases InsertionMap.get_set_cases h with ⟨rfl,rfl⟩ | ⟨-,h⟩
      · exact ⟨not_exposes_short (by decide),.inr ⟨_,rfl,not_exposes_redactLogString message⟩⟩
      · rcases InsertionMap.get_set_cases h with ⟨rfl,rfl⟩ | ⟨-,h⟩
        · exact ⟨not_exposes_short (by decide),.inr ⟨_,rfl,not_exposes_newStack frames message⟩⟩
        · cases h
  unfold redactedError at h
  cases stack with
  | none => exact hbase h
  | some stack =>
      dsimp only at h
      split_ifs at h
      · exact hbase h
      · rcases InsertionMap.get_set_cases h with ⟨rfl,rfl⟩ | ⟨-,h⟩
        · exact ⟨not_exposes_short (by decide),.inr ⟨_,rfl,not_exposes_redactLogString stack⟩⟩
        · exact hbase h

section Walks
variable {n : ℕ} {heap : Heap n} {frames : Frames}

theorem map_fst_of_forall₂ {entries : List (String × Item n)} {nested : List (String × Out)}
    (h : List.Forall₂ (fun e o => o.1 = e.1) entries nested) :
    nested.map Prod.fst = entries.map Prod.fst := by
  induction h with
  | nil => rfl
  | cons heq _ ih => rw [List.map_cons,List.map_cons,heq,ih]

theorem occurs_string_iff {s text : String} : Occurs s (.string text) ↔ s = text := by
  constructor
  · intro h
    cases h
    rfl
  · intro h
    rw [h]
    exact .string

theorem visit_array {address : Fin n} {items : List (Item n)} {seen seen' : Finset (Fin n)}
    {nested : List Out} (hnew : address ∉ seen) (hobj : heap address = .array items)
    (h : Visit heap items (insert address seen) seen' fun s => ∃ o ∈ nested, Occurs s o) :
    Visit heap [.object address] seen seen' fun s => Occurs s (.array nested) := by
  refine Visit.object hnew (by rw [hobj]; exact h) ?_ ?_ ?_
  · intro s hs
    rw [hobj] at hs
    cases hs
  · intro s hs
    obtain ⟨o,ho,hs⟩ := hs
    exact .item ho hs
  · intro s hs
    cases hs with
    | item ho hs => exact .inl ⟨_,ho,hs⟩

/-- The strings of a plain object are its keys and those of its values. -/
theorem visit_plain {address : Fin n} {entries : Entries n} {seen seen' : Finset (Fin n)}
    {nested : List (String × Out)} (hnew : address ∉ seen) (hobj : heap address = .plain entries)
    (hkeys : nested.map Prod.fst = entries.keys)
    (h : Visit heap (entries.entries.map Prod.snd) (insert address seen) seen'
      fun s => ∃ o ∈ nested, Occurs s o.2) :
    Visit heap [.object address] seen seen' fun s => Occurs s (.plain nested) := by
  refine Visit.object hnew (by rw [hobj]; exact h) ?_ ?_ ?_
  · intro s hs
    rw [hobj,Obj.copied,← hkeys] at hs
    obtain ⟨o,ho,rfl⟩ := List.mem_map.mp hs
    exact .key ho
  · intro s hs
    obtain ⟨o,ho,hs⟩ := hs
    exact .entry ho hs
  · intro s hs
    cases hs with
    | key ho =>
        rw [hobj,Obj.copied,← hkeys]
        exact .inr (.inl (List.mem_map.mpr ⟨_,ho,rfl⟩))
    | entry ho hs => exact .inl ⟨_,ho,hs⟩

/-- The strings of an error are those of its extra fields, and of the fixed fields
that no extra field replaces. -/
theorem visit_error {address : Fin n} {name message : String} {stack : Option String}
    {extra : Entries n} {seen seen' : Finset (Fin n)} {nested : List (String × Out)}
    (hnew : address ∉ seen) (hobj : heap address = .error name message stack extra)
    (hkeys : nested.map Prod.fst = extra.keys)
    (h : Visit heap (extra.entries.map Prod.snd) (insert address seen) seen'
      fun s => ∃ o ∈ nested, Occurs s o.2) :
    Visit heap [.object address] seen seen' fun s => Occurs s
      (.error (nested.foldl (fun error entry => error.set entry.1 entry.2)
        (redactedError frames name message stack)).entries) := by
  have hfields : ∀ k o, (k,o) ∈ (nested.foldl (fun error entry => error.set entry.1 entry.2)
      (redactedError frames name message stack)).entries ↔ (k,o) ∈ nested ∨
        k ∉ extra.keys ∧ (redactedError frames name message stack).get k = some o := by
    intro k o
    have hnodup : (nested.map Prod.fst).Nodup := by
      rw [hkeys]
      exact extra.nodup
    rw [← InsertionMap.get_eq_some,InsertionMap.get_foldl_set hnodup,hkeys]
  refine Visit.object hnew (by rw [hobj]; exact h) ?_ ?_ ?_
  · intro s hs
    rw [hobj,Obj.copied,List.mem_append] at hs
    rcases hs with hs | hs
    · rw [← hkeys] at hs
      obtain ⟨o,ho,rfl⟩ := List.mem_map.mp hs
      exact .errorKey ((hfields _ _).mpr (.inl ho))
    · split_ifs at hs with hname
      · cases hs
      · obtain rfl := List.mem_singleton.mp hs
        exact .errorField ((hfields _ _).mpr
          (.inr ⟨hname,get_redactedError_name frames s message stack⟩)) .string
  · intro s hs
    obtain ⟨o,ho,hs⟩ := hs
    exact .errorField ((hfields _ _).mpr (.inl ho)) hs
  · intro s hs
    rw [hobj,Obj.copied,List.mem_append]
    cases hs with
    | errorKey ho =>
        rcases (hfields _ _).mp ho with ho | ⟨-,ho⟩
        · rw [← hkeys]
          exact .inr (.inl (.inl (List.mem_map.mpr ⟨_,ho,rfl⟩)))
        · exact .inr (.inr (get_redactedError ho).1)
    | errorField ho hs =>
        rcases (hfields _ _).mp ho with ho | ⟨hnot,ho⟩
        · exact .inl ⟨_,ho,hs⟩
        · rcases (get_redactedError ho).2 with ⟨rfl,rfl⟩ | ⟨text,rfl,hclean⟩
          · rw [if_neg hnot,occurs_string_iff.mp hs]
            exact .inr (.inl (.inr (List.mem_singleton.mpr rfl)))
          · rw [occurs_string_iff.mp hs]
            exact .inr (.inr hclean)

/-- With this much fuel, a walk that has room for all objects not yet seen comes to its end. -/
def Ends (heap : Heap n) (frames : Frames) (fuel : ℕ) : Prop :=
  ∀ (seen : Finset (Fin n)) (item : Item n), n < seen.card + fuel →
    ∃ out seen', redactValueInternal heap frames fuel seen item = some (out,seen') ∧
      Visit heap [item] seen seen' fun s => Occurs s out

theorem Ends.entries {fuel : ℕ} (h : Ends heap frames fuel) {seen : Finset (Fin n)}
    (hroom : n < seen.card + fuel) (entries : List (String × Item n)) :
    ∃ nested seen', visitAll (fun (seen : Finset (Fin n)) (entry : String × Item n) =>
        (redactValueInternal heap frames fuel seen entry.2).map
          fun (nested,seen) => ((entry.1,nested),seen)) seen entries = some (nested,seen') ∧
      List.Forall₂ (fun e o => o.1 = e.1) entries nested ∧
      Visit heap (entries.map Prod.snd) seen seen' fun s => ∃ o ∈ nested, Occurs s o.2 := by
  refine visitAll_spec (fun seen entry hfuel => ?_) entries _ hroom
  obtain ⟨out,seen',hout,hvisit⟩ := h seen entry.2 hfuel
  exact ⟨(entry.1,out),seen',by rw [hout]; rfl,rfl,hvisit⟩

/-- An object not yet seen leaves as much room, with one unit of fuel less. -/
theorem Ends.object {fuel : ℕ} (h : Ends heap frames fuel) {seen : Finset (Fin n)}
    {address : Fin n} (hseen : address ∉ seen) (hfuel : n < seen.card + (fuel + 1)) :
    ∃ out seen', redactValueInternal heap frames (fuel + 1) seen (.object address) =
        some (out,seen') ∧ Visit heap [.object address] seen seen' fun s => Occurs s out := by
  have hroom : n < (insert address seen).card + fuel := by
    rw [Finset.card_insert_of_notMem hseen]
    omega
  rw [redactValueInternal,if_neg hseen]
  cases hobj : heap address with
  | error name message stack extra =>
      obtain ⟨nested,seen',hnested,hkeys,hvisit⟩ := h.entries hroom extra.entries
      refine ⟨_,seen',?_,@visit_error n heap frames address name message stack extra seen seen'
        nested hseen hobj (map_fst_of_forall₂ hkeys) hvisit⟩
      dsimp only
      rw [hnested]
      rfl
  | array items =>
      obtain ⟨nested,seen',hnested,-,hvisit⟩ := @visitAll_spec n heap (Item n) Out
        (redactValueInternal heap frames fuel) id (fun o s => Occurs s o)
        (fun _ _ => True) fuel (fun seen item hfuel => by
          obtain ⟨out,seen',hout,hvisit⟩ := h seen item hfuel
          exact ⟨out,seen',hout,trivial,hvisit⟩) items _ hroom
      rw [List.map_id] at hvisit
      refine ⟨.array nested,seen',?_,visit_array hseen hobj hvisit⟩
      dsimp only
      rw [hnested]
      rfl
  | plain entries =>
      obtain ⟨nested,seen',hnested,hkeys,hvisit⟩ := h.entries hroom entries.entries
      refine ⟨.plain nested,seen',?_,visit_plain hseen hobj (map_fst_of_forall₂ hkeys) hvisit⟩
      dsimp only
      rw [hnested]
      rfl

/-- A walk comes to its end. -/
theorem redactValueInternal_spec (fuel : ℕ) : Ends heap frames fuel := by
  induction fuel with
  | zero =>
      intro seen item hfuel
      have hcard := Finset.card_le_univ seen
      rw [Fintype.card_fin] at hcard
      omega
  | succ fuel ih =>
      intro seen item hfuel
      have hplain : ∀ {out : Out}, (∀ a, item ≠ .object a) → (∀ s, Occurs s out → ¬ Exposes s) →
          Visit heap [item] seen seen fun s => Occurs s out := by
        intro out hitem hout
        exact .nothing (fun a ha => absurd ha (hitem a)) hout
      cases item with
      | undefined => exact ⟨_,_,rfl,hplain (fun a ha => by cases ha) fun s hs => by cases hs⟩
      | null => exact ⟨_,_,rfl,hplain (fun a ha => by cases ha) fun s hs => by cases hs⟩
      | boolean b => exact ⟨_,_,rfl,hplain (fun a ha => by cases ha) fun s hs => by cases hs⟩
      | number x => exact ⟨_,_,rfl,hplain (fun a ha => by cases ha) fun s hs => by cases hs⟩
      | string text =>
          refine ⟨_,_,rfl,hplain (fun a ha => by cases ha) fun s hs => ?_⟩
          rw [occurs_string_iff.mp hs]
          exact not_exposes_redactLogString text
      | object address =>
          by_cases hseen : address ∈ seen
          · refine ⟨.string "[Circular]",seen,?_,.nothing ?_ ?_⟩
            · rw [redactValueInternal,if_pos hseen]
            · intro a ha
              rwa [← Item.object.inj ha]
            · intro s hs
              rw [occurs_string_iff.mp hs]
              exact not_exposes_short (by decide)
          · exact ih.object hseen hfuel

theorem reaches_visited {seen' : Finset (Fin n)} {item : Item n} {b : Fin n}
    (hclosed : ∀ b ∈ seen', ∀ a, .object a ∈ (heap b).children → a ∈ seen')
    (hroot : ∀ a, item = .object a → a ∈ seen') (h : Reaches heap item b) : b ∈ seen' := by
  induction h with
  | here a => exact hroot a rfl
  | through hi _ ih =>
      refine ih fun a ha => ?_
      exact hclosed _ (hroot _ rfl) a (ha ▸ hi)

/-- A walk from a value visits exactly what can be reached from it. -/
theorem redactLogValue_spec (value : Item n) :
    ∃ out seen', redactLogValue heap frames value = some out ∧
      Visit heap [value] ∅ seen' (fun s => Occurs s out) ∧
      ∀ b, b ∈ seen' ↔ Reaches heap value b := by
  obtain ⟨out,seen',hout,hvisit⟩ :=
    @redactValueInternal_spec n heap frames (n + 1) ∅ value (by simp)
  refine ⟨out,seen',?_,hvisit,?_⟩
  · rw [redactLogValue,hout]
    rfl
  · intro b
    constructor
    · intro hb
      obtain ⟨i,hi,hreach⟩ := hvisit.within b hb (Finset.notMem_empty b)
      rwa [List.mem_singleton.mp hi] at hreach
    · intro hreach
      refine reaches_visited (fun c hc => hvisit.closed c hc (Finset.notMem_empty c)) ?_ hreach
      intro a ha
      exact hvisit.reached a (List.mem_singleton.mpr ha.symm)

/-- What an object copies occurs in the result. -/
theorem redactLogValue_keeps {value : Item n} {b : Fin n} {s : String}
    (hreach : Reaches heap value b) (hs : s ∈ (heap b).copied) :
    ∃ out, redactLogValue heap frames value = some out ∧ Occurs s out := by
  obtain ⟨out,seen',hout,hvisit,hseen⟩ := @redactLogValue_spec n heap frames value
  have hb : b ∈ seen' := (hseen b).mpr hreach
  exact ⟨out,hout,hvisit.copied b hb (Finset.notMem_empty b) s hs⟩

end Walks

/-- Redaction leaves no word-bounded key exactly if none stands in what it copies: in
the keys of the objects that can be reached, and in the names of errors that have no
field of that name. -/
theorem redactLogValue_covers_iff {n : ℕ} (heap : Heap n) (frames : Frames) (value : Item n) :
    (∃ out, redactLogValue heap frames value = some out ∧ ∀ s, Occurs s out → ¬ Exposes s) ↔
      ∀ b, Reaches heap value b → ∀ s ∈ (heap b).copied, ¬ Exposes s := by
  constructor
  · intro h b hreach s hs
    obtain ⟨out,hout,hclean⟩ := h
    obtain ⟨out',hout',hoccurs⟩ := @redactLogValue_keeps n heap frames value b s hreach hs
    rw [hout,Option.some_inj] at hout'
    subst hout'
    exact hclean s hoccurs
  · intro h
    obtain ⟨out,seen',hout,hvisit,hseen⟩ := @redactLogValue_spec n heap frames value
    refine ⟨out,hout,fun s hs hexposes => ?_⟩
    obtain ⟨b,hb,-,hcopied⟩ := hvisit.exposed s hs hexposes
    exact h b ((hseen b).mp hb) s hcopied hexposes

def accountKey : String :=
  "G" ++ "AAAAAAAAAAA" ++ "AAAAAAAAAAA" ++ "AAAAAAAAAAA" ++ "AAAAAAAAAAA" ++ "AAAAAAAAAAA"

theorem exposes_accountKey : Exposes accountKey :=
  ⟨accountKey.toList,mem_words_iff.mp (by decide +kernel),
    .inl ⟨by decide +kernel,by decide +kernel,List.all_eq_true.mp (by decide +kernel)⟩⟩

def noFrames : Frames where
  text := ""
  plain := by
    intro c hc
    cases hc
  clean := not_exposes_short (by decide)

/-- Balances by account, as one plain object. -/
def balances : Heap 1 := fun _ => .plain (InsertionMap.empty.set accountKey (.string "12.50"))

theorem redactLogValue_account_key :
    ¬ ∃ out, redactLogValue balances noFrames (.object 0) = some out ∧
      ∀ s, Occurs s out → ¬ Exposes s := by
  intro h
  obtain ⟨out,hout,hclean⟩ := h
  have hkey : accountKey ∈ (balances 0).copied := by
    unfold balances
    rw [Obj.copied,InsertionMap.mem_keys,InsertionMap.get_set_self]
    rfl
  obtain ⟨out',hout',hoccurs⟩ := @redactLogValue_keeps 1 balances noFrames _ 0 _ (.here 0) hkey
  rw [hout,Option.some_inj] at hout'
  subst hout'
  exact hclean accountKey hoccurs exposes_accountKey

end Creditra.LogValues
