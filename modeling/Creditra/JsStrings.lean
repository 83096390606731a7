import Mathlib.Data.List.Lex

/-!
# String functions of the language runtime

Strings are sequences of Unicode scalar values; the runtime counts and compares
them by UTF-16 code units. The functions here are those the modelled sources
call on strings.
-/
namespace Creditra.JsStrings

/-- The UTF-16 code units of one scalar value. -/
def codeUnits (c : Char) : List ℕ :=
  if c.toNat < 0x10000 then [c.toNat]
  else [0xD800 + (c.toNat - 0x10000) / 0x400,0xDC00 + (c.toNat - 0x10000) % 0x400]

def utf16 (s : String) : List ℕ := s.toList.flatMap codeUnits

/-- `s.length`. -/
def length (s : String) : ℕ := (utf16 s).length

theorem length_eq_zero_iff (s : String) : length s = 0 ↔ s = "" := by
  unfold length utf16
  rw [List.length_eq_zero_iff,List.flatMap_eq_nil_iff]
  constructor
  · intro h
    rw [← String.toList_eq_nil_iff,List.eq_nil_iff_forall_not_mem]
    intro c hc
    have hnil := h c hc
    unfold codeUnits at hnil
    split at hnil <;> cases hnil
  · rintro rfl c hc
    cases hc

/-- White space and line terminators, as `trim` counts them. -/
def isWhiteSpace (c : Char) : Bool :=
  c.toNat ∈ [0x09,0x0A,0x0B,0x0C,0x0D,0x20,0xA0,0x1680,0x2028,0x2029,0x202F,0x205F,0x3000,0xFEFF] ∨
    0x2000 ≤ c.toNat ∧ c.toNat ≤ 0x200A

def trimChars (cs : List Char) : List Char :=
  (((cs.dropWhile isWhiteSpace).reverse).dropWhile isWhiteSpace).reverse

theorem trimChars_eq_self {cs : List Char} (h : ∀ c ∈ cs, isWhiteSpace c = false) :
    trimChars cs = cs := by
  have hdrop : ∀ ds : List Char, (∀ c ∈ ds, isWhiteSpace c = false) →
      ds.dropWhile isWhiteSpace = ds := by
    intro ds hds
    cases ds with
    | nil => rfl
    | cons c ds => rw [List.dropWhile_cons_of_neg (by simp [hds c List.mem_cons_self])]
  unfold trimChars
  rw [hdrop cs h,hdrop cs.reverse fun c hc => h c (List.mem_reverse.mp hc),List.reverse_reverse]

/-- `s.trim()`. -/
def trim (s : String) : String := String.ofList (trimChars s.toList)

/-- `s.split(separator).map((part) => part.trim()).filter(Boolean)`. -/
def splitTrimmed (separator : Char) (s : String) : List String :=
  ((s.toList.splitOn separator).map fun part => String.ofList (trimChars part)).filter (· ≠ "")

/-- The order of `Array.prototype.sort` without a comparator. -/
def sortsBefore (s t : String) : Bool := ! decide (List.Lex (· < ·) (utf16 t) (utf16 s))

theorem sortsBefore_iff (a b : String) : sortsBefore a b = true ↔ utf16 a ≤ utf16 b := by
  rw [sortsBefore,Bool.not_eq_true',decide_eq_false_iff_not,← not_lt]
  exact Iff.rfl

theorem codeUnits_cases (c : Char) :
    (codeUnits c = [c.toNat] ∧ (c.toNat < 0xD800 ∨ 0xDFFF < c.toNat)) ∨
      ∃ high low, codeUnits c = [high,low] ∧ 0xD800 ≤ high ∧ high ≤ 0xDBFF ∧
        c.toNat = 0x10000 + (high - 0xD800) * 0x400 + (low - 0xDC00) := by
  have hvalid : c.toNat < 0xD800 ∨ 0xDFFF < c.toNat ∧ c.toNat < 0x110000 := c.valid
  unfold codeUnits
  split
  · exact .inl ⟨rfl,by omega⟩
  · exact .inr ⟨_,_,rfl,by omega,by omega,by omega⟩

/-- A text can be told from its code units, since no character is a surrogate. -/
theorem codeUnits_append_inj {c d : Char} {rest rest' : List ℕ}
    (h : codeUnits c ++ rest = codeUnits d ++ rest') : c = d ∧ rest = rest' := by
  have hchar : c.toNat = d.toNat → c = d := by
    intro heq
    rw [← Char.ofNat_toNat c,heq,Char.ofNat_toNat]
  rcases codeUnits_cases c with ⟨hc,hrange⟩ | ⟨high,low,hc,hlow,hhigh,hvalue⟩ <;>
    rcases codeUnits_cases d with ⟨hd,hrange'⟩ | ⟨high',low',hd,hlow',hhigh',hvalue'⟩ <;>
    simp only [hc,hd,List.cons_append,List.nil_append,List.cons.injEq] at h
  · exact ⟨hchar h.1,h.2⟩
  · omega
  · omega
  · obtain ⟨rfl,rfl,hrest⟩ := h
    exact ⟨hchar (hvalue.trans hvalue'.symm),hrest⟩

theorem utf16_injective {s t : String} (h : utf16 s = utf16 t) : s = t := by
  have hchars : ∀ cs ds : List Char, cs.flatMap codeUnits = ds.flatMap codeUnits → cs = ds := by
    intro cs
    induction cs with
    | nil =>
        intro ds hds
        cases ds with
        | nil => rfl
        | cons d ds =>
            rw [List.flatMap_nil,List.flatMap_cons] at hds
            rcases codeUnits_cases d with ⟨hd,-⟩ | ⟨_,_,hd,-⟩ <;> simp [hd] at hds
    | cons c cs ih =>
        intro ds hds
        cases ds with
        | nil =>
            rw [List.flatMap_nil,List.flatMap_cons] at hds
            rcases codeUnits_cases c with ⟨hc,-⟩ | ⟨_,_,hc,-⟩ <;> simp [hc] at hds
        | cons d ds =>
            rw [List.flatMap_cons,List.flatMap_cons] at hds
            obtain ⟨rfl,hrest⟩ := codeUnits_append_inj hds
            rw [ih ds hrest]
  exact String.toList_inj.mp (hchars s.toList t.toList h)

/-- `a.localeCompare(b)`, taken to tell any two strings apart: it does not do so for canonically
equivalent ones. -/
structure Collation where
  localeCompare : String → String → ℤ
  eq_of_zero : ∀ {a b}, localeCompare a b = 0 → a = b
  neg_iff : ∀ {a b}, localeCompare a b < 0 ↔ 0 < localeCompare b a
  trans : ∀ {a b c}, localeCompare a b < 0 → localeCompare b c < 0 → localeCompare a c < 0

namespace Collation
variable (collation : Collation)

theorem localeCompare_self (a : String) : collation.localeCompare a a = 0 := by
  have h := collation.neg_iff (a := a) (b := a)
  omega

theorem le_total (a b : String) :
    collation.localeCompare a b ≤ 0 ∨ collation.localeCompare b a ≤ 0 := by
  have h := collation.neg_iff (a := b) (b := a)
  omega

theorem le_trans {a b c : String} (hab : collation.localeCompare a b ≤ 0)
    (hbc : collation.localeCompare b c ≤ 0) : collation.localeCompare a c ≤ 0 := by
  by_cases hlt : collation.localeCompare a b < 0
  · by_cases hlt' : collation.localeCompare b c < 0
    · exact Int.le_of_lt (collation.trans hlt hlt')
    · rw [← collation.eq_of_zero (Int.le_antisymm hbc (Int.not_lt.mp hlt'))]
      exact hab
  · rw [collation.eq_of_zero (Int.le_antisymm hab (Int.not_lt.mp hlt))]
    exact hbc

end Collation

/-- A request header as the HTTP library hands it over. -/
inductive Header where
  | absent
  | one (value : String)
  | many (values : List String)
  deriving DecidableEq

/-- The bytes a string is hashed as. -/
def utf8 (s : String) : List UInt8 := s.toByteArray.data.toList

/-- A character of several bytes that has not been read to its end: the bytes
still needed, the range of the next one and the code point so far. -/
structure Pending where
  needed : ℕ
  lower : ℕ
  upper : ℕ
  codePoint : ℕ

def replacement : Char := Char.ofNat 0xFFFD

/-- The first byte of a character. -/
def leadByte (b : ℕ) : List Char × Option Pending :=
  if b < 0x80 then ([Char.ofNat b],none)
  else if 0xC2 ≤ b ∧ b ≤ 0xDF then ([],some ⟨1,0x80,0xBF,b - 0xC0⟩)
  else if 0xE0 ≤ b ∧ b ≤ 0xEF then
    ([],some ⟨2,if b = 0xE0 then 0xA0 else 0x80,if b = 0xED then 0x9F else 0xBF,b - 0xE0⟩)
  else if 0xF0 ≤ b ∧ b ≤ 0xF4 then
    ([],some ⟨3,if b = 0xF0 then 0x90 else 0x80,if b = 0xF4 then 0x8F else 0xBF,b - 0xF0⟩)
  else ([replacement],none)

/-- Each sequence that encodes no character is read as one replacement character. -/
def replaceInvalid : Option Pending → List UInt8 → List Char
  | none, [] => []
  | some _, [] => [replacement]
  | none, b :: rest => (leadByte b.toNat).1 ++ replaceInvalid (leadByte b.toNat).2 rest
  | some pending, b :: rest =>
      if pending.lower ≤ b.toNat ∧ b.toNat ≤ pending.upper then
        let codePoint := pending.codePoint * 64 + (b.toNat - 0x80)
        if pending.needed = 1 then Char.ofNat codePoint :: replaceInvalid none rest
        else replaceInvalid (some ⟨pending.needed - 1,0x80,0xBF,codePoint⟩) rest
      else
        replacement :: ((leadByte b.toNat).1 ++ replaceInvalid (leadByte b.toNat).2 rest)

/-- `buffer.toString('utf8')`. -/
def fromUtf8 (bytes : List UInt8) : String :=
  let buffer : ByteArray := ⟨bytes.toArray⟩
  if h : buffer.IsValidUTF8 then String.fromUTF8 buffer h
  else String.ofList (replaceInvalid none bytes)

theorem fromUtf8_utf8 (s : String) : fromUtf8 (utf8 s) = s := by
  have hbuffer : (⟨(utf8 s).toArray⟩ : ByteArray) = s.toByteArray := by
    simp [utf8]
  unfold fromUtf8
  simp only [hbuffer]
  rw [dif_pos s.isValidUTF8]
  rfl

end Creditra.JsStrings
