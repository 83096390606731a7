import Creditra.JsNumbers
import Creditra.JsStrings
import Mathlib.Data.List.DropRight
import Mathlib.Tactic.FieldSimp
import Mathlib.Tactic.Linarith
import Mathlib.Tactic.Ring

/-!
# Comparison of decimal strings

`decimalStringsEqual` of the reconciliation service. A text that matches the
signed decimal grammar is brought to a normal form, an integer and a scale, in
which two texts agree exactly when they denote the same rational number.
-/
namespace Creditra.DecimalStrings
open JsNumbers JsStrings

/-- The three groups of the pattern `([+-]?)(\d+)(?:\.(\d+))?`, of which the
sign only matters when it is a minus. -/
structure Numeral where
  negative : Bool
  whole : List Char
  fraction : List Char
  deriving DecidableEq

def afterSign (negative : Bool) (cs : List Char) : Option Numeral :=
  let whole := cs.takeWhile isDigit
  if whole = [] then none
  else
    match cs.dropWhile isDigit with
    | [] => some ⟨negative,whole,[]⟩
    | '.' :: fraction =>
        if fraction ≠ [] ∧ fraction.all isDigit then some ⟨negative,whole,fraction⟩ else none
    | _ => none

/-- The anchored pattern on a whole text. -/
def matchDecimal : List Char → Option Numeral
  | '-' :: cs => afterSign true cs
  | '+' :: cs => afterSign false cs
  | cs => afterSign false cs

structure Comparable where
  value : ℤ
  scale : ℕ
  deriving DecidableEq

def normalize (numeral : Numeral) : Comparable :=
  let sign : ℤ := if numeral.negative then -1 else 1
  let fraction := numeral.fraction.rdropWhile (· = '0')
  let stripped := (numeral.whole ++ fraction).dropWhile (· = '0')
  let digits := if stripped = [] then ['0'] else stripped
  let magnitude : ℤ := decimal digits
  if magnitude = 0 then ⟨0,0⟩ else ⟨sign * magnitude,fraction.length⟩

def parseDecimalForComparison (value : String) : Option Comparable :=
  (matchDecimal (trimChars value.toList)).map normalize

def decimalStringsEqual (left right : String) : Bool :=
  match parseDecimalForComparison left, parseDecimalForComparison right with
  | some leftDecimal, some rightDecimal =>
      leftDecimal.value = rightDecimal.value ∧ leftDecimal.scale = rightDecimal.scale
  | _, _ => left = right

/-! ## The numbers behind the texts -/

def Numeral.number (numeral : Numeral) : ℚ :=
  (if numeral.negative then -1 else 1) *
    (decimal (numeral.whole ++ numeral.fraction) / 10 ^ numeral.fraction.length)

/-- The rational number a text denotes, if it is a decimal at all. -/
def denotes (text : String) : Option ℚ :=
  (matchDecimal (trimChars text.toList)).map Numeral.number

/-- Two amounts are the same when they denote the same number, and otherwise
only when they are the same text. -/
def SameAmount (left right : String) : Prop :=
  match denotes left, denotes right with
  | some x, some y => x = y
  | _, _ => left = right

theorem decimal_dropWhile_zero (cs : List Char) :
    decimal (cs.dropWhile (· = '0')) = decimal cs := by
  induction cs with
  | nil => rfl
  | cons c cs ih =>
      rw [List.dropWhile_cons]
      split
      · rename_i hc
        have hzero : c = '0' := of_decide_eq_true hc
        rw [ih,hzero]
        rfl
      · rfl

theorem decimal_digits (cs : List Char) :
    decimal (if cs.dropWhile (· = '0') = [] then ['0'] else cs.dropWhile (· = '0')) =
      decimal cs := by
  split
  · rename_i h
    rw [← decimal_dropWhile_zero cs,h]
    rfl
  · exact decimal_dropWhile_zero cs

/-- Trailing zeros of the fraction leave the number as it is. -/
theorem decimal_append_rdropWhile (whole fraction : List Char) :
    (decimal (whole ++ fraction.rdropWhile (· = '0')) : ℚ) /
        10 ^ (fraction.rdropWhile (· = '0')).length =
      decimal (whole ++ fraction) / 10 ^ fraction.length := by
  induction fraction using List.reverseRecOn with
  | nil => rfl
  | append_singleton cs c ih =>
      by_cases hc : c = '0'
      · rw [List.rdropWhile_concat_pos (· = '0') cs c (decide_eq_true hc),ih,hc,← List.append_assoc,
          decimal_append (whole ++ cs)]
        have hten : (10 : ℚ) ^ cs.length ≠ 0 := pow_ne_zero _ (by norm_num)
        simp only [List.length_append,List.length_cons,List.length_nil,zero_add,pow_succ]
        have hzero : decimal ['0'] = 0 := rfl
        rw [hzero]
        push_cast
        field_simp
        ring
      · rw [List.rdropWhile_concat_neg (· = '0') cs c (by simpa using hc)]

theorem digitValue_of_isDigit {c : Char} (hc : isDigit c = true) (hne : c ≠ '0') :
    0 < digitValue c ∧ digitValue c < 10 := by
  have hrange : 48 ≤ c.toNat ∧ c.toNat ≤ 57 := of_decide_eq_true hc
  have hnot : c.toNat ≠ 48 := by
    intro h
    apply hne
    rw [← Char.ofNat_toNat c,h]
  have hzero : '0'.toNat = 48 := rfl
  unfold digitValue
  omega

/-- A fraction without trailing zeros ends in a digit that ten does not divide. -/
theorem not_ten_dvd (whole : List Char) {fraction : List Char}
    (hdigits : fraction.all isDigit = true) (h : fraction.rdropWhile (· = '0') ≠ []) :
    ¬ 10 ∣ decimal (whole ++ fraction.rdropWhile (· = '0')) := by
  have hlast := List.rdropWhile_last_not (· = '0') fraction h
  have hmem : (fraction.rdropWhile (· = '0')).getLast h ∈ fraction :=
    (List.rdropWhile_prefix _ _).subset (List.getLast_mem h)
  have hdigit := digitValue_of_isDigit (List.all_eq_true.mp hdigits _ hmem) (by simpa using hlast)
  intro hdvd
  rw [← List.dropLast_concat_getLast h,← List.append_assoc,decimal_append] at hdvd
  have hone : ∀ c, decimal [c] = digitValue c := by
    intro c
    simp [decimal]
  rw [hone] at hdvd
  simp only [List.length_cons,List.length_nil,zero_add,pow_one] at hdvd
  omega

/-! ## The grammar -/

/-- Digits in front of the point, and only digits behind it. -/
def Numeral.WellFormed (numeral : Numeral) : Prop :=
  numeral.whole ≠ [] ∧ numeral.whole.all isDigit = true ∧ numeral.fraction.all isDigit = true

def Numeral.unsigned (numeral : Numeral) : List Char :=
  numeral.whole ++ if numeral.fraction = [] then [] else '.' :: numeral.fraction

/-- The texts of the signed decimal grammar, with the numeral each one spells. -/
def Spells (cs : List Char) (numeral : Numeral) : Prop :=
  numeral.WellFormed ∧
    (numeral.negative = true ∧ cs = '-' :: numeral.unsigned ∨
      numeral.negative = false ∧ (cs = numeral.unsigned ∨ cs = '+' :: numeral.unsigned))

theorem digits_append {whole : List Char} (tail : List Char) (h : whole.all isDigit = true)
    (htail : ∀ c ∈ tail.head?, isDigit c = false) :
    (whole ++ tail).takeWhile isDigit = whole ∧ (whole ++ tail).dropWhile isDigit = tail := by
  have hwhole : ∀ c ∈ whole, isDigit c = true := List.all_eq_true.mp h
  rw [List.takeWhile_append_of_pos hwhole,List.dropWhile_append_of_pos hwhole]
  cases tail with
  | nil => simp
  | cons c tail =>
      have hc : isDigit c = false := htail c rfl
      simp [hc]

theorem afterSign_unsigned {numeral : Numeral} (h : numeral.WellFormed) :
    afterSign numeral.negative numeral.unsigned = some numeral := by
  obtain ⟨negative,whole,fraction⟩ := numeral
  obtain ⟨hne,hwhole,hfraction⟩ := h
  unfold afterSign Numeral.unsigned
  by_cases hnil : fraction = []
  · obtain ⟨htake,hdrop⟩ := digits_append [] hwhole fun c hc => by cases hc
    simp only [hnil,if_true,htake,hdrop,hne,if_false]
  · obtain ⟨htake,hdrop⟩ := digits_append ('.' :: fraction) hwhole fun c hc => by cases hc; rfl
    simp only [hnil,if_false,htake,hdrop,hne,ne_eq,not_false_eq_true,hfraction,and_self,if_true]

theorem afterSign_spec {negative : Bool} {cs : List Char} {numeral : Numeral}
    (h : afterSign negative cs = some numeral) :
    numeral.negative = negative ∧ numeral.WellFormed ∧ cs = numeral.unsigned := by
  have hcs := List.takeWhile_append_dropWhile (p := isDigit) (l := cs)
  have hwhole : (cs.takeWhile isDigit).all isDigit = true := List.all_takeWhile
  unfold afterSign at h
  dsimp only at h
  split at h
  · cases h
  · rename_i hne
    split at h
    · rename_i hdrop
      cases h
      rw [hdrop] at hcs
      exact ⟨rfl,⟨hne,hwhole,rfl⟩,hcs.symm⟩
    · rename_i fraction hdrop
      split at h
      · rename_i hfraction
        cases h
        rw [hdrop] at hcs
        refine ⟨rfl,⟨hne,hwhole,hfraction.2⟩,?_⟩
        unfold Numeral.unsigned
        rw [if_neg hfraction.1,hcs]
      · cases h
    · cases h

/-- Digits stand first in an unsigned text, so no sign does. -/
theorem unsigned_head {numeral : Numeral} (h : numeral.WellFormed) {c : Char} {cs : List Char}
    (hcs : numeral.unsigned = c :: cs) : isDigit c = true := by
  obtain ⟨hne,hwhole,-⟩ := h
  unfold Numeral.unsigned at hcs
  cases hw : numeral.whole with
  | nil => exact absurd hw hne
  | cons d ds =>
      rw [hw,List.cons_append] at hcs
      rw [hw,List.all_cons,Bool.and_eq_true] at hwhole
      rw [← (List.cons.inj hcs).1]
      exact hwhole.1

/-- The pattern matches the texts of the grammar and no others. -/
theorem matchDecimal_eq_some_iff (cs : List Char) (numeral : Numeral) :
    matchDecimal cs = some numeral ↔ Spells cs numeral := by
  constructor
  · intro h
    unfold matchDecimal at h
    split at h
    · obtain ⟨hsign,hform,hcs⟩ := afterSign_spec h
      exact ⟨hform,.inl ⟨hsign,by rw [hcs]⟩⟩
    · obtain ⟨hsign,hform,hcs⟩ := afterSign_spec h
      exact ⟨hform,.inr ⟨hsign,.inr (by rw [hcs])⟩⟩
    · obtain ⟨hsign,hform,hcs⟩ := afterSign_spec h
      exact ⟨hform,.inr ⟨hsign,.inl hcs⟩⟩
  · rintro ⟨hform,⟨hsign,rfl⟩ | ⟨hsign,rfl | rfl⟩⟩
    · have h := afterSign_unsigned hform
      rwa [hsign] at h
    · have h := afterSign_unsigned hform
      rw [hsign] at h
      unfold matchDecimal
      split
      · rename_i cs hcs
        exact absurd (unsigned_head hform hcs) (by decide)
      · rename_i cs hcs
        exact absurd (unsigned_head hform hcs) (by decide)
      · exact h
    · have h := afterSign_unsigned hform
      rwa [hsign] at h

theorem matchDecimal_fraction {cs : List Char} {numeral : Numeral}
    (h : matchDecimal cs = some numeral) : numeral.fraction.all isDigit = true :=
  ((matchDecimal_eq_some_iff cs numeral).mp h).1.2.2

/-! ## The normal form -/

/-- An integer and a scale in which no factor of ten is left to cancel. -/
def Reduced (c : Comparable) : Prop := 0 < c.scale → ¬ (10 : ℤ) ∣ c.value

def Comparable.number (c : Comparable) : ℚ := c.value / 10 ^ c.scale

theorem scale_le_of_number_eq {c d : Comparable} (hc : Reduced c) (h : c.number = d.number) :
    c.scale ≤ d.scale := by
  by_contra hlt
  have hlt : d.scale < c.scale := Nat.lt_of_not_le hlt
  apply hc (Nat.zero_lt_of_lt hlt)
  unfold Comparable.number at h
  rw [div_eq_div_iff (pow_ne_zero _ (by norm_num)) (pow_ne_zero _ (by norm_num))] at h
  have hint : c.value * 10 ^ d.scale = d.value * 10 ^ c.scale := by exact_mod_cast h
  have hsplit : (10 : ℤ) ^ c.scale = 10 ^ (c.scale - d.scale - 1) * 10 * 10 ^ d.scale := by
    rw [mul_assoc,mul_comm (10 : ℤ) (10 ^ d.scale),← pow_succ,← pow_add]
    congr 1
    omega
  rw [hsplit,← mul_assoc] at hint
  have hcancel := mul_right_cancel₀ (pow_ne_zero d.scale (by norm_num : (10 : ℤ) ≠ 0)) hint
  exact ⟨d.value * 10 ^ (c.scale - d.scale - 1),by rw [hcancel]; ring⟩

theorem eq_of_number_eq {c d : Comparable} (hc : Reduced c) (hd : Reduced d)
    (h : c.number = d.number) : c = d := by
  have hscale : c.scale = d.scale :=
    Nat.le_antisymm (scale_le_of_number_eq hc h) (scale_le_of_number_eq hd h.symm)
  unfold Comparable.number at h
  rw [hscale,div_left_inj' (pow_ne_zero _ (by norm_num))] at h
  have hvalue : c.value = d.value := by exact_mod_cast h
  cases c
  cases d
  simp_all

theorem normalize_number (numeral : Numeral) : (normalize numeral).number = numeral.number := by
  have hnumber := decimal_append_rdropWhile numeral.whole numeral.fraction
  unfold normalize Numeral.number
  rw [← hnumber]
  simp only [decimal_digits]
  split
  · rename_i hzero
    have hnat : decimal (numeral.whole ++ numeral.fraction.rdropWhile (· = '0')) = 0 := by
      exact_mod_cast hzero
    simp [Comparable.number,hnat]
  · unfold Comparable.number
    push_cast
    split <;> ring

theorem normalize_reduced {numeral : Numeral} (h : numeral.fraction.all isDigit = true) :
    Reduced (normalize numeral) := by
  unfold normalize
  simp only [decimal_digits]
  split
  · intro hscale
    exact absurd hscale (Nat.lt_irrefl 0)
  · intro hscale
    have hne : numeral.fraction.rdropWhile (· = '0') ≠ [] := List.ne_nil_of_length_pos hscale
    have hnot := not_ten_dvd numeral.whole h hne
    intro hdvd
    apply hnot
    dsimp only at hdvd
    split at hdvd
    · rw [neg_one_mul,dvd_neg] at hdvd
      exact_mod_cast hdvd
    · rw [one_mul] at hdvd
      exact_mod_cast hdvd

theorem normalize_eq_iff {x y : Numeral} (hx : x.fraction.all isDigit = true)
    (hy : y.fraction.all isDigit = true) : normalize x = normalize y ↔ x.number = y.number := by
  rw [← normalize_number x,← normalize_number y]
  constructor
  · intro h
    rw [h]
  · intro h
    exact eq_of_number_eq (normalize_reduced hx) (normalize_reduced hy) h

theorem sameAmount_of_decimalStringsEqual (left right : String) :
    decimalStringsEqual left right = true ↔ SameAmount left right := by
  unfold decimalStringsEqual SameAmount parseDecimalForComparison denotes
  cases hl : matchDecimal (trimChars left.toList) with
  | none => simp
  | some x =>
      cases hr : matchDecimal (trimChars right.toList) with
      | none => simp
      | some y =>
          have hiff := normalize_eq_iff (matchDecimal_fraction hl) (matchDecimal_fraction hr)
          simp only [Option.map_some,decide_eq_true_eq]
          rw [← hiff]
          constructor
          · rintro ⟨hvalue,hscale⟩
            cases hx : normalize x
            cases hy : normalize y
            simp_all
          · intro h
            rw [h]
            exact ⟨rfl,rfl⟩

example : decimalStringsEqual " +010.50 " "10.5" = true ∧
    decimalStringsEqual "-0.0" "0" = true ∧ decimalStringsEqual "1e3" "1000" = false := by
  decide

/-- The text is a decimal once trimmed. -/
def IsDecimal (text : String) : Prop := ∃ numeral, Spells (trimChars text.toList) numeral

theorem denotes_of_spells {text : String} {numeral : Numeral}
    (h : Spells (trimChars text.toList) numeral) : denotes text = some numeral.number := by
  unfold denotes
  rw [(matchDecimal_eq_some_iff _ _).mpr h]
  rfl

theorem denotes_of_not_isDecimal {text : String} (h : ¬ IsDecimal text) : denotes text = none := by
  unfold denotes
  cases hm : matchDecimal (trimChars text.toList) with
  | none => rfl
  | some numeral => exact absurd ⟨numeral,(matchDecimal_eq_some_iff _ _).mp hm⟩ h

/-- Decimals are compared as the numbers they spell, other texts as texts. -/
theorem decimalStringsEqual_exact (left right : String) :
    (∀ x y, Spells (trimChars left.toList) x → Spells (trimChars right.toList) y →
      (decimalStringsEqual left right = true ↔ x.number = y.number)) ∧
    (¬ (IsDecimal left ∧ IsDecimal right) →
      (decimalStringsEqual left right = true ↔ left = right)) := by
  constructor
  · intro x y hx hy
    rw [sameAmount_of_decimalStringsEqual]
    unfold SameAmount
    rw [denotes_of_spells hx,denotes_of_spells hy]
  · intro hnot
    rw [sameAmount_of_decimalStringsEqual]
    unfold SameAmount
    by_cases hl : IsDecimal left
    · have hr : ¬ IsDecimal right := fun hr => hnot ⟨hl,hr⟩
      rw [denotes_of_not_isDecimal hr]
      split
      · rename_i h
        cases h
      · rfl
    · rw [denotes_of_not_isDecimal hl]

theorem decimalStringsEqual_exact_zeros :
    (⟨true,['0'],['0']⟩ : Numeral).number = (⟨false,['0','0'],[]⟩ : Numeral).number := by
  have hleft : Spells (trimChars " -0.0".toList) ⟨true,['0'],['0']⟩ :=
    (matchDecimal_eq_some_iff _ _).mp (by decide)
  have hright : Spells (trimChars "+00 ".toList) ⟨false,['0','0'],[]⟩ :=
    (matchDecimal_eq_some_iff _ _).mp (by decide)
  exact ((decimalStringsEqual_exact " -0.0" "+00 ").1 _ _ hleft hright).mp (by decide)

end Creditra.DecimalStrings
