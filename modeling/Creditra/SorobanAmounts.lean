import Creditra.DecimalStrings
import Creditra.NumberText
import Creditra.StellarDiagnostics

/-!
# Amounts of the contract's records

`toPreciseDecimalString` and `subtractDecimalStrings` of the Soroban client. An
amount arrives as a text, a big integer or a safe integer and is kept as a
decimal text; the available credit is the difference of two such texts, taken on
integers of a common scale.
-/
namespace Creditra.SorobanAmounts
open DecimalStrings JsNumbers JsStrings NumberText StellarDiagnostics

/-- What `scValToNative` returns. The keys of a map are those that `String(key)` prints. -/
inductive Native where
  | undefined
  | null
  | bool (value : Bool)
  | number (value : Number)
  | bigint (value : ℤ)
  | string (value : String)
  | array (items : List Native)
  | map (entries : List (String × Native))
  | object (fields : List (String × Native))

/-- The two error classes of the client. -/
inductive SorobanError where
  | decode (message : String)
  | fetch (message : String) (retryable : Bool)
  deriving DecidableEq

def decodeError (message : String) : SorobanError := .decode (sanitizeText message)

/-- `/^-?\d+(?:\.\d+)?$/`, with the numeral it matched. -/
def decimalString : List Char → Option Numeral
  | '-' :: cs => afterSign true cs
  | cs => afterSign false cs

/-- `Number.isSafeInteger(value)`, with the integer. -/
def safeInteger : Number → Option ℤ
  | .finite q => if q.den = 1 ∧ q.num.natAbs < 2 ^ 53 then some q.num else none
  | _ => none

def naturalText (n : ℕ) : List Char := if n = 0 then ['0'] else digitsOf n

/-- `value.toString()` of an integer, which numbers below `2 ^ 53` print like big integers. -/
def integerText (z : ℤ) : List Char :=
  (if z < 0 then ['-'] else []) ++ naturalText z.natAbs

def toPreciseDecimalString (value : Native) (index : ℕ) (field : String) :
    Except SorobanError String :=
  let imprecise : Except SorobanError String :=
    .error (decodeError ("Credit line " ++ toString index ++ " field " ++ field ++
      " was not a string-precise numeric value"))
  match value with
  | .string text =>
      if (decimalString (trimChars text.toList)).isSome then .ok (trim text)
      else .error (decodeError ("Credit line " ++ toString index ++ " field " ++ field ++
        " was not a decimal string"))
  | .bigint z => .ok (String.ofList (integerText z))
  | .number x =>
      match safeInteger x with
      | some z => .ok (String.ofList (integerText z))
      | none => imprecise
  | _ => imprecise

/-- `value.split('.')` into the part before the point and the one behind it. -/
def splitPoint (unsigned : List Char) : List Char × List Char :=
  match unsigned.splitOn '.' with
  | whole :: fraction :: _ => (whole,fraction)
  | [whole] => (whole,[])
  | [] => ([],[])

def parseDecimal (value : String) : Except SorobanError Comparable :=
  if (decimalString value.toList).isSome then
    let negative : Bool := value.toList.head? = some '-'
    let unsigned := if negative then value.toList.drop 1 else value.toList
    let (whole,fraction) := splitPoint unsigned
    let magnitude : ℤ := decimal (whole ++ fraction)
    .ok ⟨if negative then -magnitude else magnitude,fraction.length⟩
  else .error (decodeError ("Cannot subtract non-decimal value " ++ value))

/-- `text.padStart(length, '0')`. -/
def padStart (cs : List Char) (length : ℕ) : List Char :=
  List.replicate (length - cs.length) '0' ++ cs

/-- The text of an integer that counts units of `10 ^ -scale`. -/
def scaledText (difference : ℤ) (scale : ℕ) : List Char :=
  let negative : Bool := difference < 0
  let magnitude := if negative then -difference else difference
  let raw := padStart (integerText magnitude) (scale + 1)
  let sign := if negative then ['-'] else []
  if scale = 0 then sign ++ raw
  else sign ++ raw.take (raw.length - scale) ++ '.' :: raw.drop (raw.length - scale)

def subtractDecimalStrings (left right : String) : Except SorobanError String := do
  let leftParts ← parseDecimal left
  let rightParts ← parseDecimal right
  let scale := max leftParts.scale rightParts.scale
  let leftValue := leftParts.value * 10 ^ (scale - leftParts.scale)
  let rightValue := rightParts.value * 10 ^ (scale - rightParts.scale)
  .ok (String.ofList (scaledText (leftValue - rightValue) scale))

/-! ## The grammar -/

def text (numeral : Numeral) : List Char :=
  (if numeral.negative then ['-'] else []) ++ numeral.unsigned

theorem decimalString_eq_some_iff (cs : List Char) (numeral : Numeral) :
    decimalString cs = some numeral ↔ numeral.WellFormed ∧ cs = text numeral := by
  constructor
  · intro h
    unfold decimalString at h
    split at h
    · obtain ⟨hsign,hform,hcs⟩ := afterSign_spec h
      exact ⟨hform,by simp [text,hsign,hcs]⟩
    · obtain ⟨hsign,hform,hcs⟩ := afterSign_spec h
      exact ⟨hform,by simp [text,hsign,hcs]⟩
  · rintro ⟨hform,rfl⟩
    have h := afterSign_unsigned hform
    unfold text
    cases hsign : numeral.negative with
    | true =>
        rw [hsign] at h
        exact h
    | false =>
        rw [hsign] at h
        simp only [Bool.false_eq_true,if_false,List.nil_append]
        unfold decimalString
        split
        · rename_i cs hcs
          exact absurd (unsigned_head hform hcs) (by decide)
        · exact h

/-- The number that a text of the client's grammar denotes. -/
def amountOf (value : String) : Option ℚ := (decimalString value.toList).map Numeral.number

theorem amountOf_text {numeral : Numeral} (h : numeral.WellFormed) :
    amountOf (String.ofList (text numeral)) = some numeral.number := by
  unfold amountOf
  rw [String.toList_ofList,(decimalString_eq_some_iff _ _).mpr ⟨h,rfl⟩]
  rfl

/-! ## Printed integers -/

theorem naturalText_spec (n : ℕ) :
    naturalText n ≠ [] ∧ (naturalText n).all isDigit = true ∧ decimal (naturalText n) = n := by
  unfold naturalText
  split
  · rename_i hn
    rw [hn]
    exact ⟨by simp,by decide,rfl⟩
  · rename_i hn
    obtain ⟨c,rest,hcons,-⟩ := digitsOf_eq_cons hn
    exact ⟨by simp [hcons],all_digitsOf n,decimal_digitsOf n⟩

theorem sign_mul_natAbs (z : ℤ) :
    ((if decide (z < 0) = true then -1 else 1) : ℚ) * (z.natAbs : ℚ) = z := by
  rw [Nat.cast_natAbs]
  simp only [decide_eq_true_eq]
  split
  · rename_i hz
    rw [abs_of_neg hz,Int.cast_neg,neg_one_mul,neg_neg]
  · rename_i hz
    rw [abs_of_nonneg (by omega),one_mul]

/-- A printed integer is the text of a numeral without a fraction. -/
theorem integerText_eq_text (z : ℤ) :
    integerText z = text ⟨decide (z < 0),naturalText z.natAbs,[]⟩ := by
  simp [integerText,text,Numeral.unsigned]

/-- Every text that `toPreciseDecimalString` lets through is a decimal. -/
theorem text_of_precise {value : Native} {index : ℕ} {field amount : String}
    (h : toPreciseDecimalString value index field = .ok amount) :
    ∃ numeral : Numeral, numeral.WellFormed ∧ amount.toList = text numeral := by
  have hinteger : ∀ z : ℤ, ∃ numeral : Numeral, numeral.WellFormed ∧
      (String.ofList (integerText z)).toList = text numeral := by
    intro z
    obtain ⟨hne,hdigits,-⟩ := naturalText_spec z.natAbs
    exact ⟨⟨decide (z < 0),naturalText z.natAbs,[]⟩,⟨hne,hdigits,rfl⟩,
      by rw [String.toList_ofList,integerText_eq_text]⟩
  unfold toPreciseDecimalString at h
  dsimp only at h
  split at h
  · rename_i given
    split at h
    · rename_i hsome
      obtain ⟨numeral,hnumeral⟩ := Option.isSome_iff_exists.mp hsome
      obtain ⟨hform,hcs⟩ := (decimalString_eq_some_iff _ _).mp hnumeral
      cases h
      exact ⟨numeral,hform,by rw [trim,String.toList_ofList,hcs]⟩
    · cases h
  · cases h
    exact hinteger _
  · split at h
    · cases h
      exact hinteger _
    · cases h
  · cases h

/-! ## Reading and subtracting -/

theorem not_point_mem {cs : List Char} (h : cs.all isDigit = true) : '.' ∉ cs := by
  intro hmem
  exact absurd (List.all_eq_true.mp h '.' hmem) (by decide)

theorem splitPoint_unsigned {numeral : Numeral} (h : numeral.WellFormed) :
    splitPoint numeral.unsigned = (numeral.whole,numeral.fraction) := by
  obtain ⟨-,hwhole,hfraction⟩ := h
  unfold splitPoint Numeral.unsigned
  split_ifs with hnil
  · rw [List.append_nil,List.splitOn_eq_singleton (not_point_mem hwhole),hnil]
  · rw [List.splitOn_append_cons_self,List.splitOn_eq_singleton (not_point_mem hwhole),
      List.splitOn_eq_singleton (not_point_mem hfraction)]
    rfl

theorem parseDecimal_text {numeral : Numeral} (h : numeral.WellFormed) {value : String}
    (hv : value.toList = text numeral) :
    ∃ parts, parseDecimal value = .ok parts ∧ parts.number = numeral.number := by
  have hmatch : decimalString (text numeral) = some numeral :=
    (decimalString_eq_some_iff _ _).mpr ⟨h,rfl⟩
  have hsplit := splitPoint_unsigned h
  unfold parseDecimal
  rw [hv,hmatch]
  simp only [Option.isSome_some,if_true]
  cases hsign : numeral.negative with
  | true =>
      have htext : text numeral = '-' :: numeral.unsigned := by simp [text,hsign]
      refine ⟨_,rfl,?_⟩
      simp only [htext,List.head?_cons,decide_true,if_true,List.drop_one,List.tail_cons,hsplit]
      unfold Comparable.number Numeral.number
      rw [hsign,if_pos rfl,Int.cast_neg,Int.cast_natCast,neg_one_mul,neg_div]
  | false =>
      have htext : text numeral = numeral.unsigned := by simp [text,hsign]
      have hhead : numeral.unsigned.head? ≠ some '-' := by
        intro hminus
        obtain ⟨tail,htail⟩ := List.head?_eq_some_iff.mp hminus
        exact absurd (unsigned_head h htail) (by decide)
      refine ⟨_,rfl,?_⟩
      simp only [htext,hhead,decide_false,Bool.false_eq_true,if_false,hsplit]
      unfold Comparable.number Numeral.number
      rw [hsign]
      simp

theorem padStart_spec {cs : List Char} (h : cs.all isDigit = true) (length : ℕ) :
    (padStart cs length).all isDigit = true ∧ length ≤ (padStart cs length).length ∧
      decimal (padStart cs length) = decimal cs := by
  unfold padStart
  refine ⟨?_,?_,?_⟩
  · rw [List.all_append,all_zeros,h]
    rfl
  · rw [List.length_append,List.length_replicate]
    omega
  · rw [decimal_append,decimal_replicate,zero_mul,zero_add]

/-- The digits of a scaled integer, cut at its point. -/
def scaledNumeral (difference : ℤ) (scale : ℕ) : Numeral :=
  let raw := padStart (naturalText difference.natAbs) (scale + 1)
  ⟨decide (difference < 0),raw.take (raw.length - scale),raw.drop (raw.length - scale)⟩

theorem integerText_magnitude (z : ℤ) :
    integerText (if decide (z < 0) = true then -z else z) = naturalText z.natAbs := by
  unfold integerText
  simp only [decide_eq_true_eq]
  split
  · rw [if_neg (by omega),List.nil_append,Int.natAbs_neg]
  · rfl

theorem scaledNumeral_wellFormed (difference : ℤ) (scale : ℕ) :
    (scaledNumeral difference scale).WellFormed := by
  obtain ⟨hdigits,hlength,-⟩ :=
    padStart_spec (naturalText_spec difference.natAbs).2.1 (scale + 1)
  refine ⟨?_,?_,?_⟩
  · apply List.ne_nil_of_length_pos
    simp only [scaledNumeral,List.length_take]
    omega
  · rw [List.all_eq_true] at hdigits ⊢
    exact fun c hc => hdigits c (List.mem_of_mem_take hc)
  · rw [List.all_eq_true] at hdigits ⊢
    exact fun c hc => hdigits c (List.mem_of_mem_drop hc)

theorem scaledNumeral_fraction_length (difference : ℤ) (scale : ℕ) :
    (scaledNumeral difference scale).fraction.length = scale := by
  have hlength := (padStart_spec (naturalText_spec difference.natAbs).2.1 (scale + 1)).2.1
  simp only [scaledNumeral,List.length_drop]
  omega

theorem scaledNumeral_number (difference : ℤ) (scale : ℕ) :
    (scaledNumeral difference scale).number = difference / 10 ^ scale := by
  have hvalue := (padStart_spec (naturalText_spec difference.natAbs).2.1 (scale + 1)).2.2
  have hdigits : (scaledNumeral difference scale).whole ++
      (scaledNumeral difference scale).fraction =
        padStart (naturalText difference.natAbs) (scale + 1) := List.take_append_drop _ _
  have hsign : (scaledNumeral difference scale).negative = decide (difference < 0) := rfl
  unfold Numeral.number
  rw [scaledNumeral_fraction_length,hdigits,hsign,hvalue,(naturalText_spec _).2.2,← mul_div_assoc,
    sign_mul_natAbs]

theorem scaledText_eq (difference : ℤ) (scale : ℕ) :
    scaledText difference scale = text (scaledNumeral difference scale) := by
  have hlength := scaledNumeral_fraction_length difference scale
  unfold scaledText text Numeral.unsigned
  simp only [integerText_magnitude]
  by_cases hscale : scale = 0
  · have hnil : (scaledNumeral difference scale).fraction = [] :=
      List.length_eq_zero_iff.mp (hlength.trans hscale)
    rw [if_pos hscale,if_pos hnil,List.append_nil]
    simp [scaledNumeral,hscale]
  · have hne : (scaledNumeral difference scale).fraction ≠ [] := by
      intro hnil
      rw [hnil] at hlength
      exact hscale hlength.symm
    rw [if_neg hscale,if_neg hne,← List.append_assoc]
    rfl

/-- Both texts of the difference are brought to one scale. -/
theorem number_sub (x y : Comparable) :
    (((x.value * 10 ^ (max x.scale y.scale - x.scale) -
        y.value * 10 ^ (max x.scale y.scale - y.scale) : ℤ)) : ℚ) /
      10 ^ max x.scale y.scale = x.number - y.number := by
  have hten : ∀ n : ℕ, (10 : ℚ) ^ n ≠ 0 := fun n => pow_ne_zero n (by norm_num)
  have hscale : ∀ c : Comparable, c.scale ≤ max x.scale y.scale →
      (c.value : ℚ) * 10 ^ (max x.scale y.scale - c.scale) / 10 ^ max x.scale y.scale =
        c.number := by
    intro c hc
    unfold Comparable.number
    rw [div_eq_div_iff (hten _) (hten _),mul_assoc,← pow_add,Nat.sub_add_cancel hc]
  push_cast
  rw [sub_div,hscale x (le_max_left _ _),hscale y (le_max_right _ _)]

theorem subtractDecimalStrings_text {x y : Numeral} (hx : x.WellFormed) (hy : y.WellFormed)
    {left right : String} (hl : left.toList = text x) (hr : right.toList = text y) :
    ∃ z : Numeral, z.WellFormed ∧ z.number = x.number - y.number ∧
      subtractDecimalStrings left right = .ok (String.ofList (text z)) := by
  obtain ⟨leftParts,hleft,hxnumber⟩ := parseDecimal_text hx hl
  obtain ⟨rightParts,hright,hynumber⟩ := parseDecimal_text hy hr
  let scale := max leftParts.scale rightParts.scale
  let difference := leftParts.value * 10 ^ (scale - leftParts.scale) -
    rightParts.value * 10 ^ (scale - rightParts.scale)
  refine ⟨scaledNumeral difference scale,scaledNumeral_wellFormed _ _,?_,?_⟩
  · rw [scaledNumeral_number,number_sub,hxnumber,hynumber]
  · rw [← scaledText_eq]
    unfold subtractDecimalStrings
    rw [hleft,hright]
    rfl

/-! ## The consumer's reading -/

theorem not_isWhiteSpace_of_isDigit {c : Char} (h : isDigit c = true) : isWhiteSpace c = false := by
  have hrange : 48 ≤ c.toNat ∧ c.toNat ≤ 57 := of_decide_eq_true h
  unfold isWhiteSpace
  simp only [List.mem_cons,List.not_mem_nil,or_false,decide_eq_false_iff_not]
  omega

theorem not_isWhiteSpace_text {numeral : Numeral} (h : numeral.WellFormed) :
    ∀ c ∈ text numeral, isWhiteSpace c = false := by
  obtain ⟨-,hwhole,hfraction⟩ := h
  have hdigits : ∀ {cs : List Char}, cs.all isDigit = true → ∀ c ∈ cs, isWhiteSpace c = false :=
    fun hcs c hc => not_isWhiteSpace_of_isDigit (List.all_eq_true.mp hcs c hc)
  intro c hc
  unfold text Numeral.unsigned at hc
  rcases List.mem_append.mp hc with hsign | hunsigned
  · split at hsign
    · rw [List.mem_singleton.mp hsign]
      rfl
    · cases hsign
  · rcases List.mem_append.mp hunsigned with hmem | htail
    · exact hdigits hwhole c hmem
    · split at htail
      · cases htail
      · rcases List.mem_cons.mp htail with rfl | hmem
        · rfl
        · exact hdigits hfraction c hmem

/-- The reconciliation trims a text and lets a plus stand before it; a text of the client has
neither blanks nor a plus. -/
theorem denotes_text {numeral : Numeral} (h : numeral.WellFormed) :
    denotes (String.ofList (text numeral)) = some numeral.number := by
  apply denotes_of_spells
  rw [String.toList_ofList,trimChars_eq_self (not_isWhiteSpace_text h)]
  refine ⟨h,?_⟩
  unfold text
  cases hsign : numeral.negative with
  | true => exact .inl ⟨rfl,rfl⟩
  | false => exact .inr ⟨rfl,.inl rfl⟩

theorem parseDecimalForComparison_number {value : String} {q : ℚ} (h : denotes value = some q) :
    ∃ c, parseDecimalForComparison value = some c ∧ c.number = q := by
  unfold denotes at h
  obtain ⟨numeral,hnumeral,rfl⟩ := Option.map_eq_some_iff.mp h
  refine ⟨normalize numeral,?_,normalize_number numeral⟩
  unfold parseDecimalForComparison
  rw [hnumeral]
  rfl

/-- The available credit of a record is the difference of its limit and its balance, for this
client and for the reconciliation that reads it. -/
theorem subtractDecimalStrings_exact {limitValue utilizedValue : Native} {i j : ℕ}
    {limitField utilizedField limit utilized : String}
    (hlimit : toPreciseDecimalString limitValue i limitField = .ok limit)
    (hutilized : toPreciseDecimalString utilizedValue j utilizedField = .ok utilized) :
    ∃ a b result, amountOf limit = some a ∧ amountOf utilized = some b ∧
      subtractDecimalStrings limit utilized = .ok result ∧ amountOf result = some (a - b) ∧
      ∃ c, parseDecimalForComparison result = some c ∧ c.number = a - b := by
  obtain ⟨x,hx,hl⟩ := text_of_precise hlimit
  obtain ⟨y,hy,hu⟩ := text_of_precise hutilized
  obtain ⟨z,hz,hnumber,hresult⟩ := subtractDecimalStrings_text hx hy hl hu
  have hspelled : ∀ {value : String} {numeral : Numeral}, numeral.WellFormed →
      value.toList = text numeral → amountOf value = some numeral.number := by
    intro value numeral hform hvalue
    rw [← String.ofList_toList (s := value),hvalue]
    exact amountOf_text hform
  refine ⟨x.number,y.number,_,hspelled hx hl,hspelled hy hu,hresult,?_,?_⟩
  · rw [amountOf_text hz,hnumber]
  · rw [← hnumber]
    exact parseDecimalForComparison_number (denotes_text hz)

theorem subtractDecimalStrings_exact_overdrawn : ∃ a b result,
    amountOf "0010.5" = some a ∧ amountOf "-12" = some b ∧
      subtractDecimalStrings "0010.5" "-12" = .ok result ∧ amountOf result = some (a - b) ∧
      ∃ c, parseDecimalForComparison result = some c ∧ c.number = a - b := by
  have hlimit : toPreciseDecimalString (.string " 0010.5 ") 0 "creditLimit" = .ok "0010.5" := by
    decide
  have hutilized : toPreciseDecimalString (.bigint (-12)) 0 "utilizedAmount" = .ok "-12" := by
    decide +kernel
  exact subtractDecimalStrings_exact hlimit hutilized

end Creditra.SorobanAmounts
