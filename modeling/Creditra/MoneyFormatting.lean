import Creditra.FloatOrder
import Creditra.SorobanAmounts

/-!
# Amounts of money

`utils/money.ts`: `formatMoney` prints an integer of minor units as a decimal with a
given number of fractional digits. It works on the digits of the integer alone, as
the contract's client does when it prints a difference, so the amount is exact at
every size, and zeros are put in front only to reach the point.
-/
namespace Creditra.MoneyFormatting
open DecimalStrings FloatNumbers JsNumbers NumberText SorobanAmounts StellarDiagnostics

inductive MinorUnits where
  | number (value : Value)
  | bigint (value : ℤ)
  | string (value : String)
  deriving DecidableEq

structure MoneyResponse where
  minorUnits : String
  amount : String
  currency : String
  decimals : Value
  deriving DecidableEq

def MAX_DECIMALS : ℤ := 18

/-- The integer that a number is, if `Number.isInteger` holds of it. -/
def integer : Value → Option ℤ
  | .finite x => if x.1.den = 1 then some x.1.num else none
  | _ => none

/-- `/^-?\d+$/` -/
def isIntegerText : List Char → Bool
  | '-' :: digits => digits ≠ [] ∧ digits.all isDigit
  | digits => digits ≠ [] ∧ digits.all isDigit

/-- `BigInt(value)` of a text that matches. -/
def bigInt : List Char → ℤ
  | '-' :: digits => - (decimal digits : ℤ)
  | digits => decimal digits

def toBigInt : MinorUnits → Except Thrown ℤ
  | .bigint value => .ok value
  | .number value => match integer value with
      | some n => .ok n
      | none => .error ⟨"TypeError","minorUnits number must be an integer"⟩
  | .string value =>
      if isIntegerText value.toList then .ok (bigInt value.toList)
      else .error ⟨"TypeError","invalid minorUnits value: " ++ value⟩

/-- The text of `big` with the point before its last `decimals` digits. -/
def amountText (big : ℤ) (decimals : ℕ) : List Char :=
  let negative : Bool := big < 0
  let digits := padStart (integerText (if negative then -big else big)) (decimals + 1)
  let whole := digits.take (digits.length - decimals)
  let fraction := if 0 < decimals then digits.drop (digits.length - decimals) else []
  (if negative then ['-'] else []) ++ whole ++ if fraction = [] then [] else '.' :: fraction

/-- `toUpperCase` is the method of strings. -/
def formatMoney (toUpperCase : String → String) (minorUnits : MinorUnits)
    (currency : String := "USD") (decimals : Value := .round 2) : Except Thrown MoneyResponse :=
  let outOfRange : Except Thrown MoneyResponse :=
    .error ⟨"RangeError","decimals must be an integer in [0, " ++ toString MAX_DECIMALS ++ "]"⟩
  match integer decimals with
  | none => outOfRange
  | some d =>
      if d < 0 ∨ MAX_DECIMALS < d then outOfRange
      else do
        let big ← toBigInt minorUnits
        .ok
          { minorUnits := String.ofList (integerText big)
            amount := String.ofList (amountText big d.toNat)
            currency := toUpperCase currency
            decimals }

/-! ## Integers as input -/

/-- The integer that an input is: a number or a big integer itself, a text by its digits. -/
inductive Denotes : MinorUnits → ℤ → Prop
  | bigint (n : ℤ) : Denotes (.bigint n) n
  | number {x : Double} {n : ℤ} (h : x.1 = n) : Denotes (.number (.finite x)) n
  | plain {value : String} (hne : value.toList ≠ []) (h : value.toList.all isDigit = true) :
      Denotes (.string value) (decimal value.toList)
  | minus {value : String} {digits : List Char} (htext : value.toList = '-' :: digits)
      (hne : digits ≠ []) (h : digits.all isDigit = true) :
      Denotes (.string value) (- (decimal digits : ℤ))

theorem integer_eq_some {value : Value} {n : ℤ} :
    integer value = some n ↔ ∃ x : Double, value = .finite x ∧ x.1 = n := by
  cases value with
  | nan => simp [integer]
  | infinite negative => simp [integer]
  | finite x =>
      rw [integer]
      constructor
      · intro h
        split_ifs at h with hden
        refine ⟨x,rfl,?_⟩
        rw [← Option.some.inj h]
        exact (Rat.coe_int_num_of_den_eq_one hden).symm
      · rintro ⟨y,hy,hn⟩
        cases hy
        rw [hn,if_pos (Rat.den_intCast n),Rat.num_intCast]

theorem isIntegerText_of_plain {cs : List Char} (hne : cs ≠ []) (h : cs.all isDigit = true) :
    isIntegerText cs = true ∧ bigInt cs = decimal cs := by
  unfold isIntegerText bigInt
  split
  · rename_i digits
    rw [List.all_cons,Bool.and_eq_true] at h
    exact absurd h.1 (by decide)
  · exact ⟨decide_eq_true ⟨hne,h⟩,rfl⟩

theorem denotes_of_isIntegerText {value : String} (h : isIntegerText value.toList = true) :
    Denotes (.string value) (bigInt value.toList) := by
  unfold isIntegerText at h
  unfold bigInt
  split at h
  · rename_i digits htext
    obtain ⟨hne,hdigits⟩ := of_decide_eq_true h
    exact .minus htext hne hdigits
  · obtain ⟨hne,hdigits⟩ := of_decide_eq_true h
    exact .plain hne hdigits

/-- The inputs that are integers are the ones that are let through. -/
theorem toBigInt_eq_ok {minorUnits : MinorUnits} {n : ℤ} :
    toBigInt minorUnits = .ok n ↔ Denotes minorUnits n := by
  cases minorUnits with
  | bigint value =>
      constructor
      · intro h
        cases h
        exact .bigint _
      · intro h
        cases h
        rfl
  | number value =>
      rw [toBigInt]
      constructor
      · intro h
        split at h
        · rename_i m hm
          cases h
          obtain ⟨x,rfl,hx⟩ := integer_eq_some.mp hm
          exact .number hx
        · cases h
      · intro h
        cases h with
        | number hx => rw [integer_eq_some.mpr ⟨_,rfl,hx⟩]
  | string value =>
      rw [toBigInt]
      constructor
      · intro h
        split_ifs at h with hmatch
        rw [← Except.ok.inj h]
        exact denotes_of_isIntegerText hmatch
      · intro h
        cases h with
        | plain hne hdigits =>
            obtain ⟨hmatch,hvalue⟩ := isIntegerText_of_plain hne hdigits
            rw [if_pos hmatch,hvalue]
        | minus htext hne hdigits =>
            have hmatch : isIntegerText value.toList = true := by
              rw [htext]
              exact decide_eq_true ⟨hne,hdigits⟩
            rw [if_pos hmatch,htext,bigInt]

/-! ## The amount -/

/-- This is the text that the client of the contract gives a difference. -/
theorem amountText_eq (big : ℤ) (decimals : ℕ) :
    amountText big decimals = scaledText big decimals := by
  unfold amountText scaledText
  simp only [integerText_magnitude]
  by_cases hzero : decimals = 0
  · subst hzero
    simp
  · -- A fraction that is asked for is not empty, so the point is printed.
    have hfraction := scaledNumeral_fraction_length big decimals
    have hne : (scaledNumeral big decimals).fraction ≠ [] := by
      intro hnil
      rw [hnil] at hfraction
      exact hzero hfraction.symm
    unfold scaledNumeral at hne
    rw [if_pos (Nat.pos_of_ne_zero hzero),if_neg hne,if_neg hzero]

/-- Digits of a positive integer do not start with a zero. -/
theorem naturalText_of_head {n : ℕ} (h : (naturalText n).head? = some '0') :
    naturalText n = ['0'] := by
  unfold naturalText at h ⊢
  split at h
  · rename_i hn
    rw [if_pos hn]
  · rename_i hn
    obtain ⟨c,rest,hcons,hc⟩ := digitsOf_eq_cons hn
    rw [hcons] at h
    exact absurd (Option.some.inj h) hc

/-- A zero stands in front only when it is the digit before the point. -/
theorem whole_scaledNumeral (n : ℤ) (decimals : ℕ) :
    (scaledNumeral n decimals).whole.head? = some '0' →
      (scaledNumeral n decimals).whole = ['0'] := by
  unfold scaledNumeral padStart
  dsimp only
  by_cases hshort : (naturalText n.natAbs).length ≤ decimals
  · -- One zero before the point, and perhaps others behind it.
    intro _
    obtain ⟨k,hk⟩ : ∃ k, decimals + 1 - (naturalText n.natAbs).length = k + 1 :=
      ⟨decimals - (naturalText n.natAbs).length,by omega⟩
    have hlength : (List.replicate (k + 1) '0' ++ naturalText n.natAbs).length - decimals = 1 := by
      rw [List.length_append,List.length_replicate]
      omega
    rw [hk,hlength]
    rfl
  · -- The digits of the integer alone.
    have hnone : decimals + 1 - (naturalText n.natAbs).length = 0 := by omega
    rw [hnone,List.replicate_zero,List.nil_append,List.head?_take,if_neg (by omega)]
    intro hhead
    have htext := naturalText_of_head hhead
    have hzero : decimals = 0 := by
      rw [htext,List.length_singleton] at hshort
      omega
    rw [htext,hzero]
    rfl

/-- The amount is a decimal for exactly `n / 10 ^ decimals`, with as many digits behind the
point as asked for and no zeros in front that could be left out. Only a debt has a minus. -/
def ExactAmount (amount : String) (n : ℤ) (decimals : ℕ) : Prop :=
  ∃ numeral, decimalString amount.toList = some numeral ∧ numeral.number = n / 10 ^ decimals ∧
    numeral.fraction.length = decimals ∧
    (numeral.whole.head? = some '0' → numeral.whole = ['0']) ∧
    (numeral.negative = true ↔ n < 0)

theorem exactAmount_amountText (n : ℤ) (decimals : ℕ) :
    ExactAmount (String.ofList (amountText n decimals)) n decimals := by
  refine ⟨scaledNumeral n decimals,?_,scaledNumeral_number n decimals,
    scaledNumeral_fraction_length n decimals,whole_scaledNumeral n decimals,decide_eq_true_iff⟩
  rw [String.toList_ofList,amountText_eq,scaledText_eq]
  exact (decimalString_eq_some_iff _ _).mpr ⟨scaledNumeral_wellFormed n decimals,rfl⟩

/-- One amount does not stand for two integers. -/
theorem ExactAmount.injective {amount : String} {n n' : ℤ} {decimals : ℕ}
    (h : ExactAmount amount n decimals) (h' : ExactAmount amount n' decimals) : n = n' := by
  obtain ⟨numeral,hnumeral,hnumber,-⟩ := h
  obtain ⟨numeral',hnumeral',hnumber',-⟩ := h'
  obtain rfl : numeral = numeral' := Option.some.inj (hnumeral.symm.trans hnumeral')
  have hten : (10 : ℚ) ^ decimals ≠ 0 := pow_ne_zero _ (by norm_num)
  have hquotient := hnumber.symm.trans hnumber'
  rw [div_left_inj' hten] at hquotient
  exact_mod_cast hquotient

/-- The integers from 0 to 18 are the decimals that are let through. -/
theorem decimals_eq_round {decimals : Value} {d : ℤ} (h : integer decimals = some d)
    (hrange : ¬ (d < 0 ∨ MAX_DECIMALS < d)) : d.toNat ≤ 18 ∧ decimals = .round d.toNat := by
  unfold MAX_DECIMALS at hrange
  have hle : d.toNat ≤ 18 := by omega
  have hsafe : d.toNat < 9007199254740992 := by omega
  have hcast : ((d.toNat : ℤ) : ℚ) = d := by
    rw [Int.toNat_of_nonneg (by omega)]
  obtain ⟨x,rfl,hx⟩ := integer_eq_some.mp h
  obtain ⟨y,hround,hy⟩ := FloatOrder.round_natCast hsafe
  have hxy : x = y := by
    apply Subtype.ext
    rw [hx,hy,← hcast,Int.cast_natCast]
  exact ⟨hle,by rw [hround,hxy]⟩

theorem integer_round {d : ℕ} (h : d ≤ 18) :
    integer (.round d) = some (d : ℤ) ∧ ¬ ((d : ℤ) < 0 ∨ MAX_DECIMALS < d) := by
  have hsafe : d < 9007199254740992 := by omega
  obtain ⟨x,hround,hx⟩ := FloatOrder.round_natCast hsafe
  refine ⟨integer_eq_some.mpr ⟨x,hround,hx⟩,?_⟩
  unfold MAX_DECIMALS
  omega

/-- Money is printed for the integers at the scales in range, and for nothing else. -/
theorem formatMoney_eq_ok {toUpperCase : String → String} {minorUnits : MinorUnits}
    {currency : String} {decimals : Value} {response : MoneyResponse} :
    formatMoney toUpperCase minorUnits currency decimals = .ok response ↔
      ∃ (n : ℤ) (d : ℕ), Denotes minorUnits n ∧ d ≤ 18 ∧ decimals = .round d ∧
        response = ⟨String.ofList (integerText n),String.ofList (amountText n d),
          toUpperCase currency,decimals⟩ := by
  unfold formatMoney
  constructor
  · intro h
    dsimp only at h
    split at h
    · cases h
    · rename_i d hd
      split_ifs at h with hrange
      cases hbig : toBigInt minorUnits with
      | error thrown =>
          rw [hbig] at h
          cases h
      | ok n =>
          rw [hbig] at h
          cases h
          obtain ⟨hle,hround⟩ := decimals_eq_round hd hrange
          exact ⟨n,d.toNat,toBigInt_eq_ok.mp hbig,hle,hround,rfl⟩
  · rintro ⟨n,d,hn,hd,rfl,rfl⟩
    obtain ⟨hinteger,hinside⟩ := integer_round hd
    rw [hinteger]
    dsimp only
    rw [if_neg hinside,toBigInt_eq_ok.mpr hn]
    rfl

/-- Every integer is printed exactly at every scale, and no two integers are printed alike. -/
theorem amount_exact (toUpperCase : String → String) {decimals : ℕ} (hrange : decimals ≤ 18) :
    (∀ minorUnits n currency, Denotes minorUnits n → ∃ response,
      formatMoney toUpperCase minorUnits currency (.round decimals) = .ok response ∧
        ExactAmount response.amount n decimals) ∧
    ∀ minorUnits minorUnits' n n' currency currency' response response',
      Denotes minorUnits n → Denotes minorUnits' n' → n ≠ n' →
      formatMoney toUpperCase minorUnits currency (.round decimals) = .ok response →
      formatMoney toUpperCase minorUnits' currency' (.round decimals) = .ok response' →
      response.amount ≠ response'.amount := by
  have hexact : ∀ minorUnits n currency, Denotes minorUnits n → ∃ response,
      formatMoney toUpperCase minorUnits currency (.round decimals) = .ok response ∧
        ExactAmount response.amount n decimals := by
    intro minorUnits n currency hn
    exact ⟨_,formatMoney_eq_ok.mpr ⟨n,decimals,hn,hrange,rfl,rfl⟩,exactAmount_amountText n decimals⟩
  refine ⟨hexact,?_⟩
  intro minorUnits minorUnits' n n' currency currency' response response' hn hn' hne hprint hprint'
    hsame
  obtain ⟨printed,hprinted,hamount⟩ := hexact minorUnits n currency hn
  obtain ⟨printed',hprinted',hamount'⟩ := hexact minorUnits' n' currency' hn'
  obtain rfl : printed = response := Except.ok.inj (hprinted.symm.trans hprint)
  obtain rfl : printed' = response' := Except.ok.inj (hprinted'.symm.trans hprint')
  rw [← hsame] at hamount'
  exact hne (hamount.injective hamount')

theorem amount_exact_small_debt :
    (∃ response, formatMoney id (.string "-05") "USD" (.round (2 : ℕ)) = .ok response ∧
      ExactAmount response.amount (-5) 2) ∧
    ∀ response response', formatMoney id (.string "-05") "USD" (.round (2 : ℕ)) = .ok response →
      formatMoney id (.bigint 5) "USD" (.round (2 : ℕ)) = .ok response' →
      response.amount ≠ response'.amount := by
  have hdebt : Denotes (.string "-05") (-5) :=
    @Denotes.minus "-05" ['0','5'] rfl (List.cons_ne_nil _ _) rfl
  obtain ⟨hexact,hdistinct⟩ := amount_exact id (show 2 ≤ 18 by decide)
  exact ⟨hexact _ _ _ hdebt,
    fun response response' => hdistinct _ _ _ _ _ _ response response' hdebt (.bigint 5) (by decide)⟩

example : amountText (-5) 2 = "-0.05".toList := by decide +kernel

end Creditra.MoneyFormatting
