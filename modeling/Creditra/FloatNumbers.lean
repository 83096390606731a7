import Creditra.NumberText
import Mathlib.Data.Int.Log

/-!
# Binary64 arithmetic, `parseFloat` and `parseInt`

A value of the runtime's number type is a rational that rounding leaves as it
is, an infinity or not-a-number. Sums, differences, products and quotients of
finite values are the rounded exact results. `parseFloat` reads the longest
decimal literal at the front of a text, and a printed value reads back as
itself; `parseInt` reads the longest run of digits. A zero has one sign: nothing
modelled divides by one.
-/
namespace Creditra.FloatNumbers
open JsNumbers JsStrings NumberText

/-! ## Rounding twice -/

/-- The binary logarithms of numerator and denominator fix a quotient up to a factor of two. -/
theorem quotient_bounds {q : ℚ} (hq : 0 < q) :
    (2 : ℚ) ^ ((Nat.log2 q.num.toNat : ℤ) - Nat.log2 q.den - 1) ≤ q ∧
      q < 2 ^ ((Nat.log2 q.num.toNat : ℤ) - Nat.log2 q.den + 1) := by
  have hnum : 0 < q.num := Rat.num_pos.mpr hq
  have hdiv : q = ((q.num.toNat : ℕ) : ℚ) / q.den := by
    have hcast : ((q.num.toNat : ℕ) : ℚ) = q.num := by
      exact_mod_cast Int.toNat_of_nonneg hnum.le
    rw [hcast,Rat.num_div_den]
  have hden : (0 : ℚ) < q.den := by exact_mod_cast q.den_pos
  have hlow : (2 : ℚ) ^ Nat.log2 q.num.toNat ≤ (q.num.toNat : ℕ) := by
    exact_mod_cast Nat.log2_self_le (by omega)
  have hhigh : ((q.num.toNat : ℕ) : ℚ) < 2 ^ (Nat.log2 q.num.toNat + 1) := by
    exact_mod_cast Nat.lt_log2_self
  have hdlow : (2 : ℚ) ^ Nat.log2 q.den ≤ q.den := by
    exact_mod_cast Nat.log2_self_le q.den_nz
  have hdhigh : (q.den : ℚ) < 2 ^ (Nat.log2 q.den + 1) := by
    exact_mod_cast Nat.lt_log2_self
  have hbelow : (2 : ℚ) ^ Nat.log2 q.num.toNat / 2 ^ (Nat.log2 q.den + 1) ≤ q := by
    exact le_of_le_of_eq (div_le_div₀ (Nat.cast_nonneg _) hlow hden hdhigh.le) hdiv.symm
  have habove : q < (2 : ℚ) ^ (Nat.log2 q.num.toNat + 1) / 2 ^ Nat.log2 q.den := by
    exact lt_of_eq_of_lt hdiv (div_lt_div₀ hhigh hdlow (by positivity) (by positivity))
  rw [← zpow_natCast,← zpow_natCast,← zpow_sub₀ two_ne_zero] at hbelow habove
  push_cast at hbelow habove
  exact ⟨by rwa [sub_sub],by rwa [add_sub_right_comm] at habove⟩

theorem zpow_le_iff {q : ℚ} (hq : 0 < q) (e : ℤ) : (2 : ℚ) ^ e ≤ q ↔ e ≤ Int.log 2 q := by
  have h := Int.zpow_le_iff_le_log one_lt_two hq (x := e)
  rwa [Nat.cast_ofNat] at h

theorem lt_zpow_iff {q : ℚ} (hq : 0 < q) (e : ℤ) : q < (2 : ℚ) ^ e ↔ Int.log 2 q < e := by
  rw [← not_le,zpow_le_iff hq,not_le]

theorem floorLog2_eq_log {q : ℚ} (hq : 0 < q) : floorLog2 q = Int.log 2 q := by
  obtain ⟨hbelow,habove⟩ := quotient_bounds hq
  rw [zpow_le_iff hq] at hbelow
  rw [lt_zpow_iff hq] at habove
  unfold floorLog2
  simp only [zpow_le_iff hq]
  split <;> omega

/-- A multiple of a power of two with at most 53 bits is a value of the type. -/
theorem toDouble_of_bits {m : ℕ} {e : ℤ} (hm : m < 2 ^ 53) (he : -1074 ≤ e)
    (hlarge : (m : ℚ) * 2 ^ e < 2 ^ (1024 : ℕ)) :
    toDouble ((m : ℚ) * 2 ^ e) = some ((m : ℚ) * 2 ^ e) := by
  have htwo : (0 : ℚ) < 2 ^ e := zpow_pos two_pos e
  by_cases hzero : m = 0
  · rw [hzero,Nat.cast_zero,zero_mul]
    rfl
  · have hpos : (0 : ℚ) < m * 2 ^ e := by
      have hmpos : (0 : ℚ) < m := by exact_mod_cast Nat.pos_of_ne_zero hzero
      positivity
    have hlog : Int.log 2 ((m : ℚ) * 2 ^ e) < 53 + e := by
      have hbits : (m : ℚ) < 2 ^ (53 : ℤ) := by exact_mod_cast hm
      rw [← lt_zpow_iff hpos,zpow_add₀ two_ne_zero]
      exact mul_lt_mul_of_pos_right hbits htwo
    have hexp : max (floorLog2 ((m : ℚ) * 2 ^ e)) (-1022) - 52 ≤ e := by
      rw [floorLog2_eq_log hpos]
      omega
    unfold toDouble
    rw [if_neg hpos.ne']
    dsimp only
    generalize max (floorLog2 ((m : ℚ) * 2 ^ e)) (-1022) - 52 = k at hexp ⊢
    obtain ⟨n,hn⟩ := Int.le.dest hexp
    have hquot : (m : ℚ) * 2 ^ e / 2 ^ k = ((m * 2 ^ n : ℤ) : ℚ) := by
      rw [← hn,zpow_add₀ two_ne_zero,zpow_natCast]
      push_cast
      have hk : (2 : ℚ) ^ k ≠ 0 := zpow_ne_zero k two_ne_zero
      field_simp
    rw [hquot,roundHalfEven_intCast,← hquot,div_mul_cancel₀ _ (zpow_ne_zero k two_ne_zero),
      if_pos hlarge]

theorem roundHalfEven_bounds {q : ℚ} {n : ℕ} (hq : 0 ≤ q) (hn : q < n) :
    0 ≤ roundHalfEven q ∧ roundHalfEven q ≤ n := by
  have hfloor : 0 ≤ ⌊q⌋ := Int.floor_nonneg.mpr hq
  have hless : ⌊q⌋ < n := Int.floor_lt.mpr (by exact_mod_cast hn)
  unfold roundHalfEven
  dsimp only
  split_ifs <;> omega

/-- What rounding gives has at most 53 bits, or is the power of two behind them. -/
theorem exists_bits {q r : ℚ} (hq : 0 ≤ q) (h : toDouble q = some r) :
    ∃ (m : ℕ) (e : ℤ), m ≤ 2 ^ 53 ∧ -1074 ≤ e ∧ r = m * 2 ^ e ∧ r < 2 ^ (1024 : ℕ) := by
  unfold toDouble at h
  split at h
  · cases h
    exact ⟨0,0,by omega,by omega,by simp,pow_pos two_pos 1024⟩
  · rename_i hne
    have hpos : 0 < q := lt_of_le_of_ne hq (Ne.symm hne)
    dsimp only at h
    split at h
    · rename_i hlarge
      cases h
      have hexp : Int.log 2 q < max (floorLog2 q) (-1022) - 52 + 53 := by
        rw [floorLog2_eq_log hpos]
        omega
      have hmin : -1074 ≤ max (floorLog2 q) (-1022) - 52 := by omega
      generalize max (floorLog2 q) (-1022) - 52 = e at hexp hmin hlarge ⊢
      have htwo : (0 : ℚ) < 2 ^ e := zpow_pos two_pos e
      have hquot : q / 2 ^ e < ((2 ^ 53 : ℕ) : ℚ) := by
        rw [div_lt_iff₀ htwo,Nat.cast_pow,Nat.cast_ofNat,← zpow_natCast,← zpow_add₀ two_ne_zero,
          lt_zpow_iff hpos]
        push_cast
        omega
      obtain ⟨hnonneg,hle⟩ := roundHalfEven_bounds (div_nonneg hq htwo.le) hquot
      have hcast : (((roundHalfEven (q / 2 ^ e)).toNat : ℕ) : ℚ) = roundHalfEven (q / 2 ^ e) := by
        exact_mod_cast Int.toNat_of_nonneg hnonneg
      refine ⟨(roundHalfEven (q / 2 ^ e)).toNat,e,by omega,hmin,?_,hlarge⟩
      rw [hcast]
    · cases h

/-- Rounding a second time changes nothing. -/
theorem toDouble_toDouble {q r : ℚ} (hq : 0 ≤ q) (h : toDouble q = some r) :
    0 ≤ r ∧ toDouble r = some r := by
  obtain ⟨m,e,hm,he,rfl,hlarge⟩ := exists_bits hq h
  have htwo : (0 : ℚ) < 2 ^ e := zpow_pos two_pos e
  refine ⟨mul_nonneg (Nat.cast_nonneg m) htwo.le,?_⟩
  cases Nat.lt_or_eq_of_le hm with
  | inl hlt => exact toDouble_of_bits hlt he hlarge
  | inr heq =>
      have hshift : (m : ℚ) * 2 ^ e = ((2 ^ 52 : ℕ) : ℚ) * 2 ^ (e + 1) := by
        rw [heq,zpow_add₀ two_ne_zero,zpow_one]
        push_cast
        ring
      rw [hshift] at hlarge ⊢
      exact toDouble_of_bits (by decide) (by omega) hlarge

/-! ## Values and arithmetic -/

/-- The values of the number type. -/
inductive Value where
  | finite (x : Double)
  | infinite (negative : Bool)
  | nan
  deriving DecidableEq

namespace Value

/-- The value nearest to an exact result. -/
def round (q : ℚ) : Value :=
  match h : toDouble |q| with
  | some r =>
      .finite ⟨if q < 0 then -r else r,by
        obtain ⟨hnonneg,hr⟩ := toDouble_toDouble (abs_nonneg q) h
        have habs : |if q < 0 then -r else r| = r := by
          split
          · rw [abs_neg,abs_of_nonneg hnonneg]
          · exact abs_of_nonneg hnonneg
        rw [habs]
        exact hr⟩
  | none => .infinite (q < 0)

def zero : Value := .finite ⟨0,by decide⟩

def one : Value := .finite ⟨1,by decide +kernel⟩

def isFinite : Value → Bool
  | .finite _ => true
  | _ => false

def negative : Value → Bool
  | .finite x => x.1 < 0
  | .infinite negative => negative
  | .nan => false

def isZero : Value → Bool
  | .finite x => x.1 = 0
  | _ => false

def neg : Value → Value
  | .finite x => .finite ⟨-x.1,by rw [abs_neg]; exact x.2⟩
  | .infinite negative => .infinite (! negative)
  | .nan => .nan

def add : Value → Value → Value
  | .finite x, .finite y => round (x.1 + y.1)
  | .infinite n, .infinite m => if n = m then .infinite n else .nan
  | .infinite n, .finite _ => .infinite n
  | .finite _, .infinite n => .infinite n
  | _, _ => .nan

def sub (x y : Value) : Value := add x (neg y)

def mul : Value → Value → Value
  | .finite x, .finite y => round (x.1 * y.1)
  | .nan, _ => .nan
  | _, .nan => .nan
  | x, y => if isZero x || isZero y then .nan else .infinite (negative x != negative y)

/-- A zero divisor counts as the positive one. -/
def div : Value → Value → Value
  | .finite x, .finite y =>
      if y.1 = 0 then (if x.1 = 0 then .nan else .infinite (x.1 < 0)) else round (x.1 / y.1)
  | .infinite n, .finite y => .infinite (n != decide (y.1 < 0))
  | .finite _, .infinite _ => zero
  | _, _ => .nan

/-- `x < y`, false whenever a side is not a number. -/
def lt : Value → Value → Bool
  | .finite x, .finite y => x.1 < y.1
  | .infinite n, .infinite m => n && ! m
  | .infinite n, .finite _ => n
  | .finite _, .infinite m => ! m
  | _, _ => false

/-- `x <= y`. -/
def le : Value → Value → Bool
  | .finite x, .finite y => x.1 ≤ y.1
  | .infinite n, .infinite m => n || ! m
  | .infinite n, .finite _ => n
  | .finite _, .infinite m => ! m
  | _, _ => false

/-- Whether the value counts as true in a condition. -/
def truthy : Value → Bool
  | .finite x => x.1 ≠ 0
  | .infinite _ => true
  | .nan => false

/-- `x || default`. -/
def orElse (x default : Value) : Value := if truthy x then x else default

/-- `Math.max(x, y)`. -/
def max : Value → Value → Value
  | .nan, _ => .nan
  | _, .nan => .nan
  | x, y => if le x y then y else x

end Value

/-! ## Texts -/

/-- What a literal denotes before rounding. -/
def exactValue (l : Literal) : ℚ := if l.negative then -l.magnitude else l.magnitude

/-- A sign at the front, and what follows it. -/
def signed : List Char → Bool × List Char
  | '-' :: cs => (true,cs)
  | '+' :: cs => (false,cs)
  | cs => (false,cs)

/-- The exponent, unless no digits follow its letter. -/
def exponentAtFront (cs : List Char) : Option (Bool × List Char) :=
  match parseExponent cs with
  | some (exponent,_) => exponent
  | none => none

/-- The digits behind a decimal point, and what follows them. -/
def fractionAtFront : List Char → List Char × List Char
  | '.' :: rest => (rest.takeWhile isDigit,rest.dropWhile isDigit)
  | rest => ([],rest)

/-- The longest decimal literal at the front of a text without sign. -/
def decimalAtFront (negative : Bool) (cs : List Char) : Option Literal :=
  let whole := cs.takeWhile isDigit
  let (fraction,rest) := fractionAtFront (cs.dropWhile isDigit)
  if whole = [] ∧ fraction = [] then none
  else some ⟨negative,whole,fraction,exponentAtFront rest⟩

def parseFloat (text : String) : Value :=
  let (negative,cs) := signed (text.toList.dropWhile isWhiteSpace)
  if "Infinity".toList.isPrefixOf cs then .infinite negative
  else match decimalAtFront negative cs with
    | some l => .round (exactValue l)
    | none => .nan

/-- The digits and letters that count as digits, whatever the radix. -/
def digitValue (c : Char) : Option ℕ :=
  if 48 ≤ c.toNat ∧ c.toNat ≤ 57 then some (c.toNat - 48)
  else if 65 ≤ c.toNat ∧ c.toNat ≤ 90 then some (c.toNat - 55)
  else if 97 ≤ c.toNat ∧ c.toNat ≤ 122 then some (c.toNat - 87)
  else none

/-- The digits at the front. -/
def digitsAtFront (radix : ℕ) : List Char → List ℕ
  | [] => []
  | c :: cs => match (digitValue c).filter (· < radix) with
      | some d => d :: digitsAtFront radix cs
      | none => []

/-- The whole number at the front of a text without sign. -/
def wholeAtFront (radix : ℕ) (negative : Bool) (cs : List Char) : Option ℤ :=
  match digitsAtFront radix cs with
  | [] => none
  | ds =>
      let n : ℤ := ds.foldl (fun n d => n * radix + d) 0
      some (if negative then -n else n)

/-- The value of a whole number that has been read. -/
def wholeValue : Option ℤ → Value
  | some n => .round n
  | none => .nan

/-- What `parseInt(text)` rounds: without a radix, digits behind `0x` are hexadecimal. -/
def integerText (text : String) : Option ℤ :=
  match signed (text.toList.dropWhile isWhiteSpace) with
  | (negative,'0' :: 'x' :: cs) => wholeAtFront 16 negative cs
  | (negative,'0' :: 'X' :: cs) => wholeAtFront 16 negative cs
  | (negative,cs) => wholeAtFront 10 negative cs

/-- What `parseInt(text, 10)` rounds. -/
def decimalText (text : String) : Option ℤ :=
  match signed (text.toList.dropWhile isWhiteSpace) with
  | (negative,cs) => wholeAtFront 10 negative cs

/-- `parseInt(text)`. -/
def parseInt (text : String) : Value := wholeValue (integerText text)

/-- `parseInt(text, 10)`. -/
def parseIntDecimal (text : String) : Value := wholeValue (decimalText text)

/-- `x.toString()`. -/
def toText : Value → String
  | .finite x => String.ofList (numberText x)
  | .infinite true => "-Infinity"
  | .infinite false => "Infinity"
  | .nan => "NaN"

theorem magnitude_nonneg (l : Literal) : 0 ≤ l.magnitude := by
  unfold Literal.magnitude
  exact mul_nonneg (Nat.cast_nonneg _) (zpow_nonneg (by norm_num) _)

theorem abs_exactValue (l : Literal) : |exactValue l| = l.magnitude := by
  unfold exactValue
  split
  · rw [abs_neg,abs_of_nonneg (magnitude_nonneg l)]
  · exact abs_of_nonneg (magnitude_nonneg l)

theorem round_eq_finite {q r : ℚ} {x : Double} (h : toDouble |q| = some r)
    (hx : x.1 = if q < 0 then -r else r) : Value.round q = .finite x := by
  unfold Value.round
  split
  · rename_i r' hr
    rw [h] at hr
    cases hr
    congr 1
    exact Subtype.ext hx.symm
  · rename_i hnone
    rw [h] at hnone
    cases hnone

theorem round_exactValue {l : Literal} {x : Double} (h : l.number = .finite x.1) :
    Value.round (exactValue l) = .finite x := by
  have hnonneg := magnitude_nonneg l
  unfold Literal.number at h
  split at h
  · rename_i r hr
    injection h with hx
    apply round_eq_finite
    · rw [abs_exactValue]
      exact hr
    · rw [← hx]
      unfold exactValue
      cases l.negative with
      | false =>
          rw [if_neg Bool.false_ne_true,if_neg Bool.false_ne_true,if_neg (not_lt.mpr hnonneg)]
      | true =>
          rw [if_pos rfl,if_pos rfl]
          by_cases hzero : l.magnitude = 0
          · rw [hzero] at hr ⊢
            cases hr
            simp
          · have hneg : -l.magnitude < 0 :=
              neg_lt_zero.mpr (lt_of_le_of_ne hnonneg (Ne.symm hzero))
            rw [if_pos hneg]
  · cases h

/-- A digit begins neither white space nor a sign nor `Infinity`. -/
theorem digit_facts {c : Char} (h : isDigit c = true) :
    isWhiteSpace c = false ∧ c ≠ '-' ∧ c ≠ '+' ∧ c ≠ 'I' := by
  have hrange : 48 ≤ c.toNat ∧ c.toNat ≤ 57 := of_decide_eq_true h
  have hne : ∀ d : Char, d.toNat < 48 ∨ 57 < d.toNat → c ≠ d := by
    intro d hd he
    rw [he] at hrange
    omega
  refine ⟨?_,hne _ (by decide),hne _ (by decide),hne _ (by decide)⟩
  unfold isWhiteSpace
  rw [decide_eq_false_iff_not]
  simp only [List.mem_cons,List.not_mem_nil,or_false]
  omega

theorem exponentAtFront_text {exponent : Option (Bool × List Char)}
    (h : ∀ negative digits, exponent = some (negative,digits) →
      digits ≠ [] ∧ digits.all isDigit = true) :
    exponentAtFront (Literal.exponentText exponent) = exponent := by
  have hstops : Stops [] := by
    intro c hc
    cases hc
  have hparse := parseExponent_append h hstops
  rw [List.append_nil] at hparse
  unfold exponentAtFront
  rw [hparse]

/-- The digits at the front, and the rest. -/
theorem digits_append {ds rest : List Char} (hds : ds.all isDigit = true)
    (hrest : ∀ c ∈ rest.head?, isDigit c = false) :
    (ds ++ rest).takeWhile isDigit = ds ∧ (ds ++ rest).dropWhile isDigit = rest := by
  have hpos : ∀ c ∈ ds, isDigit c = true := List.all_eq_true.mp hds
  rw [List.takeWhile_append_of_pos hpos,List.dropWhile_append_of_pos hpos]
  cases rest with
  | nil => simp
  | cons c rest =>
      have hc := hrest c rfl
      simp [hc]

theorem fractionAtFront_append {fraction after : List Char} (h : fraction.all isDigit = true)
    (hafter : ∀ c ∈ after.head?, isDigit c = false ∧ c ≠ '.') :
    fractionAtFront ((if fraction = [] then [] else '.' :: fraction) ++ after) =
      (fraction,after) := by
  by_cases hne : fraction = []
  · rw [if_pos hne,hne,List.nil_append]
    unfold fractionAtFront
    split
    · rename_i rest
      exact absurd rfl (hafter '.' rfl).2
    · rfl
  · obtain ⟨htake,hdrop⟩ := digits_append h fun c hc => (hafter c hc).1
    rw [if_neg hne,List.cons_append,fractionAtFront,htake,hdrop]

theorem decimalAtFront_text {l : Literal} (h : l.WellFormed) (hne : l.whole ≠ []) :
    decimalAtFront l.negative (l.whole ++ ((if l.fraction = [] then [] else '.' :: l.fraction) ++
      Literal.exponentText l.exponent)) = some l := by
  have hstops : Stops [] := by
    intro c hc
    cases hc
  have hheadE : ∀ c ∈ (Literal.exponentText l.exponent ++ []).head?, isDigit c = false ∧ c ≠ '.' :=
    head_exponentText hstops
  rw [List.append_nil] at hheadE
  obtain ⟨htake,hdrop⟩ := digits_append h.whole (head_fraction l.fraction hheadE)
  unfold decimalAtFront
  rw [htake,hdrop,fractionAtFront_append h.fraction hheadE]
  dsimp only
  rw [exponentAtFront_text h.exponent,if_neg]
  intro hnil
  exact hne hnil.1

theorem signed_of_ne {c : Char} {cs : List Char} (hminus : c ≠ '-') (hplus : c ≠ '+') :
    signed (c :: cs) = (false,c :: cs) := by
  unfold signed
  split
  · rename_i heq
    exact absurd (List.cons.inj heq).1 hminus
  · rename_i heq
    exact absurd (List.cons.inj heq).1 hplus
  · rfl

/-- A printed number is read back. -/
theorem parseFloat_literal {l : Literal} (h : l.WellFormed) :
    parseFloat (String.ofList l.text) = Value.round (exactValue l) := by
  have hcons : ∃ c rest, l.whole = c :: rest := by
    cases h.zero with
    | inl hzero => exact ⟨'0',[],hzero⟩
    | inr hcons =>
        obtain ⟨c,rest,hcons,-⟩ := hcons
        exact ⟨c,rest,hcons⟩
  obtain ⟨c,rest,hwhole⟩ := hcons
  have hdigit : isDigit c = true := by
    have hall := h.whole
    rw [hwhole,List.all_cons,Bool.and_eq_true] at hall
    exact hall.1
  obtain ⟨hspace,hminus,hplus,hinfinity⟩ := digit_facts hdigit
  have hfront := decimalAtFront_text h (by rw [hwhole]; exact List.cons_ne_nil c rest)
  have hsign : signed (l.text.dropWhile isWhiteSpace) =
      (l.negative,l.whole ++ ((if l.fraction = [] then [] else '.' :: l.fraction) ++
        Literal.exponentText l.exponent)) := by
    unfold Literal.text
    simp only [List.append_assoc]
    cases l.negative with
    | true =>
        rw [if_pos rfl,List.singleton_append,List.dropWhile_cons_of_neg (by decide)]
        rfl
    | false =>
        rw [if_neg Bool.false_ne_true,List.nil_append,hwhole,List.cons_append,
          List.dropWhile_cons_of_neg (by simp [hspace])]
        exact signed_of_ne hminus hplus
  unfold parseFloat
  rw [String.toList_ofList,hsign]
  dsimp only
  rw [hfront,if_neg]
  rw [hwhole,List.cons_append,List.isPrefixOf_iff_prefix]
  intro hprefix
  exact hinfinity (List.cons_prefix_cons.mp hprefix).1.symm

theorem parseFloat_toText (v : Value) : parseFloat (toText v) = v := by
  cases v with
  | finite x =>
      unfold toText numberText
      rw [parseFloat_literal (literalOf_wellFormed x)]
      exact round_exactValue (literalOf_number x)
  | infinite negative =>
      cases negative with
      | false => decide +kernel
      | true => decide +kernel
  | nan => decide +kernel

end Creditra.FloatNumbers
