import Creditra.JsNumbers
import Creditra.JsStrings
import Mathlib.Data.Nat.Digits.Lemmas
import Mathlib.Tactic.IntervalCases
import Mathlib.Tactic.Linarith

/-!
# Numbers as texts

`String(x)` for a finite number and the number a JSON literal denotes. A number
is printed with the fewest digits that read back as the same number, and among
those with the digits closest to it; the layout then depends on where the
decimal point falls. Reading rounds the exact value of the literal, so that a
printed number reads back as itself.
-/
namespace Creditra.NumberText
open JsNumbers JsStrings

/-! ## Literals -/

/-- The parts of a literal; the exponent has a sign and digits. -/
structure Literal where
  negative : Bool
  whole : List Char
  fraction : List Char
  exponent : Option (Bool × List Char)
  deriving DecidableEq

namespace Literal

def exponentValue (l : Literal) : ℤ :=
  match l.exponent with
  | none => 0
  | some (negative,digits) => if negative then - (decimal digits : ℤ) else decimal digits

def magnitude (l : Literal) : ℚ :=
  decimal (l.whole ++ l.fraction) * 10 ^ (l.exponentValue - l.fraction.length)

def number (l : Literal) : Number :=
  match toDouble l.magnitude with
  | some x => .finite (if l.negative then - x else x)
  | none => .infinite l.negative

def exponentText : Option (Bool × List Char) → List Char
  | none => []
  | some (negative,digits) => 'e' :: (if negative then '-' else '+') :: digits

def text (l : Literal) : List Char :=
  (if l.negative then ['-'] else []) ++ l.whole ++
    (if l.fraction = [] then [] else '.' :: l.fraction) ++ exponentText l.exponent

end Literal

/-! ## Printing -/

def digitsOf (n : ℕ) : List Char := (Nat.digits 10 n).reverse.map Nat.digitChar

/-- The two decimals next to `x` with last digit at `10 ^ e`, the closer one first. -/
def candidates (x : ℚ) (e : ℤ) : List ℕ :=
  let below := ⌊x / 10 ^ e⌋.toNat
  if (roundHalfEven (x / 10 ^ e)).toNat = below then [below,below + 1] else [below + 1,below]

def digitsAt (x : ℚ) (e : ℤ) : Option (ℕ × ℤ) :=
  ((candidates x e).find? fun s : ℕ => toDouble ((s : ℚ) * 10 ^ e) = some x).map fun s => (s,e)

/-- The fewest digits that read back as `x`, for positive `x`. No finite number
reaches `10 ^ 309`, and each is a multiple of `10 ^ (-1074)`. -/
def shortest (x : ℚ) : ℕ × ℤ :=
  ((List.range 1384).findSome? fun j : ℕ => digitsAt x (309 - j)).getD (0,0)

/-- The layout of the digits `d` of a number with its decimal point behind the
first `n` of them. -/
def layout (negative : Bool) (d : List Char) (n : ℤ) : Literal :=
  if d.length ≤ n ∧ n ≤ 21 then
    ⟨negative,d ++ List.replicate (n - d.length).toNat '0',[],none⟩
  else if 0 < n ∧ n ≤ 21 then ⟨negative,d.take n.toNat,d.drop n.toNat,none⟩
  else if -6 < n ∧ n ≤ 0 then ⟨negative,['0'],List.replicate (-n).toNat '0' ++ d,none⟩
  else ⟨negative,d.take 1,d.drop 1,some (decide (n - 1 < 0),digitsOf (n - 1).natAbs)⟩

def literalOf (x : Double) : Literal :=
  if x.1 = 0 then ⟨false,['0'],[],none⟩
  else
    let digits := digitsOf (shortest |x.1|).1
    layout (x.1 < 0) digits ((shortest |x.1|).2 + digits.length)

/-- `String(x)`. -/
def numberText (x : Double) : List Char := (literalOf x).text

/-! ## The value of a printed number -/

theorem digitValue_digitChar {d : ℕ} (h : d < 10) : digitValue (Nat.digitChar d) = d := by
  interval_cases d <;> rfl

theorem decimal_digitsOf (n : ℕ) : decimal (digitsOf n) = n := by
  have hdigits : ∀ ds : List ℕ, (∀ d ∈ ds, d < 10) →
      decimal (ds.reverse.map Nat.digitChar) = Nat.ofDigits 10 ds := by
    intro ds hds
    induction ds with
    | nil => rfl
    | cons d ds ih =>
        have hone : decimal [Nat.digitChar d] = d := by
          simpa [decimal] using digitValue_digitChar (hds d List.mem_cons_self)
        rw [List.reverse_cons,List.map_append,List.map_singleton,decimal_append,hone,
          ih fun c hc => hds c (List.mem_cons_of_mem d hc),Nat.ofDigits_cons]
        simp only [List.length_singleton,pow_one]
        ring
  unfold digitsOf
  rw [hdigits _ fun d hd => Nat.digits_lt_base (by norm_num) hd,Nat.ofDigits_digits]

theorem decimal_replicate (k : ℕ) : decimal (List.replicate k '0') = 0 := by
  induction k with
  | zero => rfl
  | succ k ih =>
      rw [List.replicate_succ',decimal_append,ih]
      rfl

theorem layout_magnitude (negative : Bool) {d : List Char} (hd : d ≠ []) (n : ℤ) :
    (layout negative d n).magnitude = decimal d * 10 ^ (n - d.length) := by
  have hlength : 0 < d.length := List.length_pos_of_ne_nil hd
  unfold layout
  split
  · rename_i h
    simp only [Literal.magnitude,Literal.exponentValue,List.append_nil,List.length_nil]
    rw [decimal_append,decimal_replicate,List.length_replicate]
    push_cast
    rw [← zpow_natCast,Int.toNat_of_nonneg (by omega)]
    simp
  · split
    · simp only [Literal.magnitude,Literal.exponentValue,List.take_append_drop,List.length_drop]
      congr 2
      omega
    · split
      · simp only [Literal.magnitude,Literal.exponentValue]
        rw [decimal_append,decimal_append,decimal_replicate]
        simp only [List.length_append,List.length_replicate]
        have hzero : decimal ['0'] = 0 := rfl
        rw [hzero,Nat.zero_mul,Nat.zero_mul,Nat.zero_add,Nat.zero_add]
        congr 2
        omega
      · simp only [Literal.magnitude,Literal.exponentValue,List.take_append_drop,List.length_drop,
          decimal_digitsOf,decide_eq_true_eq]
        congr 2
        split <;> omega

/-- A finite number is a whole multiple of the smallest positive one. -/
theorem exists_multiple {x : ℚ} (h : toDouble x = some x) :
    ∃ z : ℤ, x / 10 ^ (-1074 : ℤ) = z := by
  unfold toDouble at h
  split at h
  · rename_i hzero
    exact ⟨0,by simp [hzero]⟩
  · dsimp only at h
    split at h
    · have hx := Option.some.inj h
      have hexp : (0 : ℤ) ≤ max (floorLog2 x) (-1022) - 52 + 1074 := by omega
      refine ⟨roundHalfEven (x / 2 ^ (max (floorLog2 x) (-1022) - 52)) *
        2 ^ (max (floorLog2 x) (-1022) - 52 + 1074).toNat * 5 ^ 1074,?_⟩
      have hpow : (2 : ℚ) ^ (max (floorLog2 x) (-1022) - 52) * 2 ^ (1074 : ℕ) =
          2 ^ (max (floorLog2 x) (-1022) - 52 + 1074).toNat := by
        rw [← zpow_natCast,← zpow_natCast,← zpow_add₀ (by norm_num),Int.toNat_of_nonneg hexp]
        rfl
      have hten : (10 : ℚ) ^ (-1074 : ℤ) = (2 ^ 1074 * 5 ^ 1074)⁻¹ := by
        rw [← mul_pow,zpow_neg]
        norm_num
      rw [hten,div_inv_eq_mul]
      conv_lhs => rw [← hx]
      rw [Int.cast_mul,Int.cast_mul,Int.cast_pow,Int.cast_pow,Int.cast_ofNat,Int.cast_ofNat,← hpow]
      simp only [mul_assoc]
    · cases h

theorem digitsAt_spec {x : ℚ} {e : ℤ} {r : ℕ × ℤ} (h : digitsAt x e = some r) :
    toDouble ((r.1 : ℚ) * 10 ^ r.2) = some x := by
  unfold digitsAt at h
  rcases Option.map_eq_some_iff.mp h with ⟨s,hs,rfl⟩
  have htest := List.find?_some hs
  exact of_decide_eq_true htest

/-- At the last place of the exact decimal the search succeeds. -/
theorem digitsAt_isSome {x : ℚ} (hpos : 0 ≤ x) (h : toDouble x = some x) :
    (digitsAt x (-1074)).isSome := by
  rcases exists_multiple h with ⟨z,hz⟩
  have hten : (0 : ℚ) < 10 ^ (-1074 : ℤ) := zpow_pos (by norm_num) _
  have hnonneg : 0 ≤ z := by
    have hq : (0 : ℚ) ≤ z := hz ▸ div_nonneg hpos hten.le
    exact_mod_cast hq
  have hexact : ((⌊x / 10 ^ (-1074 : ℤ)⌋.toNat : ℕ) : ℚ) * 10 ^ (-1074 : ℤ) = x := by
    have hcast : ((z.toNat : ℕ) : ℚ) = z := by
      exact_mod_cast Int.toNat_of_nonneg hnonneg
    rw [hz,Int.floor_intCast,hcast,← hz,div_mul_cancel₀ _ hten.ne']
  have hmem : ⌊x / 10 ^ (-1074 : ℤ)⌋.toNat ∈ candidates x (-1074) := by
    unfold candidates
    dsimp only
    split <;> simp
  unfold digitsAt
  rw [Option.isSome_map,List.find?_isSome]
  refine ⟨_,hmem,decide_eq_true ?_⟩
  rw [hexact]
  exact h

theorem shortest_spec {x : ℚ} (hpos : 0 ≤ x) (h : toDouble x = some x) :
    toDouble ((shortest x).1 * 10 ^ (shortest x).2) = some x := by
  have hsome : ((List.range 1384).findSome? fun j : ℕ => digitsAt x (309 - j)).isSome := by
    rw [List.findSome?_isSome_iff]
    exact ⟨1383,List.mem_range.mpr (by norm_num),digitsAt_isSome hpos h⟩
  rcases Option.isSome_iff_exists.mp hsome with ⟨r,hr⟩
  rcases List.exists_of_findSome?_eq_some hr with ⟨j,-,hj⟩
  unfold shortest
  rw [hr]
  exact digitsAt_spec hj

theorem literalOf_number (x : Double) : (literalOf x).number = .finite x.1 := by
  unfold literalOf
  split
  · rename_i hzero
    have hmagnitude : (⟨false,['0'],[],none⟩ : Literal).magnitude = 0 := by
      simp [Literal.magnitude,decimal,digitValue]
    rw [hzero,Literal.number,hmagnitude]
    rfl
  · rename_i hne
    have hspec := shortest_spec (abs_nonneg x.1) x.2
    have hdigits : digitsOf (shortest |x.1|).1 ≠ [] := by
      intro hnil
      have hzero : (shortest |x.1|).1 = 0 := by
        rw [← decimal_digitsOf (shortest |x.1|).1,hnil]
        rfl
      rw [hzero] at hspec
      simp only [Nat.cast_zero,zero_mul,toDouble,if_true] at hspec
      exact hne (abs_eq_zero.mp (Option.some.inj hspec).symm)
    dsimp only
    unfold Literal.number
    rw [layout_magnitude _ hdigits,decimal_digitsOf,add_sub_cancel_right,hspec]
    have hsign : ∀ b d n, (layout b d n).negative = b := by
      intro b d n
      unfold layout
      split_ifs <;> rfl
    simp only [hsign,decide_eq_true_eq]
    split
    · rename_i hneg
      rw [abs_of_neg hneg,neg_neg]
    · rename_i hnonneg
      rw [abs_of_nonneg (not_lt.mp hnonneg)]

/-! ## Reading -/

/-- A run of digits at the front, if there is one. -/
def parseDigits (cs : List Char) : Option (List Char × List Char) :=
  if cs.takeWhile isDigit = [] then none
  else some (cs.takeWhile isDigit,cs.dropWhile isDigit)

/-- A zero stands alone. -/
def parseWhole : List Char → Option (List Char × List Char)
  | '0' :: rest => some (['0'],rest)
  | cs => parseDigits cs

def parseFraction : List Char → Option (List Char × List Char)
  | '.' :: rest => parseDigits rest
  | cs => some ([],cs)

def parseExponentDigits (negative : Bool) (cs : List Char) :
    Option (Option (Bool × List Char) × List Char) :=
  (parseDigits cs).map fun r => (some (negative,r.1),r.2)

def parseExponent : List Char → Option (Option (Bool × List Char) × List Char)
  | c :: rest =>
      if c = 'e' ∨ c = 'E' then
        match rest with
        | '-' :: rest => parseExponentDigits true rest
        | '+' :: rest => parseExponentDigits false rest
        | rest => parseExponentDigits false rest
      else some (none,c :: rest)
  | [] => some (none,[])

def parseMagnitude (negative : Bool) (cs : List Char) : Option (Literal × List Char) := do
  let (whole,cs) ← parseWhole cs
  let (fraction,cs) ← parseFraction cs
  let (exponent,cs) ← parseExponent cs
  return (⟨negative,whole,fraction,exponent⟩,cs)

/-- A JSON number at the front of a text. -/
def parseLiteral : List Char → Option (Literal × List Char)
  | '-' :: cs => parseMagnitude true cs
  | cs => parseMagnitude false cs

def hexDigit (c : Char) : Option ℕ :=
  if isDigit c then some (c.toNat - 48)
  else if 'a'.toNat ≤ c.toNat ∧ c.toNat ≤ 'f'.toNat then some (c.toNat - 87)
  else if 'A'.toNat ≤ c.toNat ∧ c.toNat ≤ 'F'.toNat then some (c.toNat - 55)
  else none

/-- Digits behind a radix prefix. -/
def radixNumber (radix : ℕ) (cs : List Char) : Number :=
  let digits := cs.filterMap hexDigit
  if cs = [] ∨ digits.length ≠ cs.length ∨ ¬ digits.all (· < radix) then .nan
  else
    match toDouble (digits.foldl (fun n d => radix * n + d) 0 : ℕ) with
    | some x => .finite x
    | none => .infinite false

/-- A decimal may lack the digits on one side of its point. -/
def unsignedNumber (negative : Bool) (cs : List Char) : Number :=
  let whole := cs.takeWhile isDigit
  let rest := cs.dropWhile isDigit
  let (fraction,rest) := match rest with
    | '.' :: rest => (rest.takeWhile isDigit,rest.dropWhile isDigit)
    | rest => ([],rest)
  if cs = "Infinity".toList then .infinite negative
  else if whole = [] ∧ fraction = [] then .nan
  else
    match parseExponent rest with
    | some (exponent,[]) => Literal.number ⟨negative,whole,fraction,exponent⟩
    | _ => .nan

/-- `Number(text)`. -/
def stringToNumber (cs : List Char) : Number :=
  match trimChars cs with
  | [] => .finite 0
  | '0' :: 'x' :: digits => radixNumber 16 digits
  | '0' :: 'X' :: digits => radixNumber 16 digits
  | '0' :: 'o' :: digits => radixNumber 8 digits
  | '0' :: 'O' :: digits => radixNumber 8 digits
  | '0' :: 'b' :: digits => radixNumber 2 digits
  | '0' :: 'B' :: digits => radixNumber 2 digits
  | '-' :: cs => unsignedNumber true cs
  | '+' :: cs => unsignedNumber false cs
  | cs => unsignedNumber false cs

/-- A number that is finite. -/
def finiteNumber : Number → Option Double
  | .finite q => if h : toDouble |q| = some |q| then some ⟨q,h⟩ else none
  | _ => none

/-- What the grammar asks of the parts of a literal. -/
structure Literal.WellFormed (l : Literal) : Prop where
  whole : l.whole.all isDigit = true
  zero : l.whole = ['0'] ∨ ∃ c rest, l.whole = c :: rest ∧ c ≠ '0'
  fraction : l.fraction.all isDigit = true
  exponent : ∀ negative digits, l.exponent = some (negative,digits) →
    digits ≠ [] ∧ digits.all isDigit = true

/-- A text that does not carry a number on. -/
def Stops (rest : List Char) : Prop :=
  ∀ c ∈ rest.head?, isDigit c = false ∧ c ≠ '.' ∧ c ≠ 'e' ∧ c ≠ 'E'

theorem parseDigits_append {ds rest : List Char} (hne : ds ≠ []) (hds : ds.all isDigit = true)
    (hrest : ∀ c ∈ rest.head?, isDigit c = false) : parseDigits (ds ++ rest) = some (ds,rest) := by
  have hpos : ∀ c ∈ ds, isDigit c = true := List.all_eq_true.mp hds
  have htake : rest.takeWhile isDigit = [] := by
    cases rest with
    | nil => rfl
    | cons c rest => rw [List.takeWhile_cons_of_neg (by simp [hrest c rfl])]
  have hdrop : rest.dropWhile isDigit = rest := by
    cases rest with
    | nil => rfl
    | cons c rest => rw [List.dropWhile_cons_of_neg (by simp [hrest c rfl])]
  unfold parseDigits
  rw [List.takeWhile_append_of_pos hpos,List.dropWhile_append_of_pos hpos,htake,hdrop,
    List.append_nil,if_neg hne]

theorem parseExponent_append {exponent : Option (Bool × List Char)} {rest : List Char}
    (h : ∀ negative digits, exponent = some (negative,digits) →
      digits ≠ [] ∧ digits.all isDigit = true) (hrest : Stops rest) :
    parseExponent (Literal.exponentText exponent ++ rest) = some (exponent,rest) := by
  cases exponent with
  | none =>
      cases rest with
      | nil => rfl
      | cons c rest =>
          have hc := hrest c rfl
          simp [Literal.exponentText,parseExponent,hc.2.2.1,hc.2.2.2]
  | some e =>
      obtain ⟨negative,digits⟩ := e
      have hdigits := h negative digits rfl
      have hparse := parseDigits_append hdigits.1 hdigits.2 fun c hc => (hrest c hc).1
      cases negative <;>
        simp [Literal.exponentText,parseExponent,parseExponentDigits,hparse]

theorem head_exponentText {exponent : Option (Bool × List Char)} {rest : List Char}
    (hrest : Stops rest) : ∀ c ∈ (Literal.exponentText exponent ++ rest).head?,
      isDigit c = false ∧ c ≠ '.' := by
  intro c hc
  cases exponent with
  | none => exact ⟨(hrest c hc).1,(hrest c hc).2.1⟩
  | some e =>
      have hce : c = 'e' := (Option.some.inj hc).symm
      rw [hce]
      decide

theorem parseFraction_append {fraction after : List Char} (h : fraction.all isDigit = true)
    (hafter : ∀ c ∈ after.head?, isDigit c = false ∧ c ≠ '.') :
    parseFraction ((if fraction = [] then [] else '.' :: fraction) ++ after) =
      some (fraction,after) := by
  by_cases hne : fraction = []
  · rw [if_pos hne,hne,List.nil_append]
    cases after with
    | nil => rfl
    | cons c after =>
        have hc := (hafter c rfl).2
        unfold parseFraction
        split
        · rename_i heq
          exact absurd (List.cons.inj heq).1 hc
        · rfl
  · rw [if_neg hne]
    exact parseDigits_append hne h fun c hc => (hafter c hc).1

theorem head_fraction (fraction : List Char) {after : List Char}
    (hafter : ∀ c ∈ after.head?, isDigit c = false ∧ c ≠ '.') :
    ∀ c ∈ ((if fraction = [] then [] else '.' :: fraction) ++ after).head?,
      isDigit c = false := by
  intro c hc
  split at hc
  · exact (hafter c hc).1
  · have hdot : c = '.' := (Option.some.inj hc).symm
    rw [hdot]
    decide

theorem parseWhole_append {whole after : List Char} (h : whole.all isDigit = true)
    (hzero : whole = ['0'] ∨ ∃ c rest, whole = c :: rest ∧ c ≠ '0')
    (hafter : ∀ c ∈ after.head?, isDigit c = false) :
    parseWhole (whole ++ after) = some (whole,after) := by
  rcases hzero with rfl | ⟨c,rest,rfl,hc⟩
  · rfl
  · have hparse := parseDigits_append (List.cons_ne_nil c rest) h hafter
    rw [List.cons_append] at hparse ⊢
    unfold parseWhole
    split
    · rename_i heq
      exact absurd (List.cons.inj heq).1 hc
    · exact hparse

/-- What is printed is read back, up to where the number stops. -/
theorem parseLiteral_text {l : Literal} (h : l.WellFormed) {rest : List Char} (hrest : Stops rest) :
    parseLiteral (l.text ++ rest) = some (l,rest) := by
  have hexponent := parseExponent_append h.exponent hrest
  have hheadE : ∀ c ∈ (Literal.exponentText l.exponent ++ rest).head?,
      isDigit c = false ∧ c ≠ '.' := head_exponentText hrest
  have hfraction := parseFraction_append h.fraction hheadE
  have hwhole := parseWhole_append h.whole h.zero (head_fraction l.fraction hheadE)
  have hmagnitude : ∀ negative, parseMagnitude negative (l.whole ++
      ((if l.fraction = [] then [] else '.' :: l.fraction) ++
        (Literal.exponentText l.exponent ++ rest))) =
      some (⟨negative,l.whole,l.fraction,l.exponent⟩,rest) := by
    intro negative
    simp only [parseMagnitude,hwhole,hfraction,hexponent,bind,pure,Option.bind]
  have hdigit : ∀ c rest, l.whole = c :: rest → c ≠ '-' := by
    rintro c rest hcons rfl
    have hall := h.whole
    rw [hcons] at hall
    cases hall
  unfold Literal.text
  simp only [List.append_assoc]
  cases hneg : l.negative with
  | true =>
      have hl : l = ⟨true,l.whole,l.fraction,l.exponent⟩ := by rw [← hneg]
      rw [if_pos rfl]
      conv_rhs => rw [hl]
      exact hmagnitude true
  | false =>
      have hl : l = ⟨false,l.whole,l.fraction,l.exponent⟩ := by rw [← hneg]
      rw [if_neg Bool.false_ne_true,List.nil_append]
      conv_rhs => rw [hl]
      rw [← hmagnitude false]
      rcases h.zero with hzero | ⟨c,tail,hcons,-⟩
      · rw [hzero]
        rfl
      · rw [hcons,List.cons_append]
        unfold parseLiteral
        split
        · rename_i heq
          exact absurd (List.cons.inj heq).1 (hdigit c tail hcons)
        · rfl

theorem isDigit_digitChar {d : ℕ} (h : d < 10) : isDigit (Nat.digitChar d) = true := by
  interval_cases d <;> rfl

theorem all_digitsOf (n : ℕ) : (digitsOf n).all isDigit = true := by
  rw [List.all_eq_true]
  intro c hc
  rcases List.mem_map.mp hc with ⟨d,hd,rfl⟩
  exact isDigit_digitChar (Nat.digits_lt_base (by norm_num) (List.mem_reverse.mp hd))

theorem digitsOf_eq_cons {n : ℕ} (h : n ≠ 0) : ∃ c rest, digitsOf n = c :: rest ∧ c ≠ '0' := by
  have hne : Nat.digits 10 n ≠ [] := Nat.digits_ne_nil_iff_ne_zero.mpr h
  have hlast := Nat.getLast_digit_ne_zero 10 h
  have hlt : (Nat.digits 10 n).getLast hne < 10 :=
    Nat.digits_lt_base (by norm_num) (List.getLast_mem hne)
  refine ⟨Nat.digitChar ((Nat.digits 10 n).getLast hne),
    ((Nat.digits 10 n).dropLast.reverse).map Nat.digitChar,?_,?_⟩
  · unfold digitsOf
    conv_lhs => rw [← List.dropLast_concat_getLast hne]
    rw [List.reverse_append,List.map_append]
    rfl
  · intro hzero
    apply hlast
    have hvalue := digitValue_digitChar hlt
    rw [hzero] at hvalue
    exact hvalue.symm

theorem all_zeros (k : ℕ) : (List.replicate k '0').all isDigit = true := by
  rw [List.all_eq_true]
  intro c hc
  rw [List.eq_of_mem_replicate hc]
  rfl

theorem layout_wellFormed (negative : Bool) {s : ℕ} (hs : s ≠ 0) (n : ℤ) :
    (layout negative (digitsOf s) n).WellFormed := by
  have hall := all_digitsOf s
  rcases digitsOf_eq_cons hs with ⟨c,rest,hcons,hc⟩
  have hlength : 0 < (digitsOf s).length := by
    rw [hcons]
    exact Nat.succ_pos _
  have hdrop : ∀ k, ((digitsOf s).drop k).all isDigit = true := by
    intro k
    rw [List.all_eq_true] at hall ⊢
    exact fun x hx => hall x (List.mem_of_mem_drop hx)
  have htake : ∀ k, ((digitsOf s).take k).all isDigit = true := by
    intro k
    rw [List.all_eq_true] at hall ⊢
    exact fun x hx => hall x (List.mem_of_mem_take hx)
  have hfirst : ∀ k, 0 < k → ∃ rest, (digitsOf s).take k = c :: rest := by
    intro k hk
    rw [hcons]
    cases k with
    | zero => exact absurd hk (Nat.lt_irrefl 0)
    | succ k => exact ⟨rest.take k,rfl⟩
  unfold layout
  split
  · refine ⟨?_,.inr ⟨c,_,by rw [hcons]; rfl,hc⟩,rfl,fun _ _ h => nomatch h⟩
    rw [List.all_append,hall,all_zeros]
    rfl
  · split
    · rename_i h
      rcases hfirst n.toNat (by omega) with ⟨tail,htail⟩
      exact ⟨htake _,.inr ⟨c,tail,htail,hc⟩,hdrop _,fun _ _ h => nomatch h⟩
    · split
      · refine ⟨rfl,.inl rfl,?_,fun _ _ h => nomatch h⟩
        rw [List.all_append,hall,all_zeros]
        rfl
      · rcases hfirst 1 Nat.one_pos with ⟨tail,htail⟩
        refine ⟨htake _,.inr ⟨c,tail,htail,hc⟩,hdrop _,?_⟩
        intro sign digits hexponent
        have hdigits : digitsOf (n - 1).natAbs = digits := by
          exact congrArg Prod.snd (Option.some.inj hexponent)
        rw [← hdigits]
        have hne : (n - 1).natAbs ≠ 0 := by omega
        rcases digitsOf_eq_cons hne with ⟨d,tail,hd,-⟩
        exact ⟨by rw [hd]; exact List.cons_ne_nil _ _,all_digitsOf _⟩

theorem literalOf_wellFormed (x : Double) : (literalOf x).WellFormed := by
  unfold literalOf
  split
  · exact ⟨rfl,.inl rfl,rfl,fun _ _ h => nomatch h⟩
  · rename_i hne
    refine layout_wellFormed _ ?_ _
    intro hzero
    have hspec := shortest_spec (abs_nonneg x.1) x.2
    rw [hzero] at hspec
    simp only [Nat.cast_zero,zero_mul,toDouble,if_true] at hspec
    exact hne (abs_eq_zero.mp (Option.some.inj hspec).symm)

/-- A printed number is read back as the literal that was printed. -/
theorem parseLiteral_numberText (x : Double) {rest : List Char} (hrest : Stops rest) :
    parseLiteral (numberText x ++ rest) = some (literalOf x,rest) :=
  parseLiteral_text (literalOf_wellFormed x) hrest

end Creditra.NumberText
