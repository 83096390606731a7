import Creditra.FloatNumbers
import Mathlib.Tactic.Linarith

/-!
# Exact arithmetic on the runtime's numbers

Numbers that are never rounded, with the infinities and not-a-number of the
runtime. Texts are read as `Number` and `parseFloat` read them; rounding what is
read exactly gives what the two functions give.
-/
namespace Creditra.JsNumbers.Number

def neg : Number → Number
  | .finite x => .finite (-x)
  | .infinite negative => .infinite (! negative)
  | .nan => .nan

def add : Number → Number → Number
  | .finite x, .finite y => .finite (x + y)
  | .infinite n, .infinite m => if n = m then .infinite n else .nan
  | .infinite n, .finite _ => .infinite n
  | .finite _, .infinite n => .infinite n
  | _, _ => .nan

def sub (x y : Number) : Number := add x (neg y)

def negative : Number → Bool
  | .finite x => x < 0
  | .infinite negative => negative
  | .nan => false

def isZero : Number → Bool
  | .finite x => x = 0
  | _ => false

def isFinite : Number → Bool
  | .finite _ => true
  | _ => false

def mul : Number → Number → Number
  | .finite x, .finite y => .finite (x * y)
  | .nan, _ => .nan
  | _, .nan => .nan
  | x, y => if isZero x || isZero y then .nan else .infinite (negative x != negative y)

/-- A zero divisor counts as the positive one. -/
def div : Number → Number → Number
  | .finite x, .finite y =>
      if y = 0 then (if x = 0 then .nan else .infinite (x < 0)) else .finite (x / y)
  | .infinite n, .finite y => .infinite (n != decide (y < 0))
  | .finite _, .infinite _ => .finite 0
  | _, _ => .nan

/-- `x < y`, false whenever a side is not a number. -/
def lt : Number → Number → Bool
  | .finite x, .finite y => x < y
  | .infinite n, .infinite m => n && ! m
  | .infinite n, .finite _ => n
  | .finite _, .infinite m => ! m
  | _, _ => false

/-- `x <= y`. -/
def le : Number → Number → Bool
  | .finite x, .finite y => x ≤ y
  | .infinite n, .infinite m => n || ! m
  | .infinite n, .finite _ => n
  | .finite _, .infinite m => ! m
  | _, _ => false

/-- `Math.max(x, y)`. -/
def max : Number → Number → Number
  | .nan, _ => .nan
  | _, .nan => .nan
  | x, y => if le x y then y else x

/-- `Math.min(x, y)`. -/
def min : Number → Number → Number
  | .nan, _ => .nan
  | _, .nan => .nan
  | x, y => if le x y then x else y

/-- `Math.ceil(x)`. -/
def ceil : Number → Number
  | .finite x => .finite ⌈x⌉
  | v => v

/-- The number as the runtime holds it. -/
def rounded : Number → FloatNumbers.Value
  | .finite x => .round x
  | .infinite n => .infinite n
  | .nan => .nan

theorem strictEquals_iff {x y : Number} : x.strictEquals y = true ↔ x ≠ .nan ∧ x = y := by
  cases x <;> simp [strictEquals]

end Creditra.JsNumbers.Number

namespace Creditra.ExactNumbers
open FloatNumbers JsNumbers JsStrings NumberText

/-! ## Texts -/

/-- Digits behind a radix prefix. -/
def exactRadix (radix : ℕ) (cs : List Char) : Number :=
  let digits := cs.filterMap hexDigit
  if cs = [] ∨ digits.length ≠ cs.length ∨ ¬ digits.all (· < radix) then .nan
  else .finite (digits.foldl (fun n d => radix * n + d) 0 : ℕ)

/-- A decimal may lack the digits on one side of its point. -/
def exactUnsigned (negative : Bool) (cs : List Char) : Number :=
  let whole := cs.takeWhile isDigit
  let (fraction,rest) := fractionAtFront (cs.dropWhile isDigit)
  if cs = "Infinity".toList then .infinite negative
  else if whole = [] ∧ fraction = [] then .nan
  else
    match parseExponent rest with
    | some (exponent,[]) => .finite (exactValue ⟨negative,whole,fraction,exponent⟩)
    | _ => .nan

/-- `Number(text)`, not rounded. -/
def exactNumber (text : String) : Number :=
  match trimChars text.toList with
  | [] => .finite 0
  | '0' :: 'x' :: digits => exactRadix 16 digits
  | '0' :: 'X' :: digits => exactRadix 16 digits
  | '0' :: 'o' :: digits => exactRadix 8 digits
  | '0' :: 'O' :: digits => exactRadix 8 digits
  | '0' :: 'b' :: digits => exactRadix 2 digits
  | '0' :: 'B' :: digits => exactRadix 2 digits
  | '-' :: cs => exactUnsigned true cs
  | '+' :: cs => exactUnsigned false cs
  | cs => exactUnsigned false cs

/-- `parseFloat(text)`, not rounded. -/
def exactFloat (text : String) : Number :=
  let (negative,cs) := signed (text.toList.dropWhile isWhiteSpace)
  if "Infinity".toList.isPrefixOf cs then .infinite negative
  else match decimalAtFront negative cs with
    | some l => .finite (exactValue l)
    | none => .nan

theorem parseFloat_eq (text : String) : parseFloat text = (exactFloat text).rounded := by
  unfold parseFloat exactFloat
  dsimp only
  split
  · rfl
  · cases decimalAtFront (signed (text.toList.dropWhile isWhiteSpace)).1
      (signed (text.toList.dropWhile isWhiteSpace)).2 with
    | none => rfl
    | some l => rfl

/-- What rounding leaves of a number, as the readers of texts give it. -/
def held : Number → Number
  | .finite x =>
      match toDouble |x| with
      | some r => .finite (if x < 0 then -r else r)
      | none => .infinite (x < 0)
  | v => v

theorem held_finite (x : ℚ) : held (.finite x) =
    match toDouble |x| with
    | some r => .finite (if x < 0 then -r else r)
    | none => .infinite (x < 0) := rfl

theorem held_natCast (n : ℕ) : held (.finite n) =
    match toDouble n with
    | some r => .finite r
    | none => .infinite false := by
  have hnonneg : ¬ (n : ℚ) < 0 := not_lt.mpr (Nat.cast_nonneg n)
  rw [held_finite]
  simp only [abs_of_nonneg (Nat.cast_nonneg (α := ℚ) n),hnonneg,if_false,decide_false]

theorem radixNumber_eq (radix : ℕ) (cs : List Char) :
    radixNumber radix cs = held (exactRadix radix cs) := by
  unfold radixNumber exactRadix
  dsimp only
  split
  · rfl
  · exact (held_natCast _).symm

theorem number_eq (l : Literal) : l.number = held (.finite (exactValue l)) := by
  have hnonneg := magnitude_nonneg l
  unfold Literal.number
  rw [held_finite,abs_exactValue]
  by_cases hzero : l.magnitude = 0
  · have hexact : exactValue l = 0 := abs_eq_zero.mp ((abs_exactValue l).trans hzero)
    have hdouble : toDouble l.magnitude = some 0 := by
      rw [hzero]
      rfl
    simp [hdouble,hexact]
  · have hpos : 0 < l.magnitude := lt_of_le_of_ne hnonneg (Ne.symm hzero)
    have hsign : exactValue l < 0 ↔ l.negative = true := by
      unfold exactValue
      cases l.negative with
      | false => simp [hnonneg]
      | true => simp [hpos]
    simp only [hsign]
    cases l.negative <;> rfl

theorem unsignedNumber_eq (negative : Bool) (cs : List Char) :
    unsignedNumber negative cs = held (exactUnsigned negative cs) := by
  have hparts : ∀ (whole fraction rest : List Char),
      (if cs = "Infinity".toList then Number.infinite negative
        else if whole = [] ∧ fraction = [] then .nan
        else
          match parseExponent rest with
          | some (exponent,[]) => Literal.number ⟨negative,whole,fraction,exponent⟩
          | _ => .nan) =
        held (if cs = "Infinity".toList then .infinite negative
          else if whole = [] ∧ fraction = [] then .nan
          else
            match parseExponent rest with
            | some (exponent,[]) => .finite (exactValue ⟨negative,whole,fraction,exponent⟩)
            | _ => .nan) := by
    intro whole fraction rest
    split_ifs
    · rfl
    · rfl
    · rcases parseExponent rest with _ | ⟨exponent,_ | ⟨c,rest⟩⟩
      · rfl
      · exact number_eq _
      · rfl
  have hfront : unsignedNumber negative cs =
      (if cs = "Infinity".toList then .infinite negative
        else if cs.takeWhile isDigit = [] ∧ (fractionAtFront (cs.dropWhile isDigit)).1 = [] then .nan
        else
          match parseExponent (fractionAtFront (cs.dropWhile isDigit)).2 with
          | some (exponent,[]) => Literal.number ⟨negative,cs.takeWhile isDigit,
              (fractionAtFront (cs.dropWhile isDigit)).1,exponent⟩
          | _ => .nan) := by
    unfold unsignedNumber fractionAtFront
    generalize cs.dropWhile isDigit = rest
    cases rest with
    | nil => rfl
    | cons c rest => split <;> rfl
  exact hfront.trans (hparts _ _ _)

/-- `Number(text)` is the exact reading, rounded. -/
theorem stringToNumber_eq (text : String) :
    stringToNumber text.toList = held (exactNumber text) := by
  unfold stringToNumber exactNumber
  generalize trimChars text.toList = cs
  split
  case h_1 => rfl
  case h_8 | h_9 => exact unsignedNumber_eq _ _
  case h_10 => simp_all only [unsignedNumber_eq]
  all_goals exact radixNumber_eq _ _

end Creditra.ExactNumbers
