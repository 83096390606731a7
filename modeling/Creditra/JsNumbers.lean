import Mathlib.Data.Rat.Floor
import Mathlib.Algebra.Order.Field.Rat
import Mathlib.Tactic.Ring

/-!
# Number arithmetic of the language runtime

A number is the exact rational it denotes. `toDouble` rounds a non-negative
rational to the nearest binary64 value, ties to even; a value that rounds
beyond the largest finite one has no rational and is absent. `Number(text)` on
a decimal text is the rounding of the decimal, and a product is the rounding of
the exact product.
-/
namespace Creditra.JsNumbers

/-- The largest `e` with `2 ^ e ≤ q`, for positive `q`. -/
def floorLog2 (q : ℚ) : ℤ :=
  let e : ℤ := (Nat.log2 q.num.toNat : ℤ) - Nat.log2 q.den
  if (2 : ℚ) ^ e ≤ q then e else e - 1

def roundHalfEven (q : ℚ) : ℤ :=
  let below := ⌊q⌋
  if q - below < 1 / 2 then below
  else if q - below > 1 / 2 then below + 1
  else if below % 2 = 0 then below else below + 1

/-- Subnormal values share the smallest exponent. -/
def toDouble (q : ℚ) : Option ℚ :=
  if q = 0 then some 0
  else
    let ulp : ℚ := 2 ^ (max (floorLog2 q) (-1022) - 52)
    let rounded := roundHalfEven (q / ulp) * ulp
    if rounded < 2 ^ (1024 : ℕ) then some rounded else none

theorem floorLog2_natCast {n : ℕ} (hn : n ≠ 0) : floorLog2 n = Nat.log2 n := by
  have hle : (2 : ℚ) ^ (Nat.log2 n : ℤ) ≤ n := by
    rw [zpow_natCast]
    exact_mod_cast Nat.log2_self_le hn
  have hone : Nat.log2 1 = 0 := by decide
  unfold floorLog2
  simp only [Rat.num_natCast,Rat.den_natCast,Int.toNat_natCast,hone,Nat.cast_zero,sub_zero]
  rw [if_pos hle]

theorem roundHalfEven_intCast (z : ℤ) : roundHalfEven z = z := by
  unfold roundHalfEven
  simp

/-- Whole numbers below `2 ^ 53` are values of the type. -/
theorem toDouble_natCast {n : ℕ} (hn : n < 2 ^ 53) : toDouble n = some (n : ℚ) := by
  unfold toDouble
  split
  · rename_i hzero
    rw [hzero]
  · rename_i hne
    have hpos : n ≠ 0 := by exact_mod_cast hne
    have hlog : Nat.log2 n < 53 := (Nat.log2_lt hpos).mpr hn
    have hexp : max (floorLog2 n) (-1022) - 52 = -((52 - Nat.log2 n : ℕ) : ℤ) := by
      rw [floorLog2_natCast hpos]
      omega
    have hquot : (n : ℚ) / 2 ^ (-((52 - Nat.log2 n : ℕ) : ℤ)) =
        ((n * 2 ^ (52 - Nat.log2 n) : ℤ) : ℚ) := by
      rw [zpow_neg,zpow_natCast,div_inv_eq_mul]
      push_cast
      rfl
    have hback : ((n * 2 ^ (52 - Nat.log2 n) : ℤ) : ℚ) * 2 ^ (-((52 - Nat.log2 n : ℕ) : ℤ)) =
        n := by
      rw [← hquot]
      exact div_mul_cancel₀ _ (zpow_ne_zero _ two_ne_zero)
    have hlarge : (n : ℚ) < 2 ^ (1024 : ℕ) := by
      have hlt : (n : ℚ) < 2 ^ 53 := by exact_mod_cast hn
      exact lt_of_lt_of_le hlt (pow_le_pow_right₀ one_le_two (by omega))
    dsimp only
    rw [hexp,hquot,roundHalfEven_intCast,hback,if_pos hlarge]

/-- Any value of the number type; a zero has one sign. -/
inductive Number where
  | finite (q : ℚ)
  | infinite (negative : Bool)
  | nan
  deriving DecidableEq

/-- `x === y`: not-a-number equals nothing, itself included. -/
def Number.strictEquals : Number → Number → Bool
  | .nan, _ => false
  | x, y => x = y

/-- The finite numbers are the rationals that rounding leaves as they are. -/
abbrev Double : Type := { q : ℚ // toDouble |q| = some |q| }

def isDigit (c : Char) : Bool := '0'.toNat ≤ c.toNat ∧ c.toNat ≤ '9'.toNat

def digitValue (c : Char) : ℕ := c.toNat - '0'.toNat

/-- The number a run of decimal digits denotes. -/
def decimal (digits : List Char) : ℕ := digits.foldl (fun n c => 10 * n + digitValue c) 0

theorem foldl_decimal (cs : List Char) (n : ℕ) :
    cs.foldl (fun n c => 10 * n + digitValue c) n = n * 10 ^ cs.length + decimal cs := by
  induction cs generalizing n with
  | nil => simp [decimal]
  | cons c cs ih =>
      unfold decimal
      rw [List.foldl_cons,List.foldl_cons,ih,ih (10 * 0 + digitValue c),List.length_cons,pow_succ]
      ring

theorem decimal_append (xs ys : List Char) :
    decimal (xs ++ ys) = decimal xs * 10 ^ ys.length + decimal ys := by
  unfold decimal
  rw [List.foldl_append,foldl_decimal,decimal]

/-- `Number(text)` for a text of the form `\d+(\.\d+)?`; absent when infinite. -/
def numberOfDecimal (whole fraction : List Char) : Option ℚ :=
  toDouble (decimal whole + decimal fraction / 10 ^ fraction.length)

end Creditra.JsNumbers
