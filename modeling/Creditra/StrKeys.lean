import Mathlib.Algebra.Order.Ring.Nat
import Mathlib.Data.List.Basic
import Mathlib.Tactic.Common
import Mathlib.Tactic.Ring

/-!
# Stellar's keys as text

A key of 32 bytes, with a version byte before it and a checksum behind, in base
32. The 35 bytes take 56 characters exactly; they are kept as one number.
-/
namespace Creditra.StrKeys

def alphabet : List Char := "ABCDEFGHIJKLMNOPQRSTUVWXYZ234567".toList

def digit (n : ℕ) : Char := alphabet.getD n 'A'

/-- The last `k` digits of a number. -/
def digits : ℕ → ℕ → List Char
  | 0, _ => []
  | k + 1, n => digits k (n / 32) ++ [digit (n % 32)]

def readDigit (n : ℕ) (c : Char) : Option ℕ := (alphabet.idxOf? c).map (32 * n + ·)

def value (cs : List Char) : Option ℕ := cs.foldlM readDigit 0

/-- One bit of the CRC-16 with the polynomial `0x1021`. -/
def crcBit (crc : ℕ) : ℕ :=
  if 2 ^ 15 ≤ crc then (crc <<< 1) % 2 ^ 16 ^^^ 0x1021 else crc <<< 1

def crcByte (crc byte : ℕ) : ℕ := crcBit^[8] (crc ^^^ byte <<< 8)

/-- The last `k` bytes of a number. -/
def bytes : ℕ → ℕ → List ℕ
  | 0, _ => []
  | k + 1, n => bytes k (n / 256) ++ [n % 256]

/-- The checksum of a version and a key, its low byte first. -/
def checksum (payload : ℕ) : ℕ :=
  let crc := (bytes 33 payload).foldl crcByte 0
  crc % 256 * 256 + crc / 256 % 256

def signed (payload : ℕ) : ℕ := payload * 2 ^ 16 + checksum payload

@[irreducible] def encode (version key : ℕ) : String :=
  String.ofList (digits 56 (signed (version * 2 ^ 256 + key)))

@[irreducible] def isValid (version : ℕ) (text : String) : Bool :=
  match value text.toList with
  | some n =>
      text.toList.length = 56 ∧ n / 2 ^ 16 / 2 ^ 256 = version ∧ n = signed (n / 2 ^ 16)
  | none => false

theorem checksum_lt (payload : ℕ) : checksum payload < 2 ^ 16 := by
  unfold checksum
  dsimp only
  omega

theorem readDigit_digit : ∀ m < 32, alphabet.idxOf? (digit m) = some m := by decide

@[simp] theorem length_digits (k n : ℕ) : (digits k n).length = k := by
  induction k generalizing n with
  | zero => rfl
  | succ k ih => rw [digits,List.length_append,ih,List.length_singleton]

theorem mem_digits {k n : ℕ} {c : Char} (h : c ∈ digits k n) : c ∈ alphabet := by
  induction k generalizing n with
  | zero => cases h
  | succ k ih =>
      rcases List.mem_append.mp h with h | h
      · exact ih h
      · rw [List.mem_singleton.mp h]
        have hdigit : ∀ m < 32, digit m ∈ alphabet := by decide
        exact hdigit _ (Nat.mod_lt n (by decide))

theorem value_digits {k n : ℕ} (h : n < 32 ^ k) : value (digits k n) = some n := by
  induction k generalizing n with
  | zero =>
      rw [Nat.lt_one_iff.mp h]
      rfl
  | succ k ih =>
      have hquotient : n / 32 < 32 ^ k := by
        rw [Nat.div_lt_iff_lt_mul (by decide)]
        rwa [pow_succ] at h
      have hrest := ih hquotient
      unfold value at hrest ⊢
      rw [digits,List.foldlM_append,hrest]
      simp only [Option.bind_eq_bind,Option.bind_some,List.foldlM_cons,List.foldlM_nil,readDigit,
        readDigit_digit _ (Nat.mod_lt n (by decide)),Option.map_some]
      exact congrArg some (Nat.div_add_mod n 32)

theorem isValid_iff {version n : ℕ} {text : String} (h : value text.toList = some n) :
    isValid version text = true ↔
      text.toList.length = 56 ∧ n / 2 ^ 16 / 2 ^ 256 = version ∧ n = signed (n / 2 ^ 16) := by
  unfold isValid
  rw [h]
  exact decide_eq_true_iff

theorem signed_div (payload : ℕ) : signed payload / 2 ^ 16 = payload := by
  have hsum := checksum_lt payload
  unfold signed
  omega

theorem signed_lt {payload : ℕ} (h : payload < 256 * 2 ^ 256) : signed payload < 32 ^ 56 := by
  have hsum := checksum_lt payload
  have hsize : (32 : ℕ) ^ 56 = 256 * 2 ^ 256 * 2 ^ 16 := by norm_num
  rw [hsize]
  unfold signed
  omega

section Encode
variable {version key : ℕ}

theorem payload_lt (hv : version < 256) (hk : key < 2 ^ 256) :
    version * 2 ^ 256 + key < 256 * 2 ^ 256 := by
  omega

theorem toList_encode (version key : ℕ) :
    (encode version key).toList = digits 56 (signed (version * 2 ^ 256 + key)) := by
  rw [encode,String.toList_ofList]

theorem value_encode (hv : version < 256) (hk : key < 2 ^ 256) :
    value (encode version key).toList = some (signed (version * 2 ^ 256 + key)) := by
  rw [toList_encode]
  exact value_digits (signed_lt (payload_lt hv hk))

theorem isValid_encode (hv : version < 256) (hk : key < 2 ^ 256) :
    isValid version (encode version key) = true := by
  have hlength : (encode version key).toList.length = 56 := by
    rw [toList_encode,length_digits]
  have hversion : (version * 2 ^ 256 + key) / 2 ^ 256 = version := by omega
  refine (isValid_iff (value_encode hv hk)).mpr ⟨hlength,?_,?_⟩
  · rw [signed_div,hversion]
  · rw [signed_div]

theorem encode_injective (hv : version < 256) {key' : ℕ} (hk : key < 2 ^ 256) (hk' : key' < 2 ^ 256)
    (h : encode version key = encode version key') : key = key' := by
  have hvalue := value_encode hv hk
  rw [h,value_encode hv hk',Option.some.injEq] at hvalue
  have hpayload := congrArg (· / 2 ^ 16) hvalue
  simp only [signed_div] at hpayload
  omega

end Encode

/-- The public key of 32 zero bytes. -/
example : encode 48 0 = "GAAAAAAAAAAAAAAAAAAAAAAAAAAAAAAAAAAAAAAAAAAAAAAAAAAAAWHF" := by
  decide +kernel

end Creditra.StrKeys
