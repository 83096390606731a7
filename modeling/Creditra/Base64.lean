import Mathlib.Data.List.TakeWhile

/-!
# Base64

Both alphabets, the standard one with padding, and a decoder for either. The
decoder stops at the first padding character and passes over any other character
that is no digit; bits left over at the end are dropped.
-/
namespace Creditra.Base64

def urlDigit (n : ℕ) : Char :=
  if n < 26 then Char.ofNat (n + 65)
  else if n < 52 then Char.ofNat (n + 71)
  else if n < 62 then Char.ofNat (n - 4)
  else if n = 62 then '-'
  else '_'

def standardDigit (n : ℕ) : Char := if n < 62 then urlDigit n else if n = 62 then '+' else '/'

/-- Either alphabet. -/
def sextetOf (c : Char) : Option ℕ :=
  if c.isUpper then some (c.toNat - 65)
  else if c.isLower then some (c.toNat - 71)
  else if c.isDigit then some (c.toNat + 4)
  else if c = '-' ∨ c = '+' then some 62
  else if c = '_' ∨ c = '/' then some 63
  else none

/-- The bytes in groups of six bits. -/
def sextets : List UInt8 → List ℕ
  | a :: b :: c :: rest =>
      a.toNat / 4 :: (a.toNat % 4 * 16 + b.toNat / 16) :: (b.toNat % 16 * 4 + c.toNat / 64) ::
        c.toNat % 64 :: sextets rest
  | [a,b] => [a.toNat / 4,a.toNat % 4 * 16 + b.toNat / 16,b.toNat % 16 * 4]
  | [a] => [a.toNat / 4,a.toNat % 4 * 16]
  | [] => []

def octets : List ℕ → List UInt8
  | a :: b :: c :: d :: rest =>
      UInt8.ofNat (a * 4 + b / 16) :: UInt8.ofNat (b % 16 * 16 + c / 4) ::
        UInt8.ofNat (c % 4 * 64 + d) :: octets rest
  | [a,b,c] => [UInt8.ofNat (a * 4 + b / 16),UInt8.ofNat (b % 16 * 16 + c / 4)]
  | [a,b] => [UInt8.ofNat (a * 4 + b / 16)]
  | [_] => []
  | [] => []

/-- `buffer.toString('base64url')`. -/
def toBase64url (bytes : List UInt8) : String := String.ofList ((sextets bytes).map urlDigit)

/-- What fills the last group of four. -/
def padding (bytes : List UInt8) : List Char := List.replicate ((3 - bytes.length % 3) % 3) '='

/-- `buffer.toString('base64')`. -/
def toBase64 (bytes : List UInt8) : String :=
  String.ofList ((sextets bytes).map standardDigit ++ padding bytes)

/-- `Buffer.from(text, 'base64')` and `Buffer.from(text, 'base64url')`, which
agree: each of them reads the other's alphabet as well. -/
def fromBase64 (text : String) : List UInt8 :=
  octets ((text.toList.takeWhile (· ≠ '=')).filterMap sextetOf)

/-- An alphabet that the decoder reads. -/
def Read (digit : ℕ → Char) : Prop := ∀ n < 64, sextetOf (digit n) = some n

theorem read_urlDigit : Read urlDigit := by
  unfold Read
  decide +kernel

theorem read_standardDigit : Read standardDigit := by
  unfold Read
  decide +kernel

theorem sextets_lt (bytes : List UInt8) : ∀ n ∈ sextets bytes, n < 64 := by
  fun_induction sextets bytes with
  | case1 a b c rest ih =>
      have ha := a.toNat_lt
      have hb := b.toNat_lt
      have hc := c.toNat_lt
      simp only [List.forall_mem_cons]
      refine ⟨by omega,by omega,by omega,by omega,ih⟩
  | case2 a b =>
      have ha := a.toNat_lt
      have hb := b.toNat_lt
      simp only [List.forall_mem_cons]
      refine ⟨by omega,by omega,by omega,fun n hn => nomatch hn⟩
  | case3 a =>
      have ha := a.toNat_lt
      simp only [List.forall_mem_cons]
      refine ⟨by omega,by omega,fun n hn => nomatch hn⟩
  | case4 => exact fun n hn => nomatch hn

theorem ofNat_eq_of_toNat {n : ℕ} {a : UInt8} (h : n = a.toNat) : UInt8.ofNat n = a := by
  rw [h]
  exact UInt8.ofNat_toNat

theorem octets_sextets (bytes : List UInt8) : octets (sextets bytes) = bytes := by
  fun_induction sextets bytes with
  | case1 a b c rest ih =>
      have ha := a.toNat_lt
      have hb := b.toNat_lt
      have hc := c.toNat_lt
      rw [octets,ih,ofNat_eq_of_toNat (a := a) (by omega),ofNat_eq_of_toNat (a := b) (by omega),
        ofNat_eq_of_toNat (a := c) (by omega)]
  | case2 a b =>
      have ha := a.toNat_lt
      have hb := b.toNat_lt
      rw [octets,ofNat_eq_of_toNat (a := a) (by omega),ofNat_eq_of_toNat (a := b) (by omega)]
  | case3 a =>
      have ha := a.toNat_lt
      rw [octets,ofNat_eq_of_toNat (a := a) (by omega)]
  | case4 => rfl

section Alphabet
variable {digit : ℕ → Char}

theorem filterMap_sextetOf (hdigit : Read digit) {ns : List ℕ} (h : ∀ n ∈ ns, n < 64) :
    (ns.map digit).filterMap sextetOf = ns := by
  induction ns with
  | nil => rfl
  | cons n ns ih =>
      rw [List.map_cons,List.filterMap_cons,hdigit n (h n List.mem_cons_self),
        ih fun m hm => h m (List.mem_cons_of_mem n hm)]

theorem digit_ne_padding (hdigit : Read digit) {n : ℕ} (h : n < 64) : digit n ≠ '=' := by
  intro heq
  have hsome := hdigit n h
  rw [heq] at hsome
  cases hsome

/-- Digits are read up to a padding. -/
theorem octets_digits (hdigit : Read digit) (bytes : List UInt8) (k : ℕ) :
    fromBase64 (String.ofList ((sextets bytes).map digit ++ List.replicate k '=')) = bytes := by
  have hdigits : ((sextets bytes).map digit ++ List.replicate k '=').takeWhile (· ≠ '=') =
      (sextets bytes).map digit := by
    rw [List.takeWhile_append_of_pos]
    · cases k with
      | zero => simp
      | succ k => simp [List.replicate_succ]
    · intro c hc
      rcases List.mem_map.mp hc with ⟨n,hn,rfl⟩
      exact decide_eq_true (digit_ne_padding hdigit (sextets_lt bytes n hn))
  unfold fromBase64
  rw [String.toList_ofList,hdigits,filterMap_sextetOf hdigit (sextets_lt bytes),octets_sextets]

end Alphabet

theorem fromBase64_toBase64 (bytes : List UInt8) : fromBase64 (toBase64 bytes) = bytes :=
  octets_digits read_standardDigit bytes _

theorem fromBase64_toBase64url (bytes : List UInt8) : fromBase64 (toBase64url bytes) = bytes := by
  have h := octets_digits read_urlDigit bytes 0
  rwa [List.replicate_zero,List.append_nil] at h

end Creditra.Base64
