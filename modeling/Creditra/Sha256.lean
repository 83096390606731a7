import Mathlib.Algebra.GroupWithZero.Nat
import Mathlib.Data.List.Basic
import Mathlib.Tactic.Common

/-!
# SHA-256

The digest over bytes, computable. Words are natural numbers below `2 ^ 32`; the
schedule of a block is kept with its newest word first.
-/
namespace Creditra.Sha256

def word (x : ℕ) : ℕ := x % 2 ^ 32

def rotateRight (n x : ℕ) : ℕ := word (x >>> n ||| x <<< (32 - n))

def smallSigma0 (x : ℕ) : ℕ := rotateRight 7 x ^^^ rotateRight 18 x ^^^ x >>> 3

def smallSigma1 (x : ℕ) : ℕ := rotateRight 17 x ^^^ rotateRight 19 x ^^^ x >>> 10

def bigSigma0 (x : ℕ) : ℕ := rotateRight 2 x ^^^ rotateRight 13 x ^^^ rotateRight 22 x

def bigSigma1 (x : ℕ) : ℕ := rotateRight 6 x ^^^ rotateRight 11 x ^^^ rotateRight 25 x

def choose (x y z : ℕ) : ℕ := x &&& y ^^^ (2 ^ 32 - 1 - x) &&& z

def majority (x y z : ℕ) : ℕ := x &&& y ^^^ x &&& z ^^^ y &&& z

/-- The fractional parts of the cube roots of the first 64 primes. -/
def roundConstants : List ℕ :=
  [0x428a2f98,0x71374491,0xb5c0fbcf,0xe9b5dba5,0x3956c25b,0x59f111f1,0x923f82a4,0xab1c5ed5,
    0xd807aa98,0x12835b01,0x243185be,0x550c7dc3,0x72be5d74,0x80deb1fe,0x9bdc06a7,0xc19bf174,
    0xe49b69c1,0xefbe4786,0x0fc19dc6,0x240ca1cc,0x2de92c6f,0x4a7484aa,0x5cb0a9dc,0x76f988da,
    0x983e5152,0xa831c66d,0xb00327c8,0xbf597fc7,0xc6e00bf3,0xd5a79147,0x06ca6351,0x14292967,
    0x27b70a85,0x2e1b2138,0x4d2c6dfc,0x53380d13,0x650a7354,0x766a0abb,0x81c2c92e,0x92722c85,
    0xa2bfe8a1,0xa81a664b,0xc24b8b70,0xc76c51a3,0xd192e819,0xd6990624,0xf40e3585,0x106aa070,
    0x19a4c116,0x1e376c08,0x2748774c,0x34b0bcb5,0x391c0cb3,0x4ed8aa4a,0x5b9cca4f,0x682e6ff3,
    0x748f82ee,0x78a5636f,0x84c87814,0x8cc70208,0x90befffa,0xa4506ceb,0xbef9a3f7,0xc67178f2]

/-- The eight words that a block updates. -/
structure Chain where
  a : ℕ
  b : ℕ
  c : ℕ
  d : ℕ
  e : ℕ
  f : ℕ
  g : ℕ
  h : ℕ

def initialChain : Chain :=
  ⟨0x6a09e667,0xbb67ae85,0x3c6ef372,0xa54ff53a,0x510e527f,0x9b05688c,0x1f83d9ab,0x5be0cd19⟩

def round (s : Chain) (constant : ℕ × ℕ) : Chain :=
  let t1 := s.h + bigSigma1 s.e + choose s.e s.f s.g + constant.1 + constant.2
  let t2 := bigSigma0 s.a + majority s.a s.b s.c
  ⟨word (t1 + t2),s.a,s.b,s.c,word (s.d + t1),s.e,s.f,s.g⟩

/-- The word after those of a schedule. -/
def nextWord (newestFirst : List ℕ) : ℕ :=
  word (smallSigma1 (newestFirst.getD 1 0) + newestFirst.getD 6 0 +
    smallSigma0 (newestFirst.getD 14 0) + newestFirst.getD 15 0)

def schedule : ℕ → List ℕ → List ℕ
  | 0, newestFirst => newestFirst.reverse
  | n + 1, newestFirst => schedule n (nextWord newestFirst :: newestFirst)

def compress (s : Chain) (block : List ℕ) : Chain :=
  let t := (roundConstants.zip (schedule 48 block.reverse)).foldl round s
  ⟨word (s.a + t.a),word (s.b + t.b),word (s.c + t.c),word (s.d + t.d),word (s.e + t.e),
    word (s.f + t.f),word (s.g + t.g),word (s.h + t.h)⟩

/-- The message, a bit, zeros up to the last eight bytes of a block, and there its length. -/
def padded (message : List UInt8) : List UInt8 :=
  message ++ (0x80 : UInt8) :: List.replicate ((119 - message.length % 64) % 64) (0 : UInt8) ++
    (List.range 8).map fun i => UInt8.ofNat ((8 * message.length) >>> (8 * (7 - i)))

def words : List UInt8 → List ℕ
  | a :: b :: c :: d :: rest =>
      (((a.toNat * 256 + b.toNat) * 256 + c.toNat) * 256 + d.toNat) :: words rest
  | _ => []

/-- The chain after the first `n` blocks of sixteen words. -/
def absorb : ℕ → Chain → List ℕ → Chain
  | 0, s, _ => s
  | n + 1, s, ws => absorb n (compress s (ws.take 16)) (ws.drop 16)

def wordBytes (x : ℕ) : List UInt8 :=
  [UInt8.ofNat (x >>> 24),UInt8.ofNat (x >>> 16),UInt8.ofNat (x >>> 8),UInt8.ofNat x]

def Chain.bytes (s : Chain) : List UInt8 :=
  wordBytes s.a ++ wordBytes s.b ++ wordBytes s.c ++ wordBytes s.d ++ wordBytes s.e ++
    wordBytes s.f ++ wordBytes s.g ++ wordBytes s.h

def sha256 (message : List UInt8) : List UInt8 :=
  let bytes := padded message
  (absorb (bytes.length / 64) initialChain (words bytes)).bytes

@[simp] theorem length_sha256 (message : List UInt8) : (sha256 message).length = 32 := rfl

/-- A message that takes a second block. -/
example : sha256
    "abcdbcdecdefdefgefghfghighijhijkijkljklmklmnlmnomnopnopq".toByteArray.data.toList =
    [0x24,0x8d,0x6a,0x61,0xd2,0x06,0x38,0xb8,0xe5,0xc0,0x26,0x93,0x0c,0x3e,0x60,0x39,
      0xa3,0x3c,0xe4,0x59,0x64,0xff,0x21,0x67,0xf6,0xec,0xed,0xd4,0x19,0xdb,0x06,0xc1] := by
  decide +kernel

/-! ## Digests that tell all messages apart

No function with digests of one length does. What is proved of an injective digest
is tried out with the digests of some messages, and with the others kept apart. -/

/-- The digests of the messages listed; any other message stands for itself, too long to be a
digest. -/
def digestAmong (messages : List (List UInt8)) (message : List UInt8) : List UInt8 :=
  if message ∈ messages then sha256 message else List.replicate 33 0 ++ message

theorem digestAmong_injective {messages : List (List UInt8)}
    (h : ∀ m ∈ messages, ∀ m' ∈ messages, sha256 m = sha256 m' → m = m') :
    Function.Injective (digestAmong messages) := by
  have hlong : ∀ m m', sha256 m ≠ List.replicate 33 0 ++ m' := by
    intro m m' heq
    have hlength := congrArg List.length heq
    rw [length_sha256,List.length_append,List.length_replicate] at hlength
    omega
  intro m m' heq
  unfold digestAmong at heq
  split_ifs at heq with hm hm'
  · exact h m hm m' hm' heq
  · exact absurd heq (hlong m m')
  · exact absurd heq.symm (hlong m' m)
  · exact List.append_cancel_left heq

end Creditra.Sha256
