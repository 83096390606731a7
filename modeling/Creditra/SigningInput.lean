import Creditra.InboundWebhookSignature
import Creditra.Separators
import Mathlib.Logic.Equiv.Basic

/-!
# Ambiguity of the webhook signing input

The signed bytes are the timestamp, the nonce and the body joined by dots, and
none of the three is kept from containing dots itself. A signature determines
its message only when the bytes can be read in one way. The other readings of a
message are of four kinds: the nonce ends at an earlier dot, or at a later one
inside the body; the timestamp ends at an earlier dot, or at a later one inside
the nonce or the body.
-/
namespace Creditra.SigningInput
open JsStrings InboundWebhookSignature Separators

/-- What is signed, apart. -/
structure Message where
  timestamp : String
  nonce : String
  rawBody : Bytes
  deriving DecidableEq

def ValidTimestamp (dateParse : String → Option ℤ) (timestamp : String) : Prop :=
  timestamp ≠ "" ∧ parseWebhookTimestamp dateParse timestamp ≠ none

def ValidNonce (nonce : String) : Prop := nonce ≠ "" ∧ JsStrings.length nonce ≤ 256

/-- The header checks of the middleware. -/
def Admitted (dateParse : String → Option ℤ) (x : Message) : Prop :=
  ValidTimestamp dateParse x.timestamp ∧ ValidNonce x.nonce

def sign (hmac : String → Bytes → Bytes) (secret : String) (x : Message) : String :=
  signInboundWebhookPayload hmac secret x.timestamp x.nonce x.rawBody

def dot : UInt8 := 46

theorem utf8_append (s t : String) : utf8 (s ++ t) = utf8 s ++ utf8 t := by
  simp [utf8,String.toByteArray_append]

theorem utf8_injective {s t : String} (h : utf8 s = utf8 t) : s = t := by
  apply String.toByteArray_inj.mp
  exact ByteArray.ext (Array.toList_inj.mp h)

theorem signingInput_eq (x : Message) :
    signingInput x.timestamp x.nonce x.rawBody =
      utf8 x.timestamp ++ dot :: (utf8 x.nonce ++ dot :: x.rawBody) := by
  have hdot : utf8 "." = [dot] := by decide
  simp [signingInput,utf8_append,hdot]

theorem hexValue_digitChar : ∀ n < 16, hexValue (Nat.digitChar n) = some n := by decide

/-- A digest is read back from its hex text. -/
theorem hexDecode_hexEncode (bytes : Bytes) : hexDecode (hexEncode bytes).toList = bytes := by
  rw [hexEncode,String.toList_ofList]
  induction bytes with
  | nil => rfl
  | cons b bytes ih =>
      have hlt : b.toNat < 256 := b.toNat_lt
      have hhigh := hexValue_digitChar (b.toNat / 16) (by omega)
      have hlow := hexValue_digitChar (b.toNat % 16) (by omega)
      have hbyte : 16 * (b.toNat / 16) + b.toNat % 16 = b.toNat := by omega
      rw [List.flatMap_cons]
      simp only [hexByte,List.cons_append,List.nil_append,hexDecode,hhigh,hlow,hbyte,
        UInt8.ofNat_toNat]
      rw [ih]

/-- Under an injective keyed hash, equal signatures are equal signed bytes. -/
theorem sign_eq_iff {hmac : String → Bytes → Bytes} {secret : String}
    (hinj : Function.Injective (hmac secret)) (x y : Message) :
    sign hmac secret y = sign hmac secret x ↔
      signingInput y.timestamp y.nonce y.rawBody = signingInput x.timestamp x.nonce x.rawBody := by
  constructor
  · intro h
    have htext := congrArg String.toList h
    simp only [sign,signInboundWebhookPayload,String.toList_append] at htext
    have hhex := congrArg hexDecode (List.append_cancel_left htext)
    rw [hexDecode_hexEncode,hexDecode_hexEncode] at hhex
    exact hinj hhex
  · intro h
    simp only [sign,signInboundWebhookPayload,h]

/-- No other reading of the signed bytes of `x` gets past the header checks. A
reading is given by the text before a dot and the bytes after it. -/
structure OneReading (dateParse : String → Option ℤ) (x : Message) : Prop where
  shorterNonce : ∀ nonce rest, utf8 x.nonce = utf8 nonce ++ dot :: rest → ¬ ValidNonce nonce
  longerNonce : ∀ nonce mid rest, utf8 nonce = utf8 x.nonce ++ dot :: mid →
    x.rawBody = mid ++ dot :: rest → ¬ ValidNonce nonce
  shorterTimestamp : ∀ timestamp mid nonce rest, utf8 x.timestamp = utf8 timestamp ++ dot :: mid →
    mid ++ dot :: (utf8 x.nonce ++ dot :: x.rawBody) = utf8 nonce ++ dot :: rest →
    ValidTimestamp dateParse timestamp → ¬ ValidNonce nonce
  longerTimestamp : ∀ timestamp mid nonce rest, utf8 timestamp = utf8 x.timestamp ++ dot :: mid →
    utf8 x.nonce ++ dot :: x.rawBody = mid ++ dot :: (utf8 nonce ++ dot :: rest) →
    ValidTimestamp dateParse timestamp → ¬ ValidNonce nonce

/-- Messages with the same signed bytes, one of which has one reading. -/
theorem OneReading.eq {dateParse : String → Option ℤ} {x y : Message}
    (h : OneReading dateParse x) (hy : Admitted dateParse y)
    (hbytes : signingInput y.timestamp y.nonce y.rawBody =
      signingInput x.timestamp x.nonce x.rawBody) : y = x := by
  rw [signingInput_eq,signingInput_eq] at hbytes
  rcases cut_cases hbytes with ⟨htimestamp,hrest⟩ | ⟨mid,hlonger,hrest⟩ | ⟨mid,hshorter,hrest⟩
  · rcases cut_cases hrest with ⟨hnonce,hbody⟩ | ⟨mid,hx,hbody⟩ | ⟨mid,hy',hbody⟩
    · obtain ⟨t,n,b⟩ := y
      obtain ⟨t',n',b'⟩ := x
      simp only [Message.mk.injEq]
      exact ⟨utf8_injective htimestamp,utf8_injective hnonce,hbody⟩
    · exact absurd hy.2 (h.shorterNonce y.nonce mid hx)
    · exact absurd hy.2 (h.longerNonce y.nonce mid y.rawBody hy' hbody)
  · exact absurd hy.2
      (h.shorterTimestamp y.timestamp mid y.nonce y.rawBody hlonger hrest.symm hy.1)
  · exact absurd hy.2
      (h.longerTimestamp y.timestamp mid y.nonce y.rawBody hshorter hrest hy.1)

/-- A second reading is a different message with the same signed bytes. -/
theorem oneReading_of_unique {dateParse : String → Option ℤ} {x : Message}
    (hx : Admitted dateParse x)
    (h : ∀ y, Admitted dateParse y → signingInput y.timestamp y.nonce y.rawBody =
      signingInput x.timestamp x.nonce x.rawBody → y = x) : OneReading dateParse x where
  shorterNonce nonce rest hcut hvalid := by
    have hsame := h ⟨x.timestamp,nonce,rest ++ dot :: x.rawBody⟩ ⟨hx.1,hvalid⟩ (by
      rw [signingInput_eq,signingInput_eq,hcut]
      simp)
    exact cut_ne hcut (by rw [← hsame])
  longerNonce nonce mid rest hcut hbody hvalid := by
    have hsame := h ⟨x.timestamp,nonce,rest⟩ ⟨hx.1,hvalid⟩ (by
      rw [signingInput_eq,signingInput_eq,hcut,hbody]
      simp)
    exact cut_ne hcut (by rw [← hsame])
  shorterTimestamp timestamp mid nonce rest hcut hrest htimestamp hvalid := by
    have hsame := h ⟨timestamp,nonce,rest⟩ ⟨htimestamp,hvalid⟩ (by
      rw [signingInput_eq,signingInput_eq,hcut,← hrest]
      simp)
    exact cut_ne hcut (by rw [← hsame])
  longerTimestamp timestamp mid nonce rest hcut hrest htimestamp hvalid := by
    have hsame := h ⟨timestamp,nonce,rest⟩ ⟨htimestamp,hvalid⟩ (by
      rw [signingInput_eq,signingInput_eq,hcut,hrest]
      simp)
    exact cut_ne hcut (by rw [← hsame])

/-- Under an injective keyed hash, the signature of an admitted message belongs
to no other admitted message exactly when its bytes have one reading. -/
theorem signature_unique_iff_one_reading (dateParse : String → Option ℤ)
    (hmac : String → Bytes → Bytes) (secret : String)
    (hinj : Function.Injective (hmac secret)) (x : Message) (hx : Admitted dateParse x) :
    (∀ y, Admitted dateParse y → sign hmac secret y = sign hmac secret x → y = x) ↔
      OneReading dateParse x := by
  simp only [sign_eq_iff hinj]
  constructor
  · intro h
    exact oneReading_of_unique hx h
  · intro h y hy hbytes
    exact h.eq hy hbytes

/-- Three parts without dots have one reading. -/
theorem oneReading_of_no_dot (dateParse : String → Option ℤ) (x : Message)
    (ht : dot ∉ utf8 x.timestamp) (hn : dot ∉ utf8 x.nonce) (hb : dot ∉ x.rawBody) :
    OneReading dateParse x where
  shorterNonce nonce rest hcut := absurd (by simp [hcut]) hn
  longerNonce nonce mid rest _ hbody := absurd (by simp [hbody]) hb
  shorterTimestamp timestamp mid nonce rest hcut := absurd (by simp [hcut]) ht
  longerTimestamp timestamp mid nonce rest _ hrest := by
    rcases cut_cases hrest with ⟨-,hbody⟩ | ⟨mid',-,hbody⟩ | ⟨mid',hnonce,-⟩
    · exact absurd (by simp [hbody]) hb
    · exact absurd (by simp [hbody]) hb
    · exact absurd (by simp [hnonce]) hn

/-- An injective stand-in for HMAC-SHA256 under `whsec_test`, with its digest at
the signed bytes of `x`. -/
def hmacAt (x : Message) (digest : Bytes) (_secret : String) : Bytes → Bytes :=
  Equiv.swap (signingInput x.timestamp x.nonce x.rawBody) digest

theorem hmacAt_injective (x : Message) (digest : Bytes) (secret : String) :
    Function.Injective (hmacAt x digest secret) :=
  (Equiv.swap _ _).injective

def plainMessage : Message := ⟨"1700000000","n1",utf8 "\x7b\x7d"⟩

def plainDigest : Bytes :=
  hexDecode "e4f5738e117e2a62be851c02fe08298fd5cb4cf9f64b8de4cf0ec9c99d64ee60".toList

theorem signature_unique_iff_one_reading_plain :
    Function.Injective (hmacAt plainMessage plainDigest "whsec_test") ∧
    Admitted (fun _ => none) plainMessage ∧
    ((∀ y, Admitted (fun _ => none) y →
      sign (hmacAt plainMessage plainDigest) "whsec_test" y =
        sign (hmacAt plainMessage plainDigest) "whsec_test" plainMessage → y = plainMessage) ↔
      OneReading (fun _ => none) plainMessage) := by
  have hadmitted : Admitted (fun _ => none) plainMessage :=
    ⟨⟨by decide,by decide +kernel⟩,by decide,by decide⟩
  have hinj := hmacAt_injective plainMessage plainDigest "whsec_test"
  exact ⟨hinj,hadmitted,signature_unique_iff_one_reading (fun _ => none)
    (hmacAt plainMessage plainDigest) "whsec_test" hinj plainMessage hadmitted⟩

/-- A dot in the nonce, and the same bytes with that dot in the timestamp. -/
def dottedNonce : Message := ⟨"1700000000","5.abc",utf8 "\x7b\x7d"⟩

def dottedTimestamp : Message := ⟨"1700000000.5","abc",utf8 "\x7b\x7d"⟩

def dottedDigest : Bytes :=
  hexDecode "8150f64c0b207935eab08713d778a5ad0494716ccfbbfa9de43413fd9e365e42".toList

/-- Delivery of a message under the signature of `dottedNonce`. -/
def delivered (x : Message) (now : ℚ) : Arrival :=
  ⟨⟨.one x.timestamp,.one x.nonce,
    .one "sha256=8150f64c0b207935eab08713d778a5ad0494716ccfbbfa9de43413fd9e365e42",
    some x.rawBody⟩,now,now,now⟩

/-- One signature, two admitted messages; the second is accepted after the first
under another nonce and timestamp. -/
theorem dotted_messages_share_a_signature :
    Function.Injective (hmacAt dottedNonce dottedDigest "whsec_test") ∧
    Admitted (fun _ => none) dottedNonce ∧ Admitted (fun _ => none) dottedTimestamp ∧
    sign (hmacAt dottedNonce dottedDigest) "whsec_test" dottedTimestamp =
      sign (hmacAt dottedNonce dottedDigest) "whsec_test" dottedNonce ∧
    dottedTimestamp ≠ dottedNonce ∧
    verdicts (fun _ => none) (hmacAt dottedNonce dottedDigest) ⟨"whsec_test",1000⟩ .empty
      [delivered dottedNonce 1700000000100,delivered dottedTimestamp 1700000000200] =
        [.next,.next] := by
  have hnonce : Admitted (fun _ => none) dottedNonce :=
    ⟨⟨by decide,by decide +kernel⟩,by decide,by decide⟩
  have htimestamp : Admitted (fun _ => none) dottedTimestamp :=
    ⟨⟨by decide,by decide +kernel⟩,by decide,by decide⟩
  have hinj := hmacAt_injective dottedNonce dottedDigest "whsec_test"
  have hsign := (sign_eq_iff hinj dottedNonce dottedTimestamp).mpr (by decide +kernel)
  have haccepted : verdicts (fun _ => none) (hmacAt dottedNonce dottedDigest)
      ⟨"whsec_test",1000⟩ .empty
      [delivered dottedNonce 1700000000100,delivered dottedTimestamp 1700000000200] =
        [.next,.next] := by decide +kernel
  exact ⟨hinj,hnonce,htimestamp,hsign,by decide,haccepted⟩

end Creditra.SigningInput
