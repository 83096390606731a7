import Creditra.InsertionMaps
import Creditra.JsNumbers
import Creditra.JsStrings

/-!
# Inbound webhook verification and its nonce store

The middleware checks the headers, the age of the timestamp and the signature,
and only then claims the nonce. One request reads the clock up to three times:
for the age of its timestamp, for the expiry of its claim, and inside the store,
which drops expired nonces before it looks the new one up.

`Date.parse` is a parameter, since the language leaves all but one format of it
to the implementation, and so is the keyed hash. Clock readings and the
tolerance are exact numbers of milliseconds.
-/
namespace Creditra.InboundWebhookSignature
open InsertionMaps JsStrings JsNumbers

abbrev Bytes := List UInt8

structure InboundRequest where
  xTimestamp : Header
  xNonce : Header
  xSignature : Header
  rawBody : Option Bytes
  deriving DecidableEq

/-- One request with the clock readings made for it. -/
structure Arrival where
  request : InboundRequest
  skewAt : ℚ
  claimAt : ℚ
  purgeAt : ℚ
  deriving DecidableEq

inductive Verdict where
  | next
  | reply (status : ℕ) (error : String)
  deriving DecidableEq

def DEFAULT_INBOUND_WEBHOOK_TOLERANCE_MS : ℚ := 5 * 60 * 1000

def SIGNATURE_PREFIX : String := "sha256="

/-- Either source of the tolerance counts only as a finite number that is not
negative; other values are absent here. -/
def resolveToleranceMs (explicit fromEnv : Option ℚ) : ℚ :=
  match explicit.filter (0 ≤ ·) with
  | some toleranceMs => toleranceMs
  | none => (fromEnv.filter (0 ≤ ·)).getD DEFAULT_INBOUND_WEBHOOK_TOLERANCE_MS

def headerValue : Header → String
  | .absent => ""
  | .one value => value
  | .many values => values.head?.getD ""

def isDigit (c : Char) : Bool := '0' ≤ c ∧ c ≤ '9'

/-- The parts of a text that matches `^\d+(\.\d+)?$`. -/
def matchDecimal (cs : List Char) : Option (List Char × List Char) :=
  let whole := cs.takeWhile isDigit
  if whole = [] then none
  else match cs.dropWhile isDigit with
    | [] => some (whole,[])
    | c :: fraction =>
        if c = '.' ∧ fraction ≠ [] ∧ fraction.all isDigit then some (whole,fraction) else none

/-- Epoch seconds or milliseconds, or anything `Date.parse` takes. -/
def parseWebhookTimestamp (dateParse : String → Option ℤ) (value : String) : Option ℤ :=
  let trimmed := trim value
  if trimmed = "" then none
  else match matchDecimal trimmed.toList with
    | some (whole,fraction) =>
        match numberOfDecimal whole fraction with
        | none => none
        | some asNumber =>
            if asNumber < 10 ^ 12 then (toDouble (asNumber * 1000)).map Int.floor
            else some ⌊asNumber⌋
    | none => dateParse trimmed

def hexValue (c : Char) : Option ℕ :=
  if '0' ≤ c ∧ c ≤ '9' then some (c.toNat - '0'.toNat)
  else if 'a' ≤ c ∧ c ≤ 'f' then some (c.toNat - 'a'.toNat + 10)
  else if 'A' ≤ c ∧ c ≤ 'F' then some (c.toNat - 'A'.toNat + 10)
  else none

/-- `Buffer.from(text, 'hex')`, which stops at the first pair that is not hex. -/
def hexDecode : List Char → Bytes
  | a :: b :: rest => match hexValue a, hexValue b with
      | some x, some y => UInt8.ofNat (16 * x + y) :: hexDecode rest
      | _, _ => []
  | _ => []

def hexByte (b : UInt8) : List Char := [Nat.digitChar (b.toNat / 16),Nat.digitChar (b.toNat % 16)]

/-- `digest('hex')`. -/
def hexEncode (bytes : Bytes) : String := String.ofList (bytes.flatMap hexByte)

/-- Only the letters of the prefix matter, and none but their capitals is
lowered to them. -/
def parseSignatureHex (header : String) : Option Bytes :=
  let value := trimChars header.toList
  if SIGNATURE_PREFIX.toList.isPrefixOf (value.map Char.toLower) then
    let hex := trimChars (value.drop 7)
    if hex.length = 64 ∧ hex.all fun c => (hexValue c).isSome then some (hexDecode hex) else none
  else none

/-- The bytes that are signed: `timestamp.nonce.` and the raw body. -/
def signingInput (timestamp nonce : String) (rawBody : Bytes) : Bytes :=
  utf8 (timestamp ++ "." ++ nonce ++ ".") ++ rawBody

/-- The nonce store: each nonce with the instant its claim expires. -/
abbrev NonceStore := InsertionMap String ℚ

/-- Drops what has expired and counts it. -/
def purgeExpired (nonces : NonceStore) (now : ℚ) : ℕ × NonceStore :=
  ((nonces.entries.filter (·.2 ≤ now)).length,nonces.filter fun e => ¬ e.2 ≤ now)

def claim (nonces : NonceStore) (nonce : String) (expiresAtMs now : ℚ) : Bool × NonceStore :=
  let nonces := (purgeExpired nonces now).2
  if (nonces.get nonce).isSome then (false,nonces)
  else (true,nonces.set nonce expiresAtMs)

/-- What the middleware is configured with. -/
structure Options where
  secret : String
  toleranceMs : ℚ

section
variable (dateParse : String → Option ℤ) (hmac : String → Bytes → Bytes)

def signInboundWebhookPayload (secret timestamp nonce : String) (rawBody : Bytes) : String :=
  SIGNATURE_PREFIX ++ hexEncode (hmac secret (signingInput timestamp nonce rawBody))

/-- Everything before the nonce is claimed, in the order of the source. A
request that passes has its nonce and its sending time read off. -/
def checks (options : Options) (request : InboundRequest) (skewAt : ℚ) :
    Except (ℕ × String) (String × ℤ) :=
  let timestamp := headerValue request.xTimestamp
  let nonce := headerValue request.xNonce
  let signature := headerValue request.xSignature
  if options.secret = "" then
    .error (503,"Inbound webhook signing is not configured on this server.")
  else if timestamp = "" ∨ nonce = "" ∨ signature = "" then
    .error (401,"Missing required webhook headers (X-Timestamp, X-Nonce, X-Signature)")
  else if JsStrings.length nonce > 256 then .error (401,"Invalid webhook nonce")
  else match parseWebhookTimestamp dateParse timestamp with
    | none => .error (401,"Invalid webhook timestamp")
    | some sentAtMs =>
        if |skewAt - sentAtMs| > options.toleranceMs then
          .error (401,"Stale webhook timestamp")
        else match request.rawBody with
          | none => .error (401,"Missing raw request body for signature verification")
          | some rawBody => match parseSignatureHex signature with
              | none => .error (401,"Malformed webhook signature")
              | some provided =>
                  let expectedHex := (signInboundWebhookPayload hmac options.secret timestamp
                    nonce rawBody).toList.drop 7
                  if provided ≠ hexDecode expectedHex then
                    .error (401,"Invalid webhook signature")
                  else .ok (nonce,sentAtMs)

def inboundWebhookSignature (options : Options) (nonces : NonceStore) (a : Arrival) :
    Verdict × NonceStore :=
  match checks dateParse hmac options a.request a.skewAt with
  | .error (status,error) => (.reply status error,nonces)
  | .ok (nonce,sentAtMs) =>
      let expiresAtMs := max a.claimAt sentAtMs + options.toleranceMs
      let (claimed,nonces) := claim nonces nonce expiresAtMs a.purgeAt
      (if claimed then .next else .reply 401 "Replay detected",nonces)

/-- The verdicts on a sequence of requests, one after the other. -/
def verdicts (options : Options) : NonceStore → List Arrival → List Verdict
  | _, [] => []
  | nonces, a :: as =>
      let r := inboundWebhookSignature dateParse hmac options nonces a
      r.1 :: verdicts options r.2 as

end

end Creditra.InboundWebhookSignature
