import Creditra.Base64
import Creditra.CursorPagination
import Creditra.GuardedRuns
import Creditra.IsoDates
import Creditra.JsonRoundTrip
import Creditra.SigningInput

/-!
# Service tokens

`services/serviceTokens.ts`: signed tokens for internal calls, and the keys they
are signed with. The registry of keys is made at the first call, with one key
from the environment; each rotation puts a new key in front and keeps the newest
three. A token is verified with the key it names, which must still be kept, and
only before its expiry.

The signature function is a parameter. Key ids of rotations are random UUIDs, and
their secrets the hex texts of 32 random bytes.
-/
namespace Creditra.ServiceTokens
open Base64 CursorPagination GuardedRuns InboundWebhookSignature IsoDates JsNumbers JsStrings
open JsonRoundTrip JsonText JsonValues NumberText SigningInput StellarDiagnostics

def ISSUER : String := "creditra-backend"

def AUDIENCE : String := "creditra-internal"

def DEFAULT_TTL_SECONDS : ℤ := 300

/-- How many keys are kept, the current one included. -/
def KEY_RETENTION : ℕ := 3

def serviceTokenError (message : String) : Thrown := ⟨"ServiceTokenError",message⟩

structure SigningKey where
  kid : String
  secret : String
  deriving DecidableEq

/-- What the clock reads. -/
abbrev Instant : Type := { t : ℤ // ValidTime t }

abbrev Uuid : Type := { text : String // text.length = 36 }

/-- `crypto.randomBytes(32)`. -/
abbrev RandomBytes : Type := { bytes : Bytes // bytes.length = 32 }

/-- The environment variables, the signature function, and the bytes drawn when
the registry is made. -/
structure Host where
  SERVICE_TOKEN_SECRET : Option String
  SERVICE_TOKEN_KID : Option String
  hmac : String → Bytes → Bytes
  drawn : RandomBytes

/-! ## The registry -/

/-- Newest first. -/
abbrev Registry : Type := List SigningKey

def initialKey (host : Host) : SigningKey :=
  ⟨host.SERVICE_TOKEN_KID.getD "initial",
    host.SERVICE_TOKEN_SECRET.getD (hexEncode host.drawn.1)⟩

def getRegistry (host : Host) (registry : Option Registry) : Registry :=
  registry.getD [initialKey host]

def current (registry : Registry) : Except Thrown SigningKey :=
  match registry with
  | key :: _ => .ok key
  | [] => .error (serviceTokenError "No signing key configured")

def getSecret (registry : Registry) (kid : String) : Option String :=
  (registry.find? fun key => key.kid = kid).map SigningKey.secret

def rotate (registry : Registry) (kid : Uuid) (secret : RandomBytes) : Registry :=
  (⟨kid.1,hexEncode secret.1⟩ :: registry).take KEY_RETENTION

/-! ## Minting -/

structure ServiceTokenClaims where
  sub : String
  permissions : List String

structure MintedToken where
  token : String
  expiresAt : String

/-- `Math.floor(Date.now() / 1000)`. -/
def seconds (now : Instant) : ℤ := now.1 / 1000

theorem isDouble_intCast {z : ℤ} (h : z.natAbs < 9007199254740992) :
    toDouble |(z : ℚ)| = some |(z : ℚ)| := by
  have habs : |(z : ℚ)| = (z.natAbs : ℚ) := by
    rw [Nat.cast_natAbs,Int.cast_abs]
  rw [habs]
  exact toDouble_natCast h

/-- A whole number that the type holds, as `JSON.stringify` prints it. -/
def wholeNumber (z : ℤ) (h : z.natAbs < 9007199254740992) : Json :=
  .number (String.ofList (numberText ⟨z,isDouble_intCast h⟩))

theorem natAbs_seconds (now : Instant) : (seconds now).natAbs < 9007199254740992 := by
  have hnow := now.2
  unfold ValidTime at hnow
  unfold seconds
  omega

theorem natAbs_exp {exp : ℤ} (h : ValidTime (exp * 1000)) : exp.natAbs < 9007199254740992 := by
  unfold ValidTime at h
  omega

def base64url (input : String) : String := toBase64url (utf8 input)

def headerOf (kid : String) : Json :=
  .object [("alg",.string "HS256"),("typ",.string "JWT"),("kid",.string kid)]

def payloadOf (claims : ServiceTokenClaims) (iat exp : Json) : Json :=
  .object [("iss",.string ISSUER),("aud",.string AUDIENCE),("sub",.string claims.sub),
    ("permissions",.array (claims.permissions.map .string)),("iat",iat),("exp",exp)]

def signatureOf (host : Host) (secret : String) (signingInput : List Char) : Bytes :=
  host.hmac secret (utf8 (String.ofList signingInput))

/-- An expiry that no date holds makes the call throw, after the token was made. -/
def mintServiceToken (host : Host) (registry : Option Registry) (claims : ServiceTokenClaims)
    (ttlSeconds : ℤ := DEFAULT_TTL_SECONDS) (now : Instant) : Except Thrown MintedToken := do
  let key ← current (getRegistry host registry)
  let exp := seconds now + ttlSeconds
  if h : ValidTime (exp * 1000) then
    let payload := payloadOf claims (wholeNumber (seconds now) (natAbs_seconds now))
      (wholeNumber exp (natAbs_exp h))
    let signingInput := (base64url (stringify (headerOf key.kid))).toList ++
      '.' :: (base64url (stringify payload)).toList
    let signature := toBase64url (signatureOf host key.secret signingInput)
    .ok ⟨String.ofList (signingInput ++ '.' :: signature.toList),toISOString (exp * 1000)⟩
  else .error ⟨"RangeError","Invalid time value"⟩

/-! ## Verifying -/

structure VerifiedServiceToken where
  sub : String
  permissions : List Json
  kid : String

/-- A part of a token; absent when `JSON.parse` throws. -/
def readPart (part : List Char) : Option Json :=
  parseJson (fromUtf8 (fromBase64 (String.ofList part)))

/-- `value.key`, for what `JSON.parse` can return. -/
def property (key : String) : Json → Except Thrown (Option Json)
  | .null =>
      .error ⟨"TypeError","Cannot read properties of null (reading '" ++ key ++ "')"⟩
  | value => .ok (field key value)

/-- `value === s`. -/
def isString (s : String) : Option Json → Bool
  | some (.string t) => t = s
  | _ => false

/-- The key that a header names; a key id that is no string is unknown. -/
def signingKey (registry : Registry) (header : Json) : Except Thrown SigningKey := do
  let alg ← property "alg" header
  let kid ← property "kid" header
  if isString "HS256" alg = false ∨ kid.any truthy = false then
    .error (serviceTokenError "Unsupported or missing key id")
  else match kid with
    | some (.string kid) => match (getSecret registry kid).getD "" with
        | "" => .error (serviceTokenError "Unknown or expired signing key")
        | secret => .ok ⟨kid,secret⟩
    | _ => .error (serviceTokenError "Unknown or expired signing key")

/-- Whether an expiry has come; numbers too large for the type are infinite. -/
def hasCome (exp : Option Json) (now : Instant) : Bool :=
  match exp with
  | some (.number text) => match numberValue text with
      | some x => x.1 ≤ seconds now
      | none => text ≠ "Infinity"
  | _ => true

def nonEmptyString : Option Json → Option String
  | some (.string s) => if s = "" then none else some s
  | _ => none

/-- The claims that a payload carries, once its signature is right. -/
def readClaims (payload : Json) (kid : String) (now : Instant) :
    Except Thrown VerifiedServiceToken := do
  let iss ← property "iss" payload
  if isString ISSUER iss = false then .error (serviceTokenError "Invalid issuer")
  else if isString AUDIENCE (field "aud" payload) = false then
    .error (serviceTokenError "Invalid audience")
  else match nonEmptyString (field "sub" payload) with
    | none => .error (serviceTokenError "Missing subject")
    | some sub =>
        if hasCome (field "exp" payload) now then .error (serviceTokenError "Token expired")
        else .ok ⟨sub,
          match field "permissions" payload with
          | some (.array permissions) => permissions
          | _ => [],kid⟩

def verifyServiceToken (host : Host) (registry : Option Registry) (token : String)
    (now : Instant) : Except Thrown VerifiedServiceToken :=
  match token.toList.splitOn '.' with
  | [headerPart,payloadPart,signaturePart] =>
      match readPart headerPart, readPart payloadPart with
      | some header, some payload => do
          let key ← signingKey (getRegistry host registry) header
          let expected := signatureOf host key.secret (headerPart ++ '.' :: payloadPart)
          if expected ≠ fromBase64 (String.ofList signaturePart) then
            .error (serviceTokenError "Invalid signature")
          else readClaims payload key.kid now
      | _, _ => .error (serviceTokenError "Malformed token")
  | _ => .error (serviceTokenError "Malformed token")

/-! ## Runs of calls -/

inductive Op where
  | mint (claims : ServiceTokenClaims) (ttlSeconds : ℤ) (now : Instant)
  | verify (token : String) (now : Instant)
  | rotate (kid : Uuid) (secret : RandomBytes)

def step (host : Host) (registry : Option Registry) : Op → Option Registry
  | .mint _ _ _ => some (getRegistry host registry)
  | .verify _ _ => some (getRegistry host registry)
  | .rotate kid secret => some (rotate (getRegistry host registry) kid secret)

/-- The registry after a sequence of calls; there is none before the first. -/
def after (host : Host) (ops : List Op) : Option Registry := run (step host) none ops

/-- The keys made by rotations, oldest first. -/
def rotated : List Op → List SigningKey
  | [] => []
  | .rotate kid secret :: ops => ⟨kid.1,hexEncode secret.1⟩ :: rotated ops
  | .mint _ _ _ :: ops => rotated ops
  | .verify _ _ :: ops => rotated ops

def rotations (ops : List Op) : ℕ := (rotated ops).length

/-- All the keys there have been, newest first. -/
def allKeys (host : Host) (ops : List Op) : List SigningKey :=
  (rotated ops).reverse ++ [initialKey host]

/-- No two keys have the same id. -/
def DistinctIds (host : Host) (ops : List Op) : Prop :=
  ((allKeys host ops).map SigningKey.kid).Nodup

/-- What is said of the tokens minted after some calls: with any other calls
before it is verified, a token gives its claims back exactly when fewer than
three rotations came between and its expiry has not come. -/
def SurviveRotations (host : Host) (earlier : List Op) : Prop :=
  ∀ (claims : ServiceTokenClaims) (ttlSeconds : ℤ) (mintedAt now : Instant) (between : List Op),
    claims.sub ≠ "" → ValidTime ((seconds mintedAt + ttlSeconds) * 1000) →
    DistinctIds host (earlier ++ between) →
    ∃ minted, mintServiceToken host (after host earlier) claims ttlSeconds mintedAt = .ok minted ∧
      let registry := after host (earlier ++ .mint claims ttlSeconds mintedAt :: between)
      if rotations between < KEY_RETENTION ∧ seconds now < seconds mintedAt + ttlSeconds then
        ∃ kid, verifyServiceToken host registry minted.token now =
          .ok ⟨claims.sub,claims.permissions.map .string,kid⟩
      else
        ∃ message, verifyServiceToken host registry minted.token now =
          .error (serviceTokenError message)

theorem rotated_append (ops ops' : List Op) :
    rotated (ops ++ ops') = rotated ops ++ rotated ops' := by
  induction ops with
  | nil => rfl
  | cons op ops ih =>
      cases op with
      | mint claims ttlSeconds now => exact ih
      | verify token now => exact ih
      | rotate kid secret =>
          rw [List.cons_append,rotated,rotated,ih]
          rfl

theorem allKeys_append (host : Host) (ops ops' : List Op) :
    allKeys host (ops ++ ops') = (rotated ops').reverse ++ allKeys host ops := by
  rw [allKeys,rotated_append,List.reverse_append,List.append_assoc]
  rfl

/-- The registry keeps the newest keys. -/
theorem getRegistry_after (host : Host) (ops : List Op) :
    getRegistry host (after host ops) = (allKeys host ops).take KEY_RETENTION := by
  induction ops using List.reverseRecOn with
  | nil => rfl
  | append_singleton ops op ih =>
      rw [after,run_append,← after,run_cons,run_nil,allKeys_append]
      cases op with
      | mint claims ttlSeconds now => exact ih
      | verify token now => exact ih
      | rotate kid secret =>
          change rotate (getRegistry host (after host ops)) kid secret = _
          rw [ih,rotate,KEY_RETENTION,List.take_succ_cons,List.take_take]
          rfl

/-- A key is found as long as it is kept. -/
theorem getSecret_take {newer older : List SigningKey} {key : SigningKey}
    (h : ((newer ++ key :: older).map SigningKey.kid).Nodup) (n : ℕ) :
    getSecret ((newer ++ key :: older).take n) key.kid =
      if newer.length < n then some key.secret else none := by
  induction newer generalizing n with
  | nil =>
      cases n with
      | zero => rfl
      | succ n =>
          rw [List.nil_append,List.take_succ_cons,getSecret,
            List.find?_cons_of_pos (by rw [decide_eq_true_eq]),List.length_nil,
            if_pos (Nat.succ_pos n)]
          rfl
  | cons k newer ih =>
      cases n with
      | zero => rfl
      | succ n =>
          rw [List.cons_append,List.map_cons,List.nodup_cons] at h
          have hne : k.kid ≠ key.kid := by
            intro heq
            apply h.1
            rw [heq,List.map_append,List.map_cons]
            exact List.mem_append_right _ List.mem_cons_self
          rw [List.cons_append,List.take_succ_cons,getSecret,
            List.find?_cons_of_neg (by rw [decide_eq_true_eq]; exact hne),← getSecret,ih h.2,
            List.length_cons]
          simp only [Nat.add_lt_add_iff_right]

/-! ## What a token says -/

theorem dot_notMem_toBase64url (bytes : Bytes) : '.' ∉ (toBase64url bytes).toList := by
  rw [toBase64url,String.toList_ofList]
  intro hdot
  obtain ⟨n,hn,hdigit⟩ := List.mem_map.mp hdot
  have hsextet := read_urlDigit n (sextets_lt bytes n hn)
  rw [hdigit] at hsextet
  cases hsextet

theorem readPart_base64url {v : Json} (h : Printable v) :
    readPart (base64url (stringify v)).toList = some v := by
  rw [readPart,String.ofList_toList,base64url,fromBase64_toBase64url,fromUtf8_utf8,
    parseJson_stringify h]

theorem printable_headerOf (kid : String) : Printable (headerOf kid) := by
  apply Printable.object
  · intro f hf
    simp only [List.mem_cons,List.not_mem_nil,or_false] at hf
    obtain rfl | rfl | rfl := hf
    · exact .string _
    · exact .string _
    · exact .string _
  · simp only [List.map_cons,List.map_nil]
    decide

theorem printable_payloadOf (claims : ServiceTokenClaims) {iat exp : Json} (hiat : Printable iat)
    (hexp : Printable exp) : Printable (payloadOf claims iat exp) := by
  apply Printable.object
  · intro f hf
    simp only [List.mem_cons,List.not_mem_nil,or_false] at hf
    obtain rfl | rfl | rfl | rfl | rfl | rfl := hf
    · exact .string _
    · exact .string _
    · exact .string _
    · apply Printable.array
      intro v hv
      obtain ⟨permission,-,rfl⟩ := List.mem_map.mp hv
      exact .string permission
    · exact hiat
    · exact hexp
  · simp only [List.map_cons,List.map_nil]
    decide

/-- What is signed. -/
def inputText (header payload : Json) : List Char :=
  (base64url (stringify header)).toList ++ '.' :: (base64url (stringify payload)).toList

def tokenText (header payload : Json) (signature : Bytes) : String :=
  String.ofList (inputText header payload ++ '.' :: (toBase64url signature).toList)

theorem splitOn_tokenText (header payload : Json) (signature : Bytes) :
    (tokenText header payload signature).toList.splitOn '.' =
      [(base64url (stringify header)).toList,(base64url (stringify payload)).toList,
        (toBase64url signature).toList] := by
  rw [tokenText,inputText,String.toList_ofList,List.append_assoc,List.cons_append,base64url,
    base64url,List.splitOn_append_cons_self_of_not_mem (dot_notMem_toBase64url _),
    List.splitOn_append_cons_self_of_not_mem (dot_notMem_toBase64url _),
    List.splitOn_eq_singleton (dot_notMem_toBase64url _)]

theorem mintServiceToken_eq (host : Host) {registry : Option Registry} {key : SigningKey}
    {older : List SigningKey} (hkeys : getRegistry host registry = key :: older)
    (claims : ServiceTokenClaims) {ttlSeconds : ℤ} {now : Instant}
    (h : ValidTime ((seconds now + ttlSeconds) * 1000)) :
    let payload := payloadOf claims (wholeNumber (seconds now) (natAbs_seconds now))
      (wholeNumber (seconds now + ttlSeconds) (natAbs_exp h))
    mintServiceToken host registry claims ttlSeconds now =
      .ok ⟨tokenText (headerOf key.kid) payload
          (signatureOf host key.secret (inputText (headerOf key.kid) payload)),
        toISOString ((seconds now + ttlSeconds) * 1000)⟩ := by
  simp only [mintServiceToken,hkeys,current]
  exact dif_pos h

theorem signingKey_headerOf (registry : Registry) {kid : String} (hkid : kid ≠ "") :
    signingKey registry (headerOf kid) =
      match (getSecret registry kid).getD "" with
      | "" => .error (serviceTokenError "Unknown or expired signing key")
      | secret => .ok ⟨kid,secret⟩ := by
  have hheader : ¬ (isString "HS256" (some (.string "HS256")) = false ∨
      (some (Json.string kid)).any truthy = false) := by
    have htruthy : (some (Json.string kid)).any truthy = true := decide_eq_true hkid
    rw [htruthy]
    decide
  exact if_neg hheader

/-- The claims are read back until the expiry. -/
theorem readClaims_payloadOf {claims : ServiceTokenClaims} (hsub : claims.sub ≠ "") (iat : Json)
    (kid : String) {exp : ℤ} (hexp : exp.natAbs < 9007199254740992) (now : Instant) :
    readClaims (payloadOf claims iat (wholeNumber exp hexp)) kid now =
      if exp ≤ seconds now then .error (serviceTokenError "Token expired")
      else .ok ⟨claims.sub,claims.permissions.map .string,kid⟩ := by
  have hnonEmpty : nonEmptyString (field "sub" (payloadOf claims iat (wholeNumber exp hexp))) =
      some claims.sub := if_neg hsub
  have hcome : hasCome (field "exp" (payloadOf claims iat (wholeNumber exp hexp))) now =
      decide (exp ≤ seconds now) := by
    change hasCome (some (wholeNumber exp hexp)) now = _
    rw [wholeNumber,hasCome,numberValue_numberText]
    simp only [Int.cast_le]
  simp only [readClaims,hnonEmpty,hcome]
  by_cases h : exp ≤ seconds now
  · rw [if_pos h,decide_eq_true h]
    rfl
  · rw [if_neg h,decide_eq_false h]
    rfl

theorem verifyServiceToken_tokenText (host : Host) (registry : Option Registry)
    {header payload : Json} (hheader : Printable header) (hpayload : Printable payload)
    (signature : Bytes) (now : Instant) :
    verifyServiceToken host registry (tokenText header payload signature) now =
      (signingKey (getRegistry host registry) header).bind fun key =>
        if signatureOf host key.secret (inputText header payload) ≠ signature then
          .error (serviceTokenError "Invalid signature")
        else readClaims payload key.kid now := by
  simp only [verifyServiceToken,splitOn_tokenText,readPart_base64url hheader,
    readPart_base64url hpayload,String.ofList_toList,fromBase64_toBase64url]
  rfl

/-- A token is read back with the secret it was signed with. -/
theorem verify_of_secret (host : Host) {registry : Option Registry} {key : SigningKey}
    (hkid : key.kid ≠ "") (hsecret : key.secret ≠ "")
    (hfound : getSecret (getRegistry host registry) key.kid = some key.secret) {payload : Json}
    (hpayload : Printable payload) (now : Instant) :
    verifyServiceToken host registry (tokenText (headerOf key.kid) payload
      (signatureOf host key.secret (inputText (headerOf key.kid) payload))) now =
        readClaims payload key.kid now := by
  rw [verifyServiceToken_tokenText host registry (printable_headerOf key.kid) hpayload,
    signingKey_headerOf _ hkid,hfound,Option.getD_some]
  split
  · rename_i hempty
    exact absurd hempty hsecret
  · exact if_neg (not_not_intro rfl)

/-- A token is refused when its key has no id, or its secret is not found or empty. -/
theorem verify_of_noSecret (host : Host) {registry : Option Registry} {kid : String}
    (h : kid = "" ∨ (getSecret (getRegistry host registry) kid).getD "" = "") {payload : Json}
    (hpayload : Printable payload) (signature : Bytes) (now : Instant) :
    ∃ message, verifyServiceToken host registry
      (tokenText (headerOf kid) payload signature) now = .error (serviceTokenError message) := by
  rw [verifyServiceToken_tokenText host registry (printable_headerOf kid) hpayload]
  by_cases hkid : kid = ""
  · refine ⟨"Unsupported or missing key id",?_⟩
    rw [hkid]
    rfl
  · refine ⟨"Unknown or expired signing key",?_⟩
    rw [signingKey_headerOf _ hkid,h.resolve_left hkid]
    rfl

/-! ## Which keys tokens are minted with -/

theorem hexEncode_ne {bytes : Bytes} (h : bytes ≠ []) : hexEncode bytes ≠ "" := by
  intro hempty
  have hdecode := hexDecode_hexEncode bytes
  rw [hempty] at hdecode
  exact h hdecode.symm

theorem randomBytes_ne (bytes : RandomBytes) : bytes.1 ≠ [] := by
  intro hnil
  have hlength := bytes.2
  rw [hnil] at hlength
  cases hlength

theorem rotated_ne {ops : List Op} {key : SigningKey} (h : key ∈ rotated ops) :
    key.kid ≠ "" ∧ key.secret ≠ "" := by
  induction ops with
  | nil => cases h
  | cons op ops ih =>
      cases op with
      | mint claims ttlSeconds now => exact ih h
      | verify token now => exact ih h
      | rotate kid secret =>
          cases List.mem_cons.mp h with
          | inl heq =>
              rw [heq]
              constructor
              · intro hempty
                have hlength := kid.2
                have hkid : kid.1 = "" := hempty
                rw [hkid] at hlength
                cases hlength
              · exact hexEncode_ne (randomBytes_ne secret)
          | inr hmem => exact ih hmem

/-- The first key is the only one that can lack an id or a secret. -/
def InitialKeySet (host : Host) : Prop :=
  host.SERVICE_TOKEN_KID ≠ some "" ∧ host.SERVICE_TOKEN_SECRET ≠ some ""

theorem initialKey_ne_iff (host : Host) :
    (initialKey host).kid ≠ "" ∧ (initialKey host).secret ≠ "" ↔ InitialKeySet host := by
  have hkid : (initialKey host).kid = "" ↔ host.SERVICE_TOKEN_KID = some "" := by
    unfold initialKey
    cases host.SERVICE_TOKEN_KID with
    | none => simp
    | some kid => simp
  have hsecret : (initialKey host).secret = "" ↔ host.SERVICE_TOKEN_SECRET = some "" := by
    unfold initialKey
    cases host.SERVICE_TOKEN_SECRET with
    | none => simp [hexEncode_ne (randomBytes_ne host.drawn)]
    | some secret => simp
  rw [InitialKeySet,ne_eq,ne_eq,hkid,hsecret]

/-- The key that tokens are minted with after some calls. -/
theorem exists_mintingKey (host : Host) (earlier : List Op) :
    ∃ key older, allKeys host earlier = key :: older ∧
      (key.kid ≠ "" ∧ key.secret ≠ "" ↔ rotations earlier = 0 → InitialKeySet host) := by
  unfold allKeys rotations
  cases hrotated : (rotated earlier).reverse with
  | nil =>
      rw [List.reverse_eq_nil_iff] at hrotated
      refine ⟨initialKey host,[],rfl,?_⟩
      rw [initialKey_ne_iff,hrotated]
      simp
  | cons key older =>
      refine ⟨key,older ++ [initialKey host],rfl,?_⟩
      have hmem : key ∈ rotated earlier := by
        rw [← List.mem_reverse,hrotated]
        exact List.mem_cons_self
      have hpos : (rotated earlier).length ≠ 0 := List.length_pos_of_mem hmem |>.ne'
      simp only [rotated_ne hmem,ne_eq,not_false_eq_true,and_self,hpos,false_imp_iff]

theorem wholeNumber_printable (z : ℤ) (h : z.natAbs < 9007199254740992) :
    Printable (wholeNumber z h) :=
  .number _

/-- The keys that are kept when a token is verified. -/
theorem getSecret_after {host : Host} {earlier between : List Op} {key : SigningKey}
    {older : List SigningKey} (hkeys : allKeys host earlier = key :: older)
    (hdistinct : DistinctIds host (earlier ++ between)) (claims : ServiceTokenClaims)
    (ttlSeconds : ℤ) (mintedAt : Instant) :
    getSecret (getRegistry host
        (after host (earlier ++ .mint claims ttlSeconds mintedAt :: between))) key.kid =
      if rotations between < KEY_RETENTION then some key.secret else none := by
  have hall : allKeys host (earlier ++ .mint claims ttlSeconds mintedAt :: between) =
      (rotated between).reverse ++ key :: older := by
    rw [allKeys_append,hkeys]
    rfl
  rw [DistinctIds,allKeys_append,hkeys] at hdistinct
  rw [getRegistry_after,hall,getSecret_take hdistinct,List.length_reverse]
  rfl

theorem getRegistry_cons {host : Host} {earlier : List Op} {key : SigningKey}
    {older : List SigningKey} (hkeys : allKeys host earlier = key :: older) :
    getRegistry host (after host earlier) = key :: older.take 2 := by
  rw [getRegistry_after,hkeys]
  rfl

/-- The start of the epoch. -/
def epoch : Instant := ⟨0,by decide⟩

/-- No token of a key that lacks its id or its secret is verified. -/
theorem not_survive {host : Host} {earlier : List Op} {key : SigningKey}
    {older : List SigningKey} (hkeys : allKeys host earlier = key :: older)
    (hdistinct : DistinctIds host earlier) (hempty : ¬ (key.kid ≠ "" ∧ key.secret ≠ "")) :
    ¬ SurviveRotations host earlier := by
  intro h
  rw [← List.append_nil earlier] at hdistinct
  have hvalid : ValidTime ((seconds epoch + 300) * 1000) := by decide
  obtain ⟨minted,hminted,hverified⟩ :=
    h ⟨"reconciliation-worker",[]⟩ 300 epoch epoch [] (by decide) hvalid hdistinct
  rw [mintServiceToken_eq host (getRegistry_cons hkeys) _ hvalid,Except.ok.injEq] at hminted
  rw [if_pos (by decide),← hminted] at hverified
  obtain ⟨kid,hok⟩ := hverified
  have hsecret := getSecret_after hkeys hdistinct ⟨"reconciliation-worker",[]⟩ 300 epoch
  rw [if_pos (by decide)] at hsecret
  have hnone : key.kid = "" ∨ (getSecret (getRegistry host (after host (earlier ++
      [.mint ⟨"reconciliation-worker",[]⟩ 300 epoch]))) key.kid).getD "" = "" := by
    rw [hsecret,Option.getD_some]
    rwa [← not_or,not_not] at hempty
  obtain ⟨message,herror⟩ := verify_of_noSecret host hnone (printable_payloadOf _
    (wholeNumber_printable (seconds epoch) (natAbs_seconds epoch))
    (wholeNumber_printable (seconds epoch + 300) (natAbs_exp hvalid))) _ epoch
  rw [herror] at hok
  cases hok

/-- Tokens survive exactly the rotations that keep their key, unless they are
minted with a first key whose id or secret is empty: that key is never found. -/
theorem service_tokens_survive_iff (host : Host) (earlier : List Op) :
    SurviveRotations host earlier ↔ (rotations earlier = 0 → InitialKeySet host) := by
  obtain ⟨key,older,hkeys,hset⟩ := exists_mintingKey host earlier
  rw [← hset]
  constructor
  · intro h
    by_contra hempty
    have hrotations : rotations earlier = 0 := by
      by_contra hsome
      exact hempty (hset.mpr fun hzero => absurd hzero hsome)
    have hdistinct : DistinctIds host earlier := by
      rw [DistinctIds,allKeys,List.length_eq_zero_iff.mp hrotations]
      exact List.nodup_singleton _
    exact not_survive hkeys hdistinct hempty h
  · intro hkey claims ttlSeconds mintedAt now between hsub hvalid hdistinct
    refine ⟨_,mintServiceToken_eq host (getRegistry_cons hkeys) claims hvalid,?_⟩
    have hpayload := printable_payloadOf claims
      (wholeNumber_printable (seconds mintedAt) (natAbs_seconds mintedAt))
      (wholeNumber_printable (seconds mintedAt + ttlSeconds) (natAbs_exp hvalid))
    have hsecret := getSecret_after hkeys hdistinct claims ttlSeconds mintedAt
    by_cases hkept : rotations between < KEY_RETENTION
    · rw [if_pos hkept] at hsecret
      have hverify := verify_of_secret host hkey.1 hkey.2 hsecret hpayload now
      rw [readClaims_payloadOf hsub] at hverify
      by_cases hexp : seconds now < seconds mintedAt + ttlSeconds
      · rw [if_neg (by omega)] at hverify
        rw [if_pos ⟨hkept,hexp⟩]
        exact ⟨key.kid,hverify⟩
      · rw [if_pos (by omega)] at hverify
        rw [if_neg (fun hboth => hexp hboth.2)]
        exact ⟨"Token expired",hverify⟩
    · rw [if_neg hkept] at hsecret
      rw [if_neg (fun hboth => hkept hboth.1)]
      exact verify_of_noSecret host (.inr (by rw [hsecret]; rfl)) hpayload _ now

/-- `SERVICE_TOKEN_KID` is set to the empty string. -/
def emptyKid : Host where
  SERVICE_TOKEN_SECRET := some "a-completely-different-secret-value"
  SERVICE_TOKEN_KID := some ""
  hmac secret input := utf8 secret ++ input
  drawn := ⟨List.replicate 32 0,rfl⟩

theorem fresh_token_refused : ¬ SurviveRotations emptyKid [] := by
  apply not_survive (show allKeys emptyKid [] = [initialKey emptyKid] from rfl)
  · exact List.nodup_singleton _
  · intro hset
    exact hset.1 rfl

end Creditra.ServiceTokens
