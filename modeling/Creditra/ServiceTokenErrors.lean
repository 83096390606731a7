import Creditra.ServiceTokens

/-!
# What verifying a service token throws

Both parts of a token may hold any JSON value. A property is read of the header
right after parsing, and of the payload once the signature is right; reading one
of `null` throws an error of its own.
-/
namespace Creditra.ServiceTokenErrors
open Base64 JsonValues ServiceTokens StellarDiagnostics

/-- A call that ends as its documentation says: with a value, or with a
`ServiceTokenError`. -/
def Documented {α : Type} : Except Thrown α → Prop
  | .ok _ => True
  | .error thrown => ∃ message, thrown = serviceTokenError message

theorem documented_error {α : Type} (message : String) :
    Documented (Except.error (serviceTokenError message) : Except Thrown α) :=
  ⟨message,rfl⟩

theorem property_of_ne {value : Json} (h : value ≠ .null) (key : String) :
    property key value = .ok (field key value) := by
  cases value with
  | null => exact absurd rfl h
  | bool b => rfl
  | number text => rfl
  | string s => rfl
  | array items => rfl
  | object fields => rfl

theorem documented_signingKey (registry : Registry) {header : Json} (h : header ≠ .null) :
    Documented (signingKey registry header) := by
  unfold signingKey
  rw [property_of_ne h,property_of_ne h]
  simp only [bind,Except.bind]
  split_ifs
  · exact documented_error _
  · split
    · split
      · exact documented_error _
      · trivial
    · exact documented_error _

theorem documented_readClaims {payload : Json} (h : payload ≠ .null) (kid : String)
    (now : Instant) : Documented (readClaims payload kid now) := by
  unfold readClaims
  rw [property_of_ne h]
  simp only [bind,Except.bind]
  cases nonEmptyString (field "sub" payload) with
  | none =>
      dsimp only
      split_ifs
      · exact documented_error _
      · exact documented_error _
      · exact documented_error _
  | some sub =>
      split_ifs
      · exact documented_error _
      · exact documented_error _
      · exact documented_error _
      · trivial

theorem not_documented_null_header (registry : Registry) :
    ¬ Documented (signingKey registry .null) := by
  intro h
  obtain ⟨message,h⟩ := h
  have hname : "TypeError" = "ServiceTokenError" := congrArg Thrown.name h
  exact absurd hname (by decide)

theorem not_documented_null_payload (kid : String) (now : Instant) :
    ¬ Documented (readClaims .null kid now) := by
  intro h
  obtain ⟨message,h⟩ := h
  have hname : "TypeError" = "ServiceTokenError" := congrArg Thrown.name h
  exact absurd hname (by decide)

/-- A token of three parts that both parse, whose header is `null`, or whose payload
is `null` under a right signature. -/
def ReadsNull (host : Host) (registry : Option Registry) (token : String) : Prop :=
  ∃ headerPart payloadPart signaturePart header payload,
    token.toList.splitOn '.' = [headerPart,payloadPart,signaturePart] ∧
    readPart headerPart = some header ∧ readPart payloadPart = some payload ∧
    (header = .null ∨ payload = .null ∧
      ∃ key, signingKey (getRegistry host registry) header = .ok key ∧
        signatureOf host key.secret (headerPart ++ '.' :: payloadPart) =
          fromBase64 (String.ofList signaturePart))

theorem verifyServiceToken_parts {host : Host} {registry : Option Registry} {token : String}
    {headerPart payloadPart signaturePart : List Char} {header payload : Json}
    (hsplit : token.toList.splitOn '.' = [headerPart,payloadPart,signaturePart])
    (hheader : readPart headerPart = some header) (hpayload : readPart payloadPart = some payload)
    (now : Instant) :
    verifyServiceToken host registry token now =
      (signingKey (getRegistry host registry) header).bind fun key =>
        if signatureOf host key.secret (headerPart ++ '.' :: payloadPart) ≠
            fromBase64 (String.ofList signaturePart) then
          .error (serviceTokenError "Invalid signature")
        else readClaims payload key.kid now := by
  simp only [verifyServiceToken,hsplit,hheader,hpayload]
  rfl

theorem not_documented_of_readsNull {host : Host} {registry : Option Registry} {token : String}
    (h : ReadsNull host registry token) (now : Instant) :
    ¬ Documented (verifyServiceToken host registry token now) := by
  obtain ⟨headerPart,payloadPart,signaturePart,header,payload,hsplit,hheader,hpayload,hnull⟩ := h
  rw [verifyServiceToken_parts hsplit hheader hpayload]
  rcases hnull with rfl | ⟨rfl,key,hkey,hsignature⟩
  · exact not_documented_null_header (getRegistry host registry)
  · rw [hkey]
    simp only [Except.bind,hsignature,ne_eq,not_true_eq_false,if_false]
    exact not_documented_null_payload _ _

theorem documented_of_not_readsNull {host : Host} {registry : Option Registry} {token : String}
    (h : ¬ ReadsNull host registry token) (now : Instant) :
    Documented (verifyServiceToken host registry token now) := by
  unfold verifyServiceToken
  split
  · rename_i headerPart payloadPart signaturePart hsplit
    split
    · rename_i header payload hheader hpayload
      have hnull : header ≠ .null := by
        intro hnull
        exact h ⟨_,_,_,_,_,hsplit,hheader,hpayload,.inl hnull⟩
      have hkey := documented_signingKey (getRegistry host registry) hnull
      cases hfound : signingKey (getRegistry host registry) header with
      | error thrown =>
          rw [hfound] at hkey
          exact hkey
      | ok key =>
          simp only [bind,Except.bind]
          split_ifs with hsignature
          · exact documented_error _
          · refine documented_readClaims (fun hnull => ?_) key.kid now
            exact h ⟨_,_,_,_,_,hsplit,hheader,hpayload,.inr ⟨hnull,key,hfound,
              not_not.mp hsignature⟩⟩
    · exact documented_error _
  · exact documented_error _

/-- Verifying throws nothing but a `ServiceTokenError` exactly if it does not come to
read a property of a parsed `null`. -/
theorem verify_throws_documented_iff (host : Host) (registry : Option Registry) (token : String)
    (now : Instant) :
    ((∃ verified, verifyServiceToken host registry token now = .ok verified) ∨
      ∃ message, verifyServiceToken host registry token now =
        .error (serviceTokenError message)) ↔ ¬ ReadsNull host registry token := by
  have hdocumented : ((∃ verified, verifyServiceToken host registry token now = .ok verified) ∨
      ∃ message, verifyServiceToken host registry token now =
        .error (serviceTokenError message)) ↔
      Documented (verifyServiceToken host registry token now) := by
    cases verifyServiceToken host registry token now with
    | ok verified => simp [Documented]
    | error thrown => simp [Documented]
  rw [hdocumented]
  constructor
  · intro h hnull
    exact not_documented_of_readsNull hnull now h
  · intro h
    exact documented_of_not_readsNull h now

/-- Both parts are the encoding of `null`. -/
theorem verify_null_header :
    (tokenText .null .null [] = "bnVsbA.bnVsbA.") ∧
    ¬ ((∃ verified, verifyServiceToken emptyKid none "bnVsbA.bnVsbA." epoch = .ok verified) ∨
      ∃ message, verifyServiceToken emptyKid none "bnVsbA.bnVsbA." epoch =
        .error (serviceTokenError message)) := by
  have htoken : tokenText .null .null [] = "bnVsbA.bnVsbA." := by decide +kernel
  have hnull : ReadsNull emptyKid none "bnVsbA.bnVsbA." := by
    rw [← htoken]
    exact ⟨_,_,_,_,_,splitOn_tokenText .null .null [],readPart_base64url .null,
      readPart_base64url .null,.inl rfl⟩
  refine ⟨htoken,fun h => ?_⟩
  have hno := not_documented_of_readsNull hnull epoch
  rcases h with ⟨verified,h⟩ | ⟨message,h⟩
  · rw [h] at hno
    exact hno trivial
  · rw [h] at hno
    exact hno (documented_error message)

end Creditra.ServiceTokenErrors
