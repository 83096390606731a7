import Creditra.GuardedRuns
import Creditra.IdempotencyStore
import Creditra.InboundWebhookSignature
import Creditra.Sha256

/-!
# The idempotency middleware over the in-memory store

A server is the store and the exchanges it has seen, one for each request. An
exchange moves when the event loop runs one of its continuations: the request
arrives and `begin` is called, the answer of `begin` is taken up, an awaited
promise has settled, the response finishes, the connection closes, the request
is aborted. Continuations of different exchanges run in any order.

When `begin` answers that the claim is new, the response listeners are attached
and the downstream handler is started. The `finish` listener completes or fails
the claim; the `close` and `aborted` listeners fail it, also while the handler
is still at work. Failing a claim rejects its promise, and a rejection that no
exchange awaits ends the process. Hashing is a parameter.
-/
namespace Creditra.IdempotencyMiddleware
open GuardedRuns InsertionMaps JsonValues IdempotencyStore
open JsStrings (Header)

structure Request where
  method : String
  path : String
  idempotencyKey : Header
  xApiKey : Header := .absent
  xAdminApiKey : Header := .absent
  authorization : Header := .absent
  query : Json := .object []
  body : Option Json

def MAX_KEY_LENGTH : ℕ := 255

def headerValue : Header → Option String
  | .absent => none
  | .one value => some value
  | .many values => values.head?

/-- A value that a condition takes for true. -/
def nonEmpty (value : Option String) : Option String := value.filter (· ≠ "")

def bodyWalletAddress (req : Request) : Option String :=
  match req.body.bind (field "walletAddress") with
  | some (.string walletAddress) => some walletAddress
  | _ => none

section
variable (sha256 : String → String)

def resolvePrincipal (req : Request) : String :=
  match nonEmpty (headerValue req.xApiKey) with
  | some apiKey => "x-api-key:" ++ sha256 apiKey
  | none => match nonEmpty (headerValue req.xAdminApiKey) with
    | some adminApiKey => "x-admin-api-key:" ++ sha256 adminApiKey
    | none => match nonEmpty (headerValue req.authorization) with
      | some authorization => "authorization:" ++ sha256 authorization
      | none => match nonEmpty (bodyWalletAddress req) with
        | some walletAddress => "wallet:" ++ sha256 walletAddress
        | none => "anonymous"

def entryOf (req : Request) (idempotencyKey : String) : IdempotencyEntry where
  keyHash := sha256 idempotencyKey
  scope := req.method ++ ":" ++ req.path
  principalHash := sha256 (resolvePrincipal sha256 req)
  requestHash := sha256 (stableStringify (.object [
    ("method",.string req.method),("path",.string req.path),("query",req.query),
    ("body",req.body.getD .null)]))

/-- What the middleware decides before it calls the store. -/
inductive Admission where
  | pass
  | reject (error : String)
  | begin (entry : IdempotencyEntry)
  deriving DecidableEq

def admission (req : Request) : Admission :=
  if req.method ≠ "POST" then .pass
  else match req.idempotencyKey with
    | .absent => .pass
    | .many _ => .reject "Only one Idempotency-Key header is allowed"
    | .one rawHeader =>
        let idempotencyKey := JsStrings.trim rawHeader
        if idempotencyKey = "" then .reject "Idempotency-Key must not be empty"
        else if JsStrings.length idempotencyKey > MAX_KEY_LENGTH then
          .reject "Idempotency-Key is too long"
        else .begin (entryOf sha256 req idempotencyKey)

end

def errorResponse (statusCode : ℤ) (error : String) : CachedIdempotencyResponse :=
  ⟨statusCode,.object [("data",.null),("error",.string error)]⟩

def stillProcessing : CachedIdempotencyResponse :=
  errorResponse 409 "A matching idempotent request is still being processed"

/-- Where an exchange is. The handler has been started in `passed`, without a
claim, and in `running` and `finished`, under one. -/
inductive Phase where
  | passed
  | answered (response : CachedIdempotencyResponse)
  | begun (result : IdempotencyBeginResult)
  | waiting (promise : Token)
  | running (token : Token)
  | finished (token : Token) (statusCode : ℤ)

structure Exchange where
  request : Request
  phase : Phase

/-- `ended` says that the process has come to its end. -/
structure Server where
  store : InMemoryIdempotencyStore
  exchanges : List Exchange := []
  ended : Bool := false

inductive Event where
  | arrive (request : Request) (pruneAt claimAt : ℤ)
  | resume (i : ℕ)
  | settled (i : ℕ)
  | finish (i : ℕ) (statusCode : ℤ) (capturedBody : Option Json) (now : ℤ)
  | close (i : ℕ) (writableEnded : Bool)
  | aborted (i : ℕ)

/-- The continuation of `await store.begin(...)`. -/
def resumed : IdempotencyBeginResult → Phase
  | .conflict => .answered
      (errorResponse 409 "Idempotency-Key was already used for a different request")
  | .replay response => .answered response
  | .pending promise => .waiting promise
  | .inProgress => .answered stillProcessing
  | .started token => .running token

/-- The continuation of an awaited promise. -/
def awaited : Option CachedIdempotencyResponse → Phase
  | some response => .answered response
  | none => .answered stillProcessing

/-- The `finish` listener. -/
def onFinish (store : InMemoryIdempotencyStore) (token : Token) (statusCode : ℤ)
    (capturedBody : Option Json) (now : ℤ) : InMemoryIdempotencyStore :=
  if statusCode ≥ 500 then store.fail token
  else store.complete token ⟨statusCode,capturedBody.getD .null⟩ now

/-- The token of the listeners on an exchange, once they are attached. -/
def Phase.listening : Phase → Option Token
  | .running token => some token
  | .finished token _ => some token
  | _ => none

/-- The exchange awaits the promise, or does so once `begin` is taken up. -/
def Phase.awaits (promise : Token) : Phase → Bool
  | .begun (.pending promise') => promise' = promise
  | .waiting promise' => promise' = promise
  | _ => false

namespace Server

def move (s : Server) (i : ℕ) (a : Exchange) (phase : Phase) : Server :=
  { s with exchanges := s.exchanges.set i { a with phase } }

/-- Failing the token would reject a promise that no exchange awaits. -/
def unheard (s : Server) (token : Token) : Bool :=
  match s.store.rejected token with
  | some promise => s.exchanges.all fun a => !a.phase.awaits promise
  | none => false

/-- The `close` listener does nothing once the response has ended. -/
def disconnect (s : Server) (i : ℕ) : Server :=
  match s.exchanges[i]?.bind (·.phase.listening) with
  | some token => { s with store := s.store.fail token, ended := s.unheard token }
  | none => s

def act (sha256 : String → String) (s : Server) : Event → Server
  | .arrive request pruneAt claimAt =>
      match admission sha256 request with
      | .pass => { s with exchanges := s.exchanges ++ [⟨request,.passed⟩] }
      | .reject error =>
          { s with exchanges := s.exchanges ++ [⟨request,.answered (errorResponse 400 error)⟩] }
      | .begin entry =>
          let (result,store) := s.store.begin entry pruneAt claimAt
          { s with store, exchanges := s.exchanges ++ [⟨request,.begun result⟩] }
  | .resume i => match s.exchanges[i]? with
      | some ⟨request,.begun result⟩ => s.move i ⟨request,.begun result⟩ (resumed result)
      | _ => s
  | .settled i => match s.exchanges[i]? with
      | some ⟨request,.waiting promise⟩ => match s.store.settled.get promise with
          | some outcome => s.move i ⟨request,.waiting promise⟩ (awaited outcome)
          | none => s
      | _ => s
  | .finish i statusCode capturedBody now => match s.exchanges[i]? with
      | some ⟨request,.running token⟩ =>
          { s with
            store := onFinish s.store token statusCode capturedBody now
            ended := decide (statusCode ≥ 500) && s.unheard token }.move i
            ⟨request,.running token⟩ (.finished token statusCode)
      | _ => s
  | .close i writableEnded => if writableEnded then s else s.disconnect i
  | .aborted i => s.disconnect i

def step (sha256 : String → String) (s : Server) (e : Event) : Server :=
  if s.ended then s else s.act sha256 e

def start (ttlMs : ℤ) : Server := { store := { ttlMs } }

end Server

/-- The trimmed key, as it is hashed. -/
def keyOf (req : Request) : Option String :=
  match req.idempotencyKey with
  | .one rawHeader => some (JsStrings.trim rawHeader)
  | _ => none

/-- Same key, principal, method, path and body. -/
def SameCall (sha256 : String → String) (req req' : Request) : Prop :=
  keyOf req = keyOf req' ∧ resolvePrincipal sha256 req = resolvePrincipal sha256 req' ∧
    req.method = req'.method ∧ req.path = req'.path ∧ req.body = req'.body

/-- The handler behind the middleware has been started for this exchange. -/
def Exchange.Started (a : Exchange) : Prop :=
  match a.phase with
  | .passed | .running _ | .finished _ _ => True
  | _ => False

/-- The started handler has finished with a server error. -/
def Exchange.FinishedFailing (a : Exchange) : Prop :=
  ∃ token statusCode, a.phase = .finished token statusCode ∧ 500 ≤ statusCode

/-- Of any two starts for the same call, one has finished with a server error.
At the moment of a start this says that all earlier starts have. -/
def StartedOnce (K : Request → Prop) (s : Server) : Prop :=
  ∀ (i j : ℕ) (a b : Exchange), s.exchanges[i]? = some a → s.exchanges[j]? = some b → i ≠ j →
    K a.request → K b.request → a.Started → b.Started →
    a.FinishedFailing ∨ b.FinishedFailing

/-- The key's record has not expired when the store is next pruned. -/
def WithinTtl (key : String) (s : Server) : Event → Prop
  | .arrive _ pruneAt _ => ∀ record ∈ s.store.records.get key, pruneAt < record.expiresAt
  | _ => True

instance (key : String) (s : Server) : (e : Event) → Decidable (WithinTtl key s e)
  | .arrive _ pruneAt _ =>
      inferInstanceAs (Decidable (∀ record ∈ s.store.records.get key, pruneAt < record.expiresAt))
  | .resume _ | .settled _ | .finish _ _ _ _ | .close _ _ | .aborted _ =>
      inferInstanceAs (Decidable True)

/-- The event is a client disconnect as the listeners of exchange `i` see it. -/
def Event.disconnects (i : ℕ) : Event → Prop
  | .close j writableEnded => j = i ∧ writableEnded = false
  | .aborted j => j = i
  | _ => False

/-- No disconnect reaches a started exchange of the call while its token is
still registered in the store. -/
def Undisturbed (K : Request → Prop) (s : Server) (e : Event) : Prop :=
  ∀ (i : ℕ) (a : Exchange) (token : Token), e.disconnects i → s.exchanges[i]? = some a →
    K a.request → a.phase.listening = some token → s.store.tokens.get token = none

/-! ## Claims and the tokens that hold them -/

/-- The token drawn for this exchange. -/
def Phase.token : Phase → Option Token
  | .begun (.started token) => some token
  | .running token => some token
  | .finished token _ => some token
  | _ => none

/-- The same, unless the handler has finished with a server error. -/
def Phase.claim : Phase → Option Token
  | .finished token statusCode => if 500 ≤ statusCode then none else some token
  | phase => phase.token

theorem Phase.token_of_claim {phase : Phase} {t : Token} (h : phase.claim = some t) :
    phase.token = some t := by
  unfold Phase.claim at h
  split at h
  · split at h
    · cases h
    · exact h
  · exact h

theorem Phase.started_of_token {result : IdempotencyBeginResult} {t : Token}
    (h : (Phase.begun result).token = some t) : result = .started t := by
  cases result with
  | started token =>
      cases h
      rfl
  | replay _ | pending _ | inProgress | conflict => cases h

theorem Phase.token_of_listening {phase : Phase} {t : Token} (h : phase.listening = some t) :
    phase.token = some t := by
  cases phase <;> first | exact h | cases h

/-- A started exchange that has not finished with a server error keeps its claim. -/
theorem Exchange.Started.claim {a : Exchange} (hs : a.Started) (hp : a.phase ≠ .passed)
    (hf : ¬ a.FinishedFailing) : ∃ t, a.phase.claim = some t := by
  obtain ⟨request,phase⟩ := a
  cases phase with
  | running t => exact ⟨t,rfl⟩
  | finished t statusCode =>
      refine ⟨t,if_neg ?_⟩
      intro h500
      exact hf ⟨t,statusCode,rfl,h500⟩
  | passed => exact absurd rfl hp
  | answered _ => cases hs
  | begun _ => cases hs
  | waiting _ => cases hs

/-- Tokens are drawn once, and every claim of the call holds the call's key. -/
structure Inv (K : Request → Prop) (key : String) (s : Server) : Prop where
  store : s.store.WellFormed
  drawn : ∀ (i : ℕ) (a : Exchange) (t : Token), s.exchanges[i]? = some a →
    a.phase.token = some t → t < s.store.nextToken
  distinct : ∀ (i j : ℕ) (a b : Exchange) (t : Token), s.exchanges[i]? = some a →
    s.exchanges[j]? = some b → a.phase.token = some t → b.phase.token = some t → i = j
  held : ∀ (i : ℕ) (a : Exchange) (t : Token), s.exchanges[i]? = some a → K a.request →
    a.phase.claim = some t → s.store.holder key = some t
  admitted : ∀ (i : ℕ) (a : Exchange), s.exchanges[i]? = some a → K a.request →
    a.phase ≠ .passed

theorem inv_start (K : Request → Prop) (key : String) (ttlMs : ℤ) :
    Inv K key (Server.start ttlMs) where
  store := InMemoryIdempotencyStore.wellFormed_new ttlMs
  drawn i a t h := by simp [Server.start] at h
  distinct i j a b t h := by simp [Server.start] at h
  held i a t h := by simp [Server.start] at h
  admitted i a h := by simp [Server.start] at h

theorem Inv.startedOnce {K : Request → Prop} {key : String} {s : Server} (h : Inv K key s) :
    StartedOnce K s := by
  intro i j a b hi hj hij hKa hKb hsa hsb
  by_contra hno
  rw [not_or] at hno
  obtain ⟨t,ht⟩ := hsa.claim (h.admitted i a hi hKa) hno.1
  obtain ⟨t',ht'⟩ := hsb.claim (h.admitted j b hj hKb) hno.2
  have hheld := h.held i a t hi hKa ht
  rw [h.held j b t' hj hKb ht'] at hheld
  cases hheld
  exact hij (h.distinct i j a b t hi hj (Phase.token_of_claim ht) (Phase.token_of_claim ht'))

/-- No exchange of `s'` has a token or a claim it did not have in `s`, and none
has slipped past the store. -/
def Later (s s' : Server) : Prop :=
  ∀ (i : ℕ) (a' : Exchange), s'.exchanges[i]? = some a' → ∃ a, s.exchanges[i]? = some a ∧
    a'.request = a.request ∧ (∀ t, a'.phase.token = some t → a.phase.token = some t) ∧
    (∀ t, a'.phase.claim = some t → a.phase.claim = some t) ∧
    (a'.phase = .passed → a.phase = .passed)

theorem later_of_exchanges {s s' : Server} (h : s'.exchanges = s.exchanges) : Later s s' := by
  intro i a ha
  rw [h] at ha
  exact ⟨a,ha,rfl,fun _ ht => ht,fun _ ht => ht,id⟩

theorem later_move {s : Server} {i : ℕ} {a : Exchange} (hi : s.exchanges[i]? = some a)
    {phase : Phase} (ht : ∀ t, phase.token = some t → a.phase.token = some t)
    (hc : ∀ t, phase.claim = some t → a.phase.claim = some t) (hp : phase ≠ .passed)
    (store : InMemoryIdempotencyStore) (ended : Bool) :
    Later s ({ s with store, ended }.move i a phase) := by
  intro k b hb
  rcases moved_cases hb with ⟨rfl,rfl⟩ | ⟨-,hb⟩
  · exact ⟨a,hi,rfl,ht,hc,fun h => absurd h hp⟩
  · exact ⟨b,hb,rfl,fun _ h => h,fun _ h => h,id⟩

/-- Steps that draw no token. -/
theorem Inv.later {K : Request → Prop} {key : String} {s s' : Server} (h : Inv K key s)
    (hl : Later s s') (hwf : s'.store.WellFormed) (hn : s'.store.nextToken = s.store.nextToken)
    (hheld : ∀ (i : ℕ) (a : Exchange) (t : Token), s'.exchanges[i]? = some a → K a.request →
      a.phase.claim = some t → s.store.holder key = some t → s'.store.holder key = some t) :
    Inv K key s' where
  store := hwf
  drawn i a t ha ht := by
    obtain ⟨b,hb,-,htok,-⟩ := hl i a ha
    rw [hn]
    exact h.drawn i b t hb (htok t ht)
  distinct i j a b t ha hb hta htb := by
    obtain ⟨a',ha',-,htoka,-⟩ := hl i a ha
    obtain ⟨b',hb',-,htokb,-⟩ := hl j b hb
    exact h.distinct i j a' b' t ha' hb' (htoka t hta) (htokb t htb)
  held i a t ha hK ht := by
    obtain ⟨b,hb,hreq,-,hclaim,-⟩ := hl i a ha
    exact hheld i a t ha hK ht (h.held i b t hb (hreq ▸ hK) (hclaim t ht))
  admitted i a ha hK hpass := by
    obtain ⟨b,hb,hreq,-,-,hpassed⟩ := hl i a ha
    exact h.admitted i b hb (hreq ▸ hK) (hpassed hpass)

/-- Failing the token of one exchange leaves the claims of the others held. -/
theorem Inv.holder_fail {K : Request → Prop} {key : String} {s : Server} (h : Inv K key s)
    {i j : ℕ} {a b : Exchange} {t t' : Token} (hi : s.exchanges[i]? = some a)
    (hj : s.exchanges[j]? = some b) (hij : i ≠ j) (ht : a.phase.token = some t)
    (ht' : b.phase.token = some t') (hheld : s.store.holder key = some t') :
    (s.store.fail t).holder key = some t' := by
  obtain ⟨-,-,hholder⟩ := h.store.fail t
  have hne : t' ≠ t := by
    intro heq
    subst heq
    exact hij (h.distinct i j a b t' hi hj ht ht')
  rw [hholder,hheld]
  simp [Option.filter,hne]

section Step
variable {sha256 : String → String} {K : Request → Prop} {key : String} {s : Server}

/-- An exchange that comes without a token. -/
theorem Inv.append (h : Inv K key s) {request : Request} {phase : Phase}
    (hno : phase.token = none) (hp : K request → phase ≠ .passed) :
    Inv K key { s with exchanges := s.exchanges ++ [⟨request,phase⟩] } := by
  have hold : ∀ (i : ℕ) (a : Exchange) (t : Token),
      (s.exchanges ++ [⟨request,phase⟩])[i]? = some a → a.phase.token = some t →
      s.exchanges[i]? = some a := by
    intro i a t ha ht
    rcases joined_cases ha with hi | ⟨-,rfl⟩
    · exact hi
    · rw [hno] at ht
      cases ht
  exact
    { store := h.store
      drawn := fun i a t ha ht => h.drawn i a t (hold i a t ha ht) ht
      distinct := fun i j a b t ha hb hta htb =>
        h.distinct i j a b t (hold i a t ha hta) (hold j b t hb htb) hta htb
      held := fun i a t ha hK ht =>
        h.held i a t (hold i a t ha (Phase.token_of_claim ht)) hK ht
      admitted := by
        intro i a ha hK
        rcases joined_cases ha with hi | ⟨-,rfl⟩
        · exact h.admitted i a hi hK
        · exact hp hK }

/-- An arriving request that reaches the store. -/
theorem Inv.arrive (h : Inv K key s) {request : Request} {entry : IdempotencyEntry}
    {pruneAt claimAt : ℤ} (hkey : K request → cacheKey entry = key)
    (httl : ∀ record, s.store.records.get key = some record → pruneAt < record.expiresAt) :
    Inv K key { s with
      store := (s.store.begin entry pruneAt claimAt).2
      exchanges := s.exchanges ++ [⟨request,.begun (s.store.begin entry pruneAt claimAt).1⟩] } := by
  obtain ⟨hwf,hnext,hkeep,hnew⟩ := h.store.begin entry pruneAt claimAt
  have hheld : ∀ t, s.store.holder key = some t →
      (s.store.begin entry pruneAt claimAt).2.holder key = some t := by
    intro t ht
    obtain ⟨record,hrecord,htoken⟩ := Option.map_eq_some_iff.mp ht
    rw [← htoken]
    exact hkeep key record hrecord (httl record hrecord)
  -- the token drawn now is no token of an exchange that is there already
  have hunheld : ∀ (i : ℕ) (a : Exchange) (t : Token), s.exchanges[i]? = some a →
      a.phase.token = some t →
      (Phase.begun (s.store.begin entry pruneAt claimAt).1).token ≠ some t := by
    intro i a t hi hta ht
    have hlt := h.drawn i a t hi hta
    rw [(hnew t (Phase.started_of_token ht)).1] at hlt
    exact Nat.lt_irrefl _ hlt
  constructor
  · exact hwf
  · intro i a t ha ht
    rcases joined_cases ha with hi | ⟨-,rfl⟩
    · exact Nat.lt_of_lt_of_le (h.drawn i a t hi ht) hnext
    · obtain ⟨hfresh,hsucc,-⟩ := hnew t (Phase.started_of_token ht)
      simp only [hfresh,hsucc]
      exact Nat.lt_succ_self _
  · intro i j a b t ha hb hta htb
    rcases joined_cases ha with hi | ⟨hi,rfl⟩
    · rcases joined_cases hb with hj | ⟨-,rfl⟩
      · exact h.distinct i j a b t hi hj hta htb
      · exact absurd htb (hunheld i a t hi hta)
    · rcases joined_cases hb with hj | ⟨hj,-⟩
      · exact absurd hta (hunheld j b t hj htb)
      · omega
  · intro i a t ha hK ht
    rcases joined_cases ha with hi | ⟨-,rfl⟩
    · exact hheld t (h.held i a t hi hK ht)
    · obtain ⟨-,-,hclaimed⟩ := hnew t (Phase.started_of_token (Phase.token_of_claim ht))
      rw [← hkey hK]
      exact hclaimed
  · intro i a ha hK
    rcases joined_cases ha with hi | ⟨-,rfl⟩
    · exact h.admitted i a hi hK
    · exact fun hpass => (nomatch hpass)

theorem Inv.finish (h : Inv K key s) {i : ℕ} {request : Request} {token : Token}
    (hi : s.exchanges[i]? = some ⟨request,.running token⟩) (statusCode : ℤ)
    (capturedBody : Option Json) (now : ℤ) (ended : Bool) :
    Inv K key ({ s with
      store := onFinish s.store token statusCode capturedBody now
      ended }.move i ⟨request,.running token⟩ (.finished token statusCode)) := by
  have hl : Later s ({ s with
      store := onFinish s.store token statusCode capturedBody now
      ended }.move i ⟨request,.running token⟩ (.finished token statusCode)) := by
    apply later_move hi
    · exact fun _ ht => ht
    · exact fun _ ht => Phase.token_of_claim ht
    · exact fun hpass => (nomatch hpass)
  by_cases h500 : statusCode ≥ 500
  · obtain ⟨hwf,hn,-⟩ := h.store.fail token
    have hstore : onFinish s.store token statusCode capturedBody now = s.store.fail token :=
      if_pos h500
    rw [hstore] at hl ⊢
    apply h.later hl hwf hn
    intro j b t hb hK ht hheld
    obtain ⟨b',hb',hreq,htok,-⟩ := hl j b hb
    by_cases hij : i = j
    · subst hij
      rw [Server.move,moved hi] at hb
      cases hb
      simp [Phase.claim,h500] at ht
    · exact h.holder_fail hi hb' hij rfl (htok t (Phase.token_of_claim ht)) hheld
  · obtain ⟨hwf,hn,hholder⟩ :=
      h.store.complete token ⟨statusCode,capturedBody.getD .null⟩ now
    have hstore : onFinish s.store token statusCode capturedBody now =
        s.store.complete token ⟨statusCode,capturedBody.getD .null⟩ now := if_neg h500
    rw [hstore] at hl ⊢
    apply h.later hl hwf hn
    intro j b t hb hK ht hheld
    exact (congrFun hholder key).trans hheld

theorem Inv.disconnect (h : Inv K key s) (i : ℕ)
    (hc : ∀ (a : Exchange) (token : Token), s.exchanges[i]? = some a → K a.request →
      a.phase.listening = some token → s.store.tokens.get token = none) :
    Inv K key (s.disconnect i) := by
  unfold Server.disconnect
  split
  · rename_i token htoken
    obtain ⟨a,ha,hlisten⟩ := Option.bind_eq_some_iff.mp htoken
    obtain ⟨hwf,hn,-⟩ := h.store.fail token
    have hl : Later s { s with store := s.store.fail token, ended := s.unheard token } :=
      later_of_exchanges rfl
    apply h.later hl hwf hn
    intro j b t hb hK ht hheld
    by_cases hij : i = j
    · subst hij
      rw [ha] at hb
      cases hb
      have hnone := hc a token ha hK hlisten
      have hfail : s.store.fail token = s.store := by
        unfold InMemoryIdempotencyStore.fail
        rw [hnone]
      rw [hfail]
      exact hheld
    · exact h.holder_fail ha hb hij (Phase.token_of_listening hlisten)
        (Phase.token_of_claim ht) hheld
  · exact h

theorem resumed_token {result : IdempotencyBeginResult} {t : Token}
    (h : (resumed result).token = some t) : result = .started t := by
  cases result <;> cases h
  rfl

theorem resumed_ne_passed (result : IdempotencyBeginResult) : resumed result ≠ .passed := by
  cases result <;> exact fun h => (nomatch h)

theorem awaited_ne_passed (outcome : Option CachedIdempotencyResponse) :
    awaited outcome ≠ .passed := by
  cases outcome <;> exact fun h => (nomatch h)

/-- An exchange that goes on without the store draws no token. -/
theorem Inv.moveOn {s : Server} (h : Inv K key s) {i : ℕ} {a : Exchange}
    (hi : s.exchanges[i]? = some a) {phase : Phase}
    (htoken : ∀ t, phase.token = some t → a.phase.token = some t)
    (hclaim : ∀ t, phase.claim = some t → a.phase.claim = some t) (hpassed : phase ≠ .passed) :
    Inv K key (s.move i a phase) :=
  h.later (later_move hi htoken hclaim hpassed s.store s.ended) h.store rfl
    (fun _ _ _ _ _ _ hheld => hheld)

theorem inv_arrive (hkey : ∀ request, K request → ∃ entry, admission sha256 request = .begin entry ∧
    cacheKey entry = key) {s : Server} (h : Inv K key s) {request : Request} {pruneAt claimAt : ℤ}
    (hg : WithinTtl key s (.arrive request pruneAt claimAt)) :
    Inv K key (s.act sha256 (.arrive request pruneAt claimAt)) := by
  simp only [Server.act]
  cases hadmission : admission sha256 request with
  | pass =>
      apply h.append rfl
      intro hK
      obtain ⟨entry,hentry,-⟩ := hkey request hK
      rw [hadmission] at hentry
      cases hentry
  | reject error => exact h.append rfl (fun _ hpass => (nomatch hpass))
  | begin entry =>
      refine h.arrive ?_ hg
      intro hK
      obtain ⟨entry',hentry,hcache⟩ := hkey request hK
      rw [hadmission] at hentry
      cases hentry
      exact hcache

theorem inv_act (hkey : ∀ request, K request → ∃ entry, admission sha256 request = .begin entry ∧
    cacheKey entry = key) (s : Server) (e : Event) (h : Inv K key s)
    (hg : WithinTtl key s e ∧ Undisturbed K s e) : Inv K key (s.act sha256 e) := by
  cases e with
  | arrive request pruneAt claimAt => exact inv_arrive hkey h hg.1
  | resume i =>
      simp only [Server.act]
      split
      · rename_i request result hi
        have htok : ∀ t, (resumed result).token = some t →
            (Phase.begun result).token = some t := by
          intro t ht
          rw [resumed_token ht]
          rfl
        exact h.moveOn hi htok (fun t ht => htok t (Phase.token_of_claim ht))
          (resumed_ne_passed result)
      · exact h
  | settled i =>
      simp only [Server.act]
      split
      · rename_i request promise hi
        split
        · rename_i outcome houtcome
          have htok : ∀ t, (awaited outcome).token = some t →
              (Phase.waiting promise).token = some t := by
            intro t ht
            cases outcome <;> cases ht
          exact h.moveOn hi htok (fun t ht => htok t (Phase.token_of_claim ht))
            (awaited_ne_passed outcome)
        · exact h
      · exact h
  | finish i statusCode capturedBody now =>
      simp only [Server.act]
      split
      · rename_i request token hi
        exact h.finish hi statusCode capturedBody now _
      · exact h
  | close i writableEnded =>
      simp only [Server.act]
      split
      · exact h
      · rename_i hopen
        exact h.disconnect i fun a token =>
          hg.2 i a token ⟨rfl,by simpa using hopen⟩
  | aborted i => exact h.disconnect i fun a token => hg.2 i a token rfl

theorem inv_step (hkey : ∀ request, K request → ∃ entry, admission sha256 request = .begin entry ∧
    cacheKey entry = key) (s : Server) (e : Event) (h : Inv K key s)
    (hg : WithinTtl key s e ∧ Undisturbed K s e) : Inv K key (s.step sha256 e) := by
  unfold Server.step
  split
  · exact h
  · exact inv_act hkey s e h hg

end Step

/-- Requests for the same call reach the store, if one of them does, and under
one cache key. -/
theorem SameCall.admission {sha256 : String → String} {req req' : Request}
    (h : SameCall sha256 req req') {entry : IdempotencyEntry}
    (hentry : admission sha256 req = .begin entry) :
    ∃ entry', IdempotencyMiddleware.admission sha256 req' = .begin entry' ∧
      cacheKey entry' = cacheKey entry := by
  obtain ⟨hkey,hprincipal,hmethod,hpath,-⟩ := h
  unfold IdempotencyMiddleware.admission at hentry ⊢
  split at hentry
  · cases hentry
  · rename_i hpost
    rw [if_neg (hmethod ▸ hpost)]
    cases hheader : req.idempotencyKey with
    | absent => simp [hheader] at hentry
    | many values => simp [hheader] at hentry
    | one raw =>
        cases hheader' : req'.idempotencyKey with
        | absent => simp [keyOf,hheader,hheader'] at hkey
        | many values => simp [keyOf,hheader,hheader'] at hkey
        | one raw' =>
            have htrim : JsStrings.trim raw = JsStrings.trim raw' := by
              simpa [keyOf,hheader,hheader'] using hkey
            simp only [hheader] at hentry
            simp only [← htrim]
            split at hentry
            · cases hentry
            · rename_i hempty
              rw [if_neg hempty]
              split at hentry
              · cases hentry
              · rename_i hlong
                rw [if_neg hlong]
                cases hentry
                refine ⟨_,rfl,?_⟩
                simp only [cacheKey,entryOf,hprincipal,hmethod,hpath]

/-- Within the key's time to live, and as long as no disconnect reaches a
started exchange whose claim is registered, a call is started at most once
unless the earlier starts have finished with a server error. -/
theorem started_once_of_undisturbed (sha256 : String → String) (ttlMs : ℤ) (request : Request)
    (entry : IdempotencyEntry) (hentry : admission sha256 request = .begin entry)
    (events : List Event)
    (httl : Guarded (Server.step sha256) (WithinTtl (cacheKey entry)) (Server.start ttlMs) events)
    (hundisturbed : Guarded (Server.step sha256) (Undisturbed (SameCall sha256 request))
      (Server.start ttlMs) events) {pre : List Event} (hpre : pre <+: events) :
    StartedOnce (SameCall sha256 request) (run (Server.step sha256) (Server.start ttlMs) pre) := by
  have hinv : Inv (SameCall sha256 request) (cacheKey entry)
      (run (Server.step sha256) (Server.start ttlMs) pre) :=
    run_invariant_passed
      (inv_step fun request' hsame => hsame.admission hentry)
      (inv_start _ _ ttlMs) (guarded_and.mpr ⟨httl,hundisturbed⟩) hpre
  exact hinv.startedOnce

def digest (text : String) : String :=
  InboundWebhookSignature.hexEncode (Sha256.sha256 (JsStrings.utf8 text))

def mutation : Request :=
  { method := "POST", path := "/mutations", idempotencyKey := .one "k1"
    body := some (.object [("amount",.string "10")]) }

def mutationEntry : IdempotencyEntry :=
  ⟨"6ab9f1eb8f7d3388f4f9d586f66e99fd54080df2c446f0e58668b09c08a16dd0","POST:/mutations",
    "2f183a4e64493af3f377f745eda502363cd3e7ef6e4d266d444758de0a85fcc8",
    "ccf802a7ae8aa0fa14ce91c80282c882801fd87cef36c78aaa0e6d2535a645da"⟩

def dayMs : ℤ := 24 * 60 * 60 * 1000

theorem admission_mutation : admission digest mutation = .begin mutationEntry := by decide +kernel

/-- A first attempt ends in 503 while a second waits for it, a third succeeds
and a fourth is answered from the record. -/
def retriedAfterFailure : List Event :=
  [.arrive mutation 0 0,.resume 0,.arrive mutation 5 5,.resume 1,.finish 0 503 none 10,
    .settled 1,.close 0 true,.arrive mutation 20 20,.resume 2,.finish 2 201 none 30,
    .arrive mutation 40 40,.resume 3]

theorem started_once_of_undisturbed_retried :
    admission digest mutation = .begin mutationEntry ∧
    Guarded (Server.step digest) (WithinTtl (cacheKey mutationEntry)) (Server.start dayMs)
      retriedAfterFailure ∧
    Guarded (Server.step digest) (Undisturbed (SameCall digest mutation)) (Server.start dayMs)
      retriedAfterFailure ∧
    StartedOnce (SameCall digest mutation)
      (run (Server.step digest) (Server.start dayMs) retriedAfterFailure) := by
  have httl : Guarded (Server.step digest) (WithinTtl (cacheKey mutationEntry))
      (Server.start dayMs) retriedAfterFailure := by decide +kernel
  have hquiet : Guarded (Server.step digest) (Undisturbed (SameCall digest mutation))
      (Server.start dayMs) retriedAfterFailure := by
    simp [retriedAfterFailure,Undisturbed,Event.disconnects]
  exact ⟨admission_mutation,httl,hquiet,started_once_of_undisturbed digest dayMs mutation
    mutationEntry admission_mutation retriedAfterFailure httl hquiet (List.prefix_refl _)⟩

/-- A duplicate waits for the first attempt when its client goes away, while the handler is at
work. The duplicate is told to come back, and a third request arrives. -/
def retriedAfterDisconnect : List Event :=
  [.arrive mutation 0 0,.resume 0,.arrive mutation 500 500,.resume 1,.close 0 false,.settled 1,
    .arrive mutation 1000 1000,.resume 2]

/-- Both handlers are then running. -/
theorem disconnect_starts_the_handler_again :
    Guarded (Server.step digest) (WithinTtl (cacheKey mutationEntry)) (Server.start dayMs)
      retriedAfterDisconnect ∧
    (run (Server.step digest) (Server.start dayMs) retriedAfterDisconnect).ended = false ∧
    ¬ StartedOnce (SameCall digest mutation)
      (run (Server.step digest) (Server.start dayMs) retriedAfterDisconnect) := by
  have httl : Guarded (Server.step digest) (WithinTtl (cacheKey mutationEntry))
      (Server.start dayMs) retriedAfterDisconnect := by decide +kernel
  have hexchanges : (run (Server.step digest) (Server.start dayMs)
      retriedAfterDisconnect).exchanges = [⟨mutation,.running 0⟩,
        ⟨mutation,.answered stillProcessing⟩,⟨mutation,.running 1⟩] := by
    set_option maxRecDepth 20000 in
    rfl
  refine ⟨httl,by decide +kernel,?_⟩
  intro honce
  have hboth := honce 0 2 ⟨mutation,.running 0⟩ ⟨mutation,.running 1⟩ (by rw [hexchanges]; rfl)
    (by rw [hexchanges]; rfl) (by decide) ⟨rfl,rfl,rfl,rfl,rfl⟩ ⟨rfl,rfl,rfl,rfl,rfl⟩ trivial
    trivial
  rcases hboth with ⟨_,_,hphase,-⟩ | ⟨_,_,hphase,-⟩
  · cases hphase
  · cases hphase

/-- Without the duplicate nobody awaits the promise, and the process is gone. -/
example : (run (Server.step digest) (Server.start dayMs)
    [.arrive mutation 0 0,.resume 0,.close 0 false,.arrive mutation 1000 1000]).ended = true := by
  decide +kernel

end Creditra.IdempotencyMiddleware
