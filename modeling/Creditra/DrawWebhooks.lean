import Creditra.HorizonListener
import Creditra.InsertionMaps
import Creditra.JsonValues

/-!
# Webhooks for confirmed draws

A call of `sendDrawConfirmationWebhook` starts one delivery for each configured
URL. Up to its first await a delivery runs without interruption, so the call is
one step: for every URL in turn the delivery store is asked, and a delivery that
is not skipped sends its first POST. From then on deliveries of all calls move
independently, one await at a time: the POST is answered or fails, the backoff
timer fires, the outcome is recorded.

Configuration is read once at startup and is fixed in a run. The payload is
what is posted; its signature, the headers and the lengths of the delays feed
nothing back and are left out. Clock readings are given with the steps.
`JSON.parse` is a parameter that answers with nothing where it throws.

The module calls `fetchWithTimeout` and does not import it, so every attempt ends
in a `ReferenceError` before a request is made. Whether the name is imported is a
parameter, and `fetchImported` says how it stands.

Which event a record was written for, which record made a delivery skip, and
which POSTs their receivers answered with success are recorded as ghost data.
-/
namespace Creditra.DrawWebhooks
open GuardedRuns InsertionMaps JsonValues HorizonListener

/-- `maxRetries` is absent where the setting is not a number. -/
structure WebhookConfig where
  urls : List String
  maxRetries : Option ℤ

structure DrawData where
  ledger : ℕ
  contractId : String
  drawAmount : Json
  drawId : Json
  borrowerWallet : Json
  creditLineId : Json
  horizonTimestamp : String

structure WebhookPayload where
  timestamp : String
  data : DrawData

/-- `eventData[key] || default` -/
def fieldOr (key default : String) (eventData : Json) : Json :=
  ((field key eventData).filter truthy).getD (.string default)

section Parsing
variable (jsonParse : String → Option Json)

/-- Reading a property of `null` throws as well. -/
def drawData (event : HorizonEvent) : Option DrawData :=
  if "draw_confirmed" ∈ event.topics then
    match jsonParse event.data with
    | none => none
    | some .null => none
    | some eventData => some
        { ledger := event.ledger
          contractId := event.contractId
          drawAmount := fieldOr "drawAmount" "0" eventData
          drawId := fieldOr "drawId" "" eventData
          borrowerWallet := fieldOr "borrowerWallet" "" eventData
          creditLineId := fieldOr "creditLineId" "" eventData
          horizonTimestamp := event.timestamp }
  else none

def parseDrawConfirmedEvent (event : HorizonEvent) (now : String) : Option WebhookPayload :=
  (drawData jsonParse event).map fun data => ⟨now,data⟩

/-- The draw's identifier as the store prints it into its keys. -/
def drawText (event : HorizonEvent) : Option String :=
  (drawData jsonParse event).bind fun data => toText data.drawId

end Parsing

inductive DeliveryStatus where
  | delivered
  | failed
  | deadLetter
  deriving DecidableEq

/-- `drawId` is the identifier as printed. -/
structure DeliveryRecord where
  drawId : String
  url : String
  status : DeliveryStatus
  attempts : Option ℤ
  lastError : Option String
  deliveredAt : Option String
  updatedAt : String
  event : HorizonEvent

def key (drawId url : String) : String := drawId ++ "::" ++ url

abbrev DeliveryStore := InsertionMap String DeliveryRecord

def isDelivered (records : DeliveryStore) (drawId url : String) : Bool :=
  (records.get (key drawId url)).map (·.status) = some .delivered

def record (records : DeliveryStore) (r : DeliveryRecord) : DeliveryStore :=
  records.set (key r.drawId r.url) r

structure Response where
  status : ℕ
  statusText : String

def Response.ok (response : Response) : Bool := 200 ≤ response.status ∧ response.status ≤ 299

structure WebhookDeliveryResult where
  url : String
  success : Bool
  attempt : Option ℤ
  error : Option String
  responseStatus : Option ℕ

structure AttemptResult where
  success : Bool
  status : ℕ
  error : Option String

/-- `drawWebhookService.ts` does not import `fetchWithTimeout`. -/
def fetchImported : Bool := false

/-- What an attempt throws that has no answer: the error of its request, if it makes one. -/
def attemptError (imported : Bool) (message : String) : String :=
  if imported then message else "fetchWithTimeout is not defined"

/-- What an attempt that was answered returns. -/
def deliverWebhook (response : Response) : AttemptResult :=
  if response.ok then ⟨true,response.status,none⟩
  else ⟨false,response.status,
    some ("HTTP " ++ toString response.status ++ ": " ++ response.statusText)⟩

/-- Where a delivery stands. An attempt is in flight, the next one is put off,
an attempt was answered, the attempts are used up, or the promise has settled. -/
inductive Phase where
  | posting (attempt : ℕ)
  | backoff (attempt : ℕ) (lastError : String)
  | answered (attempt : ℕ) (result : AttemptResult)
  | exhausted (lastError : Option String)
  | settled (result : WebhookDeliveryResult)

structure Delivery where
  event : HorizonEvent
  payload : WebhookPayload
  drawId : String
  url : String
  phase : Phase
  skippedBy : Option DeliveryRecord := none

/-- A POST its receiver answered with success. The answer may not have arrived:
the attempt then failed, in spite of it, by a timeout or a broken connection. -/
structure Post where
  drawId : String
  url : String
  arrived : Bool
  deriving DecidableEq

structure Sender where
  store : DeliveryStore := .empty
  deliveries : List Delivery := []
  posts : List Post := []

inductive Step where
  | call (event : HorizonEvent) (now : String)
  | answer (i : ℕ) (response : Response)
  | fail (i : ℕ) (message : String) (reached : Bool)
  | wake (i : ℕ)
  | record (i : ℕ) (deliveredAt updatedAt : String)

/-- The loop from the given attempt on, up to the next await. -/
def retryWithBackoff (maxRetries : Option ℤ) (attempt : ℕ) (lastError : Option String) : Phase :=
  if ∃ m ∈ maxRetries, (attempt : ℤ) ≤ m + 1 then .posting attempt else .exhausted lastError

/-- The `catch` clause of the loop. -/
def retryCaught (maxRetries : Option ℤ) (attempt : ℕ) (message : String) : Phase :=
  if ∃ m ∈ maxRetries, (attempt : ℤ) ≤ m then .backoff attempt message
  else retryWithBackoff maxRetries (attempt + 1) (some message)

/-- The POST under way, if its receiver answers it with success. -/
def Delivery.post (d : Delivery) (success arrived : Bool) : List Post :=
  if success then [⟨d.drawId,d.url,arrived⟩] else []

namespace Sender

/-- One URL's delivery, up to its first await. -/
def startDelivery (s : Sender) (config : WebhookConfig) (event : HorizonEvent)
    (payload : WebhookPayload) (drawId url : String) : Delivery :=
  if isDelivered s.store drawId url then
    { event, payload, drawId, url
      phase := .settled ⟨url,true,some 0,none,none⟩
      skippedBy := s.store.get (key drawId url) }
  else
    { event, payload, drawId, url
      phase := retryWithBackoff config.maxRetries 1 none }

def launch (s : Sender) (deliveries : List Delivery) : Sender :=
  { s with deliveries := s.deliveries ++ deliveries }

/-- An identifier that cannot be printed rejects every delivery at its start. -/
def sendDrawConfirmationWebhook (jsonParse : String → Option Json)
    (activeConfig : Option WebhookConfig) (s : Sender) (event : HorizonEvent) (now : String) :
    Sender :=
  match activeConfig with
  | none => s
  | some config =>
      if config.urls.length = 0 then s
      else match parseDrawConfirmedEvent jsonParse event now with
        | none => s
        | some payload => match toText payload.data.drawId with
          | none => s
          | some drawId =>
              s.launch (config.urls.map (s.startDelivery config event payload drawId))

def move (s : Sender) (i : ℕ) (d : Delivery) (phase : Phase) (posts : List Post) : Sender :=
  { s with
    deliveries := s.deliveries.set i { d with phase }
    posts := s.posts ++ posts }

/-- Record the outcome and settle. -/
def settle (s : Sender) (i : ℕ) (d : Delivery) (r : DeliveryRecord)
    (result : WebhookDeliveryResult) : Sender :=
  { s with
    store := record s.store r
    deliveries := s.deliveries.set i { d with phase := .settled result } }

end Sender

/-- What is recorded of an attempt that was answered. -/
def answeredRecord (d : Delivery) (attempt : ℕ) (result : AttemptResult)
    (deliveredAt updatedAt : String) : DeliveryRecord where
  drawId := d.drawId
  url := d.url
  status := if result.success then .delivered else .failed
  attempts := some attempt
  lastError := result.error
  deliveredAt := if result.success then some deliveredAt else none
  updatedAt := updatedAt
  event := d.event

/-- What is recorded when no attempt is left. -/
def exhaustedRecord (maxRetries : Option ℤ) (d : Delivery) (lastError : Option String)
    (updatedAt : String) : DeliveryRecord where
  drawId := d.drawId
  url := d.url
  status := .deadLetter
  attempts := maxRetries.map (· + 1)
  lastError := some (lastError.getD "Unknown error")
  deliveredAt := none
  updatedAt := updatedAt
  event := d.event

namespace Sender

/-- Only a request that was made can be answered, or reach its receiver. -/
def step (imported : Bool) (jsonParse : String → Option Json)
    (activeConfig : Option WebhookConfig) (s : Sender) : Step → Sender
  | .call event now => s.sendDrawConfirmationWebhook jsonParse activeConfig event now
  | .answer i response =>
      if imported then match s.deliveries[i]? with
        | some d => match d.phase with
          | .posting attempt =>
              s.move i d (.answered attempt (deliverWebhook response)) (d.post response.ok true)
          | _ => s
        | none => s
      else s
  | .fail i message reached => match s.deliveries[i]? with
      | some d => match d.phase with
        | .posting attempt =>
            s.move i d (retryCaught (activeConfig.bind (·.maxRetries)) attempt
              (attemptError imported message)) (d.post (imported && reached) false)
        | _ => s
      | none => s
  | .wake i => match s.deliveries[i]? with
      | some d => match d.phase with
        | .backoff attempt lastError =>
            s.move i d (retryWithBackoff (activeConfig.bind (·.maxRetries)) (attempt + 1)
              (some lastError)) []
        | _ => s
      | none => s
  | .record i deliveredAt updatedAt => match s.deliveries[i]? with
      | some d => match d.phase with
        | .answered attempt result =>
            s.settle i d (answeredRecord d attempt result deliveredAt updatedAt)
              ⟨d.url,result.success,some attempt,result.error,some result.status⟩
        | .exhausted lastError =>
            s.settle i d
              (exhaustedRecord (activeConfig.bind (·.maxRetries)) d lastError updatedAt)
              ⟨d.url,false,(activeConfig.bind (·.maxRetries)).map (· + 1),
                some (lastError.getD "Unknown error"),none⟩
        | _ => s
      | none => s

end Sender

/-! ## What a step can do -/

/-- The delivery has not settled. -/
def Phase.isOpen : Phase → Bool
  | .settled _ => false
  | _ => true

/-- An attempt is under way. -/
def Phase.inFlight : Phase → Bool
  | .posting _ => true
  | _ => false

/-- An attempt is under way or put off. -/
def Phase.waiting : Phase → Bool
  | .posting _ => true
  | .backoff _ _ => true
  | _ => false

/-- An attempt was answered with success, and this is not recorded yet. -/
def Phase.succeeded : Phase → Bool
  | .answered _ result => result.success
  | _ => false

theorem isOpen_of_waiting {phase : Phase} (h : phase.waiting = true) :
    phase.isOpen = true ∧ phase.succeeded = false := by
  cases phase with
  | posting attempt => exact ⟨rfl,rfl⟩
  | backoff attempt lastError => exact ⟨rfl,rfl⟩
  | answered _ _ | exhausted _ | settled _ => cases h

theorem isOpen_of_inFlight {phase : Phase} (h : phase.inFlight = true) :
    phase.isOpen = true ∧ phase.succeeded = false := by
  cases phase with
  | posting attempt => exact ⟨rfl,rfl⟩
  | backoff _ _ | answered _ _ | exhausted _ | settled _ => cases h

theorem isOpen_of_succeeded {phase : Phase} (h : phase.succeeded = true) :
    phase.isOpen = true := by
  cases phase with
  | answered attempt result => rfl
  | posting _ | backoff _ _ | exhausted _ | settled _ => cases h

@[simp] theorem deliverWebhook_success (response : Response) :
    (deliverWebhook response).success = response.ok := by
  unfold deliverWebhook
  split
  · rename_i hok
    exact hok.symm
  · rename_i hok
    exact (Bool.eq_false_iff.mpr hok).symm

theorem retryCaught_open (maxRetries : Option ℤ) (attempt : ℕ) (message : String) :
    (retryCaught maxRetries attempt message).isOpen = true ∧
      (retryCaught maxRetries attempt message).inFlight = false ∧
      (retryCaught maxRetries attempt message).succeeded = false := by
  unfold retryCaught
  split
  · exact ⟨rfl,rfl,rfl⟩
  · rename_i hno
    unfold retryWithBackoff
    rw [if_neg]
    · exact ⟨rfl,rfl,rfl⟩
    · rintro ⟨m,hm,hle⟩
      apply hno
      exact ⟨m,hm,by omega⟩

theorem retryWithBackoff_open (maxRetries : Option ℤ) (attempt : ℕ) (lastError : Option String) :
    (retryWithBackoff maxRetries attempt lastError).isOpen = true ∧
      (retryWithBackoff maxRetries attempt lastError).succeeded = false := by
  unfold retryWithBackoff
  split
  · exact ⟨rfl,rfl⟩
  · exact ⟨rfl,rfl⟩

section Start
variable (s : Sender) (config : WebhookConfig) (event : HorizonEvent) (payload : WebhookPayload)
variable (drawId url : String)

@[simp] theorem startDelivery_event :
    (s.startDelivery config event payload drawId url).event = event := by
  unfold Sender.startDelivery
  split <;> rfl

@[simp] theorem startDelivery_drawId :
    (s.startDelivery config event payload drawId url).drawId = drawId := by
  unfold Sender.startDelivery
  split <;> rfl

@[simp] theorem startDelivery_url :
    (s.startDelivery config event payload drawId url).url = url := by
  unfold Sender.startDelivery
  split <;> rfl

theorem startDelivery_isOpen :
    (s.startDelivery config event payload drawId url).phase.isOpen =
      ! isDelivered s.store drawId url := by
  unfold Sender.startDelivery
  split
  · rename_i h
    rw [h]
    rfl
  · rename_i h
    rw [Bool.eq_false_iff.mpr h]
    exact (retryWithBackoff_open _ _ _).1

theorem startDelivery_skippedBy {r : DeliveryRecord}
    (h : (s.startDelivery config event payload drawId url).skippedBy = some r) :
    s.store.get (key drawId url) = some r := by
  unfold Sender.startDelivery at h
  split at h
  · exact h
  · cases h

end Start

/-- What a delivery that goes on may do: `posts` are the POSTs its receiver has
answered with success in this step. Only a timer sends a further POST, and without
the import none succeeds. -/
structure GoesOn (imported : Bool) (st : Step) (i : ℕ) (d : Delivery) (phase : Phase)
    (posts : List Post) : Prop where
  before : d.phase.waiting = true
  after : phase.isOpen = true
  resent : phase.inFlight = true → st = .wake i ∧ posts = []
  unposted : imported = false → posts = [] ∧ phase.succeeded = false
  posts : posts = [] ∨ d.phase.inFlight = true ∧
    ∃ arrived, posts = [⟨d.drawId,d.url,arrived⟩] ∧ (arrived = true → phase.succeeded = true)

/-- A POST answered in the step is the delivery's own. -/
theorem GoesOn.own {imported : Bool} {st : Step} {i : ℕ} {d : Delivery} {phase : Phase}
    {posts : List Post} (h : GoesOn imported st i d phase posts) {p : Post} (hp : p ∈ posts) :
    p.drawId = d.drawId ∧ p.url = d.url ∧ (p.arrived = true → phase.succeeded = true) := by
  rcases h.posts with hnone | ⟨-,arrived,hposts,hsucceeded⟩
  · rw [hnone] at hp
    cases hp
  · rw [hposts,List.mem_singleton] at hp
    subst hp
    exact ⟨rfl,rfl,hsucceeded⟩

/-- What the record of a delivery that settles says. -/
structure Reports (d : Delivery) (r : DeliveryRecord) : Prop where
  before : d.phase.isOpen = true
  event : r.event = d.event
  drawId : r.drawId = d.drawId
  url : r.url = d.url
  status : r.status = .delivered ↔ d.phase.succeeded = true

/-- Nothing, the deliveries of one call, one delivery going on, or one settling. -/
inductive Outcome (imported : Bool) (jsonParse : String → Option Json)
    (activeConfig : Option WebhookConfig) (s : Sender) (st : Step) : Sender → Prop where
  | idle : Outcome imported jsonParse activeConfig s st s
  | called (config : WebhookConfig) (event : HorizonEvent) (now : String)
      (payload : WebhookPayload) (drawId : String) (hst : st = .call event now)
      (hconfig : activeConfig = some config) (htext : drawText jsonParse event = some drawId) :
      Outcome imported jsonParse activeConfig s st
        (s.launch (config.urls.map (s.startDelivery config event payload drawId)))
  | wentOn (i : ℕ) (d : Delivery) (phase : Phase) (posts : List Post)
      (hi : s.deliveries[i]? = some d) (h : GoesOn imported st i d phase posts) :
      Outcome imported jsonParse activeConfig s st (s.move i d phase posts)
  | settled (i : ℕ) (d : Delivery) (r : DeliveryRecord) (result : WebhookDeliveryResult)
      (hi : s.deliveries[i]? = some d) (h : Reports d r) :
      Outcome imported jsonParse activeConfig s st (s.settle i d r result)

section Outcomes
variable {imported : Bool} {jsonParse : String → Option Json} {activeConfig : Option WebhookConfig}

theorem outcome_call (s : Sender) (event : HorizonEvent) (now : String) :
    Outcome imported jsonParse activeConfig s (.call event now)
      (s.sendDrawConfirmationWebhook jsonParse activeConfig event now) := by
  unfold Sender.sendDrawConfirmationWebhook
  split
  · exact .idle
  · rename_i config
    split
    · exact .idle
    · split
      · exact .idle
      · rename_i payload hpayload
        split
        · exact .idle
        · rename_i drawId hdrawId
          obtain ⟨data,hdata,rfl⟩ := Option.map_eq_some_iff.mp hpayload
          have htext : drawText jsonParse event = some drawId := by
            unfold drawText
            rw [hdata]
            exact hdrawId
          exact .called config event now _ drawId rfl rfl htext

theorem goesOn_answer (himported : imported = true) {i : ℕ} {d : Delivery} {attempt : ℕ}
    (hd : d.phase = .posting attempt) (response : Response) :
    GoesOn imported (.answer i response) i d (.answered attempt (deliverWebhook response))
      (d.post response.ok true) where
  before := by
    rw [hd]
    rfl
  after := rfl
  resent h := nomatch h
  posts := by
    unfold Delivery.post
    split
    · rename_i hok
      exact .inr ⟨by rw [hd]; rfl,true,rfl,fun _ => (deliverWebhook_success response).trans hok⟩
    · exact .inl rfl
  unposted h := by
    rw [himported] at h
    cases h

theorem goesOn_fail {i : ℕ} {d : Delivery} {attempt : ℕ} (hd : d.phase = .posting attempt)
    (maxRetries : Option ℤ) (message : String) (reached : Bool) :
    GoesOn imported (.fail i message reached) i d
      (retryCaught maxRetries attempt (attemptError imported message))
      (d.post (imported && reached) false) where
  before := by
    rw [hd]
    rfl
  after := (retryCaught_open _ _ _).1
  resent h := by
    rw [(retryCaught_open _ _ _).2.1] at h
    cases h
  posts := by
    unfold Delivery.post
    split
    · exact .inr ⟨by rw [hd]; rfl,false,rfl,fun h => nomatch h⟩
    · exact .inl rfl
  unposted h := by
    refine ⟨?_,(retryCaught_open _ _ _).2.2⟩
    rw [h]
    rfl

theorem goesOn_wake {i : ℕ} {d : Delivery} {attempt : ℕ} {lastError : String}
    (hd : d.phase = .backoff attempt lastError) (maxRetries : Option ℤ) :
    GoesOn imported (.wake i) i d (retryWithBackoff maxRetries (attempt + 1) (some lastError)) [] where
  before := by
    rw [hd]
    rfl
  after := (retryWithBackoff_open _ _ _).1
  resent _ := ⟨rfl,rfl⟩
  posts := .inl rfl
  unposted _ := ⟨rfl,(retryWithBackoff_open _ _ _).2⟩

theorem reports_answered {d : Delivery} {attempt : ℕ} {result : AttemptResult}
    (hd : d.phase = .answered attempt result) (deliveredAt updatedAt : String) :
    Reports d (answeredRecord d attempt result deliveredAt updatedAt) where
  before := by
    rw [hd]
    rfl
  event := rfl
  drawId := rfl
  url := rfl
  status := by
    rw [hd]
    simp only [answeredRecord,Phase.succeeded]
    split <;> simp_all

theorem reports_exhausted {d : Delivery} {lastError : Option String}
    (hd : d.phase = .exhausted lastError) (maxRetries : Option ℤ) (updatedAt : String) :
    Reports d (exhaustedRecord maxRetries d lastError updatedAt) where
  before := by
    rw [hd]
    rfl
  event := rfl
  drawId := rfl
  url := rfl
  status := by
    rw [hd]
    simp [exhaustedRecord,Phase.succeeded]

theorem step_outcome (imported : Bool) (jsonParse : String → Option Json)
    (activeConfig : Option WebhookConfig) (s : Sender) (st : Step) :
    Outcome imported jsonParse activeConfig s st
      (s.step imported jsonParse activeConfig st) := by
  cases st with
  | call event now => exact outcome_call s event now
  | answer i response =>
      simp only [Sender.step]
      split
      · rename_i himported
        split
        · split
          · exact .wentOn i _ _ _ (by assumption)
              (goesOn_answer himported (by assumption) response)
          · exact .idle
        · exact .idle
      · exact .idle
  | fail i message reached =>
      simp only [Sender.step]
      split
      · split
        · exact .wentOn i _ _ _ (by assumption) (goesOn_fail (by assumption) _ message reached)
        · exact .idle
      · exact .idle
  | wake i =>
      simp only [Sender.step]
      split
      · split
        · exact .wentOn i _ _ _ (by assumption) (goesOn_wake (by assumption) _)
        · exact .idle
      · exact .idle
  | record i deliveredAt updatedAt =>
      simp only [Sender.step]
      split
      · split
        · exact .settled i _ _ _ (by assumption)
            (reports_answered (by assumption) deliveredAt updatedAt)
        · exact .settled i _ _ _ (by assumption) (reports_exhausted (by assumption) _ updatedAt)
        · exact .idle
      · exact .idle

end Outcomes

/-! ## Keys -/

theorem key_inj_url {drawId url url' : String} (h : key drawId url = key drawId url') :
    url = url' := by
  have hlist := congrArg String.toList h
  simp only [key,String.toList_append] at hlist
  exact String.toList_inj.mp (List.append_cancel_left hlist)

theorem key_inj_drawId {drawId drawId' url : String} (h : key drawId url = key drawId' url) :
    drawId = drawId' := by
  have hlist := congrArg String.toList h
  simp only [key,String.toList_append] at hlist
  exact String.toList_inj.mp (List.append_cancel_right (List.append_cancel_right hlist))

theorem isDelivered_of_key_eq {drawId drawId' url url' : String}
    (h : key drawId url = key drawId' url') (records : DeliveryStore) :
    isDelivered records drawId url = isDelivered records drawId' url' := by
  unfold isDelivered
  rw [h]

theorem isDelivered_record_same {records : DeliveryStore} {r : DeliveryRecord}
    {drawId url : String} (h : key drawId url = key r.drawId r.url) :
    isDelivered (record records r) drawId url = decide (r.status = .delivered) := by
  unfold isDelivered record
  rw [h,InsertionMap.get_set_self]
  simp

theorem isDelivered_record_other {records : DeliveryStore} {r : DeliveryRecord}
    {drawId url : String} (h : key drawId url ≠ key r.drawId r.url) :
    isDelivered (record records r) drawId url = isDelivered records drawId url := by
  unfold isDelivered record
  rw [InsertionMap.get_set_of_ne _ h]

end Creditra.DrawWebhooks
