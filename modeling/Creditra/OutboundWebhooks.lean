import Creditra.IsoDates
import Creditra.JobQueue
import Creditra.JsonValues
import Creditra.OutboundWebhookStore

/-!
# The outbound webhook dispatcher

The dispatcher, its store and the job queue are one system. Calls of
`scheduleEvent` overlap with each other, with everything the queue does, and
with the one `processDeliveryJob` that the queue awaits; other code may use the
queue for jobs of other types, whose handlers fail with values that have a text.

A call to the in-memory store takes effect when it is made, and its answer
arrives at the caller's next step. A query to the database takes effect when the
caller's next step is taken; where the step after the answer is more than the
next query, it is a step of its own. Queries are answered, save where the unique
index is violated. `replayDelivery` is not called.

The body, the signature and the headers of a POST feed nothing back and are left
out. `posts` are the POSTs that their receivers have answered with success.
-/
namespace Creditra.OutboundWebhooks
open GuardedRuns InsertionMaps IsoDates JsonValues JobQueue OutboundWebhookStore

def WEBHOOK_DELIVERY_JOB : String := "outbound-webhook-delivery"

inductive CreditEventType where
  | opened
  | drawRequested
  | drawConfirmed
  | repayConfirmed
  | defaulted
  deriving DecidableEq

def CreditEventType.name : CreditEventType → String
  | .opened => "credit.opened"
  | .drawRequested => "credit.draw_requested"
  | .drawConfirmed => "credit.draw_confirmed"
  | .repayConfirmed => "credit.repay_confirmed"
  | .defaulted => "credit.defaulted"

structure CreditDomainEvent where
  type : CreditEventType
  occurredAt : String
  creditLineId : String
  payload : List (String × Json)

structure WebhookPayload where
  event : CreditEventType
  timestamp : ℤ
  data : List (String × Json)

/-- The event's own payload comes last and overrides. -/
def payloadFor (event : CreditDomainEvent) (now : ℤ) : WebhookPayload where
  event := event.type
  timestamp := now
  data := [("creditLineId",.string event.creditLineId),("occurredAt",.string event.occurredAt)] ++
    event.payload

def eventId (event : CreditDomainEvent) : String :=
  event.type.name ++ ":" ++ event.creditLineId ++ ":" ++ event.occurredAt

abbrev Delivery := OutboundWebhookDelivery WebhookPayload

/-- `retryBackoffMs` is the queue's. -/
structure Config where
  maxAttempts : ℤ
  initialBackoffMs : ℤ
  retryBackoffMs : ℤ

inductive Backend where
  | memory
  | postgres
  deriving DecidableEq

/-- The payload of a webhook job, or of a job of another type. -/
inductive Payload (δ : Type) where
  | delivery (deliveryId : String)
  | other (value : δ)
  deriving DecidableEq

/-- What a query answers: read when it was made, or still to be read. -/
inductive Reply (α : Type) where
  | due
  | got (a : α)

def Reply.read {α : Type} : Reply α → α → α
  | .due, a => a
  | .got a, _ => a

def Backend.ask {α : Type} (backend : Backend) (a : α) : Reply α :=
  match backend with
  | .memory => .got a
  | .postgres => .due

/-- Where a `scheduleEvent` stands. A query is under way, the delivery is created
and its job not yet enqueued, or the call has returned. -/
inductive SchedulePhase where
  | listing (reply : Reply (List OutboundWebhookSubscription))
  | finding (subscription : OutboundWebhookSubscription)
      (rest : List OutboundWebhookSubscription) (reply : Reply (Option Delivery))
  | creating (input : CreateDeliveryInput WebhookPayload)
      (rest : List OutboundWebhookSubscription)
  | created (delivery : Delivery) (rest : List OutboundWebhookSubscription)
  | returned

structure ScheduleCall where
  event : CreditDomainEvent
  jobIds : List String
  phase : SchedulePhase

/-- The outcome of `deliver`. It fails with something that has a text, or with a
value that `String` does not convert. -/
inductive Attempt where
  | accepted (status : ℕ)
  | refused (message : String)
  | unprintable

/-- Where a `processDeliveryJob` stands. The delivery is fetched, its POST is under
way, the outcome is being recorded, its update has settled, or the handler has. -/
inductive HandlerPhase where
  | getting (reply : Reply (Option Delivery))
  | posting (delivery : Delivery)
  | reading (delivery : Delivery) (attempt : Attempt) (patch : DeliveryPatch)
  | writing (delivery : Delivery) (attempt : Attempt) (next : Postgres.Columns)
  | recorded (delivery : Delivery) (attempt : Attempt) (error : Option String)
  | finished (outcome : Outcome)

structure Handler (δ : Type) where
  job : Job (Payload δ)
  phase : HandlerPhase

structure Response where
  status : ℕ
  statusText : String

def Response.ok (response : Response) : Bool := 200 ≤ response.status ∧ response.status ≤ 299

/-- The answer may not have arrived: the attempt then failed, in spite of it, by
the timeout or a broken connection. -/
structure Post where
  subscriptionId : String
  eventId : String
  arrived : Bool
  deriving DecidableEq

structure Dispatcher (δ : Type) where
  store : Store WebhookPayload := {}
  queue : Queue Unit (Payload δ) := ({} : Queue Unit (Payload δ)).registerHandler
    WEBHOOK_DELIVERY_JOB ()
  calls : List ScheduleCall := []
  handler : Option (Handler δ) := none
  posts : List Post := []

inductive Action (δ : Type) where
  | queue (action : JobQueue.Action Unit (Payload δ))
  | subscribe (url : String) (eventTypes : List String) (secretRef uuid : String)
  | schedule (event : CreditDomainEvent)
  | proceed (i : ℕ) (uuid : String) (pick : ℕ)
  | handle
  | answer (response : Response)
  | fail (message : String) (reached : Bool)
  | failUnprintable (reached : Bool)
  | collect

structure Step (δ : Type) where
  now : ℤ
  action : Action δ

def deliveryMaxAttempts {δ : Type} (job : Job (Payload δ)) : ℤ := max 1 job.maxAttempts

def deliveryId {δ : Type} (job : Job (Payload δ)) : String :=
  match job.payload with
  | .delivery deliveryId => deliveryId
  | .other _ => "undefined"

def notFound (deliveryId : String) : String := "Webhook delivery not found: " ++ deliveryId

/-- `toISOString` throws on an instant that no date holds. -/
def nextAttemptAt (config : Config) (now : ℤ) (finalAttempt : Bool) : Except String (Option ℤ) :=
  if finalAttempt then .ok none
  else if ValidTime (now + config.initialBackoffMs) then .ok (some (now + config.initialBackoffMs))
  else .error "Invalid time value"

/-- What is recorded of an attempt. The text of what it failed with comes first. -/
def patchFor {δ : Type} (config : Config) (job : Job (Payload δ)) (now : ℤ) :
    Attempt → Except String DeliveryPatch
  | .accepted status =>
      .ok { status := some .delivered
            attempts := some (job.attempts + 1)
            responseStatus := some (some status)
            deliveredAt := some (some now)
            lastError := some none }
  | .refused message =>
      let finalAttempt : Bool := deliveryMaxAttempts job ≤ ((job.attempts + 1 : ℕ) : ℤ)
      (nextAttemptAt config now finalAttempt).map fun next =>
        { status := some (if finalAttempt then .deadLetter else .failed)
          attempts := some (job.attempts + 1)
          lastError := some (some message)
          nextAttemptAt := some next }
  | .unprintable => .error "Cannot convert object to primitive value"

/-- What `deliver` makes of a response. -/
def deliver (response : Response) : Attempt :=
  if response.ok then .accepted response.status
  else .refused ("HTTP " ++ toString response.status ++ ": " ++ response.statusText)

/-- The POST under way, if its receiver answers it with success. -/
def post (delivery : Delivery) (success arrived : Bool) : List Post :=
  if success then [⟨delivery.subscriptionId,delivery.eventId,arrived⟩] else []

variable {δ : Type}

namespace Dispatcher

def listSubscriptions (backend : Backend) (s : Dispatcher δ) :
    List OutboundWebhookSubscription :=
  match backend with
  | .memory => InMemory.listSubscriptions s.store
  | .postgres => Postgres.listSubscriptions s.store

def findDelivery (backend : Backend) (s : Dispatcher δ) (subscriptionId eventId : String)
    (pick : ℕ) : Option Delivery :=
  match backend with
  | .memory => InMemory.findDelivery s.store subscriptionId eventId
  | .postgres => Postgres.findDelivery s.store subscriptionId eventId pick

def setCall (s : Dispatcher δ) (i : ℕ) (call : ScheduleCall) : Dispatcher δ :=
  { s with calls := s.calls.set i call }

def setPhase (s : Dispatcher δ) (job : Job (Payload δ)) (phase : HandlerPhase) : Dispatcher δ :=
  { s with handler := some ⟨job,phase⟩ }

/-- Where the queue has called the handler, it runs up to its first await. -/
def launch (backend : Backend) (s : Dispatcher δ) : Dispatcher δ :=
  match s.handler, s.queue.tick.bind (·.current) with
  | none, some job =>
      if job.type = WEBHOOK_DELIVERY_JOB then
        s.setPhase job (.getting (backend.ask (s.store.getDelivery (deliveryId job))))
      else s
  | _, _ => s

/-- The loop of `scheduleEvent` over the subscriptions that are left. -/
def nextSubscription (backend : Backend) (s : Dispatcher δ) (call : ScheduleCall) :
    List OutboundWebhookSubscription → SchedulePhase
  | [] => .returned
  | subscription :: rest => .finding subscription rest
      (backend.ask (s.findDelivery backend subscription.id (eventId call.event) 0))

def scheduleEvent (backend : Backend) (s : Dispatcher δ) (event : CreditDomainEvent) :
    Dispatcher δ :=
  { s with
    calls := s.calls ++ [⟨event,[],.listing (backend.ask (s.listSubscriptions backend))⟩] }

/-- An id in use is not drawn again. -/
def create (s : Dispatcher δ) (i : ℕ) (call : ScheduleCall)
    (input : CreateDeliveryInput WebhookPayload) (rest : List OutboundWebhookSubscription)
    (uuid : String) (now : ℤ) : Dispatcher δ :=
  if (s.store.getDelivery uuid).isSome then s
  else
    { s with
      store := s.store.createDelivery input uuid now
      calls := s.calls.set i
        { call with phase := .created (Store.newDelivery input uuid now) rest } }

def createInput (call : ScheduleCall) (subscription : OutboundWebhookSubscription) (now : ℤ) :
    CreateDeliveryInput WebhookPayload where
  subscriptionId := subscription.id
  url := subscription.url
  eventType := call.event.type.name
  eventId := eventId call.event
  payload := payloadFor call.event now

/-- The job of a delivery. -/
def enqueueDelivery (config : Config) (s : Dispatcher δ) (delivery : Delivery) (now : ℤ) :
    Queue Unit (Payload δ) :=
  s.queue.enqueue now WEBHOOK_DELIVERY_JOB (.delivery delivery.id)
    ⟨some config.maxAttempts,none,some ("webhook-" ++ delivery.id)⟩

def proceed (backend : Backend) (config : Config) (s : Dispatcher δ) (now : ℤ) (i : ℕ)
    (uuid : String) (pick : ℕ) : Dispatcher δ :=
  match s.calls[i]? with
  | none => s
  | some call => match call.phase with
      | .listing reply =>
          let matching := (reply.read (s.listSubscriptions backend)).filter fun subscription =>
            subscription.active ∧ call.event.type.name ∈ subscription.eventTypes
          s.setCall i { call with phase := s.nextSubscription backend call matching }
      | .finding subscription rest reply =>
          let existing := reply.read
            (s.findDelivery backend subscription.id (eventId call.event) pick)
          if existing.map (·.status) = some .delivered then
            s.setCall i { call with phase := s.nextSubscription backend call rest }
          else match backend with
            | .memory => s.create i call (createInput call subscription now) rest uuid now
            | .postgres =>
                s.setCall i
                  { call with phase := .creating (createInput call subscription now) rest }
      | .creating input rest => s.create i call input rest uuid now
      | .created delivery rest =>
          { s with
            queue := s.enqueueDelivery config delivery now
            calls := s.calls.set i
              { call with
                jobIds := call.jobIds ++ ["webhook-" ++ delivery.id]
                phase := s.nextSubscription backend call rest } }
      | .returned => s

/-- `updateDelivery`, up to its first await. Where its patch cannot be made, the handler fails. -/
def startUpdate (backend : Backend) (config : Config) (s : Dispatcher δ)
    (job : Job (Payload δ)) (delivery : Delivery) (attempt : Attempt) (now : ℤ) : Dispatcher δ :=
  match patchFor config job now attempt with
  | .error message => s.setPhase job (.finished (.rejected message))
  | .ok patch => match backend with
      | .memory => match InMemory.updateDelivery s.store delivery.id patch now with
          | none => s.setPhase job (.recorded delivery attempt (some (notFound delivery.id)))
          | some store => { s with store }.setPhase job (.recorded delivery attempt none)
      | .postgres => s.setPhase job (.reading delivery attempt patch)

/-- The handler goes on after a query. -/
def handle (backend : Backend) (config : Config) (s : Dispatcher δ) (now : ℤ) : Dispatcher δ :=
  match s.handler with
  | none => s
  | some ⟨job,phase⟩ => match phase with
      | .getting reply => match reply.read (s.store.getDelivery (deliveryId job)) with
          | none => s.setPhase job (.finished (.rejected (notFound (deliveryId job))))
          | some delivery => s.setPhase job (.posting delivery)
      | .reading delivery attempt patch => match s.store.getDelivery delivery.id with
          | none => s.setPhase job (.recorded delivery attempt (some (notFound delivery.id)))
          | some current =>
              s.setPhase job (.writing delivery attempt (Postgres.nextColumns current patch))
      | .writing delivery attempt next => match Postgres.write s.store delivery.id next now with
          | .error message => s.setPhase job (.recorded delivery attempt (some message))
          | .ok store => { s with store }.setPhase job (.recorded delivery attempt none)
      | .recorded delivery attempt error => match attempt, error with
          | .accepted _, none => s.setPhase job (.finished .resolved)
          | .accepted _, some message =>
              s.startUpdate backend config job delivery (.refused message) now
          | .refused message, none => s.setPhase job (.finished (.rejected message))
          | .refused _, some message => s.setPhase job (.finished (.rejected message))
          | .unprintable, none => s.setPhase job (.finished .unprintable)
          | .unprintable, some message => s.setPhase job (.finished (.rejected message))
      | .posting _ => s
      | .finished _ => s

/-- The POST under way is answered or fails. -/
def settlePost (backend : Backend) (config : Config) (s : Dispatcher δ) (now : ℤ)
    (attempt : Attempt) (success arrived : Bool) : Dispatcher δ :=
  match s.handler with
  | some ⟨job,.posting delivery⟩ =>
      { s with posts := s.posts ++ post delivery success arrived }.startUpdate backend config job
        delivery attempt now
  | _ => s

/-- The queue goes on with what the handler came to. -/
def collect (backend : Backend) (config : Config) (s : Dispatcher δ) (now : ℤ) : Dispatcher δ :=
  match s.handler with
  | some ⟨_,.finished outcome⟩ =>
      { s with
        handler := none
        queue := s.queue.settle config.retryBackoffMs now outcome }.launch backend
  | _ => s

/-- Other code does not enqueue webhook jobs, does not take over their handler,
and settles only its own, with values that have a text where they fail. -/
def isForeign (s : Dispatcher δ) : JobQueue.Action Unit (Payload δ) → Bool
  | .enqueue type _ _ => type ≠ WEBHOOK_DELIVERY_JOB
  | .registerHandler type _ => type ≠ WEBHOOK_DELIVERY_JOB
  | .settle .unprintable => false
  | .settle _ => s.handler.isNone
  | _ => true

def stepQueue (backend : Backend) (config : Config) (s : Dispatcher δ) (now : ℤ)
    (action : JobQueue.Action Unit (Payload δ)) : Dispatcher δ :=
  if s.isForeign action then
    { s with queue := s.queue.step config.retryBackoffMs ⟨now,action⟩ }.launch backend
  else s

def step (backend : Backend) (config : Config) (s : Dispatcher δ) (st : Step δ) : Dispatcher δ :=
  match st.action with
  | .queue action => s.stepQueue backend config st.now action
  | .subscribe url eventTypes secretRef uuid =>
      { s with store := s.store.upsertEnvSubscription url eventTypes secretRef uuid st.now }
  | .schedule event => s.scheduleEvent backend event
  | .proceed i uuid pick => s.proceed backend config st.now i uuid pick
  | .handle => s.handle backend config st.now
  | .answer response =>
      s.settlePost backend config st.now (deliver response) response.ok true
  | .fail message reached =>
      s.settlePost backend config st.now (.refused message) reached false
  | .failUnprintable reached => s.settlePost backend config st.now .unprintable reached false
  | .collect => s.collect backend config st.now

end Dispatcher
end Creditra.OutboundWebhooks
