import Creditra.InsertionMaps
import Mathlib.Data.List.Sort

/-!
# The outbound webhook store

Subscriptions and deliveries under their ids, in the order of their creation.
The in-memory store and the tables hold the same data and differ in how they
find and update a delivery: the one finds the oldest for a subscription and an
event and overwrites what a patch names, the other finds the newest, reads the
row before it writes it, and keeps what a patch leaves undefined. Times are in
milliseconds. Ids are drawn by the environment; payloads are not looked into.
-/
namespace Creditra.OutboundWebhookStore
open InsertionMaps

inductive OutboundWebhookStatus where
  | queued
  | delivered
  | failed
  | deadLetter
  deriving DecidableEq

structure OutboundWebhookSubscription where
  id : String
  url : String
  eventTypes : List String
  active : Bool
  secretRef : String
  createdAt : ℤ
  updatedAt : ℤ
  deriving DecidableEq

structure OutboundWebhookDelivery (π : Type) where
  id : String
  subscriptionId : String
  url : String
  eventType : String
  eventId : String
  status : OutboundWebhookStatus
  payload : π
  attempts : ℕ
  responseStatus : Option ℕ
  lastError : Option String
  nextAttemptAt : Option ℤ
  deliveredAt : Option ℤ
  createdAt : ℤ
  updatedAt : ℤ
  deriving DecidableEq

structure CreateDeliveryInput (π : Type) where
  subscriptionId : String
  url : String
  eventType : String
  eventId : String
  payload : π

/-- A field is absent, or present and undefined, or present with a value. -/
structure DeliveryPatch where
  status : Option OutboundWebhookStatus := none
  attempts : Option ℕ := none
  responseStatus : Option (Option ℕ) := none
  lastError : Option (Option String) := none
  nextAttemptAt : Option (Option ℤ) := none
  deliveredAt : Option (Option ℤ) := none

structure Store (π : Type) where
  subscriptions : InsertionMap String OutboundWebhookSubscription := .empty
  deliveries : InsertionMap String (OutboundWebhookDelivery π) := .empty

variable {π : Type}

namespace Store

/-- Both stores keep the id and the creation time of a URL they know. -/
def upsertEnvSubscription (store : Store π) (url : String) (eventTypes : List String)
    (secretRef : String) (uuid : String) (now : ℤ) : Store π :=
  let existing := (store.subscriptions.entries.map Prod.snd).find? (·.url = url)
  let subscription : OutboundWebhookSubscription :=
    { id := (existing.map (·.id)).getD uuid
      url
      eventTypes
      active := true
      secretRef
      createdAt := (existing.map (·.createdAt)).getD now
      updatedAt := now }
  { store with subscriptions := store.subscriptions.set subscription.id subscription }

def newDelivery (input : CreateDeliveryInput π) (uuid : String) (now : ℤ) :
    OutboundWebhookDelivery π where
  id := uuid
  subscriptionId := input.subscriptionId
  url := input.url
  eventType := input.eventType
  eventId := input.eventId
  status := .queued
  payload := input.payload
  attempts := 0
  responseStatus := none
  lastError := none
  nextAttemptAt := none
  deliveredAt := none
  createdAt := now
  updatedAt := now

def put (store : Store π) (delivery : OutboundWebhookDelivery π) : Store π :=
  { store with deliveries := store.deliveries.set delivery.id delivery }

def createDelivery (store : Store π) (input : CreateDeliveryInput π) (uuid : String) (now : ℤ) :
    Store π := store.put (newDelivery input uuid now)

def getDelivery (store : Store π) (id : String) : Option (OutboundWebhookDelivery π) :=
  store.deliveries.get id

@[simp] theorem getDelivery_put_self (store : Store π) (delivery : OutboundWebhookDelivery π) :
    (store.put delivery).getDelivery delivery.id = some delivery :=
  InsertionMap.get_set_self _ _ _

theorem getDelivery_put_of_ne (store : Store π) (delivery : OutboundWebhookDelivery π) {id : String}
    (h : id ≠ delivery.id) : (store.put delivery).getDelivery id = store.getDelivery id :=
  InsertionMap.get_set_of_ne _ h _

/-- A row that is there after a `put` is the one that was put, or was there before. -/
theorem getDelivery_put_cases {store : Store π} {delivery row : OutboundWebhookDelivery π}
    {id : String} (h : (store.put delivery).getDelivery id = some row) :
    id = delivery.id ∧ row = delivery ∨ id ≠ delivery.id ∧ store.getDelivery id = some row :=
  InsertionMap.get_set_cases h

theorem getDelivery_put_isSome {store : Store π} {delivery : OutboundWebhookDelivery π}
    {id : String} (h : id ≠ delivery.id → (store.getDelivery id).isSome) :
    ((store.put delivery).getDelivery id).isSome := by
  by_cases heq : id = delivery.id
  · rw [heq,getDelivery_put_self]
    rfl
  · rw [getDelivery_put_of_ne _ _ heq]
    exact h heq

theorem keys_put {store : Store π} {delivery : OutboundWebhookDelivery π}
    (h : (store.getDelivery delivery.id).isSome) :
    (store.put delivery).deliveries.keys = store.deliveries.keys :=
  InsertionMap.keys_set_of_mem (InsertionMap.mem_keys.mpr h) _

theorem keys_put_new {store : Store π} {delivery : OutboundWebhookDelivery π}
    (h : store.getDelivery delivery.id = none) :
    (store.put delivery).deliveries.keys = store.deliveries.keys ++ [delivery.id] := by
  apply InsertionMap.keys_set_of_not_mem
  rw [InsertionMap.mem_keys]
  intro hsome
  rw [show store.deliveries.get delivery.id = none from h] at hsome
  cases hsome

/-- The deliveries of one event to one subscription, oldest first. -/
def deliveriesFor (store : Store π) (subscriptionId eventId : String) :
    List (OutboundWebhookDelivery π) :=
  (store.deliveries.entries.map Prod.snd).filter fun delivery =>
    delivery.subscriptionId = subscriptionId ∧ delivery.eventId = eventId

end Store

/-! ## In memory -/

namespace InMemory

def listSubscriptions (store : Store π) : List OutboundWebhookSubscription :=
  (store.subscriptions.entries.map Prod.snd).filter (·.active)

def findDelivery (store : Store π) (subscriptionId eventId : String) :
    Option (OutboundWebhookDelivery π) := (store.deliveriesFor subscriptionId eventId).head?

/-- `{ ...existing, ...patch, updatedAt }` -/
def patched (existing : OutboundWebhookDelivery π) (patch : DeliveryPatch) (now : ℤ) :
    OutboundWebhookDelivery π :=
  { existing with
    status := patch.status.getD existing.status
    attempts := patch.attempts.getD existing.attempts
    responseStatus := patch.responseStatus.getD existing.responseStatus
    lastError := patch.lastError.getD existing.lastError
    nextAttemptAt := patch.nextAttemptAt.getD existing.nextAttemptAt
    deliveredAt := patch.deliveredAt.getD existing.deliveredAt
    updatedAt := now }

/-- Nothing where it throws. -/
def updateDelivery (store : Store π) (id : String) (patch : DeliveryPatch) (now : ℤ) :
    Option (Store π) :=
  (store.getDelivery id).map fun existing => store.put (patched existing patch now)

end InMemory

/-! ## In the tables -/

namespace Postgres

def listSubscriptions (store : Store π) : List OutboundWebhookSubscription :=
  ((store.subscriptions.entries.map Prod.snd).filter (·.active)).insertionSort
    fun a b => a.createdAt ≤ b.createdAt

/-- `ORDER BY created_at DESC LIMIT 1`; which of the rows created last is returned
where there are several is up to the database. -/
def findDelivery (store : Store π) (subscriptionId eventId : String) (pick : ℕ) :
    Option (OutboundWebhookDelivery π) :=
  let rows := store.deliveriesFor subscriptionId eventId
  let newest := rows.filter fun row => rows.all fun other => other.createdAt ≤ row.createdAt
  newest[pick]?.or newest.head?

/-- What `updateDelivery` writes. -/
structure Columns where
  status : OutboundWebhookStatus
  attempts : ℕ
  responseStatus : Option ℕ
  lastError : Option String
  nextAttemptAt : Option ℤ
  deliveredAt : Option ℤ

/-- `patch.x ?? current.x` -/
def nextColumns (current : OutboundWebhookDelivery π) (patch : DeliveryPatch) : Columns where
  status := patch.status.getD current.status
  attempts := patch.attempts.getD current.attempts
  responseStatus := patch.responseStatus.join.or current.responseStatus
  lastError := patch.lastError.join.or current.lastError
  nextAttemptAt := patch.nextAttemptAt.join.or current.nextAttemptAt
  deliveredAt := patch.deliveredAt.join.or current.deliveredAt

def written (row : OutboundWebhookDelivery π) (next : Columns) (now : ℤ) :
    OutboundWebhookDelivery π :=
  { row with
    status := next.status
    attempts := next.attempts
    responseStatus := next.responseStatus
    lastError := next.lastError
    nextAttemptAt := next.nextAttemptAt
    deliveredAt := next.deliveredAt
    updatedAt := now }

/-- The unique index on `(subscription_id, event_id) WHERE status = 'delivered'`. -/
def conflicts (store : Store π) (row : OutboundWebhookDelivery π) (next : Columns) : Bool :=
  next.status = .delivered ∧
    (store.deliveriesFor row.subscriptionId row.eventId).any fun other =>
      other.id ≠ row.id ∧ other.status = .delivered

def uniqueViolation : String :=
  "duplicate key value violates unique constraint " ++
    "\"outbound_webhook_deliveries_event_subscription_key\""

/-- The `UPDATE`, with the error where it violates the index. -/
def write (store : Store π) (id : String) (next : Columns) (now : ℤ) : Except String (Store π) :=
  match store.getDelivery id with
  | none => .error "Cannot read properties of undefined (reading 'id')"
  | some row =>
      if conflicts store row next then .error uniqueViolation
      else .ok (store.put (written row next now))

end Postgres
end Creditra.OutboundWebhookStore
