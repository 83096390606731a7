import Creditra.GuardedRuns
import Creditra.JsonText
import Creditra.OutboundWebhookStore

/-!
# The two outbound webhook stores side by side

One sequence of calls on `InMemoryOutboundWebhookStore` and on
`PostgresOutboundWebhookStore`. Both are given the same generated ids and the
same clock, so that their answers can be compared as they are; payloads are
compared by their members, whose order the database does not keep.

A patch with an undefined field clears it in memory and keeps it in the table; of
several deliveries of an event, memory finds the oldest and the table the newest;
and the table asks more of what it is given. In a sequence without these the
stores hold the same, up to the order of members, and return the same.
-/
namespace Creditra.OutboundStoreAgreement
open GuardedRuns InsertionMaps JsNumbers JsonValues OutboundWebhookStore
open JsonText (parseJson)

/-- What the server reads as a UUID, with its canonical text, and as a text; what the `payload`
column gives back; and the order in which it comes across the rows of a table. -/
structure Server where
  uuid : String → Option String
  readsText : String → Bool
  jsonb : Json → Option Json
  scan : List (OutboundWebhookDelivery Json) → List (OutboundWebhookDelivery Json)

/-- Neither `null` nor a string. -/
def plain : Json → Bool
  | .null => false
  | .string _ => false
  | _ => true

/-- A payload comes back with its members and as a value of its kind, and no row is missed. -/
structure Server.Faithful (server : Server) : Prop where
  members : ∀ payload stored, server.jsonb payload = some stored →
    stableStringify stored = stableStringify payload
  kind : ∀ payload stored, server.jsonb payload = some stored → plain stored = plain payload
  scans : ∀ rows, (server.scan rows).Perm rows

/-- What a call returns: a value, the error it throws itself, or an error from elsewhere. -/
inductive Outcome (π : Type) where
  | subscription (subscription : OutboundWebhookSubscription)
  | delivery (delivery : Option (OutboundWebhookDelivery π))
  | deliveries (deliveries : List (OutboundWebhookDelivery π))
  | error (message : String)
  | refused
  deriving DecidableEq

def notFound (id : String) : String := "Webhook delivery not found: " ++ id

/-- `Math.min(Math.max(limit ?? 50, 1), 200)`, nothing where it is not a number. -/
def clampedLimit : Option Number → Option ℚ
  | none => some 50
  | some (.finite q) => some (min (max q 1) 200)
  | some (.infinite negative) => some (if negative then 1 else 200)
  | some .nan => none

/-- The deliveries a listing is about. -/
def listed {π : Type} (store : Store π) (status : Option OutboundWebhookStatus) :
    List (OutboundWebhookDelivery π) :=
  (store.deliveries.entries.map Prod.snd).filter fun delivery =>
    match status with
    | none => true
    | some status => delivery.status = status

/-- The last created first. -/
def newestFirst {π : Type} (deliveries : List (OutboundWebhookDelivery π)) :
    List (OutboundWebhookDelivery π) :=
  deliveries.insertionSort fun a b => b.createdAt ≤ a.createdAt

/-! ## In memory -/

namespace InMemory
variable {π : Type}

/-- The subscription that `upsertEnvSubscription` stores and returns. -/
def subscribed (store : Store π) (url : String) (eventTypes : List String) (secretRef uuid : String)
    (now : ℤ) : OutboundWebhookSubscription :=
  let existing := (store.subscriptions.entries.map Prod.snd).find? (·.url = url)
  { id := (existing.map (·.id)).getD uuid
    url
    eventTypes
    active := true
    secretRef
    createdAt := (existing.map (·.createdAt)).getD now
    updatedAt := now }

def upsertEnvSubscription (store : Store π) (url : String) (eventTypes : List String)
    (secretRef uuid : String) (now : ℤ) : Outcome π × Store π :=
  (.subscription (subscribed store url eventTypes secretRef uuid now),
    store.upsertEnvSubscription url eventTypes secretRef uuid now)

def createDelivery (store : Store π) (input : CreateDeliveryInput π) (uuid : String) (now : ℤ) :
    Outcome π × Store π :=
  (.delivery (some (Store.newDelivery input uuid now)),store.createDelivery input uuid now)

def updateDelivery (store : Store π) (id : String) (patch : DeliveryPatch) (now : ℤ) :
    Outcome π × Store π :=
  match OutboundWebhookStore.InMemory.updateDelivery store id patch now with
  | none => (.error (notFound id),store)
  | some updated => (.delivery (updated.getDelivery id),updated)

/-- `slice(0, limit)` cuts at the integer part, and before everything where there is none. -/
def listDeliveries (store : Store π) (status : Option OutboundWebhookStatus)
    (limit : Option Number) : List (OutboundWebhookDelivery π) :=
  match clampedLimit limit with
  | none => []
  | some limit => (newestFirst (listed store status)).take limit.floor.toNat

end InMemory

/-! ## In the tables -/

namespace Postgres

/-- The payload as `mapDelivery` reads it, nothing where `JSON.parse` throws. -/
def readPayload : Json → Option Json
  | .string text => parseJson text
  | .null => some (.object [])
  | payload => some payload

def mapDelivery (row : OutboundWebhookDelivery Json) : Option (OutboundWebhookDelivery Json) :=
  (readPayload row.payload).map fun payload => { row with payload }

/-- A row that was asked for, if there is one. -/
def returned : Option (OutboundWebhookDelivery Json) → Outcome Json
  | none => .delivery none
  | some row => match mapDelivery row with
      | none => .refused
      | some delivery => .delivery (some delivery)

def upsertEnvSubscription (server : Server) (store : Store Json) (url : String)
    (eventTypes : List String) (secretRef uuid : String) (now : ℤ) : Outcome Json × Store Json :=
  if server.readsText url && eventTypes.all server.readsText && server.readsText secretRef then
    match (store.subscriptions.entries.map Prod.snd).find? (·.url = url) with
    | some existing =>
        let row := { existing with eventTypes, active := true, secretRef, updatedAt := now }
        (.subscription row,{ store with subscriptions := store.subscriptions.set row.id row })
    | none =>
        if (store.subscriptions.get uuid).isSome then (.refused,store)
        else
          let row : OutboundWebhookSubscription := ⟨uuid,url,eventTypes,true,secretRef,now,now⟩
          (.subscription row,{ store with subscriptions := store.subscriptions.set row.id row })
  else (.refused,store)

/-- The subscription has to exist, and the id has to be new. -/
def createDelivery (server : Server) (store : Store Json) (input : CreateDeliveryInput Json)
    (uuid : String) (now : ℤ) : Outcome Json × Store Json :=
  match server.uuid input.subscriptionId, server.jsonb input.payload with
  | some subscriptionId, some payload =>
      if server.readsText input.url && server.readsText input.eventType &&
          server.readsText input.eventId && (store.subscriptions.get subscriptionId).isSome &&
          (store.getDelivery uuid).isNone then
        let row := Store.newDelivery { input with subscriptionId, payload } uuid now
        (returned (some row),store.put row)
      else (.refused,store)
  | _, _ => (.refused,store)

def getDelivery (server : Server) (store : Store Json) (id : String) : Outcome Json :=
  match server.uuid id with
  | none => .refused
  | some id => returned (store.getDelivery id)

def findDelivery (server : Server) (store : Store Json) (subscriptionId eventId : String)
    (pick : ℕ) : Outcome Json :=
  match server.uuid subscriptionId with
  | none => .refused
  | some subscriptionId =>
      if server.readsText eventId then
        returned (OutboundWebhookStore.Postgres.findDelivery store subscriptionId eventId pick)
      else .refused

/-- `INTEGER` columns hold 32 bits. -/
def takes (server : Server) (next : OutboundWebhookStore.Postgres.Columns) : Bool :=
  next.attempts < 2 ^ 31 && next.responseStatus.all (· < 2 ^ 31) &&
    next.lastError.all server.readsText

/-- The row is read before it is written. -/
def updateDelivery (server : Server) (store : Store Json) (id : String) (patch : DeliveryPatch)
    (now : ℤ) : Outcome Json × Store Json :=
  match server.uuid id with
  | none => (.refused,store)
  | some uuid => match store.getDelivery uuid with
      | none => (.error (notFound id),store)
      | some row => match mapDelivery row with
          | none => (.refused,store)
          | some current =>
              let next := OutboundWebhookStore.Postgres.nextColumns current patch
              if takes server next then
                match OutboundWebhookStore.Postgres.write store uuid next now with
                | .error _ => (.refused,store)
                | .ok updated => (returned (updated.getDelivery uuid),updated)
              else (.refused,store)

/-- `LIMIT` takes an integer. -/
def listDeliveries (server : Server) (store : Store Json) (status : Option OutboundWebhookStatus)
    (limit : Option Number) : Outcome Json :=
  match clampedLimit limit with
  | none => .refused
  | some limit =>
      if limit.den = 1 then
        match ((newestFirst (server.scan (listed store status))).take limit.num.toNat).mapM
          mapDelivery with
        | none => .refused
        | some deliveries => .deliveries deliveries
      else .refused

end Postgres

/-! ## What is compared -/

def shown (d : OutboundWebhookDelivery Json) : OutboundWebhookDelivery String :=
  { d with payload := stableStringify d.payload }

def shownStore (store : Store Json) : Store String :=
  ⟨store.subscriptions,store.deliveries.mapValues shown⟩

def shownOutcome : Outcome Json → Outcome String
  | .subscription subscription => .subscription subscription
  | .delivery delivery => .delivery (delivery.map shown)
  | .deliveries deliveries => .deliveries (deliveries.map shown)
  | .error message => .error message
  | .refused => .refused

section Shown
variable {store : Store Json}

theorem shownStore_put (store : Store Json) (d : OutboundWebhookDelivery Json) :
    shownStore (store.put d) = (shownStore store).put (shown d) := by
  unfold shownStore Store.put
  dsimp only
  rw [InsertionMap.mapValues_set]
  rfl

theorem getDelivery_shownStore (store : Store Json) (id : String) :
    (shownStore store).getDelivery id = (store.getDelivery id).map shown :=
  InsertionMap.get_mapValues ..

theorem values_shownStore (store : Store Json) :
    (shownStore store).deliveries.entries.map Prod.snd =
      (store.deliveries.entries.map Prod.snd).map shown := by
  unfold shownStore InsertionMap.mapValues
  rw [List.map_map,List.map_map]
  rfl

theorem deliveriesFor_shownStore (store : Store Json) (subscriptionId eventId : String) :
    (shownStore store).deliveriesFor subscriptionId eventId =
      (store.deliveriesFor subscriptionId eventId).map shown := by
  unfold Store.deliveriesFor
  rw [values_shownStore,List.filter_map]
  rfl

theorem listed_shownStore (store : Store Json) (status : Option OutboundWebhookStatus) :
    listed (shownStore store) status = (listed store status).map shown := by
  unfold listed
  rw [values_shownStore,List.filter_map]
  rfl

theorem newestFirst_map (deliveries : List (OutboundWebhookDelivery Json)) :
    (newestFirst deliveries).map shown = newestFirst (deliveries.map shown) :=
  List.map_insertionSort _ _ _ _ fun _ _ _ _ => Iff.rfl

/-- Payloads that are neither `null` nor a string are read back as they are. -/
theorem mapDelivery_of_plain {row : OutboundWebhookDelivery Json} (h : plain row.payload = true) :
    Postgres.mapDelivery row = some row := by
  have hpayload : Postgres.readPayload row.payload = some row.payload := by
    unfold Postgres.readPayload
    split
    · rename_i hstring
      rw [hstring] at h
      cases h
    · rename_i hnull
      rw [hnull] at h
      cases h
    · rfl
  unfold Postgres.mapDelivery
  rw [hpayload]
  rfl

theorem returned_of_plain {row : Option (OutboundWebhookDelivery Json)}
    (h : ∀ r ∈ row, plain r.payload = true) : Postgres.returned row = .delivery row := by
  cases row with
  | none => rfl
  | some r =>
      unfold Postgres.returned
      simp only [mapDelivery_of_plain (h r rfl)]

end Shown

/-! ## Both stores in one sequence of calls -/

inductive Call where
  | upsertEnvSubscription (url : String) (eventTypes : List String) (secretRef uuid : String)
      (now : ℤ)
  | createDelivery (input : CreateDeliveryInput Json) (uuid : String) (now : ℤ)
  | findDelivery (subscriptionId eventId : String) (pick : ℕ)
  | getDelivery (id : String)
  | updateDelivery (id : String) (patch : DeliveryPatch) (now : ℤ)
  | listDeliveries (status : Option OutboundWebhookStatus) (limit : Option Number)

def InMemory.call (store : Store Json) : Call → Outcome Json × Store Json
  | .upsertEnvSubscription url eventTypes secretRef uuid now =>
      upsertEnvSubscription store url eventTypes secretRef uuid now
  | .createDelivery input uuid now => createDelivery store input uuid now
  | .findDelivery subscriptionId eventId _ =>
      (.delivery (OutboundWebhookStore.InMemory.findDelivery store subscriptionId eventId),store)
  | .getDelivery id => (.delivery (store.getDelivery id),store)
  | .updateDelivery id patch now => updateDelivery store id patch now
  | .listDeliveries status limit => (.deliveries (listDeliveries store status limit),store)

def Postgres.call (server : Server) (store : Store Json) : Call → Outcome Json × Store Json
  | .upsertEnvSubscription url eventTypes secretRef uuid now =>
      upsertEnvSubscription server store url eventTypes secretRef uuid now
  | .createDelivery input uuid now => createDelivery server store input uuid now
  | .findDelivery subscriptionId eventId pick =>
      (findDelivery server store subscriptionId eventId pick,store)
  | .getDelivery id => (getDelivery server store id,store)
  | .updateDelivery id patch now => updateDelivery server store id patch now
  | .listDeliveries status limit => (listDeliveries server store status limit,store)

/-- The two stores and the outcomes of every call so far. -/
structure Pair where
  memory : Store Json := {}
  postgres : Store Json := {}
  outcomes : List (Outcome Json × Outcome Json) := []

def Pair.step (server : Server) (s : Pair) (call : Call) : Pair :=
  let memory := InMemory.call s.memory call
  let postgres := Postgres.call server s.postgres call
  ⟨memory.2,postgres.2,s.outcomes ++ [(memory.1,postgres.1)]⟩

/-- No unique constraint is violated, and deliveries are created at later and later times. -/
def Unviolated (s : Pair) : Call → Prop
  | .upsertEnvSubscription _ _ _ uuid _ => s.postgres.subscriptions.get uuid = none
  | .createDelivery _ uuid now => s.postgres.getDelivery uuid = none ∧
      ∀ delivery ∈ s.postgres.deliveries.entries.map Prod.snd, delivery.createdAt < now
  | .updateDelivery id patch _ => ∀ row ∈ s.postgres.getDelivery id,
      OutboundWebhookStore.Postgres.conflicts s.postgres row
        (OutboundWebhookStore.Postgres.nextColumns row patch) = false
  | _ => True

/-- A patch clears only what is empty. -/
def ClearsEmpty (existing : OutboundWebhookDelivery Json) (patch : DeliveryPatch) : Prop :=
  (patch.responseStatus = some none → existing.responseStatus = none) ∧
  (patch.lastError = some none → existing.lastError = none) ∧
  (patch.nextAttemptAt = some none → existing.nextAttemptAt = none) ∧
  (patch.deliveredAt = some none → existing.deliveredAt = none)

/-- The subscription of a new delivery is stored and its payload is neither `null` nor a string; a
delivery that is looked for by subscription and event has no second one beside it; a patch clears
only what is empty; a limit is an integer; and the server accepts every parameter. -/
def Matching (server : Server) (s : Pair) : Call → Prop
  | .upsertEnvSubscription url eventTypes secretRef _ _ =>
      (server.readsText url && eventTypes.all server.readsText && server.readsText secretRef) = true
  | .createDelivery input _ _ => server.uuid input.subscriptionId = some input.subscriptionId ∧
      (server.readsText input.url && server.readsText input.eventType &&
        server.readsText input.eventId) = true ∧ (server.jsonb input.payload).isSome = true ∧
      plain input.payload = true ∧ (s.memory.subscriptions.get input.subscriptionId).isSome = true
  | .findDelivery subscriptionId eventId _ => server.uuid subscriptionId = some subscriptionId ∧
      server.readsText eventId = true ∧ (s.memory.deliveriesFor subscriptionId eventId).length ≤ 1
  | .getDelivery id => server.uuid id = some id
  | .updateDelivery id patch _ => server.uuid id = some id ∧
      ∀ existing ∈ s.memory.getDelivery id, ClearsEmpty existing patch ∧
        Postgres.takes server (OutboundWebhookStore.Postgres.nextColumns existing patch) = true
  | .listDeliveries _ limit => ∃ q ∈ clampedLimit limit, q.den = 1

instance {s : Pair} : (call : Call) → Decidable (Unviolated s call)
  | .upsertEnvSubscription _ _ _ _ _ => inferInstanceAs (Decidable (_ = none))
  | .createDelivery _ _ _ => inferInstanceAs (Decidable (_ ∧ _))
  | .findDelivery _ _ _ => isTrue trivial
  | .getDelivery _ => isTrue trivial
  | .updateDelivery id patch _ => inferInstanceAs (Decidable (∀ row ∈ s.postgres.getDelivery id,
      OutboundWebhookStore.Postgres.conflicts s.postgres row
        (OutboundWebhookStore.Postgres.nextColumns row patch) = false))
  | .listDeliveries _ _ => isTrue trivial

instance {existing : OutboundWebhookDelivery Json} {patch : DeliveryPatch} :
    Decidable (ClearsEmpty existing patch) := by
  unfold ClearsEmpty
  infer_instance

instance {server : Server} {s : Pair} : (call : Call) → Decidable (Matching server s call)
  | .upsertEnvSubscription _ _ _ _ _ => inferInstanceAs (Decidable (_ = true))
  | .createDelivery _ _ _ => inferInstanceAs (Decidable (_ ∧ _))
  | .findDelivery _ _ _ => inferInstanceAs (Decidable (_ ∧ _))
  | .getDelivery _ => inferInstanceAs (Decidable (_ = _))
  | .updateDelivery id patch _ => inferInstanceAs (Decidable (server.uuid id = some id ∧
      ∀ existing ∈ s.memory.getDelivery id, ClearsEmpty existing patch ∧
        Postgres.takes server (OutboundWebhookStore.Postgres.nextColumns existing patch) = true))
  | .listDeliveries _ limit => inferInstanceAs (Decidable (∃ q ∈ clampedLimit limit, q.den = 1))

/-- Every call so far has had the same outcome in both stores. -/
def Agreed (s : Pair) : Prop := ∀ o ∈ s.outcomes, shownOutcome o.1 = shownOutcome o.2

/-- What both stores keep in such a sequence. -/
structure Coupled (memory postgres : Store Json) : Prop where
  alike : shownStore memory = shownStore postgres
  payloads : ∀ id row, postgres.getDelivery id = some row → plain row.payload = true
  keyed : ∀ id row, postgres.getDelivery id = some row → row.id = id
  ordered : ((postgres.deliveries.mapValues (·.createdAt)).entries.map Prod.snd).Pairwise (· < ·)

section Coupled
variable {memory postgres : Store Json}

theorem Coupled.subscriptions (h : Coupled memory postgres) :
    memory.subscriptions = postgres.subscriptions :=
  congrArg (fun store : Store String => store.subscriptions) h.alike

theorem Coupled.getDelivery (h : Coupled memory postgres) (id : String) :
    (memory.getDelivery id).map shown = (postgres.getDelivery id).map shown := by
  rw [← getDelivery_shownStore,← getDelivery_shownStore,h.alike]

theorem Coupled.plain_values (h : Coupled memory postgres) {row : OutboundWebhookDelivery Json}
    (hrow : row ∈ postgres.deliveries.entries.map Prod.snd) : plain row.payload = true := by
  obtain ⟨e,he,heq⟩ := List.mem_map.mp hrow
  subst heq
  exact h.payloads e.1 e.2 (InsertionMap.get_eq_some.mpr he)

/-- Deliveries of the table at two places were created at two times. -/
theorem Coupled.chronological (h : Coupled memory postgres) :
    (postgres.deliveries.entries.map Prod.snd).Pairwise fun a b => a.createdAt < b.createdAt := by
  have hordered := h.ordered
  unfold InsertionMap.mapValues at hordered
  rw [List.map_map,List.pairwise_map] at hordered
  rw [List.pairwise_map]
  exact hordered

/-- The order of a listing does not depend on the order in which the rows are read. -/
theorem newestFirst_perm {l l' : List (OutboundWebhookDelivery Json)} (hperm : l'.Perm l)
    (h : l.Pairwise fun a b => a.createdAt < b.createdAt) : newestFirst l' = newestFirst l := by
  have htotal : Std.Total fun a b : OutboundWebhookDelivery Json => b.createdAt ≤ a.createdAt :=
    ⟨fun a b => Int.le_total b.createdAt a.createdAt⟩
  have htrans : IsTrans (OutboundWebhookDelivery Json) fun a b => b.createdAt ≤ a.createdAt :=
    ⟨fun _ _ _ hab hbc => Int.le_trans hbc hab⟩
  have hsymm : Std.Symm fun a b : OutboundWebhookDelivery Json => a.createdAt ≠ b.createdAt :=
    ⟨fun _ _ hab => Ne.symm hab⟩
  have hne : l.Pairwise fun a b => a.createdAt ≠ b.createdAt := h.imp fun hlt => Int.ne_of_lt hlt
  have hsorted : (newestFirst l').Perm (newestFirst l) :=
    (List.perm_insertionSort _ l').trans (hperm.trans (List.perm_insertionSort _ l).symm)
  apply hsorted.eq_of_pairwise
  · intro a b ha hb hab hba
    by_contra hdiff
    have hal : a ∈ l := hperm.mem_iff.mp ((List.mem_insertionSort _).mp ha)
    have hbl : b ∈ l := (List.mem_insertionSort _).mp hb
    exact hne.forall hal hbl hdiff (Int.le_antisymm hba hab)
  · exact List.pairwise_insertionSort _ l'
  · exact List.pairwise_insertionSort _ l

theorem mapM_mapDelivery {rows : List (OutboundWebhookDelivery Json)}
    (h : ∀ row ∈ rows, plain row.payload = true) :
    rows.mapM Postgres.mapDelivery = some rows := by
  induction rows with
  | nil => rfl
  | cons row rows ih =>
      rw [List.mapM_cons,mapDelivery_of_plain (h row List.mem_cons_self),
        ih fun r hr => h r (List.mem_cons_of_mem row hr)]
      rfl

theorem Coupled.listDeliveries {server : Server} (hs : server.Faithful)
    (h : Coupled memory postgres) (status : Option OutboundWebhookStatus) {limit : Option Number}
    (hlimit : ∃ q ∈ clampedLimit limit, q.den = 1) :
    shownOutcome (.deliveries (InMemory.listDeliveries memory status limit)) =
      shownOutcome (Postgres.listDeliveries server postgres status limit) := by
  obtain ⟨q,hq,hden⟩ := hlimit
  rw [Option.mem_def] at hq
  have hrows : ∀ row ∈ listed postgres status, row ∈ postgres.deliveries.entries.map Prod.snd :=
    fun row hrow => List.mem_of_mem_filter hrow
  have hscan : newestFirst (server.scan (listed postgres status)) =
      newestFirst (listed postgres status) :=
    newestFirst_perm (hs.scans _) (h.chronological.filter _)
  have hmap : ((newestFirst (listed postgres status)).take q.num.toNat).mapM Postgres.mapDelivery =
      some ((newestFirst (listed postgres status)).take q.num.toNat) := by
    apply mapM_mapDelivery
    intro row hrow
    have hmem := (List.mem_insertionSort _).mp (List.mem_of_mem_take hrow)
    exact h.plain_values (hrows row hmem)
  have hlisted : (listed memory status).map shown = (listed postgres status).map shown := by
    rw [← listed_shownStore,← listed_shownStore,h.alike]
  unfold InMemory.listDeliveries Postgres.listDeliveries
  simp only [hq,hden,hscan,hmap,if_true]
  unfold shownOutcome
  dsimp only
  rw [Rat.floor_def,List.map_take,List.map_take,newestFirst_map,newestFirst_map,hlisted,hden]
  simp

theorem Coupled.findDelivery {server : Server} (h : Coupled memory postgres)
    {subscriptionId eventId : String} (hid : server.uuid subscriptionId = some subscriptionId)
    (hreads : server.readsText eventId = true)
    (hone : (memory.deliveriesFor subscriptionId eventId).length ≤ 1) (pick : ℕ) :
    shownOutcome (.delivery
      (OutboundWebhookStore.InMemory.findDelivery memory subscriptionId eventId)) =
      shownOutcome (Postgres.findDelivery server postgres subscriptionId eventId pick) := by
  have hfor : (memory.deliveriesFor subscriptionId eventId).map shown =
      (postgres.deliveriesFor subscriptionId eventId).map shown := by
    rw [← deliveriesFor_shownStore,← deliveriesFor_shownStore,h.alike]
  have hplain : ∀ row ∈ postgres.deliveriesFor subscriptionId eventId,
      plain row.payload = true :=
    fun row hrow => h.plain_values (List.mem_of_mem_filter hrow)
  unfold Postgres.findDelivery OutboundWebhookStore.Postgres.findDelivery
    OutboundWebhookStore.InMemory.findDelivery
  simp only [hid,hreads,if_true]
  generalize memory.deliveriesFor subscriptionId eventId = found at hfor hone
  generalize postgres.deliveriesFor subscriptionId eventId = rows at hfor hplain
  have hlength := congrArg List.length hfor
  rw [List.length_map,List.length_map] at hlength
  match rows, found with
  | [], [] => rfl
  | [row], [delivery] =>
      have hrow := hplain row List.mem_cons_self
      have hsame : shown delivery = shown row := by simpa using hfor
      have hnewest : [row].filter (fun r => [row].all fun other => other.createdAt ≤ r.createdAt) =
          [row] := by simp
      rw [hnewest]
      cases pick with
      | zero => simp [returned_of_plain,hrow,shownOutcome,hsame]
      | succ pick => simp [returned_of_plain,hrow,shownOutcome,hsame]
  | _, _ :: _ :: _ => exact absurd hone (by simp)
  | _ :: _ :: _, [] => exact absurd hlength (by simp)
  | _ :: _ :: _, [_] => exact absurd hlength (by simp)

theorem Coupled.upsertEnvSubscription {server : Server} (h : Coupled memory postgres)
    {url : String} {eventTypes : List String} {secretRef uuid : String} (now : ℤ)
    (hnew : postgres.subscriptions.get uuid = none)
    (hreads : (server.readsText url && eventTypes.all server.readsText &&
      server.readsText secretRef) = true) :
    Coupled (InMemory.upsertEnvSubscription memory url eventTypes secretRef uuid now).2
      (Postgres.upsertEnvSubscription server postgres url eventTypes secretRef uuid now).2 ∧
    shownOutcome (InMemory.upsertEnvSubscription memory url eventTypes secretRef uuid now).1 =
      shownOutcome
        (Postgres.upsertEnvSubscription server postgres url eventTypes secretRef uuid now).1 := by
  have hpostgres : Postgres.upsertEnvSubscription server postgres url eventTypes secretRef uuid
      now = (.subscription (InMemory.subscribed memory url eventTypes secretRef uuid now),
        { postgres with
          subscriptions := (postgres.subscriptions.set
            (InMemory.subscribed memory url eventTypes secretRef uuid now).id
            (InMemory.subscribed memory url eventTypes secretRef uuid now)) }) := by
    unfold Postgres.upsertEnvSubscription InMemory.subscribed
    rw [if_pos hreads,h.subscriptions]
    split
    · rename_i existing hexisting
      have hurl : existing.url = url := by simpa using List.find?_some hexisting
      simp [hexisting,hurl]
    · rename_i hnone
      simp [hnone,hnew]
  rw [hpostgres]
  refine ⟨⟨?_,h.payloads,h.keyed,h.ordered⟩,rfl⟩
  have hdeliveries := congrArg (fun store : Store String => store.deliveries) h.alike
  have hsubscriptions := h.subscriptions
  unfold shownStore at hdeliveries ⊢
  unfold InMemory.upsertEnvSubscription Store.upsertEnvSubscription InMemory.subscribed
  dsimp only at hdeliveries ⊢
  rw [hdeliveries,hsubscriptions]

/-- A delivery under a new id. -/
theorem Coupled.put_new (h : Coupled memory postgres) {d row : OutboundWebhookDelivery Json}
    (hshown : shown d = shown row) (hnew : postgres.getDelivery row.id = none)
    (hplain : plain row.payload = true)
    (hlater : ∀ old ∈ postgres.deliveries.entries.map Prod.snd, old.createdAt < row.createdAt) :
    Coupled (memory.put d) (postgres.put row) where
  alike := by rw [shownStore_put,shownStore_put,h.alike,hshown]
  payloads := InsertionMap.forall_get_set h.payloads hplain
  keyed := InsertionMap.forall_get_set h.keyed rfl
  ordered := by
    have hget : (postgres.deliveries.mapValues (·.createdAt)).get row.id = none := by
      rw [InsertionMap.get_mapValues]
      exact congrArg (Option.map _) hnew
    unfold Store.put
    dsimp only
    rw [InsertionMap.mapValues_set,InsertionMap.entries_set_of_none hget,List.map_append,
      List.pairwise_append]
    refine ⟨h.ordered,List.pairwise_singleton _ _,?_⟩
    intro t ht t' ht'
    rw [List.map_singleton,List.mem_singleton] at ht'
    unfold InsertionMap.mapValues at ht
    rw [List.map_map] at ht
    obtain ⟨e,he,heq⟩ := List.mem_map.mp ht
    rw [ht',← heq]
    exact hlater e.2 (List.mem_map_of_mem he)

/-- A delivery that is stored already, changed alike in both. -/
theorem Coupled.put_known (h : Coupled memory postgres) {d row old : OutboundWebhookDelivery Json}
    (hshown : shown d = shown row) (hold : postgres.getDelivery row.id = some old)
    (hpayload : row.payload = old.payload) (hcreated : row.createdAt = old.createdAt) :
    Coupled (memory.put d) (postgres.put row) where
  alike := by rw [shownStore_put,shownStore_put,h.alike,hshown]
  payloads := InsertionMap.forall_get_set h.payloads (hpayload ▸ h.payloads _ old hold)
  keyed := InsertionMap.forall_get_set h.keyed rfl
  ordered := by
    have hget : (postgres.deliveries.mapValues (·.createdAt)).get row.id = some row.createdAt := by
      rw [InsertionMap.get_mapValues,hcreated]
      exact congrArg (Option.map _) hold
    unfold Store.put
    dsimp only
    rw [InsertionMap.mapValues_set,InsertionMap.set_of_get hget]
    exact h.ordered

theorem Coupled.createDelivery {server : Server} (hs : server.Faithful)
    (h : Coupled memory postgres) {input : CreateDeliveryInput Json} {uuid : String} {now : ℤ}
    (hid : server.uuid input.subscriptionId = some input.subscriptionId)
    (hreads : (server.readsText input.url && server.readsText input.eventType &&
      server.readsText input.eventId) = true)
    (hjsonb : (server.jsonb input.payload).isSome = true) (hplain : plain input.payload = true)
    (hsubscription : (memory.subscriptions.get input.subscriptionId).isSome = true)
    (hnew : postgres.getDelivery uuid = none)
    (hlater : ∀ old ∈ postgres.deliveries.entries.map Prod.snd, old.createdAt < now) :
    Coupled (InMemory.createDelivery memory input uuid now).2
      (Postgres.createDelivery server postgres input uuid now).2 ∧
    shownOutcome (InMemory.createDelivery memory input uuid now).1 =
      shownOutcome (Postgres.createDelivery server postgres input uuid now).1 := by
  obtain ⟨payload,hpayload⟩ := Option.isSome_iff_exists.mp hjsonb
  rw [h.subscriptions] at hsubscription
  have hkind : plain payload = true := (hs.kind _ _ hpayload).trans hplain
  have hshown : shown (Store.newDelivery input uuid now) =
      shown (Store.newDelivery { input with payload } uuid now) := by
    unfold shown Store.newDelivery
    dsimp only
    rw [hs.members _ _ hpayload]
  have hpostgres : Postgres.createDelivery server postgres input uuid now =
      (.delivery (some (Store.newDelivery { input with payload } uuid now)),
        postgres.put (Store.newDelivery { input with payload } uuid now)) := by
    unfold Postgres.createDelivery
    simp only [hid,hpayload,hreads,hsubscription,hnew,Option.isNone_none,Bool.and_self,if_true]
    rw [returned_of_plain]
    intro row hrow
    rw [Option.mem_some_iff] at hrow
    exact hrow ▸ hkind
  rw [hpostgres]
  refine ⟨h.put_new hshown hnew hkind hlater,?_⟩
  unfold InMemory.createDelivery shownOutcome
  dsimp only [Option.map_some]
  rw [hshown]

/-- A patch that clears only what is empty does the same spread over a delivery and written
column by column. -/
theorem written_eq_patched {existing : OutboundWebhookDelivery Json} {patch : DeliveryPatch}
    (h : ClearsEmpty existing patch) (now : ℤ) :
    OutboundWebhookStore.Postgres.written existing
        (OutboundWebhookStore.Postgres.nextColumns existing patch) now =
      OutboundWebhookStore.InMemory.patched existing patch now := by
  have hfield : ∀ {α : Type} (given : Option (Option α)) (current : Option α),
      (given = some none → current = none) → given.join.or current = given.getD current := by
    intro α given current hclear
    match given with
    | none => rfl
    | some none => exact hclear rfl
    | some (some a) => rfl
  unfold OutboundWebhookStore.Postgres.written OutboundWebhookStore.Postgres.nextColumns
    OutboundWebhookStore.InMemory.patched
  rw [hfield _ _ h.1,hfield _ _ h.2.1,hfield _ _ h.2.2.1,hfield _ _ h.2.2.2]

theorem Coupled.updateDelivery {server : Server} (h : Coupled memory postgres) {id : String}
    {patch : DeliveryPatch} (now : ℤ) (hid : server.uuid id = some id)
    (hfree : ∀ row ∈ postgres.getDelivery id, OutboundWebhookStore.Postgres.conflicts postgres row
      (OutboundWebhookStore.Postgres.nextColumns row patch) = false)
    (hmatch : ∀ existing ∈ memory.getDelivery id, ClearsEmpty existing patch ∧
      Postgres.takes server (OutboundWebhookStore.Postgres.nextColumns existing patch) = true) :
    Coupled (InMemory.updateDelivery memory id patch now).2
      (Postgres.updateDelivery server postgres id patch now).2 ∧
    shownOutcome (InMemory.updateDelivery memory id patch now).1 =
      shownOutcome (Postgres.updateDelivery server postgres id patch now).1 := by
  have hget := h.getDelivery id
  unfold InMemory.updateDelivery OutboundWebhookStore.InMemory.updateDelivery
    Postgres.updateDelivery
  cases hrow : postgres.getDelivery id with
  | none =>
      rw [hrow,Option.map_none,Option.map_eq_none_iff] at hget
      simp only [hget,hid,hrow,Option.map_none]
      exact ⟨h,trivial⟩
  | some row =>
      rw [hrow,Option.map_some,Option.map_eq_some_iff] at hget
      obtain ⟨existing,hexisting,hshown⟩ := hget
      obtain ⟨hclears,htakes⟩ := hmatch existing hexisting
      have hplain := h.payloads id row hrow
      have hrowid := h.keyed id row hrow
      have hnext : OutboundWebhookStore.Postgres.nextColumns row patch =
          OutboundWebhookStore.Postgres.nextColumns existing patch :=
        congrArg (fun d : OutboundWebhookDelivery String =>
          OutboundWebhookStore.Postgres.nextColumns d patch) hshown.symm
      have hwrite : OutboundWebhookStore.Postgres.write postgres id
          (OutboundWebhookStore.Postgres.nextColumns row patch) now =
            .ok (postgres.put (OutboundWebhookStore.Postgres.written row
              (OutboundWebhookStore.Postgres.nextColumns row patch) now)) := by
        unfold OutboundWebhookStore.Postgres.write
        simp [hrow,hfree row hrow]
      have hnew : shown (OutboundWebhookStore.InMemory.patched existing patch now) =
          shown (OutboundWebhookStore.Postgres.written row
            (OutboundWebhookStore.Postgres.nextColumns row patch) now) := by
        rw [← written_eq_patched hclears,hnext]
        exact congrArg (fun d : OutboundWebhookDelivery String =>
          OutboundWebhookStore.Postgres.written d
            (OutboundWebhookStore.Postgres.nextColumns existing patch) now) hshown
      have hthere : postgres.getDelivery (OutboundWebhookStore.Postgres.written row
          (OutboundWebhookStore.Postgres.nextColumns row patch) now).id = some row := hrowid ▸ hrow
      have hcoupled := h.put_known hnew hthere rfl rfl
      simp only [hexisting,hid,hrow,mapDelivery_of_plain hplain,Option.map_some,hwrite]
      rw [if_pos (hnext ▸ htakes)]
      refine ⟨hcoupled,?_⟩
      dsimp only
      rw [returned_of_plain fun r hr => hcoupled.payloads id r hr]
      exact congrArg Outcome.delivery (hcoupled.getDelivery id)

end Coupled

theorem coupled_step {server : Server} (hs : server.Faithful) (s : Pair) (call : Call)
    (h : Coupled s.memory s.postgres ∧ Agreed s)
    (hc : Unviolated s call ∧ Matching server s call) :
    Coupled (s.step server call).memory (s.step server call).postgres ∧
      Agreed (s.step server call) := by
  obtain ⟨hcoupled,hagreed⟩ := h
  obtain ⟨hu,hm⟩ := hc
  have hcall : Coupled (InMemory.call s.memory call).2 (Postgres.call server s.postgres call).2 ∧
      shownOutcome (InMemory.call s.memory call).1 =
        shownOutcome (Postgres.call server s.postgres call).1 := by
    cases call with
    | upsertEnvSubscription url eventTypes secretRef uuid now =>
        exact hcoupled.upsertEnvSubscription now hu hm
    | createDelivery input uuid now =>
        exact hcoupled.createDelivery hs hm.1 hm.2.1 hm.2.2.1 hm.2.2.2.1 hm.2.2.2.2 hu.1 hu.2
    | findDelivery subscriptionId eventId pick =>
        exact ⟨hcoupled,hcoupled.findDelivery hm.1 hm.2.1 hm.2.2 pick⟩
    | getDelivery id =>
        refine ⟨hcoupled,?_⟩
        have hid : server.uuid id = some id := hm
        simp only [InMemory.call,Postgres.call,Postgres.getDelivery,hid]
        rw [returned_of_plain fun r hr => hcoupled.payloads id r hr]
        exact congrArg Outcome.delivery (hcoupled.getDelivery id)
    | updateDelivery id patch now => exact hcoupled.updateDelivery now hm.1 hu hm.2
    | listDeliveries status limit => exact ⟨hcoupled,hcoupled.listDeliveries hs status hm⟩
  refine ⟨hcall.1,?_⟩
  intro o ho
  cases List.mem_append.mp ho with
  | inl hold => exact hagreed o hold
  | inr hlast =>
      rw [List.mem_singleton] at hlast
      rw [hlast]
      exact hcall.2

theorem coupled_empty : Coupled {} {} where
  alike := rfl
  payloads id row hrow := by cases hrow
  keyed id row hrow := by cases hrow
  ordered := List.Pairwise.nil

/-- Along every sequence of matching calls both stores return the same. -/
theorem stores_agree_of_matching (server : Server) (hs : server.Faithful) (calls pre : List Call)
    (hc : Guarded (Pair.step server) (fun s call => Unviolated s call ∧ Matching server s call) {}
      calls) (hp : pre <+: calls) : Agreed (run (Pair.step server) {} pre) :=
  (run_invariant_passed (I := fun s => Coupled s.memory s.postgres ∧ Agreed s) (coupled_step hs)
    ⟨coupled_empty,by intro o ho; cases ho⟩ hc hp).2

/-- A server that reads every text, gives every payload back and reads the last row first. -/
def plainServer : Server := ⟨some,fun _ => true,some,List.reverse⟩

theorem plainServer_faithful : plainServer.Faithful where
  members payload stored h := by
    cases h
    rfl
  kind payload stored h := by
    cases h
    rfl
  scans rows := List.reverse_perm rows

/-- The patch of a delivery that succeeds. -/
def successPatch : DeliveryPatch where
  status := some .delivered
  attempts := some 1
  responseStatus := some (some 200)
  deliveredAt := some (some 30)
  lastError := some none

/-- Two deliveries, of which the first succeeds at once. -/
def delivered : List Call :=
  [.upsertEnvSubscription "https://a" ["credit.opened"] "WEBHOOK_SECRET" "s1" 0,
    .createDelivery ⟨"s1","https://a","credit.opened","e1",.bool true⟩ "d1" 10,
    .createDelivery ⟨"s1","https://a","credit.opened","e2",.bool true⟩ "d2" 20,
    .updateDelivery "d1" successPatch 30,
    .findDelivery "s1" "e1" 0,.getDelivery "d1",.listDeliveries none (some (.finite 10))]

theorem stores_agree_delivered : Agreed (run (Pair.step plainServer) {} delivered) :=
  stores_agree_of_matching plainServer plainServer_faithful delivered delivered
    (by decide +kernel) (List.prefix_refl delivered)

/-- The patch of an attempt that fails. -/
def failurePatch : DeliveryPatch where
  status := some .failed
  attempts := some 1
  lastError := some (some "HTTP 500")
  nextAttemptAt := some (some 50)

/-- The patch of `replayDelivery`. -/
def replayPatch : DeliveryPatch where
  status := some .queued
  nextAttemptAt := some none
  lastError := some none

/-- A delivery that fails and is then replayed, with the error and the next attempt cleared. -/
def replayed : List Call :=
  [.upsertEnvSubscription "https://a" ["credit.opened"] "WEBHOOK_SECRET" "s1" 0,
    .createDelivery ⟨"s1","https://a","credit.opened","e1",.bool true⟩ "d1" 10,
    .updateDelivery "d1" failurePatch 20,.updateDelivery "d1" replayPatch 30]

theorem replayed_disagrees : Guarded (Pair.step plainServer) Unviolated {} replayed ∧
    ¬ Agreed (run (Pair.step plainServer) {} replayed) := by
  unfold Agreed
  decide +kernel

end Creditra.OutboundStoreAgreement
