import Creditra.GuardedRuns
import Creditra.IsoDates
import Creditra.MemoryCreditLines
import Creditra.OutboundWebhooks
import Creditra.Separators

/-!
# Identity of domain events

The log tells events apart by line, type and the text of their instant, and so
do the webhooks. Identifiers are those of `randomUUID`: none is drawn twice, and
none holds a colon. So two events share a key exactly when they agree in line,
type and millisecond.

Where the events of a run do not, the log keeps all of them, and the balance of
a line is what its confirmed draws and repayments add up to, as long as nobody
patches it.
-/
namespace Creditra.DomainEventLog
open GuardedRuns CreditModels FloatNumbers InsertionMaps IsoDates JsonValues Separators
open OutboundWebhooks (CreditEventType CreditDomainEvent eventId)
open MemoryCreditLines (Event Service CreditLine Call floats isStale patched)

/-- What `randomUUID` promises of the identifiers it draws. -/
structure Uuids (uuid : Uuid → String) : Prop where
  injective : Function.Injective uuid
  plain : ∀ n, ':' ∉ (uuid n).toList

/-! ## Events and their keys -/

/-- What an event is stamped with: type, line and millisecond. -/
def stamp : Event floats → CreditEventType × Uuid × ℤ
  | .opened occurredAt id _ _ => (.opened,id,occurredAt)
  | .drawRequested occurredAt id _ _ => (.drawRequested,id,occurredAt)
  | .drawConfirmed occurredAt id _ _ _ => (.drawConfirmed,id,occurredAt)
  | .repayConfirmed occurredAt id _ _ _ => (.repayConfirmed,id,occurredAt)

def payload : Event floats → List (String × Json)
  | .opened _ _ walletAddress creditLimit =>
      [("walletAddress",.string walletAddress),("creditLimit",.string creditLimit)]
  | .drawRequested _ _ walletAddress amount =>
      [("walletAddress",.string walletAddress),("amount",.string amount)]
  | .drawConfirmed _ _ walletAddress amount utilized =>
      [("walletAddress",.string walletAddress),("amount",.string amount),
        ("utilized",.string utilized)]
  | .repayConfirmed _ _ walletAddress amount utilized =>
      [("walletAddress",.string walletAddress),("amount",.string amount),
        ("utilized",.string utilized)]

/-- The event as it is published. -/
def published (uuid : Uuid → String) (e : Event floats) : CreditDomainEvent :=
  ⟨(stamp e).1,toISOString (stamp e).2.2,uuid (stamp e).2.1,payload e⟩

def dedupeKey (event : CreditDomainEvent) : String :=
  event.creditLineId ++ "::" ++ event.type.name ++ "::" ++ event.occurredAt

structure DomainEventRecord where
  id : String
  eventType : String
  aggregateId : String
  payload : List (String × Json)
  occurredAt : String

structure InMemoryDomainEventStore where
  seen : List String
  records : List DomainEventRecord
  counter : ℕ

namespace InMemoryDomainEventStore

def empty : InMemoryDomainEventStore := ⟨[],[],0⟩

def append (store : InMemoryDomainEventStore) (event : CreditDomainEvent) :
    InMemoryDomainEventStore :=
  let key := dedupeKey event
  if key ∈ store.seen then store
  else
    let counter := store.counter + 1
    ⟨store.seen ++ [key],store.records ++ [⟨"mem-" ++ toString counter,event.type.name,
      event.creditLineId,event.payload,event.occurredAt⟩],counter⟩

end InMemoryDomainEventStore

/-- The log after the events of a run, in the order of their publication. -/
def logged (uuid : Uuid → String) (events : List (Event floats)) : InMemoryDomainEventStore :=
  (events.map (published uuid)).foldl InMemoryDomainEventStore.append .empty

/-- The amount in the payload of a record. -/
def amountOf (fields : List (String × Json)) : String :=
  match (fields.find? (·.1 = "amount")).map Prod.snd with
  | some (.string amount) => amount
  | _ => ""

/-- One record of a line replayed on a balance. -/
def replayed (utilized : Value) (record : DomainEventRecord) : Value :=
  if record.eventType = "credit.draw_confirmed" then
    utilized.add (parseFloat (amountOf record.payload))
  else if record.eventType = "credit.repay_confirmed" then
    Value.max .zero (utilized.sub (parseFloat (amountOf record.payload)))
  else utilized

/-- The balance that the records of a line add up to. -/
def folded (records : List DomainEventRecord) (aggregateId : String) : Value :=
  (records.filter (·.aggregateId = aggregateId)).foldl replayed .zero

theorem colon_notMem_name (type : CreditEventType) : ':' ∉ type.name.toList := by
  cases type <;> decide

theorem name_injective {type type' : CreditEventType} (h : type.name = type'.name) :
    type = type' := by
  cases type <;> cases type' <;> first | rfl | exact absurd h (by decide)

section Keys
variable {uuid : Uuid → String}

theorem dedupeKey_toList (event : CreditDomainEvent) :
    (dedupeKey event).toList = event.creditLineId.toList ++
      (':' :: ':' :: (event.type.name.toList ++ ':' :: (':' :: event.occurredAt.toList))) := by
  simp [dedupeKey]

theorem eventId_toList (event : CreditDomainEvent) :
    (eventId event).toList = event.type.name.toList ++
      ':' :: (event.creditLineId.toList ++ ':' :: event.occurredAt.toList) := by
  simp [eventId]

theorem stamp_of_published (h : Uuids uuid) {e e' : Event floats}
    (hid : (published uuid e).creditLineId = (published uuid e').creditLineId)
    (htype : (published uuid e).type = (published uuid e').type)
    (hat : (published uuid e).occurredAt = (published uuid e').occurredAt) :
    stamp e = stamp e' :=
  Prod.ext htype (Prod.ext (h.injective hid) (toISOString_injective hat))

theorem stamp_of_dedupeKey (h : Uuids uuid) {e e' : Event floats}
    (hkey : dedupeKey (published uuid e) = dedupeKey (published uuid e')) : stamp e = stamp e' := by
  have hlist := congrArg String.toList hkey
  rw [dedupeKey_toList,dedupeKey_toList] at hlist
  obtain ⟨hid,hrest⟩ := cut_unique_left (h.plain _) (h.plain _) hlist
  rw [List.cons.injEq] at hrest
  obtain ⟨hname,hat⟩ := cut_unique_left (colon_notMem_name _) (colon_notMem_name _) hrest.2
  rw [List.cons.injEq] at hat
  exact stamp_of_published h (String.toList_inj.mp hid)
    (name_injective (String.toList_inj.mp hname)) (String.toList_inj.mp hat.2)

theorem stamp_of_eventId (h : Uuids uuid) {e e' : Event floats}
    (hkey : eventId (published uuid e) = eventId (published uuid e')) : stamp e = stamp e' := by
  have hlist := congrArg String.toList hkey
  rw [eventId_toList,eventId_toList] at hlist
  obtain ⟨hname,hrest⟩ := cut_unique_left (colon_notMem_name _) (colon_notMem_name _) hlist
  obtain ⟨hid,hat⟩ := cut_unique_left (h.plain _) (h.plain _) hrest
  exact stamp_of_published h (String.toList_inj.mp hid)
    (name_injective (String.toList_inj.mp hname)) (String.toList_inj.mp hat)

end Keys

/-! ## The log -/

/-- One record for each event, numbered in their order. -/
def recordsFrom : ℕ → List CreditDomainEvent → List DomainEventRecord
  | _, [] => []
  | n, event :: events =>
      ⟨"mem-" ++ toString (n + 1),event.type.name,event.creditLineId,event.payload,
        event.occurredAt⟩ :: recordsFrom (n + 1) events

/-- Events whose keys are all new are all recorded. -/
theorem records_append {events : List CreditDomainEvent} {store : InMemoryDomainEventStore}
    (hnew : ∀ event ∈ events, dedupeKey event ∉ store.seen)
    (hnodup : (events.map dedupeKey).Nodup) :
    (events.foldl InMemoryDomainEventStore.append store).records =
      store.records ++ recordsFrom store.counter events := by
  induction events generalizing store with
  | nil => simp [recordsFrom]
  | cons event events ih =>
      rw [List.map_cons,List.nodup_cons] at hnodup
      have hkey := hnew event List.mem_cons_self
      have happend : store.append event = ⟨store.seen ++ [dedupeKey event],
          store.records ++ [⟨"mem-" ++ toString (store.counter + 1),event.type.name,
            event.creditLineId,event.payload,event.occurredAt⟩],store.counter + 1⟩ := by
        unfold InMemoryDomainEventStore.append
        dsimp only
        rw [if_neg hkey]
      rw [List.foldl_cons,happend,ih _ hnodup.2]
      · simp [recordsFrom]
      · intro later hlater hseen
        rw [List.mem_append,List.mem_singleton] at hseen
        cases hseen with
        | inl hold => exact hnew later (List.mem_cons_of_mem _ hlater) hold
        | inr hsame => exact hnodup.1 (hsame ▸ List.mem_map_of_mem hlater)

/-- One event of a line applied to its balance. -/
def applied (utilized : Value) : Event floats → Value
  | .drawConfirmed _ _ _ amount _ => utilized.add (parseFloat amount)
  | .repayConfirmed _ _ _ amount _ => Value.max .zero (utilized.sub (parseFloat amount))
  | _ => utilized

/-- The balance that the events of a line add up to. -/
def balance (events : List (Event floats)) (id : Uuid) : Value :=
  (events.filter fun e => (stamp e).2.1 = id).foldl applied .zero

theorem balance_append_self (events : List (Event floats)) {e : Event floats} {id : Uuid}
    (h : (stamp e).2.1 = id) : balance (events ++ [e]) id = applied (balance events id) e := by
  unfold balance
  rw [List.filter_append,List.foldl_append,List.filter_cons_of_pos (by simp [h])]
  rfl

theorem balance_append_of_ne (events : List (Event floats)) {e : Event floats} {id : Uuid}
    (h : (stamp e).2.1 ≠ id) : balance (events ++ [e]) id = balance events id := by
  unfold balance
  rw [List.filter_append,List.foldl_append,List.filter_cons_of_neg (by simp [h])]
  rfl

theorem replayed_published (uuid : Uuid → String) (u : Value) (e : Event floats) (name : String) :
    replayed u ⟨name,(published uuid e).type.name,(published uuid e).creditLineId,
      (published uuid e).payload,(published uuid e).occurredAt⟩ = applied u e := by
  cases e with
  | opened occurredAt id walletAddress creditLimit => rfl
  | drawRequested occurredAt id walletAddress amount => rfl
  | drawConfirmed occurredAt id walletAddress amount utilized => rfl
  | repayConfirmed occurredAt id walletAddress amount utilized => rfl

/-- Replaying the records of a line applies its events. -/
theorem folded_recordsFrom {uuid : Uuid → String} (h : Function.Injective uuid) (n : ℕ)
    (events : List (Event floats)) (id : Uuid) :
    folded (recordsFrom n (events.map (published uuid))) (uuid id) = balance events id := by
  have hgen : ∀ u n, ((recordsFrom n (events.map (published uuid))).filter
      (·.aggregateId = uuid id)).foldl replayed u =
        (events.filter fun e => (stamp e).2.1 = id).foldl applied u := by
    induction events with
    | nil =>
        intro u n
        rfl
    | cons e events ih =>
        intro u n
        rw [List.map_cons,recordsFrom]
        by_cases hid : (stamp e).2.1 = id
        · rw [List.filter_cons_of_pos (by simp [published,hid]),
            List.filter_cons_of_pos (by simp [hid]),List.foldl_cons,List.foldl_cons,
            replayed_published]
          exact ih _ _
        · have hne : uuid (stamp e).2.1 ≠ uuid id := fun heq => hid (h heq)
          rw [List.filter_cons_of_neg (by simp [published,hne]),
            List.filter_cons_of_neg (by simp [hid])]
          exact ih _ _
  exact hgen .zero n

/-! ## Runs -/

/-- No two events of a run share a key, the log keeps each of them, and the records of a stored
line add up to its balance. -/
structure Unconflated (uuid : Uuid → String) (s : Service floats) : Prop where
  dedupeKeys : (s.events.map fun e => dedupeKey (published uuid e)).Nodup
  eventIds : (s.events.map fun e => eventId (published uuid e)).Nodup
  kept : (logged uuid s.events).records = recordsFrom 0 (s.events.map (published uuid))
  balances : ∀ id line, s.repository.creditLines.get id = some line →
    folded (logged uuid s.events).records (uuid id) = Service.utilizedNum line

/-- An event with this stamp was published before. -/
def Stamped (s : Service floats) (type : CreditEventType) (id : Uuid) (at' : ℤ) : Prop :=
  (type,id,at') ∈ s.events.map stamp

/-- A call stamps its events with milliseconds that the line has no event of the type at yet,
and a patch that is applied leaves the balance as it reads. -/
def Spaced (s : Service floats) : Call floats → Prop
  | .createCreditLine _ _ => True
  | .updateCreditLine id request =>
      Service.updateRefusal request = none →
      ∀ existing ∈ s.repository.creditLines.get id, isStale request existing = false →
      Service.utilizedNum (patched request existing) = Service.utilizedNum existing
  | .deleteCreditLine _ => True
  | .draw id borrowerId amount requestedAt confirmedAt =>
      ∀ line ∈ s.repository.creditLines.get id, Service.Drawable line borrowerId amount →
      ¬ Stamped s .drawRequested id requestedAt ∧ ¬ Stamped s .drawConfirmed id confirmedAt
  | .repay id _ amount confirmedAt =>
      (s.repository.creditLines.get id).isSome → (parseFloat amount).isFinite = true →
      (parseFloat amount).le .zero = false → ¬ Stamped s .repayConfirmed id confirmedAt

instance {s : Service floats} {type : CreditEventType} {id : Uuid} {at' : ℤ} :
    Decidable (Stamped s type id at') := inferInstanceAs (Decidable (_ ∈ _))

instance {line : CreditLine floats} {borrowerId amount : String} :
    Decidable (Service.Drawable line borrowerId amount) :=
  decidable_of_iff _ (Service.drawable_iff line borrowerId amount).symm

instance {s : Service floats} : (call : Call floats) → Decidable (Spaced s call)
  | .createCreditLine _ _ => inferInstanceAs (Decidable True)
  | .updateCreditLine _ _ => inferInstanceAs (Decidable (_ → _))
  | .deleteCreditLine _ => inferInstanceAs (Decidable True)
  | .draw id borrowerId amount requestedAt confirmedAt =>
      inferInstanceAs (Decidable (∀ line ∈ s.repository.creditLines.get id,
        Service.Drawable line borrowerId amount →
        ¬ Stamped s .drawRequested id requestedAt ∧ ¬ Stamped s .drawConfirmed id confirmedAt))
  | .repay _ _ _ _ => inferInstanceAs (Decidable (_ → _))

/-- What a run keeps. -/
structure Accounted (s : Service floats) : Prop where
  stamps : (s.events.map stamp).Nodup
  known : ∀ e ∈ s.events, (stamp e).2.1 < s.repository.nextId
  lines : ∀ id line, s.repository.creditLines.get id = some line → id < s.repository.nextId
  balances : ∀ id line, s.repository.creditLines.get id = some line →
    balance s.events id = Service.utilizedNum line

theorem toText_ne_empty (v : Value) : toText v ≠ "" := by
  intro h
  have hv := parseFloat_toText v
  rw [h] at hv
  have hnan : v = .nan := hv.symm.trans (by decide +kernel)
  rw [hnan] at h
  exact absurd h (by decide)

/-- The balance a line shows after it was written. -/
theorem utilizedNum_written (v : Value) (line : CreditLine floats) :
    Service.utilizedNum (patched { utilized := some (toText v) } line) = v := by
  unfold Service.utilizedNum patched
  dsimp only [Option.getD_some]
  rw [if_neg (toText_ne_empty v)]
  exact parseFloat_toText v

theorem nodup_append_stamp {events : List (Event floats)} {e : Event floats}
    (h : (events.map stamp).Nodup) (he : stamp e ∉ events.map stamp) :
    ((events ++ [e]).map stamp).Nodup := by
  rw [List.map_append,List.map_singleton,List.nodup_append]
  refine ⟨h,List.nodup_singleton _,?_⟩
  intro x hx y hy hxy
  rw [List.mem_singleton] at hy
  exact he (hy ▸ hxy ▸ hx)

/-- Events of one line, and its new balance, leave the other lines accounted for. -/
theorem accounted_written {s : Service floats} (h : Accounted s) {id : Uuid}
    {line line' : CreditLine floats} {events : List (Event floats)}
    (hget : s.repository.creditLines.get id = some line)
    (hstamps : (events.map stamp).Nodup) (hknown : ∀ e ∈ events, e ∈ s.events ∨ (stamp e).2.1 = id)
    (hother : ∀ id', id' ≠ id → balance events id' = balance s.events id')
    (hself : balance events id = Service.utilizedNum line')
    (transactions : List (MemoryCreditLines.Transaction floats)) :
    Accounted
      ⟨⟨s.repository.creditLines.set id line',s.repository.nextId⟩,transactions,events⟩ where
  stamps := hstamps
  known e he := by
    cases hknown e he with
    | inl hold => exact h.known e hold
    | inr hid =>
        rw [hid]
        exact h.lines id line hget
  lines := InsertionMap.forall_get_set h.lines (h.lines id line hget)
  balances id' l hl := by
    rcases InsertionMap.get_set_cases hl with ⟨rfl,rfl⟩ | ⟨hid,hold⟩
    · exact hself
    · rw [← h.balances id' l hold]
      exact hother id' hid

theorem balance_of_unknown {events : List (Event floats)} {id : Uuid}
    (h : ∀ e ∈ events, (stamp e).2.1 ≠ id) : balance events id = .zero := by
  unfold balance
  rw [List.filter_eq_nil_iff.mpr]
  · rfl
  · intro e he
    simpa using h e he

theorem accounted_created {s : Service floats} (h : Accounted s)
    (request : MemoryCreditLines.CreateCreditLineRequest floats) (now : ℤ) :
    Accounted ({ s with repository := (s.repository.create request).2 }.emit
      (.opened now s.repository.nextId request.walletAddress request.creditLimit)) := by
  have hnew : ∀ e ∈ s.events, (stamp e).2.1 ≠ s.repository.nextId := by
    intro e he
    exact Nat.ne_of_lt (h.known e he)
  refine ⟨nodup_append_stamp h.stamps ?_,?_,?_,?_⟩
  · intro hmem
    obtain ⟨e,he,heq⟩ := List.mem_map.mp hmem
    exact hnew e he (by rw [heq]; rfl)
  · intro e he
    cases List.mem_append.mp he with
    | inl hold => exact Nat.lt_succ_of_lt (h.known e hold)
    | inr hlast =>
        rw [List.mem_singleton] at hlast
        rw [hlast]
        exact Nat.lt_succ_self _
  · apply InsertionMap.forall_get_set
    · intro id line hget
      exact Nat.lt_succ_of_lt (h.lines id line hget)
    · exact Nat.lt_succ_self _
  · intro id line hget
    dsimp only [Service.emit,MemoryCreditLines.Repository.create] at hget ⊢
    rcases InsertionMap.get_set_cases hget with ⟨rfl,rfl⟩ | ⟨hid,hold⟩
    · have hself : balance (s.events ++ [Event.opened now s.repository.nextId
          request.walletAddress request.creditLimit]) s.repository.nextId =
            balance s.events s.repository.nextId := balance_append_self _ rfl
      have hzero : Value.zero = parseFloat "0" := by decide +kernel
      rw [hself,balance_of_unknown hnew]
      simpa [Service.utilizedNum] using hzero
    · rw [balance_append_of_ne _ (Ne.symm hid)]
      exact h.balances id line hold

/-- Two events of a draw, with stamps of their own, and the balance they leave. -/
theorem accounted_drawn {s : Service floats} (h : Accounted s) {id : Uuid}
    {line : CreditLine floats} (hget : s.repository.creditLines.get id = some line)
    (amount : String) {requestedAt confirmedAt : ℤ}
    (hrequested : ¬ Stamped s .drawRequested id requestedAt)
    (hconfirmed : ¬ Stamped s .drawConfirmed id confirmedAt) :
    Accounted (((s.emit (.drawRequested requestedAt id line.walletAddress amount)).recorded
      id amount .borrow (Service.drawn line amount) line).emit
        (.drawConfirmed confirmedAt id line.walletAddress amount (Service.drawn line amount))) := by
  have hfirst : ((s.events ++ [Event.drawRequested requestedAt id line.walletAddress amount]).map
      stamp).Nodup := nodup_append_stamp h.stamps hrequested
  have hsecond : ((s.events ++ [Event.drawRequested requestedAt id line.walletAddress amount] ++
      [Event.drawConfirmed confirmedAt id line.walletAddress amount
        (Service.drawn line amount)]).map stamp).Nodup := by
    apply nodup_append_stamp hfirst
    rw [List.map_append,List.mem_append]
    intro hmem
    cases hmem with
    | inl hold => exact hconfirmed hold
    | inr hsame =>
        rw [List.map_singleton,List.mem_singleton] at hsame
        cases (Prod.ext_iff.mp hsame).1
  refine accounted_written h hget hsecond ?_ ?_ ?_ _
  · intro e he
    rw [List.mem_append,List.mem_append,List.mem_singleton,List.mem_singleton] at he
    rcases he with (hold | rfl) | rfl
    · exact .inl hold
    · exact .inr rfl
    · exact .inr rfl
  · intro id' hid
    rw [balance_append_of_ne _ (Ne.symm hid),balance_append_of_ne _ (Ne.symm hid)]
  · have hself : balance
        (s.events ++ [Event.drawRequested requestedAt id line.walletAddress amount]) id =
          balance s.events id := balance_append_self _ rfl
    have hdrawn : balance
        (s.events ++ [Event.drawRequested requestedAt id line.walletAddress amount] ++
          [Event.drawConfirmed confirmedAt id line.walletAddress amount
          (Service.drawn line amount)]) id =
          (balance s.events id).add (parseFloat amount) :=
      (balance_append_self _ rfl).trans (congrArg (Value.add · (parseFloat amount)) hself)
    rw [hdrawn,h.balances id line hget]
    exact (utilizedNum_written _ line).symm

theorem accounted_repaid {s : Service floats} (h : Accounted s) {id : Uuid}
    {line : CreditLine floats} (hget : s.repository.creditLines.get id = some line)
    (amount : String) {confirmedAt : ℤ} (hconfirmed : ¬ Stamped s .repayConfirmed id confirmedAt) :
    Accounted ((s.recorded id amount .repay (Service.repaid line amount) line).emit
      (.repayConfirmed confirmedAt id line.walletAddress amount (Service.repaid line amount))) := by
  have hstamps : ((s.events ++ [Event.repayConfirmed confirmedAt id line.walletAddress amount
      (Service.repaid line amount)]).map stamp).Nodup := nodup_append_stamp h.stamps hconfirmed
  refine accounted_written h hget hstamps ?_ ?_ ?_ _
  · intro e he
    rw [List.mem_append,List.mem_singleton] at he
    cases he with
    | inl hold => exact .inl hold
    | inr hlast => exact .inr (by rw [hlast]; rfl)
  · intro id' hid
    rw [balance_append_of_ne _ (Ne.symm hid)]
  · have hself : balance (s.events ++ [Event.repayConfirmed confirmedAt id line.walletAddress amount
        (Service.repaid line amount)]) id =
          Value.max .zero ((balance s.events id).sub (parseFloat amount)) :=
      balance_append_self _ rfl
    rw [hself,h.balances id line hget]
    exact (utilizedNum_written _ line).symm

theorem accounted_step (s : Service floats) (call : Call floats) (h : Accounted s)
    (hs : Spaced s call) : Accounted (s.step call) := by
  cases call with
  | createCreditLine request now =>
      cases Service.createCreditLine_cases s request now with
      | inl hno =>
          obtain ⟨e,hno⟩ := hno
          simp only [Service.step,hno]
          exact h
      | inr hyes =>
          simp only [Service.step,hyes.2]
          exact accounted_created h request now
  | updateCreditLine id request =>
      cases Service.updateCreditLine_cases s id request with
      | inl hno =>
          simp only [Service.step,hno]
          exact h
      | inr hyes =>
          obtain ⟨existing,hp,hyes⟩ := hyes
          simp only [Service.step,hyes]
          apply accounted_written h hp.found h.stamps
          · intro e he
            exact .inl he
          · intro id' _
            rfl
          · rw [hs hp.accepted existing hp.found hp.fresh]
            exact h.balances id existing hp.found
  | deleteCreditLine id =>
      exact ⟨h.stamps,h.known,InsertionMap.forall_get_delete h.lines id,
        InsertionMap.forall_get_delete h.balances id⟩
  | draw id borrowerId amount requestedAt confirmedAt =>
      cases Service.draw_cases s id borrowerId amount requestedAt confirmedAt with
      | inl hno =>
          obtain ⟨e,hno⟩ := hno
          simp only [Service.step,hno]
          exact h
      | inr hyes =>
          obtain ⟨line,hget,hd,hyes⟩ := hyes
          obtain ⟨hrequested,hconfirmed⟩ := hs line hget hd
          simp only [Service.step,hyes]
          exact accounted_drawn h hget amount hrequested hconfirmed
  | repay id walletAddress amount confirmedAt =>
      cases Service.repay_cases s id walletAddress amount confirmedAt with
      | inl hno =>
          obtain ⟨e,hno⟩ := hno
          simp only [Service.step,hno]
          exact h
      | inr hyes =>
          obtain ⟨line,hget,hfinite,hpositive,hyes⟩ := hyes
          have hconfirmed := hs (Option.isSome_iff_exists.mpr ⟨line,hget⟩) hfinite hpositive
          simp only [Service.step,hyes]
          exact accounted_repaid h hget amount hconfirmed

theorem accounted_empty : Accounted (Service.empty floats) where
  stamps := List.nodup_nil
  known e he := by cases he
  lines id line hget := by cases hget
  balances id line hget := by cases hget

/-- Keys that differ where the stamps do. -/
theorem nodup_keys {κ : Type} {key : Event floats → κ} {events : List (Event floats)}
    (hkey : ∀ e e', key e = key e' → stamp e = stamp e') (h : (events.map stamp).Nodup) :
    (events.map key).Nodup := by
  rw [List.Nodup,List.pairwise_map] at h ⊢
  apply h.imp
  intro e e' hne heq
  exact hne (hkey e e' heq)

theorem unconflated_of_accounted {uuid : Uuid → String} (hu : Uuids uuid) {s : Service floats}
    (h : Accounted s) : Unconflated uuid s := by
  have hdedupe : (s.events.map fun e => dedupeKey (published uuid e)).Nodup :=
    nodup_keys (fun _ _ => stamp_of_dedupeKey hu) h.stamps
  have hkept : (logged uuid s.events).records = recordsFrom 0 (s.events.map (published uuid)) := by
    unfold logged
    rw [records_append]
    · rfl
    · intro event _ hseen
      cases hseen
    · rw [List.map_map]
      exact hdedupe
  refine ⟨hdedupe,nodup_keys (fun _ _ => stamp_of_eventId hu) h.stamps,hkept,?_⟩
  intro id line hget
  rw [hkept,folded_recordsFrom hu.injective]
  exact h.balances id line hget

/-- Along every run of spaced calls no two events are conflated, the log keeps every event and
its records add up to the balances. -/
theorem events_unconflated_of_spaced (uuid : Uuid → String) (hu : Uuids uuid)
    (calls pre : List (Call floats))
    (hs : Guarded Service.step Spaced (Service.empty floats) calls) (hp : pre <+: calls) :
    Unconflated uuid (run Service.step (Service.empty floats) pre) :=
  unconflated_of_accounted hu (run_invariant_passed accounted_step accounted_empty hs hp)

theorem uuids_toString : Uuids fun n => toString n where
  injective _ _ h := toString_nat_injective h
  plain n := notMem_toString rfl n

/-- A line is opened, drawn on and repaid within ten milliseconds. -/
def apart : List (Call floats) :=
  [.createCreditLine ⟨"GABC","1000",.zero⟩ 0,.draw 0 "GABC" "250" 3 5,.repay 0 "GABC" "250" 9]

theorem events_unconflated_apart :
    Unconflated (fun n => toString n) (run Service.step (Service.empty floats) apart) :=
  events_unconflated_of_spaced _ uuids_toString apart apart (by decide +kernel)
    (List.prefix_refl apart)

/-- A line is repaid twice in one millisecond, with different amounts. -/
def together : List (Call floats) :=
  [.createCreditLine ⟨"GABC","1000",.zero⟩ 0,.repay 0 "GABC" "250" 5,.repay 0 "GABC" "100" 5]

theorem together_conflated :
    ¬ Unconflated (fun n => toString n) (run Service.step (Service.empty floats) together) := by
  intro h
  exact absurd h.dedupeKeys (by decide +kernel)

end Creditra.DomainEventLog
