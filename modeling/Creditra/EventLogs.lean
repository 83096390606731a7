import Creditra.AuditTrail
import Creditra.DomainEventLog

/-!
# Two logs behind one bus

`services/events/auditSubscriber.ts` and `services/events/domainEventSubscriber.ts`
subscribe to every type of lifecycle event: the one appends a record to the audit
log, the other the event to the replay log. Both handlers do their work before
their first `await`, so they have done it when they have been called. The
functions they subscribe are their own; nobody else can subscribe them, and the
functions that would take them off the bus are called by nobody.
-/
namespace Creditra.EventLogs
open AuditTrail DomainEventBus DomainEventLog GuardedRuns
open DomainEventBus.Process (step initial)
open OutboundWebhooks (CreditEventType CreditDomainEvent)

def LIFECYCLE_EVENTS : List CreditEventType :=
  [.opened,.drawRequested,.drawConfirmed,.repayConfirmed,.defaulted]

section Subscribers
variable {κ ε : Type}

/-- The subscriptions of a subscriber with one handler for each type. -/
def register (handlers : CreditEventType → κ) : List (Op κ ε) :=
  LIFECYCLE_EVENTS.map fun type => .subscribe type (handlers type)

/-- The handlers of the two subscribers: ten different functions. -/
structure Handlers (κ : Type) where
  audit : CreditEventType → κ
  domainEvents : CreditEventType → κ
  audit_injective : Function.Injective audit
  domainEvents_injective : Function.Injective domainEvents
  disjoint : ∀ type type', audit type ≠ domainEvents type'

def Handlers.owns (handlers : Handlers κ) (handler : κ) : Prop :=
  ∃ type, handler = handlers.audit type ∨ handler = handlers.domainEvents type

/-- Both subscribers at boot. -/
def boot (handlers : Handlers κ) : List (Op κ ε) :=
  register handlers.audit ++ register handlers.domainEvents

/-- Anything may happen on the bus, but the bus is not cleared, the handlers of the two are
subscribed by nobody else, and the disposers that the two were handed are left alone. -/
def Undisturbed (handlers : Handlers κ) : Op κ ε → Prop
  | .subscribe _ handler => ¬ handlers.owns handler
  | .dispose k => (boot (ε := ε) handlers).length ≤ k
  | .clear => False
  | _ => True

/-! ## Who stays registered -/

theorem subscriptions_append (newer older : List (Op κ ε)) :
    subscriptions (newer ++ older) = subscriptions older ++ subscriptions newer := by
  induction newer with
  | nil => exact (List.append_nil _).symm
  | cons op newer ih =>
      cases op with
      | subscribe type handler => simp only [List.cons_append,subscriptions,ih,List.append_assoc]
      | dispose k => exact ih
      | clear => exact ih
      | publish event => exact ih
      | call p => exact ih
      | settle p i outcome => exact ih

theorem mem_subscriptions {past : List (Op κ ε)} {s : CreditEventType × κ} :
    s ∈ subscriptions past ↔ .subscribe s.1 s.2 ∈ past := by
  induction past with
  | nil => simp [subscriptions]
  | cons op past ih =>
      cases op with
      | subscribe type handler =>
          obtain ⟨type',handler'⟩ := s
          simp [subscriptions,ih,or_comm]
      | dispose k => simp [subscriptions,ih]
      | clear => simp [subscriptions,ih]
      | publish event => simp [subscriptions,ih]
      | call p => simp [subscriptions,ih]
      | settle p i outcome => simp [subscriptions,ih]

/-- What is registered at boot stays so as long as nobody disturbs it. -/
theorem registered_of_undisturbed {handlers : Handlers κ} {older newer : List (Op κ ε)}
    {type : CreditEventType} {handler : κ} (howned : handlers.owns handler)
    (hboot : (subscriptions older).length = (boot (ε := ε) handlers).length)
    (h : Registered type handler older) (hnewer : ∀ op ∈ newer, Undisturbed handlers op) :
    Registered type handler (newer ++ older) := by
  induction newer with
  | nil => exact h
  | cons op newer ih =>
      have hop := hnewer op List.mem_cons_self
      have hrest := ih fun op hop => hnewer op (List.mem_cons_of_mem _ hop)
      cases op with
      | subscribe type' handler' => exact .inr hrest
      | dispose k =>
          refine ⟨hrest,?_⟩
          intro hsub
          -- The disposers of the two come first; a later one is somebody else's.
          change (subscriptions (newer ++ older))[k]? = _ at hsub
          rw [subscriptions_append,List.getElem?_append_right (hboot.trans_le hop)] at hsub
          have hmem := mem_subscriptions.mp (List.mem_of_getElem? hsub)
          exact absurd howned (hnewer _ (List.mem_cons_of_mem _ hmem))
      | clear => exact hop.elim
      | publish event => exact hrest
      | call p => exact hrest
      | settle p i outcome => exact hrest

theorem registered_boot (handlers : Handlers κ) (type : CreditEventType) :
    Registered type (handlers.audit type) (boot (ε := ε) handlers).reverse ∧
      Registered type (handlers.domainEvents type) (boot (ε := ε) handlers).reverse := by
  cases type <;> simp [boot,register,LIFECYCLE_EVENTS,Registered]

theorem length_subscriptions_boot (handlers : Handlers κ) :
    (subscriptions (boot (ε := ε) handlers).reverse).length =
      (boot (ε := ε) handlers).length := by
  simp [boot,register,LIFECYCLE_EVENTS,subscriptions]

/-! ## What the two receive -/

theorem mem_called {s : Process κ ε} (h : s.Accounts) {p : ℕ} {pub : Publication κ ε}
    (hpub : s.publications[p]? = some pub) {handler : κ} :
    (p,handler) ∈ s.called ↔ handler ∈ pub.calls.map HandlerCall.handler := by
  rw [← h.called hpub,Process.callsOf]
  simp

variable [DecidableEq κ]

/-- The events that a subscriber's handlers have been called with, in the order of the calls. -/
def received (handlers : CreditEventType → κ) (s : Process κ ε) : List CreditDomainEvent :=
  s.called.filterMap fun call =>
    (s.publications[call.1]?.map Publication.event).filter fun event =>
      call.2 = handlers event.type

/-- The audit log and the replay log. -/
def auditLog (handlers : Handlers κ) (capacity : Capacity) (s : Process κ ε) : AuditLogStore :=
  ((received handlers.audit s).map toAuditRecord).foldl AuditLogStore.append (.new capacity)

def replayLog (handlers : Handlers κ) (s : Process κ ε) : InMemoryDomainEventStore :=
  (received handlers.domainEvents s).foldl InMemoryDomainEventStore.append .empty

/-- Every publication has called all its handlers. -/
def Quiet (s : Process κ ε) : Prop := ∀ pub ∈ s.publications, pub.waiting = []

instance (s : Process κ ε) : Decidable (Quiet s) :=
  inferInstanceAs (Decidable (∀ pub ∈ s.publications, pub.waiting = []))

/-- A subscriber whose handler for the type is in every copy. -/
structure Subscribed (handlers : CreditEventType → κ) (s : Process κ ε) : Prop where
  accounts : s.Accounts
  copies : ∀ {p : ℕ} {pub : Publication κ ε}, s.publications[p]? = some pub →
    handlers pub.event.type ∈ pub.copy

theorem called_nodup {s : Process κ ε} (h : s.Accounts) : s.called.Nodup := by
  rw [List.nodup_iff_count_le_one]
  rintro ⟨p,handler⟩
  by_cases hp : p < s.publications.length
  · have hpub := List.getElem?_eq_getElem hp
    have hnodup : (s.callsOf p).Nodup := by
      rw [h.called hpub]
      exact (List.nodup_append.mp (h.nodup hpub)).1
    have hcount := List.nodup_iff_count_le_one.mp hnodup handler
    refine le_trans ?_ hcount
    rw [Process.callsOf,List.count,List.count,List.countP_map,List.countP_filter]
    refine List.countP_mono_left ?_
    rintro call - hcall
    obtain rfl := eq_of_beq hcall
    simp
  · have hnot : (p,handler) ∉ s.called := fun hmem => hp (h.calledKnown _ hmem)
    rw [List.count_eq_zero_of_not_mem hnot]
    exact Nat.zero_le 1

/-- The calls that a subscriber answers to, one for each publication. -/
theorem received_eq (handlers : CreditEventType → κ) (s : Process κ ε) :
    received handlers s = ((s.called.filter fun call =>
      ((s.publications[call.1]?.map Publication.event).any fun event =>
        call.2 = handlers event.type)).map Prod.fst).filterMap fun p =>
          s.publications[p]?.map Publication.event := by
  rw [received,List.filterMap_map,List.filterMap_filter]
  refine List.filterMap_congr ?_
  intro call _
  cases hpub : s.publications[call.1]? with
  | none => rfl
  | some pub =>
      by_cases hmine : call.2 = handlers pub.event.type
      · simp [hmine,hpub]
      · simp [hmine]

theorem range_filterMap {α β : Type} (l : List α) (f : α → β) :
    (List.range l.length).filterMap (fun p => l[p]?.map f) = l.map f := by
  induction l using List.reverseRecOn with
  | nil => rfl
  | append_singleton l a ih =>
      rw [List.length_append,List.length_singleton,List.range_succ,List.filterMap_append,
        List.map_append,← ih]
      congr 1
      · refine List.filterMap_congr ?_
        intro p hp
        rw [List.getElem?_append_left (List.mem_range.mp hp)]
      · simp

/-- Each publication reaches the subscriber exactly once. -/
theorem received_perm {handlers : CreditEventType → κ} {s : Process κ ε}
    (h : Subscribed handlers s) (hquiet : Quiet s) :
    (received handlers s).Perm (s.publications.map Publication.event) := by
  have hperm : ((s.called.filter fun call =>
      ((s.publications[call.1]?.map Publication.event).any fun event =>
        call.2 = handlers event.type)).map Prod.fst).Perm (List.range s.publications.length) := by
    refine (List.perm_ext_iff_of_nodup ?_ List.nodup_range).mpr ?_
    · refine List.Nodup.map_on ?_ ((called_nodup h.accounts).filter _)
      rintro ⟨p,handler⟩ hcall ⟨q,handler'⟩ hcall' rfl
      have hmine := (List.mem_filter.mp hcall).2
      have hmine' := (List.mem_filter.mp hcall').2
      simp only at hmine hmine'
      cases hpub : s.publications[p]? with
      | none => simp [hpub] at hmine
      | some pub =>
          simp only [hpub,Option.map_some,Option.any_some,decide_eq_true_eq] at hmine hmine'
          rw [hmine,hmine']
    · intro p
      rw [List.mem_map,List.mem_range]
      constructor
      · rintro ⟨call,hcall,rfl⟩
        exact h.accounts.calledKnown _ (List.mem_filter.mp hcall).1
      · intro hp
        have hpub := List.getElem?_eq_getElem hp
        refine ⟨(p,handlers s.publications[p].event.type),List.mem_filter.mpr ⟨?_,?_⟩,rfl⟩
        · have hcopy := h.copies hpub
          rw [Publication.copy,hquiet _ (List.getElem_mem hp),List.append_nil] at hcopy
          exact (mem_called h.accounts hpub).mpr hcopy
        · simp [hpub]
  rw [received_eq,← range_filterMap s.publications]
  exact hperm.filterMap _

end Subscribers

/-! ## What the replay log keeps -/

namespace InMemoryDomainEventStore

/-- The key of a record, as `dedupeKey` writes it for an event. -/
def recordKey (record : DomainEventRecord) : String :=
  record.aggregateId ++ "::" ++ record.eventType ++ "::" ++ record.occurredAt

/-- The keys seen are those of the records, and each record is of some appended event. -/
structure Keeps (store : DomainEventLog.InMemoryDomainEventStore)
    (events : List CreditDomainEvent) : Prop where
  seen : store.records.map recordKey = store.seen
  nodup : store.seen.Nodup
  complete : ∀ event ∈ events, dedupeKey event ∈ store.seen
  origin : ∀ record ∈ store.records, ∃ event ∈ events, record.eventType = event.type.name ∧
    record.aggregateId = event.creditLineId ∧ record.occurredAt = event.occurredAt ∧
    record.payload = event.payload

theorem keeps_empty : Keeps .empty [] where
  seen := rfl
  nodup := List.nodup_nil
  complete _ h := by cases h
  origin _ h := by cases h

theorem Keeps.append {store : DomainEventLog.InMemoryDomainEventStore}
    {events : List CreditDomainEvent} (h : Keeps store events) (event : CreditDomainEvent) :
    Keeps (store.append event) (events ++ [event]) := by
  have horigin : ∀ record ∈ store.records, ∃ e ∈ events ++ [event],
      record.eventType = e.type.name ∧ record.aggregateId = e.creditLineId ∧
        record.occurredAt = e.occurredAt ∧ record.payload = e.payload := by
    intro record hrecord
    obtain ⟨e,he,hsame⟩ := h.origin record hrecord
    exact ⟨e,List.mem_append_left _ he,hsame⟩
  unfold DomainEventLog.InMemoryDomainEventStore.append
  dsimp only
  split_ifs with hkey
  · refine ⟨h.seen,h.nodup,?_,horigin⟩
    intro e he
    rcases List.mem_append.mp he with hold | hnew
    · exact h.complete e hold
    · rw [List.mem_singleton.mp hnew]
      exact hkey
  · refine ⟨?_,?_,?_,?_⟩
    · rw [List.map_append,h.seen]
      rfl
    · rw [List.nodup_append]
      refine ⟨h.nodup,List.nodup_singleton _,?_⟩
      intro a ha b hb hab
      rw [List.mem_singleton] at hb
      exact hkey (hb ▸ hab ▸ ha)
    · intro e he
      rcases List.mem_append.mp he with hold | hnew
      · exact List.mem_append_left _ (h.complete e hold)
      · rw [List.mem_singleton.mp hnew]
        exact List.mem_append_right _ (List.mem_singleton_self _)
    · intro record hrecord
      rcases List.mem_append.mp hrecord with hold | hnew
      · exact horigin record hold
      · rw [List.mem_singleton.mp hnew]
        exact ⟨event,List.mem_append_right _ (List.mem_singleton_self _),rfl,rfl,rfl,rfl⟩

theorem keeps_foldl (events : List CreditDomainEvent) :
    Keeps (events.foldl DomainEventLog.InMemoryDomainEventStore.append .empty) events := by
  induction events using List.reverseRecOn with
  | nil => exact keeps_empty
  | append_singleton events event ih =>
      rw [List.foldl_append]
      exact ih.append event

end InMemoryDomainEventStore

section Runs
variable {κ ε : Type} [DecidableEq κ]

/-- The `p`-th of the items that pass a test. -/
theorem exists_split_countP {α : Type} {q : α → Bool} {l : List α} {p : ℕ}
    (h : p < l.countP q) :
    ∃ before a after, l = before ++ a :: after ∧ q a = true ∧ before.countP q = p := by
  induction l generalizing p with
  | nil => cases h
  | cons a l ih =>
      cases ha : q a with
      | false =>
          rw [List.countP_cons_of_neg (by simp [ha])] at h
          obtain ⟨before,b,after,rfl,hb,hcount⟩ := ih h
          exact ⟨a :: before,b,after,rfl,hb,by rw [List.countP_cons_of_neg (by simp [ha]),hcount]⟩
      | true =>
          rw [List.countP_cons_of_pos ha] at h
          cases p with
          | zero => exact ⟨[],a,l,rfl,ha,rfl⟩
          | succ p =>
              obtain ⟨before,b,after,rfl,hb,hcount⟩ := ih (Nat.lt_of_succ_lt_succ h)
              exact ⟨a :: before,b,after,rfl,hb,by rw [List.countP_cons_of_pos ha,hcount]⟩

theorem subscribed_run (handlers : Handlers κ) {ops : List (Op κ ε)}
    (hops : ∀ op ∈ ops, Undisturbed handlers op) :
    Subscribed handlers.audit (run step initial (boot handlers ++ ops)) ∧
      Subscribed handlers.domainEvents (run step initial (boot handlers ++ ops)) := by
  have hboot : (boot (ε := ε) handlers).countP Op.isPublish = 0 := rfl
  have hcopies : ∀ {p : ℕ} {pub : Publication κ ε},
      (run step initial (boot handlers ++ ops)).publications[p]? = some pub →
      handlers.audit pub.event.type ∈ pub.copy ∧
        handlers.domainEvents pub.event.type ∈ pub.copy := by
    intro p pub hpub
    have hp : p < ops.countP Op.isPublish := by
      have hlt := (List.getElem?_eq_some_iff.mp hpub).1
      rw [Process.length_publications,List.countP_append,hboot] at hlt
      omega
    obtain ⟨before,op,after,rfl,hop,rfl⟩ := exists_split_countP hp
    obtain ⟨event,hevent⟩ := Option.isSome_iff_exists.mp hop
    obtain rfl : op = .publish event := by
      cases op <;> simp_all [Op.published]
    obtain ⟨pub',hpub',rfl,hcopy⟩ :=
      Process.publication_of_publish (boot handlers ++ before) after event
    rw [List.append_assoc,List.countP_append,hboot,Nat.zero_add] at hpub'
    obtain rfl := Option.some.inj (hpub.symm.trans hpub')
    have hbefore : ∀ op ∈ before.reverse, Undisturbed handlers op := fun op hop =>
      hops op (List.mem_append_left _ (List.mem_reverse.mp hop))
    obtain ⟨haudit,hdomain⟩ := registered_boot (ε := ε) handlers pub.event.type
    rw [hcopy,hcopy,List.reverse_append]
    exact ⟨registered_of_undisturbed ⟨_,.inl rfl⟩ (length_subscriptions_boot handlers) haudit
      hbefore,registered_of_undisturbed ⟨_,.inr rfl⟩ (length_subscriptions_boot handlers) hdomain
      hbefore⟩
  have haccounts := Process.accounts_run (boot handlers ++ ops)
  exact ⟨⟨haccounts,fun h => (hcopies h).1⟩,⟨haccounts,fun h => (hcopies h).2⟩⟩

/-- The logs of a state against the events that were published. The audit log has the newest of
them in the order in which its handlers were called. -/
structure Agree (handlers : Handlers κ) (capacity : Capacity) (s : Process κ ε)
    (published : List CreditDomainEvent) : Prop where
  perm : (received handlers.audit s).Perm published
  newest : (auditLog handlers capacity s).records =
    ((received handlers.audit s).map toAuditRecord).rtake capacity
  once : ((replayLog handlers s).records.map InMemoryDomainEventStore.recordKey).Nodup
  keys : ∀ key, key ∈ (replayLog handlers s).records.map InMemoryDomainEventStore.recordKey ↔
    key ∈ published.map dedupeKey
  contents : ∀ record ∈ (replayLog handlers s).records, ∃ event ∈ published,
    record.eventType = event.type.name ∧ record.aggregateId = event.creditLineId ∧
      record.occurredAt = event.occurredAt ∧ record.payload = event.payload

/-- However the calls of the two subscribers are interleaved, by each other, by further handlers
and by their failures: once every publication has called its handlers, the audit log has the
newest of the events that were published, by the order in which it received them, one record for
each, and the replay log has one record for each key among the events and no other, with the
content of an event of that key. -/
theorem logs_agree (handlers : Handlers κ) (capacity : Capacity) (ops : List (Op κ ε))
    (hops : ∀ op ∈ ops, Undisturbed handlers op)
    (hquiet : Quiet (run step initial (boot handlers ++ ops))) :
    Agree handlers capacity (run step initial (boot handlers ++ ops))
      (ops.filterMap Op.published) := by
  obtain ⟨haudit,hdomain⟩ := subscribed_run handlers hops
  have hevents : (run step initial (boot handlers ++ ops)).publications.map Publication.event =
      ops.filterMap Op.published := by
    rw [Process.publications_events,List.filterMap_append]
    rfl
  have haudited := received_perm haudit hquiet
  have hsame := received_perm hdomain hquiet
  rw [hevents] at haudited hsame
  have hkeeps := InMemoryDomainEventStore.keeps_foldl
    (received handlers.domainEvents (run step initial (boot handlers ++ ops)))
  refine ⟨haudited,(foldl_append_records capacity _).1,?_,?_,?_⟩
  · rw [replayLog,hkeeps.seen]
    exact hkeeps.nodup
  · intro key
    rw [replayLog]
    constructor
    · intro hkey
      obtain ⟨record,hrecord,rfl⟩ := List.mem_map.mp hkey
      obtain ⟨event,hevent,htype,hid,hat,_⟩ := hkeeps.origin record hrecord
      refine List.mem_map.mpr ⟨event,hsame.mem_iff.mp hevent,?_⟩
      rw [dedupeKey,InMemoryDomainEventStore.recordKey,htype,hid,hat]
    · intro hkey
      obtain ⟨event,hevent,rfl⟩ := List.mem_map.mp hkey
      rw [hkeeps.seen]
      exact hkeeps.complete event (hsame.mem_iff.mpr hevent)
  · intro record hrecord
    obtain ⟨event,hevent,hcontent⟩ := hkeeps.origin record hrecord
    exact ⟨event,hsame.mem_iff.mp hevent,hcontent⟩

end Runs

def numbered : Handlers (Bool × CreditEventType) where
  audit type := (true,type)
  domainEvents type := (false,type)
  audit_injective _ _ h := (Prod.mk.inj h).2
  domainEvents_injective _ _ h := (Prod.mk.inj h).2
  disjoint _ _ h := by cases h

/-- A draw that is published a second time while the first publication is on its way. -/
def drawnTwice : List (Op (Bool × CreditEventType) String) :=
  let event : CreditDomainEvent :=
    ⟨.drawConfirmed,"2026-01-01T00:00:00.000Z","line",[("amount",.string "5")]⟩
  [.publish event,.call 0,.publish event,.call 1,.call 1,.settle 0 0 (.throws "disk full" none),
    .call 0]

theorem logs_agree_drawnTwice :
    Agree numbered ⟨1,le_rfl⟩ (run step initial (boot numbered ++ drawnTwice))
      (drawnTwice.filterMap Op.published) := by
  refine logs_agree numbered ⟨1,le_rfl⟩ drawnTwice ?_ ?_
  · simp [drawnTwice,Undisturbed]
  · decide

end Creditra.EventLogs
