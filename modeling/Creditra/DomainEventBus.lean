import Creditra.GuardedRuns
import Creditra.OutboundWebhooks
import Mathlib.Data.List.Induction

/-!
# The in-process event bus

`services/events/eventBus.ts`. The bus keeps one `Set` of handlers for each type
of event, and the function that `subscribe` returns keeps a reference to the set
it added to, also after `clear` has dropped that set from the bus. Sets are
therefore objects, named by the order in which they were made.

`publish` copies the set of the event's type, calls the handlers of the copy in
their order, and settles when all of them have. Between any two of these steps
anything else may happen on the bus: a handler may subscribe, unsubscribe or
publish in turn, and other events may be on their way.
-/
namespace Creditra.DomainEventBus
open GuardedRuns InsertionMaps
open OutboundWebhooks (CreditEventType CreditDomainEvent)

/-! ## The bus -/

/-- A `Set` in insertion order. -/
structure HandlerSet (κ : Type) where
  members : List κ
  nodup : members.Nodup

namespace HandlerSet
variable {κ : Type} [DecidableEq κ]

def empty : HandlerSet κ := ⟨[],List.nodup_nil⟩

def add (set : HandlerSet κ) (handler : κ) : HandlerSet κ :=
  if h : handler ∈ set.members then set
  else ⟨set.members ++ [handler],by
    rw [List.nodup_append]
    refine ⟨set.nodup,List.nodup_singleton handler,?_⟩
    intro a ha b hb hab
    rw [List.mem_singleton] at hb
    exact h (hb ▸ hab ▸ ha)⟩

def delete (set : HandlerSet κ) (handler : κ) : HandlerSet κ :=
  ⟨set.members.filter (· ≠ handler),set.nodup.filter _⟩

@[simp] theorem mem_add {set : HandlerSet κ} {handler h : κ} :
    h ∈ (set.add handler).members ↔ h = handler ∨ h ∈ set.members := by
  unfold add
  split
  · rename_i hmem
    constructor
    · exact .inr
    · rintro (rfl | h)
      · exact hmem
      · exact h
  · simp [or_comm]

@[simp] theorem mem_delete {set : HandlerSet κ} {handler h : κ} :
    h ∈ (set.delete handler).members ↔ h ∈ set.members ∧ h ≠ handler := by
  simp [delete]

end HandlerSet

/-- The sets that were ever made, and the one that each type has now. -/
structure EventBus (κ : Type) where
  sets : List (HandlerSet κ)
  handlers : InsertionMap CreditEventType ℕ

/-- What `subscribe` returns: the set that was added to, and the handler to delete from it. -/
structure Disposer (κ : Type) where
  set : ℕ
  handler : κ

namespace EventBus
variable {κ : Type}

def empty : EventBus κ := ⟨[],.empty⟩

/-- The handlers of a type, as `publish` copies them. -/
def snapshot (bus : EventBus κ) (type : CreditEventType) : List κ :=
  match (bus.handlers.get type).bind (bus.sets[·]?) with
  | some set => set.members
  | none => []

def clear (bus : EventBus κ) : EventBus κ := { bus with handlers := .empty }

def handlerCount (bus : EventBus κ) (type : CreditEventType) : ℕ := (bus.snapshot type).length

/-- Every type has a set that was made, and no two types share one. -/
structure Proper (bus : EventBus κ) : Prop where
  made : ∀ {type set}, bus.handlers.get type = some set → set < bus.sets.length
  distinct : ∀ {type type' set}, bus.handlers.get type = some set →
    bus.handlers.get type' = some set → type = type'

theorem proper_empty : (empty : EventBus κ).Proper where
  made h := by cases h
  distinct h := by cases h

theorem mem_snapshot {bus : EventBus κ} {type : CreditEventType} {handler : κ} :
    handler ∈ bus.snapshot type ↔ ∃ set members,
      bus.handlers.get type = some set ∧ bus.sets[set]? = some members ∧
        handler ∈ members.members := by
  unfold snapshot
  cases hget : bus.handlers.get type with
  | none => simp
  | some set =>
      cases hset : bus.sets[set]? with
      | none => simp [hset]
      | some members => simp [hset]

theorem snapshot_nodup (bus : EventBus κ) (type : CreditEventType) : (bus.snapshot type).Nodup := by
  unfold snapshot
  split
  · rename_i set _
    exact set.nodup
  · exact List.nodup_nil

theorem proper_clear (bus : EventBus κ) : bus.clear.Proper where
  made h := by cases h
  distinct h := by cases h

variable [DecidableEq κ]

def subscribe (bus : EventBus κ) (type : CreditEventType) (handler : κ) :
    EventBus κ × Disposer κ :=
  match bus.handlers.get type with
  | some set =>
      (⟨bus.sets.modify set (·.add handler),bus.handlers.set type set⟩,⟨set,handler⟩)
  | none =>
      (⟨bus.sets ++ [HandlerSet.empty.add handler],bus.handlers.set type bus.sets.length⟩,
        ⟨bus.sets.length,handler⟩)

def dispose (bus : EventBus κ) (d : Disposer κ) : EventBus κ :=
  { bus with sets := bus.sets.modify d.set (·.delete d.handler) }

theorem subscribe_handler (bus : EventBus κ) (type : CreditEventType) (handler : κ) :
    (bus.subscribe type handler).2.handler = handler := by
  unfold subscribe
  split <;> rfl

/-- The type has the set that the disposer refers to; the other types keep theirs. -/
theorem subscribe_get (bus : EventBus κ) (type type' : CreditEventType) (handler : κ) :
    (bus.subscribe type handler).1.handlers.get type' =
      if type' = type then some (bus.subscribe type handler).2.set
      else bus.handlers.get type' := by
  unfold subscribe
  split
  all_goals
    split
    · rename_i h
      rw [h,InsertionMap.get_set_self]
    · rename_i h
      exact InsertionMap.get_set_of_ne _ h _

/-- The set is the one that the type had, or one made for it. -/
theorem subscribe_set (bus : EventBus κ) (type : CreditEventType) (handler : κ) :
    bus.handlers.get type = some (bus.subscribe type handler).2.set ∧
        (bus.subscribe type handler).1.sets.length = bus.sets.length ∨
      bus.handlers.get type = none ∧ (bus.subscribe type handler).2.set = bus.sets.length ∧
        (bus.subscribe type handler).1.sets.length = bus.sets.length + 1 := by
  unfold subscribe
  cases hget : bus.handlers.get type with
  | some set => exact .inl ⟨rfl,List.length_modify ..⟩
  | none => exact .inr ⟨rfl,rfl,List.length_append⟩

theorem mem_snapshot_subscribe {bus : EventBus κ} (hb : bus.Proper)
    {type type' : CreditEventType} {handler h : κ} :
    h ∈ (bus.subscribe type handler).1.snapshot type' ↔
      type' = type ∧ h = handler ∨ h ∈ bus.snapshot type' := by
  cases hget : bus.handlers.get type with
  | some set =>
      have hlt := hb.made hget
      by_cases htype : type' = type
      · subst htype
        simp [snapshot,subscribe,hget,hlt]
      · have hother : ∀ other, bus.handlers.get type' = some other → set ≠ other := by
          rintro other hother rfl
          exact htype (hb.distinct hother hget)
        cases hget' : bus.handlers.get type' with
        | none => simp [snapshot,subscribe,hget,hget',InsertionMap.get_set_of_ne _ htype,htype]
        | some other =>
            simp [snapshot,subscribe,hget,hget',InsertionMap.get_set_of_ne _ htype,htype,
              List.getElem?_modify,hother other hget']
  | none =>
      by_cases htype : type' = type
      · subst htype
        simp [snapshot,subscribe,hget,HandlerSet.empty]
      · cases hget' : bus.handlers.get type' with
        | none => simp [snapshot,subscribe,hget,hget',InsertionMap.get_set_of_ne _ htype,htype]
        | some other =>
            simp [snapshot,subscribe,hget,hget',InsertionMap.get_set_of_ne _ htype,htype,
              List.getElem?_append_left (hb.made hget')]

theorem proper_subscribe {bus : EventBus κ} (hb : bus.Proper) (type : CreditEventType)
    (handler : κ) : (bus.subscribe type handler).1.Proper := by
  have hset := bus.subscribe_set type handler
  constructor
  · intro type' set hget
    rw [subscribe_get] at hget
    split at hget
    · obtain rfl := Option.some.inj hget
      rcases hset with ⟨hold,hlength⟩ | ⟨_,hnew,hlength⟩
      · rw [hlength]
        exact hb.made hold
      · omega
    · have := hb.made hget
      omega
  · have hfresh : ∀ type', type' ≠ type →
        bus.handlers.get type' ≠ some (bus.subscribe type handler).2.set := by
      intro type' hne hget
      rcases hset with ⟨hold,_⟩ | ⟨_,hnew,_⟩
      · exact hne (hb.distinct hget hold)
      · have := hb.made hget
        omega
    intro type' type'' set hget hget'
    rw [subscribe_get] at hget hget'
    split at hget <;> split at hget'
    · simp_all
    · rename_i hne
      exact absurd (hget'.trans hget.symm) (hfresh type'' hne)
    · rename_i hne _
      exact absurd (hget.trans hget'.symm) (hfresh type' hne)
    · exact hb.distinct hget hget'

/-- A disposer takes its handler out of its own set, wherever that set still stands. -/
theorem dispose_snapshot (bus : EventBus κ) (d : Disposer κ) (type : CreditEventType) :
    (bus.dispose d).snapshot type = (bus.snapshot type).filter
      fun h => bus.handlers.get type = some d.set → h ≠ d.handler := by
  cases hget : bus.handlers.get type with
  | none => simp [snapshot,dispose,hget]
  | some set =>
      cases hset : bus.sets[set]? with
      | none => simp [snapshot,dispose,hget,hset,List.getElem?_modify]
      | some members =>
          by_cases hd : d.set = set
          · subst hd
            simp [snapshot,dispose,hget,hset,List.getElem?_modify,HandlerSet.delete]
          · simp [snapshot,dispose,hget,hset,List.getElem?_modify,hd,Ne.symm hd]

theorem mem_snapshot_dispose {bus : EventBus κ} {d : Disposer κ} {type : CreditEventType}
    {h : κ} : h ∈ (bus.dispose d).snapshot type ↔
      h ∈ bus.snapshot type ∧ (bus.handlers.get type = some d.set → h ≠ d.handler) := by
  rw [dispose_snapshot,List.mem_filter,decide_eq_true_iff]

theorem proper_dispose {bus : EventBus κ} (hb : bus.Proper) (d : Disposer κ) :
    (bus.dispose d).Proper where
  made h := by
    rw [dispose,List.length_modify]
    exact hb.made h
  distinct h h' := hb.distinct h h'

/-- A new handler comes last; one that is in the set already keeps its place. -/
theorem snapshot_subscribe {bus : EventBus κ} (hb : bus.Proper) (type type' : CreditEventType)
    (handler : κ) :
    (bus.subscribe type handler).1.snapshot type' = bus.snapshot type' ∨
      handler ∉ bus.snapshot type' ∧
        (bus.subscribe type handler).1.snapshot type' = bus.snapshot type' ++ [handler] := by
  cases hget : bus.handlers.get type with
  | some set =>
      by_cases htype : type' = type
      · subst htype
        have hmade := hb.made hget
        by_cases hmem : handler ∈ bus.sets[set].members
        · left
          simp [snapshot,subscribe,hget,hmade,HandlerSet.add,hmem]
        · right
          simp [snapshot,subscribe,hget,hmade,HandlerSet.add,hmem]
      · left
        cases hget' : bus.handlers.get type' with
        | none => simp [snapshot,subscribe,hget,hget',InsertionMap.get_set_of_ne _ htype]
        | some other =>
            have hother : set ≠ other := by
              rintro rfl
              exact htype (hb.distinct hget' hget)
            simp [snapshot,subscribe,hget,hget',InsertionMap.get_set_of_ne _ htype,
              List.getElem?_modify,hother]
  | none =>
      by_cases htype : type' = type
      · subst htype
        right
        simp [snapshot,subscribe,hget,HandlerSet.empty,HandlerSet.add]
      · left
        cases hget' : bus.handlers.get type' with
        | none => simp [snapshot,subscribe,hget,hget',InsertionMap.get_set_of_ne _ htype]
        | some other =>
            simp [snapshot,subscribe,hget,hget',InsertionMap.get_set_of_ne _ htype,
              List.getElem?_append_left (hb.made hget')]

/-- The handlers that stay keep their order. -/
theorem snapshot_dispose (bus : EventBus κ) (d : Disposer κ) (type : CreditEventType) :
    ((bus.dispose d).snapshot type).Sublist (bus.snapshot type) := by
  rw [dispose_snapshot]
  exact List.filter_sublist

end EventBus

/-! ## Publications -/

/-- How far the call of a handler has come. -/
inductive Progress (ε : Type) where
  | running
  | returned
  | threw (error : ε)
  deriving DecidableEq

structure HandlerCall (κ ε : Type) where
  handler : κ
  progress : Progress ε

/-- How a handler ends; of one that throws also what the error sink throws, if it does. -/
inductive Outcome (ε : Type) where
  | returns
  | throws (error : ε) (sink : Option ε)

/-- One `publish`: the calls made so far, the rest of the copy, and the first error that the
error sink has thrown itself. -/
structure Publication (κ ε : Type) where
  event : CreditDomainEvent
  calls : List (HandlerCall κ ε)
  waiting : List κ
  rejection : Option ε

namespace Publication
variable {κ ε : Type}

/-- The copy that the publication works through. -/
def copy (pub : Publication κ ε) : List κ := pub.calls.map HandlerCall.handler ++ pub.waiting

def settled (pub : Publication κ ε) : Bool :=
  pub.waiting.isEmpty && pub.calls.all fun call =>
    match call.progress with
    | .running => false
    | _ => true

/-- What the promise of `publish` has come to: `Promise.all` rejects with the first error that
gets past the `catch`, and else waits for every handler. -/
def result (pub : Publication κ ε) : Option (Except ε Unit) :=
  if pub.waiting.isEmpty then
    match pub.rejection with
    | some error => some (.error error)
    | none => if pub.settled then some (.ok ()) else none
  else none

/-- The next handler of the copy is called. -/
def callNext (pub : Publication κ ε) : Option (κ × Publication κ ε) :=
  match pub.waiting with
  | [] => none
  | handler :: waiting =>
      some (handler,{ pub with calls := pub.calls ++ [⟨handler,.running⟩], waiting })

/-- The `i`-th call ends. What a handler throws is caught and handed to the error sink. -/
def settleCall (pub : Publication κ ε) (i : ℕ) (outcome : Outcome ε) :
    Option (Publication κ ε × Option (κ × ε)) :=
  match pub.calls[i]? with
  | some ⟨handler,.running⟩ =>
      match outcome with
      | .returns => some ({ pub with calls := pub.calls.set i ⟨handler,.returned⟩ },none)
      | .throws error sink =>
          some ({ pub with
                  calls := pub.calls.set i ⟨handler,.threw error⟩
                  rejection := pub.rejection.or sink },some (handler,error))
  | _ => none

end Publication

inductive Op (κ ε : Type) where
  | subscribe (type : CreditEventType) (handler : κ)
  /-- The function that the `k`-th `subscribe` returned is called. -/
  | dispose (k : ℕ)
  | clear
  | publish (event : CreditDomainEvent)
  /-- Publication `p` calls its next handler. -/
  | call (p : ℕ)
  /-- The `i`-th call of publication `p` ends. -/
  | settle (p i : ℕ) (outcome : Outcome ε)

def Op.published {κ ε : Type} : Op κ ε → Option CreditDomainEvent
  | .publish event => some event
  | _ => none

def Op.isPublish {κ ε : Type} (op : Op κ ε) : Bool := op.published.isSome

/-- The bus with the publications on their way. `called` lists the calls of handlers with the
publication that made them, `reported` the calls of the error sink. -/
structure Process (κ ε : Type) where
  bus : EventBus κ
  disposers : List (Disposer κ)
  publications : List (Publication κ ε)
  called : List (ℕ × κ)
  reported : List (ℕ × κ × ε)

namespace Process
variable {κ ε : Type} [DecidableEq κ]

def initial : Process κ ε := ⟨.empty,[],[],[],[]⟩

def step (s : Process κ ε) : Op κ ε → Process κ ε
  | .subscribe type handler =>
      { s with
        bus := (s.bus.subscribe type handler).1
        disposers := s.disposers ++ [(s.bus.subscribe type handler).2] }
  | .dispose k =>
      match s.disposers[k]? with
      | none => s
      | some d => { s with bus := s.bus.dispose d }
  | .clear => { s with bus := s.bus.clear }
  | .publish event =>
      { s with publications := s.publications ++ [⟨event,[],s.bus.snapshot event.type,none⟩] }
  | .call p =>
      match s.publications[p]?.bind Publication.callNext with
      | none => s
      | some (handler,pub) =>
          { s with
            publications := s.publications.set p pub
            called := s.called ++ [(p,handler)] }
  | .settle p i outcome =>
      match s.publications[p]?.bind (·.settleCall i outcome) with
      | none => s
      | some (pub,report) =>
          { s with
            publications := s.publications.set p pub
            reported := s.reported ++ report.toList.map fun (handler,error) => (p,handler,error) }

end Process

/-! ## Who is registered

A history is read from its newest operation back. Subscriptions are numbered in
the order in which they were made, and so are their disposers. -/

section History
variable {κ ε : Type}

/-- The subscriptions of a history, oldest first. -/
def subscriptions : List (Op κ ε) → List (CreditEventType × κ)
  | [] => []
  | .subscribe type handler :: past => subscriptions past ++ [(type,handler)]
  | _ :: past => subscriptions past

/-- How many subscriptions the last `clear` has left behind. -/
def forgotten : List (Op κ ε) → ℕ
  | [] => 0
  | .clear :: past => (subscriptions past).length
  | _ :: past => forgotten past

/-- The handler was subscribed for the type, and since then neither the bus was cleared nor a
disposer called of a subscription of this handler for this type that no `clear` lies behind. -/
def Registered (type : CreditEventType) (handler : κ) : List (Op κ ε) → Prop
  | [] => False
  | .subscribe type' handler' :: past =>
      (type = type' ∧ handler = handler') ∨ Registered type handler past
  | .dispose k :: past =>
      Registered type handler past ∧
        ((subscriptions past)[k]? = some (type,handler) → k < forgotten past)
  | .clear :: _ => False
  | _ :: past => Registered type handler past

/-- Both handlers are registered, and have been since a moment when the first was and the second
was not. -/
def Sooner (type : CreditEventType) (handler later : κ) : List (Op κ ε) → Prop
  | [] => False
  | op :: past =>
      Registered type handler (op :: past) ∧ Registered type later (op :: past) ∧
        (Registered type handler past ∧ ¬ Registered type later past ∨
          Sooner type handler later past)

theorem Sooner.registered {type : CreditEventType} {handler later : κ} {past : List (Op κ ε)}
    (h : Sooner type handler later past) :
    Registered type handler past ∧ Registered type later past := by
  cases past with
  | nil => exact h.elim
  | cons op past => exact ⟨h.1,h.2.1⟩

/-- No two handlers came each before the other. -/
theorem Sooner.asymm {type : CreditEventType} {handler later : κ} {past : List (Op κ ε)}
    (h : Sooner type handler later past) : ¬ Sooner type later handler past := by
  induction past with
  | nil => exact h.elim
  | cons op past ih =>
      rintro ⟨-,-,h'⟩
      obtain ⟨-,-,h⟩ := h
      rcases h with ⟨hhandler,hlater⟩ | h
      · rcases h' with ⟨hlater',-⟩ | h'
        · exact hlater hlater'
        · exact hlater h'.registered.1
      · rcases h' with ⟨-,hhandler'⟩ | h'
        · exact hhandler' h.registered.1
        · exact ih h h'

theorem forgotten_le (past : List (Op κ ε)) : forgotten past ≤ (subscriptions past).length := by
  induction past with
  | nil => exact le_rfl
  | cons op past ih =>
      cases op with
      | subscribe type handler =>
          rw [subscriptions,List.length_append]
          exact ih.trans (Nat.le_add_right _ _)
      | clear => exact le_rfl
      | dispose k => exact ih
      | publish event => exact ih
      | call p => exact ih
      | settle p i outcome => exact ih

/-- What a disposer of the history refers to: the set that its type has now, unless a `clear` has
dropped that set. -/
structure Handed (s : Process κ ε) (past : List (Op κ ε)) (k : ℕ) (d : Disposer κ)
    (type : CreditEventType) : Prop where
  subscription : (subscriptions past)[k]? = some (type,d.handler)
  made : d.set < s.bus.sets.length
  current : forgotten past ≤ k → s.bus.handlers.get type = some d.set
  detached : k < forgotten past → ∀ type', s.bus.handlers.get type' ≠ some d.set

/-- What the bus and the disposers know of the history. -/
structure Tracks (s : Process κ ε) (past : List (Op κ ε)) : Prop where
  proper : s.bus.Proper
  registered : ∀ type handler, handler ∈ s.bus.snapshot type ↔ Registered type handler past
  length : s.disposers.length = (subscriptions past).length
  handed : ∀ {k d}, s.disposers[k]? = some d → ∃ type, Handed s past k d type

theorem tracks_initial : Tracks (Process.initial : Process κ ε) [] where
  proper := EventBus.proper_empty
  registered type handler := by simp [Process.initial,EventBus.snapshot,EventBus.empty,Registered]
  length := rfl
  handed h := by cases h

/-- Publications change nothing about who is registered. -/
theorem Tracks.of_same {s s' : Process κ ε} {past : List (Op κ ε)} {op : Op κ ε}
    (h : Tracks s past) (hbus : s'.bus = s.bus) (hdisposers : s'.disposers = s.disposers)
    (hregistered : ∀ type handler, Registered type handler (op :: past) ↔
      Registered type handler past)
    (hsubscriptions : subscriptions (op :: past) = subscriptions past)
    (hforgotten : forgotten (op :: past) = forgotten past) : Tracks s' (op :: past) where
  proper := hbus ▸ h.proper
  registered type handler := by rw [hbus,hregistered,h.registered]
  length := by rw [hdisposers,hsubscriptions,h.length]
  handed := by
    intro k d hd
    rw [hdisposers] at hd
    obtain ⟨type,hhanded⟩ := h.handed hd
    refine ⟨type,?_,?_,?_,?_⟩
    · rw [hsubscriptions]
      exact hhanded.subscription
    · rw [hbus]
      exact hhanded.made
    · rw [hforgotten,hbus]
      exact hhanded.current
    · rw [hforgotten,hbus]
      exact hhanded.detached

variable [DecidableEq κ]

theorem Handed.subscribe {s : Process κ ε} {past : List (Op κ ε)} {k : ℕ} {d : Disposer κ}
    {type : CreditEventType} (h : Handed s past k d type) (type' : CreditEventType)
    (handler : κ) :
    Handed (s.step (.subscribe type' handler)) (.subscribe type' handler :: past) k d type := by
  have hset := s.bus.subscribe_set type' handler
  have hk : k < (subscriptions past).length := (List.getElem?_eq_some_iff.mp h.subscription).1
  constructor
  · rw [subscriptions,List.getElem?_append_left hk]
    exact h.subscription
  · have := h.made
    change d.set < (s.bus.subscribe type' handler).1.sets.length
    omega
  · intro hlive
    have hcurrent := h.current hlive
    change (s.bus.subscribe type' handler).1.handlers.get type = _
    rw [EventBus.subscribe_get]
    split
    · rename_i htype
      rw [htype] at hcurrent
      rcases hset with ⟨hold,_⟩ | ⟨hnone,_⟩
      · rw [← hold,hcurrent]
      · rw [hcurrent] at hnone
        cases hnone
    · exact hcurrent
  · intro hgone type''
    change (s.bus.subscribe type' handler).1.handlers.get type'' ≠ _
    rw [EventBus.subscribe_get]
    split
    · rcases hset with ⟨hold,_⟩ | ⟨_,hnew,_⟩
      · rw [← hold]
        exact h.detached hgone type'
      · intro heq
        have := h.made
        have := Option.some.inj heq
        omega
    · exact h.detached hgone type''

theorem Tracks.subscribe {s : Process κ ε} {past : List (Op κ ε)} (h : Tracks s past)
    (type : CreditEventType) (handler : κ) :
    Tracks (s.step (.subscribe type handler)) (.subscribe type handler :: past) where
  proper := EventBus.proper_subscribe h.proper type handler
  registered type' handler' := by
    rw [Registered,← h.registered]
    exact EventBus.mem_snapshot_subscribe h.proper
  length := by
    change (s.disposers ++ [_]).length = (subscriptions past ++ [_]).length
    rw [List.length_append,List.length_append,h.length,List.length_singleton,
      List.length_singleton]
  handed := by
    intro k d hd
    rcases joined_cases hd with hold | ⟨rfl,rfl⟩
    · obtain ⟨type',hhanded⟩ := h.handed hold
      exact ⟨type',hhanded.subscribe type handler⟩
    · have hget : (s.bus.subscribe type handler).1.handlers.get type =
          some (s.bus.subscribe type handler).2.set := by
        rw [EventBus.subscribe_get,if_pos rfl]
      refine ⟨type,?_,?_,fun _ => hget,?_⟩
      · rw [subscriptions,h.length,List.getElem?_concat_length,EventBus.subscribe_handler]
      · exact (EventBus.proper_subscribe h.proper type handler).made hget
      · intro hlt
        have hle := forgotten_le past
        have hlength := h.length
        change s.disposers.length < forgotten past at hlt
        omega

theorem Tracks.dispose {s : Process κ ε} {past : List (Op κ ε)} (h : Tracks s past) (k : ℕ) :
    Tracks (s.step (.dispose k)) (.dispose k :: past) := by
  rw [Process.step]
  cases hk : s.disposers[k]? with
  | none =>
      -- Nobody holds this disposer yet, and no subscription has its number.
      have hnone : (subscriptions past)[k]? = none := by
        rw [List.getElem?_eq_none_iff] at hk ⊢
        rw [← h.length]
        exact hk
      refine ⟨h.proper,?_,h.length,?_⟩
      · intro type handler
        rw [Registered,h.registered,hnone]
        simp
      · intro k' d hd
        obtain ⟨type,hhanded⟩ := h.handed hd
        exact ⟨type,hhanded.subscription,hhanded.made,hhanded.current,hhanded.detached⟩
  | some d =>
      obtain ⟨type,hhanded⟩ := h.handed hk
      refine ⟨EventBus.proper_dispose h.proper d,?_,h.length,?_⟩
      · intro type' handler
        rw [Registered,← h.registered,EventBus.mem_snapshot_dispose,hhanded.subscription]
        refine and_congr_right fun _ => ?_
        by_cases hlive : forgotten past ≤ k
        · have hcurrent := hhanded.current hlive
          constructor
          · intro hne heq
            obtain ⟨rfl,rfl⟩ := Prod.mk.inj (Option.some.inj heq)
            exact absurd rfl (hne hcurrent)
          · rintro hgone hget rfl
            obtain rfl := h.proper.distinct hcurrent hget
            exact absurd (hgone rfl) (by omega)
        · constructor
          · intro _ _
            omega
          · intro _ hget
            exact absurd hget (hhanded.detached (by omega) type')
      · intro k' d' hd'
        obtain ⟨type',hhanded'⟩ := h.handed hd'
        refine ⟨type',hhanded'.subscription,?_,hhanded'.current,hhanded'.detached⟩
        change d'.set < (s.bus.sets.modify _ _).length
        rw [List.length_modify]
        exact hhanded'.made

theorem Tracks.clear {s : Process κ ε} {past : List (Op κ ε)} (h : Tracks s past) :
    Tracks (s.step .clear) (.clear :: past) where
  proper := EventBus.proper_clear s.bus
  registered type handler := by
    rw [Registered,EventBus.mem_snapshot]
    constructor
    · rintro ⟨_,_,hget,_⟩
      cases hget
    · intro hfalse
      exact hfalse.elim
  length := h.length
  handed := by
    intro k d hd
    obtain ⟨type,hhanded⟩ := h.handed hd
    have hk : k < (subscriptions past).length :=
      (List.getElem?_eq_some_iff.mp hhanded.subscription).1
    refine ⟨type,hhanded.subscription,hhanded.made,?_,?_⟩
    · intro hle
      rw [forgotten] at hle
      omega
    · intro _ type' hget
      cases hget

theorem Tracks.step {s : Process κ ε} {past : List (Op κ ε)} (h : Tracks s past)
    (op : Op κ ε) : Tracks (s.step op) (op :: past) := by
  cases op with
  | subscribe type handler => exact h.subscribe type handler
  | dispose k => exact h.dispose k
  | clear => exact h.clear
  | publish event => exact h.of_same rfl rfl (fun _ _ => Iff.rfl) rfl rfl
  | call p =>
      refine h.of_same ?_ ?_ (fun _ _ => Iff.rfl) rfl rfl
      all_goals
        rw [Process.step]
        split <;> rfl
  | settle p i outcome =>
      refine h.of_same ?_ ?_ (fun _ _ => Iff.rfl) rfl rfl
      all_goals
        rw [Process.step]
        split <;> rfl

theorem tracks_run (ops : List (Op κ ε)) :
    Tracks (run Process.step Process.initial ops) ops.reverse := by
  induction ops using List.reverseRecOn with
  | nil => exact tracks_initial
  | append_singleton ops op ih =>
      rw [run_append,List.reverse_append]
      exact ih.step op

/-- A step drops handlers of a type, or adds one at the end. -/
theorem snapshot_step {s : Process κ ε} (hs : s.bus.Proper) (op : Op κ ε)
    (type : CreditEventType) :
    ((s.step op).bus.snapshot type).Sublist (s.bus.snapshot type) ∨
      ∃ handler, handler ∉ s.bus.snapshot type ∧
        (s.step op).bus.snapshot type = s.bus.snapshot type ++ [handler] := by
  cases op with
  | subscribe type' handler =>
      rcases EventBus.snapshot_subscribe hs type' type handler with hsame | hnew
      · left
        change ((s.bus.subscribe type' handler).1.snapshot type).Sublist _
        rw [hsame]
      · exact .inr ⟨handler,hnew⟩
  | dispose k =>
      left
      rw [Process.step]
      split
      · exact List.Sublist.refl _
      · exact EventBus.snapshot_dispose s.bus _ type
  | clear => exact .inl (List.nil_sublist _)
  | publish event => exact .inl (List.Sublist.refl _)
  | call p =>
      left
      rw [Process.step]
      split <;> exact List.Sublist.refl _
  | settle p i outcome =>
      left
      rw [Process.step]
      split <;> exact List.Sublist.refl _

/-- The handlers of a type are in the order in which they came to be registered. -/
theorem snapshot_sooner (ops : List (Op κ ε)) (type : CreditEventType) :
    ((run Process.step Process.initial ops).bus.snapshot type).Pairwise
      fun handler later => Sooner type handler later ops.reverse := by
  induction ops using List.reverseRecOn with
  | nil => exact List.Pairwise.nil
  | append_singleton ops op ih =>
      have htracks := tracks_run ops
      have hnext := htracks.step op
      rw [run_append,run_cons,run_nil,List.reverse_append]
      -- The order of two handlers that were registered before is the old one.
      have hstay : ∀ handler later,
          handler ∈ ((run Process.step Process.initial ops).step op).bus.snapshot type →
          later ∈ ((run Process.step Process.initial ops).step op).bus.snapshot type →
          Sooner type handler later ops.reverse →
            Sooner type handler later (op :: ops.reverse) := by
        intro handler later hhandler hlater hsooner
        exact ⟨(hnext.registered type handler).mp hhandler,
          (hnext.registered type later).mp hlater,.inr hsooner⟩
      rcases snapshot_step htracks.proper op type with hsub | ⟨added,hfresh,hadd⟩
      · refine (ih.sublist hsub).imp_of_mem ?_
        intro handler later hhandler hlater
        exact hstay handler later hhandler hlater
      · rw [hadd] at hstay ⊢
        refine List.pairwise_append.mpr ⟨?_,List.pairwise_singleton _ _,?_⟩
        · refine ih.imp_of_mem ?_
          intro handler later hhandler hlater
          exact hstay handler later (List.mem_append_left _ hhandler)
            (List.mem_append_left _ hlater)
        · intro handler hhandler later hlater
          obtain rfl := List.mem_singleton.mp hlater
          refine ⟨(hnext.registered type handler).mp ?_,(hnext.registered type later).mp ?_,.inl ?_⟩
          · rw [hadd]
            exact List.mem_append_left _ hhandler
          · rw [hadd]
            exact List.mem_append_right _ (List.mem_singleton_self _)
          · exact ⟨(htracks.registered type handler).mp hhandler,
              fun hlater => hfresh ((htracks.registered type later).mpr hlater)⟩

end History

/-! ## What becomes of a publication -/

namespace Publication
variable {κ ε : Type}

theorem callNext_eq_some {pub pub' : Publication κ ε} {handler : κ}
    (h : pub.callNext = some (handler,pub')) :
    pub.waiting = handler :: pub'.waiting ∧
      pub' = { pub with calls := pub.calls ++ [⟨handler,.running⟩], waiting := pub'.waiting } := by
  unfold callNext at h
  split at h
  · cases h
  · rename_i handler' waiting hwaiting
    obtain ⟨rfl,rfl⟩ := Prod.mk.inj (Option.some.inj h)
    exact ⟨hwaiting,rfl⟩

theorem copy_callNext {pub pub' : Publication κ ε} {handler : κ}
    (h : pub.callNext = some (handler,pub')) : pub'.copy = pub.copy := by
  obtain ⟨hwaiting,hpub⟩ := callNext_eq_some h
  rw [copy,copy,hwaiting,hpub]
  simp

/-- The call that ends was running, and nothing else about the publication changes. -/
theorem settleCall_eq_some {pub pub' : Publication κ ε} {i : ℕ} {outcome : Outcome ε}
    {report : Option (κ × ε)} (h : pub.settleCall i outcome = some (pub',report)) :
    ∃ handler progress, pub.calls[i]? = some ⟨handler,.running⟩ ∧ progress ≠ .running ∧
      pub'.event = pub.event ∧ pub'.waiting = pub.waiting ∧
      pub'.calls = pub.calls.set i ⟨handler,progress⟩ ∧
      (∀ handler' error, report = some (handler',error) ↔
        handler' = handler ∧ progress = .threw error) := by
  unfold settleCall at h
  split at h
  · rename_i handler hcall
    split at h
    · obtain ⟨rfl,rfl⟩ := Prod.mk.inj (Option.some.inj h)
      refine ⟨handler,.returned,hcall,by simp,rfl,rfl,rfl,?_⟩
      simp
    · rename_i error sink
      obtain ⟨rfl,rfl⟩ := Prod.mk.inj (Option.some.inj h)
      refine ⟨handler,.threw error,hcall,by simp,rfl,rfl,rfl,?_⟩
      intro handler' error'
      simp [eq_comm]
  · cases h

theorem handlers_set {calls : List (HandlerCall κ ε)} {i : ℕ} {handler : κ}
    (h : calls[i]? = some ⟨handler,.running⟩) (progress : Progress ε) :
    (calls.set i ⟨handler,progress⟩).map HandlerCall.handler =
      calls.map HandlerCall.handler := by
  obtain ⟨hlt,hi⟩ := List.getElem?_eq_some_iff.mp h
  rw [List.map_set]
  have hmap : i < (calls.map HandlerCall.handler).length := by simpa using hlt
  convert List.set_getElem_self hmap using 2
  rw [List.getElem_map,hi]

theorem copy_settleCall {pub pub' : Publication κ ε} {i : ℕ} {outcome : Outcome ε}
    {report : Option (κ × ε)} (h : pub.settleCall i outcome = some (pub',report)) :
    pub'.copy = pub.copy := by
  obtain ⟨handler,progress,hcall,_,_,hwaiting,hcalls,_⟩ := settleCall_eq_some h
  rw [copy,copy,hwaiting,hcalls,handlers_set hcall]

theorem rejection_settleCall {pub pub' : Publication κ ε} {i : ℕ} {outcome : Outcome ε}
    {report : Option (κ × ε)} {e : ε} (h : pub.settleCall i outcome = some (pub',report))
    (he : pub'.rejection = some e) :
    pub.rejection = some e ∨ ∃ error, outcome = .throws error (some e) := by
  unfold settleCall at h
  split at h
  · split at h
    · obtain ⟨rfl,_⟩ := Prod.mk.inj (Option.some.inj h)
      exact .inl he
    · rename_i error sink
      obtain ⟨rfl,_⟩ := Prod.mk.inj (Option.some.inj h)
      rcases Option.or_eq_some_iff.mp he with hbefore | ⟨_,rfl⟩
      · exact .inl hbefore
      · exact .inr ⟨error,rfl⟩
  · cases h

/-- A publication that has come to something has called its whole copy. -/
theorem waiting_of_result {pub : Publication κ ε} (h : pub.result.isSome = true) :
    pub.waiting = [] := by
  unfold result at h
  split at h
  · rename_i hempty
    exact List.isEmpty_iff.mp hempty
  · cases h

end Publication

namespace Process
variable {κ ε : Type}

/-- The handlers that a publication has called, in the order of the calls. -/
def callsOf (s : Process κ ε) (p : ℕ) : List κ := (s.called.filter (·.1 = p)).map Prod.snd

theorem callsOf_append_self (s : Process κ ε) (publications : List (Publication κ ε)) (p : ℕ)
    (handler : κ) :
    callsOf { s with publications, called := s.called ++ [(p,handler)] } p =
      s.callsOf p ++ [handler] := by
  simp [callsOf]

theorem callsOf_append_of_ne (s : Process κ ε) (publications : List (Publication κ ε)) {p q : ℕ}
    (h : p ≠ q) (handler : κ) :
    callsOf { s with publications, called := s.called ++ [(q,handler)] } p = s.callsOf p := by
  simp [callsOf,Ne.symm h]

/-- What the logs of calls and of reports say of the publications. -/
structure Accounts (s : Process κ ε) : Prop where
  nodup : ∀ {p : ℕ} {pub : Publication κ ε}, s.publications[p]? = some pub → pub.copy.Nodup
  called : ∀ {p pub}, s.publications[p]? = some pub →
    s.callsOf p = pub.calls.map HandlerCall.handler
  reported : ∀ {p pub}, s.publications[p]? = some pub → ∀ handler error,
    (p,handler,error) ∈ s.reported ↔ ⟨handler,.threw error⟩ ∈ pub.calls
  calledKnown : ∀ call ∈ s.called, call.1 < s.publications.length
  reportedKnown : ∀ report ∈ s.reported, report.1 < s.publications.length
  once : (s.reported.map fun report => (report.1,report.2.1)).Nodup

theorem accounts_initial : (initial : Process κ ε).Accounts where
  nodup h := by cases h
  called h := by cases h
  reported h := by cases h
  calledKnown _ h := by cases h
  reportedKnown _ h := by cases h
  once := List.nodup_nil

/-- In a copy that names nobody twice a call that runs has not thrown. -/
theorem not_threw_of_running {calls : List (HandlerCall κ ε)} {i : ℕ} {handler : κ}
    (hnodup : (calls.map HandlerCall.handler).Nodup) (h : calls[i]? = some ⟨handler,.running⟩)
    (error : ε) : ⟨handler,.threw error⟩ ∉ calls := by
  intro hmem
  have heq := List.inj_on_of_nodup_map hnodup (List.mem_of_getElem? h) hmem rfl
  cases heq

variable [DecidableEq κ]

/-- One publication moves; every other one stays as it is. -/
theorem step_publication {s : Process κ ε} {p : ℕ} {pub : Publication κ ε}
    (h : s.publications[p]? = some pub) (op : Op κ ε) :
    ∃ pub', (s.step op).publications[p]? = some pub' ∧ pub'.event = pub.event ∧
      pub'.copy = pub.copy := by
  cases op with
  | subscribe type handler => exact ⟨pub,h,rfl,rfl⟩
  | dispose k =>
      refine ⟨pub,?_,rfl,rfl⟩
      rw [step]
      split <;> exact h
  | clear => exact ⟨pub,h,rfl,rfl⟩
  | publish event =>
      refine ⟨pub,?_,rfl,rfl⟩
      change (s.publications ++ [_])[p]? = _
      rw [List.getElem?_append_left (List.getElem?_eq_some_iff.mp h).1]
      exact h
  | call q =>
      rw [step]
      split
      · exact ⟨pub,h,rfl,rfl⟩
      · rename_i handler pub' hq
        obtain ⟨pubq,hpubq,hnext⟩ := Option.bind_eq_some_iff.mp hq
        by_cases hpq : p = q
        · subst hpq
          obtain rfl := Option.some.inj (hpubq.symm.trans h)
          refine ⟨pub',moved hpubq pub',?_,Publication.copy_callNext hnext⟩
          rw [(Publication.callNext_eq_some hnext).2]
        · exact ⟨pub,by rw [List.getElem?_set_ne (Ne.symm hpq)]; exact h,rfl,rfl⟩
  | settle q i outcome =>
      rw [step]
      split
      · exact ⟨pub,h,rfl,rfl⟩
      · rename_i pub' report hq
        obtain ⟨pubq,hpubq,hsettle⟩ := Option.bind_eq_some_iff.mp hq
        by_cases hpq : p = q
        · subst hpq
          obtain rfl := Option.some.inj (hpubq.symm.trans h)
          obtain ⟨_,_,_,_,hevent,_⟩ := Publication.settleCall_eq_some hsettle
          exact ⟨pub',moved hpubq pub',hevent,Publication.copy_settleCall hsettle⟩
        · exact ⟨pub,by rw [List.getElem?_set_ne (Ne.symm hpq)]; exact h,rfl,rfl⟩

theorem Accounts.publish {s : Process κ ε} (h : s.Accounts) (event : CreditDomainEvent) :
    (s.step (.publish event)).Accounts where
  nodup := by
    intro p pub hp
    rcases joined_cases hp with hold | ⟨_,rfl⟩
    · exact h.nodup hold
    · exact s.bus.snapshot_nodup event.type
  called := by
    intro p pub hp
    rcases joined_cases hp with hold | ⟨rfl,rfl⟩
    · exact h.called hold
    · refine List.map_eq_nil_iff.mpr (List.filter_eq_nil_iff.mpr ?_)
      intro call hcall
      have hlt := h.calledKnown call hcall
      simp only [decide_eq_true_eq]
      omega
  reported := by
    intro p pub hp handler error
    rcases joined_cases hp with hold | ⟨rfl,rfl⟩
    · exact h.reported hold handler error
    · constructor
      · intro hmem
        exact absurd (h.reportedKnown _ hmem) (lt_irrefl _)
      · intro hmem
        cases hmem
  calledKnown := by
    intro call hcall
    exact (h.calledKnown call hcall).trans_le (by simp [step])
  reportedKnown := by
    intro report hreport
    exact (h.reportedKnown report hreport).trans_le (by simp [step])
  once := h.once

theorem Accounts.call {s : Process κ ε} (h : s.Accounts) (q : ℕ) : (s.step (.call q)).Accounts := by
  rw [step]
  split
  · exact h
  rename_i handler pub' hq
  obtain ⟨pubq,hpubq,hnext⟩ := Option.bind_eq_some_iff.mp hq
  have hpub' := (Publication.callNext_eq_some hnext).2
  refine ⟨?_,?_,?_,?_,?_,h.once⟩
  · intro p pub hp
    rcases moved_cases hp with ⟨rfl,rfl⟩ | ⟨_,hold⟩
    · rw [Publication.copy_callNext hnext]
      exact h.nodup hpubq
    · exact h.nodup hold
  · intro p pub hp
    rcases moved_cases hp with ⟨rfl,rfl⟩ | ⟨hne,hold⟩
    · rw [callsOf_append_self,h.called hpubq,hpub',List.map_append,List.map_singleton]
    · rw [callsOf_append_of_ne _ _ hne,h.called hold]
  · intro p pub hp handler' error
    rcases moved_cases hp with ⟨rfl,rfl⟩ | ⟨_,hold⟩
    · rw [h.reported hpubq,hpub']
      simp
    · exact h.reported hold handler' error
  · intro call hcall
    rw [List.length_set]
    rcases List.mem_append.mp hcall with hold | hnew
    · exact h.calledKnown call hold
    · rw [List.mem_singleton.mp hnew]
      exact (List.getElem?_eq_some_iff.mp hpubq).1
  · intro report hreport
    rw [List.length_set]
    exact h.reportedKnown report hreport

theorem Accounts.settle {s : Process κ ε} (h : s.Accounts) (q i : ℕ) (outcome : Outcome ε) :
    (s.step (.settle q i outcome)).Accounts := by
  rw [step]
  split
  · exact h
  rename_i pub' report hq
  obtain ⟨pubq,hpubq,hsettle⟩ := Option.bind_eq_some_iff.mp hq
  have hcopy := Publication.copy_settleCall hsettle
  obtain ⟨handler,progress,hcall,hended,_,_,hcalls,hreport⟩ :=
    Publication.settleCall_eq_some hsettle
  have hhandlers : (pubq.calls.map HandlerCall.handler).Nodup :=
    (List.nodup_append.mp (h.nodup hpubq)).1
  have hfresh : ∀ error, (q,handler,error) ∉ s.reported := by
    intro error hmem
    rw [h.reported hpubq] at hmem
    exact not_threw_of_running hhandlers hcall error hmem
  refine ⟨?_,?_,?_,?_,?_,?_⟩
  · intro p pub hp
    rcases moved_cases hp with ⟨rfl,rfl⟩ | ⟨_,hold⟩
    · rw [hcopy]
      exact h.nodup hpubq
    · exact h.nodup hold
  · intro p pub hp
    rcases moved_cases hp with ⟨rfl,rfl⟩ | ⟨_,hold⟩
    · rw [hcalls,Publication.handlers_set hcall]
      exact h.called hpubq
    · exact h.called hold
  · intro p pub hp handler' error
    have hnew : (p,handler',error) ∈ (report.toList.map fun (handler,error) => (q,handler,error)) ↔
        p = q ∧ report = some (handler',error) := by
      simp [eq_comm,and_comm]
    rw [List.mem_append,hnew]
    rcases moved_cases hp with ⟨rfl,rfl⟩ | ⟨hne,hold⟩
    · rw [h.reported hpubq,hreport,hcalls,List.mem_iff_getElem?,List.mem_iff_getElem?]
      constructor
      · rintro (⟨j,hj⟩ | ⟨_,rfl,rfl⟩)
        · refine ⟨j,?_⟩
          have hij : i ≠ j := by
            rintro rfl
            rw [hcall] at hj
            cases hj
          rw [List.getElem?_set_ne hij]
          exact hj
        · exact ⟨i,moved hcall _⟩
      · rintro ⟨j,hj⟩
        rcases moved_cases hj with ⟨_,heq⟩ | ⟨_,hold⟩
        · obtain ⟨rfl,hthrew⟩ := HandlerCall.mk.inj heq
          exact .inr ⟨rfl,rfl,hthrew.symm⟩
        · exact .inl ⟨j,hold⟩
    · rw [h.reported hold]
      simp [hne]
  · intro call hmem
    rw [List.length_set]
    exact h.calledKnown call hmem
  · intro r hr
    rw [List.length_set]
    rcases List.mem_append.mp hr with hold | hnew
    · exact h.reportedKnown r hold
    · obtain ⟨_,_,rfl⟩ := List.mem_map.mp hnew
      exact (List.getElem?_eq_some_iff.mp hpubq).1
  · rw [List.map_append,List.nodup_append]
    refine ⟨h.once,?_,?_⟩
    · cases report <;> simp
    · intro a ha b hb hab
      subst hab
      obtain ⟨⟨_,handler',error'⟩,hold,rfl⟩ := List.mem_map.mp ha
      obtain ⟨_,hnew,heq⟩ := List.mem_map.mp hb
      obtain ⟨⟨handler'',error''⟩,hsome,rfl⟩ := List.mem_map.mp hnew
      obtain ⟨rfl,rfl⟩ := Prod.mk.inj heq
      obtain ⟨rfl,_⟩ := (hreport _ _).mp (Option.mem_toList.mp hsome)
      exact hfresh error' hold

theorem Accounts.step {s : Process κ ε} (h : s.Accounts) (op : Op κ ε) :
    (s.step op).Accounts := by
  cases op with
  | subscribe type handler => exact ⟨h.1,h.2,h.3,h.4,h.5,h.6⟩
  | dispose k =>
      rw [Process.step]
      split <;> exact ⟨h.1,h.2,h.3,h.4,h.5,h.6⟩
  | clear => exact ⟨h.1,h.2,h.3,h.4,h.5,h.6⟩
  | publish event => exact h.publish event
  | call p => exact h.call p
  | settle p i outcome => exact h.settle p i outcome

theorem accounts_run (ops : List (Op κ ε)) : (run step initial ops).Accounts :=
  run_induction (fun _ op h => h.step op) accounts_initial ops

/-- One publication for each `publish`, in their order. -/
theorem publications_events (ops : List (Op κ ε)) :
    (run step initial ops).publications.map Publication.event = ops.filterMap Op.published := by
  induction ops using List.reverseRecOn with
  | nil => rfl
  | append_singleton ops op ih =>
      rw [run_append,List.filterMap_append,← ih,run_cons,run_nil]
      have hset : ∀ {p : ℕ} {pub pub' : Publication κ ε},
          (run step initial ops).publications[p]? = some pub → pub'.event = pub.event →
          ((run step initial ops).publications.set p pub').map Publication.event =
            (run step initial ops).publications.map Publication.event := by
        intro p pub pub' hpub hevent
        obtain ⟨hlt,hp⟩ := List.getElem?_eq_some_iff.mp hpub
        rw [List.map_set,hevent,← hp,← List.getElem_map (f := Publication.event)
          (h := by simpa using hlt),List.set_getElem_self]
      cases op with
      | publish event => simp [step,Op.published]
      | dispose k =>
          rw [step]
          split <;> simp [Op.published]
      | call p =>
          rw [step]
          split
          · simp [Op.published]
          · rename_i handler pub' hq
            obtain ⟨pubq,hpubq,hnext⟩ := Option.bind_eq_some_iff.mp hq
            have hevent : pub'.event = pubq.event := by
              rw [(Publication.callNext_eq_some hnext).2]
            simp [hset hpubq hevent,Op.published]
      | settle p i outcome =>
          rw [step]
          split
          · simp [Op.published]
          · rename_i pub' report hq
            obtain ⟨pubq,hpubq,hsettle⟩ := Option.bind_eq_some_iff.mp hq
            obtain ⟨_,_,_,_,hevent,_⟩ := Publication.settleCall_eq_some hsettle
            simp [hset hpubq hevent,Op.published]
      | subscribe type handler => simp [step,Op.published]
      | clear => simp [step,Op.published]

theorem length_publications (ops : List (Op κ ε)) :
    (run step initial ops).publications.length = ops.countP Op.isPublish := by
  rw [← List.length_map (f := Publication.event),publications_events,
    List.length_filterMap_eq_countP]
  rfl

/-- A publication keeps its event and its copy. -/
theorem publication_kept {s : Process κ ε} {p : ℕ} {pub : Publication κ ε}
    (h : s.publications[p]? = some pub) (ops : List (Op κ ε)) :
    ∃ pub', (run step s ops).publications[p]? = some pub' ∧ pub'.event = pub.event ∧
      pub'.copy = pub.copy := by
  refine run_induction (I := fun s' : Process κ ε => ∃ pub', s'.publications[p]? = some pub' ∧
    pub'.event = pub.event ∧ pub'.copy = pub.copy) ?_ ⟨pub,h,rfl,rfl⟩ ops
  rintro s' op ⟨pub',hpub',hevent,hcopy⟩
  obtain ⟨pub'',hpub'',hevent',hcopy'⟩ := step_publication hpub' op
  exact ⟨pub'',hpub'',hevent'.trans hevent,hcopy'.trans hcopy⟩

/-- What a `publish` of the run has become: it keeps the copy it made. -/
theorem copy_of_publish (before after : List (Op κ ε)) (event : CreditDomainEvent) :
    ∃ pub, (run step initial (before ++ .publish event :: after)).publications[
        before.countP Op.isPublish]? = some pub ∧ pub.event = event ∧
      pub.copy = (run step initial before).bus.snapshot event.type := by
  have hnew : ((run step initial before).step (.publish event)).publications[
      before.countP Op.isPublish]? =
        some (⟨event,[],(run step initial before).bus.snapshot event.type,none⟩ :
          Publication κ ε) := by
    rw [← length_publications]
    exact List.getElem?_concat_length
  obtain ⟨pub,hpub,hevent,hcopy⟩ := publication_kept hnew after
  refine ⟨pub,?_,hevent,hcopy⟩
  rw [run_append,run_cons]
  exact hpub

theorem publication_of_publish (before after : List (Op κ ε)) (event : CreditDomainEvent) :
    ∃ pub, (run step initial (before ++ .publish event :: after)).publications[
        before.countP Op.isPublish]? = some pub ∧ pub.event = event ∧
      ∀ handler, handler ∈ pub.copy ↔ Registered event.type handler before.reverse := by
  obtain ⟨pub,hpub,hevent,hcopy⟩ := copy_of_publish before after event
  refine ⟨pub,hpub,hevent,?_⟩
  intro handler
  rw [hcopy]
  exact (tracks_run before).registered event.type handler

/-- Whatever happens on the bus before, between and after, an event is for the handlers that are
registered for its type when it is published, in the order in which they came to be: each is
called at most once, in that order, and the publication comes to nothing before it has called
them all. -/
theorem publish_reaches_registered (before after : List (Op κ ε)) (event : CreditDomainEvent) :
    ∃ pub, (run step initial (before ++ .publish event :: after)).publications[
        before.countP Op.isPublish]? = some pub ∧ pub.event = event ∧ pub.copy.Nodup ∧
      (∀ handler, handler ∈ pub.copy ↔ Registered event.type handler before.reverse) ∧
      (pub.copy.Pairwise fun handler later =>
        Sooner event.type handler later before.reverse) ∧
      (run step initial (before ++ .publish event :: after)).callsOf
        (before.countP Op.isPublish) <+: pub.copy ∧
      (pub.result.isSome = true →
        (run step initial (before ++ .publish event :: after)).callsOf
          (before.countP Op.isPublish) = pub.copy) := by
  obtain ⟨pub,hpub,hevent,hcopy⟩ := copy_of_publish before after event
  have haccounts := accounts_run (before ++ .publish event :: after)
  have hcalls := haccounts.called hpub
  refine ⟨pub,hpub,hevent,haccounts.nodup hpub,?_,?_,?_,?_⟩
  · intro handler
    rw [hcopy]
    exact (tracks_run before).registered event.type handler
  · rw [hcopy]
    exact snapshot_sooner before event.type
  · rw [hcalls]
    exact List.prefix_append ..
  · intro hresult
    rw [hcalls,Publication.copy,Publication.waiting_of_result hresult,List.append_nil]

end Process

/-! ## Failures are isolated -/

/-- The operation without what it says of how a handler ends. -/
def Op.forget {κ ε : Type} : Op κ ε → Op κ ε
  | .settle p i _ => .settle p i .returns
  | op => op

/-- The process as it would be if no handler had thrown. -/
def HandlerCall.unfailed {κ ε : Type} (call : HandlerCall κ ε) : HandlerCall κ ε :=
  match call.progress with
  | .running => call
  | _ => ⟨call.handler,.returned⟩

def Publication.unfailed {κ ε : Type} (pub : Publication κ ε) : Publication κ ε :=
  { pub with calls := pub.calls.map HandlerCall.unfailed, rejection := none }

namespace Process
variable {κ ε : Type}

def unfailed (s : Process κ ε) : Process κ ε :=
  { s with publications := s.publications.map Publication.unfailed, reported := [] }

theorem callNext_unfailed (pub : Publication κ ε) :
    pub.unfailed.callNext = pub.callNext.map fun (handler,pub') => (handler,pub'.unfailed) := by
  obtain ⟨event,calls,waiting,rejection⟩ := pub
  cases waiting with
  | nil => rfl
  | cons handler waiting => simp [Publication.callNext,Publication.unfailed,HandlerCall.unfailed]

theorem settleCall_unfailed (pub : Publication κ ε) (i : ℕ) (outcome : Outcome ε) :
    pub.unfailed.settleCall i .returns =
      (pub.settleCall i outcome).map fun (pub',_) => (pub'.unfailed,none) := by
  cases hcall : pub.calls[i]? with
  | none => simp [Publication.settleCall,Publication.unfailed,hcall]
  | some call =>
      obtain ⟨handler,progress⟩ := call
      cases progress with
      | running =>
          cases outcome <;>
            simp [Publication.settleCall,Publication.unfailed,HandlerCall.unfailed,hcall]
      | returned =>
          simp [Publication.settleCall,Publication.unfailed,HandlerCall.unfailed,hcall]
      | threw error =>
          simp [Publication.settleCall,Publication.unfailed,HandlerCall.unfailed,hcall]

variable [DecidableEq κ]

theorem step_unfailed (s : Process κ ε) (op : Op κ ε) :
    (s.step op).unfailed = s.unfailed.step op.forget := by
  cases op with
  | subscribe type handler => rfl
  | dispose k =>
      change _ = (s.unfailed.step (.dispose k))
      simp only [step,unfailed]
      split <;> rfl
  | clear => rfl
  | publish event => simp [step,unfailed,Op.forget,Publication.unfailed]
  | call p =>
      change _ = (s.unfailed.step (.call p))
      have hbind : (s.unfailed.publications[p]?).bind Publication.callNext =
          (s.publications[p]?.bind Publication.callNext).map
            fun (handler,pub') => (handler,pub'.unfailed) := by
        rw [unfailed,List.getElem?_map]
        cases s.publications[p]? with
        | none => rfl
        | some pub => exact callNext_unfailed pub
      rw [step,step,hbind]
      cases s.publications[p]?.bind Publication.callNext with
      | none => rfl
      | some next => simp [unfailed,List.map_set]
  | settle p i outcome =>
      change _ = (s.unfailed.step (.settle p i .returns))
      have hbind : (s.unfailed.publications[p]?).bind (·.settleCall i .returns) =
          (s.publications[p]?.bind (·.settleCall i outcome)).map
            fun (pub',_) => (pub'.unfailed,none) := by
        rw [unfailed,List.getElem?_map]
        cases s.publications[p]? with
        | none => rfl
        | some pub => exact settleCall_unfailed pub i outcome
      rw [step,step,hbind]
      cases s.publications[p]?.bind (·.settleCall i outcome) with
      | none => rfl
      | some next => simp [unfailed,List.map_set]

theorem run_unfailed (s : Process κ ε) (ops : List (Op κ ε)) :
    (run step s ops).unfailed = run step s.unfailed (ops.map Op.forget) := by
  induction ops generalizing s with
  | nil => rfl
  | cons op ops ih =>
      rw [run_cons,List.map_cons,run_cons,← step_unfailed]
      exact ih (s.step op)

/-- What a publication rejects with, the error sink has thrown. -/
theorem rejection_thrown (ops : List (Op κ ε)) {p : ℕ} {pub : Publication κ ε} {e : ε}
    (hpub : (run step initial ops).publications[p]? = some pub) (he : pub.rejection = some e) :
    ∃ i error, Op.settle p i (.throws error (some e)) ∈ ops := by
  induction ops using List.reverseRecOn generalizing pub with
  | nil => cases hpub
  | append_singleton ops op ih =>
      have hearlier : ∀ pub', (run step initial ops).publications[p]? = some pub' →
          pub'.rejection = some e → ∃ i error, .settle p i (.throws error (some e)) ∈ ops ++ [op] := by
        intro pub' hpub' he'
        obtain ⟨i,error,hmem⟩ := ih hpub' he'
        exact ⟨i,error,List.mem_append_left _ hmem⟩
      rw [run_append,run_cons,run_nil] at hpub
      cases op with
      | subscribe type handler => exact hearlier pub hpub he
      | dispose k =>
          rw [step] at hpub
          split at hpub <;> exact hearlier pub hpub he
      | clear => exact hearlier pub hpub he
      | publish event =>
          rcases joined_cases hpub with hold | ⟨_,rfl⟩
          · exact hearlier pub hold he
          · cases he
      | call q =>
          rw [step] at hpub
          split at hpub
          · exact hearlier pub hpub he
          · rename_i handler pub' hq
            obtain ⟨pubq,hpubq,hnext⟩ := Option.bind_eq_some_iff.mp hq
            rcases moved_cases hpub with ⟨rfl,rfl⟩ | ⟨_,hold⟩
            · rw [(Publication.callNext_eq_some hnext).2] at he
              exact hearlier pubq hpubq he
            · exact hearlier pub hold he
      | settle q i outcome =>
          rw [step] at hpub
          split at hpub
          · exact hearlier pub hpub he
          · rename_i pub' report hq
            obtain ⟨pubq,hpubq,hsettle⟩ := Option.bind_eq_some_iff.mp hq
            rcases moved_cases hpub with ⟨rfl,rfl⟩ | ⟨_,hold⟩
            · rcases Publication.rejection_settleCall hsettle he with hbefore | ⟨error,rfl⟩
              · exact hearlier pubq hpubq hbefore
              · exact ⟨i,error,List.mem_append_right _ (List.mem_singleton_self _)⟩
            · exact hearlier pub hold he

/-- How handlers end decides nothing about who is called: with every outcome forgotten the run is
the same but for the failures. Each failure reaches the error sink once, `publish` waits for all
handlers whatever became of the others, and rejects only with what the sink throws itself. -/
theorem failures_isolated (ops : List (Op κ ε)) :
    run step initial (ops.map Op.forget) = (run step initial ops).unfailed ∧
      ((run step initial ops).reported.map fun report => (report.1,report.2.1)).Nodup ∧
      ∀ p pub, (run step initial ops).publications[p]? = some pub →
        (∀ handler error, (p,handler,error) ∈ (run step initial ops).reported ↔
          ⟨handler,.threw error⟩ ∈ pub.calls) ∧
        (pub.settled = true → pub.result.isSome = true) ∧
        (pub.result = some (.ok ()) → pub.settled = true) ∧
        ∀ e, pub.result = some (.error e) →
          ∃ i error, Op.settle p i (.throws error (some e)) ∈ ops := by
  refine ⟨(run_unfailed initial ops).symm,(accounts_run ops).once,?_⟩
  intro p pub hpub
  refine ⟨(accounts_run ops).reported hpub,?_,?_,?_⟩
  · intro hsettled
    have hempty : pub.waiting.isEmpty = true := (Bool.and_eq_true_iff.mp hsettled).1
    rw [Publication.result,if_pos hempty]
    split
    · rfl
    · rw [if_pos hsettled]
      rfl
  · intro hok
    unfold Publication.result at hok
    split at hok
    · split at hok
      · cases hok
      · split at hok
        · rename_i hsettled
          exact hsettled
        · cases hok
    · cases hok
  · intro e herror
    refine rejection_thrown ops hpub ?_
    unfold Publication.result at herror
    split at herror
    · split at herror
      · rename_i error hrejection
        obtain rfl := Except.error.inj (Option.some.inj herror)
        exact hrejection
      · split at herror <;> cases herror
    · cases herror

end Process
end Creditra.DomainEventBus
