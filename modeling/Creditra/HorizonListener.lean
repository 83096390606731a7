import Creditra.FloatNumbers
import Creditra.GuardedRuns
import Mathlib.Data.List.Infix

/-!
# The Horizon event listener

One poll reads a page of events, moves the cursor to the highest ledger of the
page, and then hands the events one by one to every registered handler, unless
an event's identifier has been marked before. The mark is set before the first
handler is called, and what a handler throws is logged and dropped.

The page, the clock, the outcome of every handler call and the jittered backoff
delay are chosen by the environment; the time of the next try is a value of the
number type. The truncated digest is a parameter.
Metrics and log lines feed nothing back and are left out. The events returned,
those handed to the handlers, and the handler calls that completed are recorded
as ghost data.
-/
namespace Creditra.HorizonListener
open FloatNumbers GuardedRuns

/-- `emission` is ghost: it tells apart separate emissions on the chain, and no
function below reads it. -/
structure HorizonEvent where
  ledger : ℕ
  timestamp : String
  contractId : String
  topics : List String
  data : String
  emission : ℕ
  deriving DecidableEq

structure HorizonError where
  status : Option ℤ := none
  code : Option String := none
  message : String := ""
  deriving DecidableEq

/-- The flags `classifyError` puts on an error. -/
structure ErrorClass where
  isRateLimit : Bool := false
  isCursorGap : Bool := false
  isTransient : Bool := false
  deriving DecidableEq

/-- An unset or zero setting counts as its default. -/
structure HorizonListenerConfig where
  startLedger : Option ℤ
  maxRetries : Option ℤ := none
  rateLimitDelayMs : Option ℤ := none
  maxCursorGap : Option ℤ := none

def orDefault (setting : Option ℤ) (default : ℤ) : ℤ := (setting.filter (· ≠ 0)).getD default

/-- A ledger number, or one of the two other values the cursor can take. -/
inductive Cursor where
  | null
  | nan
  | at (ledger : ℤ)
  deriving DecidableEq

structure RetryState where
  attempts : ℤ := 0
  lastErrorTime : ℤ := 0
  nextRetryTime : Value := .zero
  deriving DecidableEq

structure Listener where
  currentLedgerCursor : Cursor := .null
  processedEventIds : List String := []
  retryState : RetryState := {}
  returned : List HorizonEvent := []
  delivered : List HorizonEvent := []
  completed : List (HorizonEvent × ℕ) := []

/-- One poll as the environment answers it: `throws i h` is whether handler `h`
throws on the event at place `i` of the page. -/
structure Poll where
  running : Bool
  now : ℤ
  response : Except HorizonError (List HorizonEvent)
  throws : ℕ → ℕ → Bool
  failedAt : ℤ
  backoffDelay : Value

def contains (text part : String) : Bool := text.toList.tails.any (part.toList.isPrefixOf ·)

def classifyError (error : HorizonError) : ErrorClass :=
  if error.status = some 429 ∨ error.code = some "RATE_LIMIT_EXCEEDED" then
    { isRateLimit := true, isTransient := true }
  else if error.code = some "CURSOR_GAP" ∨ contains error.message "cursor gap" then
    { isCursorGap := true, isTransient := true }
  else if (∃ status ∈ error.status, status ≥ 500) ∨ error.code = some "ETIMEDOUT" ∨
      error.code = some "ECONNRESET" then { isTransient := true }
  else if ∃ status ∈ error.status, status ≥ 400 ∧ status < 500 ∧ status ≠ 429 then {}
  else { isTransient := true }

/-- `ledger-contractId-topics-dataHash`, the topics joined by dashes too. -/
def generateEventId (dataHash : String → String) (event : HorizonEvent) : String :=
  toString event.ledger ++ "-" ++ event.contractId ++ "-" ++
    String.intercalate "-" event.topics ++ "-" ++ dataHash event.data

/-- `Set.prototype.add`, with the members in insertion order. -/
def addId (ids : List String) (eventId : String) : List String :=
  if eventId ∈ ids then ids else ids ++ [eventId]

/-- More than 10000 marks make the oldest 1000 go. -/
def markEventProcessed (ids : List String) (eventId : String) : List String :=
  if (addId ids eventId).length > 10000 then (addId ids eventId).drop 1000
  else addId ids eventId

namespace Listener

def dispatchEvent (dataHash : String → String) (handlers : ℕ) (throws : ℕ → Bool)
    (l : Listener) (event : HorizonEvent) : Listener :=
  let eventId := generateEventId dataHash event
  if eventId ∈ l.processedEventIds then l
  else { l with
    processedEventIds := markEventProcessed l.processedEventIds eventId
    delivered := l.delivered ++ [event]
    completed := l.completed ++
      ((List.range handlers).filter (! throws ·)).map fun h => (event,h) }

/-- The pages' events in order, from place `i` on. -/
def dispatchFrom (dataHash : String → String) (handlers : ℕ) (throws : ℕ → ℕ → Bool) :
    ℕ → Listener → List HorizonEvent → Listener
  | _, l, [] => l
  | i, l, event :: events =>
      dispatchFrom dataHash handlers throws (i + 1)
        (l.dispatchEvent dataHash handlers (throws i) event) events

/-- A page that is not empty moves the cursor to its highest ledger. -/
def fetched (l : Listener) (events : List HorizonEvent) : Listener :=
  { l with
    currentLedgerCursor := match events with
      | [] => l.currentLedgerCursor
      | event :: rest => .at ((rest.map (·.ledger)).foldl max event.ledger)
    returned := l.returned ++ events }

/-- The cursor where it counts as set: null, NaN and zero do not. -/
def cursorValue (l : Listener) : Option ℤ :=
  match l.currentLedgerCursor with
  | .at ledger => if ledger = 0 then none else some ledger
  | _ => none

/-- The search for events in the gap finds nothing it keeps; the cursor skips
the gap. -/
def handleCursorGap (config : HorizonListenerConfig) (l : Listener) : Listener :=
  { l with
    currentLedgerCursor := match l.cursorValue, config.startLedger with
      | some ledger, _ => .at (ledger + orDefault config.maxCursorGap 100)
      | none, some startLedger => .at (startLedger + orDefault config.maxCursorGap 100)
      | none, none => .nan }

def resetRetries (l : Listener) : Listener :=
  if l.retryState.attempts > 0 then { l with retryState := {} } else l

/-- The `catch` clause of a poll. -/
def pollFailed (config : HorizonListenerConfig) (p : Poll) (error : HorizonError)
    (l : Listener) : Listener :=
  let classified := classifyError error
  if classified.isRateLimit then
    { l with retryState := { l.retryState with
        nextRetryTime :=
          (Value.round p.failedAt).add (.round (orDefault config.rateLimitDelayMs 60000)) } }
  else if classified.isCursorGap then l.handleCursorGap config
  else if classified.isTransient then
    let attempts := l.retryState.attempts + 1
    if attempts ≤ orDefault config.maxRetries 3 then
      { l with retryState := ⟨attempts,p.failedAt,(Value.round p.failedAt).add p.backoffDelay⟩ }
    else { l with retryState := { l.retryState with attempts := 0 } }
  else l

/-- A poll once the backoff period is over. -/
def pollAnswered (dataHash : String → String) (handlers : ℕ) (config : HorizonListenerConfig)
    (l : Listener) (p : Poll) : Listener :=
  match p.response with
  | .ok events => (l.fetched events).dispatchFrom dataHash handlers p.throws 0 events
  | .error error => l.pollFailed config p error

/-- A poll outside the running loop does not inherit a backoff period. -/
def pollOnce (dataHash : String → String) (handlers : ℕ) (config : HorizonListenerConfig)
    (l : Listener) (p : Poll) : Listener :=
  let l := if p.running then l else l.resetRetries
  if (Value.round p.now).lt l.retryState.nextRetryTime then l
  else l.resetRetries.pollAnswered dataHash handlers config p

end Listener

/-- The cursor has come as far as a ledger. -/
def Cursor.reached (c : Cursor) (ledger : ℕ) : Prop :=
  match c with
  | .at n => (ledger : ℤ) ≤ n
  | _ => False

instance (c : Cursor) (ledger : ℕ) : Decidable (c.reached ledger) := by
  unfold Cursor.reached
  cases c <;> infer_instance

/-- Only events that every handler has completed are marked or passed by the
cursor. -/
def HandledBeforePassed (dataHash : String → String) (handlers : ℕ) (l : Listener) : Prop :=
  ∀ event ∈ l.returned, generateEventId dataHash event ∈ l.processedEventIds ∨
    l.currentLedgerCursor.reached event.ledger → ∀ h < handlers, (event,h) ∈ l.completed

instance (dataHash : String → String) (handlers : ℕ) (l : Listener) :
    Decidable (HandledBeforePassed dataHash handlers l) := by
  unfold HandledBeforePassed
  infer_instance

/-- The events of a poll that succeeds. -/
def Poll.events (p : Poll) : List HorizonEvent :=
  match p.response with
  | .ok events => events
  | .error _ => []

/-- No handler throws in this poll, and no two different events returned so far
or now have one identifier. -/
structure Untroubled (dataHash : String → String) (handlers : ℕ) (l : Listener) (p : Poll) :
    Prop where
  completes : ∀ i < p.events.length, ∀ h < handlers, p.throws i h = false
  identified : ∀ e ∈ l.returned ++ p.events, ∀ e' ∈ l.returned ++ p.events,
    generateEventId dataHash e = generateEventId dataHash e' → e = e'

/-! ## What dispatching leaves behind

A notion of being done with an event is a condition on the ghost records that
later records do not undo. Whatever it is, dispatching an event whose
identifier is new makes it done, and one whose identifier is marked was done
before, as long as identifiers tell the dispatched events apart.
-/

/-- What was handed to the handlers and which handler calls completed. -/
structure Records where
  delivered : List HorizonEvent
  completed : List (HorizonEvent × ℕ)

def Listener.records (l : Listener) : Records := ⟨l.delivered,l.completed⟩

def Records.append (r r' : Records) : Records :=
  ⟨r.delivered ++ r'.delivered,r.completed ++ r'.completed⟩

/-- Marks come from the events dispatched so far, and with these we are done. -/
structure Tracked (dataHash : String → String) (done : Records → HorizonEvent → Prop)
    (dispatched : List HorizonEvent) (l : Listener) : Prop where
  marked : ∀ id ∈ l.processedEventIds, ∃ e ∈ dispatched, generateEventId dataHash e = id
  done : ∀ e ∈ dispatched, done l.records e

theorem mem_markEventProcessed {ids : List String} {eventId id : String}
    (h : id ∈ markEventProcessed ids eventId) : id ∈ ids ∨ id = eventId := by
  have hmem : id ∈ addId ids eventId := by
    unfold markEventProcessed at h
    split at h
    · exact List.mem_of_mem_drop h
    · exact h
  unfold addId at hmem
  split at hmem
  · exact .inl hmem
  · simpa using hmem

/-- What one dispatch records. -/
def recordOf (handlers : ℕ) (throws : ℕ → Bool) (event : HorizonEvent) : Records :=
  ⟨[event],((List.range handlers).filter (! throws ·)).map fun h => (event,h)⟩

/-- Later records do not undo it. -/
def Lasting (done : Records → HorizonEvent → Prop) : Prop :=
  ∀ (r r' : Records) (e : HorizonEvent), done r e → done (r.append r') e

/-- A dispatch to handlers that throw as said does it. -/
def DoneBy (done : Records → HorizonEvent → Prop) (handlers : ℕ) (throws : ℕ → Bool) : Prop :=
  ∀ (r : Records) (e : HorizonEvent), done (r.append (recordOf handlers throws e)) e

section Dispatch
variable {dataHash : String → String} {handlers : ℕ} {dispatched : List HorizonEvent}
variable {done : Records → HorizonEvent → Prop} {l : Listener}

theorem dispatchEvent_marked {throws : ℕ → Bool} {event : HorizonEvent}
    (h : generateEventId dataHash event ∈ l.processedEventIds) :
    l.dispatchEvent dataHash handlers throws event = l := by
  unfold Listener.dispatchEvent
  exact if_pos h

theorem dispatchEvent_new (handlers : ℕ) (throws : ℕ → Bool) {event : HorizonEvent}
    (h : generateEventId dataHash event ∉ l.processedEventIds) :
    (l.dispatchEvent dataHash handlers throws event).records =
      l.records.append (recordOf handlers throws event) ∧
    (l.dispatchEvent dataHash handlers throws event).processedEventIds =
      markEventProcessed l.processedEventIds (generateEventId dataHash event) := by
  unfold Listener.dispatchEvent
  simp only [h,if_false,and_true]
  rfl

/-- One event. -/
theorem Tracked.dispatchEvent (hl : Tracked dataHash done dispatched l) (hlasting : Lasting done)
    {event : HorizonEvent} {throws : ℕ → Bool} (hdone : DoneBy done handlers throws)
    (hid : ∀ e ∈ dispatched, generateEventId dataHash e = generateEventId dataHash event →
      e = event) :
    Tracked dataHash done (dispatched ++ [event])
      (l.dispatchEvent dataHash handlers throws event) := by
  by_cases hmarked : generateEventId dataHash event ∈ l.processedEventIds
  · rw [dispatchEvent_marked hmarked]
    obtain ⟨e,he,hsame⟩ := hl.marked _ hmarked
    have heq := hid e he hsame
    subst heq
    constructor
    · intro id hmem
      obtain ⟨e',he',hid'⟩ := hl.marked id hmem
      exact ⟨e',List.mem_append_left _ he',hid'⟩
    · intro e' he'
      rw [List.mem_append,List.mem_singleton] at he'
      cases he' with
      | inl hold => exact hl.done e' hold
      | inr hnew =>
          rw [hnew]
          exact hl.done e he
  · obtain ⟨hrecords,hids⟩ := dispatchEvent_new handlers throws hmarked
    constructor
    · intro id hmem
      rw [hids] at hmem
      cases mem_markEventProcessed hmem with
      | inl hold =>
          obtain ⟨e,he,hid'⟩ := hl.marked id hold
          exact ⟨e,List.mem_append_left _ he,hid'⟩
      | inr hnew => exact ⟨event,by simp,hnew.symm⟩
    · intro e he
      rw [List.mem_append,List.mem_singleton] at he
      rw [hrecords]
      cases he with
      | inl hold => exact hlasting _ _ e (hl.done e hold)
      | inr hnew =>
          rw [hnew]
          exact hdone l.records event

/-- A whole page. -/
theorem Tracked.dispatchFrom (events : List HorizonEvent) (i : ℕ) {throws : ℕ → ℕ → Bool}
    (hl : Tracked dataHash done dispatched l) (hlasting : Lasting done)
    (hdone : ∀ k < events.length, DoneBy done handlers (throws (i + k)))
    (hid : ∀ e ∈ dispatched ++ events, ∀ e' ∈ dispatched ++ events,
      generateEventId dataHash e = generateEventId dataHash e' → e = e') :
    Tracked dataHash done (dispatched ++ events)
      (l.dispatchFrom dataHash handlers throws i events) := by
  induction events generalizing i l dispatched with
  | nil => simpa [Listener.dispatchFrom] using hl
  | cons event events ih =>
      have hfirst : DoneBy done handlers (throws i) := by simpa using hdone 0 (by simp)
      have hnext : Tracked dataHash done (dispatched ++ [event])
          (l.dispatchEvent dataHash handlers (throws i) event) :=
        hl.dispatchEvent hlasting hfirst fun e he =>
          hid e (List.mem_append_left _ he) event (by simp)
      have hshift : ∀ k < events.length, DoneBy done handlers (throws (i + 1 + k)) := by
        intro k hk
        have hk' := hdone (k + 1) (by simpa using hk)
        rwa [show i + (k + 1) = i + 1 + k by omega] at hk'
      rw [Listener.dispatchFrom]
      have hrest := ih (i + 1) hnext hshift (by simpa using hid)
      simpa using hrest

end Dispatch

section Polls
variable {dataHash : String → String} {handlers : ℕ} {config : HorizonListenerConfig}
variable {done : Records → HorizonEvent → Prop}

/-- Dispatching writes nothing of what was returned. -/
theorem returned_dispatchFrom (throws : ℕ → ℕ → Bool) (events : List HorizonEvent) (i : ℕ)
    (l : Listener) :
    (l.dispatchFrom dataHash handlers throws i events).returned = l.returned := by
  induction events generalizing i l with
  | nil => rfl
  | cons event events ih =>
      rw [Listener.dispatchFrom,ih]
      unfold Listener.dispatchEvent
      simp only
      split <;> rfl

/-- Everything returned has been dispatched and is done. -/
def Settled (dataHash : String → String) (done : Records → HorizonEvent → Prop)
    (l : Listener) : Prop :=
  Tracked dataHash done l.returned l

theorem settled_new : Settled dataHash done {} := ⟨by simp,by simp⟩

/-- Two states that differ in cursor and retries at most. -/
structure Same (l l' : Listener) : Prop where
  returned : l'.returned = l.returned
  marks : l'.processedEventIds = l.processedEventIds
  records : l'.records = l.records

theorem Settled.same {l l' : Listener} (h : Settled dataHash done l) (hs : Same l l') :
    Settled dataHash done l' where
  marked id hid := by
    rw [hs.marks] at hid
    rw [hs.returned]
    exact h.marked id hid
  done e he := by
    rw [hs.returned] at he
    rw [hs.records]
    exact h.done e he

theorem same_resetRetries (l : Listener) : Same l l.resetRetries := by
  unfold Listener.resetRetries
  split
  · exact ⟨rfl,rfl,rfl⟩
  · exact ⟨rfl,rfl,rfl⟩

theorem Same.trans {l l' l'' : Listener} (h : Same l l') (h' : Same l' l'') : Same l l'' :=
  ⟨h'.returned.trans h.returned,h'.marks.trans h.marks,h'.records.trans h.records⟩

theorem same_pollFailed (l : Listener) (p : Poll) (error : HorizonError) :
    Same l (l.pollFailed config p error) := by
  unfold Listener.pollFailed
  simp only
  split
  · exact ⟨rfl,rfl,rfl⟩
  · split
    · exact ⟨rfl,rfl,rfl⟩
    · split
      · split
        · exact ⟨rfl,rfl,rfl⟩
        · exact ⟨rfl,rfl,rfl⟩
      · exact ⟨rfl,rfl,rfl⟩

/-- Everything a poll can do to marks and records: nothing, or one page. -/
theorem pollOnce_cases (dataHash : String → String) (handlers : ℕ)
    (config : HorizonListenerConfig) (l : Listener) (p : Poll) :
    Same l (l.pollOnce dataHash handlers config p) ∨
    ∃ l' events, Same l l' ∧ p.response = .ok events ∧
      l.pollOnce dataHash handlers config p =
        (l'.fetched events).dispatchFrom dataHash handlers p.throws 0 events := by
  have hstart : Same l (if p.running then l else l.resetRetries) := by
    split
    · exact ⟨rfl,rfl,rfl⟩
    · exact same_resetRetries l
  have hpoll : ∀ l', Same l l' → Same l (if (Value.round p.now).lt l'.retryState.nextRetryTime then l'
        else l'.resetRetries.pollAnswered dataHash handlers config p) ∨
      ∃ l'' events, Same l l'' ∧ p.response = .ok events ∧
        (if (Value.round p.now).lt l'.retryState.nextRetryTime then l'
          else l'.resetRetries.pollAnswered dataHash handlers config p) =
          (l''.fetched events).dispatchFrom dataHash handlers p.throws 0 events := by
    intro l' hl'
    split
    · exact .inl hl'
    · have hreset := hl'.trans (same_resetRetries l')
      unfold Listener.pollAnswered
      split
      · exact .inr ⟨l'.resetRetries,_,hreset,by assumption,rfl⟩
      · exact .inl (hreset.trans (same_pollFailed _ p _))
  exact hpoll _ hstart

theorem Settled.page {l : Listener} (h : Settled dataHash done l) (hlasting : Lasting done)
    {events : List HorizonEvent} {throws : ℕ → ℕ → Bool}
    (hdone : ∀ i < events.length, DoneBy done handlers (throws i))
    (hid : ∀ e ∈ l.returned ++ events, ∀ e' ∈ l.returned ++ events,
      generateEventId dataHash e = generateEventId dataHash e' → e = e') :
    Settled dataHash done
      ((l.fetched events).dispatchFrom dataHash handlers throws 0 events) := by
  have hfetched : Tracked dataHash done l.returned (l.fetched events) := ⟨h.marked,h.done⟩
  have hpage : Tracked dataHash done (l.returned ++ events)
      ((l.fetched events).dispatchFrom dataHash handlers throws 0 events) :=
    hfetched.dispatchFrom events 0 hlasting (by simpa using hdone) hid
  unfold Settled
  rw [returned_dispatchFrom]
  exact hpage

end Polls

/-! ## Handlers that complete -/

/-- Every handler has completed for the event. -/
def Completed (handlers : ℕ) (r : Records) (e : HorizonEvent) : Prop :=
  ∀ h < handlers, (e,h) ∈ r.completed

theorem completed_lasting (handlers : ℕ) : Lasting (Completed handlers) := by
  intro r r' e he h hh
  exact List.mem_append_left _ (he h hh)

theorem completed_doneBy {handlers : ℕ} {throws : ℕ → Bool}
    (hthrows : ∀ h < handlers, throws h = false) :
    DoneBy (Completed handlers) handlers throws := by
  intro r e h hh
  apply List.mem_append_right
  exact List.mem_map.mpr ⟨h,by simp [hh,hthrows h hh],rfl⟩

section Completion
variable {dataHash : String → String} {handlers : ℕ} {config : HorizonListenerConfig}

theorem completed_pollOnce (l : Listener) (p : Poll)
    (h : Settled dataHash (Completed handlers) l) (hg : Untroubled dataHash handlers l p) :
    Settled dataHash (Completed handlers) (l.pollOnce dataHash handlers config p) := by
  obtain hsame | ⟨l',events,hsame,hresponse,hpage⟩ :=
    pollOnce_cases dataHash handlers config l p
  · exact h.same hsame
  · have hevents : p.events = events := by simp [Poll.events,hresponse]
    obtain ⟨hcompletes,hidentified⟩ := hg
    rw [hevents] at hcompletes hidentified
    rw [hpage]
    apply (h.same hsame).page (completed_lasting handlers)
    · intro i hi
      exact completed_doneBy (hcompletes i hi)
    · rw [hsame.returned]
      exact hidentified

end Completion

/-- In every run of polls without handler failures and shared identifiers, marks
and cursor stay behind the handlers. -/
theorem handled_before_passed_of_untroubled (dataHash : String → String) (handlers : ℕ)
    (config : HorizonListenerConfig) (polls : List Poll)
    (hg : Guarded (Listener.pollOnce dataHash handlers config) (Untroubled dataHash handlers) {}
      polls) {pre : List Poll} (hpre : pre <+: polls) :
    HandledBeforePassed dataHash handlers
      (run (Listener.pollOnce dataHash handlers config) {} pre) := by
  have hsettled : Settled dataHash (Completed handlers)
      (run (Listener.pollOnce dataHash handlers config) {} pre) :=
    run_invariant_passed completed_pollOnce settled_new hg hpre
  intro event hevent _
  exact hsettled.done event hevent

/-- The first sixteen digits of SHA-256, on the data below. -/
def emptyObjectHash (data : String) : String :=
  if data = "\x7b\x7d" then "44136fa355b3678a" else ""

def drawEvent (ledger : ℕ) : HorizonEvent :=
  ⟨ledger,"2026-07-09T00:00:00.000Z","CA","draw_confirmed" :: [],"\x7b\x7d",ledger⟩

/-- A poll that succeeds, with one handler that throws or not. -/
def page (events : List HorizonEvent) (throws : Bool) : Poll :=
  ⟨true,0,.ok events,fun _ _ => throws,0,.zero⟩

theorem handled_before_passed_of_untroubled_two_pages :
    Guarded (Listener.pollOnce emptyObjectHash 1 ⟨none,none,none,none⟩)
      (Untroubled emptyObjectHash 1) {}
      [page [drawEvent 7] false,page [drawEvent 7,drawEvent 8] false] ∧
    HandledBeforePassed emptyObjectHash 1
      (run (Listener.pollOnce emptyObjectHash 1 ⟨none,none,none,none⟩) {}
        [page [drawEvent 7] false,page [drawEvent 7,drawEvent 8] false]) := by
  have hguarded : Guarded (Listener.pollOnce emptyObjectHash 1 ⟨none,none,none,none⟩)
      (Untroubled emptyObjectHash 1) {}
      [page [drawEvent 7] false,page [drawEvent 7,drawEvent 8] false] :=
    ⟨⟨by decide +kernel,by decide +kernel⟩,⟨by decide +kernel,by decide +kernel⟩,trivial⟩
  exact ⟨hguarded,handled_before_passed_of_untroubled emptyObjectHash 1 ⟨none,none,none,none⟩
    _ hguarded (List.prefix_refl _)⟩

/-- A handler throws, and the event is marked and passed all the same. -/
theorem failed_event_is_marked_and_passed :
    ¬ HandledBeforePassed emptyObjectHash 1
      (run (Listener.pollOnce emptyObjectHash 1 ⟨none,none,none,none⟩) {}
        [page [drawEvent 7] true]) := by
  decide +kernel

end Creditra.HorizonListener
