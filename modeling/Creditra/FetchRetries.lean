import Creditra.FloatOrder
import Mathlib.Data.List.Range

/-!
# Retried requests

`utils/fetchWithTimeout.ts`: the loop over the attempts of an outbound request,
the rewrapping of what `fetch` rejects with, and the wait between attempts. The
`AbortSignal` of the caller fires at most once, at any moment of the call; from
then on `fetch` rejects with an `AbortError`. The attempts are counted exactly.
-/
namespace Creditra.FetchRetries
open FloatNumbers FloatOrder

/-- What `fetch` rejects with: an `Error`, or some other value. -/
inductive Thrown where
  | error (name message : String)
  | other
  deriving DecidableEq

inductive HttpError where
  | timeout (type url : String) (timeoutMs : Value)
  | request (message url : String) (cause : Option Thrown)
  deriving DecidableEq

namespace HttpError

def name : HttpError → String
  | .timeout _ _ _ => "HttpTimeoutError"
  | .request _ _ _ => "HttpRequestError"

def message : HttpError → String
  | .timeout type url timeoutMs =>
      "HTTP " ++ type ++ " timeout after " ++ toText timeoutMs ++ "ms: " ++ url
  | .request message _ _ => message

end HttpError

structure Response where
  status : ℕ
  retryAfter : Option String
  deriving DecidableEq

/-- A moment while the `k`-th attempt waits for its response, or before it starts
and after the one before it has ended. -/
inductive Moment where
  | before (k : ℕ)
  | during (k : ℕ)
  deriving DecidableEq

/-- What surrounds a call; `fetched k` is what the `k`-th `fetch` gives unless its
signal is aborted. -/
structure World where
  env : String → Option String
  toUpperCase : String → String
  dateParse : String → Value
  now : ℕ → Value
  random : ℕ → Value
  fetched : ℕ → Except Thrown Response
  abort : Option Moment

namespace World

/-- `signal.aborted` when the `k`-th attempt starts. -/
def abortedAtStart (world : World) (k : ℕ) : Bool :=
  match world.abort with
  | none => false
  | some (.before j) => j ≤ k
  | some (.during j) => j < k

/-- `signal.aborted` when the `k`-th attempt ends. -/
def abortedAtEnd (world : World) (k : ℕ) : Bool :=
  match world.abort with
  | none => false
  | some (.before j) => j ≤ k
  | some (.during j) => j ≤ k

def fetch (world : World) (k : ℕ) : Except Thrown Response :=
  if world.abortedAtEnd k then .error (.error "AbortError" "This operation was aborted")
  else world.fetched k

end World

/-! ## Configuration -/

structure FetchTimeoutConfig where
  connectTimeoutMs : Value
  readTimeoutMs : Value

structure FetchRetryConfig where
  maxRetries : Value
  retryDelayMs : Value
  maxRetryDelayMs : Value
  retryJitterMs : Value
  retryStatuses : List ℕ
  retryMethods : List String

/-- A `Partial<FetchRetryConfig>`; a number given as undefined counts as `NaN`. -/
structure RetryOverrides where
  maxRetries : Option Value := none
  retryDelayMs : Option Value := none
  maxRetryDelayMs : Option Value := none
  retryJitterMs : Option Value := none
  retryStatuses : Option (List ℕ) := none
  retryMethods : Option (List String) := none

structure FetchOptions where
  method : Option String := none
  connectTimeoutMs : Option Value := none
  readTimeoutMs : Option Value := none
  /-- `none` for `retry: false`. -/
  retry : Option RetryOverrides := some {}

variable (world : World)

/-- `parseInt(process.env[name] ?? default, 10)`. -/
def envNumber (name default : String) : Value := parseIntDecimal ((world.env name).getD default)

def getDefaultTimeouts : FetchTimeoutConfig where
  connectTimeoutMs := envNumber world "HTTP_CONNECT_TIMEOUT_MS" "5000"
  readTimeoutMs := envNumber world "HTTP_READ_TIMEOUT_MS" "10000"

def getDefaultRetryConfig : FetchRetryConfig where
  maxRetries := envNumber world "HTTP_MAX_RETRIES" "2"
  retryDelayMs := envNumber world "HTTP_RETRY_DELAY_MS" "250"
  maxRetryDelayMs := envNumber world "HTTP_MAX_RETRY_DELAY_MS" "2000"
  retryJitterMs := envNumber world "HTTP_RETRY_JITTER_MS" "100"
  retryStatuses := [408,429,500,502,503,504]
  retryMethods := ["GET","HEAD","OPTIONS"]

def resolveRetryConfig : Option RetryOverrides → FetchRetryConfig
  | none => { getDefaultRetryConfig world with maxRetries := Value.zero }
  | some overrides =>
      let defaults := getDefaultRetryConfig world
      { maxRetries := overrides.maxRetries.getD defaults.maxRetries
        retryDelayMs := overrides.retryDelayMs.getD defaults.retryDelayMs
        maxRetryDelayMs := overrides.maxRetryDelayMs.getD defaults.maxRetryDelayMs
        retryJitterMs := overrides.retryJitterMs.getD defaults.retryJitterMs
        retryStatuses := overrides.retryStatuses.getD defaults.retryStatuses
        retryMethods :=
          (overrides.retryMethods.getD defaults.retryMethods).map world.toUpperCase }

/-! ## One attempt -/

variable (url : String) (options : FetchOptions)

def totalTimeoutMs : Value :=
  Value.add (options.connectTimeoutMs.getD (getDefaultTimeouts world).connectTimeoutMs)
    (options.readTimeoutMs.getD (getDefaultTimeouts world).readTimeoutMs)

/-- The rewrapping of a rejection. -/
def wrapped : Thrown → HttpError
  | .error name message =>
      if name = "AbortError" then .timeout "read" url (totalTimeoutMs world options)
      else .request ("HTTP request failed: " ++ message) url (some (.error name message))
  | .other => .request "HTTP request failed with unknown error" url none

def fetchOnceWithTimeout (k : ℕ) : Except HttpError Response :=
  match world.fetch k with
  | .ok response => .ok response
  | .error thrown => .error (wrapped world url options thrown)

/-- Every rewrapped error is an `Error`. -/
def isCallerAbort (aborted : Bool) (error : HttpError) : Bool :=
  aborted && error.name = "AbortError"

/-! ## The wait -/

def floorValue : Value → Value
  | .finite x => Value.round ⌊x.1⌋
  | x => x

def parseRetryAfterMs (attempt : ℕ) (response : Option Response) : Option Value :=
  match response.bind Response.retryAfter with
  | none => none
  | some "" => none
  | some header =>
      let dateMs := world.dateParse header
      match NumberText.finiteNumber (NumberText.stringToNumber header.toList) with
      | some seconds =>
          if 0 ≤ seconds.1 then some (Value.mul (.finite seconds) (Value.round 1000))
          else if Value.isFinite dateMs then
            some (Value.max Value.zero (Value.sub dateMs (world.now attempt)))
          else none
      | none =>
          if Value.isFinite dateMs then
            some (Value.max Value.zero (Value.sub dateMs (world.now attempt)))
          else none

inductive Event where
  | fetch (aborted : Bool)
  | wait (delayMs : Value)
  deriving DecidableEq

def waitBeforeRetry (attempt : ℕ) (retry : FetchRetryConfig) (response : Option Response) :
    List Event :=
  let backoffMs := minValue retry.maxRetryDelayMs
    (Value.mul retry.retryDelayMs (Value.round (2 ^ attempt)))
  let jitterMs :=
    if Value.lt Value.zero retry.retryJitterMs then
      floorValue (Value.mul (world.random attempt) retry.retryJitterMs)
    else Value.zero
  let delayMs := (parseRetryAfterMs world attempt response).getD (Value.add backoffMs jitterMs)
  if Value.le delayMs Value.zero then [] else [.wait delayMs]

/-! ## The loop -/

/-- `attempt <= maxRetries`. -/
def notAfter (attempt : ℕ) : Value → Bool
  | .finite x => (attempt : ℚ) ≤ x.1
  | .infinite negative => ! negative
  | .nan => false

/-- `attempt < maxRetries`. -/
def earlier (attempt : ℕ) : Value → Bool
  | .finite x => (attempt : ℚ) < x.1
  | .infinite negative => ! negative
  | .nan => false

/-- `attempt >= maxRetries`. -/
def reached (attempt : ℕ) : Value → Bool
  | .finite x => x.1 ≤ (attempt : ℚ)
  | .infinite negative => negative
  | .nan => false

structure Run where
  events : List Event
  result : Except HttpError Response

/-- The run after what came before it. -/
def Run.after (events : List Event) (run : Run) : Run := { run with events := events ++ run.events }

def Event.aborted : Event → Option Bool
  | .fetch aborted => some aborted
  | .wait _ => none

/-- The fetches of a run, each with `signal.aborted` when it starts. -/
def Run.fetches (run : Run) : List Bool := run.events.filterMap Event.aborted

section Loop
variable (retry : FetchRetryConfig) (canRetryMethod : Bool)

/-- The loop from `attempt` on; the fuel bounds how often its head is passed. -/
def attempts : ℕ → ℕ → Option HttpError → Option Run
  | 0, _, _ => none
  | fuel + 1, attempt, lastError =>
      if notAfter attempt retry.maxRetries then
        let started := Event.fetch (world.abortedAtStart attempt)
        match fetchOnceWithTimeout world url options attempt with
        | .ok response =>
            if earlier attempt retry.maxRetries && canRetryMethod &&
                retry.retryStatuses.contains response.status then
              (attempts fuel (attempt + 1) lastError).map
                (Run.after (started :: waitBeforeRetry world attempt retry (some response)))
            else some ⟨[started],.ok response⟩
        | .error error =>
            if reached attempt retry.maxRetries || ! canRetryMethod ||
                isCallerAbort (world.abortedAtEnd attempt) error then
              some ⟨[started],.error error⟩
            else
              (attempts fuel (attempt + 1) (some error)).map
                (Run.after (started :: waitBeforeRetry world attempt retry none))
      else
        some ⟨[],.error (lastError.getD
          (.request "HTTP request failed with unknown error" url none))⟩

end Loop

/-- The method is among those that are retried. -/
def canRetry : Bool :=
  (resolveRetryConfig world options.retry).retryMethods.contains
    (world.toUpperCase (options.method.getD "GET"))

/-- `none` while the loop has not ended. -/
def fetchWithTimeout (fuel : ℕ) : Option Run :=
  attempts world url options (resolveRetryConfig world options.retry) (canRetry world options)
    fuel 0 none

/-! ## When a call respects its bounds and its caller -/

/-- `n <= maxRetries + 1`. -/
def withinRetries (n : ℕ) : Value → Prop
  | .finite x => (n : ℚ) ≤ x.1 + 1
  | .infinite negative => negative = false
  | .nan => False

/-- The call ends with at most `maxRetries + 1` fetches, one if the method is not
retried, none after the first once the signal is aborted, and with the outcome of
the last of them. -/
def Respects : Prop :=
  ∃ fuel run, fetchWithTimeout world url options fuel = some run ∧
    withinRetries run.fetches.length (resolveRetryConfig world options.retry).maxRetries ∧
    (canRetry world options = false → run.fetches.length = 1) ∧
    (∀ aborted ∈ run.fetches.tail, aborted = false) ∧
    ∃ n, run.fetches.length = n + 1 ∧ run.result = fetchOnceWithTimeout world url options n

/-- The `k`-th attempt fails, or its response has a status to be retried. -/
def asksForRetry (k : ℕ) : Bool :=
  match world.fetch k with
  | .ok response => (resolveRetryConfig world options.retry).retryStatuses.contains response.status
  | .error _ => true

/-- Nothing is left to do after the `n`-th attempt: the method is not retried, or the
response is to be returned, or there is no attempt after it. A fraction in
`maxRetries` leaves room for a retry of the last response, which never comes. -/
def Final (n : ℕ) : Prop :=
  let maxRetries := (resolveRetryConfig world options.retry).maxRetries
  canRetry world options = false ∨ asksForRetry world options n = false ∨
    (notAfter (n + 1) maxRetries = false ∧
      (earlier n maxRetries = false ∨ ∃ thrown, world.fetch n = .error thrown))

/-- The call comes to its `n`-th attempt and ends there. -/
structure Settles (n : ℕ) : Prop where
  allowed : notAfter n (resolveRetryConfig world options.retry).maxRetries = true
  retried : ∀ k < n, canRetry world options = true ∧ asksForRetry world options k = true
  final : Final world options n

section Arithmetic
variable {n k : ℕ} {maxRetries : Value}

theorem notAfter_mono (hkn : k ≤ n) (h : notAfter n maxRetries = true) :
    notAfter k maxRetries = true := by
  cases maxRetries with
  | finite x =>
      simp only [notAfter,decide_eq_true_eq] at h ⊢
      exact le_trans (Nat.cast_le.mpr hkn) h
  | infinite negative => exact h
  | nan => exact h

theorem earlier_of_notAfter (h : notAfter (n + 1) maxRetries = true) :
    earlier n maxRetries = true := by
  cases maxRetries with
  | finite x =>
      simp only [notAfter,earlier,decide_eq_true_eq,Nat.cast_add,Nat.cast_one] at h ⊢
      linarith
  | infinite negative => exact h
  | nan => exact h

theorem reached_eq (h : notAfter n maxRetries = true) :
    reached n maxRetries = ! earlier n maxRetries := by
  cases maxRetries with
  | finite x =>
      simp only [reached,earlier]
      by_cases hlt : (n : ℚ) < x.1
      · simp [hlt,not_le.mpr hlt]
      · simp [hlt,not_lt.mp hlt]
  | infinite negative => cases negative <;> simp_all [notAfter,reached,earlier]
  | nan => exact absurd h Bool.false_ne_true

theorem withinRetries_of_notAfter (h : notAfter n maxRetries = true) :
    withinRetries (n + 1) maxRetries := by
  cases maxRetries with
  | finite x =>
      simp only [notAfter,withinRetries,decide_eq_true_eq,Nat.cast_add,Nat.cast_one] at h ⊢
      linarith
  | infinite negative =>
      simp only [notAfter,Bool.not_eq_true'] at h
      exact h
  | nan => exact absurd h Bool.false_ne_true

end Arithmetic

theorem abortedAtStart_mono {world : World} {k n : ℕ} (hkn : k ≤ n)
    (h : world.abortedAtStart k = true) : world.abortedAtStart n = true := by
  unfold World.abortedAtStart at h ⊢
  cases habort : world.abort with
  | none =>
      rw [habort] at h
      exact h
  | some m =>
      rw [habort] at h
      cases m with
      | before j =>
          simp only [decide_eq_true_eq] at h ⊢
          omega
      | during j =>
          simp only [decide_eq_true_eq] at h ⊢
          omega

/-- No rewrapped error has the name that `isCallerAbort` looks for. -/
theorem isCallerAbort_eq_false (aborted : Bool) (error : HttpError) :
    isCallerAbort aborted error = false := by
  unfold isCallerAbort HttpError.name
  cases error with
  | timeout type url timeoutMs => simp
  | request message url cause => simp

theorem fetches_after_wait (run : Run) (aborted : Bool) (attempt : ℕ) (retry : FetchRetryConfig)
    (response : Option Response) :
    (Run.after (.fetch aborted :: waitBeforeRetry world attempt retry response) run).fetches =
      aborted :: run.fetches := by
  have hwait : (waitBeforeRetry world attempt retry response).filterMap Event.aborted = [] := by
    unfold waitBeforeRetry
    simp only []
    split_ifs <;> rfl
  rw [Run.after,Run.fetches,List.cons_append,List.filterMap_cons_some (Event.aborted.eq_1 aborted),
    List.filterMap_append,hwait,List.nil_append,Run.fetches]

section Steps
variable {world url options}

/-- The loop of `fetchWithTimeout`. -/
abbrev loop (world : World) (url : String) (options : FetchOptions) :
    ℕ → ℕ → Option HttpError → Option Run :=
  attempts world url options (resolveRetryConfig world options.retry) (canRetry world options)

/-- What passing the head of the loop once can do. -/
inductive Pass (world : World) (url : String) (options : FetchOptions) (fuel k : ℕ)
    (lastError : Option HttpError) : Prop
  | ended (hleft : notAfter k (resolveRetryConfig world options.retry).maxRetries = false)
      (error : HttpError)
      (hrun : loop world url options (fuel + 1) k lastError = some ⟨[],.error error⟩)
      (herror : ∀ e, lastError = some e → error = e)
  | settled (hleft : notAfter k (resolveRetryConfig world options.retry).maxRetries = true)
      (hfinal : canRetry world options = false ∨ asksForRetry world options k = false ∨
        earlier k (resolveRetryConfig world options.retry).maxRetries = false)
      (hrun : loop world url options (fuel + 1) k lastError =
        some ⟨[.fetch (world.abortedAtStart k)],fetchOnceWithTimeout world url options k⟩)
  | retried (hleft : notAfter k (resolveRetryConfig world options.retry).maxRetries = true)
      (hearlier : earlier k (resolveRetryConfig world options.retry).maxRetries = true)
      (hretry : canRetry world options = true ∧ asksForRetry world options k = true)
      (next : Option HttpError) (response : Option Response)
      (hnext : (∃ thrown, world.fetch k = .error thrown) →
        ∃ e, next = some e ∧ fetchOnceWithTimeout world url options k = .error e)
      (hrun : loop world url options (fuel + 1) k lastError =
        (loop world url options fuel (k + 1) next).map
          (Run.after (.fetch (world.abortedAtStart k) ::
            waitBeforeRetry world k (resolveRetryConfig world options.retry) response)))

theorem pass_of_response (fuel : ℕ) {k : ℕ} (lastError : Option HttpError) {response : Response}
    (hleft : notAfter k (resolveRetryConfig world options.retry).maxRetries = true)
    (hfetch : world.fetch k = .ok response) : Pass world url options fuel k lastError := by
  have honce : fetchOnceWithTimeout world url options k = .ok response := by
    rw [fetchOnceWithTimeout,hfetch]
  have hasks : asksForRetry world options k =
      (resolveRetryConfig world options.retry).retryStatuses.contains response.status := by
    rw [asksForRetry,hfetch]
  cases hgo : earlier k (resolveRetryConfig world options.retry).maxRetries &&
      canRetry world options &&
      (resolveRetryConfig world options.retry).retryStatuses.contains response.status with
  | true =>
      simp only [Bool.and_eq_true] at hgo
      refine .retried hleft hgo.1.1 ⟨hgo.1.2,hasks ▸ hgo.2⟩ lastError (some response) ?_ ?_
      · intro hthrown
        obtain ⟨thrown,hthrown⟩ := hthrown
        rw [hfetch] at hthrown
        exact absurd hthrown (by simp)
      · rw [loop,attempts,if_pos hleft,honce]
        simp only [hgo,Bool.and_self,if_true]
  | false =>
      refine .settled hleft ?_ ?_
      · rw [hasks]
        simp only [Bool.and_eq_false_iff] at hgo
        tauto
      · rw [loop,attempts,if_pos hleft,honce]
        simp only [hgo,Bool.false_eq_true,if_false]

theorem pass_of_thrown (fuel : ℕ) {k : ℕ} (lastError : Option HttpError) {thrown : Thrown}
    (hleft : notAfter k (resolveRetryConfig world options.retry).maxRetries = true)
    (hfetch : world.fetch k = .error thrown) : Pass world url options fuel k lastError := by
  have honce : fetchOnceWithTimeout world url options k =
      .error (wrapped world url options thrown) := by
    rw [fetchOnceWithTimeout,hfetch]
  have hasks : asksForRetry world options k = true := by
    rw [asksForRetry,hfetch]
  cases hstop : (! earlier k (resolveRetryConfig world options.retry).maxRetries) ||
      ! canRetry world options with
  | true =>
      refine .settled hleft ?_ ?_
      · simp only [Bool.or_eq_true,Bool.not_eq_true'] at hstop
        tauto
      · rw [loop,attempts,if_pos hleft,honce]
        simp only [reached_eq hleft,hstop,Bool.true_or,if_true]
  | false =>
      have hgo := hstop
      simp only [Bool.or_eq_false_iff,Bool.not_eq_false'] at hgo
      refine .retried hleft hgo.1 ⟨hgo.2,hasks⟩ (some (wrapped world url options thrown)) none ?_ ?_
      · intro _
        exact ⟨_,rfl,honce⟩
      · rw [loop,attempts,if_pos hleft,honce]
        simp only [reached_eq hleft,hstop,isCallerAbort_eq_false,Bool.or_self,Bool.false_eq_true,
          if_false]

theorem pass (fuel k : ℕ) (lastError : Option HttpError) :
    Pass world url options fuel k lastError := by
  cases hleft : notAfter k (resolveRetryConfig world options.retry).maxRetries with
  | false =>
      refine .ended hleft (lastError.getD
        (.request "HTTP request failed with unknown error" url none)) ?_ ?_
      · rw [loop,attempts,hleft,if_neg Bool.false_ne_true]
      · intro e he
        rw [he,Option.getD_some]
  | true =>
      cases hfetch : world.fetch k with
      | ok response => exact pass_of_response fuel lastError hleft hfetch
      | error thrown => exact pass_of_thrown fuel lastError hleft hfetch

/-- The fetches from the `k`-th to the `n`-th. -/
def started (world : World) (k count : ℕ) : List Bool :=
  (List.range' k count).map world.abortedAtStart

/-- A call that settles at its `n`-th attempt makes the attempts up to it, and no more. -/
theorem loop_settles {n : ℕ} (h : Settles world options n) (d : ℕ) :
    ∀ k, k + d = n → ∀ lastError, ∃ run, loop world url options (d + 2) k lastError = some run ∧
      run.fetches = started world k (d + 1) ∧
      run.result = fetchOnceWithTimeout world url options n := by
  induction d with
  | zero =>
      intro k hk lastError
      obtain rfl : k = n := hk
      have hpass : Pass world url options 1 k lastError := pass 1 k lastError
      cases hpass with
      | ended hleft => exact absurd h.allowed (by rw [hleft]; exact Bool.false_ne_true)
      | settled hleft hfinal hrun => exact ⟨_,hrun,rfl,rfl⟩
      | retried hleft hearlier hretry next response hnext hrun =>
          -- The last error is thrown once the loop has ended.
          have hfinal := h.final
          simp only [Final,hretry.1,hretry.2,hearlier,Bool.true_eq_false,false_or] at hfinal
          obtain ⟨e,rfl,he⟩ := hnext hfinal.2
          have hlast : Pass world url options 0 (k + 1) (some e) := pass 0 (k + 1) (some e)
          cases hlast with
          | ended hleft error hend herror =>
              rw [hend,Option.map_some] at hrun
              refine ⟨_,hrun,?_,?_⟩
              · rw [fetches_after_wait]
                rfl
              · rw [he,← herror e rfl]
                rfl
          | settled hleft => exact absurd hleft (by rw [hfinal.1]; exact Bool.false_ne_true)
          | retried hleft => exact absurd hleft (by rw [hfinal.1]; exact Bool.false_ne_true)
  | succ d ih =>
      intro k hk lastError
      have hallowed : notAfter (k + 1) (resolveRetryConfig world options.retry).maxRetries = true :=
        notAfter_mono (by omega) h.allowed
      have hretried := h.retried k (by omega)
      have hpass : Pass world url options (d + 2) k lastError := pass (d + 2) k lastError
      cases hpass with
      | ended hleft =>
          rw [notAfter_mono (Nat.le_succ k) hallowed] at hleft
          exact absurd hleft.symm Bool.false_ne_true
      | settled hleft hfinal hrun =>
          rw [hretried.1,hretried.2,earlier_of_notAfter hallowed] at hfinal
          simp at hfinal
      | retried hleft hearlier hretry next response hnext hrun =>
          obtain ⟨run,hloop,hfetches,hresult⟩ := ih (k + 1) (by omega) next
          rw [hloop,Option.map_some] at hrun
          refine ⟨_,hrun,?_,hresult⟩
          rw [fetches_after_wait,hfetches]
          rfl

theorem final_of_settled {k : ℕ}
    (h : canRetry world options = false ∨ asksForRetry world options k = false ∨
      earlier k (resolveRetryConfig world options.retry).maxRetries = false) :
    Final world options k := by
  rcases h with h | h | h
  · exact .inl h
  · exact .inr (.inl h)
  · have hlast : notAfter (k + 1) (resolveRetryConfig world options.retry).maxRetries = false := by
      by_contra hmore
      rw [earlier_of_notAfter (Bool.not_eq_false _ ▸ hmore)] at h
      exact Bool.false_ne_true h.symm
    exact .inr (.inr ⟨hlast,.inl h⟩)

/-- Where a run of the loop ends: before its first attempt, or after some later one. -/
theorem loop_ends {fuel k : ℕ} {lastError : Option HttpError} {run : Run}
    (h : loop world url options fuel k lastError = some run) :
    (run.fetches = [] ∧ notAfter k (resolveRetryConfig world options.retry).maxRetries = false ∧
      ∃ e, run.result = .error e) ∨
    ∃ d, run.fetches = started world k (d + 1) ∧
      notAfter (k + d) (resolveRetryConfig world options.retry).maxRetries = true ∧
      (∀ j < d, canRetry world options = true ∧ asksForRetry world options (k + j) = true) ∧
      (run.result = fetchOnceWithTimeout world url options (k + d) →
        Final world options (k + d)) := by
  induction fuel generalizing k lastError run with
  | zero => exact absurd h (by simp [loop,attempts])
  | succ fuel ih =>
      have hpass : Pass world url options fuel k lastError := pass fuel k lastError
      cases hpass with
      | ended hleft error hrun =>
          rw [hrun,Option.some_inj] at h
          subst h
          exact .inl ⟨rfl,hleft,error,rfl⟩
      | settled hleft hfinal hrun =>
          rw [hrun,Option.some_inj] at h
          subst h
          exact .inr ⟨0,rfl,hleft,fun j hj => absurd hj (Nat.not_lt_zero j),
            fun _ => final_of_settled hfinal⟩
      | retried hleft hearlier hretry next response hnext hrun =>
          rw [hrun] at h
          obtain ⟨rest,hrest,rfl⟩ := Option.map_eq_some_iff.mp h
          rcases ih hrest with ⟨hnone,hlast,e,he⟩ | ⟨d,hfetches,hallowed,hretried,hfinal⟩
          · refine .inr ⟨0,?_,hleft,fun j hj => absurd hj (Nat.not_lt_zero j),fun hresult => ?_⟩
            · rw [fetches_after_wait,hnone]
              rfl
            · have hthrown : ∃ thrown, world.fetch k = .error thrown := by
                cases hfetch : world.fetch k with
                | error thrown => exact ⟨thrown,rfl⟩
                | ok response =>
                    rw [Run.after,he,Nat.add_zero,fetchOnceWithTimeout,hfetch] at hresult
                    exact absurd hresult (by simp)
              exact .inr (.inr ⟨hlast,.inr hthrown⟩)
          · have hshift : k + 1 + d = k + (d + 1) := by omega
            rw [hshift] at hallowed hfinal
            refine .inr ⟨d + 1,?_,hallowed,?_,hfinal⟩
            · rw [fetches_after_wait,hfetches]
              rfl
            · intro j hj
              cases j with
              | zero => exact hretry
              | succ j =>
                  have hj' := hretried j (by omega)
                  rwa [show k + 1 + j = k + (j + 1) by omega] at hj'

end Steps

variable {world url options}

theorem length_started (k count : ℕ) : (started world k count).length = count := by
  rw [started,List.length_map,List.length_range']

theorem settles_of_respects (h : Respects world url options) :
    ∃ n, Settles world options n ∧ (n = 0 ∨ world.abortedAtStart n = false) := by
  obtain ⟨fuel,run,hrun,-,-,hkept,n,hlength,hresult⟩ := h
  rcases loop_ends hrun with ⟨hnone,-⟩ | ⟨d,hfetches,hallowed,hretried,hfinal⟩
  · rw [hnone] at hlength
    exact absurd hlength (by simp)
  · obtain rfl : d = n := by
      rw [hfetches,length_started] at hlength
      omega
    simp only [Nat.zero_add] at hallowed hretried hfinal
    refine ⟨d,⟨hallowed,hretried,hfinal hresult⟩,?_⟩
    cases d with
    | zero => exact .inl rfl
    | succ d =>
        refine .inr (hkept _ ?_)
        rw [hfetches,started,List.range'_succ,List.map_cons,List.tail_cons]
        refine List.mem_map_of_mem (List.mem_range'_1.mpr ⟨?_,?_⟩)
        · omega
        · omega

theorem respects_of_settles {n : ℕ} (h : Settles world options n)
    (hkept : n = 0 ∨ world.abortedAtStart n = false) : Respects world url options := by
  obtain ⟨run,hrun,hfetches,hresult⟩ := @loop_settles world url options n h n 0 (Nat.zero_add n) none
  have hlength : run.fetches.length = n + 1 := by rw [hfetches,length_started]
  refine ⟨n + 2,run,hrun,?_,?_,?_,n,hlength,hresult⟩
  · rw [hlength]
    exact withinRetries_of_notAfter h.allowed
  · intro hmethod
    have hzero : n = 0 := by
      by_contra hne
      have hretried := (h.retried 0 (Nat.pos_of_ne_zero hne)).1
      rw [hmethod] at hretried
      exact Bool.false_ne_true hretried
    rw [hlength,hzero]
  · intro aborted hmem
    rw [hfetches,started,List.range'_succ,List.map_cons,List.tail_cons] at hmem
    obtain ⟨j,hj,rfl⟩ := List.mem_map.mp hmem
    have hbound := List.mem_range'_1.mp hj
    rcases hkept with rfl | hkept
    · omega
    · by_contra haborted
      rw [abortedAtStart_mono (by omega) (Bool.not_eq_false _ ▸ haborted)] at hkept
      exact Bool.false_ne_true hkept.symm

/-- A call respects its bounds and its caller exactly if it settles at an attempt that
is its first one or starts before the caller aborts. -/
theorem fetch_respects_iff (world : World) (url : String) (options : FetchOptions) :
    Respects world url options ↔
      ∃ n, Settles world options n ∧ (n = 0 ∨ world.abortedAtStart n = false) := by
  constructor
  · exact settles_of_respects
  · intro h
    obtain ⟨n,hsettles,hkept⟩ := h
    exact respects_of_settles hsettles hkept

/-- A caller that aborts during the first attempt. -/
def abortingWorld : World where
  env := fun _ => none
  toUpperCase := String.map Char.toUpper
  dateParse := fun _ => .nan
  now := fun _ => Value.zero
  random := fun _ => Value.zero
  fetched := fun _ => .ok ⟨200,none⟩
  abort := some (.during 0)

/-- One retry is allowed, and it is made although the caller has aborted. -/
theorem fetch_retries_after_abort :
    ¬ Respects abortingWorld "https://horizon.stellar.org/ledgers"
      { retry := some { maxRetries := some Value.one } } := by
  intro h
  obtain ⟨n,hsettles,hkept⟩ := settles_of_respects h
  have hzero : n = 0 := by
    rcases hkept with hzero | hkept
    · exact hzero
    · simp only [World.abortedAtStart,abortingWorld,decide_eq_false_iff_not] at hkept
      omega
  subst hzero
  rcases hsettles.final with hmethod | hasks | ⟨hlast,-⟩
  · exact absurd hmethod (by decide +kernel)
  · exact absurd hasks (by decide +kernel)
  · exact absurd hlast (by decide +kernel)

end Creditra.FetchRetries
