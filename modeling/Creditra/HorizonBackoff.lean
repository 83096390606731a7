import Creditra.FloatOrder
import Creditra.HorizonListener

/-!
# Backoff of the Horizon listener

After a transient error `pollOnce` counts one more attempt and schedules the
next try by `calculateBackoffDelay`. Before it asks Horizon again it sets the
count back to zero, although no poll has succeeded; every failure is a first one.

Settings and delays are values of the number type. What `Math.random` answers is
part of a poll. `Math.pow` is left to the runtime, but for its zeroth powers.
-/
namespace Creditra.HorizonBackoff
open FloatNumbers FloatOrder GuardedRuns HorizonListener JsNumbers

/-- `Math.pow(x, n)` for whole exponents. -/
structure MathPow where
  pow : Value → ℤ → Value
  pow_zero : ∀ x, pow x 0 = .one

/-- The settings of the backoff; an unset setting, zero and not-a-number count as the default. -/
structure BackoffConfig extends HorizonListenerConfig where
  initialBackoffMs : Option Value := none
  maxBackoffMs : Option Value := none
  backoffMultiplier : Option Value := none

namespace BackoffConfig

def orDefault (setting : Option Value) (default : Value) : Value :=
  (setting.getD .nan).orElse default

def baseDelay (config : BackoffConfig) : Value := orDefault config.initialBackoffMs (.round 1000)

def maxDelay (config : BackoffConfig) : Value := orDefault config.maxBackoffMs (.round 30000)

def multiplier (config : BackoffConfig) : Value := orDefault config.backoffMultiplier (.round 2)

def retryLimit (config : BackoffConfig) : ℤ := HorizonListener.orDefault config.maxRetries 3

/-- The delay of an attempt, without jitter. -/
def plainDelay (math : MathPow) (config : BackoffConfig) (attempt : ℤ) : Value :=
  minValue (config.baseDelay.mul (math.pow config.multiplier (attempt - 1))) config.maxDelay

end BackoffConfig

/-- `delay + delay * 0.1 * random`. -/
def jittered (delay random : Value) : Value :=
  delay.add ((delay.mul (.round (1 / 10))).mul random)

def calculateBackoffDelay (math : MathPow) (attempt : ℤ) (config : BackoffConfig)
    (random : Value) : Value :=
  floorValue (jittered (config.plainDelay math attempt) random)

/-- A poll of the running listener that fails with a transient error. -/
structure FailingPoll where
  now : ℤ
  failedAt : ℤ
  random : Double
  error : HorizonError
  random_nonneg : 0 ≤ random.1
  random_lt_one : random.1 < 1
  transient : classifyError error = { isTransient := true }

/-- A listener that keeps failing, and how many of its polls have failed; polls in a backoff
period do not count. -/
structure Streak where
  failures : ℕ
  listener : Listener

section Steps
variable (math : MathPow) (dataHash : String → String) (handlers : ℕ) (config : BackoffConfig)

/-- The delay is computed from the count that the failure has raised. -/
def FailingPoll.poll (l : Listener) (f : FailingPoll) : Poll where
  running := true
  now := f.now
  response := .error f.error
  throws := fun _ _ => false
  failedAt := f.failedAt
  backoffDelay := calculateBackoffDelay math (l.resetRetries.retryState.attempts + 1) config
    (.finite f.random)

/-- The poll falls into a backoff period. -/
def waiting (l : Listener) (f : FailingPoll) : Bool :=
  (Value.round f.now).lt l.retryState.nextRetryTime

def failOnce (l : Listener) (f : FailingPoll) : Listener :=
  l.pollOnce dataHash handlers config.toHorizonListenerConfig (f.poll math config l)

def step (t : Streak) (f : FailingPoll) : Streak where
  failures := if waiting t.listener f then t.failures else t.failures + 1
  listener := failOnce math dataHash handlers config t.listener f

/-- The promise for the failure that a poll adds: the count is its number, and the next try comes
after a delay that has grown with it but is no longer than the longest. -/
def Promised (t : Streak) (f : FailingPoll) : Prop :=
  waiting t.listener f = false → (t.failures + 1 : ℤ) ≤ config.retryLimit →
    let retryState := (failOnce math dataHash handlers config t.listener f).retryState
    let delay := calculateBackoffDelay math retryState.attempts config (.finite f.random)
    retryState.attempts = t.failures + 1 ∧
      retryState.nextRetryTime = (Value.round f.failedAt).add delay ∧
      (floorValue (config.plainDelay math (t.failures + 1))).le delay = true ∧
      delay.le config.maxDelay = true

/-- The shorter one of the first and the longest delay. -/
def firstDelay : Value := minValue config.baseDelay config.maxDelay

/-- Less than the next whole number after a bound. -/
def Below (v bound : Value) : Prop :=
  match v, bound with
  | .finite x, .finite b => x.1 < ⌊b.1⌋ + 1
  | v, b => v.le b = true

/-- The failure is the first one, and the jitter takes its delay neither below its own whole part
nor above the longest. -/
def Tame (t : Streak) (f : FailingPoll) : Prop :=
  waiting t.listener f = false → (t.failures + 1 : ℤ) ≤ config.retryLimit →
    t.failures = 0 ∧
      (floorValue (firstDelay config)).le (jittered (firstDelay config) (.finite f.random)) = true ∧
      Below (jittered (firstDelay config) (.finite f.random)) config.maxDelay

end Steps

/-! ## The first delay -/

theorem value_mul_one (v : Value) : v.mul .one = v := by
  cases v with
  | finite x =>
      change Value.round (x.1 * 1) = _
      rw [mul_one]
      exact round_self x
  | infinite n => cases n <;> rfl
  | nan => rfl

theorem plainDelay_first (math : MathPow) (config : BackoffConfig) :
    config.plainDelay math 1 = firstDelay config := by
  unfold BackoffConfig.plainDelay firstDelay
  rw [sub_self,math.pow_zero,value_mul_one]

/-- The whole part is within a bound when the value is below the next whole number. -/
theorem floorValue_le_iff (v bound : Value) :
    (floorValue v).le bound = true ↔ Below v bound := by
  cases v with
  | infinite n => cases bound <;> rfl
  | nan => cases bound <;> rfl
  | finite x =>
      obtain ⟨a,ha,hax⟩ := floorValue_finite x
      rw [ha]
      cases bound with
      | infinite n => rfl
      | nan => rfl
      | finite b =>
          unfold Below
          simp only [Value.le,decide_eq_true_eq,hax]
          rw [← Int.le_floor,← Int.lt_add_one_iff,Int.floor_lt,Int.cast_add,Int.cast_one]

theorem toDouble_zero : toDouble |0| = some |0| := by decide

/-- The random value zero. -/
def noJitter : Double := ⟨0,toDouble_zero⟩

/-- Jitter takes a delay that is not negative no further down. -/
theorem floorValue_le_jittered {d r : Double} (hd : 0 ≤ d.1) (hr : 0 ≤ r.1) (hone : r.1 < 1) :
    (floorValue (.finite d)).le (jittered (.finite d) (.finite r)) = true := by
  -- a factor between zero and one keeps a value that is not negative within its bounds
  have hscale : ∀ x c : Double, 0 ≤ x.1 → 0 ≤ c.1 → c.1 ≤ 1 →
      ∃ z : Double, (Value.finite x).mul (.finite c) = .finite z ∧ 0 ≤ z.1 := by
    intro x c hx hc hle
    obtain ⟨z,hz,hlow,-⟩ := exists_round_between (x := noJitter) (y := x) le_rfl
      (mul_nonneg hx hc) (mul_le_of_le_one_right hx hle)
    exact ⟨z,hz,hlow⟩
  obtain ⟨tenth,htenth,hlow,hhigh⟩ := exists_round_between (q := 1 / 10) (x := noJitter)
    (y := ⟨1,by decide +kernel⟩) le_rfl (by norm_num [noJitter]) (by norm_num)
  obtain ⟨share,hshare,hshare'⟩ := hscale d tenth hd hlow hhigh
  obtain ⟨jitter,hjitter,hjitter'⟩ := hscale share r hshare' hr hone.le
  obtain ⟨whole,hwhole,hwhole'⟩ := floorValue_finite d
  have hsum : jittered (.finite d) (.finite r) = .round (d.1 + jitter.1) := by
    unfold jittered
    rw [htenth,hshare,hjitter]
    rfl
  have hle : d.1 ≤ d.1 + jitter.1 := le_add_of_nonneg_right hjitter'
  rw [hsum,hwhole]
  rcases round_cases (d.1 + jitter.1) with ⟨s,hround⟩ | hround
  · have hfloor : whole.1 ≤ d.1 := by
      rw [hwhole']
      exact Int.floor_le d.1
    rw [hround]
    exact decide_eq_true (hfloor.trans (round_mono hle (round_self d) hround))
  · rw [hround,decide_eq_false (not_lt.mpr (hd.trans hle))]
    rfl

section Streaks
variable {math : MathPow} {dataHash : String → String} {handlers : ℕ} {config : BackoffConfig}
  {t : Streak}

theorem resetRetries_attempts {l : Listener} (h : 0 ≤ l.retryState.attempts) :
    l.resetRetries.retryState.attempts = 0 := by
  unfold Listener.resetRetries
  split_ifs with hpos
  · rfl
  · omega

/-- A failing poll outside a backoff period. -/
theorem failOnce_retryState {l : Listener} (h : 0 ≤ l.retryState.attempts) {f : FailingPoll}
    (hwaiting : waiting l f = false) :
    (failOnce math dataHash handlers config l f).retryState =
      if 1 ≤ config.retryLimit then
        ⟨1,f.failedAt,(Value.round f.failedAt).add
          (calculateBackoffDelay math 1 config (.finite f.random))⟩
      else { l.resetRetries.retryState with attempts := 0 } := by
  have hreset := resetRetries_attempts h
  unfold waiting at hwaiting
  unfold failOnce Listener.pollOnce FailingPoll.poll
  simp only [if_true,hwaiting,if_false,Listener.pollAnswered,Listener.pollFailed,f.transient,
    Bool.false_eq_true,hreset,zero_add]
  unfold BackoffConfig.retryLimit
  split_ifs
  · rfl
  · rfl

theorem failOnce_waiting {l : Listener} {f : FailingPoll} (hwaiting : waiting l f = true) :
    failOnce math dataHash handlers config l f = l := by
  unfold waiting at hwaiting
  unfold failOnce Listener.pollOnce FailingPoll.poll
  simp only [if_true,hwaiting]

theorem attempts_step (h : 0 ≤ t.listener.retryState.attempts) (f : FailingPoll) :
    0 ≤ (step math dataHash handlers config t f).listener.retryState.attempts := by
  unfold step
  cases hwaiting : waiting t.listener f with
  | true =>
      rw [failOnce_waiting hwaiting]
      exact h
  | false =>
      dsimp only
      rw [failOnce_retryState h hwaiting]
      split_ifs
      · exact Int.one_nonneg
      · exact le_refl 0

/-- One poll keeps the promise exactly where it is tame. -/
theorem promised_iff_tame (h : 0 ≤ t.listener.retryState.attempts) (f : FailingPoll) :
    Promised math dataHash handlers config t f ↔ Tame config t f := by
  unfold Promised Tame
  refine imp_congr_right fun hwaiting => imp_congr_right fun hlimit => ?_
  have hone : 1 ≤ config.retryLimit := by omega
  rw [failOnce_retryState h hwaiting,if_pos hone]
  dsimp only
  have hfirst : (1 : ℤ) = t.failures + 1 ↔ t.failures = 0 := by omega
  rw [hfirst]
  refine and_congr_right fun hzero => ?_
  rw [hzero,Nat.cast_zero,zero_add,eq_self_iff_true,true_and,calculateBackoffDelay,
    plainDelay_first,floorValue_le_floorValue,floorValue_le_iff _ config.maxDelay]

end Streaks

/-- While the polls of a running listener keep failing, the backoff is as promised if and only if
no second poll of the streak fails outside a backoff period, within the retries, and the jitter
keeps the first delay within its bounds. -/
theorem backoff_grows_iff (math : MathPow) (dataHash : String → String) (handlers : ℕ)
    (config : BackoffConfig) (l : Listener) (hfresh : l.retryState.attempts = 0)
    (polls : List FailingPoll) :
    Guarded (step math dataHash handlers config) (Promised math dataHash handlers config) ⟨0,l⟩
        polls ↔
      Guarded (step math dataHash handlers config) (Tame config) ⟨0,l⟩ polls :=
  guarded_congr (I := fun t => 0 ≤ t.listener.retryState.attempts)
    (fun _ f h _ => attempts_step h f) (fun _ f h => promised_iff_tame h f) hfresh.ge polls

/-- The transient error that the source simulates, without jitter. -/
def unavailable (now : ℤ) : FailingPoll where
  now := now
  failedAt := now
  random := noJitter
  error := { status := some 503, message := "Transient network error" }
  random_nonneg := le_refl 0
  random_lt_one := one_pos
  transient := by decide +kernel

/-- The settings of a deployment that sets none. -/
def defaults : BackoffConfig := { startLedger := none }

/-- The powers of finite values, rounded once. -/
def rounded : MathPow where
  pow := fun x n => if n = 0 then .one else
    match x with
    | .finite q => .round (q.1 ^ n)
    | x => x
  pow_zero := fun _ => if_pos rfl

theorem backoff_grows_iff_one_failure :
    ({} : Listener).retryState.attempts = 0 ∧
    Guarded (step rounded (fun data => data) 1 defaults)
      (Promised rounded (fun data => data) 1 defaults) ⟨0,{}⟩ [unavailable 0,unavailable 500] := by
  refine ⟨rfl,(backoff_grows_iff rounded _ 1 defaults {} rfl _).mpr ⟨?_,?_,trivial⟩⟩
  · intro _ _
    exact ⟨rfl,by decide +kernel,(floorValue_le_iff _ _).mp (by decide +kernel)⟩
  · intro hwaiting
    exact absurd hwaiting (by decide +kernel)

/-- The second failure, after the backoff period of the first, is counted as a first one. -/
theorem second_failure_not_counted :
    ¬ Guarded (step rounded (fun data => data) 1 defaults)
      (Promised rounded (fun data => data) 1 defaults) ⟨0,{}⟩
      [unavailable 0,unavailable 5000] := by
  intro hguarded
  have hattempts := (hguarded.2.1 (by decide +kernel) (by decide +kernel)).1
  exact absurd hattempts (by decide +kernel)

/-- The jitter comes after the cap: with both delays 30000, this random value gives one more. -/
example : calculateBackoffDelay rounded 1
    { defaults with
      initialBackoffMs := some (.round 30000)
      maxBackoffMs := some (.round 30000) }
    (.round (1501199875790 / 2 ^ 52)) = .round 30001 := by
  decide +kernel

end Creditra.HorizonBackoff
