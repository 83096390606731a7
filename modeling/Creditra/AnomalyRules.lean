import Creditra.FloatNumbers
import Creditra.IsoDates
import Creditra.SlidingBuffers
import Creditra.StellarDiagnostics
import Mathlib.Logic.Function.Basic

/-!
# Anomaly rules

`services/anomalyDetectionService.ts`: draws and repayments of a credit line go
into a buffer, and three rules read the buffer at every event. The buffer forgets
what is older than twice the widest window and keeps a bounded number of events,
draws and repayments together. An instant that no date holds makes a rule throw
when it writes its evidence.
-/
namespace Creditra.AnomalyRules
open FloatNumbers IsoDates SlidingBuffers StellarDiagnostics

inductive ActivityKind where
  | draw | repay
  deriving DecidableEq

structure ActivityEvent where
  kind : ActivityKind
  creditLineId : String
  walletAddress : String
  amount : String
  occurredAtMs : ℤ
  correlationId : Option String
  deriving DecidableEq

/-- The thresholds of a rule about draws. -/
structure DrawThresholds where
  minCount : ℕ
  windowSeconds : ℕ
  deriving DecidableEq

structure RepayThresholds where
  minCycles : ℕ
  pairWindowSeconds : ℕ
  patternWindowSeconds : ℕ
  amountToleranceRatio : Value
  deriving DecidableEq

structure AnomalyDetectionConfig where
  enabled : Bool
  rapidSuccessiveDraws : DrawThresholds
  drawBurst : DrawThresholds
  unusualRepayPattern : RepayThresholds
  signalCooldownSeconds : ℕ
  maxActivityEventsPerLine : ℕ

def DEFAULT_ANOMALY_DETECTION_CONFIG : AnomalyDetectionConfig where
  enabled := true
  rapidSuccessiveDraws := ⟨3,300⟩
  drawBurst := ⟨5,60⟩
  unusualRepayPattern := ⟨2,120,600,.round (1 / 10)⟩
  signalCooldownSeconds := 300
  maxActivityEventsPerLine := 50

inductive RiskSignalType where
  | rapidSuccessiveDraws | drawBurst | unusualRepayPattern
  deriving DecidableEq

/-- The text of a type in the thresholds. -/
def RiskSignalType.text : RiskSignalType → String
  | .rapidSuccessiveDraws => "rapid_successive_draws"
  | .drawBurst => "draw_burst"
  | .unusualRepayPattern => "unusual_repay_pattern"

inductive RiskSignalRuleId where
  | rapidSuccessiveDraws | drawBurst | unusualRepayPattern
  deriving DecidableEq

inductive RiskSignalSeverity where
  | low | medium | high
  deriving DecidableEq

inductive Thresholds where
  | draws (thresholds : DrawThresholds) (rule : String)
  | cycles (thresholds : RepayThresholds) (rule : String)
  deriving DecidableEq

structure Cycle where
  drawAmount : String
  repayAmount : String
  drawAt : String
  repayAt : String
  deltaSeconds : ℤ
  deriving DecidableEq

inductive Evidence where
  | draws (correlationId : String) (drawCount : ℕ) (windowStartIso windowEndIso : String)
      (amounts occurredAt : List String)
  | cycles (correlationId : String) (cycleCount : ℕ) (cycles : List Cycle)
      (windowStartIso windowEndIso : String)
  deriving DecidableEq

structure FiredRule where
  signalType : RiskSignalType
  ruleId : RiskSignalRuleId
  severity : RiskSignalSeverity
  thresholds : Thresholds
  evidence : Evidence
  deriving DecidableEq

/-! ## The rules -/

/-- `new Date(t).toISOString()`. -/
def iso (t : ℤ) : Except Thrown String :=
  match dateText t with
  | some text => .ok text
  | none => .error ⟨"RangeError","Invalid time value"⟩

/-- A rule about draws: enough of them in the window that ends at the latest event. -/
def ruleDraws (signalType : RiskSignalType) (ruleId : RiskSignalRuleId)
    (severity : RiskSignalSeverity) (thresholds : DrawThresholds) (events : List ActivityEvent)
    (correlationId : String) : Except Thrown (Option FiredRule) :=
  match events.getLast? with
  | none => .ok none
  | some latest =>
      if latest.kind ≠ .draw then .ok none
      else
        let windowStart := latest.occurredAtMs - thresholds.windowSeconds * 1000
        let draws := events.filter fun e => e.kind = .draw ∧ windowStart ≤ e.occurredAtMs
        if draws.length < thresholds.minCount then .ok none
        else do
          let windowStartIso ← iso windowStart
          let windowEndIso ← iso latest.occurredAtMs
          let occurredAt ← draws.mapM fun d => iso d.occurredAtMs
          .ok (some
            { signalType := signalType
              ruleId := ruleId
              severity := severity
              thresholds := .draws thresholds signalType.text
              evidence := .draws correlationId draws.length windowStartIso windowEndIso
                (draws.map ActivityEvent.amount) occurredAt })

def ruleRapidSuccessiveDraws (config : AnomalyDetectionConfig) (events : List ActivityEvent)
    (correlationId : String) : Except Thrown (Option FiredRule) :=
  ruleDraws .rapidSuccessiveDraws .rapidSuccessiveDraws .medium config.rapidSuccessiveDraws events
    correlationId

def ruleDrawBurst (config : AnomalyDetectionConfig) (events : List ActivityEvent)
    (correlationId : String) : Except Thrown (Option FiredRule) :=
  ruleDraws .drawBurst .drawBurst .high config.drawBurst events correlationId

def absolute (x : Value) : Value := if x.negative then x.neg else x

def amountsWithinTolerance (drawAmount repayAmount : String) (toleranceRatio : Value) : Bool :=
  let d := parseFloat drawAmount
  let r := parseFloat repayAmount
  if d.isFinite = false ∨ r.isFinite = false ∨ d.isZero = true then false
  else ((absolute (d.sub r)).div (absolute d)).le toleranceRatio

/-- Draws that are not paired yet, newest first, and the cycles found so far. -/
structure Pairing where
  unpairedDraws : List ActivityEvent
  cycles : List Cycle

/-- A repayment is paired with the newest draw that suits it. -/
def suits (thresholds : RepayThresholds) (e draw : ActivityEvent) : Bool :=
  let delta := e.occurredAtMs - draw.occurredAtMs
  0 ≤ delta ∧ delta ≤ thresholds.pairWindowSeconds * 1000 ∧
    amountsWithinTolerance draw.amount e.amount thresholds.amountToleranceRatio = true

def pairEvent (thresholds : RepayThresholds) (pairing : Pairing) (e : ActivityEvent) :
    Except Thrown Pairing :=
  match e.kind with
  | .draw => .ok { pairing with unpairedDraws := e :: pairing.unpairedDraws }
  | .repay => match pairing.unpairedDraws.find? (suits thresholds e) with
      | none => .ok pairing
      | some draw => do
          let drawAt ← iso draw.occurredAtMs
          let repayAt ← iso e.occurredAtMs
          .ok ⟨pairing.unpairedDraws.eraseP (suits thresholds e),pairing.cycles ++
            [⟨draw.amount,e.amount,drawAt,repayAt,
              (e.occurredAtMs - draw.occurredAtMs + 500) / 1000⟩]⟩

def ruleUnusualRepayPattern (config : AnomalyDetectionConfig) (events : List ActivityEvent)
    (correlationId : String) : Except Thrown (Option FiredRule) :=
  let thresholds := config.unusualRepayPattern
  match events.getLast? with
  | none => .ok none
  | some latest =>
      if latest.kind ≠ .repay then .ok none
      else do
        let windowStart := latest.occurredAtMs - thresholds.patternWindowSeconds * 1000
        let recent := events.filter fun e => windowStart ≤ e.occurredAtMs
        let pairing ← recent.foldlM (pairEvent thresholds) ⟨[],[]⟩
        if pairing.cycles.length < thresholds.minCycles then .ok none
        else do
          let windowStartIso ← iso windowStart
          let windowEndIso ← iso latest.occurredAtMs
          .ok (some
            { signalType := .unusualRepayPattern
              ruleId := .unusualRepayPattern
              severity := .high
              thresholds := .cycles thresholds RiskSignalType.unusualRepayPattern.text
              evidence := .cycles correlationId pairing.cycles.length pairing.cycles
                windowStartIso windowEndIso })

/-- The rules on the activity of a line. -/
def evaluateRules (config : AnomalyDetectionConfig) (events : List ActivityEvent)
    (correlationId : String) : Except Thrown (List FiredRule) :=
  if events.length = 0 then .ok []
  else do
    let rapid ← ruleRapidSuccessiveDraws config events correlationId
    let burst ← ruleDrawBurst config events correlationId
    let repay ← ruleUnusualRepayPattern config events correlationId
    .ok (rapid.toList ++ burst.toList ++ repay.toList)

/-! ## The buffers -/

/-- The activity of each line, newest last. -/
abbrev Activity : Type := String → List ActivityEvent

def maxWindowSec (config : AnomalyDetectionConfig) : ℕ :=
  max (max config.rapidSuccessiveDraws.windowSeconds config.drawBurst.windowSeconds)
    config.unusualRepayPattern.patternWindowSeconds

def pushActivity (config : AnomalyDetectionConfig) (activity : Activity) (event : ActivityEvent) :
    Activity :=
  let list := activity event.creditLineId ++ [event]
  let cutoff := event.occurredAtMs - maxWindowSec config * 1000 * 2
  let trimmed := list.filter fun e => cutoff ≤ e.occurredAtMs
  let max := config.maxActivityEventsPerLine
  Function.update activity event.creditLineId
    (if max < trimmed.length then trimmed.drop (trimmed.length - max) else trimmed)

/-- A call of `observe`, with the identifier drawn for it. -/
structure Call where
  event : ActivityEvent
  drawnId : String

def Call.correlationId (call : Call) : String := call.event.correlationId.getD call.drawnId

def Call.normalized (call : Call) : ActivityEvent :=
  { call.event with correlationId := some call.correlationId }

/-- The part of `observe` before its first pause: the activity it leaves behind,
and the rules it fires or the error it throws. -/
def observe (config : AnomalyDetectionConfig) (activity : Activity) (call : Call) :
    Activity × Except Thrown (List FiredRule) :=
  if config.enabled then
    let pushed := pushActivity config activity call.normalized
    (pushed,evaluateRules config (pushed call.event.creditLineId) call.correlationId)
  else (activity,.ok [])

/-- The activity after a sequence of events. -/
def recorded (config : AnomalyDetectionConfig) (events : List ActivityEvent) : Activity :=
  events.foldl (pushActivity config) fun _ => []

/-- The activity after a sequence of calls. -/
def observed (config : AnomalyDetectionConfig) (calls : List Call) : Activity :=
  calls.foldl (fun activity call => (observe config activity call).1) fun _ => []

/-- All the events of a line. -/
def historyOf (line : String) (events : List ActivityEvent) : List ActivityEvent :=
  events.filter fun e => e.creditLineId = line

theorem pushActivity_same (config : AnomalyDetectionConfig) (activity : Activity)
    (event : ActivityEvent) :
    pushActivity config activity event event.creditLineId =
      push ActivityEvent.occurredAtMs (maxWindowSec config * 1000 * 2)
        config.maxActivityEventsPerLine (activity event.creditLineId) event := by
  unfold pushActivity push since
  simp only [Function.update_self]
  split
  · rfl
  · rename_i hshort
    rw [rtake_of_length_le (Nat.le_of_not_lt hshort)]

theorem pushActivity_other (config : AnomalyDetectionConfig) (activity : Activity)
    {event : ActivityEvent} {line : String} (h : line ≠ event.creditLineId) :
    pushActivity config activity event line = activity line :=
  Function.update_of_ne h ..

theorem historyOf_append (line : String) (events more : List ActivityEvent) :
    historyOf line (events ++ more) = historyOf line events ++ historyOf line more :=
  List.filter_append ..

/-- The buffer of a line depends on the events of that line alone. -/
theorem recorded_line (config : AnomalyDetectionConfig) (events : List ActivityEvent)
    (line : String) :
    recorded config events line =
      pushAll ActivityEvent.occurredAtMs (maxWindowSec config * 1000 * 2)
        config.maxActivityEventsPerLine (historyOf line events) := by
  induction events using List.reverseRecOn with
  | nil => rfl
  | append_singleton events event ih =>
      have hstep : recorded config (events ++ [event]) =
          pushActivity config (recorded config events) event := List.foldl_concat ..
      rw [hstep,historyOf_append]
      by_cases hline : line = event.creditLineId
      · have hone : historyOf line [event] = [event] :=
          List.filter_cons_of_pos (decide_eq_true hline.symm)
        have hpush : ∀ items : List ActivityEvent,
            pushAll ActivityEvent.occurredAtMs (maxWindowSec config * 1000 * 2)
                config.maxActivityEventsPerLine (items ++ [event]) =
              push ActivityEvent.occurredAtMs (maxWindowSec config * 1000 * 2)
                config.maxActivityEventsPerLine
                (pushAll ActivityEvent.occurredAtMs (maxWindowSec config * 1000 * 2)
                  config.maxActivityEventsPerLine items) event :=
          fun items => List.foldl_concat ..
        rw [hone,hpush,← ih,hline,pushActivity_same]
      · have hnone : historyOf line [event] = [] :=
          List.filter_cons_of_neg (by rw [decide_eq_true_eq]; exact fun h => hline h.symm)
        rw [hnone,List.append_nil,pushActivity_other config _ hline,ih]

/-! ## Trimming is not seen -/

/-- The length of the widest window. -/
def widestMs (config : AnomalyDetectionConfig) : ℤ := maxWindowSec config * 1000

theorem ruleDraws_congr {signalType : RiskSignalType} {ruleId : RiskSignalRuleId}
    {severity : RiskSignalSeverity} (thresholds : DrawThresholds)
    {events events' : List ActivityEvent} {latest : ActivityEvent}
    (hlast : events.getLast? = some latest) (hlast' : events'.getLast? = some latest)
    (hdraws : (events.filter fun e => e.kind = .draw ∧
        latest.occurredAtMs - thresholds.windowSeconds * 1000 ≤ e.occurredAtMs) =
      events'.filter fun e => e.kind = .draw ∧
        latest.occurredAtMs - thresholds.windowSeconds * 1000 ≤ e.occurredAtMs)
    (correlationId : String) :
    ruleDraws signalType ruleId severity thresholds events correlationId =
      ruleDraws signalType ruleId severity thresholds events' correlationId := by
  unfold ruleDraws
  rw [hlast,hlast']
  simp only [hdraws]

theorem ruleUnusualRepayPattern_congr {config : AnomalyDetectionConfig}
    {events events' : List ActivityEvent} {latest : ActivityEvent}
    (hlast : events.getLast? = some latest) (hlast' : events'.getLast? = some latest)
    (hrecent : (events.filter fun e =>
        latest.occurredAtMs - config.unusualRepayPattern.patternWindowSeconds * 1000 ≤
          e.occurredAtMs) =
      events'.filter fun e =>
        latest.occurredAtMs - config.unusualRepayPattern.patternWindowSeconds * 1000 ≤
          e.occurredAtMs) (correlationId : String) :
    ruleUnusualRepayPattern config events correlationId =
      ruleUnusualRepayPattern config events' correlationId := by
  unfold ruleUnusualRepayPattern
  rw [hlast,hlast']
  simp only [hrecent]

theorem window_le (config : AnomalyDetectionConfig) :
    config.rapidSuccessiveDraws.windowSeconds * 1000 ≤ widestMs config ∧
    config.drawBurst.windowSeconds * 1000 ≤ widestMs config ∧
    config.unusualRepayPattern.patternWindowSeconds * 1000 ≤ widestMs config := by
  unfold widestMs maxWindowSec
  omega

/-- The rules look at the latest event and at the events of the widest window. -/
theorem evaluateRules_congr {config : AnomalyDetectionConfig} {events events' : List ActivityEvent}
    {latest : ActivityEvent} (hlast : events.getLast? = some latest)
    (hlast' : events'.getLast? = some latest)
    (h : ∀ p : ActivityEvent → Bool,
      (∀ e, p e = true → latest.occurredAtMs - widestMs config ≤ e.occurredAtMs) →
        events.filter p = events'.filter p) (correlationId : String) :
    evaluateRules config events correlationId = evaluateRules config events' correlationId := by
  obtain ⟨hrapid,hburst,hrepay⟩ := window_le config
  have hlength : events.length ≠ 0 := by
    intro hzero
    rw [List.length_eq_zero_iff.mp hzero] at hlast
    cases hlast
  have hlength' : events'.length ≠ 0 := by
    intro hzero
    rw [List.length_eq_zero_iff.mp hzero] at hlast'
    cases hlast'
  unfold evaluateRules ruleRapidSuccessiveDraws ruleDrawBurst
  rw [if_neg hlength,if_neg hlength',
    ruleDraws_congr config.rapidSuccessiveDraws hlast hlast' (h _ ?_),
    ruleDraws_congr config.drawBurst hlast hlast' (h _ ?_),
    ruleUnusualRepayPattern_congr hlast hlast' (h _ ?_)]
  · intro e he
    rw [decide_eq_true_eq] at he
    omega
  · intro e he
    rw [decide_eq_true_eq] at he
    omega
  · intro e he
    rw [decide_eq_true_eq] at he
    omega

/-- No interval as long as the widest window holds more events than are kept. -/
def Sparse (config : AnomalyDetectionConfig) (history : List ActivityEvent) : Prop :=
  ∀ start : ℤ, (history.filter fun e => start ≤ e.occurredAtMs ∧
    e.occurredAtMs ≤ start + widestMs config).length ≤ config.maxActivityEventsPerLine

theorem sparse_of_sublist {config : AnomalyDetectionConfig} {history events : List ActivityEvent}
    (h : Sparse config history) (hsub : events.Sublist history) : Sparse config events := by
  intro start
  exact (hsub.filter _).length_le.trans (h start)

theorem length_since_of_sparse {config : AnomalyDetectionConfig} {events : List ActivityEvent}
    {latest : ActivityEvent} (hsparse : Sparse config (events ++ [latest]))
    (hchronological : Chronological ActivityEvent.occurredAtMs (events ++ [latest])) :
    (since ActivityEvent.occurredAtMs (latest.occurredAtMs - widestMs config)
      (events ++ [latest])).length ≤ config.maxActivityEventsPerLine := by
  apply le_trans (le_of_eq _) (hsparse (latest.occurredAtMs - widestMs config))
  apply congrArg List.length
  apply List.filter_congr
  intro e he
  have hlast : e.occurredAtMs ≤ latest.occurredAtMs := by
    cases List.mem_append.mp he with
    | inl hearlier => exact hchronological.le_last hearlier
    | inr heq => rw [List.mem_singleton.mp heq]
  rw [decide_eq_decide]
  omega

theorem evaluateRules_pushAll {config : AnomalyDetectionConfig} {events : List ActivityEvent}
    {latest : ActivityEvent} (hsparse : Sparse config (events ++ [latest]))
    (hchronological : Chronological ActivityEvent.occurredAtMs (events ++ [latest]))
    (correlationId : String) :
    evaluateRules config (pushAll ActivityEvent.occurredAtMs (maxWindowSec config * 1000 * 2)
        config.maxActivityEventsPerLine (events ++ [latest])) correlationId =
      evaluateRules config (events ++ [latest]) correlationId := by
  have hwindow := length_since_of_sparse hsparse hchronological
  have hage : widestMs config ≤ maxWindowSec config * 1000 * 2 := by
    unfold widestMs
    omega
  have hcap : 0 < config.maxActivityEventsPerLine := by
    apply lt_of_lt_of_le (List.length_pos_of_mem _) hwindow
    · exact latest
    · rw [since,List.mem_filter,decide_eq_true_eq]
      refine ⟨List.mem_append_right _ List.mem_cons_self,?_⟩
      unfold widestMs
      omega
  apply evaluateRules_congr
    (getLast?_pushAll hchronological (by omega) hcap) List.getLast?_concat
  intro p hp
  exact filter_pushAll_of_sparse hchronological hage hwindow hp

theorem observed_enabled {config : AnomalyDetectionConfig} (h : config.enabled = true)
    (calls : List Call) : observed config calls = recorded config (calls.map Call.normalized) := by
  have hstep : (fun activity call => (observe config activity call).1) =
      fun activity call => pushActivity config activity call.normalized := by
    funext activity call
    rw [observe,if_pos h]
  rw [observed,recorded,List.foldl_map,hstep]

/-- Where events are sparse, `observe` fires at every event what the rules give
on the whole history, evidence included. -/
theorem trimming_unseen (config : AnomalyDetectionConfig) (calls : List Call) (line : String)
    (hchronological : Chronological ActivityEvent.occurredAtMs
      (historyOf line (calls.map Call.normalized)))
    (hsparse : Sparse config (historyOf line (calls.map Call.normalized)))
    {earlier later : List Call} {call : Call} (hcalls : calls = earlier ++ call :: later)
    (hline : call.event.creditLineId = line) :
    (observe config (observed config earlier) call).2 =
      if config.enabled then
        evaluateRules config (historyOf line ((earlier ++ [call]).map Call.normalized))
          call.correlationId
      else .ok [] := by
  by_cases henabled : config.enabled = true
  · rw [observe,if_pos henabled,if_pos henabled,observed_enabled henabled]
    have hstep : pushActivity config (recorded config (earlier.map Call.normalized))
        call.normalized = recorded config ((earlier ++ [call]).map Call.normalized) := by
      rw [List.map_append]
      exact (List.foldl_concat ..).symm
    have hlast : historyOf line ((earlier ++ [call]).map Call.normalized) =
        historyOf line (earlier.map Call.normalized) ++ [call.normalized] := by
      rw [List.map_append,historyOf_append]
      exact congrArg _ (List.filter_cons_of_pos (decide_eq_true hline))
    have hprefix : ∃ more, historyOf line (calls.map Call.normalized) =
        historyOf line ((earlier ++ [call]).map Call.normalized) ++ more := by
      refine ⟨historyOf line (later.map Call.normalized),?_⟩
      rw [← historyOf_append,← List.map_append,hcalls,List.append_assoc]
      rfl
    obtain ⟨more,hmore⟩ := hprefix
    rw [hmore,hlast] at hchronological hsparse
    simp only [hstep,recorded_line,hline]
    rw [hlast,evaluateRules_pushAll (sparse_of_sublist hsparse (List.sublist_append_left _ _))
      hchronological.left]
  · rw [observe,if_neg henabled,if_neg henabled]

def drawAt (occurredAtMs : ℤ) : ActivityEvent := ⟨.draw,"line-1","GA","100",occurredAtMs,none⟩

/-- Windows of one second, and one event kept. -/
def oneSecond : AnomalyDetectionConfig :=
  ⟨true,⟨1,1⟩,⟨1,1⟩,⟨1,1,1,.zero⟩,1,1⟩

theorem trimming_unseen_oneKept :
    (observe oneSecond (observed oneSecond [⟨drawAt 0,"corr-1"⟩]) ⟨drawAt 10000,"corr-2"⟩).2 =
      evaluateRules oneSecond (historyOf "line-1"
        ([⟨drawAt 0,"corr-1"⟩,⟨drawAt 10000,"corr-2"⟩].map Call.normalized)) "corr-2" := by
  have hchronological : Chronological ActivityEvent.occurredAtMs (historyOf "line-1"
      ([⟨drawAt 0,"corr-1"⟩,⟨drawAt 10000,"corr-2"⟩].map Call.normalized)) := by
    unfold Chronological
    decide
  have hsparse : Sparse oneSecond (historyOf "line-1"
      ([⟨drawAt 0,"corr-1"⟩,⟨drawAt 10000,"corr-2"⟩].map Call.normalized)) := by
    intro start
    have hwide : widestMs oneSecond = 1000 := rfl
    simp only [historyOf,Call.normalized,drawAt,List.map_cons,List.map_nil,List.filter_cons,
      decide_true,if_true,List.filter_nil,hwide,decide_eq_true_eq]
    split
    · rw [if_neg (by omega)]
      exact le_refl 1
    · split
      · exact le_refl 1
      · exact Nat.zero_le 1
  exact trimming_unseen oneSecond [⟨drawAt 0,"corr-1"⟩,⟨drawAt 10000,"corr-2"⟩] "line-1"
    hchronological hsparse rfl rfl

end Creditra.AnomalyRules
