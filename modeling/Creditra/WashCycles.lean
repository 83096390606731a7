import Creditra.AnomalyRules
import Creditra.GreedyPairing

/-!
# Detection of wash cycles

The rule `unusual_repay_pattern` counts draw and repay pairs in a window. It
gives each repayment the newest draw that suits it and is not paired yet. The
comparison of amounts is a parameter of the rule as it stands here; with that of
the runtime it is the rule of the service, and with exact rationals it is the
rule as the documentation states it.
-/
namespace Creditra.WashCycles
open AnomalyRules FloatNumbers GreedyPairing StellarDiagnostics

/-- The exact value of the decimal at the front of a text. -/
def exactAmount (text : String) : Option ℚ :=
  let (negative,cs) := signed (text.toList.dropWhile JsStrings.isWhiteSpace)
  (decimalAtFront negative cs).map exactValue

/-- `amountsWithinTolerance` without rounding. -/
def exactlyWithinTolerance (drawAmount repayAmount : String) (toleranceRatio : Value) : Bool :=
  match exactAmount drawAmount, exactAmount repayAmount with
  | some d, some r =>
      if d = 0 then false
      else match toleranceRatio with
        | .finite ratio => |d - r| / |d| ≤ ratio.1
        | .infinite negative => ! negative
        | .nan => false
  | _, _ => false

section Rule
variable (within : String → String → Value → Bool)

def suitsWith (thresholds : RepayThresholds) (e draw : ActivityEvent) : Bool :=
  let delta := e.occurredAtMs - draw.occurredAtMs
  0 ≤ delta ∧ delta ≤ thresholds.pairWindowSeconds * 1000 ∧
    within draw.amount e.amount thresholds.amountToleranceRatio = true

def pairEventWith (thresholds : RepayThresholds) (pairing : Pairing) (e : ActivityEvent) :
    Except Thrown Pairing :=
  match e.kind with
  | .draw => .ok { pairing with unpairedDraws := e :: pairing.unpairedDraws }
  | .repay => match pairing.unpairedDraws.find? (suitsWith within thresholds e) with
      | none => .ok pairing
      | some draw => do
          let drawAt ← iso draw.occurredAtMs
          let repayAt ← iso e.occurredAtMs
          .ok ⟨pairing.unpairedDraws.eraseP (suitsWith within thresholds e),pairing.cycles ++
            [⟨draw.amount,e.amount,drawAt,repayAt,
              (e.occurredAtMs - draw.occurredAtMs + 500) / 1000⟩]⟩

/-- The start of the window that ends at an event. -/
def windowStart (config : AnomalyDetectionConfig) (latest : ActivityEvent) : ℤ :=
  latest.occurredAtMs - config.unusualRepayPattern.patternWindowSeconds * 1000

/-- The events in the pattern window. -/
def recent (config : AnomalyDetectionConfig) (latest : ActivityEvent)
    (events : List ActivityEvent) : List ActivityEvent :=
  events.filter fun e => windowStart config latest ≤ e.occurredAtMs

def ruleUnusualRepayPatternWith (config : AnomalyDetectionConfig) (events : List ActivityEvent)
    (correlationId : String) : Except Thrown (Option FiredRule) :=
  let thresholds := config.unusualRepayPattern
  match events.getLast? with
  | none => .ok none
  | some latest =>
      if latest.kind ≠ .repay then .ok none
      else do
        let pairing ← (recent config latest events).foldlM (pairEventWith within thresholds) ⟨[],[]⟩
        if pairing.cycles.length < thresholds.minCycles then .ok none
        else do
          let windowStartIso ← iso (windowStart config latest)
          let windowEndIso ← iso latest.occurredAtMs
          .ok (some
            { signalType := .unusualRepayPattern
              ruleId := .unusualRepayPattern
              severity := .high
              thresholds := .cycles thresholds RiskSignalType.unusualRepayPattern.text
              evidence := .cycles correlationId pairing.cycles.length pairing.cycles
                windowStartIso windowEndIso })

/-- The rule of the service compares the runtime's numbers. -/
theorem ruleUnusualRepayPatternWith_floats :
    ruleUnusualRepayPatternWith amountsWithinTolerance = ruleUnusualRepayPattern := rfl

/-- The rule returns a signal. -/
def Fires (config : AnomalyDetectionConfig) (events : List ActivityEvent) (correlationId : String) :
    Prop :=
  ∃ fired, ruleUnusualRepayPatternWith within config events correlationId = .ok (some fired)

def isDraw (e : ActivityEvent) : Bool := e.kind = .draw

/-- An instant that a date can hold. -/
def Dated (t : ℤ) : Prop := ∃ text, iso t = .ok text

variable {within}

theorem pairEventWith_dated {thresholds : RepayThresholds} (events : List ActivityEvent)
    (pairing : Pairing) (hevents : ∀ e ∈ events, Dated e.occurredAtMs)
    (hdraws : ∀ d ∈ pairing.unpairedDraws, Dated d.occurredAtMs) :
    ∃ paired, events.foldlM (pairEventWith within thresholds) pairing = .ok paired ∧
      paired.cycles.length = pairing.cycles.length +
        newestFirst isDraw (suitsWith within thresholds) pairing.unpairedDraws events := by
  induction events generalizing pairing with
  | nil => exact ⟨pairing,rfl,rfl⟩
  | cons e events ih =>
      have hlater : ∀ e' ∈ events, Dated e'.occurredAtMs := fun e' he' =>
        hevents e' (List.mem_cons_of_mem e he')
      rw [List.foldlM_cons]
      unfold newestFirst pairEventWith
      cases hkind : e.kind with
      | draw =>
          rw [if_pos (by simp [isDraw,hkind])]
          apply ih _ hlater
          intro d hd
          rcases List.mem_cons.mp hd with rfl | hd
          · exact hevents d List.mem_cons_self
          · exact hdraws d hd
      | repay =>
          rw [if_neg (by simp [isDraw,hkind])]
          cases hfind : pairing.unpairedDraws.find? (suitsWith within thresholds e) with
          | none => exact ih pairing hlater hdraws
          | some draw =>
              obtain ⟨drawAt,hdrawAt⟩ := hdraws draw (List.mem_of_find?_eq_some hfind)
              obtain ⟨repayAt,hrepayAt⟩ := hevents e List.mem_cons_self
              obtain ⟨paired,hpaired,hlength⟩ := ih
                ⟨pairing.unpairedDraws.eraseP (suitsWith within thresholds e),pairing.cycles ++
                  [⟨draw.amount,e.amount,drawAt,repayAt,
                    (e.occurredAtMs - draw.occurredAtMs + 500) / 1000⟩]⟩ hlater
                fun d hd => hdraws d (List.mem_of_mem_eraseP hd)
              refine ⟨paired,?_,?_⟩
              · simp only [hdrawAt,hrepayAt,bind,Except.bind]
                exact hpaired
              · rw [hlength,List.length_append,List.length_singleton,Nat.add_right_comm]
                rfl

section Window
variable {config : AnomalyDetectionConfig} {events : List ActivityEvent} {latest : ActivityEvent}

/-- The pairs that the rule makes in its window. -/
theorem fires_iff (correlationId : String) (hlast : events.getLast? = some latest)
    (hrepay : latest.kind = .repay) (hevents : ∀ e ∈ events, Dated e.occurredAtMs)
    (hstart : Dated (windowStart config latest)) :
    Fires within config events correlationId ↔
      config.unusualRepayPattern.minCycles ≤
        newestFirst isDraw (suitsWith within config.unusualRepayPattern) []
          (recent config latest events) := by
  have hrecent : ∀ e ∈ recent config latest events, Dated e.occurredAtMs := fun e he =>
    hevents e (List.mem_of_mem_filter he)
  obtain ⟨paired,hpaired,hlength⟩ := @pairEventWith_dated within config.unusualRepayPattern
    (recent config latest events) ⟨[],[]⟩ hrecent (by simp)
  rw [List.length_nil,Nat.zero_add] at hlength
  obtain ⟨startIso,hstartIso⟩ := hstart
  obtain ⟨endIso,hendIso⟩ := hevents latest (List.mem_of_getLast? hlast)
  unfold Fires ruleUnusualRepayPatternWith
  simp only [hlast,hrepay,ne_eq,not_true_eq_false,if_false,hpaired,hstartIso,hendIso,bind,
    Except.bind]
  rw [← hlength]
  constructor
  · rintro ⟨fired,hfired⟩
    by_contra hless
    rw [if_pos (by omega)] at hfired
    cases hfired
  · intro hle
    rw [if_neg (by omega)]
    exact ⟨_,rfl⟩

/-- The rule fires when pairing each repayment in turn with the newest draw left that suits it
gives enough pairs. Then there are that many pairs without a common event; and it does fire when
there are twice as many less one, or, where no repayment has a choice of draws that matters later,
whenever there are that many. -/
theorem repay_pattern_fires (correlationId : String) (hlast : events.getLast? = some latest)
    (hrepay : latest.kind = .repay) (hevents : ∀ e ∈ events, Dated e.occurredAtMs)
    (hstart : Dated (windowStart config latest)) :
    (Fires exactlyWithinTolerance config events correlationId ↔
      config.unusualRepayPattern.minCycles ≤
        newestFirst isDraw (suitsWith exactlyWithinTolerance config.unusualRepayPattern) []
          (recent config latest events)) ∧
    (Fires exactlyWithinTolerance config events correlationId → ∃ pairs,
      Pairs isDraw (suitsWith exactlyWithinTolerance config.unusualRepayPattern)
        (recent config latest events) pairs ∧
      config.unusualRepayPattern.minCycles ≤ pairs.length) ∧
    (∀ pairs, Pairs isDraw (suitsWith exactlyWithinTolerance config.unusualRepayPattern)
        (recent config latest events) pairs →
      2 * config.unusualRepayPattern.minCycles - 1 ≤ pairs.length →
        Fires exactlyWithinTolerance config events correlationId) ∧
    (Nested isDraw (suitsWith exactlyWithinTolerance config.unusualRepayPattern)
        (recent config latest events) →
      (Fires exactlyWithinTolerance config events correlationId ↔ ∃ pairs,
        Pairs isDraw (suitsWith exactlyWithinTolerance config.unusualRepayPattern)
          (recent config latest events) pairs ∧
        config.unusualRepayPattern.minCycles ≤ pairs.length)) := by
  have hfires : Fires exactlyWithinTolerance config events correlationId ↔
      config.unusualRepayPattern.minCycles ≤
        newestFirst isDraw (suitsWith exactlyWithinTolerance config.unusualRepayPattern) []
          (recent config latest events) := fires_iff correlationId hlast hrepay hevents hstart
  have hsound : Fires exactlyWithinTolerance config events correlationId → ∃ pairs,
      Pairs isDraw (suitsWith exactlyWithinTolerance config.unusualRepayPattern)
        (recent config latest events) pairs ∧
      config.unusualRepayPattern.minCycles ≤ pairs.length := by
    intro h
    obtain ⟨pairs,hpairs,hlength⟩ := pairable_iff.mp (newestFirst_pairable []
      (recent config latest events))
    exact ⟨pairs,hpairs,hlength ▸ hfires.mp h⟩
  refine ⟨hfires,hsound,?_,?_⟩
  · intro pairs hpairs hmany
    have hhalf := le_two_mul_newestFirst (pairable_iff.mpr ⟨pairs,hpairs,rfl⟩)
    rw [hfires]
    omega
  · intro hnested
    refine ⟨hsound,?_⟩
    rintro ⟨pairs,hpairs,hmany⟩
    rw [hfires]
    exact Nat.le_trans hmany
      (le_newestFirst hnested (pairable_iff.mpr ⟨pairs,hpairs,rfl⟩))

end Window

end Rule

def drawOf (amount : String) (occurredAtMs : ℤ) : ActivityEvent :=
  ⟨.draw,"line","wallet",amount,occurredAtMs,none⟩

def repayOf (amount : String) (occurredAtMs : ℤ) : ActivityEvent :=
  ⟨.repay,"line","wallet",amount,occurredAtMs,none⟩

/-- Two draws, each repaid before the next event. -/
def separate : List ActivityEvent :=
  [drawOf "100" 1000,repayOf "100" 11000,drawOf "90" 21000,repayOf "95" 31000]

theorem separate_cycles_fire :
    Fires exactlyWithinTolerance DEFAULT_ANOMALY_DETECTION_CONFIG separate "c" := by
  have hdated : ∀ t ∈ [1000,11000,21000,31000,-569000], Dated t := by
    intro t ht
    simp only [List.mem_cons,List.not_mem_nil,or_false] at ht
    rcases ht with rfl | rfl | rfl | rfl | rfl <;> exact ⟨_,rfl⟩
  have hevents : ∀ e ∈ separate, Dated e.occurredAtMs := by
    intro e he
    apply hdated
    simp only [separate,List.mem_cons,List.not_mem_nil,or_false] at he
    rcases he with rfl | rfl | rfl | rfl <;> decide
  have hlast : separate.getLast? = some (repayOf "95" 31000) := rfl
  exact (repay_pattern_fires "c" hlast rfl hevents (hdated _ (by decide))).1.mpr
    (by decide +kernel)

/-- Two draws, each repaid in full within the pair window and in the order of the draws. -/
def overlapping : List ActivityEvent :=
  [drawOf "100" 0,drawOf "100" 60000,repayOf "100" 90000,repayOf "100" 150000]

/-- The first repayment takes the second draw, and the first draw is too old for the second. -/
theorem overlapping_cycles_missed :
    overlapping.Pairwise (fun e e' => e.occurredAtMs ≤ e'.occurredAtMs) ∧
    overlapping.getLast? = some (repayOf "100" 150000) ∧
    ¬ (Fires exactlyWithinTolerance DEFAULT_ANOMALY_DETECTION_CONFIG overlapping "c" ↔
      ∃ pairs, Pairs isDraw (suitsWith exactlyWithinTolerance
          DEFAULT_ANOMALY_DETECTION_CONFIG.unusualRepayPattern)
        (recent DEFAULT_ANOMALY_DETECTION_CONFIG (repayOf "100" 150000) overlapping) pairs ∧
        DEFAULT_ANOMALY_DETECTION_CONFIG.unusualRepayPattern.minCycles ≤ pairs.length) := by
  have hquiet : (ruleUnusualRepayPatternWith exactlyWithinTolerance
      DEFAULT_ANOMALY_DETECTION_CONFIG overlapping "c").toOption = some none := by
    decide +kernel
  have hfits : ∀ e ∈ [repayOf "100" 90000,repayOf "100" 150000],
      suitsWith exactlyWithinTolerance DEFAULT_ANOMALY_DETECTION_CONFIG.unusualRepayPattern e
        (drawOf "100" (e.occurredAtMs - 90000)) = true := by
    decide +kernel
  refine ⟨by decide,rfl,?_⟩
  intro h
  have hpairs : Pairs isDraw (suitsWith exactlyWithinTolerance
      DEFAULT_ANOMALY_DETECTION_CONFIG.unusualRepayPattern)
      (recent DEFAULT_ANOMALY_DETECTION_CONFIG (repayOf "100" 150000) overlapping)
      [(0,2),(1,3)] := by
    refine ⟨by decide,by decide,?_⟩
    intro p hp
    rcases List.mem_cons.mp hp with rfl | hp
    · exact ⟨by decide,_,_,rfl,rfl,rfl,rfl,hfits _ List.mem_cons_self⟩
    · rw [List.mem_singleton.mp hp]
      exact ⟨by decide,_,_,rfl,rfl,rfl,rfl,hfits _ (List.mem_cons_of_mem _ List.mem_cons_self)⟩
  obtain ⟨fired,hfired⟩ := h.mpr ⟨_,hpairs,by decide⟩
  rw [hfired] at hquiet
  cases hquiet

end Creditra.WashCycles
