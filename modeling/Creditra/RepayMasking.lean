import Creditra.AnomalyRules

/-!
# Repayments that mask draws

The two rules about draws count the draws in a window, but the buffer they read
keeps a bounded number of events of both kinds. Here is what they see at a draw:
the draws of the window among the newest events that the cap leaves. Repayments
take the places of draws there, and enough of them silence the rules.
-/
namespace Creditra.RepayMasking
open AnomalyRules IsoDates SlidingBuffers StellarDiagnostics

inductive DrawRule where
  | rapidSuccessiveDraws | drawBurst
  deriving DecidableEq

namespace DrawRule

def thresholds (config : AnomalyDetectionConfig) : DrawRule → DrawThresholds
  | .rapidSuccessiveDraws => config.rapidSuccessiveDraws
  | .drawBurst => config.drawBurst

def ruleId : DrawRule → RiskSignalRuleId
  | .rapidSuccessiveDraws => .rapidSuccessiveDraws
  | .drawBurst => .drawBurst

def evaluate (config : AnomalyDetectionConfig) (events : List ActivityEvent)
    (correlationId : String) : DrawRule → Except Thrown (Option FiredRule)
  | .rapidSuccessiveDraws => ruleRapidSuccessiveDraws config events correlationId
  | .drawBurst => ruleDrawBurst config events correlationId

/-- The start of the window that ends at an event. -/
def windowStart (config : AnomalyDetectionConfig) (latest : ActivityEvent) (rule : DrawRule) : ℤ :=
  latest.occurredAtMs - (rule.thresholds config).windowSeconds * 1000

/-- The draws of that window. -/
def windowDraws (config : AnomalyDetectionConfig) (latest : ActivityEvent)
    (events : List ActivityEvent) (rule : DrawRule) : List ActivityEvent :=
  events.filter fun e => e.kind = .draw ∧ rule.windowStart config latest ≤ e.occurredAtMs

end DrawRule

/-- A chronological sequence of events of a line that ends in a draw; other lines
may have events in between. -/
structure EndsInDraw (line : String) (events : List ActivityEvent) (latest : ActivityEvent) :
    Prop where
  chronological : Chronological ActivityEvent.occurredAtMs (historyOf line events)
  last : (historyOf line events).getLast? = some latest
  draw : latest.kind = .draw

/-- A rule fires at the last event of a sequence; none does while the detection is switched
off. -/
def Fires (config : AnomalyDetectionConfig) (line : String) (events : List ActivityEvent)
    (correlationId : String) (rule : DrawRule) : Prop :=
  config.enabled = true ∧
  ∃ fired, evaluateRules config (recorded config events line) correlationId = .ok fired ∧
    ∃ r ∈ fired, r.ruleId = rule.ruleId

/-- A rule fires exactly when the whole history has enough draws in the window. -/
def FiresAsCounted (config : AnomalyDetectionConfig) (line : String) (events : List ActivityEvent)
    (latest : ActivityEvent) (correlationId : String) : Prop :=
  ∀ rule : DrawRule, Fires config line events correlationId rule ↔
    (rule.thresholds config).minCount ≤
      (rule.windowDraws config latest (historyOf line events)).length

/-- Two sequences fire the same rules, each as its own draws say. -/
def Unmasked (config : AnomalyDetectionConfig) (line : String) (events events' : List ActivityEvent)
    (latest : ActivityEvent) (correlationId : String) : Prop :=
  (∀ rule : DrawRule, Fires config line events correlationId rule ↔
    Fires config line events' correlationId rule) ∧
  FiresAsCounted config line events latest correlationId ∧
  FiresAsCounted config line events' latest correlationId

/-- Where the window has enough draws, the detection is switched on, enough of them are
among the newest events that are kept, and both ends of the window are dates. -/
def DrawsKept (config : AnomalyDetectionConfig) (line : String) (events : List ActivityEvent)
    (latest : ActivityEvent) : Prop :=
  ∀ rule : DrawRule, (rule.thresholds config).minCount ≤
      (rule.windowDraws config latest (historyOf line events)).length →
    config.enabled = true ∧ 0 < config.maxActivityEventsPerLine ∧
    (rule.thresholds config).minCount ≤ (rule.windowDraws config latest
      ((historyOf line events).rtake config.maxActivityEventsPerLine)).length ∧
    ValidTime (rule.windowStart config latest) ∧ ValidTime latest.occurredAtMs

/-- What fires is what a call of `observe` fires, after the calls before it. -/
theorem fires_iff_observe (config : AnomalyDetectionConfig) (earlier : List Call) (call : Call)
    (rule : DrawRule) :
    Fires config call.event.creditLineId ((earlier ++ [call]).map Call.normalized)
        call.correlationId rule ↔
      ∃ fired, (observe config (observed config earlier) call).2 = .ok fired ∧
        ∃ r ∈ fired, r.ruleId = rule.ruleId := by
  unfold Fires
  by_cases henabled : config.enabled = true
  · have hlast : recorded config ((earlier ++ [call]).map Call.normalized) =
        pushActivity config (recorded config (earlier.map Call.normalized)) call.normalized := by
      rw [List.map_append]
      exact List.foldl_concat ..
    rw [observe,if_pos henabled,observed_enabled henabled,hlast]
    exact and_iff_right henabled
  · rw [observe,if_neg henabled]
    constructor
    · rintro ⟨hon,-⟩
      exact absurd hon henabled
    · rintro ⟨fired,hfired,r,hr,-⟩
      rw [← Except.ok.inj hfired] at hr
      cases hr

/-! ## One rule at a draw -/

theorem iso_of_valid {t : ℤ} (h : ValidTime t) : iso t = .ok (toISOString t) := by
  rw [iso,dateText,if_pos h]

theorem valid_of_iso {t : ℤ} {text : String} (h : iso t = .ok text) : ValidTime t := by
  by_contra hinvalid
  rw [iso,dateText,if_neg hinvalid] at h
  cases h

/-- A chain of steps that succeeds has succeeded at its first step. -/
theorem ok_of_bind {α β : Type} {x : Except Thrown α} {f : α → Except Thrown β} {b : β}
    (h : x >>= f = .ok b) : ∃ a, x = .ok a ∧ f a = .ok b := by
  cases x with
  | error e => cases h
  | ok a => exact ⟨a,rfl,h⟩

theorem mapM_iso {events : List ActivityEvent} (h : ∀ e ∈ events, ValidTime e.occurredAtMs) :
    (events.mapM fun e => iso e.occurredAtMs) =
      .ok (events.map fun e => toISOString e.occurredAtMs) := by
  induction events with
  | nil => rfl
  | cons e events ih =>
      rw [List.mapM_cons,iso_of_valid (h e List.mem_cons_self),
        ih fun d hd => h d (List.mem_cons_of_mem e hd)]
      rfl

section Rules
variable {events : List ActivityEvent} {latest : ActivityEvent}

/-- What a rule needs to fire at a draw. -/
structure Ready (thresholds : DrawThresholds) (latest : ActivityEvent)
    (events : List ActivityEvent) : Prop where
  enough : thresholds.minCount ≤ (events.filter fun e => e.kind = .draw ∧
    latest.occurredAtMs - thresholds.windowSeconds * 1000 ≤ e.occurredAtMs).length
  startValid : ValidTime (latest.occurredAtMs - thresholds.windowSeconds * 1000)
  endValid : ValidTime latest.occurredAtMs

theorem ruleDraws_few {signalType : RiskSignalType} {ruleId : RiskSignalRuleId}
    {severity : RiskSignalSeverity} {thresholds : DrawThresholds}
    (hlast : events.getLast? = some latest) (hdraw : latest.kind = .draw) {correlationId : String}
    (h : (events.filter fun e => e.kind = .draw ∧
      latest.occurredAtMs - thresholds.windowSeconds * 1000 ≤ e.occurredAtMs).length <
        thresholds.minCount) :
    ruleDraws signalType ruleId severity thresholds events correlationId = .ok none := by
  rw [ruleDraws,hlast]
  simp only [hdraw,ne_eq,not_true_eq_false,if_false]
  exact if_pos h

theorem ruleDraws_ready {signalType : RiskSignalType} {ruleId : RiskSignalRuleId}
    {severity : RiskSignalSeverity} {thresholds : DrawThresholds}
    (hlast : events.getLast? = some latest) (hdraw : latest.kind = .draw)
    (hnewest : ∀ e ∈ events, e.occurredAtMs ≤ latest.occurredAtMs) {correlationId : String}
    (h : Ready thresholds latest events) :
    ∃ fired, ruleDraws signalType ruleId severity thresholds events correlationId =
      .ok (some fired) ∧ fired.ruleId = ruleId := by
  have hvalid : ∀ e ∈ events.filter fun e => e.kind = .draw ∧
      latest.occurredAtMs - thresholds.windowSeconds * 1000 ≤ e.occurredAtMs,
      ValidTime e.occurredAtMs := by
    intro e he
    rw [List.mem_filter,decide_eq_true_eq] at he
    have hle := hnewest e he.1
    have hstart := h.startValid
    have hend := h.endValid
    unfold ValidTime at hstart hend ⊢
    omega
  rw [ruleDraws,hlast]
  simp only [hdraw,ne_eq,not_true_eq_false,if_false,iso_of_valid h.startValid,
    iso_of_valid h.endValid,mapM_iso hvalid]
  rw [if_neg (Nat.not_lt.mpr h.enough)]
  exact ⟨_,rfl,rfl⟩

theorem ruleDraws_fired {signalType : RiskSignalType} {ruleId : RiskSignalRuleId}
    {severity : RiskSignalSeverity} {thresholds : DrawThresholds}
    (hlast : events.getLast? = some latest) (hdraw : latest.kind = .draw) {correlationId : String}
    {fired : FiredRule}
    (h : ruleDraws signalType ruleId severity thresholds events correlationId = .ok (some fired)) :
    Ready thresholds latest events ∧ fired.ruleId = ruleId := by
  by_cases hfew : (events.filter fun e => e.kind = .draw ∧
      latest.occurredAtMs - thresholds.windowSeconds * 1000 ≤ e.occurredAtMs).length <
        thresholds.minCount
  · rw [ruleDraws_few hlast hdraw hfew] at h
    cases h
  · rw [ruleDraws,hlast] at h
    simp only [hdraw,ne_eq,not_true_eq_false,if_false] at h
    rw [if_neg hfew] at h
    obtain ⟨windowStartIso,hstart,h⟩ := ok_of_bind h
    obtain ⟨windowEndIso,hend,h⟩ := ok_of_bind h
    obtain ⟨occurredAt,-,h⟩ := ok_of_bind h
    rw [Except.ok.injEq,Option.some.injEq] at h
    rw [← h]
    exact ⟨⟨Nat.not_lt.mp hfew,valid_of_iso hstart,valid_of_iso hend⟩,rfl⟩

end Rules

/-! ## Both rules at a draw -/

section Sequence
variable {config : AnomalyDetectionConfig} {events : List ActivityEvent} {latest : ActivityEvent}

theorem evaluateRules_draw (hlast : events.getLast? = some latest) (hdraw : latest.kind = .draw)
    (correlationId : String) :
    evaluateRules config events correlationId =
      (ruleRapidSuccessiveDraws config events correlationId).bind fun rapid =>
        (ruleDrawBurst config events correlationId).bind fun burst =>
          .ok (rapid.toList ++ burst.toList) := by
  have hlength : events.length ≠ 0 := by
    intro hzero
    rw [List.length_eq_zero_iff.mp hzero] at hlast
    cases hlast
  have hrepay : ruleUnusualRepayPattern config events correlationId = .ok none := by
    rw [ruleUnusualRepayPattern,hlast]
    simp only [hdraw]
    rfl
  rw [evaluateRules,if_neg hlength,hrepay]
  cases ruleRapidSuccessiveDraws config events correlationId with
  | error e => rfl
  | ok rapid =>
      cases ruleDrawBurst config events correlationId with
      | error e => rfl
      | ok burst =>
          change Except.ok (rapid.toList ++ burst.toList ++ []) = _
          rw [List.append_nil]
          rfl

theorem evaluate_few (hlast : events.getLast? = some latest) (hdraw : latest.kind = .draw)
    {correlationId : String} {rule : DrawRule}
    (h : (rule.windowDraws config latest events).length < (rule.thresholds config).minCount) :
    rule.evaluate config events correlationId = .ok none := by
  cases rule with
  | rapidSuccessiveDraws => exact ruleDraws_few hlast hdraw h
  | drawBurst => exact ruleDraws_few hlast hdraw h

theorem evaluate_ready (hlast : events.getLast? = some latest) (hdraw : latest.kind = .draw)
    (hnewest : ∀ e ∈ events, e.occurredAtMs ≤ latest.occurredAtMs) (correlationId : String)
    {rule : DrawRule} (h : Ready (rule.thresholds config) latest events) :
    ∃ fired, rule.evaluate config events correlationId = .ok (some fired) ∧
      fired.ruleId = rule.ruleId := by
  cases rule with
  | rapidSuccessiveDraws => exact ruleDraws_ready hlast hdraw hnewest h
  | drawBurst => exact ruleDraws_ready hlast hdraw hnewest h

/-- A rule that fires was ready. -/
theorem ready_of_mem (hlast : events.getLast? = some latest) (hdraw : latest.kind = .draw)
    {correlationId : String} {fired : List FiredRule}
    (h : evaluateRules config events correlationId = .ok fired) {rule : DrawRule} {r : FiredRule}
    (hr : r ∈ fired) (hid : r.ruleId = rule.ruleId) :
    Ready (rule.thresholds config) latest events := by
  rw [evaluateRules_draw hlast hdraw] at h
  obtain ⟨rapid,hrapid,h⟩ := ok_of_bind h
  obtain ⟨burst,hburst,h⟩ := ok_of_bind h
  rw [Except.ok.injEq] at h
  rw [← h,List.mem_append,Option.mem_toList,Option.mem_toList] at hr
  cases hr with
  | inl heq =>
      rw [heq] at hrapid
      obtain ⟨hready,hrapidId⟩ := ruleDraws_fired hlast hdraw hrapid
      rw [hrapidId] at hid
      cases rule with
      | rapidSuccessiveDraws => exact hready
      | drawBurst => cases hid
  | inr heq =>
      rw [heq] at hburst
      obtain ⟨hready,hburstId⟩ := ruleDraws_fired hlast hdraw hburst
      rw [hburstId] at hid
      cases rule with
      | rapidSuccessiveDraws => cases hid
      | drawBurst => exact hready

/-- When neither rule throws, the ready ones fire. -/
theorem mem_of_ready (hlast : events.getLast? = some latest) (hdraw : latest.kind = .draw)
    (hnewest : ∀ e ∈ events, e.occurredAtMs ≤ latest.occurredAtMs) (correlationId : String)
    (hcases : ∀ rule : DrawRule,
      (rule.windowDraws config latest events).length < (rule.thresholds config).minCount ∨
        Ready (rule.thresholds config) latest events) {rule : DrawRule}
    (hready : Ready (rule.thresholds config) latest events) :
    ∃ fired, evaluateRules config events correlationId = .ok fired ∧
      ∃ r ∈ fired, r.ruleId = rule.ruleId := by
  have hok : ∀ other : DrawRule, ∃ result, other.evaluate config events correlationId =
      .ok result := by
    intro other
    cases hcases other with
    | inl hfew => exact ⟨none,evaluate_few hlast hdraw hfew⟩
    | inr hother =>
        obtain ⟨fired,hfired,-⟩ := evaluate_ready hlast hdraw hnewest correlationId hother
        exact ⟨some fired,hfired⟩
  obtain ⟨rapid,hrapid⟩ := hok .rapidSuccessiveDraws
  obtain ⟨burst,hburst⟩ := hok .drawBurst
  obtain ⟨r,hr,hid⟩ := evaluate_ready hlast hdraw hnewest correlationId hready
  have hall : evaluateRules config events correlationId =
      .ok (rapid.toList ++ burst.toList) := by
    have hfirst : ruleRapidSuccessiveDraws config events correlationId = .ok rapid := hrapid
    have hsecond : ruleDrawBurst config events correlationId = .ok burst := hburst
    rw [evaluateRules_draw hlast hdraw,hfirst,hsecond]
    rfl
  refine ⟨_,hall,r,?_,hid⟩
  rw [List.mem_append,Option.mem_toList,Option.mem_toList]
  cases rule with
  | rapidSuccessiveDraws =>
      rw [hr,Except.ok.injEq] at hrapid
      exact .inl hrapid.symm
  | drawBurst =>
      rw [hr,Except.ok.injEq] at hburst
      exact .inr hburst.symm

end Sequence

/-! ## What the buffer shows of a history -/

section Histories
variable {config : AnomalyDetectionConfig} {line : String} {events events' : List ActivityEvent}
  {latest : ActivityEvent}

theorem EndsInDraw.exists_before (h : EndsInDraw line events latest) :
    ∃ before, historyOf line events = before ++ [latest] := by
  obtain ⟨before,hbefore⟩ := List.getLast?_eq_some_iff.mp h.last
  exact ⟨before,hbefore⟩

theorem EndsInDraw.newest (h : EndsInDraw line events latest) {e : ActivityEvent}
    (he : e ∈ historyOf line events) : e.occurredAtMs ≤ latest.occurredAtMs := by
  obtain ⟨before,hbefore⟩ := h.exists_before
  have hchronological := h.chronological
  rw [hbefore] at he hchronological
  cases List.mem_append.mp he with
  | inl hearlier => exact hchronological.le_last hearlier
  | inr heq => rw [List.mem_singleton.mp heq]

/-- The buffer shows the draws among the newest events, whatever their age. -/
theorem windowDraws_recorded (h : EndsInDraw line events latest) (rule : DrawRule) :
    rule.windowDraws config latest (recorded config events line) =
      rule.windowDraws config latest
        ((historyOf line events).rtake config.maxActivityEventsPerLine) := by
  obtain ⟨before,hbefore⟩ := h.exists_before
  have hchronological := h.chronological
  rw [hbefore] at hchronological
  rw [recorded_line,hbefore]
  apply filter_pushAll hchronological
  intro e he
  rw [decide_eq_true_eq,DrawRule.windowStart] at he
  obtain ⟨hrapid,hburst,-⟩ := window_le config
  unfold widestMs at hrapid hburst
  cases rule with
  | rapidSuccessiveDraws =>
      change _ ∧ latest.occurredAtMs - config.rapidSuccessiveDraws.windowSeconds * 1000 ≤ _ at he
      omega
  | drawBurst =>
      change _ ∧ latest.occurredAtMs - config.drawBurst.windowSeconds * 1000 ≤ _ at he
      omega

theorem getLast?_recorded (h : EndsInDraw line events latest)
    (hcap : 0 < config.maxActivityEventsPerLine) :
    (recorded config events line).getLast? = some latest := by
  obtain ⟨before,hbefore⟩ := h.exists_before
  have hchronological := h.chronological
  rw [hbefore] at hchronological
  rw [recorded_line,hbefore]
  exact getLast?_pushAll hchronological (by omega) hcap

theorem mem_recorded (h : EndsInDraw line events latest) {e : ActivityEvent}
    (he : e ∈ recorded config events line) : e ∈ historyOf line events := by
  obtain ⟨before,hbefore⟩ := h.exists_before
  have hchronological := h.chronological
  rw [recorded_line] at he
  rw [hbefore] at he hchronological ⊢
  rw [pushAll_eq hchronological] at he
  exact ((rtake_suffix _ _).trans (since_suffix hchronological _)).subset he

/-- Nothing fires when nothing is kept. -/
theorem not_fires_of_zero (h : EndsInDraw line events latest)
    (hcap : config.maxActivityEventsPerLine = 0) (correlationId : String) (rule : DrawRule) :
    ¬ Fires config line events correlationId rule := by
  intro hfires
  obtain ⟨-,fired,hfired,r,hr,-⟩ := hfires
  obtain ⟨before,hbefore⟩ := h.exists_before
  have hchronological := h.chronological
  rw [hbefore] at hchronological
  rw [recorded_line,hbefore,pushAll_eq hchronological,hcap,List.rtake_zero] at hfired
  have hnone : fired = [] := (Except.ok.inj hfired).symm
  rw [hnone] at hr
  cases hr

/-- Draws that are kept are draws of the history. -/
theorem length_windowDraws_le (events : List ActivityEvent) (cap : ℕ) (rule : DrawRule) :
    (rule.windowDraws config latest (events.rtake cap)).length ≤
      (rule.windowDraws config latest events).length :=
  ((rtake_suffix events cap).sublist.filter _).length_le

theorem ready_of_fires (h : EndsInDraw line events latest) {correlationId : String}
    {rule : DrawRule} (hfires : Fires config line events correlationId rule) :
    config.enabled = true ∧ 0 < config.maxActivityEventsPerLine ∧
      Ready (rule.thresholds config) latest (recorded config events line) := by
  have hcap : 0 < config.maxActivityEventsPerLine := by
    by_contra hzero
    exact not_fires_of_zero h (by omega) correlationId rule hfires
  obtain ⟨henabled,fired,hfired,r,hr,hid⟩ := hfires
  exact ⟨henabled,hcap,ready_of_mem (getLast?_recorded h hcap) h.draw hfired hr hid⟩

theorem Ready.kept (h : EndsInDraw line events latest) {rule : DrawRule}
    (hready : Ready (rule.thresholds config) latest (recorded config events line)) :
    (rule.thresholds config).minCount ≤ (rule.windowDraws config latest
      ((historyOf line events).rtake config.maxActivityEventsPerLine)).length := by
  rw [← windowDraws_recorded h]
  exact hready.enough

/-- Where draws are kept, a rule has too few of them or is ready. -/
theorem DrawsKept.cases (hkept : DrawsKept config line events latest)
    (h : EndsInDraw line events latest) (rule : DrawRule) :
    (rule.windowDraws config latest (recorded config events line)).length <
        (rule.thresholds config).minCount ∨
      Ready (rule.thresholds config) latest (recorded config events line) := by
  by_cases hfew : (rule.windowDraws config latest (recorded config events line)).length <
      (rule.thresholds config).minCount
  · exact .inl hfew
  · have henough := Nat.not_lt.mp hfew
    have hfull := henough
    rw [windowDraws_recorded h] at hfull
    obtain ⟨-,-,-,hstart,hend⟩ := hkept rule (hfull.trans (length_windowDraws_le _ _ rule))
    exact .inr ⟨henough,hstart,hend⟩

/-- The rules fire as the whole history says exactly when the draws are kept. -/
theorem firesAsCounted_iff (h : EndsInDraw line events latest) (correlationId : String) :
    FiresAsCounted config line events latest correlationId ↔
      DrawsKept config line events latest := by
  constructor
  · intro hcounted rule hfull
    obtain ⟨henabled,hcap,hready⟩ := ready_of_fires h ((hcounted rule).mpr hfull)
    exact ⟨henabled,hcap,hready.kept h,hready.startValid,hready.endValid⟩
  · intro hkept rule
    constructor
    · intro hfires
      obtain ⟨-,-,hready⟩ := ready_of_fires h hfires
      exact (hready.kept h).trans (length_windowDraws_le _ _ rule)
    · intro hfull
      obtain ⟨henabled,hcap,henough,hstart,hend⟩ := hkept rule hfull
      rw [← windowDraws_recorded h] at henough
      exact ⟨henabled,mem_of_ready (getLast?_recorded h hcap) h.draw
        (fun e he => h.newest (mem_recorded h he)) correlationId (hkept.cases h)
        ⟨henough,hstart,hend⟩⟩

/-- Sequences with the same draws have the same draws in every window. -/
theorem windowDraws_congr
    (hdraws : ((historyOf line events).filter fun e => e.kind = .draw) =
      (historyOf line events').filter fun e => e.kind = .draw) (rule : DrawRule) :
    rule.windowDraws config latest (historyOf line events) =
      rule.windowDraws config latest (historyOf line events') := by
  have hsplit : ∀ xs : List ActivityEvent, rule.windowDraws config latest xs =
      (xs.filter fun e => e.kind = .draw).filter fun e =>
        rule.windowStart config latest ≤ e.occurredAtMs := by
    intro xs
    rw [List.filter_filter,DrawRule.windowDraws]
    apply List.filter_congr
    intro e _
    rw [Bool.decide_and,Bool.and_comm]
  rw [hsplit,hsplit,hdraws]

/-- Repayments put in or taken out before the last draw leave the two rules alone,
and these fire as the draws in the window say, exactly when both sequences keep
the draws that the rules need. -/
theorem repayments_unmasked_iff (h : EndsInDraw line events latest)
    (h' : EndsInDraw line events' latest)
    (hdraws : ((historyOf line events).filter fun e => e.kind = .draw) =
      (historyOf line events').filter fun e => e.kind = .draw) (correlationId : String) :
    Unmasked config line events events' latest correlationId ↔
      DrawsKept config line events latest ∧ DrawsKept config line events' latest := by
  constructor
  · intro hunmasked
    obtain ⟨-,hcounted,hcounted'⟩ := hunmasked
    exact ⟨(firesAsCounted_iff h correlationId).mp hcounted,
      (firesAsCounted_iff h' correlationId).mp hcounted'⟩
  · intro hkept
    have hcounted := (firesAsCounted_iff h correlationId).mpr hkept.1
    have hcounted' := (firesAsCounted_iff h' correlationId).mpr hkept.2
    refine ⟨?_,hcounted,hcounted'⟩
    intro rule
    rw [hcounted rule,hcounted' rule,windowDraws_congr hdraws]

end Histories

def repayAt (occurredAtMs : ℤ) : ActivityEvent := ⟨.repay,"line-1","GA","1",occurredAtMs,none⟩

/-- Three draws in two milliseconds. -/
def threeDraws : List ActivityEvent := [drawAt 0,drawAt 1,drawAt 2]

/-- The same draws, with repayments before the last one. -/
def repaid (count : ℕ) : List ActivityEvent :=
  [drawAt 0,drawAt 1] ++ List.replicate count (repayAt 1) ++ [drawAt 2]

theorem threeDraws_ends : EndsInDraw "line-1" threeDraws (drawAt 2) where
  chronological := by
    unfold Chronological
    decide
  last := rfl
  draw := rfl

theorem repayments_unmasked_iff_one :
    Unmasked DEFAULT_ANOMALY_DETECTION_CONFIG "line-1" threeDraws (repaid 1) (drawAt 2)
      "corr-1" := by
  have hrepaid : EndsInDraw "line-1" (repaid 1) (drawAt 2) := by
    refine ⟨?_,rfl,rfl⟩
    unfold Chronological
    decide
  apply (repayments_unmasked_iff threeDraws_ends hrepaid rfl "corr-1").mpr
  constructor
  · intro rule
    cases rule with
    | rapidSuccessiveDraws => decide
    | drawBurst => decide
  · intro rule
    cases rule with
    | rapidSuccessiveDraws => decide
    | drawBurst => decide

/-- Fifty repayments of one unit silence the rule about three draws. -/
theorem draws_masked :
    EndsInDraw "line-1" threeDraws (drawAt 2) ∧ EndsInDraw "line-1" (repaid 50) (drawAt 2) ∧
    ((historyOf "line-1" threeDraws).filter fun e => e.kind = .draw) =
      ((historyOf "line-1" (repaid 50)).filter fun e => e.kind = .draw) ∧
    ¬ Unmasked DEFAULT_ANOMALY_DETECTION_CONFIG "line-1" threeDraws (repaid 50) (drawAt 2)
      "corr-1" := by
  have hrepaid : EndsInDraw "line-1" (repaid 50) (drawAt 2) := by
    refine ⟨?_,rfl,rfl⟩
    unfold Chronological
    decide
  refine ⟨threeDraws_ends,hrepaid,rfl,?_⟩
  intro hunmasked
  have hkept := (firesAsCounted_iff hrepaid "corr-1").mp hunmasked.2.2
  obtain ⟨-,-,henough,-⟩ := hkept .rapidSuccessiveDraws (by decide)
  revert henough
  decide

end Creditra.RepayMasking
