import Creditra.AnomalyRules
import Creditra.GuardedRuns
import Mathlib.Algebra.Order.Group.Unbundled.Int

/-!
# The cooldown of risk signals

`observe` looks at the rules it has fired one after the other. A rule that does
not cool down is written to the repository, and only when the write has been
acknowledged does the rule begin to cool down. Other calls may run in between.

The calls are the parties of a machine. A call that has a write under way is
`creating`; the row may appear at any moment before the acknowledgement. A write
that is rejected has left no row, which is assumed of the repository, and ends its
call.
-/
namespace Creditra.SignalCooldown
open AnomalyRules GuardedRuns

inductive RiskSignalStatus where
  | opened | acknowledged | dismissed
  deriving DecidableEq

structure CreateRiskSignalInput where
  signalType : RiskSignalType
  ruleId : RiskSignalRuleId
  severity : RiskSignalSeverity
  walletAddress : String
  creditLineId : String
  correlationId : String
  thresholds : Thresholds
  evidence : Evidence
  status : RiskSignalStatus

/-- A row of the repository, with the time of the event it was written for. -/
structure RiskSignal extends CreateRiskSignalInput where
  occurredAtMs : ℤ

def ruleText : RiskSignalRuleId → String
  | .rapidSuccessiveDraws => "rule.rapid_successive_draws"
  | .drawBurst => "rule.draw_burst"
  | .unusualRepayPattern => "rule.unusual_repay_pattern"

def cooldownKey (creditLineId : String) (ruleId : RiskSignalRuleId) : String :=
  creditLineId ++ ":" ++ ruleText ruleId

/-- A call waits for the write of one rule, with the rules behind it still to come. -/
inductive Stage where
  | creating (rule : FiredRule) (rest : List FiredRule) (written : Bool)
  | done

structure Observing where
  call : Call
  stage : Stage

structure Service where
  activity : Activity := fun _ => []
  lastFired : String → Option ℤ := fun _ => none
  signals : List RiskSignal := []
  calls : List Observing := []

inductive Label where
  | observe (call : Call)
  | write (i : ℕ)
  | resolve (i : ℕ)
  | reject (i : ℕ)

section Machine
variable (config : AnomalyDetectionConfig)

def cooldownMs : ℤ := config.signalCooldownSeconds * 1000

def isCoolingDown (lastFired : String → Option ℤ) (creditLineId : String)
    (ruleId : RiskSignalRuleId) (nowMs : ℤ) : Bool :=
  match lastFired (cooldownKey creditLineId ruleId) with
  | none => false
  | some last => nowMs - last < cooldownMs config

/-- The loop over the fired rules, up to its next write. -/
def nextCreate (lastFired : String → Option ℤ) (event : ActivityEvent) : List FiredRule → Stage
  | [] => .done
  | rule :: rest =>
      if isCoolingDown config lastFired event.creditLineId rule.ruleId event.occurredAtMs then
        nextCreate lastFired event rest
      else .creating rule rest false

def signalOf (call : Call) (rule : FiredRule) : RiskSignal where
  signalType := rule.signalType
  ruleId := rule.ruleId
  severity := rule.severity
  walletAddress := call.event.walletAddress
  creditLineId := call.event.creditLineId
  correlationId := call.correlationId
  thresholds := rule.thresholds
  evidence := rule.evidence
  status := .opened
  occurredAtMs := call.event.occurredAtMs

/-- A call up to its first write; an error ends it. -/
def entered (s : Service) (call : Call) : Observing :=
  ⟨call,match (observe config s.activity call).2 with
    | .ok fired => nextCreate config s.lastFired call.event fired
    | .error _ => .done⟩

def marked (s : Service) (call : Call) (rule : FiredRule) : String → Option ℤ :=
  Function.update s.lastFired (cooldownKey call.event.creditLineId rule.ruleId)
    (some call.event.occurredAtMs)

/-- A call from the acknowledgement of one write to its next. -/
def continued (s : Service) (call : Call) (rule : FiredRule) (rest : List FiredRule) : Observing :=
  ⟨call,nextCreate config (marked s call rule) call.event rest⟩

def step (s : Service) : Label → Service
  | .observe call =>
      { s with
        activity := (observe config s.activity call).1
        calls := s.calls ++ [entered config s call] }
  | .write i => match s.calls[i]? with
      | some ⟨call,.creating rule rest false⟩ =>
          { s with
            signals := s.signals ++ [signalOf call rule]
            calls := s.calls.set i ⟨call,.creating rule rest true⟩ }
      | _ => s
  | .resolve i => match s.calls[i]? with
      | some ⟨call,.creating rule rest true⟩ =>
          { s with
            lastFired := marked s call rule
            calls := s.calls.set i (continued config s call rule rest) }
      | _ => s
  | .reject i => match s.calls[i]? with
      | some ⟨call,.creating _ _ false⟩ => { s with calls := s.calls.set i ⟨call,.done⟩ }
      | _ => s

/-- Signals of one line and rule are a cooldown apart. -/
def Spaced (s : Service) : Prop :=
  s.signals.Pairwise fun a b => a.creditLineId = b.creditLineId → a.ruleId = b.ruleId →
    cooldownMs config ≤ |a.occurredAtMs - b.occurredAtMs|

/-- A write for a line and a rule is under way. -/
def Observing.creates (p : Observing) (creditLineId : String) (ruleId : RiskSignalRuleId) : Bool :=
  match p.stage with
  | .creating rule _ _ => p.call.event.creditLineId = creditLineId ∧ rule.ruleId = ruleId
  | .done => false

/-- The party that a step sets going, with its place. -/
def resumed (s : Service) : Label → Option (ℕ × Observing)
  | .observe call => some (s.calls.length,entered config s call)
  | .resolve i => match s.calls[i]? with
      | some ⟨call,.creating rule rest true⟩ => some (i,continued config s call rule rest)
      | _ => none
  | _ => none

/-- Whoever begins a write for a line and a rule is the only one who has such a
write under way. -/
def Alone (s : Service) (label : Label) : Prop :=
  match resumed config s label with
  | some (k,⟨call,.creating rule _ _⟩) => ∀ j < s.calls.length, j ≠ k →
      (s.calls[j]?.any fun q => q.creates call.event.creditLineId rule.ruleId) = false
  | _ => True

instance (s : Service) (label : Label) : Decidable (Alone config s label) := by
  unfold Alone
  split <;> infer_instance

end Machine

/-! ## Cooldown keys -/

/-- The texts of the rules end differently. -/
def lastChar : RiskSignalRuleId → Char
  | .rapidSuccessiveDraws => 's'
  | .drawBurst => 't'
  | .unusualRepayPattern => 'n'

theorem getLast?_ruleText (ruleId : RiskSignalRuleId) :
    (ruleText ruleId).toList.getLast? = some (lastChar ruleId) := by
  cases ruleId <;> rfl

theorem lastChar_injective : Function.Injective lastChar := by
  intro a b h
  cases a <;> cases b <;> first | rfl | exact absurd h (by decide)

/-- Different lines or rules have different keys. -/
theorem cooldownKey_inj {line line' : String} {ruleId ruleId' : RiskSignalRuleId}
    (h : cooldownKey line ruleId = cooldownKey line' ruleId') :
    line = line' ∧ ruleId = ruleId' := by
  have htext := congrArg String.toList h
  simp only [cooldownKey,String.toList_append] at htext
  have hlast := congrArg List.getLast? htext
  simp only [List.getLast?_append,getLast?_ruleText,Option.some_or,Option.some.injEq] at hlast
  have hrule := lastChar_injective hlast
  rw [hrule] at htext
  have hline := List.append_cancel_right (List.append_cancel_right htext)
  exact ⟨String.toList_injective hline,hrule⟩

/-! ## The invariant -/

section Invariant
variable {config : AnomalyDetectionConfig} {s : Service}

/-- A signal and a write are about the same line and rule. -/
def Matches (sig : RiskSignal) (call : Call) (rule : FiredRule) : Prop :=
  sig.creditLineId = call.event.creditLineId ∧ sig.ruleId = rule.ruleId

/-- Two writes are about the same line and rule. -/
def SameWrite (call : Call) (rule : FiredRule) (call' : Call) (rule' : FiredRule) : Prop :=
  call.event.creditLineId = call'.event.creditLineId ∧ rule.ruleId = rule'.ruleId

/-- The call at a place has a write under way. -/
def Creating (s : Service) (i : ℕ) (call : Call) (rule : FiredRule) (written : Bool) : Prop :=
  ∃ rest, s.calls[i]? = some ⟨call,.creating rule rest written⟩

/-- No two writes for a line and a rule are under way, a row not yet written lies
a cooldown behind the rows there are, and every row is known to the cooldown or
to the call that has written it. -/
structure Inv (config : AnomalyDetectionConfig) (s : Service) : Prop where
  spaced : Spaced config s
  alone : ∀ {i j call call' rule rule' written written'}, Creating s i call rule written →
    Creating s j call' rule' written' → SameWrite call rule call' rule' → i = j
  unwritten : ∀ {i call rule}, Creating s i call rule false → ∀ sig ∈ s.signals,
    Matches sig call rule → sig.occurredAtMs + cooldownMs config ≤ call.event.occurredAtMs
  written : ∀ {i call rule}, Creating s i call rule true → ∀ sig ∈ s.signals,
    Matches sig call rule → sig.occurredAtMs ≤ call.event.occurredAtMs
  known : ∀ sig ∈ s.signals, (∃ i call rule, Creating s i call rule true ∧ Matches sig call rule) ∨
    ∃ last, s.lastFired (cooldownKey sig.creditLineId sig.ruleId) = some last ∧
      sig.occurredAtMs ≤ last

theorem cooldownMs_nonneg (config : AnomalyDetectionConfig) : 0 ≤ cooldownMs config := by
  unfold cooldownMs
  omega

theorem nextCreate_creating {lastFired : String → Option ℤ} {event : ActivityEvent}
    {rules : List FiredRule} {rule : FiredRule} {rest : List FiredRule} {written : Bool}
    (h : nextCreate config lastFired event rules = .creating rule rest written) :
    written = false ∧
      isCoolingDown config lastFired event.creditLineId rule.ruleId event.occurredAtMs = false := by
  induction rules with
  | nil => cases h
  | cons first rules ih =>
      rw [nextCreate] at h
      split at h
      · exact ih h
      · rename_i hcool
        rw [Bool.not_eq_true] at hcool
        injection h with hrule hrest hwritten
        rw [← hrule]
        exact ⟨hwritten.symm,hcool⟩

/-- A party that is done joins. -/
theorem creating_joined {activity : Activity} {call : Call} {i : ℕ} {call' : Call}
    {rule : FiredRule} {written : Bool} :
    Creating { s with activity := activity, calls := s.calls ++ [⟨call,.done⟩] } i call' rule
        written ↔ Creating s i call' rule written := by
  constructor
  · intro h
    obtain ⟨rest,hi⟩ := h
    cases joined_cases hi with
    | inl hstay => exact ⟨rest,hstay⟩
    | inr hnew => cases hnew.2
  · intro h
    obtain ⟨rest,hi⟩ := h
    refine ⟨rest,?_⟩
    rw [List.getElem?_append_left (List.getElem?_eq_some_iff.mp hi).choose]
    exact hi

theorem inv_join (h : Inv config s) (activity : Activity) (call : Call) :
    Inv config { s with activity := activity, calls := s.calls ++ [⟨call,.done⟩] } := by
  constructor
  · exact h.spaced
  · intro i j call call' rule rule' written written' hi hj hsame
    exact h.alone (creating_joined.mp hi) (creating_joined.mp hj) hsame
  · intro i call rule hi
    exact h.unwritten (creating_joined.mp hi)
  · intro i call rule hi
    exact h.written (creating_joined.mp hi)
  · intro sig hsig
    cases h.known sig hsig with
    | inl hwriter =>
        obtain ⟨i,call',rule,hi,hmatch⟩ := hwriter
        exact .inl ⟨i,call',rule,creating_joined.mpr hi,hmatch⟩
    | inr hcooled => exact .inr hcooled

/-- Where no write for its line and rule is under way, a rule that does not cool
down lies a cooldown behind every row. -/
theorem later_of_not_cooling (h : Inv config s) {call : Call} {rule : FiredRule}
    (hcool : isCoolingDown config s.lastFired call.event.creditLineId rule.ruleId
      call.event.occurredAtMs = false)
    (halone : ∀ j call' rule' written', Creating s j call' rule' written' →
      ¬ SameWrite call rule call' rule') {sig : RiskSignal} (hsig : sig ∈ s.signals)
    (hmatch : Matches sig call rule) :
    sig.occurredAtMs + cooldownMs config ≤ call.event.occurredAtMs := by
  cases h.known sig hsig with
  | inl hwriter =>
      obtain ⟨j,call',rule',hj,hmatch'⟩ := hwriter
      have hsame : SameWrite call rule call' rule' :=
        ⟨hmatch.1.symm.trans hmatch'.1,hmatch.2.symm.trans hmatch'.2⟩
      exact absurd hsame (halone j call' rule' true hj)
  | inr hcooled =>
      obtain ⟨last,hlast,hle⟩ := hcooled
      rw [hmatch.1,hmatch.2] at hlast
      rw [isCoolingDown,hlast] at hcool
      have hgap := of_decide_eq_false hcool
      omega

/-- What the parties do after one of them has moved to another stage. -/
theorem creating_moved {k i : ℕ} {call call' : Call} {stage : Stage} {rule : FiredRule}
    {written : Bool} {signals : List RiskSignal} {lastFired : String → Option ℤ}
    (h : Creating { s with
      calls := s.calls.set k ⟨call,stage⟩, signals := signals, lastFired := lastFired } i call' rule
        written) :
    (i ≠ k ∧ Creating s i call' rule written) ∨
      i = k ∧ call' = call ∧ ∃ rest, stage = .creating rule rest written := by
  obtain ⟨rest,hi⟩ := h
  cases moved_cases hi with
  | inl hself =>
      injection hself.2 with hcall hstage
      exact .inr ⟨hself.1,hcall,rest,hstage.symm⟩
  | inr hother => exact .inl ⟨hother.1,rest,hother.2⟩

theorem creating_stays {k i : ℕ} {call call' : Call} {stage : Stage} {rule : FiredRule}
    {written : Bool} {signals : List RiskSignal} {lastFired : String → Option ℤ} (hne : i ≠ k)
    (h : Creating s i call' rule written) :
    Creating { s with
      calls := s.calls.set k ⟨call,stage⟩, signals := signals, lastFired := lastFired } i call' rule
        written := by
  obtain ⟨rest,hi⟩ := h
  refine ⟨rest,?_⟩
  rw [List.getElem?_set_ne (Ne.symm hne)]
  exact hi

/-- Writes stay alone when a party moves to a write that no other has under way. -/
theorem alone_of_moved (h : Inv config s) {k : ℕ} {call : Call} {stage : Stage}
    {signals : List RiskSignal} {lastFired : String → Option ℤ}
    (hstage : ∀ rule rest written, stage = .creating rule rest written →
      ∀ j call' rule' written', j ≠ k → Creating s j call' rule' written' →
        ¬ SameWrite call rule call' rule') {i j : ℕ} {call₁ call₂ : Call} {rule₁ rule₂ : FiredRule}
    {written₁ written₂ : Bool}
    (hi : Creating { s with
      calls := s.calls.set k ⟨call,stage⟩, signals := signals, lastFired := lastFired } i call₁
        rule₁ written₁)
    (hj : Creating { s with
      calls := s.calls.set k ⟨call,stage⟩, signals := signals, lastFired := lastFired } j call₂
        rule₂ written₂) (hsame : SameWrite call₁ rule₁ call₂ rule₂) : i = j := by
  cases creating_moved hi with
  | inl hold =>
      cases creating_moved hj with
      | inl hold' => exact h.alone hold.2 hold'.2 hsame
      | inr hnew =>
          obtain ⟨-,rfl,rest,heq⟩ := hnew
          exact absurd ⟨hsame.1.symm,hsame.2.symm⟩
            (hstage rule₂ rest written₂ heq i _ _ _ hold.1 hold.2)
  | inr hnew =>
      cases creating_moved hj with
      | inl hold =>
          obtain ⟨-,rfl,rest,heq⟩ := hnew
          exact absurd hsame (hstage rule₁ rest written₁ heq j _ _ _ hold.1 hold.2)
      | inr hnew' => exact hnew.1.trans hnew'.1.symm

/-- Whoever has written its row is not at the place of another stage. -/
theorem place_ne {k i : ℕ} {call call' : Call} {stage : Stage} {rule : FiredRule} {written : Bool}
    (hk : s.calls[k]? = some ⟨call,stage⟩) (hi : Creating s i call' rule written)
    (hstage : ∀ rest, stage ≠ .creating rule rest written) : i ≠ k := by
  intro heq
  obtain ⟨rest,hget⟩ := hi
  rw [heq,hk,Option.some.injEq] at hget
  injection hget with _ hsame
  exact hstage rest hsame

/-- A party that is done moves on to its next write. -/
theorem inv_begin (h : Inv config s) {k : ℕ} {call : Call} (hk : s.calls[k]? = some ⟨call,.done⟩)
    (rules : List FiredRule)
    (halone : ∀ rule rest written,
      nextCreate config s.lastFired call.event rules = .creating rule rest written →
      ∀ j call' rule' written', Creating s j call' rule' written' →
        ¬ SameWrite call rule call' rule') :
    Inv config { s with
      calls := s.calls.set k ⟨call,nextCreate config s.lastFired call.event rules⟩ } := by
  constructor
  · exact h.spaced
  · intro i j call₁ call₂ rule₁ rule₂ written₁ written₂ hi hj hsame
    apply alone_of_moved h _ hi hj hsame
    intro rule rest written hstage j call' rule' written' _ hj
    exact halone rule rest written hstage j call' rule' written' hj
  · intro i call' rule hi sig hsig hmatch
    cases creating_moved hi with
    | inl hold => exact h.unwritten hold.2 sig hsig hmatch
    | inr hnew =>
        obtain ⟨-,rfl,rest,hstage⟩ := hnew
        exact later_of_not_cooling h (nextCreate_creating hstage).2 (halone rule rest false hstage)
          hsig hmatch
  · intro i call' rule hi sig hsig hmatch
    cases creating_moved hi with
    | inl hold => exact h.written hold.2 sig hsig hmatch
    | inr hnew =>
        obtain ⟨-,-,rest,hstage⟩ := hnew
        cases (nextCreate_creating hstage).1
  · intro sig hsig
    cases h.known sig hsig with
    | inl hwriter =>
        obtain ⟨i,call',rule,hi,hmatch⟩ := hwriter
        have hne : i ≠ k := place_ne hk hi (by simp)
        exact .inl ⟨i,call',rule,creating_stays hne hi,hmatch⟩
    | inr hcooled => exact .inr hcooled

/-- A new row lies a cooldown behind the others of its line and rule. -/
theorem spaced_write (h : Inv config s) {k : ℕ} {call : Call} {rule : FiredRule}
    (hcreating : Creating s k call rule false) :
    (s.signals ++ [signalOf call rule]).Pairwise fun a b => a.creditLineId = b.creditLineId →
      a.ruleId = b.ruleId → cooldownMs config ≤ |a.occurredAtMs - b.occurredAtMs| := by
  refine List.pairwise_append.mpr ⟨h.spaced,List.pairwise_singleton _ _,?_⟩
  intro sig hsig new hnew hline hrule
  rw [List.mem_singleton.mp hnew] at hline hrule ⊢
  have hlater := h.unwritten hcreating sig hsig ⟨hline,hrule⟩
  rw [abs_sub_comm]
  apply le_trans _ (le_abs_self _)
  change cooldownMs config ≤ call.event.occurredAtMs - sig.occurredAtMs
  omega

/-- A row is written. -/
theorem inv_write (h : Inv config s) {k : ℕ} {call : Call} {rule : FiredRule}
    {rest : List FiredRule} (hk : s.calls[k]? = some ⟨call,.creating rule rest false⟩) :
    Inv config { s with
      signals := s.signals ++ [signalOf call rule]
      calls := s.calls.set k ⟨call,.creating rule rest true⟩ } := by
  have hcreating : Creating s k call rule false := ⟨rest,hk⟩
  have hother : ∀ {i : ℕ} {call' : Call} {rule' : FiredRule} {written : Bool}, i ≠ k →
      Creating s i call' rule' written → ¬ Matches (signalOf call rule) call' rule' := by
    intro i call' rule' written hne hi hmatch
    exact hne (h.alone hi hcreating ⟨hmatch.1.symm,hmatch.2.symm⟩)
  constructor
  · exact spaced_write h hcreating
  · intro i j call₁ call₂ rule₁ rule₂ written₁ written₂ hi hj hsame
    apply alone_of_moved h _ hi hj hsame
    intro rule' rest' written hstage j call' rule₃ written' hne hj hwrite
    injection hstage with hrule
    rw [← hrule] at hwrite
    exact hne (h.alone hcreating hj hwrite).symm
  · intro i call' rule' hi sig hsig hmatch
    cases creating_moved hi with
    | inl hi =>
        cases List.mem_append.mp hsig with
        | inl hold => exact h.unwritten hi.2 sig hold hmatch
        | inr hnew =>
            rw [List.mem_singleton.mp hnew] at hmatch
            exact absurd hmatch (hother hi.1 hi.2)
    | inr hi =>
        obtain ⟨-,-,rest',hstage⟩ := hi
        cases hstage
  · intro i call' rule' hi sig hsig hmatch
    cases creating_moved hi with
    | inl hi =>
        cases List.mem_append.mp hsig with
        | inl hold => exact h.written hi.2 sig hold hmatch
        | inr hnew =>
            rw [List.mem_singleton.mp hnew] at hmatch
            exact absurd hmatch (hother hi.1 hi.2)
    | inr hi =>
        obtain ⟨-,hcall,rest',hstage⟩ := hi
        injection hstage with hrule
        rw [hcall,← hrule] at hmatch
        rw [hcall]
        cases List.mem_append.mp hsig with
        | inl hold =>
            have hlater := h.unwritten hcreating sig hold hmatch
            have hnonneg := cooldownMs_nonneg config
            omega
        | inr hnew =>
            rw [List.mem_singleton.mp hnew]
            exact le_refl _
  · intro sig hsig
    cases List.mem_append.mp hsig with
    | inl hold =>
        cases h.known sig hold with
        | inl hwriter =>
            obtain ⟨i,call',rule',hi,hmatch⟩ := hwriter
            have hne : i ≠ k := place_ne hk hi (by simp)
            exact .inl ⟨i,call',rule',creating_stays hne hi,hmatch⟩
        | inr hcooled => exact .inr hcooled
    | inr hnew =>
        rw [List.mem_singleton.mp hnew]
        exact .inl ⟨k,call,rule,⟨rest,moved hk _⟩,rfl,rfl⟩

theorem creating_left {k i : ℕ} {call call' : Call} {rule : FiredRule} {written : Bool}
    {lastFired : String → Option ℤ}
    (h : Creating { s with calls := s.calls.set k ⟨call,.done⟩, lastFired := lastFired } i call'
      rule written) : i ≠ k ∧ Creating s i call' rule written := by
  cases creating_moved h with
  | inl hold => exact hold
  | inr hnew =>
      obtain ⟨-,-,rest,hstage⟩ := hnew
      cases hstage

/-- A party is done; the rows stay known. -/
theorem inv_leave (h : Inv config s) {k : ℕ} {call : Call} {lastFired : String → Option ℤ}
    (hknown : ∀ sig ∈ s.signals,
      (∃ i call' rule, i ≠ k ∧ Creating s i call' rule true ∧ Matches sig call' rule) ∨
      ∃ last, lastFired (cooldownKey sig.creditLineId sig.ruleId) = some last ∧
        sig.occurredAtMs ≤ last) :
    Inv config { s with calls := s.calls.set k ⟨call,.done⟩, lastFired := lastFired } := by
  constructor
  · exact h.spaced
  · intro i j call₁ call₂ rule₁ rule₂ written₁ written₂ hi hj hsame
    exact h.alone (creating_left hi).2 (creating_left hj).2 hsame
  · intro i call' rule hi
    exact h.unwritten (creating_left hi).2
  · intro i call' rule hi
    exact h.written (creating_left hi).2
  · intro sig hsig
    cases hknown sig hsig with
    | inl hwriter =>
        obtain ⟨i,call',rule,hne,hi,hmatch⟩ := hwriter
        exact .inl ⟨i,call',rule,creating_stays hne hi,hmatch⟩
    | inr hcooled => exact .inr hcooled

/-- A write fails. -/
theorem inv_reject (h : Inv config s) {k : ℕ} {call : Call} {rule : FiredRule}
    {rest : List FiredRule} (hk : s.calls[k]? = some ⟨call,.creating rule rest false⟩) :
    Inv config { s with calls := s.calls.set k ⟨call,.done⟩ } := by
  apply inv_leave h
  intro sig hsig
  cases h.known sig hsig with
  | inl hwriter =>
      obtain ⟨i,call',rule',hi,hmatch⟩ := hwriter
      have hne : i ≠ k := place_ne hk hi (by simp)
      exact .inl ⟨i,call',rule',hne,hi,hmatch⟩
  | inr hcooled => exact .inr hcooled

/-- A write is acknowledged, and its rule begins to cool down. -/
theorem inv_acknowledge (h : Inv config s) {k : ℕ} {call : Call} {rule : FiredRule}
    {rest : List FiredRule} (hk : s.calls[k]? = some ⟨call,.creating rule rest true⟩) :
    Inv config { s with
      calls := s.calls.set k ⟨call,.done⟩, lastFired := marked s call rule } := by
  have hcreating : Creating s k call rule true := ⟨rest,hk⟩
  apply inv_leave h
  intro sig hsig
  by_cases hmatch : Matches sig call rule
  · right
    refine ⟨call.event.occurredAtMs,?_,h.written hcreating sig hsig hmatch⟩
    rw [marked,hmatch.1,hmatch.2,Function.update_self]
  · cases h.known sig hsig with
    | inl hwriter =>
        obtain ⟨i,call',rule',hi,hmatch'⟩ := hwriter
        have hne : i ≠ k := by
          intro heq
          obtain ⟨rest',hi⟩ := hi
          rw [heq,hk] at hi
          cases hi
          exact hmatch hmatch'
        exact .inl ⟨i,call',rule',hne,hi,hmatch'⟩
    | inr hcooled =>
        obtain ⟨last,hlast,hle⟩ := hcooled
        refine .inr ⟨last,?_,hle⟩
        rw [marked,Function.update_of_ne]
        · exact hlast
        · intro hkey
          exact hmatch (cooldownKey_inj hkey)

/-! ## Steps -/

/-- Whoever has a write under way shows it. -/
theorem creates_of_creating {i : ℕ} {call : Call} {rule : FiredRule} {written : Bool}
    (h : Creating s i call rule written) {line : String} {ruleId : RiskSignalRuleId}
    (hline : call.event.creditLineId = line) (hrule : rule.ruleId = ruleId) :
    (s.calls[i]?.any fun q => q.creates line ruleId) = true := by
  obtain ⟨rest,hi⟩ := h
  rw [hi]
  exact decide_eq_true ⟨hline,hrule⟩

/-- The guard, for the parties that are under way. -/
theorem alone_of_resumed {label : Label} (h : Alone config s label) {k : ℕ} {p : Observing}
    (hp : resumed config s label = some (k,p)) {rule : FiredRule} {rest : List FiredRule}
    {written : Bool} (hstage : p.stage = .creating rule rest written) {j : ℕ} (hne : j ≠ k)
    {call' : Call} {rule' : FiredRule} {written' : Bool} (hj : Creating s j call' rule' written') :
    ¬ SameWrite p.call rule call' rule' := by
  intro hsame
  obtain ⟨call,stage⟩ := p
  change stage = _ at hstage
  rw [Alone,hp,hstage] at h
  obtain ⟨rest',hget⟩ := hj
  have hlt := (List.getElem?_eq_some_iff.mp hget).choose
  have hnone := h j hlt hne
  rw [creates_of_creating ⟨rest',hget⟩ hsame.1.symm hsame.2.symm] at hnone
  cases hnone

theorem inv_observe (h : Inv config s) {call : Call}
    (hguard : Alone config s (.observe call)) : Inv config (step config s (.observe call)) := by
  have hjoin := inv_join h (observe config s.activity call).1 call
  cases hfired : (observe config s.activity call).2 with
  | error e =>
      rw [step,entered,hfired]
      exact hjoin
  | ok fired =>
      have hentered : entered config s call =
          ⟨call,nextCreate config s.lastFired call.event fired⟩ := by
        rw [entered,hfired]
      have hset : (s.calls ++ [(⟨call,.done⟩ : Observing)]).set s.calls.length
          ⟨call,nextCreate config s.lastFired call.event fired⟩ =
            s.calls ++ [⟨call,nextCreate config s.lastFired call.event fired⟩] := by
        rw [List.set_append_right _ _ (Nat.le_refl _),Nat.sub_self]
        rfl
      have hbegin := inv_begin hjoin List.getElem?_concat_length fired (by
        intro rule rest written hstage j call' rule' written' hj
        have hold := creating_joined.mp hj
        have hne : j ≠ s.calls.length := by
          obtain ⟨rest',hget⟩ := hold
          exact Nat.ne_of_lt (List.getElem?_eq_some_iff.mp hget).choose
        exact alone_of_resumed hguard (congrArg (fun p => some (s.calls.length,p)) hentered) hstage
          hne hold)
      rw [step,hentered,← hset]
      exact hbegin

theorem inv_resolve (h : Inv config s) {i : ℕ} (hguard : Alone config s (.resolve i))
    {call : Call} {rule : FiredRule} {rest : List FiredRule}
    (hk : s.calls[i]? = some ⟨call,.creating rule rest true⟩) :
    Inv config { s with
      lastFired := marked s call rule
      calls := s.calls.set i (continued config s call rule rest) } := by
  have hresumed : resumed config s (.resolve i) = some (i,continued config s call rule rest) := by
    rw [resumed,hk]
  have hbegin := inv_begin (inv_acknowledge h hk) (moved hk _) rest (by
    intro next rest' written hstage j call' rule' written' hj
    obtain ⟨hne,hold⟩ := creating_left hj
    exact alone_of_resumed hguard hresumed hstage hne hold)
  rw [List.set_set] at hbegin
  exact hbegin

theorem inv_step (h : Inv config s) {label : Label} (hguard : Alone config s label) :
    Inv config (step config s label) := by
  cases label with
  | observe call => exact inv_observe h hguard
  | write i =>
      rw [step]
      split
      · rename_i hk
        exact inv_write h hk
      · exact h
  | resolve i =>
      rw [step]
      split
      · rename_i hk
        exact inv_resolve h hguard hk
      · exact h
  | reject i =>
      rw [step]
      split
      · rename_i hk
        exact inv_reject h hk
      · exact h

theorem inv_start (config : AnomalyDetectionConfig) : Inv config {} := by
  constructor
  · exact List.Pairwise.nil
  · intro i j call call' rule rule' written written' hi
    obtain ⟨rest,hi⟩ := hi
    cases hi
  · intro i call rule hi
    obtain ⟨rest,hi⟩ := hi
    cases hi
  · intro i call rule hi
    obtain ⟨rest,hi⟩ := hi
    cases hi
  · intro sig hsig
    cases hsig

end Invariant

/-- In every run in which nobody begins a write for a line and a rule while another
such write is under way, the signals of a line and a rule are always a cooldown
apart. -/
theorem signals_spaced (config : AnomalyDetectionConfig) {labels : List Label}
    (hguard : Guarded (step config) (Alone config) {} labels) {reached : List Label}
    (hreached : reached <+: labels) : Spaced config (run (step config) {} reached) := by
  have hinv := run_invariant_passed (I := Inv config) (fun _ _ h hstep => inv_step h hstep)
    (inv_start config) hguard hreached
  exact hinv.spaced

def drawn (occurredAtMs : ℤ) : Label := .observe ⟨drawAt occurredAtMs,"corr-1"⟩

/-- The fourth draw comes after the signal of the third was acknowledged. -/
def inTurn : List Label := [drawn 0,drawn 1,drawn 2,.write 2,.resolve 2,drawn 3]

theorem signals_spaced_inTurn :
    (run (step DEFAULT_ANOMALY_DETECTION_CONFIG) {} inTurn).signals.length = 1 ∧
    Spaced DEFAULT_ANOMALY_DETECTION_CONFIG
      (run (step DEFAULT_ANOMALY_DETECTION_CONFIG) {} inTurn) := by
  refine ⟨rfl,signals_spaced _ ?_ List.prefix_rfl⟩
  decide

/-- The fourth draw comes while the signal of the third is being written. -/
def overlapping : List Label := [drawn 0,drawn 1,drawn 2,drawn 3,.write 2,.write 3]

/-- The events of a run, in the order in which they are observed. -/
def observedEvents (labels : List Label) : List ActivityEvent :=
  labels.filterMap fun label => match label with
    | .observe call => some call.event
    | _ => none

theorem cooldown_overtaken :
    SlidingBuffers.Chronological ActivityEvent.occurredAtMs (observedEvents overlapping) ∧
    ¬ Spaced DEFAULT_ANOMALY_DETECTION_CONFIG
      (run (step DEFAULT_ANOMALY_DETECTION_CONFIG) {} overlapping) := by
  constructor
  · unfold SlidingBuffers.Chronological
    decide
  · unfold Spaced
    decide

end Creditra.SignalCooldown
