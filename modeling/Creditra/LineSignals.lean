import Creditra.OutboundWebhooks
import Creditra.PartySlices
import Creditra.SignalCooldown

/-!
# The risk signals of a credit line

The anomaly subscriber hands confirmed draws and repayments from the event bus
on to `observe`. Events are published while the writes of earlier calls are
under way, and the writes succeed or fail in any order. Whatever happens to
other lines makes no difference to the signals of a line, and a rule that has
fired is signalled unless it cools down or a write of its call fails. A write that
fails has left no row.
-/
namespace Creditra.LineSignals
open AnomalyRules GuardedRuns JsonValues PartySlices SignalCooldown
open OutboundWebhooks (CreditDomainEvent CreditEventType)

/-! ## The subscriber -/

/-- A field of the payload, which is a text in every event of a line's life. -/
def payloadText (name : String) (payload : List (String × Json)) : String :=
  match (payload.find? fun entry => entry.1 = name).map Prod.snd with
  | some (.string text) => text
  | _ => ""

/-- What is observed of an event. A time that cannot be read is taken to be now. -/
def activityOf (dateParse : String → Option ℤ) (kind : ActivityKind) (event : CreditDomainEvent)
    (dateNow : ℤ) : ActivityEvent where
  kind := kind
  creditLineId := event.creditLineId
  walletAddress := payloadText "walletAddress" event.payload
  amount := payloadText "amount" event.payload
  occurredAtMs := (dateParse event.occurredAt).getD dateNow
  correlationId := none

/-- The handler for the watched types of events. -/
def handler (dateParse : String → Option ℤ) (event : CreditDomainEvent) (dateNow : ℤ)
    (randomUUID : String) : Option Call :=
  match event.type with
  | .drawConfirmed => some ⟨activityOf dateParse .draw event dateNow,randomUUID⟩
  | .repayConfirmed => some ⟨activityOf dateParse .repay event dateNow,randomUUID⟩
  | _ => none

theorem handler_line {dateParse : String → Option ℤ} {event : CreditDomainEvent} {dateNow : ℤ}
    {randomUUID : String} {call : Call}
    (h : handler dateParse event dateNow randomUUID = some call) :
    call.event.creditLineId = event.creditLineId := by
  unfold handler at h
  split at h
  · obtain rfl := Option.some.inj h
    rfl
  · obtain rfl := Option.some.inj h
    rfl
  · cases h

/-- An event is published, or something happens to a call's write. -/
inductive Happening where
  | published (event : CreditDomainEvent) (dateNow : ℤ) (randomUUID : String)
  | write (i : ℕ)
  | resolve (i : ℕ)
  | reject (i : ℕ)

section Lines
variable (config : AnomalyDetectionConfig) (dateParse : String → Option ℤ) (line : String)

/-- What an event or a write is to the service. -/
def labelOf : Happening → Option Label
  | .published event dateNow randomUUID =>
      (handler dateParse event dateNow randomUUID).map .observe
  | .write i => some (.write i)
  | .resolve i => some (.resolve i)
  | .reject i => some (.reject i)

def happen (s : Service) (happening : Happening) : Service :=
  run (step config) s (labelOf dateParse happening).toList

def ofLine (p : Observing) : Bool := p.call.event.creditLineId = line

/-- The place of a call among the calls of its line, if it is one of the line. -/
def placeOf (s : Service) (i : ℕ) : Option ℕ :=
  (s.calls[i]?.filter (ofLine line)).map fun _ => rank (ofLine line) s.calls i

/-- What a happening is to the line alone. -/
def project (s : Service) : Happening → Option Happening
  | .published event dateNow randomUUID =>
      if event.creditLineId = line then some (.published event dateNow randomUUID) else none
  | .write i => (placeOf line s i).map .write
  | .resolve i => (placeOf line s i).map .resolve
  | .reject i => (placeOf line s i).map .reject

/-- The happenings of a run that are about the line. -/
def about (happenings : List Happening) : List Happening :=
  restrict (happen config dateParse) (project line) {} happenings

def signalsOf (s : Service) : List RiskSignal := s.signals.filter fun sig => sig.creditLineId = line

def callsOf (s : Service) : List Observing := s.calls.filter (ofLine line)

/-- One service holds of the line what another holds of it among other lines. -/
structure Slice (s t : Service) : Prop where
  activity : t.activity line = s.activity line
  cooldown : ∀ ruleId, t.lastFired (cooldownKey line ruleId) =
    s.lastFired (cooldownKey line ruleId)
  signals : t.signals = signalsOf line s
  calls : t.calls = callsOf line s

end Lines

/-! ## Calls of the line and of others -/

section Slices
variable {config : AnomalyDetectionConfig} {line : String} {s t : Service}

theorem placeOf_some {i : ℕ} {p : Observing} (hi : s.calls[i]? = some p)
    (hp : ofLine line p = true) : placeOf line s i = some (rank (ofLine line) s.calls i) := by
  unfold placeOf
  rw [hi,Option.filter_some,if_pos hp]
  rfl

theorem placeOf_other {i : ℕ} {p : Observing} (hi : s.calls[i]? = some p)
    (hp : ofLine line p = false) : placeOf line s i = none := by
  unfold placeOf
  rw [hi,Option.filter_some,if_neg (by simp [hp])]
  rfl

theorem placeOf_none {i : ℕ} (hi : s.calls[i]? = none) : placeOf line s i = none := by
  unfold placeOf
  rw [hi]
  rfl

theorem nextCreate_congr {lastFired lastFired' : String → Option ℤ} {event : ActivityEvent}
    (h : ∀ ruleId, lastFired' (cooldownKey event.creditLineId ruleId) =
      lastFired (cooldownKey event.creditLineId ruleId)) (rules : List FiredRule) :
    nextCreate config lastFired' event rules = nextCreate config lastFired event rules := by
  induction rules with
  | nil => rfl
  | cons rule rest ih =>
      rw [nextCreate,nextCreate,ih]
      unfold isCoolingDown
      rw [h]

variable (config) in
/-- A call sees the activity of its own line. -/
theorem observe_same {activity activity' : Activity} {call : Call}
    (h : activity' call.event.creditLineId = activity call.event.creditLineId) :
    (observe config activity' call).1 call.event.creditLineId =
        (observe config activity call).1 call.event.creditLineId ∧
      (observe config activity' call).2 = (observe config activity call).2 := by
  have hline : call.normalized.creditLineId = call.event.creditLineId := rfl
  have hpush : pushActivity config activity' call.normalized call.event.creditLineId =
      pushActivity config activity call.normalized call.event.creditLineId := by
    rw [← hline,pushActivity_same,pushActivity_same,hline,h]
  unfold observe
  split
  · exact ⟨hpush,congrArg (fun events => evaluateRules config events call.correlationId) hpush⟩
  · exact ⟨h,rfl⟩

/-- A call leaves the activity of other lines alone. -/
theorem observe_other (activity : Activity) {call : Call}
    (h : call.event.creditLineId ≠ line) :
    (observe config activity call).1 line = activity line := by
  unfold observe
  split
  · exact pushActivity_other config activity (Ne.symm h)
  · rfl

theorem ofLine_iff {p : Observing} :
    ofLine line p = true ↔ p.call.event.creditLineId = line := decide_eq_true_iff

theorem Slice.entered (h : Slice line s t) {call : Call} (hcall : call.event.creditLineId = line) :
    entered config t call = entered config s call := by
  have hactivity : t.activity call.event.creditLineId = s.activity call.event.creditLineId := by
    rw [hcall]
    exact h.activity
  obtain ⟨-,hfired⟩ := observe_same config hactivity
  unfold SignalCooldown.entered
  rw [hfired]
  split
  · rw [nextCreate_congr]
    intro ruleId
    rw [hcall]
    exact h.cooldown ruleId
  · rfl

theorem slice_observe_own (h : Slice line s t) {call : Call}
    (hcall : call.event.creditLineId = line) :
    Slice line (step config s (.observe call)) (step config t (.observe call)) where
  activity := by
    subst hcall
    exact (observe_same config h.activity).1
  cooldown := h.cooldown
  signals := h.signals
  calls := by
    change t.calls ++ [entered config t call] =
      (s.calls ++ [entered config s call]).filter (ofLine line)
    have hown : ofLine line (entered config s call) = true := ofLine_iff.mpr hcall
    rw [List.filter_append,List.filter_cons_of_pos hown,h.calls,h.entered hcall]
    rfl

theorem slice_observe_other (h : Slice line s t) {call : Call}
    (hcall : call.event.creditLineId ≠ line) :
    Slice line (step config s (.observe call)) t where
  activity := h.activity.trans (observe_other s.activity hcall).symm
  cooldown := h.cooldown
  signals := h.signals
  calls := by
    change t.calls = (s.calls ++ [entered config s call]).filter (ofLine line)
    have hother : ¬ ofLine line (entered config s call) = true := fun hown =>
      hcall (ofLine_iff.mp hown)
    rw [List.filter_append,List.filter_cons_of_neg hother,List.filter_nil,List.append_nil]
    exact h.calls

/-! ## Writes -/

/-- The slice has the call at its place. -/
theorem Slice.getElem? (h : Slice line s t) {i : ℕ} {p : Observing} (hi : s.calls[i]? = some p)
    (hp : ofLine line p = true) : t.calls[rank (ofLine line) s.calls i]? = some p := by
  rw [h.calls]
  exact getElem?_filter_rank hi hp

/-- A call of the line goes on in the slice as it does in the whole. -/
theorem Slice.moved (h : Slice line s t) {i : ℕ} {p p' : Observing} (hi : s.calls[i]? = some p)
    (hp : ofLine line p = true) (hp' : ofLine line p' = true) :
    t.calls.set (rank (ofLine line) s.calls i) p' = (s.calls.set i p').filter (ofLine line) := by
  rw [filter_set_of_pos hi hp hp',h.calls]
  rfl

/-- A call of another line goes on. -/
theorem Slice.stays (h : Slice line s t) {i : ℕ} {p p' : Observing} (hi : s.calls[i]? = some p)
    (hp : ofLine line p = false) (hp' : ofLine line p' = false) :
    t.calls = (s.calls.set i p').filter (ofLine line) := by
  rw [filter_set_of_neg hi hp hp']
  exact h.calls

theorem signals_own {call : Call} (hcall : call.event.creditLineId = line)
    (signals : List RiskSignal) (rule : FiredRule) :
    (signals ++ [signalOf call rule]).filter (fun sig => sig.creditLineId = line) =
      signals.filter (fun sig => sig.creditLineId = line) ++ [signalOf call rule] := by
  have hown : (signalOf call rule).creditLineId = line := hcall
  rw [List.filter_append,List.filter_cons_of_pos (by simpa using hown)]
  rfl

theorem signals_other {call : Call} (hcall : call.event.creditLineId ≠ line)
    (signals : List RiskSignal) (rule : FiredRule) :
    (signals ++ [signalOf call rule]).filter (fun sig => sig.creditLineId = line) =
      signals.filter (fun sig => sig.creditLineId = line) := by
  have hother : (signalOf call rule).creditLineId ≠ line := hcall
  rw [List.filter_append,List.filter_cons_of_neg (by simpa using hother)]
  exact List.append_nil _

theorem slice_write_own (h : Slice line s t) {i : ℕ} {p : Observing}
    (hi : s.calls[i]? = some p) (hp : ofLine line p = true) :
    Slice line (step config s (.write i)) (step config t (.write (rank (ofLine line) s.calls i))) := by
  have ht := h.getElem? hi hp
  obtain ⟨call,stage⟩ := p
  have hcall : call.event.creditLineId = line := ofLine_iff.mp hp
  cases stage with
  | done =>
      simp only [step,hi,ht]
      exact h
  | creating rule rest written =>
      cases written with
      | true =>
          simp only [step,hi,ht]
          exact h
      | false =>
          simp only [step,hi,ht]
          refine ⟨h.activity,h.cooldown,?_,h.moved hi hp hp⟩
          rw [h.signals]
          exact (signals_own hcall s.signals rule).symm

theorem slice_write_other (h : Slice line s t) {i : ℕ} {p : Observing}
    (hi : s.calls[i]? = some p) (hp : ofLine line p = false) :
    Slice line (step config s (.write i)) t := by
  obtain ⟨call,stage⟩ := p
  have hcall : call.event.creditLineId ≠ line := of_decide_eq_false hp
  cases stage with
  | done =>
      simp only [step,hi]
      exact h
  | creating rule rest written =>
      cases written with
      | true =>
          simp only [step,hi]
          exact h
      | false =>
          simp only [step,hi]
          refine ⟨h.activity,h.cooldown,?_,h.stays hi hp hp⟩
          rw [h.signals]
          exact (signals_other hcall s.signals rule).symm

theorem marked_own (h : Slice line s t) (call : Call) (rule : FiredRule)
    (ruleId : RiskSignalRuleId) :
    marked t call rule (cooldownKey line ruleId) = marked s call rule (cooldownKey line ruleId) := by
  unfold marked
  by_cases hkey : cooldownKey line ruleId = cooldownKey call.event.creditLineId rule.ruleId
  · rw [hkey,Function.update_self,Function.update_self]
  · rw [Function.update_of_ne hkey,Function.update_of_ne hkey]
    exact h.cooldown ruleId

theorem marked_other {call : Call} (hcall : call.event.creditLineId ≠ line)
    (rule : FiredRule) (ruleId : RiskSignalRuleId) :
    marked s call rule (cooldownKey line ruleId) = s.lastFired (cooldownKey line ruleId) := by
  unfold marked
  rw [Function.update_of_ne]
  intro hkey
  exact hcall (cooldownKey_inj hkey).1.symm

theorem slice_resolve_own (h : Slice line s t) {i : ℕ} {p : Observing}
    (hi : s.calls[i]? = some p) (hp : ofLine line p = true) :
    Slice line (step config s (.resolve i))
      (step config t (.resolve (rank (ofLine line) s.calls i))) := by
  have ht := h.getElem? hi hp
  obtain ⟨call,stage⟩ := p
  have hcall : call.event.creditLineId = line := ofLine_iff.mp hp
  cases stage with
  | done =>
      simp only [step,hi,ht]
      exact h
  | creating rule rest written =>
      cases written with
      | false =>
          simp only [step,hi,ht]
          exact h
      | true =>
          have hcontinued : continued config t call rule rest = continued config s call rule rest := by
            unfold continued
            rw [nextCreate_congr]
            intro ruleId
            rw [hcall]
            exact marked_own h call rule ruleId
          simp only [step,hi,ht]
          refine ⟨h.activity,marked_own h call rule,h.signals,?_⟩
          rw [hcontinued]
          exact h.moved hi hp hp

theorem slice_resolve_other (h : Slice line s t) {i : ℕ} {p : Observing}
    (hi : s.calls[i]? = some p) (hp : ofLine line p = false) :
    Slice line (step config s (.resolve i)) t := by
  obtain ⟨call,stage⟩ := p
  have hcall : call.event.creditLineId ≠ line := of_decide_eq_false hp
  cases stage with
  | done =>
      simp only [step,hi]
      exact h
  | creating rule rest written =>
      cases written with
      | false =>
          simp only [step,hi]
          exact h
      | true =>
          simp only [step,hi]
          refine ⟨h.activity,?_,h.signals,h.stays hi hp hp⟩
          intro ruleId
          exact (h.cooldown ruleId).trans (marked_other hcall rule ruleId).symm

theorem slice_reject_own (h : Slice line s t) {i : ℕ} {p : Observing}
    (hi : s.calls[i]? = some p) (hp : ofLine line p = true) :
    Slice line (step config s (.reject i))
      (step config t (.reject (rank (ofLine line) s.calls i))) := by
  have ht := h.getElem? hi hp
  obtain ⟨call,stage⟩ := p
  cases stage with
  | done =>
      simp only [step,hi,ht]
      exact h
  | creating rule rest written =>
      cases written with
      | true =>
          simp only [step,hi,ht]
          exact h
      | false =>
          simp only [step,hi,ht]
          exact ⟨h.activity,h.cooldown,h.signals,h.moved hi hp hp⟩

theorem slice_reject_other (h : Slice line s t) {i : ℕ} {p : Observing}
    (hi : s.calls[i]? = some p) (hp : ofLine line p = false) :
    Slice line (step config s (.reject i)) t := by
  obtain ⟨call,stage⟩ := p
  cases stage with
  | done =>
      simp only [step,hi]
      exact h
  | creating rule rest written =>
      cases written with
      | true =>
          simp only [step,hi]
          exact h
      | false =>
          simp only [step,hi]
          exact ⟨h.activity,h.cooldown,h.signals,h.stays hi hp hp⟩

end Slices

/-! ## Lines apart -/

section Apart
variable {config : AnomalyDetectionConfig} {dateParse : String → Option ℤ} {line : String}
  {s t : Service}

/-- What does not move leaves the service as it is. -/
theorem step_missing {i : ℕ} (hi : s.calls[i]? = none) :
    step config s (.write i) = s ∧ step config s (.resolve i) = s ∧
      step config s (.reject i) = s := by
  simp only [step,hi,and_self]

theorem happen_unheard (s : Service) {event : CreditDomainEvent} {dateNow : ℤ} {randomUUID : String}
    (h : handler dateParse event dateNow randomUUID = none) :
    happen config dateParse s (.published event dateNow randomUUID) = s := by
  simp only [happen,labelOf,h,Option.map_none,Option.toList_none,run_nil]

theorem happen_heard (s : Service) {event : CreditDomainEvent} {dateNow : ℤ} {randomUUID : String}
    {call : Call} (h : handler dateParse event dateNow randomUUID = some call) :
    happen config dateParse s (.published event dateNow randomUUID) =
      step config s (.observe call) := by
  simp only [happen,labelOf,h,Option.map_some,Option.toList_some,run_cons,run_nil]

theorem slice_published (h : Slice line s t) (event : CreditDomainEvent) (dateNow : ℤ)
    (randomUUID : String) :
    Slice line (happen config dateParse s (.published event dateNow randomUUID))
      (run (happen config dateParse) t
        (project line s (.published event dateNow randomUUID)).toList) := by
  simp only [project]
  by_cases hline : event.creditLineId = line
  · rw [if_pos hline]
    change Slice line _ (happen config dateParse t (.published event dateNow randomUUID))
    cases hhandler : handler dateParse event dateNow randomUUID with
    | none =>
        rw [happen_unheard s hhandler,happen_unheard t hhandler]
        exact h
    | some call =>
        rw [happen_heard s hhandler,happen_heard t hhandler]
        exact slice_observe_own h ((handler_line hhandler).trans hline)
  · rw [if_neg hline]
    cases hhandler : handler dateParse event dateNow randomUUID with
    | none =>
        rw [happen_unheard s hhandler]
        exact h
    | some call =>
        rw [happen_heard s hhandler]
        exact slice_observe_other h (handler_line hhandler ▸ hline)

/-- Something happens to the write of one call. -/
theorem slice_place (h : Slice line s t) {i : ℕ} {make : ℕ → Happening} {label : ℕ → Label}
    (hlabel : ∀ s k, happen config dateParse s (make k) = step config s (label k))
    (hmissing : s.calls[i]? = none → step config s (label i) = s)
    (hown : ∀ p, s.calls[i]? = some p → ofLine line p = true →
      Slice line (step config s (label i))
        (step config t (label (rank (ofLine line) s.calls i))))
    (hother : ∀ p, s.calls[i]? = some p → ofLine line p = false →
      Slice line (step config s (label i)) t) :
    Slice line (happen config dateParse s (make i))
      (run (happen config dateParse) t ((placeOf line s i).map make).toList) := by
  rw [hlabel]
  cases hi : s.calls[i]? with
  | none =>
      rw [placeOf_none hi,hmissing hi]
      exact h
  | some p =>
      cases hp : ofLine line p with
      | true =>
          rw [placeOf_some hi hp]
          change Slice line _ (happen config dateParse t (make _))
          rw [hlabel]
          exact hown p hi hp
      | false =>
          rw [placeOf_other hi hp]
          exact hother p hi hp

theorem slice_happen (h : Slice line s t) (happening : Happening) :
    Slice line (happen config dateParse s happening)
      (run (happen config dateParse) t (project line s happening).toList) := by
  cases happening with
  | published event dateNow randomUUID => exact slice_published h event dateNow randomUUID
  | write i =>
      exact slice_place h (fun _ _ => rfl) (fun hi => (step_missing hi).1)
        (fun _ hi hp => slice_write_own h hi hp) fun _ hi hp => slice_write_other h hi hp
  | resolve i =>
      exact slice_place h (fun _ _ => rfl) (fun hi => (step_missing hi).2.1)
        (fun _ hi hp => slice_resolve_own h hi hp) fun _ hi hp => slice_resolve_other h hi hp
  | reject i =>
      exact slice_place h (fun _ _ => rfl) (fun hi => (step_missing hi).2.2)
        (fun _ hi hp => slice_reject_own h hi hp) fun _ hi hp => slice_reject_other h hi hp

/-- The happenings about a line, by themselves, bring the line's part of the whole. -/
theorem slice_run (config : AnomalyDetectionConfig) (dateParse : String → Option ℤ) (line : String)
    (happenings : List Happening) :
    Slice line (run (happen config dateParse) {} happenings)
      (run (happen config dateParse) {} (about config dateParse line happenings)) :=
  run_restrict (R := Slice line) (fun _ _ happening h => slice_happen h happening)
    ⟨rfl,fun _ => rfl,rfl,rfl⟩ happenings

end Apart

/-- However events and writes of other lines come in between, and whatever becomes of them: a line
has the signals, and its calls stand, as if nothing but its own events and writes had happened. -/
theorem lines_apart (config : AnomalyDetectionConfig) (dateParse : String → Option ℤ) (line : String)
    (happenings : List Happening) :
    signalsOf line (run (happen config dateParse) {} happenings) =
        (run (happen config dateParse) {} (about config dateParse line happenings)).signals ∧
      callsOf line (run (happen config dateParse) {} happenings) =
        (run (happen config dateParse) {} (about config dateParse line happenings)).calls := by
  have h := slice_run config dateParse line happenings
  exact ⟨h.signals.symm,h.calls.symm⟩

end Creditra.LineSignals
