import Creditra.SignalCooldown

/-!
# What becomes of a fired rule

A rule that has fired is signalled, cools down, waits for its write, or is lost
with a write of its call that failed and left no row. The signals are told from
the rules that each call fired, which the service itself forgets.
-/
namespace Creditra.SignalAccounts
open AnomalyRules GuardedRuns SignalCooldown

/-- A service with the rules its calls have fired, call by call, and the calls that have failed. -/
structure Traced where
  service : Service := {}
  fired : List (Call × List FiredRule) := []
  rejected : List ℕ := []

/-- The rule is the one whose write is under way, or one behind it. -/
def Stage.Pends (rule : FiredRule) : Stage → Prop
  | .creating current rest _ => rule = current ∨ rule ∈ rest
  | .done => False

section Tracing
variable (config : AnomalyDetectionConfig)

def firedBy (s : Service) (call : Call) : List FiredRule :=
  match (observe config s.activity call).2 with
  | .ok fired => fired
  | .error _ => []

def trace (x : Traced) (label : Label) : Traced where
  service := step config x.service label
  fired := match label with
    | .observe call => x.fired ++ [(call,firedBy config x.service call)]
    | _ => x.fired
  rejected := match label with
    | .reject i => match x.service.calls[i]? with
        | some ⟨_,.creating _ _ false⟩ => x.rejected ++ [i]
        | _ => x.rejected
    | _ => x.rejected

/-- A signal of the line and the rule lies less than a cooldown before the event. -/
def Cooled (signals : List RiskSignal) (call : Call) (rule : FiredRule) : Prop :=
  ∃ sig ∈ signals, Matches sig call rule ∧
    call.event.occurredAtMs - sig.occurredAtMs < cooldownMs config

/-- Where a rule stands that the call at place `i` has fired. -/
def Accounted (x : Traced) (i : ℕ) (call : Call) (rule : FiredRule) : Prop :=
  signalOf call rule ∈ x.service.signals ∨ Cooled config x.service.signals call rule ∨
    (∃ p, x.service.calls[i]? = some p ∧ Stage.Pends rule p.stage) ∨ i ∈ x.rejected

/-- Every signal is that of a fired rule, and no fired rule is lost but with its call. -/
structure Accounts (x : Traced) : Prop where
  service : x.fired.map Prod.fst = x.service.calls.map Observing.call
  sound : ∀ sig ∈ x.service.signals, ∃ (i : ℕ) (call : Call) (fired : List FiredRule),
    x.fired[i]? = some (call,fired) ∧ ∃ rule ∈ fired, sig = signalOf call rule
  complete : ∀ (i : ℕ) (call : Call) (fired : List FiredRule),
    x.fired[i]? = some (call,fired) → ∀ rule ∈ fired, Accounted config x i call rule

end Tracing

/-! ## The next write -/

section Next
variable {config : AnomalyDetectionConfig} {lastFired : String → Option ℤ}
  {signals : List RiskSignal} {call : Call}

/-- The cooldown knows of signals that there are. -/
def Known (lastFired : String → Option ℤ) (signals : List RiskSignal) : Prop :=
  ∀ line ruleId t, lastFired (cooldownKey line ruleId) = some t →
    ∃ sig ∈ signals, sig.creditLineId = line ∧ sig.ruleId = ruleId ∧ sig.occurredAtMs = t

theorem cooled_of_isCoolingDown (h : Known lastFired signals) {rule : FiredRule}
    (hcool : isCoolingDown config lastFired call.event.creditLineId rule.ruleId
      call.event.occurredAtMs = true) : Cooled config signals call rule := by
  unfold isCoolingDown at hcool
  split at hcool
  · cases hcool
  · rename_i last hlast
    obtain ⟨sig,hsig,hline,hrule,htime⟩ := h _ _ _ hlast
    rw [decide_eq_true_eq] at hcool
    exact ⟨sig,hsig,⟨hline,hrule⟩,htime ▸ hcool⟩

/-- A rule is passed over only while it cools down. -/
theorem nextCreate_accounts (h : Known lastFired signals) {rules : List FiredRule}
    {rule : FiredRule} (hrule : rule ∈ rules) :
    Cooled config signals call rule ∨
      Stage.Pends rule (nextCreate config lastFired call.event rules) := by
  induction rules with
  | nil => cases hrule
  | cons first rest ih =>
      rw [nextCreate]
      split
      · rename_i hcool
        rcases List.mem_cons.mp hrule with rfl | hrest
        · exact .inl (cooled_of_isCoolingDown h hcool)
        · exact ih hrest
      · exact .inr (List.mem_cons.mp hrule)

/-- The next write is for one of the rules, and so are those behind it. -/
theorem mem_of_nextCreate {rules rest : List FiredRule} {rule : FiredRule} {written : Bool}
    (h : nextCreate config lastFired call.event rules = .creating rule rest written) :
    written = false ∧ rule ∈ rules ∧ ∀ r ∈ rest, r ∈ rules := by
  induction rules with
  | nil => cases h
  | cons first others ih =>
      rw [nextCreate] at h
      split at h
      · obtain ⟨hwritten,hrule,hrest⟩ := ih h
        exact ⟨hwritten,List.mem_cons_of_mem _ hrule,fun r hr => List.mem_cons_of_mem _ (hrest r hr)⟩
      · injection h with hrule hrest hwritten
        subst hrule hrest
        exact ⟨hwritten.symm,List.mem_cons_self,fun r hr => List.mem_cons_of_mem _ hr⟩

end Next

/-! ## The invariant -/

section Invariant
variable {config : AnomalyDetectionConfig} {x : Traced}

/-- What is known of one call: the rules it still waits for are its own, and the write that is
done has brought its signal. -/
def CallTold (signals : List RiskSignal) (call : Call) (fired : List FiredRule) (p : Observing) :
    Prop :=
  ∀ rule rest written, p.stage = .creating rule rest written →
    rule ∈ fired ∧ (∀ r ∈ rest, r ∈ fired) ∧ (written = true → signalOf call rule ∈ signals)

structure Told (config : AnomalyDetectionConfig) (x : Traced) : Prop extends Accounts config x where
  known : Known x.service.lastFired x.service.signals
  calls : ∀ (i : ℕ) (call : Call) (fired : List FiredRule) (p : Observing),
    x.fired[i]? = some (call,fired) → x.service.calls[i]? = some p →
    CallTold x.service.signals call fired p

theorem told_start (config : AnomalyDetectionConfig) : Told config {} where
  service := rfl
  sound := by
    intro sig hsig
    cases hsig
  complete := by
    intro i call fired hfired
    simp at hfired
  known := by
    intro line ruleId t hlast
    cases hlast
  calls := by
    intro i call fired p hfired
    simp at hfired

theorem Accounts.getElem? (h : Accounts config x) {k : ℕ} {p : Observing}
    (hk : x.service.calls[k]? = some p) : ∃ fired, x.fired[k]? = some (p.call,fired) := by
  have hmap : (x.fired.map Prod.fst)[k]? = some p.call := by
    rw [h.service,List.getElem?_map,hk]
    rfl
  rw [List.getElem?_map,Option.map_eq_some_iff] at hmap
  obtain ⟨⟨call,fired⟩,hfired,rfl⟩ := hmap
  exact ⟨fired,hfired⟩

theorem Cooled.mono {signals signals' : List RiskSignal} {call : Call} {rule : FiredRule}
    (h : Cooled config signals call rule) (hsub : ∀ sig ∈ signals, sig ∈ signals') :
    Cooled config signals' call rule := by
  obtain ⟨sig,hsig,hrest⟩ := h
  exact ⟨sig,hsub sig hsig,hrest⟩

/-- The call at one place goes on, and what its rules waited for is settled or still to come. -/
structure GoesOn (config : AnomalyDetectionConfig) (x x' : Traced) (k : ℕ) (p p' : Observing) :
    Prop where
  place : x.service.calls[k]? = some p
  call : p'.call = p.call
  calls : x'.service.calls = x.service.calls.set k p'
  fired : x'.fired = x.fired
  signals : ∀ sig ∈ x.service.signals, sig ∈ x'.service.signals
  rejected : ∀ i ∈ x.rejected, i ∈ x'.rejected
  sound : ∀ sig ∈ x'.service.signals, sig ∈ x.service.signals ∨ ∃ rule rest written,
    p.stage = .creating rule rest written ∧ sig = signalOf p.call rule
  known : Known x'.service.lastFired x'.service.signals
  told : ∀ fired, CallTold x.service.signals p.call fired p →
    CallTold x'.service.signals p.call fired p'
  fate : ∀ rule, Stage.Pends rule p.stage → Accounted config x' k p.call rule

variable {x' : Traced} {k : ℕ} {p p' : Observing}

theorem GoesOn.accounted (hgo : GoesOn config x x' k p p') {i : ℕ} {call : Call}
    {fired : List FiredRule} (hfired : x.fired[i]? = some (call,fired)) (h : Told config x)
    {rule : FiredRule} (hrule : Accounted config x i call rule) :
    Accounted config x' i call rule := by
  rcases hrule with hsig | hcool | ⟨q,hq,hpends⟩ | hlost
  · exact .inl (hgo.signals _ hsig)
  · exact .inr (.inl (hcool.mono hgo.signals))
  · by_cases hik : i = k
    · subst hik
      obtain rfl := Option.some.inj (hgo.place.symm.trans hq)
      obtain ⟨fired',hfired'⟩ := h.getElem? hgo.place
      obtain ⟨rfl,-⟩ := Prod.mk.inj (Option.some.inj (hfired'.symm.trans hfired))
      exact hgo.fate rule hpends
    · refine .inr (.inr (.inl ⟨q,?_,hpends⟩))
      rw [hgo.calls,List.getElem?_set_ne (Ne.symm hik)]
      exact hq
  · exact .inr (.inr (.inr (hgo.rejected i hlost)))

theorem told_goesOn (h : Told config x) (hgo : GoesOn config x x' k p p') : Told config x' where
  service := by
    have hcall : (x.service.calls.map Observing.call)[k]? = some p.call := by
      rw [List.getElem?_map,hgo.place]
      rfl
    obtain ⟨hlt,hsame⟩ := List.getElem?_eq_some_iff.mp hcall
    rw [hgo.fired,hgo.calls,h.service,List.map_set,hgo.call,← hsame,List.set_getElem_self hlt]
  sound := by
    intro sig hsig
    rw [hgo.fired]
    rcases hgo.sound sig hsig with hold | ⟨rule,rest,written,hstage,rfl⟩
    · exact h.sound sig hold
    · obtain ⟨fired,hfired⟩ := h.getElem? hgo.place
      have hrule := (h.calls k _ fired p hfired hgo.place rule rest written hstage).1
      exact ⟨k,p.call,fired,hfired,rule,hrule,rfl⟩
  complete := by
    intro i call fired hfired rule hrule
    rw [hgo.fired] at hfired
    exact hgo.accounted hfired h (h.complete i call fired hfired rule hrule)
  known := hgo.known
  calls := by
    intro i call fired q hfired hq
    rw [hgo.fired] at hfired
    rw [hgo.calls] at hq
    rcases moved_cases hq with ⟨rfl,rfl⟩ | ⟨-,hstay⟩
    · obtain ⟨fired',hfired'⟩ := h.getElem? hgo.place
      obtain ⟨rfl,rfl⟩ := Prod.mk.inj (Option.some.inj (hfired'.symm.trans hfired))
      exact hgo.told _ (h.calls _ _ _ _ hfired hgo.place)
    · intro rule rest written hstage
      obtain ⟨hrule,hrest,hsig⟩ := h.calls i call fired q hfired hstay rule rest written hstage
      exact ⟨hrule,hrest,fun hwritten => hgo.signals _ (hsig hwritten)⟩

/-- A write brings its signal. -/
theorem goesOn_write (h : Told config x) {call : Call} {rule : FiredRule} {rest : List FiredRule}
    (hk : x.service.calls[k]? = some ⟨call,.creating rule rest false⟩) :
    GoesOn config x (trace config x (.write k)) k ⟨call,.creating rule rest false⟩
      ⟨call,.creating rule rest true⟩ := by
  have hservice : (trace config x (.write k)).service =
      { x.service with
        signals := x.service.signals ++ [signalOf call rule]
        calls := x.service.calls.set k ⟨call,.creating rule rest true⟩ } := by
    simp only [trace,step,hk]
  have hsub : ∀ sig ∈ x.service.signals, sig ∈ x.service.signals ++ [signalOf call rule] :=
    fun sig hsig => List.mem_append_left _ hsig
  refine ⟨hk,rfl,by rw [hservice],rfl,by rw [hservice]; exact hsub,fun _ hi => hi,?_,?_,?_,?_⟩
  · intro sig hsig
    rw [hservice] at hsig
    rcases List.mem_append.mp hsig with hold | hnew
    · exact .inl hold
    · exact .inr ⟨rule,rest,false,rfl,List.mem_singleton.mp hnew⟩
  · rw [hservice]
    intro line ruleId t hlast
    obtain ⟨sig,hsig,hfacts⟩ := h.known line ruleId t hlast
    exact ⟨sig,hsub sig hsig,hfacts⟩
  · rw [hservice]
    intro fired htold rule' rest' written' hstage
    obtain ⟨hrule,hrest,-⟩ := htold rule rest false rfl
    cases hstage
    exact ⟨hrule,hrest,fun _ => List.mem_append_right _ (List.mem_singleton_self _)⟩
  · intro rule' hpends
    refine .inr (.inr (.inl ⟨⟨call,.creating rule rest true⟩,?_,hpends⟩))
    rw [hservice]
    exact moved hk _

/-- An acknowledgement begins the cooldown, and the call goes on to its next write. -/
theorem goesOn_resolve (h : Told config x) {call : Call} {rule : FiredRule} {rest : List FiredRule}
    (hk : x.service.calls[k]? = some ⟨call,.creating rule rest true⟩) :
    GoesOn config x (trace config x (.resolve k)) k ⟨call,.creating rule rest true⟩
      (continued config x.service call rule rest) := by
  have hservice : (trace config x (.resolve k)).service =
      { x.service with
        lastFired := marked x.service call rule
        calls := x.service.calls.set k (continued config x.service call rule rest) } := by
    simp only [trace,step,hk]
  obtain ⟨fired,hfired⟩ := h.getElem? hk
  have hsig : signalOf call rule ∈ x.service.signals :=
    (h.calls k call fired _ hfired hk rule rest true rfl).2.2 rfl
  have hknown : Known (marked x.service call rule) x.service.signals := by
    intro line ruleId t hlast
    unfold marked at hlast
    by_cases hkey : cooldownKey line ruleId = cooldownKey call.event.creditLineId rule.ruleId
    · rw [hkey,Function.update_self] at hlast
      obtain ⟨hline,hrule⟩ := cooldownKey_inj hkey
      exact ⟨_,hsig,hline.symm,hrule.symm,Option.some.inj hlast⟩
    · rw [Function.update_of_ne hkey] at hlast
      exact h.known line ruleId t hlast
  refine ⟨hk,rfl,by rw [hservice],rfl,by rw [hservice]; exact fun _ hold => hold,fun _ hi => hi,?_,?_,
    ?_,?_⟩
  · intro sig hold
    rw [hservice] at hold
    exact .inl hold
  · rw [hservice]
    exact hknown
  · rw [hservice]
    intro fired' htold rule' rest' written' hstage
    obtain ⟨-,hrest,-⟩ := htold rule rest true rfl
    obtain ⟨hwritten,hrule',hrest'⟩ := mem_of_nextCreate hstage
    refine ⟨hrest _ hrule',fun r hr => hrest r (hrest' r hr),?_⟩
    rw [hwritten]
    intro hfalse
    cases hfalse
  · intro rule' hpends
    rcases hpends with rfl | hlater
    · refine .inl ?_
      rw [hservice]
      exact hsig
    · have hnext : Cooled config x.service.signals call rule' ∨
          Stage.Pends rule' (continued config x.service call rule rest).stage :=
        nextCreate_accounts hknown hlater
      rcases hnext with hcool | hpends
      · refine .inr (.inl ?_)
        rw [hservice]
        exact hcool
      · refine .inr (.inr (.inl ⟨continued config x.service call rule rest,?_,hpends⟩))
        rw [hservice]
        exact moved hk _

/-- A write that fails ends its call. -/
theorem goesOn_reject (h : Told config x) {call : Call} {rule : FiredRule} {rest : List FiredRule}
    (hk : x.service.calls[k]? = some ⟨call,.creating rule rest false⟩) :
    GoesOn config x (trace config x (.reject k)) k ⟨call,.creating rule rest false⟩
      ⟨call,.done⟩ := by
  have hservice : (trace config x (.reject k)).service =
      { x.service with calls := x.service.calls.set k ⟨call,.done⟩ } := by
    simp only [trace,step,hk]
  have hrejected : (trace config x (.reject k)).rejected = x.rejected ++ [k] := by
    simp only [trace,hk]
  refine ⟨hk,rfl,by rw [hservice],rfl,by rw [hservice]; exact fun _ hold => hold,?_,?_,?_,?_,?_⟩
  · intro i hi
    rw [hrejected]
    exact List.mem_append_left _ hi
  · intro sig hold
    rw [hservice] at hold
    exact .inl hold
  · rw [hservice]
    exact h.known
  · intro fired htold rule' rest' written' hstage
    cases hstage
  · intro rule' hpends
    refine .inr (.inr (.inr ?_))
    rw [hrejected]
    exact List.mem_append_right _ (List.mem_singleton_self k)

theorem entered_stage (s : Service) (call : Call) :
    (entered config s call).stage =
      nextCreate config s.lastFired call.event (firedBy config s call) := by
  unfold entered firedBy
  cases (observe config s.activity call).2 <;> rfl

theorem getElem?_joined {α : Type*} {l : List α} {i : ℕ} {a : α} (h : l[i]? = some a) (b : α) :
    (l ++ [b])[i]? = some a := by
  rw [List.getElem?_append_left (List.getElem?_eq_some_iff.mp h).choose]
  exact h

/-- A call joins, with the rules it has fired. -/
theorem told_observe (h : Told config x) (call : Call) :
    Told config (trace config x (.observe call)) where
  service := by
    change (x.fired ++ [_]).map Prod.fst = (x.service.calls ++ [_]).map Observing.call
    rw [List.map_append,List.map_append,h.service]
    rfl
  sound := by
    intro sig hsig
    obtain ⟨i,call',fired,hfired,hrule⟩ := h.sound sig hsig
    exact ⟨i,call',fired,getElem?_joined hfired _,hrule⟩
  complete := by
    intro i call' fired hfired rule hrule
    rcases joined_cases hfired with hold | ⟨hi,hnew⟩
    · rcases h.complete i call' fired hold rule hrule with hsig | hcool | ⟨p,hp,hpends⟩ | hlost
      · exact .inl hsig
      · exact .inr (.inl hcool)
      · exact .inr (.inr (.inl ⟨p,getElem?_joined hp _,hpends⟩))
      · exact .inr (.inr (.inr hlost))
    · obtain ⟨rfl,rfl⟩ := Prod.mk.inj hnew
      rcases nextCreate_accounts h.known hrule with hcool | hpends
      · exact .inr (.inl hcool)
      · refine .inr (.inr (.inl ⟨entered config x.service call',?_,?_⟩))
        · have hlength := congrArg List.length h.service
          rw [List.length_map,List.length_map] at hlength
          rw [hi,hlength]
          exact List.getElem?_concat_length
        · rw [entered_stage]
          exact hpends
  known := h.known
  calls := by
    intro i call' fired p hfired hp
    have hlength := congrArg List.length h.service
    rw [List.length_map,List.length_map] at hlength
    rcases joined_cases hfired with hold | ⟨hi,hnew⟩
    · rcases joined_cases hp with hpold | ⟨hi',-⟩
      · exact h.calls i call' fired p hold hpold
      · have hlt := (List.getElem?_eq_some_iff.mp hold).choose
        omega
    · rcases joined_cases hp with hpold | ⟨-,rfl⟩
      · have hlt := (List.getElem?_eq_some_iff.mp hpold).choose
        omega
      · obtain ⟨rfl,rfl⟩ := Prod.mk.inj hnew
        intro rule rest written hstage
        rw [entered_stage] at hstage
        obtain ⟨hwritten,hrule,hrest⟩ := mem_of_nextCreate hstage
        refine ⟨hrule,hrest,?_⟩
        rw [hwritten]
        intro hfalse
        cases hfalse

/-! A label finds its call waiting for it, or changes nothing. -/

theorem trace_write_cases (config : AnomalyDetectionConfig) (x : Traced) (k : ℕ) :
    (∃ call rule rest, x.service.calls[k]? = some ⟨call,.creating rule rest false⟩) ∨
      trace config x (.write k) = x := by
  simp only [trace,step]
  split
  · rename_i call rule rest hk
    exact .inl ⟨call,rule,rest,hk⟩
  · exact .inr rfl

theorem trace_resolve_cases (config : AnomalyDetectionConfig) (x : Traced) (k : ℕ) :
    (∃ call rule rest, x.service.calls[k]? = some ⟨call,.creating rule rest true⟩) ∨
      trace config x (.resolve k) = x := by
  simp only [trace,step]
  split
  · rename_i call rule rest hk
    exact .inl ⟨call,rule,rest,hk⟩
  · exact .inr rfl

theorem trace_reject_cases (config : AnomalyDetectionConfig) (x : Traced) (k : ℕ) :
    (∃ call rule rest, x.service.calls[k]? = some ⟨call,.creating rule rest false⟩) ∨
      trace config x (.reject k) = x := by
  rcases hk : x.service.calls[k]? with _ | ⟨call,⟨rule,rest,_ | _⟩ | _⟩
  · exact .inr (by simp only [trace,step,hk])
  · exact .inl ⟨call,rule,rest,rfl⟩
  · exact .inr (by simp only [trace,step,hk])
  · exact .inr (by simp only [trace,step,hk])

theorem told_trace (h : Told config x) (label : Label) : Told config (trace config x label) := by
  cases label with
  | observe call => exact told_observe h call
  | write k =>
      rcases trace_write_cases config x k with ⟨call,rule,rest,hk⟩ | hsame
      · exact told_goesOn h (goesOn_write h hk)
      · exact hsame.symm ▸ h
  | resolve k =>
      rcases trace_resolve_cases config x k with ⟨call,rule,rest,hk⟩ | hsame
      · exact told_goesOn h (goesOn_resolve h hk)
      · exact hsame.symm ▸ h
  | reject k =>
      rcases trace_reject_cases config x k with ⟨call,rule,rest,hk⟩ | hsame
      · exact told_goesOn h (goesOn_reject h hk)
      · exact hsame.symm ▸ h

end Invariant

theorem service_run (config : AnomalyDetectionConfig) (x : Traced) (labels : List Label) :
    (run (trace config) x labels).service = run (step config) x.service labels := by
  induction labels generalizing x with
  | nil => rfl
  | cons label labels ih => exact ih (trace config x label)

/-- However calls of `observe` overlap and their writes succeed or fail: every signal is that of a
rule its call has fired, and every rule a call has fired is signalled, less than a cooldown behind
a signal of its line, still to be written, or lost with a write of its call that failed. -/
theorem signals_accounted (config : AnomalyDetectionConfig) (labels : List Label) :
    (run (trace config) {} labels).service = run (step config) {} labels ∧
      Accounts config (run (trace config) {} labels) := by
  refine ⟨service_run config {} labels,?_⟩
  have htold : Told config (run (trace config) {} labels) :=
    run_induction (I := Told config) (fun _ label h => told_trace h label) (told_start config)
      labels
  exact htold.toAccounts

end Creditra.SignalAccounts
