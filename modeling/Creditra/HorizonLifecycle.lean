import Creditra.GuardedRuns
import Mathlib.Data.List.Nodup

/-!
# Starting and stopping the Horizon listener

`start` and `stop` of `services/horizonListener.ts`. `start` marks the listener as
running, waits for a first poll, and only then sets the interval whose handle
`stop` needs; `stop` may come in between, and a second `start` after it. A handle
is overwritten when a later interval is set, and an interval that nobody has the
handle of is never cleared.

The settings are opaque here: an interval keeps those of the `start` that set it.
-/
namespace Creditra.HorizonLifecycle
open GuardedRuns

/-! ## Intervals of the runtime -/

/-- The intervals that were set and not cleared, by their handles; `made` were set so far. -/
structure Intervals (κ : Type) where
  live : List (ℕ × κ)
  made : ℕ
  old : ∀ t ∈ live, t.1 < made
  distinct : (live.map Prod.fst).Nodup

namespace Intervals
variable {κ : Type}

def none : Intervals κ := ⟨[],0,by simp,by simp⟩

/-- The handle that this returns is `made`. -/
def setInterval (i : Intervals κ) (config : κ) : Intervals κ where
  live := i.live ++ [(i.made,config)]
  made := i.made + 1
  old := by
    intro t ht
    rcases List.mem_append.mp ht with ht | ht
    · exact Nat.lt_succ_of_lt (i.old t ht)
    · rw [List.mem_singleton.mp ht]
      exact Nat.lt_succ_self i.made
  distinct := by
    rw [List.map_append,List.nodup_append]
    refine ⟨i.distinct,List.nodup_singleton _,?_⟩
    intro a ha b hb hab
    obtain ⟨t,ht,rfl⟩ := List.mem_map.mp ha
    rw [List.map_singleton,List.mem_singleton] at hb
    exact Nat.ne_of_lt (i.old t ht) (hab.trans hb)

def clearInterval (i : Intervals κ) (handle : ℕ) : Intervals κ where
  live := i.live.filter (·.1 ≠ handle)
  made := i.made
  old := fun t ht => i.old t (List.mem_of_mem_filter ht)
  distinct := i.distinct.sublist (List.filter_sublist.map Prod.fst)

def Live (i : Intervals κ) (handle : ℕ) : Prop := handle ∈ i.live.map Prod.fst

def configOf (i : Intervals κ) (handle : ℕ) : Option κ :=
  (i.live.find? (·.1 = handle)).map Prod.snd

@[simp] theorem length_setInterval (i : Intervals κ) (config : κ) :
    (i.setInterval config).live.length = i.live.length + 1 := by
  simp [setInterval]

theorem live_setInterval (i : Intervals κ) (config : κ) : (i.setInterval config).Live i.made := by
  simp [Live,setInterval]

/-- Handles are distinct, so clearing one that is live takes one interval away. -/
theorem length_clearInterval {i : Intervals κ} {handle : ℕ} (h : i.Live handle) :
    (i.clearInterval handle).live.length + 1 = i.live.length := by
  have key : ∀ live : List (ℕ × κ), (live.map Prod.fst).Nodup → handle ∈ live.map Prod.fst →
      (live.filter (·.1 ≠ handle)).length + 1 = live.length := by
    intro live hd hm
    induction live with
    | nil => simp at hm
    | cons t rest ih =>
        rw [List.map_cons,List.nodup_cons] at hd
        by_cases ht : t.1 = handle
        · have hrest : rest.filter (·.1 ≠ handle) = rest := by
            rw [List.filter_eq_self]
            intro u hu
            have hne : u.1 ≠ handle := by
              rintro rfl
              exact hd.1 (ht ▸ List.mem_map_of_mem hu)
            simpa using hne
          rw [List.filter_cons_of_neg (by simpa using ht),hrest,List.length_cons]
        · have hm' : handle ∈ rest.map Prod.fst := by
            rw [List.map_cons,List.mem_cons] at hm
            exact hm.resolve_left (Ne.symm ht)
          rw [List.filter_cons_of_pos (by simpa using ht),List.length_cons,List.length_cons,
            ih hd.2 hm']
  exact key i.live i.distinct h

end Intervals

/-! ## The listener -/

/-- A poll, by the settings it used; `running` and `active` are what `isRunning` and `getConfig`
said when it began. -/
structure Poll (κ : Type) where
  config : κ
  running : Bool
  active : Option κ

/-- The listener was running with the settings of the poll. -/
def Poll.Current {κ : Type} (q : Poll κ) : Prop := q.running = true ∧ q.active = some q.config

/-- The variables of the listener's module, and the calls of `start` that wait for their first
poll. The last two fields are kept for the statements: the polls begun so far, and how many
calls of `stop` found no handle although the listener was running. -/
structure Process (κ : Type) where
  running : Bool
  activeConfig : Option κ
  intervalHandle : Option ℕ
  starting : List κ
  intervals : Intervals κ
  polls : List (Poll κ)
  missed : ℕ

inductive Op (κ : Type)
  | start (config : κ)
  /-- The first poll of the `i`-th waiting `start` is over. -/
  | polled (i : ℕ)
  | stop
  /-- The interval with this handle fires. -/
  | tick (handle : ℕ)

namespace Process
variable {κ : Type}

def idle : Process κ := ⟨false,none,none,[],.none,[],0⟩

def pollOnce (p : Process κ) (config : κ) : Process κ :=
  { p with polls := p.polls ++ [⟨config,p.running,p.activeConfig⟩] }

def start (p : Process κ) (config : κ) : Process κ :=
  if p.running then p
  else
    let p := { p with
      activeConfig := some config
      running := true }
    { p.pollOnce config with starting := p.starting ++ [config] }

/-- What `start` does after its `await`. -/
def startRest (p : Process κ) (i : ℕ) : Process κ :=
  match p.starting[i]? with
  | none => p
  | some config => { p with
      starting := p.starting.eraseIdx i
      intervalHandle := some p.intervals.made
      intervals := p.intervals.setInterval config }

def stop (p : Process κ) : Process κ :=
  if p.running then
    let p := match p.intervalHandle with
      | some handle => { p with
          intervals := p.intervals.clearInterval handle
          intervalHandle := none }
      | none => { p with missed := p.missed + 1 }
    { p with
      running := false
      activeConfig := none }
  else p

def tick (p : Process κ) (handle : ℕ) : Process κ :=
  match p.intervals.configOf handle with
  | some config => p.pollOnce config
  | none => p

def step (p : Process κ) : Op κ → Process κ
  | .start config => p.start config
  | .polled i => p.startRest i
  | .stop => p.stop
  | .tick handle => p.tick handle

/-- `stop` is not called while a `start` waits for its first poll. -/
def Patient (p : Process κ) (op : Op κ) : Prop :=
  match op with
  | .stop => p.starting = []
  | _ => True

/-! ## Intervals and calls of `start`, counted -/

def counted (running : Bool) : ℕ := if running then 1 else 0

/-- The handle is that of a live interval, and what will poll is accounted for. -/
structure Accounted (p : Process κ) : Prop where
  held : ∀ handle, p.intervalHandle = some handle → p.intervals.Live handle
  count : p.intervals.live.length + p.starting.length = counted p.running + p.missed

theorem accounted_idle : (idle : Process κ).Accounted :=
  ⟨by simp [idle],by simp [idle,counted,Intervals.none]⟩

theorem Accounted.start {p : Process κ} (h : p.Accounted) (config : κ) :
    (p.start config).Accounted := by
  unfold Process.start
  split
  · exact h
  · rename_i hrun
    refine ⟨h.held,?_⟩
    have hc := h.count
    simp only [hrun,counted,pollOnce,List.length_append,List.length_singleton] at hc ⊢
    simp only [Bool.false_eq_true,if_false,if_true] at hc ⊢
    omega

theorem Accounted.startRest {p : Process κ} (h : p.Accounted) (i : ℕ) :
    (p.startRest i).Accounted := by
  unfold Process.startRest
  split
  · exact h
  · rename_i config hi
    constructor
    · intro handle hh
      cases hh
      exact p.intervals.live_setInterval config
    · have hc := h.count
      have hlt := (List.getElem?_eq_some_iff.mp hi).choose
      simp only [Intervals.length_setInterval,List.length_eraseIdx_of_lt hlt]
      omega

theorem Accounted.stop {p : Process κ} (h : p.Accounted) : p.stop.Accounted := by
  unfold Process.stop
  split
  · rename_i hrun
    have hc := h.count
    rw [hrun] at hc
    cases hh : p.intervalHandle with
    | some handle =>
        refine ⟨by simp,?_⟩
        have hl := Intervals.length_clearInterval (h.held handle hh)
        simp only [counted,if_true,Bool.false_eq_true,if_false] at hc ⊢
        omega
    | none =>
        refine ⟨by simp,?_⟩
        simp only [counted,if_true,Bool.false_eq_true,if_false] at hc ⊢
        omega
  · exact h

theorem tick_eq (p : Process κ) (handle : ℕ) :
    p.tick handle = p ∨ ∃ config, (handle,config) ∈ p.intervals.live ∧
      p.tick handle = p.pollOnce config := by
  unfold tick
  split
  · rename_i config hc
    obtain ⟨t,ht,rfl⟩ := Option.map_eq_some_iff.mp hc
    have hk : t.1 = handle := by simpa using List.find?_some ht
    exact .inr ⟨t.2,hk ▸ List.mem_of_find?_eq_some ht,rfl⟩
  · exact .inl rfl

theorem Accounted.step {p : Process κ} (op : Op κ) (h : p.Accounted) : (p.step op).Accounted := by
  cases op with
  | start config => exact h.start config
  | polled i => exact h.startRest i
  | stop => exact h.stop
  | tick handle =>
      change (p.tick handle).Accounted
      rcases p.tick_eq handle with he | ⟨config,-,he⟩
      · rw [he]
        exact h
      · rw [he]
        exact ⟨h.held,h.count⟩

theorem accounted_run (ops : List (Op κ)) : (run step (idle : Process κ) ops).Accounted :=
  run_induction (fun _ op h => h.step op) accounted_idle ops

/-! ## Without a missed stop -/

/-- What the listener has set up: nothing, a first poll, or the interval it has the handle of. -/
inductive Settled (p : Process κ) : Prop
  | stopped (running : p.running = false) (config : p.activeConfig = none)
      (handle : p.intervalHandle = none) (starting : p.starting = []) (live : p.intervals.live = [])
  | starting (config : κ) (running : p.running = true) (active : p.activeConfig = some config)
      (handle : p.intervalHandle = none) (starting : p.starting = [config])
      (live : p.intervals.live = [])
  | polling (config : κ) (handle : ℕ) (running : p.running = true)
      (active : p.activeConfig = some config) (held : p.intervalHandle = some handle)
      (starting : p.starting = []) (live : p.intervals.live = [(handle,config)])

/-- As long as no `stop` was missed. -/
structure InStep (p : Process κ) : Prop where
  missed : p.missed = 0
  settled : p.Settled
  polls : ∀ q ∈ p.polls, q.Current

theorem polls_pollOnce {p : Process κ} {config : κ} (h : ∀ q ∈ p.polls, q.Current)
    (hr : p.running = true) (ha : p.activeConfig = some config) :
    ∀ q ∈ (p.pollOnce config).polls, q.Current := by
  intro q hq
  rcases List.mem_append.mp hq with hq | hq
  · exact h q hq
  · rw [List.mem_singleton.mp hq]
    exact ⟨hr,ha⟩

theorem inStep_idle : (idle : Process κ).InStep :=
  ⟨rfl,.stopped rfl rfl rfl rfl rfl,by simp [idle]⟩

theorem InStep.start {p : Process κ} (h : p.InStep) (config : κ) : (p.start config).InStep := by
  unfold Process.start
  split
  · exact h
  · rename_i hrun
    refine ⟨h.missed,?_,polls_pollOnce h.polls rfl rfl⟩
    cases h.settled with
    | stopped running active handle starting live =>
        exact .starting config rfl rfl handle (by simp [starting]) live
    | starting c running => exact absurd running hrun
    | polling c handle running => exact absurd running hrun

theorem InStep.startRest {p : Process κ} (h : p.InStep) (i : ℕ) : (p.startRest i).InStep := by
  unfold Process.startRest
  split
  · exact h
  · rename_i config hi
    refine ⟨h.missed,?_,h.polls⟩
    cases h.settled with
    | stopped _ _ _ starting => simp [starting] at hi
    | starting c running active handle starting live =>
        -- the waiting call is the only one, and its settings are the active ones
        rw [starting] at hi
        obtain ⟨hlt,hc⟩ := List.getElem?_eq_some_iff.mp hi
        obtain rfl : i = 0 := by simpa using hlt
        obtain rfl : c = config := hc
        exact .polling c p.intervals.made running active rfl (by simp [starting])
          (by simp [Intervals.setInterval,live])
    | polling _ _ _ _ _ starting => simp [starting] at hi

theorem InStep.stop {p : Process κ} (h : p.InStep) (hs : p.starting = []) : p.stop.InStep := by
  unfold Process.stop
  cases h.settled with
  | stopped running => simpa [running] using h
  | starting c _ _ _ starting => simp [starting] at hs
  | polling c handle running active held starting live =>
      simp only [running,held,if_true]
      refine ⟨h.missed,?_,h.polls⟩
      exact .stopped rfl rfl rfl starting (by simp [Intervals.clearInterval,live])

theorem InStep.tick {p : Process κ} (h : p.InStep) (handle : ℕ) : (p.tick handle).InStep := by
  rcases p.tick_eq handle with he | ⟨config,hm,he⟩
  · rw [he]
    exact h
  · rw [he]
    cases h.settled with
    | stopped _ _ _ _ live => simp [live] at hm
    | starting _ _ _ _ _ live => simp [live] at hm
    | polling c t running active held starting live =>
        rw [live,List.mem_singleton] at hm
        obtain ⟨rfl,rfl⟩ := Prod.mk.inj hm
        exact ⟨h.missed,.polling config handle running active held starting live,
          polls_pollOnce h.polls running active⟩

theorem InStep.step {p : Process κ} (h : p.InStep) (op : Op κ) (hop : p.Patient op) :
    (p.step op).InStep := by
  cases op with
  | start config => exact h.start config
  | polled i => exact h.startRest i
  | stop => exact h.stop hop
  | tick handle => exact h.tick handle

theorem inStep_run {ops : List (Op κ)} (hg : Guarded step Patient idle ops) :
    (run step (idle : Process κ) ops).InStep :=
  run_invariant (fun _ op h hop => h.step op hop) inStep_idle hg

/-- A `stop` that comes during the first poll finds no handle. -/
theorem InStep.impatient {p : Process κ} (h : p.InStep) {op : Op κ} (hop : ¬ p.Patient op) :
    (p.step op).missed = 1 := by
  cases op with
  | start config => exact absurd trivial hop
  | polled i => exact absurd trivial hop
  | tick handle => exact absurd trivial hop
  | stop =>
      change p.stop.missed = 1
      cases h.settled with
      | stopped _ _ _ starting => exact absurd starting hop
      | polling _ _ _ _ _ starting => exact absurd starting hop
      | starting c running active handle starting live =>
          simp [Process.stop,running,handle,h.missed]

theorem missed_le_step (p : Process κ) (op : Op κ) : p.missed ≤ (p.step op).missed := by
  cases op with
  | start config =>
      simp only [step,start]
      split <;> exact Nat.le_refl _
  | polled i =>
      simp only [step,startRest]
      split <;> exact Nat.le_refl _
  | stop =>
      simp only [step,stop]
      split
      · cases p.intervalHandle with
        | some handle => exact Nat.le_refl _
        | none => exact Nat.le_succ _
      · exact Nat.le_refl _
  | tick handle =>
      simp only [step,tick]
      split <;> exact Nat.le_refl _

theorem missed_le_run (p : Process κ) (ops : List (Op κ)) : p.missed ≤ (run step p ops).missed :=
  run_induction (I := fun q => p.missed ≤ q.missed)
    (fun q op h => Nat.le_trans h (missed_le_step q op)) (Nat.le_refl p.missed) ops

theorem guarded_of_missed {p : Process κ} {ops : List (Op κ)} (h : p.InStep)
    (hm : (run step p ops).missed = 0) : Guarded step Patient p ops := by
  induction ops generalizing p with
  | nil => trivial
  | cons op ops ih =>
      have hop : p.Patient op := by
        by_contra hop
        have hle := missed_le_run (p.step op) ops
        rw [h.impatient hop] at hle
        rw [run_cons] at hm
        omega
      exact ⟨hop,ih (h.step op hop) hm⟩

/-- After any calls of `start` and `stop`, however their first polls and the intervals come in
between, the live intervals and the calls that still wait for their first poll are one more than
the stops that found no handle if the listener runs, and as many if it does not. No stop finds
none exactly when none comes while a `start` waits; and then every poll is made by a running
listener, with the settings it was started with. -/
theorem intervals_accounted (ops : List (Op κ)) :
    let p := run step idle ops
    p.intervals.live.length + p.starting.length = counted p.running + p.missed ∧
      (p.missed = 0 ↔ Guarded step Patient idle ops) ∧
      (Guarded step Patient idle ops → ∀ q ∈ p.polls, q.Current) := by
  refine ⟨(accounted_run ops).count,⟨guarded_of_missed inStep_idle,?_⟩,?_⟩
  · intro hg
    exact (inStep_run hg).missed
  · intro hg
    exact (inStep_run hg).polls

end Process
end Creditra.HorizonLifecycle
