import Creditra.JobLives
import Mathlib.Algebra.BigOperators.Group.List.Basic
import Mathlib.Algebra.GroupWithZero.Nat

/-!
# Draining the job queue

`drain` of `services/jobQueue.ts` calls `_processTick` until that answers
`false`, and nothing is awaited after this answer. The answer means that no
pending job is due, or that a tick is already under way; in the second case
`drain` is over while a job is in the hands of its handler.

Left to itself, `drain` comes to an end: every event in the life of a job uses
up some of the attempts that the pending jobs have left.
-/
namespace Creditra.JobDrains
open GuardedRuns InsertionMaps JobQueue JobLives

variable {η δ : Type} {retryBackoffMs now since : ℤ} {s s' : Queue η δ}

/-! ## When drain resolves -/

/-- The queue on which a step begins a round of `drain`, if it begins one. -/
def round (s : Queue η δ) (st : Step η δ) : Option (Queue η δ) :=
  if s.ended then none else match st.action with
  | .drain => some s
  | .resume k => match s.returned[k]? with
      | some (.drain,true) => some { s with returned := s.returned.eraseIdx k }
      | _ => none
  | _ => none

/-- The round is the last one: `_processTick` answers `false`. -/
def Resolves (retryBackoffMs : ℤ) (s : Queue η δ) (st : Step η δ) : Prop :=
  ∃ q ∈ round s st, (s.step retryBackoffMs st).returned = q.returned ++ [(.drain,false)]

/-- No job has been taken and not settled, and no pending job is due. -/
def Drained (now : ℤ) (s : Queue η δ) : Prop :=
  s.batch = [] ∧ ∀ job ∈ s.pending, job.due now = false

/-- No tick is under way when a round begins. -/
def Undisturbed (s : Queue η δ) (st : Step η δ) : Prop := (round s st).isSome → s.tick = none

theorem step_round {st : Step η δ} {q : Queue η δ} (h : round s st = some q) :
    s.step retryBackoffMs st = q.processTick .drain st.now ∧ SameJobs s q := by
  unfold round at h
  unfold Queue.step
  split at h
  · cases h
  rename_i halive
  rw [if_neg halive]
  unfold Queue.act
  split at h
  · rename_i haction
    cases h
    rw [haction]
    exact ⟨rfl,⟨rfl,rfl,rfl,rfl,rfl,rfl,rfl,rfl,rfl⟩⟩
  · rename_i k haction
    rw [haction]
    split at h
    · rename_i hk
      cases h
      refine ⟨?_,sameJobs_return s _⟩
      unfold Queue.resume
      simp only [hk]
    · cases h
  · cases h

/-- Between two steps a tick under way awaits a handler. -/
def Awaiting (s : Queue η δ) : Prop := ∀ t ∈ s.tick, t.current.isSome = true

theorem loop_spec (s : Queue η δ) (caller : Caller) (since now : ℤ) (rest : List (Job δ)) :
    Awaiting (s.loop caller since now rest) ∧
      ((s.loop caller since now rest).returned = s.returned ∧
          (s.loop caller since now rest).tick.isSome = true ∨
        (s.loop caller since now rest).returned = s.returned ++ [(caller,true)] ∧
          (s.loop caller since now rest).tick = none) := by
  induction rest generalizing s with
  | nil =>
      refine ⟨?_,.inr ⟨rfl,rfl⟩⟩
      intro t ht
      cases ht
  | cons job rest ih =>
      unfold Queue.loop
      split
      · exact ih (s.deadLetter caller since now job rest)
      · refine ⟨?_,.inl ⟨rfl,rfl⟩⟩
        intro t ht
        cases ht
        rfl

theorem awaiting_processTick (h : Awaiting s) (caller : Caller) (now : ℤ) :
    Awaiting (s.processTick caller now) := by
  unfold Queue.processTick
  dsimp only
  split_ifs
  · exact h
  · exact h
  · exact (loop_spec _ _ _ _ _).1

theorem awaiting_of_tick (h : Awaiting s) (htick : s'.tick = s.tick) : Awaiting s' := by
  unfold Awaiting
  rw [htick]
  exact h

theorem awaiting_breakOff (s : Queue η δ) (caller : Caller) (now : ℤ) (job : Job δ) :
    Awaiting (s.breakOff caller now job) := by
  intro t ht
  cases caller with
  | timer => cases ht
  | drain => cases ht

theorem awaiting_settle (h : Awaiting s) (outcome : Outcome) :
    Awaiting (s.settle retryBackoffMs now outcome) := by
  unfold Queue.settle
  split
  · dsimp only
    split
    · rename_i hunprintable
      rw [hunprintable]
      exact awaiting_breakOff s _ now _
    · exact (loop_spec _ _ _ _ _).1
  · exact h

theorem awaiting_act (h : Awaiting s) (st : Step η δ) :
    Awaiting (s.act retryBackoffMs st) := by
  unfold Queue.act
  split
  · exact awaiting_of_tick h (sameJobs_scheduleIfNeeded _).tick
  · exact h
  · exact awaiting_of_tick h (sameJobs_start s).tick
  · exact awaiting_of_tick h (sameJobs_stop s).tick
  · exact awaiting_processTick h .drain _
  · unfold Queue.fire
    split
    · apply awaiting_processTick
      exact awaiting_of_tick h rfl
    · exact h
  · exact awaiting_settle h _
  · unfold Queue.resume
    split
    · exact awaiting_of_tick h (sameJobs_scheduleIfNeeded _).tick
    · apply awaiting_processTick
      exact awaiting_of_tick h rfl
    · exact h
    · exact h

theorem awaiting_step (h : Awaiting s) (st : Step η δ) :
    Awaiting (s.step retryBackoffMs st) := by
  unfold Queue.step
  split
  · exact h
  · exact awaiting_act h st

/-- Well formed, and not between two handlers. -/
def Settled (s : Queue η δ) : Prop := s.Wf ∧ Awaiting s

theorem settled_new : Settled ({} : Queue η δ) := ⟨wf_new,fun _ ht => nomatch ht⟩

theorem settled_step (s : Queue η δ) (st : Step η δ) (h : Settled s) :
    Settled (s.step retryBackoffMs st) :=
  ⟨wf_step h.1 st,awaiting_step h.2 st⟩

theorem batch_eq_nil_iff (h : Awaiting s) : s.batch = [] ↔ s.tick = none := by
  unfold Queue.batch
  cases htick : s.tick with
  | none => simp
  | some t =>
      obtain ⟨job,hjob⟩ := Option.isSome_iff_exists.mp (h t htick)
      simp [hjob]

/-- What a round answers. -/
theorem processTick_answer (hs : s.Wf) (caller : Caller) (now : ℤ) :
    (s.processTick caller now).returned = s.returned ++ [(caller,false)] ↔
      s.tick ≠ none ∨ ∀ job ∈ s.pending, job.due now = false := by
  have hprocessing := hs.processing
  have hnone : s.pending.filter (Job.due now) = [] ↔ ∀ job ∈ s.pending, job.due now = false := by
    rw [List.filter_eq_nil_iff]
    simp only [Bool.not_eq_true]
  unfold Queue.processTick
  dsimp only
  split_ifs with hbusy hready
  · rw [hprocessing,Option.isSome_iff_ne_none] at hbusy
    exact iff_of_true rfl (.inl hbusy)
  · rw [List.length_eq_zero_iff,hnone] at hready
    exact iff_of_true rfl (.inr hready)
  · rw [List.length_eq_zero_iff,hnone] at hready
    rw [hprocessing,Option.isSome_iff_ne_none,not_not] at hbusy
    refine iff_of_false ?_ ?_
    · rcases (loop_spec (s.take caller now) caller now now
        (s.pending.filter (Job.due now))).2 with ⟨hopen,-⟩ | ⟨hover,-⟩
      · rw [hopen]
        simp [Queue.take]
      · rw [hover]
        simp [Queue.take]
    · rintro (hticking | hwaiting)
      · exact hticking hbusy
      · exact hready hwaiting

theorem processTick_busy (hs : s.Wf) (htick : s.tick ≠ none) (caller : Caller) (now : ℤ) :
    s.processTick caller now = s.giveBack caller false := by
  have hbusy : s.processing = true := by
    rw [hs.processing,Option.isSome_iff_ne_none]
    exact htick
  rw [Queue.processTick,if_pos hbusy]

theorem processTick_none_due (h : ∀ job ∈ s.pending, job.due now = false) (caller : Caller) :
    s.processTick caller now = s.giveBack caller false := by
  have hready : s.pending.filter (Job.due now) = [] := by
    rw [List.filter_eq_nil_iff]
    simpa only [Bool.not_eq_true] using h
  unfold Queue.processTick
  dsimp only
  rw [hready,if_pos List.length_nil,ite_self]

/-- One step: a round that resolves leaves a drained queue unless it met another tick. -/
theorem drained_iff_undisturbed (h : Settled s) (st : Step η δ) :
    (Resolves retryBackoffMs s st → Drained st.now (s.step retryBackoffMs st)) ↔
      Undisturbed s st := by
  unfold Undisturbed Resolves
  cases hround : round s st with
  | none =>
      refine iff_of_true ?_ ?_
      · rintro ⟨q,hq,-⟩
        cases hq
      · intro hsome
        cases hsome
  | some q =>
      obtain ⟨hstep,hsame⟩ := @step_round η δ retryBackoffMs s st q hround
      have hq : q.Wf := hsame.wf h.1
      have hawaiting : Awaiting q := awaiting_of_tick h.2 hsame.tick
      simp only [Option.mem_def,Option.some.injEq,exists_eq_left',Option.isSome_some,forall_const]
      rw [hstep,processTick_answer hq,← hsame.tick]
      constructor
      · intro hdrained
        by_contra htick
        have hnone := (hdrained (.inl htick)).1
        rw [processTick_busy hq htick] at hnone
        exact htick ((batch_eq_nil_iff hawaiting).mp hnone)
      · intro htick hanswer
        have hwaiting : ∀ job ∈ q.pending, job.due st.now = false := by
          cases hanswer with
          | inl hticking => exact absurd htick hticking
          | inr hwaiting => exact hwaiting
        rw [processTick_none_due hwaiting]
        exact ⟨(batch_eq_nil_iff hawaiting).mpr htick,hwaiting⟩

/-- In every run, each `drain` that resolves leaves a drained queue, if and only if no round of a
`drain` begins while a tick is under way. -/
theorem drained_iff (retryBackoffMs : ℤ) (steps : List (Step η δ)) :
    Guarded (Queue.step retryBackoffMs)
      (fun s st => Resolves retryBackoffMs s st → Drained st.now (s.step retryBackoffMs st))
      {} steps ↔ Guarded (Queue.step retryBackoffMs) Undisturbed {} steps :=
  guarded_congr (fun s st h _ => settled_step s st h)
    (fun _ st h => drained_iff_undisturbed h st) settled_new steps

/-- The timer has called a handler when `drain` is called. -/
def drainDuringTick : List (Step Unit String) :=
  [⟨0,.registerHandler "email" ()⟩,⟨0,.start⟩,⟨0,.enqueue "email" "welcome" {}⟩,⟨50,.fire⟩,
    ⟨60,.drain⟩]

theorem drain_leaves_job_in_flight :
    ¬ Guarded (Queue.step 500)
      (fun s st => Resolves 500 s st → Drained st.now (s.step 500 st)) {} drainDuringTick := by
  intro hdrained
  have hresolved := hdrained.2.2.2.2.1 ⟨_,rfl,by decide +kernel⟩
  exact absurd hresolved.1 (by decide +kernel)

/-! ## Attempts are used up -/

/-- The calls a pending job can still have. -/
def attemptsLeft (job : Job δ) : ℕ := (max 1 (job.maxAttempts - job.attempts)).toNat

def callsLeft : Stage δ → ℕ
  | .waiting job => attemptsLeft job
  | .running job => attemptsLeft job - 1
  | .completed _ | .failed _ => 0

/-- A call and its outcome are two events. -/
def eventsLeft : Stage δ → ℕ
  | .waiting job => 2 * attemptsLeft job
  | .running job => 2 * attemptsLeft job - 1
  | .completed _ | .failed _ => 0

/-- Whatever happens to a job is paid out of what its stage is worth. -/
structure Pays (price : Occurrence δ → ℕ) (worth : Stage δ → ℕ) : Prop where
  lives : ∀ (retryBackoffMs : ℤ) (st st' : Stage δ) (o : Occurrence δ),
    Life retryBackoffMs st o st' → price o + worth st' ≤ worth st
  breaks : ∀ (job : Job δ) (now : ℤ),
    price ⟨.failed,job.breakAt now,now⟩ ≤ worth (.running job)

def isCall (o : Occurrence δ) : ℕ := if o.kind = .called then 1 else 0

theorem sum_isCall (events : List (Occurrence δ)) : (events.map isCall).sum = callsIn events := by
  induction events with
  | nil => rfl
  | cons o events ih =>
      rw [List.map_cons,List.sum_cons,ih,callsIn,callsIn,List.countP_cons,isCall]
      simp only [decide_eq_true_eq]
      omega

theorem attemptsLeft_pos (job : Job δ) : 1 ≤ attemptsLeft job := by
  unfold attemptsLeft
  omega

theorem attemptsLeft_retry (retryBackoffMs : ℤ) {job : Job δ} {message : String}
    (hless : ((job.failAt now message).attempts : ℤ) < job.maxAttempts) :
    attemptsLeft ((job.failAt now message).holdBack retryBackoffMs) + 1 = attemptsLeft job := by
  unfold attemptsLeft
  simp only [Job.holdBack,Job.failAt] at hless ⊢
  omega

theorem callsLeft_lives (st st' : Stage δ) (o : Occurrence δ)
    (hlife : Life retryBackoffMs st o st') : isCall o + callsLeft st' ≤ callsLeft st := by
  cases hlife with
  | call job now =>
      have hpos := attemptsLeft_pos job
      simp only [isCall,callsLeft,if_true]
      omega
  | bury job now => simp [isCall,callsLeft]
  | succeed job now => simp [isCall,callsLeft]
  | retry job now message hless =>
      have hretry := attemptsLeft_retry retryBackoffMs hless
      simp only [isCall,callsLeft,reduceCtorEq,if_false]
      omega
  | exhaust job now message hless => simp [isCall,callsLeft]

theorem callsLeft_pays : Pays (isCall : Occurrence δ → ℕ) callsLeft where
  lives _ := callsLeft_lives
  breaks _ _ := Nat.zero_le _

theorem eventsLeft_lives (st st' : Stage δ) (o : Occurrence δ)
    (hlife : Life retryBackoffMs st o st') : 1 + eventsLeft st' ≤ eventsLeft st := by
  cases hlife with
  | call job now =>
      have hpos := attemptsLeft_pos job
      simp only [eventsLeft]
      omega
  | bury job now =>
      have hpos := attemptsLeft_pos job
      simp only [eventsLeft]
      omega
  | succeed job now =>
      have hpos := attemptsLeft_pos job
      simp only [eventsLeft]
      omega
  | retry job now message hless =>
      have hretry := attemptsLeft_retry retryBackoffMs hless
      simp only [eventsLeft]
      omega
  | exhaust job now message hless =>
      have hpos := attemptsLeft_pos job
      simp only [eventsLeft]
      omega

theorem eventsLeft_pays : Pays (fun _ : Occurrence δ => 1) eventsLeft where
  lives _ := eventsLeft_lives
  breaks job _ := by
    have hpos := attemptsLeft_pos job
    simp only [eventsLeft]
    omega

section Paying
variable {may : Job δ → Prop} {price : Occurrence δ → ℕ} {worth : Stage δ → ℕ}

/-- What has happened so far, and what can still happen. -/
def total (price : Occurrence δ → ℕ) (worth : Stage δ → ℕ) (s : Queue η δ) : ℕ :=
  (s.history.map price).sum + (s.stages.map worth).sum

/-- The worth of the jobs as they were enqueued. -/
def funds (worth : Stage δ → ℕ) (s : Queue η δ) : ℕ :=
  (s.enqueued.map fun job => worth (.waiting job)).sum

/-- Only a new job brings in more. -/
theorem total_move (hpays : Pays price worth) (hmove : Move retryBackoffMs now may s s') :
    total price worth s' + funds worth s ≤ total price worth s + funds worth s' := by
  unfold total funds
  cases hmove.jobs with
  | still hstages hhistory henqueued =>
      rw [(hstages.map worth).sum_eq,hhistory,henqueued]
  | enqueued job hstages hhistory henqueued hserial hattempts hmay =>
      rw [(hstages.map worth).sum_eq,hhistory,henqueued,List.map_cons,List.sum_cons,
        List.map_append,List.sum_append,List.map_singleton,List.sum_singleton]
      omega
  | moved st st' o others hlife hnow hbefore hafter hhistory henqueued hcalled hunhandled hidle
      hmay =>
      have hpaid := hpays.lives retryBackoffMs st st' o hlife
      rw [(hbefore.map worth).sum_eq,(hafter.map worth).sum_eq,hhistory,henqueued,List.map_cons,
        List.sum_cons,List.map_cons,List.sum_cons,List.map_append,List.sum_append,
        List.map_singleton,List.sum_singleton]
      omega

theorem total_moves (hpays : Pays price worth) (hmoves : Moves retryBackoffMs now may s s') :
    total price worth s' + funds worth s ≤ total price worth s + funds worth s' := by
  have hsteps := hmoves.2
  clear hmoves
  induction hsteps with
  | refl => exact le_refl _
  | tail _ hmove ih =>
      have hnext := total_move hpays hmove
      omega

/-- Where nothing is enqueued, what happens is paid for. -/
theorem total_le (hpays : Pays price worth) (hmoves : Moves retryBackoffMs now may s s')
    (henqueued : s'.enqueued = s.enqueued) : total price worth s' ≤ total price worth s := by
  have hmoved := total_moves hpays hmoves
  unfold funds at hmoved
  rw [henqueued] at hmoved
  omega

/-- A loop that is left pays for the failure, and the rest of its batch is gone. -/
theorem total_breakOff (hpays : Pays price worth) {caller : Caller} {job : Job δ}
    {rest : List (Job δ)} (htick : s.tick = some ⟨caller,since,some job,rest⟩) :
    total price worth (s.breakOff caller now (job.breakAt now)) ≤ total price worth s := by
  have hhistory : (s.breakOff caller now (job.breakAt now)).history =
      s.history ++ [⟨.failed,job.breakAt now,now⟩] := by
    cases caller <;> rfl
  have hstages : (s.breakOff caller now (job.breakAt now)).stages = s.others [] := by
    unfold Queue.stages Queue.others
    cases caller <;> rfl
  have hpaid := hpays.breaks job now
  have hothers : ((s.others []).map worth).sum ≤ ((s.others rest).map worth).sum := by
    simp only [Queue.others,List.map_append,List.sum_append,List.map_nil,List.sum_nil]
    omega
  unfold total
  rw [hhistory,hstages,((stages_awaiting htick).map worth).sum_eq,List.map_append,
    List.sum_append,List.map_singleton,List.sum_singleton,List.map_cons,List.sum_cons]
  omega

end Paying

/-! ## A drain on its own -/

/-- What the clock and the awaited handler answer next. -/
structure Turn where
  now : ℤ
  outcome : Outcome

/-- `drain` goes on once its `_processTick` has returned; until then its handlers settle. -/
def driven (k : ℕ) (s : Queue η δ) (turn : Turn) : Step η δ :=
  ⟨turn.now,if k < s.returned.length then .resume k else .settle turn.outcome⟩

def advance (retryBackoffMs : ℤ) (k : ℕ) (s : Queue η δ) (turn : Turn) : Queue η δ :=
  s.act retryBackoffMs (driven k s turn)

/-- Nothing is left of the call. -/
def Finished (s₀ s : Queue η δ) : Prop := s.returned = s₀.returned ∧ s.tick = s₀.tick

/-- A call made in `s₀` is under way. The number orders the states between two events. -/
inductive Underway (s₀ s : Queue η δ) : ℕ → Prop where
  | awaiting (since : ℤ) (job : Job δ) (rest : List (Job δ)) (hidle : s₀.tick = none)
      (hreturned : s.returned = s₀.returned)
      (htick : s.tick = some ⟨.drain,since,some job,rest⟩) : Underway s₀ s 0
  | declined (hreturned : s.returned = s₀.returned ++ [(.drain,false)])
      (htick : s.tick = s₀.tick) : Underway s₀ s 1
  | processed (hidle : s₀.tick = none) (hreturned : s.returned = s₀.returned ++ [(.drain,true)])
      (htick : s.tick = none) : Underway s₀ s 2

section Alone
variable {s₀ : Queue η δ} {rest : List (Job δ)}

theorem loop_history_le (s : Queue η δ) (caller : Caller) (since now : ℤ) (rest : List (Job δ)) :
    s.history.length ≤ (s.loop caller since now rest).history.length := by
  induction rest generalizing s with
  | nil => exact le_refl _
  | cons job rest ih =>
      unfold Queue.loop
      split
      · have hle := ih (s.deadLetter caller since now job rest)
        simp only [Queue.deadLetter,List.length_append] at hle ⊢
        omega
      · simp [Queue.call]

theorem loop_history_lt (s : Queue η δ) (caller : Caller) (since now : ℤ) (hrest : rest ≠ []) :
    s.history.length < (s.loop caller since now rest).history.length := by
  cases rest with
  | nil => exact absurd rfl hrest
  | cons job rest =>
      unfold Queue.loop
      split
      · have hle := loop_history_le (s.deadLetter caller since now job rest) caller since now rest
        simp only [Queue.deadLetter,List.length_append,List.length_singleton] at hle ⊢
        omega
      · simp [Queue.call]

theorem settleJob_history (s : Queue η δ) (caller : Caller) (job : Job δ) (outcome : Outcome) :
    (s.settleJob retryBackoffMs caller since now job rest outcome).history.length =
      s.history.length + 1 := by
  cases outcome with
  | resolved => exact List.length_append
  | rejected message =>
      simp only [Queue.settleJob]
      split_ifs
      · exact List.length_append
      · exact List.length_append
  | unprintable => cases caller <;> exact List.length_append

theorem settleJob_returned (s : Queue η δ) (caller : Caller) (job : Job δ) (outcome : Outcome) :
    (s.settleJob retryBackoffMs caller since now job rest outcome).returned = s.returned := by
  cases outcome with
  | resolved => rfl
  | rejected message =>
      simp only [Queue.settleJob]
      split_ifs
      · rfl
      · rfl
  | unprintable => cases caller <;> rfl

theorem underway_loop (hidle : s₀.tick = none) (hreturned : s.returned = s₀.returned) :
    ∃ rank ≤ 2, Underway s₀ (s.loop .drain since now rest) rank := by
  induction rest generalizing s with
  | nil =>
      refine ⟨2,le_refl 2,.processed hidle ?_ rfl⟩
      change s.returned ++ [(.drain,true)] = s₀.returned ++ [(.drain,true)]
      rw [hreturned]
  | cons job rest ih =>
      unfold Queue.loop
      split
      · exact ih hreturned
      · exact ⟨0,Nat.zero_le 2,.awaiting since job rest hidle hreturned rfl⟩

/-- A round of `drain`: it is declined, or something happens to a job. -/
theorem underway_round (hs : s.Wf) (htick : s.tick = s₀.tick)
    (hreturned : s.returned = s₀.returned) :
    Underway s₀ (s.processTick .drain now) 1 ∧
        (s.processTick .drain now).history = s.history ∨
      s.history.length < (s.processTick .drain now).history.length ∧
        ∃ rank ≤ 2, Underway s₀ (s.processTick .drain now) rank := by
  have hdeclined : Underway s₀ (s.giveBack .drain false) 1 := by
    apply Underway.declined
    · change s.returned ++ [(.drain,false)] = s₀.returned ++ [(.drain,false)]
      rw [hreturned]
    · exact htick
  unfold Queue.processTick
  dsimp only
  split_ifs with hbusy hready
  · exact .inl ⟨hdeclined,rfl⟩
  · exact .inl ⟨hdeclined,rfl⟩
  · have hidle : s₀.tick = none := by
      rw [hs.processing,htick] at hbusy
      simpa using hbusy
    have hsome : s.pending.filter (Job.due now) ≠ [] := by
      intro hnil
      rw [hnil] at hready
      exact hready rfl
    exact .inr ⟨loop_history_lt (s.take .drain now) .drain now now hsome,
      underway_loop hidle hreturned⟩

theorem advance_awaiting (hreturned : s.returned = s₀.returned) (turn : Turn) :
    advance retryBackoffMs s₀.returned.length s turn =
      s.settle retryBackoffMs turn.now turn.outcome := by
  unfold advance driven
  rw [hreturned,if_neg (lt_irrefl _)]
  rfl

theorem advance_answered {result : Bool}
    (hreturned : s.returned = s₀.returned ++ [(.drain,result)]) (turn : Turn) :
    advance retryBackoffMs s₀.returned.length s turn =
      if result then { s with returned := s₀.returned }.processTick .drain turn.now
      else { s with returned := s₀.returned } := by
  have hlt : s₀.returned.length < s.returned.length := by
    rw [hreturned]
    simp
  have hlast : s.returned[s₀.returned.length]? = some (.drain,result) := by
    rw [hreturned]
    simp
  have hrest : s.returned.eraseIdx s₀.returned.length = s₀.returned := by
    rw [hreturned,List.eraseIdx_append_of_length_le (le_refl _)]
    simp
  unfold advance driven
  rw [if_pos hlt]
  cases result with
  | true => simp only [Queue.act,Queue.resume,hlast,hrest,if_true]
  | false =>
      simp only [Queue.act,Queue.resume,hlast,hrest,Bool.false_eq_true,if_false]

theorem advance_enqueued (k : ℕ) (turn : Turn) :
    (advance retryBackoffMs k s turn).enqueued = s.enqueued := by
  unfold advance driven
  split_ifs
  · simp only [Queue.act,Queue.resume]
    split
    · exact scheduleIfNeeded_enqueued _
    · exact processTick_enqueued _ _ _
    · rfl
    · rfl
  · exact settle_enqueued s turn.outcome

/-- A handler has settled: its loop goes on, or an exception leaves it and the call is over. -/
theorem underway_settle {job : Job δ} (hidle : s₀.tick = none)
    (hreturned : s.returned = s₀.returned)
    (htick : s.tick = some ⟨.drain,since,some job,rest⟩) (outcome : Outcome) :
    Finished s₀ (s.settle retryBackoffMs now outcome) ∨
      s.history.length < (s.settle retryBackoffMs now outcome).history.length ∧
        ∃ rank ≤ 2, Underway s₀ (s.settle retryBackoffMs now outcome) rank := by
  by_cases houtcome : outcome = .unprintable
  · subst houtcome
    rw [settle_unprintable htick]
    exact .inl ⟨hreturned,hidle.symm⟩
  · rw [settle_of_printable htick houtcome]
    have hsettled := @settleJob_history η δ retryBackoffMs now since rest s .drain job outcome
    have hlooped := loop_history_le
      (s.settleJob retryBackoffMs .drain since now job rest outcome) .drain since now rest
    exact .inr ⟨by omega,
      underway_loop hidle ((settleJob_returned s .drain job outcome).trans hreturned)⟩

/-- One step: the call is finished, or an event has happened, or its caller is nearer the end. -/
theorem underway_advance (hs : s.Wf) {rank : ℕ} (h : Underway s₀ s rank) (turn : Turn) :
    Finished s₀ (advance retryBackoffMs s₀.returned.length s turn) ∨
      ∃ rank', Underway s₀ (advance retryBackoffMs s₀.returned.length s turn) rank' ∧
        3 * s.history.length + rank' <
          3 * (advance retryBackoffMs s₀.returned.length s turn).history.length + rank := by
  cases h with
  | awaiting since job rest hidle hreturned htick =>
      rw [advance_awaiting hreturned]
      rcases @underway_settle η δ retryBackoffMs turn.now since s s₀ rest job hidle hreturned htick
        turn.outcome with hfinished | ⟨hlt,rank',hle,hunder⟩
      · exact .inl hfinished
      · exact .inr ⟨rank',hunder,by omega⟩
  | declined hreturned htick =>
      rw [advance_answered hreturned]
      exact .inl ⟨rfl,htick⟩
  | processed hidle hreturned htick =>
      rw [advance_answered hreturned,if_pos rfl]
      have hwf := (sameJobs_return s s₀.returned).wf hs
      rcases @underway_round η δ turn.now { s with returned := s₀.returned } s₀ hwf
        (htick.trans hidle.symm) rfl with ⟨hunder,hhistory⟩ | ⟨hlt,rank',hle,hunder⟩
      · refine .inr ⟨1,hunder,?_⟩
        rw [hhistory]
        change 3 * s.history.length + 1 < 3 * s.history.length + 2
        omega
      · refine .inr ⟨rank',hunder,?_⟩
        change s.history.length < _ at hlt
        omega

theorem total_advance {price : Occurrence δ → ℕ} {worth : Stage δ → ℕ} (hpays : Pays price worth)
    (hs : s.Wf) (k : ℕ) (turn : Turn) :
    total price worth (advance retryBackoffMs k s turn) ≤ total price worth s := by
  by_cases hconvertible : Convertible s (driven k s turn)
  · exact total_le hpays (moves_act hs (admits_all s _) hconvertible) (advance_enqueued k turn)
  · obtain ⟨caller,since,job,rest,htick,hact⟩ :=
      @breaks_of_not_convertible η δ retryBackoffMs s _ hconvertible
    unfold advance
    rw [hact]
    exact total_breakOff hpays htick

/-- The whole run. The induction is on the events that can still happen, and within one event on
where the caller stands. -/
theorem finishes (hs : s.Wf) {rank : ℕ} (h : Underway s₀ s rank) (turns : ℕ → Turn) :
    ∃ n, Finished s₀ (run (advance retryBackoffMs s₀.returned.length) s
        ((List.range n).map turns)) ∧
      total isCall callsLeft (run (advance retryBackoffMs s₀.returned.length) s
        ((List.range n).map turns)) ≤ total isCall callsLeft s := by
  induction hmeasure : 3 * (s.stages.map eventsLeft).sum + rank using Nat.strong_induction_on
    generalizing s rank turns with
  | _ measure ih =>
      subst hmeasure
      have hcalls := @total_advance η δ retryBackoffMs s _ _ callsLeft_pays hs s₀.returned.length
        (turns 0)
      have hevents := @total_advance η δ retryBackoffMs s _ _ eventsLeft_pays hs
        s₀.returned.length (turns 0)
      rcases underway_advance hs h (turns 0) with hfinished | ⟨rank',hunder,hless⟩
      · exact ⟨1,hfinished,hcalls⟩
      · have hwf : (advance retryBackoffMs s₀.returned.length s (turns 0)).Wf :=
          wf_act hs _
        have hlength (q : Queue η δ) : (q.history.map fun _ => 1).sum = q.history.length := by
          simp
        have hsmaller : 3 * ((advance retryBackoffMs s₀.returned.length s (turns 0)).stages.map
            eventsLeft).sum + rank' < 3 * (s.stages.map eventsLeft).sum + rank := by
          unfold total at hevents
          rw [hlength,hlength] at hevents
          omega
        rcases ih _ hsmaller hwf hunder (fun i => turns (i + 1)) rfl with ⟨n,hdone,hle⟩
        have hturns : (List.range (n + 1)).map turns =
            turns 0 :: (List.range n).map (fun i => turns (i + 1)) := by
          rw [List.range_succ_eq_map,List.map_cons,List.map_map]
          rfl
        refine ⟨n + 1,?_,?_⟩
        · rw [hturns,run_cons]
          exact hdone
        · rw [hturns,run_cons]
          exact hle.trans hcalls

/-- The calls that a well-formed queue at rest can still make. -/
theorem total_at_rest (htick : s.tick = none) :
    total isCall callsLeft s = callsIn s.history + (s.pending.map attemptsLeft).sum := by
  unfold total Queue.stages
  rw [htick,sum_isCall]
  simp [Function.comp_def,callsLeft]

end Alone

/-- Whatever is pending, whatever the handlers do and however the clock goes, `drain` comes to an
end, after no more calls than the pending jobs have attempts left. -/
theorem drain_terminates (retryBackoffMs : ℤ) (s : Queue η δ) (hs : s.Wf) (now : ℤ)
    (turns : ℕ → Turn) :
    ∃ n, Finished s (run (advance retryBackoffMs s.returned.length) (s.drain now)
        ((List.range n).map turns)) ∧
      callsIn (run (advance retryBackoffMs s.returned.length) (s.drain now)
        ((List.range n).map turns)).history ≤
          callsIn s.history + (s.pending.map attemptsLeft).sum := by
  have hround := @underway_round η δ now s s hs rfl rfl
  have hmoves : Moves retryBackoffMs now (fun _ => True) s (s.drain now) :=
    moves_processTick hs .drain
  by_cases htick : s.tick = none
  · -- The tick is this call's own.
    have hrank : ∃ rank, Underway s (s.drain now) rank := by
      rcases hround with ⟨hunder,-⟩ | ⟨-,rank,-,hunder⟩
      · exact ⟨1,hunder⟩
      · exact ⟨rank,hunder⟩
    rcases hrank with ⟨rank,hunder⟩
    rcases @finishes η δ retryBackoffMs _ s hmoves.1 rank hunder turns with ⟨n,hfinished,hle⟩
    refine ⟨n,hfinished,?_⟩
    have hcalls : total isCall callsLeft (s.drain now) ≤ total isCall callsLeft s :=
      total_le callsLeft_pays hmoves (processTick_enqueued s .drain now)
    rw [total_at_rest htick] at hcalls
    rw [total,sum_isCall] at hle
    omega
  · -- A tick is under way: the call is turned away.
    have hdrain : s.drain now = s.giveBack .drain false := processTick_busy hs htick .drain now
    have hreturned : (s.drain now).returned = s.returned ++ [(.drain,false)] := by
      rw [hdrain]
      rfl
    refine ⟨1,?_⟩
    change Finished s (advance retryBackoffMs s.returned.length (s.drain now) (turns 0)) ∧
      callsIn (advance retryBackoffMs s.returned.length (s.drain now) (turns 0)).history ≤ _
    rw [advance_answered hreturned,if_neg Bool.false_ne_true,hdrain]
    exact ⟨⟨rfl,rfl⟩,Nat.le_add_right _ _⟩

/-- Two jobs, of three attempts and of none. -/
def twoWaiting : List (Step Unit String) :=
  [⟨0,.registerHandler "email" ()⟩,⟨0,.enqueue "email" "welcome" {}⟩,
    ⟨0,.enqueue "email" "receipt" ⟨some 0,none,none⟩⟩]

/-- The clock is frozen, there is no backoff, and the handler always fails. -/
theorem drain_terminates_frozen_clock :
    (run (Queue.step 0) {} twoWaiting).Wf ∧
    ((run (Queue.step 0) {} twoWaiting).pending.map attemptsLeft).sum = 4 ∧
    ∃ n, Finished (run (Queue.step 0) {} twoWaiting) (run (advance 0
        (run (Queue.step 0) {} twoWaiting).returned.length)
        ((run (Queue.step 0) {} twoWaiting).drain 0)
        ((List.range n).map fun _ => ⟨0,.rejected "refused"⟩)) ∧
      callsIn (run (advance 0 (run (Queue.step 0) {} twoWaiting).returned.length)
        ((run (Queue.step 0) {} twoWaiting).drain 0)
        ((List.range n).map fun _ => ⟨0,.rejected "refused"⟩)).history ≤
          callsIn (run (Queue.step 0) {} twoWaiting).history +
            ((run (Queue.step 0) {} twoWaiting).pending.map attemptsLeft).sum := by
  have hwf : (run (Queue.step 0) {} twoWaiting).Wf := ⟨rfl,fun t ht => nomatch ht⟩
  exact ⟨hwf,by decide +kernel,drain_terminates 0 _ hwf 0 fun _ => ⟨0,.rejected "refused"⟩⟩

end Creditra.JobDrains
