import Creditra.JobQueue
import Mathlib.Data.List.Range

/-!
# The life of a job

Seen from one job, the queue is a small machine: the job waits, its handler is
called, and then it is completed, waits again, or ends among the failed ones.
The queue moves at most one job at a time. Conservation says that the jobs it
holds are the ones that were enqueued, and the rules on attempts and visibility
are read off the story of a single job. A handler that fails with a value that
has no text takes its job, and the rest of the batch, out of the queue.
-/
namespace Creditra.JobLives
open GuardedRuns InsertionMaps JobQueue

variable {η δ : Type} {retryBackoffMs now : ℤ} {may : Job δ → Prop} {s s' : Queue η δ}

/-! ## Conservation -/

/-- The fields that are fixed when a job is enqueued. -/
def fixed (job : Job δ) : ℕ × String × String × δ × ℤ × ℤ :=
  (job.serial,job.id,job.type,job.payload,job.maxAttempts,job.createdAt)

def isEnqueue (st : Step η δ) : Bool :=
  match st.action with
  | .enqueue _ _ _ => true
  | _ => false

theorem life_fixed {st st' : Stage δ} {o : Occurrence δ} (h : Life retryBackoffMs st o st') :
    fixed o.job = fixed st.job ∧ fixed st'.job = fixed st.job := by
  cases h <;> exact ⟨rfl,rfl⟩

structure Conserved (s : Queue η δ) : Prop where
  fixed : (s.stages.map fun st => fixed st.job).Perm (s.enqueued.map fixed)
  serials : s.enqueued.map Job.serial = List.range s.enqueued.length

theorem conserved_new : Conserved ({} : Queue η δ) := ⟨List.Perm.refl _,rfl⟩

theorem Conserved.move (h : Conserved s) (hmove : Move retryBackoffMs now may s s') :
    Conserved s' := by
  cases hmove.jobs with
  | still hstages hhistory henqueued =>
      constructor
      · rw [henqueued]
        exact (hstages.map _).trans h.fixed
      · rw [henqueued]
        exact h.serials
  | enqueued job hstages hhistory henqueued hserial hattempts hmay =>
      constructor
      · rw [henqueued,List.map_append,List.map_singleton]
        apply (hstages.map _).trans
        exact (h.fixed.cons _).trans (List.perm_append_singleton _ _).symm
      · rw [henqueued,List.map_append,List.map_singleton,List.length_append,List.length_singleton,
          List.range_succ,h.serials,hserial]
  | moved st st' o others hlife hnow hbefore hafter hhistory henqueued hcalled hunhandled hidle
      hmay =>
      constructor
      · rw [henqueued]
        apply (hafter.map _).trans
        rw [List.map_cons,(life_fixed hlife).2]
        exact (hbefore.map fun st => JobLives.fixed st.job).symm.trans h.fixed
      · rw [henqueued]
        exact h.serials

/-- What each move keeps, a step keeps. -/
theorem moves_invariant (I : Queue η δ → Prop)
    (keep : ∀ s s', I s → Move retryBackoffMs now may s s' → I s') (hs : I s)
    (h : Moves retryBackoffMs now may s s') : I s' := by
  have hmoves := h.2
  clear h
  induction hmoves with
  | refl => exact hs
  | tail _ hmove ih => exact keep _ _ ih hmove

/-- A process that is alive and has lost no job. -/
structure Whole (s : Queue η δ) : Prop where
  wf : s.Wf
  conserved : Conserved s
  alive : s.ended = false

theorem whole_new : Whole ({} : Queue η δ) := ⟨wf_new,conserved_new,rfl⟩

theorem Whole.step (s : Queue η δ) (st : Step η δ) (h : Whole s) (hg : Convertible s st) :
    Whole (s.step retryBackoffMs st) := by
  have hmoves : Moves retryBackoffMs st.now (fun _ => True) s (s.step retryBackoffMs st) :=
    moves_step h.wf (admits_all s st) hg
  refine ⟨hmoves.1,moves_invariant Conserved (fun _ _ => Conserved.move) h.conserved hmoves,?_⟩
  exact moves_invariant (fun q => q.ended = false)
    (fun _ _ hs hmove => hmove.ended.trans hs) h.alive hmoves

theorem step_of_alive (h : s.ended = false) (st : Step η δ) :
    s.step retryBackoffMs st = s.act retryBackoffMs st := by
  rw [Queue.step,h,if_neg Bool.false_ne_true]

theorem stages_map_job (s : Queue η δ) :
    s.stages.map Stage.job = s.pending ++ s.batch ++ s.completed ++ s.failed := by
  have hjobs : ∀ (f : Job δ → Stage δ), (∀ job, (f job).job = job) → ∀ jobs : List (Job δ),
      (jobs.map f).map Stage.job = jobs := by
    intro f hf jobs
    rw [List.map_map]
    exact (List.map_congr_left fun job _ => hf job).trans (List.map_id jobs)
  unfold Queue.stages Queue.batch
  simp only [List.map_append]
  rw [hjobs _ fun _ => rfl,hjobs _ fun _ => rfl,hjobs _ fun _ => rfl]
  cases s.tick with
  | none => rfl
  | some t =>
      simp only [Option.map_some,Option.getD_some,Tick.stages,List.map_append]
      rw [hjobs _ fun _ => rfl,hjobs _ fun _ => rfl]

@[simp] theorem loop_enqueued (s : Queue η δ) (caller : Caller) (since now : ℤ)
    (jobs : List (Job δ)) : (s.loop caller since now jobs).enqueued = s.enqueued := by
  induction jobs generalizing s with
  | nil => rfl
  | cons job rest ih =>
      unfold Queue.loop
      split
      · exact ih _
      · rfl

@[simp] theorem scheduleIfNeeded_enqueued (s : Queue η δ) :
    s.scheduleIfNeeded.enqueued = s.enqueued := (sameJobs_scheduleIfNeeded s).enqueued

@[simp] theorem processTick_enqueued (s : Queue η δ) (caller : Caller) (now : ℤ) :
    (s.processTick caller now).enqueued = s.enqueued := by
  unfold Queue.processTick
  split
  · rfl
  · dsimp only
    split
    · rfl
    · exact loop_enqueued _ _ _ _ _

@[simp] theorem settleJob_enqueued (s : Queue η δ) (caller : Caller) (since : ℤ) (job : Job δ)
    (rest : List (Job δ)) (outcome : Outcome) :
    (s.settleJob retryBackoffMs caller since now job rest outcome).enqueued = s.enqueued := by
  cases outcome with
  | resolved => rfl
  | rejected message =>
      simp only [Queue.settleJob]
      split <;> rfl
  | unprintable => cases caller <;> rfl

@[simp] theorem settle_enqueued (s : Queue η δ) (outcome : Outcome) :
    (s.settle retryBackoffMs now outcome).enqueued = s.enqueued := by
  unfold Queue.settle
  split
  · dsimp only
    split
    · exact settleJob_enqueued _ _ _ _ _ _
    · rw [loop_enqueued,settleJob_enqueued]
  · rfl

theorem act_enqueued_length (s : Queue η δ) (st : Step η δ) :
    (s.act retryBackoffMs st).enqueued.length =
      s.enqueued.length + if isEnqueue st then 1 else 0 := by
  obtain ⟨now,action⟩ := st
  cases action with
  | enqueue type payload options =>
      simp [Queue.act,Queue.enqueue,Queue.push,isEnqueue]
  | registerHandler type handler => rfl
  | start => simp [Queue.act,isEnqueue,(sameJobs_start s).enqueued]
  | stop => simp [Queue.act,isEnqueue,(sameJobs_stop s).enqueued]
  | drain => simp [Queue.act,Queue.drain,isEnqueue]
  | fire =>
      simp only [Queue.act,Queue.fire,isEnqueue]
      split <;> simp
  | settle outcome => simp [Queue.act,isEnqueue]
  | resume k =>
      simp only [Queue.act,Queue.resume,isEnqueue]
      split <;> simp

theorem enqueued_length_run (h : Whole s) {steps : List (Step η δ)}
    (hg : Guarded (Queue.step retryBackoffMs) Convertible s steps) :
    (run (Queue.step retryBackoffMs) s steps).enqueued.length =
      s.enqueued.length + steps.countP isEnqueue := by
  induction steps generalizing s with
  | nil => rfl
  | cons st steps ih =>
      rw [run_cons,ih (Whole.step s st h hg.1) hg.2,step_of_alive h.alive,act_enqueued_length,
        List.countP_cons]
      omega

/-- The jobs that are pending, in the batch, completed or failed are the jobs
that were enqueued, each once. -/
def EachInOnePlace (s : Queue η δ) : Prop :=
  ((s.pending ++ s.batch ++ s.completed ++ s.failed).map fixed).Perm (s.enqueued.map fixed)

theorem Conserved.eachInOnePlace (h : Conserved s) : EachInOnePlace s := by
  unfold EachInOnePlace
  rw [← stages_map_job,List.map_map]
  exact h.fixed

theorem breakOff_places (s : Queue η δ) (caller : Caller) (now : ℤ) (job : Job δ) :
    (s.breakOff caller now job).pending = s.pending ∧ (s.breakOff caller now job).batch = [] ∧
      (s.breakOff caller now job).completed = s.completed ∧
      (s.breakOff caller now job).failed = s.failed ∧
      (s.breakOff caller now job).enqueued = s.enqueued := by
  cases caller with
  | timer => exact ⟨rfl,rfl,rfl,rfl,rfl⟩
  | drain => exact ⟨rfl,rfl,rfl,rfl,rfl⟩

/-- The job in hand is in no place any more. -/
theorem Whole.loses (s : Queue η δ) (st : Step η δ) (h : Whole s) (hnot : ¬ Convertible s st) :
    ¬ EachInOnePlace (s.step retryBackoffMs st) := by
  obtain ⟨caller,since,job,rest,htick,hact⟩ :=
    @breaks_of_not_convertible η δ retryBackoffMs s st hnot
  obtain ⟨hpending,hbatch,hcompleted,hfailed,henqueued⟩ :=
    breakOff_places s caller st.now (job.breakAt st.now)
  intro hplaces
  have hafter := hplaces.length_eq
  have hbefore := h.conserved.eachInOnePlace.length_eq
  rw [step_of_alive h.alive,hact,hpending,hbatch,hcompleted,hfailed,henqueued] at hafter
  simp [Queue.batch,htick] at hbefore hafter
  omega

/-- At every point of a run every job enqueued so far is in one place, if and
only if no value that an awaited handler throws is without a text. -/
theorem jobs_conserved_iff (retryBackoffMs : ℤ) (steps : List (Step η δ)) :
    (∀ pre, pre <+: steps → let s := run (Queue.step retryBackoffMs) {} pre
      EachInOnePlace s ∧ s.enqueued.map Job.serial = List.range (pre.countP isEnqueue)) ↔
      Guarded (Queue.step retryBackoffMs) Convertible ({} : Queue η δ) steps := by
  constructor
  · intro hplaces
    apply (passed_iff_guarded Whole.step (fun _ h => h.conserved.eachInOnePlace) Whole.loses
      whole_new steps).mp
    intro pre hpre
    exact (hplaces pre hpre).1
  · intro hg pre hpre
    obtain ⟨rest,rfl⟩ := hpre
    have hpre := ((guarded_append _ _ _ pre rest).mp hg).1
    have hwhole : Whole (run (Queue.step retryBackoffMs) ({} : Queue η δ) pre) :=
      run_invariant Whole.step whole_new hpre
    refine ⟨hwhole.conserved.eachInOnePlace,?_⟩
    rw [hwhole.conserved.serials,enqueued_length_run whole_new hpre]
    simp

/-- `drain` hands the only job to its handler, which throws a value without a text. -/
def thrownInDrain (maxAttempts : Option ℤ) : List (Step Unit String) :=
  [⟨0,.registerHandler "email" ()⟩,⟨0,.enqueue "email" "welcome" ⟨maxAttempts,none,none⟩⟩,
    ⟨10,.drain⟩,⟨20,.settle .unprintable⟩]

theorem job_lost_in_drain :
    ¬ EachInOnePlace (run (Queue.step 500) {} (thrownInDrain none)) := by
  unfold EachInOnePlace
  decide +kernel

/-! ## The story of one job -/

/-- What happened to one job so far, in order, and where it stands. -/
inductive Story (retryBackoffMs : ℤ) (first : Job δ) :
    List (Occurrence δ) → Stage δ → Prop where
  | enqueued : Story retryBackoffMs first [] (.waiting first)
  | next (events : List (Occurrence δ)) (st st' : Stage δ) (o : Occurrence δ)
      (hstory : Story retryBackoffMs first events st) (hlife : Life retryBackoffMs st o st')
      (hlater : ∀ o' ∈ events, o'.now ≤ o.now)
      (hdue : o.kind = .called → o.job.nextRunAt ≤ o.now)
      (hfresh : o.kind = .unhandled → ∀ o' ∈ events, o'.kind ≠ .called) :
      Story retryBackoffMs first (events ++ [o]) st'

def callsIn (events : List (Occurrence δ)) : ℕ := events.countP (·.kind = .called)

@[simp] theorem callsIn_append (events events' : List (Occurrence δ)) :
    callsIn (events ++ events') = callsIn events + callsIn events' := List.countP_append

theorem callsIn_eq_zero {events : List (Occurrence δ)} :
    callsIn events = 0 ↔ ∀ o ∈ events, o.kind ≠ .called := by
  simp [callsIn,List.countP_eq_zero]

/-- The calls that a job at this stage has had. -/
def callsAt : Stage δ → ℕ
  | .waiting job | .failed job => job.attempts
  | .running job | .completed job => job.attempts + 1

/-- The attempts that a job at this stage may have used. -/
def Within : Stage δ → Prop
  | .waiting job | .running job | .completed job =>
      job.attempts = 0 ∨ (job.attempts : ℤ) < job.maxAttempts
  | .failed job => (job.attempts : ℤ) ≤ max 1 job.maxAttempts

/-- The last attempt allowed has failed, or there was no handler. -/
def Terminal (maxAttempts : ℤ) (o : Occurrence δ) : Prop :=
  o.kind = .failed ∧ maxAttempts ≤ o.job.attempts ∨ o.kind = .unhandled

section Stories
variable {first : Job δ} {events : List (Occurrence δ)} {st : Stage δ}

theorem Story.fixed (h : Story retryBackoffMs first events st) :
    fixed st.job = fixed first ∧ ∀ o ∈ events, JobLives.fixed o.job = JobLives.fixed first := by
  induction h with
  | enqueued => exact ⟨rfl,by simp⟩
  | next events st st' o hstory hlife hlater hdue hfresh ih =>
      obtain ⟨hbefore,hevents⟩ := ih
      obtain ⟨hevent,hafter⟩ := life_fixed hlife
      refine ⟨hafter.trans hbefore,?_⟩
      intro o' ho'
      rcases List.mem_append.mp ho' with hold | hnew
      · exact hevents o' hold
      · rw [List.mem_singleton.mp hnew]
        exact hevent.trans hbefore

theorem Story.serial (h : Story retryBackoffMs first events st) :
    st.job.serial = first.serial := congrArg Prod.fst h.fixed.1

theorem fixed_type {job job' : Job δ} (h : fixed job = fixed job') : job.type = job'.type := by
  simp only [fixed,Prod.mk.injEq] at h
  exact h.2.2.1

theorem Story.maxAttempts (h : Story retryBackoffMs first events st) :
    st.job.maxAttempts = first.maxAttempts := by
  have hfixed := h.fixed.1
  simp only [JobLives.fixed,Prod.mk.injEq] at hfixed
  exact hfixed.2.2.2.2.1

theorem Story.type (h : Story retryBackoffMs first events st) {o : Occurrence δ}
    (ho : o ∈ events) : o.job.type = first.type := fixed_type (h.fixed.2 o ho)

theorem life_calls {st' : Stage δ} {o : Occurrence δ} (h : Life retryBackoffMs st o st') :
    callsAt st' = callsAt st + callsIn [o] := by
  cases h <;> rfl

theorem Story.calls (h : Story retryBackoffMs first events st) (hfirst : first.attempts = 0) :
    callsIn events = callsAt st := by
  induction h with
  | enqueued => exact hfirst.symm
  | next events st st' o hstory hlife hlater hdue hfresh ih =>
      rw [callsIn_append,ih,life_calls hlife]

theorem life_within {st' : Stage δ} {o : Occurrence δ} (h : Life retryBackoffMs st o st')
    (hst : Within st) : Within st' := by
  cases h with
  | call job now => exact hst
  | succeed job now => exact hst
  | bury job now =>
      simp only [Within] at hst ⊢
      omega
  | retry job now message hless => exact .inr hless
  | exhaust job now message hless =>
      simp only [Within,Job.failAt] at hst hless ⊢
      omega

theorem Story.within (h : Story retryBackoffMs first events st) (hfirst : first.attempts = 0) :
    Within st := by
  induction h with
  | enqueued => exact .inl hfirst
  | next events st st' o hstory hlife hlater hdue hfresh ih => exact life_within hlife ih

theorem Story.bounded (h : Story retryBackoffMs first events st) (hfirst : first.attempts = 0) :
    (callsIn events : ℤ) ≤ max 1 first.maxAttempts := by
  have hwithin := h.within hfirst
  rw [h.calls hfirst,← h.maxAttempts]
  cases st <;> simp only [Within,callsAt,Stage.job] at hwithin ⊢ <;> omega

theorem Story.visible (h : Story retryBackoffMs first events st) :
    ∀ o ∈ events, o.kind = .called → o.job.nextRunAt ≤ o.now := by
  induction h with
  | enqueued => simp
  | next events st st' o hstory hlife hlater hdue hfresh ih =>
      intro o' ho' hkind
      rcases List.mem_append.mp ho' with hold | hnew
      · exact ih o' hold hkind
      · rw [List.mem_singleton.mp hnew] at hkind ⊢
        exact hdue hkind

/-- Every failure lies at least the visibility timeout before the next attempt. -/
theorem Story.held (h : Story retryBackoffMs first events st) {job : Job δ}
    (hst : st = .waiting job) :
    ∀ o ∈ events, o.kind = .failed → o.now + retryBackoffMs ≤ job.nextRunAt := by
  induction h generalizing job with
  | enqueued => simp
  | next events st st' o hstory hlife hlater hdue hfresh ih =>
      intro o' ho' hkind
      cases hlife with
      | retry job' now message hless =>
          cases hst
          have hnow : o'.now ≤ now := by
            rcases List.mem_append.mp ho' with hold | hnew
            · exact hlater o' hold
            · cases List.mem_singleton.mp hnew
              exact Int.le_refl now
          simp only [Job.holdBack,Job.failAt]
          omega
      | call | bury | succeed | exhaust => cases hst

/-- The job waits or runs. -/
def isOpen : Stage δ → Bool
  | .waiting _ | .running _ => true
  | .completed _ | .failed _ => false

theorem life_open {st' : Stage δ} {o : Occurrence δ} (h : Life retryBackoffMs st o st') :
    isOpen st = true := by
  cases h <;> rfl

/-- Only an event that ends an open story is a success or terminal. -/
theorem life_ends {st' : Stage δ} {o : Occurrence δ} (h : Life retryBackoffMs st o st') :
    (o.kind = .succeeded ↔ ∃ job, st' = .completed job) ∧
      (Terminal st.job.maxAttempts o ↔ ∃ job, st' = .failed job) := by
  cases h with
  | call | bury | succeed => simp [Terminal]
  | retry job now message hless =>
      simp only [Job.failAt] at hless
      simp [Terminal,Job.holdBack,Job.failAt,Stage.job]
      omega
  | exhaust job now message hless =>
      simp only [Job.failAt] at hless
      simp [Terminal,Job.failAt,Stage.job]
      omega

theorem Story.of_open (h : Story retryBackoffMs first events st) (hst : isOpen st = true) :
    ∀ o ∈ events, o.kind ≠ .succeeded ∧ ¬ Terminal first.maxAttempts o := by
  induction h with
  | enqueued => simp
  | next events st st' o hstory hlife hlater hdue hfresh ih =>
      intro o' ho'
      rcases List.mem_append.mp ho' with hold | hnew
      · exact ih (life_open hlife) o' hold
      · obtain ⟨hsucceeded,hterminal⟩ := life_ends hlife
        rw [List.mem_singleton.mp hnew,← hstory.maxAttempts,ne_eq,hsucceeded,hterminal]
        cases st' <;> simp [isOpen] at hst ⊢

/-- A job is among the failed ones exactly when something terminal has happened. -/
theorem Story.failed_iff (h : Story retryBackoffMs first events st) :
    (∃ job, st = .failed job) ↔ ∃ o ∈ events, Terminal first.maxAttempts o := by
  cases h with
  | enqueued => simp
  | next events st st' o hstory hlife hlater hdue hfresh =>
      rw [← (life_ends hlife).2,hstory.maxAttempts]
      constructor
      · intro hterminal
        exact ⟨o,by simp,hterminal⟩
      · rintro ⟨o',ho',hterminal⟩
        rcases List.mem_append.mp ho' with hold | hnew
        · exact absurd hterminal (hstory.of_open (life_open hlife) o' hold).2
        · rw [← List.mem_singleton.mp hnew]
          exact hterminal

theorem Story.spaced (h : Story retryBackoffMs first events st) :
    events.Pairwise fun o o' =>
      o.kind = .failed → o'.kind = .called → o.now + retryBackoffMs ≤ o'.now := by
  induction h with
  | enqueued => exact .nil
  | next events st st' o hstory hlife hlater hdue hfresh ih =>
      rw [List.pairwise_append]
      refine ⟨ih,List.pairwise_singleton _ _,?_⟩
      intro o' ho' o'' ho'' hfailed hcalled
      rw [List.mem_singleton.mp ho''] at hcalled ⊢
      cases hlife with
      | call job now =>
          have hheld := hstory.held rfl o' ho' hfailed
          have hnow := hdue rfl
          simp only at hnow ⊢
          omega
      | bury | succeed | retry | exhaust => cases hcalled

theorem Story.final (h : Story retryBackoffMs first events st) :
    events.Pairwise fun o o' => o.kind = .succeeded → o'.kind ≠ .called := by
  induction h with
  | enqueued => exact .nil
  | next events st st' o hstory hlife hlater hdue hfresh ih =>
      rw [List.pairwise_append]
      refine ⟨ih,List.pairwise_singleton _ _,?_⟩
      intro o' ho' o'' _ hsucceeded
      exact absurd hsucceeded (hstory.of_open (life_open hlife) o' ho').1

/-- A call and a failure are numbered by the calls before them. -/
theorem Story.numbered (h : Story retryBackoffMs first events st) (hfirst : first.attempts = 0) :
    ∀ (k : ℕ) (o : Occurrence δ), events[k]? = some o → o.kind = .called ∨ o.kind = .failed →
      o.job.attempts = callsIn (events.take k) := by
  induction h with
  | enqueued => simp
  | next events st st' o hstory hlife hlater hdue hfresh ih =>
      intro k o' hk hkind
      rcases joined_cases hk with hold | ⟨rfl,rfl⟩
      · have hlt : k < events.length := (List.getElem?_eq_some_iff.mp hold).choose
        rw [List.take_append_of_le_length (by omega)]
        exact ih k o' hold hkind
      · rw [List.take_left,hstory.calls hfirst]
        cases hlife with
        | call | retry | exhaust => rfl
        | bury | succeed => simp at hkind

theorem Story.untried (h : Story retryBackoffMs first events st) {job : Job δ}
    (hst : st = .waiting job) (hattempts : job.attempts = 0) : job = first := by
  cases h with
  | enqueued =>
      cases hst
      rfl
  | next events st st' o hstory hlife hlater hdue hfresh =>
      cases hlife with
      | retry job' now message hless =>
          cases hst
          cases hattempts
      | call | bury | succeed | exhaust => cases hst

/-- The first call finds the job as it was enqueued. -/
theorem Story.first_call (h : Story retryBackoffMs first events st) :
    ∀ o ∈ events, o.kind = .called → o.job.attempts = 0 → o.job = first := by
  induction h with
  | enqueued => simp
  | next events st st' o hstory hlife hlater hdue hfresh ih =>
      intro o' ho' hkind hattempts
      rcases List.mem_append.mp ho' with hold | hnew
      · exact ih o' hold hkind hattempts
      · rw [List.mem_singleton.mp hnew] at hkind hattempts ⊢
        cases hlife with
        | call job now => exact hstory.untried rfl hattempts
        | bury | succeed | retry | exhaust => cases hkind

theorem Story.unhandled (h : Story retryBackoffMs first events st) {o : Occurrence δ}
    (ho : o ∈ events) (hkind : o.kind = .unhandled) : callsIn events = 0 := by
  cases h with
  | enqueued => simp at ho
  | next events st st' o' hstory hlife hlater hdue hfresh =>
      rcases List.mem_append.mp ho with hold | hnew
      · exact absurd (.inr hkind) (hstory.of_open (life_open hlife) o hold).2
      · rw [List.mem_singleton.mp hnew] at hkind
        rw [callsIn_append,callsIn_eq_zero.mpr (hfresh hkind)]
        simp [callsIn,hkind]

end Stories

/-! ## The queue tells these stories -/

def eventsOf (s : Queue η δ) (serial : ℕ) : List (Occurrence δ) :=
  s.history.filter (·.job.serial = serial)

theorem eventsOf_same (h : s'.history = s.history) (serial : ℕ) :
    eventsOf s' serial = eventsOf s serial := by
  unfold eventsOf
  rw [h]

theorem eventsOf_joined {o : Occurrence δ} (h : s'.history = s.history ++ [o]) {serial : ℕ}
    (ho : o.job.serial = serial) : eventsOf s' serial = eventsOf s serial ++ [o] := by
  unfold eventsOf
  rw [h,List.filter_append,List.filter_singleton]
  simp [ho]

theorem eventsOf_other {o : Occurrence δ} (h : s'.history = s.history ++ [o]) {serial : ℕ}
    (ho : o.job.serial ≠ serial) : eventsOf s' serial = eventsOf s serial := by
  unfold eventsOf
  rw [h,List.filter_append,List.filter_singleton]
  simp [ho]

theorem mem_eventsOf {serial : ℕ} {o : Occurrence δ} :
    o ∈ eventsOf s serial ↔ o ∈ s.history ∧ o.job.serial = serial := by
  simp [eventsOf]

/-- Nothing on record lies after this instant. -/
def Until (s : Queue η δ) (now : ℤ) : Prop :=
  (∀ o ∈ s.history, o.now ≤ now) ∧ ∀ t ∈ s.tick, t.now ≤ now

structure Told (retryBackoffMs : ℤ) (s : Queue η δ) : Prop where
  conserved : Conserved s
  untried : ∀ job ∈ s.enqueued, job.attempts = 0
  known : ∀ o ∈ s.history, o.job.serial < s.enqueued.length
  registered : ∀ o ∈ s.history, o.kind = .called → (s.handlers.get o.job.type).isSome
  stories : ∀ st ∈ s.stages, ∃ first ∈ s.enqueued,
    Story retryBackoffMs first (eventsOf s st.job.serial) st

theorem told_new : Told retryBackoffMs ({} : Queue η δ) where
  conserved := conserved_new
  untried _ h := nomatch h
  known _ h := nomatch h
  registered _ h := nomatch h
  stories _ h := nomatch h

theorem Until.move (h : Until s now) (hmove : Move retryBackoffMs now may s s') : Until s' now := by
  constructor
  · intro o ho
    cases hmove.jobs with
    | still hstages hhistory henqueued => exact h.1 o (hhistory ▸ ho)
    | enqueued job hstages hhistory henqueued hserial hattempts hmay => exact h.1 o (hhistory ▸ ho)
    | moved st st' o' others hlife hnow hbefore hafter hhistory henqueued hcalled hunhandled hidle
      hmay =>
        rw [hhistory] at ho
        rcases List.mem_append.mp ho with hold | hnew
        · exact h.1 o hold
        · rw [List.mem_singleton.mp hnew]
          exact Int.le_of_eq hnow
  · intro t' ht'
    rcases hmove.since t' ht' with hnow | ⟨t,ht,heq⟩
    · exact Int.le_of_eq hnow
    · rw [heq]
      exact h.2 t ht

theorem Conserved.serial_lt (h : Conserved s) {job : Job δ} (hjob : job ∈ s.enqueued) :
    job.serial < s.enqueued.length := by
  have hmem : job.serial ∈ s.enqueued.map Job.serial := List.mem_map_of_mem hjob
  rw [h.serials] at hmem
  exact List.mem_range.mp hmem

theorem Conserved.eq_of_serial (h : Conserved s) {job job' : Job δ} (hjob : job ∈ s.enqueued)
    (hjob' : job' ∈ s.enqueued) (hserial : job.serial = job'.serial) : job = job' := by
  have hnodup : (s.enqueued.map Job.serial).Nodup := by
    rw [h.serials]
    exact List.nodup_range
  exact List.inj_on_of_nodup_map hnodup hjob hjob' hserial

theorem Conserved.stage_of (h : Conserved s) {job : Job δ} (hjob : job ∈ s.enqueued) :
    ∃ st ∈ s.stages, st.job.serial = job.serial := by
  have hmem : JobLives.fixed job ∈ s.stages.map fun st => JobLives.fixed st.job :=
    h.fixed.mem_iff.mpr (List.mem_map_of_mem hjob)
  obtain ⟨st,hst,hfixed⟩ := List.mem_map.mp hmem
  exact ⟨st,hst,congrArg Prod.fst hfixed⟩

theorem serials_nodup (h : Conserved s) : (s.stages.map fun st => st.job.serial).Nodup := by
  have hperm := h.fixed.map Prod.fst
  simp only [List.map_map] at hperm
  have hserials : s.enqueued.map (Prod.fst ∘ JobLives.fixed) = List.range s.enqueued.length :=
    h.serials
  rw [hserials] at hperm
  exact hperm.symm.nodup List.nodup_range

/-- A job that goes on is none of the others. -/
theorem Conserved.serial_ne (h : Conserved s) {st st' : Stage δ} {others : List (Stage δ)}
    (hstages : s.stages.Perm (st :: others)) (hother : st' ∈ others) :
    st.job.serial ≠ st'.job.serial := by
  have hnodup := ((hstages.map fun st => st.job.serial).nodup_iff).mp (serials_nodup h)
  rw [List.map_cons,List.nodup_cons] at hnodup
  intro heq
  apply hnodup.1
  rw [heq]
  exact List.mem_map_of_mem hother

theorem Told.no_events (h : Told retryBackoffMs s) {serial : ℕ}
    (hserial : serial = s.enqueued.length) : eventsOf s serial = [] := by
  rw [List.eq_nil_iff_forall_not_mem]
  intro o ho
  rw [mem_eventsOf] at ho
  have hlt := h.known o ho.1
  omega

/-- The story of a job that goes on. -/
theorem Told.story_next (h : Told retryBackoffMs s) (huntil : Until s now) {first : Job δ}
    {st st' : Stage δ} {o : Occurrence δ}
    (hstory : Story retryBackoffMs first (eventsOf s st.job.serial) st)
    (hlife : Life retryBackoffMs st o st') (hnow : o.now = now)
    (hcalled : o.kind = .called → ∃ t ∈ s.tick, o.job.nextRunAt ≤ t.now)
    (hunhandled : o.kind = .unhandled → s.handlers.get o.job.type = none) :
    Story retryBackoffMs first (eventsOf s st.job.serial ++ [o]) st' := by
  refine .next _ st _ o hstory hlife ?_ ?_ ?_
  · intro o' ho'
    rw [hnow]
    exact huntil.1 o' (mem_eventsOf.mp ho').1
  · intro hkind
    rcases hcalled hkind with ⟨t,ht,hdue⟩
    have hsince := huntil.2 t ht
    omega
  · intro hkind o' ho' hkind'
    have hsome := h.registered o' (mem_eventsOf.mp ho').1 hkind'
    have htype : o.job.type = first.type := fixed_type ((life_fixed hlife).1.trans hstory.fixed.1)
    rw [hstory.type ho',← htype,hunhandled hkind] at hsome
    cases hsome

theorem Told.move_known (h : Told retryBackoffMs s) (hmove : Move retryBackoffMs now may s s') :
    ∀ o ∈ s'.history, o.job.serial < s'.enqueued.length := by
  cases hmove.jobs with
  | still hstages hhistory henqueued =>
      rw [henqueued,hhistory]
      exact h.known
  | enqueued job hstages hhistory henqueued hserial hattempts hmay =>
      rw [henqueued,hhistory,List.length_append]
      intro o ho
      have hlt := h.known o ho
      omega
  | moved st st' o others hlife hnow hbefore hafter hhistory henqueued hcalled hunhandled hidle
      hmay =>
      rw [henqueued,hhistory]
      intro o' ho'
      rcases List.mem_append.mp ho' with hold | hnew
      · exact h.known o' hold
      · rcases h.stories st (hbefore.mem_iff.mpr List.mem_cons_self) with ⟨first,hfirst,hstory⟩
        have hserial : o.job.serial = st.job.serial := congrArg Prod.fst (life_fixed hlife).1
        rw [List.mem_singleton.mp hnew,hserial,hstory.serial]
        exact h.conserved.serial_lt hfirst

theorem Told.move_registered (h : Told retryBackoffMs s)
    (hmove : Move retryBackoffMs now may s s') :
    ∀ o ∈ s'.history, o.kind = .called → (s'.handlers.get o.job.type).isSome := by
  intro o ho hkind
  apply hmove.handlers
  cases hmove.jobs with
  | still hstages hhistory henqueued => exact h.registered o (hhistory ▸ ho) hkind
  | enqueued job hstages hhistory henqueued hserial hattempts hmay =>
      exact h.registered o (hhistory ▸ ho) hkind
  | moved st st' o' others hlife hnow hbefore hafter hhistory henqueued hcalled hunhandled hidle
      hmay =>
      rw [hhistory] at ho
      rcases List.mem_append.mp ho with hold | hnew
      · exact h.registered o hold hkind
      · rw [List.mem_singleton.mp hnew] at hkind ⊢
        exact (hcalled hkind).1

theorem Told.move_stories (h : Told retryBackoffMs s) (huntil : Until s now)
    (hmove : Move retryBackoffMs now may s s') : ∀ st ∈ s'.stages, ∃ first ∈ s'.enqueued,
      Story retryBackoffMs first (eventsOf s' st.job.serial) st := by
  cases hmove.jobs with
  | still hstages hhistory henqueued =>
      intro st hst
      rw [henqueued,eventsOf_same hhistory]
      exact h.stories st (hstages.mem_iff.mp hst)
  | enqueued job hstages hhistory henqueued hserial hattempts hmay =>
      intro st hst
      rw [henqueued,eventsOf_same hhistory]
      rcases List.mem_cons.mp (hstages.mem_iff.mp hst) with rfl | hold
      · refine ⟨job,by simp,?_⟩
        rw [Stage.job,h.no_events hserial]
        exact .enqueued
      · rcases h.stories st hold with ⟨first,hfirst,hstory⟩
        exact ⟨first,List.mem_append_left _ hfirst,hstory⟩
  | moved st st' o others hlife hnow hbefore hafter hhistory henqueued hcalled hunhandled hidle
      hmay =>
      intro st'' hst''
      rw [henqueued]
      have hserial : o.job.serial = st.job.serial := congrArg Prod.fst (life_fixed hlife).1
      have hserial' : st'.job.serial = st.job.serial := congrArg Prod.fst (life_fixed hlife).2
      rcases List.mem_cons.mp (hafter.mem_iff.mp hst'') with rfl | hother
      · rcases h.stories st (hbefore.mem_iff.mpr List.mem_cons_self) with ⟨first,hfirst,hstory⟩
        refine ⟨first,hfirst,?_⟩
        rw [eventsOf_joined hhistory (hserial.trans hserial'.symm),hserial']
        exact h.story_next huntil hstory hlife hnow (fun hkind => (hcalled hkind).2) hunhandled
      · have hne : o.job.serial ≠ st''.job.serial := by
          rw [hserial]
          exact h.conserved.serial_ne hbefore hother
        rw [eventsOf_other hhistory hne]
        exact h.stories st'' (hbefore.mem_iff.mpr (List.mem_cons_of_mem st hother))

theorem Told.move (h : Told retryBackoffMs s) (huntil : Until s now)
    (hmove : Move retryBackoffMs now may s s') : Told retryBackoffMs s' where
  conserved := h.conserved.move hmove
  untried := by
    cases hmove.jobs with
    | still hstages hhistory henqueued =>
        rw [henqueued]
        exact h.untried
    | enqueued job hstages hhistory henqueued hserial hattempts hmay =>
        rw [henqueued]
        intro job' hjob'
        rcases List.mem_append.mp hjob' with hold | hnew
        · exact h.untried job' hold
        · rw [List.mem_singleton.mp hnew]
          exact hattempts
    | moved st st' o others hlife hnow hbefore hafter hhistory henqueued hcalled hunhandled hidle
        hmay =>
        rw [henqueued]
        exact h.untried
  known := h.move_known hmove
  registered := h.move_registered hmove
  stories := h.move_stories huntil hmove

/-- The state is well formed and tells stories. -/
def Inv (retryBackoffMs : ℤ) (s : Queue η δ) : Prop := s.Wf ∧ Told retryBackoffMs s

/-- The step does not take place before anything on record. -/
def InTime (s : Queue η δ) (st : Step η δ) : Prop := s.Wf ∧ Until s st.now

theorem Told.moves (h : Told retryBackoffMs s) (huntil : Until s now)
    (hmoves : Moves retryBackoffMs now may s s') : Told retryBackoffMs s' := by
  have hboth : Until s' now ∧ Told retryBackoffMs s' :=
    moves_invariant (fun s => Until s now ∧ Told retryBackoffMs s)
      (fun _ _ hs hmove => ⟨hs.1.move hmove,hs.2.move hs.1 hmove⟩) ⟨huntil,h⟩ hmoves
  exact hboth.2

/-- Every value thrown has a text, and the step does not take place before anything on record. -/
def Regular (s : Queue η δ) (st : Step η δ) : Prop := Convertible s st ∧ InTime s st

theorem Inv.step (s : Queue η δ) (st : Step η δ) (h : Inv retryBackoffMs s) (hg : Regular s st) :
    Inv retryBackoffMs (s.step retryBackoffMs st) := by
  have hmoves : Moves retryBackoffMs st.now (fun _ => True) s (s.step retryBackoffMs st) :=
    moves_step h.1 (admits_all s st) hg.1
  exact ⟨hmoves.1,h.2.moves hg.2.2 hmoves⟩

theorem Until.breakOff (h : Until s now) (caller : Caller) (job : Job δ) :
    Until (s.breakOff caller now job) now := by
  have hhistory : (s.breakOff caller now job).history = s.history ++ [⟨.failed,job,now⟩] := by
    cases caller <;> rfl
  have htick : (s.breakOff caller now job).tick = none := by
    cases caller <;> rfl
  constructor
  · intro o ho
    rw [hhistory] at ho
    rcases List.mem_append.mp ho with hold | hnew
    · exact h.1 o hold
    · obtain rfl := List.mem_singleton.mp hnew
      exact Int.le_refl now
  · intro t ht
    rw [htick] at ht
    cases ht

theorem Until.step {st : Step η δ} (hs : s.Wf) (h : Until s st.now) :
    Until (s.step retryBackoffMs st) st.now := by
  by_cases hconvertible : Convertible s st
  · have hmoves : Moves retryBackoffMs st.now (fun _ => True) s (s.step retryBackoffMs st) :=
      moves_step hs (admits_all s st) hconvertible
    exact moves_invariant (Until · st.now) (fun _ _ => Until.move) h hmoves
  · obtain ⟨caller,since,job,rest,-,hact⟩ :=
      @breaks_of_not_convertible η δ retryBackoffMs s st hconvertible
    unfold Queue.step
    split
    · exact h
    · rw [hact]
      exact h.breakOff caller _

theorem InTime.step (s : Queue η δ) (st st' : Step η δ) (h : InTime s st)
    (hle : st.now ≤ st'.now) : InTime (s.step retryBackoffMs st) st' := by
  have huntil : Until (s.step retryBackoffMs st) st.now := h.2.step h.1
  refine ⟨wf_step h.1 st,?_,?_⟩
  · intro o ho
    have hnow := huntil.1 o ho
    omega
  · intro t ht
    have hnow := huntil.2 t ht
    omega

/-- A clock that does not go back. -/
def NonDecreasing (steps : List (Step η δ)) : Prop := steps.Pairwise fun st st' => st.now ≤ st'.now

theorem inv_run {steps : List (Step η δ)} (hclock : NonDecreasing steps)
    (hg : Guarded (Queue.step retryBackoffMs) Convertible {} steps) {pre : List (Step η δ)}
    (hpre : pre <+: steps) : Inv retryBackoffMs (run (Queue.step retryBackoffMs) {} pre) := by
  have hguarded : Guarded (Queue.step retryBackoffMs) InTime ({} : Queue η δ) steps := by
    apply guarded_of_pairwise InTime.step _ hclock
    intro st _
    refine ⟨wf_new,?_,?_⟩
    · intro o ho
      cases ho
    · intro t ht
      cases ht
  exact run_invariant_passed Inv.step ⟨wf_new,told_new⟩ (guarded_and.mpr ⟨hg,hguarded⟩) hpre

theorem Conserved.stage_unique (h : Conserved s) {st st' : Stage δ} (hst : st ∈ s.stages)
    (hst' : st' ∈ s.stages) (hserial : st.job.serial = st'.job.serial) : st = st' :=
  List.inj_on_of_nodup_map (serials_nodup h) hst hst' hserial

theorem mem_stages_failed {job : Job δ} : Stage.failed job ∈ s.stages ↔ job ∈ s.failed := by
  unfold Queue.stages
  cases s.tick with
  | none => simp
  | some t => simp [Tick.stages]

theorem Conserved.failed_iff (h : Conserved s) {st : Stage δ} (hst : st ∈ s.stages) :
    st.job.serial ∈ s.failed.map Job.serial ↔ ∃ job, st = .failed job := by
  constructor
  · intro hmem
    obtain ⟨job,hjob,hserial⟩ := List.mem_map.mp hmem
    exact ⟨job,(h.stage_unique (mem_stages_failed.mpr hjob) hst hserial).symm⟩
  · rintro ⟨job,rfl⟩
    exact List.mem_map_of_mem (mem_stages_failed.mp hst)

theorem mem_of_waiting {job : Job δ} (h : Stage.waiting job ∈ s.stages) :
    job ∈ s.pending ++ s.batch := by
  unfold Queue.stages at h
  unfold Queue.batch
  cases htick : s.tick with
  | none =>
      rw [htick] at h
      simp at h
      simp [h]
  | some t =>
      rw [htick] at h
      simp [Tick.stages] at h
      rcases h with hpending | hrest
      · simp [hpending]
      · simp [hrest]

/-- The rules on attempts and visibility, for one job and the events of its life
in their order. A call and a failure carry the number of the calls before them. -/
structure Respected (retryBackoffMs : ℤ) (s : Queue η δ) (job : Job δ)
    (events : List (Occurrence δ)) : Prop where
  bounded : (callsIn events : ℤ) ≤ max 1 job.maxAttempts
  visible : ∀ o ∈ events, o.kind = .called → o.job.nextRunAt ≤ o.now
  first_call : ∀ o ∈ events, o.kind = .called → o.job.attempts = 0 → o.job = job
  spaced : events.Pairwise fun o o' =>
    o.kind = .failed → o'.kind = .called → o.now + retryBackoffMs ≤ o'.now
  final : events.Pairwise fun o o' => o.kind = .succeeded → o'.kind ≠ .called
  numbered : ∀ (k : ℕ) (o : Occurrence δ), events[k]? = some o →
    o.kind = .called ∨ o.kind = .failed → o.job.attempts = callsIn (events.take k)
  dead_lettered : job.serial ∈ s.failed.map Job.serial ↔
    (∃ o ∈ events, o.kind = .failed ∧ job.maxAttempts ≤ o.job.attempts) ∨
      ∃ o ∈ events, o.kind = .unhandled
  unhandled : (∃ o ∈ events, o.kind = .unhandled) → callsIn events = 0
  unregistered : s.handlers.get job.type = none → callsIn events = 0 ∧
    job.serial ∈ (s.pending ++ s.batch ++ s.failed).map Job.serial

/-- In every run with a clock that does not go back, in which the values that
awaited handlers throw have texts, every job ever enqueued is attempted as often
and as late as the rules say. -/
theorem attempts_respected (retryBackoffMs : ℤ) (steps : List (Step η δ))
    (hclock : NonDecreasing steps)
    (hg : Guarded (Queue.step retryBackoffMs) Convertible {} steps) {pre : List (Step η δ)}
    (hpre : pre <+: steps) :
    let s := run (Queue.step retryBackoffMs) {} pre
    ∀ job ∈ s.enqueued, Respected retryBackoffMs s job (eventsOf s job.serial) := by
  intro s job hjob
  obtain ⟨hwf,htold⟩ : Inv retryBackoffMs s := inv_run hclock hg hpre
  obtain ⟨st,hst,hserial⟩ := htold.conserved.stage_of hjob
  obtain ⟨first,hfirst,hstory⟩ := htold.stories st hst
  have heq : first = job :=
    htold.conserved.eq_of_serial hfirst hjob (hstory.serial.symm.trans hserial)
  subst heq
  rw [hserial] at hstory
  have huntried := htold.untried first hfirst
  have hfailed : first.serial ∈ s.failed.map Job.serial ↔ ∃ job, st = .failed job := by
    rw [← hserial]
    exact htold.conserved.failed_iff hst
  have hnocall : s.handlers.get first.type = none → callsIn (eventsOf s first.serial) = 0 := by
    intro hnone
    rw [callsIn_eq_zero]
    intro o ho hkind
    have hsome := htold.registered o (mem_eventsOf.mp ho).1 hkind
    rw [hstory.type ho,hnone] at hsome
    cases hsome
  constructor
  · exact hstory.bounded huntried
  · exact hstory.visible
  · exact hstory.first_call
  · exact hstory.spaced
  · exact hstory.final
  · exact hstory.numbered huntried
  · rw [hfailed,hstory.failed_iff]
    simp only [Terminal,and_or_left,exists_or]
  · rintro ⟨o,ho,hkind⟩
    exact hstory.unhandled ho hkind
  · intro hnone
    refine ⟨hnocall hnone,?_⟩
    have hcalls := (hstory.calls huntried).symm.trans (hnocall hnone)
    rw [← hserial]
    apply List.mem_map_of_mem
    cases st with
    | waiting job => exact List.mem_append_left _ (mem_of_waiting hst)
    | failed job => exact List.mem_append_right _ (mem_stages_failed.mp hst)
    | running job => cases hcalls
    | completed job => cases hcalls

/-- A job that fails twice, with two attempts, and a job nobody handles. -/
def failedTwice : List (Step Unit String) :=
  [⟨0,.registerHandler "email" ()⟩,⟨0,.start⟩,
    ⟨10,.enqueue "email" "welcome" ⟨some 2,none,none⟩⟩,⟨10,.enqueue "sms" "code" {}⟩,
    ⟨60,.fire⟩,⟨70,.settle (.rejected "refused")⟩,⟨70,.resume 0⟩,⟨120,.fire⟩,⟨120,.resume 0⟩,
    ⟨570,.fire⟩,⟨580,.settle (.rejected "refused")⟩]

theorem attempts_respected_failed_twice :
    NonDecreasing failedTwice ∧ Guarded (Queue.step 500) Convertible {} failedTwice ∧
    (run (Queue.step 500) {} failedTwice).failed.map Job.serial = [1,0] ∧
    callsIn (eventsOf (run (Queue.step 500) {} failedTwice) 0) = 2 ∧
    ∀ job ∈ (run (Queue.step 500) {} failedTwice).enqueued,
      Respected 500 (run (Queue.step 500) {} failedTwice) job
        (eventsOf (run (Queue.step 500) {} failedTwice) job.serial) := by
  have hclock : NonDecreasing failedTwice := by
    unfold NonDecreasing failedTwice
    decide
  have hg : Guarded (Queue.step 500) Convertible {} failedTwice := by decide +kernel
  exact ⟨hclock,hg,by decide +kernel,by decide +kernel,
    attempts_respected 500 failedTwice hclock hg (List.prefix_refl _)⟩

/-- The handler fails on the one attempt allowed, and the job is not among the failed ones. -/
theorem last_failure_not_dead_lettered :
    NonDecreasing (thrownInDrain (some 1)) ∧
    ∃ job ∈ (run (Queue.step 500) {} (thrownInDrain (some 1))).enqueued,
      ¬ Respected 500 (run (Queue.step 500) {} (thrownInDrain (some 1))) job
        (eventsOf (run (Queue.step 500) {} (thrownInDrain (some 1))) job.serial) := by
  have hclock : NonDecreasing (thrownInDrain (some 1)) := by
    unfold NonDecreasing thrownInDrain
    decide
  refine ⟨hclock,⟨0,"job-1","email","welcome",0,1,0,0,none,0⟩,by decide +kernel,?_⟩
  intro hrespected
  have hfailed := hrespected.dead_lettered.mpr
    (.inl ⟨⟨.failed,⟨0,"job-1","email","welcome",1,1,0,20,none,0⟩,20⟩,by decide +kernel,rfl,
      by decide⟩)
  exact absurd hfailed (by decide +kernel)

end Creditra.JobLives
