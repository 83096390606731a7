import Creditra.JobQueue

/-!
# The wake-up of the job queue

A running queue that holds pending jobs needs someone to come back to them: an
armed timer, or a fired one whose follow-up will arm it again. Every place that
makes `pending` non-empty sees to this but one. A job that is put back after a
failure relies on the follow-up of the timer, and there is none if the tick was
called by `drain`.
-/
namespace Creditra.JobWakeups
open GuardedRuns InsertionMaps JobQueue

variable {η δ : Type} {retryBackoffMs now : ℤ} {s s' : Queue η δ}

/-- A running queue with pending jobs and no call outstanding has an armed timer. -/
def Awake (s : Queue η δ) : Prop :=
  s.running = true → s.pending ≠ [] → s.tick = none → s.returned = [] → s.timeoutHandle = true

instance (s : Queue η δ) [DecidableEq δ] : Decidable (Awake s) := by
  unfold Awake
  infer_instance

/-- A fired timer has its `_processTick` under way. -/
def Fired (s : Queue η δ) : Prop := ∃ t ∈ s.tick, t.caller = .timer

/-- A fired timer's `_processTick` has returned, and its follow-up is to come. -/
def FollowUp (s : Queue η δ) : Prop := ∃ r ∈ s.returned, r.1 = .timer

instance (s : Queue η δ) : Decidable (FollowUp s) := by
  unfold FollowUp
  infer_instance

/-- Where a job is put back during `drain`, on a running queue, the timer is
armed or will be. -/
def Covered (s : Queue η δ) (st : Step η δ) : Prop :=
  match st.action with
  | .settle (.rejected _) => ∀ t ∈ s.tick, t.caller = .drain → ∀ job ∈ t.current,
      ((job.attempts + 1 : ℕ) : ℤ) < job.maxAttempts → s.running = true →
        s.timeoutHandle = true ∨ FollowUp s
  | _ => True

instance (s : Queue η δ) : (st : Step η δ) → Decidable (Covered s st)
  | ⟨_,.settle (.rejected _)⟩ => inferInstanceAs (Decidable (∀ t ∈ s.tick, t.caller = .drain →
      ∀ job ∈ t.current, ((job.attempts + 1 : ℕ) : ℤ) < job.maxAttempts → s.running = true →
        s.timeoutHandle = true ∨ FollowUp s))
  | ⟨_,.settle .resolved⟩ | ⟨_,.settle .unprintable⟩ | ⟨_,.enqueue _ _ _⟩
  | ⟨_,.registerHandler _ _⟩ | ⟨_,.start⟩ | ⟨_,.stop⟩ | ⟨_,.drain⟩ | ⟨_,.fire⟩
  | ⟨_,.resume _⟩ => inferInstanceAs (Decidable True)

/-- Someone will come back to the pending jobs. -/
def Armed (s : Queue η δ) : Prop :=
  s.running = true → s.pending ≠ [] → s.timeoutHandle = true ∨ FollowUp s ∨ Fired s

structure Inv (s : Queue η δ) : Prop where
  wf : s.Wf
  armed : Armed s

theorem Inv.awake (h : Inv s) : Awake s := by
  intro hrunning hpending htick hreturned
  rcases h.armed hrunning hpending with harmed | ⟨r,hr,-⟩ | ⟨t,ht,-⟩
  · exact harmed
  · rw [hreturned] at hr
    cases hr
  · rw [htick] at ht
    cases ht

theorem inv_new : Inv ({} : Queue η δ) := ⟨wf_new,fun h => nomatch h⟩

/-- What the rest of a loop, or a whole tick, does to the timer and its callers. -/
structure Goes (s s' : Queue η δ) : Prop where
  running : s'.running = s.running
  timeoutHandle : s'.timeoutHandle = s.timeoutHandle
  pending : s'.pending ≠ [] → s.pending ≠ []
  followUp : FollowUp s → FollowUp s'
  fired : Fired s → FollowUp s' ∨ Fired s'

theorem Goes.armed (h : Goes s s') (hs : Armed s) : Armed s' := by
  intro hrunning hpending
  rw [h.running] at hrunning
  rcases hs hrunning (h.pending hpending) with harmed | hfollow | hfired
  · exact .inl (h.timeoutHandle.trans harmed)
  · exact .inr (.inl (h.followUp hfollow))
  · exact .inr (h.fired hfired)

theorem goes_giveBack (s : Queue η δ) (caller : Caller) (result : Bool) :
    Goes s (s.giveBack caller result) where
  running := rfl
  timeoutHandle := rfl
  pending := id
  followUp := by
    rintro ⟨r,hr,htimer⟩
    exact ⟨r,List.mem_append_left _ hr,htimer⟩
  fired := .inr

theorem followUp_giveBack (s : Queue η δ) (result : Bool) :
    FollowUp (s.giveBack .timer result) :=
  ⟨(.timer,result),List.mem_append_right _ (List.mem_singleton_self _),rfl⟩

section Loop
variable {caller : Caller} {since : ℤ} {rest : List (Job δ)}

theorem goes_finish (htick : s.tick = some ⟨caller,since,none,rest⟩) :
    Goes s (s.finish caller) where
  running := rfl
  timeoutHandle := rfl
  pending := id
  followUp := by
    rintro ⟨r,hr,htimer⟩
    exact ⟨r,List.mem_append_left _ hr,htimer⟩
  fired := by
    rintro ⟨t,ht,htimer⟩
    rw [htick] at ht
    cases ht
    cases htimer
    exact .inl (followUp_giveBack _ true)

theorem Goes.trans {s'' : Queue η δ} (h : Goes s s') (h' : Goes s' s'') : Goes s s'' where
  running := h'.running.trans h.running
  timeoutHandle := h'.timeoutHandle.trans h.timeoutHandle
  pending hp := h.pending (h'.pending hp)
  followUp hf := h'.followUp (h.followUp hf)
  fired hf := by
    rcases h.fired hf with hfollow | hfired
    · exact .inl (h'.followUp hfollow)
    · exact h'.fired hfired

/-- The tick under way keeps its caller. -/
theorem goes_of_tick {current current' : Option (Job δ)} {rest' : List (Job δ)}
    (htick : s.tick = some ⟨caller,since,current,rest⟩)
    (htick' : s'.tick = some ⟨caller,since,current',rest'⟩) (hrunning : s'.running = s.running)
    (htimeout : s'.timeoutHandle = s.timeoutHandle) (hpending : s'.pending = s.pending)
    (hreturned : s'.returned = s.returned) : Goes s s' where
  running := hrunning
  timeoutHandle := htimeout
  pending hp := hpending ▸ hp
  followUp := by
    unfold FollowUp
    rw [hreturned]
    exact id
  fired := by
    rintro ⟨t,ht,htimer⟩
    rw [htick] at ht
    cases ht
    exact .inr ⟨_,htick',htimer⟩

theorem goes_loop (htick : s.tick = some ⟨caller,since,none,rest⟩) :
    Goes s (s.loop caller since now rest) := by
  induction rest generalizing s with
  | nil => exact goes_finish htick
  | cons job rest ih =>
      unfold Queue.loop
      split
      · have hdead : Goes s (s.deadLetter caller since now job rest) :=
          goes_of_tick htick rfl rfl rfl rfl rfl
        exact hdead.trans (ih rfl)
      · exact goes_of_tick htick rfl rfl rfl rfl rfl

end Loop

theorem goes_processTick (hs : s.Wf) (caller : Caller) : Goes s (s.processTick caller now) := by
  unfold Queue.processTick
  split
  · exact goes_giveBack s caller false
  · rename_i hprocessing
    dsimp only
    split
    · exact goes_giveBack s caller false
    · have htick : s.tick = none := by
        rw [hs.processing] at hprocessing
        simpa using hprocessing
      have htake : Goes s (s.take caller now) := by
        constructor
        · rfl
        · rfl
        · intro hpending hnil
          apply hpending
          simp [Queue.take,hnil]
        · exact id
        · rintro ⟨t,ht,-⟩
          rw [htick] at ht
          cases ht
      exact htake.trans (goes_loop rfl)

/-- A tick called by the timer is under way, or its follow-up is to come. -/
theorem processTick_timer (s : Queue η δ) (now : ℤ) :
    FollowUp (s.processTick .timer now) ∨ Fired (s.processTick .timer now) := by
  unfold Queue.processTick
  split
  · exact .inl (followUp_giveBack s false)
  · dsimp only
    split
    · exact .inl (followUp_giveBack s false)
    · have hgoes : Goes (s.take .timer now) ((s.take .timer now).loop .timer now now
          (s.pending.filter (Job.due now))) := goes_loop rfl
      exact hgoes.fired ⟨_,rfl,rfl⟩

/-- Arming sees to the pending jobs. -/
theorem armed_scheduleIfNeeded (s : Queue η δ) : Armed s.scheduleIfNeeded := by
  unfold Queue.scheduleIfNeeded
  split
  · rename_i hskip
    intro hrunning hpending
    left
    simpa [hrunning,hpending] using hskip
  · intro _ _
    exact .inl rfl

theorem armed_settleJob (h : Inv s) {caller : Caller} {since : ℤ} {job : Job δ}
    {rest : List (Job δ)} (htick : s.tick = some ⟨caller,since,some job,rest⟩) {outcome : Outcome}
    (hg : Covered s ⟨now,.settle outcome⟩) (houtcome : outcome ≠ .unprintable) :
    Armed (s.settleJob retryBackoffMs caller since now job rest outcome) := by
  cases outcome with
  | resolved =>
      have hgoes : Goes s (s.succeed caller since now job rest) :=
        goes_of_tick htick rfl rfl rfl rfl rfl
      exact hgoes.armed h.armed
  | rejected message =>
      simp only [Queue.settleJob]
      split
      · rename_i hless
        intro hrunning _
        cases caller with
        | timer => exact .inr (.inr ⟨_,rfl,rfl⟩)
        | drain =>
            rcases hg _ htick rfl job rfl hless hrunning with harmed | hfollow
            · exact .inl harmed
            · exact .inr (.inl hfollow)
      · have hgoes : Goes s (s.exhaust caller since now (job.failAt now message) rest) :=
          goes_of_tick htick rfl rfl rfl rfl rfl
        exact hgoes.armed h.armed
  | unprintable => exact absurd rfl houtcome

/-- A tick of `drain` that breaks off leaves the timer as it was. -/
theorem armed_breakOff (h : Armed s) {caller : Caller} {since : ℤ} {current : Option (Job δ)}
    {rest : List (Job δ)} (htick : s.tick = some ⟨caller,since,current,rest⟩) (job : Job δ) :
    Armed (s.breakOff caller now job) := by
  cases caller with
  | timer =>
      intro hrunning
      cases hrunning
  | drain =>
      intro hrunning hpending
      rcases h hrunning hpending with harmed | hfollow | ⟨t,ht,htimer⟩
      · exact .inl harmed
      · exact .inr (.inl hfollow)
      · rw [htick] at ht
        cases ht
        cases htimer

theorem armed_settle (h : Inv s) {outcome : Outcome} (hg : Covered s ⟨now,.settle outcome⟩) :
    Armed (s.settle retryBackoffMs now outcome) := by
  unfold Queue.settle
  split
  · rename_i caller since job rest htick
    dsimp only
    split
    · rename_i hunprintable
      rw [hunprintable]
      exact armed_breakOff h.armed htick _
    · rename_i houtcome
      have hloop : Goes (s.settleJob retryBackoffMs caller since now job rest outcome)
          ((s.settleJob retryBackoffMs caller since now job rest outcome).loop caller since now
            rest) := goes_loop (atHead_settleJob h.wf htick houtcome).2
      exact hloop.armed (armed_settleJob h htick hg houtcome)
  · exact h.armed

/-- The resumption of a `drain` is no follow-up. -/
theorem goes_dropDrain {k : ℕ} {result : Bool} (hk : s.returned[k]? = some (.drain,result)) :
    Goes s { s with returned := s.returned.eraseIdx k } where
  running := rfl
  timeoutHandle := rfl
  pending := id
  followUp := by
    rintro ⟨r,hr,htimer⟩
    obtain ⟨i,hi⟩ := List.mem_iff_getElem?.mp hr
    refine ⟨r,List.mem_eraseIdx_iff_getElem?.mpr ⟨i,?_,hi⟩,htimer⟩
    intro hik
    rw [hik,hk] at hi
    cases hi
    cases htimer
  fired := .inr

theorem armed_resume (h : Inv s) (k : ℕ) : Armed (s.resume now k) := by
  have hwf : ({ s with returned := s.returned.eraseIdx k } : Queue η δ).Wf :=
    (sameJobs_return s _).wf h.wf
  unfold Queue.resume
  split
  · exact armed_scheduleIfNeeded _
  · rename_i hk
    exact ((goes_dropDrain hk).trans (goes_processTick hwf .drain)).armed h.armed
  · rename_i hk
    exact (goes_dropDrain hk).armed h.armed
  · exact h.armed

theorem armed_fire (h : Inv s) : Armed (s.fire now) := by
  unfold Queue.fire
  split
  · intro _ _
    exact .inr (processTick_timer _ now)
  · exact h.armed

theorem armed_start (h : Inv s) : Armed s.start := by
  unfold Queue.start
  split
  · exact h.armed
  · exact armed_scheduleIfNeeded _

theorem armed_stop (h : Inv s) : Armed s.stop := by
  unfold Queue.stop
  split
  · exact h.armed
  · intro hrunning
    cases hrunning

theorem armed_act (h : Inv s) {st : Step η δ} (hg : Covered s st) :
    Armed (s.act retryBackoffMs st) := by
  obtain ⟨now,action⟩ := st
  cases action with
  | enqueue type payload options => exact armed_scheduleIfNeeded _
  | registerHandler type handler => exact h.armed
  | start => exact armed_start h
  | stop => exact armed_stop h
  | drain => exact (goes_processTick h.wf .drain).armed h.armed
  | fire => exact armed_fire h
  | settle outcome => exact armed_settle h hg
  | resume k => exact armed_resume h k

theorem Inv.step (s : Queue η δ) (st : Step η δ) (h : Inv s) (hg : Covered s st) :
    Inv (s.step retryBackoffMs st) := by
  refine ⟨wf_step h.wf st,?_⟩
  unfold Queue.step
  split
  · exact h.armed
  · exact armed_act h hg

/-- Along every run that puts jobs back only under cover, no job is stranded. -/
theorem awake_of_covered (retryBackoffMs : ℤ) (steps : List (Step η δ))
    (hg : Guarded (Queue.step retryBackoffMs) Covered {} steps) {pre : List (Step η δ)}
    (hpre : pre <+: steps) : Awake (run (Queue.step retryBackoffMs) {} pre) := by
  have hinv : Inv (run (Queue.step retryBackoffMs) {} pre) :=
    run_invariant_passed Inv.step inv_new hg hpre
  exact hinv.awake

/-- `drain` takes the only job while the timer is armed, and its handler fails. -/
def failedInDrain : List (Step Unit String) :=
  [⟨0,.registerHandler "email" ()⟩,⟨0,.start⟩,⟨0,.enqueue "email" "welcome" {}⟩,⟨10,.drain⟩,
    ⟨20,.settle (.rejected "refused")⟩,⟨20,.resume 0⟩,⟨20,.resume 0⟩]

theorem awake_of_covered_failed_in_drain :
    Guarded (Queue.step 500) Covered {} failedInDrain ∧
    (run (Queue.step 500) {} failedInDrain).pending.length = 1 ∧
    Awake (run (Queue.step 500) {} failedInDrain) := by
  have hguarded : Guarded (Queue.step 500) Covered {} failedInDrain := by decide +kernel
  exact ⟨hguarded,by decide +kernel,
    awake_of_covered 500 failedInDrain hguarded (List.prefix_refl _)⟩

/-- The timer fires while `drain` has the only job in hand, and then the handler
fails: the job is put back, and nothing will come back to it. -/
theorem retry_in_drain_is_stranded :
    ¬ Awake (run (Queue.step 500) ({} : Queue Unit String)
      [⟨0,.registerHandler "email" ()⟩,⟨0,.start⟩,⟨0,.enqueue "email" "welcome" {}⟩,⟨10,.drain⟩,
        ⟨50,.fire⟩,⟨50,.resume 0⟩,⟨60,.settle (.rejected "refused")⟩,⟨60,.resume 0⟩,
        ⟨60,.resume 0⟩]) := by
  decide +kernel

end Creditra.JobWakeups
