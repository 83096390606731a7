import Creditra.GuardedRuns
import Creditra.InsertionMaps
import Mathlib.Algebra.Ring.Int.Defs
import Mathlib.Data.List.Perm.Basic
import Mathlib.Logic.Relation

/-!
# The in-memory job queue

Code runs without interruption between two awaits, so a step is one call of a
public method, the firing of the timer, the settling of the handler that is
awaited, or the resumption of a caller whose `_processTick` has returned. Any
other step may come in between. A handler may itself call the queue; such calls
are steps of their own while the handler is awaited.

Every step takes place at an instant, which is what `Date.now()` answers in it.
Instants, delays and `maxAttempts` are integers. A timer that is armed may fire
at any time, so the tick interval is left out. Of a value that a handler throws
the text that the queue keeps of it is given. There are values that have none:
`String(err)` throws on them, inside the `catch`, and this exception leaves the
loop. `drain` then rejects; behind the timer nobody handles the rejection, and
the process ends.

Jobs are objects: two of them may have the same `id`. Their `serial`, the jobs
as they were enqueued, the jobs completed and the history are ghost data.
-/
namespace Creditra.JobQueue
open GuardedRuns InsertionMaps

structure EnqueueOptions where
  maxAttempts : Option ℤ := none
  delayMs : Option ℤ := none
  id : Option String := none

/-- `serial` counts the jobs that were enqueued before. -/
structure Job (δ : Type) where
  serial : ℕ
  id : String
  type : String
  payload : δ
  attempts : ℕ
  maxAttempts : ℤ
  createdAt : ℤ
  updatedAt : ℤ
  lastError : Option String
  nextRunAt : ℤ
  deriving DecidableEq

def Job.due (now : ℤ) (job : Job δ) : Bool := job.nextRunAt ≤ now

/-- Who awaits a `_processTick`: the callback of the timer, or `drain`. -/
inductive Caller where
  | timer
  | drain
  deriving DecidableEq

/-- The variables of the `_processTick` under way. The handler of `current` is
awaited; between two handlers there is none. -/
structure Tick (δ : Type) where
  caller : Caller
  now : ℤ
  current : Option (Job δ)
  rest : List (Job δ)
  deriving DecidableEq

inductive Kind where
  | called
  | succeeded
  | failed
  | unhandled
  deriving DecidableEq

/-- `job` is the job after the event. -/
structure Occurrence (δ : Type) where
  kind : Kind
  job : Job δ
  now : ℤ
  deriving DecidableEq

/-- `returned` are the calls of `_processTick` that have returned, with what they
returned, and whose callers have not gone on yet. The process may have `ended`. -/
structure Queue (η δ : Type) where
  handlers : InsertionMap String η := .empty
  pending : List (Job δ) := []
  failed : List (Job δ) := []
  running : Bool := false
  processing : Bool := false
  timeoutHandle : Bool := false
  nextId : ℕ := 1
  tick : Option (Tick δ) := none
  returned : List (Caller × Bool) := []
  enqueued : List (Job δ) := []
  completed : List (Job δ) := []
  history : List (Occurrence δ) := []
  ended : Bool := false

/-- A value thrown that `String` cannot convert is `unprintable`. -/
inductive Outcome where
  | resolved
  | rejected (message : String)
  | unprintable
  deriving DecidableEq

inductive Action (η δ : Type) where
  | enqueue (type : String) (payload : δ) (options : EnqueueOptions)
  | registerHandler (type : String) (handler : η)
  | start
  | stop
  | drain
  | fire
  | settle (outcome : Outcome)
  | resume (k : ℕ)

structure Step (η δ : Type) where
  now : ℤ
  action : Action η δ

variable {η δ : Type}

namespace Queue

def scheduleIfNeeded (s : Queue η δ) : Queue η δ :=
  if !s.running || s.timeoutHandle || s.pending.length = 0 then s
  else { s with timeoutHandle := true }

def newJob (s : Queue η δ) (now : ℤ) (type : String) (payload : δ) (options : EnqueueOptions) :
    Job δ where
  serial := s.enqueued.length
  id := options.id.getD ("job-" ++ toString s.nextId)
  type := type
  payload := payload
  attempts := 0
  maxAttempts := options.maxAttempts.getD 3
  createdAt := now
  updatedAt := now
  lastError := none
  nextRunAt := now + options.delayMs.getD 0

def push (s : Queue η δ) (job : Job δ) (nextId : ℕ) : Queue η δ :=
  { s with pending := s.pending ++ [job], nextId, enqueued := s.enqueued ++ [job] }

def enqueue (s : Queue η δ) (now : ℤ) (type : String) (payload : δ) (options : EnqueueOptions) :
    Queue η δ :=
  (s.push (s.newJob now type payload options)
    (if options.id.isSome then s.nextId else s.nextId + 1)).scheduleIfNeeded

def registerHandler (s : Queue η δ) (type : String) (handler : η) : Queue η δ :=
  { s with handlers := s.handlers.set type handler }

def start (s : Queue η δ) : Queue η δ :=
  if s.running then s else { s with running := true }.scheduleIfNeeded

def stop (s : Queue η δ) : Queue η δ :=
  if !s.running then s else { s with running := false, timeoutHandle := false }

/-- `_processTick` returns to its caller. -/
def giveBack (s : Queue η δ) (caller : Caller) (result : Bool) : Queue η δ :=
  { s with returned := s.returned ++ [(caller,result)] }

/-- The end of the loop, with its `finally`. -/
def finish (s : Queue η δ) (caller : Caller) : Queue η δ :=
  { s with processing := false, tick := none }.giveBack caller true

/-- No handler is registered. -/
def deadLetter (s : Queue η δ) (caller : Caller) (since now : ℤ) (job : Job δ)
    (rest : List (Job δ)) : Queue η δ :=
  { s with
    failed := s.failed ++ [job]
    tick := some ⟨caller,since,none,rest⟩
    history := s.history ++ [⟨.unhandled,job,now⟩] }

/-- The handler is called and awaited. -/
def call (s : Queue η δ) (caller : Caller) (since now : ℤ) (job : Job δ) (rest : List (Job δ)) :
    Queue η δ :=
  { s with
    tick := some ⟨caller,since,some job,rest⟩
    history := s.history ++ [⟨.called,job,now⟩] }

/-- The loop over the jobs taken, up to the next await. -/
def loop (s : Queue η δ) (caller : Caller) (since now : ℤ) : List (Job δ) → Queue η δ
  | [] => s.finish caller
  | job :: rest => match s.handlers.get job.type with
      | none => (s.deadLetter caller since now job rest).loop caller since now rest
      | some _ => s.call caller since now job rest

/-- The jobs that are due are taken out of `pending`. -/
def take (s : Queue η δ) (caller : Caller) (now : ℤ) : Queue η δ :=
  { s with
    processing := true
    pending := s.pending.filter (! Job.due now ·)
    tick := some ⟨caller,now,none,s.pending.filter (Job.due now)⟩ }

def processTick (s : Queue η δ) (caller : Caller) (now : ℤ) : Queue η δ :=
  if s.processing then s.giveBack caller false
  else
    let ready := s.pending.filter (Job.due now)
    if ready.length = 0 then s.giveBack caller false
    else (s.take caller now).loop caller now now ready

/-- The first round of `drain`. -/
def drain (s : Queue η δ) (now : ℤ) : Queue η δ := s.processTick .drain now

/-- The callback of the timer. -/
def fire (s : Queue η δ) (now : ℤ) : Queue η δ :=
  if s.timeoutHandle then { s with timeoutHandle := false }.processTick .timer now else s

end Queue

/-- A job whose handler has failed once more. -/
def Job.failAt (job : Job δ) (now : ℤ) (message : String) : Job δ :=
  { job with attempts := job.attempts + 1, updatedAt := now, lastError := some message }

/-- The same where the value thrown has no text. -/
def Job.breakAt (job : Job δ) (now : ℤ) : Job δ :=
  { job with attempts := job.attempts + 1, updatedAt := now }

/-- The visibility timeout. -/
def Job.holdBack (job : Job δ) (retryBackoffMs : ℤ) : Job δ :=
  { job with nextRunAt := job.updatedAt + retryBackoffMs }

namespace Queue

def succeed (s : Queue η δ) (caller : Caller) (since now : ℤ) (job : Job δ)
    (rest : List (Job δ)) : Queue η δ :=
  { s with
    tick := some ⟨caller,since,none,rest⟩
    completed := s.completed ++ [job]
    history := s.history ++ [⟨.succeeded,job,now⟩] }

def retry (s : Queue η δ) (caller : Caller) (since now : ℤ) (job : Job δ)
    (rest : List (Job δ)) : Queue η δ :=
  { s with
    pending := s.pending ++ [job]
    tick := some ⟨caller,since,none,rest⟩
    history := s.history ++ [⟨.failed,job,now⟩] }

def exhaust (s : Queue η δ) (caller : Caller) (since now : ℤ) (job : Job δ)
    (rest : List (Job δ)) : Queue η δ :=
  { s with
    failed := s.failed ++ [job]
    tick := some ⟨caller,since,none,rest⟩
    history := s.history ++ [⟨.failed,job,now⟩] }

/-- The process is gone, and its timers with it. -/
def perish (s : Queue η δ) : Queue η δ :=
  { s with running := false, timeoutHandle := false, ended := true }

/-- An exception leaves the loop by way of its `finally`. The job and the rest of
the batch were known to the loop alone. -/
def breakOff (s : Queue η δ) (caller : Caller) (now : ℤ) (job : Job δ) : Queue η δ :=
  let s' := { s with
    processing := false
    tick := none
    history := s.history ++ [⟨.failed,job,now⟩] }
  match caller with
  | .drain => s'
  | .timer => s'.perish

/-- What is done with a job whose handler has settled. -/
def settleJob (s : Queue η δ) (retryBackoffMs : ℤ) (caller : Caller) (since now : ℤ) (job : Job δ)
    (rest : List (Job δ)) : Outcome → Queue η δ
  | .resolved => s.succeed caller since now job rest
  | .rejected message =>
      if ((job.failAt now message).attempts : ℤ) < job.maxAttempts then
        s.retry caller since now ((job.failAt now message).holdBack retryBackoffMs) rest
      else s.exhaust caller since now (job.failAt now message) rest
  | .unprintable => s.breakOff caller now (job.breakAt now)

def settle (s : Queue η δ) (retryBackoffMs now : ℤ) (outcome : Outcome) : Queue η δ :=
  match s.tick with
  | some ⟨caller,since,some job,rest⟩ =>
      let s' := s.settleJob retryBackoffMs caller since now job rest outcome
      if outcome = .unprintable then s' else s'.loop caller since now rest
  | _ => s

/-- A caller goes on: the timer is armed again, or `drain` goes another round. -/
def resume (s : Queue η δ) (now : ℤ) (k : ℕ) : Queue η δ :=
  match s.returned[k]? with
  | some (.timer,_) => { s with returned := s.returned.eraseIdx k }.scheduleIfNeeded
  | some (.drain,true) => { s with returned := s.returned.eraseIdx k }.processTick .drain now
  | some (.drain,false) => { s with returned := s.returned.eraseIdx k }
  | none => s

/-- A step of a process that is alive. -/
def act (retryBackoffMs : ℤ) (s : Queue η δ) (st : Step η δ) : Queue η δ :=
  match st.action with
  | .enqueue type payload options => s.enqueue st.now type payload options
  | .registerHandler type handler => s.registerHandler type handler
  | .start => s.start
  | .stop => s.stop
  | .drain => s.drain st.now
  | .fire => s.fire st.now
  | .settle outcome => s.settle retryBackoffMs st.now outcome
  | .resume k => s.resume st.now k

def step (retryBackoffMs : ℤ) (s : Queue η δ) (st : Step η δ) : Queue η δ :=
  if s.ended then s else s.act retryBackoffMs st

/-- The jobs of the batch that is being processed. -/
def batch (s : Queue η δ) : List (Job δ) :=
  (s.tick.map fun t => t.current.toList ++ t.rest).getD []

end Queue

/-! ## What a step can do -/

/-- A job on its way through the queue. -/
inductive Stage (δ : Type) where
  | waiting (job : Job δ)
  | running (job : Job δ)
  | completed (job : Job δ)
  | failed (job : Job δ)

def Stage.job : Stage δ → Job δ
  | .waiting job | .running job | .completed job | .failed job => job

/-- What can happen to one job. -/
inductive Life (retryBackoffMs : ℤ) : Stage δ → Occurrence δ → Stage δ → Prop where
  | call (job : Job δ) (now : ℤ) :
      Life retryBackoffMs (.waiting job) ⟨.called,job,now⟩ (.running job)
  | bury (job : Job δ) (now : ℤ) :
      Life retryBackoffMs (.waiting job) ⟨.unhandled,job,now⟩ (.failed job)
  | succeed (job : Job δ) (now : ℤ) :
      Life retryBackoffMs (.running job) ⟨.succeeded,job,now⟩ (.completed job)
  | retry (job : Job δ) (now : ℤ) (message : String)
      (hless : ((job.failAt now message).attempts : ℤ) < job.maxAttempts) :
      Life retryBackoffMs (.running job)
        ⟨.failed,(job.failAt now message).holdBack retryBackoffMs,now⟩
        (.waiting ((job.failAt now message).holdBack retryBackoffMs))
  | exhaust (job : Job δ) (now : ℤ) (message : String)
      (hless : ¬ ((job.failAt now message).attempts : ℤ) < job.maxAttempts) :
      Life retryBackoffMs (.running job) ⟨.failed,job.failAt now message,now⟩
        (.failed (job.failAt now message))

def Tick.stages (t : Tick δ) : List (Stage δ) :=
  t.current.toList.map .running ++ t.rest.map .waiting

/-- Every job the queue holds or has held, where it stands. -/
def Queue.stages (s : Queue η δ) : List (Stage δ) :=
  s.pending.map .waiting ++ (s.tick.map Tick.stages).getD [] ++
    s.completed.map .completed ++ s.failed.map .failed

/-- No job moves, one is enqueued, or one goes on. Only a job that `may` is
enqueued, or goes on from `running`. -/
inductive JobMove (retryBackoffMs now : ℤ) (may : Job δ → Prop) (s s' : Queue η δ) : Prop where
  | still (hstages : s'.stages.Perm s.stages) (hhistory : s'.history = s.history)
      (henqueued : s'.enqueued = s.enqueued)
  | enqueued (job : Job δ) (hstages : s'.stages.Perm (.waiting job :: s.stages))
      (hhistory : s'.history = s.history) (henqueued : s'.enqueued = s.enqueued ++ [job])
      (hserial : job.serial = s.enqueued.length) (hattempts : job.attempts = 0) (hmay : may job)
  | moved (st st' : Stage δ) (o : Occurrence δ) (others : List (Stage δ))
      (hlife : Life retryBackoffMs st o st') (hnow : o.now = now)
      (hbefore : s.stages.Perm (st :: others)) (hafter : s'.stages.Perm (st' :: others))
      (hhistory : s'.history = s.history ++ [o]) (henqueued : s'.enqueued = s.enqueued)
      (hcalled : o.kind = .called → (s.handlers.get o.job.type).isSome ∧
        ∃ t ∈ s.tick, o.job.nextRunAt ≤ t.now)
      (hunhandled : o.kind = .unhandled → s.handlers.get o.job.type = none)
      (hidle : ∀ job, st = .waiting job → ∃ t ∈ s.tick, t.current = none)
      (hmay : ∀ job, st = .running job → may job)

/-- One of the changes that a step is made of. -/
structure Move (retryBackoffMs now : ℤ) (may : Job δ → Prop) (s s' : Queue η δ) : Prop where
  jobs : JobMove retryBackoffMs now may s s'
  handlers : ∀ type, (s.handlers.get type).isSome → (s'.handlers.get type).isSome
  since : ∀ t' ∈ s'.tick, t'.now = now ∨ ∃ t ∈ s.tick, t'.now = t.now
  ended : s'.ended = s.ended

/-- The flag says whether a tick is under way, and its jobs were due. -/
structure Queue.Wf (s : Queue η δ) : Prop where
  processing : s.processing = s.tick.isSome
  due : ∀ t ∈ s.tick, ∀ job ∈ t.rest, job.nextRunAt ≤ t.now

/-- All the queue says of its jobs is unchanged. -/
structure SameJobs (s s' : Queue η δ) : Prop where
  handlers : s'.handlers = s.handlers
  pending : s'.pending = s.pending
  failed : s'.failed = s.failed
  processing : s'.processing = s.processing
  tick : s'.tick = s.tick
  enqueued : s'.enqueued = s.enqueued
  completed : s'.completed = s.completed
  history : s'.history = s.history
  ended : s'.ended = s.ended

section Moves
variable {retryBackoffMs now since : ℤ} {may : Job δ → Prop} {s s' : Queue η δ}
variable {caller : Caller} {job : Job δ} {rest : List (Job δ)}

theorem SameJobs.wf (h : SameJobs s s') (hs : s.Wf) : s'.Wf where
  processing := by
    rw [h.processing,h.tick]
    exact hs.processing
  due := by
    rw [h.tick]
    exact hs.due

theorem SameJobs.stages (h : SameJobs s s') : s'.stages = s.stages := by
  unfold Queue.stages
  rw [h.pending,h.tick,h.completed,h.failed]

theorem SameJobs.move (h : SameJobs s s') : Move retryBackoffMs now may s s' where
  jobs := by
    apply JobMove.still
    · rw [h.stages]
    · exact h.history
    · exact h.enqueued
  handlers type hsome := by
    rw [h.handlers]
    exact hsome
  since t ht := by
    rw [h.tick] at ht
    exact .inr ⟨t,ht,rfl⟩
  ended := h.ended

theorem sameJobs_scheduleIfNeeded (s : Queue η δ) : SameJobs s s.scheduleIfNeeded := by
  unfold Queue.scheduleIfNeeded
  split
  · constructor <;> rfl
  · constructor <;> rfl

theorem sameJobs_giveBack (s : Queue η δ) (caller : Caller) (result : Bool) :
    SameJobs s (s.giveBack caller result) := by
  constructor <;> rfl

theorem sameJobs_disarm (s : Queue η δ) : SameJobs s { s with timeoutHandle := false } := by
  constructor <;> rfl

theorem sameJobs_return (s : Queue η δ) (returned : List (Caller × Bool)) :
    SameJobs s { s with returned } := by
  constructor <;> rfl

theorem sameJobs_start (s : Queue η δ) : SameJobs s s.start := by
  unfold Queue.start
  split
  · constructor <;> rfl
  · have h := sameJobs_scheduleIfNeeded { s with running := true }
    exact ⟨h.handlers,h.pending,h.failed,h.processing,h.tick,h.enqueued,h.completed,h.history,
      h.ended⟩

theorem sameJobs_stop (s : Queue η δ) : SameJobs s s.stop := by
  unfold Queue.stop
  split
  · constructor <;> rfl
  · constructor <;> rfl

theorem wf_registerHandler (hs : s.Wf) (type : String) (handler : η) :
    (s.registerHandler type handler).Wf := ⟨hs.processing,hs.due⟩

theorem move_registerHandler (s : Queue η δ) (type : String) (handler : η) :
    Move retryBackoffMs now may s (s.registerHandler type handler) where
  jobs := .still (List.Perm.refl _) rfl rfl
  handlers type' hsome := by
    by_cases h : type' = type
    · subst h
      simp [Queue.registerHandler]
    · rw [Queue.registerHandler,InsertionMap.get_set_of_ne _ h]
      exact hsome
  since t ht := .inr ⟨t,ht,rfl⟩
  ended := rfl

theorem wf_push (hs : s.Wf) (job : Job δ) (nextId : ℕ) : (s.push job nextId).Wf :=
  ⟨hs.processing,hs.due⟩

/-- A list with one more element in one of its four parts. -/
theorem perm_placed {α : Type} (x : α) (as bs cs ds : List α) :
    (as ++ [x] ++ bs ++ cs ++ ds).Perm (x :: (as ++ bs ++ cs ++ ds)) ∧
    (as ++ x :: bs ++ cs ++ ds).Perm (x :: (as ++ bs ++ cs ++ ds)) ∧
    (as ++ bs ++ (cs ++ [x]) ++ ds).Perm (x :: (as ++ bs ++ cs ++ ds)) ∧
    (as ++ bs ++ cs ++ (ds ++ [x])).Perm (x :: (as ++ bs ++ cs ++ ds)) := by
  classical
  simp only [List.perm_iff_count,List.count_append,List.count_cons,List.count_nil]
  refine ⟨?_,?_,?_,?_⟩
  all_goals
    intro a
    omega

theorem stages_push (s : Queue η δ) (job : Job δ) (nextId : ℕ) :
    (s.push job nextId).stages.Perm (.waiting job :: s.stages) := by
  simp only [Queue.stages,Queue.push,List.map_append,List.map_singleton]
  exact (perm_placed _ _ _ _ _).1

theorem stages_enqueue (s : Queue η δ) (now : ℤ) (type : String) (payload : δ)
    (options : EnqueueOptions) :
    (s.enqueue now type payload options).stages.Perm
      (.waiting (s.newJob now type payload options) :: s.stages) := by
  unfold Queue.enqueue
  rw [(sameJobs_scheduleIfNeeded _).stages]
  exact stages_push s _ _

theorem move_push (hserial : job.serial = s.enqueued.length) (hattempts : job.attempts = 0)
    (hmay : may job) (nextId : ℕ) : Move retryBackoffMs now may s (s.push job nextId) where
  jobs := .enqueued job (stages_push s job nextId) rfl rfl hserial hattempts hmay
  handlers _ hsome := hsome
  since t ht := .inr ⟨t,ht,rfl⟩
  ended := rfl

theorem stages_take (htick : s.tick = none) : (s.take caller now).stages.Perm s.stages := by
  simp only [Queue.stages,Queue.take,htick,Option.map_some,Option.getD_some,Option.map_none,
    Option.getD_none,Tick.stages,Option.toList_none,List.map_nil,List.nil_append,List.append_nil]
  apply List.Perm.append_right
  apply List.Perm.append_right
  rw [← List.map_append]
  apply List.Perm.map
  exact List.perm_append_comm.trans (List.filter_append_perm _ _)

theorem wf_take (s : Queue η δ) (caller : Caller) (now : ℤ) : (s.take caller now).Wf where
  processing := rfl
  due := by
    intro t ht job hjob
    cases ht
    exact of_decide_eq_true (List.mem_filter.mp hjob).2

theorem move_take (htick : s.tick = none) :
    Move retryBackoffMs now may s (s.take caller now) where
  jobs := .still (stages_take htick) rfl rfl
  handlers _ hsome := hsome
  since t ht := by
    cases ht
    exact .inl rfl
  ended := rfl

/-- The loop is at its head, with `rest` to go. -/
def AtHead (s : Queue η δ) (caller : Caller) (since : ℤ) (rest : List (Job δ)) : Prop :=
  s.Wf ∧ s.tick = some ⟨caller,since,none,rest⟩

/-- What an update of the tick under way leaves alone. -/
theorem since_of_tick (htick : s.tick = some ⟨caller,since,current,rest⟩)
    (htick' : s'.tick = some ⟨caller,since,current',rest'⟩) :
    ∀ t' ∈ s'.tick, t'.now = now ∨ ∃ t ∈ s.tick, t'.now = t.now := by
  intro t' ht'
  rw [htick'] at ht'
  cases ht'
  exact .inr ⟨_,htick,rfl⟩

theorem wf_of_tick (hs : s.Wf) (htick : s.tick = some ⟨caller,since,current,rest⟩)
    (hrest : ∀ job ∈ rest', job ∈ rest)
    (hprocessing : s'.processing = s.processing)
    (htick' : s'.tick = some ⟨caller,since,current',rest'⟩) : s'.Wf where
  processing := by
    rw [hprocessing,htick',hs.processing,htick]
    rfl
  due := by
    intro t ht job hjob
    rw [htick'] at ht
    cases ht
    exact hs.due _ htick job (hrest job hjob)

/-- The jobs apart from the one that the loop is at. -/
def Queue.others (s : Queue η δ) (rest : List (Job δ)) : List (Stage δ) :=
  s.pending.map .waiting ++ rest.map .waiting ++ s.completed.map .completed ++
    s.failed.map .failed

theorem stages_atHead (htick : s.tick = some ⟨caller,since,none,job :: rest⟩) :
    s.stages.Perm (.waiting job :: s.others rest) := by
  simp only [Queue.stages,Queue.others,htick,Option.map_some,Option.getD_some,Tick.stages,
    Option.toList_none,List.map_nil,List.nil_append,List.map_cons]
  exact (perm_placed _ _ _ _ _).2.1

theorem stages_awaiting (htick : s.tick = some ⟨caller,since,some job,rest⟩) :
    s.stages.Perm (.running job :: s.others rest) := by
  simp only [Queue.stages,Queue.others,htick,Option.map_some,Option.getD_some,Tick.stages,
    Option.toList_some,List.map_singleton,List.singleton_append]
  exact (perm_placed _ _ _ _ _).2.1

theorem atHead_deadLetter (h : AtHead s caller since (job :: rest)) :
    AtHead (s.deadLetter caller since now job rest) caller since rest :=
  ⟨wf_of_tick h.1 h.2 (fun _ => List.mem_cons_of_mem job) rfl rfl,rfl⟩

theorem move_deadLetter (h : AtHead s caller since (job :: rest))
    (hnone : s.handlers.get job.type = none) :
    Move retryBackoffMs now may s (s.deadLetter caller since now job rest) where
  jobs := by
    refine .moved _ _ _ (s.others rest) (.bury job now) rfl (stages_atHead h.2) ?_ rfl rfl
      (fun hkind => nomatch hkind) (fun _ => hnone) (fun _ _ => ⟨_,h.2,rfl⟩)
      (fun _ hst => nomatch hst)
    simp only [Queue.stages,Queue.deadLetter,Option.map_some,Option.getD_some,Tick.stages,
      Option.toList_none,List.map_nil,List.nil_append,List.map_append,List.map_singleton]
    exact (perm_placed _ _ _ _ _).2.2.2
  handlers _ hsome := hsome
  since := since_of_tick h.2 rfl
  ended := rfl

theorem wf_call (h : AtHead s caller since (job :: rest)) :
    (s.call caller since now job rest).Wf :=
  wf_of_tick h.1 h.2 (fun _ => List.mem_cons_of_mem job) rfl rfl

theorem move_call (h : AtHead s caller since (job :: rest))
    (hsome : (s.handlers.get job.type).isSome) :
    Move retryBackoffMs now may s (s.call caller since now job rest) where
  jobs := by
    have hdue := h.1.due _ h.2 job List.mem_cons_self
    refine .moved _ _ _ (s.others rest) (.call job now) rfl (stages_atHead h.2) ?_ rfl rfl
      (fun _ => ⟨hsome,_,h.2,hdue⟩) (fun hkind => nomatch hkind) (fun _ _ => ⟨_,h.2,rfl⟩)
      (fun _ hst => nomatch hst)
    exact stages_awaiting rfl
  handlers _ hsome := hsome
  since := since_of_tick h.2 rfl
  ended := rfl

theorem wf_finish (s : Queue η δ) (caller : Caller) : (s.finish caller).Wf where
  processing := rfl
  due _ ht := nomatch ht

theorem move_finish (h : AtHead s caller since []) :
    Move retryBackoffMs now may s (s.finish caller) where
  jobs := by
    refine .still ?_ rfl rfl
    simp only [Queue.stages,Queue.finish,Queue.giveBack,h.2,Option.map_some,Option.getD_some,
      Tick.stages,Option.toList_none,List.map_nil,List.nil_append,Option.map_none,
      Option.getD_none]
    exact List.Perm.refl _
  handlers _ hsome := hsome
  since t ht := nomatch ht
  ended := rfl

section Stages
variable (s : Queue η δ) (caller : Caller) (since now : ℤ) (job : Job δ) (rest : List (Job δ))

theorem stages_succeed :
    (s.succeed caller since now job rest).stages.Perm (.completed job :: s.others rest) := by
  simp only [Queue.stages,Queue.succeed,Option.map_some,Option.getD_some,Tick.stages,
    Option.toList_none,List.map_nil,List.nil_append,List.map_append,List.map_singleton]
  exact (perm_placed _ _ _ _ _).2.2.1

theorem stages_retry :
    (s.retry caller since now job rest).stages.Perm (.waiting job :: s.others rest) := by
  simp only [Queue.stages,Queue.retry,Option.map_some,Option.getD_some,Tick.stages,
    Option.toList_none,List.map_nil,List.nil_append,List.map_append,List.map_singleton]
  exact (perm_placed _ _ _ _ _).1

theorem stages_exhaust :
    (s.exhaust caller since now job rest).stages.Perm (.failed job :: s.others rest) := by
  simp only [Queue.stages,Queue.exhaust,Option.map_some,Option.getD_some,Tick.stages,
    Option.toList_none,List.map_nil,List.nil_append,List.map_append,List.map_singleton]
  exact (perm_placed _ _ _ _ _).2.2.2

end Stages

theorem running_not_others (s : Queue η δ) (job : Job δ) (rest : List (Job δ)) :
    Stage.running job ∉ s.others rest := by
  simp [Queue.others]

theorem may_running (hmay : may job) :
    ∀ job', Stage.running job = .running job' → may job' := by
  intro job' h
  cases h
  exact hmay

theorem move_succeed (htick : s.tick = some ⟨caller,since,some job,rest⟩) (hmay : may job) :
    Move retryBackoffMs now may s (s.succeed caller since now job rest) where
  jobs := by
    exact .moved _ _ _ (s.others rest) (.succeed job now) rfl (stages_awaiting htick)
      (stages_succeed s caller since now job rest) rfl rfl (fun hkind => nomatch hkind)
      (fun hkind => nomatch hkind) (fun _ hst => nomatch hst) (may_running hmay)
  handlers _ hsome := hsome
  since := since_of_tick htick rfl
  ended := rfl

theorem move_retry (htick : s.tick = some ⟨caller,since,some job,rest⟩) (hmay : may job)
    (message : String)
    (hless : ((job.failAt now message).attempts : ℤ) < job.maxAttempts) :
    Move retryBackoffMs now may s (s.retry caller since now
      ((job.failAt now message).holdBack retryBackoffMs) rest) where
  jobs := by
    exact .moved _ _ _ (s.others rest) (.retry job now message hless) rfl
      (stages_awaiting htick) (stages_retry s caller since now _ rest) rfl rfl
      (fun hkind => nomatch hkind) (fun hkind => nomatch hkind) (fun _ hst => nomatch hst)
      (may_running hmay)
  handlers _ hsome := hsome
  since := since_of_tick htick rfl
  ended := rfl

theorem move_exhaust (htick : s.tick = some ⟨caller,since,some job,rest⟩) (hmay : may job)
    (message : String)
    (hless : ¬ ((job.failAt now message).attempts : ℤ) < job.maxAttempts) :
    Move retryBackoffMs now may s (s.exhaust caller since now (job.failAt now message) rest) where
  jobs := by
    exact .moved _ _ _ (s.others rest) (.exhaust job now message hless) rfl
      (stages_awaiting htick) (stages_exhaust s caller since now _ rest) rfl rfl
      (fun hkind => nomatch hkind) (fun hkind => nomatch hkind) (fun _ hst => nomatch hst)
      (may_running hmay)
  handlers _ hsome := hsome
  since := since_of_tick htick rfl
  ended := rfl

theorem atHead_settleJob (hs : s.Wf) (htick : s.tick = some ⟨caller,since,some job,rest⟩)
    {outcome : Outcome} (houtcome : outcome ≠ .unprintable) :
    AtHead (s.settleJob retryBackoffMs caller since now job rest outcome) caller since rest := by
  cases outcome with
  | resolved => exact ⟨wf_of_tick hs htick (fun _ h => h) rfl rfl,rfl⟩
  | rejected message =>
      simp only [Queue.settleJob]
      split
      · exact ⟨wf_of_tick hs htick (fun _ h => h) rfl rfl,rfl⟩
      · exact ⟨wf_of_tick hs htick (fun _ h => h) rfl rfl,rfl⟩
  | unprintable => exact absurd rfl houtcome

theorem move_settleJob (htick : s.tick = some ⟨caller,since,some job,rest⟩) (hmay : may job)
    {outcome : Outcome} (houtcome : outcome ≠ .unprintable) :
    Move retryBackoffMs now may s
      (s.settleJob retryBackoffMs caller since now job rest outcome) := by
  cases outcome with
  | resolved => exact move_succeed htick hmay
  | rejected message =>
      simp only [Queue.settleJob]
      split
      · exact move_retry htick hmay message (by assumption)
      · exact move_exhaust htick hmay message (by assumption)
  | unprintable => exact absurd rfl houtcome

theorem settle_of_printable (htick : s.tick = some ⟨caller,since,some job,rest⟩)
    {outcome : Outcome} (houtcome : outcome ≠ .unprintable) :
    s.settle retryBackoffMs now outcome =
      (s.settleJob retryBackoffMs caller since now job rest outcome).loop caller since now
        rest := by
  simp only [Queue.settle,htick,if_neg houtcome]

theorem settle_unprintable (htick : s.tick = some ⟨caller,since,some job,rest⟩) :
    s.settle retryBackoffMs now .unprintable = s.breakOff caller now (job.breakAt now) := by
  simp only [Queue.settle,htick,if_true,Queue.settleJob]

theorem settle_idle (htick : s.tick.bind (·.current) = none) (outcome : Outcome) :
    s.settle retryBackoffMs now outcome = s := by
  unfold Queue.settle
  split
  · rename_i hawaiting
    rw [hawaiting] at htick
    cases htick
  · rfl

theorem wf_breakOff (s : Queue η δ) (caller : Caller) (now : ℤ) (job : Job δ) :
    (s.breakOff caller now job).Wf := by
  cases caller with
  | timer => exact ⟨rfl,fun _ ht => nomatch ht⟩
  | drain => exact ⟨rfl,fun _ ht => nomatch ht⟩

/-- A well-formed state, reached by moves. -/
def Moves (retryBackoffMs now : ℤ) (may : Job δ → Prop) (s s' : Queue η δ) : Prop :=
  s'.Wf ∧ Relation.ReflTransGen (Move retryBackoffMs now may) s s'

theorem Moves.refl (hs : s.Wf) : Moves retryBackoffMs now may s s := ⟨hs,.refl⟩

theorem Moves.one (hs' : s'.Wf) (h : Move retryBackoffMs now may s s') :
    Moves retryBackoffMs now may s s' := ⟨hs',.single h⟩

theorem Moves.after (h : Move retryBackoffMs now may s s') {s'' : Queue η δ}
    (h' : Moves retryBackoffMs now may s' s'') :
    Moves retryBackoffMs now may s s'' := ⟨h'.1,.head h h'.2⟩

theorem SameJobs.moves (h : SameJobs s s') (hs : s.Wf) : Moves retryBackoffMs now may s s' :=
  .one (h.wf hs) h.move

theorem moves_loop (h : AtHead s caller since rest) :
    Moves retryBackoffMs now may s (s.loop caller since now rest) := by
  induction rest generalizing s with
  | nil => exact .one (wf_finish s caller) (move_finish h)
  | cons job rest ih =>
      unfold Queue.loop
      split
      · rename_i hnone
        exact .after (move_deadLetter h hnone) (ih (atHead_deadLetter h))
      · rename_i hsome
        exact .one (wf_call h) (move_call h (by rw [hsome]; rfl))

theorem moves_processTick (hs : s.Wf) (caller : Caller) :
    Moves retryBackoffMs now may s (s.processTick caller now) := by
  unfold Queue.processTick
  split
  · exact (sameJobs_giveBack s caller false).moves hs
  · rename_i hprocessing
    dsimp only
    split
    · exact (sameJobs_giveBack s caller false).moves hs
    · have htick : s.tick = none := by
        rw [hs.processing] at hprocessing
        simpa using hprocessing
      exact .after (move_take htick) (moves_loop ⟨wf_take s caller now,rfl⟩)

theorem moves_enqueue (hs : s.Wf) {type : String} {payload : δ} {options : EnqueueOptions}
    (hmay : may (s.newJob now type payload options)) :
    Moves retryBackoffMs now may s (s.enqueue now type payload options) := by
  have hpush : Move retryBackoffMs now may s (s.push (s.newJob now type payload options)
      (if options.id.isSome then s.nextId else s.nextId + 1)) := move_push rfl rfl hmay _
  exact .after hpush ((sameJobs_scheduleIfNeeded _).moves (wf_push hs _ _))

theorem moves_resume (hs : s.Wf) (k : ℕ) : Moves retryBackoffMs now may s (s.resume now k) := by
  have hreturn := sameJobs_return s (s.returned.eraseIdx k)
  unfold Queue.resume
  split
  · exact .after hreturn.move ((sameJobs_scheduleIfNeeded _).moves (hreturn.wf hs))
  · exact .after hreturn.move (moves_processTick (hreturn.wf hs) _)
  · exact hreturn.moves hs
  · exact .refl hs

/-- A job that the step enqueues or settles is one that may. -/
def Admits (may : Job δ → Prop) (s : Queue η δ) (st : Step η δ) : Prop :=
  match st.action with
  | .enqueue type payload options => may (s.newJob st.now type payload options)
  | .settle _ => ∀ t ∈ s.tick, ∀ job ∈ t.current, may job
  | _ => True

theorem admits_all (s : Queue η δ) (st : Step η δ) : Admits (fun _ => True) s st := by
  unfold Admits
  split
  · trivial
  · intro _ _ _ _
    trivial
  · trivial

/-- The value that an awaited handler throws has a text. -/
def Convertible (s : Queue η δ) (st : Step η δ) : Prop :=
  match st.action with
  | .settle .unprintable => s.tick.bind (·.current) = none
  | _ => True

theorem moves_settle (hs : s.Wf) {outcome : Outcome}
    (hadmits : Admits may s ⟨now,.settle outcome⟩)
    (hconvertible : Convertible s ⟨now,.settle outcome⟩) :
    Moves retryBackoffMs now may s (s.settle retryBackoffMs now outcome) := by
  cases hcurrent : s.tick.bind (·.current) with
  | none =>
      rw [settle_idle hcurrent]
      exact .refl hs
  | some job =>
      have houtcome : outcome ≠ .unprintable := by
        rintro rfl
        rw [show s.tick.bind (·.current) = none from hconvertible] at hcurrent
        cases hcurrent
      obtain ⟨⟨caller,since,current,rest⟩,htick,rfl⟩ := Option.bind_eq_some_iff.mp hcurrent
      rw [settle_of_printable htick houtcome]
      exact .after (move_settleJob htick (hadmits _ htick _ rfl) houtcome)
        (moves_loop (atHead_settleJob hs htick houtcome))

/-- A step is made of moves. -/
theorem moves_act (hs : s.Wf) {st : Step η δ} (hadmits : Admits may s st)
    (hconvertible : Convertible s st) :
    Moves retryBackoffMs st.now may s (s.act retryBackoffMs st) := by
  obtain ⟨now,action⟩ := st
  cases action with
  | enqueue type payload options => exact moves_enqueue hs hadmits
  | registerHandler type handler =>
      exact .one (wf_registerHandler hs _ _) (move_registerHandler s _ _)
  | start => exact (sameJobs_start s).moves hs
  | stop => exact (sameJobs_stop s).moves hs
  | drain => exact moves_processTick hs .drain
  | fire =>
      simp only [Queue.act,Queue.fire]
      split
      · have hdisarm := sameJobs_disarm s
        exact .after hdisarm.move (moves_processTick (hdisarm.wf hs) .timer)
      · exact .refl hs
  | settle outcome => exact moves_settle hs hadmits hconvertible
  | resume k => exact moves_resume hs k

theorem moves_step (hs : s.Wf) {st : Step η δ} (hadmits : Admits may s st)
    (hconvertible : Convertible s st) :
    Moves retryBackoffMs st.now may s (s.step retryBackoffMs st) := by
  unfold Queue.step
  split
  · exact .refl hs
  · exact moves_act hs hadmits hconvertible

/-- Where the value has no text, the step breaks the loop off. -/
theorem breaks_of_not_convertible {st : Step η δ} (h : ¬ Convertible s st) :
    ∃ caller since job rest, s.tick = some ⟨caller,since,some job,rest⟩ ∧
      s.act retryBackoffMs st = s.breakOff caller st.now (job.breakAt st.now) := by
  obtain ⟨now,action⟩ := st
  unfold Convertible at h
  split at h
  · rename_i haction
    cases haction
    obtain ⟨job,hjob⟩ := Option.ne_none_iff_exists'.mp h
    obtain ⟨⟨caller,since,current,rest⟩,htick,rfl⟩ := Option.bind_eq_some_iff.mp hjob
    exact ⟨caller,since,job,rest,htick,settle_unprintable htick⟩
  · exact absurd trivial h

/-- Every step keeps the queue well formed. -/
theorem wf_act (hs : s.Wf) (st : Step η δ) : (s.act retryBackoffMs st).Wf := by
  by_cases hconvertible : Convertible s st
  · have hmoves : Moves retryBackoffMs st.now (fun _ => True) s (s.act retryBackoffMs st) :=
      moves_act hs (admits_all s st) hconvertible
    exact hmoves.1
  · obtain ⟨caller,since,job,rest,-,hact⟩ :=
      @breaks_of_not_convertible η δ retryBackoffMs s st hconvertible
    rw [hact]
    exact wf_breakOff s caller st.now _

theorem wf_step (hs : s.Wf) (st : Step η δ) : (s.step retryBackoffMs st).Wf := by
  unfold Queue.step
  split
  · exact hs
  · exact wf_act hs st

end Moves

instance (s : Queue η δ) : (st : Step η δ) → Decidable (Convertible s st)
  | ⟨_,.settle .unprintable⟩ => inferInstanceAs (Decidable (s.tick.bind (·.current) = none))
  | ⟨_,.settle .resolved⟩ | ⟨_,.settle (.rejected _)⟩ | ⟨_,.enqueue _ _ _⟩
  | ⟨_,.registerHandler _ _⟩ | ⟨_,.start⟩ | ⟨_,.stop⟩ | ⟨_,.drain⟩ | ⟨_,.fire⟩
  | ⟨_,.resume _⟩ => inferInstanceAs (Decidable True)

theorem wf_new : ({} : Queue η δ).Wf where
  processing := rfl
  due _ ht := nomatch ht

end Creditra.JobQueue
