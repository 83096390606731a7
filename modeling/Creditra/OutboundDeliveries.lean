import Creditra.OutboundCoupling

/-!
# What a delivery row says of its job

With the in-memory store no write is ever refused, so the coupling holds in
every run in which every attempt can be recorded: what a POST fails with has a
text, and the times that are announced have dates. In a state in which
no `scheduleEvent` and no `processDeliveryJob` is in progress it reads off the
row where the job is, and the other way round. A row that says `delivered` is
never written again.
-/
namespace Creditra.OutboundDeliveries
open GuardedRuns InsertionMaps JobQueue OutboundWebhookStore OutboundWebhooks OutboundCoupling

variable {δ : Type} {noted : Prop} {backend : Backend} {config : Config} {s : Dispatcher δ}

/-- The job is the delivery's. -/
def IsJobOf (id : String) (job : Job (Payload δ)) : Prop :=
  job.type = WEBHOOK_DELIVERY_JOB ∧ deliveryId job = id

instance (id : String) (job : Job (Payload δ)) : Decidable (IsJobOf id job) :=
  inferInstanceAs (Decidable (job.type = WEBHOOK_DELIVERY_JOB ∧ deliveryId job = id))

def isReturned : SchedulePhase → Bool
  | .returned => true
  | _ => false

/-- No `scheduleEvent` and no `processDeliveryJob` is in progress. -/
def Idle (s : Dispatcher δ) : Prop :=
  (∀ call ∈ s.calls, isReturned call.phase = true) ∧ s.handler.isNone

instance (s : Dispatcher δ) : Decidable (Idle s) := by
  unfold Idle
  infer_instance

/-- The row has one job, and they agree. A job of the batch that is not handled
yet counts as pending. -/
structure InStep (q : Queue Unit (Payload δ)) (row : Delivery) : Prop where
  one_job : ((q.pending ++ q.batch ++ q.completed ++ q.failed).filter
    (fun job => IsJobOf row.id job)).length = 1
  queued : row.status = .queued ↔
    ∃ job ∈ q.pending ++ q.batch, IsJobOf row.id job ∧ job.attempts = 0
  failed : row.status = .failed ↔
    ∃ job ∈ q.pending ++ q.batch, IsJobOf row.id job ∧ job.attempts = row.attempts ∧
      1 ≤ row.attempts
  delivered : row.status = .delivered ↔ ∃ job ∈ q.completed, IsJobOf row.id job
  deadLettered : row.status = .deadLetter ↔ ∃ job ∈ q.failed, IsJobOf row.id job

theorem unviolated_memory (h : Coupled noted .memory config s) (st : OutboundWebhooks.Step δ) :
    Unviolated s st := by
  unfold Unviolated
  split
  · intro h' hh delivery attempt next hphase
    obtain ⟨job,phase⟩ := h'
    cases hphase
    obtain ⟨row,hrow,hfits⟩ := h.row_of hh
    cases hfits.2.2.1
  · trivial

theorem coupled_step (s : Dispatcher δ) (st : OutboundWebhooks.Step δ)
    (h : Coupled noted .memory config s) (hnoted : noted → Noted config s st) :
    Coupled noted .memory config (s.step .memory config st) :=
  Coupled.step s st h (unviolated_memory h st) hnoted

theorem coupled_run (config : Config) (steps : List (OutboundWebhooks.Step δ)) :
    Coupled False .memory config (run (Dispatcher.step .memory config) {} steps) :=
  run_induction (fun s st h => coupled_step s st h False.elim) (coupled_new False .memory config)
    steps

theorem coupled_run_noted {steps : List (OutboundWebhooks.Step δ)}
    (hg : Guarded (Dispatcher.step .memory config) (Noted config) {} steps) :
    Coupled True .memory config (run (Dispatcher.step .memory config) {} steps) :=
  run_invariant (fun s st h hst => coupled_step s st h fun _ => hst)
    (coupled_new True .memory config) hg

/-! ## Reading the row off the job -/

theorem webhookId_eq_some {st : Stage (Payload δ)} {id : String} :
    webhookId st = some id ↔ IsJobOf id st.job := by
  by_cases hwebhook : IsWebhook st.job
  · rw [webhookId_eq hwebhook,Option.some.injEq]
    exact (and_iff_right hwebhook).symm
  · rw [show webhookId st = none from if_neg hwebhook]
    constructor
    · intro h
      cases h
    · intro h
      exact (hwebhook h.1).elim

theorem created_nil (h : ∀ call ∈ s.calls, isReturned call.phase = true) :
    s.calls.filterMap createdId = [] := by
  rw [List.filterMap_eq_nil_iff]
  intro call hcall
  have hreturned := h call hcall
  unfold createdId
  split
  · rename_i hphase
    rw [hphase] at hreturned
    cases hreturned
  · rfl

theorem count_webhookId (sts : List (Stage (Payload δ))) (id : String) :
    (sts.filterMap webhookId).count id =
      ((sts.map Stage.job).filter (fun job => IsJobOf id job)).length := by
  induction sts with
  | nil => rfl
  | cons st sts ih =>
      rw [List.map_cons,List.filter_cons]
      cases hid : webhookId st with
      | none =>
          have hnot : ¬ IsJobOf id st.job := by
            rw [← webhookId_eq_some,hid]
            simp
          rw [List.filterMap_cons_none hid,ih,if_neg (by simpa using hnot)]
      | some id' =>
          rw [List.filterMap_cons_some hid,List.count_cons,ih]
          by_cases heq : id' = id
          · subst heq
            have hjob := webhookId_eq_some.mp hid
            simp [hjob]
          · have hnot : ¬ IsJobOf id st.job := by
              rw [← webhookId_eq_some,hid]
              simpa using heq
            simp [hnot,heq]

section Agreement
variable (h : Coupled True backend config s) (hidle : Idle s)
include h hidle

/-- Every row has a job. -/
theorem stage_of_row {id : String} {row : Delivery} (hrow : s.store.getDelivery id = some row) :
    ∃ st ∈ s.queue.stages, IsJobOf id st.job := by
  have hids := h.ids
  rw [created_nil hidle.1,List.append_nil] at hids
  have hkey : id ∈ s.store.deliveries.keys := by
    rw [InsertionMap.mem_keys]
    exact Option.isSome_iff_exists.mpr ⟨row,hrow⟩
  obtain ⟨st,hst,hid⟩ := List.mem_filterMap.mp (hids.mem_iff.mpr hkey)
  exact ⟨st,hst,webhookId_eq_some.mp hid⟩

theorem one_job_of_row {id : String} {row : Delivery}
    (hrow : s.store.getDelivery id = some row) :
    ((s.queue.pending ++ s.queue.batch ++ s.queue.completed ++ s.queue.failed).filter
      (fun job => IsJobOf id job)).length = 1 := by
  rw [← JobLives.stages_map_job,← count_webhookId]
  obtain ⟨st,hst,hjob⟩ := stage_of_row h hidle hrow
  apply List.count_eq_one_of_mem
  · exact (List.nodup_append.mp h.ids_nodup).1
  · exact List.mem_filterMap.mpr ⟨st,hst,webhookId_eq_some.mpr hjob⟩

/-- No webhook job is running. -/
theorem not_running {job : Job (Payload δ)} (hjob : IsWebhook job) :
    Stage.running job ∉ s.queue.stages := by
  intro hmem
  have hsome := h.launched job hmem hjob
  rw [Option.isNone_iff_eq_none.mp hidle.2] at hsome
  cases hsome

theorem fits_of_row {id : String} {row : Delivery} (hrow : s.store.getDelivery id = some row)
    {st : Stage (Payload δ)} (hst : st ∈ s.queue.stages) (hjob : IsJobOf id st.job) :
    RowFits True backend config none row st := by
  obtain ⟨row',hrow',hfits⟩ := h.rows st hst hjob.1
  rw [hjob.2,hrow] at hrow'
  cases hrow'
  rw [Option.isNone_iff_eq_none.mp hidle.2] at hfits
  exact hfits

theorem waiting_of_place {id : String} {job : Job (Payload δ)}
    (hplace : job ∈ s.queue.pending ++ s.queue.batch) (hjob : IsJobOf id job) :
    Stage.waiting job ∈ s.queue.stages := by
  have hnot := not_running h hidle hjob.1
  unfold Queue.stages Queue.batch at *
  cases htick : s.queue.tick with
  | none =>
      rw [htick] at hplace
      simp at hplace
      simp [hplace]
  | some t =>
      rw [htick] at hplace hnot
      simp [Tick.stages] at hplace hnot
      rcases hplace with hpending | hcurrent | hrest
      · simp [hpending]
      · exact (hnot hcurrent).elim
      · simp [Tick.stages,hrest]

end Agreement

theorem completed_mem {q : Queue Unit (Payload δ)} {job : Job (Payload δ)} :
    Stage.completed job ∈ q.stages ↔ job ∈ q.completed := by
  unfold Queue.stages
  cases q.tick with
  | none => simp
  | some t => simp [Tick.stages]

theorem deadLetter_of_fits {row : Delivery} {job : Job (Payload δ)}
    (hfits : RowFits True backend config none row (.failed job)) : row.status = .deadLetter :=
  hfits.resolve_right fun hunrecorded => hunrecorded.1 trivial

/-- Between calls and handlers, where the job of a row is and what the row says then. -/
theorem row_cases (h : Coupled True backend config s) (hidle : Idle s) {id : String} {row : Delivery}
    (hrow : s.store.getDelivery id = some row) :
    ∃ job, IsJobOf id job ∧
      ((job ∈ s.queue.pending ++ s.queue.batch ∧ Open True row job.attempts) ∨
        (job ∈ s.queue.completed ∧ row.status = .delivered) ∨
        (job ∈ s.queue.failed ∧ row.status = .deadLetter)) := by
  obtain ⟨st,hst,hjob⟩ := stage_of_row h hidle hrow
  have hfits := fits_of_row h hidle hrow hst hjob
  cases st with
  | waiting job => exact ⟨job,hjob,.inl ⟨JobLives.mem_of_waiting hst,hfits⟩⟩
  | running job => exact (not_running h hidle hjob.1 hst).elim
  | completed job => exact ⟨job,hjob,.inr (.inl ⟨completed_mem.mp hst,hfits⟩)⟩
  | failed job => exact ⟨job,hjob,.inr (.inr
      ⟨JobLives.mem_stages_failed.mp hst,deadLetter_of_fits hfits⟩)⟩

/-- Between calls and handlers, a row and its job agree. -/
theorem inStep_of_coupled (h : Coupled True backend config s) (hidle : Idle s) {id : String}
    {row : Delivery} (hrow : s.store.getDelivery id = some row) : InStep s.queue row := by
  have hid : row.id = id := h.keyed id row hrow
  subst hid
  have hopen : ∀ job ∈ s.queue.pending ++ s.queue.batch, IsJobOf row.id job →
      row.status = .queued ∧ job.attempts = 0 ∨
        row.status = .failed ∧ row.attempts = job.attempts ∧ 1 ≤ job.attempts := by
    intro job hplace hjob
    have hfits : Open True row job.attempts :=
      fits_of_row h hidle hrow (waiting_of_place h hidle hplace hjob) hjob
    exact hfits.counted trivial
  obtain ⟨job,hjob,hplaced⟩ := row_cases h hidle hrow
  have hplaced : job ∈ s.queue.pending ++ s.queue.batch ∧
        (row.status = .queued ∧ job.attempts = 0 ∨
          row.status = .failed ∧ row.attempts = job.attempts ∧ 1 ≤ job.attempts) ∨
      job ∈ s.queue.completed ∧ row.status = .delivered ∨
      job ∈ s.queue.failed ∧ row.status = .deadLetter := by
    exact hplaced.imp_left fun hwaiting => ⟨hwaiting.1,hwaiting.2.counted trivial⟩
  constructor
  · exact one_job_of_row h hidle hrow
  · constructor
    · intro hstatus
      rcases hplaced with ⟨hwaiting,⟨-,hattempts⟩ | ⟨hfailed,-⟩⟩ | ⟨-,hdelivered⟩ | ⟨-,hdead⟩
      · exact ⟨job,hwaiting,hjob,hattempts⟩
      · cases hstatus.symm.trans hfailed
      · cases hstatus.symm.trans hdelivered
      · cases hstatus.symm.trans hdead
    · rintro ⟨job',hplace,hjob',hattempts⟩
      rcases hopen job' hplace hjob' with ⟨hqueued,-⟩ | ⟨-,-,hpositive⟩
      · exact hqueued
      · omega
  · constructor
    · intro hstatus
      rcases hplaced with ⟨hwaiting,⟨hqueued,-⟩ | ⟨-,hattempts,hpositive⟩⟩ | ⟨-,hdelivered⟩ |
        ⟨-,hdead⟩
      · cases hstatus.symm.trans hqueued
      · exact ⟨job,hwaiting,hjob,hattempts.symm,by omega⟩
      · cases hstatus.symm.trans hdelivered
      · cases hstatus.symm.trans hdead
    · rintro ⟨job',hplace,hjob',hattempts,hpositive⟩
      rcases hopen job' hplace hjob' with ⟨-,hzero⟩ | ⟨hfailed,-⟩
      · omega
      · exact hfailed
  · constructor
    · intro hstatus
      rcases hplaced with ⟨-,⟨hqueued,-⟩ | ⟨hfailed,-⟩⟩ | ⟨hcompleted,-⟩ | ⟨-,hdead⟩
      · cases hstatus.symm.trans hqueued
      · cases hstatus.symm.trans hfailed
      · exact ⟨job,hcompleted,hjob⟩
      · cases hstatus.symm.trans hdead
    · rintro ⟨job',hplace,hjob'⟩
      exact fits_of_row h hidle hrow (completed_mem.mpr hplace) hjob'
  · constructor
    · intro hstatus
      rcases hplaced with ⟨-,⟨hqueued,-⟩ | ⟨hfailed,-⟩⟩ | ⟨-,hdelivered⟩ | ⟨hdead,-⟩
      · cases hstatus.symm.trans hqueued
      · cases hstatus.symm.trans hfailed
      · cases hstatus.symm.trans hdelivered
      · exact ⟨job,hdead,hjob⟩
    · rintro ⟨job',hplace,hjob'⟩
      exact deadLetter_of_fits
        (fits_of_row h hidle hrow (JobLives.mem_stages_failed.mpr hplace) hjob')

theorem delivered_step (h : Coupled False .memory config s) (st : OutboundWebhooks.Step δ) {id : String}
    {row : Delivery} (hrow : s.store.getDelivery id = some row)
    (hdelivered : row.status = .delivered) :
    (s.step .memory config st).store.getDelivery id = some row := by
  obtain ⟨row',hrow',rfl | ⟨hlive,-⟩⟩ := h.step_row (unviolated_memory h st) hrow
  · exact hrow'
  · rcases hlive with hqueued | hfailed
    · cases hdelivered.symm.trans hqueued
    · cases hdelivered.symm.trans hfailed

theorem delivered_run (h : Coupled False .memory config s) {id : String} {row : Delivery}
    (hrow : s.store.getDelivery id = some row) (hdelivered : row.status = .delivered)
    (later : List (OutboundWebhooks.Step δ)) :
    (run (Dispatcher.step .memory config) s later).store.getDelivery id = some row := by
  induction later generalizing s with
  | nil => exact hrow
  | cons st later ih =>
      exact ih (coupled_step s st h False.elim) (delivered_step h st hrow hdelivered)

/-- In every run with the in-memory store whose attempts can all be recorded, the rows
agree with their jobs whenever nothing is in progress. In every run a delivered row
stays as it is. -/
theorem deliveries_in_step (config : Config) (steps : List (OutboundWebhooks.Step δ)) :
    let s := run (Dispatcher.step .memory config) {} steps
    (Guarded (Dispatcher.step .memory config) (Noted config) {} steps → Idle s →
      ∀ id row, s.store.getDelivery id = some row → InStep s.queue row) ∧
    ∀ id row, s.store.getDelivery id = some row → row.status = .delivered →
      ∀ later, (run (Dispatcher.step .memory config) s later).store.getDelivery id =
        some row := by
  intro s
  constructor
  · intro hg hidle id row hrow
    exact inStep_of_coupled (coupled_run_noted hg) hidle hrow
  · intro id row hrow hdelivered later
    exact delivered_run (coupled_run config steps) hrow hdelivered later

def confirmed : CreditDomainEvent := ⟨.drawConfirmed,"2026-07-09T00:00:00.000Z","line-1",[]⟩

def subscribed : List (OutboundWebhooks.Step Unit) :=
  [⟨0,.subscribe "https://a.example/hook" ["credit.draw_confirmed"] "WEBHOOK_SECRET" "s1"⟩,
    ⟨0,.subscribe "https://b.example/hook" ["credit.draw_confirmed"] "WEBHOOK_SECRET" "s2"⟩,
    ⟨0,.queue .start⟩,⟨1,.schedule confirmed⟩,⟨1,.proceed 0 "" 0⟩,⟨1,.proceed 0 "d1" 0⟩,
    ⟨1,.proceed 0 "" 0⟩,⟨1,.proceed 0 "d2" 0⟩,⟨1,.proceed 0 "" 0⟩]

/-- Two subscribers: the one accepts at the second attempt, the other never. -/
def acceptedAndRefused : List (OutboundWebhooks.Step Unit) :=
  subscribed ++
  [⟨51,.queue .fire⟩,⟨51,.handle⟩,⟨60,.fail "fetch failed" false⟩,⟨60,.handle⟩,⟨60,.collect⟩,
    ⟨60,.handle⟩,⟨70,.answer ⟨503,"Service Unavailable"⟩⟩,⟨70,.handle⟩,⟨70,.collect⟩,
    ⟨70,.queue (.resume 0)⟩,⟨570,.queue .fire⟩,⟨570,.handle⟩,⟨580,.answer ⟨200,"OK"⟩⟩,
    ⟨580,.handle⟩,⟨580,.collect⟩,⟨580,.handle⟩,⟨590,.fail "aborted" false⟩,⟨590,.handle⟩,
    ⟨590,.collect⟩]

theorem deliveries_in_step_accepted_and_refused :
    let s := run (Dispatcher.step .memory ⟨2,1000,500⟩) {} acceptedAndRefused
    Guarded (Dispatcher.step .memory ⟨2,1000,500⟩) (Noted ⟨2,1000,500⟩) {} acceptedAndRefused ∧
    (s.store.deliveries.entries.map fun e => (e.1,e.2.status)) =
      [("d1",.delivered),("d2",.deadLetter)] ∧
    Idle s ∧ ∀ id row, s.store.getDelivery id = some row → InStep s.queue row := by
  intro s
  have hg : Guarded (Dispatcher.step .memory ⟨2,1000,500⟩) (Noted ⟨2,1000,500⟩) {}
      acceptedAndRefused := by decide +kernel
  have hidle : Idle s := by decide +kernel
  exact ⟨hg,by decide +kernel,hidle,
    (deliveries_in_step ⟨2,1000,500⟩ acceptedAndRefused).1 hg hidle⟩

/-- No date holds the instant of the next attempt: both POSTs are refused, and the
rows stay queued while their jobs have an attempt behind them. -/
theorem undated_refusal_not_recorded :
    let s := run (Dispatcher.step .memory ⟨3,10000000000000000,500⟩) {} (subscribed ++
      [⟨51,.queue .fire⟩,⟨51,.handle⟩,⟨60,.answer ⟨503,"Service Unavailable"⟩⟩,⟨60,.collect⟩,
        ⟨60,.handle⟩,⟨70,.fail "fetch failed" false⟩,⟨70,.collect⟩])
    Idle s ∧ (s.store.deliveries.entries.map fun e => (e.1,e.2.status,e.2.attempts)) =
        [("d1",.queued,0),("d2",.queued,0)] ∧
      s.queue.pending.map (fun job => (deliveryId job,job.attempts)) = [("d1",1),("d2",1)] ∧
      ¬ ∀ id row, s.store.getDelivery id = some row → InStep s.queue row := by
  intro s
  have hjobs : ∀ job ∈ s.queue.pending ++ s.queue.batch, job.attempts ≠ 0 := by decide +kernel
  have hrow : ∃ row, s.store.getDelivery "d1" = some row ∧ row.status = .queued := by
    refine ⟨_,rfl,?_⟩
    decide +kernel
  refine ⟨by decide +kernel,by decide +kernel,by decide +kernel,?_⟩
  intro hinStep
  obtain ⟨row,hrow,hqueued⟩ := hrow
  obtain ⟨job,hjob,-,hattempts⟩ := (hinStep "d1" row hrow).queued.mp hqueued
  exact hjobs job hjob hattempts

/-- A failure without a text is not recorded either. -/
example :
    let s := run (Dispatcher.step .memory ⟨3,1000,500⟩) {} (subscribed ++
      [⟨51,.queue .fire⟩,⟨51,.handle⟩,⟨60,.failUnprintable false⟩,⟨60,.collect⟩])
    (s.store.getDelivery "d1").map (fun row => (row.status,row.attempts)) = some (.queued,0) ∧
      s.queue.pending.map (fun job => (deliveryId job,job.attempts)) = [("d1",1)] := by
  decide +kernel

end Creditra.OutboundDeliveries
