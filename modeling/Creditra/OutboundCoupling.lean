import Creditra.JobLives
import Creditra.OutboundWebhooks

/-!
# Deliveries and their jobs

Each delivery has one job, from the moment `scheduleEvent` enqueues it. The row
and the job are advanced by two components that count attempts on their own: the
dispatcher writes the row while the handler runs, and the queue decides on the
job when the handler has settled. The coupling below says what the row is at
every stage of its job and, while the handler runs, at each of its awaits. A
refusal whose next attempt has no date leaves no trace in the row, and neither
does a failure without a text; `noted` says that there are none.
-/
namespace Creditra.OutboundCoupling
open GuardedRuns InsertionMaps IsoDates JobQueue OutboundWebhookStore OutboundWebhooks

variable {δ : Type} {noted : Prop} {backend : Backend} {config : Config} {now : ℤ} {s : Dispatcher δ}

def IsWebhook (job : Job (Payload δ)) : Prop := job.type = WEBHOOK_DELIVERY_JOB

instance (job : Job (Payload δ)) : Decidable (IsWebhook job) :=
  inferInstanceAs (Decidable (job.type = WEBHOOK_DELIVERY_JOB))

/-- The delivery that a job is for. -/
def webhookId (st : Stage (Payload δ)) : Option String :=
  if IsWebhook st.job then some (deliveryId st.job) else none

/-- The delivery whose job the call has not enqueued yet. -/
def createdId (call : ScheduleCall) : Option String :=
  match call.phase with
  | .created delivery _ => some delivery.id
  | _ => none

def Live (row : Delivery) : Prop := row.status = .queued ∨ row.status = .failed

/-- The row of a job that has used this number of attempts and may be called. -/
structure Open (noted : Prop) (row : Delivery) (attempts : ℕ) : Prop where
  live : Live row
  counted : noted → row.status = .queued ∧ attempts = 0 ∨
    row.status = .failed ∧ row.attempts = attempts ∧ 1 ≤ attempts

/-- The row after an attempt is recorded. -/
def Recorded (row : Delivery) (job : Job (Payload δ)) : Attempt → Prop
  | .accepted _ => row.status = .delivered
  | .refused _ => row.attempts = job.attempts + 1 ∧
      row.status = if ((job.attempts + 1 : ℕ) : ℤ) < job.maxAttempts then .failed else .deadLetter
  | .unprintable => False

/-- The queue tries again after a refusal. -/
def Retried (job : Job (Payload δ)) : Prop := ((job.attempts + 1 : ℕ) : ℤ) < job.maxAttempts

instance (job : Job (Payload δ)) : Decidable (Retried job) :=
  inferInstanceAs (Decidable (_ < job.maxAttempts))

/-- The row after an attempt that could not be recorded. -/
def Unrecorded (noted : Prop) (row : Delivery) : Prop := ¬ noted ∧ Live row

/-- The row of a job whose handler has this phase. -/
def PhaseFits (noted : Prop) (backend : Backend) (config : Config) (job : Job (Payload δ))
    (row : Delivery) : HandlerPhase → Prop
  | .getting reply => Open noted row job.attempts ∧ ∀ a, reply = .got a → a = some row
  | .posting delivery => Open noted row job.attempts ∧ delivery = row
  | .reading delivery attempt patch => Open noted row job.attempts ∧ delivery = row ∧
      backend = .postgres ∧ ∃ now, patchFor config job now attempt = .ok patch
  | .writing delivery attempt next => Open noted row job.attempts ∧ delivery = row ∧
      backend = .postgres ∧ ∃ now patch, patchFor config job now attempt = .ok patch ∧
        next = Postgres.nextColumns row patch
  | .recorded _ attempt error => error = none ∧ Recorded row job attempt
  | .finished .resolved => row.status = .delivered
  | .finished (.rejected message) =>
      Recorded row job (.refused message) ∨ Unrecorded noted row
  | .finished .unprintable => False

/-- The row of a job at this stage. -/
def RowFits (noted : Prop) (backend : Backend) (config : Config) (handler : Option (Handler δ))
    (row : Delivery) : Stage (Payload δ) → Prop
  | .waiting job => Open noted row job.attempts
  | .running job => match handler with
      | none => Open noted row job.attempts
      | some h => PhaseFits noted backend config job row h.phase
  | .completed _ => row.status = .delivered
  | .failed _ => row.status = .deadLetter ∨ Unrecorded noted row

/-- The handler matters to the row of a running job only. -/
theorem RowFits.change_handler {handler handler' : Option (Handler δ)} {row : Delivery}
    {st : Stage (Payload δ)} (h : RowFits noted backend config handler row st)
    (hrunning : ∀ job, st = .running job → RowFits noted backend config handler' row (.running job)) :
    RowFits noted backend config handler' row st := by
  cases st with
  | waiting job => exact h
  | running job => exact hrunning job rfl
  | completed job => exact h
  | failed job => exact h

/-- Rows and jobs belong together, up to a handler that was just called. -/
structure Mid (noted : Prop) (backend : Backend) (config : Config) (s : Dispatcher δ) : Prop where
  registered : (s.queue.handlers.get WEBHOOK_DELIVERY_JOB).isSome
  ids : (s.queue.stages.filterMap webhookId ++ s.calls.filterMap createdId).Perm
    s.store.deliveries.keys
  keyed : ∀ id row, s.store.getDelivery id = some row → row.id = id
  rows : ∀ st ∈ s.queue.stages, IsWebhook st.job →
    ∃ row, s.store.getDelivery (deliveryId st.job) = some row ∧
      RowFits noted backend config s.handler row st
  fresh : ∀ call ∈ s.calls, ∀ id, createdId call = some id →
    ∃ row, s.store.getDelivery id = some row ∧ Open noted row 0
  handler : ∀ h, s.handler = some h → .running h.job ∈ s.queue.stages ∧ IsWebhook h.job

structure Coupled (noted : Prop) (backend : Backend) (config : Config) (s : Dispatcher δ) : Prop
    extends Mid noted backend config s where
  wf : s.queue.Wf
  launched : ∀ job, .running job ∈ s.queue.stages → IsWebhook job → s.handler.isSome

/-! ## What the parts of a step leave alone -/

theorem launch_frame (backend : Backend) (s : Dispatcher δ) :
    ∃ handler, s.launch backend = { s with handler } := by
  unfold Dispatcher.launch
  split
  · split
    · exact ⟨_,rfl⟩
    · exact ⟨_,rfl⟩
  · exact ⟨_,rfl⟩

theorem create_frame (s : Dispatcher δ) (i : ℕ) (call : ScheduleCall)
    (input : CreateDeliveryInput WebhookPayload) (rest : List OutboundWebhookSubscription)
    (uuid : String) (now : ℤ) :
    ∃ store calls, s.create i call input rest uuid now = { s with store, calls } := by
  unfold Dispatcher.create
  split
  · exact ⟨_,_,rfl⟩
  · exact ⟨_,_,rfl⟩

theorem startUpdate_frame (backend : Backend) (config : Config) (s : Dispatcher δ)
    (job : Job (Payload δ)) (delivery : Delivery) (attempt : Attempt) (now : ℤ) :
    ∃ store handler, s.startUpdate backend config job delivery attempt now =
      { s with store, handler } := by
  unfold Dispatcher.startUpdate
  split
  · exact ⟨_,_,rfl⟩
  · split
    · split
      · exact ⟨_,_,rfl⟩
      · exact ⟨_,_,rfl⟩
    · exact ⟨_,_,rfl⟩

/-- The handler writes rows and goes on. -/
theorem handle_frame (backend : Backend) (config : Config) (s : Dispatcher δ) (now : ℤ) :
    ∃ store handler, s.handle backend config now = { s with store, handler } := by
  unfold Dispatcher.handle
  split
  · exact ⟨_,_,rfl⟩
  · split
    · split <;> exact ⟨_,_,rfl⟩
    · split <;> exact ⟨_,_,rfl⟩
    · split <;> exact ⟨_,_,rfl⟩
    · split
      · exact ⟨_,_,rfl⟩
      · exact startUpdate_frame _ _ _ _ _ _ _
      · exact ⟨_,_,rfl⟩
      · exact ⟨_,_,rfl⟩
      · exact ⟨_,_,rfl⟩
      · exact ⟨_,_,rfl⟩
    · exact ⟨_,_,rfl⟩
    · exact ⟨_,_,rfl⟩

theorem settlePost_frame (backend : Backend) (config : Config) (s : Dispatcher δ) (now : ℤ)
    (attempt : Attempt) (success arrived : Bool) :
    ∃ store handler posts, s.settlePost backend config now attempt success arrived =
      { s with store, handler, posts } := by
  unfold Dispatcher.settlePost
  split
  · obtain ⟨store,handler,hframe⟩ := startUpdate_frame backend config _ _ _ attempt now
    exact ⟨store,handler,_,hframe⟩
  · exact ⟨_,_,_,rfl⟩

/-! ## The queue's part -/

theorem running_mem {η δ : Type} {q : Queue η δ} {job : Job δ} :
    Stage.running job ∈ q.stages ↔ q.tick.bind (·.current) = some job := by
  unfold Queue.stages
  cases q.tick with
  | none => simp
  | some t => cases hcurrent : t.current <;> simp [Tick.stages,hcurrent,eq_comm]

theorem tick_of_running {η δ : Type} {q : Queue η δ} {job : Job δ}
    (h : Stage.running job ∈ q.stages) :
    ∃ caller since rest, q.tick = some ⟨caller,since,some job,rest⟩ := by
  have hcurrent := running_mem.mp h
  cases htick : q.tick with
  | none =>
      rw [htick] at hcurrent
      cases hcurrent
  | some t =>
      rw [htick,Option.bind_some] at hcurrent
      obtain ⟨caller,since,current,rest⟩ := t
      cases hcurrent
      exact ⟨caller,since,rest,rfl⟩

theorem webhookId_life {st st' : Stage (Payload δ)} {o : Occurrence (Payload δ)}
    {retryBackoffMs : ℤ} (h : Life retryBackoffMs st o st') : webhookId st' = webhookId st := by
  cases h <;> rfl

/-- A job that goes on by itself was waiting, and its handler is called. -/
theorem Mid.called (h : Mid noted backend config s) {st st' : Stage (Payload δ)}
    {o : Occurrence (Payload δ)} {retryBackoffMs : ℤ} (hlife : Life retryBackoffMs st o st')
    (hst : st ∈ s.queue.stages)
    (hunhandled : o.kind = .unhandled → s.queue.handlers.get o.job.type = none)
    (hidle : ∀ job, st = .waiting job → ∃ t ∈ s.queue.tick, t.current = none)
    (hmay : ∀ job, st = .running job → ¬ IsWebhook job) (hwebhook : IsWebhook st'.job) :
    ∃ row, s.store.getDelivery (deliveryId st'.job) = some row ∧
      RowFits noted backend config s.handler row st' := by
  cases hlife with
  | call job now =>
      have hnone : s.handler = none := by
        rw [Option.eq_none_iff_forall_ne_some]
        intro h' hh
        obtain ⟨t,ht,hcurrent⟩ := hidle job rfl
        have hrunning := running_mem.mp (h.handler h' hh).1
        rw [Option.mem_def.mp ht,Option.bind_some,hcurrent] at hrunning
        cases hrunning
      obtain ⟨row,hrow,hfits⟩ := h.rows _ hst hwebhook
      refine ⟨row,hrow,?_⟩
      rw [hnone]
      exact hfits
  | bury job now =>
      have hregistered := h.registered
      have htype : job.type = WEBHOOK_DELIVERY_JOB := hwebhook
      rw [← htype,hunhandled rfl] at hregistered
      cases hregistered
  | succeed job | retry job | exhaust job => exact (hmay job rfl hwebhook).elim

theorem Mid.move {q : Queue Unit (Payload δ)} {retryBackoffMs : ℤ} (h : Mid noted backend config s)
    (hmove : Move retryBackoffMs now (fun job => ¬ IsWebhook job) s.queue q) :
    Mid noted backend config { s with queue := q } := by
  have hregistered := hmove.handlers _ h.registered
  cases hmove.jobs with
  | still hstages hhistory henqueued =>
      exact
        { registered := hregistered
          ids := ((hstages.filterMap _).append_right _).trans h.ids
          keyed := h.keyed
          rows := fun st hst => h.rows st (hstages.mem_iff.mp hst)
          fresh := h.fresh
          handler := fun h' hh =>
            ⟨hstages.mem_iff.mpr (h.handler h' hh).1,(h.handler h' hh).2⟩ }
  | enqueued job hstages hhistory henqueued hserial hattempts hmay =>
      have hnone : webhookId (.waiting job) = none := if_neg hmay
      have hids := hstages.filterMap webhookId
      rw [List.filterMap_cons_none hnone] at hids
      exact
        { registered := hregistered
          ids := (hids.append_right _).trans h.ids
          keyed := h.keyed
          rows := by
            intro st hst hwebhook
            rcases List.mem_cons.mp (hstages.mem_iff.mp hst) with rfl | hold
            · exact absurd hwebhook hmay
            · exact h.rows st hold hwebhook
          fresh := h.fresh
          handler := fun h' hh =>
            ⟨hstages.mem_iff.mpr (List.mem_cons_of_mem _ (h.handler h' hh).1),
              (h.handler h' hh).2⟩ }
  | moved st st' o others hlife hnow hbefore hafter hhistory henqueued hcalled hunhandled hidle
      hmay =>
      have hids := hafter.filterMap webhookId
      rw [List.filterMap_cons,webhookId_life hlife,← List.filterMap_cons] at hids
      exact
        { registered := hregistered
          ids := ((hids.trans (hbefore.filterMap webhookId).symm).append_right _).trans h.ids
          keyed := h.keyed
          rows := by
            intro st'' hst'' hwebhook
            rcases List.mem_cons.mp (hafter.mem_iff.mp hst'') with rfl | hother
            · have hst : st ∈ s.queue.stages := hbefore.mem_iff.mpr List.mem_cons_self
              exact h.called hlife hst hunhandled hidle hmay hwebhook
            · exact h.rows st'' (hbefore.mem_iff.mpr (List.mem_cons_of_mem st hother)) hwebhook
          fresh := h.fresh
          handler := by
            intro h' hh
            obtain ⟨hrunning,hwebhook⟩ := h.handler h' hh
            refine ⟨?_,hwebhook⟩
            rcases List.mem_cons.mp (hbefore.mem_iff.mp hrunning) with heq | hother
            · exact (hmay h'.job heq.symm hwebhook).elim
            · exact hafter.mem_iff.mpr (List.mem_cons_of_mem st' hother) }

theorem Mid.moves {q : Queue Unit (Payload δ)} {retryBackoffMs : ℤ} (h : Mid noted backend config s)
    (hmoves : Moves retryBackoffMs now (fun job => ¬ IsWebhook job) s.queue q) :
    Mid noted backend config { s with queue := q } :=
  JobLives.moves_invariant (fun q => Mid noted backend config { s with queue := q })
    (fun _ _ hmid hmove => hmid.move hmove) h hmoves

/-- Where the queue has just called the handler, it is launched. -/
theorem Mid.launch (h : Mid noted backend config s) (hwf : s.queue.Wf) :
    Coupled noted backend config (s.launch backend) := by
  unfold Dispatcher.launch
  split
  · rename_i job hhandler hcurrent
    split
    · rename_i hwebhook
      have hrunning : .running job ∈ s.queue.stages := running_mem.mpr hcurrent
      exact
        { registered := h.registered
          ids := h.ids
          keyed := h.keyed
          rows := by
            intro st hst hst'
            obtain ⟨row,hrow,hfits⟩ := h.rows st hst hst'
            refine ⟨row,hrow,hfits.change_handler ?_⟩
            rintro job' rfl
            rw [hhandler] at hfits
            have heq : job' = job :=
              (Option.some.inj (hcurrent.symm.trans (running_mem.mp hst))).symm
            subst heq
            refine ⟨hfits,?_⟩
            intro a ha
            cases backend with
            | memory =>
                cases ha
                exact hrow
            | postgres => cases ha
          fresh := h.fresh
          handler := by
            intro h' hh
            cases hh
            exact ⟨hrunning,hwebhook⟩
          wf := hwf
          launched := fun _ _ _ => rfl }
    · rename_i hwebhook
      exact
        { toMid := h
          wf := hwf
          launched := by
            intro job' hrunning hwebhook'
            rw [running_mem,hcurrent] at hrunning
            cases hrunning
            exact (hwebhook hwebhook').elim }
  · rename_i hnot
    exact
      { toMid := h
        wf := hwf
        launched := by
          intro job hrunning _
          cases hhandler : s.handler with
          | some h' => rfl
          | none => exact (hnot job hhandler (running_mem.mp hrunning)).elim }

/-! ## The handler's part -/

theorem webhookId_eq {st : Stage (Payload δ)} (h : IsWebhook st.job) :
    webhookId st = some (deliveryId st.job) := if_pos h

theorem Mid.ids_nodup (h : Mid noted backend config s) :
    (s.queue.stages.filterMap webhookId ++ s.calls.filterMap createdId).Nodup :=
  h.ids.symm.nodup s.store.deliveries.nodup

/-- Different elements have different images, if no image stands twice. -/
theorem eq_of_filterMap_nodup {α β : Type} {f : α → Option β} {xs : List α}
    (h : (xs.filterMap f).Nodup) {x y : α} (hx : x ∈ xs) (hy : y ∈ xs) {b : β}
    (hfx : f x = some b) (hfy : f y = some b) : x = y := by
  obtain ⟨front,back,rfl⟩ := List.append_of_mem hx
  have hperm : (front ++ x :: back).Perm (x :: (front ++ back)) := List.perm_middle
  have hnodup := (hperm.filterMap f).nodup h
  rw [List.filterMap_cons_some hfx,List.nodup_cons] at hnodup
  rcases List.mem_cons.mp (hperm.mem_iff.mp hy) with heq | hother
  · exact heq.symm
  · exact absurd (List.mem_filterMap.mpr ⟨y,hother,hfy⟩) hnodup.1

/-- A delivery has one job. -/
theorem Mid.stage_unique (h : Mid noted backend config s) {st st' : Stage (Payload δ)}
    (hst : st ∈ s.queue.stages) (hst' : st' ∈ s.queue.stages) (hwebhook : IsWebhook st.job)
    (hwebhook' : IsWebhook st'.job) (hid : deliveryId st'.job = deliveryId st.job) :
    st' = st := by
  have hnodup := (List.nodup_append.mp h.ids_nodup).1
  have hown : webhookId st' = some (deliveryId st.job) := by rw [webhookId_eq hwebhook',hid]
  exact eq_of_filterMap_nodup hnodup hst' hst hown (webhookId_eq hwebhook)

/-- A delivery whose job is not enqueued yet is no job's. -/
theorem Mid.created_ne (h : Mid noted backend config s) {st : Stage (Payload δ)}
    (hst : st ∈ s.queue.stages) (hwebhook : IsWebhook st.job) {call : ScheduleCall}
    (hcall : call ∈ s.calls) {id : String} (hid : createdId call = some id) :
    id ≠ deliveryId st.job := by
  intro heq
  subst heq
  exact (List.nodup_append.mp h.ids_nodup).2.2 _
    (List.mem_filterMap.mpr ⟨st,hst,webhookId_eq hwebhook⟩) _
    (List.mem_filterMap.mpr ⟨call,hcall,hid⟩) rfl

/-- The handler goes on, and has touched no other row than its own. -/
theorem Coupled.advance (h : Coupled noted backend config s) {job : Job (Payload δ)}
    {phase phase' : HandlerPhase} (hh : s.handler = some ⟨job,phase⟩)
    {store : Store WebhookPayload} {posts : List Post} {row : Delivery}
    (hrow : store.getDelivery (deliveryId job) = some row) (hid : row.id = deliveryId job)
    (hothers : ∀ id, id ≠ deliveryId job → store.getDelivery id = s.store.getDelivery id)
    (hkeys : store.deliveries.keys = s.store.deliveries.keys)
    (hfits : PhaseFits noted backend config job row phase') :
    Coupled noted backend config ({ s with store, posts }.setPhase job phase') := by
  obtain ⟨hrunning,hwebhook⟩ := h.handler _ hh
  exact
    { registered := h.registered
      ids := by
        have hids := h.ids
        rw [← hkeys] at hids
        exact hids
      keyed := by
        intro id row' hrow'
        by_cases hne : id = deliveryId job
        · subst hne
          rw [Dispatcher.setPhase,hrow] at hrow'
          cases hrow'
          exact hid
        · exact h.keyed id row' ((hothers id hne).symm.trans hrow')
      rows := by
        intro st hst hst'
        by_cases heq : deliveryId st.job = deliveryId job
        · have hsame : st = .running job := h.stage_unique hrunning hst hwebhook hst' heq
          subst hsame
          exact ⟨row,hrow,hfits⟩
        · obtain ⟨row',hrow',hfits'⟩ := h.rows st hst hst'
          refine ⟨row',(hothers _ heq).trans hrow',hfits'.change_handler ?_⟩
          rintro job' rfl
          have hjob : job' = job :=
            Option.some.inj ((running_mem.mp hst).symm.trans (running_mem.mp hrunning))
          exact (heq (congrArg deliveryId hjob)).elim
      fresh := by
        intro call hcall id hcreated
        obtain ⟨row',hrow',hopen⟩ := h.fresh call hcall id hcreated
        have hne : id ≠ deliveryId job := h.created_ne hrunning hwebhook hcall hcreated
        exact ⟨row',(hothers id hne).trans hrow',hopen⟩
      handler := by
        intro h' hh'
        cases hh'
        exact ⟨hrunning,hwebhook⟩
      wf := h.wf
      launched := fun _ _ _ => rfl }

theorem patchFor_status {now : ℤ} {job : Job (Payload δ)} {attempt : Attempt}
    {patch : DeliveryPatch} (h : patchFor config job now attempt = .ok patch) :
    patch.attempts = some (job.attempts + 1) ∧
      ∃ status, patch.status = some status ∧
        ∀ row : Delivery, row.attempts = job.attempts + 1 → row.status = status →
          Recorded row job attempt := by
  cases attempt with
  | accepted status =>
      cases h
      exact ⟨rfl,_,rfl,fun row _ hstatus => hstatus⟩
  | refused message =>
      simp only [patchFor,Except.map] at h
      split at h
      · cases h
      cases h
      refine ⟨rfl,_,rfl,?_⟩
      intro row hattempts hstatus
      refine ⟨hattempts,hstatus.trans ?_⟩
      unfold deliveryMaxAttempts
      by_cases hless : ((job.attempts + 1 : ℕ) : ℤ) < job.maxAttempts
      · rw [if_pos hless,if_neg]
        simp only [decide_eq_true_eq]
        omega
      · rw [if_neg hless,if_pos]
        simp only [decide_eq_true_eq]
        omega
  | unprintable => cases h

/-- Only a refusal that is tried again announces a time, and only a time without a date or a
failure without a text is not recorded. -/
theorem patchFor_error {now : ℤ} {job : Job (Payload δ)} {attempt : Attempt} {message : String}
    (h : patchFor config job now attempt = .error message) :
    attempt = .unprintable ∨ (∃ text, attempt = .refused text) ∧ Retried job ∧
      ¬ ValidTime (now + config.initialBackoffMs) := by
  cases attempt with
  | unprintable => exact .inl rfl
  | accepted status => cases h
  | refused text =>
      refine .inr ⟨⟨text,rfl⟩,?_⟩
      simp only [patchFor,Except.map] at h
      split at h
      · rename_i hnext
        unfold nextAttemptAt at hnext
        split at hnext
        · cases hnext
        · rename_i hfinal
          split at hnext
          · cases hnext
          · rename_i hvalid
            refine ⟨?_,hvalid⟩
            have hopen : ¬ max 1 job.maxAttempts ≤ ((job.attempts + 1 : ℕ) : ℤ) :=
              fun hle => hfinal (decide_eq_true hle)
            unfold Retried
            omega
      · cases h

/-- The attempt can be recorded. -/
def Notable (config : Config) (now : ℤ) (job : Job (Payload δ)) : Attempt → Prop
  | .accepted _ => True
  | .refused _ => Retried job → ValidTime (now + config.initialBackoffMs)
  | .unprintable => False

theorem not_notable {now : ℤ} {job : Job (Payload δ)} {attempt : Attempt} {message : String}
    (h : patchFor config job now attempt = .error message) : ¬ Notable config now job attempt := by
  rcases patchFor_error h with rfl | ⟨⟨text,rfl⟩,hretried,hinvalid⟩
  · exact id
  · exact fun hdate => hinvalid (hdate hretried)

theorem recorded_patched (row : Delivery) {job : Job (Payload δ)} {attempt : Attempt}
    {patch : DeliveryPatch} (h : patchFor config job now attempt = .ok patch) (now' : ℤ) :
    Recorded (InMemory.patched row patch now') job attempt := by
  obtain ⟨hattempts,status,hstatus,hrecorded⟩ := patchFor_status h
  apply hrecorded
  · simp [InMemory.patched,hattempts]
  · simp [InMemory.patched,hstatus]

theorem recorded_written (row row' : Delivery) {job : Job (Payload δ)} {attempt : Attempt}
    {patch : DeliveryPatch} (h : patchFor config job now attempt = .ok patch) (now' : ℤ) :
    Recorded (Postgres.written row' (Postgres.nextColumns row patch) now') job attempt := by
  obtain ⟨hattempts,status,hstatus,hrecorded⟩ := patchFor_status h
  apply hrecorded
  · simp [Postgres.written,Postgres.nextColumns,hattempts]
  · simp [Postgres.written,Postgres.nextColumns,hstatus]

section Handler
variable {job : Job (Payload δ)} {phase phase' : HandlerPhase} {row row' : Delivery}
variable {posts : List Post}

/-- The handler goes on without writing. -/
theorem Coupled.goOn (h : Coupled noted backend config s) (hh : s.handler = some ⟨job,phase⟩)
    (hrow : s.store.getDelivery (deliveryId job) = some row)
    (hfits : PhaseFits noted backend config job row phase') :
    Coupled noted backend config ({ s with posts }.setPhase job phase') :=
  h.advance hh hrow (h.keyed _ row hrow) (fun _ _ => rfl) rfl hfits

/-- The handler writes its row. -/
theorem Coupled.write (h : Coupled noted backend config s) (hh : s.handler = some ⟨job,phase⟩)
    (hrow : s.store.getDelivery (deliveryId job) = some row) (hid : row'.id = row.id)
    (hfits : PhaseFits noted backend config job row' phase') :
    Coupled noted backend config ({ s with store := s.store.put row', posts }.setPhase job phase') := by
  have hid' : row'.id = deliveryId job := hid.trans (h.keyed _ row hrow)
  have hsome : (s.store.getDelivery row'.id).isSome := by
    rw [hid',hrow]
    rfl
  apply h.advance hh _ hid' _ (Store.keys_put hsome) hfits
  · rw [← hid']
    exact Store.getDelivery_put_self s.store row'
  · intro id hne
    rw [← hid'] at hne
    exact Store.getDelivery_put_of_ne s.store row' hne

theorem Coupled.startUpdate (h : Coupled noted backend config s)
    (hh : s.handler = some ⟨job,phase⟩)
    (hrow : s.store.getDelivery (deliveryId job) = some row) (hopen : Open noted row job.attempts)
    (attempt : Attempt) (hnoted : noted → Notable config now job attempt) :
    Coupled noted backend config
      ({ s with posts }.startUpdate backend config job row attempt now) := by
  have hid : row.id = deliveryId job := h.keyed _ row hrow
  unfold Dispatcher.startUpdate
  split
  · rename_i hpatch
    have hnot : ¬ noted := fun hn => not_notable hpatch (hnoted hn)
    exact h.goOn hh hrow (.inr ⟨hnot,hopen.live⟩)
  · rename_i patch hpatch
    cases backend with
    | memory =>
        simp only [InMemory.updateDelivery,hid,hrow,Option.map_some]
        exact h.write hh hrow rfl ⟨rfl,recorded_patched row hpatch now⟩
    | postgres => exact h.goOn hh hrow ⟨hopen,rfl,rfl,now,hpatch⟩

/-- The POST under way is not answered with success. -/
def refuses : OutboundWebhooks.Action δ → Bool
  | .answer response => ! response.ok
  | .fail _ _ => true
  | _ => false

def isPosting : HandlerPhase → Bool
  | .posting _ => true
  | _ => false

/-- Where the POST under way fails, it fails with something that has a text. -/
def hasText : OutboundWebhooks.Action δ → Bool
  | .failUnprintable _ => false
  | _ => true

/-- What the POST under way fails with has a text, and the time that a refusal announces
has a date. -/
def Noted (config : Config) (s : Dispatcher δ) (st : OutboundWebhooks.Step δ) : Prop :=
  ∀ h ∈ s.handler, isPosting h.phase = true → hasText st.action = true ∧
    (refuses st.action = true → Retried h.job → ValidTime (st.now + config.initialBackoffMs))

instance (config : Config) (s : Dispatcher δ) (st : OutboundWebhooks.Step δ) :
    Decidable (Noted config s st) :=
  inferInstanceAs (Decidable (∀ h ∈ s.handler, _ → _ ∧ (_ → _ → _)))

/-- A write to the tables does not violate the unique index. -/
def Unviolated (s : Dispatcher δ) (st : OutboundWebhooks.Step δ) : Prop :=
  match st.action with
  | .handle => ∀ h ∈ s.handler, ∀ delivery attempt next, h.phase = .writing delivery attempt next →
      Postgres.conflicts s.store delivery next = false
  | _ => True

theorem Coupled.row_of (h : Coupled noted backend config s) (hh : s.handler = some ⟨job,phase⟩) :
    ∃ row, s.store.getDelivery (deliveryId job) = some row ∧
      PhaseFits noted backend config job row phase := by
  obtain ⟨hrunning,hwebhook⟩ := h.handler _ hh
  obtain ⟨row,hrow,hfits⟩ := h.rows _ hrunning hwebhook
  rw [hh] at hfits
  exact ⟨row,hrow,hfits⟩

theorem Coupled.handle (h : Coupled noted backend config s) (hg : Unviolated s ⟨now,.handle⟩) :
    Coupled noted backend config (s.handle backend config now) := by
  cases hh : s.handler with
  | none =>
      simp only [Dispatcher.handle,hh]
      exact h
  | some h' =>
      obtain ⟨job,phase⟩ := h'
      obtain ⟨row,hrow,hfits⟩ := h.row_of hh
      have hid : row.id = deliveryId job := h.keyed _ row hrow
      cases phase with
      | getting reply =>
          have hread : reply.read (s.store.getDelivery (deliveryId job)) = some row := by
            cases reply with
            | due => exact hrow
            | got a => exact hfits.2 a rfl
          simp only [Dispatcher.handle,hh,hread]
          exact h.goOn hh hrow ⟨hfits.1,rfl⟩
      | posting delivery =>
          simp only [Dispatcher.handle,hh]
          exact h
      | reading delivery attempt patch =>
          obtain ⟨hopen,rfl,hbackend,now',hpatch⟩ := hfits
          simp only [Dispatcher.handle,hh,hid,hrow]
          exact h.goOn hh hrow ⟨hopen,rfl,hbackend,now',patch,hpatch,rfl⟩
      | writing delivery attempt next =>
          obtain ⟨hopen,rfl,hbackend,now',patch,hpatch,rfl⟩ := hfits
          have hfree := hg _ hh _ _ _ rfl
          simp only [Dispatcher.handle,hh,Postgres.write,hid,hrow,hfree]
          exact h.write hh hrow rfl ⟨rfl,recorded_written _ _ hpatch now⟩
      | recorded delivery attempt error =>
          obtain ⟨rfl,hrecorded⟩ := hfits
          cases attempt with
          | accepted status =>
              simp only [Dispatcher.handle,hh]
              exact h.goOn hh hrow hrecorded
          | refused message =>
              simp only [Dispatcher.handle,hh]
              exact h.goOn hh hrow (.inl hrecorded)
          | unprintable => exact hrecorded.elim
      | finished outcome =>
          simp only [Dispatcher.handle,hh]
          exact h

theorem Coupled.settlePost (h : Coupled noted backend config s) (attempt : Attempt)
    (success arrived : Bool) (hnoted : noted → ∀ h ∈ s.handler, isPosting h.phase = true →
      Notable config now h.job attempt) :
    Coupled noted backend config (s.settlePost backend config now attempt success arrived) := by
  unfold Dispatcher.settlePost
  split
  · rename_i job delivery hh
    obtain ⟨row,hrow,hopen,rfl⟩ := h.row_of hh
    exact h.startUpdate hh hrow hopen attempt (hnoted · _ hh rfl)
  · exact h

end Handler

/-- The handler's job goes to a stage that its row fits. -/
theorem Coupled.leave (h : Coupled noted backend config s) {job : Job (Payload δ)} {caller : Caller}
    {since : ℤ} {rest : List (Job (Payload δ))}
    (htick : s.queue.tick = some ⟨caller,since,some job,rest⟩) {q : Queue Unit (Payload δ)}
    {st : Stage (Payload δ)} (hstages : q.stages.Perm (st :: s.queue.others rest))
    (hhandlers : q.handlers = s.queue.handlers) (hid : webhookId st = webhookId (.running job))
    {row : Delivery} (hrow : s.store.getDelivery (deliveryId st.job) = some row)
    (hfits : RowFits noted backend config none row st) :
    Mid noted backend config { s with handler := none, queue := q } := by
  have hbefore : s.queue.stages.Perm (.running job :: s.queue.others rest) :=
    stages_awaiting htick
  have hids := hstages.filterMap webhookId
  rw [List.filterMap_cons,hid,← List.filterMap_cons] at hids
  exact
    { registered := by
        rw [hhandlers]
        exact h.registered
      ids := ((hids.trans (hbefore.filterMap webhookId).symm).append_right _).trans h.ids
      keyed := h.keyed
      rows := by
        intro st' hst' hwebhook'
        rcases List.mem_cons.mp (hstages.mem_iff.mp hst') with rfl | hother
        · exact ⟨row,hrow,hfits⟩
        · obtain ⟨row',hrow',hfits'⟩ :=
            h.rows st' (hbefore.mem_iff.mpr (List.mem_cons_of_mem _ hother)) hwebhook'
          refine ⟨row',hrow',hfits'.change_handler ?_⟩
          rintro job' rfl
          exact (running_not_others _ _ _ hother).elim
      fresh := h.fresh
      handler := by
        intro h' hh'
        cases hh' }

/-- What the queue does with the handler's job agrees with what its row says. -/
theorem Coupled.settleJob (h : Coupled noted backend config s) {job : Job (Payload δ)}
    {outcome : Outcome} (hh : s.handler = some ⟨job,.finished outcome⟩) {caller : Caller}
    {since : ℤ} {rest : List (Job (Payload δ))} {retryBackoffMs : ℤ}
    (htick : s.queue.tick = some ⟨caller,since,some job,rest⟩) :
    Mid noted backend config { s with
      handler := none
      queue := s.queue.settleJob retryBackoffMs caller since now job rest outcome } := by
  obtain ⟨row,hrow,hfits⟩ := h.row_of hh
  cases outcome with
  | resolved => exact h.leave htick (stages_succeed _ _ _ _ _ _) rfl rfl hrow hfits
  | rejected message =>
      simp only [Queue.settleJob]
      split
      · rename_i hless
        refine h.leave htick (stages_retry _ _ _ _ _ _) rfl rfl hrow ?_
        rcases hfits with ⟨hattempts,hstatus⟩ | ⟨hnot,hlive⟩
        · have hfailed := hstatus.trans (if_pos hless)
          exact ⟨.inr hfailed,fun _ => .inr ⟨hfailed,hattempts,by simp [Job.holdBack,Job.failAt]⟩⟩
        · exact ⟨hlive,fun hd => absurd hd hnot⟩
      · rename_i hless
        refine h.leave htick (stages_exhaust _ _ _ _ _ _) rfl rfl hrow ?_
        exact hfits.imp_left fun hrecorded => hrecorded.2.trans (if_neg hless)
  | unprintable => exact hfits.elim

/-- The handler's own failures have texts. -/
theorem Coupled.printable (h : Coupled noted backend config s) {job : Job (Payload δ)}
    {outcome : Outcome} (hh : s.handler = some ⟨job,.finished outcome⟩) :
    outcome ≠ .unprintable := by
  rintro rfl
  obtain ⟨row,hrow,hfits⟩ := h.row_of hh
  exact hfits

theorem Coupled.tick_of (h : Coupled noted backend config s) {h' : Handler δ} (hh : s.handler = some h') :
    ∃ caller since rest, s.queue.tick = some ⟨caller,since,some h'.job,rest⟩ :=
  tick_of_running (h.handler h' hh).1

theorem Coupled.collect (h : Coupled noted backend config s) :
    Coupled noted backend config (s.collect backend config now) := by
  unfold Dispatcher.collect
  split
  · rename_i job outcome hh
    obtain ⟨caller,since,rest,htick⟩ := h.tick_of hh
    have hmid : Mid noted backend config { s with
        handler := none
        queue := s.queue.settleJob config.retryBackoffMs caller since now job rest outcome } :=
      h.settleJob hh htick
    have hloop : Moves config.retryBackoffMs now (fun job => ¬ IsWebhook job)
        (s.queue.settleJob config.retryBackoffMs caller since now job rest outcome)
        ((s.queue.settleJob config.retryBackoffMs caller since now job rest outcome).loop caller
          since now rest) := moves_loop (atHead_settleJob h.wf htick (h.printable hh))
    rw [settle_of_printable htick (h.printable hh)]
    exact (hmid.moves hloop).launch hloop.1
  · exact h

/-- What the dispatcher leaves to the queue puts in no webhook job and settles none. -/
theorem admits_foreign {action : JobQueue.Action Unit (Payload δ)}
    (hlaunched : ∀ job, .running job ∈ s.queue.stages → IsWebhook job → s.handler.isSome)
    (hforeign : s.isForeign action = true) :
    Admits (fun job => ¬ IsWebhook job) s.queue ⟨now,action⟩ := by
  cases action with
  | enqueue type payload options =>
      have hne : type ≠ WEBHOOK_DELIVERY_JOB := by simpa [Dispatcher.isForeign] using hforeign
      exact hne
  | settle outcome =>
      intro t ht job hjob hwebhook
      have hrunning : .running job ∈ s.queue.stages := by
        rw [running_mem,Option.mem_def.mp ht]
        exact hjob
      have hsome := hlaunched job hrunning hwebhook
      have hnone : s.handler.isNone = true := by
        cases outcome with
        | resolved => exact hforeign
        | rejected message => exact hforeign
        | unprintable => cases hforeign
      rw [Option.isNone_iff_eq_none.mp hnone] at hsome
      cases hsome
  | registerHandler | start | stop | drain | fire | resume => trivial

theorem convertible_foreign {action : JobQueue.Action Unit (Payload δ)}
    (hforeign : s.isForeign action = true) : Convertible s.queue ⟨now,action⟩ := by
  unfold Convertible
  split
  · rename_i haction
    cases haction
    cases hforeign
  · trivial

theorem Coupled.stepQueue (h : Coupled noted backend config s)
    (action : JobQueue.Action Unit (Payload δ)) :
    Coupled noted backend config (s.stepQueue backend config now action) := by
  unfold Dispatcher.stepQueue
  split
  · rename_i hforeign
    have hmoves : Moves config.retryBackoffMs now (fun job => ¬ IsWebhook job) s.queue
        (s.queue.step config.retryBackoffMs ⟨now,action⟩) :=
      moves_step h.wf (admits_foreign h.launched hforeign) (convertible_foreign hforeign)
    exact (h.moves hmoves).launch hmoves.1
  · exact h

/-! ## The part of `scheduleEvent` -/

/-- Calls that wait for other things have no part in the coupling. -/
theorem Coupled.setCalls (h : Coupled noted backend config s) {calls : List ScheduleCall}
    (hcalls : calls.filterMap createdId = s.calls.filterMap createdId) :
    Coupled noted backend config { s with calls } :=
  { h with
    ids := by
      have hids := h.ids
      rw [← hcalls] at hids
      exact hids
    fresh := by
      intro call hcall id hid
      have hmem : id ∈ calls.filterMap createdId := List.mem_filterMap.mpr ⟨call,hcall,hid⟩
      rw [hcalls] at hmem
      obtain ⟨call',hcall',hid'⟩ := List.mem_filterMap.mp hmem
      exact h.fresh call' hcall' id hid' }

theorem filterMap_set_same {α β : Type} {f : α → Option β} {xs : List α} {i : ℕ} {x y : α}
    (hi : xs[i]? = some x) (hf : f y = f x) : (xs.set i y).filterMap f = xs.filterMap f := by
  induction xs generalizing i with
  | nil => rfl
  | cons z xs ih =>
      cases i with
      | zero =>
          cases hi
          rw [List.set_cons_zero,List.filterMap_cons,List.filterMap_cons,hf]
      | succ i => rw [List.set_cons_succ,List.filterMap_cons,List.filterMap_cons,ih hi]

theorem filterMap_set_perm {α β : Type} {f : α → Option β} {xs : List α} {i : ℕ} {x y : α} {b : β}
    (hi : xs[i]? = some x) (hx : f x = none) (hy : f y = some b) :
    ((xs.set i y).filterMap f).Perm (b :: xs.filterMap f) := by
  induction xs generalizing i with
  | nil => cases hi
  | cons z xs ih =>
      cases i with
      | zero =>
          cases hi
          rw [List.set_cons_zero,List.filterMap_cons_some hy,List.filterMap_cons_none hx]
      | succ i =>
          rw [List.set_cons_succ]
          cases hz : f z with
          | none =>
              rw [List.filterMap_cons_none hz,List.filterMap_cons_none hz]
              exact ih hi
          | some c =>
              rw [List.filterMap_cons_some hz,List.filterMap_cons_some hz]
              exact ((ih hi).cons c).trans (List.Perm.swap b c _)

theorem filterMap_unset_perm {α β : Type} {f : α → Option β} {xs : List α} {i : ℕ} {x y : α}
    {b : β} (hi : xs[i]? = some x) (hx : f x = some b) (hy : f y = none) :
    (xs.filterMap f).Perm (b :: (xs.set i y).filterMap f) := by
  have hback : (xs.set i y).set i x = xs := by
    rw [List.set_set]
    obtain ⟨hlt,hget⟩ := List.getElem?_eq_some_iff.mp hi
    rw [← hget,List.set_getElem_self]
  have hperm := filterMap_set_perm (moved hi y) hy hx
  rw [hback] at hperm
  exact hperm

theorem createdId_nextSubscription (s : Dispatcher δ) (call : ScheduleCall) (jobIds : List String)
    (rest : List OutboundWebhookSubscription) :
    createdId { call with jobIds, phase := s.nextSubscription backend call rest } = none := by
  cases rest <;> rfl

theorem Coupled.create (h : Coupled noted backend config s) {i : ℕ} {call : ScheduleCall}
    (hi : s.calls[i]? = some call) (hcall : createdId call = none)
    (input : CreateDeliveryInput WebhookPayload) (rest : List OutboundWebhookSubscription)
    (uuid : String) : Coupled noted backend config (s.create i call input rest uuid now) := by
  unfold Dispatcher.create
  split
  · exact h
  · rename_i hfresh
    have hnone : s.store.getDelivery uuid = none := by simpa using hfresh
    have hother : ∀ id, (s.store.getDelivery id).isSome →
        (s.store.createDelivery input uuid now).getDelivery id = s.store.getDelivery id := by
      intro id hsome
      apply Store.getDelivery_put_of_ne
      intro heq
      rw [heq] at hsome
      exact hfresh hsome
    have hcreated : createdId
        { call with phase := .created (Store.newDelivery input uuid now) rest } = some uuid := rfl
    have hperm := filterMap_set_perm hi hcall hcreated
    have hkeys : (s.store.createDelivery input uuid now).deliveries.keys =
        s.store.deliveries.keys ++ [uuid] := Store.keys_put_new hnone
    exact
      { registered := h.registered
        ids := by
          rw [hkeys]
          have hids := (hperm.append_left (s.queue.stages.filterMap webhookId)).trans
            List.perm_middle
          exact hids.trans ((h.ids.cons uuid).trans (List.perm_append_singleton _ _).symm)
        keyed := by
          intro id row hrow
          rcases Store.getDelivery_put_cases hrow with ⟨rfl,rfl⟩ | ⟨-,hold⟩
          · rfl
          · exact h.keyed id row hold
        rows := by
          intro st hst hwebhook
          obtain ⟨row,hrow,hfits⟩ := h.rows st hst hwebhook
          exact ⟨row,(hother _ (by rw [hrow]; rfl)).trans hrow,hfits⟩
        fresh := by
          intro call' hcall' id hid
          rcases List.mem_or_eq_of_mem_set hcall' with hold | rfl
          · obtain ⟨row,hrow,hopen⟩ := h.fresh call' hold id hid
            exact ⟨row,(hother _ (by rw [hrow]; rfl)).trans hrow,hopen⟩
          · cases hid
            exact ⟨_,Store.getDelivery_put_self s.store _,.inl rfl,fun _ => .inl ⟨rfl,rfl⟩⟩
        handler := h.handler
        wf := h.wf
        launched := h.launched }

/-- The job that a delivery gets. -/
def jobFor (config : Config) (s : Dispatcher δ) (delivery : Delivery) (now : ℤ) :
    Job (Payload δ) :=
  s.queue.newJob now WEBHOOK_DELIVERY_JOB (.delivery delivery.id)
    ⟨some config.maxAttempts,none,some ("webhook-" ++ delivery.id)⟩

theorem Coupled.enqueueDelivery (h : Coupled noted backend config s) {i : ℕ} {call call' : ScheduleCall}
    {delivery : Delivery} (hi : s.calls[i]? = some call)
    (hcall : createdId call = some delivery.id) (hcall' : createdId call' = none) :
    Coupled noted backend config { s with
      queue := s.enqueueDelivery config delivery now
      calls := s.calls.set i call' } := by
  obtain ⟨row,hrow,hopen⟩ := h.fresh call (List.mem_of_getElem? hi) _ hcall
  have hstages : (s.enqueueDelivery config delivery now).stages.Perm
      (.waiting (jobFor config s delivery now) :: s.queue.stages) :=
    stages_enqueue s.queue now WEBHOOK_DELIVERY_JOB (.delivery delivery.id) _
  have hhandlers : (s.enqueueDelivery config delivery now).handlers = s.queue.handlers :=
    (sameJobs_scheduleIfNeeded _).handlers
  have hwf : (s.enqueueDelivery config delivery now).Wf :=
    (sameJobs_scheduleIfNeeded _).wf (wf_push h.wf _ _)
  have hrunning : ∀ job, .running job ∈ (s.enqueueDelivery config delivery now).stages ↔
      .running job ∈ s.queue.stages := by
    intro job
    rw [hstages.mem_iff]
    simp
  have hid : webhookId (.waiting (jobFor config s delivery now)) = some delivery.id := if_pos rfl
  have hids := hstages.filterMap webhookId
  rw [List.filterMap_cons_some hid] at hids
  exact
    { registered := by
        rw [hhandlers]
        exact h.registered
      ids := (hids.append_right _).trans
        (List.perm_middle.symm.trans (((filterMap_unset_perm hi hcall hcall').symm.append_left
          _).trans h.ids))
      keyed := h.keyed
      rows := by
        intro st hst hwebhook
        rcases List.mem_cons.mp (hstages.mem_iff.mp hst) with rfl | hold
        · exact ⟨row,hrow,hopen⟩
        · exact h.rows st hold hwebhook
      fresh := by
        intro call'' hcall'' id hid
        rcases List.mem_or_eq_of_mem_set hcall'' with hold | rfl
        · exact h.fresh call'' hold id hid
        · rw [hcall'] at hid
          cases hid
      handler := by
        intro h' hh
        obtain ⟨hmem,hwebhook⟩ := h.handler h' hh
        exact ⟨(hrunning _).mpr hmem,hwebhook⟩
      wf := hwf
      launched := by
        intro job hmem hwebhook
        exact h.launched job ((hrunning job).mp hmem) hwebhook }

/-- A call that goes on enters a new phase, creates a row or queues the job of its row. It
creates one after the insertion or, in memory, when no delivered one was found. -/
@[elab_as_elim]
theorem proceed_cases {i : ℕ} {uuid : String} {pick : ℕ} {motive : Dispatcher δ → Prop}
    (same : motive s)
    (turn : ∀ call phase, s.calls[i]? = some call → createdId call = none →
      createdId { call with phase } = none → motive (s.setCall i { call with phase }))
    (create : ∀ call input rest, s.calls[i]? = some call → createdId call = none →
      (call.phase = .creating input rest ∨
        ∃ subscription reply, call.phase = .finding subscription rest reply ∧
          input = Dispatcher.createInput call subscription now ∧ backend = .memory ∧
          (reply.read (s.findDelivery backend subscription.id (eventId call.event) pick)).map
            (·.status) ≠ some .delivered) →
      motive (s.create i call input rest uuid now))
    (enqueue : ∀ call delivery rest, s.calls[i]? = some call → call.phase = .created delivery rest →
      motive { s with
        queue := s.enqueueDelivery config delivery now
        calls := s.calls.set i
          { call with
            jobIds := call.jobIds ++ ["webhook-" ++ delivery.id]
            phase := s.nextSubscription backend call rest } }) :
    motive (s.proceed backend config now i uuid pick) := by
  unfold Dispatcher.proceed
  split
  · exact same
  · rename_i call hi
    split
    · rename_i hphase
      exact turn call _ hi (by simp [createdId,hphase]) (createdId_nextSubscription s call _ _)
    · rename_i subscription rest reply hphase
      have hcall : createdId call = none := by simp [createdId,hphase]
      dsimp only
      split
      · exact turn call _ hi hcall (createdId_nextSubscription s call _ _)
      · rename_i hstatus
        cases backend with
        | memory => exact create call _ rest hi hcall (.inr ⟨_,_,hphase,rfl,rfl,hstatus⟩)
        | postgres => exact turn call _ hi hcall rfl
    · rename_i input rest hphase
      exact create call input rest hi (by simp [createdId,hphase]) (.inl hphase)
    · rename_i delivery rest hphase
      exact enqueue call delivery rest hi hphase
    · exact same

theorem Coupled.proceed (h : Coupled noted backend config s) (i : ℕ) (uuid : String) (pick : ℕ) :
    Coupled noted backend config (s.proceed backend config now i uuid pick) := by
  refine proceed_cases h ?_ ?_ ?_
  · intro call phase hi hcall hphase
    exact h.setCalls (filterMap_set_same hi (hphase.trans hcall.symm))
  · intro call input rest hi hcall _
    exact h.create hi hcall input rest uuid
  · intro call delivery rest hi hphase
    exact h.enqueueDelivery hi (by simp [createdId,hphase]) (createdId_nextSubscription s _ _ _)

theorem coupled_new (noted : Prop) (backend : Backend) (config : Config) :
    Coupled noted backend config ({} : Dispatcher δ) where
  registered := rfl
  ids := List.Perm.refl _
  keyed _ _ h := nomatch h
  rows _ h := nomatch h
  fresh _ h := nomatch h
  handler _ h := nomatch h
  wf := wf_registerHandler wf_new _ _
  launched _ h := nomatch h

theorem Coupled.step (s : Dispatcher δ) (st : OutboundWebhooks.Step δ)
    (h : Coupled noted backend config s) (hg : Unviolated s st)
    (hnoted : noted → Noted config s st) :
    Coupled noted backend config (s.step backend config st) := by
  obtain ⟨now,action⟩ := st
  cases action with
  | queue action => exact h.stepQueue action
  | subscribe url eventTypes secretRef uuid => exact { h with }
  | schedule event =>
      apply h.setCalls
      rw [List.filterMap_append]
      simp [createdId]
  | proceed i uuid pick => exact h.proceed i uuid pick
  | handle => exact h.handle hg
  | answer response =>
      refine h.settlePost _ _ _ fun hn h' hh hposting => ?_
      unfold deliver
      split
      · trivial
      · rename_i hok
        exact (hnoted hn h' hh hposting).2 (by simpa [refuses] using hok)
  | fail message reached =>
      exact h.settlePost _ _ _ fun hn h' hh hposting => (hnoted hn h' hh hposting).2 rfl
  | failUnprintable reached =>
      refine h.settlePost _ _ _ fun hn h' hh hposting => ?_
      cases (hnoted hn h' hh hposting).1
  | collect => exact h.collect

/-! ## What becomes of a row -/

/-- A row is kept, or was open and is written by the handler of its job. -/
def Kept (row row' : Delivery) : Prop :=
  row' = row ∨ Live row ∧ row'.subscriptionId = row.subscriptionId ∧ row'.eventId = row.eventId

@[simp] theorem launch_store (s : Dispatcher δ) : (s.launch backend).store = s.store := by
  obtain ⟨handler,hframe⟩ := launch_frame backend s
  rw [hframe]

theorem stepQueue_store (s : Dispatcher δ) (action : JobQueue.Action Unit (Payload δ)) :
    (s.stepQueue backend config now action).store = s.store := by
  unfold Dispatcher.stepQueue
  split <;> simp

theorem collect_store (s : Dispatcher δ) : (s.collect backend config now).store = s.store := by
  unfold Dispatcher.collect
  split <;> simp

theorem create_row {id : String} {row : Delivery} (hrow : s.store.getDelivery id = some row)
    (i : ℕ) (call : ScheduleCall) (input : CreateDeliveryInput WebhookPayload)
    (rest : List OutboundWebhookSubscription) (uuid : String) :
    (s.create i call input rest uuid now).store.getDelivery id = some row := by
  unfold Dispatcher.create
  split
  · exact hrow
  · rename_i hfresh
    have hne : id ≠ uuid := by
      intro heq
      rw [← heq,hrow] at hfresh
      exact hfresh rfl
    exact (Store.getDelivery_put_of_ne _ _ hne).trans hrow

theorem proceed_row {id : String} {row : Delivery} (hrow : s.store.getDelivery id = some row)
    (i : ℕ) (uuid : String) (pick : ℕ) :
    (s.proceed backend config now i uuid pick).store.getDelivery id = some row := by
  refine proceed_cases hrow ?_ ?_ ?_
  · intro call phase _ _ _
    exact hrow
  · intro call input rest _ _ _
    exact create_row hrow i call input rest uuid
  · intro call delivery rest _ _
    exact hrow

/-- The handler writes its own row. -/
theorem put_row {id : String} {row row₀ row₁ : Delivery}
    (hrow : s.store.getDelivery id = some row)
    (hrow₀ : s.store.getDelivery row₀.id = some row₀) (hlive : Live row₀)
    (hid : row₁.id = row₀.id) (hsubscription : row₁.subscriptionId = row₀.subscriptionId)
    (hevent : row₁.eventId = row₀.eventId) :
    ∃ row', (s.store.put row₁).getDelivery id = some row' ∧ Kept row row' := by
  by_cases heq : id = row₁.id
  · subst heq
    rw [hid,hrow₀] at hrow
    cases hrow
    exact ⟨row₁,Store.getDelivery_put_self _ _,.inr ⟨hlive,hsubscription,hevent⟩⟩
  · exact ⟨row,(Store.getDelivery_put_of_ne _ _ heq).trans hrow,.inl rfl⟩

theorem startUpdate_row {id : String} {row row₀ : Delivery}
    (hrow : s.store.getDelivery id = some row) {job : Job (Payload δ)}
    (hrow₀ : s.store.getDelivery row₀.id = some row₀) (hlive : Live row₀)
    (attempt : Attempt) (posts : List Post) :
    ∃ row', ({ s with posts }.startUpdate backend config job row₀ attempt now).store.getDelivery
      id = some row' ∧ Kept row row' := by
  unfold Dispatcher.startUpdate
  split
  · exact ⟨row,hrow,.inl rfl⟩
  · cases backend with
    | memory =>
        simp only [InMemory.updateDelivery,hrow₀,Option.map_some]
        exact put_row hrow hrow₀ hlive rfl rfl rfl
    | postgres => exact ⟨row,hrow,.inl rfl⟩

theorem Coupled.handle_row (h : Coupled noted backend config s) (hg : Unviolated s ⟨now,.handle⟩)
    {id : String} {row : Delivery} (hrow : s.store.getDelivery id = some row) :
    ∃ row', (s.handle backend config now).store.getDelivery id = some row' ∧ Kept row row' := by
  have hsame : ∃ row', s.store.getDelivery id = some row' ∧ Kept row row' := ⟨row,hrow,.inl rfl⟩
  cases hh : s.handler with
  | none =>
      simp only [Dispatcher.handle,hh]
      exact hsame
  | some h' =>
      obtain ⟨job,phase⟩ := h'
      obtain ⟨row₀,hrow₀,hfits⟩ := h.row_of hh
      have hid : row₀.id = deliveryId job := h.keyed _ row₀ hrow₀
      cases phase with
      | getting reply =>
          simp only [Dispatcher.handle,hh]
          split <;> exact hsame
      | posting delivery =>
          simp only [Dispatcher.handle,hh]
          exact hsame
      | reading delivery attempt patch =>
          simp only [Dispatcher.handle,hh]
          split <;> exact hsame
      | writing delivery attempt next =>
          obtain ⟨hopen,rfl,-,now',patch,-,rfl⟩ := hfits
          have hfree := hg _ hh _ _ _ rfl
          simp only [Dispatcher.handle,hh,Postgres.write,hid,hrow₀,hfree]
          rw [← hid] at hrow₀
          exact put_row hrow hrow₀ hopen.live rfl rfl rfl
      | recorded delivery attempt error =>
          obtain ⟨rfl,-⟩ := hfits
          simp only [Dispatcher.handle,hh]
          cases attempt <;> exact hsame
      | finished outcome =>
          simp only [Dispatcher.handle,hh]
          exact hsame

theorem Coupled.settlePost_row (h : Coupled noted backend config s) (attempt : Attempt)
    (success arrived : Bool) {id : String} {row : Delivery}
    (hrow : s.store.getDelivery id = some row) :
    ∃ row', (s.settlePost backend config now attempt success arrived).store.getDelivery id =
      some row' ∧ Kept row row' := by
  unfold Dispatcher.settlePost
  split
  · rename_i job delivery hh
    obtain ⟨row₀,hrow₀,hopen,rfl⟩ := h.row_of hh
    rw [← h.keyed _ _ hrow₀] at hrow₀
    exact startUpdate_row hrow hrow₀ hopen.live attempt _
  · exact ⟨row,hrow,.inl rfl⟩

theorem Coupled.step_row (h : Coupled noted backend config s) {st : OutboundWebhooks.Step δ}
    (hg : Unviolated s st) {id : String} {row : Delivery}
    (hrow : s.store.getDelivery id = some row) :
    ∃ row', (s.step backend config st).store.getDelivery id = some row' ∧ Kept row row' := by
  obtain ⟨now,action⟩ := st
  cases action with
  | queue action =>
      refine ⟨row,?_,.inl rfl⟩
      rw [Dispatcher.step,stepQueue_store]
      exact hrow
  | subscribe url eventTypes secretRef uuid => exact ⟨row,hrow,.inl rfl⟩
  | schedule event => exact ⟨row,hrow,.inl rfl⟩
  | proceed i uuid pick => exact ⟨row,proceed_row hrow i uuid pick,.inl rfl⟩
  | handle => exact h.handle_row hg hrow
  | answer response => exact h.settlePost_row _ _ _ hrow
  | fail message reached => exact h.settlePost_row _ _ _ hrow
  | failUnprintable reached => exact h.settlePost_row _ _ _ hrow
  | collect =>
      refine ⟨row,?_,.inl rfl⟩
      rw [Dispatcher.step,collect_store]
      exact hrow

end Creditra.OutboundCoupling
