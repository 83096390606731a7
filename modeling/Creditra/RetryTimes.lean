import Creditra.OutboundCoupling

/-!
# Announced retry times

A refused delivery announces its next attempt in its row, by the dispatcher's
`initialBackoffMs`; the queue holds its job back by a setting of its own,
`retryBackoffMs`. Where the first is not the larger one, and a delivery is replayed
only when no job is left for it, no attempt starts before the announced time. The
dispatcher is the one of the outbound webhooks, with calls of `replayDelivery` beside
it, on either store; the clock of a run does not go back.
-/
namespace Creditra.RetryTimes
open GuardedRuns InsertionMaps JobQueue OutboundCoupling OutboundWebhookStore OutboundWebhooks
open JobLives (isOpen)

/-! ## Replays -/

/-- Where a `replayDelivery` stands. The delivery is fetched, or updated, its update
has settled, or the call has returned or thrown. -/
inductive ReplayPhase where
  | getting (reply : Reply (Option Delivery))
  | reading (delivery : Delivery)
  | writing (delivery : Delivery) (next : Postgres.Columns)
  | updated (delivery : Delivery)
  | returned

structure ReplayCall where
  deliveryId : String
  phase : ReplayPhase

/-- `clock` is the instant of the last step. -/
structure System (δ : Type) where
  clock : ℤ
  dispatcher : Dispatcher δ := {}
  replays : List ReplayCall := []

inductive Action (δ : Type) where
  | dispatch (action : OutboundWebhooks.Action δ)
  | replay (deliveryId : String)
  | proceedReplay (i : ℕ)

structure Step (δ : Type) where
  now : ℤ
  action : Action δ

def replayPatch : DeliveryPatch where
  status := some .queued
  nextAttemptAt := some none
  lastError := some none

variable {δ : Type}

namespace System

def setReplay (s : System δ) (i : ℕ) (call : ReplayCall) (phase : ReplayPhase) : System δ :=
  { s with replays := s.replays.set i { call with phase } }

def setStore (s : System δ) (store : Store WebhookPayload) : System δ :=
  { s with dispatcher := { s.dispatcher with store } }

def replayDelivery (backend : Backend) (s : System δ) (deliveryId : String) : System δ :=
  { s with
    replays := s.replays ++
      [⟨deliveryId,.getting (backend.ask (s.dispatcher.store.getDelivery deliveryId))⟩] }

/-- The job of a replay. -/
def enqueueReplay (config : Config) (s : System δ) (delivery : Delivery) (now : ℤ) :
    Queue Unit (Payload δ) :=
  s.dispatcher.queue.enqueue now WEBHOOK_DELIVERY_JOB (.delivery delivery.id)
    ⟨some config.maxAttempts,none,some ("webhook-replay-" ++ delivery.id ++ "-" ++ toString now)⟩

def proceedReplay (backend : Backend) (config : Config) (s : System δ) (now : ℤ) (i : ℕ) :
    System δ :=
  match s.replays[i]? with
  | none => s
  | some call => match call.phase with
      | .getting reply =>
          match reply.read (s.dispatcher.store.getDelivery call.deliveryId) with
          | none => s.setReplay i call .returned
          | some delivery => match backend with
              | .memory =>
                  match InMemory.updateDelivery s.dispatcher.store delivery.id replayPatch now with
                  | none => s.setReplay i call .returned
                  | some store => (s.setStore store).setReplay i call (.updated delivery)
              | .postgres => s.setReplay i call (.reading delivery)
      | .reading delivery => match s.dispatcher.store.getDelivery delivery.id with
          | none => s.setReplay i call .returned
          | some current =>
              s.setReplay i call (.writing delivery (Postgres.nextColumns current replayPatch))
      | .writing delivery next =>
          match Postgres.write s.dispatcher.store delivery.id next now with
          | .error _ => s.setReplay i call .returned
          | .ok store => (s.setStore store).setReplay i call (.updated delivery)
      | .updated delivery =>
          { s with
            dispatcher := { s.dispatcher with queue := s.enqueueReplay config delivery now }
          }.setReplay i call .returned
      | .returned => s

def act (backend : Backend) (config : Config) (s : System δ) (st : Step δ) : System δ :=
  match st.action with
  | .dispatch action =>
      { s with dispatcher := s.dispatcher.step backend config ⟨st.now,action⟩ }
  | .replay deliveryId => s.replayDelivery backend deliveryId
  | .proceedReplay i => s.proceedReplay backend config st.now i

def step (backend : Backend) (config : Config) (s : System δ) (st : Step δ) : System δ :=
  { s with clock := st.now }.act backend config st

end System

/-! ## What is claimed of a run -/

/-- The attempts that a step starts. -/
def started (backend : Backend) (config : Config) (s : System δ) (st : Step δ) :
    List (Occurrence (Payload δ)) :=
  ((s.step backend config st).dispatcher.queue.history.drop
    s.dispatcher.queue.history.length).filter fun o => o.kind = .called ∧ IsWebhook o.job

/-- No attempt starts before the time in the row of its delivery. -/
def OnTime (backend : Backend) (config : Config) (s : System δ) (st : Step δ) : Prop :=
  ∀ o ∈ started backend config s st, ∀ row,
    s.dispatcher.store.getDelivery (deliveryId o.job) = some row →
      ∀ t, row.nextAttemptAt = some t → t ≤ st.now

/-- The delivery of a job that waits or runs. -/
def openId (st : Stage (Payload δ)) : Option String :=
  if isOpen st ∧ IsWebhook st.job then some (deliveryId st.job) else none

def replayId (call : ReplayCall) : Option String :=
  match call.phase with
  | .returned => none
  | _ => some call.deliveryId

/-- The deliveries that a job, a `scheduleEvent` or a replay is at work on. -/
def busy (s : System δ) : List String :=
  s.dispatcher.queue.stages.filterMap openId ++
    (s.dispatcher.calls.filterMap createdId ++ s.replays.filterMap replayId)

/-- A delivery that is replayed is known, and nothing else is at work on it. -/
def Free (s : System δ) : Action δ → Prop
  | .replay deliveryId =>
      (s.dispatcher.store.getDelivery deliveryId).isSome ∧ deliveryId ∉ busy s
  | _ => True

instance (s : System δ) : (action : Action δ) → Decidable (Free s action)
  | .dispatch _ => isTrue trivial
  | .replay _ => inferInstanceAs (Decidable (_ ∧ _))
  | .proceedReplay _ => isTrue trivial

def Admitted (s : System δ) (st : Step δ) : Prop := s.clock ≤ st.now ∧ Free s st.action

instance (s : System δ) (st : Step δ) : Decidable (Admitted s st) :=
  inferInstanceAs (Decidable (_ ∧ _))

/-! ## The invariant -/

def Refused (job : Job (Payload δ)) : Attempt → Prop
  | .accepted _ | .unprintable => False
  | .refused _ => Retried job

/-- The handler has announced a next attempt and not come back to the queue yet. -/
def Announces (job : Job (Payload δ)) : HandlerPhase → Prop
  | .recorded _ attempt _ => Refused job attempt
  | .finished (.rejected _) => Retried job
  | _ => False

/-- A time that has come, or one announced so far. -/
def Near (config : Config) (clock : ℤ) (announced : Prop) (t : ℤ) : Prop :=
  t ≤ clock ∨ announced ∧ t ≤ clock + config.initialBackoffMs

/-- What a handler holds: its own delivery, times that are near, and an outcome that
could be recorded. -/
def PhaseTimed (config : Config) (clock : ℤ) (job : Job (Payload δ)) : HandlerPhase → Prop
  | .getting reply => ∀ delivery, reply = .got (some delivery) → delivery.id = deliveryId job
  | .posting delivery => delivery.id = deliveryId job
  | .reading delivery attempt patch => delivery.id = deliveryId job ∧
      ∃ w, w ≤ clock ∧ patchFor config job w attempt = .ok patch
  | .writing delivery attempt next => delivery.id = deliveryId job ∧ attempt ≠ .unprintable ∧
      ∀ t, next.nextAttemptAt = some t → Near config clock (Refused job attempt) t
  | .recorded delivery attempt _ => delivery.id = deliveryId job ∧ attempt ≠ .unprintable
  | .finished outcome => outcome ≠ .unprintable

def ReplayTimed (clock : ℤ) (call : ReplayCall) : Prop :=
  match call.phase with
  | .getting reply => ∀ delivery, reply = .got (some delivery) → delivery.id = call.deliveryId
  | .reading delivery => delivery.id = call.deliveryId
  | .writing delivery next => delivery.id = call.deliveryId ∧
      ∀ t, next.nextAttemptAt = some t → t ≤ clock
  | .updated delivery => delivery.id = call.deliveryId
  | .returned => True

/-- A job for the delivery waits until the time has come. -/
def Waits (q : Queue Unit (Payload δ)) (id : String) (t : ℤ) : Prop :=
  ∃ job, .waiting job ∈ q.stages ∧ IsWebhook job ∧ deliveryId job = id ∧ t ≤ job.nextRunAt

def Announced (config : Config) (s : System δ) (id : String) (t : ℤ) : Prop :=
  ∃ h, s.dispatcher.handler = some h ∧ deliveryId h.job = id ∧ Announces h.job h.phase ∧
    t ≤ s.clock + config.initialBackoffMs

/-- Each delivery has one at work on it, and the time in its row has come, is waited
for, or was just announced. A handler may just have been called. -/
structure Half (config : Config) (s : System δ) : Prop where
  registered : (s.dispatcher.queue.handlers.get WEBHOOK_DELIVERY_JOB).isSome
  since : ∀ t ∈ s.dispatcher.queue.tick, t.now ≤ s.clock
  alone : (busy s).Nodup
  known : ∀ id ∈ busy s, (s.dispatcher.store.getDelivery id).isSome
  keyed : ∀ id row, s.dispatcher.store.getDelivery id = some row → row.id = id
  handler : ∀ h, s.dispatcher.handler = some h →
    .running h.job ∈ s.dispatcher.queue.stages ∧ IsWebhook h.job
  phases : ∀ h, s.dispatcher.handler = some h → PhaseTimed config s.clock h.job h.phase
  replays : ∀ call ∈ s.replays, ReplayTimed s.clock call
  rows : ∀ id row, s.dispatcher.store.getDelivery id = some row → ∀ t, row.nextAttemptAt = some t →
    t ≤ s.clock ∨ Waits s.dispatcher.queue id t ∨ Announced config s id t

structure Timed (config : Config) (s : System δ) : Prop extends Half config s where
  wf : s.dispatcher.queue.Wf
  launched : ∀ job, .running job ∈ s.dispatcher.queue.stages → IsWebhook job →
    s.dispatcher.handler.isSome

variable {backend : Backend} {config : Config} {s : System δ} {now : ℤ}

theorem Near.later {clock clock' : ℤ} {announced : Prop} {t : ℤ} (h : Near config clock announced t)
    (hle : clock ≤ clock') : Near config clock' announced t := by
  rcases h with h | ⟨hannounced,h⟩
  · exact .inl (h.trans hle)
  · exact .inr ⟨hannounced,by omega⟩

theorem PhaseTimed.later {clock clock' : ℤ} {job : Job (Payload δ)} {phase : HandlerPhase}
    (h : PhaseTimed config clock job phase) (hle : clock ≤ clock') :
    PhaseTimed config clock' job phase := by
  cases phase with
  | getting reply => exact h
  | posting delivery => exact h
  | reading delivery attempt patch =>
      obtain ⟨hid,w,hw,hpatch⟩ := h
      exact ⟨hid,w,hw.trans hle,hpatch⟩
  | writing delivery attempt next => exact ⟨h.1,h.2.1,fun t ht => (h.2.2 t ht).later hle⟩
  | recorded delivery attempt error => exact h
  | finished outcome => exact h

theorem ReplayTimed.later {clock clock' : ℤ} {call : ReplayCall} (h : ReplayTimed clock call)
    (hle : clock ≤ clock') : ReplayTimed clock' call := by
  obtain ⟨id,phase⟩ := call
  cases phase with
  | getting reply => exact h
  | reading delivery => exact h
  | writing delivery next => exact ⟨h.1,fun t ht => (h.2 t ht).trans hle⟩
  | updated delivery => exact h
  | returned => exact h

/-- Time passes. -/
theorem Timed.later (h : Timed config s) (hle : s.clock ≤ now) :
    Timed config { s with clock := now } :=
  { registered := h.registered
    since := fun t ht => (h.since t ht).trans hle
    alone := h.alone
    known := h.known
    keyed := h.keyed
    handler := h.handler
    phases := fun h' hh => (h.phases h' hh).later hle
    replays := fun call hcall => (h.replays call hcall).later hle
    rows := by
      intro id row hrow t ht
      rcases h.rows id row hrow t ht with hcome | hwaits | ⟨h',hh,hid,hannounces,hnear⟩
      · exact .inl (hcome.trans hle)
      · exact .inr (.inl hwaits)
      · exact .inr (.inr ⟨h',hh,hid,hannounces,hnear.trans (by dsimp only; omega)⟩)
    wf := h.wf
    launched := h.launched }

/-! ## One at work on each delivery -/

/-- A delivery is taken up that nothing is at work on. -/
theorem nodup_taken {id : String} {ids ids' : List String} (hperm : ids'.Perm (id :: ids))
    (hnot : id ∉ ids) (h : ids.Nodup) : ids'.Nodup :=
  hperm.symm.nodup (List.nodup_cons.mpr ⟨hnot,h⟩)

/-- Deliveries are left, and none is taken up. -/
theorem nodup_less {ids ids' : List String} (hless : ids'.Subperm ids) (h : ids.Nodup) :
    ids'.Nodup := by
  obtain ⟨left,hperm,hsublist⟩ := hless
  exact hperm.nodup (h.sublist hsublist)

theorem openId_waiting {job : Job (Payload δ)} (h : IsWebhook job) :
    openId (.waiting job) = some (deliveryId job) := if_pos ⟨rfl,h⟩

theorem openId_running {job : Job (Payload δ)} (h : IsWebhook job) :
    openId (.running job) = some (deliveryId job) := if_pos ⟨rfl,h⟩

theorem openId_of_not {st : Stage (Payload δ)} (h : ¬ IsWebhook st.job) : openId st = none :=
  if_neg fun hopen => h hopen.2

namespace Half

theorem stages_alone (h : Half config s) :
    (s.dispatcher.queue.stages.filterMap openId).Nodup := (List.nodup_append.mp h.alone).1

/-- The time for a job that waits. -/
theorem of_waiting (h : Half config s) {job : Job (Payload δ)}
    (hjob : .waiting job ∈ s.dispatcher.queue.stages) (hwebhook : IsWebhook job) {row : Delivery}
    (hrow : s.dispatcher.store.getDelivery (deliveryId job) = some row) {t : ℤ}
    (ht : row.nextAttemptAt = some t) : t ≤ s.clock ∨ t ≤ job.nextRunAt := by
  rcases h.rows _ row hrow t ht with hcome | ⟨job',hjob',hwebhook',hid,hwaits⟩ | ⟨h',hh,hid,-,-⟩
  · exact .inl hcome
  · have heq := eq_of_filterMap_nodup h.stages_alone hjob hjob' (openId_waiting hwebhook)
      (hid ▸ openId_waiting hwebhook')
    cases heq
    exact .inr hwaits
  · obtain ⟨hrunning,hwebhook'⟩ := h.handler h' hh
    have heq := eq_of_filterMap_nodup h.stages_alone hjob hrunning (openId_waiting hwebhook)
      (hid ▸ openId_running hwebhook')
    cases heq

/-- The time for a job whose handler runs. -/
theorem of_running (h : Half config s) {job : Job (Payload δ)} {phase : HandlerPhase}
    (hh : s.dispatcher.handler = some ⟨job,phase⟩) {row : Delivery}
    (hrow : s.dispatcher.store.getDelivery (deliveryId job) = some row) {t : ℤ}
    (ht : row.nextAttemptAt = some t) : Near config s.clock (Announces job phase) t := by
  obtain ⟨hrunning,hwebhook⟩ := h.handler _ hh
  rcases h.rows _ row hrow t ht with hcome | ⟨job',hjob',hwebhook',hid,-⟩ | ⟨h',hh',-,hann,hnear⟩
  · exact .inl hcome
  · have heq := eq_of_filterMap_nodup h.stages_alone hrunning hjob' (openId_running hwebhook)
      (hid ▸ openId_waiting hwebhook')
    cases heq
  · rw [hh] at hh'
    cases hh'
    exact .inr ⟨hann,hnear⟩

/-- The time for a delivery that no job is for. -/
theorem of_jobless (h : Half config s) {id : String}
    (hid : id ∉ s.dispatcher.queue.stages.filterMap openId) {row : Delivery}
    (hrow : s.dispatcher.store.getDelivery id = some row) {t : ℤ}
    (ht : row.nextAttemptAt = some t) : t ≤ s.clock := by
  rcases h.rows _ row hrow t ht with hcome | ⟨job',hjob',hwebhook',rfl,-⟩ | ⟨h',hh',rfl,-,-⟩
  · exact hcome
  · exact absurd (List.mem_filterMap.mpr ⟨_,hjob',openId_waiting hwebhook'⟩) hid
  · obtain ⟨hrunning,hwebhook'⟩ := h.handler h' hh'
    exact absurd (List.mem_filterMap.mpr ⟨_,hrunning,openId_running hwebhook'⟩) hid

/-- A call that is at work on a delivery is alone with it. -/
theorem jobless_of_call (h : Half config s) {id : String}
    (hid : id ∈ s.dispatcher.calls.filterMap createdId ++ s.replays.filterMap replayId) :
    id ∉ s.dispatcher.queue.stages.filterMap openId := by
  intro hstage
  exact (List.nodup_append.mp h.alone).2.2 id hstage id hid rfl

end Half

/-! ## The queue's part -/

def System.setQueue (s : System δ) (q : Queue Unit (Payload δ)) : System δ :=
  { s with dispatcher := { s.dispatcher with queue := q } }

/-- An attempt that starts, with the time in the row of its delivery. -/
def Punctual (s : System δ) (o : Occurrence (Payload δ)) : Prop :=
  o.kind = .called → IsWebhook o.job → ∀ row,
    s.dispatcher.store.getDelivery (deliveryId o.job) = some row →
      ∀ t, row.nextAttemptAt = some t → t ≤ s.clock

theorem punctual_nil (s : System δ) : ∀ o ∈ ([] : List (Occurrence (Payload δ))), Punctual s o :=
  fun _ ho => absurd ho List.not_mem_nil

/-- A job that goes on by itself stays with its delivery. -/
theorem Half.openId_life (h : Half config s) {st st' : Stage (Payload δ)}
    {o : Occurrence (Payload δ)} {retryBackoffMs : ℤ} (hlife : Life retryBackoffMs st o st')
    (hunhandled : o.kind = .unhandled → s.dispatcher.queue.handlers.get o.job.type = none)
    (hmay : ∀ job, st = .running job → ¬ IsWebhook job) : openId st' = openId st := by
  by_cases hwebhook : IsWebhook st.job
  · cases hlife with
    | call job now => rfl
    | bury job now =>
        have hregistered := h.registered
        have htype : job.type = WEBHOOK_DELIVERY_JOB := hwebhook
        rw [← htype,hunhandled rfl] at hregistered
        cases hregistered
    | succeed job now => exact (hmay job rfl hwebhook).elim
    | retry job now message hless => exact (hmay job rfl hwebhook).elim
    | exhaust job now message hless => exact (hmay job rfl hwebhook).elim
  · have htype : st'.job.type = st.job.type := by
      cases hlife <;> rfl
    have hnot : ¬ IsWebhook st'.job := by
      unfold IsWebhook
      rw [htype]
      exact hwebhook
    rw [openId_of_not hnot,openId_of_not hwebhook]

/-- The deliveries at work are the same ones where those of the jobs are. -/
theorem Half.setQueue (h : Half config s) {q : Queue Unit (Payload δ)}
    (hregistered : ∀ type, (s.dispatcher.queue.handlers.get type).isSome →
      (q.handlers.get type).isSome)
    (hsince : ∀ t ∈ q.tick, t.now ≤ s.clock)
    (hopen : (q.stages.filterMap openId).Perm (s.dispatcher.queue.stages.filterMap openId))
    (hhandler : ∀ h', s.dispatcher.handler = some h' → .running h'.job ∈ q.stages)
    (hwaits : ∀ id t, Waits s.dispatcher.queue id t → t ≤ s.clock ∨ Waits q id t) :
    Half config (s.setQueue q) :=
  { registered := hregistered _ h.registered
    since := hsince
    alone := (hopen.append_right _).symm.nodup h.alone
    known := fun id hid => h.known id ((hopen.append_right _).mem_iff.mp hid)
    keyed := h.keyed
    handler := fun h' hh => ⟨hhandler h' hh,(h.handler h' hh).2⟩
    phases := h.phases
    replays := h.replays
    rows := by
      intro id row hrow t ht
      rcases h.rows id row hrow t ht with hcome | hwait | hannounced
      · exact .inl hcome
      · rcases hwaits id t hwait with hcome | hwait
        · exact .inl hcome
        · exact .inr (.inl hwait)
      · exact .inr (.inr hannounced) }

theorem Half.move {q : Queue Unit (Payload δ)} {retryBackoffMs : ℤ} (h : Half config s)
    (hmove : Move retryBackoffMs s.clock (fun job => ¬ IsWebhook job) s.dispatcher.queue q) :
    Half config (s.setQueue q) := by
  have hsince : ∀ t ∈ q.tick, t.now ≤ s.clock := by
    intro t ht
    rcases hmove.since t ht with hnow | ⟨t',ht',heq⟩
    · exact hnow.le
    · rw [heq]
      exact h.since t' ht'
  cases hmove.jobs with
  | still hstages hhistory henqueued =>
      refine h.setQueue hmove.handlers hsince (hstages.filterMap openId) ?_ ?_
      · intro h' hh
        exact hstages.mem_iff.mpr (h.handler h' hh).1
      · intro id t hwaits
        obtain ⟨job,hjob,hrest⟩ := hwaits
        exact .inr ⟨job,hstages.mem_iff.mpr hjob,hrest⟩
  | enqueued job hstages hhistory henqueued hserial hattempts hmay =>
      have hopen := hstages.filterMap openId
      rw [List.filterMap_cons_none (@openId_of_not δ (.waiting job) hmay)] at hopen
      refine h.setQueue hmove.handlers hsince hopen ?_ ?_
      · intro h' hh
        exact hstages.mem_iff.mpr (List.mem_cons_of_mem _ (h.handler h' hh).1)
      · intro id t hwaits
        obtain ⟨job',hjob',hrest⟩ := hwaits
        exact .inr ⟨job',hstages.mem_iff.mpr (List.mem_cons_of_mem _ hjob'),hrest⟩
  | moved st st' o others hlife hnow hbefore hafter hhistory henqueued hcalled hunhandled hidle
      hmay =>
      have hopen := hafter.filterMap openId
      rw [List.filterMap_cons,h.openId_life hlife hunhandled hmay,← List.filterMap_cons] at hopen
      refine h.setQueue hmove.handlers hsince (hopen.trans (hbefore.filterMap openId).symm) ?_ ?_
      · intro h' hh
        obtain ⟨hrunning,hwebhook⟩ := h.handler h' hh
        rcases List.mem_cons.mp (hbefore.mem_iff.mp hrunning) with heq | hother
        · exact (hmay h'.job heq.symm hwebhook).elim
        · exact hafter.mem_iff.mpr (List.mem_cons_of_mem st' hother)
      · intro id t hwaits
        obtain ⟨job,hjob,hwebhook,hid,hle⟩ := hwaits
        rcases List.mem_cons.mp (hbefore.mem_iff.mp hjob) with heq | hother
        · -- The job is called, hence due: what it waited for has come.
          cases hlife with
          | call job' now' =>
              cases heq
              obtain ⟨-,tick,htick,hdue⟩ := hcalled rfl
              exact .inl (hle.trans (hdue.trans (h.since tick htick)))
          | bury job' now' =>
              cases heq
              have hregistered := h.registered
              have htype : job.type = WEBHOOK_DELIVERY_JOB := hwebhook
              rw [← htype,hunhandled rfl] at hregistered
              cases hregistered
          | succeed job' now' => cases heq
          | retry job' now' message hless => cases heq
          | exhaust job' now' message hless => cases heq
        · exact .inr ⟨job,hafter.mem_iff.mpr (List.mem_cons_of_mem st' hother),hwebhook,hid,hle⟩

/-- A move starts an attempt only when its time has come. -/
theorem Half.move_punctual {q : Queue Unit (Payload δ)} {retryBackoffMs : ℤ} (h : Half config s)
    (hmove : Move retryBackoffMs s.clock (fun job => ¬ IsWebhook job) s.dispatcher.queue q) :
    ∃ os, q.history = s.dispatcher.queue.history ++ os ∧
      ∀ o ∈ os, Punctual s o := by
  cases hmove.jobs with
  | still hstages hhistory henqueued => exact ⟨[],by rw [hhistory,List.append_nil],punctual_nil s⟩
  | enqueued job hstages hhistory henqueued hserial hattempts hmay =>
      exact ⟨[],by rw [hhistory,List.append_nil],punctual_nil s⟩
  | moved st st' o others hlife hnow hbefore hafter hhistory henqueued hcalled hunhandled hidle
      hmay =>
      refine ⟨[o],hhistory,?_⟩
      intro o' ho' hkind hwebhook row hrow t ht
      rw [List.mem_singleton.mp ho'] at hkind hwebhook hrow
      obtain ⟨-,tick,htick,hdue⟩ := hcalled hkind
      have hsince := h.since tick htick
      cases hlife with
      | call job now' =>
          have hjob : .waiting job ∈ s.dispatcher.queue.stages :=
            hbefore.mem_iff.mpr List.mem_cons_self
          dsimp only at hdue
          rcases h.of_waiting hjob hwebhook hrow ht with hcome | hwaits
          · omega
          · omega
      | bury job now' => cases hkind
      | succeed job now' => cases hkind
      | retry job now' message hless => cases hkind
      | exhaust job now' message hless => cases hkind

theorem Half.moves {q : Queue Unit (Payload δ)} {retryBackoffMs : ℤ} (h : Half config s)
    (hmoves : Moves retryBackoffMs s.clock (fun job => ¬ IsWebhook job) s.dispatcher.queue q) :
    Half config (s.setQueue q) ∧ ∃ os, q.history = s.dispatcher.queue.history ++ os ∧
      ∀ o ∈ os, Punctual s o := by
  refine JobLives.moves_invariant (fun q => Half config (s.setQueue q) ∧
    ∃ os, q.history = s.dispatcher.queue.history ++ os ∧ ∀ o ∈ os, Punctual s o)
    ?_ ⟨h,[],by rw [List.append_nil],punctual_nil s⟩ hmoves
  intro q q' hq hmove
  obtain ⟨hhalf,os,hos,hpunctual⟩ := hq
  obtain ⟨os',hos',hpunctual'⟩ := hhalf.move_punctual hmove
  refine ⟨hhalf.move hmove,os ++ os',?_,?_⟩
  · rw [hos',System.setQueue,hos,List.append_assoc]
  · intro o ho
    rcases List.mem_append.mp ho with ho | ho
    · exact hpunctual o ho
    · exact hpunctual' o ho

def System.setDispatcher (s : System δ) (d : Dispatcher δ) : System δ := { s with dispatcher := d }

theorem launch_queue (d : Dispatcher δ) : (d.launch backend).queue = d.queue := by
  obtain ⟨handler,hframe⟩ := launch_frame backend d
  rw [hframe]

/-- Where the queue has just called the handler, it is launched. -/
theorem Half.launch (h : Half config s) (hwf : s.dispatcher.queue.Wf) (backend : Backend) :
    Timed config (s.setDispatcher (s.dispatcher.launch backend)) := by
  unfold Dispatcher.launch
  split
  · rename_i job hhandler hcurrent
    split
    · rename_i hwebhook
      have hrunning : .running job ∈ s.dispatcher.queue.stages := running_mem.mpr hcurrent
      exact
        { registered := h.registered
          since := h.since
          alone := h.alone
          known := h.known
          keyed := h.keyed
          handler := by
            intro h' hh
            cases hh
            exact ⟨hrunning,hwebhook⟩
          phases := by
            intro h' hh
            cases hh
            intro delivery hreply
            cases backend with
            | memory => exact h.keyed _ delivery (Reply.got.inj hreply)
            | postgres => cases hreply
          replays := h.replays
          rows := by
            intro id row hrow t ht
            rcases h.rows id row hrow t ht with hcome | hwaits | ⟨h',hh,-,-,-⟩
            · exact .inl hcome
            · exact .inr (.inl hwaits)
            · rw [hhandler] at hh
              cases hh
          wf := hwf
          launched := fun _ _ _ => rfl }
    · rename_i hwebhook
      exact
        { toHalf := h
          wf := hwf
          launched := by
            intro job' hrunning hwebhook'
            have hcurrent' := running_mem.mp hrunning
            rw [System.setDispatcher,hcurrent] at hcurrent'
            cases hcurrent'
            exact (hwebhook hwebhook').elim }
  · rename_i hnot
    exact
      { toHalf := h
        wf := hwf
        launched := by
          intro job hrunning _
          rw [System.setDispatcher]
          cases hhandler : s.dispatcher.handler with
          | some h' => rfl
          | none => exact (hnot job hhandler (running_mem.mp hrunning)).elim }

/-- A step that keeps the invariant, and the attempts that it starts. -/
def Goes (config : Config) (s s' : System δ) : Prop :=
  Timed config s' ∧ ∃ os, s'.dispatcher.queue.history = s.dispatcher.queue.history ++ os ∧
    ∀ o ∈ os, Punctual s o

/-- A step that starts nothing. -/
theorem Timed.quiet {s' : System δ} (h : Timed config s')
    (hhistory : s'.dispatcher.queue.history = s.dispatcher.queue.history) : Goes config s s' :=
  ⟨h,[],by rw [hhistory,List.append_nil],punctual_nil s⟩

theorem Timed.stepQueue (h : Timed config s) (backend : Backend)
    (action : JobQueue.Action Unit (Payload δ)) :
    Goes config s (s.setDispatcher (s.dispatcher.stepQueue backend config s.clock action)) := by
  unfold Dispatcher.stepQueue
  split
  · rename_i hforeign
    have hmoves : Moves config.retryBackoffMs s.clock (fun job => ¬ IsWebhook job)
        s.dispatcher.queue (s.dispatcher.queue.step config.retryBackoffMs ⟨s.clock,action⟩) :=
      moves_step h.wf (admits_foreign h.launched hforeign) (convertible_foreign hforeign)
    obtain ⟨hhalf,os,hos,hpunctual⟩ := h.moves hmoves
    refine ⟨hhalf.launch hmoves.1 backend,os,?_,hpunctual⟩
    rw [System.setDispatcher,launch_queue,hos]
  · exact h.quiet rfl

/-! ## The handler's part -/

section Handler
variable {job : Job (Payload δ)} {phase phase' : HandlerPhase} {posts : List Post}

/-- The handler goes on, and has touched no other row than its own. -/
theorem Timed.advance (h : Timed config s) (hh : s.dispatcher.handler = some ⟨job,phase⟩)
    {store : Store WebhookPayload}
    (hsome : ∀ id, (s.dispatcher.store.getDelivery id).isSome → (store.getDelivery id).isSome)
    (hothers : ∀ id, id ≠ deliveryId job →
      store.getDelivery id = s.dispatcher.store.getDelivery id)
    (hrow : ∀ row, store.getDelivery (deliveryId job) = some row → row.id = deliveryId job ∧
      ∀ t, row.nextAttemptAt = some t → Near config s.clock (Announces job phase') t)
    (hphase : PhaseTimed config s.clock job phase') :
    Timed config
      (s.setDispatcher ({ s.dispatcher with store, posts }.setPhase job phase')) := by
  obtain ⟨hrunning,hwebhook⟩ := h.handler _ hh
  exact
    { registered := h.registered
      since := h.since
      alone := h.alone
      known := fun id hid => hsome id (h.known id hid)
      keyed := by
        intro id row hrow'
        by_cases hid : id = deliveryId job
        · subst hid
          exact (hrow row hrow').1
        · exact h.keyed id row ((hothers id hid).symm.trans hrow')
      handler := by
        intro h' hh'
        cases hh'
        exact ⟨hrunning,hwebhook⟩
      phases := by
        intro h' hh'
        cases hh'
        exact hphase
      replays := h.replays
      rows := by
        intro id row hrow' t ht
        by_cases hid : id = deliveryId job
        · subst hid
          rcases (hrow row hrow').2 t ht with hcome | ⟨hannounces,hnear⟩
          · exact .inl hcome
          · exact .inr (.inr ⟨_,rfl,rfl,hannounces,hnear⟩)
        · rcases h.rows id row ((hothers id hid).symm.trans hrow') t ht with
            hcome | hwaits | ⟨h',hh',hid',-,-⟩
          · exact .inl hcome
          · exact .inr (.inl hwaits)
          · rw [hh] at hh'
            cases hh'
            exact (hid hid'.symm).elim
      wf := h.wf
      launched := fun _ _ _ => rfl }

/-- The handler goes on without writing. -/
theorem Timed.goOn (h : Timed config s) (hh : s.dispatcher.handler = some ⟨job,phase⟩)
    (hkeep : Announces job phase → Announces job phase')
    (hphase : PhaseTimed config s.clock job phase') :
    Timed config (s.setDispatcher ({ s.dispatcher with posts }.setPhase job phase')) := by
  refine h.advance hh (fun _ hsome => hsome) (fun _ _ => rfl) ?_ hphase
  intro row hrow
  refine ⟨h.keyed _ row hrow,fun t ht => ?_⟩
  rcases h.of_running hh hrow ht with hcome | ⟨hannounces,hnear⟩
  · exact .inl hcome
  · exact .inr ⟨hkeep hannounces,hnear⟩

/-- The handler writes its row. -/
theorem Timed.write (h : Timed config s) (hh : s.dispatcher.handler = some ⟨job,phase⟩)
    {row : Delivery} (hid : row.id = deliveryId job)
    (hnear : ∀ t, row.nextAttemptAt = some t → Near config s.clock (Announces job phase') t)
    (hphase : PhaseTimed config s.clock job phase') :
    Timed config (s.setDispatcher
      ({ s.dispatcher with store := s.dispatcher.store.put row, posts }.setPhase job phase')) := by
  refine h.advance hh ?_ ?_ ?_ hphase
  · intro id hsome
    exact Store.getDelivery_put_isSome fun _ => hsome
  · intro id hne
    rw [← hid] at hne
    exact Store.getDelivery_put_of_ne _ _ hne
  · intro row' hrow'
    rw [← hid,Store.getDelivery_put_self] at hrow'
    cases hrow'
    exact ⟨hid,hnear⟩

theorem printable_of_patchFor {w : ℤ} {attempt : Attempt} {patch : DeliveryPatch}
    (hpatch : patchFor config job w attempt = .ok patch) : attempt ≠ .unprintable := by
  rintro rfl
  cases hpatch

/-- The time that an outcome puts into the row. -/
theorem patchFor_near {clock w : ℤ} (hw : w ≤ clock) {attempt : Attempt} {patch : DeliveryPatch}
    (hpatch : patchFor config job w attempt = .ok patch) {t : ℤ}
    (ht : patch.nextAttemptAt = some (some t)) :
    Near config clock (Refused job attempt) t := by
  cases attempt with
  | accepted status =>
      cases hpatch
      cases ht
  | refused message =>
      simp only [patchFor,Except.map] at hpatch
      split at hpatch
      · cases hpatch
      rename_i next hnext
      cases hpatch
      cases ht
      unfold nextAttemptAt at hnext
      split at hnext
      · cases hnext
      rename_i hfinal
      split at hnext
      · cases hnext
        have hopen : ¬ max 1 job.maxAttempts ≤ ((job.attempts + 1 : ℕ) : ℤ) :=
          fun hle => hfinal (decide_eq_true hle)
        have hretried : Retried job := by
          unfold Retried
          omega
        exact .inr ⟨hretried,by omega⟩
      · cases hnext
  | unprintable => cases hpatch

theorem Timed.startUpdate (h : Timed config s) (hh : s.dispatcher.handler = some ⟨job,phase⟩)
    (hnot : ¬ Announces job phase) {delivery : Delivery} (hid : delivery.id = deliveryId job)
    (backend : Backend) (attempt : Attempt) :
    Timed config (s.setDispatcher
      ({ s.dispatcher with posts }.startUpdate backend config job delivery attempt s.clock)) := by
  unfold Dispatcher.startUpdate
  split
  · exact h.goOn hh (fun hannounces => absurd hannounces hnot) Outcome.noConfusion
  rename_i patch hpatch
  have hprintable := printable_of_patchFor hpatch
  cases backend with
  | memory =>
      simp only [InMemory.updateDelivery]
      cases hrow : s.dispatcher.store.getDelivery delivery.id with
      | none => exact h.goOn hh (fun hannounces => absurd hannounces hnot) ⟨hid,hprintable⟩
      | some row =>
          have hrow' : s.dispatcher.store.getDelivery (deliveryId job) = some row := by
            rw [← hid]
            exact hrow
          refine h.write hh (h.keyed _ row hrow') ?_ ⟨hid,hprintable⟩
          intro t ht
          -- A patch without a time leaves the one that the row has.
          simp only [InMemory.patched] at ht
          cases htime : patch.nextAttemptAt with
          | none =>
              rw [htime,Option.getD_none] at ht
              exact .inl ((h.of_running hh hrow' ht).resolve_right fun hboth => hnot hboth.1)
          | some time =>
              rw [htime,Option.getD_some] at ht
              exact patchFor_near (Int.le_refl _) hpatch (htime.trans (congrArg some ht))
  | postgres =>
      exact h.goOn hh (fun hannounces => absurd hannounces hnot)
        ⟨hid,s.clock,Int.le_refl _,hpatch⟩

theorem Timed.handle (h : Timed config s) (backend : Backend) :
    Timed config (s.setDispatcher (s.dispatcher.handle backend config s.clock)) := by
  cases hh : s.dispatcher.handler with
  | none =>
      simp only [Dispatcher.handle,hh]
      exact h
  | some h' =>
      obtain ⟨job,phase⟩ := h'
      have hphase : PhaseTimed config s.clock job phase := h.phases _ hh
      cases phase with
      | getting reply =>
          simp only [Dispatcher.handle,hh]
          cases hread : reply.read (s.dispatcher.store.getDelivery (deliveryId job)) with
          | none => exact h.goOn hh False.elim Outcome.noConfusion
          | some delivery =>
              have hid : delivery.id = deliveryId job := by
                cases reply with
                | due => exact h.keyed _ delivery hread
                | got a => exact hphase delivery (congrArg Reply.got hread)
              exact h.goOn hh False.elim hid
      | posting delivery =>
          simp only [Dispatcher.handle,hh]
          exact h
      | reading delivery attempt patch =>
          obtain ⟨hid,w,hw,hmade⟩ := hphase
          have hprintable := printable_of_patchFor hmade
          simp only [Dispatcher.handle,hh,hid]
          cases hrow : s.dispatcher.store.getDelivery (deliveryId job) with
          | none => exact h.goOn hh False.elim ⟨hid,hprintable⟩
          | some current =>
              refine h.goOn hh False.elim ⟨hid,hprintable,fun t ht => ?_⟩
              simp only [Postgres.nextColumns,Option.or_eq_some_iff,Option.join_eq_some_iff] at ht
              rcases ht with hpatch | ⟨-,hcurrent⟩
              · exact patchFor_near hw hmade hpatch
              · exact .inl ((h.of_running hh hrow hcurrent).resolve_right fun hboth => hboth.1)
      | writing delivery attempt next =>
          obtain ⟨hid,hprintable,hnext⟩ := hphase
          simp only [Dispatcher.handle,hh,Postgres.write,hid]
          cases hrow : s.dispatcher.store.getDelivery (deliveryId job) with
          | none => exact h.goOn hh False.elim ⟨hid,hprintable⟩
          | some row =>
              by_cases hconflict : Postgres.conflicts s.dispatcher.store row next = true
              · simp only [hconflict,if_true]
                exact h.goOn hh False.elim ⟨hid,hprintable⟩
              · simp only [hconflict]
                exact h.write hh (h.keyed _ row hrow) hnext ⟨hid,hprintable⟩
      | recorded delivery attempt error =>
          cases attempt with
          | accepted status =>
              cases error with
              | none =>
                  simp only [Dispatcher.handle,hh]
                  exact h.goOn hh False.elim Outcome.noConfusion
              | some message =>
                  simp only [Dispatcher.handle,hh]
                  exact h.startUpdate hh id hphase.1 backend _
          | refused message =>
              cases error with
              | none =>
                  simp only [Dispatcher.handle,hh]
                  exact h.goOn hh id Outcome.noConfusion
              | some message' =>
                  simp only [Dispatcher.handle,hh]
                  exact h.goOn hh id Outcome.noConfusion
          | unprintable => exact (hphase.2 rfl).elim
      | finished outcome =>
          simp only [Dispatcher.handle,hh]
          exact h

theorem Timed.settlePost (h : Timed config s) (backend : Backend) (attempt : Attempt)
    (success arrived : Bool) :
    Timed config (s.setDispatcher
      (s.dispatcher.settlePost backend config s.clock attempt success arrived)) := by
  unfold Dispatcher.settlePost
  split
  · rename_i job delivery hh
    exact h.startUpdate hh id (h.phases _ hh) backend attempt
  · exact h

/-- The handler's job leaves the handler and takes up no other delivery. -/
theorem openIds_leave {queue q : Queue Unit (Payload δ)} {caller : Caller} {since : ℤ}
    {rest : List (Job (Payload δ))} (htick : queue.tick = some ⟨caller,since,some job,rest⟩)
    (hwebhook : IsWebhook job) {st : Stage (Payload δ)}
    (hstages : q.stages.Perm (st :: queue.others rest))
    (hst : openId st = none ∨ openId st = some (deliveryId job)) :
    (q.stages.filterMap openId).Subperm (queue.stages.filterMap openId) := by
  have hbefore := (stages_awaiting htick).filterMap openId
  rw [List.filterMap_cons_some (openId_running hwebhook)] at hbefore
  have hafter := hstages.filterMap openId
  rcases hst with hst | hst
  · rw [List.filterMap_cons_none hst] at hafter
    exact (hafter.subperm.trans .cons_self).trans hbefore.symm.subperm
  · rw [List.filterMap_cons_some hst] at hafter
    exact (hafter.trans hbefore.symm).subperm

/-- The handler's job leaves the handler, for a stage in which the row's time has
come or is waited for. -/
theorem Timed.leave (h : Timed config s) (hh : s.dispatcher.handler = some ⟨job,phase⟩)
    {caller : Caller} {since : ℤ} {rest : List (Job (Payload δ))}
    (htick : s.dispatcher.queue.tick = some ⟨caller,since,some job,rest⟩)
    {q : Queue Unit (Payload δ)} {st : Stage (Payload δ)}
    (hstages : q.stages.Perm (st :: s.dispatcher.queue.others rest))
    (hhandlers : q.handlers = s.dispatcher.queue.handlers)
    (htick' : q.tick = some ⟨caller,since,none,rest⟩)
    (hst : openId st = none ∨ openId st = some (deliveryId job))
    (hrow : ∀ row, s.dispatcher.store.getDelivery (deliveryId job) = some row →
      ∀ t, row.nextAttemptAt = some t → t ≤ s.clock ∨ Waits q (deliveryId job) t) :
    Half config (s.setDispatcher { s.dispatcher with handler := none, queue := q }) := by
  obtain ⟨hrunning,hwebhook⟩ := h.handler _ hh
  have hbefore := stages_awaiting htick
  have hless : (q.stages.filterMap openId ++
      (s.dispatcher.calls.filterMap createdId ++ s.replays.filterMap replayId)).Subperm (busy s) :=
    (List.subperm_append_right _).mpr (openIds_leave htick hwebhook hstages hst)
  exact
    { registered := by
        rw [System.setDispatcher,hhandlers]
        exact h.registered
      since := by
        intro t ht
        rw [System.setDispatcher,htick'] at ht
        cases ht
        have hsince : since ≤ s.clock := h.since _ htick
        exact hsince
      alone := nodup_less hless h.alone
      known := fun id hid => h.known id (hless.subset hid)
      keyed := h.keyed
      handler := by
        intro h' hh'
        cases hh'
      phases := by
        intro h' hh'
        cases hh'
      replays := h.replays
      rows := by
        intro id row hrow' t ht
        by_cases hid : id = deliveryId job
        · subst hid
          rcases hrow row hrow' t ht with hcome | hwaits
          · exact .inl hcome
          · exact .inr (.inl hwaits)
        · rcases h.rows id row hrow' t ht with
            hcome | ⟨job',hjob',hwebhook',hid',hle⟩ | ⟨h',hh',hid',-,-⟩
          · exact .inl hcome
          · rcases List.mem_cons.mp (hbefore.mem_iff.mp hjob') with heq | hother
            · cases heq
            · exact .inr (.inl ⟨job',hstages.mem_iff.mpr (List.mem_cons_of_mem _ hother),hwebhook',
                hid',hle⟩)
          · rw [hh] at hh'
            cases hh'
            exact (hid hid'.symm).elim }

theorem settleJob_history (q : Queue Unit (Payload δ)) (retryBackoffMs : ℤ) (caller : Caller)
    (since now : ℤ) (job : Job (Payload δ)) (rest : List (Job (Payload δ))) (outcome : Outcome) :
    ∃ o, (q.settleJob retryBackoffMs caller since now job rest outcome).history =
      q.history ++ [o] ∧ o.kind ≠ .called := by
  cases outcome with
  | resolved => exact ⟨_,rfl,Kind.noConfusion⟩
  | rejected message =>
      simp only [Queue.settleJob]
      split
      · exact ⟨_,rfl,Kind.noConfusion⟩
      · exact ⟨_,rfl,Kind.noConfusion⟩
  | unprintable => cases caller <;> exact ⟨_,rfl,Kind.noConfusion⟩

/-- A job that is held back waits for the announced time, where the queue's setting
is not the smaller one. -/
theorem Timed.settleJob (h : Timed config s)
    (hbackoff : config.initialBackoffMs ≤ config.retryBackoffMs) {outcome : Outcome}
    (hh : s.dispatcher.handler = some ⟨job,.finished outcome⟩) {caller : Caller} {since : ℤ}
    {rest : List (Job (Payload δ))}
    (htick : s.dispatcher.queue.tick = some ⟨caller,since,some job,rest⟩) :
    Half config (s.setDispatcher { s.dispatcher with
      handler := none
      queue := s.dispatcher.queue.settleJob config.retryBackoffMs caller since s.clock job rest
        outcome }) := by
  obtain ⟨-,hwebhook⟩ := h.handler _ hh
  cases outcome with
  | resolved =>
      refine h.leave hh htick (stages_succeed _ _ _ _ _ _) rfl rfl (.inl ?_) ?_
      · exact if_neg fun hopen => Bool.noConfusion hopen.1
      · intro row hrow t ht
        exact .inl ((h.of_running hh hrow ht).resolve_right fun hboth => hboth.1)
  | rejected message =>
      simp only [Queue.settleJob]
      split
      · refine h.leave hh htick (stages_retry _ _ _ _ _ _) rfl rfl
          (.inr (openId_waiting hwebhook)) ?_
        intro row hrow t ht
        rcases h.of_running hh hrow ht with hcome | ⟨-,hnear⟩
        · exact .inl hcome
        · refine .inr ⟨(job.failAt s.clock message).holdBack config.retryBackoffMs,?_,hwebhook,rfl,?_⟩
          · exact (stages_retry _ _ _ _ _ _).mem_iff.mpr List.mem_cons_self
          · dsimp only [Job.holdBack,Job.failAt]
            omega
      · rename_i hless
        refine h.leave hh htick (stages_exhaust _ _ _ _ _ _) rfl rfl (.inl ?_) ?_
        · exact if_neg fun hopen => Bool.noConfusion hopen.1
        · intro row hrow t ht
          exact .inl ((h.of_running hh hrow ht).resolve_right fun hboth => hless hboth.1)
  | unprintable => exact absurd rfl (h.phases _ hh)

theorem Timed.collect (h : Timed config s)
    (hbackoff : config.initialBackoffMs ≤ config.retryBackoffMs) (backend : Backend) :
    Goes config s (s.setDispatcher (s.dispatcher.collect backend config s.clock)) := by
  unfold Dispatcher.collect
  split
  · rename_i job outcome hh
    obtain ⟨caller,since,rest,htick⟩ := tick_of_running (h.handler _ hh).1
    have houtcome : outcome ≠ .unprintable := h.phases _ hh
    have hhalf := h.settleJob hbackoff hh htick
    have hloop : Moves config.retryBackoffMs s.clock (fun job => ¬ IsWebhook job)
        (s.dispatcher.queue.settleJob config.retryBackoffMs caller since s.clock job rest outcome)
        ((s.dispatcher.queue.settleJob config.retryBackoffMs caller since s.clock job rest
          outcome).loop caller since s.clock rest) :=
      moves_loop (atHead_settleJob h.wf htick houtcome)
    obtain ⟨hafter,os,hos,hpunctual⟩ := hhalf.moves hloop
    obtain ⟨o,ho,hkind⟩ := settleJob_history s.dispatcher.queue config.retryBackoffMs caller since
      s.clock job rest outcome
    rw [settle_of_printable htick houtcome]
    refine ⟨hafter.launch hloop.1 backend,o :: os,?_,?_⟩
    · rw [System.setDispatcher,launch_queue]
      dsimp only
      rw [hos,System.setDispatcher,ho,List.append_assoc]
      rfl
    · intro o' ho'
      rcases List.mem_cons.mp ho' with rfl | ho'
      · exact fun hcalled => absurd hcalled hkind
      · exact hpunctual o' ho'
  · exact h.quiet rfl

end Handler

/-! ## The part of the calls -/

section Calls
variable {calls : List ScheduleCall} {replays : List ReplayCall}

/-- The calls go on, without taking up or leaving a delivery. -/
theorem Timed.setCalls (h : Timed config s)
    (hcalls : calls.filterMap createdId = s.dispatcher.calls.filterMap createdId) :
    Timed config (s.setDispatcher { s.dispatcher with calls }) :=
  { h with
    alone := by
      have halone := h.alone
      unfold busy at halone ⊢
      dsimp only [System.setDispatcher]
      rw [hcalls]
      exact halone
    known := by
      intro id hid
      refine h.known id ?_
      unfold busy at hid ⊢
      dsimp only [System.setDispatcher] at hid
      rw [hcalls] at hid
      exact hid }

theorem Timed.create (h : Timed config s) {i : ℕ} {call : ScheduleCall}
    (hi : s.dispatcher.calls[i]? = some call) (hcall : createdId call = none)
    (input : CreateDeliveryInput WebhookPayload) (rest : List OutboundWebhookSubscription)
    (uuid : String) :
    Timed config (s.setDispatcher (s.dispatcher.create i call input rest uuid s.clock)) := by
  unfold Dispatcher.create
  split
  · exact h
  · rename_i hfresh
    have hnot : uuid ∉ busy s := fun hmem => hfresh (h.known uuid hmem)
    have hcreated : createdId
        { call with phase := .created (Store.newDelivery input uuid s.clock) rest } = some uuid := rfl
    have hperm := ((filterMap_set_perm hi hcall hcreated).append_right
      (s.replays.filterMap replayId)).append_left (s.dispatcher.queue.stages.filterMap openId)
    have hbusy := hperm.trans List.perm_middle
    exact
      { registered := h.registered
        since := h.since
        alone := nodup_taken hbusy hnot h.alone
        known := by
          intro id hid
          refine Store.getDelivery_put_isSome fun hne => h.known id ?_
          exact (List.mem_cons.mp (hbusy.mem_iff.mp hid)).resolve_left hne
        keyed := by
          intro id row hrow
          rcases Store.getDelivery_put_cases hrow with ⟨rfl,rfl⟩ | ⟨-,hold⟩
          · rfl
          · exact h.keyed id row hold
        handler := h.handler
        phases := h.phases
        replays := h.replays
        rows := by
          intro id row hrow t ht
          rcases Store.getDelivery_put_cases hrow with ⟨-,rfl⟩ | ⟨-,hold⟩
          · cases ht
          · exact h.rows id row hold t ht
        wf := h.wf
        launched := h.launched }

/-- A call hands its delivery over to a job. -/
theorem Timed.enqueue (h : Timed config s) {id : String} (options : EnqueueOptions)
    (hcalls : (s.dispatcher.calls.filterMap createdId ++ s.replays.filterMap replayId).Perm
      (id :: (calls.filterMap createdId ++ replays.filterMap replayId)))
    (hreplays : ∀ call ∈ replays, ReplayTimed s.clock call) :
    Timed config { s with
      dispatcher := { s.dispatcher with
        queue := s.dispatcher.queue.enqueue s.clock WEBHOOK_DELIVERY_JOB (.delivery id) options
        calls }
      replays } := by
  have hstages := stages_enqueue s.dispatcher.queue s.clock WEBHOOK_DELIVERY_JOB
    (Payload.delivery (δ := δ) id) options
  have hopen := hstages.filterMap openId
  have hid : openId (.waiting (s.dispatcher.queue.newJob s.clock WEBHOOK_DELIVERY_JOB
      (Payload.delivery (δ := δ) id) options)) = some id := if_pos ⟨rfl,rfl⟩
  rw [List.filterMap_cons_some hid] at hopen
  have hbusy := (hopen.append_right (calls.filterMap createdId ++ replays.filterMap replayId)).trans
    (List.perm_middle.symm.trans (hcalls.symm.append_left
      (s.dispatcher.queue.stages.filterMap openId)))
  have hrunning : ∀ job, .running job ∈ (s.dispatcher.queue.enqueue s.clock WEBHOOK_DELIVERY_JOB
      (Payload.delivery (δ := δ) id) options).stages ↔
        .running job ∈ s.dispatcher.queue.stages := by
    intro job
    rw [hstages.mem_iff]
    simp
  have hsame := sameJobs_scheduleIfNeeded (s.dispatcher.queue.push (s.dispatcher.queue.newJob s.clock
    WEBHOOK_DELIVERY_JOB (Payload.delivery (δ := δ) id) options)
    (if options.id.isSome then s.dispatcher.queue.nextId else s.dispatcher.queue.nextId + 1))
  exact
    { registered := by
        have hhandlers := hsame.handlers
        unfold Queue.enqueue
        rw [hhandlers]
        exact h.registered
      since := by
        have htick := hsame.tick
        unfold Queue.enqueue
        rw [htick]
        exact h.since
      alone := hbusy.symm.nodup h.alone
      known := fun id' hid' => h.known id' (hbusy.mem_iff.mp hid')
      keyed := h.keyed
      handler := fun h' hh => ⟨(hrunning _).mpr (h.handler h' hh).1,(h.handler h' hh).2⟩
      phases := h.phases
      replays := hreplays
      rows := by
        intro id' row hrow t ht
        rcases h.rows id' row hrow t ht with hcome | ⟨job,hjob,hrest⟩ | hannounced
        · exact .inl hcome
        · exact .inr (.inl ⟨job,hstages.mem_iff.mpr (List.mem_cons_of_mem _ hjob),hrest⟩)
        · exact .inr (.inr hannounced)
      wf := hsame.wf (wf_push h.wf _ _)
      launched := fun job hmem hwebhook => h.launched job ((hrunning job).mp hmem) hwebhook }

theorem enqueue_history {η δ : Type} (q : Queue η δ) (now : ℤ) (type : String) (payload : δ)
    (options : EnqueueOptions) : (q.enqueue now type payload options).history = q.history :=
  (sameJobs_scheduleIfNeeded _).history

theorem Timed.proceed (h : Timed config s) (backend : Backend) (i : ℕ) (uuid : String) (pick : ℕ) :
    Goes config s (s.setDispatcher (s.dispatcher.proceed backend config s.clock i uuid pick)) := by
  refine proceed_cases (h.quiet rfl) ?_ ?_ ?_
  · intro call phase hi hcall hphase
    exact (h.setCalls (filterMap_set_same hi (hphase.trans hcall.symm))).quiet rfl
  · intro call input rest hi hcall _
    obtain ⟨store,calls,hframe⟩ := create_frame s.dispatcher i call input rest uuid s.clock
    refine (h.create hi hcall input rest uuid).quiet ?_
    rw [hframe]
    rfl
  · intro call delivery rest hi hphase
    have hcall : createdId call = some delivery.id := by simp [createdId,hphase]
    have hperm := (filterMap_unset_perm hi hcall (@createdId_nextSubscription δ backend s.dispatcher
      call (call.jobIds ++ ["webhook-" ++ delivery.id]) rest)).append_right
        (s.replays.filterMap replayId)
    exact (h.enqueue _ hperm h.replays).quiet (enqueue_history _ _ _ _ _)

/-- A row is written whose time has come. -/
theorem Timed.putRow (h : Timed config s) {row : Delivery}
    (hcome : ∀ t, row.nextAttemptAt = some t → t ≤ s.clock) :
    Timed config (s.setStore (s.dispatcher.store.put row)) := by
  exact
    { registered := h.registered
      since := h.since
      alone := h.alone
      known := fun id hmem => Store.getDelivery_put_isSome fun _ => h.known id hmem
      keyed := by
        intro id row' hrow'
        rcases Store.getDelivery_put_cases hrow' with ⟨rfl,rfl⟩ | ⟨-,hold⟩
        · rfl
        · exact h.keyed id row' hold
      handler := h.handler
      phases := h.phases
      replays := h.replays
      rows := by
        intro id row' hrow' t ht
        rcases Store.getDelivery_put_cases hrow' with ⟨-,rfl⟩ | ⟨-,hold⟩
        · exact .inl (hcome t ht)
        · exact h.rows id row' hold t ht
      wf := h.wf
      launched := h.launched }

theorem replayId_eq {call : ReplayCall} {id : String} (h : replayId call = some id) :
    id = call.deliveryId := by
  unfold replayId at h
  split at h
  · cases h
  · exact (Option.some.inj h).symm

/-- A replay stays with its delivery, or leaves it. -/
theorem Timed.setReplay (h : Timed config s) {i : ℕ} {call : ReplayCall}
    (hi : s.replays[i]? = some call) {id : String} (hid : replayId call = some id)
    (phase : ReplayPhase) (htimed : ReplayTimed s.clock { call with phase }) :
    Timed config (s.setReplay i call phase) := by
  have hreplays : ∀ call' ∈ s.replays.set i { call with phase }, ReplayTimed s.clock call' := by
    intro call' hcall'
    rcases List.mem_or_eq_of_mem_set hcall' with hold | rfl
    · exact h.replays call' hold
    · exact htimed
  have hless : (busy (s.setReplay i call phase)).Subperm (busy s) := by
    unfold busy
    dsimp only [System.setReplay]
    rw [← List.append_assoc,← List.append_assoc,List.subperm_append_left]
    cases hphase : replayId { call with phase } with
    | none => exact List.Subperm.cons_self.trans (filterMap_unset_perm hi hid hphase).symm.subperm
    | some id' =>
        have hsame : replayId { call with phase } = replayId call := by
          rw [hphase,hid,replayId_eq hphase,replayId_eq hid]
        rw [filterMap_set_same hi hsame]
  exact
    { registered := h.registered
      since := h.since
      alone := nodup_less hless h.alone
      known := fun id' hid' => h.known id' (hless.subset hid')
      keyed := h.keyed
      handler := h.handler
      phases := h.phases
      replays := hreplays
      rows := h.rows
      wf := h.wf
      launched := h.launched }

theorem Timed.replayDelivery (h : Timed config s) (backend : Backend) {id : String}
    (hknown : (s.dispatcher.store.getDelivery id).isSome) (hnot : id ∉ busy s) :
    Timed config (s.replayDelivery backend id) := by
  have hbusy : (busy (s.replayDelivery backend id)).Perm (id :: busy s) := by
    unfold busy
    dsimp only [System.replayDelivery]
    rw [List.filterMap_append,← List.append_assoc,← List.append_assoc,← List.append_assoc]
    exact List.perm_append_singleton _ _
  exact
    { registered := h.registered
      since := h.since
      alone := nodup_taken hbusy hnot h.alone
      known := by
        intro id' hid'
        rcases List.mem_cons.mp (hbusy.mem_iff.mp hid') with rfl | hold
        · exact hknown
        · exact h.known id' hold
      keyed := h.keyed
      handler := h.handler
      phases := h.phases
      replays := by
        intro call hcall
        rcases List.mem_append.mp hcall with hold | hnew
        · exact h.replays call hold
        · rw [List.mem_singleton.mp hnew]
          intro delivery hreply
          cases backend with
          | memory => exact h.keyed _ delivery (Reply.got.inj hreply)
          | postgres => cases hreply
      rows := h.rows
      wf := h.wf
      launched := h.launched }

/-- The time of a delivery that is replayed has come. -/
theorem Timed.of_replay (h : Timed config s) {i : ℕ} {call : ReplayCall}
    (hi : s.replays[i]? = some call) {id : String} (hid : replayId call = some id) {row : Delivery}
    (hrow : s.dispatcher.store.getDelivery id = some row) {t : ℤ}
    (ht : row.nextAttemptAt = some t) : t ≤ s.clock := by
  refine h.of_jobless (h.jobless_of_call (List.mem_append_right _ ?_)) hrow ht
  exact List.mem_filterMap.mpr ⟨call,List.mem_of_getElem? hi,hid⟩

theorem Timed.proceedReplay (h : Timed config s) (backend : Backend) (i : ℕ) :
    Goes config s (s.proceedReplay backend config s.clock i) := by
  unfold System.proceedReplay
  cases hi : s.replays[i]? with
  | none => exact h.quiet rfl
  | some call =>
      obtain ⟨id,phase⟩ := call
      have htimed := h.replays _ (List.mem_of_getElem? hi)
      cases phase with
      | getting reply =>
          dsimp only
          cases hread : reply.read (s.dispatcher.store.getDelivery id) with
          | none => exact (h.setReplay hi rfl .returned trivial).quiet rfl
          | some delivery =>
              have hid : delivery.id = id := by
                cases reply with
                | due => exact h.keyed _ delivery hread
                | got a => exact htimed delivery (congrArg Reply.got hread)
              cases backend with
              | memory =>
                  simp only [InMemory.updateDelivery]
                  cases hrow : s.dispatcher.store.getDelivery delivery.id with
                  | none => exact (h.setReplay hi rfl .returned trivial).quiet rfl
                  | some row =>
                      refine Timed.quiet (Timed.setReplay (h.putRow ?_) hi rfl (.updated delivery) hid) rfl
                      intro t ht
                      cases ht
              | postgres => exact (h.setReplay hi rfl (.reading delivery) hid).quiet rfl
      | reading delivery =>
          have hid : delivery.id = id := htimed
          dsimp only
          rw [hid]
          cases hrow : s.dispatcher.store.getDelivery id with
          | none => exact (h.setReplay hi rfl .returned trivial).quiet rfl
          | some current =>
              refine (h.setReplay hi rfl (.writing delivery (Postgres.nextColumns current replayPatch))
                ⟨hid,fun t ht => ?_⟩).quiet rfl
              exact h.of_replay hi rfl hrow ht
      | writing delivery next =>
          obtain ⟨hid,hnext⟩ := htimed
          simp only [Postgres.write]
          cases hrow : s.dispatcher.store.getDelivery delivery.id with
          | none => exact (h.setReplay hi rfl .returned trivial).quiet rfl
          | some row =>
              dsimp only
              by_cases hconflict : Postgres.conflicts s.dispatcher.store row next = true
              · rw [if_pos hconflict]
                exact (h.setReplay hi rfl .returned trivial).quiet rfl
              · rw [if_neg hconflict]
                exact Timed.quiet (Timed.setReplay (h.putRow hnext) hi rfl (.updated delivery) hid) rfl
      | updated delivery =>
          have hid : delivery.id = id := htimed
          have hcall : replayId ⟨id,.updated delivery⟩ = some delivery.id := by
            rw [hid]
            rfl
          have hperm := ((@filterMap_unset_perm _ _ replayId _ _ _ ⟨id,.returned⟩ _ hi hcall
            rfl).append_left (s.dispatcher.calls.filterMap createdId)).trans List.perm_middle
          refine Timed.quiet (h.enqueue _ hperm ?_) (enqueue_history _ _ _ _ _)
          intro call' hcall'
          rcases List.mem_or_eq_of_mem_set hcall' with hold | rfl
          · exact h.replays call' hold
          · trivial
      | returned => exact h.quiet rfl

end Calls

/-! ## Runs -/

theorem handle_queue (d : Dispatcher δ) : (d.handle backend config now).queue = d.queue := by
  obtain ⟨store,handler,hframe⟩ := handle_frame backend config d now
  rw [hframe]

theorem settlePost_queue (d : Dispatcher δ) (attempt : Attempt) (success arrived : Bool) :
    (d.settlePost backend config now attempt success arrived).queue = d.queue := by
  obtain ⟨store,handler,posts,hframe⟩ := settlePost_frame backend config d now attempt success arrived
  rw [hframe]

theorem timed_new (config : Config) (start : ℤ) : Timed config ({ clock := start } : System δ) where
  registered := rfl
  since _ h := nomatch h
  alone := List.nodup_nil
  known _ h := nomatch h
  keyed _ _ h := nomatch h
  handler _ h := nomatch h
  phases _ h := nomatch h
  replays _ h := nomatch h
  rows _ _ h := nomatch h
  wf := wf_registerHandler wf_new _ _
  launched _ h := nomatch h

theorem Timed.dispatch (h : Timed config s)
    (hbackoff : config.initialBackoffMs ≤ config.retryBackoffMs) (backend : Backend)
    (action : OutboundWebhooks.Action δ) :
    Goes config s (s.setDispatcher (s.dispatcher.step backend config ⟨s.clock,action⟩)) := by
  cases action with
  | queue action => exact h.stepQueue backend action
  | subscribe url eventTypes secretRef uuid =>
      have hsame : Timed config (s.setDispatcher { s.dispatcher with
          store := s.dispatcher.store.upsertEnvSubscription url eventTypes secretRef uuid
            s.clock }) := { h with }
      exact hsame.quiet rfl
  | schedule event =>
      refine Timed.quiet (h.setCalls ?_) rfl
      rw [List.filterMap_append]
      simp [createdId]
  | proceed i uuid pick => exact h.proceed backend i uuid pick
  | handle => exact (h.handle backend).quiet (congrArg Queue.history (handle_queue _))
  | answer response =>
      exact (h.settlePost backend (deliver response) response.ok true).quiet
        (congrArg Queue.history (settlePost_queue _ _ _ _))
  | fail message reached =>
      exact (h.settlePost backend (.refused message) reached false).quiet
        (congrArg Queue.history (settlePost_queue _ _ _ _))
  | failUnprintable reached =>
      exact (h.settlePost backend .unprintable reached false).quiet
        (congrArg Queue.history (settlePost_queue _ _ _ _))
  | collect => exact h.collect hbackoff backend

/-- Every admitted step keeps the invariant. -/
theorem Timed.step (h : Timed config s)
    (hbackoff : config.initialBackoffMs ≤ config.retryBackoffMs) (backend : Backend) {st : Step δ}
    (hst : Admitted s st) : Goes config { s with clock := st.now } (s.step backend config st) := by
  obtain ⟨hclock,hfree⟩ := hst
  have hlater := h.later hclock
  obtain ⟨now,action⟩ := st
  cases action with
  | dispatch action => exact hlater.dispatch hbackoff backend action
  | replay id => exact (hlater.replayDelivery backend hfree.1 hfree.2).quiet rfl
  | proceedReplay i => exact hlater.proceedReplay backend i

theorem onTime_of_goes {st : Step δ}
    (h : Goes config { s with clock := st.now } (s.step backend config st)) :
    OnTime backend config s st := by
  obtain ⟨-,os,hos,hpunctual⟩ := h
  intro o ho
  rw [started,hos,List.drop_left,List.mem_filter] at ho
  have hboth := of_decide_eq_true ho.2
  exact hpunctual o ho.1 hboth.1 hboth.2

/-- Where the dispatcher's backoff is not the larger one, and only deliveries without a
job are replayed, no attempt starts before the time announced for it. -/
theorem retries_on_time (backend : Backend) (config : Config)
    (hbackoff : config.initialBackoffMs ≤ config.retryBackoffMs) (start : ℤ)
    (steps : List (Step δ))
    (hadmitted : Guarded (System.step backend config) Admitted { clock := start } steps) :
    ∀ pre st, pre ++ [st] <+: steps →
      OnTime backend config (run (System.step backend config) { clock := start } pre) st := by
  intro pre st hpre
  obtain ⟨rest,rfl⟩ := hpre
  obtain ⟨hbefore,-⟩ := (guarded_append _ _ _ _ _).mp hadmitted
  obtain ⟨hpre,hst⟩ := (guarded_append _ _ _ _ _).mp hbefore
  have htimed : Timed config (run (System.step backend config) { clock := start } pre) :=
    run_invariant (fun s st h hst => (h.step hbackoff backend hst).1) (timed_new config start) hpre
  exact onTime_of_goes (htimed.step hbackoff backend hst.1)

def confirmed : CreditDomainEvent := ⟨.drawConfirmed,"2026-07-09T00:00:00.000Z","line-1",[]⟩

def dispatched (now : ℤ) (action : OutboundWebhooks.Action Unit) : Step Unit :=
  ⟨now,.dispatch action⟩

/-- One subscriber, whose first delivery is refused. -/
def refusedOnce : List (Step Unit) :=
  [dispatched 0 (.subscribe "https://a.example/hook" ["credit.draw_confirmed"] "WEBHOOK_SECRET"
      "s1"),
    dispatched 0 (.schedule confirmed),dispatched 0 (.proceed 0 "" 0),
    dispatched 0 (.proceed 0 "d1" 0),dispatched 0 (.proceed 0 "" 0),
    dispatched 0 (.queue .drain),dispatched 0 .handle,dispatched 10 (.fail "aborted" false),
    dispatched 10 .handle,dispatched 10 .collect,dispatched 10 (.queue (.resume 0))]

/-- The second one is refused too, and the delivery is replayed. -/
def refusedAndReplayed : List (Step Unit) :=
  refusedOnce ++ [dispatched 510 (.queue .drain),dispatched 510 .handle,
    dispatched 520 (.fail "aborted" false),dispatched 520 .handle,dispatched 520 .collect,
    ⟨530,.replay "d1"⟩,⟨530,.proceedReplay 0⟩,⟨530,.proceedReplay 0⟩]

theorem retries_on_time_replayed :
    (run (System.step .memory ⟨2,100,500⟩) { clock := 0 } (refusedAndReplayed ++
        [dispatched 540 (.queue .drain)])).dispatcher.queue.tick.isSome ∧
      ∀ pre st, pre ++ [st] <+: refusedAndReplayed ++ [dispatched 540 (.queue .drain)] →
        OnTime .memory ⟨2,100,500⟩ (run (System.step .memory ⟨2,100,500⟩) { clock := 0 } pre) st :=
  ⟨by decide +kernel,retries_on_time .memory ⟨2,100,500⟩ (by decide) 0 _ (by decide +kernel)⟩

/-- With the settings that both components have by themselves, the second attempt
starts half a second before the announced time. -/
theorem retry_before_announced_time :
    let s := run (System.step .memory ⟨3,1000,500⟩) { clock := 0 } refusedOnce
    let st := dispatched 510 (.queue .drain)
    Guarded (System.step .memory ⟨3,1000,500⟩) Admitted { clock := 0 } (refusedOnce ++ [st]) ∧
      ¬ OnTime .memory ⟨3,1000,500⟩ s st ∧
      ∃ o ∈ started .memory ⟨3,1000,500⟩ s st, o.job.attempts = 1 ∧
        ∃ row ∈ s.dispatcher.store.getDelivery (deliveryId o.job), row.status = .failed ∧
          row.nextAttemptAt = some 1010 := by
  intro s st
  have hstarted : ∃ o ∈ started .memory ⟨3,1000,500⟩ s st, o.job.attempts = 1 ∧
      ∃ row ∈ s.dispatcher.store.getDelivery (deliveryId o.job), row.status = .failed ∧
        row.nextAttemptAt = some 1010 := by
    decide +kernel
  refine ⟨by decide +kernel,fun htime => ?_,hstarted⟩
  obtain ⟨o,ho,-,row,hrow,-,hnext⟩ := hstarted
  have hle : (1010 : ℤ) ≤ 510 := htime o ho row hrow 1010 hnext
  omega

end Creditra.RetryTimes
