import Creditra.DrawWebhooks

/-!
# Which event's record makes a delivery skip

A record is found again under the printed draw identifier and the URL. Where it
comes from is followed through every run: a record carries the printed
identifier of the event it was written for, and a skipped delivery has the
identifier of the record it was skipped by. So a skip for another event needs
two events that print alike. Two such events are enough, if a POST can be made
at all: the first is delivered and recorded, and the second is then skipped. As
the module stands no POST is made and nothing is ever skipped.
-/
namespace Creditra.DrawWebhookSuppression
open GuardedRuns InsertionMaps JsonValues HorizonListener DrawWebhooks

/-- Where a delivery was skipped by a record of the same URL, the record was
written for the same chain event. -/
def NoFalseSuppression (dataHash : String → String) (s : Sender) : Prop :=
  ∀ d ∈ s.deliveries, ∀ r ∈ d.skippedBy, r.url = d.url →
    generateEventId dataHash r.event = generateEventId dataHash d.event

instance (dataHash : String → String) (s : Sender) :
    Decidable (NoFalseSuppression dataHash s) := by
  unfold NoFalseSuppression
  infer_instance

/-- If the step is a call, it is one for these events. -/
def CallsOnly (events : List HorizonEvent) (st : Step) : Prop :=
  ∀ (event : HorizonEvent) (now : String), st = .call event now → event ∈ events

/-- There is a URL, and a first attempt is made. -/
def Posts (activeConfig : Option WebhookConfig) : Prop :=
  ∃ config ∈ activeConfig, config.urls ≠ [] ∧ ∃ m ∈ config.maxRetries, 0 ≤ m

/-- Events with different identifiers do not print the same draw identifier. -/
def ToldApart (dataHash : String → String) (jsonParse : String → Option Json)
    (events : List HorizonEvent) : Prop :=
  ∀ e ∈ events, ∀ e' ∈ events, generateEventId dataHash e ≠ generateEventId dataHash e' →
    ∀ drawId, ¬ (drawText jsonParse e = some drawId ∧ drawText jsonParse e' = some drawId)

/-! ## Following a record back to its event -/

/-- The record was written for one of the events, under the identifier that event
prints. -/
structure WrittenFor (jsonParse : String → Option Json) (events : List HorizonEvent)
    (r : DeliveryRecord) : Prop where
  called : r.event ∈ events
  text : drawText jsonParse r.event = some r.drawId

structure Traced (jsonParse : String → Option Json) (events : List HorizonEvent) (s : Sender) :
    Prop where
  deliveries : ∀ d ∈ s.deliveries, d.event ∈ events ∧ drawText jsonParse d.event = some d.drawId
  records : ∀ k r, s.store.get k = some r →
    k = key r.drawId r.url ∧ WrittenFor jsonParse events r
  skipped : ∀ d ∈ s.deliveries, ∀ r ∈ d.skippedBy,
    key d.drawId d.url = key r.drawId r.url ∧ WrittenFor jsonParse events r

section Runs
variable {imported : Bool} {dataHash : String → String} {jsonParse : String → Option Json}
variable {activeConfig : Option WebhookConfig} {events : List HorizonEvent} {s : Sender}

theorem traced_new : Traced jsonParse events {} where
  deliveries d hd := by simp at hd
  records k r h := by simp at h
  skipped d hd := by simp at hd

/-- A delivery that moves keeps everything but its phase. -/
theorem mem_moved {i : ℕ} {d e : Delivery} {phase : Phase} (hi : s.deliveries[i]? = some d)
    (he : e ∈ s.deliveries.set i { d with phase }) :
    ∃ e' ∈ s.deliveries, e.event = e'.event ∧ e.drawId = e'.drawId ∧ e.url = e'.url ∧
      e.skippedBy = e'.skippedBy := by
  rcases List.mem_or_eq_of_mem_set he with hold | rfl
  · exact ⟨e,hold,rfl,rfl,rfl,rfl⟩
  · exact ⟨d,List.mem_of_getElem? hi,rfl,rfl,rfl,rfl⟩

theorem Traced.moved (h : Traced jsonParse events s) {s' : Sender} {i : ℕ} {d : Delivery}
    {phase : Phase} (hi : s.deliveries[i]? = some d)
    (hdeliveries : s'.deliveries = s.deliveries.set i { d with phase })
    (hrecords : ∀ k r, s'.store.get k = some r →
      k = key r.drawId r.url ∧ WrittenFor jsonParse events r) :
    Traced jsonParse events s' where
  deliveries e he := by
    rw [hdeliveries] at he
    obtain ⟨e',he',hevent,hdrawId,-⟩ := mem_moved hi he
    rw [hevent,hdrawId]
    exact h.deliveries e' he'
  records := hrecords
  skipped e he r hr := by
    rw [hdeliveries] at he
    obtain ⟨e',he',-,hdrawId,hurl,hskipped⟩ := mem_moved hi he
    rw [hskipped] at hr
    rw [hdrawId,hurl]
    exact h.skipped e' he' r hr

theorem Traced.called (h : Traced jsonParse events s) (config : WebhookConfig)
    {event : HorizonEvent} (payload : WebhookPayload) {drawId : String} (hevent : event ∈ events)
    (htext : drawText jsonParse event = some drawId) :
    Traced jsonParse events
      (s.launch (config.urls.map (s.startDelivery config event payload drawId))) where
  deliveries e he := by
    rw [Sender.launch,List.mem_append] at he
    cases he with
    | inl hold => exact h.deliveries e hold
    | inr hnew =>
        obtain ⟨url,-,rfl⟩ := List.mem_map.mp hnew
        rw [startDelivery_event,startDelivery_drawId]
        exact ⟨hevent,htext⟩
  records := h.records
  skipped e he r hr := by
    rw [Sender.launch,List.mem_append] at he
    cases he with
    | inl hold => exact h.skipped e hold r hr
    | inr hnew =>
        obtain ⟨url,-,rfl⟩ := List.mem_map.mp hnew
        rw [startDelivery_drawId,startDelivery_url]
        exact h.records _ r (startDelivery_skippedBy s config event payload drawId url hr)

theorem Traced.settled (h : Traced jsonParse events s) {d : Delivery} {r : DeliveryRecord}
    (hd : d ∈ s.deliveries) (hr : Reports d r) :
    ∀ k r', (record s.store r).get k = some r' →
      k = key r'.drawId r'.url ∧ WrittenFor jsonParse events r' := by
  intro k r' hk
  rcases InsertionMap.get_set_cases hk with ⟨hkey,rfl⟩ | ⟨-,hold⟩
  · obtain ⟨hevent,htext⟩ := h.deliveries d hd
    rw [← hr.event] at hevent htext
    rw [← hr.drawId] at htext
    exact ⟨hkey,hevent,htext⟩
  · exact h.records k r' hold

theorem Traced.step (s : Sender) (st : Step) (h : Traced jsonParse events s)
    (hg : CallsOnly events st) : Traced jsonParse events (s.step imported jsonParse activeConfig st) := by
  have houtcome := step_outcome imported jsonParse activeConfig s st
  generalize s.step imported jsonParse activeConfig st = s' at houtcome
  cases houtcome with
  | idle => exact h
  | called config event now payload drawId hst hconfig htext =>
      exact h.called config payload (hg event now hst) htext
  | wentOn i d phase posts hi hgo => exact h.moved hi rfl h.records
  | settled i d r result hi hr =>
      exact h.moved hi rfl (h.settled (List.mem_of_getElem? hi) hr)

theorem traced_run {steps : List Step} (hsteps : ∀ st ∈ steps, CallsOnly events st) :
    Traced jsonParse events (run (Sender.step imported jsonParse activeConfig) {} steps) :=
  run_invariant Traced.step traced_new (guarded_of_labels hsteps)

theorem Traced.noFalseSuppression (h : Traced jsonParse events s)
    (happart : ToldApart dataHash jsonParse events) : NoFalseSuppression dataHash s := by
  intro d hd r hr hurl
  obtain ⟨hkey,hwritten⟩ := h.skipped d hd r hr
  obtain ⟨hevent,htext⟩ := h.deliveries d hd
  rw [hurl] at hkey
  rw [key_inj_drawId hkey] at htext
  by_contra hne
  exact happart r.event hwritten.called d.event hevent hne r.drawId ⟨hwritten.text,htext⟩

/-! ## Where nothing is posted -/

/-- No attempt succeeds, and nothing is recorded as delivered. -/
structure Silent (imported : Bool) (s : Sender) : Prop where
  deliveries : ∀ d ∈ s.deliveries, (imported = true → d.phase.waiting = false) ∧
    d.phase.succeeded = false ∧ d.skippedBy = none
  records : ∀ drawId url, isDelivered s.store drawId url = false

theorem silent_new : Silent imported {} where
  deliveries d hd := by simp at hd
  records drawId url := rfl

/-- Without a first attempt a delivery is over where it starts. -/
theorem startDelivery_silent (h : Silent imported s) {config : WebhookConfig}
    (hno : imported = true → ¬ ∃ m ∈ config.maxRetries, 0 ≤ m) (event : HorizonEvent)
    (payload : WebhookPayload) (drawId url : String) :
    (imported = true →
      (s.startDelivery config event payload drawId url).phase.waiting = false) ∧
    (s.startDelivery config event payload drawId url).phase.succeeded = false ∧
    (s.startDelivery config event payload drawId url).skippedBy = none := by
  unfold Sender.startDelivery
  rw [h.records,if_neg Bool.false_ne_true]
  refine ⟨?_,(retryWithBackoff_open _ _ _).2,rfl⟩
  intro himported
  have hloop : ¬ ∃ m ∈ config.maxRetries, ((1 : ℕ) : ℤ) ≤ m + 1 := by
    rintro ⟨m,hm,hle⟩
    apply hno himported
    exact ⟨m,hm,by omega⟩
  unfold retryWithBackoff
  rw [if_neg hloop]
  rfl

theorem Silent.settled (h : Silent imported s) {i : ℕ} {d : Delivery} {r : DeliveryRecord}
    (hi : s.deliveries[i]? = some d) (hr : Reports d r) (result : WebhookDeliveryResult) :
    Silent imported (s.settle i d r result) := by
  obtain ⟨-,hfailed,hskipped⟩ := h.deliveries d (List.mem_of_getElem? hi)
  have hstatus : r.status ≠ .delivered := by
    intro hdelivered
    rw [hr.status.mp hdelivered] at hfailed
    cases hfailed
  constructor
  · intro e he
    rcases List.mem_or_eq_of_mem_set he with hold | rfl
    · exact h.deliveries e hold
    · exact ⟨fun _ => rfl,rfl,hskipped⟩
  · intro drawId url
    by_cases hkey : key drawId url = key r.drawId r.url
    · rw [Sender.settle,isDelivered_record_same hkey]
      exact decide_eq_false hstatus
    · rw [Sender.settle,isDelivered_record_other hkey]
      exact h.records drawId url

theorem Silent.step (hno : imported = true → ¬ Posts activeConfig) (s : Sender) (st : Step)
    (h : Silent imported s) : Silent imported (s.step imported jsonParse activeConfig st) := by
  have houtcome := step_outcome imported jsonParse activeConfig s st
  generalize s.step imported jsonParse activeConfig st = s' at houtcome
  cases houtcome with
  | idle => exact h
  | called config event now payload drawId hst hconfig htext =>
      constructor
      · intro e he
        rw [Sender.launch,List.mem_append] at he
        cases he with
        | inl hold => exact h.deliveries e hold
        | inr hnew =>
            obtain ⟨url,hurl,rfl⟩ := List.mem_map.mp hnew
            refine startDelivery_silent h ?_ event payload drawId url
            intro himported hm
            exact hno himported ⟨config,hconfig,List.ne_nil_of_mem hurl,hm⟩
      · exact h.records
  | wentOn i d phase posts hi hgo =>
      obtain ⟨hwaiting,-,hskipped⟩ := h.deliveries d (List.mem_of_getElem? hi)
      have himported : imported = false := by
        rw [← Bool.not_eq_true]
        intro himported
        rw [hgo.before] at hwaiting
        cases hwaiting himported
      constructor
      · intro e he
        rcases List.mem_or_eq_of_mem_set he with hold | rfl
        · exact h.deliveries e hold
        · refine ⟨?_,(hgo.unposted himported).2,hskipped⟩
          intro himported'
          rw [himported] at himported'
          cases himported'
      · exact h.records
  | settled i d r result hi hr => exact h.settled hi hr result

theorem Silent.noFalseSuppression (h : Silent imported s) : NoFalseSuppression dataHash s := by
  intro d hd r hr
  rw [(h.deliveries d hd).2.2] at hr
  cases hr

/-! ## Two events that print alike -/

theorem send_of_text {config : WebhookConfig} {event : HorizonEvent} {drawId : String}
    (hurls : config.urls ≠ []) (htext : drawText jsonParse event = some drawId) (now : String) :
    ∃ payload, s.sendDrawConfirmationWebhook jsonParse (some config) event now =
      s.launch (config.urls.map (s.startDelivery config event payload drawId)) := by
  obtain ⟨data,hdata,hprinted⟩ := Option.bind_eq_some_iff.mp htext
  have hlength : config.urls.length ≠ 0 := by
    rw [Ne,List.length_eq_zero_iff]
    exact hurls
  refine ⟨⟨now,data⟩,?_⟩
  simp only [Sender.sendDrawConfirmationWebhook,parseDrawConfirmedEvent,hdata,Option.map_some,
    hprinted,if_neg hlength]

/-- The first attempt at an address that is not recorded. -/
theorem startDelivery_posting {config : WebhookConfig} {m : ℤ}
    (hretries : config.maxRetries = some m) (hm : 0 ≤ m) (event : HorizonEvent)
    (payload : WebhookPayload) {drawId url : String}
    (hnew : isDelivered s.store drawId url = false) :
    s.startDelivery config event payload drawId url =
      { event, payload, drawId, url, phase := .posting 1 } := by
  have hloop : ∃ m ∈ config.maxRetries, ((1 : ℕ) : ℤ) ≤ m + 1 := ⟨m,hretries,by omega⟩
  unfold Sender.startDelivery retryWithBackoff
  rw [hnew,if_pos hloop]
  rfl

/-- Answering and recording the attempt of one delivery. -/
theorem run_answer_record (jsonParse : String → Option Json)
    (activeConfig : Option WebhookConfig) {i : ℕ} {d : Delivery} {attempt : ℕ}
    (hi : s.deliveries[i]? = some d) (hd : d.phase = .posting attempt) (response : Response)
    (deliveredAt updatedAt : String) :
    (run (Sender.step true jsonParse activeConfig) s
      [.answer i response,.record i deliveredAt updatedAt]).store =
      record s.store
        (answeredRecord d attempt (deliverWebhook response) deliveredAt updatedAt) := by
  have hanswer : s.step true jsonParse activeConfig (.answer i response) =
      s.move i d (.answered attempt (deliverWebhook response)) (d.post response.ok true) := by
    simp only [Sender.step,hi,hd,if_true]
  have hmoved : (s.move i d (.answered attempt (deliverWebhook response))
      (d.post response.ok true)).deliveries[i]? =
      some { d with phase := .answered attempt (deliverWebhook response) } := moved hi _
  rw [run_cons,hanswer,run_cons,run_nil]
  simp only [Sender.step,hmoved]
  rfl

/-- Deliver one event to the first URL, then call with the other. -/
def deliverThenCall (e e' : HorizonEvent) : List Step :=
  [.call e "",.answer 0 ⟨200,"OK"⟩,.record 0 "" "",.call e' ""]

theorem deliverThenCall_callsOnly {e e' : HorizonEvent} (he : e ∈ events) (he' : e' ∈ events) :
    ∀ st ∈ deliverThenCall e e', CallsOnly events st := by
  intro st hst event now hcall
  subst hcall
  simp only [deliverThenCall,List.mem_cons,Step.call.injEq,List.not_mem_nil,reduceCtorEq,
    false_or,or_false] at hst
  rcases hst with ⟨rfl,-⟩ | ⟨rfl,-⟩
  · exact he
  · exact he'

theorem second_skipped {config : WebhookConfig} {m : ℤ} (hurls : config.urls ≠ [])
    (hretries : config.maxRetries = some m) (hm : 0 ≤ m) {e e' : HorizonEvent} {drawId : String}
    (he : drawText jsonParse e = some drawId) (he' : drawText jsonParse e' = some drawId) :
    ∃ d ∈ (run (Sender.step true jsonParse (some config)) {} (deliverThenCall e e')).deliveries,
      ∃ r ∈ d.skippedBy, r.url = d.url ∧ r.event = e ∧ d.event = e' := by
  obtain ⟨payload,hcall⟩ := send_of_text (s := {}) hurls he ""
  obtain ⟨url,urls,hcons⟩ := List.exists_cons_of_ne_nil hurls
  have hurl : url ∈ config.urls := by
    rw [hcons]
    exact List.mem_cons_self
  have hfirst : (({} : Sender).launch (config.urls.map
      (({} : Sender).startDelivery config e payload drawId))).deliveries[0]? =
      some { event := e, payload, drawId, url, phase := .posting 1 } := by
    rw [hcons,← startDelivery_posting (s := {}) hretries hm e payload rfl]
    rfl
  have hstore := run_answer_record jsonParse (some config) hfirst rfl ⟨200,"OK"⟩ "" ""
  rw [deliverThenCall,run_cons,Sender.step,hcall]
  rw [show ∀ x y z : Step, [x,y,z] = [x,y] ++ [z] from fun _ _ _ => rfl,run_append,run_cons,
    run_nil,Sender.step]
  generalize run (Sender.step true jsonParse (some config)) _ _ = s at hstore ⊢
  obtain ⟨payload',hcall'⟩ := send_of_text (s := s) hurls he' ""
  rw [hcall']
  refine ⟨s.startDelivery config e' payload' drawId url,
    List.mem_append_right _ (List.mem_map_of_mem hurl),?_⟩
  have hrecorded : isDelivered s.store drawId url = true := by
    rw [hstore]
    exact isDelivered_record_same rfl
  unfold Sender.startDelivery
  rw [if_pos hrecorded,hstore]
  exact ⟨_,InsertionMap.get_set_self _ _ _,rfl,rfl,rfl⟩

end Runs

/-- As the module stands no record of another event ever makes a delivery skip,
because nothing is posted. With the import this holds of all runs on the given
events exactly when nothing can be posted or events with different identifiers
print different draw identifiers. -/
theorem draws_not_suppressed (dataHash : String → String) (jsonParse : String → Option Json)
    (activeConfig : Option WebhookConfig) :
    (∀ steps : List Step, NoFalseSuppression dataHash
      (run (Sender.step fetchImported jsonParse activeConfig) {} steps)) ∧
    ∀ events : List HorizonEvent,
      (∀ steps : List Step, (∀ st ∈ steps, CallsOnly events st) →
        NoFalseSuppression dataHash (run (Sender.step true jsonParse activeConfig) {} steps)) ↔
      (¬ Posts activeConfig ∨ ToldApart dataHash jsonParse events) := by
  constructor
  · intro steps
    have hsilent : Silent fetchImported
        (run (Sender.step fetchImported jsonParse activeConfig) {} steps) :=
      run_induction (Silent.step fun himported => absurd himported Bool.false_ne_true)
        silent_new steps
    exact hsilent.noFalseSuppression
  · intro events
    constructor
    · intro hall
      by_contra hno
      rw [not_or,not_not] at hno
      obtain ⟨⟨config,hconfig,hurls,m,hretries,hm⟩,hprint⟩ := hno
      apply hprint
      intro e he e' he' hne drawId hboth
      have hsound := hall (deliverThenCall e e') (deliverThenCall_callsOnly he he')
      obtain ⟨d,hd,r,hr,hurl,hrevent,hdevent⟩ := second_skipped hurls hretries hm hboth.1 hboth.2
      rw [← Option.mem_def.mp hconfig] at hd
      have hsame := hsound d hd r hr hurl
      rw [hrevent,hdevent] at hsame
      exact hne hsame
    · intro hcase steps hsteps
      cases hcase with
      | inl hno =>
          have hsilent : Silent true (run (Sender.step true jsonParse activeConfig) {} steps) :=
            run_induction (Silent.step fun _ => hno) silent_new steps
          exact hsilent.noFalseSuppression
      | inr hprint => exact (traced_run hsteps).noFalseSuppression hprint

/-- `JSON.parse`, on the data below. -/
def parseEmpty (data : String) : Option Json :=
  if data = "\x7b\x7d" then some (.object []) else none

/-- The first sixteen digits of SHA-256, on the data below. -/
def emptyHash (data : String) : String := if data = "\x7b\x7d" then "44136fa355b3678a" else ""

/-- A confirmed draw whose data names no draw identifier. -/
def unnamed (ledger : ℕ) : HorizonEvent :=
  ⟨ledger,"2026-07-09T00:00:00.000Z","CA",["draw_confirmed"],"\x7b\x7d",ledger⟩

/-- With the import, the second of two draws without an identifier is never posted. -/
example : generateEventId emptyHash (unnamed 7) ≠ generateEventId emptyHash (unnamed 8) ∧
    ¬ NoFalseSuppression emptyHash
      (run (Sender.step true parseEmpty (some ⟨["https://a.example/hook"],some 3⟩)) {}
        (deliverThenCall (unnamed 7) (unnamed 8))) :=
  ⟨by decide +kernel,by decide +kernel⟩

end Creditra.DrawWebhookSuppression
