import Creditra.OutboundCoupling

/-!
# Each event is sent once to each subscription

`scheduleEvent` asks for an earlier delivery and creates a new one in two awaits,
and it holds back only where the one it is shown is already delivered. The
invariant below holds as long as no delivery is created beside one that may
still succeed, or has: then for each subscription and event one delivery at most
is not dead, and what its receiver has answered is recorded in its row or about
to be recorded by its handler.
-/
namespace Creditra.OutboundOnce
open GuardedRuns InsertionMaps JobQueue OutboundWebhookStore OutboundWebhooks OutboundCoupling

variable {δ : Type} {backend : Backend} {config : Config} {now : ℤ} {s : Dispatcher δ}

/-- Subscription and event of a POST. -/
def pair (p : Post) : String × String := (p.subscriptionId,p.eventId)

/-- No event was posted twice with success to one subscription. -/
def SentOnce (s : Dispatcher δ) : Prop := (s.posts.map pair).Nodup

instance (s : Dispatcher δ) : Decidable (SentOnce s) := by
  unfold SentOnce
  infer_instance

/-- A POST for the event reached the subscriber, and its answer was lost. -/
def Lost (s : Dispatcher δ) (subscriptionId eventId : String) : Prop :=
  ⟨subscriptionId,eventId,false⟩ ∈ s.posts

instance (s : Dispatcher δ) (subscriptionId eventId : String) :
    Decidable (Lost s subscriptionId eventId) := by
  unfold Lost
  infer_instance

/-- Subscription and event of the delivery that the call creates in its next step. -/
def toCreate (backend : Backend) (s : Dispatcher δ) (call : ScheduleCall) (pick : ℕ) :
    Option (String × String) :=
  match call.phase with
  | .finding subscription _ reply =>
      if backend = .memory ∧ ((reply.read (s.findDelivery backend subscription.id
        (eventId call.event) pick)).map (·.status)) ≠ some .delivered then
        some (subscription.id,eventId call.event)
      else none
  | .creating input _ => some (input.subscriptionId,input.eventId)
  | _ => none

/-- The delivery that the handler posts in its next step. -/
def toPost (s : Dispatcher δ) : Option Delivery :=
  match s.handler with
  | some ⟨job,.getting reply⟩ => reply.read (s.store.getDelivery (deliveryId job))
  | _ => none

/-- A delivery is created only where all earlier ones are dead, and no POST is
made after an answer was lost. -/
def Alone (backend : Backend) (s : Dispatcher δ) (st : OutboundWebhooks.Step δ) : Prop :=
  match st.action with
  | .proceed i _ pick => ∀ call ∈ s.calls[i]?, ∀ key ∈ toCreate backend s call pick,
      ∀ row ∈ s.store.deliveriesFor key.1 key.2, row.status = .deadLetter
  | .handle => ∀ delivery ∈ toPost s, ¬ Lost s delivery.subscriptionId delivery.eventId
  | _ => True

instance (backend : Backend) (s : Dispatcher δ) :
    (st : OutboundWebhooks.Step δ) → Decidable (Alone backend s st)
  | ⟨_,.proceed i _ pick⟩ => inferInstanceAs (Decidable (∀ call ∈ s.calls[i]?,
      ∀ key ∈ toCreate backend s call pick,
      ∀ row ∈ s.store.deliveriesFor key.1 key.2, row.status = .deadLetter))
  | ⟨_,.handle⟩ => inferInstanceAs (Decidable (∀ delivery ∈ toPost s,
      ¬ Lost s delivery.subscriptionId delivery.eventId))
  | ⟨_,.queue _⟩ | ⟨_,.subscribe _ _ _ _⟩ | ⟨_,.schedule _⟩ | ⟨_,.answer _⟩ | ⟨_,.fail _ _⟩
  | ⟨_,.failUnprintable _⟩ | ⟨_,.collect⟩ => inferInstanceAs (Decidable True)

/-- The handler is about to record a success. -/
def accepting : HandlerPhase → Bool
  | .reading _ (.accepted _) _ => true
  | .writing _ (.accepted _) _ => true
  | _ => false

/-- The success is on record, or will be. -/
def Known (s : Dispatcher δ) (p : Post) : Prop :=
  ∃ id row, s.store.getDelivery id = some row ∧ row.subscriptionId = p.subscriptionId ∧
    row.eventId = p.eventId ∧ (row.status = .delivered ∨
      ∃ h, s.handler = some h ∧ deliveryId h.job = id ∧ accepting h.phase = true)

structure Inv (backend : Backend) (config : Config) (s : Dispatcher δ) : Prop where
  coupled : Coupled False backend config s
  alone : ∀ id id' row row', s.store.getDelivery id = some row →
    s.store.getDelivery id' = some row' → row.subscriptionId = row'.subscriptionId →
    row.eventId = row'.eventId → row.status ≠ .deadLetter → row'.status ≠ .deadLetter → id = id'
  known : ∀ p ∈ s.posts, p.arrived = true → Known s p
  inFlight : ∀ job delivery, s.handler = some ⟨job,.posting delivery⟩ →
    ¬ Lost s delivery.subscriptionId delivery.eventId
  once : SentOnce s

theorem inv_new (backend : Backend) (config : Config) :
    Inv backend config ({} : Dispatcher δ) where
  coupled := coupled_new False backend config
  alone _ _ _ _ h := nomatch h
  known _ h := nomatch h
  inFlight _ _ h := nomatch h
  once := List.nodup_nil

theorem mem_deliveriesFor {store : Store WebhookPayload} {subscriptionId eventId : String}
    {row : Delivery} : row ∈ store.deliveriesFor subscriptionId eventId ↔
      (∃ id, store.getDelivery id = some row) ∧ row.subscriptionId = subscriptionId ∧
        row.eventId = eventId := by
  unfold Store.deliveriesFor Store.getDelivery
  rw [List.mem_filter,List.mem_map]
  simp only [InsertionMap.get_eq_some,decide_eq_true_eq]
  constructor
  · rintro ⟨⟨e,he,rfl⟩,hpair⟩
    exact ⟨⟨e.1,he⟩,hpair⟩
  · rintro ⟨⟨id,hid⟩,hpair⟩
    exact ⟨⟨_,hid,rfl⟩,hpair⟩

theorem live_not_dead {row : Delivery} (h : Live row) :
    row.status ≠ .deadLetter ∧ row.status ≠ .delivered := by
  rcases h with hqueued | hfailed
  · simp [hqueued]
  · simp [hfailed]

/-- With one live delivery for an event, the unique index is not violated. -/
theorem Inv.unviolated (h : Inv backend config s) (st : OutboundWebhooks.Step δ) :
    Unviolated s st := by
  unfold Unviolated
  split
  · intro h' hh delivery attempt next hphase
    obtain ⟨job,phase⟩ := h'
    cases hphase
    obtain ⟨row,hrow,hopen,rfl,-⟩ := h.coupled.row_of hh
    unfold Postgres.conflicts
    rw [decide_eq_false_iff_not]
    rintro ⟨-,hany⟩
    obtain ⟨other,hother,hboth⟩ := List.any_eq_true.mp hany
    obtain ⟨⟨id,hid⟩,hsubscription,hevent⟩ := mem_deliveriesFor.mp hother
    simp only [decide_eq_true_eq] at hboth
    have hsame := h.alone _ _ _ _ hrow hid hsubscription.symm hevent.symm
      (live_not_dead hopen.live).1 (by rw [hboth.2]; simp)
    apply hboth.1
    rw [h.coupled.keyed _ _ hid,h.coupled.keyed _ _ hrow,hsame]
  · trivial

/-! ## Which rows are new -/

theorem create_new {i : ℕ} {call : ScheduleCall} {input : CreateDeliveryInput WebhookPayload}
    {rest : List OutboundWebhookSubscription} {uuid id : String} {row : Delivery}
    (hnone : s.store.getDelivery id = none)
    (hrow : (s.create i call input rest uuid now).store.getDelivery id = some row) :
    id = uuid ∧ row.subscriptionId = input.subscriptionId ∧ row.eventId = input.eventId := by
  unfold Dispatcher.create at hrow
  split at hrow
  · rw [hnone] at hrow
    cases hrow
  · rcases Store.getDelivery_put_cases hrow with ⟨rfl,rfl⟩ | ⟨-,hold⟩
    · exact ⟨rfl,rfl,rfl⟩
    · rw [hnone] at hold
      cases hold

theorem proceed_new {i : ℕ} {uuid : String} {pick : ℕ} {id : String} {row : Delivery}
    (hnone : s.store.getDelivery id = none)
    (hrow : (s.proceed backend config now i uuid pick).store.getDelivery id = some row) :
    id = uuid ∧ ∃ call ∈ s.calls[i]?,
      toCreate backend s call pick = some (row.subscriptionId,row.eventId) := by
  have habsent : s.store.getDelivery id ≠ some row := by
    rw [hnone]
    simp
  revert hrow
  refine proceed_cases (fun hrow => (habsent hrow).elim) ?_ ?_ ?_
  · intro call phase _ _ _ hrow
    exact (habsent hrow).elim
  · intro call input rest hi _ hwhy hrow
    obtain ⟨hid,hsubscription,hevent⟩ := create_new hnone hrow
    refine ⟨hid,call,hi,?_⟩
    rcases hwhy with hphase | ⟨subscription,reply,hphase,rfl,hmemory,hstatus⟩
    · simp only [toCreate,hphase]
      rw [hsubscription,hevent]
    · simp only [toCreate,hphase]
      rw [if_pos ⟨hmemory,hstatus⟩,hsubscription,hevent]
      rfl
  · intro call delivery rest _ _ hrow
    exact (habsent hrow).elim

/-- The rows belong to the jobs and the calls. -/
theorem rows_of_frame {s' : Dispatcher δ} (h : Coupled False backend config s)
    (h' : Coupled False backend config s')
    (hframe : ∃ store handler posts, s' = { s with store, handler, posts })
    {id : String} (hnone : s.store.getDelivery id = none) : s'.store.getDelivery id = none := by
  obtain ⟨store,handler,posts,rfl⟩ := hframe
  have hkeys := h'.ids.symm.trans h.ids
  cases hrow : store.getDelivery id with
  | none => rfl
  | some row =>
      have hmem : id ∈ store.deliveries.keys :=
        InsertionMap.mem_keys.mpr (Option.isSome_iff_exists.mpr ⟨row,hrow⟩)
      rw [hkeys.mem_iff,InsertionMap.mem_keys,
        show s.store.deliveries.get id = none from hnone] at hmem
      cases hmem

/-- Only `scheduleEvent` adds a row. -/
theorem step_new (h : Coupled False backend config s) {st : OutboundWebhooks.Step δ}
    (hg : Unviolated s st) {id : String} {row : Delivery} (hnone : s.store.getDelivery id = none)
    (hrow : (s.step backend config st).store.getDelivery id = some row) :
    ∃ i pick, st.action = .proceed i id pick ∧ ∃ call ∈ s.calls[i]?,
      toCreate backend s call pick = some (row.subscriptionId,row.eventId) := by
  have h' := Coupled.step s st h hg False.elim
  have habsent : s.store.getDelivery id ≠ some row := by
    rw [hnone]
    simp
  obtain ⟨now,action⟩ := st
  cases action with
  | queue action =>
      rw [Dispatcher.step,stepQueue_store] at hrow
      exact (habsent hrow).elim
  | subscribe url eventTypes secretRef uuid => exact (habsent hrow).elim
  | schedule event => exact (habsent hrow).elim
  | proceed i uuid pick =>
      obtain ⟨rfl,hcall⟩ := proceed_new hnone hrow
      exact ⟨i,pick,rfl,hcall⟩
  | handle =>
      obtain ⟨store,handler,hframe⟩ := handle_frame backend config s now
      rw [rows_of_frame h h' ⟨store,handler,s.posts,hframe⟩ hnone] at hrow
      cases hrow
  | answer | fail | failUnprintable =>
      rw [rows_of_frame h h' (settlePost_frame backend config s now _ _ _) hnone] at hrow
      cases hrow
  | collect =>
      rw [Dispatcher.step,collect_store] at hrow
      exact (habsent hrow).elim

/-- Where a row comes from. -/
theorem row_origin (h : Coupled False backend config s) {st : OutboundWebhooks.Step δ}
    (hg : Unviolated s st) {id : String} {row : Delivery}
    (hrow : (s.step backend config st).store.getDelivery id = some row) :
    (∃ row₀, s.store.getDelivery id = some row₀ ∧ Kept row₀ row) ∨
      ∃ i pick, st.action = .proceed i id pick ∧ ∃ call ∈ s.calls[i]?,
        toCreate backend s call pick = some (row.subscriptionId,row.eventId) := by
  cases hold : s.store.getDelivery id with
  | none => exact .inr (step_new h hg hold hrow)
  | some row₀ =>
      obtain ⟨row',hrow',hkept⟩ := h.step_row hg hold
      cases hrow'.symm.trans hrow
      exact .inl ⟨row₀,rfl,hkept⟩

theorem kept_live {row row' : Delivery} (h : Kept row row') (hlive : row'.status ≠ .deadLetter) :
    row.status ≠ .deadLetter ∧ row'.subscriptionId = row.subscriptionId ∧
      row'.eventId = row.eventId := by
  rcases h with rfl | ⟨hlive₀,hsubscription,hevent⟩
  · exact ⟨hlive,rfl,rfl⟩
  · exact ⟨(live_not_dead hlive₀).1,hsubscription,hevent⟩

theorem Inv.alone_step (h : Inv backend config s) {st : OutboundWebhooks.Step δ}
    (hg : Alone backend s st) {id id' : String} {row row' : Delivery}
    (hrow : (s.step backend config st).store.getDelivery id = some row)
    (hrow' : (s.step backend config st).store.getDelivery id' = some row')
    (hsubscription : row.subscriptionId = row'.subscriptionId)
    (hevent : row.eventId = row'.eventId) (hlive : row.status ≠ .deadLetter)
    (hlive' : row'.status ≠ .deadLetter) : id = id' := by
  have hun := h.unviolated st
  have hdead : ∀ (i : ℕ) (uuid : String) (pick : ℕ), st.action = .proceed i uuid pick →
      ∀ call ∈ s.calls[i]?, toCreate backend s call pick = some (row.subscriptionId,row.eventId) →
      ∀ row₀ : Delivery, (∃ id₀, s.store.getDelivery id₀ = some row₀) →
      row₀.subscriptionId = row.subscriptionId → row₀.eventId = row.eventId →
      row₀.status = .deadLetter := by
    intro i uuid pick haction call hcall hcreate row₀ hrow₀ hsubscription₀ hevent₀
    unfold Alone at hg
    rw [haction] at hg
    exact hg call hcall _ hcreate row₀ (mem_deliveriesFor.mpr ⟨hrow₀,hsubscription₀,hevent₀⟩)
  rcases row_origin h.coupled hun hrow with ⟨row₀,hrow₀,hkept⟩ | ⟨i,pick,haction,call,hcall,hcreate⟩
  · obtain ⟨hlive₀,hsubscription₀,hevent₀⟩ := kept_live hkept hlive
    rcases row_origin h.coupled hun hrow' with
      ⟨row₁,hrow₁,hkept'⟩ | ⟨i,pick,haction,call,hcall,hcreate⟩
    · obtain ⟨hlive₁,hsubscription₁,hevent₁⟩ := kept_live hkept' hlive'
      exact h.alone id id' row₀ row₁ hrow₀ hrow₁
        (hsubscription₀.symm.trans (hsubscription.trans hsubscription₁))
        (hevent₀.symm.trans (hevent.trans hevent₁)) hlive₀ hlive₁
    · rw [← hsubscription,← hevent] at hcreate
      exact (hlive₀ (hdead i id' pick haction call hcall hcreate row₀ ⟨id,hrow₀⟩
        hsubscription₀.symm hevent₀.symm)).elim
  · rcases row_origin h.coupled hun hrow' with
      ⟨row₁,hrow₁,hkept'⟩ | ⟨i',pick',haction',-⟩
    · obtain ⟨hlive₁,hsubscription₁,hevent₁⟩ := kept_live hkept' hlive'
      exact (hlive₁ (hdead i id pick haction call hcall hcreate row₁ ⟨id',hrow₁⟩
        (hsubscription₁.symm.trans hsubscription.symm) (hevent₁.symm.trans hevent.symm))).elim
    · rw [haction] at haction'
      cases haction'
      rfl

/-! ## The handler and its POSTs -/

@[simp] theorem launch_posts (s : Dispatcher δ) : (s.launch backend).posts = s.posts := by
  obtain ⟨handler,hframe⟩ := launch_frame backend s
  rw [hframe]

/-- A handler in progress is left alone. -/
theorem launch_handler {h : Handler δ} (hh : s.handler = some h) :
    (s.launch backend).handler = some h := by
  unfold Dispatcher.launch
  split
  · rename_i hnone _
    rw [hh] at hnone
    cases hnone
  · exact hh

/-- A handler just called has posted nothing. -/
theorem launch_posting {job : Job (Payload δ)} {delivery : Delivery}
    (hh : (s.launch backend).handler = some ⟨job,.posting delivery⟩) :
    s.handler = some ⟨job,.posting delivery⟩ := by
  unfold Dispatcher.launch at hh
  split at hh
  · split at hh
    · cases hh
    · exact hh
  · exact hh

theorem proceed_handler (s : Dispatcher δ) (i : ℕ) (uuid : String) (pick : ℕ) :
    (s.proceed backend config now i uuid pick).handler = s.handler ∧
      (s.proceed backend config now i uuid pick).posts = s.posts := by
  refine proceed_cases ⟨rfl,rfl⟩ ?_ ?_ ?_
  · intro call phase _ _ _
    exact ⟨rfl,rfl⟩
  · intro call input rest _ _ _
    obtain ⟨store,calls,hframe⟩ := create_frame s i call input rest uuid now
    rw [hframe]
    exact ⟨rfl,rfl⟩
  · intro call delivery rest _ _
    exact ⟨rfl,rfl⟩

/-- A step that is not the handler's keeps the handler, if there is one. -/
theorem step_handler {h : Handler δ} (hh : s.handler = some h) {st : OutboundWebhooks.Step δ}
    (hhandle : st.action ≠ .handle) (hposting : ∀ delivery, h.phase ≠ .posting delivery)
    (hfinished : ∀ outcome, h.phase ≠ .finished outcome) :
    (s.step backend config st).handler = some h := by
  obtain ⟨now,action⟩ := st
  obtain ⟨job,phase⟩ := h
  have hpost : ∀ attempt success arrived,
      (s.settlePost backend config now attempt success arrived).handler = some ⟨job,phase⟩ := by
    intro attempt success arrived
    unfold Dispatcher.settlePost
    split
    · rename_i hh'
      rw [hh] at hh'
      cases hh'
      exact (hposting _ rfl).elim
    · exact hh
  cases action with
  | queue action =>
      simp only [Dispatcher.step,Dispatcher.stepQueue]
      split
      · exact launch_handler hh
      · exact hh
  | subscribe url eventTypes secretRef uuid => exact hh
  | schedule event => exact hh
  | proceed i uuid pick => exact (proceed_handler s i uuid pick).1.trans hh
  | handle => exact (hhandle rfl).elim
  | answer | fail | failUnprintable => exact hpost _ _ _
  | collect =>
      simp only [Dispatcher.step,Dispatcher.collect]
      split
      · rename_i hh'
        rw [hh] at hh'
        cases hh'
        exact (hfinished _ rfl).elim
      · exact hh

theorem kept_pair {row row' : Delivery} (h : Kept row row') :
    row'.subscriptionId = row.subscriptionId ∧ row'.eventId = row.eventId := by
  rcases h with rfl | ⟨-,hpair⟩
  · exact ⟨rfl,rfl⟩
  · exact hpair

/-- A success that is about to be recorded is recorded in the end. -/
theorem Inv.accepting_step (h : Inv backend config s) {h' : Handler δ} (hh : s.handler = some h')
    (haccepting : accepting h'.phase = true) (st : OutboundWebhooks.Step δ) {row' : Delivery}
    (hrow' : (s.step backend config st).store.getDelivery (deliveryId h'.job) = some row') :
    row'.status = .delivered ∨ ∃ h'', (s.step backend config st).handler = some h'' ∧
      deliveryId h''.job = deliveryId h'.job ∧ accepting h''.phase = true := by
  have hun := h.unviolated st
  by_cases hhandle : st.action = .handle
  · obtain ⟨now,action⟩ := st
    cases hhandle
    obtain ⟨job,phase⟩ := h'
    obtain ⟨row,hrow,hfits⟩ := h.coupled.row_of hh
    have hid : row.id = deliveryId job := h.coupled.keyed _ row hrow
    cases phase with
    | getting _ | posting _ | recorded _ _ _ | finished _ => cases haccepting
    | reading delivery attempt patch =>
        obtain ⟨-,rfl,-⟩ := hfits
        cases attempt with
        | refused _ | unprintable => cases haccepting
        | accepted status =>
            right
            simp only [Dispatcher.step,Dispatcher.handle,hh,hid,hrow]
            exact ⟨_,rfl,rfl,rfl⟩
    | writing delivery attempt next =>
        obtain ⟨-,rfl,-,now',patch,hpatch,rfl⟩ := hfits
        cases attempt with
        | refused _ | unprintable => cases haccepting
        | accepted status =>
            left
            have hfree := hun _ hh _ _ _ rfl
            simp only [Dispatcher.step,Dispatcher.handle,hh,Postgres.write,hid,hrow,hfree] at hrow'
            have hself := Store.getDelivery_put_self s.store
              (Postgres.written delivery (Postgres.nextColumns delivery patch) now)
            rw [show (Postgres.written delivery (Postgres.nextColumns delivery patch) now).id =
              deliveryId job from hid] at hself
            cases hself.symm.trans hrow'
            exact recorded_written delivery delivery hpatch now
  · right
    refine ⟨h',step_handler hh hhandle ?_ ?_,rfl,haccepting⟩
    · intro delivery hphase
      rw [hphase] at haccepting
      cases haccepting
    · intro outcome hphase
      rw [hphase] at haccepting
      cases haccepting

theorem Inv.known_step (h : Inv backend config s) {p : Post} (hp : Known s p)
    (st : OutboundWebhooks.Step δ) : Known (s.step backend config st) p := by
  obtain ⟨id,row,hrow,hsubscription,hevent,hstatus⟩ := hp
  obtain ⟨row',hrow',hkept⟩ := h.coupled.step_row (h.unviolated st) hrow
  obtain ⟨hsubscription',hevent'⟩ := kept_pair hkept
  refine ⟨id,row',hrow',hsubscription'.trans hsubscription,hevent'.trans hevent,?_⟩
  rcases hstatus with hdelivered | ⟨h',hh,rfl,haccepting⟩
  · rcases hkept with rfl | ⟨hlive,-⟩
    · exact .inl hdelivered
    · exact ((live_not_dead hlive).2 hdelivered).elim
  · exact h.accepting_step hh haccepting st hrow'

theorem startUpdate_posting (s : Dispatcher δ) (job : Job (Payload δ)) (delivery : Delivery)
    (attempt : Attempt) (job' : Job (Payload δ)) (delivery' : Delivery) :
    (s.startUpdate backend config job delivery attempt now).handler ≠
      some ⟨job',.posting delivery'⟩ := by
  unfold Dispatcher.startUpdate
  split
  · intro hh
    cases hh
  · split
    · split
      · intro hh
        cases hh
      · intro hh
        cases hh
    · intro hh
      cases hh

/-- A POST is sent for the row that was asked for. -/
theorem handle_posting {job' : Job (Payload δ)} {delivery' : Delivery}
    (hposting : (s.handle backend config now).handler = some ⟨job',.posting delivery'⟩) :
    s.handler = some ⟨job',.posting delivery'⟩ ∨ toPost s = some delivery' := by
  cases hh : s.handler with
  | none =>
      simp only [Dispatcher.handle,hh] at hposting
      cases hposting
  | some h' =>
      obtain ⟨job,phase⟩ := h'
      cases phase with
      | getting reply =>
          simp only [Dispatcher.handle,hh] at hposting
          simp only [toPost,hh]
          cases hread : reply.read (s.store.getDelivery (deliveryId job)) with
          | none =>
              rw [hread] at hposting
              cases hposting
          | some delivery =>
              rw [hread] at hposting
              cases hposting
              exact .inr rfl
      | posting delivery =>
          simp only [Dispatcher.handle,hh] at hposting
          exact .inl hposting
      | reading delivery attempt patch =>
          simp only [Dispatcher.handle,hh] at hposting
          split at hposting <;> cases hposting
      | writing delivery attempt next =>
          simp only [Dispatcher.handle,hh] at hposting
          split at hposting <;> cases hposting
      | recorded delivery attempt error =>
          simp only [Dispatcher.handle,hh] at hposting
          split at hposting
          · cases hposting
          · exact (startUpdate_posting s job delivery _ job' delivery' hposting).elim
          · cases hposting
          · cases hposting
          · cases hposting
          · cases hposting
      | finished outcome =>
          simp only [Dispatcher.handle,hh] at hposting
          cases hposting

/-- What a POST that is answered leaves behind. -/
theorem settlePost_of_posting {job : Job (Payload δ)} {delivery : Delivery}
    (hh : s.handler = some ⟨job,.posting delivery⟩) (attempt : Attempt) (success arrived : Bool) :
    s.settlePost backend config now attempt success arrived =
      { s with posts := s.posts ++ post delivery success arrived }.startUpdate backend config job
        delivery attempt now := by
  unfold Dispatcher.settlePost
  rw [hh]

theorem settlePost_of_not {attempt : Attempt} {success arrived : Bool}
    (hnot : ∀ job delivery, s.handler ≠ some ⟨job,.posting delivery⟩) :
    s.settlePost backend config now attempt success arrived = s := by
  unfold Dispatcher.settlePost
  split
  · rename_i hh
    exact (hnot _ _ hh).elim
  · rfl

/-- The step is the end of a POST. -/
def isAnswer (st : OutboundWebhooks.Step δ) : Bool :=
  match st.action with
  | .answer _ => true
  | .fail _ _ => true
  | .failUnprintable _ => true
  | _ => false

/-- Any other step answers no POST, and only the handler's own sends one. -/
theorem step_quiet {st : OutboundWebhooks.Step δ} (hquiet : isAnswer st = false) :
    (s.step backend config st).posts = s.posts ∧
      ∀ job delivery, (s.step backend config st).handler = some ⟨job,.posting delivery⟩ →
        s.handler = some ⟨job,.posting delivery⟩ ∨
          st.action = .handle ∧ toPost s = some delivery := by
  obtain ⟨now,action⟩ := st
  cases action with
  | queue action =>
      simp only [Dispatcher.step,Dispatcher.stepQueue]
      split
      · refine ⟨launch_posts _,?_⟩
        intro job delivery hh
        have hsame := launch_posting hh
        exact .inl hsame
      · exact ⟨rfl,fun _ _ hh => .inl hh⟩
  | subscribe url eventTypes secretRef uuid => exact ⟨rfl,fun _ _ hh => .inl hh⟩
  | schedule event => exact ⟨rfl,fun _ _ hh => .inl hh⟩
  | proceed i uuid pick =>
      obtain ⟨hhandler,hposts⟩ : (s.proceed backend config now i uuid pick).handler = s.handler ∧
        (s.proceed backend config now i uuid pick).posts = s.posts := proceed_handler s i uuid pick
      exact ⟨hposts,fun _ _ hh => .inl (hhandler.symm.trans hh)⟩
  | handle =>
      obtain ⟨store,handler,hframe⟩ := handle_frame backend config s now
      have hposts : (s.handle backend config now).posts = s.posts := by rw [hframe]
      refine ⟨hposts,?_⟩
      intro job delivery hh
      rcases handle_posting hh with hsame | hpost
      · exact .inl hsame
      · exact .inr ⟨rfl,hpost⟩
  | answer | fail | failUnprintable => cases hquiet
  | collect =>
      simp only [Dispatcher.step,Dispatcher.collect]
      split
      · refine ⟨launch_posts _,?_⟩
        intro job delivery hh
        cases launch_posting hh
      · exact ⟨rfl,fun _ _ hh => .inl hh⟩

theorem Inv.not_posted (h : Inv backend config s) {job : Job (Payload δ)} {delivery : Delivery}
    (hh : s.handler = some ⟨job,.posting delivery⟩) :
    (delivery.subscriptionId,delivery.eventId) ∉ s.posts.map pair := by
  intro hmem
  obtain ⟨p,hp,hpair⟩ := List.mem_map.mp hmem
  have hsubscription : p.subscriptionId = delivery.subscriptionId := congrArg Prod.fst hpair
  have hevent : p.eventId = delivery.eventId := congrArg Prod.snd hpair
  obtain ⟨row,hrow,hopen,rfl⟩ := h.coupled.row_of hh
  obtain ⟨hlive,hundelivered⟩ := live_not_dead hopen.live
  cases harrived : p.arrived with
  | false =>
      apply h.inFlight job delivery hh
      unfold Lost
      rw [← hsubscription,← hevent,← harrived]
      exact hp
  | true =>
      obtain ⟨id,row,hrow',hsubscription',hevent',hdelivered | ⟨h',hh',-,haccepting⟩⟩ :=
        h.known p hp harrived
      · have hsame := h.alone _ _ _ _ hrow hrow' (hsubscription.symm.trans hsubscription'.symm)
          (hevent.symm.trans hevent'.symm) hlive (by rw [hdelivered]; simp)
        rw [← hsame,hrow] at hrow'
        cases hrow'
        exact hundelivered hdelivered
      · rw [hh] at hh'
        cases hh'
        cases haccepting

/-- A success that arrives is recorded at once, or about to be. -/
theorem Inv.known_post (h : Inv backend config s) {job : Job (Payload δ)} {delivery : Delivery}
    (hh : s.handler = some ⟨job,.posting delivery⟩) (status : ℕ) (posts : List Post)
    (arrived : Bool) :
    Known ({ s with posts }.startUpdate backend config job delivery (.accepted status) now)
      ⟨delivery.subscriptionId,delivery.eventId,arrived⟩ := by
  obtain ⟨row,hrow,hopen,rfl⟩ := h.coupled.row_of hh
  have hid : delivery.id = deliveryId job := h.coupled.keyed _ _ hrow
  unfold Dispatcher.startUpdate
  split
  · rename_i hpatch
    cases hpatch
  · rename_i patch hpatch
    cases backend with
    | memory =>
        simp only [InMemory.updateDelivery,hid,hrow,Option.map_some]
        exact ⟨delivery.id,_,Store.getDelivery_put_self s.store _,rfl,rfl,
          .inl (recorded_patched delivery hpatch now)⟩
    | postgres => exact ⟨deliveryId job,delivery,hrow,rfl,rfl,.inr ⟨_,rfl,rfl,rfl⟩⟩

theorem Inv.answered (h : Inv backend config s) {st : OutboundWebhooks.Step δ} {now : ℤ}
    {attempt : Attempt} {success arrived : Bool}
    (hstep : s.step backend config st =
      s.settlePost backend config now attempt success arrived)
    (haccepted : arrived = true → success = true → ∃ status, attempt = .accepted status)
    {job : Job (Payload δ)} {delivery : Delivery}
    (hh : s.handler = some ⟨job,.posting delivery⟩) (hg : Alone backend s st) :
    Inv backend config (s.step backend config st) := by
  have hsettled : s.settlePost backend config now attempt success arrived = _ :=
    settlePost_of_posting hh attempt success arrived
  have hposts : (s.step backend config st).posts = s.posts ++ post delivery success arrived := by
    obtain ⟨store,handler,hframe⟩ := startUpdate_frame backend config
      { s with posts := s.posts ++ post delivery success arrived } job delivery attempt now
    rw [hstep,hsettled,hframe]
  constructor
  · exact Coupled.step s st h.coupled (h.unviolated st) False.elim
  · intro id id' row row' hrow hrow'
    exact h.alone_step hg hrow hrow'
  · intro p hp harrived
    rw [hposts] at hp
    rcases List.mem_append.mp hp with hold | hnew
    · exact h.known_step (h.known p hold harrived) st
    · unfold post at hnew
      split at hnew
      · rename_i hsuccess
        rw [List.mem_singleton] at hnew
        subst hnew
        obtain ⟨status,rfl⟩ := haccepted harrived hsuccess
        rw [hstep,hsettled]
        exact h.known_post hh status _ _
      · cases hnew
  · intro job' delivery' hh'
    rw [hstep,hsettled] at hh'
    exact (startUpdate_posting _ _ _ _ job' delivery' hh').elim
  · unfold SentOnce
    rw [hposts,List.map_append]
    unfold post
    split
    · rw [List.map_singleton,← List.concat_eq_append]
      exact h.once.concat (h.not_posted hh)
    · rw [List.map_nil,List.append_nil]
      exact h.once

theorem Inv.quiet (h : Inv backend config s) {st : OutboundWebhooks.Step δ}
    (hquiet : isAnswer st = false) (hg : Alone backend s st) :
    Inv backend config (s.step backend config st) := by
  obtain ⟨hposts,hposting⟩ : (s.step backend config st).posts = s.posts ∧ _ := step_quiet hquiet
  constructor
  · exact Coupled.step s st h.coupled (h.unviolated st) False.elim
  · intro id id' row row' hrow hrow'
    exact h.alone_step hg hrow hrow'
  · intro p hp harrived
    rw [hposts] at hp
    exact h.known_step (h.known p hp harrived) st
  · intro job delivery hh
    unfold Lost
    rw [hposts]
    rcases hposting job delivery hh with hsame | ⟨haction,hpost⟩
    · exact h.inFlight job delivery hsame
    · unfold Alone at hg
      rw [haction] at hg
      exact hg delivery hpost
  · unfold SentOnce
    rw [hposts]
    exact h.once

theorem Inv.step (s : Dispatcher δ) (st : OutboundWebhooks.Step δ) (h : Inv backend config s)
    (hg : Alone backend s st) : Inv backend config (s.step backend config st) := by
  have hends : ∀ now attempt success arrived,
      s.step backend config st = s.settlePost backend config now attempt success arrived →
      (arrived = true → success = true → ∃ status, attempt = .accepted status) →
      Inv backend config (s.step backend config st) := by
    intro now attempt success arrived hstep haccepted
    by_cases hposting : ∃ job delivery, s.handler = some ⟨job,.posting delivery⟩
    · obtain ⟨job,delivery,hh⟩ := hposting
      exact h.answered hstep haccepted hh hg
    · rw [hstep,settlePost_of_not (fun job delivery hh => hposting ⟨job,delivery,hh⟩)]
      exact h
  obtain ⟨now,action⟩ := st
  cases action with
  | answer response =>
      apply hends now (deliver response) response.ok true rfl
      intro _ hok
      exact ⟨response.status,if_pos hok⟩
  | fail message reached =>
      apply hends now (.refused message) reached false rfl
      intro hfalse
      cases hfalse
  | failUnprintable reached =>
      apply hends now .unprintable reached false rfl
      intro hfalse
      cases hfalse
  | queue | subscribe | schedule | proceed | handle | collect => exact h.quiet rfl hg

/-- Along every run that creates deliveries alone, with either store, each event
reaches each subscription at most once. -/
theorem sent_once_of_alone (backend : Backend) (config : Config)
    (steps : List (OutboundWebhooks.Step δ))
    (hg : Guarded (Dispatcher.step backend config) (Alone backend) {} steps)
    {pre : List (OutboundWebhooks.Step δ)} (hpre : pre <+: steps) :
    SentOnce (run (Dispatcher.step backend config) {} pre) := by
  have hinv : Inv backend config (run (Dispatcher.step backend config) {} pre) :=
    run_invariant_passed Inv.step (inv_new backend config) hg hpre
  exact hinv.once

def confirmed : CreditDomainEvent := ⟨.drawConfirmed,"2026-07-09T00:00:00.000Z","line-1",[]⟩

def subscribed : List (OutboundWebhooks.Step Unit) :=
  [⟨0,.subscribe "https://a.example/hook" ["credit.draw_confirmed"] "WEBHOOK_SECRET" "s1"⟩,
    ⟨0,.queue .start⟩]

/-- The event is handed in again after its only delivery was given up, and once
more after the second one was delivered. -/
def handedInAgain : List (OutboundWebhooks.Step Unit) :=
  subscribed ++
  [⟨1,.schedule confirmed⟩,⟨1,.proceed 0 "" 0⟩,⟨1,.proceed 0 "" 0⟩,⟨1,.proceed 0 "d1" 0⟩,
    ⟨1,.proceed 0 "" 0⟩,⟨51,.queue .fire⟩,⟨51,.handle⟩,
    ⟨60,.answer ⟨503,"Service Unavailable"⟩⟩,⟨60,.handle⟩,⟨60,.handle⟩,⟨60,.handle⟩,⟨60,.collect⟩,
    ⟨60,.queue (.resume 0)⟩,
    ⟨70,.schedule confirmed⟩,⟨70,.proceed 1 "" 0⟩,⟨70,.proceed 1 "" 0⟩,⟨70,.proceed 1 "d2" 0⟩,
    ⟨70,.proceed 1 "" 0⟩,⟨120,.queue .fire⟩,⟨120,.handle⟩,⟨130,.answer ⟨200,"OK"⟩⟩,
    ⟨130,.handle⟩,⟨130,.handle⟩,⟨130,.handle⟩,⟨130,.collect⟩,
    ⟨140,.schedule confirmed⟩,⟨140,.proceed 2 "" 0⟩,⟨140,.proceed 2 "" 0⟩]

theorem sent_once_of_alone_handed_in_again :
    Guarded (Dispatcher.step .postgres ⟨1,1000,500⟩) (Alone .postgres) {} handedInAgain ∧
    (run (Dispatcher.step .postgres ⟨1,1000,500⟩) {} handedInAgain).posts.length = 1 ∧
    SentOnce (run (Dispatcher.step .postgres ⟨1,1000,500⟩) {} handedInAgain) := by
  have hguarded : Guarded (Dispatcher.step .postgres ⟨1,1000,500⟩) (Alone .postgres) {}
      handedInAgain := by decide +kernel
  exact ⟨hguarded,by decide +kernel,
    sent_once_of_alone .postgres ⟨1,1000,500⟩ handedInAgain hguarded (List.prefix_refl _)⟩

/-- With the in-memory store and with the tables: the event is handed in twice
before its first delivery is made. In memory, one after the other: the oldest
delivery was given up and hides the one that succeeded. With either, a retry
after an answer was lost. -/
theorem event_handed_in_twice_is_sent_twice :
    ¬ SentOnce (run (Dispatcher.step .memory ⟨3,1000,500⟩) {} (subscribed ++
      [⟨1,.schedule confirmed⟩,⟨1,.schedule confirmed⟩,⟨1,.proceed 0 "" 0⟩,⟨1,.proceed 1 "" 0⟩,
        ⟨1,.proceed 0 "d1" 0⟩,⟨1,.proceed 1 "d2" 0⟩,⟨1,.proceed 0 "" 0⟩,⟨1,.proceed 1 "" 0⟩,
        ⟨51,.queue .fire⟩,⟨51,.handle⟩,⟨60,.answer ⟨200,"OK"⟩⟩,⟨60,.handle⟩,⟨60,.collect⟩,
        ⟨60,.handle⟩,⟨70,.answer ⟨200,"OK"⟩⟩])) ∧
    ¬ SentOnce (run (Dispatcher.step .postgres ⟨3,1000,500⟩) {} (subscribed ++
      [⟨1,.schedule confirmed⟩,⟨1,.schedule confirmed⟩,⟨1,.proceed 0 "" 0⟩,⟨1,.proceed 1 "" 0⟩,
        ⟨1,.proceed 0 "" 0⟩,⟨1,.proceed 1 "" 0⟩,⟨1,.proceed 0 "d1" 0⟩,⟨1,.proceed 1 "d2" 0⟩,
        ⟨1,.proceed 0 "" 0⟩,⟨1,.proceed 1 "" 0⟩,⟨51,.queue .fire⟩,⟨51,.handle⟩,
        ⟨60,.answer ⟨200,"OK"⟩⟩,⟨60,.handle⟩,⟨60,.handle⟩,⟨60,.handle⟩,⟨60,.collect⟩,⟨60,.handle⟩,
        ⟨70,.answer ⟨200,"OK"⟩⟩])) ∧
    ¬ SentOnce (run (Dispatcher.step .memory ⟨1,1000,500⟩) {} (subscribed ++
      [⟨1,.schedule confirmed⟩,⟨1,.proceed 0 "" 0⟩,⟨1,.proceed 0 "d1" 0⟩,⟨1,.proceed 0 "" 0⟩,
        ⟨51,.queue .fire⟩,⟨51,.handle⟩,⟨60,.answer ⟨503,"Service Unavailable"⟩⟩,⟨60,.handle⟩,
        ⟨60,.collect⟩,⟨60,.queue (.resume 0)⟩,⟨70,.schedule confirmed⟩,⟨70,.proceed 1 "" 0⟩,
        ⟨70,.proceed 1 "d2" 0⟩,⟨70,.proceed 1 "" 0⟩,⟨120,.queue .fire⟩,⟨120,.handle⟩,
        ⟨130,.answer ⟨200,"OK"⟩⟩,⟨130,.handle⟩,⟨130,.collect⟩,⟨130,.queue (.resume 0)⟩,
        ⟨140,.schedule confirmed⟩,⟨140,.proceed 2 "" 0⟩,⟨140,.proceed 2 "d3" 0⟩,
        ⟨140,.proceed 2 "" 0⟩,⟨190,.queue .fire⟩,⟨190,.handle⟩,⟨200,.answer ⟨200,"OK"⟩⟩])) ∧
    ¬ SentOnce (run (Dispatcher.step .memory ⟨3,1000,500⟩) {} (subscribed ++
      [⟨1,.schedule confirmed⟩,⟨1,.proceed 0 "" 0⟩,⟨1,.proceed 0 "d1" 0⟩,⟨1,.proceed 0 "" 0⟩,
        ⟨51,.queue .fire⟩,⟨51,.handle⟩,⟨5051,.fail "This operation was aborted" true⟩,
        ⟨5051,.handle⟩,⟨5051,.collect⟩,⟨5051,.queue (.resume 0)⟩,⟨5601,.queue .fire⟩,⟨5601,.handle⟩,
        ⟨5610,.answer ⟨200,"OK"⟩⟩])) := by
  decide +kernel

end Creditra.OutboundOnce
