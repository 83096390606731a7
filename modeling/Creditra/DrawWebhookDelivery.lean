import Creditra.DrawWebhooks

/-!
# Each draw is delivered once to each URL

The store is asked when a delivery starts and told when it settles; in between
lie all its attempts. A second delivery under the same key that starts in this
interval is not skipped. The invariant below holds as long as none does: under
each key at most one delivery is open, and what its receiver has answered is
then either recorded or still to be recorded by that one.

As the module stands no attempt makes a request, and no draw reaches any URL.
-/
namespace Creditra.DrawWebhookDelivery
open GuardedRuns InsertionMaps JsonValues HorizonListener DrawWebhooks

/-- Draw and URL of a POST. -/
def pair (p : Post) : String × String := (p.drawId,p.url)

/-- No draw was posted twice with success to one URL. -/
def DeliveredOnce (s : Sender) : Prop := (s.posts.map pair).Nodup

instance (s : Sender) : Decidable (DeliveredOnce s) := by
  unfold DeliveredOnce
  infer_instance

/-- A POST for the draw reached the URL, and its answer was lost. -/
def Lost (s : Sender) (drawId url : String) : Prop := ⟨drawId,url,false⟩ ∈ s.posts

instance (s : Sender) (drawId url : String) : Decidable (Lost s drawId url) := by
  unfold Lost
  infer_instance

/-- A delivery under this key has not settled. -/
def Pending (s : Sender) (drawId url : String) : Prop :=
  ∃ d ∈ s.deliveries, d.phase.isOpen = true ∧ key d.drawId d.url = key drawId url

instance (s : Sender) (drawId url : String) : Decidable (Pending s drawId url) := by
  unfold Pending
  infer_instance

/-- A first POST is made only where no delivery is pending, and none is made
after an answer was lost. -/
def Alone (jsonParse : String → Option Json) (activeConfig : Option WebhookConfig) (s : Sender) :
    Step → Prop
  | .call event _ => ∀ drawId ∈ drawText jsonParse event, ∀ config ∈ activeConfig,
      ∀ url ∈ config.urls, isDelivered s.store drawId url = false →
        ¬ Pending s drawId url ∧ ¬ Lost s drawId url
  | .wake i => ∀ d ∈ s.deliveries[i]?, ¬ Lost s d.drawId d.url
  | _ => True

instance (jsonParse : String → Option Json) (activeConfig : Option WebhookConfig) (s : Sender) :
    (st : Step) → Decidable (Alone jsonParse activeConfig s st)
  | .call event _ => inferInstanceAs (Decidable (∀ drawId ∈ drawText jsonParse event,
      ∀ config ∈ activeConfig, ∀ url ∈ config.urls, isDelivered s.store drawId url = false →
        ¬ Pending s drawId url ∧ ¬ Lost s drawId url))
  | .wake i => inferInstanceAs (Decidable (∀ d ∈ s.deliveries[i]?, ¬ Lost s d.drawId d.url))
  | .answer _ _ | .fail _ _ _ | .record _ _ _ => inferInstanceAs (Decidable True)

/-- One open delivery for a key, which then is not recorded as delivered; every
success is known to the store, or to an open delivery, or its answer was lost. -/
structure Inv (s : Sender) : Prop where
  alone : ∀ (i j : ℕ) (d d' : Delivery), s.deliveries[i]? = some d →
    s.deliveries[j]? = some d' → d.phase.isOpen = true → d'.phase.isOpen = true →
    key d.drawId d.url = key d'.drawId d'.url → i = j
  unrecorded : ∀ (i : ℕ) (d : Delivery), s.deliveries[i]? = some d → d.phase.isOpen = true →
    isDelivered s.store d.drawId d.url = false
  known : ∀ p ∈ s.posts, p.arrived = true → isDelivered s.store p.drawId p.url = true ∨
    ∃ (i : ℕ) (d : Delivery), s.deliveries[i]? = some d ∧ d.phase.succeeded = true ∧
      d.drawId = p.drawId ∧ d.url = p.url
  inFlight : ∀ (i : ℕ) (d : Delivery), s.deliveries[i]? = some d → d.phase.inFlight = true →
    ¬ Lost s d.drawId d.url
  once : DeliveredOnce s

theorem inv_new : Inv {} where
  alone i j d d' h := by simp at h
  unrecorded i d h := by simp at h
  known p h := by simp at h
  inFlight i d h := by simp at h
  once := List.nodup_nil

section Steps
variable {imported : Bool} {jsonParse : String → Option Json}
variable {activeConfig : Option WebhookConfig} {s : Sender}

/-- While an attempt is under way, its draw has not reached its URL. -/
theorem Inv.not_posted (h : Inv s) {i : ℕ} {d : Delivery} (hi : s.deliveries[i]? = some d)
    (hflight : d.phase.inFlight = true) : (d.drawId,d.url) ∉ s.posts.map pair := by
  intro hmem
  obtain ⟨p,hp,hpair⟩ := List.mem_map.mp hmem
  have hdrawId : p.drawId = d.drawId := congrArg Prod.fst hpair
  have hurl : p.url = d.url := congrArg Prod.snd hpair
  obtain ⟨hopen,hnot⟩ := isOpen_of_inFlight hflight
  cases harrived : p.arrived with
  | false =>
      apply h.inFlight i d hi hflight
      unfold Lost
      rw [← hdrawId,← hurl,← harrived]
      exact hp
  | true =>
      rcases h.known p hp harrived with hrecorded | ⟨j,d',hj,hsucceeded,hdrawId',hurl'⟩
      · rw [hdrawId,hurl,h.unrecorded i d hi hopen] at hrecorded
        cases hrecorded
      · have hkey : key d.drawId d.url = key d'.drawId d'.url := by
          rw [hdrawId',hurl',hdrawId,hurl]
        have hij := h.alone i j d d' hi hj hopen (isOpen_of_succeeded hsucceeded) hkey
        subst hij
        rw [hi] at hj
        cases hj
        rw [hnot] at hsucceeded
        cases hsucceeded

theorem Inv.wentOn (h : Inv s) {st : Step} {i : ℕ} {d : Delivery} {phase : Phase}
    {posts : List Post} (hi : s.deliveries[i]? = some d) (hgo : GoesOn imported st i d phase posts)
    (hg : Alone jsonParse activeConfig s st) : Inv (s.move i d phase posts) := by
  obtain ⟨hbefore,hnot⟩ := isOpen_of_waiting hgo.before
  have hopen : ∀ (k : ℕ) (e : Delivery), (s.move i d phase posts).deliveries[k]? = some e →
      e.phase.isOpen = true → ∃ e', s.deliveries[k]? = some e' ∧ e'.phase.isOpen = true ∧
        e'.drawId = e.drawId ∧ e'.url = e.url := by
    intro k e he hopen
    rcases moved_cases he with ⟨rfl,rfl⟩ | ⟨-,he⟩
    · exact ⟨d,hi,hbefore,rfl,rfl⟩
    · exact ⟨e,he,hopen,rfl,rfl⟩
  constructor
  · intro k l e f he hf hopene hopenf hkey
    obtain ⟨e',he',hopene',hdrawIde,hurle⟩ := hopen k e he hopene
    obtain ⟨f',hf',hopenf',hdrawIdf,hurlf⟩ := hopen l f hf hopenf
    rw [← hdrawIde,← hurle,← hdrawIdf,← hurlf] at hkey
    exact h.alone k l e' f' he' hf' hopene' hopenf' hkey
  · intro k e he hopene
    obtain ⟨e',he',hopene',hdrawIde,hurle⟩ := hopen k e he hopene
    rw [← hdrawIde,← hurle]
    exact h.unrecorded k e' he' hopene'
  · intro p hp harrived
    rw [Sender.move,List.mem_append] at hp
    cases hp with
    | inl hold =>
        rcases h.known p hold harrived with hrecorded | ⟨j,d',hj,hsucceeded,hsame⟩
        · exact .inl hrecorded
        · have hji : i ≠ j := by
            intro hij
            subst hij
            rw [hi] at hj
            cases hj
            rw [hnot] at hsucceeded
            cases hsucceeded
          exact .inr ⟨j,d',(List.getElem?_set_ne hji).trans hj,hsucceeded,hsame⟩
    | inr hnew =>
        obtain ⟨hdrawId,hurl,hsucceeded⟩ := hgo.own hnew
        exact .inr ⟨i,{ d with phase },moved hi _,hsucceeded harrived,hdrawId.symm,hurl.symm⟩
  · intro k e he hflight hlost
    rw [Lost,Sender.move,List.mem_append] at hlost
    rcases moved_cases he with ⟨rfl,rfl⟩ | ⟨hki,he⟩
    · obtain ⟨rfl,rfl⟩ := hgo.resent hflight
      cases hlost with
      | inl hold => exact hg d hi hold
      | inr hnew => cases hnew
    · cases hlost with
      | inl hold => exact h.inFlight k e he hflight hold
      | inr hnew =>
          obtain ⟨hdrawId,hurl,-⟩ := hgo.own hnew
          have hkey : key e.drawId e.url = key d.drawId d.url := congrArg₂ key hdrawId hurl
          exact hki (h.alone k i e d he hi (isOpen_of_inFlight hflight).1 hbefore hkey)
  · rcases hgo.posts with hnone | ⟨hflight,arrived,hposts,-⟩
    · rw [DeliveredOnce,Sender.move,hnone,List.append_nil]
      exact h.once
    · rw [DeliveredOnce,Sender.move,hposts,List.map_append,List.map_singleton,
        ← List.concat_eq_append]
      exact h.once.concat (h.not_posted hi hflight)

theorem Inv.settled (h : Inv s) {i : ℕ} {d : Delivery} {r : DeliveryRecord}
    (hi : s.deliveries[i]? = some d) (hr : Reports d r) (result : WebhookDeliveryResult) :
    Inv (s.settle i d r result) := by
  have hrkey : key r.drawId r.url = key d.drawId d.url := by rw [hr.drawId,hr.url]
  have hopen : ∀ (k : ℕ) (e : Delivery), (s.settle i d r result).deliveries[k]? = some e →
      e.phase.isOpen = true → k ≠ i ∧ s.deliveries[k]? = some e := by
    intro k e he hopen
    rcases moved_cases he with ⟨-,rfl⟩ | hother
    · cases hopen
    · exact hother
  constructor
  · intro k l e f he hf hopene hopenf hkey
    exact h.alone k l e f (hopen k e he hopene).2 (hopen l f hf hopenf).2 hopene hopenf hkey
  · intro k e he hopene
    obtain ⟨hki,hk⟩ := hopen k e he hopene
    have hne : key e.drawId e.url ≠ key r.drawId r.url := by
      rw [hrkey]
      intro hkey
      exact hki (h.alone k i e d hk hi hopene hr.before hkey)
    rw [Sender.settle,isDelivered_record_other hne]
    exact h.unrecorded k e hk hopene
  · intro p hp harrived
    rcases h.known p hp harrived with hrecorded | ⟨j,d',hj,hsucceeded,hdrawId,hurl⟩
    · have hne : key p.drawId p.url ≠ key r.drawId r.url := by
        rw [hrkey]
        intro hkey
        rw [isDelivered_of_key_eq hkey,h.unrecorded i d hi hr.before] at hrecorded
        cases hrecorded
      rw [Sender.settle,isDelivered_record_other hne]
      exact .inl hrecorded
    · by_cases hij : i = j
      · subst hij
        rw [hi] at hj
        cases hj
        have hsame : key p.drawId p.url = key r.drawId r.url := by rw [hrkey,hdrawId,hurl]
        rw [Sender.settle,isDelivered_record_same hsame]
        exact .inl (decide_eq_true (hr.status.mpr hsucceeded))
      · exact .inr ⟨j,d',(List.getElem?_set_ne hij).trans hj,hsucceeded,hdrawId,hurl⟩
  · intro k e he hflight
    exact h.inFlight k e (hopen k e he (isOpen_of_inFlight hflight).1).2 hflight
  · exact h.once

/-- The deliveries of a call stand at the places of their URLs. -/
theorem launched_cases {config : WebhookConfig} {event : HorizonEvent} {payload : WebhookPayload}
    {drawId : String} {k : ℕ} {e : Delivery}
    (h : (s.launch (config.urls.map
      (s.startDelivery config event payload drawId))).deliveries[k]? = some e) :
    s.deliveries[k]? = some e ∨ ∃ j url, k = s.deliveries.length + j ∧
      config.urls[j]? = some url ∧ e = s.startDelivery config event payload drawId url := by
  rcases appended_cases h with hold | ⟨j,hk,hj⟩
  · exact .inl hold
  · rw [List.getElem?_map] at hj
    obtain ⟨url,hurl,he⟩ := Option.map_eq_some_iff.mp hj
    exact .inr ⟨j,url,hk,hurl,he.symm⟩

theorem Inv.called (h : Inv s) {config : WebhookConfig} (hurls : config.urls.Nodup)
    {event : HorizonEvent} {now : String} (payload : WebhookPayload) {drawId : String}
    (hconfig : activeConfig = some config) (htext : drawText jsonParse event = some drawId)
    (hg : Alone jsonParse activeConfig s (.call event now)) :
    Inv (s.launch (config.urls.map (s.startDelivery config event payload drawId))) := by
  have hguard : ∀ url, url ∈ config.urls →
      (s.startDelivery config event payload drawId url).phase.isOpen = true →
      ¬ Pending s drawId url ∧ ¬ Lost s drawId url := by
    intro url hmem hopen
    rw [startDelivery_isOpen,Bool.not_eq_true'] at hopen
    exact hg drawId htext config hconfig url hmem hopen
  have hfresh : ∀ (k : ℕ) (e : Delivery) (url : String), url ∈ config.urls →
      s.deliveries[k]? = some e → e.phase.isOpen = true →
      (s.startDelivery config event payload drawId url).phase.isOpen = true →
      key e.drawId e.url ≠ key drawId url := by
    intro k e url hmem he hopene hopen hkey
    exact (hguard url hmem hopen).1 ⟨e,List.mem_of_getElem? he,hopene,hkey⟩
  constructor
  · intro k l e f he hf hopene hopenf hkey
    rcases launched_cases he with he | ⟨j,url,hk,hurl,rfl⟩
    · rcases launched_cases hf with hf | ⟨j',url',-,hurl',rfl⟩
      · exact h.alone k l e f he hf hopene hopenf hkey
      · rw [startDelivery_drawId,startDelivery_url] at hkey
        exact absurd hkey
          (hfresh k e url' (List.mem_of_getElem? hurl') he hopene hopenf)
    · rcases launched_cases hf with hf | ⟨j',url',hl,hurl',rfl⟩
      · rw [startDelivery_drawId,startDelivery_url] at hkey
        exact absurd hkey.symm
          (hfresh l f url (List.mem_of_getElem? hurl) hf hopenf hopene)
      · simp only [startDelivery_drawId,startDelivery_url] at hkey
        have hsame := key_inj_url hkey
        rw [hsame,← hurl'] at hurl
        have hlt : j < config.urls.length := by
          rw [hurl'] at hurl
          exact (List.getElem?_eq_some_iff.mp hurl).choose
        have hj := (List.getElem?_inj hlt hurls).mp hurl
        omega
  · intro k e he hopen
    rcases launched_cases he with he | ⟨j,url,-,-,rfl⟩
    · exact h.unrecorded k e he hopen
    · rw [startDelivery_isOpen,Bool.not_eq_true'] at hopen
      rw [startDelivery_drawId,startDelivery_url]
      exact hopen
  · intro p hp harrived
    rcases h.known p hp harrived with hrecorded | ⟨j,d,hj,hsucceeded,hsame⟩
    · exact .inl hrecorded
    · have hlt := (List.getElem?_eq_some_iff.mp hj).choose
      exact .inr ⟨j,d,(List.getElem?_append_left hlt).trans hj,hsucceeded,hsame⟩
  · intro k e he hflight
    rcases launched_cases he with he | ⟨j,url,-,hurl,rfl⟩
    · exact h.inFlight k e he hflight
    · rw [startDelivery_drawId,startDelivery_url]
      exact (hguard url (List.mem_of_getElem? hurl) (isOpen_of_inFlight hflight).1).2
  · exact h.once

theorem Inv.step (hurls : ∀ config ∈ activeConfig, config.urls.Nodup) (s : Sender) (st : Step)
    (h : Inv s) (hg : Alone jsonParse activeConfig s st) :
    Inv (s.step imported jsonParse activeConfig st) := by
  have houtcome := step_outcome imported jsonParse activeConfig s st
  generalize s.step imported jsonParse activeConfig st = s' at houtcome
  cases houtcome with
  | idle => exact h
  | called config event now payload drawId hst hconfig htext =>
      subst hst
      exact h.called (hurls config hconfig) payload hconfig htext hg
  | wentOn i d phase posts hi hgo => exact h.wentOn hi hgo hg
  | settled i d r result hi hr => exact h.settled hi hr result

/-- Without the import no receiver has answered anything. -/
theorem posts_unimported (s : Sender) (st : Step) (h : s.posts = []) :
    (s.step false jsonParse activeConfig st).posts = [] := by
  have houtcome := step_outcome false jsonParse activeConfig s st
  generalize s.step false jsonParse activeConfig st = s' at houtcome
  cases houtcome with
  | idle => exact h
  | called config event now payload drawId hst hconfig htext => exact h
  | wentOn i d phase posts hi hgo =>
      rw [Sender.move,h,(hgo.unposted rfl).1]
      rfl
  | settled i d r result hi hr => exact h

end Steps

/-- As the module stands each draw reaches each URL at most once, because none is
posted. With the import it holds along every run that starts deliveries alone, on
distinct URLs. -/
theorem draws_delivered_once (jsonParse : String → Option Json)
    (activeConfig : Option WebhookConfig) (steps : List Step) :
    DeliveredOnce (run (Sender.step fetchImported jsonParse activeConfig) {} steps) ∧
    ((∀ config ∈ activeConfig, config.urls.Nodup) →
      Guarded (Sender.step true jsonParse activeConfig) (Alone jsonParse activeConfig) {} steps →
      ∀ pre : List Step, pre <+: steps →
        DeliveredOnce (run (Sender.step true jsonParse activeConfig) {} pre)) := by
  constructor
  · have hposts : (run (Sender.step fetchImported jsonParse activeConfig) {} steps).posts = [] :=
      run_induction posts_unimported rfl steps
    rw [DeliveredOnce,hposts]
    exact List.nodup_nil
  · intro hurls hg pre hpre
    have hinv : Inv (run (Sender.step true jsonParse activeConfig) {} pre) :=
      run_invariant_passed (Inv.step hurls) inv_new hg hpre
    exact hinv.once

/-- `JSON.parse`, on the data below. -/
def parseDraw (data : String) : Option Json :=
  if data = "\x7b\"drawId\":\"d1\"\x7d" then some (.object [("drawId",.string "d1")]) else none

def confirmed (ledger : ℕ) : HorizonEvent :=
  ⟨ledger,"2026-07-09T00:00:00.000Z","CA",["draw_confirmed"],"\x7b\"drawId\":\"d1\"\x7d",ledger⟩

def subscribers (urls : List String) : Option WebhookConfig := some ⟨urls,some 3⟩

/-- A failed attempt, a retry that is answered, and the event emitted again. -/
def retriedOnce : List Step :=
  [.call (confirmed 7) "t0",.answer 1 ⟨200,"OK"⟩,.fail 0 "HTTP request failed" false,
    .record 1 "t1" "t1",.wake 0,.answer 0 ⟨204,"No Content"⟩,.record 0 "t2" "t2",
    .call (confirmed 8) "t3"]

theorem draws_delivered_once_retried :
    (∀ config ∈ subscribers ["https://a.example/hook","https://b.example/hook"],
      config.urls.Nodup) ∧
    Guarded
      (Sender.step true parseDraw (subscribers ["https://a.example/hook","https://b.example/hook"]))
      (Alone parseDraw (subscribers ["https://a.example/hook","https://b.example/hook"])) {}
      retriedOnce ∧
    DeliveredOnce
      (run (Sender.step true parseDraw
        (subscribers ["https://a.example/hook","https://b.example/hook"])) {} retriedOnce) := by
  have hurls : ∀ config ∈ subscribers ["https://a.example/hook","https://b.example/hook"],
      config.urls.Nodup := by decide
  have hguarded : Guarded
      (Sender.step true parseDraw (subscribers ["https://a.example/hook","https://b.example/hook"]))
      (Alone parseDraw (subscribers ["https://a.example/hook","https://b.example/hook"])) {}
      retriedOnce := by decide +kernel
  exact ⟨hurls,hguarded,(draws_delivered_once parseDraw _ retriedOnce).2 hurls hguarded
    retriedOnce (List.prefix_refl _)⟩

/-- With the import, two calls for one draw that overlap deliver it twice; so do
one URL configured twice, and a retry after an answer was lost. -/
example :
    ¬ DeliveredOnce (run (Sender.step true parseDraw (subscribers ["https://a.example/hook"])) {}
      [.call (confirmed 7) "t0",.call (confirmed 8) "t0",.answer 0 ⟨200,"OK"⟩,
        .record 0 "t1" "t1",.answer 1 ⟨200,"OK"⟩]) ∧
    ¬ DeliveredOnce (run (Sender.step true parseDraw
        (subscribers ["https://a.example/hook","https://a.example/hook"])) {}
      [.call (confirmed 7) "t0",.answer 0 ⟨200,"OK"⟩,.answer 1 ⟨200,"OK"⟩]) ∧
    ¬ DeliveredOnce (run (Sender.step true parseDraw (subscribers ["https://a.example/hook"])) {}
      [.call (confirmed 7) "t0",.fail 0 "HTTP read timeout" true,.wake 0,
        .answer 0 ⟨200,"OK"⟩]) := by
  decide +kernel

end Creditra.DrawWebhookDelivery
