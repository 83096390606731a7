import Creditra.DrawWebhookDelivery
import Creditra.FloatNumbers

/-!
# Subscriptions to the webhooks for confirmed draws

The subscribers of `services/drawWebhookService.ts` are kept in two places:
`initializeWebhooks` reads URLs from the environment into the active
configuration, and `registerWebhookSubscription` adds URLs to a map of its own.
`getWebhookConfig` lists both. `sendDrawConfirmationWebhook` goes through the
URLs of the active configuration alone.

The URL parser of the platform is a parameter. The retries are kept as the whole
number that is parsed, before rounding: all that is asked is whether the first
attempt is within them.
-/
namespace Creditra.WebhookSubscriptions
open DrawWebhookDelivery DrawWebhooks FloatNumbers GuardedRuns HorizonListener InsertionMaps
open JsonValues JsStrings

structure Url where
  protocol : String
  host : String
  pathname : String
  search : String

structure Subscription where
  url : String
  createdAt : String

structure Registry where
  activeConfig : Option WebhookConfig := none
  runtimeSubscriptions : InsertionMap String Subscription := .empty

/-- Nothing, where it throws. -/
def resolveWebhookConfig (env : String → Option String) : Option WebhookConfig :=
  let urls := splitTrimmed ',' ((env "WEBHOOK_URLS").getD "")
  let secret := (env "WEBHOOK_SECRET").getD ""
  if urls.length > 0 ∧ secret = "" then none
  else some ⟨urls,decimalText ((env "WEBHOOK_MAX_RETRIES").getD "3")⟩

/-- A slash at the end of a path goes, unless it is the whole path. -/
def withoutSlash (path : String) : String :=
  if path.toList.length > 1 ∧ path.toList.getLast? = some '/' then
    String.ofList path.toList.dropLast
  else path

def normaliseWebhookUrl (parseUrl : String → Option Url) (url : String) : String :=
  let trimmed := trim url
  match parseUrl trimmed with
  | some parsed =>
      parsed.protocol ++ "//" ++ parsed.host.toLower ++ withoutSlash parsed.pathname ++
        parsed.search
  | none => trimmed

/-- `Array.from(new Set(values))`. -/
def distinct (values : List String) : List String := values.foldl addId []

namespace Registry

def initializeWebhooks (r : Registry) (env : String → Option String) : Registry :=
  { r with activeConfig := resolveWebhookConfig env }

/-- The message of what is thrown, or the registry with the new subscription. `duplicateResource`
is not imported, so that a duplicate ends in a `ReferenceError`. -/
def registerWebhookSubscription (parseUrl : String → Option Url) (r : Registry) (url now : String) :
    Except String Registry :=
  let trimmed := trim url
  if trimmed = "" then .error "Webhook URL is required"
  else match parseUrl trimmed with
    | none => .error "Webhook URL is invalid"
    | some parsed =>
        if parsed.protocol ≠ "http:" ∧ parsed.protocol ≠ "https:" then
          .error "Webhook URL must use http or https"
        else
          let key := normaliseWebhookUrl parseUrl trimmed
          let envUrls := (r.activeConfig.map (·.urls)).getD []
          if key ∈ envUrls.map (normaliseWebhookUrl parseUrl) ∨
              (r.runtimeSubscriptions.get key).isSome then
            .error "duplicateResource is not defined"
          else .ok { r with
            runtimeSubscriptions := r.runtimeSubscriptions.set key ⟨trimmed,now⟩ }

def runtimeUrls (r : Registry) : List String := r.runtimeSubscriptions.entries.map (·.2.url)

def getWebhookConfig (r : Registry) : Option WebhookConfig :=
  r.activeConfig.map fun config => { config with urls := distinct (config.urls ++ r.runtimeUrls) }

/-- The URLs that `getWebhookConfig` lists. -/
def listed (r : Registry) : List String := (r.getWebhookConfig.map (·.urls)).getD []

end Registry

inductive Call where
  | initializeWebhooks (env : String → Option String)
  | registerWebhookSubscription (url now : String)

/-- A registration that throws leaves the registry as it is. -/
def Registry.step (parseUrl : String → Option Url) (r : Registry) : Call → Registry
  | .initializeWebhooks env => r.initializeWebhooks env
  | .registerWebhookSubscription url now =>
      match r.registerWebhookSubscription parseUrl url now with
      | .ok r' => r'
      | .error _ => r

/-- The URLs to which a call of `sendDrawConfirmationWebhook` makes an attempt. -/
def attempted (jsonParse : String → Option Json) (r : Registry) (s : Sender) (event : HorizonEvent)
    (now : String) : List String :=
  (((s.sendDrawConfirmationWebhook jsonParse r.activeConfig event now).deliveries.drop
    s.deliveries.length).filter (·.phase.inFlight)).map (·.url)

/-- The draw has not been delivered to any of the URLs. -/
def Undelivered (jsonParse : String → Option Json) (s : Sender) (event : HorizonEvent)
    (urls : List String) : Prop :=
  ∀ drawId ∈ drawText jsonParse event, ∀ url ∈ urls, isDelivered s.store drawId url = false

/-- Nobody is listed; or the event tells a draw, the environment names every subscriber and none
of them twice, and there is an attempt to make. -/
def Reaches (jsonParse : String → Option Json) (r : Registry) (event : HorizonEvent) : Prop :=
  r.listed = [] ∨ ∃ config ∈ r.activeConfig, (drawText jsonParse event).isSome = true ∧
    config.urls.Nodup ∧ (∀ url ∈ r.runtimeUrls, url ∈ config.urls) ∧
    ∃ m ∈ config.maxRetries, 0 ≤ m

/-! ## The list of subscribers -/

theorem mem_addId {ids : List String} {id id' : String} :
    id' ∈ addId ids id ↔ id' ∈ ids ∨ id' = id := by
  unfold addId
  split_ifs with hmem
  · constructor
    · exact .inl
    · rintro (hold | rfl)
      · exact hold
      · exact hmem
  · rw [List.mem_append,List.mem_singleton]

theorem nodup_addId {ids : List String} (h : ids.Nodup) (id : String) : (addId ids id).Nodup := by
  unfold addId
  split_ifs with hmem
  · exact h
  · exact List.nodup_append.mpr ⟨h,List.nodup_singleton id,by
      intro a ha b hb heq
      rw [List.mem_singleton] at hb
      rw [heq,hb] at ha
      exact hmem ha⟩

theorem foldl_addId (values ids : List String) (h : ids.Nodup) :
    (values.foldl addId ids).Nodup ∧
      ∀ value, value ∈ values.foldl addId ids ↔ value ∈ ids ∨ value ∈ values := by
  induction values generalizing ids with
  | nil =>
      refine ⟨h,?_⟩
      intro value
      simp
  | cons v values ih =>
      rcases ih (addId ids v) (nodup_addId h v) with ⟨hnodup,hmem⟩
      refine ⟨hnodup,?_⟩
      intro value
      rw [List.foldl_cons,hmem,mem_addId,List.mem_cons,or_assoc]

theorem nodup_distinct (values : List String) : (distinct values).Nodup :=
  (foldl_addId values [] List.nodup_nil).1

theorem mem_distinct {values : List String} {value : String} :
    value ∈ distinct values ↔ value ∈ values := by
  unfold distinct
  rw [(foldl_addId values [] List.nodup_nil).2]
  simp

theorem distinct_eq_nil {values : List String} : distinct values = [] ↔ values = [] := by
  rw [List.eq_nil_iff_forall_not_mem,List.eq_nil_iff_forall_not_mem]
  simp only [mem_distinct]

/-- A list is all there is in two lists. -/
theorem perm_distinct_append (urls others : List String) :
    urls.Perm (distinct (urls ++ others)) ↔ urls.Nodup ∧ ∀ url ∈ others, url ∈ urls := by
  constructor
  · intro hperm
    refine ⟨hperm.symm.nodup (nodup_distinct _),?_⟩
    intro url hurl
    rw [hperm.mem_iff,mem_distinct]
    exact List.mem_append_right urls hurl
  · rintro ⟨hnodup,hothers⟩
    rw [List.perm_ext_iff_of_nodup hnodup (nodup_distinct _)]
    intro url
    rw [mem_distinct,List.mem_append]
    constructor
    · exact .inl
    · rintro (henv | hruntime)
      · exact henv
      · exact hothers url hruntime

section Serving
variable {jsonParse : String → Option Json} {r : Registry} {s : Sender} {event : HorizonEvent}

theorem listed_none (h : r.activeConfig = none) : r.listed = [] := by
  unfold Registry.listed Registry.getWebhookConfig
  rw [h]
  rfl

theorem listed_some {config : WebhookConfig} (h : r.activeConfig = some config) :
    r.listed = distinct (config.urls ++ r.runtimeUrls) := by
  unfold Registry.listed Registry.getWebhookConfig
  rw [h]
  rfl

/-- The first attempt of a delivery that is not skipped. -/
theorem retryWithBackoff_first (maxRetries : Option ℤ) :
    (retryWithBackoff maxRetries 1 none).inFlight = true ↔ ∃ m ∈ maxRetries, 0 ≤ m := by
  have hfirst : (∃ m ∈ maxRetries, ((1 : ℕ) : ℤ) ≤ m + 1) ↔ ∃ m ∈ maxRetries, 0 ≤ m := by
    constructor
    · rintro ⟨m,hm,hle⟩
      exact ⟨m,hm,by omega⟩
    · rintro ⟨m,hm,hle⟩
      exact ⟨m,hm,by omega⟩
  unfold retryWithBackoff
  rw [← hfirst]
  split_ifs with hsome
  · exact iff_of_true rfl hsome
  · exact iff_of_false Bool.false_ne_true hsome

theorem send_untold (htext : drawText jsonParse event = none) (activeConfig : Option WebhookConfig)
    (now : String) : s.sendDrawConfirmationWebhook jsonParse activeConfig event now = s := by
  unfold Sender.sendDrawConfirmationWebhook parseDrawConfirmedEvent
  unfold drawText at htext
  cases activeConfig with
  | none => rfl
  | some config =>
      dsimp only
      split_ifs
      · rfl
      · cases hdata : drawData jsonParse event with
        | none => rfl
        | some data =>
            rw [hdata,Option.bind_some] at htext
            simp only [Option.map_some,htext]

theorem send_told {drawId : String} (htext : drawText jsonParse event = some drawId)
    (config : WebhookConfig) (now : String) :
    ∃ payload, s.sendDrawConfirmationWebhook jsonParse (some config) event now =
      s.launch (config.urls.map (s.startDelivery config event payload drawId)) := by
  rcases Option.bind_eq_some_iff.mp htext with ⟨data,hdata,hprinted⟩
  refine ⟨⟨now,data⟩,?_⟩
  unfold Sender.sendDrawConfirmationWebhook parseDrawConfirmedEvent
  dsimp only
  split_ifs with hempty
  · rw [List.length_eq_zero_iff.mp hempty,List.map_nil,Sender.launch,List.append_nil]
  · simp only [hdata,Option.map_some,hprinted]

/-- Deliveries to URLs that the draw has not reached all make an attempt, or none does. -/
theorem attempts_of_undelivered {urls : List String} {drawId : String}
    (hnew : ∀ url ∈ urls, isDelivered s.store drawId url = false) (config : WebhookConfig)
    (payload : WebhookPayload) :
    ((urls.map (s.startDelivery config event payload drawId)).filter (·.phase.inFlight)).map
        (·.url) =
      if (retryWithBackoff config.maxRetries 1 none).inFlight = true then urls else [] := by
  induction urls with
  | nil =>
      split_ifs
      · rfl
      · rfl
  | cons url urls ih =>
      have hrest := ih fun url' hurl' => hnew url' (List.mem_cons_of_mem url hurl')
      have hphase : (s.startDelivery config event payload drawId url).phase =
          retryWithBackoff config.maxRetries 1 none := by
        unfold Sender.startDelivery
        rw [hnew url List.mem_cons_self,if_neg Bool.false_ne_true]
      rw [List.map_cons,List.filter_cons,hphase]
      split_ifs at hrest ⊢
      · rw [List.map_cons,hrest,startDelivery_url]
      · exact hrest

/-- All of the active configuration, or nobody. -/
theorem attempted_eq {config : WebhookConfig} (h : r.activeConfig = some config)
    (hnew : Undelivered jsonParse s event config.urls) (now : String) :
    attempted jsonParse r s event now =
      if (drawText jsonParse event).isSome = true ∧ ∃ m ∈ config.maxRetries, 0 ≤ m then
        config.urls else [] := by
  unfold attempted
  rw [h]
  cases htext : drawText jsonParse event with
  | none =>
      rw [send_untold htext,List.drop_length]
      simp
  | some drawId =>
      rcases @send_told jsonParse s event drawId htext config now with ⟨payload,hsend⟩
      have hurls : ∀ url ∈ config.urls, isDelivered s.store drawId url = false := hnew drawId htext
      rw [hsend,Sender.launch,List.drop_left,attempts_of_undelivered hurls]
      simp only [Option.isSome_some,true_and,retryWithBackoff_first]

/-- One call: the listed subscribers are the attempted ones exactly where it reaches them. -/
theorem served_iff_reaches (hnew : Undelivered jsonParse s event r.listed) (now : String) :
    (attempted jsonParse r s event now).Perm r.listed ↔ Reaches jsonParse r event := by
  cases hconfig : r.activeConfig with
  | none =>
      have hlisted := listed_none hconfig
      have hattempted : attempted jsonParse r s event now = [] := by
        unfold attempted Sender.sendDrawConfirmationWebhook
        rw [hconfig]
        simp
      rw [hattempted,hlisted]
      exact iff_of_true (List.Perm.refl []) (.inl hlisted)
  | some config =>
      have hurls : Undelivered jsonParse s event config.urls := by
        intro drawId hdrawId url hurl
        apply hnew drawId hdrawId
        rw [listed_some hconfig,mem_distinct]
        exact List.mem_append_left _ hurl
      rw [attempted_eq hconfig hurls,listed_some hconfig]
      unfold Reaches
      rw [listed_some hconfig]
      simp only [hconfig,Option.mem_def,Option.some.injEq,exists_eq_left']
      split_ifs with hreached
      · rw [perm_distinct_append]
        constructor
        · rintro ⟨hnodup,hruntime⟩
          exact .inr ⟨hreached.1,hnodup,hruntime,hreached.2⟩
        · rintro (hnone | ⟨-,hnodup,hruntime,-⟩)
          · rw [distinct_eq_nil,List.append_eq_nil_iff] at hnone
            rw [hnone.1,hnone.2]
            exact ⟨List.nodup_nil,fun _ hurl => hurl⟩
          · exact ⟨hnodup,hruntime⟩
      · rw [List.nil_perm]
        constructor
        · exact .inl
        · rintro (hnone | ⟨htold,-,-,hretries⟩)
          · exact hnone
          · exact absurd ⟨htold,hretries⟩ hreached

end Serving

/-- After any initialisations and registrations, a call for a draw that nobody listed has been told
of makes an attempt to exactly the listed subscribers, each once, if and only if it reaches
them. -/
theorem subscribers_served_iff (parseUrl : String → Option Url)
    (jsonParse : String → Option Json) (calls : List Call) (s : Sender) (event : HorizonEvent)
    (now : String)
    (hnew : Undelivered jsonParse s event (run (Registry.step parseUrl) {} calls).listed) :
    (attempted jsonParse (run (Registry.step parseUrl) {} calls) s event now).Perm
        (run (Registry.step parseUrl) {} calls).listed ↔
      Reaches jsonParse (run (Registry.step parseUrl) {} calls) event :=
  served_iff_reaches hnew now

/-- The URL parser, on the URL below. -/
def exampleUrl (text : String) : Option Url :=
  if text = "https://a.example/hook" then some ⟨"https:","a.example","/hook",""⟩ else none

/-- The environment names one subscriber. -/
def oneHook (name : String) : Option String :=
  if name = "WEBHOOK_URLS" then some "https://a.example/hook"
  else if name = "WEBHOOK_SECRET" then some "secret"
  else none

theorem subscribers_served_iff_environment :
    Undelivered parseDraw {} (confirmed 7)
      (run (Registry.step exampleUrl) {} [.initializeWebhooks oneHook]).listed ∧
    (attempted parseDraw (run (Registry.step exampleUrl) {} [.initializeWebhooks oneHook]) {}
      (confirmed 7) "t0").Perm
        (run (Registry.step exampleUrl) {} [.initializeWebhooks oneHook]).listed := by
  have hnew : Undelivered parseDraw {} (confirmed 7)
      (run (Registry.step exampleUrl) {} [.initializeWebhooks oneHook]).listed := by
    intro drawId _ url _
    rfl
  have hreaches : Reaches parseDraw
      (run (Registry.step exampleUrl) {} [.initializeWebhooks oneHook]) (confirmed 7) :=
    .inr ⟨_,rfl,by decide +kernel,by decide +kernel,by decide +kernel,3,by decide +kernel,
      by decide⟩
  exact ⟨hnew,(subscribers_served_iff exampleUrl parseDraw [.initializeWebhooks oneHook] {}
    (confirmed 7) "t0" hnew).mpr hreaches⟩

/-- A subscriber is registered at runtime, and the environment names none. -/
def registeredOnly : List Call :=
  [.initializeWebhooks fun _ => none,
    .registerWebhookSubscription "https://a.example/hook" "t0"]

theorem runtime_subscriber_not_served :
    Undelivered parseDraw {} (confirmed 7)
      (run (Registry.step exampleUrl) {} registeredOnly).listed ∧
    ¬ (attempted parseDraw (run (Registry.step exampleUrl) {} registeredOnly) {} (confirmed 7)
      "t1").Perm (run (Registry.step exampleUrl) {} registeredOnly).listed := by
  refine ⟨?_,by decide +kernel⟩
  intro drawId _ url _
  rfl

end Creditra.WebhookSubscriptions
