import Creditra.RateLimits

/-!
# The answers of the rate limiter

`middleware/rateLimit.ts` tells a client how many requests are left, when its
bucket will be full or a token ready, and after how many seconds to come back.
The responses of the middleware are modelled here, for the in-memory store; the
first of the two functions of its name is the one that reads the token buckets.
What the numbers promise holds from every store that calls can lead to, however
the clock moves between them. The second part is about the sweep of idle
buckets.
-/
namespace Creditra.RateLimitAnswers
open GuardedRuns InsertionMaps RateLimits

/-! ## Responses -/

structure RateLimitOptions where
  windowMs : ℕ
  maxRequests : ℕ

/-- The body of a response with status 429; its `data` is null. -/
structure Denial where
  error : String
  retryAfter : ℤ
  deriving DecidableEq

/-- The headers set, and the denial unless the request is passed on. -/
structure Reply where
  headers : List (String × String)
  denial : Option Denial
  deriving DecidableEq

def applyRateLimitHeaders (limit : ℕ) (remaining : ℤ) (resetAt : ℚ) (bypass : Option String) :
    List (String × String) :=
  [("X-RateLimit-Limit",toString limit),("X-RateLimit-Remaining",toString (max 0 remaining)),
    ("X-RateLimit-Reset",toString ⌈resetAt / 1000⌉)] ++
      bypass.toList.map fun who => ("X-RateLimit-Bypass",who)

def applyDenied (limit : ℕ) (resetAt now : ℚ) : Reply :=
  let retryAfter := max 1 ⌈(resetAt - now) / 1000⌉
  { headers := applyRateLimitHeaders limit 0 resetAt none ++ [("Retry-After",toString retryAfter)]
    denial := some
      ⟨"Too many requests. Please retry after " ++ toString retryAfter ++ " seconds.",retryAfter⟩ }

/-- What is done with an outcome, when the clock shows `now`. -/
def handle (options : RateLimitOptions) (outcome : RateLimitResult) (now : ℚ) : Reply :=
  if outcome.allowed then
    ⟨applyRateLimitHeaders options.maxRequests outcome.remaining outcome.resetAt none,none⟩
  else applyDenied options.maxRequests outcome.resetAt now

/-- A request with its clock readings: `call` are those of the store, with the
key that was generated, and `now` is that of the response. -/
structure Arrival where
  skip : Bool
  call : Call
  now : ℚ

def rateLimitMiddleware (options : RateLimitOptions) (store : InMemoryRateLimitStore)
    (req : Arrival) : InMemoryRateLimitStore × Reply :=
  if req.skip then
    (store,⟨applyRateLimitHeaders options.maxRequests options.maxRequests
      (req.now + options.windowMs) (some "admin"),none⟩)
  else
    let result := consume store options.maxRequests options.windowMs req.call
    (result.1,handle options result.2 req.now)

/-! ## Buckets between two calls -/

section Stock
variable {capacity windowMs : ℚ} {store : InMemoryRateLimitStore} {key : String}

/-- A stored bucket is neither overdrawn nor full. -/
def Stocked (capacity : ℚ) (store : InMemoryRateLimitStore) : Prop :=
  ∀ k bucket, store.get k = some bucket → 0 ≤ bucket.tokens ∧ bucket.tokens < capacity

theorem Stocked.notFull (h : Stocked capacity store) : NotFull capacity store := by
  intro k bucket hb
  exact (h k bucket hb).2

theorem stocked_empty (capacity : ℚ) : Stocked capacity InsertionMap.empty := by
  intro k bucket hb
  rw [InsertionMap.get_empty] at hb
  cases hb

/-- No bucket is overdrawn by waiting, whichever way the clock moves. -/
theorem refilled_nonneg {existing : Option MemoryBucket}
    (h : ∀ bucket ∈ existing, 0 ≤ bucket.tokens) (capacity windowMs now : ℚ) :
    0 ≤ refilled existing capacity windowMs now := by
  have hcapacity : (0 : ℚ) ≤ max 1 capacity := le_trans zero_le_one (le_max_left _ _)
  have hwindow : (0 : ℚ) ≤ max 1 windowMs := le_trans zero_le_one (le_max_left _ _)
  cases existing with
  | none => exact hcapacity
  | some bucket =>
      have htokens := h bucket rfl
      have hgain : 0 ≤ max 0 (now - bucket.lastRefillAt) * (max 1 capacity / max 1 windowMs) :=
        mul_nonneg (le_max_left _ _) (div_nonneg hcapacity hwindow)
      exact le_min hcapacity (add_nonneg htokens hgain)

/-- What a call leaves in its bucket. -/
theorem consumeTokenBucket_bucket {existing : Option MemoryBucket}
    (h : ∀ bucket ∈ existing, 0 ≤ bucket.tokens) (capacity windowMs now : ℚ) :
    0 ≤ (consumeTokenBucket existing capacity windowMs now).1.tokens ∧
      (1 ≤ capacity → (consumeTokenBucket existing capacity windowMs now).1.tokens < capacity) ∧
      (consumeTokenBucket existing capacity windowMs now).1.lastRefillAt = now := by
  have hnonneg := refilled_nonneg h capacity windowMs now
  by_cases hone : 1 ≤ refilled existing capacity windowMs now
  · rw [(consumeTokenBucket_allowed hone).1]
    refine ⟨by linarith,?_,rfl⟩
    intro hc
    have hle : refilled existing capacity windowMs now ≤ capacity := refilled_le hc existing now
    linarith
  · rw [not_le] at hone
    rw [(consumeTokenBucket_denied hone).1]
    refine ⟨hnonneg,?_,rfl⟩
    intro hc
    exact lt_of_lt_of_le hone hc

theorem stocked_consume (hc : 1 ≤ capacity) (h : Stocked capacity store) (call : Call) :
    Stocked capacity (consume store capacity windowMs call).1 := by
  intro k bucket hb
  by_cases hk : k = call.key
  · subst hk
    rw [(get_consume_self h.notFull call).1,Option.some.injEq] at hb
    have hbucket := consumeTokenBucket_bucket (fun bucket hold => (h call.key bucket hold).1)
      capacity windowMs call.now
    rw [hb] at hbucket
    exact ⟨hbucket.1,hbucket.2.1 hc⟩
  · rw [get_consume_of_ne h.notFull hk] at hb
    exact h k bucket hb

theorem stocked_consumed (hc : 1 ≤ capacity) (h : Stocked capacity store) (calls : List Call) :
    Stocked capacity (consumed capacity windowMs store calls) := by
  induction calls generalizing store with
  | nil => exact h
  | cons call calls ih => exact ih (stocked_consume hc h call)

/-- Calls for other keys do not touch a bucket. -/
theorem get_consumed_others (hc : 1 ≤ capacity) (h : Stocked capacity store) {others : List Call}
    (ho : ∀ call ∈ others, call.key ≠ key) :
    (consumed capacity windowMs store others).get key = store.get key := by
  induction others generalizing store with
  | nil => rfl
  | cons call others ih =>
      have hne := Ne.symm (ho call List.mem_cons_self)
      have hstocked : Stocked capacity (consume store capacity windowMs call).1 :=
        stocked_consume hc h call
      have hrest := ih hstocked fun c hmem => ho c (List.mem_cons_of_mem call hmem)
      exact hrest.trans (get_consume_of_ne h.notFull hne)

/-- On a clock of whole milliseconds a bucket reaches a level at the first one that has refilled
what it lacks. -/
theorem refilled_reaches (hc : 1 ≤ capacity) (hw : 1 ≤ windowMs) {tokens level : ℚ} {now t : ℤ}
    (hlow : tokens < level) (hlevel : level ≤ capacity) :
    level ≤ refilled (some ⟨tokens,now⟩) capacity windowMs t ↔
      ((now + ⌈(level - tokens) / (capacity / windowMs)⌉ : ℤ) : ℚ) ≤ t := by
  have hrate : 0 < capacity / windowMs := div_pos (by linarith) (by linarith)
  have hlack : 0 < (level - tokens) / (capacity / windowMs) := div_pos (by linarith) hrate
  simp only [refilled,max_eq_right hc,max_eq_right hw,le_min_iff,hlevel,true_and]
  rw [Int.cast_le]
  by_cases hpast : t < now
  · have hceil : 0 < ⌈(level - tokens) / (capacity / windowMs)⌉ := Int.ceil_pos.mpr hlack
    have hgone : (t : ℚ) - now ≤ 0 := by
      have hcast : (t : ℚ) < now := by exact_mod_cast hpast
      linarith
    rw [max_eq_left hgone,zero_mul,add_zero]
    constructor
    · intro hle
      linarith
    · intro hle
      omega
  · have hgone : (0 : ℚ) ≤ t - now := by
      have hcast : (now : ℚ) ≤ t := by exact_mod_cast not_lt.mp hpast
      linarith
    rw [max_eq_right hgone]
    have hfill : level ≤ tokens + (t - now) * (capacity / windowMs) ↔
        (level - tokens) / (capacity / windowMs) ≤ ((t - now : ℤ) : ℚ) := by
      rw [div_le_iff₀ hrate,Int.cast_sub]
      constructor <;> intro hle <;> linarith
    rw [hfill,← Int.ceil_le]
    omega

end Stock

/-! ## What the answers promise -/

/-- The call takes place at a whole millisecond. -/
def OnTheMillisecond (call : Call) : Prop := ∃ t : ℤ, call.now = t

/-- What the answer to a call says about the calls after it. Between the call and the next one for
its key there may be any calls for other keys. -/
structure Truthful (options : RateLimitOptions) (store : InMemoryRateLimitStore) (call : Call) :
    Prop where
  denied : (consume store options.maxRequests options.windowMs call).2.allowed = false →
    ∀ (others : List Call) (next : Call), (∀ c ∈ others, c.key ≠ call.key) →
      next.key = call.key → OnTheMillisecond next →
      ((consume (consumed options.maxRequests options.windowMs
          (consume store options.maxRequests options.windowMs call).1 others)
        options.maxRequests options.windowMs next).2.allowed = true ↔
          (consume store options.maxRequests options.windowMs call).2.resetAt ≤ next.now)
  retryAfter : ∀ (repliedAt : ℚ) (denial : Denial),
    (rateLimitMiddleware options store ⟨false,call,repliedAt⟩).2.denial = some denial →
    ("Retry-After",toString denial.retryAfter) ∈
      (rateLimitMiddleware options store ⟨false,call,repliedAt⟩).2.headers ∧
    ∀ (others : List Call) (next : Call), (∀ c ∈ others, c.key ≠ call.key) →
      next.key = call.key → OnTheMillisecond next →
      repliedAt + 1000 * denial.retryAfter ≤ next.now →
      (consume (consumed options.maxRequests options.windowMs
          (rateLimitMiddleware options store ⟨false,call,repliedAt⟩).1 others)
        options.maxRequests options.windowMs next).2.allowed = true
  remaining : (consume store options.maxRequests options.windowMs call).2.allowed = true →
    ∀ again : List Call, (∀ c ∈ again, c.now = call.now) →
      (allowedBetween call.key call.now call.now
        (answers options.maxRequests options.windowMs
          (consume store options.maxRequests options.windowMs call).1 again) : ℤ) =
        min (again.countP (·.key = call.key) : ℤ)
          (consume store options.maxRequests options.windowMs call).2.remaining
  full : (consume store options.maxRequests options.windowMs call).2.allowed = true →
    ∀ (others : List Call) (t : ℤ), (∀ c ∈ others, c.key ≠ call.key) →
      (refilled ((consumed options.maxRequests options.windowMs
          (consume store options.maxRequests options.windowMs call).1 others).get call.key)
        options.maxRequests options.windowMs t = options.maxRequests ↔
          (consume store options.maxRequests options.windowMs call).2.resetAt ≤ t)

section Answers
variable {capacity windowMs : ℚ} {store : InMemoryRateLimitStore} {key : String}

/-- The answer of a call and the bucket it leaves, when a token is at hand. -/
theorem consume_allowed (hc : 1 ≤ capacity) (hw : 1 ≤ windowMs) (h : Stocked capacity store)
    {call : Call} (ha : (consume store capacity windowMs call).2.allowed = true) :
    ∃ tokens, 0 ≤ tokens ∧ tokens < capacity ∧
      (consume store capacity windowMs call).1.get call.key = some ⟨tokens,call.now⟩ ∧
      (consume store capacity windowMs call).2 =
        ⟨true,⌊tokens⌋,call.now + ⌈(capacity - tokens) / (capacity / windowMs)⌉⟩ := by
  obtain ⟨hbucket,hanswer⟩ := @get_consume_self capacity windowMs store h.notFull call
  rw [hanswer] at ha ⊢
  rw [hbucket]
  by_cases hone : 1 ≤ refilled (store.get call.key) capacity windowMs call.now
  · have hle : refilled (store.get call.key) capacity windowMs call.now ≤ capacity :=
      refilled_le hc _ _
    have hfloor : 0 ≤ ⌊refilled (store.get call.key) capacity windowMs call.now - 1⌋ :=
      Int.floor_nonneg.mpr (by linarith)
    refine ⟨refilled (store.get call.key) capacity windowMs call.now - 1,by linarith,by linarith,
      by rw [(consumeTokenBucket_allowed hone).1],?_⟩
    simp only [consumeTokenBucket,if_pos hone,max_eq_right hc,max_eq_right hw,
      max_eq_right hfloor]
    rw [if_neg (by linarith)]
  · rw [(consumeTokenBucket_denied (not_le.mp hone)).2] at ha
    cases ha

/-- The same when there is none. -/
theorem consume_denied (hc : 1 ≤ capacity) (hw : 1 ≤ windowMs) (h : Stocked capacity store)
    {call : Call} (hd : (consume store capacity windowMs call).2.allowed = false) :
    ∃ tokens, tokens < 1 ∧
      (consume store capacity windowMs call).1.get call.key = some ⟨tokens,call.now⟩ ∧
      (consume store capacity windowMs call).2 =
        ⟨false,0,call.now + ⌈(1 - tokens) / (capacity / windowMs)⌉⟩ := by
  obtain ⟨hbucket,hanswer⟩ := @get_consume_self capacity windowMs store h.notFull call
  rw [hanswer] at hd ⊢
  rw [hbucket]
  by_cases hone : 1 ≤ refilled (store.get call.key) capacity windowMs call.now
  · rw [(consumeTokenBucket_allowed hone).2] at hd
    cases hd
  · rw [not_le] at hone
    refine ⟨refilled (store.get call.key) capacity windowMs call.now,hone,
      by rw [(consumeTokenBucket_denied hone).1],?_⟩
    simp only [consumeTokenBucket,if_neg (not_le.mpr hone),max_eq_right hc,max_eq_right hw]

theorem allowed_iff_token (h : Stocked capacity store) (call : Call) :
    (consume store capacity windowMs call).2.allowed = true ↔
      1 ≤ refilled (store.get call.key) capacity windowMs call.now := by
  rw [(get_consume_self h.notFull call).2]
  by_cases hone : 1 ≤ refilled (store.get call.key) capacity windowMs call.now
  · simp [(consumeTokenBucket_allowed hone).2,hone]
  · simp [(consumeTokenBucket_denied (not_le.mp hone)).2,hone]

/-- After a denial the next call of the key is allowed from the promised moment on. -/
theorem allowed_from_resetAt (hc : 1 ≤ capacity) (hw : 1 ≤ windowMs) (h : Stocked capacity store)
    {call next : Call} {others : List Call} (hcall : OnTheMillisecond call)
    (hd : (consume store capacity windowMs call).2.allowed = false)
    (ho : ∀ c ∈ others, c.key ≠ call.key) (hkey : next.key = call.key)
    (hnext : OnTheMillisecond next) :
    (consume (consumed capacity windowMs (consume store capacity windowMs call).1 others)
      capacity windowMs next).2.allowed = true ↔
        (consume store capacity windowMs call).2.resetAt ≤ next.now := by
  obtain ⟨now,hnow⟩ := hcall
  obtain ⟨t,ht⟩ := hnext
  obtain ⟨tokens,hlow,hbucket,hanswer⟩ := consume_denied hc hw h hd
  have hstocked : Stocked capacity (consume store capacity windowMs call).1 :=
    stocked_consume hc h call
  rw [allowed_iff_token (stocked_consumed hc hstocked others),hkey,
    get_consumed_others hc hstocked ho,hbucket,hanswer,hnow,ht,refilled_reaches hc hw hlow hc]
  push_cast
  rfl

/-- A call at the moment its bucket was last written takes a token, if there is a whole one. -/
theorem consume_instant (hc : 1 ≤ capacity) (hw : 1 ≤ windowMs) (h : Stocked capacity store)
    {call : Call} {tokens : ℚ} (hbucket : store.get call.key = some ⟨tokens,call.now⟩) :
    ((consume store capacity windowMs call).2.allowed = true ↔ 1 ≤ tokens) ∧
      (consume store capacity windowMs call).1.get call.key =
        some ⟨if 1 ≤ tokens then tokens - 1 else tokens,call.now⟩ := by
  have hbounds := h call.key _ hbucket
  dsimp only at hbounds
  have hhand : refilled (store.get call.key) capacity windowMs call.now = tokens := by
    rw [hbucket,refilled_some hc hw le_rfl,sub_self,zero_mul,add_zero,min_eq_right hbounds.2.le]
  constructor
  · rw [allowed_iff_token h,hhand]
  · rw [(get_consume_self h.notFull call).1]
    split_ifs with hone
    · rw [(consumeTokenBucket_allowed (by rw [hhand]; exact hone)).1,hhand]
    · rw [(consumeTokenBucket_denied (by rw [hhand]; exact not_le.mp hone)).1,hhand]

/-- As long as the clock stands still, a bucket allows as many calls as it has whole tokens. -/
theorem allowedBetween_instant (hc : 1 ≤ capacity) (hw : 1 ≤ windowMs) (h : Stocked capacity store)
    {now tokens : ℚ} (hbucket : store.get key = some ⟨tokens,now⟩) {again : List Call}
    (hagain : ∀ c ∈ again, c.now = now) :
    (allowedBetween key now now (answers capacity windowMs store again) : ℤ) =
      min (again.countP (·.key = key) : ℤ) ⌊tokens⌋ := by
  have hfloor : ∀ {store : InMemoryRateLimitStore} {tokens : ℚ}, Stocked capacity store →
      store.get key = some ⟨tokens,now⟩ → 0 ≤ ⌊tokens⌋ := by
    intro store tokens hstocked hget
    exact Int.floor_nonneg.mpr (hstocked key _ hget).1
  induction again generalizing store tokens with
  | nil =>
      have hnonneg := hfloor h hbucket
      simp only [answers,allowedBetween,List.countP_nil,Nat.cast_zero]
      omega
  | cons call again ih =>
      have hcall := hagain call List.mem_cons_self
      have hrest := fun c hmem => hagain c (List.mem_cons_of_mem call hmem)
      have hstocked : Stocked capacity (consume store capacity windowMs call).1 :=
        stocked_consume hc h call
      by_cases hkey : call.key = key
      · subst hkey hcall
        obtain ⟨hallowed,hleft⟩ := consume_instant hc hw h hbucket
        have hnext := ih hstocked hleft hrest
        have hnonneg := hfloor hstocked hleft
        rw [allowedBetween] at hnext
        by_cases hone : 1 ≤ tokens
        · rw [if_pos hone,Int.floor_sub_one] at hnext hnonneg
          rw [answers,allowedBetween,List.countP_cons_of_pos (by simp [hallowed.mpr hone]),
            List.countP_cons_of_pos (by simp)]
          push_cast
          omega
        · rw [if_neg hone] at hnext hnonneg
          have hdenied : ¬ (consume store capacity windowMs call).2.allowed = true :=
            fun hyes => hone (hallowed.mp hyes)
          have hzero : ⌊tokens⌋ < 1 := Int.floor_lt.mpr (by exact_mod_cast not_le.mp hone)
          rw [answers,allowedBetween,List.countP_cons_of_neg (by simp [hdenied]),
            List.countP_cons_of_pos (by simp)]
          push_cast
          omega
      · have hleft : (consume store capacity windowMs call).1.get key = some ⟨tokens,now⟩ := by
          rw [get_consume_of_ne h.notFull (Ne.symm hkey),hbucket]
        have hnext := ih hstocked hleft hrest
        rw [answers,allowedBetween,List.countP_cons_of_neg (by simp [hkey]),
          List.countP_cons_of_neg (by simp [hkey])]
        exact hnext

/-- Whole seconds never end before the moment they count up to. -/
theorem resetAt_le_wait {resetAt repliedAt t : ℚ}
    (h : repliedAt + 1000 * (max 1 ⌈(resetAt - repliedAt) / 1000⌉ : ℤ) ≤ t) : resetAt ≤ t := by
  have hceil : (resetAt - repliedAt) / 1000 ≤ (⌈(resetAt - repliedAt) / 1000⌉ : ℤ) :=
    Int.le_ceil _
  have hmax : ((⌈(resetAt - repliedAt) / 1000⌉ : ℤ) : ℚ) ≤
      (max 1 ⌈(resetAt - repliedAt) / 1000⌉ : ℤ) := Int.cast_le.mpr (le_max_right _ _)
  have hwait := le_trans hceil hmax
  rw [div_le_iff₀ (by norm_num)] at hwait
  linarith

theorem full_iff_level (hc : 1 ≤ capacity) (existing : Option MemoryBucket) (t : ℚ) :
    refilled existing capacity windowMs t = capacity ↔
      capacity ≤ refilled existing capacity windowMs t := by
  constructor
  · intro hfull
    exact hfull.ge
  · intro hle
    exact le_antisymm (refilled_le hc existing t) hle

end Answers

/-- After any calls, the answer to a call is the truth about those that follow. -/
theorem answers_truthful (options : RateLimitOptions) (calls : List Call) (call : Call)
    (hc : 0 < options.maxRequests) (hw : 0 < options.windowMs) (hcall : OnTheMillisecond call) :
    Truthful options
      (consumed options.maxRequests options.windowMs InsertionMap.empty calls) call := by
  have hc' : (1 : ℚ) ≤ options.maxRequests := Nat.one_le_cast.mpr hc
  have hw' : (1 : ℚ) ≤ options.windowMs := Nat.one_le_cast.mpr hw
  have hs : Stocked options.maxRequests
      (consumed options.maxRequests options.windowMs InsertionMap.empty calls) :=
    stocked_consumed hc' (stocked_empty _) calls
  generalize consumed options.maxRequests options.windowMs InsertionMap.empty calls = store at hs ⊢
  constructor
  case denied =>
    intro hd others next ho hkey hnext
    exact allowed_from_resetAt hc' hw' hs hcall hd ho hkey hnext
  case retryAfter =>
    intro repliedAt denial hreply
    simp only [rateLimitMiddleware,Bool.false_eq_true,if_false,handle] at hreply ⊢
    split_ifs at hreply with ha
    have hd := Bool.eq_false_iff.mpr ha
    simp only [applyDenied,Option.some.injEq] at hreply
    subst hreply
    simp only [if_neg ha,applyDenied,List.mem_append,List.mem_singleton,or_true,true_and]
    intro others next ho hkey hnext hwait
    rw [allowed_from_resetAt hc' hw' hs hcall hd ho hkey hnext]
    exact resetAt_le_wait hwait
  case remaining =>
    intro ha again hagain
    obtain ⟨tokens,hnonneg,hless,hbucket,hanswer⟩ := consume_allowed hc' hw' hs ha
    rw [hanswer]
    exact allowedBetween_instant hc' hw' (stocked_consume hc' hs call) hbucket hagain
  case full =>
    intro ha others t ho
    obtain ⟨now,hnow⟩ := hcall
    obtain ⟨tokens,hnonneg,hless,hbucket,hanswer⟩ := consume_allowed hc' hw' hs ha
    rw [full_iff_level hc',get_consumed_others hc' (stocked_consume hc' hs call) ho,hbucket,
      hanswer,hnow,refilled_reaches hc' hw' hless (le_refl _)]
    push_cast
    rfl

/-- Two requests in half a second. -/
def perHalfSecond : RateLimitOptions := ⟨500,2⟩

/-- The third of three calls at once is denied, and one token is ready after 250 milliseconds. -/
theorem answers_truthful_third_call :
    (consume (consumed 2 500 InsertionMap.empty [⟨"a",0,0⟩,⟨"a",0,0⟩]) 2 500 ⟨"a",0,0⟩).2 =
      ⟨false,0,250⟩ ∧
    Truthful perHalfSecond (consumed perHalfSecond.maxRequests perHalfSecond.windowMs
      InsertionMap.empty [⟨"a",0,0⟩,⟨"a",0,0⟩]) ⟨"a",0,0⟩ :=
  ⟨by decide +kernel,
    answers_truthful perHalfSecond [⟨"a",0,0⟩,⟨"a",0,0⟩] ⟨"a",0,0⟩ (by decide) (by decide)
      ⟨0,by norm_num⟩⟩

/-! ## The sweep of idle buckets

A bucket is swept when it has been idle for two windows and is full. But tokens
are only counted when a call is charged, so no stored bucket is ever full, and
the sweep leaves all of them. Only a capacity below one, which no configuration
has, would let it take any.
-/

/-- The moment of the last call for a key. -/
def lastUse (key : String) (calls : List Call) : Option ℚ :=
  calls.foldl (fun last call => if call.key = key then some call.now else last) none

/-- After the sweep no bucket is left whose key was last used two windows ago or earlier. -/
def IdleEvicted (capacity windowMs : ℚ) (calls : List Call) (now : ℚ) : Prop :=
  ∀ key t, lastUse key calls = some t → windowMs * 2 ≤ now - t →
    (cleanup (consumed capacity windowMs InsertionMap.empty calls) capacity windowMs now).get key =
      none

/-- Buckets date from the last use of their key, and there is one for each key, unless an empty
capacity let the sweep take it after a millisecond. -/
structure Dated (capacity now : ℚ) (store : InMemoryRateLimitStore)
    (last : String → Option ℚ) : Prop where
  found : ∀ k bucket, store.get k = some bucket → last k = some bucket.lastRefillAt ∧
    0 ≤ bucket.tokens ∧ (1 ≤ capacity → bucket.tokens < capacity)
  kept : ∀ k t, last k = some t → 1 ≤ capacity ∨ now - t < 1 → (store.get k).isSome = true

section Sweep
variable {capacity windowMs now : ℚ} {store : InMemoryRateLimitStore} {last : String → Option ℚ}

theorem dated_empty (capacity now : ℚ) : Dated capacity now InsertionMap.empty fun _ => none where
  found k bucket hb := by
    rw [InsertionMap.get_empty] at hb
    cases hb
  kept k t ht := nomatch ht

theorem get_cleanup_eq_some {k : String} {bucket : MemoryBucket} :
    (cleanup store capacity windowMs now).get k = some bucket ↔ store.get k = some bucket ∧
      (max (windowMs * 2) 1 ≤ now - bucket.lastRefillAt → bucket.tokens < capacity) := by
  unfold cleanup
  rw [InsertionMap.get_filter_eq_some]
  simp only [decide_eq_true_eq,not_and,not_le]

theorem Dated.cleanup (h : Dated capacity now store last) (windowMs : ℚ) {cleanedAt : ℚ}
    (hn : now ≤ cleanedAt) :
    Dated capacity cleanedAt (cleanup store capacity windowMs cleanedAt) last where
  found k bucket hb := h.found k bucket (get_cleanup_eq_some.mp hb).1
  kept k t ht hkept := by
    have hsome : (store.get k).isSome = true := by
      apply h.kept k t ht
      cases hkept with
      | inl hc => exact .inl hc
      | inr hless => exact .inr (by linarith)
    obtain ⟨bucket,hbucket⟩ := Option.isSome_iff_exists.mp hsome
    obtain ⟨hlast,-,hnotFull⟩ := h.found k bucket hbucket
    have hdate : t = bucket.lastRefillAt := by
      rw [ht,Option.some.injEq] at hlast
      exact hlast
    apply Option.isSome_iff_exists.mpr
    refine ⟨bucket,get_cleanup_eq_some.mpr ⟨hbucket,?_⟩⟩
    intro hidle
    cases hkept with
    | inl hc => exact hnotFull hc
    | inr hless =>
        have hone := le_trans (le_max_right (windowMs * 2) 1) hidle
        rw [hdate] at hless
        linarith

theorem Dated.consume (h : Dated capacity now store last) {call : Call} (hn : now ≤ call.cleanedAt)
    (hc : call.cleanedAt ≤ call.now) :
    Dated capacity call.now (consume store capacity windowMs call).1
      fun k => if call.key = k then some call.now else last k := by
  have hswept : Dated capacity call.cleanedAt _ last := h.cleanup windowMs hn
  unfold RateLimits.consume
  constructor
  case found =>
    intro k bucket hb
    by_cases hk : k = call.key
    · subst hk
      rw [InsertionMap.get_set_self,Option.some.injEq] at hb
      have hbucket := consumeTokenBucket_bucket
        (fun bucket hold => (hswept.found call.key bucket hold).2.1) capacity windowMs call.now
      rw [hb] at hbucket
      rw [if_pos rfl,hbucket.2.2]
      exact ⟨rfl,hbucket.1,hbucket.2.1⟩
    · rw [InsertionMap.get_set_of_ne _ hk] at hb
      rw [if_neg (Ne.symm hk)]
      exact hswept.found k bucket hb
  case kept =>
    intro k t ht hkept
    by_cases hk : k = call.key
    · subst hk
      rw [InsertionMap.get_set_self]
      rfl
    · rw [if_neg (Ne.symm hk)] at ht
      rw [InsertionMap.get_set_of_ne _ hk]
      apply hswept.kept k t ht
      cases hkept with
      | inl hc => exact .inl hc
      | inr hless => exact .inr (by linarith)

theorem dated_consumed {calls : List Call} {later : ℚ} (h : Dated capacity now store last)
    (ht : (now :: (readings calls ++ [later])).Pairwise (· ≤ ·)) :
    Dated capacity later (consumed capacity windowMs store calls) fun k =>
      calls.foldl (fun last call => if call.key = k then some call.now else last) (last k) := by
  induction calls generalizing store now last with
  | nil =>
      have hle : now ≤ later := (List.pairwise_cons.mp ht).1 later (by simp)
      refine ⟨h.found,?_⟩
      intro k t hlast hkept
      apply h.kept k t hlast
      cases hkept with
      | inl hc => exact .inl hc
      | inr hless => exact .inr (by linarith)
  | cons call calls ih =>
      simp only [readings,List.flatMap_cons,List.cons_append,List.nil_append,
        List.pairwise_cons,List.mem_cons] at ht
      have hswept : now ≤ call.cleanedAt := ht.1 _ (.inl rfl)
      have hread : call.cleanedAt ≤ call.now := ht.2.1 _ (.inl rfl)
      exact ih (h.consume hswept hread) (List.pairwise_cons.mpr ht.2.2)

end Sweep

/-- The sweep evicts what it should only where there is nothing to evict, or the capacity is below
one. Capacities are safe integers: a double far above them can stay the same when one is taken. -/
theorem idle_evicted_iff (capacity : ℤ) (windowMs : ℚ) (calls : List Call) (now : ℚ)
    (ht : (readings calls ++ [now]).Pairwise (· ≤ ·)) :
    IdleEvicted capacity windowMs calls now ↔
      ∀ key t, lastUse key calls = some t → windowMs * 2 ≤ now - t →
        capacity ≤ 0 ∧ 1 ≤ now - t := by
  have hstart : ∃ start, (start :: (readings calls ++ [now])).Pairwise (· ≤ ·) := by
    cases hreadings : readings calls ++ [now] with
    | nil => simp at hreadings
    | cons t ts => exact ⟨t,pairwise_twice (hreadings ▸ ht)⟩
  obtain ⟨start,hstart⟩ := hstart
  have hdated : Dated capacity now (consumed capacity windowMs InsertionMap.empty calls)
      (lastUse · calls) := dated_consumed (dated_empty _ start) hstart
  constructor
  · intro hevicted key t hlast hidle
    by_contra hnot
    have hkept : (1 : ℚ) ≤ capacity ∨ now - t < 1 := by
      by_cases hc : capacity ≤ 0
      · exact .inr (not_le.mp fun hle => hnot ⟨hc,hle⟩)
      · exact .inl (by exact_mod_cast not_le.mp hc)
    have hsome := (hdated.cleanup windowMs (le_refl now)).kept key t hlast hkept
    rw [hevicted key t hlast hidle] at hsome
    cases hsome
  · intro hcondition key t hlast hidle
    obtain ⟨hc,hone⟩ := hcondition key t hlast hidle
    have hc' : (capacity : ℚ) ≤ 0 := by exact_mod_cast hc
    rw [Option.eq_none_iff_forall_not_mem]
    intro bucket hbucket
    obtain ⟨hstored,hleft⟩ := get_cleanup_eq_some.mp hbucket
    obtain ⟨hdate,htokens,-⟩ := hdated.found key bucket hstored
    rw [hlast,Option.some.injEq] at hdate
    have hfull := hleft (by rw [← hdate]; exact max_le hidle hone)
    linarith

theorem idle_evicted_iff_in_use :
    (readings [⟨"a",0,0⟩,⟨"b",0,900⟩] ++ [1000]).Pairwise (· ≤ ·) ∧
    IdleEvicted (2 : ℤ) 600 [⟨"a",0,0⟩,⟨"b",0,900⟩] 1000 := by
  have hreadings : (readings [⟨"a",0,0⟩,⟨"b",0,900⟩] ++ [1000]).Pairwise (· ≤ ·) := by
    decide +kernel
  refine ⟨hreadings,?_⟩
  rw [idle_evicted_iff 2 600 _ 1000 hreadings]
  intro key t hlast hidle
  simp only [lastUse,List.foldl_cons,List.foldl_nil] at hlast
  split_ifs at hlast <;> cases hlast <;> norm_num at hidle

/-- A bucket of the default configuration outlives its key by two windows. -/
theorem idle_bucket_stays : ¬ IdleEvicted (100 : ℤ) 60000 [⟨"10.0.0.1",0,0⟩] 120000 := by
  intro hevicted
  have hgone := hevicted "10.0.0.1" 0 (by decide +kernel) (by norm_num)
  have hstays : (cleanup (consumed (100 : ℤ) 60000 InsertionMap.empty [⟨"10.0.0.1",0,0⟩])
      (100 : ℤ) 60000 120000).get "10.0.0.1" ≠ none := by decide +kernel
  exact hstays hgone

end Creditra.RateLimitAnswers
