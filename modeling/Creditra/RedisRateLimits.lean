import Creditra.RateLimits
import Creditra.Sha256
import Creditra.SigningInput

/-!
# Token buckets in Redis

The shared store of `middleware/rateLimit.ts`: a Lua script that refills and
charges one hash, and the class that calls it and reads its reply. Redis drops
a hash when its time to live has run out, on the clock the callers read. The
arithmetic of the script is exact, so a number survives being written to a hash
as text. The store answers as the in-memory one does.
-/
namespace Creditra.RedisRateLimits
open RateLimits InsertionMaps InboundWebhookSignature SigningInput

structure RedisHash where
  tokens : ℚ
  lastRefill : ℚ
  expiresAt : ℚ
  deriving DecidableEq

abbrev Redis := InsertionMap String RedisHash

/-- A hash whose time to live has run out reads as a missing one. -/
def hmget (redis : Redis) (key : String) (now : ℚ) : Option RedisHash :=
  (redis.get key).filter fun hash => now < hash.expiresAt

/-- Redis cuts a Lua number to its integer part when it replies. -/
def integerReply (x : ℚ) : ℤ := if 0 ≤ x then ⌊x⌋ else ⌈x⌉

/-- The tokens the script finds before it charges the call. -/
def scriptTokens (data : Option RedisHash) (capacity windowMs now : ℚ) : ℚ :=
  match data with
  | none => capacity
  | some hash =>
      let elapsed := if now - hash.lastRefill < 0 then 0 else now - hash.lastRefill
      min capacity (hash.tokens + elapsed * (capacity / windowMs))

def scriptResetAt (allowed : Bool) (tokens capacity windowMs now : ℚ) : ℚ :=
  let refillRate := capacity / windowMs
  if capacity ≤ tokens then now
  else if allowed then now + ⌈(capacity - tokens) / refillRate⌉
  else
    let need := if 1 - tokens < 0 then 0 else 1 - tokens
    now + ⌈need / refillRate⌉

def REDIS_CONSUME_SCRIPT (redis : Redis) (key : String) (capacity windowMs now : ℚ) :
    Redis × List ℤ :=
  if capacity ≤ 0 ∨ windowMs ≤ 0 then (redis,[0,0,integerReply (now + windowMs)])
  else
    let found := scriptTokens (hmget redis key now) capacity windowMs now
    let allowed := decide (1 ≤ found)
    let tokens := if allowed then found - 1 else found
    let remaining := if ⌊tokens⌋ < 0 then 0 else ⌊tokens⌋
    let resetAt := scriptResetAt allowed tokens capacity windowMs now
    (redis.set key ⟨tokens,now,now + ⌈windowMs * 2⌉⟩,
      [if allowed then 1 else 0,remaining,integerReply resetAt])

def parseRedisConsumeResult : List ℤ → Option RateLimitResult
  | allowedFlag :: remaining :: resetAt :: _ =>
      some ⟨allowedFlag = 1,max 0 remaining,resetAt⟩
  | _ => none

inductive RedisRateLimitFailureMode where
  | openMode
  | closedMode
  deriving DecidableEq

def fallbackResult (failureMode : RedisRateLimitFailureMode) (now windowMs capacity : ℤ) :
    RateLimitResult :=
  match failureMode with
  | .openMode => ⟨true,capacity,now + windowMs⟩
  | .closedMode => ⟨false,0,now + windowMs⟩

/-- What the store is constructed with, and the digest its keys are built from. -/
structure Options where
  storePrefix : String
  failureMode : RedisRateLimitFailureMode
  sha256 : String → Bytes

def buildKey (options : Options) (key : String) : String :=
  options.storePrefix ++ ":" ++ hexEncode (options.sha256 key)

/-- One call of `consume` by its readings of the clock in milliseconds: the Redis store takes the
second one only. -/
structure Request where
  key : String
  cleanedAt : ℤ
  now : ℤ
  deriving DecidableEq

def Request.call (request : Request) : Call := ⟨request.key,request.cleanedAt,request.now⟩

/-- `consume` of the Redis store when the client gets the reply of the script. -/
def consume (options : Options) (redis : Redis) (capacity windowMs : ℤ) (request : Request) :
    Redis × RateLimitResult :=
  let result := REDIS_CONSUME_SCRIPT redis (buildKey options request.key) capacity windowMs
    request.now
  (result.1,match parseRedisConsumeResult result.2 with
    | some outcome => outcome
    | none => fallbackResult options.failureMode request.now windowMs capacity)

/-- The answers to a trace of calls. -/
def answers (options : Options) (capacity windowMs : ℤ) :
    Redis → List Request → List RateLimitResult
  | _, [] => []
  | redis, request :: requests =>
      let result := consume options redis capacity windowMs request
      result.2 :: answers options capacity windowMs result.1 requests

theorem integerReply_intCast (n : ℤ) : integerReply n = n := by
  unfold integerReply
  rw [Int.floor_intCast,Int.ceil_intCast,ite_self]

theorem buildKey_inj (options : Options) {a b : String}
    (h : buildKey options a = buildKey options b) : options.sha256 a = options.sha256 b := by
  have htext := congrArg String.toList h
  simp only [buildKey,String.toList_append] at htext
  have hhex := congrArg hexDecode (List.append_cancel_left htext)
  rwa [hexDecode_hexEncode,hexDecode_hexEncode] at hhex

section Script
variable {capacity windowMs now : ℚ}

/-- What the in-memory store would keep of a hash. -/
def RedisHash.bucket (hash : RedisHash) : MemoryBucket := ⟨hash.tokens,hash.lastRefill⟩

/-- An expired hash would be full by now, as a missing one is. -/
theorem scriptTokens_hmget (hc : 1 ≤ capacity) (hw : 1 ≤ windowMs) {redis : Redis} {key : String}
    (hexpires : ∀ hash, redis.get key = some hash →
      0 ≤ hash.tokens ∧ hash.lastRefill ≤ now ∧ hash.expiresAt = hash.lastRefill + windowMs * 2) :
    scriptTokens (hmget redis key now) capacity windowMs now =
      refilled ((redis.get key).map RedisHash.bucket) capacity windowMs now := by
  unfold hmget
  cases hget : redis.get key with
  | none => exact (refilled_none hc now).symm
  | some hash =>
      obtain ⟨htokens,hpast,hexp⟩ := hexpires hash hget
      have hmem : refilled (some hash.bucket) capacity windowMs now =
          min capacity (hash.tokens + (now - hash.lastRefill) * (capacity / windowMs)) :=
        refilled_some hc hw hpast
      rw [Option.map_some,hmem]
      by_cases hlive : now < hash.expiresAt
      · rw [Option.filter_some_pos (by simpa using hlive)]
        simp only [scriptTokens]
        rw [if_neg (not_lt.mpr (sub_nonneg.mpr hpast))]
      · rw [Option.filter_some_neg (by simpa using hlive)]
        simp only [scriptTokens]
        have hrate : 0 ≤ capacity / windowMs := div_nonneg (by linarith) (by linarith)
        have helapsed : windowMs ≤ now - hash.lastRefill := by
          rw [hexp] at hlive
          linarith
        have hfull : capacity ≤ (now - hash.lastRefill) * (capacity / windowMs) := by
          calc capacity = windowMs * (capacity / windowMs) := by
                rw [mul_div_cancel₀]
                linarith
            _ ≤ (now - hash.lastRefill) * (capacity / windowMs) :=
                mul_le_mul_of_nonneg_right helapsed hrate
        exact (min_eq_left (by linarith)).symm

/-- The script leaves and answers what the in-memory call does from the same tokens. -/
theorem script_eq (hc : 1 ≤ capacity) (hw : 1 ≤ windowMs) {redis : Redis} {key : String} {now : ℤ}
    {existing : Option MemoryBucket}
    (hfound : scriptTokens (hmget redis key now) capacity windowMs now =
      refilled existing capacity windowMs now)
    (hnonneg : 0 ≤ refilled existing capacity windowMs now) :
    (REDIS_CONSUME_SCRIPT redis key capacity windowMs now).1 =
        redis.set key ⟨(consumeTokenBucket existing capacity windowMs now).1.tokens,now,
          now + ⌈windowMs * 2⌉⟩ ∧
      parseRedisConsumeResult (REDIS_CONSUME_SCRIPT redis key capacity windowMs now).2 =
        some (consumeTokenBucket existing capacity windowMs now).2 := by
  have hvalid : ¬(capacity ≤ 0 ∨ windowMs ≤ 0) := by
    rw [not_or,not_le,not_le]
    exact ⟨by linarith,by linarith⟩
  have hfull : refilled existing capacity windowMs now ≤ capacity := refilled_le hc existing now
  unfold REDIS_CONSUME_SCRIPT consumeTokenBucket
  rw [if_neg hvalid,hfound,max_eq_right hc,max_eq_right hw]
  by_cases hone : 1 ≤ refilled existing capacity windowMs now
  · have hless : ¬ capacity ≤ refilled existing capacity windowMs now - 1 := by linarith
    have hdeficit : ¬ capacity - (refilled existing capacity windowMs now - 1) ≤ 0 := by linarith
    have hfloor : ¬ ⌊refilled existing capacity windowMs now - 1⌋ < 0 := by
      rw [not_lt]
      exact Int.floor_nonneg.mpr (by linarith)
    simp only [hone,decide_true,if_true,scriptResetAt,if_neg hless,if_neg hdeficit,if_neg hfloor,
      parseRedisConsumeResult,true_and]
    rw [← Int.cast_add,integerReply_intCast]
  · have hless : ¬ capacity ≤ refilled existing capacity windowMs now := by linarith
    have hneed : ¬ 1 - refilled existing capacity windowMs now < 0 := by linarith
    have hfloor : ⌊refilled existing capacity windowMs now⌋ = 0 := by
      rw [Int.floor_eq_zero_iff]
      exact ⟨hnonneg,not_le.mp hone⟩
    simp only [hone,decide_false,if_false,scriptResetAt,if_neg hless,if_neg hneed,hfloor,
      parseRedisConsumeResult,true_and,Bool.false_eq_true,lt_self_iff_false]
    rw [← Int.cast_add,integerReply_intCast]
    rfl

end Script

theorem consumeTokenBucket_bucket (existing : Option MemoryBucket) (capacity windowMs now : ℚ) :
    (consumeTokenBucket existing capacity windowMs now).1 =
      ⟨(consumeTokenBucket existing capacity windowMs now).1.tokens,now⟩ := by
  unfold consumeTokenBucket
  dsimp only
  split
  · rfl
  · rfl

section Refinement
variable {options : Options} {capacity windowMs : ℤ} {keys : List String}

/-- No two of the keys have one digest. -/
def Distinct (options : Options) (keys : List String) : Prop :=
  ∀ a ∈ keys, ∀ b ∈ keys, options.sha256 a = options.sha256 b → a = b

/-- The buckets of the two stores agree, and each hash expires two windows after its last write. -/
structure Coupled (options : Options) (windowMs : ℤ) (keys : List String)
    (store : InMemoryRateLimitStore) (redis : Redis) : Prop where
  buckets : ∀ key ∈ keys,
    store.get key = (redis.get (buildKey options key)).map RedisHash.bucket
  expires : ∀ key ∈ keys, ∀ hash, redis.get (buildKey options key) = some hash →
    hash.expiresAt = hash.lastRefill + windowMs * 2

theorem coupled_empty : Coupled options windowMs keys InsertionMap.empty InsertionMap.empty := by
  constructor
  · intro key _
    rw [InsertionMap.get_empty,InsertionMap.get_empty,Option.map_none]
  · intro key _ hash h
    rw [InsertionMap.get_empty] at h
    cases h

theorem Coupled.hash {store : InMemoryRateLimitStore} {redis : Redis} {now : ℚ}
    (h : Coupled options windowMs keys store redis) (hkept : Kept capacity now store) {key : String}
    (hkey : key ∈ keys) {hash : RedisHash} (hget : redis.get (buildKey options key) = some hash) :
    0 ≤ hash.tokens ∧ hash.lastRefill ≤ now ∧ hash.expiresAt = hash.lastRefill + windowMs * 2 := by
  have hbucket : store.get key = some hash.bucket := by
    rw [h.buckets key hkey,hget,Option.map_some]
  obtain ⟨htokens,-,hpast⟩ := hkept key hash.bucket hbucket
  exact ⟨htokens,hpast,h.expires key hkey hash hget⟩

/-- One call on both stores. -/
theorem consume_coupled (hc : 1 ≤ capacity) (hw : 1 ≤ windowMs) (hdistinct : Distinct options keys)
    {store : InMemoryRateLimitStore} {redis : Redis} {now : ℚ} {request : Request}
    (hkey : request.key ∈ keys) (hn : now ≤ request.now) (hkept : Kept capacity now store)
    (h : Coupled options windowMs keys store redis) :
    Coupled options windowMs keys (RateLimits.consume store capacity windowMs request.call).1
        (consume options redis capacity windowMs request).1 ∧
      (consume options redis capacity windowMs request).2 =
        (RateLimits.consume store capacity windowMs request.call).2 := by
  have hc' : (1 : ℚ) ≤ capacity := by exact_mod_cast hc
  have hw' : (1 : ℚ) ≤ windowMs := by exact_mod_cast hw
  have hlater : Kept capacity request.now store := hkept.later hn
  have hfound : scriptTokens (hmget redis (buildKey options request.key) request.now) capacity
      windowMs request.now = refilled (store.get request.key) capacity windowMs request.now := by
    rw [h.buckets request.key hkey]
    exact scriptTokens_hmget hc' hw' fun hash hget => h.hash hlater hkey hget
  obtain ⟨hstored,hreply⟩ := script_eq hc' hw' hfound (hlater.tokens_nonneg hc' hw' request.key)
  have hredis : (consume options redis capacity windowMs request).1 =
      redis.set (buildKey options request.key) _ := hstored
  obtain ⟨hself,hanswer⟩ : (RateLimits.consume store capacity windowMs request.call).1.get
        request.key = some (consumeTokenBucket (store.get request.key) capacity windowMs
          request.now).1 ∧
      (RateLimits.consume store capacity windowMs request.call).2 =
        (consumeTokenBucket (store.get request.key) capacity windowMs request.now).2 :=
    get_consume_self hkept.notFull request.call
  constructor
  · constructor
    · intro key hmem
      rw [hredis]
      by_cases heq : key = request.key
      · rw [heq,hself,InsertionMap.get_set_self,Option.map_some,consumeTokenBucket_bucket]
        rfl
      · have hne : buildKey options key ≠ buildKey options request.key := by
          intro hbuilt
          exact heq (hdistinct key hmem request.key hkey (buildKey_inj options hbuilt))
        rw [InsertionMap.get_set_of_ne _ hne,get_consume_of_ne hkept.notFull heq]
        exact h.buckets key hmem
    · intro key hmem hash hget
      rw [hredis] at hget
      by_cases hbuilt : buildKey options key = buildKey options request.key
      · rw [hbuilt,InsertionMap.get_set_self,Option.some.injEq] at hget
        subst hget
        have hceil : ⌈(windowMs : ℚ) * 2⌉ = windowMs * 2 := by exact_mod_cast Int.ceil_intCast _
        rw [hceil]
        push_cast
        rfl
      · rw [InsertionMap.get_set_of_ne _ hbuilt] at hget
        exact h.expires key hmem hash hget
  · simp only [consume,hreply]
    exact hanswer.symm

theorem answers_eq (hc : 1 ≤ capacity) (hw : 1 ≤ windowMs) (hdistinct : Distinct options keys)
    {store : InMemoryRateLimitStore} {redis : Redis} {now : ℚ} {requests : List Request}
    (hkeys : ∀ request ∈ requests, request.key ∈ keys)
    (ht : (now :: (requests.map Request.call).map Call.now).Pairwise (· ≤ ·))
    (hkept : Kept capacity now store) (h : Coupled options windowMs keys store redis) :
    answers options capacity windowMs redis requests =
      (RateLimits.answers capacity windowMs store (requests.map Request.call)).map Prod.snd := by
  induction requests generalizing store redis now with
  | nil => rfl
  | cons request requests ih =>
      rw [List.map_cons,List.map_cons,List.pairwise_cons] at ht
      have hn : now ≤ request.now := ht.1 _ List.mem_cons_self
      obtain ⟨hnext,hanswer⟩ :=
        consume_coupled hc hw hdistinct (hkeys request List.mem_cons_self) hn hkept h
      have hkept' : Kept capacity request.now
          (RateLimits.consume store capacity windowMs request.call).1 :=
        kept_consume (by exact_mod_cast hc) (by exact_mod_cast hw) hkept hn
      rw [answers,List.map_cons,RateLimits.answers,List.map_cons,hanswer]
      rw [ih (fun r hr => hkeys r (List.mem_cons_of_mem request hr)) ht.2 hkept' hnext]

end Refinement

/-- The script and the in-memory store give the same answer to every call of a trace over any keys
at times that do not decrease, when no two keys of the trace have one digest. -/
theorem redis_answers_as_memory (options : Options) (capacity windowMs : ℤ)
    (requests : List Request) (hc : 1 ≤ capacity) (hw : 1 ≤ windowMs)
    (ht : (readings (requests.map Request.call)).Pairwise (· ≤ ·))
    (hdistinct : Distinct options (requests.map Request.key)) :
    answers options capacity windowMs InsertionMap.empty requests =
      (RateLimits.answers capacity windowMs InsertionMap.empty
        (requests.map Request.call)).map Prod.snd := by
  obtain ⟨now,hnow⟩ := exists_start ht
  apply answers_eq hc hw hdistinct _ hnow (kept_empty capacity now) coupled_empty
  intro request hmem
  exact List.mem_map_of_mem hmem

def bySha256 : Options := ⟨"ratelimit",.openMode,fun text => Sha256.sha256 (JsStrings.utf8 text)⟩

/-- Three calls, the last one after the hash of its key has expired. -/
def expiring : List Request := [⟨"a",0,0⟩,⟨"b",1,1⟩,⟨"a",2,3⟩,⟨"a",30,30⟩]

theorem redis_answers_as_memory_expiring :
    (readings (expiring.map Request.call)).Pairwise (· ≤ ·) ∧
    Distinct bySha256 (expiring.map Request.key) ∧
    answers bySha256 1 10 InsertionMap.empty expiring =
      [⟨true,0,10⟩,⟨true,0,11⟩,⟨false,0,10⟩,⟨true,0,40⟩] ∧
    answers bySha256 1 10 InsertionMap.empty expiring =
      (RateLimits.answers (1 : ℤ) (10 : ℤ) InsertionMap.empty
        (expiring.map Request.call)).map Prod.snd := by
  have hreadings : (readings (expiring.map Request.call)).Pairwise (· ≤ ·) := by decide +kernel
  have hdistinct : Distinct bySha256 (expiring.map Request.key) := by
    unfold Distinct
    decide +kernel
  refine ⟨hreadings,hdistinct,by decide +kernel,?_⟩
  exact redis_answers_as_memory bySha256 1 10 expiring (by decide) (by decide) hreadings hdistinct

end Creditra.RedisRateLimits
