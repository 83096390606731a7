import Creditra.GuardedRuns
import Creditra.InsertionMaps
import Mathlib.Algebra.Order.Floor.Ring
import Mathlib.Data.Rat.Floor
import Mathlib.Tactic.Linarith
import Mathlib.Tactic.Ring
import Mathlib.Tactic.NormNum

/-!
# In-memory token buckets

The store of `middleware/rateLimit.ts` that keeps one bucket for each key.
A call reads the clock twice, once to sweep out full buckets that were idle for
two windows and once to refill and charge its own bucket. Numbers are exact
rationals.
-/
namespace Creditra.RateLimits
open GuardedRuns InsertionMaps

structure MemoryBucket where
  tokens : ℚ
  lastRefillAt : ℚ
  deriving DecidableEq

structure RateLimitResult where
  allowed : Bool
  remaining : ℤ
  resetAt : ℚ
  deriving DecidableEq

/-- The tokens at hand when the clock shows `now`, before the call is charged. -/
def refilled (existing : Option MemoryBucket) (capacity windowMs now : ℚ) : ℚ :=
  let safeCapacity := max 1 capacity
  let safeWindow := max 1 windowMs
  let refillRate := safeCapacity / safeWindow
  match existing with
  | none => safeCapacity
  | some bucket =>
      let elapsed := max 0 (now - bucket.lastRefillAt)
      min safeCapacity (bucket.tokens + elapsed * refillRate)

def consumeTokenBucket (existing : Option MemoryBucket) (capacity windowMs now : ℚ) :
    MemoryBucket × RateLimitResult :=
  let safeCapacity := max 1 capacity
  let safeWindow := max 1 windowMs
  let refillRate := safeCapacity / safeWindow
  let tokens := refilled existing capacity windowMs now
  if 1 ≤ tokens then
    let deficit := safeCapacity - (tokens - 1)
    let resetAt := if deficit ≤ 0 then now else now + ⌈deficit / refillRate⌉
    (⟨tokens - 1,now⟩,⟨true,max 0 ⌊tokens - 1⌋,resetAt⟩)
  else
    let need := 1 - tokens
    (⟨tokens,now⟩,⟨false,0,now + ⌈need / refillRate⌉⟩)

abbrev InMemoryRateLimitStore := InsertionMap String MemoryBucket

/-- Full buckets idle for two windows are forgotten. -/
def cleanup (store : InMemoryRateLimitStore) (capacity windowMs now : ℚ) :
    InMemoryRateLimitStore :=
  let idleMs := max (windowMs * 2) 1
  store.filter fun e => ¬(idleMs ≤ now - e.2.lastRefillAt ∧ capacity ≤ e.2.tokens)

/-- One call of `consume` with its two readings of the clock. -/
structure Call where
  key : String
  cleanedAt : ℚ
  now : ℚ
  deriving DecidableEq

def consume (store : InMemoryRateLimitStore) (capacity windowMs : ℚ) (call : Call) :
    InMemoryRateLimitStore × RateLimitResult :=
  let swept := cleanup store capacity windowMs call.cleanedAt
  let result := consumeTokenBucket (swept.get call.key) capacity windowMs call.now
  (swept.set call.key result.1,result.2)

/-- The store after a sequence of calls. -/
def consumed (capacity windowMs : ℚ) :
    InMemoryRateLimitStore → List Call → InMemoryRateLimitStore :=
  run fun store call => (consume store capacity windowMs call).1

/-- Each call of a sequence with its answer. -/
def answers (capacity windowMs : ℚ) :
    InMemoryRateLimitStore → List Call → List (Call × RateLimitResult)
  | _, [] => []
  | store, call :: calls =>
      let result := consume store capacity windowMs call
      (call,result.2) :: answers capacity windowMs result.1 calls

/-- The clock readings of a sequence of calls in the order in which they are taken. -/
def readings (calls : List Call) : List ℚ := calls.flatMap fun call => [call.cleanedAt,call.now]

/-- The number of allowed calls for a key between two moments, both included. -/
def allowedBetween (key : String) (first last : ℚ) (answered : List (Call × RateLimitResult)) : ℕ :=
  answered.countP fun e => e.2.allowed ∧ e.1.key = key ∧ first ≤ e.1.now ∧ e.1.now ≤ last

section Bound
variable {capacity windowMs : ℚ} {store : InMemoryRateLimitStore} {key : String}

/-- A stored bucket is never negative, never full and last refilled in the past. -/
def Kept (capacity now : ℚ) (store : InMemoryRateLimitStore) : Prop :=
  ∀ k bucket, store.get k = some bucket →
    0 ≤ bucket.tokens ∧ bucket.tokens < capacity ∧ bucket.lastRefillAt ≤ now

theorem Kept.later {now later : ℚ} (h : Kept capacity now store) (hl : now ≤ later) :
    Kept capacity later store := by
  intro k bucket hb
  have hk := h k bucket hb
  exact ⟨hk.1,hk.2.1,le_trans hk.2.2 hl⟩

def NotFull (capacity : ℚ) (store : InMemoryRateLimitStore) : Prop :=
  ∀ k bucket, store.get k = some bucket → bucket.tokens < capacity

theorem Kept.notFull {now : ℚ} (h : Kept capacity now store) : NotFull capacity store := by
  intro k bucket hb
  exact (h k bucket hb).2.1

/-- The sweep looks for full buckets. -/
theorem get_cleanup (h : NotFull capacity store) (cleanedAt : ℚ) (k : String) :
    (cleanup store capacity windowMs cleanedAt).get k = store.get k := by
  apply Option.ext
  intro bucket
  unfold cleanup
  rw [InsertionMap.get_filter_eq_some]
  constructor
  · intro hb
    exact hb.1
  · intro hb
    have hlt := h k bucket hb
    refine ⟨hb,?_⟩
    simp only [decide_eq_true_eq,not_and,not_le]
    intro _
    exact hlt

theorem refilled_none (hc : 1 ≤ capacity) (now : ℚ) :
    refilled none capacity windowMs now = capacity := max_eq_right hc

theorem refilled_some (hc : 1 ≤ capacity) (hw : 1 ≤ windowMs) {bucket : MemoryBucket} {now : ℚ}
    (hl : bucket.lastRefillAt ≤ now) :
    refilled (some bucket) capacity windowMs now =
      min capacity (bucket.tokens + (now - bucket.lastRefillAt) * (capacity / windowMs)) := by
  simp only [refilled,max_eq_right hc,max_eq_right hw,max_eq_right (sub_nonneg.mpr hl)]

theorem refilled_le (hc : 1 ≤ capacity) (existing : Option MemoryBucket) (now : ℚ) :
    refilled existing capacity windowMs now ≤ capacity := by
  cases existing with
  | none => exact le_of_eq (refilled_none hc now)
  | some bucket =>
      simp only [refilled,max_eq_right hc]
      exact min_le_left _ _

theorem Kept.tokens_nonneg (hc : 1 ≤ capacity) (hw : 1 ≤ windowMs) {now : ℚ}
    (h : Kept capacity now store) (k : String) :
    0 ≤ refilled (store.get k) capacity windowMs now := by
  cases hk : store.get k with
  | none =>
      rw [refilled_none hc]
      linarith
  | some bucket =>
      obtain ⟨ht,-,hl⟩ := h k bucket hk
      have hrate : 0 ≤ capacity / windowMs := div_nonneg (by linarith) (by linarith)
      have hgain := mul_nonneg (sub_nonneg.mpr hl) hrate
      rw [refilled_some hc hw hl]
      exact le_min (by linarith) (by linarith)

/-- Between two readings a bucket gains at most the refill of the time that passed. -/
theorem Kept.tokens_later (hc : 1 ≤ capacity) (hw : 1 ≤ windowMs) {now later : ℚ}
    (h : Kept capacity now store) (hl : now ≤ later) (k : String) :
    refilled (store.get k) capacity windowMs later ≤
      refilled (store.get k) capacity windowMs now + (later - now) * (capacity / windowMs) := by
  have hrate : 0 ≤ capacity / windowMs := div_nonneg (by linarith) (by linarith)
  have hgain := mul_nonneg (sub_nonneg.mpr hl) hrate
  cases hk : store.get k with
  | none =>
      rw [refilled_none hc,refilled_none hc]
      linarith
  | some bucket =>
      have hnow := (h k bucket hk).2.2
      rw [refilled_some hc hw hnow,refilled_some hc hw (le_trans hnow hl),← min_add_add_right]
      apply le_min
      · exact le_trans (min_le_left _ _) (by linarith)
      · have hsplit : bucket.tokens + (later - bucket.lastRefillAt) * (capacity / windowMs) =
            bucket.tokens + (now - bucket.lastRefillAt) * (capacity / windowMs) +
              (later - now) * (capacity / windowMs) := by ring
        exact le_trans (min_le_right _ _) (le_of_eq hsplit)

theorem consumeTokenBucket_allowed {existing : Option MemoryBucket} {now : ℚ}
    (h : 1 ≤ refilled existing capacity windowMs now) :
    (consumeTokenBucket existing capacity windowMs now).1 =
        ⟨refilled existing capacity windowMs now - 1,now⟩ ∧
      (consumeTokenBucket existing capacity windowMs now).2.allowed = true := by
  rw [consumeTokenBucket,if_pos h]
  exact ⟨rfl,rfl⟩

theorem consumeTokenBucket_denied {existing : Option MemoryBucket} {now : ℚ}
    (h : refilled existing capacity windowMs now < 1) :
    (consumeTokenBucket existing capacity windowMs now).1 =
        ⟨refilled existing capacity windowMs now,now⟩ ∧
      (consumeTokenBucket existing capacity windowMs now).2.allowed = false := by
  rw [consumeTokenBucket,if_neg (not_le.mpr h)]
  exact ⟨rfl,rfl⟩

theorem kept_empty (capacity now : ℚ) : Kept capacity now InsertionMap.empty := by
  intro k bucket hb
  rw [InsertionMap.get_empty] at hb
  cases hb

/-- The bucket a call leaves for its key, and its answer, read off the store before the call. -/
theorem get_consume_self (h : NotFull capacity store) (call : Call) :
    (consume store capacity windowMs call).1.get call.key =
        some (consumeTokenBucket (store.get call.key) capacity windowMs call.now).1 ∧
      (consume store capacity windowMs call).2 =
        (consumeTokenBucket (store.get call.key) capacity windowMs call.now).2 := by
  unfold consume
  simp only [InsertionMap.get_set_self,get_cleanup h,and_self]

theorem get_consume_of_ne (h : NotFull capacity store) {call : Call} {k : String}
    (hk : k ≠ call.key) : (consume store capacity windowMs call).1.get k = store.get k := by
  unfold consume
  simp only [InsertionMap.get_set_of_ne _ hk,get_cleanup h]

theorem kept_consume (hc : 1 ≤ capacity) (hw : 1 ≤ windowMs) {now : ℚ} {call : Call}
    (h : Kept capacity now store) (hn : now ≤ call.now) :
    Kept capacity call.now (consume store capacity windowMs call).1 := by
  intro k bucket hb
  by_cases hk : k = call.key
  · subst hk
    rw [(get_consume_self h.notFull call).1,Option.some.injEq] at hb
    have hle : refilled (store.get call.key) capacity windowMs call.now ≤ capacity :=
      refilled_le hc _ _
    have hnonneg : 0 ≤ refilled (store.get call.key) capacity windowMs call.now :=
      (h.later hn).tokens_nonneg hc hw call.key
    by_cases hone : 1 ≤ refilled (store.get call.key) capacity windowMs call.now
    · rw [(consumeTokenBucket_allowed hone).1] at hb
      subst hb
      exact ⟨by linarith,by linarith,le_refl call.now⟩
    · rw [not_le] at hone
      rw [(consumeTokenBucket_denied hone).1] at hb
      subst hb
      exact ⟨hnonneg,lt_of_lt_of_le hone hc,le_refl call.now⟩
  · rw [get_consume_of_ne h.notFull hk] at hb
    exact h.later hn k bucket hb

theorem pairwise_now {calls : List Call} (h : (readings calls).Pairwise (· ≤ ·)) :
    (calls.map Call.now).Pairwise (· ≤ ·) := by
  induction calls with
  | nil => exact List.Pairwise.nil
  | cons call calls ih =>
      rw [readings,List.flatMap_cons,List.cons_append,List.cons_append,List.nil_append,
        List.pairwise_cons,List.pairwise_cons] at h
      refine List.pairwise_cons.mpr ⟨?_,ih h.2.2⟩
      intro t ht
      obtain ⟨later,hmem,rfl⟩ := List.mem_map.mp ht
      exact h.2.1 later.now (List.mem_flatMap.mpr ⟨later,hmem,by simp⟩)

theorem pairwise_twice {t : ℚ} {ts : List ℚ} (h : (t :: ts).Pairwise (· ≤ ·)) :
    (t :: t :: ts).Pairwise (· ≤ ·) := by
  refine List.pairwise_cons.mpr ⟨?_,h⟩
  intro u hu
  cases List.mem_cons.mp hu with
  | inl he => exact le_of_eq he.symm
  | inr hmem => exact (List.pairwise_cons.mp h).1 u hmem

theorem later_of_first {last : ℚ} {call : Call} {calls : List Call} (hl : last < call.now)
    (h : ((call :: calls).map Call.now).Pairwise (· ≤ ·)) : ∀ c ∈ call :: calls, last < c.now := by
  intro c hc
  cases List.mem_cons.mp hc with
  | inl he => exact he ▸ hl
  | inr hmem =>
      have hle := (List.pairwise_cons.mp h).1 _ (List.mem_map_of_mem hmem)
      exact lt_of_lt_of_le hl hle

/-- Any sequence of calls begins at some moment. -/
theorem exists_start {calls : List Call} (h : (readings calls).Pairwise (· ≤ ·)) :
    ∃ now, (now :: calls.map Call.now).Pairwise (· ≤ ·) := by
  have hnow := pairwise_now h
  cases calls with
  | nil => exact ⟨0,List.pairwise_singleton _ _⟩
  | cons call calls => exact ⟨call.now,pairwise_twice hnow⟩

theorem kept_consumed (hc : 1 ≤ capacity) (hw : 1 ≤ windowMs) {now : ℚ} {calls : List Call}
    (h : Kept capacity now store) (ht : (now :: calls.map Call.now).Pairwise (· ≤ ·)) :
    ∃ last, Kept capacity last (consumed capacity windowMs store calls) := by
  induction calls generalizing store now with
  | nil => exact ⟨now,h⟩
  | cons call calls ih =>
      rw [List.map_cons,List.pairwise_cons] at ht
      exact ih (kept_consume hc hw h (ht.1 _ List.mem_cons_self)) ht.2

theorem mem_answers {calls : List Call} {e : Call × RateLimitResult}
    (h : e ∈ answers capacity windowMs store calls) : e.1 ∈ calls := by
  induction calls generalizing store with
  | nil => cases h
  | cons call calls ih =>
      rw [answers,List.mem_cons] at h
      cases h with
      | inl he =>
          rw [he]
          exact List.mem_cons_self
      | inr hrest => exact List.mem_cons_of_mem _ (ih hrest)

theorem allowedBetween_eq_zero {first last : ℚ} {calls : List Call}
    (h : ∀ call ∈ calls, last < call.now) :
    allowedBetween key first last (answers capacity windowMs store calls) = 0 := by
  rw [allowedBetween,List.countP_eq_zero]
  intro e he
  have hlt := h e.1 (mem_answers he)
  simp only [decide_eq_true_eq,not_and,not_le]
  intro _ _ _
  exact hlt

/-- A call pays for its answer out of the tokens its key had. -/
theorem charge_le (hc : 1 ≤ capacity) (hw : 1 ≤ windowMs) {now : ℚ} {call : Call}
    (h : Kept capacity now store) :
    (if (consume store capacity windowMs call).2.allowed ∧ call.key = key then 1 else 0) +
        refilled ((consume store capacity windowMs call).1.get key) capacity windowMs call.now ≤
      refilled (store.get key) capacity windowMs call.now := by
  by_cases hk : call.key = key
  · subst hk
    rw [(get_consume_self h.notFull call).1,(get_consume_self h.notFull call).2]
    by_cases hone : 1 ≤ refilled (store.get call.key) capacity windowMs call.now
    · obtain ⟨hbucket,hallowed⟩ := consumeTokenBucket_allowed hone
      rw [hbucket,hallowed,if_pos ⟨rfl,rfl⟩,refilled_some hc hw (le_refl call.now),sub_self,
        zero_mul,add_zero]
      have hle := min_le_right capacity
        (refilled (store.get call.key) capacity windowMs call.now - 1)
      linarith
    · obtain ⟨hbucket,hdenied⟩ := consumeTokenBucket_denied (not_le.mp hone)
      rw [hbucket,hdenied,refilled_some hc hw (le_refl call.now),sub_self,zero_mul,add_zero]
      simp
  · rw [get_consume_of_ne h.notFull (Ne.symm hk)]
    simp [hk]

theorem allowedBetween_cons_le (first last : ℚ) (call : Call) (calls : List Call) :
    allowedBetween key first last (answers capacity windowMs store (call :: calls)) ≤
      allowedBetween key first last
          (answers capacity windowMs (consume store capacity windowMs call).1 calls) +
        if (consume store capacity windowMs call).2.allowed ∧ call.key = key then 1 else 0 := by
  rw [answers,allowedBetween,List.countP_cons,allowedBetween]
  apply Nat.add_le_add_left
  by_cases hp : (consume store capacity windowMs call).2.allowed ∧ call.key = key
  · rw [if_pos hp]
    split <;> omega
  · rw [if_neg hp,if_neg]
    simp only [decide_eq_true_eq]
    intro hall
    exact hp ⟨hall.1,hall.2.1⟩

/-- From `now` on, the tokens at hand and those refilled until `last` pay for every allowed call. -/
theorem allowed_le_tokens (hc : 1 ≤ capacity) (hw : 1 ≤ windowMs) {now last : ℚ} (key : String)
    (first : ℚ) {calls : List Call} (h : Kept capacity now store)
    (ht : (now :: calls.map Call.now).Pairwise (· ≤ ·)) (hl : now ≤ last) :
    (allowedBetween key first last (answers capacity windowMs store calls) : ℚ) ≤
      refilled (store.get key) capacity windowMs now + (last - now) * (capacity / windowMs) := by
  have hrate : 0 ≤ capacity / windowMs := div_nonneg (by linarith) (by linarith)
  induction calls generalizing store now with
  | nil =>
      have hnonneg := h.tokens_nonneg hc hw key
      have hgain := mul_nonneg (sub_nonneg.mpr hl) hrate
      simp only [answers,allowedBetween,List.countP_nil,Nat.cast_zero]
      linarith
  | cons call calls ih =>
      rw [List.map_cons,List.pairwise_cons] at ht
      have hn : now ≤ call.now := ht.1 _ List.mem_cons_self
      by_cases hin : call.now ≤ last
      · have htail := ih (kept_consume hc hw h hn) ht.2 hin
        have hcharge : _ ≤ refilled (store.get key) capacity windowMs call.now :=
          charge_le hc hw h
        have hrefill := h.tokens_later hc hw hn key
        have hhead : (allowedBetween key first last
            (answers capacity windowMs store (call :: calls)) : ℚ) ≤ _ :=
          Nat.cast_le.mpr (allowedBetween_cons_le first last call calls)
        rw [Nat.cast_add,Nat.cast_ite,Nat.cast_one,Nat.cast_zero] at hhead
        have hsplit : (last - now) * (capacity / windowMs) =
            (call.now - now) * (capacity / windowMs) +
              (last - call.now) * (capacity / windowMs) := by
          ring
        linarith
      · have hlater := later_of_first (not_le.mp hin) ht.2
        have hnonneg := h.tokens_nonneg hc hw key
        have hgain := mul_nonneg (sub_nonneg.mpr hl) hrate
        rw [allowedBetween_eq_zero hlater,Nat.cast_zero]
        linarith

/-- Calls before the interval are not counted, and the first one in it finds at most a full
bucket. -/
theorem allowed_le_rate (hc : 1 ≤ capacity) (hw : 1 ≤ windowMs) {now first last : ℚ}
    (key : String) {calls : List Call} (h : Kept capacity now store)
    (ht : (now :: calls.map Call.now).Pairwise (· ≤ ·)) (hl : first ≤ last) :
    (allowedBetween key first last (answers capacity windowMs store calls) : ℚ) ≤
      capacity + (last - first) * (capacity / windowMs) := by
  have hrate : 0 ≤ capacity / windowMs := div_nonneg (by linarith) (by linarith)
  have hgain := mul_nonneg (sub_nonneg.mpr hl) hrate
  induction calls generalizing store now with
  | nil =>
      simp only [answers,allowedBetween,List.countP_nil,Nat.cast_zero]
      linarith
  | cons call calls ih =>
      rw [List.map_cons,List.pairwise_cons] at ht
      have hn : now ≤ call.now := ht.1 _ List.mem_cons_self
      by_cases hin : first ≤ call.now
      · by_cases hend : call.now ≤ last
        · have hsame : (call.now :: (call :: calls).map Call.now).Pairwise (· ≤ ·) :=
            pairwise_twice ht.2
          have htokens := allowed_le_tokens hc hw key first (h.later hn) hsame hend
          have hfull : refilled (store.get key) capacity windowMs call.now ≤ capacity :=
            refilled_le hc _ _
          have hless := mul_le_mul_of_nonneg_right (sub_le_sub_left hin last) hrate
          linarith
        · rw [allowedBetween_eq_zero (later_of_first (not_le.mp hend) ht.2),Nat.cast_zero]
          linarith
      · have hskip : allowedBetween key first last
              (answers capacity windowMs store (call :: calls)) =
            allowedBetween key first last
              (answers capacity windowMs (consume store capacity windowMs call).1 calls) := by
          rw [answers,allowedBetween,List.countP_cons_of_neg,allowedBetween]
          simp only [decide_eq_true_eq]
          intro hall
          exact hin hall.2.2.1
        rw [hskip]
        exact ih (kept_consume hc hw h hn) ht.2

end Bound

/-- Every stored bucket holds between no tokens and a full bucket, and in no interval does a key
get more than a full bucket and what the interval refills. -/
theorem token_bucket_bound (capacity : ℕ) (windowMs : ℚ) (calls : List Call) (hc : 1 ≤ capacity)
    (hw : 1 ≤ windowMs) (ht : (readings calls).Pairwise (· ≤ ·)) :
    (∀ key bucket, (consumed capacity windowMs InsertionMap.empty calls).get key = some bucket →
      0 ≤ bucket.tokens ∧ bucket.tokens ≤ capacity) ∧
    ∀ (key : String) (start length : ℚ), 0 ≤ length →
      (allowedBetween key start (start + length)
        (answers capacity windowMs InsertionMap.empty calls) : ℤ) ≤
          capacity + ⌊length * capacity / windowMs⌋ := by
  have hc' : (1 : ℚ) ≤ capacity := Nat.one_le_cast.mpr hc
  obtain ⟨now,hnow⟩ := exists_start ht
  constructor
  · obtain ⟨last,hkept⟩ := kept_consumed hc' hw (kept_empty capacity now) hnow
    intro key bucket hb
    have hbucket := hkept key bucket hb
    exact ⟨hbucket.1,le_of_lt hbucket.2.1⟩
  · intro key start length hlength
    have hrate := allowed_le_rate hc' hw key (kept_empty capacity now) hnow
      (le_add_of_nonneg_right hlength : start ≤ start + length)
    rw [add_sub_cancel_left,← mul_div_assoc] at hrate
    rw [← Int.floor_natCast_add,Int.le_floor]
    exact_mod_cast hrate

/-- Five calls for two keys within a second. -/
def burst : List Call :=
  [⟨"a",0,0⟩,⟨"a",0,1⟩,⟨"a",1,2⟩,⟨"b",2,2⟩,⟨"a",600,601⟩]

theorem token_bucket_bound_burst :
    (readings burst).Pairwise (· ≤ ·) ∧
    allowedBetween "a" 0 1000 (answers (2 : ℕ) 1000 InsertionMap.empty burst) = 3 ∧
    (allowedBetween "a" 0 (0 + 1000) (answers (2 : ℕ) 1000 InsertionMap.empty burst) : ℤ) ≤
      (2 : ℕ) + ⌊(1000 : ℚ) * (2 : ℕ) / 1000⌋ := by
  have hreadings : (readings burst).Pairwise (· ≤ ·) := by decide +kernel
  refine ⟨hreadings,by decide +kernel,?_⟩
  exact (token_bucket_bound 2 1000 burst (by decide) (by norm_num) hreadings).2 "a" 0 1000
    (by norm_num)

end Creditra.RateLimits
