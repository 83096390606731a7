import Creditra.RedisConnections

/-!
# How many calls the Redis rate limiter admits

A script refills by the time since the caller before it read its clock, and each
caller read its own when its `consume` began. Scripts need not run in that order:
one that comes late sets the hash back, and the next one refills for the same
time again. What a bucket gives out is bounded by how far the clocks moved from
each script to the next. The arithmetic of the script is exact: the doubles of
Redis and the texts it keeps of them are rationals.
-/
namespace Creditra.RedisAdmissions
open GuardedRuns InsertionMaps RateLimits RedisRateLimits RedisConnections

/-! ## One hash -/

/-- The script has charged a token. -/
def tookToken (values : List ℤ) : Bool := values.head? = some 1

/-- From one script to the next: how far the callers' readings moved forward, or Redis's clock. -/
def gap (e e' : Execution) : ℕ := max (e'.now - e.now) (e'.clock - e.clock)

def moved : List Execution → ℕ
  | e :: e' :: log => gap e e' + moved (e' :: log)
  | _ => 0

/-- The scripts that ran on a key of Redis. -/
def ranOn (log : List Execution) (key : String) : List Execution := log.filter (·.key = key)

theorem moved_concat (log : List Execution) (e e' : Execution) :
    moved (log ++ [e] ++ [e']) = moved (log ++ [e]) + gap e e' := by
  induction log with
  | nil => simp [moved]
  | cons d log ih =>
      cases log with
      | nil => simp [moved]
      | cons d' log =>
          simp only [List.cons_append,moved] at ih ⊢
          rw [ih,Nat.add_assoc]

theorem ranOn_concat_self (log : List Execution) (e : Execution) :
    ranOn (log ++ [e]) e.key = ranOn log e.key ++ [e] := by
  simp [ranOn]

theorem ranOn_concat_of_ne (log : List Execution) {e : Execution} {key : String}
    (h : e.key ≠ key) : ranOn (log ++ [e]) key = ranOn log key := by
  simp [ranOn,h]

section Script
variable {capacity windowMs : ℕ} {redis : Redis} {key : String}

/-- What a script finds. -/
def found (redis : Redis) (key : String) (capacity windowMs now clock : ℕ) : ℚ :=
  scriptTokens (hmget redis key clock) capacity windowMs now

def charge (tokens : ℚ) : ℕ := if 1 ≤ tokens then 1 else 0

variable (redis key) in
theorem evalScript_eq (hc : 1 ≤ capacity) (hw : 1 ≤ windowMs) (now clock : ℕ) :
    let tokens := found redis key capacity windowMs now clock
    (evalScript redis key capacity windowMs now clock).1 =
        redis.set key ⟨tokens - charge tokens,now,clock + windowMs * 2⟩ ∧
      (if tookToken (evalScript redis key capacity windowMs now clock).2 then 1 else 0) =
        charge tokens := by
  have hvalid : ¬((capacity : ℚ) ≤ 0 ∨ (windowMs : ℚ) ≤ 0) := by
    rw [not_or,not_le,not_le]
    exact ⟨by exact_mod_cast hc,by exact_mod_cast hw⟩
  have hceil : ((⌈(windowMs : ℚ) * 2⌉ : ℤ) : ℚ) = windowMs * 2 := by
    have : ((windowMs : ℚ) * 2) = ((windowMs * 2 : ℤ) : ℚ) := by push_cast; rfl
    rw [this,Int.ceil_intCast]
  simp only [evalScript,if_neg hvalid,hceil,found,charge]
  by_cases hone : 1 ≤ scriptTokens (hmget redis key clock) capacity windowMs now
  · simp [hone,tookToken]
  · simp [hone,tookToken]

/-- Without room or without a window the script admits nobody. -/
theorem tookToken_evalScript_zero (h : capacity = 0 ∨ windowMs = 0) (now clock : ℕ) :
    tookToken (evalScript redis key capacity windowMs now clock).2 = false := by
  have hzero : ((capacity : ℚ) ≤ 0 ∨ (windowMs : ℚ) ≤ 0) := by
    rcases h with rfl | rfl <;> simp
  rw [evalScript,if_pos hzero]
  rfl

theorem found_none (h : redis.get key = none) (now clock : ℕ) :
    found redis key capacity windowMs now clock = capacity := by
  simp [found,hmget,h,scriptTokens]

variable (capacity) in
/-- Also a hash that has expired would have been full. -/
theorem found_le {hash : RedisHash} {e : Execution} (hw : 1 ≤ windowMs)
    (hget : redis.get key = some hash) (hlast : hash.lastRefill = e.now)
    (hexp : hash.expiresAt = e.clock + windowMs * 2) (hnonneg : 0 ≤ hash.tokens)
    (e' : Execution) :
    0 ≤ found redis key capacity windowMs e'.now e'.clock ∧
      found redis key capacity windowMs e'.now e'.clock ≤
        hash.tokens + gap e e' * (capacity / windowMs) := by
  have hrate : (0 : ℚ) ≤ capacity / windowMs := by positivity
  by_cases hlive : (e'.clock : ℚ) < hash.expiresAt
  · have hm : hmget redis key e'.clock = some hash := by
      simp [hmget,hget,Option.filter,hlive]
    have helapsed : (if (e'.now : ℚ) - hash.lastRefill < 0 then 0 else e'.now - hash.lastRefill) =
        ((e'.now - e.now : ℕ) : ℚ) := by
      rw [hlast]
      split
      · rename_i hlt
        have : e'.now ≤ e.now := by
          have : (e'.now : ℚ) < e.now := by linarith
          exact_mod_cast this.le
        rw [Nat.sub_eq_zero_of_le this,Nat.cast_zero]
      · rename_i hge
        have : e.now ≤ e'.now := by
          have : (e.now : ℚ) ≤ e'.now := by linarith
          exact_mod_cast this
        rw [Nat.cast_sub this]
    simp only [found,hm,scriptTokens,helapsed]
    have hgap : ((e'.now - e.now : ℕ) : ℚ) ≤ gap e e' := by
      exact_mod_cast Nat.le_max_left _ _
    constructor
    · have hterm : (0 : ℚ) ≤ ((e'.now - e.now : ℕ) : ℚ) * (capacity / windowMs) := by positivity
      exact le_min (Nat.cast_nonneg capacity) (by linarith)
    · refine (min_le_right _ _).trans ?_
      have := mul_le_mul_of_nonneg_right hgap hrate
      linarith
  · have hm : hmget redis key e'.clock = none := by
      simp [hmget,hget,Option.filter,hlive]
    simp only [found,hm,scriptTokens]
    refine ⟨Nat.cast_nonneg capacity,?_⟩
    have hclock : e.clock + windowMs * 2 ≤ e'.clock := by
      rw [hexp,not_lt] at hlive
      exact_mod_cast hlive
    have hgap : windowMs ≤ gap e e' := by
      have := Nat.le_max_right (e'.now - e.now) (e'.clock - e.clock)
      unfold gap
      omega
    have hfull : (capacity : ℚ) ≤ gap e e' * (capacity / windowMs) := by
      calc (capacity : ℚ) = windowMs * (capacity / windowMs) := by
            rw [mul_div_cancel₀]
            positivity
        _ ≤ gap e e' * (capacity / windowMs) :=
            mul_le_mul_of_nonneg_right (by exact_mod_cast hgap) hrate
    linarith

end Script

/-- The hash of a key is what its scripts left, and what it gave out and still holds has been
paid for. -/
structure Metered (capacity windowMs : ℕ) (key : String) (redis : Redis) (log : List Execution) :
    Prop where
  fresh : ranOn log key = [] → redis.get key = none
  left : ∀ earlier last, ranOn log key = earlier ++ [last] → ∃ hash, redis.get key = some hash ∧
    hash.lastRefill = last.now ∧ hash.expiresAt = last.clock + windowMs * 2 ∧ 0 ≤ hash.tokens ∧
    ((ranOn log key).countP (tookToken ·.reply) : ℚ) + hash.tokens ≤
      capacity + moved (ranOn log key) * (capacity / windowMs)

section Runs
variable {s : Limiter} {p : Process} {key : String} {capacity windowMs : ℕ} {redis : Redis}
  {log : List Execution}

theorem charge_le {tokens : ℚ} (h : 0 ≤ tokens) : (charge tokens : ℚ) ≤ tokens := by
  unfold charge
  split
  · simpa
  · simpa using h

/-- What a script finds is covered by what the scripts before it have left and the time since. -/
theorem Metered.found_le (hw : 1 ≤ windowMs) (h : Metered capacity windowMs key redis log)
    (e : Execution) :
    0 ≤ found redis key capacity windowMs e.now e.clock ∧
      ((ranOn log key).countP (tookToken ·.reply) : ℚ) +
          found redis key capacity windowMs e.now e.clock ≤
        capacity + moved (ranOn log key ++ [e]) * (capacity / windowMs) := by
  rcases List.eq_nil_or_concat (ranOn log key) with hnil | ⟨earlier,last,hlast⟩
  · rw [found_none (h.fresh hnil),hnil]
    simp [moved]
  · rw [List.concat_eq_append] at hlast
    obtain ⟨hash,hget,hnow,hexp,hnonneg,hcount⟩ := h.left earlier last hlast
    obtain ⟨hpos,hle⟩ := RedisAdmissions.found_le capacity hw hget hnow hexp hnonneg e
    refine ⟨hpos,?_⟩
    rw [hlast] at hcount ⊢
    rw [moved_concat,Nat.cast_add,add_mul]
    linarith

theorem Metered.execute (hc : 1 ≤ capacity) (hw : 1 ≤ windowMs)
    (h : Metered capacity windowMs key redis log) (key' : String) (now clock : ℕ) :
    Metered capacity windowMs key (evalScript redis key' capacity windowMs now clock).1
      (log ++ [⟨key',now,clock,(evalScript redis key' capacity windowMs now clock).2⟩]) := by
  obtain ⟨hset,htook⟩ := evalScript_eq redis key' hc hw now clock
  rw [hset]
  by_cases hkey : key' = key
  · subst hkey
    generalize hreply : (evalScript redis key' capacity windowMs now clock).2 = values at htook ⊢
    have hself := ranOn_concat_self log ⟨key',now,clock,values⟩
    obtain ⟨hpos,hcover⟩ := h.found_le hw ⟨key',now,clock,values⟩
    have hcharge := charge_le hpos
    constructor
    · intro hnil
      rw [hself] at hnil
      simp at hnil
    · intro earlier last hlast
      obtain rfl : last = ⟨key',now,clock,values⟩ := by
        rw [hself] at hlast
        exact (List.singleton_inj.mp (List.append_inj_right' hlast rfl)).symm
      refine ⟨_,InsertionMap.get_set_self _ _ _,rfl,rfl,sub_nonneg.mpr hcharge,?_⟩
      have htaken : [(⟨key',now,clock,values⟩ : Execution)].countP (tookToken ·.reply) =
          charge (found redis key' capacity windowMs now clock) := by
        rw [← htook,List.countP_singleton]
      rw [hself,List.countP_append,htaken]
      push_cast
      linarith
  · have hran := ranOn_concat_of_ne log
      (e := ⟨key',now,clock,(evalScript redis key' capacity windowMs now clock).2⟩) hkey
    constructor
    · intro hnil
      rw [InsertionMap.get_set_of_ne _ (Ne.symm hkey)]
      exact h.fresh (hran ▸ hnil)
    · intro earlier last hlast
      rw [hran] at hlast ⊢
      rw [InsertionMap.get_set_of_ne _ (Ne.symm hkey)]
      exact h.left earlier last hlast

/-- What holds of the server and its log, and of them once any script has run, holds after any
step. -/
theorem server_step {P : Redis → List Execution → Prop} (h : P p.redis p.log)
    (executes : ∀ c, P (Process.scriptOf s p c).1 (p.log ++ [Process.executionOf s p c]))
    (op : Op) : P (Process.step s p op).redis (Process.step s p op).log := by
  rcases Process.next_step s p op with hn | ⟨ms,rfl⟩
  · have hnext := hn.next
    generalize (Process.step s p op).calls = calls, (Process.step s p op).redis = redis,
      (Process.step s p op).log = log at hnext ⊢
    cases hnext with
    | same => exact h
    | moved => exact h
    | joined => exact h
    | executed i c => exact executes c
  · exact h

theorem metered_step (hc : 1 ≤ s.capacity) (hw : 1 ≤ s.windowMs) (key : String)
    (h : Metered s.capacity s.windowMs key p.redis p.log) (op : Op) :
    Metered s.capacity s.windowMs key (Process.step s p op).redis (Process.step s p op).log :=
  server_step h (fun c => h.execute hc hw (buildKey s.toOptions c.key) c.now p.clock) op

/-- Without room or without a window no script takes a token. -/
theorem none_took_step (hz : s.capacity = 0 ∨ s.windowMs = 0)
    (h : ∀ e ∈ p.log, tookToken e.reply = false) (op : Op) :
    ∀ e ∈ (Process.step s p op).log, tookToken e.reply = false := by
  refine server_step (P := fun _ log => ∀ e ∈ log, tookToken e.reply = false) h ?_ op
  intro c e he
  rcases List.mem_append.mp he with he | he
  · exact h e he
  · rw [List.mem_singleton.mp he]
    exact tookToken_evalScript_zero hz c.now p.clock

/-- What the scripts of a key gave out, over any run. -/
theorem took_le (s : Limiter) (ops : List Op) (key : String) :
    let log := ranOn (run (Process.step s) Process.idle ops).log key
    (log.countP (tookToken ·.reply) : ℚ) ≤
      s.capacity + moved log * (s.capacity / s.windowMs) := by
  intro log
  by_cases hz : s.capacity = 0 ∨ s.windowMs = 0
  · have hidle : ∀ e ∈ Process.idle.log, tookToken e.reply = false := by simp [Process.idle]
    have hnone := run_induction
      (I := fun p : Process => ∀ e ∈ p.log, tookToken e.reply = false)
      (fun p op h => none_took_step hz h op) hidle ops
    have hcount : log.countP (tookToken ·.reply) = 0 := by
      rw [List.countP_eq_zero]
      intro e he
      rw [hnone e (List.mem_of_mem_filter he)]
      exact Bool.false_ne_true
    rw [hcount,Nat.cast_zero]
    positivity
  · rw [not_or] at hz
    have hc : 1 ≤ s.capacity := by omega
    have hw : 1 ≤ s.windowMs := by omega
    have hidle : Metered s.capacity s.windowMs key Process.idle.redis Process.idle.log :=
      ⟨fun _ => InsertionMap.get_empty key,by simp [Process.idle,ranOn]⟩
    have hmeter := run_induction
      (I := fun p : Process => Metered s.capacity s.windowMs key p.redis p.log)
      (fun p op h => metered_step hc hw key h op) hidle ops
    rcases List.eq_nil_or_concat log with hnil | ⟨earlier,last,hlast⟩
    · rw [hnil,List.countP_nil,Nat.cast_zero]
      positivity
    · rw [List.concat_eq_append] at hlast
      obtain ⟨hash,-,-,-,hnonneg,hle⟩ := hmeter.left earlier last hlast
      linarith

/-! ## The calls of a key -/

/-- The script of the call has taken a token. -/
def Paid (c : Consume) : Bool := c.reply.any tookToken

def Admitted (c : Consume) : Bool :=
  match c.phase with
  | .answered _ _ result => result.allowed
  | _ => false

/-- Let through without Redis. -/
def Unmetered (s : Limiter) (c : Consume) : Bool :=
  match c.phase with
  | .answered _ byRedis _ => !byRedis && decide (s.failureMode = .openMode)
  | _ => false

theorem Honest.admitted {c : Consume} (h : c.Honest s) (ha : Admitted c) :
    Paid c ∨ Unmetered s c := by
  unfold Admitted at ha
  split at ha
  · rename_i time byRedis result hphase
    have hanswer := h time byRedis result hphase
    cases byRedis with
    | true =>
        obtain ⟨values,hreply,hparse⟩ := hanswer
        left
        rw [Paid,hreply,Option.any_some]
        unfold parseRedisConsumeResult at hparse
        split at hparse
        · obtain rfl := Option.some.inj hparse
          simpa [tookToken] using ha
        · cases hparse
    | false =>
        right
        obtain rfl : result = _ := hanswer
        cases hmode : s.failureMode with
        | openMode => simp [Unmetered,hphase,hmode]
        | closedMode => simp [fallbackResult,hmode] at ha
  · cases ha

/-- One party moves, and is counted or not before and after. -/
theorem countP_moved {α : Type} {xs : List α} {i : ℕ} {x : α} (q : α → Bool)
    (h : xs[i]? = some x) (x' : α) :
    (xs.set i x').countP q + (if q x then 1 else 0) = xs.countP q + if q x' then 1 else 0 := by
  obtain ⟨hi,rfl⟩ := List.getElem?_eq_some_iff.mp h
  have hle := List.boole_getElem_le_countP (p := q) hi
  rw [List.countP_set hi]
  omega

theorem countP_le_add {α : Type} {q r t : α → Bool} {xs : List α}
    (h : ∀ x ∈ xs, q x → r x ∨ t x) : xs.countP q ≤ xs.countP r + xs.countP t := by
  induction xs with
  | nil => simp
  | cons x xs ih =>
      have hx := h x List.mem_cons_self
      have hrest := ih fun y hy => h y (List.mem_cons_of_mem x hy)
      simp only [List.countP_cons]
      cases hq : q x <;> cases hr : r x <;> cases ht : t x <;> simp_all <;> omega

/-- The call has had a token from this key of Redis. -/
def paidOn (s : Limiter) (key : String) (c : Consume) : Bool :=
  decide (buildKey s.toOptions c.key = key) && Paid c

/-- The tokens that scripts took are those their callers have paid with. -/
def Balanced (s : Limiter) (key : String) (p : Process) : Prop :=
  p.calls.countP (paidOn s key) = (ranOn p.log key).countP (tookToken ·.reply)

theorem paidOn_moves {c c' : Consume} (h : Process.Moves s p c c') :
    paidOn s key c' = paidOn s key c := by
  cases h <;> rfl

theorem paidOn_joins {c : Consume} (h : Process.Joins s p c) : paidOn s key c = false := by
  simp [paidOn,Paid,h.reply]

theorem balanced_execute {i : ℕ} {c : Consume} (h : Balanced s key p)
    (hi : p.calls[i]? = some c) (hr : c.reply = none) :
    (p.calls.set i { c with reply := some (Process.scriptOf s p c).2 }).countP (paidOn s key) =
      (ranOn (p.log ++ [Process.executionOf s p c]) key).countP (tookToken ·.reply) := by
  have hmoved := countP_moved (paidOn s key) hi { c with reply := some (Process.scriptOf s p c).2 }
  have hbefore : paidOn s key c = false := by simp [paidOn,Paid,hr]
  rw [hbefore,h] at hmoved
  by_cases hkey : buildKey s.toOptions c.key = key
  · subst hkey
    have hself := ranOn_concat_self p.log (Process.executionOf s p c)
    rw [show (Process.executionOf s p c).key = buildKey s.toOptions c.key from rfl] at hself
    have hpaid : paidOn s (buildKey s.toOptions c.key)
        { c with reply := some (Process.scriptOf s p c).2 } =
          tookToken (Process.executionOf s p c).reply := by
      simp [paidOn,Paid,Process.executionOf]
    rw [hself,List.countP_append,List.countP_singleton,← hpaid]
    simpa using hmoved
  · rw [ranOn_concat_of_ne p.log (e := Process.executionOf s p c) hkey]
    simpa [paidOn,hkey] using hmoved

theorem balanced_step (h : Balanced s key p) (op : Op) : Balanced s key (Process.step s p op) := by
  rcases Process.next_step s p op with hn | ⟨ms,rfl⟩
  · have hnext := hn.next
    unfold Balanced
    generalize (Process.step s p op).calls = calls, (Process.step s p op).redis = redis,
      (Process.step s p op).log = log at hnext ⊢
    cases hnext with
    | same => exact h
    | moved i c c' hi hc =>
        have hmoved := countP_moved (paidOn s key) hi c'
        rw [paidOn_moves hc] at hmoved
        rw [← h]
        omega
    | executed i c hi hr => exact balanced_execute h hi hr
    | joined c hc =>
        rw [List.countP_append,List.countP_singleton,paidOn_joins hc]
        exact h
  · exact h

end Runs

/-- The calls for a key that were let through. -/
def admitted (p : Process) (key : String) : ℕ :=
  p.calls.countP fun c => decide (c.key = key) && Admitted c

def unmetered (s : Limiter) (p : Process) (key : String) : ℕ :=
  p.calls.countP fun c => decide (c.key = key) && Unmetered s c

theorem unmetered_closed {s : Limiter} (h : s.failureMode = .closedMode) (p : Process)
    (key : String) : unmetered s p key = 0 := by
  rw [unmetered,List.countP_eq_zero]
  intro c _
  simp only [Unmetered,h]
  split <;> simp

/-- In exact arithmetic, however calls overlap, time out, fail or run late: those admitted for a
key are at most its capacity, and one for each `windowMs / capacity` that the clocks moved forward
from one of its scripts to the next, and in the open mode those that were let through without
Redis. In the closed mode there are none of these. -/
theorem admitted_le (s : Limiter) (ops : List Op) (key : String) :
    let p := run (Process.step s) Process.idle ops
    let log := ranOn p.log (buildKey s.toOptions key)
    (admitted p key : ℚ) ≤
        s.capacity + moved log * (s.capacity / s.windowMs) + unmetered s p key ∧
      (s.failureMode = .closedMode → unmetered s p key = 0) := by
  intro p log
  refine ⟨?_,fun h => unmetered_closed h p key⟩
  have hpaid : admitted p key ≤
      p.calls.countP (paidOn s (buildKey s.toOptions key)) + unmetered s p key := by
    refine countP_le_add ?_
    intro c hc hadm
    rw [Bool.and_eq_true,decide_eq_true_eq] at hadm
    obtain ⟨rfl,hadm⟩ := hadm
    simpa [paidOn] using Honest.admitted (Process.honest_run s ops c hc) hadm
  have hidle : Balanced s (buildKey s.toOptions key) Process.idle := rfl
  have hbalanced : Balanced s (buildKey s.toOptions key) p :=
    run_induction (I := Balanced s (buildKey s.toOptions key)) (fun _ op h => balanced_step h op)
      hidle ops
  rw [hbalanced] at hpaid
  have htook := took_le s ops (buildKey s.toOptions key)
  have hcast : (admitted p key : ℚ) ≤
      (log.countP (tookToken ·.reply) : ℚ) + unmetered s p key := by
    exact_mod_cast hpaid
  linarith

/-- One token in a window of 1000, and a script that began first runs second: the third caller
is let through at the reading of the clock at which the first one was. -/
example :
    let s : Limiter := ⟨{ bySha256 with failureMode := .closedMode },1000,1,1000⟩
    let start : List Op := [.consume "a",.advance 1000,.opens true]
    let p := run (Process.step s) Process.idle (start ++ [.consume "a",.execute 1,.reply 1,
      .connectSettles 0 true,.resume 0,.execute 0,.consume "a",.execute 2,.reply 2])
    p.calls.map (fun c => (c.now,Admitted c)) = [(0,false),(1000,true),(1000,true)] := by
  decide +kernel

end Creditra.RedisAdmissions
