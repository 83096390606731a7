import Creditra.GuardedRuns
import Creditra.RedisRateLimits

/-!
# Calls of the Redis rate limiter under way

`RedisRateLimitStore` of `middleware/rateLimit.ts` as its calls overlap. A call of
`consume` connects if the client is not open, then has the script run, and waits
for either at most `operationTimeoutMs`; whatever fails, it answers with the
fallback. Calls that wait for a connection share one promise. A call that gives
up on it drops the promise, although `client.connect` may still be at work.

The client and the server do what they like: a connection may settle late or never,
a script may run after its caller has given up, a reply may be lost. Time is in
milliseconds, on one clock. All calls of a limiter have one capacity and one
window, and the arithmetic of the script is exact.
-/
namespace Creditra.RedisConnections
open GuardedRuns InsertionMaps RateLimits RedisRateLimits

/-- The store with the arguments its calls have in common. -/
structure Limiter extends Options where
  operationTimeoutMs : ℕ
  capacity : ℕ
  windowMs : ℕ

/-- The script on a server whose clock shows `clock`: hashes expire on that one, while `now` is
what the caller read when its `consume` began. -/
def evalScript (redis : Redis) (key : String) (capacity windowMs now clock : ℚ) :
    Redis × List ℤ :=
  if capacity ≤ 0 ∨ windowMs ≤ 0 then (redis,[0,0,integerReply (now + windowMs)])
  else
    let found := scriptTokens (hmget redis key clock) capacity windowMs now
    let allowed := decide (1 ≤ found)
    let tokens := if allowed then found - 1 else found
    let remaining := if ⌊tokens⌋ < 0 then 0 else ⌊tokens⌋
    let resetAt := scriptResetAt allowed tokens capacity windowMs now
    (redis.set key ⟨tokens,now,clock + ⌈windowMs * 2⌉⟩,
      [if allowed then 1 else 0,remaining,integerReply resetAt])

/-- For a caller whose script runs at once. -/
theorem evalScript_now (redis : Redis) (key : String) (capacity windowMs now : ℚ) :
    evalScript redis key capacity windowMs now now =
      REDIS_CONSUME_SCRIPT redis key capacity windowMs now := rfl

/-- A call of `client.connect`: when it began, and when and how its promise settled. -/
structure Attempt where
  began : ℕ
  settled : Option (ℕ × Bool)

inductive Phase
  | connecting (attempt : ℕ)
  | evaluating
  | answered (time : ℕ) (byRedis : Bool) (result : RateLimitResult)

/-- A call of `consume`. `timer` is when the timeout of its phase is due; `reply` is what its
script answered, once the server has run it. -/
structure Consume where
  key : String
  now : ℕ
  phase : Phase
  timer : ℕ
  sent : Bool
  reply : Option (List ℤ)

/-- A script as the server ran it. -/
structure Execution where
  key : String
  now : ℕ
  clock : ℕ
  reply : List ℤ

/-- The store, its client, the server, the calls so far and the scripts that ran. -/
structure Process where
  clock : ℕ
  isOpen : Bool
  connectPromise : Option ℕ
  attempts : List Attempt
  calls : List Consume
  redis : Redis
  log : List Execution

inductive Op
  | advance (ms : ℕ)
  | consume (key : String)
  /-- The client opens or closes. -/
  | opens (isOpen : Bool)
  | connectSettles (attempt : ℕ) (ok : Bool)
  /-- A call goes on after its connection has settled. -/
  | resume (call : ℕ)
  | timeout (call : ℕ)
  | execute (call : ℕ)
  | reply (call : ℕ)
  /-- `client.eval` rejects. -/
  | evalFails (call : ℕ)

namespace Process

def idle : Process := ⟨0,false,none,[],[],.empty,[]⟩

section Steps
variable (s : Limiter)

/-- The `catch` of `consume`. -/
def failed (p : Process) (c : Consume) : Consume :=
  let result := fallbackResult s.failureMode c.now s.windowMs s.capacity
  { c with phase := .answered p.clock false result }

/-- `consume` hands its script to the client. -/
def evaluate (p : Process) (c : Consume) : Consume :=
  { c with
    phase := .evaluating
    timer := p.clock + s.operationTimeoutMs
    sent := true }

def consume (p : Process) (key : String) : Process :=
  let timer := p.clock + s.operationTimeoutMs
  if p.isOpen then
    { p with calls := p.calls ++ [⟨key,p.clock,.evaluating,timer,true,none⟩] }
  else
    match p.connectPromise with
    | some attempt =>
        { p with calls := p.calls ++ [⟨key,p.clock,.connecting attempt,timer,false,none⟩] }
    | none => { p with
        connectPromise := some p.attempts.length
        attempts := p.attempts ++ [⟨p.clock,none⟩]
        calls := p.calls ++ [⟨key,p.clock,.connecting p.attempts.length,timer,false,none⟩] }

def connectSettles (p : Process) (attempt : ℕ) (ok : Bool) : Process :=
  match p.attempts[attempt]? with
  | some ⟨began,none⟩ =>
      { p with attempts := p.attempts.set attempt ⟨began,some (p.clock,ok)⟩ }
  | _ => p

/-- The `finally` of `connect`. -/
def release (p : Process) (attempt : ℕ) : Process :=
  { p with connectPromise := if p.connectPromise = some attempt then none else p.connectPromise }

def setCall (p : Process) (i : ℕ) (c : Consume) : Process :=
  { p with calls := p.calls.set i c }

def resume (p : Process) (i : ℕ) (c : Consume) : Process :=
  match c.phase with
  | .connecting attempt =>
      match p.attempts[attempt]?.bind Attempt.settled with
      | some (_,true) => (p.release attempt).setCall i (evaluate s p c)
      | some (_,false) => (p.release attempt).setCall i (failed s p c)
      | none => p
  | _ => p

def timeout (p : Process) (i : ℕ) (c : Consume) : Process :=
  if c.timer ≤ p.clock then
    match c.phase with
    | .connecting attempt => (p.release attempt).setCall i (failed s p c)
    | .evaluating => p.setCall i (failed s p c)
    | .answered .. => p
  else p

/-- The server runs the script of a call, also of one that has given up. -/
def execute (p : Process) (i : ℕ) (c : Consume) : Process :=
  if c.sent ∧ c.reply = none then
    let key := buildKey s.toOptions c.key
    let result := evalScript p.redis key s.capacity s.windowMs c.now p.clock
    { p.setCall i { c with reply := some result.2 } with
      redis := result.1
      log := p.log ++ [⟨key,c.now,p.clock,result.2⟩] }
  else p

def reply (p : Process) (i : ℕ) (c : Consume) : Process :=
  match c.phase, c.reply with
  | .evaluating, some values =>
      match parseRedisConsumeResult values with
      | some result => p.setCall i { c with phase := .answered p.clock true result }
      | none => p.setCall i (failed s p c)
  | _, _ => p

def evalFails (p : Process) (i : ℕ) (c : Consume) : Process :=
  match c.phase with
  | .evaluating => p.setCall i (failed s p c)
  | _ => p

/-- What happens to one of the calls. -/
def onCall (p : Process) (i : ℕ) (act : Process → ℕ → Consume → Process) : Process :=
  match p.calls[i]? with
  | some c => act p i c
  | none => p

def step (p : Process) : Op → Process
  | .advance ms => { p with clock := p.clock + ms }
  | .consume key => p.consume s key
  | .opens isOpen => { p with isOpen := isOpen }
  | .connectSettles attempt ok => p.connectSettles attempt ok
  | .resume i => p.onCall i (resume s)
  | .timeout i => p.onCall i (timeout s)
  | .execute i => p.onCall i (execute s)
  | .reply i => p.onCall i (reply s)
  | .evalFails i => p.onCall i (evalFails s)

end Steps

theorem onCall_induction {motive : Process → Prop} {p : Process} {i : ℕ}
    {act : Process → ℕ → Consume → Process} (none : motive p)
    (some : ∀ c, p.calls[i]? = some c → motive (act p i c)) : motive (p.onCall i act) := by
  unfold onCall
  cases h : p.calls[i]? with
  | none => exact none
  | some c => exact some c h

/-! ## Connections -/

end Process

/-- The attempt is over at `time`, or has had its time. -/
def Attempt.Over (ms : ℕ) (x : Attempt) (time : ℕ) : Prop :=
  (∃ t ok, x.settled = some (t,ok) ∧ t ≤ time) ∨ x.began + ms ≤ time

theorem Attempt.Over.later {ms : ℕ} {x : Attempt} {t t' : ℕ} (h : x.Over ms t) (ht : t ≤ t') :
    x.Over ms t' := by
  rcases h with ⟨u,ok,hs,hu⟩ | h
  · exact .inl ⟨u,ok,hs,hu.trans ht⟩
  · exact .inr (h.trans ht)

namespace Process

/-- Only the last attempt is shared; one that is not shared any more is over. -/
structure Connected (s : Limiter) (p : Process) : Prop where
  current : ∀ a : ℕ, p.connectPromise = some a → a + 1 = p.attempts.length
  begun : ∀ (a : ℕ) (x : Attempt), p.attempts[a]? = some x → x.began ≤ p.clock
  past : ∀ (a : ℕ) (x : Attempt), p.attempts[a]? = some x →
    ∀ t ok, x.settled = some (t,ok) → t ≤ p.clock
  dropped : ∀ (a : ℕ) (x : Attempt), p.attempts[a]? = some x → p.connectPromise ≠ some a →
    x.Over s.operationTimeoutMs p.clock
  waiting : ∀ c ∈ p.calls, ∀ a, c.phase = .connecting a →
    ∃ x, p.attempts[a]? = some x ∧ x.began + s.operationTimeoutMs ≤ c.timer
  spaced : ∀ (a b : ℕ) (x y : Attempt), a < b → p.attempts[a]? = some x →
    p.attempts[b]? = some y → x.Over s.operationTimeoutMs y.began

section Connections
variable {s : Limiter} {p : Process}

theorem connected_idle : idle.Connected s where
  current := by simp [idle]
  begun := by simp [idle]
  past := by simp [idle]
  dropped := by simp [idle]
  waiting := by simp [idle]
  spaced := by simp [idle]

theorem Connected.advance (h : p.Connected s) (ms : ℕ) :
    ({ p with clock := p.clock + ms } : Process).Connected s where
  current := h.current
  begun := fun a x ha => (h.begun a x ha).trans (Nat.le_add_right _ _)
  past := fun a x ha t ok hs => (h.past a x ha t ok hs).trans (Nat.le_add_right _ _)
  dropped := fun a x ha hp => (h.dropped a x ha hp).later (Nat.le_add_right _ _)
  waiting := h.waiting
  spaced := h.spaced

/-- A call that joins waits for an attempt that is there, until that one has had its time. -/
theorem Connected.join (h : p.Connected s) {c : Consume}
    (hc : ∀ a, c.phase = .connecting a →
      ∃ x, p.attempts[a]? = some x ∧ x.began + s.operationTimeoutMs ≤ c.timer) :
    ({ p with calls := p.calls ++ [c] } : Process).Connected s where
  current := h.current
  begun := h.begun
  past := h.past
  dropped := h.dropped
  waiting := by
    intro d hd
    rcases List.mem_append.mp hd with hd | hd
    · exact h.waiting d hd
    · rw [List.mem_singleton.mp hd]
      exact hc
  spaced := h.spaced

/-- A new attempt is only made when every other one is over. -/
theorem Connected.attempt (h : p.Connected s) (hp : p.connectPromise = none) :
    ({ p with
      connectPromise := some p.attempts.length
      attempts := p.attempts ++ [⟨p.clock,none⟩] } : Process).Connected s where
  current := by simp
  begun := by
    intro a x ha
    rcases joined_cases ha with ha | ⟨-,rfl⟩
    · exact h.begun a x ha
    · exact le_refl _
  past := by
    intro a x ha t ok hs
    rcases joined_cases ha with ha | ⟨-,rfl⟩
    · exact h.past a x ha t ok hs
    · cases hs
  dropped := by
    intro a x ha hne
    rcases joined_cases ha with ha | ⟨rfl,-⟩
    · exact h.dropped a x ha (by simp [hp])
    · exact absurd rfl hne
  waiting := by
    intro c hc a ha
    obtain ⟨x,hx,hle⟩ := h.waiting c hc a ha
    exact ⟨x,List.getElem?_append_left (List.getElem?_eq_some_iff.mp hx).choose ▸ hx,hle⟩
  spaced := by
    intro a b x y hab ha hb
    have hx : p.attempts[a]? = some x := by
      rcases joined_cases ha with ha | ⟨rfl,-⟩
      · exact ha
      · rcases joined_cases hb with hb | ⟨rfl,-⟩
        · have := (List.getElem?_eq_some_iff.mp hb).choose
          omega
        · omega
    rcases joined_cases hb with hb | ⟨-,rfl⟩
    · exact h.spaced a b x y hab hx hb
    · exact h.dropped a x hx (by simp [hp])

theorem Connected.consume (h : p.Connected s) (key : String) : (p.consume s key).Connected s := by
  unfold Process.consume
  split
  · exact h.join (by intro a ha; cases ha)
  · split
    · rename_i attempt hp
      refine h.join ?_
      intro a ha
      cases ha
      have hlt : attempt < p.attempts.length := by
        have := h.current attempt hp
        omega
      refine ⟨p.attempts[attempt],List.getElem?_eq_getElem hlt,?_⟩
      exact Nat.add_le_add_right (h.begun attempt _ (List.getElem?_eq_getElem hlt)) _
    · rename_i hp
      refine (h.attempt hp).join ?_
      intro a ha
      cases ha
      exact ⟨⟨p.clock,none⟩,by simp,le_refl _⟩

theorem Connected.connectSettles (h : p.Connected s) (attempt : ℕ) (ok : Bool) :
    (p.connectSettles attempt ok).Connected s := by
  unfold Process.connectSettles
  split
  · rename_i began hat
    -- what was known of an attempt before it settled still holds of it
    have hset : ∀ (a : ℕ) (x : Attempt),
        (p.attempts.set attempt ⟨began,some (p.clock,ok)⟩)[a]? = some x →
        ∃ y, p.attempts[a]? = some y ∧ x.began = y.began ∧
          (∀ time, y.Over s.operationTimeoutMs time → x.Over s.operationTimeoutMs time) := by
      intro a x ha
      rcases moved_cases ha with ⟨rfl,rfl⟩ | ⟨-,ha⟩
      · refine ⟨_,hat,rfl,?_⟩
        rintro time (⟨t,ok',hs,-⟩ | hle)
        · cases hs
        · exact .inr hle
      · exact ⟨x,ha,rfl,fun _ => id⟩
    constructor
    · intro a ha
      rw [List.length_set]
      exact h.current a ha
    · intro a x ha
      obtain ⟨y,hy,hb,-⟩ := hset a x ha
      exact hb ▸ h.begun a y hy
    · intro a x ha t ok' hs
      rcases moved_cases ha with ⟨-,rfl⟩ | ⟨-,ha⟩
      · cases hs
        exact le_refl _
      · exact h.past a x ha t ok' hs
    · intro a x ha hp
      obtain ⟨y,hy,-,hover⟩ := hset a x ha
      exact hover _ (h.dropped a y hy hp)
    · intro c hc a ha
      obtain ⟨x,hx,hle⟩ := h.waiting c hc a ha
      by_cases haa : a = attempt
      · subst haa
        rw [hat] at hx
        obtain rfl := Option.some.inj hx
        exact ⟨_,moved hat _,hle⟩
      · exact ⟨x,by rw [List.getElem?_set_ne (Ne.symm haa)]; exact hx,hle⟩
    · intro a b x y hab ha hb
      obtain ⟨x',hx,-,hover⟩ := hset a x ha
      obtain ⟨y',hy,hbegan,-⟩ := hset b y hb
      rw [hbegan]
      exact hover _ (h.spaced a b x' y' hab hx hy)
  · exact h

/-- The promise is dropped only when its attempt is over. -/
theorem Connected.release (h : p.Connected s) {attempt : ℕ}
    (hover : ∀ x, p.attempts[attempt]? = some x → x.Over s.operationTimeoutMs p.clock) :
    (p.release attempt).Connected s where
  current := by
    intro a ha
    by_cases hp : p.connectPromise = some attempt
    · simp [Process.release,hp] at ha
    · exact h.current a (by simpa [Process.release,hp] using ha)
  begun := h.begun
  past := h.past
  dropped := by
    intro a x ha hne
    by_cases haa : a = attempt
    · subst haa
      exact hover x ha
    · refine h.dropped a x ha ?_
      intro hp
      apply hne
      simp [Process.release,hp,haa]
  waiting := h.waiting
  spaced := h.spaced

/-- A call moves, and does not connect anew. -/
theorem Connected.setCall (h : p.Connected s) (i : ℕ) {c : Consume}
    (hc : ∀ a, c.phase ≠ .connecting a) : (p.setCall i c).Connected s where
  current := h.current
  begun := h.begun
  past := h.past
  dropped := h.dropped
  waiting := by
    intro d hd a ha
    rcases List.mem_or_eq_of_mem_set hd with hd | rfl
    · exact h.waiting d hd a ha
    · exact absurd ha (hc a)
  spaced := h.spaced

theorem failed_ne (p : Process) (c : Consume) (a : ℕ) : (failed s p c).phase ≠ .connecting a :=
  Phase.noConfusion

theorem Connected.resume (h : p.Connected s) (i : ℕ) (c : Consume) :
    (resume s p i c).Connected s := by
  unfold Process.resume
  split
  · rename_i attempt hphase
    have hover : ∀ t ok, p.attempts[attempt]?.bind Attempt.settled = some (t,ok) →
        (p.release attempt).Connected s := by
      intro t ok hb
      refine h.release ?_
      intro x hx
      rw [hx,Option.bind_some] at hb
      exact .inl ⟨t,ok,hb,h.past attempt x hx t ok hb⟩
    split
    · rename_i t hb
      exact (hover t true hb).setCall i fun a => Phase.noConfusion
    · rename_i t hb
      exact (hover t false hb).setCall i (failed_ne p c)
    · exact h
  · exact h

theorem Connected.timeout (h : p.Connected s) {i : ℕ} {c : Consume} (hc : c ∈ p.calls) :
    (timeout s p i c).Connected s := by
  unfold Process.timeout
  split
  · rename_i hdue
    split
    · rename_i attempt hphase
      refine Connected.setCall (h.release ?_) i (failed_ne p c)
      intro x hx
      -- the attempt began before this call did, so it has had its time too
      obtain ⟨y,hy,hle⟩ := h.waiting c hc attempt hphase
      rw [hx] at hy
      obtain rfl := Option.some.inj hy
      exact .inr (hle.trans hdue)
    · exact h.setCall i (failed_ne p c)
    · exact h
  · exact h

theorem Connected.execute (h : p.Connected s) {i : ℕ} {c : Consume} (hc : c ∈ p.calls) :
    (execute s p i c).Connected s := by
  unfold Process.execute
  split
  · refine ⟨h.current,h.begun,h.past,h.dropped,?_,h.spaced⟩
    intro d hd a ha
    rcases List.mem_or_eq_of_mem_set hd with hd | rfl
    · exact h.waiting d hd a ha
    · exact h.waiting c hc a ha
  · exact h

theorem Connected.reply (h : p.Connected s) (i : ℕ) (c : Consume) :
    (reply s p i c).Connected s := by
  unfold Process.reply
  split
  · split
    · exact h.setCall i fun a => Phase.noConfusion
    · exact h.setCall i (failed_ne p c)
  · exact h

theorem Connected.evalFails (h : p.Connected s) (i : ℕ) (c : Consume) :
    (evalFails s p i c).Connected s := by
  unfold Process.evalFails
  split
  · exact h.setCall i (failed_ne p c)
  · exact h

theorem Connected.step (h : p.Connected s) (op : Op) : (step s p op).Connected s := by
  cases op with
  | advance ms => exact h.advance ms
  | consume key => exact h.consume key
  | opens isOpen => exact ⟨h.current,h.begun,h.past,h.dropped,h.waiting,h.spaced⟩
  | connectSettles attempt ok => exact h.connectSettles attempt ok
  | resume i => exact onCall_induction h fun c _ => h.resume i c
  | timeout i => exact onCall_induction h fun c hc => h.timeout (List.mem_of_getElem? hc)
  | execute i => exact onCall_induction h fun c hc => h.execute (List.mem_of_getElem? hc)
  | reply i => exact onCall_induction h fun c _ => h.reply i c
  | evalFails i => exact onCall_induction h fun c _ => h.evalFails i c

end Connections

theorem connected_run (s : Limiter) (ops : List Op) : (run (step s) idle ops).Connected s :=
  run_induction (fun _ op h => h.step op) connected_idle ops

/-- However its calls overlap, the store calls `client.connect` again only when the call before
has settled, or was made at least `operationTimeoutMs` ago; so were all the earlier ones. -/
theorem connects_spaced (s : Limiter) (ops : List Op) :
    ∀ (a b : ℕ) (x y : Attempt), a < b → (run (step s) idle ops).attempts[a]? = some x →
      (run (step s) idle ops).attempts[b]? = some y →
      (∃ t ok, x.settled = some (t,ok) ∧ t ≤ y.began) ∨
        x.began + s.operationTimeoutMs ≤ y.began :=
  (connected_run s ops).spaced

/-- A call gives up on its connection, and the next one connects anew. -/
def reconnects : List Op := [.consume "a",.advance 10,.timeout 0,.consume "b"]

theorem connects_spaced_reconnects :
    let s : Limiter := ⟨{ bySha256 with failureMode := .closedMode },10,1,1000⟩
    (run (step s) idle reconnects).attempts = [⟨0,none⟩,⟨10,none⟩] ∧
      ((∃ t ok, (⟨0,none⟩ : Attempt).settled = some (t,ok) ∧ t ≤ 10) ∨ 0 + 10 ≤ 10) :=
  ⟨rfl,connects_spaced ⟨{ bySha256 with failureMode := .closedMode },10,1,1000⟩ reconnects 0 1
    ⟨0,none⟩ ⟨10,none⟩ (by decide) rfl rfl⟩

/-! ## Calls -/

/-- What a step does to a call of this process. -/
inductive Moves (s : Limiter) (p : Process) (c : Consume) : Consume → Prop
  | connected (a : ℕ) (hc : c.phase = .connecting a) : Moves s p c (evaluate s p c)
  | gaveUp (hc : ∀ t r x, c.phase ≠ .answered t r x) : Moves s p c (failed s p c)
  | replied (values : List ℤ) (result : RateLimitResult) (hc : c.phase = .evaluating)
      (hr : c.reply = some values) (hp : parseRedisConsumeResult values = some result) :
      Moves s p c { c with phase := .answered p.clock true result }

/-- A call as `consume` makes it. -/
structure Joins (s : Limiter) (p : Process) (c : Consume) : Prop where
  now : c.now = p.clock
  timer : c.timer = p.clock + s.operationTimeoutMs
  reply : c.reply = none
  phase : c.phase = .evaluating ∨ ∃ a, c.phase = .connecting a

/-- The script of a call, as the server runs it now. -/
def scriptOf (s : Limiter) (p : Process) (c : Consume) : Redis × List ℤ :=
  evalScript p.redis (buildKey s.toOptions c.key) s.capacity s.windowMs c.now p.clock

def executionOf (s : Limiter) (p : Process) (c : Consume) : Execution :=
  ⟨buildKey s.toOptions c.key,c.now,p.clock,(scriptOf s p c).2⟩

/-- The calls, the server and its log after a step: as they were, with a call that moved, with
a script that ran, or with one more call. -/
inductive Next (s : Limiter) (p : Process) : List Consume → Redis → List Execution → Prop
  | same : Next s p p.calls p.redis p.log
  | moved (i : ℕ) (c c' : Consume) (hi : p.calls[i]? = some c) (hc : Moves s p c c') :
      Next s p (p.calls.set i c') p.redis p.log
  | executed (i : ℕ) (c : Consume) (hi : p.calls[i]? = some c) (hr : c.reply = none) :
      Next s p (p.calls.set i { c with reply := some (scriptOf s p c).2 }) (scriptOf s p c).1
        (p.log ++ [executionOf s p c])
  | joined (c : Consume) (hc : Joins s p c) : Next s p (p.calls ++ [c]) p.redis p.log

/-- The step from `p` to `q` took no time. -/
structure Follows (s : Limiter) (p q : Process) : Prop where
  clock : q.clock = p.clock
  next : Next s p q.calls q.redis q.log

section Calls
variable {s : Limiter} {p : Process}

theorem next_consume (p : Process) (key : String) : Follows s p (p.consume s key) := by
  unfold consume
  split
  · exact ⟨rfl,.joined _ ⟨rfl,rfl,rfl,.inl rfl⟩⟩
  · split
    · exact ⟨rfl,.joined _ ⟨rfl,rfl,rfl,.inr ⟨_,rfl⟩⟩⟩
    · exact ⟨rfl,.joined _ ⟨rfl,rfl,rfl,.inr ⟨_,rfl⟩⟩⟩

theorem next_connectSettles (p : Process) (attempt : ℕ) (ok : Bool) :
    Follows s p (p.connectSettles attempt ok) := by
  unfold connectSettles
  split <;> exact ⟨rfl,.same⟩

theorem next_resume {i : ℕ} {c : Consume} (hi : p.calls[i]? = some c) :
    Follows s p (resume s p i c) := by
  unfold resume
  split
  · rename_i attempt hc
    split
    · exact ⟨rfl,.moved i c _ hi (.connected attempt hc)⟩
    · exact ⟨rfl,.moved i c _ hi (.gaveUp (by simp [hc]))⟩
    · exact ⟨rfl,.same⟩
  · exact ⟨rfl,.same⟩

theorem next_timeout {i : ℕ} {c : Consume} (hi : p.calls[i]? = some c) :
    Follows s p (timeout s p i c) := by
  unfold timeout
  split
  · split
    · rename_i attempt hc
      exact ⟨rfl,.moved i c _ hi (.gaveUp (by simp [hc]))⟩
    · rename_i hc
      exact ⟨rfl,.moved i c _ hi (.gaveUp (by simp [hc]))⟩
    · exact ⟨rfl,.same⟩
  · exact ⟨rfl,.same⟩

theorem next_execute {i : ℕ} {c : Consume} (hi : p.calls[i]? = some c) :
    Follows s p (execute s p i c) := by
  unfold execute
  split
  · rename_i hrun
    exact ⟨rfl,.executed i c hi hrun.2⟩
  · exact ⟨rfl,.same⟩

theorem next_reply {i : ℕ} {c : Consume} (hi : p.calls[i]? = some c) :
    Follows s p (reply s p i c) := by
  unfold reply
  split
  · rename_i values hc hr
    split
    · rename_i result hp
      exact ⟨rfl,.moved i c _ hi (.replied values result hc hr hp)⟩
    · exact ⟨rfl,.moved i c _ hi (.gaveUp (by simp [hc]))⟩
  · exact ⟨rfl,.same⟩

theorem next_evalFails {i : ℕ} {c : Consume} (hi : p.calls[i]? = some c) :
    Follows s p (evalFails s p i c) := by
  unfold evalFails
  split
  · rename_i hc
    exact ⟨rfl,.moved i c _ hi (.gaveUp (by simp [hc]))⟩
  · exact ⟨rfl,.same⟩

theorem next_step (s : Limiter) (p : Process) (op : Op) :
    Follows s p (step s p op) ∨ ∃ ms, op = .advance ms := by
  have same : Follows s p p := ⟨rfl,.same⟩
  cases op with
  | advance ms => exact .inr ⟨ms,rfl⟩
  | consume key => exact .inl (next_consume p key)
  | opens isOpen => exact .inl ⟨rfl,.same⟩
  | connectSettles attempt ok => exact .inl (next_connectSettles p attempt ok)
  | resume i => exact .inl (onCall_induction same fun _ => next_resume)
  | timeout i => exact .inl (onCall_induction same fun _ => next_timeout)
  | execute i => exact .inl (onCall_induction same fun _ => next_execute)
  | reply i => exact .inl (onCall_induction same fun _ => next_reply)
  | evalFails i => exact .inl (onCall_induction same fun _ => next_evalFails)

/-- What is true of a call that joins, and stays true of one that moves or whose script runs,
is true of every call. -/
theorem Follows.forall {P : Consume → Prop} {q : Process} (h : Follows s p q)
    (hp : ∀ c ∈ p.calls, P c) (moves : ∀ c c', Moves s p c c' → P c → P c')
    (executes : ∀ (c : Consume) values, c.reply = none → P c → P { c with reply := some values })
    (joins : ∀ c, Joins s p c → P c) : ∀ c ∈ q.calls, P c := by
  have hn := h.next
  generalize q.calls = calls, q.redis = redis, q.log = log at hn ⊢
  cases hn with
  | same => exact hp
  | moved i c c' hi hc =>
      intro d hd
      rcases List.mem_or_eq_of_mem_set hd with hd | rfl
      · exact hp d hd
      · exact moves c d hc (hp c (List.mem_of_getElem? hi))
  | executed i c hi hr =>
      intro d hd
      rcases List.mem_or_eq_of_mem_set hd with hd | rfl
      · exact hp d hd
      · exact executes c _ hr (hp c (List.mem_of_getElem? hi))
  | joined c hc =>
      intro d hd
      rcases List.mem_append.mp hd with hd | hd
      · exact hp d hd
      · rw [List.mem_singleton.mp hd]
        exact joins c hc

end Calls

end Process

/-- An answer of Redis reads the reply to the call's own script; any other is the fallback. -/
def Consume.Honest (s : Limiter) (c : Consume) : Prop :=
  ∀ time byRedis result, c.phase = .answered time byRedis result →
    if byRedis then ∃ values, c.reply = some values ∧ parseRedisConsumeResult values = some result
    else result = fallbackResult s.failureMode c.now s.windowMs s.capacity

/-- The timer of a phase runs from the moment that phase begins. -/
def Consume.OnTime (s : Limiter) (clock : ℕ) (c : Consume) : Prop :=
  match c.phase with
  | .connecting _ => c.timer = c.now + s.operationTimeoutMs ∧ clock ≤ c.timer
  | .evaluating => c.timer ≤ c.now + 2 * s.operationTimeoutMs ∧ clock ≤ c.timer
  | .answered time _ _ => time ≤ c.now + 2 * s.operationTimeoutMs

/-- When the call was answered, or else what the clock shows. -/
def Consume.until (clock : ℕ) (c : Consume) : ℕ :=
  match c.phase with
  | .answered time _ _ => time
  | _ => clock

theorem Consume.OnTime.until_le {s : Limiter} {clock : ℕ} {c : Consume} (h : c.OnTime s clock) :
    c.until clock ≤ c.now + 2 * s.operationTimeoutMs := by
  unfold Consume.OnTime at h
  unfold Consume.until
  cases hc : c.phase with
  | connecting a =>
      rw [hc] at h
      simp only at h ⊢
      omega
  | evaluating =>
      rw [hc] at h
      exact h.2.trans h.1
  | answered time byRedis result =>
      rw [hc] at h
      exact h

namespace Process

/-- The clock does not pass the timer of a call that still waits. -/
def Timely (p : Process) (op : Op) : Prop :=
  match op with
  | .advance ms => ∀ c ∈ p.calls, (∀ t r x, c.phase ≠ .answered t r x) → p.clock + ms ≤ c.timer
  | _ => True

section Answers
variable {s : Limiter} {p : Process} {c c' : Consume}

theorem Moves.honest (h : Moves s p c c') : c'.Honest s := by
  intro time byRedis result hphase
  cases h with
  | connected a => cases hphase
  | gaveUp =>
      cases hphase
      exact rfl
  | replied values result' _ hr hp =>
      cases hphase
      exact ⟨values,hr,hp⟩

theorem honest_execute {values : List ℤ} (hr : c.reply = none) (hc : c.Honest s) :
    Consume.Honest s { c with reply := some values } := by
  intro time byRedis result hphase
  have hold := hc time byRedis result hphase
  cases byRedis with
  | true =>
      obtain ⟨values',hv,-⟩ := hold
      rw [hr] at hv
      cases hv
  | false => exact hold

theorem Joins.honest (h : Joins s p c) : c.Honest s := by
  intro time byRedis result hphase
  rcases h.phase with hc | ⟨a,hc⟩
  · rw [hc] at hphase
    cases hphase
  · rw [hc] at hphase
    cases hphase

theorem Moves.onTime (h : Moves s p c c') (hc : c.OnTime s p.clock) : c'.OnTime s p.clock := by
  cases h with
  | connected a hphase =>
      simp only [Consume.OnTime,hphase] at hc
      refine ⟨?_,Nat.le_add_right _ _⟩
      change p.clock + s.operationTimeoutMs ≤ c.now + 2 * s.operationTimeoutMs
      omega
  | gaveUp hphase =>
      have hle := hc.until_le
      unfold Consume.until at hle
      split at hle
      · rename_i ha
        exact absurd ha (hphase _ _ _)
      · exact hle
  | replied values result hphase =>
      have hle := hc.until_le
      rwa [Consume.until,hphase] at hle

theorem Joins.onTime (h : Joins s p c) : c.OnTime s p.clock := by
  unfold Consume.OnTime
  rw [h.timer,h.now]
  rcases h.phase with hc | ⟨a,hc⟩
  · rw [hc]
    exact ⟨by omega,Nat.le_add_right _ _⟩
  · rw [hc]
    exact ⟨rfl,Nat.le_add_right _ _⟩

theorem onTime_step {op : Op} (hp : ∀ c ∈ p.calls, c.OnTime s p.clock) (hop : p.Timely op) :
    ∀ c ∈ (step s p op).calls, c.OnTime s (step s p op).clock := by
  rcases next_step s p op with h | ⟨ms,rfl⟩
  · rw [h.clock]
    exact h.forall hp (fun _ _ hm => hm.onTime) (fun _ _ _ hc => hc) fun _ hj => hj.onTime
  · intro c hc
    have hold := hp c hc
    have hle := hop c hc
    change c.OnTime s (p.clock + ms)
    unfold Consume.OnTime at hold ⊢
    cases hphase : c.phase with
    | connecting a =>
        rw [hphase] at hold
        exact ⟨hold.1,hle (by simp [hphase])⟩
    | evaluating =>
        rw [hphase] at hold
        exact ⟨hold.1,hle (by simp [hphase])⟩
    | answered time byRedis result =>
        rw [hphase] at hold
        exact hold

theorem honest_step (hp : ∀ c ∈ p.calls, c.Honest s) (op : Op) :
    ∀ c ∈ (step s p op).calls, c.Honest s := by
  rcases next_step s p op with h | ⟨ms,rfl⟩
  · exact h.forall hp (fun _ _ hm _ => hm.honest) (fun _ _ hr hc => honest_execute hr hc)
      fun _ hj => hj.honest
  · exact hp

end Answers

theorem honest_run (s : Limiter) (ops : List Op) : ∀ c ∈ (run (step s) idle ops).calls,
    c.Honest s :=
  run_induction (I := fun p : Process => ∀ c ∈ p.calls, c.Honest s)
    (fun _ op h => honest_step h op) (by simp [idle]) ops

theorem onTime_run {s : Limiter} {ops : List Op} (h : Guarded (step s) Timely idle ops) :
    ∀ c ∈ (run (step s) idle ops).calls, c.OnTime s (run (step s) idle ops).clock :=
  run_invariant (I := fun p : Process => ∀ c ∈ p.calls, c.OnTime s p.clock)
    (fun _ _ hp hop => onTime_step hp hop) (by simp [idle]) h

/-- Whatever the client and the server do, every answer is the reading of what the call's own
script replied, or else the fallback; and unless timers are late, every call is answered within
twice `operationTimeoutMs`. -/
theorem answered_in_time (s : Limiter) (ops : List Op) :
    let p := run (step s) idle ops
    (∀ c ∈ p.calls, c.Honest s) ∧
      (Guarded (step s) Timely idle ops →
        ∀ c ∈ p.calls, c.until p.clock ≤ c.now + 2 * s.operationTimeoutMs) := by
  refine ⟨honest_run s ops,?_⟩
  intro h c hc
  exact (onTime_run h c hc).until_le

end Process
end Creditra.RedisConnections
