import Creditra.GuardedRuns

/-!
# Awaiting tasks on one event loop

A task is what is left of an asynchronous function: it has settled, or it
awaits one action and continues with the answer. Code between two awaits runs
without interruption, so an action together with the code up to the next await
is one step. A pool is a store and the tasks started on it; a schedule names,
step by step, which task moves and how the environment treats its action. Every
interleaving of the tasks at their await points is one schedule.

The answer type depends on the action. An action that may fail answers with an
`Except`, and the task decides what a failure means for it.
-/
namespace Creditra.AwaitTasks
open GuardedRuns

inductive Task (Q : Type) (R : Q → Type) (ε α : Type) where
  | done (result : Except ε α) : Task Q R ε α
  | await (q : Q) (next : R q → Task Q R ε α) : Task Q R ε α

variable {Q : Type} {R : Q → Type} {ε α β σ ω : Type}

namespace Task

def bind : Task Q R ε α → (α → Task Q R ε β) → Task Q R ε β
  | done (.ok a), f => f a
  | done (.error e), _ => done (.error e)
  | await q next, f => await q fun r => (next r).bind f

/-- The `catch` clause of an asynchronous `try` block. -/
def handle : Task Q R ε α → (ε → Task Q R ε α) → Task Q R ε α
  | done (.ok a), _ => done (.ok a)
  | done (.error e), h => h e
  | await q next, h => await q fun r => (next r).handle h

instance : Monad (Task Q R ε) where
  pure a := done (.ok a)
  bind := bind

def throw (e : ε) : Task Q R ε α := done (.error e)

/-- Await one action and return its answer. -/
def call (q : Q) : Task Q R ε (R q) := await q fun r => done (.ok r)

@[simp] theorem pure_eq (a : α) : (pure a : Task Q R ε α) = done (.ok a) := rfl
@[simp] theorem throw_eq (e : ε) : (throw e : Task Q R ε α) = done (.error e) := rfl

@[simp] theorem bind_ok (a : α) (f : α → Task Q R ε β) :
    (done (.ok a) : Task Q R ε α) >>= f = f a := rfl

@[simp] theorem bind_error (e : ε) (f : α → Task Q R ε β) :
    (done (.error e) : Task Q R ε α) >>= f = done (.error e) := rfl

@[simp] theorem bind_await (q : Q) (next : R q → Task Q R ε α) (f : α → Task Q R ε β) :
    await q next >>= f = await q fun r => next r >>= f := rfl

@[simp] theorem bind_call (q : Q) (f : R q → Task Q R ε β) :
    call q >>= f = await q f := rfl

@[simp] theorem handle_ok (a : α) (h : ε → Task Q R ε α) :
    (done (.ok a) : Task Q R ε α).handle h = done (.ok a) := rfl

@[simp] theorem handle_error (e : ε) (h : ε → Task Q R ε α) :
    (done (.error e) : Task Q R ε α).handle h = h e := rfl

@[simp] theorem handle_await (q : Q) (next : R q → Task Q R ε α) (h : ε → Task Q R ε α) :
    (await q next).handle h = await q fun r => (next r).handle h := rfl

/-- Every action awaited on any branch satisfies `P`. -/
def Awaits (P : Q → Prop) : Task Q R ε α → Prop
  | done _ => True
  | await q next => P q ∧ ∀ r, (next r).Awaits P

@[simp] theorem awaits_done (P : Q → Prop) (r : Except ε α) :
    (done r : Task Q R ε α).Awaits P := trivial

@[simp] theorem awaits_await (P : Q → Prop) (q : Q) (next : R q → Task Q R ε α) :
    (await q next).Awaits P ↔ P q ∧ ∀ r, (next r).Awaits P := Iff.rfl

theorem Awaits.bind {P : Q → Prop} {t : Task Q R ε α} {f : α → Task Q R ε β}
    (ht : t.Awaits P) (hf : ∀ a, (f a).Awaits P) : (t >>= f).Awaits P := by
  induction t with
  | done r =>
      cases r with
      | ok a => exact hf a
      | error e => trivial
  | await q next ih => exact ⟨ht.1,fun r => ih r (ht.2 r)⟩

theorem Awaits.handle {P : Q → Prop} {t : Task Q R ε α} {h : ε → Task Q R ε α}
    (ht : t.Awaits P) (hh : ∀ e, (h e).Awaits P) : (t.handle h).Awaits P := by
  induction t with
  | done r =>
      cases r with
      | ok a => trivial
      | error e => exact hh e
  | await q next ih => exact ⟨ht.1,fun r => ih r (ht.2 r)⟩

theorem Awaits.mono {P P' : Q → Prop} {t : Task Q R ε α} (ht : t.Awaits P)
    (h : ∀ q, P q → P' q) : t.Awaits P' := by
  induction t with
  | done r => trivial
  | await q next ih => exact ⟨h q ht.1,fun r => ih r (ht.2 r)⟩

/-- The settled result, if the task has settled. -/
def result : Task Q R ε α → Option (Except ε α)
  | done r => some r
  | await _ _ => none

/-- The action the task waits for, if it has not settled. -/
def awaited : Task Q R ε α → Option Q
  | done _ => none
  | await q _ => some q

@[simp] theorem awaited_done (r : Except ε α) : (done r : Task Q R ε α).awaited = none := rfl

@[simp] theorem awaited_await (q : Q) (next : R q → Task Q R ε α) :
    (await q next).awaited = some q := rfl

end Task

/-- How the store answers an action: the environment's choice, the index of
the acting task, the action and the store before it. -/
abbrev Exec (Q : Type) (R : Q → Type) (σ ω : Type) := ω → ℕ → (q : Q) → σ → R q × σ

/-- One task on its own, from its first action to its result. -/
def Task.complete (exec : Exec Q R σ ω) (w : ω) (i : ℕ) : Task Q R ε α → σ → Except ε α × σ
  | .done r, s => (r,s)
  | .await q next, s =>
      let a := exec w i q s
      (next a.1).complete exec w i a.2

@[simp] theorem Task.complete_done (exec : Exec Q R σ ω) (w : ω) (i : ℕ) (r : Except ε α) (s : σ) :
    (Task.done r : Task Q R ε α).complete exec w i s = (r,s) := rfl

@[simp] theorem Task.complete_await (exec : Exec Q R σ ω) (w : ω) (i : ℕ) (q : Q)
    (next : R q → Task Q R ε α) (s : σ) :
    (Task.await q next).complete exec w i s =
      (next (exec w i q s).1).complete exec w i (exec w i q s).2 := rfl

/-- A task of two parts: the second starts where the first has left the store. -/
theorem Task.complete_bind (exec : Exec Q R σ ω) (w : ω) (i : ℕ) (t : Task Q R ε α)
    (f : α → Task Q R ε β) (s : σ) :
    (t >>= f).complete exec w i s = match t.complete exec w i s with
      | (.ok a,s') => (f a).complete exec w i s'
      | (.error e,s') => (.error e,s') := by
  induction t generalizing s with
  | done r =>
      cases r with
      | ok a => rfl
      | error e => rfl
  | await q next ih => exact ih (exec w i q s).1 (exec w i q s).2

theorem Task.complete_handle (exec : Exec Q R σ ω) (w : ω) (i : ℕ) (t : Task Q R ε α)
    (h : ε → Task Q R ε α) (s : σ) :
    (t.handle h).complete exec w i s = match t.complete exec w i s with
      | (.ok a,s') => (.ok a,s')
      | (.error e,s') => (h e).complete exec w i s' := by
  induction t generalizing s with
  | done r =>
      cases r with
      | ok a => rfl
      | error e => rfl
  | await q next ih => exact ih (exec w i q s).1 (exec w i q s).2

structure Pool (Q : Type) (R : Q → Type) (ε α σ : Type) where
  store : σ
  tasks : List (Task Q R ε α)

namespace Pool

/-- A settled or absent task has no step left to take. -/
def step (exec : Exec Q R σ ω) (p : Pool Q R ε α σ) (t : ℕ × ω) : Pool Q R ε α σ :=
  match p.tasks[t.1]? with
  | some (.await q next) =>
      let a := exec t.2 t.1 q p.store
      ⟨a.2,p.tasks.set t.1 (next a.1)⟩
  | _ => p

/-- Everything a step can do: nothing, or one action of one waiting task. -/
theorem step_cases (exec : Exec Q R σ ω) (p : Pool Q R ε α σ) (i : ℕ) (w : ω) :
    (p.step exec (i,w) = p ∧ ∀ q next, p.tasks[i]? ≠ some (.await q next)) ∨
    ∃ q next, p.tasks[i]? = some (.await q next) ∧
      p.step exec (i,w) = ⟨(exec w i q p.store).2,p.tasks.set i (next (exec w i q p.store).1)⟩ := by
  unfold step
  match h : p.tasks[i]? with
  | none => exact .inl ⟨rfl,by simp⟩
  | some (.done r) => exact .inl ⟨rfl,by simp⟩
  | some (.await q next) => exact .inr ⟨q,next,rfl,rfl⟩

theorem step_await {exec : Exec Q R σ ω} {p : Pool Q R ε α σ} {i : ℕ} {q : Q}
    {next : R q → Task Q R ε α} (h : p.tasks[i]? = some (.await q next)) (w : ω) :
    p.step exec (i,w) =
      ⟨(exec w i q p.store).2,p.tasks.set i (next (exec w i q p.store).1)⟩ := by
  unfold step
  rw [h]

theorem step_absent {exec : Exec Q R σ ω} {p : Pool Q R ε α σ} {i : ℕ}
    (h : p.tasks[i]? = none) (w : ω) : p.step exec (i,w) = p := by
  unfold step
  rw [h]

theorem step_settled {exec : Exec Q R σ ω} {p : Pool Q R ε α σ} {i : ℕ} {r : Except ε α}
    (h : p.tasks[i]? = some (.done r)) (w : ω) : p.step exec (i,w) = p := by
  unfold step
  rw [h]

/-- What the task at `i` has settled with, if it has. -/
def result (p : Pool Q R ε α σ) (i : ℕ) : Option (Except ε α) := p.tasks[i]?.bind Task.result

theorem result_eq_some {p : Pool Q R ε α σ} {i : ℕ} {r : Except ε α} :
    p.result i = some r ↔ p.tasks[i]? = some (.done r) := by
  unfold result
  match p.tasks[i]? with
  | none => simp
  | some (.done r') => simp [Task.result]
  | some (.await q next) => simp [Task.result]

def Resolved (p : Pool Q R ε α σ) (i : ℕ) : Prop := ∃ a, p.result i = some (.ok a)

def Rejected (p : Pool Q R ε α σ) (i : ℕ) : Prop := ∃ e, p.result i = some (.error e)

/-- Every task has settled. -/
def Settled (p : Pool Q R ε α σ) : Prop := ∀ t ∈ p.tasks, t.result.isSome = true

instance (p : Pool Q R ε α σ) : Decidable p.Settled :=
  inferInstanceAs (Decidable (∀ t ∈ p.tasks, t.result.isSome = true))

theorem Settled.done {p : Pool Q R ε α σ} (h : p.Settled) {t : Task Q R ε α}
    (ht : t ∈ p.tasks) : ∃ r, t = .done r := by
  have hr := h t ht
  cases t with
  | done r => exact ⟨r,rfl⟩
  | await q next => simp [Task.result] at hr

end Pool
end Creditra.AwaitTasks
