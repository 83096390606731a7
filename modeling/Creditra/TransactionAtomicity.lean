import Creditra.PostgresRepositories

/-!
# Atomicity of service calls that share one session

Calls of `createCreditLine`, `draw` and `repay` run concurrently on the one
client. Atomicity asks that a rejected call leaves none of its rows durable and
a resolved call all of them.

A task outside its transaction has only read so far. Inside, it reads and
inserts until it commits or rolls back. As long as no call begins before the
transaction of another is over, at most one task is inside at any time, the
working copy differs from the durable rows by the rows of that task alone, and
its commit or rollback decides on exactly these. A `BEGIN` sent into an open
transaction is ignored by the server, and from then on two calls share one commit
or rollback.

That is not all the calls can do to each other. A statement of one call that
fails while another's transaction is open makes that transaction fail. Its holder
notices at the next statement, unless this is the `COMMIT`, which then discards
the rows and reports no error.
-/
namespace Creditra.TransactionAtomicity
open CreditModels AwaitTasks GuardedRuns CreditLineService PostgresSession PostgresRepositories

inductive Call where
  | create (request : CreateCreditLineRequest)
  | draw (id : Uuid) (borrowerId : String) (amount : Option ℚ)
  | repay (id : Uuid) (walletAddress : String) (amount : Option ℚ)

def Call.task (client : DbClient) : Call → SqlTask CreditLine
  | .create request => (service client).createCreditLine request
  | .draw id borrowerId amount => (service client).draw id borrowerId amount
  | .repay id walletAddress amount => (service client).repay id walletAddress amount

abbrev SqlPool := Pool Statement Statement.Answer Failure CreditLine Session

/-- A session on a database that no running call has written to. -/
def connect (rows : List Row) (nextId : Uuid) : Session :=
  { durable := rows.map fun row => ⟨none,row⟩, nextId }

def start (client : DbClient) (calls : List Call) (s : Session) : SqlPool :=
  ⟨s,calls.map (Call.task client)⟩

abbrev sqlStep : SqlPool → ℕ × Fate → SqlPool := Pool.step exec

/-- Rejected calls have left nothing behind, resolved calls everything. -/
def Atomic (p : SqlPool) : Prop := ∀ i,
  (p.Rejected i → ∀ e ∈ p.store.durable, e.owner ≠ some i) ∧
  (p.Resolved i → ∀ e ∈ p.store.written, e.owner = some i → e ∈ p.store.durable)

/-- No transaction is open and no call has the end of its own still to send. -/
def AllEnded (p : SqlPool) : Prop :=
  p.store.working = none ∧ ∀ t ∈ p.tasks, t.awaited ≠ some .rollback

instance (p : SqlPool) : Decidable (AllEnded p) := inferInstanceAs (Decidable (_ ∧ _))

/-- A `BEGIN` that is executed comes after the end of every transaction, or is
refused, and a `COMMIT` that is executed ends a transaction that has not failed. -/
def Separate (p : SqlPool) (t : ℕ × Fate) : Prop :=
  t.2 = none →
    (p.tasks[t.1]?.bind Task.awaited = some .begin → AllEnded p ∨ p.store.failed = true) ∧
    (p.tasks[t.1]?.bind Task.awaited = some .commit → p.store.failed = false)

instance (p : SqlPool) (t : ℕ × Fate) : Decidable (Separate p t) :=
  inferInstanceAs (Decidable (_ → _ ∧ _))

/-- The task sends its `ROLLBACK` and rejects. -/
def RollsBack (t : SqlTask CreditLine) : Prop :=
  ∃ next : Statement.Answer .rollback → SqlTask CreditLine,
    t = .await .rollback next ∧ ∀ r, ∃ e, next r = .done (.error e)

/-- What is left of a task between its `BEGIN` and its commit or rollback. -/
inductive Inside : SqlTask CreditLine → Prop
  | data {q : Statement} {next : q.Answer → SqlTask CreditLine} :
      q.Appends → (∀ r, Inside (next r)) → Inside (.await q next)
  | commit {next : Statement.Answer .commit → SqlTask CreditLine} :
      (∃ a, next (.ok ()) = .done (.ok a)) → (∀ e, RollsBack (next (.error e))) →
      Inside (.await .commit next)
  | rollback {t : SqlTask CreditLine} : RollsBack t → Inside t

/-- What is left of a task that has not begun its transaction. -/
inductive Outside : SqlTask CreditLine → Prop
  | rejected (e : Failure) : Outside (.done (.error e))
  | read {q : Statement} {next : q.Answer → SqlTask CreditLine} :
      q.Reads → (∀ r, Outside (next r)) → Outside (.await q next)
  | begin {next : Statement.Answer .begin → SqlTask CreditLine} :
      Inside (next (.ok ())) → (∀ e, ∃ e', next (.error e) = .done (.error e')) →
      Outside (.await .begin next)

theorem rollsBack (error : Failure) :
    RollsBack (do Task.handle (query .rollback) (fun _ => pure ()); Task.throw error) := by
  refine ⟨_,rfl,?_⟩
  intro r
  cases r with
  | ok _ => exact ⟨error,rfl⟩
  | error _ => exact ⟨error,rfl⟩

/-- Reading and inserting work, followed by the commit or rollback of the
transaction helper. -/
theorem inside_of_appends {work : SqlTask CreditLine}
    (h : work.Awaits Statement.Appends) :
    Inside (Task.handle (do let result ← work; query .commit; pure result) fun error => do
      Task.handle (query .rollback) fun _ => pure ()
      Task.throw error) := by
  induction work with
  | done r =>
      cases r with
      | ok a => exact .commit ⟨a,rfl⟩ fun e => rollsBack (.query e)
      | error e => exact .rollback (rollsBack e)
  | await q next ih => exact .data h.1 fun r => ih r (h.2 r)

theorem outside_withTransaction (client : DbClient) {work : SqlTask CreditLine}
    (h : work.Awaits Statement.Appends) : Outside (createDbTransactionRunner client work) :=
  .begin (inside_of_appends h) fun e => ⟨.query e,rfl⟩

theorem outside_bind {α : Type} {t : SqlTask α} {f : α → SqlTask CreditLine}
    (ht : t.Awaits Statement.Reads) (hf : ∀ a, Outside (f a)) : Outside (t >>= f) := by
  induction t with
  | done r =>
      cases r with
      | ok a => exact hf a
      | error e => exact .rejected e
  | await q next ih => exact .read ht.1 fun r => ih r (ht.2 r)

theorem query_awaits {P : Statement → Prop} {q : Statement} (h : P q) : (query q).Awaits P :=
  ⟨h,fun _ => trivial⟩

theorem findById_awaits (id : Uuid) :
    (PostgresCreditLineRepository.findById id).Awaits Statement.Reads := by
  unfold PostgresCreditLineRepository.findById
  refine (query_awaits trivial).bind fun row => ?_
  cases row with
  | none => trivial
  | some row => exact (query_awaits trivial).bind fun _ => trivial

theorem create_transaction_awaits (request : CreateTransactionRequest) :
    (PostgresTransactionRepository.create request).Awaits Statement.Appends := by
  unfold PostgresTransactionRepository.create
  refine (query_awaits trivial).bind fun id => ?_
  refine (query_awaits trivial).bind fun created => ?_
  cases created <;> trivial

theorem record_awaits (client : DbClient) (id : Uuid) (p : Posting) :
    ((service client).record id p).Awaits Statement.Appends := by
  unfold Service.record
  simp only [service,PostgresTransactionRepository.repository,
    PostgresCreditLineRepository.repository,update_utilized]
  refine (create_transaction_awaits _).bind fun _ => ?_
  refine ((findById_awaits id).mono fun _ h => h.appends).bind fun next => ?_
  cases next <;> trivial

theorem ensureBorrower_awaits (walletAddress : String) :
    (PostgresCreditLineRepository.ensureBorrower walletAddress).Awaits Statement.Opens := by
  unfold PostgresCreditLineRepository.ensureBorrower
  refine (query_awaits trivial).bind fun found => ?_
  cases found with
  | some id => trivial
  | none => exact Task.Awaits.handle (query_awaits trivial) fun _ => trivial

theorem create_line_awaits (request : CreateCreditLineRequest) :
    (PostgresCreditLineRepository.create request).Awaits Statement.Opens := by
  unfold PostgresCreditLineRepository.create
  refine (ensureBorrower_awaits _).bind fun borrowerId => ?_
  refine (query_awaits trivial).bind fun openCheck => ?_
  cases openCheck with
  | some status => trivial
  | none =>
      refine (Task.Awaits.handle (query_awaits trivial) fun _ => ?_).bind fun row => ?_
      · trivial
      · refine Task.Awaits.bind ?_ fun walletAddress => trivial
        unfold PostgresCreditLineRepository.getWalletAddress
        refine (query_awaits trivial).bind fun result => ?_
        cases result <;> trivial

theorem outside_mutate (client : DbClient) (id : Uuid)
    (posting : Option CreditLine → Except Failure Posting) :
    Outside ((service client).mutate id posting) := by
  unfold Service.mutate
  refine outside_bind (findById_awaits id) fun line => ?_
  cases posting line with
  | error e => exact .rejected e
  | ok p => exact outside_withTransaction client (record_awaits client id p)

/-- Every call starts outside its transaction. -/
theorem outside_call (client : DbClient) (c : Call) : Outside (c.task client) := by
  cases c with
  | draw id borrowerId amount => exact outside_mutate client id _
  | repay id walletAddress amount => exact outside_mutate client id _
  | create request =>
      simp only [Call.task,Service.createCreditLine]
      split_ifs
      · exact .rejected _
      · exact .rejected _
      · exact .rejected _
      · exact outside_withTransaction client
          ((create_line_awaits request).mono fun _ h => h.appends)

/-- A call that is not inside a transaction, with what it has left behind. -/
def Quiet (s : Session) (i : ℕ) (t : SqlTask CreditLine) : Prop :=
  (Outside t ∧ ∀ e ∈ s.written, e.owner ≠ some i) ∨
  ((∃ a, t = .done (.ok a)) ∧ ∀ e ∈ s.written, e.owner = some i → e ∈ s.durable) ∨
  ((∃ f, t = .done (.error f)) ∧ ∀ e ∈ s.durable, e.owner ≠ some i)

/-- A call whose `COMMIT` has failed and that rejects after its `ROLLBACK`. -/
def Closing (s : Session) (i : ℕ) (t : SqlTask CreditLine) : Prop :=
  RollsBack t ∧ ∀ e ∈ s.durable, e.owner ≠ some i

/-- The two sessions agree on the rows of call `i`. -/
def SameRows (i : ℕ) (s s' : Session) : Prop := ∀ e : Entry, e.owner = some i →
  (e ∈ s'.written ↔ e ∈ s.written) ∧ (e ∈ s'.durable ↔ e ∈ s.durable)

theorem Quiet.frame {s s' : Session} {i : ℕ} {t : SqlTask CreditLine}
    (hs : SameRows i s s') (h : Quiet s i t) : Quiet s' i t := by
  rcases h with ⟨ht,hw⟩ | ⟨ht,hw⟩ | ⟨ht,hd⟩
  · exact .inl ⟨ht,fun e he ho => hw e ((hs e ho).1.mp he) ho⟩
  · exact .inr (.inl ⟨ht,fun e he ho => (hs e ho).2.mpr (hw e ((hs e ho).1.mp he) ho)⟩)
  · exact .inr (.inr ⟨ht,fun e he ho => hd e ((hs e ho).2.mp he) ho⟩)

theorem Closing.frame {s s' : Session} {i : ℕ} {t : SqlTask CreditLine}
    (hs : SameRows i s s') (h : Closing s i t) : Closing s' i t :=
  ⟨h.1,fun e he ho => h.2 e ((hs e ho).2.mp he) ho⟩

/-- Nothing but the state of the transaction differs. -/
theorem sameRows_aborted (i : ℕ) (s : Session) (aborted : Bool) :
    SameRows i s { s with aborted } := fun _ _ => ⟨Iff.rfl,Iff.rfl⟩

/-- Call `j` holds the open transaction with working copy `d`. After a failed
rollback the holder has already rejected and the transaction stays open. -/
structure Holds (s : Session) (d : Database) (j : ℕ) (t : SqlTask CreditLine) : Prop where
  task : Inside t ∨ ∃ f, t = .done (.error f)
  clean : ∀ e ∈ s.durable, e.owner ≠ some j
  kept : ∀ e ∈ s.durable, e ∈ d
  added : ∀ e ∈ d, e ∈ s.durable ∨ e.owner = some j ∧ e ∈ s.written
  own : ∀ e ∈ s.written, e.owner = some j → e ∈ d

/-- Every call but `j` is quiet. -/
def OthersQuiet (p : SqlPool) (j : ℕ) : Prop :=
  ∀ i t, i ≠ j → p.tasks[i]? = some t → Quiet p.store i t

/-- Every call is quiet or closing. -/
def AllSettled (p : SqlPool) : Prop :=
  ∀ i t, p.tasks[i]? = some t → Quiet p.store i t ∨ Closing p.store i t

/-- Either no transaction is open and every call is quiet or closing, or one call
holds the open transaction and every other call is quiet. -/
structure Inv (p : SqlPool) : Prop where
  recorded : ∀ e ∈ p.store.durable, ∀ i, e.owner = some i → e ∈ p.store.written
  shape : (p.store.working = none ∧ AllSettled p) ∨
    ∃ d j t, p.store.working = some d ∧ p.tasks[j]? = some t ∧ Holds p.store d j t ∧
      OthersQuiet p j

theorem Inv.quiet_atomic {p : SqlPool} (h : Inv p) {i : ℕ} {t : SqlTask CreditLine}
    (hi : p.tasks[i]? = some t) (hq : Quiet p.store i t) :
    (p.Rejected i → ∀ e ∈ p.store.durable, e.owner ≠ some i) ∧
    (p.Resolved i → ∀ e ∈ p.store.written, e.owner = some i → e ∈ p.store.durable) := by
  have hr : p.Resolved i → ∃ a, t = .done (.ok a) := by
    rintro ⟨a,ha⟩
    exact ⟨a,Option.some.inj (hi.symm.trans (Pool.result_eq_some.mp ha))⟩
  have he : p.Rejected i → ∃ f, t = .done (.error f) := by
    rintro ⟨f,hf⟩
    exact ⟨f,Option.some.inj (hi.symm.trans (Pool.result_eq_some.mp hf))⟩
  rcases hq with ⟨ho,hw⟩ | ⟨⟨a,rfl⟩,hw⟩ | ⟨⟨f,rfl⟩,hd⟩
  · refine ⟨fun _ e hd ho => hw e (h.recorded e hd i ho) ho,fun hres => ?_⟩
    obtain ⟨a,rfl⟩ := hr hres
    cases ho
  · exact ⟨fun hrej => by simpa using he hrej,fun _ => hw⟩
  · exact ⟨fun _ => hd,fun hres => by simpa using hr hres⟩

theorem Inv.atomic {p : SqlPool} (h : Inv p) : Atomic p := by
  intro i
  match hi : p.tasks[i]? with
  | none =>
      have hn : p.result i = none := by simp [Pool.result,hi]
      exact ⟨fun ⟨f,hf⟩ => by simp [hn] at hf,fun ⟨a,ha⟩ => by simp [hn] at ha⟩
  | some t =>
      rcases h.shape with ⟨-,hq⟩ | ⟨d,j,u,hw,hj,hh,hq⟩
      · rcases hq i t hi with hquiet | ⟨⟨next,ht,-⟩,hclean⟩
        · exact h.quiet_atomic hi hquiet
        · refine ⟨fun _ => hclean,?_⟩
          rintro ⟨a,ha⟩
          have hdone := Option.some.inj (hi.symm.trans (Pool.result_eq_some.mp ha))
          cases ht.symm.trans hdone
      · by_cases hij : i = j
        · subst hij
          refine ⟨fun _ => hh.clean,?_⟩
          rintro ⟨a,ha⟩
          obtain rfl : u = .done (.ok a) :=
            Option.some.inj (hj.symm.trans (Pool.result_eq_some.mp ha))
          rcases hh.task with hin | ⟨f,ht⟩
          · cases hin with
            | rollback hr =>
                obtain ⟨_,ht,-⟩ := hr
                cases ht
          · cases ht
        · exact h.quiet_atomic hi (hq i t hij hi)

theorem inv_start (client : DbClient) (calls : List Call) (rows : List Row) (nextId : Uuid) :
    Inv (start client calls (connect rows nextId)) where
  recorded e he i ho := by
    obtain ⟨row,-,rfl⟩ := List.mem_map.mp he
    simp at ho
  shape := by
    refine .inl ⟨rfl,?_⟩
    intro i t ht
    obtain ⟨c,-,rfl⟩ := List.mem_map.mp (List.mem_of_getElem? ht)
    exact .inl (.inl ⟨outside_call client c,by simp [start,connect]⟩)

/-- A waiting quiet call has not begun, so it has written nothing. -/
theorem Quiet.outside {s : Session} {i : ℕ} {q : Statement}
    {next : q.Answer → SqlTask CreditLine} (h : Quiet s i (.await q next)) :
    Outside (.await q next) ∧ ∀ e ∈ s.written, e.owner ≠ some i := by
  rcases h with h | ⟨⟨a,ha⟩,-⟩ | ⟨⟨f,hf⟩,-⟩
  · exact h
  · cases ha
  · cases hf

/-- A quiet call that does not open a transaction stays quiet, and all rows are
as before. -/
theorem Inv.quiet_exec {p : SqlPool} (h : Inv p) {i : ℕ} {fate : Fate} {q : Statement}
    {next : q.Answer → SqlTask CreditLine} (hq : Quiet p.store i (.await q next))
    (hb : fate = none → q = .begin → p.store.failed = true) :
    ∃ aborted, (exec fate i q p.store).2 = { p.store with aborted } ∧
      Quiet p.store i (next (exec fate i q p.store).1) := by
  obtain ⟨ho,hw⟩ := hq.outside
  have hclean : ∀ e ∈ p.store.durable, e.owner ≠ some i := fun e he ho =>
    hw e (h.recorded e he i ho) ho
  cases ho with
  | read hr hn =>
      cases fate with
      | some e =>
          obtain ⟨aborted,hs⟩ := fail_eq p.store (q := q) (by rintro rfl; cases hr) e
          exact ⟨aborted,hs,.inl ⟨hn _,hw⟩⟩
      | none => exact ⟨p.store.aborted,execute_reads hr _ _,.inl ⟨hn _,hw⟩⟩
  | begin hi he =>
      cases fate with
      | some e =>
          obtain ⟨aborted,hs⟩ := fail_eq p.store (q := .begin) (by intro hq; cases hq) e
          obtain ⟨f,hf⟩ := he e
          refine ⟨aborted,hs,?_⟩
          rw [exec_failed,hf]
          exact .inr (.inr ⟨⟨f,rfl⟩,hclean⟩)
      | none =>
          obtain ⟨f,hf⟩ := he .inFailedTransaction
          rw [exec_executed,execute_of_failed (hb rfl rfl)]
          refine ⟨p.store.aborted,rfl,?_⟩
          simp only [Session.refuse,hf]
          exact .inr (.inr ⟨⟨f,rfl⟩,hclean⟩)

/-- A `ROLLBACK` finds no transaction to end. -/
theorem Closing.exec {s : Session} {i : ℕ} {q : Statement}
    {next : q.Answer → SqlTask CreditLine} (h : Closing s i (.await q next))
    (hw : s.working = none) (fate : Fate) :
    ∃ aborted, (exec fate i q s).2 = { s with aborted } ∧
      Quiet s i (next (exec fate i q s).1) := by
  obtain ⟨⟨next',hawait,hend⟩,hclean⟩ := h
  cases hawait
  obtain ⟨f,hf⟩ := hend (PostgresSession.exec fate i .rollback s).1
  rw [hf]
  have hquiet : Quiet s i (.done (.error f)) := .inr (.inr ⟨⟨f,rfl⟩,hclean⟩)
  cases fate with
  | some e =>
      obtain ⟨aborted,hs⟩ := fail_eq s (q := .rollback) (by intro hq; cases hq) e
      exact ⟨aborted,hs,hquiet⟩
  | none =>
      refine ⟨s.aborted,?_,hquiet⟩
      rw [exec_executed,execute_rollback,← hw]

/-- The calls other than the moving one keep their standing when their rows do. -/
theorem OthersQuiet.frame {p : SqlPool} {i : ℕ} {s' : Session} {t' : SqlTask CreditLine}
    (h : OthersQuiet p i) (hs : ∀ k, k ≠ i → SameRows k p.store s') :
    OthersQuiet ⟨s',p.tasks.set i t'⟩ i := by
  intro k t hki ht
  rcases moved_cases ht with ⟨rfl,-⟩ | ⟨-,ht⟩
  · exact absurd rfl hki
  · exact (h k t hki ht).frame (hs k hki)

theorem OthersQuiet.insert {p : SqlPool} {i j : ℕ} {t' : SqlTask CreditLine}
    (h : OthersQuiet p j) (aborted : Bool) (hq : Quiet p.store i t') :
    OthersQuiet ⟨{ p.store with aborted },p.tasks.set i t'⟩ j := by
  intro k t hk ht
  rcases moved_cases ht with ⟨rfl,rfl⟩ | ⟨-,ht⟩
  · exact hq.frame (sameRows_aborted _ _ _)
  · exact (h k t hk ht).frame (sameRows_aborted _ _ _)

theorem AllSettled.insert {p : SqlPool} {i : ℕ} {t' : SqlTask CreditLine}
    (h : AllSettled p) (aborted : Bool) (hq : Quiet p.store i t') :
    AllSettled ⟨{ p.store with aborted },p.tasks.set i t'⟩ := by
  intro k t ht
  rcases moved_cases ht with ⟨rfl,rfl⟩ | ⟨-,ht⟩
  · exact .inl (hq.frame (sameRows_aborted _ _ _))
  · exact (h k t ht).imp (Quiet.frame (sameRows_aborted _ _ _))
      (Closing.frame (sameRows_aborted _ _ _))

/-- The `BEGIN` that opens a transaction. -/
theorem inv_begun {p : SqlPool} (h : Inv p) (hended : AllEnded p) (ho : AllSettled p) {i : ℕ}
    {next : Statement.Answer .begin → SqlTask CreditLine}
    (hi : p.tasks[i]? = some (.await .begin next)) :
    Inv ⟨(exec none i .begin p.store).2,
      p.tasks.set i (next (exec none i .begin p.store).1)⟩ := by
  obtain ⟨hw,hnone⟩ := hended
  have hquiet : ∀ k t, p.tasks[k]? = some t → Quiet p.store k t := by
    intro k t ht
    rcases ho k t ht with hq | ⟨⟨next',rfl,-⟩,-⟩
    · exact hq
    · exact absurd rfl (hnone _ (List.mem_of_getElem? ht))
  obtain ⟨hout,hn⟩ := (hquiet i _ hi).outside
  have hin : Inside (next (.ok ())) := by
    cases hout with
    | read hr _ => cases hr
    | begin hin _ => exact hin
  have hv : p.store.visible = p.store.durable := by simp [Session.visible,hw]
  rw [exec_executed,execute_of_live (failed_of_idle hw)]
  simp only [Session.perform,hv]
  refine ⟨h.recorded,.inr ⟨p.store.durable,i,next (.ok ()),rfl,moved hi _,?_,?_⟩⟩
  · refine ⟨.inl hin,fun e he hown => ?_,fun e he => he,fun e he => .inl he,?_⟩
    · exact hn e (h.recorded e he i hown) hown
    · exact fun e he hown => absurd hown (hn e he)
  · exact OthersQuiet.frame (fun k t _ ht => hquiet k t ht) fun k _ e _ => ⟨Iff.rfl,Iff.rfl⟩

/-- A step of a call while no transaction is open. It may open one. -/
theorem inv_step_idle {p : SqlPool} (h : Inv p) (hw : p.store.working = none)
    (ho : AllSettled p) {i : ℕ} {fate : Fate} {q : Statement}
    {next : q.Answer → SqlTask CreditLine} (hi : p.tasks[i]? = some (.await q next))
    (hb : fate = none → q = .begin → AllEnded p) :
    Inv ⟨(exec fate i q p.store).2,p.tasks.set i (next (exec fate i q p.store).1)⟩ := by
  by_cases hopens : fate = none ∧ q = .begin
  · obtain ⟨rfl,rfl⟩ := hopens
    exact inv_begun h (hb rfl rfl) ho hi
  · have hstep : ∃ aborted, (exec fate i q p.store).2 = { p.store with aborted } ∧
        Quiet p.store i (next (exec fate i q p.store).1) := by
      rcases ho i _ hi with hq | hq
      · exact h.quiet_exec hq fun hf hqb => absurd ⟨hf,hqb⟩ hopens
      · exact hq.exec hw fate
    obtain ⟨aborted,hs,hq'⟩ := hstep
    rw [hs]
    exact ⟨h.recorded,.inl ⟨hw,ho.insert aborted hq'⟩⟩

/-- The holder's task changes while its rows stay in the working copy. -/
theorem Holds.move {s : Session} {d : Database} {j : ℕ} {t t' : SqlTask CreditLine}
    (h : Holds s d j t) (ht : Inside t' ∨ ∃ f, t' = .done (.error f)) (aborted : Bool) :
    Holds { s with aborted } d j t' :=
  ⟨ht,h.clean,h.kept,h.added,h.own⟩

/-- A step of a call that does not hold the open transaction. The guard keeps
it from beginning its own. -/
theorem inv_step_other {p : SqlPool} (h : Inv p) {d : Database} {i j : ℕ}
    {t : SqlTask CreditLine} (hw : p.store.working = some d) (hj : p.tasks[j]? = some t)
    (hh : Holds p.store d j t) (ho : OthersQuiet p j) (hij : i ≠ j) {fate : Fate}
    {q : Statement} {next : q.Answer → SqlTask CreditLine}
    (hi : p.tasks[i]? = some (.await q next))
    (hb : fate = none → q = .begin → p.store.failed = true) :
    Inv ⟨(exec fate i q p.store).2,p.tasks.set i (next (exec fate i q p.store).1)⟩ := by
  obtain ⟨aborted,hs,hq'⟩ := h.quiet_exec (ho i _ hij hi) hb
  rw [hs]
  refine ⟨h.recorded,.inr ⟨d,j,t,hw,?_,hh.move hh.task aborted,ho.insert aborted hq'⟩⟩
  rw [List.getElem?_set_ne hij]
  exact hj

theorem Holds.insert {s : Session} {d : Database} {j : ℕ} {t t' : SqlTask CreditLine}
    (hw : s.working = some d) (h : Holds s d j t) (row : Row) (ht : Inside t') :
    Holds (s.insert j row) (d ++ [⟨some j,row⟩]) j t' := by
  have hd : (s.insert j row).durable = s.durable := by simp [Session.insert,hw]
  have hl : (s.insert j row).written = s.written ++ [⟨some j,row⟩] := rfl
  refine ⟨.inl ht,?_,?_,?_,?_⟩
  · rw [hd]
    exact h.clean
  · rw [hd]
    exact fun e he => List.mem_append_left _ (h.kept e he)
  · intro e he
    rw [hd,hl]
    rcases List.mem_append.mp he with he | he
    · rcases h.added e he with he | ⟨ho,he⟩
      · exact .inl he
      · exact .inr ⟨ho,List.mem_append_left _ he⟩
    · obtain rfl := List.mem_singleton.mp he
      exact .inr ⟨rfl,by simp⟩
  · intro e he ho
    rw [hl] at he
    rcases List.mem_append.mp he with he | he
    · exact List.mem_append_left _ (h.own e he ho)
    · exact List.mem_append_right _ he

/-- Inserting a row of call `j` into the working copy leaves the rows of every
other call alone. -/
theorem sameRows_insert {s : Session} {d : Database} (hw : s.working = some d) (j : ℕ)
    (row : Row) {k : ℕ} (hk : k ≠ j) : SameRows k s (s.insert j row) := by
  intro e he
  have hd : (s.insert j row).durable = s.durable := by simp [Session.insert,hw]
  have hne : e ≠ ⟨some j,row⟩ := by
    rintro rfl
    exact hk (by simpa using he.symm)
  refine ⟨?_,by rw [hd]⟩
  simp [Session.insert,hne]

/-- The moving call ends the transaction, and its own standing is known. -/
theorem OthersQuiet.close {p : SqlPool} {i : ℕ} {s' : Session} {t' : SqlTask CreditLine}
    (h : OthersQuiet p i) (hs : ∀ k, k ≠ i → SameRows k p.store s')
    (hq : Quiet s' i t' ∨ Closing s' i t') : AllSettled ⟨s',p.tasks.set i t'⟩ := by
  intro k t ht
  rcases moved_cases ht with ⟨rfl,rfl⟩ | ⟨hk,ht⟩
  · exact hq
  · exact .inl ((h k t hk ht).frame (hs k hk))

/-- What the holder commits are its own rows. -/
theorem Holds.sameRows_commit {s : Session} {d : Database} {j : ℕ} {t : SqlTask CreditLine}
    (h : Holds s d j t) {k : ℕ} (hk : k ≠ j) :
    SameRows k s { s with durable := d, working := none } := by
  intro e hown
  refine ⟨Iff.rfl,fun he => ?_,h.kept e⟩
  rcases h.added e he with he | ⟨hown',-⟩
  · exact he
  · exact absurd (hown.symm.trans hown') (by simpa using hk)

theorem inv_inserted {p : SqlPool} (h : Inv p) {d : Database} {i : ℕ} {t t' : SqlTask CreditLine}
    (hw : p.store.working = some d) (ho : OthersQuiet p i) (hh : Holds p.store d i t)
    (hi : p.tasks[i]? = some t) (row : Row) (ht : Inside t') :
    Inv ⟨p.store.insert i row,p.tasks.set i t'⟩ := by
  refine ⟨?_,.inr ⟨d ++ [⟨some i,row⟩],i,t',?_,moved hi _,hh.insert hw row ht,
    ho.frame fun k hk => sameRows_insert hw i row hk⟩⟩
  · intro e he k hk
    have hd : (p.store.insert i row).durable = p.store.durable := by
      simp [Session.insert,hw]
    rw [hd] at he
    exact List.mem_append_left _ (h.recorded e he k hk)
  · simp [Session.insert,hw]

theorem inv_committed {p : SqlPool} (h : Inv p) {d : Database} {i : ℕ} {t : SqlTask CreditLine}
    (ho : OthersQuiet p i) (hh : Holds p.store d i t) (a : CreditLine) :
    Inv ⟨{ p.store with durable := d, working := none },p.tasks.set i (.done (.ok a))⟩ := by
  have hq : Quiet { p.store with durable := d, working := none } i (.done (.ok a)) :=
    .inr (.inl ⟨⟨a,rfl⟩,hh.own⟩)
  refine ⟨?_,.inl ⟨rfl,ho.close (fun k hk => hh.sameRows_commit hk) (.inl hq)⟩⟩
  intro e he k hk
  rcases hh.added e he with he | ⟨-,he⟩
  · exact h.recorded e he k hk
  · exact he

theorem inv_rolledBack {p : SqlPool} (h : Inv p) {d : Database} {i : ℕ} {t : SqlTask CreditLine}
    (ho : OthersQuiet p i) (hh : Holds p.store d i t) (f : Failure) :
    Inv ⟨{ p.store with working := none },p.tasks.set i (.done (.error f))⟩ := by
  have hq : Quiet { p.store with working := none } i (.done (.error f)) :=
    .inr (.inr ⟨⟨f,rfl⟩,hh.clean⟩)
  exact ⟨h.recorded,.inl ⟨rfl,ho.close (fun k _ e _ => ⟨Iff.rfl,Iff.rfl⟩) (.inl hq)⟩⟩

/-- A `COMMIT` that fails has ended the transaction, and the `ROLLBACK` is still
to come. -/
theorem inv_commit_failed {p : SqlPool} (h : Inv p) {d : Database} {i : ℕ}
    {t t' : SqlTask CreditLine} (ho : OthersQuiet p i) (hh : Holds p.store d i t)
    (ht : RollsBack t') : Inv ⟨{ p.store with working := none },p.tasks.set i t'⟩ := by
  have hq : Closing { p.store with working := none } i t' := ⟨ht,hh.clean⟩
  exact ⟨h.recorded,.inl ⟨rfl,ho.close (fun k _ e _ => ⟨Iff.rfl,Iff.rfl⟩) (.inr hq)⟩⟩

/-- The holder moves on inside its transaction, or has rejected and left it open. -/
theorem inv_kept {p : SqlPool} (h : Inv p) {d : Database} {i : ℕ} {t t' : SqlTask CreditLine}
    (hw : p.store.working = some d) (ho : OthersQuiet p i) (hh : Holds p.store d i t)
    (hi : p.tasks[i]? = some t) (ht : Inside t' ∨ ∃ f, t' = .done (.error f))
    (aborted : Bool) : Inv ⟨{ p.store with aborted },p.tasks.set i t'⟩ :=
  ⟨h.recorded,.inr ⟨d,i,t',hw,moved hi _,hh.move ht aborted,
    ho.frame fun k _ => sameRows_aborted k _ _⟩⟩

/-- A step of the call that holds the open transaction. The guard keeps it from
committing a failed one. -/
theorem inv_step_holder {p : SqlPool} (h : Inv p) {d : Database} {i : ℕ}
    (hw : p.store.working = some d) (ho : OthersQuiet p i) {fate : Fate}
    {q : Statement} {next : q.Answer → SqlTask CreditLine}
    (hh : Holds p.store d i (.await q next)) (hi : p.tasks[i]? = some (.await q next))
    (hc : fate = none → q = .commit → p.store.failed = false) :
    Inv ⟨(exec fate i q p.store).2,p.tasks.set i (next (exec fate i q p.store).1)⟩ := by
  have hin : Inside (.await q next) := by
    rcases hh.task with hin | ⟨f,hf⟩
    · exact hin
    · cases hf
  have hv : p.store.visible = d := by simp [Session.visible,hw]
  cases hin with
  | data ha hn =>
      cases fate with
      | some e =>
          obtain ⟨aborted,hs⟩ := fail_eq p.store (q := q) (by rintro rfl; cases ha) e
          rw [exec_failed,hs]
          exact inv_kept h hw ho hh hi (.inl (hn _)) aborted
      | none =>
          rw [exec_executed]
          rcases execute_appends ha p.store i with ⟨aborted,hs⟩ | ⟨row,hs⟩
          · rw [hs]
            exact inv_kept h hw ho hh hi (.inl (hn _)) aborted
          · rw [hs]
            exact inv_inserted h hw ho hh hi row (hn _)
  | commit hdone he =>
      cases fate with
      | some e =>
          rw [exec_failed,Session.fail]
          split
          · exact inv_kept h hw ho hh hi (.inl (.rollback (he e))) p.store.aborted
          · exact inv_commit_failed h ho hh (he e)
      | none =>
          obtain ⟨a,hdone⟩ := hdone
          rw [exec_executed,execute_of_live (hc rfl rfl)]
          simp only [Session.perform,hv,hdone]
          exact inv_committed h ho hh a
  | rollback hr =>
      obtain ⟨next',hawait,hend⟩ := hr
      cases hawait
      obtain ⟨f,hf⟩ := hend (exec fate i .rollback p.store).1
      rw [hf]
      cases fate with
      | some e =>
          obtain ⟨aborted,hs⟩ := fail_eq p.store (q := .rollback) (by intro hq; cases hq) e
          rw [exec_failed,hs]
          exact inv_kept h hw ho hh hi (.inr ⟨f,rfl⟩) aborted
      | none =>
          rw [exec_executed,execute_rollback]
          exact inv_rolledBack h ho hh f

/-- A step that meets the guard keeps the invariant. -/
theorem inv_step (p : SqlPool) (t : ℕ × Fate) (h : Inv p) (hg : Separate p t) :
    Inv (sqlStep p t) := by
  obtain ⟨i,fate⟩ := t
  unfold sqlStep
  rcases Pool.step_cases exec p i fate with ⟨hs,-⟩ | ⟨q,next,hi,hs⟩
  · rw [hs]
    exact h
  · rw [hs]
    have hbegin : fate = none → q = .begin → AllEnded p ∨ p.store.failed = true :=
      fun hf hq => (hg hf).1 (by simp [hi,hq])
    have hcommit : fate = none → q = .commit → p.store.failed = false :=
      fun hf hq => (hg hf).2 (by simp [hi,hq])
    rcases h.shape with ⟨hw,ho⟩ | ⟨d,j,t,hw,hj,hh,ho⟩
    · refine inv_step_idle h hw ho hi fun hf hq => ?_
      rcases hbegin hf hq with hended | hfailed
      · exact hended
      · rw [failed_of_idle hw] at hfailed
        cases hfailed
    · by_cases hij : i = j
      · subst hij
        obtain rfl : t = .await q next := Option.some.inj (hj.symm.trans hi)
        exact inv_step_holder h hw ho hh hi hcommit
      · refine inv_step_other h hw hj hh ho hij hi fun hf hq => ?_
        rcases hbegin hf hq with ⟨hidle,-⟩ | hfailed
        · cases hw.symm.trans hidle
        · exact hfailed

/-- In every run that begins a transaction only after the end of all others and
commits none that has failed, at every state passed through, rejected calls have
left no row durable and resolved calls all of theirs. -/
theorem atomic_of_separate (client : DbClient) (calls : List Call) (rows : List Row)
    (nextId : Uuid) (schedule passed : List (ℕ × Fate))
    (hg : Guarded sqlStep Separate (start client calls (connect rows nextId)) schedule)
    (hp : passed <+: schedule) :
    Atomic (run sqlStep (start client calls (connect rows nextId)) passed) :=
  (run_invariant_passed inv_step (inv_start client calls rows nextId) hg hp).atomic

/-- Two borrowers with one active line each: line 2 of `GA`, line 4 of `GB`. -/
def twoLines : List Row :=
  [.borrower ⟨1,"GA"⟩,.creditLine ⟨2,1,100,.active,500,1⟩,
    .borrower ⟨3,"GB"⟩,.creditLine ⟨4,3,50,.active,500,1⟩]

/-- One draw after the other, each to its end. -/
theorem atomic_of_separate_two_draws :
    Guarded sqlStep Separate
        (start ⟨⟩ [.draw 2 "GA" (some 10),.draw 4 "GB" (some 5)] (connect twoLines 5))
        (List.replicate 8 (0,none) ++ List.replicate 8 (1,none)) ∧
      Atomic (run sqlStep
        (start ⟨⟩ [.draw 2 "GA" (some 10),.draw 4 "GB" (some 5)] (connect twoLines 5))
        (List.replicate 8 (0,none) ++ List.replicate 8 (1,none))) := by
  have hg : Guarded sqlStep Separate
      (start ⟨⟩ [.draw 2 "GA" (some 10),.draw 4 "GB" (some 5)] (connect twoLines 5))
      (List.replicate 8 (0,none) ++ List.replicate 8 (1,none)) := by decide +kernel
  exact ⟨hg,atomic_of_separate ⟨⟩ _ twoLines 5 _ _ hg (List.prefix_refl _)⟩

/-- A draw has inserted its ledger row when a create for a wallet with an open
line sends `BEGIN`, finds the line and rolls back. The draw resolves and its
row is gone. -/
theorem draw_resolves_without_its_row :
    ¬ Atomic (run sqlStep
      (start ⟨⟩ [.draw 2 "GA" (some 10),.create ⟨"GB",20,500⟩] (connect twoLines 5))
      (List.replicate 5 (0,none) ++ List.replicate 4 (1,none) ++
        List.replicate 3 (0,none))) := by
  intro h
  have hrow := (h 0).2
    ⟨⟨2,"GA",100,100,0,500,.active,some 1⟩,by decide +kernel⟩
    ⟨some 0,.transaction ⟨5,2,.borrow,10,.pending,none⟩⟩ (by decide +kernel) rfl
  revert hrow
  decide +kernel

/-- A draw of `GB` whose first `SELECT` fails at the server has the same effect, just before
the other draw sends its `COMMIT`. -/
example : ¬ Atomic (run sqlStep
    (start ⟨⟩ [.draw 2 "GA" (some 10),.draw 4 "GB" (some 5)] (connect twoLines 5))
    (List.replicate 7 (0,none) ++ [(1,some (.sqlState "22P02")),(0,none)])) := by
  intro h
  have hrow := (h 0).2
    ⟨⟨2,"GA",100,90,10,500,.active,some 1⟩,by decide +kernel⟩
    ⟨some 0,.transaction ⟨5,2,.borrow,10,.pending,none⟩⟩ (by decide +kernel) rfl
  revert hrow
  decide +kernel

end Creditra.TransactionAtomicity
