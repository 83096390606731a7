import Creditra.TransactionAtomicity

/-!
# A failed mutation alone on its session

One call of `createCreditLine`, `draw` or `repay`, with the events it publishes,
on a session where no transaction is open. The environment decides about every
statement: it is executed, it fails, or, where it may, it answers with no row.

A statement that fails ends the call, after a `ROLLBACK` if the transaction was
begun, and nothing of the call is durable without its `COMMIT`. The call rejects
with the error of that statement, but for the two insertions of `create`: their
`catch` clauses throw an error of their own.
-/
namespace Creditra.FailedMutations
open CreditModels AwaitTasks CreditLineService PostgresSession PostgresRepositories
open TransactionAtomicity (Call)

/-! ## The service with its events -/

inductive Event where
  | opened (creditLineId : Uuid) (walletAddress : String) (creditLimit : ℚ)
  | drawRequested (creditLineId : Uuid) (walletAddress : String) (amount : ℚ)
  | drawConfirmed (creditLineId : Uuid) (walletAddress : String) (amount utilized : ℚ)
  | repayConfirmed (creditLineId : Uuid) (walletAddress : String) (amount utilized : ℚ)
  deriving DecidableEq

/-- Events that tell of a mutation that has happened. -/
def Event.confirms : Event → Bool
  | .drawRequested _ _ _ => false
  | _ => true

inductive Effect where
  | statement (q : Statement)
  | publish (event : Event)

/-- Publishing is not awaited and answers nothing. -/
abbrev Effect.Answer : Effect → Type
  | statement q => q.Answer
  | publish _ => Unit

abbrev EventTask := Task Effect Effect.Answer Failure

def lift {α : Type} : SqlTask α → EventTask α
  | .done r => .done r
  | .await q next => .await (.statement q) fun r => lift (next r)

def publish (event : Event) : EventTask Unit := .await (.publish event) fun _ => .done (.ok ())

/-- Work in a transaction, and an event about its result. -/
def transacted (client : DbClient) (work : SqlTask CreditLine) (event : CreditLine → Event) :
    EventTask CreditLine := do
  let result ← lift (createDbTransactionRunner client work)
  publish (event result)
  pure result

def createCreditLine (client : DbClient) (request : CreateCreditLineRequest) :
    EventTask CreditLine :=
  if request.walletAddress = "" then Task.throw (.error "Wallet address is required")
  else if request.creditLimit ≤ 0 then
    Task.throw (.error "Credit limit must be greater than 0")
  else if request.interestRateBps < 0 ∨ request.interestRateBps > 10000 then
    Task.throw (.error "Interest rate must be between 0 and 10000 basis points")
  else transacted client (PostgresCreditLineRepository.create request) fun created =>
    .opened created.id created.walletAddress created.creditLimit

def draw (client : DbClient) (id : Uuid) (borrowerId : String) (amount : Option ℚ) :
    EventTask CreditLine := do
  let line ← lift (PostgresCreditLineRepository.findById id)
  match line with
  | none => Task.throw (.error "Credit line not found")
  | some line => match drawPosting borrowerId amount (some line) with
      | .error e => Task.throw e
      | .ok p => do
          publish (.drawRequested id line.walletAddress p.amount)
          transacted client ((service client).record id p) fun updated =>
            .drawConfirmed id line.walletAddress p.amount updated.utilized

def repay (client : DbClient) (id : Uuid) (_walletAddress : String) (amount : Option ℚ) :
    EventTask CreditLine := do
  let line ← lift (PostgresCreditLineRepository.findById id)
  match line with
  | none => Task.throw (.error "Credit line not found")
  | some line => match repayPosting amount (some line) with
      | .error e => Task.throw e
      | .ok p => transacted client ((service client).record id p) fun updated =>
          .repayConfirmed id line.walletAddress p.amount updated.utilized

def perform (client : DbClient) : Call → EventTask CreditLine
  | .create request => createCreditLine client request
  | .draw id borrowerId amount => draw client id borrowerId amount
  | .repay id walletAddress amount => repay client id walletAddress amount

/-- The statements of a task, without its events. -/
def silent {α : Type} : EventTask α → SqlTask α
  | .done r => .done r
  | .await (.statement q) next => .await q fun r => silent (next r)
  | .await (.publish _) next => silent (next ())

theorem silent_bind {α β : Type} (t : EventTask α) (f : α → EventTask β) :
    silent (t >>= f) = silent t >>= fun a => silent (f a) := by
  induction t with
  | done r =>
      cases r with
      | ok a => rfl
      | error e => rfl
  | await effect next ih =>
      cases effect with
      | statement q =>
          simp only [Task.bind_await,silent]
          congr 1
          funext r
          exact ih r
      | publish event => exact ih ()

theorem silent_lift {α : Type} (t : SqlTask α) : silent (lift t) = t := by
  induction t with
  | done r => rfl
  | await q next ih =>
      simp only [lift,silent]
      congr 1
      funext r
      exact ih r

theorem bind_pure_task {α : Type} (t : SqlTask α) : (t >>= fun a => Task.done (.ok a)) = t := by
  induction t with
  | done r =>
      cases r with
      | ok a => rfl
      | error e => rfl
  | await q next ih =>
      rw [Task.bind_await]
      congr 1
      funext r
      exact ih r

theorem silent_transacted (client : DbClient) (work : SqlTask CreditLine)
    (event : CreditLine → Event) :
    silent (transacted client work event) = createDbTransactionRunner client work := by
  unfold transacted
  rw [silent_bind,silent_lift]
  exact bind_pure_task _

/-- Without its events a call is the call of the service. -/
theorem silent_perform (client : DbClient) (call : Call) :
    silent (perform client call) = call.task client := by
  cases call with
  | create request =>
      simp only [perform,createCreditLine,Call.task,Service.createCreditLine]
      split_ifs
      · rfl
      · rfl
      · rfl
      · exact silent_transacted client _ _
  | draw id borrowerId amount =>
      simp only [perform,draw,Call.task,Service.draw,Service.mutate]
      rw [silent_bind,silent_lift]
      congr 1
      funext line
      cases line with
      | none => rfl
      | some line =>
          dsimp only
          cases drawPosting borrowerId amount (some line) with
          | error e => rfl
          | ok p => exact silent_transacted client _ _
  | repay id walletAddress amount =>
      simp only [perform,repay,Call.task,Service.repay,Service.mutate]
      rw [silent_bind,silent_lift]
      congr 1
      funext line
      cases line with
      | none => rfl
      | some line =>
          dsimp only
          cases repayPosting amount (some line) with
          | error e => rfl
          | ok p => exact silent_transacted client _ _

/-! ## The environment -/

inductive Fate where
  | executed
  | failed (e : QueryError)
  | empty

/-- The answer with no row, of a statement that may give it. -/
def noRow : (q : Statement) → Option q.Rows
  | .selectBorrower _ => some none
  | .selectOpenLine _ => some none
  | .selectWallet _ => some none
  | .selectLine _ => some none
  | .existsLine _ => some false
  | .updateLine _ _ => some false
  | .selectTransaction _ => some none
  | _ => none

def answered (fate : Fate) (owner : ℕ) (q : Statement) (s : Session) : q.Answer × Session :=
  match fate with
  | .executed => s.execute owner q
  | .failed e => (.error e,s.fail q e)
  | .empty => match noRow q with
      | some rows => (.ok rows,s)
      | none => s.execute owner q

/-- The error a statement has failed with. -/
def failure {α : Type} : Except QueryError α → Option QueryError
  | .ok _ => none
  | .error e => some e

/-- The session, the fates of the statements to come, the statements so far with their failures,
and the events so far. -/
structure World where
  session : Session
  fates : ℕ → Fate
  history : List (Statement × Option QueryError) := []
  published : List Event := []

def World.exec : Exec Effect Effect.Answer World Unit := fun _ owner effect w =>
  match effect with
  | .statement q =>
      let a := answered (w.fates 0) owner q w.session
      (a.1,⟨a.2,fun n => w.fates (n + 1),w.history ++ [(q,failure a.1)],w.published⟩)
  | .publish event => ((),{ w with published := w.published ++ [event] })

/-- The call from its first statement to its end. -/
def alone (client : DbClient) (call : Call) (s : Session) (fates : ℕ → Fate) :
    Except Failure CreditLine × World :=
  (perform client call).complete World.exec () 0 ⟨s,fates,[],[]⟩

/-- The failure of the first statement that fails, the `ROLLBACK` apart. -/
def originalFailure (history : List (Statement × Option QueryError)) : Option QueryError :=
  (history.filter (·.1 ≠ .rollback)).findSome? Prod.snd

/-- The error of a rejected call is that failure; without one it is an error of the code's own. -/
def Original (history : List (Statement × Option QueryError)) (f : Failure) : Prop :=
  match originalFailure history with
  | some e => f = .query e
  | none => ∀ e, f ≠ .query e

/-- A call that rejects leaves the credit lines and the ledger as they were and throws the
original failure; an event confirms the mutation exactly when `COMMIT` has succeeded. -/
structure Traceless (before : Session) (after : Except Failure CreditLine × World) : Prop where
  rejected : ∀ f, after.1 = .error f →
    after.2.session.durable.creditLines = before.durable.creditLines ∧
    after.2.session.durable.transactions = before.durable.transactions ∧
    Original after.2.history f
  confirmed : (∃ event ∈ after.2.published, event.confirms = true) ↔
    (.commit,none) ∈ after.2.history

/-- The insertions of `create`. -/
def creates : Statement → Bool
  | .insertBorrower _ => true
  | .insertCreditLine _ _ _ => true
  | _ => false

/-- No insertion of `create` has failed. -/
def InsertsPass (history : List (Statement × Option QueryError)) : Prop :=
  ∀ step ∈ history, creates step.1 = true → step.2 = none

def Fate.fails : Fate → Bool
  | .failed _ => true
  | _ => false

/-- The borrower has a line that is not closed. -/
def hasOpenLine (d : Database) (borrowerId : Uuid) : Bool :=
  d.creditLines.any fun r => r.borrowerId = borrowerId ∧ r.status ≠ .closed

/-- The request passes the checks of `createCreditLine`. -/
def Accepted (request : CreateCreditLineRequest) : Prop :=
  request.walletAddress ≠ "" ∧ 0 < request.creditLimit ∧
    0 ≤ request.interestRateBps ∧ request.interestRateBps ≤ 10000

/-- The insertion of a line, if the `SELECT` before it lets it come to that. -/
def LineInsertable (d : Database) (borrowerId : Uuid) (select insert : Fate) : Prop :=
  match select with
  | .failed _ => True
  | .executed => hasOpenLine d borrowerId = false → insert.fails = false
  | .empty => hasOpenLine d borrowerId = false ∧ insert.fails = false

/-- The insertions that a call comes to go through: the borrower's where the first `SELECT` finds
none, and the line's. -/
def Insertable (s : Session) (fates : ℕ → Fate) : Call → Prop
  | .create request =>
      Accepted request → (fates 0).fails = false →
      match fates 1, s.durable.borrowers.find? (·.walletAddress = request.walletAddress) with
      | .failed _, _ => True
      | .executed, some borrower => LineInsertable s.durable borrower.id (fates 2) (fates 3)
      | _, some _ => False
      | _, none => (fates 2).fails = false ∧ LineInsertable s.durable s.nextId (fates 3) (fates 4)
  | _ => True

/-! ## What a failing statement makes of a task -/

/-- The error that a call rejects with when a statement of it fails. -/
def reported (q : Statement) (e : QueryError) : Failure :=
  if creates q then .reference "conflictFromUniqueViolation" else .query e

/-- Every statement is of a kind, and one that fails ends the task with its error. -/
inductive Sound (P : Statement → Prop) {α : Type} : SqlTask α → Prop
  | returned (a : α) : Sound P (.done (.ok a))
  | thrown {f : Failure} : (∀ e, f ≠ .query e) → Sound P (.done (.error f))
  | data {q : Statement} {next : q.Answer → SqlTask α} : P q →
      (∀ rows, Sound P (next (.ok rows))) →
      (∀ e, next (.error e) = .done (.error (reported q e))) → Sound P (.await q next)

section Sound
variable {P P' : Statement → Prop} {α β : Type}

theorem Sound.bind {t : SqlTask α} {f : α → SqlTask β} (ht : Sound P t)
    (hf : ∀ a, Sound P (f a)) : Sound P (t >>= f) := by
  induction ht with
  | returned a => exact hf a
  | thrown hf' => exact .thrown hf'
  | data hq _ herror ih =>
      refine .data hq ih ?_
      intro e
      rw [herror e]
      rfl

theorem Sound.mono {t : SqlTask α} (ht : Sound P t) (h : ∀ q, P q → P' q) : Sound P' t := by
  induction ht with
  | returned a => exact .returned a
  | thrown hf => exact .thrown hf
  | data hq _ herror ih => exact .data (h _ hq) ih herror

theorem sound_query {q : Statement} (hq : P q) (hplain : creates q = false) :
    Sound P (query q) := by
  refine .data hq (fun rows => .returned rows) ?_
  intro e
  unfold reported
  rw [hplain]
  rfl

/-- An insertion of `create`, with its `catch` clause. -/
theorem sound_insert {q : Statement} (hq : P q) (hcreates : creates q = true) :
    Sound P (Task.handle (query q) fun _ =>
      Task.throw (.reference "conflictFromUniqueViolation")) := by
  refine .data hq (fun rows => .returned rows) ?_
  intro e
  unfold reported
  rw [hcreates]
  rfl

theorem sound_findById (id : Uuid) :
    Sound Statement.Reads (PostgresCreditLineRepository.findById id) := by
  refine (sound_query trivial rfl).bind fun row => ?_
  cases row with
  | none => exact .returned none
  | some row => exact (sound_query trivial rfl).bind fun _ => .returned _

theorem Sound.awaits {t : SqlTask α} (ht : Sound P t) : t.Awaits P := by
  induction ht with
  | returned a => trivial
  | thrown hf => trivial
  | data hq _ herror ih =>
      refine ⟨hq,fun r => ?_⟩
      cases r with
      | ok rows => exact ih rows
      | error e =>
          rw [herror e]
          trivial

theorem creates_of_reads {q : Statement} (hq : q.Reads) : creates q = false := by
  cases q <;> first | rfl | cases hq

theorem sound_record (client : DbClient) (id : Uuid) (p : Posting) :
    Sound (fun q => q.Appends ∧ creates q = false) ((service client).record id p) := by
  unfold Service.record
  simp only [service,PostgresTransactionRepository.repository,
    PostgresCreditLineRepository.repository,update_utilized]
  refine Sound.bind ?_ fun _ => ?_
  · refine (sound_query ⟨trivial,rfl⟩ rfl).bind fun id => ?_
    refine (sound_query ⟨trivial,rfl⟩ rfl).bind fun created => ?_
    cases created with
    | none => exact .thrown (by intro e h; cases h)
    | some transaction => exact .returned transaction
  · refine ((sound_findById id).mono fun _ h => ⟨h.appends,creates_of_reads h⟩).bind fun next => ?_
    cases next with
    | none => exact .thrown (by intro e h; cases h)
    | some line => exact .returned line

theorem sound_getWalletAddress (borrowerId : Uuid) :
    Sound Statement.Reads (PostgresCreditLineRepository.getWalletAddress borrowerId) := by
  refine (sound_query trivial rfl).bind fun result => ?_
  cases result with
  | none => exact .thrown (by intro e h; cases h)
  | some walletAddress => exact .returned walletAddress

theorem sound_create (request : CreateCreditLineRequest) :
    Sound Statement.Appends (PostgresCreditLineRepository.create request) := by
  unfold PostgresCreditLineRepository.create
  refine Sound.bind ?_ fun borrowerId => ?_
  · refine (sound_query trivial rfl).bind fun found => ?_
    cases found with
    | none => exact sound_insert trivial rfl
    | some id => exact .returned id
  · refine (sound_query trivial rfl).bind fun openCheck => ?_
    cases openCheck with
    | some status => exact .thrown (by intro e h; cases h)
    | none =>
        refine (sound_insert trivial rfl).bind fun row => ?_
        have hwallet := (sound_getWalletAddress borrowerId).mono fun _ h => h.appends
        exact hwallet.bind fun walletAddress => .returned _

end Sound

/-- A task that sends `ROLLBACK` and rejects. -/
inductive Failing (f : Failure) : EventTask CreditLine → Prop
  | rollback {next : Statement.Answer .rollback → EventTask CreditLine} :
      (∀ r, next r = .done (.error f)) → Failing f (.await (.statement .rollback) next)

/-- What is left of a call between its `BEGIN` and its commit or rollback. -/
inductive Inside : EventTask CreditLine → Prop
  | data {q : Statement} {next : q.Answer → EventTask CreditLine} : q.Appends →
      (∀ rows, Inside (next (.ok rows))) → (∀ e, Failing (reported q e) (next (.error e))) →
      Inside (.await (.statement q) next)
  | thrown {f : Failure} {t : EventTask CreditLine} : (∀ e, f ≠ .query e) → Failing f t → Inside t
  | commit {next : Statement.Answer .commit → EventTask CreditLine} {event : Event}
      {a : CreditLine} : next (.ok ()) = .await (.publish event) (fun _ => .done (.ok a)) →
      event.confirms = true → (∀ e, Failing (.query e) (next (.error e))) →
      Inside (.await (.statement .commit) next)

/-- What is left of a call that has not begun its transaction. -/
inductive Outside : EventTask CreditLine → Prop
  | rejected {f : Failure} : (∀ e, f ≠ .query e) → Outside (.done (.error f))
  | read {q : Statement} {next : q.Answer → EventTask CreditLine} : q.Reads →
      (∀ rows, Outside (next (.ok rows))) →
      (∀ e, next (.error e) = .done (.error (reported q e))) → Outside (.await (.statement q) next)
  | publish {event : Event} {next : Unit → EventTask CreditLine} : event.confirms = false →
      Outside (next ()) → Outside (.await (.publish event) next)
  | begin {next : Statement.Answer .begin → EventTask CreditLine} : Inside (next (.ok ())) →
      (∀ e, next (.error e) = .done (.error (.query e))) →
      Outside (.await (.statement .begin) next)

theorem failing_rollback (f : Failure) (event : CreditLine → Event) :
    Failing f (do
      let result ← lift (do
        Task.handle (query .rollback) fun _ => pure ()
        (Task.throw f : SqlTask CreditLine))
      publish (event result)
      pure result) := by
  apply Failing.rollback
  intro r
  cases r with
  | ok _ => rfl
  | error e => rfl

theorem inside_transacted {work : SqlTask CreditLine} (h : Sound Statement.Appends work)
    {event : CreditLine → Event} (hevent : ∀ a, (event a).confirms = true) :
    Inside (do
      let result ← lift (Task.handle (do let result ← work; query .commit; pure result)
        fun error => do
          Task.handle (query .rollback) fun _ => pure ()
          Task.throw error)
      publish (event result)
      pure result) := by
  induction h with
  | returned a =>
      exact .commit rfl (hevent a) fun e => failing_rollback (.query e) event
  | thrown hf => exact .thrown hf (failing_rollback _ event)
  | data hq _ herror ih =>
      refine .data hq ih ?_
      intro e
      dsimp only
      rw [herror e]
      exact failing_rollback _ event

theorem outside_transacted (client : DbClient) {work : SqlTask CreditLine}
    (h : Sound Statement.Appends work) {event : CreditLine → Event}
    (hevent : ∀ a, (event a).confirms = true) : Outside (transacted client work event) :=
  .begin (inside_transacted h hevent) fun _ => rfl

theorem outside_bind {α : Type} {t : SqlTask α} {f : α → EventTask CreditLine}
    (ht : Sound Statement.Reads t) (hf : ∀ a, Outside (f a)) : Outside (lift t >>= f) := by
  induction ht with
  | returned a => exact hf a
  | thrown hf' => exact .rejected hf'
  | data hq _ herror ih =>
      refine .read hq ih ?_
      intro e
      dsimp only
      rw [herror e]
      rfl

theorem drawPosting_eq_error {borrowerId : String} {amount : Option ℚ} {line : Option CreditLine}
    {f : Failure} (h : drawPosting borrowerId amount line = .error f) (e : QueryError) :
    f ≠ .query e := by
  unfold drawPosting at h
  grind

theorem repayPosting_eq_error {amount : Option ℚ} {line : Option CreditLine} {f : Failure}
    (h : repayPosting amount line = .error f) (e : QueryError) : f ≠ .query e := by
  unfold repayPosting at h
  grind

/-- Every call starts outside its transaction. -/
theorem outside_perform (client : DbClient) (call : Call) : Outside (perform client call) := by
  have herror : ∀ message : String, ∀ e, Failure.error message ≠ .query e := by
    intro message e h
    cases h
  cases call with
  | create request =>
      simp only [perform,createCreditLine]
      split_ifs
      · exact .rejected (herror _)
      · exact .rejected (herror _)
      · exact .rejected (herror _)
      · exact outside_transacted client (sound_create request) fun _ => rfl
  | draw id borrowerId amount =>
      refine outside_bind (sound_findById id) fun line => ?_
      cases line with
      | none => exact .rejected (herror _)
      | some line =>
          dsimp only
          cases hposting : drawPosting borrowerId amount (some line) with
          | error f => exact .rejected (drawPosting_eq_error hposting)
          | ok p =>
              have hwork := (sound_record client id p).mono fun _ h => h.1
              exact .publish rfl (outside_transacted client hwork fun _ => rfl)
  | repay id walletAddress amount =>
      refine outside_bind (sound_findById id) fun line => ?_
      cases line with
      | none => exact .rejected (herror _)
      | some line =>
          dsimp only
          cases hposting : repayPosting amount (some line) with
          | error f => exact .rejected (repayPosting_eq_error hposting)
          | ok p =>
              have hwork := (sound_record client id p).mono fun _ h => h.1
              exact outside_transacted client hwork fun _ => rfl

/-! ## How a call ends -/

/-- Statements that were executed, no `COMMIT` among them. -/
def Passed (steps : List (Statement × Option QueryError)) : Prop :=
  ∀ step ∈ steps, step.2 = none ∧ step.1 ≠ .commit

/-- Statements that were executed, perhaps one that failed, and at most a `ROLLBACK` after it. -/
inductive Ended (f : Failure) : List (Statement × Option QueryError) → Prop
  | failed {rest : List (Statement × Option QueryError)} {q : Statement} {e : QueryError} :
      q ≠ .rollback → f = reported q e → (∀ step ∈ rest, step.1 = .rollback) →
      Ended f ((q,some e) :: rest)
  | thrown {rest : List (Statement × Option QueryError)} : (∀ step ∈ rest, step.1 = .rollback) →
      (∀ e, f ≠ .query e) → Ended f rest
  | passed {q : Statement} {rest : List (Statement × Option QueryError)} : q ≠ .commit →
      q ≠ .rollback → Ended f rest → Ended f ((q,none) :: rest)

/-- How the rest of a call ends that starts in a world. -/
def Finished (w : World) (out : Except Failure CreditLine × World) : Prop :=
  ∃ steps, out.2.history = w.history ++ steps ∧
    ((∃ f, out.1 = .error f ∧ Ended f steps ∧ out.2.session.durable = w.session.durable ∧
      ∃ quiet, out.2.published = w.published ++ quiet ∧ ∀ event ∈ quiet, event.confirms = false) ∨
    ∃ a passed, out.1 = .ok a ∧ steps = passed ++ [(.commit,none)] ∧ Passed passed ∧
      ∃ event ∈ out.2.published, event.confirms = true)

/-- The world after a statement. -/
def World.after (w : World) (q : Statement) : World :=
  ⟨(answered (w.fates 0) 0 q w.session).2,fun n => w.fates (n + 1),
    w.history ++ [(q,failure (answered (w.fates 0) 0 q w.session).1)],w.published⟩

theorem complete_statement {q : Statement} (next : q.Answer → EventTask CreditLine) (w : World) :
    (Task.await (.statement q) next : EventTask CreditLine).complete World.exec () 0 w =
      (next (answered (w.fates 0) 0 q w.session).1).complete World.exec () 0 (w.after q) := rfl

/-- An executed statement before the rest of the call. -/
theorem Finished.after {w : World} {q : Statement} {out : Except Failure CreditLine × World}
    (h : Finished (w.after q) out) (hcommit : q ≠ .commit) (hrollback : q ≠ .rollback)
    (hpassed : failure (answered (w.fates 0) 0 q w.session).1 = none)
    (hdurable : (w.after q).session.durable = w.session.durable) : Finished w out := by
  obtain ⟨steps,hhistory,hend⟩ := h
  refine ⟨(q,none) :: steps,?_,?_⟩
  · rw [hhistory]
    simp [World.after,hpassed]
  · cases hend with
    | inl hrejected =>
        obtain ⟨f,hf,hended,hsame,hquiet⟩ := hrejected
        exact .inl ⟨f,hf,.passed hcommit hrollback hended,hsame.trans hdurable,hquiet⟩
    | inr hresolved =>
        obtain ⟨a,passed,ha,hsteps,hpass,hevent⟩ := hresolved
        refine .inr ⟨a,(q,none) :: passed,ha,by rw [hsteps]; rfl,?_,hevent⟩
        intro step hstep
        cases List.mem_cons.mp hstep with
        | inl hself =>
            rw [hself]
            exact ⟨rfl,hcommit⟩
        | inr hrest => exact hpass step hrest

theorem Reads.ne {q q' : Statement} (h : q.Reads) (h' : ¬ q'.Reads) : q ≠ q' := by
  intro heq
  exact h' (heq ▸ h)

theorem Appends.ne {q q' : Statement} (h : q.Appends) (h' : ¬ q'.Appends) : q ≠ q' := by
  intro heq
  exact h' (heq ▸ h)

/-- A statement that always answers with a row, and is not failed, is executed. -/
theorem answered_executed {q : Statement} (hq : noRow q = none) {fate : Fate}
    (hfate : fate.fails = false) (s : Session) : answered fate 0 q s = s.execute 0 q := by
  cases fate with
  | executed => rfl
  | failed e => cases hfate
  | empty =>
      unfold answered
      dsimp only
      rw [hq]

/-- A `BEGIN` that is not failed opens a transaction. -/
theorem after_begin {w : World} (hidle : w.session.working = none)
    (hfate : (w.fates 0).fails = false) : (w.after .begin).session =
      { w.session with working := some w.session.visible, aborted := false } := by
  unfold World.after
  dsimp only
  rw [answered_executed rfl hfate,execute_of_live (failed_of_idle hidle)]
  rfl

theorem fails_of_ok {fate : Fate} {q : Statement} {s : Session} {rows : q.Rows}
    (h : (answered fate 0 q s).1 = .ok rows) : fate.fails = false := by
  cases fate with
  | executed | empty => rfl
  | failed e => cases h

theorem answered_reads {q : Statement} (hq : q.Reads) {fate : Fate} (hfate : fate.fails = false)
    (s : Session) : (answered fate 0 q s).2 = s := by
  unfold answered
  split
  · exact execute_reads hq s 0
  · cases hfate
  · split
    · rfl
    · exact execute_reads hq s 0

/-- Inside a transaction a statement leaves what is durable, and the transaction open. -/
theorem answered_appends {q : Statement} (hq : q.Appends) (fate : Fate) {s : Session}
    {d : Database} (hw : s.working = some d) :
    (answered fate 0 q s).2.durable = s.durable ∧
      ∃ d', (answered fate 0 q s).2.working = some d' := by
  have hexecute : (s.execute 0 q).2.durable = s.durable ∧
      ∃ d', (s.execute 0 q).2.working = some d' := by
    cases execute_appends hq s 0 with
    | inl hsame =>
        obtain ⟨aborted,hsame⟩ := hsame
        rw [hsame]
        exact ⟨rfl,d,hw⟩
    | inr hinsert =>
        obtain ⟨row,hrow⟩ := hinsert
        rw [hrow]
        unfold Session.insert
        rw [hw]
        exact ⟨rfl,_,rfl⟩
  unfold answered
  split
  · exact hexecute
  · rename_i e
    obtain ⟨aborted,hs⟩ := fail_eq s (Appends.ne hq id) e
    rw [hs]
    exact ⟨rfl,d,hw⟩
  · split
    · exact ⟨rfl,d,hw⟩
    · exact hexecute

theorem durable_fail (s : Session) (q : Statement) (e : QueryError) :
    (s.fail q e).durable = s.durable := by
  unfold Session.fail
  split_ifs
  · rfl
  · rfl
  · rfl

theorem durable_rollback (fate : Fate) (s : Session) :
    (answered fate 0 .rollback s).2.durable = s.durable := by
  have hexecute : (s.execute 0 .rollback).2.durable = s.durable := by rw [execute_rollback]
  cases fate with
  | executed => exact hexecute
  | failed e => exact durable_fail s .rollback e
  | empty => exact hexecute

theorem perform_error {q : Statement} {s : Session} {e : QueryError}
    (h : (s.perform 0 q).1 = .error e) : (s.perform 0 q).2 = s.abort := by
  cases q with
  | insertBorrower walletAddress =>
      simp only [Session.perform] at h ⊢
      split_ifs at h ⊢
      rfl
  | insertCreditLine borrowerId creditLimit interestRateBps =>
      simp only [Session.perform] at h ⊢
      split_ifs at h ⊢
      · rfl
      · rfl
  | insertTransaction request =>
      simp only [Session.perform] at h ⊢
      split_ifs at h ⊢
      rfl
  | updateLine id request =>
      simp only [Session.perform] at h ⊢
      split_ifs at h ⊢
      rfl
  | _ => cases h

theorem execute_error {q : Statement} {s : Session} {e : QueryError}
    (h : (s.execute 0 q).1 = .error e) : (s.execute 0 q).2.durable = s.durable := by
  cases hfailed : s.failed with
  | false =>
      rw [execute_of_live hfailed] at h ⊢
      rw [perform_error h]
      rfl
  | true =>
      rw [execute_of_failed hfailed]
      cases q <;> rfl

/-- A statement that fails leaves what is durable. -/
theorem answered_error {fate : Fate} {q : Statement} {s : Session} {e : QueryError}
    (h : (answered fate 0 q s).1 = .error e) :
    (answered fate 0 q s).2.durable = s.durable := by
  unfold answered at h ⊢
  split at h
  · exact execute_error h
  · exact durable_fail s q _
  · split at h
    · cases h
    · exact execute_error h

theorem complete_failing {f : Failure} {t : EventTask CreditLine} (h : Failing f t) (w : World) :
    ∃ outcome, (t.complete World.exec () 0 w).1 = .error f ∧
      (t.complete World.exec () 0 w).2.session.durable = w.session.durable ∧
      (t.complete World.exec () 0 w).2.published = w.published ∧
      (t.complete World.exec () 0 w).2.history = w.history ++ [(.rollback,outcome)] := by
  cases h with
  | rollback hnext =>
      rw [complete_statement,hnext]
      exact ⟨_,rfl,durable_rollback _ _,rfl,rfl⟩

/-- A statement inside the transaction that fails. -/
theorem finished_of_failing {w : World} {q : Statement} {e : QueryError} {f : Failure}
    {t : EventTask CreditLine} (ht : Failing f t) (hf : f = reported q e) (hq : q ≠ .rollback)
    (he : (answered (w.fates 0) 0 q w.session).1 = .error e) :
    Finished w (t.complete World.exec () 0 (w.after q)) := by
  obtain ⟨outcome,hr,hdurable,hpublished,hhistory⟩ := complete_failing ht (w.after q)
  refine ⟨[(q,some e),(.rollback,outcome)],?_,.inl ⟨f,hr,?_,?_,[],?_,?_⟩⟩
  · rw [hhistory]
    simp [World.after,he,failure]
  · refine .failed hq hf ?_
    intro step hstep
    rw [List.mem_singleton] at hstep
    rw [hstep]
  · rw [hdurable]
    exact answered_error he
  · rw [hpublished,List.append_nil]
    rfl
  · intro event hevent
    cases hevent

theorem finished_inside {t : EventTask CreditLine} (h : Inside t) :
    ∀ (w : World) (d : Database), w.session.working = some d →
      Finished w (t.complete World.exec () 0 w) := by
  induction h with
  | data hq hok herror ih =>
      intro w d hw
      obtain ⟨hdurable,d',hworking⟩ := answered_appends hq (w.fates 0) hw
      rw [complete_statement]
      cases ha : (answered (w.fates 0) 0 _ w.session).1 with
      | error e => exact finished_of_failing (herror e) rfl (Appends.ne hq id) ha
      | ok rows =>
          exact (ih rows _ d' hworking).after (Appends.ne hq id) (Appends.ne hq id)
            (by rw [ha]; rfl) hdurable
  | thrown hf hfailing =>
      intro w d hw
      obtain ⟨outcome,hr,hdurable,hpublished,hhistory⟩ := complete_failing hfailing w
      refine ⟨[(.rollback,outcome)],hhistory,.inl ⟨_,hr,.thrown ?_ hf,hdurable,[],?_,?_⟩⟩
      · intro step hstep
        rw [List.mem_singleton] at hstep
        rw [hstep]
      · rw [hpublished,List.append_nil]
      · intro event hevent
        cases hevent
  | commit hnext hevent herror =>
      intro w d hw
      rw [complete_statement]
      cases ha : (answered (w.fates 0) 0 .commit w.session).1 with
      | error e => exact finished_of_failing (herror e) rfl (by decide) ha
      | ok rows =>
          rw [show rows = () from rfl,hnext]
          refine ⟨[(.commit,none)],?_,.inr ⟨_,[],rfl,rfl,?_,_,?_,hevent⟩⟩
          · simp [World.exec,World.after,ha,failure]
          · intro step hstep
            cases hstep
          · simp [World.exec]

/-- A statement outside the transaction that fails. -/
theorem finished_of_error {w : World} {q : Statement} {e : QueryError} {f : Failure}
    (hf : f = reported q e) (hq : q ≠ .rollback)
    (he : (answered (w.fates 0) 0 q w.session).1 = .error e) :
    Finished w ((Task.done (.error f) : EventTask CreditLine).complete World.exec () 0
      (w.after q)) := by
  refine ⟨[(q,some e)],?_,.inl ⟨f,rfl,.failed hq hf ?_,?_,[],?_,?_⟩⟩
  · simp [World.after,he,failure]
  · intro step hstep
    cases hstep
  · exact answered_error he
  · exact (List.append_nil _).symm
  · intro event hevent
    cases hevent

/-- An event that confirms nothing may be published first. -/
theorem Finished.published {w : World} {out : Except Failure CreditLine × World} {event : Event}
    (h : Finished { w with published := w.published ++ [event] } out)
    (hquiet : event.confirms = false) : Finished w out := by
  obtain ⟨steps,hhistory,hend⟩ := h
  refine ⟨steps,hhistory,?_⟩
  cases hend with
  | inl hrejected =>
      obtain ⟨f,hf,hended,hdurable,quiet,hpublished,hall⟩ := hrejected
      refine .inl ⟨f,hf,hended,hdurable,event :: quiet,?_,?_⟩
      · exact hpublished.trans (List.append_assoc _ _ _)
      · intro event' hevent
        cases List.mem_cons.mp hevent with
        | inl hself =>
            rw [hself]
            exact hquiet
        | inr hrest => exact hall event' hrest
  | inr hresolved => exact .inr hresolved

theorem finished_outside {t : EventTask CreditLine} (h : Outside t) :
    ∀ w : World, w.session.working = none → Finished w (t.complete World.exec () 0 w) := by
  induction h with
  | rejected hf =>
      intro w _
      refine ⟨[],(List.append_nil _).symm,.inl ⟨_,rfl,.thrown ?_ hf,rfl,[],
        (List.append_nil _).symm,?_⟩⟩
      · intro step hstep
        cases hstep
      · intro event hevent
        cases hevent
  | read hq hok herror ih =>
      intro w hw
      rw [complete_statement]
      cases ha : (answered (w.fates 0) 0 _ w.session).1 with
      | error e =>
          rw [herror e]
          exact finished_of_error rfl (Reads.ne hq id) ha
      | ok rows =>
          have hsame := answered_reads hq (fails_of_ok ha) w.session
          have hworking : (w.after _).session.working = none :=
            (congrArg Session.working hsame).trans hw
          exact (ih rows _ hworking).after (Reads.ne hq id) (Reads.ne hq id) (by rw [ha]; rfl)
            (congrArg Session.durable hsame)
  | @publish event next hquiet _ ih =>
      intro w hw
      exact (ih { w with published := w.published ++ [event] } hw).published hquiet
  | begin hinside herror =>
      intro w hw
      rw [complete_statement]
      cases ha : (answered (w.fates 0) 0 .begin w.session).1 with
      | error e =>
          rw [herror e]
          exact finished_of_error rfl (by decide) ha
      | ok rows =>
          have hbegun := after_begin hw (fails_of_ok ha)
          have hdurable : (w.after .begin).session.durable = w.session.durable := by rw [hbegun]
          exact (finished_inside hinside _ w.session.visible (by rw [hbegun])).after (by decide)
            (by decide) (by rw [ha]; rfl) hdurable

theorem originalFailure_passed {q : Statement} {rest : List (Statement × Option QueryError)} :
    originalFailure ((q,none) :: rest) = originalFailure rest := by
  unfold originalFailure
  by_cases hq : q = .rollback
  · rw [List.filter_cons_of_neg (by simp [hq])]
  · rw [List.filter_cons_of_pos (by simp [hq])]
    rfl

theorem originalFailure_rollbacks {rest : List (Statement × Option QueryError)}
    (h : ∀ step ∈ rest, step.1 = .rollback) : originalFailure rest = none := by
  unfold originalFailure
  rw [List.filter_eq_nil_iff.mpr]
  · rfl
  · intro step hstep
    simp [h step hstep]

theorem insertsPass_cons {step : Statement × Option QueryError}
    {rest : List (Statement × Option QueryError)} :
    InsertsPass (step :: rest) ↔ (creates step.1 = true → step.2 = none) ∧ InsertsPass rest :=
  List.forall_mem_cons

theorem insertsPass_rollbacks {rest : List (Statement × Option QueryError)}
    (h : ∀ step ∈ rest, step.1 = .rollback) : InsertsPass rest := by
  intro step hstep hcreates
  rw [h step hstep] at hcreates
  cases hcreates

/-- A rejected call throws the original failure unless it was an insertion of `create`. -/
theorem Ended.original_iff {f : Failure} {steps : List (Statement × Option QueryError)}
    (h : Ended f steps) : Original steps f ↔ InsertsPass steps := by
  induction h with
  | @failed rest q e hq hf hrest =>
      have hfailure : originalFailure ((q,some e) :: rest) = some e := by
        unfold originalFailure
        rw [List.filter_cons_of_pos (by simp [hq])]
        rfl
      unfold Original
      rw [hfailure,insertsPass_cons,hf]
      unfold reported
      cases hcreates : creates q with
      | false => simp [insertsPass_rollbacks hrest]
      | true => simp
  | thrown hrest hf =>
      unfold Original
      rw [originalFailure_rollbacks hrest]
      exact ⟨fun _ => insertsPass_rollbacks hrest,fun _ => hf⟩
  | passed _ _ _ ih =>
      unfold Original at ih ⊢
      rw [originalFailure_passed,insertsPass_cons,ih]
      simp

theorem Ended.commit_notMem {f : Failure} {steps : List (Statement × Option QueryError)}
    (h : Ended f steps) : (.commit,none) ∉ steps := by
  induction h with
  | failed hq hf hrest =>
      intro hmem
      cases List.mem_cons.mp hmem with
      | inl hself => cases hself
      | inr hlater => exact absurd (hrest _ hlater) (by decide)
  | thrown hrest hf =>
      intro hmem
      exact absurd (hrest _ hmem) (by decide)
  | passed hcommit _ _ ih =>
      intro hmem
      cases List.mem_cons.mp hmem with
      | inl hself => exact hcommit (Prod.ext_iff.mp hself).1.symm
      | inr hlater => exact ih hlater

theorem traceless_iff_insertsPass (client : DbClient) (call : Call) (s : Session)
    (hidle : s.working = none) (fates : ℕ → Fate) :
    Traceless s (alone client call s fates) ↔
      InsertsPass (alone client call s fates).2.history := by
  obtain ⟨steps,hhistory,hend⟩ := finished_outside (outside_perform client call)
    ⟨s,fates,[],[]⟩ hidle
  change (alone client call s fates).2.history = [] ++ steps at hhistory
  rw [List.nil_append] at hhistory
  rw [hhistory]
  cases hend with
  | inl hrejected =>
      obtain ⟨f,hf,hended,hdurable,quiet,hpublished,hquiet⟩ := hrejected
      change (alone client call s fates).1 = .error f at hf
      change (alone client call s fates).2.session.durable = s.durable at hdurable
      change (alone client call s fates).2.published = [] ++ quiet at hpublished
      rw [← hended.original_iff]
      constructor
      · intro h
        have horiginal := (h.rejected f hf).2.2
        rw [hhistory] at horiginal
        exact horiginal
      · intro horiginal
        refine ⟨?_,?_⟩
        · intro f' hf'
          rw [hf,Except.error.injEq] at hf'
          rw [hdurable,hhistory,← hf']
          exact ⟨rfl,rfl,horiginal⟩
        · rw [hhistory,hpublished]
          constructor
          · rintro ⟨event,hevent,hconfirms⟩
            rw [hquiet event hevent] at hconfirms
            cases hconfirms
          · intro hcommit
            exact absurd hcommit hended.commit_notMem
  | inr hresolved =>
      obtain ⟨a,passed,ha,hsteps,hpassed,hevent⟩ := hresolved
      change (alone client call s fates).1 = .ok a at ha
      subst hsteps
      constructor
      · intro _ step hstep _
        cases List.mem_append.mp hstep with
        | inl hbefore => exact (hpassed step hbefore).1
        | inr hlast =>
            rw [List.mem_singleton] at hlast
            rw [hlast]
      · intro _
        refine ⟨?_,?_⟩
        · intro f hf
          rw [ha] at hf
          cases hf
        · rw [hhistory]
          exact ⟨fun _ => List.mem_append_right _ List.mem_cons_self,fun _ => hevent⟩

/-! ## When the insertions go through -/

def PlainEffect : Effect → Prop
  | .statement q => creates q = false
  | .publish _ => True

theorem awaits_lift {α : Type} {t : SqlTask α} (h : t.Awaits fun q => creates q = false) :
    (lift t).Awaits PlainEffect := by
  induction t with
  | done r => trivial
  | await q next ih => exact ⟨h.1,fun r => ih r (h.2 r)⟩

/-- A call between its `BEGIN` and its end, with the work that is left. -/
def begun (work : SqlTask CreditLine) (event : CreditLine → Event) : EventTask CreditLine := do
  let result ← lift (Task.handle (do let result ← work; query .commit; pure result)
    fun error => do
      Task.handle (query .rollback) fun _ => pure ()
      Task.throw error)
  publish (event result)
  pure result

theorem awaits_begun {work : SqlTask CreditLine} {event : CreditLine → Event}
    (h : work.Awaits fun q => creates q = false) : (begun work event).Awaits PlainEffect := by
  refine Task.Awaits.bind (awaits_lift (Task.Awaits.handle ?_ ?_)) ?_
  · refine h.bind fun a => ⟨rfl,fun r => ?_⟩
    cases r <;> trivial
  · refine fun e => ⟨rfl,fun r => ?_⟩
    cases r <;> trivial
  · exact fun a => ⟨trivial,fun _ => trivial⟩

theorem awaits_transacted (client : DbClient) {work : SqlTask CreditLine}
    {event : CreditLine → Event} (h : work.Awaits fun q => creates q = false) :
    (transacted client work event).Awaits PlainEffect := by
  refine ⟨rfl,fun r => ?_⟩
  cases r with
  | ok _ => exact awaits_begun h
  | error e => trivial

theorem insertsPass_after (w : World) (q : Statement) :
    InsertsPass (w.after q).history ↔ InsertsPass w.history ∧
      (creates q = true → failure (answered (w.fates 0) 0 q w.session).1 = none) := by
  unfold InsertsPass World.after
  simp only [List.forall_mem_append,List.forall_mem_singleton]

/-- A task without insertions adds none to the history. -/
theorem insertsPass_complete {t : EventTask CreditLine} (h : t.Awaits PlainEffect) (w : World) :
    InsertsPass (t.complete World.exec () 0 w).2.history ↔ InsertsPass w.history := by
  induction t generalizing w with
  | done r => exact Iff.rfl
  | await effect next ih =>
      cases effect with
      | publish event => exact ih () (h.2 ()) _
      | statement q =>
          have hplain : creates q = false := h.1
          rw [complete_statement,ih _ (h.2 _),insertsPass_after,hplain]
          simp

theorem awaits_found (id : Uuid) {next : Option CreditLine → EventTask CreditLine}
    (h : ∀ line, (next line).Awaits PlainEffect) :
    (lift (PostgresCreditLineRepository.findById id) >>= next).Awaits PlainEffect := by
  have hread := (sound_findById id).awaits.mono fun _ hq => creates_of_reads hq
  exact (awaits_lift hread).bind h

theorem awaits_recorded (client : DbClient) (id : Uuid) (p : Posting) (event : CreditLine → Event) :
    (transacted client ((service client).record id p) event).Awaits PlainEffect := by
  have hwork := (sound_record client id p).awaits.mono fun _ h => h.2
  exact awaits_transacted client hwork

theorem awaits_perform_draw (client : DbClient) (id : Uuid) (borrowerId : String)
    (amount : Option ℚ) : (draw client id borrowerId amount).Awaits PlainEffect := by
  refine awaits_found id fun line => ?_
  cases line with
  | none => trivial
  | some line =>
      dsimp only
      cases drawPosting borrowerId amount (some line) with
      | error e => trivial
      | ok p => exact ⟨trivial,fun _ => awaits_recorded client id p _⟩

theorem awaits_perform_repay (client : DbClient) (id : Uuid) (walletAddress : String)
    (amount : Option ℚ) : (repay client id walletAddress amount).Awaits PlainEffect := by
  refine awaits_found id fun line => ?_
  cases line with
  | none => trivial
  | some line =>
      dsimp only
      cases repayPosting amount (some line) with
      | error e => trivial
      | ok p => exact awaits_recorded client id p _

/-- `create` from the insertion of the line on. -/
def insertLine (request : CreateCreditLineRequest) (borrowerId : Uuid) : SqlTask CreditLine := do
  let row ← Task.handle
    (query (.insertCreditLine borrowerId request.creditLimit request.interestRateBps))
    fun _ => Task.throw (.reference "conflictFromUniqueViolation")
  let walletAddress ← PostgresCreditLineRepository.getWalletAddress borrowerId
  pure ⟨row.id,walletAddress,row.creditLimit,row.creditLimit,0,row.interestRateBps,row.status,
    some row.version⟩

/-- `create` once the borrower is known. -/
def addLine (request : CreateCreditLineRequest) (borrowerId : Uuid) : SqlTask CreditLine := do
  let openCheck ← query (.selectOpenLine borrowerId)
  match openCheck with
  | some _ => Task.throw (.reference "duplicateResource")
  | none => insertLine request borrowerId

theorem create_eq (request : CreateCreditLineRequest) :
    PostgresCreditLineRepository.create request =
      (PostgresCreditLineRepository.ensureBorrower request.walletAddress >>= addLine request) :=
  rfl

section Begun
variable {w : World} (event : CreditLine → Event) (request : CreateCreditLineRequest)
  {borrowerId : Uuid}

theorem complete_begun {q : Statement} (next : q.Answer → SqlTask CreditLine) :
    (begun (.await q next) event).complete World.exec () 0 w =
      (begun (next (answered (w.fates 0) 0 q w.session).1) event).complete World.exec () 0
        (w.after q) := rfl

/-- Work that has failed only rolls back. -/
theorem insertsPass_failed (f : Failure) :
    InsertsPass ((begun (.done (.error f)) event).complete World.exec () 0 w).2.history ↔
      InsertsPass w.history := by
  apply insertsPass_complete
  exact awaits_begun trivial

theorem insertsPass_after_reads {q : Statement} (hq : q.Reads) (hw : InsertsPass w.history) :
    InsertsPass (w.after q).history := by
  rw [insertsPass_after,creates_of_reads hq]
  exact ⟨hw,fun h => absurd h Bool.false_ne_true⟩

theorem failure_answered {q : Statement} (hq : noRow q = none) (fate : Fate) (s : Session) :
    failure (answered fate 0 q s).1 = none ↔
      failure (s.execute 0 q).1 = none ∧ fate.fails = false := by
  cases hfate : fate.fails with
  | false =>
      rw [answered_executed hq hfate]
      simp
  | true =>
      cases fate with
      | failed e => simp [answered,failure]
      | executed => cases hfate
      | empty => cases hfate

theorem failure_insertCreditLine {fate : Fate} {s : Session} {creditLimit : ℚ}
    {interestRateBps : ℤ} (hwhole : s.aborted = false)
    (hthere : s.visible.borrowers.all (·.id ≠ borrowerId) = false) :
    failure (answered fate 0 (.insertCreditLine borrowerId creditLimit interestRateBps) s).1 =
      none ↔ hasOpenLine s.visible borrowerId = false ∧ fate.fails = false := by
  rw [failure_answered rfl,execute_of_live (failed_of_whole hwhole)]
  cases hopen : hasOpenLine s.visible borrowerId with
  | true =>
      unfold hasOpenLine at hopen
      dsimp only [Session.perform]
      rw [if_pos hopen]
      simp [failure]
  | false =>
      unfold hasOpenLine at hopen
      dsimp only [Session.perform]
      rw [hopen,hthere]
      simp [failure]

theorem failure_insertBorrower (fate : Fate) {s : Session} (hwhole : s.aborted = false)
    (walletAddress : String) :
    failure (answered fate 0 (.insertBorrower walletAddress) s).1 = none ↔
      s.visible.borrowers.find? (·.walletAddress = walletAddress) = none ∧ fate.fails = false := by
  rw [failure_answered rfl,execute_of_live (failed_of_whole hwhole)]
  dsimp only [Session.perform]
  rw [← List.isSome_find?]
  cases s.visible.borrowers.find? (·.walletAddress = walletAddress) with
  | none => simp [failure]
  | some borrower => simp [failure]

theorem insertsPass_insertLine (hw : InsertsPass w.history)
    (hwhole : w.session.aborted = false)
    (hthere : w.session.visible.borrowers.all (·.id ≠ borrowerId) = false) :
    InsertsPass
        ((begun (insertLine request borrowerId) event).complete World.exec () 0 w).2.history ↔
      hasOpenLine w.session.visible borrowerId = false ∧ (w.fates 0).fails = false := by
  unfold insertLine query
  rw [Task.handle_await,Task.bind_await,complete_begun]
  rw [insertsPass_complete,insertsPass_after,failure_insertCreditLine hwhole hthere]
  · simp [hw,creates]
  · apply awaits_begun
    cases (answered (w.fates 0) 0 (.insertCreditLine borrowerId request.creditLimit
      request.interestRateBps) w.session).1 with
    | error e => trivial
    | ok row =>
        have hwallet := (sound_getWalletAddress borrowerId).awaits.mono fun _ h =>
          creates_of_reads h
        exact hwallet.bind fun walletAddress => trivial

theorem insertsPass_addLine (hw : InsertsPass w.history) (hwhole : w.session.aborted = false)
    (hthere : w.session.visible.borrowers.all (·.id ≠ borrowerId) = false) :
    InsertsPass ((begun (addLine request borrowerId) event).complete World.exec () 0 w).2.history ↔
      LineInsertable w.session.visible borrowerId (w.fates 0) (w.fates 1) := by
  have hreads : (Statement.selectOpenLine borrowerId).Reads := trivial
  have hafter := insertsPass_after_reads hreads hw
  have hinsert : (w.fates 0).fails = false →
      (InsertsPass ((begun (insertLine request borrowerId) event).complete World.exec () 0
        (w.after (.selectOpenLine borrowerId))).2.history ↔
        hasOpenLine w.session.visible borrowerId = false ∧ (w.fates 1).fails = false) := by
    intro hfate
    have hsession : (w.after (.selectOpenLine borrowerId)).session = w.session :=
      answered_reads hreads hfate w.session
    have hline := insertsPass_insertLine event request hafter (by rw [hsession,hwhole])
      (by rw [hsession]; exact hthere)
    rw [hsession] at hline
    exact hline
  unfold addLine query
  rw [Task.bind_await,complete_begun]
  unfold LineInsertable
  cases hfate : w.fates 0 with
  | failed e =>
      have hrest := (insertsPass_failed event (.query e)).mpr hafter
      exact ⟨fun _ => trivial,fun _ => hrest⟩
  | executed =>
      have hpassed := hinsert (by rw [hfate]; rfl)
      have hfound : hasOpenLine w.session.visible borrowerId =
          (w.session.visible.creditLines.find? fun r =>
            r.borrowerId = borrowerId ∧ r.status ≠ .closed).isSome := List.isSome_find?.symm
      rw [hfound] at hpassed ⊢
      dsimp only [answered]
      rw [execute_of_live (failed_of_whole hwhole)]
      dsimp only [Session.perform]
      generalize w.session.visible.creditLines.find? _ = found at hpassed ⊢
      cases found with
      | some row =>
          have hrest := (insertsPass_failed event
            (.reference "duplicateResource")).mpr hafter
          exact ⟨fun _ h => absurd h Bool.true_eq_false.mp,fun _ => hrest⟩
      | none =>
          refine hpassed.trans ?_
          simp
  | empty => exact hinsert (by rw [hfate]; rfl)

theorem answered_insertBorrower {fate : Fate} {s : Session} {walletAddress : String}
    (hwhole : s.aborted = false)
    (h : failure (answered fate 0 (.insertBorrower walletAddress) s).1 = none) :
    answered fate 0 (.insertBorrower walletAddress) s =
      (.ok s.nextId,s.insert 0 (.borrower ⟨s.nextId,walletAddress⟩)) := by
  obtain ⟨hnone,hfate⟩ := (failure_insertBorrower fate hwhole walletAddress).mp h
  have hany : s.visible.borrowers.any (·.walletAddress = walletAddress) = false := by
    rw [← List.isSome_find?,hnone]
    rfl
  rw [answered_executed rfl hfate,execute_of_live (failed_of_whole hwhole)]
  dsimp only [Session.perform]
  rw [hany]
  rfl

theorem visible_insertBorrower {s : Session} {d : Database} (hopen : s.working = some d)
    (row : BorrowerRow) : (s.insert 0 (.borrower row)).visible.creditLines = d.creditLines ∧
      (s.insert 0 (.borrower row)).visible.borrowers = d.borrowers ++ [row] := by
  simp [Session.insert,Session.visible,hopen,Database.creditLines,Database.borrowers]

theorem insertsPass_insertBorrower {d : Database} (hw : InsertsPass w.history)
    (hwhole : w.session.aborted = false) (hopen : w.session.working = some d) :
    InsertsPass ((begun (Task.handle (query (.insertBorrower request.walletAddress))
      (fun _ => Task.throw (.reference "conflictFromUniqueViolation")) >>= addLine request)
        event).complete World.exec () 0 w).2.history ↔
      d.borrowers.find? (·.walletAddress = request.walletAddress) = none ∧
        (w.fates 0).fails = false ∧
        LineInsertable d w.session.nextId (w.fates 1) (w.fates 2) := by
  have hvisible : w.session.visible = d := by simp [Session.visible,hopen]
  have hfailure := failure_insertBorrower (w.fates 0) hwhole request.walletAddress
  rw [hvisible] at hfailure
  have hafter := insertsPass_after w (.insertBorrower request.walletAddress)
  rw [← and_assoc,← hfailure]
  unfold query
  rw [Task.handle_await,Task.bind_await,complete_begun]
  cases hanswer : (answered (w.fates 0) 0 (.insertBorrower request.walletAddress) w.session).1 with
  | error e =>
      rw [hanswer] at hafter
      have hrest := (insertsPass_failed event
        (.reference "conflictFromUniqueViolation")).trans hafter
      refine hrest.trans ?_
      simp [creates,failure]
  | ok id =>
      have hnone : failure
          (answered (w.fates 0) 0 (.insertBorrower request.walletAddress) w.session).1 = none := by
        rw [hanswer]
        rfl
      have hanswered := answered_insertBorrower hwhole hnone
      rw [hanswered] at hanswer
      cases hanswer
      have hsession : (w.after (.insertBorrower request.walletAddress)).session =
          w.session.insert 0 (.borrower ⟨w.session.nextId,request.walletAddress⟩) :=
        congrArg Prod.snd hanswered
      obtain ⟨hlines,hborrowers⟩ := visible_insertBorrower hopen
        ⟨w.session.nextId,request.walletAddress⟩
      have hthere : (w.after (.insertBorrower request.walletAddress)).session.visible.borrowers.all
          (·.id ≠ w.session.nextId) = false := by
        rw [hsession,hborrowers]
        simp
      have hline := insertsPass_addLine event request (hafter.mpr ⟨hw,fun _ => hnone⟩)
        (by rw [hsession]; exact hwhole) hthere
      rw [hsession] at hline
      unfold LineInsertable hasOpenLine at hline ⊢
      rw [hlines] at hline
      exact hline.trans (by simp [failure,World.after])

/-- `create` comes to the insertion of a borrower when the first `SELECT` finds none. -/
theorem insertsPass_create {d : Database} (hw : InsertsPass w.history)
    (hwhole : w.session.aborted = false) (hopen : w.session.working = some d) :
    InsertsPass ((begun (PostgresCreditLineRepository.create request) event).complete
      World.exec () 0 w).2.history ↔
      match w.fates 0, d.borrowers.find? (·.walletAddress = request.walletAddress) with
      | .failed _, _ => True
      | .executed, some borrower => LineInsertable d borrower.id (w.fates 1) (w.fates 2)
      | _, some _ => False
      | _, none => (w.fates 1).fails = false ∧
          LineInsertable d w.session.nextId (w.fates 2) (w.fates 3) := by
  have hreads : (Statement.selectBorrower request.walletAddress).Reads := trivial
  have hafter := insertsPass_after_reads hreads hw
  have hvisible : w.session.visible = d := by simp [Session.visible,hopen]
  have hsession : (w.fates 0).fails = false →
      (w.after (.selectBorrower request.walletAddress)).session = w.session :=
    fun hfate => answered_reads hreads hfate w.session
  have hinsert : (w.fates 0).fails = false → _ := fun hfate =>
    insertsPass_insertBorrower event request (d := d) hafter
      (by rw [hsession hfate]; exact hwhole) (by rw [hsession hfate]; exact hopen)
  rw [create_eq]
  unfold PostgresCreditLineRepository.ensureBorrower
  unfold query
  rw [Task.bind_await,Task.bind_await,complete_begun]
  cases hfate : w.fates 0 with
  | failed e =>
      have hrest := (insertsPass_failed event (.query e)).mpr hafter
      exact ⟨fun _ => trivial,fun _ => hrest⟩
  | executed =>
      have hpasses : (w.fates 0).fails = false := by rw [hfate]; rfl
      have hnew := hinsert hpasses
      have hsame := hsession hpasses
      dsimp only [answered]
      rw [execute_of_live (failed_of_whole hwhole)]
      dsimp only [Session.perform]
      rw [hvisible]
      cases hfind : d.borrowers.find? (·.walletAddress = request.walletAddress) with
      | some borrower =>
          have hmem := List.mem_of_find?_eq_some hfind
          have hthere : d.borrowers.all (·.id ≠ borrower.id) = false := by
            rw [List.all_eq_false]
            exact ⟨borrower,hmem,by simp⟩
          rw [← hvisible,← hsame] at hthere
          have hline := insertsPass_addLine event request hafter (by rw [hsame,hwhole]) hthere
          rw [hsame,hvisible] at hline
          exact hline
      | none =>
          rw [hfind,hsame] at hnew
          exact hnew.trans (by simp [World.after])
  | empty =>
      have hpasses : (w.fates 0).fails = false := by rw [hfate]; rfl
      have hnew := hinsert hpasses
      rw [hsession hpasses] at hnew
      cases hfind : d.borrowers.find? (·.walletAddress = request.walletAddress) with
      | some borrower =>
          rw [hfind] at hnew
          exact hnew.trans (by simp)
      | none =>
          rw [hfind] at hnew
          exact hnew.trans (by simp [World.after])

end Begun

theorem complete_transacted (client : DbClient) (work : SqlTask CreditLine)
    (event : CreditLine → Event) (w : World) :
    (transacted client work event).complete World.exec () 0 w =
      match (answered (w.fates 0) 0 .begin w.session).1 with
      | .ok _ => (begun work event).complete World.exec () 0 (w.after .begin)
      | .error e => (.error (.query e),w.after .begin) := by
  unfold transacted createDbTransactionRunner withTransaction query
  dsimp only [Task.bind_await,lift]
  rw [complete_statement]
  cases (answered (w.fates 0) 0 .begin w.session).1 with
  | ok _ => rfl
  | error e => rfl

theorem insertsPass_nil : InsertsPass [] := by
  intro step hstep
  cases hstep

/-- A transaction around `create`, from its `BEGIN` on. -/
theorem insertsPass_transacted (client : DbClient) {request : CreateCreditLineRequest}
    {event : CreditLine → Event} {s : Session} (hidle : s.working = none) (fates : ℕ → Fate)
    (haccepted : Accepted request) :
    InsertsPass ((transacted client (PostgresCreditLineRepository.create request) event).complete
      World.exec () 0 ⟨s,fates,[],[]⟩).2.history ↔ Insertable s fates (.create request) := by
  have hvisible : s.visible = s.durable := by simp [Session.visible,hidle]
  have hbegin : InsertsPass ((⟨s,fates,[],[]⟩ : World).after .begin).history :=
    (insertsPass_after _ _).mpr ⟨insertsPass_nil,by intro h; cases h⟩
  have hbegun : (fates 0).fails = false → ((⟨s,fates,[],[]⟩ : World).after .begin).session =
      { s with working := some s.durable, aborted := false } := by
    intro hpasses
    rw [after_begin hidle hpasses,hvisible]
  have hcreate : (fates 0).fails = false → (InsertsPass ((begun
      (PostgresCreditLineRepository.create request) event).complete World.exec () 0
        ((⟨s,fates,[],[]⟩ : World).after .begin)).2.history ↔
          Insertable s fates (.create request)) := by
    intro hpasses
    have hsession := hbegun hpasses
    have hrest := insertsPass_create event request (d := s.durable) hbegin
      (by rw [hsession]) (by rw [hsession])
    rw [hsession] at hrest
    refine hrest.trans ?_
    unfold Insertable
    simp [haccepted,hpasses,World.after]
  rw [complete_transacted]
  dsimp only
  cases hfate : (fates 0).fails with
  | false =>
      rw [answered_executed rfl hfate,execute_of_live (failed_of_idle hidle)]
      exact hcreate hfate
  | true =>
      have hvacuous : Insertable s fates (.create request) := by
        intro _ hpasses
        rw [hfate] at hpasses
        cases hpasses
      cases h : fates 0 with
      | failed e => exact ⟨fun _ => hvacuous,fun _ => hbegin⟩
      | executed =>
          rw [h] at hfate
          cases hfate
      | empty =>
          rw [h] at hfate
          cases hfate

theorem insertsPass_perform (client : DbClient) (call : Call) {s : Session}
    (hidle : s.working = none) (fates : ℕ → Fate) :
    InsertsPass (alone client call s fates).2.history ↔ Insertable s fates call := by
  cases call with
  | create request =>
      simp only [alone,perform,createCreditLine]
      split_ifs with hwallet hlimit hrate
      · exact ⟨fun _ h => absurd hwallet h.1,fun _ => insertsPass_nil⟩
      · exact ⟨fun _ h => absurd h.2.1 (not_lt.mpr hlimit),fun _ => insertsPass_nil⟩
      · refine ⟨fun _ h => ?_,fun _ => insertsPass_nil⟩
        have hrange := h.2.2
        omega
      · rw [not_or,not_lt,not_lt] at hrate
        exact insertsPass_transacted client hidle fates
          ⟨hwallet,not_le.mp hlimit,hrate.1,hrate.2⟩
  | draw id borrowerId amount =>
      have hplain := awaits_perform_draw client id borrowerId amount
      exact (insertsPass_complete hplain _).trans ⟨fun _ => trivial,fun _ => insertsPass_nil⟩
  | repay id walletAddress amount =>
      have hplain := awaits_perform_repay client id walletAddress amount
      exact (insertsPass_complete hplain _).trans ⟨fun _ => trivial,fun _ => insertsPass_nil⟩

/-- One call alone leaves no trace when it rejects, with the original failure, and is confirmed
when it commits, exactly when the insertions of `create` that it comes to go through. -/
theorem traceless_iff (client : DbClient) (call : Call) (s : Session) (hidle : s.working = none)
    (fates : ℕ → Fate) : Traceless s (alone client call s fates) ↔ Insertable s fates call :=
  (traceless_iff_insertsPass client call s hidle fates).trans
    (insertsPass_perform client call hidle fates)

/-- Every statement is executed but one, for which the connection is lost. -/
def lostAt (n : ℕ) : ℕ → Fate := fun k => if k = n then .failed .lost else .executed

/-- A line for a new wallet whose `COMMIT` is lost. -/
def lostCommit : Except Failure CreditLine × World :=
  alone ⟨⟩ (.create ⟨"GC",20,500⟩)
    (TransactionAtomicity.connect TransactionAtomicity.twoLines 5) (lostAt 6)

theorem traceless_lostCommit :
    lostCommit.1 = .error (.query .lost) ∧
      Traceless (TransactionAtomicity.connect TransactionAtomicity.twoLines 5) lostCommit := by
  refine ⟨by decide +kernel,(traceless_iff ⟨⟩ _ _ rfl (lostAt 6)).mpr ?_⟩
  intro _ _
  exact ⟨rfl,fun _ => rfl⟩

/-- A line for a new wallet whose insertion is lost. -/
def lostInsert : Except Failure CreditLine × World :=
  alone ⟨⟩ (.create ⟨"GC",20,500⟩)
    (TransactionAtomicity.connect TransactionAtomicity.twoLines 5) (lostAt 4)

theorem lostInsert_not_traceless :
    ¬ Traceless (TransactionAtomicity.connect TransactionAtomicity.twoLines 5) lostInsert := by
  intro h
  have hresult : lostInsert.1 = .error (.reference "conflictFromUniqueViolation") := by
    decide +kernel
  have hfailure : originalFailure lostInsert.2.history = some .lost := by decide +kernel
  have horiginal := (h.rejected _ hresult).2.2
  unfold Original at horiginal
  rw [hfailure] at horiginal
  cases horiginal

end Creditra.FailedMutations
