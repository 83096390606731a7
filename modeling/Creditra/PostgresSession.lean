import Creditra.CreditModels
import Creditra.AwaitTasks
import Mathlib.Algebra.Ring.Rat

/-!
# One shared Postgres session

The process holds a single `pg.Client`, so every statement of every request is
executed on one session, one at a time, in the order issued. The statements are
those the credit-line and transaction repositories send. The session follows
the server's transaction rules: `BEGIN` opens a working copy unless one is open,
`COMMIT` makes the working copy durable, `ROLLBACK` discards it, and a
statement outside a transaction takes effect at once.

A statement can also fail. Its own effect is then none, but the server aborts
the open transaction: every statement is refused from then on, whoever sends it,
until the transaction ends, and a `COMMIT` of it is a rollback that reports no
error. A `COMMIT` that fails has ended the transaction with nothing kept. A
statement that a lost connection keeps from the server changes nothing there.

Each row remembers which call wrote it last and the session keeps a log of all
rows written; both are ghost data for stating what a call has left behind.
Identifiers are drawn from a counter that is not rolled back.
-/
namespace Creditra.PostgresSession
open CreditModels AwaitTasks

structure BorrowerRow where
  id : Uuid
  walletAddress : String
  deriving DecidableEq

structure CreditLineRow where
  id : Uuid
  borrowerId : Uuid
  creditLimit : ℚ
  status : CreditLineStatus
  interestRateBps : ℤ
  version : ℕ
  deriving DecidableEq

structure TransactionRow where
  id : Uuid
  creditLineId : Uuid
  type : TransactionType
  amount : ℚ
  status : TransactionStatus
  blockchainTxHash : Option String
  deriving DecidableEq

inductive Row where
  | borrower (row : BorrowerRow)
  | creditLine (row : CreditLineRow)
  | transaction (row : TransactionRow)
  deriving DecidableEq

structure Entry where
  owner : Option ℕ
  row : Row
  deriving DecidableEq

/-- All tables together, in insertion order. -/
abbrev Database := List Entry

namespace Database

def borrowers (d : Database) : List BorrowerRow :=
  d.filterMap fun e => match e.row with | .borrower r => some r | _ => none

def creditLines (d : Database) : List CreditLineRow :=
  d.filterMap fun e => match e.row with | .creditLine r => some r | _ => none

def transactions (d : Database) : List TransactionRow :=
  d.filterMap fun e => match e.row with | .transaction r => some r | _ => none

/-- A credit line joined with its borrower's wallet. -/
def lineById (d : Database) (id : Uuid) : Option (CreditLineRow × String) :=
  (d.creditLines.find? (·.id = id)).bind fun line =>
    (d.borrowers.find? (·.id = line.borrowerId)).map fun b => (line,b.walletAddress)

/-- A ledger row joined with its credit line and borrower. -/
def transactionById (d : Database) (id : Uuid) : Option Transaction :=
  (d.transactions.find? (·.id = id)).bind fun t =>
    (d.lineById t.creditLineId).map fun l =>
      ⟨t.id,t.creditLineId,l.2,t.amount,t.type,t.status,t.blockchainTxHash⟩

/-- What one ledger row adds to the utilisation of its line. -/
def signedAmount (t : TransactionRow) : ℚ :=
  match t.type with
  | .borrow => t.amount
  | .repay => -t.amount
  | _ => 0

/-- `COALESCE(SUM(CASE ...), 0)` over the rows of one line that are neither
failed nor cancelled. -/
def utilizedSum (d : Database) (id : Uuid) : ℚ :=
  ((d.transactions.filter fun t =>
    t.creditLineId = id ∧ t.status ≠ .failed ∧ t.status ≠ .cancelled).map signedAmount).sum

end Database

/-- The statements sent by the two repositories and the transaction helper. -/
inductive Statement where
  | begin | commit | rollback
  | selectBorrower (walletAddress : String)
  | insertBorrower (walletAddress : String)
  | selectOpenLine (borrowerId : Uuid)
  | insertCreditLine (borrowerId : Uuid) (creditLimit : ℚ) (interestRateBps : ℤ)
  | selectWallet (borrowerId : Uuid)
  | selectLine (id : Uuid)
  | selectUtilized (id : Uuid)
  | existsLine (id : Uuid)
  | updateLine (id : Uuid) (request : UpdateCreditLineRequest)
  | insertTransaction (request : CreateTransactionRequest)
  | selectTransaction (id : Uuid)
  deriving DecidableEq

namespace Statement

/-- The rows a statement answers with. -/
abbrev Rows : Statement → Type
  | begin | commit | rollback => Unit
  | selectBorrower _ => Option Uuid
  | insertBorrower _ => Uuid
  | selectOpenLine _ => Option CreditLineStatus
  | insertCreditLine _ _ _ => CreditLineRow
  | selectWallet _ => Option String
  | selectLine _ => Option (CreditLineRow × String)
  | selectUtilized _ => ℚ
  | existsLine _ => Bool
  | updateLine _ _ => Bool
  | insertTransaction _ => Uuid
  | selectTransaction _ => Option Transaction

abbrev Answer (q : Statement) : Type := Except QueryError q.Rows

/-- Statements that only read. -/
def Reads : Statement → Prop
  | selectBorrower _ | selectOpenLine _ | selectWallet _ | selectLine _
  | selectUtilized _ | existsLine _ | selectTransaction _ => True
  | _ => False

/-- Statements that read or insert: neither transaction control nor `UPDATE`. -/
def Appends : Statement → Prop
  | begin | commit | rollback | updateLine _ _ => False
  | _ => True

theorem Reads.appends {q : Statement} (h : q.Reads) : q.Appends := by
  cases q <;> trivial

/-- Statements that read, or insert a borrower or a line. -/
def Opens : Statement → Prop
  | insertTransaction _ => False
  | q => q.Appends

theorem Opens.appends {q : Statement} (h : q.Opens) : q.Appends := by
  cases q <;> trivial

end Statement

/-- `aborted` is about the open transaction and says nothing when none is. -/
structure Session where
  durable : Database
  working : Option Database := none
  aborted : Bool := false
  nextId : Uuid
  written : List Entry := []

namespace Session

/-- What a statement of this session sees. -/
def visible (s : Session) : Database := s.working.getD s.durable

/-- A row goes to the working copy of the open transaction, or is durable at
once when none is open. -/
def insert (s : Session) (owner : ℕ) (row : Row) : Session :=
  let e : Entry := ⟨some owner,row⟩
  { s with
    durable := match s.working with | none => s.durable ++ [e] | some _ => s.durable
    working := s.working.map (· ++ [e])
    nextId := s.nextId + 1
    written := s.written ++ [e] }

/-- The `SET` list of an `UPDATE credit_lines`, with the version bump. -/
def patchRow (request : UpdateCreditLineRequest) (r : CreditLineRow) : CreditLineRow :=
  { r with
    creditLimit := request.creditLimit.getD r.creditLimit
    interestRateBps := request.interestRateBps.getD r.interestRateBps
    status := request.status.getD r.status
    version := r.version + 1 }

/-- The `WHERE` clause of an `UPDATE credit_lines`. -/
def matchesRow (id : Uuid) (request : UpdateCreditLineRequest) (r : CreditLineRow) : Bool :=
  r.id = id ∧ ∀ v ∈ request.expectedVersion, r.version = v

def patchEntry (owner : ℕ) (id : Uuid) (request : UpdateCreditLineRequest) (e : Entry) : Entry :=
  match e.row with
  | .creditLine r =>
      if matchesRow id request r then ⟨some owner,.creditLine (patchRow request r)⟩ else e
  | _ => e

def update (s : Session) (owner : ℕ) (id : Uuid) (request : UpdateCreditLineRequest) : Session :=
  { s with
    durable := match s.working with
      | none => s.durable.map (patchEntry owner id request)
      | some _ => s.durable
    working := s.working.map (·.map (patchEntry owner id request))
    written := s.written ++ (s.visible.filter fun e =>
      patchEntry owner id request e ≠ e).map (patchEntry owner id request) }

/-- The patched line would be open beside another open line of its borrower. -/
def rivals (d : Database) (id : Uuid) (request : UpdateCreditLineRequest) : Bool :=
  d.creditLines.any fun r => matchesRow id request r ∧ (patchRow request r).status ≠ .closed ∧
    d.creditLines.any fun r' => r'.id ≠ r.id ∧ r'.borrowerId = r.borrowerId ∧ r'.status ≠ .closed

/-- The open transaction has failed. -/
def failed (s : Session) : Bool := s.working.isSome && s.aborted

/-- The open transaction, if there is one, fails. -/
def abort (s : Session) : Session := { s with aborted := true }

/-- The statement has failed with the error. -/
def fail (s : Session) (q : Statement) (e : QueryError) : Session :=
  if e = .lost then s else if q = .commit then { s with working := none } else s.abort

/-- A statement outside a failed transaction, executed for the call `owner`. -/
def perform (s : Session) (owner : ℕ) : (q : Statement) → q.Answer × Session
  | .begin => (.ok (),{ s with working := some s.visible, aborted := false })
  | .commit => (.ok (),{ s with durable := s.visible, working := none })
  | .rollback => (.ok (),{ s with working := none })
  | .selectBorrower wallet =>
      (.ok ((s.visible.borrowers.find? (·.walletAddress = wallet)).map (·.id)),s)
  | .insertBorrower wallet =>
      if s.visible.borrowers.any (·.walletAddress = wallet) then
        (.error .uniqueViolation,s.abort)
      else (.ok s.nextId,s.insert owner (.borrower ⟨s.nextId,wallet⟩))
  | .selectOpenLine borrowerId =>
      (.ok ((s.visible.creditLines.find? fun r =>
        r.borrowerId = borrowerId ∧ r.status ≠ .closed).map (·.status)),s)
  | .insertCreditLine borrowerId creditLimit interestRateBps =>
      if s.visible.creditLines.any fun r => r.borrowerId = borrowerId ∧ r.status ≠ .closed then
        (.error .uniqueViolation,s.abort)
      else if s.visible.borrowers.all (·.id ≠ borrowerId) then
        (.error .foreignKeyViolation,s.abort)
      else
        let row : CreditLineRow :=
          ⟨s.nextId,borrowerId,creditLimit,.active,interestRateBps,1⟩
        (.ok row,s.insert owner (.creditLine row))
  | .selectWallet borrowerId =>
      (.ok ((s.visible.borrowers.find? (·.id = borrowerId)).map (·.walletAddress)),s)
  | .selectLine id => (.ok (s.visible.lineById id),s)
  | .selectUtilized id => (.ok (s.visible.utilizedSum id),s)
  | .existsLine id => (.ok (s.visible.creditLines.any (·.id = id)),s)
  | .updateLine id request =>
      if rivals s.visible id request then (.error .uniqueViolation,s.abort)
      else (.ok (s.visible.creditLines.any (matchesRow id request)),s.update owner id request)
  | .insertTransaction request =>
      if s.visible.creditLines.all (·.id ≠ request.creditLineId) then
        (.error .foreignKeyViolation,s.abort)
      else (.ok s.nextId,s.insert owner (.transaction
        ⟨s.nextId,request.creditLineId,request.type,request.amount,.pending,
          request.blockchainTxHash⟩))
  | .selectTransaction id => (.ok (s.visible.transactionById id),s)

/-- A statement in a failed transaction: everything but its end is refused. -/
def refuse (s : Session) : (q : Statement) → q.Answer × Session
  | .commit | .rollback => (.ok (),{ s with working := none })
  | _ => (.error .inFailedTransaction,s)

def execute (s : Session) (owner : ℕ) (q : Statement) : q.Answer × Session :=
  if s.failed then s.refuse q else s.perform owner q

end Session

/-- The environment either lets a statement through or makes it fail. -/
abbrev Fate := Option QueryError

def exec : Exec Statement Statement.Answer Session Fate := fun fate owner q s =>
  match fate with
  | some e => (.error e,s.fail q e)
  | none => s.execute owner q

@[simp] theorem exec_failed (e : QueryError) (owner : ℕ) (q : Statement) (s : Session) :
    exec (some e) owner q s = (.error e,s.fail q e) := rfl

@[simp] theorem exec_executed (owner : ℕ) (q : Statement) (s : Session) :
    exec none owner q s = s.execute owner q := rfl

/-- A failure of any other statement leaves all tables as they were. -/
theorem fail_eq (s : Session) {q : Statement} (hq : q ≠ .commit) (e : QueryError) :
    ∃ aborted, s.fail q e = { s with aborted } := by
  rw [Session.fail,if_neg hq]
  split
  · exact ⟨s.aborted,rfl⟩
  · exact ⟨true,rfl⟩

theorem failed_of_idle {s : Session} (h : s.working = none) : s.failed = false := by
  rw [Session.failed,h]
  rfl

theorem failed_of_whole {s : Session} (h : s.aborted = false) : s.failed = false := by
  rw [Session.failed,h,Bool.and_false]

theorem execute_of_live {s : Session} (h : s.failed = false) (owner : ℕ) (q : Statement) :
    s.execute owner q = s.perform owner q := by
  rw [Session.execute,h,if_neg Bool.false_ne_true]

theorem execute_of_failed {s : Session} (h : s.failed = true) (owner : ℕ) (q : Statement) :
    s.execute owner q = s.refuse q := by
  rw [Session.execute,h,if_pos rfl]

/-- `COMMIT` reports no error, whatever becomes of the transaction. -/
theorem execute_commit (s : Session) (owner : ℕ) : (s.execute owner .commit).1 = .ok () := by
  unfold Session.execute
  split
  · rfl
  · rfl

theorem execute_rollback (s : Session) (owner : ℕ) :
    s.execute owner .rollback = (.ok (),{ s with working := none }) := by
  unfold Session.execute
  split
  · rfl
  · rfl

/-- A reading statement leaves the session as it found it. -/
theorem execute_reads {q : Statement} (hq : q.Reads) (s : Session) (owner : ℕ) :
    (s.execute owner q).2 = s := by
  unfold Session.execute
  split
  · cases q <;> first | rfl | cases hq
  · cases q <;> first | rfl | cases hq

theorem perform_appends {q : Statement} (hq : q.Appends) (s : Session) (owner : ℕ) :
    (∃ aborted, (s.perform owner q).2 = { s with aborted }) ∨
      ∃ row, (s.perform owner q).2 = s.insert owner row := by
  cases q with
  | begin | commit | rollback | updateLine _ _ => cases hq
  | selectBorrower _ | selectOpenLine _ | selectWallet _ | selectLine _
  | selectUtilized _ | existsLine _ | selectTransaction _ => exact .inl ⟨s.aborted,rfl⟩
  | insertBorrower wallet =>
      simp only [Session.perform]
      split_ifs
      · exact .inl ⟨true,rfl⟩
      · exact .inr ⟨_,rfl⟩
  | insertCreditLine borrowerId creditLimit interestRateBps =>
      simp only [Session.perform]
      split_ifs
      · exact .inl ⟨true,rfl⟩
      · exact .inl ⟨true,rfl⟩
      · exact .inr ⟨_,rfl⟩
  | insertTransaction request =>
      simp only [Session.perform]
      split_ifs
      · exact .inl ⟨true,rfl⟩
      · exact .inr ⟨_,rfl⟩

/-- A reading or inserting statement changes no row, or inserts one row of its
own call. -/
theorem execute_appends {q : Statement} (hq : q.Appends) (s : Session) (owner : ℕ) :
    (∃ aborted, (s.execute owner q).2 = { s with aborted }) ∨
      ∃ row, (s.execute owner q).2 = s.insert owner row := by
  cases hfailed : s.failed with
  | false =>
      rw [execute_of_live hfailed]
      exact perform_appends hq s owner
  | true =>
      rw [execute_of_failed hfailed]
      cases q with
      | begin | commit | rollback | updateLine _ _ => cases hq
      | selectBorrower _ | selectOpenLine _ | selectWallet _ | selectLine _
      | selectUtilized _ | existsLine _ | selectTransaction _ | insertBorrower _
      | insertCreditLine _ _ _ | insertTransaction _ => exact .inl ⟨s.aborted,rfl⟩

end Creditra.PostgresSession
