import Creditra.AwaitTasks
import Creditra.CreditModels
import Mathlib.Data.Rat.Defs
import Mathlib.Algebra.Order.Ring.Rat

/-!
# The credit-line service over any repository

`createCreditLine`, `draw` and `repay` are written against the repository
interfaces and a transaction runner, as in the source, so that the in-memory
and the Postgres wiring run the same text. Every repository call is awaited.

A draw or a repayment reads the line, decides on that reading alone, and then
inside the runner appends a ledger row and writes the balance. The decision is
a pure function of the reading and the request, called the posting. Domain
events are published without being awaited and never fail the call; they are
left out.
-/
namespace Creditra.CreditLineService
open CreditModels AwaitTasks

structure CreditLineRepository (Q : Type) (R : Q → Type) where
  create : CreateCreditLineRequest → Task Q R Failure CreditLine
  findById : Uuid → Task Q R Failure (Option CreditLine)
  update : Uuid → UpdateCreditLineRequest → Task Q R Failure (Option CreditLine)

structure TransactionRepository (Q : Type) (R : Q → Type) where
  create : CreateTransactionRequest → Task Q R Failure Transaction

/-- The ledger is an optional dependency of the service. -/
structure Service (Q : Type) (R : Q → Type) where
  creditLineRepository : CreditLineRepository Q R
  transactionRepository : Option (TransactionRepository Q R)
  runInTransaction : Task Q R Failure CreditLine → Task Q R Failure CreditLine

/-- What a draw or repayment has decided to record. -/
structure Posting where
  type : TransactionType
  amount : ℚ
  utilized : ℚ
  deriving DecidableEq

/-- The checks of `draw`, in the order the source makes them. -/
def drawPosting (borrowerId : String) (amount : Option ℚ) :
    Option CreditLine → Except Failure Posting
  | none => .error (.error "Credit line not found")
  | some line =>
      if line.walletAddress ≠ borrowerId then .error (.error "Unauthorized")
      else if line.status ≠ .active then .error (.error "Credit line is not active")
      else match amount with
        | none => .error (.error "Draw amount must be greater than 0")
        | some amountNum =>
            if amountNum ≤ 0 then .error (.error "Draw amount must be greater than 0")
            else if line.utilized + amountNum > line.creditLimit then
              .error (.error "Credit limit exceeded")
            else .ok ⟨.borrow,amountNum,line.utilized + amountNum⟩

/-- The checks of `repay`. Neither the caller nor the status is looked at, and
the new balance is floored at zero. -/
def repayPosting (amount : Option ℚ) : Option CreditLine → Except Failure Posting
  | none => .error (.error "Credit line not found")
  | some line => match amount with
      | none => .error (.error "Repay amount must be greater than 0")
      | some amountNum =>
          if amountNum ≤ 0 then .error (.error "Repay amount must be greater than 0")
          else .ok ⟨.repay,amountNum,max 0 (line.utilized - amountNum)⟩

variable {Q : Type} {R : Q → Type}

namespace Service

/-- The body both mutations hand to the runner: ledger row first, then the
balance. -/
def record (svc : Service Q R) (id : Uuid) (p : Posting) : Task Q R Failure CreditLine := do
  match svc.transactionRepository with
  | some ledger =>
      let _ ← ledger.create { creditLineId := id, amount := p.amount, type := p.type }
      pure ()
  | none => pure ()
  let next ← svc.creditLineRepository.update id { utilized := some p.utilized }
  match next with
  | none => Task.throw (.error "Credit line not found")
  | some line => pure line

/-- Pre-flight read and decision, then the transaction. -/
def mutate (svc : Service Q R) (id : Uuid)
    (posting : Option CreditLine → Except Failure Posting) : Task Q R Failure CreditLine := do
  let line ← svc.creditLineRepository.findById id
  match posting line with
  | .error e => Task.throw e
  | .ok p => svc.runInTransaction (svc.record id p)

def draw (svc : Service Q R) (id : Uuid) (borrowerId : String) (amount : Option ℚ) :
    Task Q R Failure CreditLine :=
  svc.mutate id (drawPosting borrowerId amount)

def repay (svc : Service Q R) (id : Uuid) (_walletAddress : String) (amount : Option ℚ) :
    Task Q R Failure CreditLine :=
  svc.mutate id (repayPosting amount)

def createCreditLine (svc : Service Q R) (request : CreateCreditLineRequest) :
    Task Q R Failure CreditLine :=
  if request.walletAddress = "" then Task.throw (.error "Wallet address is required")
  else if request.creditLimit ≤ 0 then
    Task.throw (.error "Credit limit must be greater than 0")
  else if request.interestRateBps < 0 ∨ request.interestRateBps > 10000 then
    Task.throw (.error "Interest rate must be between 0 and 10000 basis points")
  else svc.runInTransaction (svc.creditLineRepository.create request)

end Service

/-- A draw posting: the reading admitted it, and only then. -/
theorem drawPosting_eq_ok {borrowerId : String} {amount : Option ℚ} {line : Option CreditLine}
    {p : Posting} (h : drawPosting borrowerId amount line = .ok p) :
    ∃ l a, line = some l ∧ amount = some a ∧ l.walletAddress = borrowerId ∧
      l.status = .active ∧ 0 < a ∧ l.utilized + a ≤ l.creditLimit ∧
      p = ⟨.borrow,a,l.utilized + a⟩ := by
  unfold drawPosting at h
  split at h
  · cases h
  · rename_i l
    split at h
    · cases h
    · split at h
      · cases h
      · split at h
        · cases h
        · rename_i hw hs _ a
          split at h
          · cases h
          · split at h
            · cases h
            · rename_i ha hl
              cases h
              exact ⟨l,a,rfl,rfl,not_not.mp hw,not_not.mp hs,not_le.mp ha,not_lt.mp hl,rfl⟩

/-- A repayment posting. -/
theorem repayPosting_eq_ok {amount : Option ℚ} {line : Option CreditLine} {p : Posting}
    (h : repayPosting amount line = .ok p) :
    ∃ l a, line = some l ∧ amount = some a ∧ 0 < a ∧
      p = ⟨.repay,a,max 0 (l.utilized - a)⟩ := by
  unfold repayPosting at h
  split at h
  · cases h
  · rename_i l
    split at h
    · cases h
    · rename_i _ a
      split at h
      · cases h
      · rename_i ha
        cases h
        exact ⟨l,a,rfl,rfl,not_le.mp ha,rfl⟩

/-! ## Draws and repayments alike -/

/-- A balance mutation, as a caller asks for it. -/
inductive Operation where
  | draw (borrowerId : String) (amount : Option ℚ)
  | repay (walletAddress : String) (amount : Option ℚ)
  deriving DecidableEq

namespace Operation

def posting : Operation → Option CreditLine → Except Failure Posting
  | .draw borrowerId amount => drawPosting borrowerId amount
  | .repay _ amount => repayPosting amount

def task (svc : Service Q R) (id : Uuid) : Operation → Task Q R Failure CreditLine
  | .draw borrowerId amount => svc.draw id borrowerId amount
  | .repay walletAddress amount => svc.repay id walletAddress amount

theorem task_eq (svc : Service Q R) (id : Uuid) (op : Operation) :
    op.task svc id = svc.mutate id op.posting := by
  cases op with
  | draw borrowerId amount => rfl
  | repay walletAddress amount => rfl

/-- A posting is made only for a line that was found. -/
theorem posting_some {op : Operation} {line : Option CreditLine} {p : Posting}
    (h : op.posting line = .ok p) : ∃ l, line = some l := by
  cases op with
  | draw borrowerId amount =>
      obtain ⟨l,a,hl,-⟩ := drawPosting_eq_ok h
      exact ⟨l,hl⟩
  | repay walletAddress amount =>
      obtain ⟨l,a,hl,-⟩ := repayPosting_eq_ok h
      exact ⟨l,hl⟩

end Operation
end Creditra.CreditLineService
