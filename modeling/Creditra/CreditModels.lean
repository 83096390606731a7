import Mathlib.Data.Rat.Defs

/-!
# Credit lines, ledger transactions and their requests

The records follow `src/models`. Monetary texts are exact rationals: a stored
amount is the number its text denotes, and a request amount is the result of
`parseFloat`, absent when that is not a finite number. Creation and update
instants are not read by any modelled function and are left out.
-/
namespace Creditra.CreditModels

/-- UUIDs are drawn from a counter, which is what their freshness amounts to. -/
abbrev Uuid := ℕ

inductive CreditLineStatus where
  | active | suspended | closed | pending
  deriving DecidableEq, Repr

structure CreditLine where
  id : Uuid
  walletAddress : String
  creditLimit : ℚ
  availableCredit : ℚ
  utilized : ℚ
  interestRateBps : ℤ
  status : CreditLineStatus
  version : Option ℕ
  deriving DecidableEq

structure CreateCreditLineRequest where
  walletAddress : String
  creditLimit : ℚ
  interestRateBps : ℤ
  deriving DecidableEq

/-- Every field is optional, as in the source. -/
structure UpdateCreditLineRequest where
  creditLimit : Option ℚ := none
  interestRateBps : Option ℤ := none
  status : Option CreditLineStatus := none
  utilized : Option ℚ := none
  expectedVersion : Option ℕ := none
  deriving DecidableEq

inductive TransactionType where
  | borrow | repay | interestAccrual | fee | statusChange
  deriving DecidableEq, Repr

inductive TransactionStatus where
  | pending | confirmed | failed | cancelled
  deriving DecidableEq, Repr

structure CreateTransactionRequest where
  creditLineId : Uuid
  amount : ℚ
  type : TransactionType
  blockchainTxHash : Option String := none
  deriving DecidableEq

structure Transaction where
  id : Uuid
  creditLineId : Uuid
  walletAddress : String
  amount : ℚ
  type : TransactionType
  status : TransactionStatus
  blockchainTxHash : Option String
  deriving DecidableEq

/-- What a ledger row says, without the identifier drawn for it. -/
def Transaction.entry (t : Transaction) : Uuid × ℚ × TransactionType :=
  (t.creditLineId,t.amount,t.type)

/-- Errors of the database driver; `sqlState` is any other error of the server and `lost` any
failure of the connection. -/
inductive QueryError where
  | uniqueViolation | foreignKeyViolation | inFailedTransaction
  | sqlState (code : String)
  | lost
  deriving DecidableEq, Repr

/-- Everything a service call can reject with; `reference` is a name that the module does not
define. -/
inductive Failure where
  | error (message : String)
  | versionConflict (id : Uuid) (expectedVersion : ℕ) (actualVersion : ℤ)
  | reference (name : String)
  | query (e : QueryError)
  deriving DecidableEq, Repr

end Creditra.CreditModels
