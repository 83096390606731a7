import Creditra.CreditLineService
import Creditra.PostgresSession

/-!
# Postgres repositories and the transaction helper

The repository methods are tasks over the statements of the shared session, one
await per query. `withTransaction` sends `BEGIN`, runs the work, and sends
`COMMIT`, or `ROLLBACK` after any error; a failing `ROLLBACK` is swallowed in
favour of the original error. The service of this module is the one the
container builds when a database is configured: both repositories and the
runner share the one client.

`utilized` is not a column. An update that carries nothing else sends no
`UPDATE` and only reads the line back, with the balance derived from the ledger.
-/
namespace Creditra.PostgresRepositories
open CreditModels AwaitTasks CreditLineService PostgresSession

abbrev SqlTask := Task Statement Statement.Answer Failure

/-- `client.query`: a failed statement rejects. -/
def query (q : Statement) : SqlTask q.Rows :=
  .await q fun r => .done (r.mapError .query)

/-- The single `pg.Client` of the process. -/
structure DbClient where

/-- Without a client the work runs with no transaction control. -/
def withTransaction {α : Type} (client : Option DbClient) (work : SqlTask α) : SqlTask α :=
  match client with
  | none => work
  | some _ => do
      query .begin
      Task.handle (do
          let result ← work
          query .commit
          pure result) fun error => do
        Task.handle (query .rollback) fun _ => pure ()
        Task.throw error

def createDbTransactionRunner {α : Type} (client : DbClient) (work : SqlTask α) : SqlTask α :=
  withTransaction (some client) work

/-- Available credit from the ledger sum, clamped at zero. -/
def calculateAvailableCredit (utilized creditLimit : ℚ) : ℚ :=
  max 0 (creditLimit - max 0 utilized)

def calculateUtilized (creditLimit availableCredit : ℚ) : ℚ :=
  max 0 (creditLimit - availableCredit)

def toCreditLine (row : CreditLineRow) (walletAddress : String) (availableCredit : ℚ) :
    CreditLine :=
  ⟨row.id,walletAddress,row.creditLimit,availableCredit,
    calculateUtilized row.creditLimit availableCredit,row.interestRateBps,row.status,
    some row.version⟩

namespace PostgresCreditLineRepository

def findById (id : Uuid) : SqlTask (Option CreditLine) := do
  let result ← query (.selectLine id)
  match result with
  | none => pure none
  | some row =>
      let utilized ← query (.selectUtilized id)
      pure (some (toCreditLine row.1 row.2 (calculateAvailableCredit utilized row.1.creditLimit)))

/-- The `catch` clause calls a function that the module does not import. -/
def ensureBorrower (walletAddress : String) : SqlTask Uuid := do
  let found ← query (.selectBorrower walletAddress)
  match found with
  | some id => pure id
  | none =>
      Task.handle (query (.insertBorrower walletAddress)) fun _ =>
        Task.throw (.reference "conflictFromUniqueViolation")

def getWalletAddress (borrowerId : Uuid) : SqlTask String := do
  let result ← query (.selectWallet borrowerId)
  match result with
  | none => Task.throw (.error ("Borrower not found: " ++ toString borrowerId))
  | some walletAddress => pure walletAddress

/-- Neither the error for an open line nor the test in the `catch` clause is imported. -/
def create (request : CreateCreditLineRequest) : SqlTask CreditLine := do
  let borrowerId ← ensureBorrower request.walletAddress
  let openCheck ← query (.selectOpenLine borrowerId)
  match openCheck with
  | some _ => Task.throw (.reference "duplicateResource")
  | none =>
      let row ← Task.handle
        (query (.insertCreditLine borrowerId request.creditLimit request.interestRateBps))
        fun _ => Task.throw (.reference "conflictFromUniqueViolation")
      let walletAddress ← getWalletAddress borrowerId
      pure ⟨row.id,walletAddress,row.creditLimit,row.creditLimit,0,row.interestRateBps,
        row.status,some row.version⟩

/-- No column to set means no `UPDATE`. -/
def update (id : Uuid) (request : UpdateCreditLineRequest) : SqlTask (Option CreditLine) :=
  if request.creditLimit = none ∧ request.interestRateBps = none ∧ request.status = none then
    findById id
  else do
    let updated ← query (.updateLine id request)
    if updated then findById id
    else match request.expectedVersion with
      | none => pure none
      | some expectedVersion => do
          let present ← query (.existsLine id)
          if present then do
            let current ← findById id
            Task.throw (.versionConflict id expectedVersion
              (match current.bind (·.version) with | some v => v | none => -1))
          else pure none

def repository : CreditLineRepository Statement Statement.Answer := ⟨create,findById,update⟩

end PostgresCreditLineRepository

namespace PostgresTransactionRepository

def create (request : CreateTransactionRequest) : SqlTask Transaction := do
  let id ← query (.insertTransaction request)
  let created ← query (.selectTransaction id)
  match created with
  | none => Task.throw (.error ("Failed to load created transaction: " ++ toString id))
  | some transaction => pure transaction

def repository : TransactionRepository Statement Statement.Answer := ⟨create⟩

end PostgresTransactionRepository

/-- The wiring of `Container.rebuildServices` when a client is present. -/
def service (client : DbClient) : Service Statement Statement.Answer :=
  ⟨PostgresCreditLineRepository.repository,some PostgresTransactionRepository.repository,
    createDbTransactionRunner client⟩

@[simp] theorem query_bind {α : Type} (q : Statement) (f : q.Rows → SqlTask α) :
    query q >>= f = .await q fun r => match r with
      | .ok rows => f rows
      | .error e => .done (.error (.query e)) := by
  unfold query
  simp only [Task.bind_await]
  congr 1
  funext r
  cases r <;> rfl

/-- With nothing but a balance to set, `update` sends no `UPDATE`. -/
theorem update_utilized (id : Uuid) (utilized : ℚ) :
    PostgresCreditLineRepository.update id { utilized := some utilized } =
      PostgresCreditLineRepository.findById id := by
  simp [PostgresCreditLineRepository.update]

end Creditra.PostgresRepositories
