import Creditra.CreditLineService
import Mathlib.Algebra.Order.Field.Rat

/-!
# In-memory repositories

The methods are asynchronous in name only: each body runs to its end when it is
called, and the caller awaits the finished answer. So a repository call is one
action on the store. The service of this module is the one the container builds
without a database: the transaction runner passes its work through.

The store also remembers, as ghost data, the line each call has read last and
which call appended each ledger row.
-/
namespace Creditra.MemoryRepositories
open CreditModels AwaitTasks CreditLineService

structure MemoryStore where
  creditLines : Uuid → Option CreditLine
  transactions : List (Option ℕ × Transaction)
  nextId : Uuid
  reads : ℕ → Option CreditLine

inductive Action where
  | create (request : CreateCreditLineRequest)
  | findById (id : Uuid)
  | update (id : Uuid) (request : UpdateCreditLineRequest)
  | createTransaction (request : CreateTransactionRequest)
  deriving DecidableEq

abbrev Action.Answer : Action → Type
  | create _ => CreditLine
  | findById _ => Option CreditLine
  | update _ _ => Except Failure (Option CreditLine)
  | createTransaction _ => Transaction

/-- A missing version counts as the first. -/
def currentVersion (line : CreditLine) : ℕ := line.version.getD 1

/-- The stored line after a patch. A balance patch recomputes the available
credit; a changed limit rescales it. -/
def patch (request : UpdateCreditLineRequest) (existing : CreditLine) : CreditLine :=
  let creditLimit := request.creditLimit.getD existing.creditLimit
  let synced := match request.utilized with
    | some utilized => creditLimit - utilized
    | none => existing.availableCredit
  { existing with
    creditLimit
    interestRateBps := request.interestRateBps.getD existing.interestRateBps
    status := request.status.getD existing.status
    utilized := request.utilized.getD existing.utilized
    version := some (currentVersion existing + 1)
    availableCredit := match request.creditLimit with
      | none => synced
      | some newLimit =>
          if newLimit = existing.creditLimit then synced
          else newLimit * (if existing.creditLimit > 0
            then existing.availableCredit / existing.creditLimit else 1) }

namespace MemoryStore

def create (s : MemoryStore) (request : CreateCreditLineRequest) : CreditLine × MemoryStore :=
  let line : CreditLine := ⟨s.nextId,request.walletAddress,request.creditLimit,
    request.creditLimit,0,request.interestRateBps,.active,some 1⟩
  (line,{ s with
    creditLines := Function.update s.creditLines s.nextId (some line)
    nextId := s.nextId + 1 })

def findById (s : MemoryStore) (owner : ℕ) (id : Uuid) : Option CreditLine × MemoryStore :=
  (s.creditLines id,{ s with reads := Function.update s.reads owner (s.creditLines id) })

def update (s : MemoryStore) (id : Uuid) (request : UpdateCreditLineRequest) :
    Except Failure (Option CreditLine) × MemoryStore :=
  match s.creditLines id with
  | none => (.ok none,s)
  | some existing =>
      match request.expectedVersion with
      | some expected =>
          if expected = currentVersion existing then
            (.ok (some (patch request existing)),{ s with
              creditLines := Function.update s.creditLines id (some (patch request existing)) })
          else (.error (.versionConflict id expected (currentVersion existing)),s)
      | none =>
          (.ok (some (patch request existing)),{ s with
            creditLines := Function.update s.creditLines id (some (patch request existing)) })

def createTransaction (s : MemoryStore) (owner : ℕ) (request : CreateTransactionRequest) :
    Transaction × MemoryStore :=
  let transaction : Transaction := ⟨s.nextId,request.creditLineId,"",request.amount,
    request.type,.pending,request.blockchainTxHash⟩
  (transaction,{ s with
    transactions := s.transactions ++ [(some owner,transaction)]
    nextId := s.nextId + 1 })

end MemoryStore

def exec : Exec Action Action.Answer MemoryStore Unit := fun _ owner q s =>
  match q with
  | .create request => s.create request
  | .findById id => s.findById owner id
  | .update id request => s.update id request
  | .createTransaction request => s.createTransaction owner request

abbrev MemoryTask := Task Action Action.Answer Failure

def creditLineRepository : CreditLineRepository Action Action.Answer where
  create request := Task.call (Action.create request)
  findById id := Task.call (Action.findById id)
  update id request := .await (.update id request) fun r => .done r

def transactionRepository : TransactionRepository Action Action.Answer where
  create request := Task.call (Action.createTransaction request)

def passthroughTransactionRunner (work : MemoryTask CreditLine) : MemoryTask CreditLine := work

/-- The wiring of `Container.rebuildServices` without a client. -/
def service : Service Action Action.Answer :=
  ⟨creditLineRepository,some transactionRepository,passthroughTransactionRunner⟩

/-- What is left of a mutation before its balance write. -/
def updating (id : Uuid) (p : Posting) : MemoryTask CreditLine :=
  .await (.update id { utilized := some p.utilized }) fun
    | .error e => .done (.error e)
    | .ok none => .done (.error (.error "Credit line not found"))
    | .ok (some line) => .done (.ok line)

/-- What is left of a mutation before its ledger row. -/
def recording (id : Uuid) (p : Posting) : MemoryTask CreditLine :=
  .await (.createTransaction { creditLineId := id, amount := p.amount, type := p.type })
    fun _ => updating id p

/-- A mutation awaits three times: it reads, records and updates. -/
theorem mutate_eq (id : Uuid) (posting : Option CreditLine → Except Failure Posting) :
    service.mutate id posting = .await (.findById id) fun line =>
      match posting line with
      | .error e => .done (.error e)
      | .ok p => recording id p := by
  unfold Service.mutate
  simp only [service,creditLineRepository,Task.bind_call,passthroughTransactionRunner]
  congr 1
  funext line
  cases posting line with
  | error e => rfl
  | ok p =>
      simp only [Service.record,transactionRepository,recording,updating,Task.bind_call]
      congr 1
      funext _
      simp only [Task.bind_await]
      congr 1
      funext r
      cases r with
      | error e => rfl
      | ok line =>
          cases line with
          | none => rfl
          | some line => rfl

/-- A balance patch on a line that exists. -/
theorem update_utilized {s : MemoryStore} {id : Uuid} {line : CreditLine}
    (h : s.creditLines id = some line) (u : ℚ) :
    s.update id { utilized := some u } =
      (.ok (some (patch { utilized := some u } line)),{ s with
        creditLines := Function.update s.creditLines id
          (some (patch { utilized := some u } line)) }) := by
  simp [MemoryStore.update,h]

@[simp] theorem patch_utilized (u : ℚ) (line : CreditLine) :
    patch { utilized := some u } line = { line with
      utilized := u
      availableCredit := line.creditLimit - u
      version := some (currentVersion line + 1) } := rfl

end Creditra.MemoryRepositories
