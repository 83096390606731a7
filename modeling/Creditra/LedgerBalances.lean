import Creditra.MemoryRepositories
import Creditra.PostgresRepositories
import Mathlib.Tactic.Linarith

/-!
# Balances of the two backends

The in-memory backend stores the running balance the service computes, which
is floored at zero after every repayment. The Postgres backend stores no
balance: it floors the sum of the whole ledger each time a line is read. Here
one sequence of draws and repayments on one line is run on both, call after
call, and what the two report is compared.

The two agree as long as the ledger sum never falls below zero at an accepted
draw. A repayment beyond the balance leaves a credit in the ledger sum that the
stored balance has forgotten; the next accepted draw tells them apart.
-/
namespace Creditra.LedgerBalances
open CreditModels AwaitTasks CreditLineService PostgresSession PostgresRepositories
open MemoryRepositories (MemoryStore)

variable {Q : Type} {R : Q → Type} {σ ω : Type}

/-- Utilized and available credit, as the repository's `findById` reports them. -/
def reported (svc : Service Q R) (exec : Exec Q R σ ω) (w : ω) (id : Uuid) (s : σ) :
    Option (ℚ × ℚ) :=
  match ((svc.creditLineRepository.findById id).complete exec w 0 s).1 with
  | .ok (some line) => some (line.utilized,line.availableCredit)
  | _ => none

def onMemory (id : Uuid) (c : Operation) (m : MemoryStore) :
    Except Failure CreditLine × MemoryStore :=
  (c.task MemoryRepositories.service id).complete MemoryRepositories.exec () 0 m

def onPostgres (client : DbClient) (id : Uuid) (c : Operation) (s : Session) :
    Except Failure CreditLine × Session :=
  (c.task (service client) id).complete exec none 0 s

def memoryReport (id : Uuid) (m : MemoryStore) : Option (ℚ × ℚ) :=
  reported MemoryRepositories.service MemoryRepositories.exec () id m

def postgresReport (client : DbClient) (id : Uuid) (s : Session) : Option (ℚ × ℚ) :=
  reported (service client) exec none id s

/-- The same calls succeed, and after each call the two reports are equal. -/
def Agree (client : DbClient) (id : Uuid) : MemoryStore → Session → List Operation → Prop
  | _, _, [] => True
  | m, s, c :: cs =>
      (onMemory id c m).1.isOk = (onPostgres client id c s).1.isOk ∧
      memoryReport id (onMemory id c m).2 = postgresReport client id (onPostgres client id c s).2 ∧
      Agree client id (onMemory id c m).2 (onPostgres client id c s).2 cs

instance agreeDecidable (client : DbClient) (id : Uuid) : (m : MemoryStore) → (s : Session) →
    (cs : List Operation) → Decidable (Agree client id m s cs)
  | _, _, [] => inferInstanceAs (Decidable True)
  | m, s, c :: cs =>
      have := agreeDecidable client id (onMemory id c m).2 (onPostgres client id c s).2 cs
      inferInstanceAs (Decidable (_ ∧ _ ∧ _))

/-- What the line keeps through every draw and repayment. -/
structure Terms where
  walletAddress : String
  creditLimit : ℚ
  status : CreditLineStatus
  deriving DecidableEq

def termsOf (line : CreditLine) : Terms := ⟨line.walletAddress,line.creditLimit,line.status⟩

/-- A newly opened line in both backends: nothing drawn, and no ledger row
names it. -/
structure Opened (id : Uuid) (terms : Terms) (m : MemoryStore) (s : Session) : Prop where
  stored : ∃ line, m.creditLines id = some line ∧
    termsOf line = terms ∧
    line.utilized = 0 ∧ line.availableCredit = terms.creditLimit
  row : ∃ r, s.durable.lineById id = some (r,terms.walletAddress) ∧
    r.creditLimit = terms.creditLimit ∧ r.status = terms.status
  ledger : ∀ t ∈ s.durable.transactions, t.creditLineId ≠ id
  idle : s.working = none
  fresh : ∀ t ∈ s.durable.transactions, t.id < s.nextId

/-- The checks of `draw`, for a line whose draws less repayments come to `net`. -/
def Accepts (terms : Terms) (net : ℚ) (borrowerId : String) (amount : ℚ) : Prop :=
  terms.walletAddress = borrowerId ∧ terms.status = .active ∧ 0 < amount ∧
    max 0 net + amount ≤ terms.creditLimit

instance (terms : Terms) (net : ℚ) (borrowerId : String) (amount : ℚ) :
    Decidable (Accepts terms net borrowerId amount) := by
  unfold Accepts
  infer_instance

/-- Draws less repayments after one more call. -/
def netAfter (terms : Terms) (net : ℚ) : Operation → ℚ
  | .draw borrowerId (some amount) =>
      if Accepts terms net borrowerId amount then net + amount else net
  | .repay _ (some amount) => if 0 < amount then net - amount else net
  | _ => net

/-- No draw that passes its checks comes while the repayments made so far
exceed the draws. -/
def NoDrawInCredit (terms : Terms) : ℚ → List Operation → Prop
  | _, [] => True
  | net, c :: cs =>
      (∀ borrowerId amount, c = .draw borrowerId (some amount) →
        Accepts terms net borrowerId amount → 0 ≤ net) ∧
      NoDrawInCredit terms (netAfter terms net c) cs

/-! ## One call on the Postgres backend -/

section Postgres
variable {id : Uuid} {r : CreditLineRow} {wallet : String} {s : Session}

def entryOf (owner : ℕ) (t : TransactionRow) : Entry := ⟨some owner,.transaction t⟩

@[simp] theorem transactions_append (d : Database) (owner : ℕ) (t : TransactionRow) :
    Database.transactions (d ++ [entryOf owner t]) = d.transactions ++ [t] := by
  simp [Database.transactions,entryOf]

@[simp] theorem lineById_append (d : Database) (owner : ℕ) (t : TransactionRow) (id : Uuid) :
    Database.lineById (d ++ [entryOf owner t]) id = d.lineById id := by
  simp [Database.lineById,Database.creditLines,Database.borrowers,entryOf]

theorem utilizedSum_append (d : Database) (owner : ℕ) (id : Uuid) (t : TransactionRow)
    (ht : t.creditLineId = id) (hs : t.status = .pending) :
    Database.utilizedSum (d ++ [entryOf owner t]) id =
      d.utilizedSum id + Database.signedAmount t := by
  simp [Database.utilizedSum,List.filter_append,ht,hs]

/-- A ledger row with an unused identifier is found under it. -/
theorem transactionById_append (d : Database) (owner : ℕ) (t : TransactionRow)
    (hf : ∀ t' ∈ d.transactions, t'.id ≠ t.id) {l : CreditLineRow × String}
    (hl : d.lineById t.creditLineId = some l) :
    (Database.transactionById (d ++ [entryOf owner t]) t.id).isSome = true := by
  have hnone : d.transactions.find? (fun t' => t'.id = t.id) = none := by
    rw [List.find?_eq_none]
    intro t' ht'
    simpa using hf t' ht'
  simp [Database.transactionById,List.find?_append,hnone,hl]

theorem exists_of_lineById (d : Database) {l : CreditLineRow × String}
    (hl : d.lineById id = some l) : d.creditLines.all (·.id ≠ id) = false := by
  obtain ⟨row,hrow,-⟩ := Option.bind_eq_some_iff.mp hl
  rw [List.all_eq_false]
  exact ⟨row,List.mem_of_find?_eq_some hrow,by simpa using List.find?_some hrow⟩

/-- The line as `findById` reads it from the ledger. -/
def lineFrom (r : CreditLineRow) (wallet : String) (net : ℚ) : CreditLine :=
  toCreditLine r wallet (calculateAvailableCredit net r.creditLimit)

theorem query_complete (q : Statement) (s : Session) :
    (query q).complete exec none 0 s =
      ((s.execute 0 q).1.mapError .query,(s.execute 0 q).2) := rfl

theorem findById_complete (hs : s.failed = false)
    (hl : s.visible.lineById id = some (r,wallet)) :
    (PostgresCreditLineRepository.findById id).complete exec none 0 s =
      (.ok (some (lineFrom r wallet (s.visible.utilizedSum id))),s) := by
  unfold PostgresCreditLineRepository.findById
  rw [Task.complete_bind,query_complete,execute_of_live hs]
  simp only [Session.perform,hl,Except.mapError]
  rw [Task.complete_bind,query_complete,execute_of_live hs]
  rfl

/-- The ledger row a posting adds. -/
def rowOf (s : Session) (id : Uuid) (p : Posting) : TransactionRow :=
  ⟨s.nextId,id,p.type,p.amount,.pending,none⟩

/-- The session after the transaction of a posting. -/
def afterPosting (s : Session) (id : Uuid) (p : Posting) : Session :=
  { s.insert 0 (.transaction (rowOf s id p)) with aborted := false }

theorem visible_insert (s : Session) (owner : ℕ) (t : TransactionRow) :
    (s.insert owner (.transaction t)).visible = s.visible ++ [entryOf owner t] := by
  cases h : s.working <;> simp [Session.visible,Session.insert,entryOf,h]

theorem durable_insert (hw : s.working = none) (owner : ℕ) (t : TransactionRow) :
    (s.insert owner (.transaction t)).durable = s.durable ++ [entryOf owner t] := by
  simp [Session.insert,entryOf,hw]

theorem afterPosting_durable (hw : s.working = none) (id : Uuid) (p : Posting) :
    (afterPosting s id p).durable = s.durable ++ [entryOf 0 (rowOf s id p)] :=
  durable_insert hw 0 (rowOf s id p)

theorem afterPosting_idle (hw : s.working = none) (id : Uuid) (p : Posting) :
    (afterPosting s id p).working = none := by
  simp [afterPosting,Session.insert,hw]

theorem create_complete (p : Posting) (hs : s.aborted = false)
    (hl : s.visible.lineById id = some (r,wallet))
    (hf : ∀ t ∈ s.visible.transactions, t.id ≠ s.nextId) :
    ∃ t, (PostgresTransactionRepository.create
        { creditLineId := id, amount := p.amount, type := p.type }).complete exec none 0 s =
      (.ok t,s.insert 0 (.transaction (rowOf s id p))) := by
  have hfound := transactionById_append s.visible 0 (rowOf s id p) hf hl
  obtain ⟨t,ht⟩ := Option.isSome_iff_exists.mp hfound
  have hsel : ((s.insert 0 (.transaction (rowOf s id p))).perform 0
      (.selectTransaction s.nextId)).1 = .ok (some t) := by
    simp only [Session.perform,visible_insert]
    exact congrArg _ ht
  have hlive : (s.insert 0 (.transaction (rowOf s id p))).failed = false := failed_of_whole hs
  use t
  unfold PostgresTransactionRepository.create
  rw [Task.complete_bind,query_complete,execute_of_live (failed_of_whole hs)]
  simp only [Session.perform,exists_of_lineById s.visible hl,Bool.false_eq_true,if_false,
    Except.mapError]
  rw [Task.complete_bind,query_complete]
  erw [execute_of_live hlive,hsel]
  rfl

theorem record_complete (client : DbClient) (p : Posting) (hs : s.aborted = false)
    (hl : s.visible.lineById id = some (r,wallet))
    (hf : ∀ t ∈ s.visible.transactions, t.id ≠ s.nextId) :
    ((service client).record id p).complete exec none 0 s =
      (.ok (lineFrom r wallet
        (s.visible.utilizedSum id + Database.signedAmount (rowOf s id p))),
        s.insert 0 (.transaction (rowOf s id p))) := by
  obtain ⟨t,ht⟩ := create_complete p hs hl hf
  have hl' : (s.insert 0 (.transaction (rowOf s id p))).visible.lineById id =
      some (r,wallet) := by rw [visible_insert,lineById_append,hl]
  have hlive : (s.insert 0 (.transaction (rowOf s id p))).failed = false := failed_of_whole hs
  have hread := findById_complete hlive hl'
  rw [visible_insert,utilizedSum_append s.visible 0 id (rowOf s id p) rfl rfl] at hread
  unfold Service.record
  simp only [service,PostgresTransactionRepository.repository,
    PostgresCreditLineRepository.repository]
  rw [Task.complete_bind,ht]
  simp only
  rw [Task.complete_bind,update_utilized,hread]
  rfl

/-- Between `BEGIN` and the end of the transaction only the work acts on the session. -/
theorem transaction_eq (client : DbClient) (work : SqlTask CreditLine) (hidle : s.working = none) :
    (createDbTransactionRunner client work).complete exec none 0 s =
      match work.complete exec none 0 { s with working := some s.visible, aborted := false } with
      | (.ok a,s') => (.ok a,(s'.execute 0 .commit).2)
      | (.error e,s') => (.error e,{ s' with working := none }) := by
  unfold createDbTransactionRunner withTransaction
  simp only
  rw [Task.complete_bind,query_complete,execute_of_live (failed_of_idle hidle)]
  simp only [Session.perform,Except.mapError]
  rw [Task.complete_handle,Task.complete_bind]
  rcases work.complete exec none 0 { s with working := some s.visible, aborted := false }
    with ⟨_ | _,s'⟩
  · simp only
    rw [Task.complete_bind,Task.complete_handle,query_complete,execute_rollback]
    rfl
  · simp only
    rw [Task.complete_bind,query_complete,execute_commit]
    rfl

/-- Work that succeeds in a transaction that has not failed leaves its rows durable. -/
theorem transaction_complete (client : DbClient) {work : SqlTask CreditLine} {a : CreditLine}
    {s' : Session} (hidle : s.working = none)
    (hwork : work.complete exec none 0 { s with working := some s.visible, aborted := false } =
      (.ok a,s')) (hlive : s'.failed = false) :
    (createDbTransactionRunner client work).complete exec none 0 s =
      (.ok a,{ s' with durable := s'.visible, working := none }) := by
  rw [transaction_eq client work hidle,hwork]
  simp only
  rw [execute_of_live hlive]
  rfl

/-- Outside any transaction, a call reads the line, and an admitted one adds its
row to the durable ledger. -/
theorem mutate_complete (client : DbClient) (posting : Option CreditLine → Except Failure Posting)
    (hw : s.working = none) (hl : s.durable.lineById id = some (r,wallet))
    (hf : ∀ t ∈ s.durable.transactions, t.id < s.nextId) :
    ((service client).mutate id posting).complete exec none 0 s =
      match posting (some (lineFrom r wallet (s.durable.utilizedSum id))) with
      | .error e => (.error e,s)
      | .ok p => (.ok (lineFrom r wallet
          (s.durable.utilizedSum id + Database.signedAmount (rowOf s id p))),
          afterPosting s id p) := by
  have hv : s.visible = s.durable := by simp [Session.visible,hw]
  rw [← hv] at hl hf ⊢
  have hread := findById_complete (failed_of_idle hw) hl
  unfold Service.mutate
  rw [Task.complete_bind]
  erw [hread]
  simp only
  cases posting (some (lineFrom r wallet (s.visible.utilizedSum id))) with
  | error e => rfl
  | ok p =>
      have hrec := record_complete (s := { s with working := some s.visible, aborted := false })
        client p rfl hl (fun t ht => (hf t ht).ne)
      have hrun := transaction_complete (s := s) client hw hrec (failed_of_whole rfl)
      refine hrun.trans (Prod.ext rfl ?_)
      simp [afterPosting,Session.insert,Session.visible,hw,rowOf]

end Postgres

/-! ## The two backends side by side -/

/-- The stored balance is the floored ledger sum `net`, within the limit. -/
structure Aligned (id : Uuid) (terms : Terms) (net : ℚ) (m : MemoryStore) (s : Session) :
    Prop where
  stored : ∃ line, m.creditLines id = some line ∧
    termsOf line = terms ∧
    line.utilized = max 0 net ∧ line.availableCredit = terms.creditLimit - max 0 net
  row : ∃ r, s.durable.lineById id = some (r,terms.walletAddress) ∧
    r.creditLimit = terms.creditLimit ∧ r.status = terms.status
  ledger : s.durable.utilizedSum id = net
  within : max 0 net ≤ terms.creditLimit
  idle : s.working = none
  fresh : ∀ t ∈ s.durable.transactions, t.id < s.nextId

theorem Opened.aligned {id : Uuid} {terms : Terms} {m : MemoryStore} {s : Session}
    (h : Opened id terms m s) (hlimit : 0 < terms.creditLimit) : Aligned id terms 0 m s where
  stored := by simpa using h.stored
  row := h.row
  ledger := by
    have hnone : s.durable.transactions.filter (fun t =>
        t.creditLineId = id ∧ t.status ≠ .failed ∧ t.status ≠ .cancelled) = [] := by
      rw [List.filter_eq_nil_iff]
      intro t ht
      simp [h.ledger t ht]
    simp only [Database.utilizedSum,hnone,List.map_nil,List.sum_nil]
  within := by simpa using hlimit.le
  idle := h.idle
  fresh := h.fresh

/-- Within the limit the line read from the ledger shows the floored sum. -/
theorem lineFrom_balances {r : CreditLineRow} {net : ℚ} (wallet : String)
    (h : max 0 net ≤ r.creditLimit) :
    (lineFrom r wallet net).utilized = max 0 net ∧
      (lineFrom r wallet net).availableCredit = r.creditLimit - max 0 net := by
  have ha : calculateAvailableCredit net r.creditLimit = r.creditLimit - max 0 net :=
    max_eq_right (sub_nonneg.mpr h)
  constructor
  · have h0 : (0 : ℚ) ≤ max 0 net := le_max_left 0 net
    simp [lineFrom,toCreditLine,calculateUtilized,ha]
  · exact ha

/-- The decision on a line whose balance is the floored ledger sum: a refusal,
an accepted draw, or a repayment. -/
theorem posting_cases {terms : Terms} {net : ℚ} {line : CreditLine}
    (hterms : termsOf line = terms)
    (hu : line.utilized = max 0 net) (c : Operation) :
    ((∃ e, c.posting (some line) = .error e) ∧ netAfter terms net c = net ∧
      ∀ borrowerId amount, c = .draw borrowerId (some amount) →
        ¬ Accepts terms net borrowerId amount) ∨
    (∃ borrowerId amount, c = .draw borrowerId (some amount) ∧
      Accepts terms net borrowerId amount ∧
      c.posting (some line) = .ok ⟨.borrow,amount,max 0 net + amount⟩) ∨
    (∃ wallet amount, c = .repay wallet (some amount) ∧ 0 < amount ∧
      c.posting (some line) = .ok ⟨.repay,amount,max 0 (max 0 net - amount)⟩) := by
  subst hterms
  match c with
  | .draw borrowerId amount =>
      match hp : (Operation.draw borrowerId amount).posting (some line) with
      | .ok p =>
          obtain ⟨l,a,hl,rfl,hw,hs,ha,hlim,rfl⟩ :=
            drawPosting_eq_ok (show drawPosting borrowerId amount (some line) = .ok p from hp)
          cases hl
          rw [hu] at hlim
          exact .inr (.inl ⟨borrowerId,a,rfl,⟨hw,hs,ha,hlim⟩,by rw [← hu]⟩)
      | .error e =>
          have hno : ∀ b a, Operation.draw borrowerId amount = .draw b (some a) →
              ¬ Accepts (termsOf line) net b a := by
            intro b a hc hacc
            obtain ⟨hw,hs,ha,hlim⟩ := hacc
            cases hc
            simp only [termsOf] at hw hs hlim
            rw [← hu] at hlim
            simp [Operation.posting,drawPosting,hw,hs,not_le.mpr ha,not_lt.mpr hlim] at hp
          refine .inl ⟨⟨e,rfl⟩,?_,hno⟩
          match amount with
          | none => rfl
          | some a => exact if_neg (hno borrowerId a rfl)
  | .repay wallet none => exact .inl ⟨⟨_,rfl⟩,rfl,by simp⟩
  | .repay wallet (some a) =>
      by_cases ha : 0 < a
      · exact .inr (.inr ⟨wallet,a,rfl,ha,by
          simp [Operation.posting,repayPosting,not_le.mpr ha,hu]⟩)
      · exact .inl ⟨⟨_,if_pos (not_lt.mp ha)⟩,if_neg ha,by simp⟩

/-- A refused call has only read the memory store. -/
theorem onMemory_error {id : Uuid} {c : Operation} {m : MemoryStore} {e : Failure}
    (hp : c.posting (m.creditLines id) = .error e) :
    onMemory id c m = (.error e,(m.findById 0 id).2) := by
  simp [onMemory,Operation.task_eq,MemoryRepositories.mutate_eq,MemoryRepositories.exec,
    MemoryStore.findById,hp]

theorem updating_complete {id : Uuid} {m : MemoryStore} {line : CreditLine}
    (hm : m.creditLines id = some line) (p : Posting) :
    (MemoryRepositories.updating id p).complete MemoryRepositories.exec () 0 m =
      (.ok (MemoryRepositories.patch { utilized := some p.utilized } line),{ m with
        creditLines := Function.update m.creditLines id
          (some (MemoryRepositories.patch { utilized := some p.utilized } line)) }) := by
  unfold MemoryRepositories.updating
  rw [Task.complete_await]
  simp only [MemoryRepositories.exec,MemoryRepositories.update_utilized hm,Task.complete_done]

/-- An admitted call appends its row, stores the balance it has computed and returns the line. -/
theorem onMemory_ok {id : Uuid} {c : Operation} {m : MemoryStore} {line : CreditLine} {p : Posting}
    (hm : m.creditLines id = some line) (hp : c.posting (some line) = .ok p) :
    onMemory id c m = (.ok (MemoryRepositories.patch { utilized := some p.utilized } line),{ m with
      creditLines := Function.update m.creditLines id
        (some (MemoryRepositories.patch { utilized := some p.utilized } line))
      transactions := m.transactions ++
        [(some 0,⟨m.nextId,id,"",p.amount,p.type,.pending,none⟩)]
      nextId := m.nextId + 1
      reads := Function.update m.reads 0 (some line) }) := by
  unfold onMemory
  rw [Operation.task_eq,MemoryRepositories.mutate_eq,Task.complete_await]
  simp only [MemoryRepositories.exec,MemoryStore.findById,hm,hp,MemoryRepositories.recording,
    Task.complete_await]
  have hdone := updating_complete (m := ((m.findById 0 id).2.createTransaction 0
    { creditLineId := id, amount := p.amount, type := p.type }).2) hm p
  simp only [MemoryStore.findById,hm] at hdone
  rw [hdone]
  rfl

theorem memoryReport_eq {id : Uuid} {m : MemoryStore} {line : CreditLine}
    (hm : m.creditLines id = some line) :
    memoryReport id m = some (line.utilized,line.availableCredit) := by
  simp [memoryReport,reported,MemoryRepositories.service,MemoryRepositories.creditLineRepository,
    Task.call,MemoryRepositories.exec,MemoryStore.findById,hm]

theorem postgresReport_eq (client : DbClient) {id : Uuid} {s : Session} {r : CreditLineRow}
    {wallet : String} (hw : s.working = none) (hl : s.durable.lineById id = some (r,wallet))
    (h : max 0 (s.durable.utilizedSum id) ≤ r.creditLimit) :
    postgresReport client id s = some (max 0 (s.durable.utilizedSum id),
      r.creditLimit - max 0 (s.durable.utilizedSum id)) := by
  have hv : s.visible = s.durable := by simp [Session.visible,hw]
  obtain ⟨hu,ha⟩ := lineFrom_balances wallet h
  rw [← hv] at hl hu ha ⊢
  unfold postgresReport reported
  simp only [service,PostgresCreditLineRepository.repository]
  rw [findById_complete (failed_of_idle hw) hl]
  simp only [hu,ha]

/-- Equal reports whenever the backends are aligned. -/
theorem Aligned.reports {id : Uuid} {terms : Terms} {net : ℚ} {m : MemoryStore} {s : Session}
    (h : Aligned id terms net m s) (client : DbClient) :
    memoryReport id m = postgresReport client id s := by
  obtain ⟨line,hm,-,hu,ha⟩ := h.stored
  obtain ⟨r,hl,hlim,-⟩ := h.row
  have hwithin : max 0 (s.durable.utilizedSum id) ≤ r.creditLimit := by
    rw [h.ledger,hlim]
    exact h.within
  rw [memoryReport_eq hm,postgresReport_eq client h.idle hl hwithin,h.ledger,hlim,hu,ha]

/-- What `draw` and `repay` read from Postgres. -/
theorem Aligned.read {id : Uuid} {terms : Terms} {net : ℚ} {m : MemoryStore} {s : Session}
    (h : Aligned id terms net m s) (client : DbClient) (c : Operation) :
    ∃ line : CreditLine, termsOf line = terms ∧ line.utilized = max 0 net ∧
      ((∃ e, c.posting (some line) = .error e) → (onPostgres client id c s).1.isOk = false ∧
        (onPostgres client id c s).2 = s) ∧
      ∀ p, c.posting (some line) = .ok p → (onPostgres client id c s).1.isOk = true ∧
        (onPostgres client id c s).2 = afterPosting s id p := by
  obtain ⟨r,hl,hlim,hst⟩ := h.row
  have hrun : onPostgres client id c s = _ :=
    (congrArg (fun t => Task.complete exec none 0 t s)
      (Operation.task_eq (service client) id c)).trans
      (mutate_complete client c.posting h.idle hl h.fresh)
  have hwithin : max 0 (s.durable.utilizedSum id) ≤ r.creditLimit := by
    rw [h.ledger,hlim]
    exact h.within
  use lineFrom r terms.walletAddress (s.durable.utilizedSum id)
  refine ⟨?_,?_,?_,?_⟩
  · simp [termsOf,lineFrom,toCreditLine,hlim,hst]
  · rw [(lineFrom_balances _ hwithin).1,h.ledger]
  · intro he
    obtain ⟨e,he⟩ := he
    rw [he] at hrun
    rw [hrun]
    exact ⟨rfl,rfl⟩
  · intro p hp
    rw [hp] at hrun
    rw [hrun]
    exact ⟨rfl,rfl⟩

/-- A ledger row of the line moves the sum and nothing else that is read. -/
theorem Aligned.insert {id : Uuid} {terms : Terms} {net net' : ℚ} {m m' : MemoryStore}
    {s : Session} (h : Aligned id terms net m s) {p : Posting} {line : CreditLine}
    (hm : m'.creditLines id = some line) (hterms : termsOf line = terms)
    (hu : line.utilized = max 0 net') (ha : line.availableCredit = terms.creditLimit - max 0 net')
    (hnet : net + Database.signedAmount (rowOf s id p) = net')
    (hwithin : max 0 net' ≤ terms.creditLimit) :
    Aligned id terms net' m' (afterPosting s id p) where
  stored := ⟨line,hm,hterms,hu,ha⟩
  row := by
    obtain ⟨r,hl,hr⟩ := h.row
    refine ⟨r,?_,hr⟩
    rw [afterPosting_durable h.idle,lineById_append,hl]
  ledger := by
    rw [← hnet,← h.ledger,afterPosting_durable h.idle]
    exact utilizedSum_append s.durable 0 id (rowOf s id p) rfl rfl
  within := hwithin
  idle := afterPosting_idle h.idle id p
  fresh := by
    intro t ht
    rw [afterPosting_durable h.idle,transactions_append,List.mem_append,List.mem_singleton] at ht
    simp only [afterPosting,Session.insert]
    cases ht with
    | inl hold => exact Nat.lt_succ_of_lt (h.fresh t hold)
    | inr hnew =>
        rw [hnew]
        exact Nat.lt_succ_self s.nextId

/-- The decision looks at the terms and the balance only. -/
theorem posting_congr {l l' : CreditLine} (ht : termsOf l = termsOf l')
    (hu : l.utilized = l'.utilized) (c : Operation) :
    c.posting (some l) = c.posting (some l') := by
  simp only [termsOf,Terms.mk.injEq] at ht
  obtain ⟨hw,hl,hs⟩ := ht
  cases c with
  | draw borrowerId amount => simp only [Operation.posting,drawPosting,hw,hl,hs,hu]
  | repay wallet amount => simp only [Operation.posting,repayPosting,hu]

section Step
variable {id : Uuid} {terms : Terms} {net : ℚ} {m : MemoryStore} {s : Session}

/-- An admitted call on both backends, for any balance it posts. -/
theorem Aligned.admitted (h : Aligned id terms net m s) (client : DbClient) {c : Operation}
    {p : Posting} (hp : ∀ line : CreditLine, termsOf line = terms → line.utilized = max 0 net →
      c.posting (some line) = .ok p) :
    (onMemory id c m).1.isOk = (onPostgres client id c s).1.isOk ∧
    (onPostgres client id c s).2 = afterPosting s id p ∧
    ∃ line, (onMemory id c m).2.creditLines id = some line ∧ termsOf line = terms ∧
      line.utilized = p.utilized ∧ line.availableCredit = terms.creditLimit - p.utilized := by
  obtain ⟨line,hm,hterms,hu,-⟩ := h.stored
  have hmemory := onMemory_ok hm (hp line hterms hu)
  obtain ⟨line',hterms',hu',-,hread⟩ := h.read client c
  obtain ⟨hok',hs⟩ := hread p (hp line' hterms' hu')
  rw [hmemory]
  refine ⟨hok'.symm,hs,_,Function.update_self ..,hterms,rfl,?_⟩
  rw [← hterms]
  rfl

/-- A call other than a draw in credit keeps the backends aligned. -/
theorem Aligned.step (h : Aligned id terms net m s) (client : DbClient) {c : Operation}
    (hc : ∀ borrowerId amount, c = .draw borrowerId (some amount) →
      Accepts terms net borrowerId amount → 0 ≤ net) :
    (onMemory id c m).1.isOk = (onPostgres client id c s).1.isOk ∧
      Aligned id terms (netAfter terms net c) (onMemory id c m).2
        (onPostgres client id c s).2 := by
  obtain ⟨line,hm,hterms,hu,ha⟩ := h.stored
  have hcongr : ∀ line' : CreditLine, termsOf line' = terms → line'.utilized = max 0 net →
      c.posting (some line') = c.posting (some line) := by
    intro line' ht' hu'
    exact posting_congr (ht'.trans hterms.symm) (hu'.trans hu.symm) c
  rcases posting_cases hterms hu c with ⟨⟨e,he⟩,hnet,-⟩ | ⟨b,a,rfl,hacc,hp⟩ | ⟨w,a,rfl,hpos,hp⟩
  · have hmemory : onMemory id c m = (.error e,(m.findById 0 id).2) :=
      onMemory_error (by rw [hm,he])
    obtain ⟨line',hterms',hu',hread,-⟩ := h.read client c
    obtain ⟨hres',hs⟩ := hread ⟨e,(hcongr line' hterms' hu').trans he⟩
    rw [hmemory,hres',hs,hnet]
    exact ⟨rfl,{ h with stored := ⟨line,hm,hterms,hu,ha⟩ }⟩
  · have h0 : 0 ≤ net := hc b a rfl hacc
    have hnext : max 0 (net + a) = max 0 net + a := by
      rw [max_eq_right h0,max_eq_right (add_nonneg h0 hacc.2.2.1.le)]
    obtain ⟨hok,hs,l,hl,ht,hlu,hla⟩ := h.admitted client (fun line' ht' hu' =>
      (hcongr line' ht' hu').trans hp)
    refine ⟨hok,?_⟩
    rw [hs]
    have hafter : netAfter terms net (.draw b (some a)) = net + a := if_pos hacc
    rw [hafter]
    exact h.insert hl ht (hlu.trans hnext.symm) (hla.trans (by rw [hnext])) rfl
      (by rw [hnext]; exact hacc.2.2.2)
  · have hnext : max 0 (net - a) = max 0 (max 0 net - a) := by
      cases le_total 0 net with
      | inl h0 => rw [max_eq_right h0]
      | inr h0 =>
          rw [max_eq_left h0,max_eq_left (by linarith),max_eq_left (by linarith)]
    obtain ⟨hok,hs,l,hl,ht,hlu,hla⟩ := h.admitted client (fun line' ht' hu' =>
      (hcongr line' ht' hu').trans hp)
    refine ⟨hok,?_⟩
    rw [hs]
    have hafter : netAfter terms net (.repay w (some a)) = net - a := if_pos hpos
    have hwithin : max 0 (net - a) ≤ terms.creditLimit :=
      (max_le_max le_rfl (by linarith)).trans h.within
    rw [hafter]
    exact h.insert hl ht (hlu.trans hnext.symm) (hla.trans (by rw [hnext]))
      (sub_eq_add_neg net a).symm hwithin

/-- An accepted draw in credit is reported differently by the two backends. -/
theorem Aligned.apart (h : Aligned id terms net m s) (client : DbClient) {b : String} {a : ℚ}
    (hacc : Accepts terms net b a) (hneg : net < 0) :
    memoryReport id (onMemory id (.draw b (some a)) m).2 ≠
      postgresReport client id (onPostgres client id (.draw b (some a)) s).2 := by
  have hpost : ∀ line : CreditLine, termsOf line = terms → line.utilized = max 0 net →
      (Operation.draw b (some a)).posting (some line) = .ok ⟨.borrow,a,max 0 net + a⟩ := by
    intro line ht hu
    obtain ⟨-,-,hno⟩ | ⟨_,_,hcall,-,hp⟩ | ⟨_,_,hcall,-⟩ :=
      posting_cases ht hu (.draw b (some a))
    · exact absurd hacc (hno b a rfl)
    · cases hcall
      exact hp
    · cases hcall
  obtain ⟨-,hs,l,hl,-,hlu,-⟩ := h.admitted client hpost
  obtain ⟨r,hrow,hlim,-⟩ := h.row
  have hzero : max 0 net = 0 := max_eq_left hneg.le
  have hlt : max 0 (net + a) < a := max_lt hacc.2.2.1 (by linarith)
  have hle : a ≤ terms.creditLimit := by
    have hfits := hacc.2.2.2
    rwa [hzero,zero_add] at hfits
  have hsum : (afterPosting s id ⟨.borrow,a,max 0 net + a⟩).durable.utilizedSum id = net + a := by
    rw [afterPosting_durable h.idle,← h.ledger]
    exact utilizedSum_append s.durable 0 _ _ rfl rfl
  have hreport := postgresReport_eq client
    (s := afterPosting s id ⟨.borrow,a,max 0 net + a⟩) (afterPosting_idle h.idle id _)
    (by rw [afterPosting_durable h.idle,lineById_append,hrow])
    (by rw [hsum,hlim]; exact hlt.le.trans hle)
  rw [hs,memoryReport_eq hl,hreport,hsum,hlu]
  intro heq
  have hfst := congrArg Prod.fst (Option.some.inj heq)
  simp only [hzero,zero_add] at hfst
  exact hlt.ne hfst.symm

end Step

/-- Along a whole sequence of calls. -/
theorem Aligned.agree_iff {id : Uuid} {terms : Terms} {net : ℚ} {m : MemoryStore} {s : Session}
    (h : Aligned id terms net m s) (client : DbClient) (calls : List Operation) :
    Agree client id m s calls ↔ NoDrawInCredit terms net calls := by
  induction calls generalizing net m s with
  | nil => exact Iff.rfl
  | cons c cs ih =>
      constructor
      · intro hagree
        obtain ⟨-,hreports,hrest⟩ := hagree
        have hc : ∀ b a, c = .draw b (some a) → Accepts terms net b a → 0 ≤ net := by
          intro b a hcall hacc
          by_contra hneg
          subst hcall
          exact h.apart client hacc (not_le.mp hneg) hreports
        exact ⟨hc,(ih (h.step client hc).2).mp hrest⟩
      · intro hno
        obtain ⟨hok,hnext⟩ := h.step client hno.1
        exact ⟨hok,hnext.reports client,(ih hnext).mpr hno.2⟩

/-- From a newly opened line with a positive limit, the backends agree on a
sequence of calls exactly when no accepted draw of it comes in credit. -/
theorem backends_agree_iff_no_draw_in_credit (client : DbClient) (id : Uuid) (terms : Terms)
    (m : MemoryStore) (s : Session) (hopened : Opened id terms m s)
    (hlimit : 0 < terms.creditLimit) (calls : List Operation) :
    Agree client id m s calls ↔ NoDrawInCredit terms 0 calls :=
  (hopened.aligned hlimit).agree_iff client calls

/-- Line 2 of wallet `GA`, limit 100, as both backends hold it when opened. -/
def openedTerms : Terms := ⟨"GA",100,.active⟩

def openedStore : MemoryStore :=
  ((⟨fun _ => none,[],2,fun _ => none⟩ : MemoryStore).create ⟨"GA",100,500⟩).2

def openedSession : Session :=
  { durable := [⟨none,.borrower ⟨1,"GA"⟩⟩,⟨none,.creditLine ⟨2,1,100,.active,500,1⟩⟩], nextId := 3 }

theorem opened_example : Opened 2 openedTerms openedStore openedSession where
  stored := ⟨_,rfl,rfl,rfl,rfl⟩
  row := ⟨_,rfl,rfl,rfl⟩
  ledger := by
    intro t ht
    cases ht
  idle := rfl
  fresh := by
    intro t ht
    cases ht

theorem backends_agree_iff_no_draw_in_credit_overpaid :
    Opened 2 openedTerms openedStore openedSession ∧ 0 < openedTerms.creditLimit ∧
    (Agree ⟨⟩ 2 openedStore openedSession
      [.draw "GA" (some 10),.repay "GA" (some 20),.draw "GA" (some 101)] ↔
      NoDrawInCredit openedTerms 0
        [.draw "GA" (some 10),.repay "GA" (some 20),.draw "GA" (some 101)]) := by
  have hlimit : 0 < openedTerms.creditLimit := by decide +kernel
  exact ⟨opened_example,hlimit,backends_agree_iff_no_draw_in_credit ⟨⟩ 2 openedTerms openedStore
    openedSession opened_example hlimit _⟩

/-- Draw 10, repay 20, draw 15: the memory store reports 15 utilized, Postgres 5. -/
theorem overpayment_is_credited_on_postgres_only :
    Opened 2 openedTerms openedStore openedSession ∧ 0 < openedTerms.creditLimit ∧
    ¬ Agree ⟨⟩ 2 openedStore openedSession
      [.draw "GA" (some 10),.repay "GA" (some 20),.draw "GA" (some 15)] := by
  have hlimit : 0 < openedTerms.creditLimit := by decide +kernel
  have hapart : ¬ Agree ⟨⟩ 2 openedStore openedSession
      [.draw "GA" (some 10),.repay "GA" (some 20),.draw "GA" (some 15)] := by decide +kernel
  exact ⟨opened_example,hlimit,hapart⟩

end Creditra.LedgerBalances
