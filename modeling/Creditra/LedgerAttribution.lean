import Creditra.ComplianceExports
import Creditra.GuardedRuns
import Creditra.LedgerBalances
import Creditra.SortedListings
import Creditra.TransactionAtomicity
import Mathlib.Data.List.Sort

/-!
# The wallet of a ledger row

`findByWalletAddress` of the two transaction repositories, after any sequence of
calls of the service. The Postgres repository joins a row with its line and the
line's borrower. The in-memory one compares a copy of the wallet that it stores
as the empty text, for a layer above to fill in; no layer does. So it finds no
row for any wallet, and every row for the empty one.

The rows a call has written are read off its answer: a draw or a repayment that
succeeds has written one row, under the wallet of the line it returns.
-/
namespace Creditra.LedgerAttribution
open CreditModels AwaitTasks ComplianceExports CreditLineService GuardedRuns SortedListings
open LedgerBalances PostgresSession PostgresRepositories
open MemoryRepositories (MemoryStore)

/-! ## Sequences of calls -/

inductive Call where
  | create (request : CreateCreditLineRequest)
  | mutate (id : Uuid) (op : Operation)

def Call.task {Q : Type} {R : Q → Type} (svc : Service Q R) : Call → Task Q R Failure CreditLine
  | .create request => svc.createCreditLine request
  | .mutate id op => op.task svc id

/-- Line, amount and type of a ledger row. -/
abbrev LedgerEntry := Uuid × ℚ × TransactionType

def requested (id : Uuid) : Operation → LedgerEntry
  | .draw _ amount => (id,amount.getD 0,.borrow)
  | .repay _ amount => (id,amount.getD 0,.repay)

/-- The row of a draw or repayment that succeeded, with the wallet of the line. -/
def written : Call → Except Failure CreditLine → List (String × LedgerEntry)
  | .mutate id op, .ok line => [(line.walletAddress,requested id op)]
  | _, _ => []

section Runs
variable {σ : Type} (perform : Call → σ → Except Failure CreditLine × σ)

def after (s : σ) (calls : List Call) : σ := run (fun s call => (perform call s).2) s calls

def writtenFrom : σ → List Call → List (String × LedgerEntry)
  | _, [] => []
  | s, call :: calls => written call (perform call s).1 ++ writtenFrom (perform call s).2 calls

end Runs

/-- The rows that belong to a wallet. -/
def ofWallet (walletAddress : String) (rows : List (String × LedgerEntry)) : List LedgerEntry :=
  (rows.filter (·.1 = walletAddress)).map Prod.snd

/-- Reading all pages gives exactly the given rows. -/
def Attributed (pages : ℕ → List Transaction) (rows : List LedgerEntry) : Prop :=
  ∃ found, ReadThrough pages 0 found ∧ (found.map Transaction.entry).Perm rows

theorem attributed_iff {listing : List Transaction} {rows : List LedgerEntry} :
    Attributed (page (fun _ => listing) 100) rows ↔
      (listing.map Transaction.entry).Perm rows := by
  constructor
  · rintro ⟨found,hread,hperm⟩
    rw [(readThrough_iff (by decide)).mp hread] at hperm
    exact hperm
  · intro hperm
    exact ⟨listing,(readThrough_iff (by decide)).mpr rfl,hperm⟩

/-- The pages of an export filtered by a wallet and a window. -/
def exportPages (createdAt : Transaction → ℤ) (findAll : List Transaction)
    (walletAddress : NonEmptyText) (fromMs toMs : ℤ) (limit : ℕ) (k : ℕ) : List Transaction :=
  (exportTransactions createdAt findAll
    { fromMs, toMs, limit := some limit, offset := some (k * clampLimit (some limit)),
      walletAddress := some walletAddress }).rows

/-- The export by wallet shows what is found for the wallet, within the window. -/
def ExportsFound (createdAt : Transaction → ℤ) (findAll : List Transaction)
    (walletAddress : NonEmptyText) (pages : ℕ → List Transaction) : Prop :=
  ∀ fromMs toMs limit, ∃ found exported, ReadThrough pages 0 found ∧
    ReadThrough (exportPages createdAt findAll walletAddress fromMs toMs limit) 0 exported ∧
    exported.Perm (found.filter fun tx => inRange (createdAt tx) fromMs toMs)

theorem exportsFound_of_perm (createdAt : Transaction → ℤ) {findAll listing : List Transaction}
    {walletAddress : NonEmptyText}
    (h : listing.Perm (findAll.filter fun tx => tx.walletAddress = walletAddress.1)) :
    ExportsFound createdAt findAll walletAddress (page (fun _ => listing) 100) := by
  intro fromMs toMs limit
  have hpages : exportPages createdAt findAll walletAddress fromMs toMs limit =
      page (fun _ => (findAll.filter fun tx => tx.walletAddress = walletAddress.1).filter
        fun tx => inRange (createdAt tx) fromMs toMs) (clampLimit (some limit)) := by
    funext k
    rw [exportPages,exportTransactions_rows,page,List.filter_filter]
    congr 3
    funext tx
    simp [TransactionExportQuery.admits,passes]
  refine ⟨listing,_,(readThrough_iff (by decide)).mpr rfl,?_,(h.filter _).symm⟩
  rw [hpages,readThrough_iff (clampLimit_pos _)]

theorem requested_eq {op : Operation} {line : Option CreditLine} {p : Posting}
    (h : op.posting line = .ok p) (id : Uuid) : requested id op = (id,p.amount,p.type) := by
  cases op with
  | draw borrowerId amount =>
      obtain ⟨l,a,-,rfl,-,-,-,-,rfl⟩ := drawPosting_eq_ok h
      rfl
  | repay walletAddress amount =>
      obtain ⟨l,a,-,rfl,-,rfl⟩ := repayPosting_eq_ok h
      rfl

/-! ## In memory -/

section Memory
variable (createdAt : Transaction → ℤ) (localeCompare : Uuid → Uuid → ℤ)

def performInMemory (call : Call) (m : MemoryStore) : Except Failure CreditLine × MemoryStore :=
  (call.task MemoryRepositories.service).complete MemoryRepositories.exec () 0 m

/-- The comparator of `sortByNewest`. -/
def compareNewest (a b : Transaction) : ℤ :=
  let tsDiff := createdAt b - createdAt a
  if tsDiff ≠ 0 then tsDiff else localeCompare a.id b.id

def sortByNewest (transactions : List Transaction) : List Transaction :=
  transactions.insertionSort fun a b => compareNewest createdAt localeCompare a b ≤ 0

namespace InMemory

def findByWalletAddress (m : MemoryStore) (walletAddress : String) (offset : ℕ := 0)
    (limit : ℕ := 100) : List Transaction :=
  let filtered := sortByNewest createdAt localeCompare
    ((m.transactions.map Prod.snd).filter fun tx => tx.walletAddress = walletAddress)
  (filtered.drop offset).take limit

def findAll (m : MemoryStore) : List Transaction :=
  sortByNewest createdAt localeCompare (m.transactions.map Prod.snd)

end InMemory

def emptyStore : MemoryStore := ⟨fun _ => none,[],0,fun _ => none⟩

/-- The call is no draw or repayment on a line of the wallet that passes its checks; for the empty
wallet, on no line at all. -/
def Silent (walletAddress : String) (m : MemoryStore) : Call → Prop
  | .create _ => True
  | .mutate id op => ∀ line p, m.creditLines id = some line → op.posting (some line) = .ok p →
      line.walletAddress ≠ walletAddress ∧ walletAddress ≠ ""

/-- What a call does to the store: nothing to the ledger, or one row without a wallet. -/
inductive Performed (m : MemoryStore) :
    Call → Except Failure CreditLine × MemoryStore → Prop
  | created {request : CreateCreditLineRequest} (wallet : request.walletAddress ≠ "") :
      Performed m (.create request) (.ok (m.create request).1,(m.create request).2)
  | refused {call : Call} {e : Failure} {m' : MemoryStore}
      (silent : ∀ walletAddress, Silent walletAddress m call)
      (transactions : m'.transactions = m.transactions)
      (creditLines : m'.creditLines = m.creditLines) : Performed m call (.error e,m')
  | recorded {id : Uuid} {op : Operation} {line : CreditLine} {p : Posting}
      (found : m.creditLines id = some line) (accepted : op.posting (some line) = .ok p) :
      Performed m (.mutate id op) (LedgerBalances.onMemory id op m)

theorem performed_create (m : MemoryStore) (request : CreateCreditLineRequest) :
    Performed m (.create request) (performInMemory (.create request) m) := by
  simp only [performInMemory,Call.task,Service.createCreditLine]
  split_ifs with hwallet hlimit hrate
  · exact .refused (fun _ => trivial) rfl rfl
  · exact .refused (fun _ => trivial) rfl rfl
  · exact .refused (fun _ => trivial) rfl rfl
  · exact .created hwallet

theorem performed_mutate (m : MemoryStore) (id : Uuid) (op : Operation) :
    Performed m (.mutate id op) (performInMemory (.mutate id op) m) := by
  have hperform : performInMemory (.mutate id op) m = LedgerBalances.onMemory id op m := rfl
  rw [hperform]
  cases hp : op.posting (m.creditLines id) with
  | error e =>
      rw [onMemory_error hp]
      refine .refused ?_ rfl rfl
      intro walletAddress line p hline hok
      rw [hline,hok] at hp
      cases hp
  | ok p =>
      obtain ⟨line,hline⟩ := Operation.posting_some hp
      rw [hline] at hp
      exact .recorded hline hp

theorem performed (m : MemoryStore) (call : Call) : Performed m call (performInMemory call m) := by
  cases call with
  | create request => exact performed_create m request
  | mutate id op => exact performed_mutate m id op

/-- Lines have a wallet, and rows have none. -/
structure Walleted (m : MemoryStore) : Prop where
  lines : ∀ id line, m.creditLines id = some line → line.walletAddress ≠ ""
  rows : ∀ t ∈ m.transactions, t.2.walletAddress = ""

theorem walleted_emptyStore : Walleted emptyStore where
  lines id line h := by cases h
  rows t ht := by cases ht

/-- The entries of the ledger, in the order in which they were appended. -/
def ledger (m : MemoryStore) : List LedgerEntry := m.transactions.map fun t => t.2.entry

section Step
variable {m : MemoryStore} {call : Call} {result : Except Failure CreditLine × MemoryStore}

theorem Performed.walleted (h : Performed m call result) (hm : Walleted m) :
    Walleted result.2 := by
  cases h with
  | created wallet =>
      refine ⟨?_,hm.rows⟩
      intro id line hline
      by_cases hid : id = m.nextId
      · subst hid
        simp only [MemoryStore.create,Function.update_self,Option.some.injEq] at hline
        rw [← hline]
        exact wallet
      · simp only [MemoryStore.create,Function.update_of_ne hid] at hline
        exact hm.lines id line hline
  | refused silent transactions creditLines =>
      constructor
      · rw [creditLines]
        exact hm.lines
      · rw [transactions]
        exact hm.rows
  | @recorded id op line p found accepted =>
      rw [onMemory_ok found accepted]
      constructor
      · intro id' line' hline
        by_cases hid : id' = id
        · subst hid
          simp only [Function.update_self,Option.some.injEq] at hline
          rw [← hline]
          exact hm.lines id' line found
        · simp only [Function.update_of_ne hid] at hline
          exact hm.lines id' line' hline
      · intro t ht
        rcases List.mem_append.mp ht with hold | hnew
        · exact hm.rows t hold
        · rw [List.mem_singleton.mp hnew]

theorem Performed.ledger_eq (h : Performed m call result) :
    ledger result.2 = ledger m ++ (written call result.1).map Prod.snd := by
  cases h with
  | created wallet => exact (List.append_nil _).symm
  | refused silent transactions creditLines =>
      cases call with
      | create request | mutate id op => simp [ledger,transactions,written]
  | recorded found accepted =>
      rw [onMemory_ok found accepted]
      simp [ledger,written,requested_eq accepted,Transaction.entry]

/-- The rows a call writes are those of a wallet unless the call is silent. -/
theorem Performed.silent_iff (h : Performed m call result) (walletAddress : String) :
    Silent walletAddress m call ↔
      ∀ row ∈ written call result.1, row.1 ≠ walletAddress ∧ walletAddress ≠ "" := by
  cases h with
  | created wallet => simp [Silent,written]
  | refused silent transactions creditLines =>
      cases call with
      | create request | mutate id op => simp [silent walletAddress,written]
  | @recorded id op line p found accepted =>
      rw [onMemory_ok found accepted]
      simp only [written,List.mem_singleton,forall_eq]
      constructor
      · intro hsilent
        exact hsilent line p found accepted
      · intro hrow line' p' hline _
        rw [found] at hline
        cases hline
        exact hrow

theorem Performed.wallet_ne (h : Performed m call result) (hm : Walleted m) :
    ∀ row ∈ written call result.1, row.1 ≠ "" := by
  cases h with
  | created wallet => simp [written]
  | refused silent transactions creditLines =>
      cases call with
      | create request | mutate id op => simp [written]
  | @recorded id op line p found accepted =>
      rw [onMemory_ok found accepted]
      simp only [written,List.mem_singleton,forall_eq]
      exact hm.lines id line found

end Step

section Run
variable {m : MemoryStore}

theorem walleted_after (hm : Walleted m) (calls : List Call) :
    Walleted (after performInMemory m calls) := by
  induction calls generalizing m with
  | nil => exact hm
  | cons call calls ih => exact ih ((performed m call).walleted hm)

theorem ledger_after (calls : List Call) :
    ledger (after performInMemory m calls) =
      ledger m ++ (writtenFrom performInMemory m calls).map Prod.snd := by
  induction calls generalizing m with
  | nil => exact (List.append_nil _).symm
  | cons call calls ih =>
      have hstep := (performed m call).ledger_eq
      have hrest : ledger (after performInMemory m (call :: calls)) = _ :=
        ih (m := (performInMemory call m).2)
      rw [hrest,hstep,writtenFrom,List.map_append,List.append_assoc]

theorem wallet_ne_writtenFrom (hm : Walleted m) (calls : List Call) :
    ∀ row ∈ writtenFrom performInMemory m calls, row.1 ≠ "" := by
  induction calls generalizing m with
  | nil =>
      intro row hrow
      cases hrow
  | cons call calls ih =>
      intro row hrow
      rcases List.mem_append.mp hrow with hfirst | hrest
      · exact (performed m call).wallet_ne hm row hfirst
      · exact ih ((performed m call).walleted hm) row hrest

/-- A run of silent calls is one that writes no row of the wallet. -/
theorem guarded_silent_iff (walletAddress : String) (calls : List Call) :
    Guarded (fun m call => (performInMemory call m).2) (Silent walletAddress) m calls ↔
      ∀ row ∈ writtenFrom performInMemory m calls,
        row.1 ≠ walletAddress ∧ walletAddress ≠ "" := by
  induction calls generalizing m with
  | nil => simp [writtenFrom]
  | cons call calls ih =>
      rw [guarded_cons,ih,(performed m call).silent_iff walletAddress,writtenFrom,
        List.forall_mem_append]

end Run

theorem ofWallet_eq_nil_iff {walletAddress : String} {rows : List (String × LedgerEntry)} :
    ofWallet walletAddress rows = [] ↔ ∀ row ∈ rows, row.1 ≠ walletAddress := by
  rw [ofWallet,List.map_eq_nil_iff,List.filter_eq_nil_iff]
  simp only [decide_eq_true_eq]

theorem sortByNewest_perm (transactions : List Transaction) :
    (sortByNewest createdAt localeCompare transactions).Perm transactions :=
  List.perm_insertionSort _ _

theorem Walleted.filter_empty {m : MemoryStore} (h : Walleted m) :
    (m.transactions.map Prod.snd).filter (fun tx => tx.walletAddress = "") =
      m.transactions.map Prod.snd := by
  rw [List.filter_eq_self]
  intro tx htx
  obtain ⟨t,ht,rfl⟩ := List.mem_map.mp htx
  simpa using h.rows t ht

theorem Walleted.filter_ne {m : MemoryStore} (h : Walleted m) {walletAddress : String}
    (hne : walletAddress ≠ "") :
    (m.transactions.map Prod.snd).filter (fun tx => tx.walletAddress = walletAddress) = [] := by
  rw [List.filter_eq_nil_iff]
  intro tx htx
  obtain ⟨t,ht,rfl⟩ := List.mem_map.mp htx
  rw [decide_eq_true_eq,h.rows t ht]
  exact fun heq => hne heq.symm

/-- Under the empty text all rows stand, under a wallet none: what is found are the rows written
for a wallet only where there are none of it. -/
theorem Walleted.found_perm_iff {m : MemoryStore} (h : Walleted m)
    {rows : List (String × LedgerEntry)} (hledger : ledger m = rows.map Prod.snd)
    (hwallets : ∀ row ∈ rows, row.1 ≠ "") (walletAddress : String) :
    (((m.transactions.map Prod.snd).filter fun tx => tx.walletAddress = walletAddress).map
        Transaction.entry).Perm (ofWallet walletAddress rows) ↔
      ∀ row ∈ rows, row.1 ≠ walletAddress ∧ walletAddress ≠ "" := by
  by_cases hempty : walletAddress = ""
  · subst hempty
    have hnone : ofWallet "" rows = [] := ofWallet_eq_nil_iff.mpr hwallets
    have hentries : (m.transactions.map Prod.snd).map Transaction.entry = rows.map Prod.snd := by
      rw [← hledger,List.map_map]
      rfl
    rw [h.filter_empty,hnone,hentries,List.perm_nil,List.map_eq_nil_iff]
    constructor
    · rintro rfl row hrow
      cases hrow
    · intro hsilent
      rw [List.eq_nil_iff_forall_not_mem]
      intro row hrow
      exact (hsilent row hrow).2 rfl
  · rw [h.filter_ne hempty,List.map_nil,List.nil_perm,ofWallet_eq_nil_iff]
    constructor
    · intro hnone row hrow
      exact ⟨hnone row hrow,hempty⟩
    · intro hsilent row hrow
      exact (hsilent row hrow).1

/-- In memory the rows of a wallet are found exactly when there are none. -/
theorem attributed_memory_iff (calls : List Call) (walletAddress : String) :
    Attributed (fun k => InMemory.findByWalletAddress createdAt localeCompare
          (after performInMemory emptyStore calls) walletAddress (k * 100))
        (ofWallet walletAddress (writtenFrom performInMemory emptyStore calls)) ↔
      Guarded (fun m call => (performInMemory call m).2) (Silent walletAddress) emptyStore
        calls := by
  have hfound := (walleted_after walleted_emptyStore calls).found_perm_iff (ledger_after calls)
    (wallet_ne_writtenFrom walleted_emptyStore calls) walletAddress
  have hpages : (fun k => InMemory.findByWalletAddress createdAt localeCompare
      (after performInMemory emptyStore calls) walletAddress (k * 100)) =
        page (fun _ => sortByNewest createdAt localeCompare
          (((after performInMemory emptyStore calls).transactions.map Prod.snd).filter
            fun tx => tx.walletAddress = walletAddress)) 100 := rfl
  rw [guarded_silent_iff,← hfound,hpages,attributed_iff]
  exact ((sortByNewest_perm createdAt localeCompare _).map Transaction.entry).congr_left _

end Memory

/-! ## On Postgres -/

section Postgres

def performOnPostgres (client : DbClient) (call : Call) (s : Session) :
    Except Failure CreditLine × Session :=
  (call.task (service client)).complete exec none 0 s

/-- A row of the ledger joined with its line and borrower. -/
def toModel (d : Database) (t : TransactionRow) : Option Transaction :=
  (d.lineById t.creditLineId).map fun line =>
    ⟨t.id,t.creditLineId,line.2,t.amount,t.type,t.status,t.blockchainTxHash⟩

/-- The joins of `select`, in the order of insertion. -/
def select (d : Database) : List Transaction := d.transactions.filterMap (toModel d)

/-- `ORDER BY t.created_at DESC`, with ties in any order. -/
structure Listing (createdAt : Transaction → ℤ) (rows : List Transaction) where
  order : List Transaction
  perm : order.Perm rows
  newestFirst : order.Pairwise fun a b => createdAt b ≤ createdAt a

/-- `WHERE b.wallet_address = $1`. -/
def whereWallet (d : Database) (walletAddress : String) : List Transaction :=
  (select d).filter fun tx => tx.walletAddress = walletAddress

namespace OnPostgres

def findByWalletAddress {createdAt : Transaction → ℤ} {d : Database} {walletAddress : String}
    (listing : Listing createdAt (whereWallet d walletAddress)) (offset : ℕ := 0)
    (limit : ℕ := 100) : List Transaction :=
  (listing.order.drop offset).take limit

end OnPostgres

def emptySession : Session where
  durable := []
  nextId := 0

/-- No transaction is open, and every row of the ledger has its line and an older identifier. -/
structure Joined (s : Session) : Prop where
  idle : s.working = none
  lines : ∀ t ∈ s.durable.transactions, (s.durable.lineById t.creditLineId).isSome = true
  fresh : ∀ t ∈ s.durable.transactions, t.id < s.nextId

theorem joined_emptySession : Joined emptySession where
  idle := rfl
  lines t ht := by cases ht
  fresh t ht := by cases ht

/-- Borrowers and lines, but no rows of the ledger. -/
def NoTransactions (extra : List Entry) : Prop := Database.transactions extra = []

theorem transactions_append_of_none (d : Database) {extra : List Entry}
    (h : NoTransactions extra) : Database.transactions (d ++ extra) = d.transactions := by
  have happend : Database.transactions (d ++ extra) =
    d.transactions ++ Database.transactions extra := List.filterMap_append
  rw [happend,h,List.append_nil]

/-- A line that is there stays what it is when rows are appended. -/
theorem lineById_append_of_isSome {d : Database} {id : Uuid}
    (h : (d.lineById id).isSome = true) (extra : List Entry) :
    Database.lineById (d ++ extra) id = d.lineById id := by
  obtain ⟨line,hline⟩ := Option.isSome_iff_exists.mp h
  obtain ⟨row,hrow,hborrower⟩ := Option.bind_eq_some_iff.mp hline
  obtain ⟨borrower,hfind,hpair⟩ := Option.map_eq_some_iff.mp hborrower
  have hrows : (Database.creditLines (d ++ extra)).find? (·.id = id) = some row := by
    rw [Database.creditLines,List.filterMap_append,List.find?_append]
    simp only [Database.creditLines] at hrow
    rw [hrow]
    rfl
  have hborrowers : (Database.borrowers (d ++ extra)).find? (·.id = row.borrowerId) =
      some borrower := by
    rw [Database.borrowers,List.filterMap_append,List.find?_append]
    simp only [Database.borrowers] at hfind
    rw [hfind]
    rfl
  rw [hline,Database.lineById,hrows,Option.bind_some,hborrowers,Option.map_some,hpair]

theorem select_append_of_none {s : Session} (h : Joined s) {extra : List Entry}
    (hextra : NoTransactions extra) : select (s.durable ++ extra) = select s.durable := by
  unfold select
  rw [transactions_append_of_none _ hextra]
  apply List.filterMap_congr
  intro t ht
  rw [toModel,lineById_append_of_isSome (h.lines t ht),toModel]

theorem select_append_row (d : Database) (t : TransactionRow) {line : CreditLineRow × String}
    (h : d.lineById t.creditLineId = some line) :
    select (d ++ [entryOf 0 t]) = select d ++
      [⟨t.id,t.creditLineId,line.2,t.amount,t.type,t.status,t.blockchainTxHash⟩] := by
  have hmodel : toModel (d ++ [entryOf 0 t]) = toModel d := by
    funext t'
    rw [toModel,lineById_append,toModel]
  unfold select
  rw [transactions_append,hmodel,List.filterMap_append]
  congr 1
  simp [toModel,h]

/-! ### Opening a line -/

/-- The working copy has grown by borrowers and lines. -/
structure Grown (s s' : Session) (d : Database) : Prop where
  working : ∃ extra, NoTransactions extra ∧ s'.working = some (d ++ extra)
  durable : s'.durable = s.durable
  nextId : s.nextId ≤ s'.nextId

theorem Grown.refl {s : Session} {d : Database} (h : s.working = some d) : Grown s s d where
  working := ⟨[],rfl,by rw [h,List.append_nil]⟩
  durable := rfl
  nextId := Nat.le_refl _

theorem grown_insert {s : Session} {d : Database} (h : s.working = some d) {row : Row}
    (hrow : NoTransactions [⟨some 0,row⟩]) : Grown s (s.insert 0 row) d where
  working := ⟨_,hrow,by simp [Session.insert,h]⟩
  durable := by simp [Session.insert,h]
  nextId := Nat.le_succ _

theorem grown_aborted {s : Session} {d : Database} (h : s.working = some d) (aborted : Bool) :
    Grown s { s with aborted } d where
  working := ⟨[],rfl,by rw [h,List.append_nil]⟩
  durable := rfl
  nextId := Nat.le_refl _

theorem grown_perform {q : Statement} (hq : q.Opens) {s : Session} {d : Database}
    (h : s.working = some d) : Grown s (s.perform 0 q).2 d := by
  cases q with
  | begin | commit | rollback | updateLine _ _ | insertTransaction _ => cases hq
  | selectBorrower _ | selectOpenLine _ | selectWallet _ | selectLine _ | selectUtilized _
  | existsLine _ | selectTransaction _ => exact .refl h
  | insertBorrower walletAddress =>
      simp only [Session.perform]
      split_ifs
      · exact grown_aborted h true
      · exact grown_insert h rfl
  | insertCreditLine borrowerId creditLimit interestRateBps =>
      simp only [Session.perform]
      split_ifs
      · exact grown_aborted h true
      · exact grown_aborted h true
      · exact grown_insert h rfl

theorem grown_execute {q : Statement} (hq : q.Opens) {s : Session} {d : Database}
    (h : s.working = some d) : Grown s (s.execute 0 q).2 d := by
  cases hfailed : s.failed with
  | false =>
      rw [execute_of_live hfailed]
      exact grown_perform hq h
  | true =>
      rw [execute_of_failed hfailed]
      cases q with
      | begin | commit | rollback | updateLine _ _ | insertTransaction _ => cases hq
      | selectBorrower _ | selectOpenLine _ | selectWallet _ | selectLine _ | selectUtilized _
      | existsLine _ | selectTransaction _ | insertBorrower _ | insertCreditLine _ _ _ =>
          exact .refl h

theorem grown_complete {α : Type} {t : SqlTask α} (ht : t.Awaits Statement.Opens) {s : Session}
    {d : Database} (h : s.working = some d) : Grown s (t.complete exec none 0 s).2 d := by
  induction t generalizing s d with
  | done r => exact .refl h
  | await q next ih =>
      have hstep := grown_execute ht.1 h
      obtain ⟨extra,hextra,hworking⟩ := hstep.working
      have hrest := ih (s.execute 0 q).1 (ht.2 _) hworking
      obtain ⟨more,hmore,hend⟩ := hrest.working
      constructor
      · refine ⟨extra ++ more,?_,?_⟩
        · exact (transactions_append_of_none extra hmore).trans hextra
        · rw [← List.append_assoc]
          exact hend
      · exact hrest.durable.trans hstep.durable
      · exact hstep.nextId.trans hrest.nextId

/-- Work that rejects leaves nothing durable. -/
theorem transaction_rejected (client : DbClient) {work : SqlTask CreditLine} {e : Failure}
    {s s' : Session} (hidle : s.working = none)
    (hwork : work.complete exec none 0 { s with working := some s.visible, aborted := false } =
      (.error e,s')) :
    (createDbTransactionRunner client work).complete exec none 0 s =
      (.error e,{ s' with working := none }) := by
  rw [transaction_eq client work hidle,hwork]

/-- What `COMMIT` makes durable of a working copy. -/
theorem commit_cases {s : Session} {d : Database} (h : s.working = some d) :
    (s.execute 0 .commit).2 = { s with working := none } ∨
      (s.execute 0 .commit).2 = { s with durable := d, working := none } := by
  cases hfailed : s.failed with
  | false =>
      rw [execute_of_live hfailed]
      refine .inr ?_
      simp [Session.perform,Session.visible,h]
  | true =>
      rw [execute_of_failed hfailed]
      exact .inl rfl

/-! ### One call -/

/-- What a call does to the tables: borrowers and lines are added, or one row of the ledger. -/
inductive Settled (s : Session) : Call → Except Failure CreditLine × Session → Prop
  | opened {call : Call} {answer : Except Failure CreditLine} {s' : Session} {extra : List Entry}
      (silent : written call answer = []) (extraRows : NoTransactions extra)
      (durable : s'.durable = s.durable ++ extra) (idle : s'.working = none)
      (nextId : s.nextId ≤ s'.nextId) : Settled s call (answer,s')
  | recorded {id : Uuid} {op : Operation} {row : CreditLineRow} {walletAddress : String}
      {p : Posting} {line : CreditLine} (found : s.durable.lineById id = some (row,walletAddress))
      (accepted : op.posting (some line) = .ok p) {net : ℚ} :
      Settled s (.mutate id op)
        (.ok (lineFrom row walletAddress net),afterPosting s id p)

section Call
variable {s : Session} (client : DbClient)

theorem settled_unchanged {call : Call} {e : Failure} (h : Joined s) :
    Settled s call (.error e,s) := by
  have hsilent : written call (.error e) = [] := by
    cases call with
    | create request | mutate id op => rfl
  have hnone : NoTransactions [] := rfl
  exact .opened hsilent hnone (List.append_nil _).symm h.idle (Nat.le_refl _)

theorem settled_create (h : Joined s) (request : CreateCreditLineRequest) :
    Settled s (.create request) (performOnPostgres client (.create request) s) := by
  simp only [performOnPostgres,Call.task,Service.createCreditLine]
  split_ifs
  · exact settled_unchanged h
  · exact settled_unchanged h
  · exact settled_unchanged h
  · have hgrown := grown_complete (TransactionAtomicity.create_line_awaits request)
      (s := { s with working := some s.visible, aborted := false }) rfl
    have hvisible : s.visible = s.durable := by simp [Session.visible,h.idle]
    obtain ⟨extra,hextra,hworking⟩ := hgrown.working
    cases hwork : (PostgresCreditLineRepository.create request).complete exec none 0
        { s with working := some s.visible, aborted := false } with
    | mk answer s' =>
        rw [hwork] at hgrown hworking
        cases answer with
        | error e =>
            have hrun := transaction_rejected client h.idle hwork
            simp only [service,PostgresCreditLineRepository.repository] at hrun ⊢
            rw [hrun]
            have hnone : NoTransactions [] := rfl
            refine .opened rfl hnone ?_ rfl hgrown.nextId
            rw [List.append_nil]
            exact hgrown.durable
        | ok line =>
            have hrun := transaction_eq client (PostgresCreditLineRepository.create request) h.idle
            rw [hwork] at hrun
            simp only [service,PostgresCreditLineRepository.repository] at hrun ⊢
            rw [hrun]
            rcases commit_cases hworking with hend | hend
            · have hnone : NoTransactions [] := rfl
              rw [hend]
              refine .opened rfl hnone ?_ rfl hgrown.nextId
              rw [List.append_nil]
              exact hgrown.durable
            · rw [hend]
              refine .opened rfl hextra ?_ rfl hgrown.nextId
              rw [← hvisible]

theorem findById_missing {id : Uuid} (hidle : s.working = none)
    (h : s.visible.lineById id = none) :
    (PostgresCreditLineRepository.findById id).complete exec none 0 s = (.ok none,s) := by
  unfold PostgresCreditLineRepository.findById
  rw [Task.complete_bind,query_complete,execute_of_live (failed_of_idle hidle)]
  simp only [Session.perform,h,Except.mapError]
  rfl

theorem settled_mutate (h : Joined s) (id : Uuid) (op : Operation) :
    Settled s (.mutate id op) (performOnPostgres client (.mutate id op) s) := by
  have hvisible : s.visible = s.durable := by simp [Session.visible,h.idle]
  simp only [performOnPostgres,Call.task,Operation.task_eq]
  cases hline : s.durable.lineById id with
  | none =>
      cases hp : op.posting none with
      | ok p =>
          obtain ⟨line,hline⟩ := Operation.posting_some hp
          cases hline
      | error e =>
          have hanswer : ((service client).mutate id op.posting).complete exec none 0 s =
              (.error e,s) := by
            unfold Service.mutate
            simp only [service,PostgresCreditLineRepository.repository]
            rw [Task.complete_bind,findById_missing h.idle (by rw [hvisible,hline])]
            simp only [hp]
            rfl
          rw [hanswer]
          exact settled_unchanged h
  | some found =>
      obtain ⟨row,walletAddress⟩ := found
      rw [mutate_complete client op.posting h.idle hline h.fresh]
      cases hp : op.posting (some (lineFrom row walletAddress (s.durable.utilizedSum id))) with
      | error e => exact settled_unchanged h
      | ok p => exact .recorded hline hp

theorem settled (h : Joined s) (call : Call) :
    Settled s call (performOnPostgres client call s) := by
  cases call with
  | create request => exact settled_create client h request
  | mutate id op => exact settled_mutate client h id op

end Call

section Tables
variable {s : Session} {call : Call} {result : Except Failure CreditLine × Session}

theorem Settled.joined (h : Settled s call result) (hs : Joined s) : Joined result.2 := by
  cases h with
  | opened silent extraRows durable idle nextId =>
      refine ⟨idle,?_,?_⟩
      · intro t ht
        rw [durable,transactions_append_of_none _ extraRows] at ht
        rw [durable,lineById_append_of_isSome (hs.lines t ht)]
        exact hs.lines t ht
      · intro t ht
        rw [durable,transactions_append_of_none _ extraRows] at ht
        exact Nat.lt_of_lt_of_le (hs.fresh t ht) nextId
  | @recorded id op row walletAddress p line found accepted net =>
      have hdurable := afterPosting_durable hs.idle id p
      refine ⟨afterPosting_idle hs.idle id p,?_,?_⟩
      · intro t ht
        rw [hdurable,transactions_append] at ht
        rw [hdurable,lineById_append]
        rcases List.mem_append.mp ht with hold | hnew
        · exact hs.lines t hold
        · rw [List.mem_singleton.mp hnew]
          exact Option.isSome_iff_exists.mpr ⟨_,found⟩
      · intro t ht
        rw [hdurable,transactions_append] at ht
        rcases List.mem_append.mp ht with hold | hnew
        · exact Nat.lt_succ_of_lt (hs.fresh t hold)
        · rw [List.mem_singleton.mp hnew]
          exact Nat.lt_succ_self s.nextId

/-- A row with the wallet the join has found for it. -/
def keyed (tx : Transaction) : String × LedgerEntry := (tx.walletAddress,tx.entry)

theorem Settled.select_eq (h : Settled s call result) (hs : Joined s) :
    (select result.2.durable).map keyed =
      (select s.durable).map keyed ++ written call result.1 := by
  cases h with
  | opened silent extraRows durable idle nextId =>
      rw [durable,select_append_of_none hs extraRows,silent,List.append_nil]
  | @recorded id op row walletAddress p line found accepted net =>
      rw [afterPosting_durable hs.idle,select_append_row s.durable (rowOf s id p) found,
        List.map_append]
      simp only [written,requested_eq accepted]
      rfl

variable (client : DbClient)

/-- The joined ledger is what the calls have written, under the wallets of their lines. -/
theorem select_after (hs : Joined s) (calls : List Call) :
    (select (after (performOnPostgres client) s calls).durable).map keyed =
      (select s.durable).map keyed ++ writtenFrom (performOnPostgres client) s calls := by
  induction calls generalizing s with
  | nil => exact (List.append_nil _).symm
  | cons call calls ih =>
      have hstep := settled client hs call
      have hrest : (select (after (performOnPostgres client) s (call :: calls)).durable).map keyed =
        _ := ih (hstep.joined hs)
      rw [hrest,hstep.select_eq hs,writtenFrom,List.append_assoc]

end Tables

theorem entry_filter (rows : List Transaction) (walletAddress : String) :
    (rows.filter fun tx => tx.walletAddress = walletAddress).map Transaction.entry =
      ofWallet walletAddress (rows.map keyed) := by
  rw [ofWallet,List.filter_map,List.map_map]
  rfl

/-- On Postgres the rows of a wallet are found whatever was called. -/
theorem attributed_postgres (client : DbClient) (calls : List Call) (walletAddress : String)
    {createdAt : Transaction → ℤ}
    (listing : Listing createdAt (whereWallet
      (after (performOnPostgres client) emptySession calls).durable walletAddress)) :
    Attributed (fun k => OnPostgres.findByWalletAddress listing (k * 100))
      (ofWallet walletAddress (writtenFrom (performOnPostgres client) emptySession calls)) := by
  have hselect : (select (after (performOnPostgres client) emptySession calls).durable).map keyed =
    writtenFrom (performOnPostgres client) emptySession calls :=
      select_after client joined_emptySession calls
  have hpages : (fun k => OnPostgres.findByWalletAddress listing (k * 100)) =
    page (fun _ => listing.order) 100 := rfl
  rw [hpages,attributed_iff,← hselect,← entry_filter]
  exact listing.perm.map Transaction.entry

end Postgres

/-- The rows of a wallet are found in memory as long as no draw or repayment of the wallet
succeeds, and on Postgres always; the export by wallet shows what is found. -/
theorem ledger_attributed_iff (createdAt : Transaction → ℤ) (calls : List Call) :
    (∀ (localeCompare : Uuid → Uuid → ℤ) (walletAddress : String),
      Attributed (fun k => InMemory.findByWalletAddress createdAt localeCompare
          (after performInMemory emptyStore calls) walletAddress (k * 100))
        (ofWallet walletAddress (writtenFrom performInMemory emptyStore calls)) ↔
      Guarded (fun m call => (performInMemory call m).2) (Silent walletAddress) emptyStore
        calls) ∧
    (∀ (localeCompare : Uuid → Uuid → ℤ) (walletAddress : NonEmptyText),
      ExportsFound createdAt
        (InMemory.findAll createdAt localeCompare (after performInMemory emptyStore calls))
        walletAddress
        fun k => InMemory.findByWalletAddress createdAt localeCompare
          (after performInMemory emptyStore calls) walletAddress.1 (k * 100)) ∧
    (∀ (client : DbClient) (walletAddress : String) (listing : Listing createdAt (whereWallet
          (after (performOnPostgres client) emptySession calls).durable walletAddress)),
      Attributed (fun k => OnPostgres.findByWalletAddress listing (k * 100))
        (ofWallet walletAddress (writtenFrom (performOnPostgres client) emptySession calls))) ∧
    ∀ (client : DbClient) (walletAddress : NonEmptyText) (listing : Listing createdAt (whereWallet
          (after (performOnPostgres client) emptySession calls).durable walletAddress.1))
        (findAll : Listing createdAt
          (select (after (performOnPostgres client) emptySession calls).durable)),
      ExportsFound createdAt findAll.order walletAddress
        fun k => OnPostgres.findByWalletAddress listing (k * 100) := by
  refine ⟨?_,?_,?_,?_⟩
  · intro localeCompare walletAddress
    exact attributed_memory_iff createdAt localeCompare calls walletAddress
  · intro localeCompare walletAddress
    apply exportsFound_of_perm
    have hall := sortByNewest_perm createdAt localeCompare
      ((after performInMemory emptyStore calls).transactions.map Prod.snd)
    exact (sortByNewest_perm createdAt localeCompare _).trans (hall.filter _).symm
  · intro client walletAddress listing
    exact attributed_postgres client calls walletAddress listing
  · intro client walletAddress listing findAll
    apply exportsFound_of_perm
    exact listing.perm.trans (findAll.perm.filter _).symm

/-- A line is opened and drawn on. -/
def drawnOnce : List Call :=
  [.create ⟨"alice",1000,500⟩,.mutate 0 (.draw "alice" (some 100))]

theorem drawn_row_not_found :
    writtenFrom performInMemory emptyStore drawnOnce = [("alice",0,100,.borrow)] ∧
    ¬ Attributed (fun k => InMemory.findByWalletAddress (fun tx => tx.id) (fun a b => a - b)
        (after performInMemory emptyStore drawnOnce) "alice" (k * 100))
      (ofWallet "alice" (writtenFrom performInMemory emptyStore drawnOnce)) := by
  have hrows : writtenFrom performInMemory emptyStore drawnOnce =
    [("alice",0,100,.borrow)] := by decide +kernel
  refine ⟨hrows,?_⟩
  rw [attributed_memory_iff,guarded_silent_iff,hrows]
  simp

end Creditra.LedgerAttribution
