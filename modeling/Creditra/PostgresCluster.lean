import Creditra.AwaitTasks
import Creditra.PostgresSession

/-!
# Several Postgres sessions

Each session has its own transaction. A statement sees the committed rows and
those of its own transaction. A unique index looks further: an insertion that
meets a row of another open transaction waits until that one ends, and one that
meets a row it can see fails.

A failed statement makes its transaction fail: nothing of it is kept, and every
statement is refused until the transaction ends. A `COMMIT` then ends it as a
`ROLLBACK` would. The statements are those of opening a credit line.
-/
namespace Creditra.PostgresCluster
open CreditModels AwaitTasks
open PostgresSession (BorrowerRow CreditLineRow)

structure Tables where
  borrowers : List BorrowerRow := []
  creditLines : List CreditLineRow := []
  deriving DecidableEq

def Tables.append (t u : Tables) : Tables :=
  ⟨t.borrowers ++ u.borrowers,t.creditLines ++ u.creditLines⟩

inductive Transaction where
  | idle
  | running (own : Tables)
  | failed
  deriving DecidableEq

def Transaction.own : Transaction → Tables
  | .running own => own
  | _ => {}

/-- The unique indexes, by the columns they are over. -/
inductive UniqueIndex where
  | borrowersWalletAddressKey | creditLinesOneOpenPerBorrower
  deriving DecidableEq

inductive SqlError where
  | uniqueViolation (index : UniqueIndex)
  | foreignKeyViolation
  | inFailedTransaction
  deriving DecidableEq

inductive Statement where
  | begin | commit | rollback
  | selectBorrower (walletAddress : String)
  | insertBorrower (walletAddress : String)
  | selectOpenLine (borrowerId : Uuid)
  | insertCreditLine (borrowerId : Uuid) (creditLimit : ℚ) (interestRateBps : ℤ)
  | selectWallet (borrowerId : Uuid)
  deriving DecidableEq

namespace Statement

abbrev Rows : Statement → Type
  | begin | commit | rollback => Unit
  | selectBorrower _ => Option Uuid
  | insertBorrower _ => Uuid
  | selectOpenLine _ => Option CreditLineStatus
  | insertCreditLine _ _ _ => CreditLineRow
  | selectWallet _ => Option String

abbrev Answer (q : Statement) : Type := Except SqlError q.Rows

end Statement

namespace Tables

def borrowerOf (t : Tables) (walletAddress : String) : Option Uuid :=
  (t.borrowers.find? (·.walletAddress = walletAddress)).map (·.id)

def openLine (t : Tables) (borrowerId : Uuid) : Option CreditLineStatus :=
  (t.creditLines.find? fun row => row.borrowerId = borrowerId ∧ row.status ≠ .closed).map (·.status)

def walletOf (t : Tables) (borrowerId : Uuid) : Option String :=
  (t.borrowers.find? (·.id = borrowerId)).map (·.walletAddress)

/-- The index under which a row to be inserted is taken, if any. -/
def conflict (t : Tables) : Statement → Option UniqueIndex
  | .insertBorrower walletAddress =>
      if (t.borrowerOf walletAddress).isSome then some .borrowersWalletAddressKey else none
  | .insertCreditLine borrowerId _ _ =>
      if (t.openLine borrowerId).isSome then some .creditLinesOneOpenPerBorrower else none
  | _ => none

end Tables

/-- What is committed, and the transaction of each of the `count` sessions. -/
structure Cluster where
  committed : Tables
  transactions : ℕ → Transaction
  count : ℕ
  nextId : Uuid

namespace Cluster

/-- What a statement of session `i` sees. -/
def visible (c : Cluster) (i : ℕ) : Tables := c.committed.append (c.transactions i).own

def put (c : Cluster) (i : ℕ) (t : Transaction) : Cluster :=
  { c with transactions := Function.update c.transactions i t }

/-- Outside a transaction rows are committed at once. -/
def insert (c : Cluster) (i : ℕ) (rows : Tables) : Cluster :=
  match c.transactions i with
  | .running own => { c.put i (.running (own.append rows)) with nextId := c.nextId + 1 }
  | _ => { c with committed := c.committed.append rows, nextId := c.nextId + 1 }

/-- Outside a transaction there is nothing to fail. -/
def fail (c : Cluster) (i : ℕ) : Cluster :=
  match c.transactions i with
  | .running _ => c.put i .failed
  | _ => c

/-- An insertion that waits for another session's transaction to end. -/
def waits (c : Cluster) (i : ℕ) (q : Statement) : Bool :=
  c.transactions i ≠ .failed && ((c.visible i).conflict q).isNone &&
    (List.range c.count).any fun j => j ≠ i && ((c.transactions j).own.conflict q).isSome

/-- A statement in a transaction that has not failed. -/
def perform (c : Cluster) (i : ℕ) : (q : Statement) → q.Answer × Cluster
  | .begin => (.ok (),c.put i (.running (c.transactions i).own))
  | .commit => (.ok (),{ c.put i .idle with committed := c.visible i })
  | .rollback => (.ok (),c.put i .idle)
  | .selectBorrower walletAddress => (.ok ((c.visible i).borrowerOf walletAddress),c)
  | .insertBorrower walletAddress =>
      match (c.visible i).conflict (.insertBorrower walletAddress) with
      | some index => (.error (.uniqueViolation index),c.fail i)
      | none => (.ok c.nextId,c.insert i { borrowers := [⟨c.nextId,walletAddress⟩] })
  | .selectOpenLine borrowerId => (.ok ((c.visible i).openLine borrowerId),c)
  | .insertCreditLine borrowerId creditLimit interestRateBps =>
      match (c.visible i).conflict (.insertCreditLine borrowerId creditLimit interestRateBps) with
      | some index => (.error (.uniqueViolation index),c.fail i)
      | none =>
          if ((c.visible i).walletOf borrowerId).isSome then
            let row : CreditLineRow :=
              ⟨c.nextId,borrowerId,creditLimit,.active,interestRateBps,1⟩
            (.ok row,c.insert i { creditLines := [row] })
          else (.error .foreignKeyViolation,c.fail i)
  | .selectWallet borrowerId => (.ok ((c.visible i).walletOf borrowerId),c)

/-- A statement in a failed transaction: everything but its end is refused. -/
def refuse (c : Cluster) (i : ℕ) : (q : Statement) → q.Answer × Cluster
  | .commit => (.ok (),c.put i .idle)
  | .rollback => (.ok (),c.put i .idle)
  | _ => (.error .inFailedTransaction,c)

def execute (c : Cluster) (i : ℕ) (q : Statement) : q.Answer × Cluster :=
  if c.transactions i = .failed then c.refuse i q else c.perform i q

end Cluster

/-! ## What a statement leaves alone -/

/-- A borrower with the identifier is there. -/
def Tables.HasBorrower (t : Tables) (borrowerId : Uuid) : Prop :=
  ∃ row ∈ t.borrowers, row.id = borrowerId

theorem walletOf_isSome {t : Tables} {borrowerId : Uuid} :
    (t.walletOf borrowerId).isSome = true ↔ t.HasBorrower borrowerId := by
  unfold Tables.walletOf Tables.HasBorrower
  rw [Option.isSome_map,List.find?_isSome]
  simp only [decide_eq_true_eq]

theorem hasBorrower_of_borrowerOf {t : Tables} {walletAddress : String} {borrowerId : Uuid}
    (h : t.borrowerOf walletAddress = some borrowerId) : t.HasBorrower borrowerId := by
  obtain ⟨row,hrow,hid⟩ := Option.map_eq_some_iff.mp h
  exact ⟨row,List.mem_of_find?_eq_some hrow,hid⟩

section Frame
variable {c : Cluster} {i j : ℕ} {q : Statement}

theorem execute_of_failed (h : c.transactions i = .failed) : c.execute i q = c.refuse i q :=
  if_pos h

theorem execute_of_running {own : Tables} (h : c.transactions i = .running own) :
    c.execute i q = c.perform i q := by
  unfold Cluster.execute
  rw [h,if_neg (by simp)]

theorem put_other (h : j ≠ i) (t : Transaction) :
    (c.put i t).transactions j = c.transactions j := by
  simp only [Cluster.put,Function.update_of_ne h]

theorem put_self (t : Transaction) : (c.put i t).transactions i = t := by
  simp only [Cluster.put,Function.update_self]

theorem insert_other (h : j ≠ i) (rows : Tables) :
    (c.insert i rows).transactions j = c.transactions j := by
  unfold Cluster.insert
  split
  · exact put_other h _
  · rfl

theorem fail_other (h : j ≠ i) : (c.fail i).transactions j = c.transactions j := by
  unfold Cluster.fail
  split
  · exact put_other h _
  · rfl

/-- Everything a statement of session `i` can do to the cluster. -/
inductive Effect (c : Cluster) (i : ℕ) : Cluster → Prop
  | unchanged : Effect c i c
  | moved (t : Transaction) : Effect c i (c.put i t)
  | committed : Effect c i { c.put i .idle with committed := c.visible i }
  | inserted (rows : Tables) : Effect c i (c.insert i rows)
  | failed : Effect c i (c.fail i)

theorem effect_refuse : Effect c i (c.refuse i q).2 := by
  cases q with
  | commit | rollback => exact .moved _
  | begin | selectBorrower _ | insertBorrower _ | selectOpenLine _ | insertCreditLine _ _ _
  | selectWallet _ => exact .unchanged

theorem effect_perform : Effect c i (c.perform i q).2 := by
  cases q with
  | begin | rollback => exact .moved _
  | commit => exact .committed
  | selectBorrower _ | selectOpenLine _ | selectWallet _ => exact .unchanged
  | insertBorrower walletAddress =>
      simp only [Cluster.perform]
      split
      · exact .failed
      · exact .inserted _
  | insertCreditLine borrowerId creditLimit interestRateBps =>
      simp only [Cluster.perform]
      split
      · exact .failed
      · split
        · exact .inserted _
        · exact .failed

theorem effect_execute : Effect c i (c.execute i q).2 := by
  unfold Cluster.execute
  split
  · exact effect_refuse
  · exact effect_perform

theorem Effect.other {c' : Cluster} (h : Effect c i c') (hne : j ≠ i) :
    c'.transactions j = c.transactions j := by
  cases h with
  | unchanged => rfl
  | moved t => exact put_other hne t
  | committed => exact put_other hne _
  | inserted rows => exact insert_other hne rows
  | failed => exact fail_other hne

/-- The transactions of the other sessions go on as they are. -/
theorem execute_other (h : j ≠ i) : (c.execute i q).2.transactions j = c.transactions j :=
  effect_execute.other h

/-- The committed borrowers of one state are committed in the other. -/
def Cluster.Keeps (c c' : Cluster) : Prop := c.committed.borrowers ⊆ c'.committed.borrowers

theorem keeps_insert (rows : Tables) : c.Keeps (c.insert i rows) := by
  unfold Cluster.insert
  split
  · exact List.Subset.refl _
  · exact List.subset_append_left _ _

theorem keeps_fail : c.Keeps (c.fail i) := by
  unfold Cluster.fail
  split
  · exact List.Subset.refl _
  · exact List.Subset.refl _

theorem Effect.keeps {c' : Cluster} (h : Effect c i c') : c.Keeps c' := by
  cases h with
  | unchanged => exact List.Subset.refl _
  | moved t => exact List.Subset.refl _
  | committed => exact List.subset_append_left _ _
  | inserted rows => exact keeps_insert rows
  | failed => exact keeps_fail

/-- No statement takes a committed borrower away. -/
theorem keeps_execute : c.Keeps (c.execute i q).2 := effect_execute.keeps

/-- What a session sees of the borrowers stays visible while others act. -/
theorem hasBorrower_execute (h : j ≠ i) {borrowerId : Uuid}
    (hb : (c.visible j).HasBorrower borrowerId) :
    ((c.execute i q).2.visible j).HasBorrower borrowerId := by
  obtain ⟨row,hrow,hid⟩ := hb
  refine ⟨row,?_,hid⟩
  simp only [Cluster.visible,Tables.append,execute_other h] at hrow ⊢
  rcases List.mem_append.mp hrow with hcommitted | hown
  · exact List.mem_append_left _ (keeps_execute hcommitted)
  · exact List.mem_append_right _ hown

theorem insert_running {own rows : Tables} (h : c.transactions i = .running own) :
    (c.insert i rows).transactions i = .running (own.append rows) := by
  unfold Cluster.insert
  rw [h]
  exact put_self _

/-- In a transaction the rows seen are those from before and the new ones. -/
theorem visible_insert {own rows : Tables} (h : c.transactions i = .running own) :
    ((c.insert i rows).visible i).borrowers = (c.visible i).borrowers ++ rows.borrowers := by
  have hcommitted : (c.insert i rows).committed = c.committed := by
    unfold Cluster.insert
    rw [h]
    rfl
  simp only [Cluster.visible,Tables.append,hcommitted,insert_running h,h,Transaction.own,
    List.append_assoc]

theorem fail_running {own : Tables} (h : c.transactions i = .running own) :
    (c.fail i).transactions i = .failed := by
  unfold Cluster.fail
  rw [h]
  exact put_self _

theorem conflict_insertBorrower {t : Tables} {walletAddress : String} :
    t.conflict (.insertBorrower walletAddress) = none ↔ t.borrowerOf walletAddress = none := by
  simp only [Tables.conflict]
  cases t.borrowerOf walletAddress with
  | none => simp
  | some id => simp

theorem conflict_insertCreditLine {t : Tables} {borrowerId : Uuid} {creditLimit : ℚ}
    {interestRateBps : ℤ} :
    t.conflict (.insertCreditLine borrowerId creditLimit interestRateBps) = none ↔
      t.openLine borrowerId = none := by
  simp only [Tables.conflict]
  cases t.openLine borrowerId with
  | none => simp
  | some status => simp

end Frame

def exec : Exec Statement Statement.Answer Cluster Unit := fun _ i q c => c.execute i q

end Creditra.PostgresCluster
