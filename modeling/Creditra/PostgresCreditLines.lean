import Creditra.MemoryCreditLines

/-!
# The Postgres credit lines with their parameters

`PostgresCreditLineRepository` and the service over it, one call at a time and
every statement answered. The requests are those of the in-memory side: what
the driver sends is a text, and the server refuses a statement with a parameter
that its column cannot hold. Which texts a `NUMERIC` or a `TEXT` column can
hold is the server's; an `INTEGER` column holds whole numbers of four bytes.

Of a row the columns that decide an update stay: borrower, status and version.
The partial unique index is checked by every statement that writes a status.
-/
namespace Creditra.PostgresCreditLines
open CreditModels FloatNumbers InsertionMaps
open MemoryCreditLines (Arithmetic CreateCreditLineRequest UpdateCreditLineRequest Refusal)

/-- What the server can read as a parameter. -/
structure Server (A : Arithmetic) where
  readsNumeric : A.Text → Bool
  readsText : String → Bool

/-- A server that reads every text. -/
def anyText : Server MemoryCreditLines.floats := ⟨fun _ => true,fun _ => true⟩

inductive SqlError where
  | invalidParameter | outOfRange | uniqueViolation | foreignKeyViolation
  deriving DecidableEq

inductive Failure where
  | refused (refusal : Refusal)
  | versionConflict (id : Uuid) (expectedVersion : Value) (actualVersion : ℤ)
  | reference (name : String)
  | database (error : SqlError)
  deriving DecidableEq

structure CreditLineRow where
  borrowerId : Uuid
  status : CreditLineStatus
  version : ℤ
  deriving DecidableEq

/-- The tables, by primary key. `transactions` names the line of each ledger row. -/
structure Tables where
  borrowers : InsertionMap Uuid String
  creditLines : InsertionMap Uuid CreditLineRow
  transactions : List Uuid
  nextId : Uuid

def maxInteger : ℤ := 2147483647

/-- A number as an `INTEGER` parameter. -/
def readInteger : Value → Option ℤ
  | .finite x => if x.1.den = 1 ∧ -2147483648 ≤ x.1.num ∧ x.1.num ≤ maxInteger then some x.1.num
      else none
  | _ => none

theorem readInteger_finite (x : JsNumbers.Double) :
    readInteger (.finite x) =
      if x.1.den = 1 ∧ -2147483648 ≤ x.1.num ∧ x.1.num ≤ maxInteger then some x.1.num else none :=
  rfl

namespace Tables
variable {A : Arithmetic} (server : Server A)

def empty : Tables := ⟨InsertionMap.empty,InsertionMap.empty,[],0⟩

def isOpen (row : CreditLineRow) : Bool := row.status ≠ .closed

/-- Another line of the borrower is not closed. -/
def openElsewhere (t : Tables) (id borrowerId : Uuid) : Bool :=
  t.creditLines.taken CreditLineRow.borrowerId isOpen id borrowerId

/-- The line joined with its borrower's wallet. -/
def findById (t : Tables) (id : Uuid) : Option (CreditLineRow × String) :=
  (t.creditLines.get id).bind fun row =>
    (t.borrowers.get row.borrowerId).map fun walletAddress => (row,walletAddress)

def selectBorrower (t : Tables) (walletAddress : String) : Option Uuid :=
  (t.borrowers.entries.find? (·.2 = walletAddress)).map Prod.fst

/-- The borrower of a wallet, inserted if there is none. -/
def ensureBorrower (t : Tables) (walletAddress : String) : Except SqlError (Uuid × Tables) :=
  if server.readsText walletAddress then
    match t.selectBorrower walletAddress with
    | some id => .ok (id,t)
    | none => .ok (t.nextId,{ t with
        borrowers := t.borrowers.set t.nextId walletAddress
        nextId := t.nextId + 1 })
  else .error .invalidParameter

/-- `INSERT INTO credit_lines`. -/
def insertCreditLine (t : Tables) (borrowerId : Uuid) (request : CreateCreditLineRequest A) :
    Except SqlError (CreditLineRow × Tables) :=
  if server.readsNumeric request.creditLimit ∧ (readInteger request.interestRateBps).isSome then
    if t.openElsewhere t.nextId borrowerId then .error .uniqueViolation
    else
      let row : CreditLineRow := ⟨borrowerId,.active,1⟩
      .ok (row,{ t with
        creditLines := t.creditLines.set t.nextId row
        nextId := t.nextId + 1 })
  else .error .invalidParameter

/-- The helper names that the duplicate and error paths use are not imported. -/
def create (t : Tables) (request : CreateCreditLineRequest A) :
    Except Failure (CreditLineRow × Tables) :=
  match t.ensureBorrower server request.walletAddress with
  | .error e => .error (.database e)
  | .ok (borrowerId,t) =>
      if t.creditLines.entries.any fun e => e.2.borrowerId = borrowerId && isOpen e.2 then
        .error (.reference "duplicateResource")
      else match t.insertCreditLine server borrowerId request with
        | .error _ => .error (.reference "conflictFromUniqueViolation")
        | .ok created => .ok created

/-- The parameters of an `UPDATE` can be read. -/
def readable (request : UpdateCreditLineRequest A) : Bool :=
  (match request.creditLimit with
    | some creditLimit => server.readsNumeric creditLimit
    | none => true) &&
  (match request.interestRateBps with
    | some interestRateBps => (readInteger interestRateBps).isSome
    | none => true) &&
  (match request.expectedVersion with
    | some expectedVersion => (readInteger expectedVersion).isSome
    | none => true)

/-- The `WHERE` clause of an `UPDATE`, on the row with the identifier. -/
def matchesVersion (request : UpdateCreditLineRequest A) (row : CreditLineRow) : Bool :=
  match request.expectedVersion with
  | some expectedVersion => readInteger expectedVersion = some row.version
  | none => true

def patchRow (request : UpdateCreditLineRequest A) (row : CreditLineRow) : CreditLineRow :=
  { row with status := request.status.getD row.status, version := row.version + 1 }

/-- `UPDATE credit_lines`: whether a row was written, and the tables. -/
def updateLine (t : Tables) (id : Uuid) (request : UpdateCreditLineRequest A) :
    Except SqlError (Bool × Tables) :=
  if readable server request then
    match t.creditLines.get id with
    | none => .ok (false,t)
    | some row =>
        if matchesVersion request row then
          if row.version = maxInteger then .error .outOfRange
          else if isOpen (patchRow request row) ∧ t.openElsewhere id row.borrowerId then
            .error .uniqueViolation
          else .ok (true,{ t with creditLines := t.creditLines.set id (patchRow request row) })
        else .ok (false,t)
  else .error .invalidParameter

/-- No column to set means no `UPDATE`. -/
def setsColumn (request : UpdateCreditLineRequest A) : Bool :=
  request.creditLimit.isSome || request.interestRateBps.isSome || request.status.isSome

def update (t : Tables) (id : Uuid) (request : UpdateCreditLineRequest A) :
    Except Failure (Option (CreditLineRow × String)) × Tables :=
  if setsColumn request then
    match t.updateLine server id request with
    | .error e => (.error (.database e),t)
    | .ok (true,t) => (.ok (t.findById id),t)
    | .ok (false,t) =>
        match request.expectedVersion with
        | none => (.ok none,t)
        | some expectedVersion =>
            if (t.creditLines.get id).isSome then
              (.error (.versionConflict id expectedVersion
                (match t.findById id with | some current => current.1.version | none => -1)),t)
            else (.ok none,t)
  else (.ok (t.findById id),t)

/-- `DELETE FROM credit_lines`, which the ledger rows of a line restrict. -/
def delete (t : Tables) (id : Uuid) : Except Failure Bool × Tables :=
  if (t.creditLines.get id).isSome ∧ id ∈ t.transactions then
    (.error (.database .foreignKeyViolation),t)
  else (.ok (t.creditLines.get id).isSome,{ t with creditLines := t.creditLines.delete id })

/-! ## The service -/

/-- A rejected transaction rolls back. -/
def createCreditLine (t : Tables) (request : CreateCreditLineRequest A) :
    Except Failure CreditLineRow × Tables :=
  match MemoryCreditLines.Service.createRefusal request with
  | some e => (.error (.refused e),t)
  | none => match t.create server request with
    | .error e => (.error e,t)
    | .ok (row,t) => (.ok row,t)

def updateCreditLine (t : Tables) (id : Uuid) (request : UpdateCreditLineRequest A) :
    Except Failure (Option (CreditLineRow × String)) × Tables :=
  match MemoryCreditLines.Service.updateRefusal request with
  | some e => (.error (.refused e),t)
  | none => t.update server id request

def deleteCreditLine (t : Tables) (id : Uuid) : Except Failure Bool × Tables := t.delete id

end Tables

/-! ## What the schema keeps -/

/-- The foreign key of a line, the unique wallets, the open line of a borrower, and
identifiers not yet drawn. -/
structure Consistent (t : Tables) : Prop where
  borrower : ∀ id row, t.creditLines.get id = some row → (t.borrowers.get row.borrowerId).isSome
  wallet : t.borrowers.Exclusive (fun walletAddress => walletAddress) fun _ => true
  oneOpen : t.creditLines.Exclusive CreditLineRow.borrowerId Tables.isOpen
  lines : ∀ id row, t.creditLines.get id = some row → id < t.nextId
  people : ∀ id walletAddress, t.borrowers.get id = some walletAddress → id < t.nextId

theorem consistent_empty : Consistent Tables.empty where
  borrower id row h := by cases h
  wallet := InsertionMap.exclusive_empty
  oneOpen := InsertionMap.exclusive_empty
  lines id row h := by cases h
  people id walletAddress h := by cases h

section Kept
variable {A : Arithmetic} {server : Server A} {t t' : Tables} {id : Uuid}

theorem selectBorrower_eq_none {walletAddress : String}
    (h : t.selectBorrower walletAddress = none) :
    ∀ id wallet, t.borrowers.get id = some wallet → wallet ≠ walletAddress := by
  unfold Tables.selectBorrower at h
  rw [Option.map_eq_none_iff,List.find?_eq_none] at h
  intro id wallet hget
  have hne := h (id,wallet) (InsertionMap.get_eq_some.mp hget)
  simpa using hne

theorem selectBorrower_eq_some {walletAddress : String} {borrowerId : Uuid}
    (h : t.selectBorrower walletAddress = some borrowerId) :
    t.borrowers.get borrowerId = some walletAddress := by
  unfold Tables.selectBorrower at h
  obtain ⟨e,he,rfl⟩ := Option.map_eq_some_iff.mp h
  have hwallet : e.2 = walletAddress := by simpa using List.find?_some he
  rw [InsertionMap.get_eq_some,← hwallet]
  exact List.mem_of_find?_eq_some he

/-- A borrower inserted under a fresh identifier and a wallet not yet known. -/
theorem consistent_insertBorrower (h : Consistent t) {walletAddress : String}
    (hnone : t.selectBorrower walletAddress = none) :
    Consistent { t with
      borrowers := t.borrowers.set t.nextId walletAddress
      nextId := t.nextId + 1 } where
  borrower id row hget := by
    have hold := h.borrower id row hget
    obtain ⟨wallet,hwallet⟩ := Option.isSome_iff_exists.mp hold
    have hne : row.borrowerId ≠ t.nextId := Nat.ne_of_lt (h.people _ _ hwallet)
    dsimp only
    rw [InsertionMap.get_set_of_ne _ hne]
    exact hold
  wallet := by
    apply InsertionMap.exclusive_set h.wallet
    intro _
    rw [InsertionMap.taken_eq_false]
    intro id wallet hget _ hsame
    exact absurd hsame (selectBorrower_eq_none hnone id wallet hget)
  oneOpen := h.oneOpen
  lines id row hget := Nat.lt_succ_of_lt (h.lines id row hget)
  people := by
    apply InsertionMap.forall_get_set
    · intro id wallet hget
      exact Nat.lt_succ_of_lt (h.people id wallet hget)
    · exact Nat.lt_succ_self _

theorem ensureBorrower_kept (h : Consistent t) {walletAddress : String} {borrowerId : Uuid}
    (he : t.ensureBorrower server walletAddress = .ok (borrowerId,t')) :
    Consistent t' ∧ t'.borrowers.get borrowerId = some walletAddress := by
  unfold Tables.ensureBorrower at he
  split at he
  · cases hs : t.selectBorrower walletAddress with
    | some id =>
        rw [hs] at he
        cases he
        exact ⟨h,selectBorrower_eq_some hs⟩
    | none =>
        rw [hs] at he
        cases he
        exact ⟨consistent_insertBorrower h hs,InsertionMap.get_set_self _ _ _⟩
  · cases he

/-- A line written with a borrower that exists, where no other line of the borrower is open. -/
theorem consistent_writeLine (h : Consistent t) {row : CreditLineRow} {nextId : Uuid}
    (hb : (t.borrowers.get row.borrowerId).isSome) (hn : t.nextId ≤ nextId) (hid : id < nextId)
    (ho : Tables.isOpen row = true → t.openElsewhere id row.borrowerId = false) :
    Consistent { t with creditLines := t.creditLines.set id row, nextId := nextId } where
  borrower := InsertionMap.forall_get_set h.borrower hb
  wallet := h.wallet
  oneOpen := InsertionMap.exclusive_set h.oneOpen ho
  lines := by
    apply InsertionMap.forall_get_set
    · intro id row hget
      exact Nat.lt_of_lt_of_le (h.lines id row hget) hn
    · exact hid
  people id walletAddress hget := Nat.lt_of_lt_of_le (h.people id walletAddress hget) hn

theorem insertCreditLine_kept (h : Consistent t) {borrowerId : Uuid}
    {request : CreateCreditLineRequest A} {row : CreditLineRow}
    (hb : (t.borrowers.get borrowerId).isSome)
    (hi : t.insertCreditLine server borrowerId request = .ok (row,t')) : Consistent t' := by
  unfold Tables.insertCreditLine at hi
  split at hi
  · split at hi
    · cases hi
    · rename_i ho
      rw [Bool.not_eq_true] at ho
      cases hi
      exact consistent_writeLine h hb (Nat.le_succ _) (Nat.lt_succ_self _) fun _ => ho
  · cases hi

theorem create_kept (h : Consistent t) {request : CreateCreditLineRequest A} {row : CreditLineRow}
    (hc : t.create server request = .ok (row,t')) : Consistent t' := by
  unfold Tables.create at hc
  cases he : t.ensureBorrower server request.walletAddress with
  | error e =>
      rw [he] at hc
      cases hc
  | ok ensured =>
      obtain ⟨borrowerId,t₁⟩ := ensured
      obtain ⟨hkept,hget⟩ := ensureBorrower_kept h he
      rw [he] at hc
      dsimp only at hc
      split at hc
      · cases hc
      · cases hi : t₁.insertCreditLine server borrowerId request with
        | error e =>
            rw [hi] at hc
            cases hc
        | ok created =>
            obtain ⟨row',t₂⟩ := created
            rw [hi] at hc
            cases hc
            exact insertCreditLine_kept hkept (Option.isSome_iff_exists.mpr ⟨_,hget⟩) hi

theorem consistent_createCreditLine (h : Consistent t) (request : CreateCreditLineRequest A) :
    Consistent (t.createCreditLine server request).2 := by
  unfold Tables.createCreditLine
  cases MemoryCreditLines.Service.createRefusal request with
  | some e => exact h
  | none =>
      dsimp only
      cases hc : t.create server request with
      | error e => exact h
      | ok created => exact create_kept h hc

theorem updateLine_kept (h : Consistent t) {request : UpdateCreditLineRequest A} {written : Bool}
    (hu : t.updateLine server id request = .ok (written,t')) : Consistent t' := by
  unfold Tables.updateLine at hu
  split at hu
  · cases hget : t.creditLines.get id with
    | none =>
        rw [hget] at hu
        cases hu
        exact h
    | some row =>
        rw [hget] at hu
        dsimp only at hu
        split at hu
        · split at hu
          · cases hu
          · split at hu
            · cases hu
            · rename_i ho
              rw [not_and,Bool.not_eq_true] at ho
              cases hu
              have hborrower : (t.borrowers.get (Tables.patchRow request row).borrowerId).isSome :=
                h.borrower id row hget
              exact consistent_writeLine h hborrower (Nat.le_refl _) (h.lines id row hget) ho
        · cases hu
          exact h
  · cases hu

theorem consistent_updateCreditLine (h : Consistent t) (id : Uuid)
    (request : UpdateCreditLineRequest A) :
    Consistent (t.updateCreditLine server id request).2 := by
  unfold Tables.updateCreditLine
  cases MemoryCreditLines.Service.updateRefusal request with
  | some e => exact h
  | none =>
      dsimp only
      unfold Tables.update
      split
      · cases hu : t.updateLine server id request with
        | error e => exact h
        | ok result =>
            obtain ⟨written,t₁⟩ := result
            have hkept := updateLine_kept h hu
            cases written with
            | true => exact hkept
            | false =>
                cases request.expectedVersion with
                | none => exact hkept
                | some expectedVersion =>
                    dsimp only
                    split
                    · exact hkept
                    · exact hkept
      · exact h

theorem consistent_deleteCreditLine (h : Consistent t) (id : Uuid) :
    Consistent (t.deleteCreditLine id).2 := by
  unfold Tables.deleteCreditLine Tables.delete
  split
  · exact h
  · exact {
      borrower := InsertionMap.forall_get_delete h.borrower id
      wallet := h.wallet
      oneOpen := InsertionMap.exclusive_delete h.oneOpen id
      lines := InsertionMap.forall_get_delete h.lines id
      people := h.people }

end Kept

end Creditra.PostgresCreditLines
