import Creditra.CreditModels
import Creditra.DecimalStrings
import Creditra.InsertionMaps
import Creditra.StellarDiagnostics

/-!
# Reconciliation of credit lines with the contract's records

`ReconciliationService.reconcile`: the database lines are read page by page, the
contract's records are fetched, and the two lists are compared wallet by wallet.
Amounts are the texts they are stored as. The body runs on the result under
construction and may throw; what it has written by then stays written, and the
handler appends the error, if a text can be made of it. Logging is left out.
-/
namespace Creditra.Reconciliation
open CreditModels DecimalStrings InsertionMaps JsNumbers JsStrings StellarDiagnostics

/-- A credit line as the repositories return it, with the fields that are read. -/
structure StoredLine where
  id : String
  walletAddress : String
  creditLimit : String
  availableCredit : String
  interestRateBps : Number
  status : CreditLineStatus
  createdAt : ℤ
  deriving DecidableEq

structure OnChainCreditRecord where
  id : String
  walletAddress : String
  creditLimit : String
  availableCredit : String
  interestRateBps : Number
  status : String
  deriving DecidableEq

def statusText : CreditLineStatus → String
  | .active => "active"
  | .suspended => "suspended"
  | .closed => "closed"
  | .pending => "pending"

inductive Field where
  | existence | walletAddress | walletAddressFormatting | creditLimit | availableCredit
  | interestRateBps | status
  deriving DecidableEq, Repr

inductive Severity where
  | critical | warning
  deriving DecidableEq, Repr

inductive Value where
  | text (s : String)
  | number (n : Number)
  deriving DecidableEq

structure ReconciliationMismatch where
  creditLineId : String
  walletAddress : String
  field : Field
  dbValue : Value
  chainValue : Value
  severity : Severity
  deriving DecidableEq

structure ReconciliationResult where
  timestamp : ℤ
  totalChecked : ℕ := 0
  mismatches : List ReconciliationMismatch := []
  errors : List String := []
  deriving DecidableEq

/-! ## Reading the database -/

def reconciliationDbPageSize : ℕ := 1000

def reconciliationMaxDbRecords : ℕ := 10000

/-- What the repository answers to `findAll(offset, limit)`, the first argument
counting the reads made before it: the table may change between two reads. -/
abbrev Reads := ℕ → ℕ → ℕ → Except Rejection (List StoredLine)

def capExceeded : Rejection :=
  .error ⟨"Error","Reconciliation exceeded " ++ toString reconciliationMaxDbRecords ++
    " database credit lines; shard or raise the configured cap"⟩

/-- The loop of `fetchAllDbCreditLines`, before its read number `read`. -/
def fetchFrom (findAll : Reads) (read : ℕ) (all : List StoredLine) :
    Except Rejection (List StoredLine) :=
  match findAll read (read * reconciliationDbPageSize) reconciliationDbPageSize with
  | .error e => .error e
  | .ok page =>
      if reconciliationMaxDbRecords < (all ++ page).length then .error capExceeded
      else if page.length < reconciliationDbPageSize then .ok (all ++ page)
      else fetchFrom findAll (read + 1) (all ++ page)
termination_by reconciliationMaxDbRecords - all.length
decreasing_by
  simp only [List.length_append,reconciliationMaxDbRecords,reconciliationDbPageSize] at *
  omega

def fetchAllDbCreditLines (findAll : Reads) : Except Rejection (List StoredLine) :=
  fetchFrom findAll 0 []

/-- A table that stays as it is, listed in its order. -/
def unchanging (lines : List StoredLine) : Reads := fun _ offset limit =>
  .ok ((lines.drop offset).take limit)

theorem take_append_page (lines : List StoredLine) (read : ℕ) :
    lines.take (read * reconciliationDbPageSize) ++
        (lines.drop (read * reconciliationDbPageSize)).take reconciliationDbPageSize =
      lines.take ((read + 1) * reconciliationDbPageSize) := by
  rw [Nat.add_mul,Nat.one_mul,List.take_add]

theorem fetchFrom_unchanging (lines : List StoredLine) (read : ℕ)
    (h : read * reconciliationDbPageSize ≤ lines.length)
    (hcap : read * reconciliationDbPageSize ≤ reconciliationMaxDbRecords) :
    fetchFrom (unchanging lines) read (lines.take (read * reconciliationDbPageSize)) =
      if lines.length ≤ reconciliationMaxDbRecords then .ok lines else .error capExceeded := by
  induction hleft : lines.length - read * reconciliationDbPageSize using Nat.strong_induction_on
    generalizing read with
  | _ left ih =>
      rw [fetchFrom]
      simp only [unchanging,take_append_page]
      rw [List.length_take,List.length_take,List.length_drop]
      have hsucc : (read + 1) * reconciliationDbPageSize =
          read * reconciliationDbPageSize + reconciliationDbPageSize := by
        rw [Nat.add_mul,Nat.one_mul]
      have hpos : 0 < reconciliationDbPageSize := by decide
      split
      · rw [if_neg (by omega)]
      · split
        · rw [if_pos (by omega),List.take_of_length_le (by omega)]
        · exact ih _ (by omega) (read + 1) (by omega) (by omega) rfl

theorem fetchAllDbCreditLines_unchanging (lines : List StoredLine) :
    fetchAllDbCreditLines (unchanging lines) =
      if lines.length ≤ reconciliationMaxDbRecords then .ok lines else .error capExceeded := by
  have h := fetchFrom_unchanging lines 0
  rw [Nat.zero_mul,List.take_zero] at h
  exact h (Nat.zero_le _) (Nat.zero_le _)

/-! ## Wallet keys -/

def emptyWallet : Rejection := .error ⟨"Error","Borrower wallet address cannot be empty"⟩

def walletKey (walletAddress : String) : Except Rejection String :=
  let trimmed := trim walletAddress
  if JsStrings.length trimmed = 0 then .error emptyWallet else .ok trimmed

/-- `set.add(key)`, for a set listed in insertion order. -/
def add (keys : List String) (key : String) : List String :=
  if key ∈ keys then keys else keys ++ [key]

def duplicatesFrom (seen duplicates : List String) : List String → Except Rejection (List String)
  | [] => .ok duplicates
  | walletAddress :: rest =>
      match walletKey walletAddress with
      | .error e => .error e
      | .ok key =>
          duplicatesFrom (add seen key) (if key ∈ seen then add duplicates key else duplicates) rest

def findDuplicateWallets (walletAddresses : List String) : Except Rejection (List String) :=
  duplicatesFrom [] [] walletAddresses

/-- The entries handed to `new Map`. -/
def keyed {α : Type} (wallet : α → String) : List α → Except Rejection (List (String × α))
  | [] => .ok []
  | item :: rest =>
      match walletKey (wallet item) with
      | .error e => .error e
      | .ok key => (keyed wallet rest).map ((key,item) :: ·)

def mapByWallet {α : Type} (wallet : α → String) (items : List α) :
    Except Rejection (InsertionMap String α) :=
  (keyed wallet items).map InsertionMap.ofEntries

/-! ## The comparison -/

def reconciliationDiagnostic (message : String) : String := sanitizeText message

def compareWallets (dbLine : StoredLine) (chainRecord : OnChainCreditRecord)
    (dbWalletKey chainWalletKey : String) : List ReconciliationMismatch :=
  if dbWalletKey ≠ chainWalletKey then
    [⟨dbLine.id,dbWalletKey,.walletAddress,.text dbWalletKey,.text chainWalletKey,.critical⟩]
  else if dbLine.walletAddress ≠ chainRecord.walletAddress then
    [⟨dbLine.id,dbWalletKey,.walletAddressFormatting,.text (sanitizeText dbLine.walletAddress),
      .text (sanitizeText chainRecord.walletAddress),.warning⟩]
  else []

/-- A mismatch under the line's own id and wallet address, when `differ` holds. -/
def flag (dbLine : StoredLine) (field : Field) (dbValue chainValue : Value) (severity : Severity)
    (differ : Bool) : List ReconciliationMismatch :=
  if differ then [⟨dbLine.id,dbLine.walletAddress,field,dbValue,chainValue,severity⟩] else []

def compareValues (dbLine : StoredLine) (chainRecord : OnChainCreditRecord) :
    List ReconciliationMismatch :=
  flag dbLine .creditLimit (.text dbLine.creditLimit) (.text chainRecord.creditLimit) .critical
      (! decimalStringsEqual dbLine.creditLimit chainRecord.creditLimit) ++
    flag dbLine .availableCredit (.text dbLine.availableCredit) (.text chainRecord.availableCredit)
      .warning (! decimalStringsEqual dbLine.availableCredit chainRecord.availableCredit) ++
    flag dbLine .interestRateBps (.number dbLine.interestRateBps)
      (.number chainRecord.interestRateBps) .warning
      (! dbLine.interestRateBps.strictEquals chainRecord.interestRateBps) ++
    flag dbLine .status (.text (statusText dbLine.status)) (.text chainRecord.status) .critical
      (statusText dbLine.status ≠ chainRecord.status)

/-- A computation on the result under construction. -/
abbrev Attempt := ExceptT Rejection (StateM ReconciliationResult)

def pushMismatches (mismatches : List ReconciliationMismatch) : Attempt Unit :=
  modify fun result => { result with mismatches := result.mismatches ++ mismatches }

def pushError (error : String) : Attempt Unit :=
  modify fun result => { result with errors := result.errors ++ [error] }

def compareFields (dbLine : StoredLine) (chainRecord : OnChainCreditRecord) : Attempt Unit := do
  let dbWalletKey ← liftExcept (walletKey dbLine.walletAddress)
  let chainWalletKey ← liftExcept (walletKey chainRecord.walletAddress)
  pushMismatches (compareWallets dbLine chainRecord dbWalletKey chainWalletKey)
  pushMismatches (compareValues dbLine chainRecord)

def missingOnChain (dbLine : StoredLine) : ReconciliationMismatch :=
  ⟨dbLine.id,dbLine.walletAddress,.existence,.text "exists",.text "missing",.critical⟩

def missingInDb (chainRecord : OnChainCreditRecord) : ReconciliationMismatch :=
  ⟨chainRecord.id,chainRecord.walletAddress,.existence,.text "missing",.text "exists",.critical⟩

def checkLines (chainMap : InsertionMap String OnChainCreditRecord) :
    List StoredLine → Attempt Unit
  | [] => pure ()
  | dbLine :: rest => do
      match chainMap.get (← liftExcept (walletKey dbLine.walletAddress)) with
      | none => pushMismatches [missingOnChain dbLine]
      | some chainRecord => compareFields dbLine chainRecord
      checkLines chainMap rest

def checkRecords (dbMap : InsertionMap String StoredLine) :
    List OnChainCreditRecord → Attempt Unit
  | [] => pure ()
  | chainRecord :: rest => do
      if (dbMap.get (← liftExcept (walletKey chainRecord.walletAddress))).isNone then
        pushMismatches [missingInDb chainRecord]
      checkRecords dbMap rest

def pushDuplicates (message : String) : List String → Attempt Unit
  | [] => pure ()
  | walletAddress :: rest => do
      pushError (reconciliationDiagnostic (message ++ walletAddress))
      pushDuplicates message rest

/-- The body of the `try` block. -/
def compareSources (dbLines : Except Rejection (List StoredLine))
    (records : Except Rejection (List OnChainCreditRecord)) : Attempt Unit := do
  let dbCreditLines ← liftExcept dbLines
  let chainRecords ← liftExcept records
  modify fun result =>
    { result with totalChecked := max dbCreditLines.length chainRecords.length }
  let duplicateDbWallets ←
    liftExcept (findDuplicateWallets (dbCreditLines.map StoredLine.walletAddress))
  let duplicateChainWallets ←
    liftExcept (findDuplicateWallets (chainRecords.map OnChainCreditRecord.walletAddress))
  pushDuplicates "Duplicate database credit lines for borrower wallet " duplicateDbWallets
  pushDuplicates "Duplicate on-chain credit records for borrower wallet " duplicateChainWallets
  if (← get).errors ≠ [] then
    return ()
  let dbMap ← liftExcept (mapByWallet StoredLine.walletAddress dbCreditLines)
  let chainMap ← liftExcept (mapByWallet OnChainCreditRecord.walletAddress chainRecords)
  checkLines chainMap dbCreditLines
  checkRecords dbMap chainRecords

/-- The `catch` clause. -/
def reportFailure (error : Rejection) : Attempt Unit := do
  let errorMessage ← liftExcept ((sanitizeStellarDiagnostic error).mapError Rejection.error)
  pushError errorMessage

def reconcile (now : ℤ) (findAll : Reads) (records : Except Rejection (List OnChainCreditRecord)) :
    Except Rejection ReconciliationResult :=
  let body := tryCatch (compareSources (fetchAllDbCreditLines findAll) records) reportFailure
  match body.run.run { timestamp := now } with
  | (.ok _,result) => .ok result
  | (.error e,_) => .error e

end Creditra.Reconciliation
