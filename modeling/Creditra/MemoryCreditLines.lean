import Creditra.CreditModels
import Creditra.FloatNumbers
import Creditra.InsertionMaps

/-!
# The in-memory credit lines with their texts

`InMemoryCreditLineRepository` and the service over it, one call at a time.
Amounts stay the texts the source keeps, and a limit counts as changed when its
text is. How a text is read, calculated with and written again is a parameter,
so that the same code runs on the runtime's numbers and on exact ones.

Instants of creation and update are not read by any modelled function and are
left out. Published events carry the instant at which they were stamped.
-/
namespace Creditra.MemoryCreditLines
open CreditModels FloatNumbers InsertionMaps

/-- Amounts as they are kept and as they are calculated with. -/
structure Arithmetic where
  Text : Type
  decEq : DecidableEq Text
  /-- The falsy text. -/
  empty : Text
  /-- The text `'0'`. -/
  zeroText : Text
  Number : Type
  parseFloat : Text → Number
  toText : Number → Text
  zero : Number
  one : Number
  add : Number → Number → Number
  sub : Number → Number → Number
  mul : Number → Number → Number
  div : Number → Number → Number
  max : Number → Number → Number
  lt : Number → Number → Bool
  le : Number → Number → Bool
  isFinite : Number → Bool

instance (A : Arithmetic) : DecidableEq A.Text := A.decEq

/-- The runtime's own numbers. -/
abbrev floats : Arithmetic where
  Text := String
  decEq := inferInstance
  empty := ""
  zeroText := "0"
  Number := Value
  parseFloat := FloatNumbers.parseFloat
  toText := FloatNumbers.toText
  zero := .zero
  one := .one
  add := .add
  sub := .sub
  mul := .mul
  div := .div
  max := .max
  lt := Value.lt
  le := Value.le
  isFinite := Value.isFinite

/-- A text of a request, or the outcome of an exact calculation. -/
inductive ExactText where
  | literal (text : String)
  | number (q : ℚ)
  deriving DecidableEq

/-- The exact value of the decimal at the front of a text. -/
def ExactText.value : ExactText → Option ℚ
  | .literal text =>
      let (negative,cs) := signed (text.toList.dropWhile JsStrings.isWhiteSpace)
      (decimalAtFront negative cs).map exactValue
  | .number q => some q

/-- Exact numbers; what is not a number gives none. -/
abbrev exacts : Arithmetic where
  Text := ExactText
  decEq := inferInstance
  empty := .literal ""
  zeroText := .literal "0"
  Number := Option ℚ
  parseFloat := ExactText.value
  toText q := match q with
    | some q => .number q
    | none => .literal "NaN"
  zero := some 0
  one := some 1
  add x y := do return (← x) + (← y)
  sub x y := do return (← x) - (← y)
  mul x y := do return (← x) * (← y)
  div x y := do return (← x) / (← y)
  max x y := do return Max.max (← x) (← y)
  lt x y := match x, y with
    | some x, some y => x < y
    | _, _ => false
  le x y := match x, y with
    | some x, some y => x ≤ y
    | _, _ => false
  isFinite x := x.isSome

structure CreditLine (A : Arithmetic) where
  id : Uuid
  walletAddress : String
  creditLimit : A.Text
  availableCredit : A.Text
  utilized : A.Text
  interestRateBps : Value
  status : CreditLineStatus
  version : Option ℕ

structure CreateCreditLineRequest (A : Arithmetic) where
  walletAddress : String
  creditLimit : A.Text
  interestRateBps : Value

structure UpdateCreditLineRequest (A : Arithmetic) where
  creditLimit : Option A.Text := none
  interestRateBps : Option Value := none
  status : Option CreditLineStatus := none
  utilized : Option A.Text := none
  expectedVersion : Option Value := none

inductive Refusal where
  | error (message : String)
  | versionConflict (id : Uuid) (expectedVersion : Value) (actualVersion : ℕ)
  deriving DecidableEq

/-! ## The repository -/

structure Repository (A : Arithmetic) where
  creditLines : InsertionMap Uuid (CreditLine A)
  nextId : Uuid

namespace Repository
variable {A : Arithmetic}

def empty (A : Arithmetic) : Repository A := ⟨InsertionMap.empty,0⟩

def create (r : Repository A) (request : CreateCreditLineRequest A) :
    CreditLine A × Repository A :=
  let creditLine : CreditLine A := ⟨r.nextId,request.walletAddress,request.creditLimit,
    request.creditLimit,A.zeroText,request.interestRateBps,.active,some 1⟩
  (creditLine,⟨r.creditLines.set r.nextId creditLine,r.nextId + 1⟩)

def findById (r : Repository A) (id : Uuid) : Option (CreditLine A) := r.creditLines.get id

end Repository

variable {A : Arithmetic}

/-- A missing version counts as the first. -/
def currentVersion (line : CreditLine A) : ℕ := line.version.getD 1

/-- `expectedVersion !== currentVersion`. -/
def differs (expectedVersion : Value) (version : ℕ) : Bool :=
  match expectedVersion with
  | .finite x => x.1 ≠ version
  | _ => true

/-- The caller supplied a version and it is not the stored one. -/
def isStale (request : UpdateCreditLineRequest A) (existing : CreditLine A) : Bool :=
  match request.expectedVersion with
  | some expectedVersion => differs expectedVersion (currentVersion existing)
  | none => false

/-- A limit that is given, not empty and differs in its text. -/
def changedLimit (request : UpdateCreditLineRequest A) (existing : CreditLine A) : Option A.Text :=
  match request.creditLimit with
  | some creditLimit =>
      if creditLimit ≠ A.empty ∧ creditLimit ≠ existing.creditLimit then some creditLimit else none
  | none => none

/-- A patched balance recomputes the available credit, and a changed limit then rescales
the old one. -/
def patchedAvailable (request : UpdateCreditLineRequest A) (existing : CreditLine A) : A.Text :=
  let synced := match request.utilized with
    | some utilized =>
        A.toText (A.sub (A.parseFloat (request.creditLimit.getD existing.creditLimit))
          (A.parseFloat utilized))
    | none => existing.availableCredit
  match changedLimit request existing with
  | some creditLimit =>
      let oldLimit := A.parseFloat existing.creditLimit
      let newLimit := A.parseFloat creditLimit
      let oldAvailable := A.parseFloat existing.availableCredit
      let ratio := if A.lt A.zero oldLimit then A.div oldAvailable oldLimit else A.one
      A.toText (A.mul newLimit ratio)
  | none => synced

def patched (request : UpdateCreditLineRequest A) (existing : CreditLine A) : CreditLine A :=
  { existing with
    creditLimit := request.creditLimit.getD existing.creditLimit
    interestRateBps := request.interestRateBps.getD existing.interestRateBps
    status := request.status.getD existing.status
    utilized := request.utilized.getD existing.utilized
    version := some (currentVersion existing + 1)
    availableCredit := patchedAvailable request existing }

@[simp] theorem patched_utilized_creditLimit (utilized : A.Text) (line : CreditLine A) :
    (patched { utilized := some utilized } line).creditLimit = line.creditLimit := rfl

@[simp] theorem patched_utilized_status (utilized : A.Text) (line : CreditLine A) :
    (patched { utilized := some utilized } line).status = line.status := rfl

namespace Repository

def update (r : Repository A) (id : Uuid) (request : UpdateCreditLineRequest A) :
    Except Refusal (Option (CreditLine A)) × Repository A :=
  match r.creditLines.get id with
  | none => (.ok none,r)
  | some existing =>
      match request.expectedVersion with
      | some expectedVersion =>
          if differs expectedVersion (currentVersion existing) then
            (.error (.versionConflict id expectedVersion (currentVersion existing)),r)
          else (.ok (some (patched request existing)),
            { r with creditLines := r.creditLines.set id (patched request existing) })
      | none => (.ok (some (patched request existing)),
          { r with creditLines := r.creditLines.set id (patched request existing) })

def delete (r : Repository A) (id : Uuid) : Bool × Repository A :=
  ((r.creditLines.get id).isSome,{ r with creditLines := r.creditLines.delete id })

end Repository

/-! ## The service -/

/-- Published events, each with the instant it was stamped with. -/
inductive Event (A : Arithmetic) where
  | opened (occurredAt : ℤ) (creditLineId : Uuid) (walletAddress : String) (creditLimit : A.Text)
  | drawRequested (occurredAt : ℤ) (creditLineId : Uuid) (walletAddress : String) (amount : A.Text)
  | drawConfirmed (occurredAt : ℤ) (creditLineId : Uuid) (walletAddress : String)
      (amount : A.Text) (utilized : A.Text)
  | repayConfirmed (occurredAt : ℤ) (creditLineId : Uuid) (walletAddress : String)
      (amount : A.Text) (utilized : A.Text)

structure Transaction (A : Arithmetic) where
  creditLineId : Uuid
  amount : A.Text
  type : TransactionType
  status : TransactionStatus

/-- The repositories and everything the event bus was given, oldest first. -/
structure Service (A : Arithmetic) where
  repository : Repository A
  transactions : List (Transaction A)
  events : List (Event A)

namespace Service

def empty (A : Arithmetic) : Service A := ⟨Repository.empty A,[],[]⟩

def emit (s : Service A) (event : Event A) : Service A := { s with events := s.events ++ [event] }

def rateOutOfRange (interestRateBps : Value) : Bool :=
  interestRateBps.lt .zero || Value.lt (.round 10000) interestRateBps

/-- The checks of `createCreditLine`, in the order the source makes them. -/
def createRefusal (request : CreateCreditLineRequest A) : Option Refusal :=
  if request.walletAddress = "" then some (.error "Wallet address is required")
  else if request.creditLimit = A.empty ∨ A.le (A.parseFloat request.creditLimit) A.zero then
    some (.error "Credit limit must be greater than 0")
  else if rateOutOfRange request.interestRateBps then
    some (.error "Interest rate must be between 0 and 10000 basis points")
  else none

def createCreditLine (s : Service A) (request : CreateCreditLineRequest A) (now : ℤ) :
    Except Refusal (CreditLine A) × Service A :=
  match createRefusal request with
  | some e => (.error e,s)
  | none =>
      let (created,repository) := s.repository.create request
      (.ok created,{ s with repository }.emit
        (.opened now created.id created.walletAddress created.creditLimit))

/-- An empty limit is not checked. -/
def limitRefused (request : UpdateCreditLineRequest A) : Bool :=
  match request.creditLimit with
  | some creditLimit =>
      creditLimit ≠ A.empty && A.le (A.parseFloat creditLimit) A.zero
  | none => false

def rateRefused (request : UpdateCreditLineRequest A) : Bool :=
  match request.interestRateBps with
  | some interestRateBps => rateOutOfRange interestRateBps
  | none => false

/-- The checks of `updateCreditLine`. -/
def updateRefusal (request : UpdateCreditLineRequest A) : Option Refusal :=
  if limitRefused request then some (.error "Credit limit must be greater than 0")
  else if rateRefused request then
    some (.error "Interest rate must be between 0 and 10000 basis points")
  else none

def updateCreditLine (s : Service A) (id : Uuid) (request : UpdateCreditLineRequest A) :
    Except Refusal (Option (CreditLine A)) × Service A :=
  match updateRefusal request with
  | some e => (.error e,s)
  | none =>
      let (answer,repository) := s.repository.update id request
      (answer,{ s with repository })

def deleteCreditLine (s : Service A) (id : Uuid) : Bool × Service A :=
  let (deleted,repository) := s.repository.delete id
  (deleted,{ s with repository })

/-- `parseFloat(line.utilized || '0')`. -/
def utilizedNum (line : CreditLine A) : A.Number :=
  A.parseFloat (if line.utilized = A.empty then A.zeroText else line.utilized)

/-- What both mutations hand to the runner: the ledger row, then the balance. -/
def record (s : Service A) (id : Uuid) (amount : A.Text) (type : TransactionType)
    (newUtilized : A.Text) : Except Refusal (CreditLine A) × Service A :=
  let transaction : Transaction A := ⟨id,amount,type,.pending⟩
  let s := { s with transactions := s.transactions ++ [transaction] }
  match s.repository.update id { utilized := some newUtilized } with
  | (.ok (some next),repository) => (.ok next,{ s with repository })
  | (.ok none,repository) => (.error (.error "Credit line not found"),{ s with repository })
  | (.error e,repository) => (.error e,{ s with repository })

def draw (s : Service A) (id : Uuid) (borrowerId : String) (amount : A.Text)
    (requestedAt confirmedAt : ℤ) : Except Refusal (CreditLine A) × Service A :=
  match s.repository.findById id with
  | none => (.error (.error "Credit line not found"),s)
  | some line =>
      if line.walletAddress ≠ borrowerId then (.error (.error "Unauthorized"),s)
      else if line.status ≠ .active then (.error (.error "Credit line is not active"),s)
      else
        let amountNum := A.parseFloat amount
        let limitNum := A.parseFloat line.creditLimit
        if ¬ A.isFinite amountNum ∨ A.le amountNum A.zero then
          (.error (.error "Draw amount must be greater than 0"),s)
        else if A.lt limitNum (A.add (utilizedNum line) amountNum) then
          (.error (.error "Credit limit exceeded"),s)
        else
          let s := s.emit (.drawRequested requestedAt id line.walletAddress amount)
          let newUtilized := A.toText (A.add (utilizedNum line) amountNum)
          match s.record id amount .borrow newUtilized with
          | (.ok updated,s) => (.ok updated,
              s.emit (.drawConfirmed confirmedAt id line.walletAddress amount updated.utilized))
          | (.error e,s) => (.error e,s)

def repay (s : Service A) (id : Uuid) (_walletAddress : String) (amount : A.Text)
    (confirmedAt : ℤ) : Except Refusal (CreditLine A) × Service A :=
  match s.repository.findById id with
  | none => (.error (.error "Credit line not found"),s)
  | some line =>
      let amountNum := A.parseFloat amount
      if ¬ A.isFinite amountNum ∨ A.le amountNum A.zero then
        (.error (.error "Repay amount must be greater than 0"),s)
      else
        let newUtilized := A.toText (A.max A.zero (A.sub (utilizedNum line) amountNum))
        match s.record id amount .repay newUtilized with
        | (.ok updated,s) => (.ok updated,
            s.emit (.repayConfirmed confirmedAt id line.walletAddress amount updated.utilized))
        | (.error e,s) => (.error e,s)

end Service

/-! ## What a call does -/

/-- The line is there and the caller's version, if any, is the stored one. -/
theorem Repository.update_fresh {r : Repository A} {id : Uuid}
    {request : UpdateCreditLineRequest A} {existing : CreditLine A}
    (h : r.creditLines.get id = some existing) (hf : isStale request existing = false) :
    r.update id request = (.ok (some (patched request existing)),
      { r with creditLines := r.creditLines.set id (patched request existing) }) := by
  unfold update
  unfold isStale at hf
  rw [h]
  dsimp only
  split
  · rename_i expectedVersion he
    rw [he] at hf
    dsimp only at hf
    rw [hf,if_neg Bool.false_ne_true]
  · rfl

/-- Otherwise nothing is written. -/
theorem Repository.update_unwritten {r : Repository A} {id : Uuid}
    {request : UpdateCreditLineRequest A}
    (h : ∀ existing, r.creditLines.get id = some existing → isStale request existing = true) :
    (r.update id request).2 = r := by
  unfold update
  split
  · rfl
  · rename_i existing hget
    have hstale := h existing hget
    unfold isStale at hstale
    split
    · rename_i expectedVersion he
      rw [he] at hstale
      dsimp only at hstale
      rw [hstale,if_pos rfl]
    · rename_i he
      rw [he] at hstale
      cases hstale

theorem Repository.update_cases (r : Repository A) (id : Uuid)
    (request : UpdateCreditLineRequest A) :
    (r.update id request).2 = r ∨
      ∃ existing, r.creditLines.get id = some existing ∧ isStale request existing = false ∧
        (r.update id request).2 =
          { r with creditLines := r.creditLines.set id (patched request existing) } := by
  cases hget : r.creditLines.get id with
  | none =>
      refine .inl (update_unwritten ?_)
      intro existing he
      rw [hget] at he
      cases he
  | some existing =>
      cases hstale : isStale request existing with
      | false => exact .inr ⟨existing,rfl,hstale,by rw [update_fresh hget hstale]⟩
      | true =>
          refine .inl (update_unwritten ?_)
          intro existing' he
          rw [hget] at he
          cases he
          exact hstale

namespace Service

/-- The service after the ledger row and the balance of a mutation. -/
def recorded (s : Service A) (id : Uuid) (amount : A.Text) (type : TransactionType)
    (newUtilized : A.Text) (line : CreditLine A) : Service A :=
  { s with
    transactions := s.transactions ++ [⟨id,amount,type,.pending⟩]
    repository := { s.repository with
      creditLines := s.repository.creditLines.set id
        (patched { utilized := some newUtilized } line) } }

theorem record_eq {s : Service A} {id : Uuid} {line : CreditLine A}
    (h : s.repository.creditLines.get id = some line) (amount : A.Text) (type : TransactionType)
    (newUtilized : A.Text) :
    s.record id amount type newUtilized =
      (.ok (patched { utilized := some newUtilized } line),
        s.recorded id amount type newUtilized line) := by
  unfold record
  dsimp only
  rw [Repository.update_fresh h rfl]
  rfl

/-- What `draw` asks of the line it has read. -/
@[mk_iff]
structure Drawable (line : CreditLine A) (borrowerId : String) (amount : A.Text) : Prop where
  owner : line.walletAddress = borrowerId
  active : line.status = .active
  finite : A.isFinite (A.parseFloat amount) = true
  positive : A.le (A.parseFloat amount) A.zero = false
  within : A.lt (A.parseFloat line.creditLimit)
    (A.add (utilizedNum line) (A.parseFloat amount)) = false

/-- The balance after a draw. -/
def drawn (line : CreditLine A) (amount : A.Text) : A.Text :=
  A.toText (A.add (utilizedNum line) (A.parseFloat amount))

theorem draw_cases (s : Service A) (id : Uuid) (borrowerId : String) (amount : A.Text)
    (requestedAt confirmedAt : ℤ) :
    (∃ e, s.draw id borrowerId amount requestedAt confirmedAt = (.error e,s)) ∨
    ∃ line, s.repository.creditLines.get id = some line ∧ Drawable line borrowerId amount ∧
      s.draw id borrowerId amount requestedAt confirmedAt =
        (.ok (patched { utilized := some (drawn line amount) } line),
          ((s.emit (.drawRequested requestedAt id line.walletAddress amount)).recorded
            id amount .borrow (drawn line amount) line).emit
              (.drawConfirmed confirmedAt id line.walletAddress amount (drawn line amount))) := by
  unfold draw Repository.findById
  split
  · exact .inl ⟨_,rfl⟩
  · rename_i line hget
    split
    · exact .inl ⟨_,rfl⟩
    · rename_i howner
      split
      · exact .inl ⟨_,rfl⟩
      · rename_i hactive
        dsimp only
        split
        · exact .inl ⟨_,rfl⟩
        · rename_i hamount
          split
          · exact .inl ⟨_,rfl⟩
          · rename_i hwithin
            rw [not_or,not_not,Bool.not_eq_true] at hamount
            rw [Bool.not_eq_true] at hwithin
            refine .inr ⟨line,hget,⟨not_not.mp howner,not_not.mp hactive,hamount.1,hamount.2,
              hwithin⟩,?_⟩
            have hrecord := record_eq (s := s.emit (.drawRequested requestedAt id
              line.walletAddress amount)) hget amount .borrow (drawn line amount)
            unfold drawn at hrecord ⊢
            rw [hrecord]
            rfl

theorem draw_of_drawable {s : Service A} {id : Uuid} {line : CreditLine A}
    (h : s.repository.creditLines.get id = some line) {borrowerId : String} {amount : A.Text}
    (hd : Drawable line borrowerId amount) (requestedAt confirmedAt : ℤ) :
    (s.draw id borrowerId amount requestedAt confirmedAt).1 =
      .ok (patched { utilized := some (drawn line amount) } line) := by
  have hrecord := record_eq (s := s.emit (.drawRequested requestedAt id line.walletAddress amount))
    h amount .borrow (drawn line amount)
  have hamount : ¬ (¬ A.isFinite (A.parseFloat amount) = true ∨
      A.le (A.parseFloat amount) A.zero = true) := by
    rw [hd.finite,hd.positive]
    simp
  have hwithin : ¬ A.lt (A.parseFloat line.creditLimit)
      (A.add (utilizedNum line) (A.parseFloat amount)) = true := by
    rw [hd.within]
    exact Bool.false_ne_true
  unfold draw Repository.findById
  rw [h]
  dsimp only
  rw [if_neg (not_not_intro hd.owner),if_neg (not_not_intro hd.active),if_neg hamount,
    if_neg hwithin]
  unfold drawn at hrecord ⊢
  rw [hrecord]

theorem draw_of_not_drawable {s : Service A} {id : Uuid} {line : CreditLine A}
    (h : s.repository.creditLines.get id = some line) {borrowerId : String} {amount : A.Text}
    (hd : ¬ Drawable line borrowerId amount) (requestedAt confirmedAt : ℤ) :
    ∃ e, (s.draw id borrowerId amount requestedAt confirmedAt).1 = .error e := by
  rcases draw_cases s id borrowerId amount requestedAt confirmedAt with ⟨e,he⟩ | ⟨line',hget,hd',-⟩
  · exact ⟨e,congrArg Prod.fst he⟩
  · rw [h,Option.some.injEq] at hget
    exact absurd (hget ▸ hd') hd

/-- The balance after a repayment. -/
def repaid (line : CreditLine A) (amount : A.Text) : A.Text :=
  A.toText (A.max A.zero (A.sub (utilizedNum line) (A.parseFloat amount)))

theorem repay_cases (s : Service A) (id : Uuid) (walletAddress : String) (amount : A.Text)
    (confirmedAt : ℤ) :
    (∃ e, s.repay id walletAddress amount confirmedAt = (.error e,s)) ∨
    ∃ line, s.repository.creditLines.get id = some line ∧
      A.isFinite (A.parseFloat amount) = true ∧ A.le (A.parseFloat amount) A.zero = false ∧
      s.repay id walletAddress amount confirmedAt =
        (.ok (patched { utilized := some (repaid line amount) } line),
          (s.recorded id amount .repay (repaid line amount) line).emit
            (.repayConfirmed confirmedAt id line.walletAddress amount (repaid line amount))) := by
  unfold repay Repository.findById
  split
  · exact .inl ⟨_,rfl⟩
  · rename_i line hget
    dsimp only
    split
    · exact .inl ⟨_,rfl⟩
    · rename_i hamount
      rw [not_or,not_not,Bool.not_eq_true] at hamount
      refine .inr ⟨line,hget,hamount.1,hamount.2,?_⟩
      have hrecord := record_eq hget amount .repay (repaid line amount)
      unfold repaid at hrecord ⊢
      rw [hrecord]
      rfl

theorem repay_of_positive {s : Service A} {id : Uuid} {line : CreditLine A}
    (h : s.repository.creditLines.get id = some line) {amount : A.Text}
    (hfinite : A.isFinite (A.parseFloat amount) = true)
    (hpositive : A.le (A.parseFloat amount) A.zero = false) (walletAddress : String)
    (confirmedAt : ℤ) :
    (s.repay id walletAddress amount confirmedAt).1 =
      .ok (patched { utilized := some (repaid line amount) } line) := by
  have hrecord := record_eq h amount .repay (repaid line amount)
  unfold repay Repository.findById
  rw [h]
  dsimp only
  rw [hfinite,hpositive,if_neg (by simp)]
  unfold repaid at hrecord ⊢
  rw [hrecord]

theorem repay_of_not_positive {s : Service A} {id : Uuid} {line : CreditLine A}
    (h : s.repository.creditLines.get id = some line) {amount : A.Text}
    (hpositive : A.le (A.parseFloat amount) A.zero = true) (walletAddress : String)
    (confirmedAt : ℤ) :
    ∃ e, (s.repay id walletAddress amount confirmedAt).1 = .error e := by
  unfold repay Repository.findById
  rw [h]
  dsimp only
  rw [if_pos (.inr hpositive)]
  exact ⟨_,rfl⟩

/-- What `createCreditLine` asks of a request. -/
structure Creatable (request : CreateCreditLineRequest A) : Prop where
  wallet : request.walletAddress ≠ ""
  limit : request.creditLimit ≠ A.empty
  positive : A.le (A.parseFloat request.creditLimit) A.zero = false
  rate : rateOutOfRange request.interestRateBps = false

theorem creatable_of_createRefusal {request : CreateCreditLineRequest A}
    (h : createRefusal request = none) : Creatable request := by
  unfold createRefusal at h
  split at h
  · cases h
  · rename_i hwallet
    split at h
    · cases h
    · rename_i hlimit
      split at h
      · cases h
      · rename_i hrate
        rw [not_or,Bool.not_eq_true] at hlimit
        rw [Bool.not_eq_true] at hrate
        exact ⟨hwallet,hlimit.1,hlimit.2,hrate⟩

theorem createCreditLine_cases (s : Service A) (request : CreateCreditLineRequest A) (now : ℤ) :
    (∃ e, s.createCreditLine request now = (.error e,s)) ∨
    createRefusal request = none ∧
      s.createCreditLine request now = (.ok (s.repository.create request).1,
        { s with repository := (s.repository.create request).2 }.emit
          (.opened now s.repository.nextId request.walletAddress request.creditLimit)) := by
  unfold createCreditLine
  cases createRefusal request with
  | some e => exact .inl ⟨e,rfl⟩
  | none => exact .inr ⟨rfl,rfl⟩

theorem updateRefusal_eq_none {request : UpdateCreditLineRequest A} :
    updateRefusal request = none ↔ limitRefused request = false ∧ rateRefused request = false := by
  unfold updateRefusal
  cases limitRefused request <;> cases rateRefused request <;> simp

/-- A patch that changes a stored line, the service's checks included. -/
structure Patches (s : Service A) (id : Uuid) (request : UpdateCreditLineRequest A)
    (existing : CreditLine A) : Prop where
  accepted : updateRefusal request = none
  found : s.repository.creditLines.get id = some existing
  fresh : isStale request existing = false

theorem updateCreditLine_cases (s : Service A) (id : Uuid) (request : UpdateCreditLineRequest A) :
    (s.updateCreditLine id request).2 = s ∨
    ∃ existing, Patches s id request existing ∧
      (s.updateCreditLine id request).2 = { s with repository := { s.repository with
        creditLines := s.repository.creditLines.set id (patched request existing) } } := by
  unfold updateCreditLine
  cases hr : updateRefusal request with
  | some e => exact .inl rfl
  | none =>
      cases Repository.update_cases s.repository id request with
      | inl hsame =>
          refine .inl ?_
          dsimp only
          rw [hsame]
      | inr hset =>
          obtain ⟨existing,hget,hfresh,hset⟩ := hset
          refine .inr ⟨existing,⟨hr,hget,hfresh⟩,?_⟩
          dsimp only
          rw [hset]

theorem updateCreditLine_answer {s : Service A} {id : Uuid} {request : UpdateCreditLineRequest A}
    {existing : CreditLine A} (h : Patches s id request existing) :
    (s.updateCreditLine id request).1 = .ok (some (patched request existing)) := by
  unfold updateCreditLine
  rw [h.accepted]
  dsimp only
  rw [Repository.update_fresh h.found h.fresh]

end Service

/-! ## Sequences of calls -/

/-- A call of the service, with the instants at which it stamps its events. -/
inductive Call (A : Arithmetic) where
  | createCreditLine (request : CreateCreditLineRequest A) (now : ℤ)
  | updateCreditLine (id : Uuid) (request : UpdateCreditLineRequest A)
  | deleteCreditLine (id : Uuid)
  | draw (id : Uuid) (borrowerId : String) (amount : A.Text) (requestedAt confirmedAt : ℤ)
  | repay (id : Uuid) (walletAddress : String) (amount : A.Text) (confirmedAt : ℤ)

def Service.step (s : Service A) : Call A → Service A
  | .createCreditLine request now => (s.createCreditLine request now).2
  | .updateCreditLine id request => (s.updateCreditLine id request).2
  | .deleteCreditLine id => (s.deleteCreditLine id).2
  | .draw id borrowerId amount requestedAt confirmedAt =>
      (s.draw id borrowerId amount requestedAt confirmedAt).2
  | .repay id walletAddress amount confirmedAt => (s.repay id walletAddress amount confirmedAt).2

/-- The lines a call writes, each under its id. -/
inductive Writes (s : Service A) : Call A → Uuid → CreditLine A → Prop
  | created {request : CreateCreditLineRequest A} {now : ℤ}
      (accepted : Service.createRefusal request = none) :
      Writes s (.createCreditLine request now) s.repository.nextId (s.repository.create request).1
  | updated {id : Uuid} {request : UpdateCreditLineRequest A} {existing : CreditLine A}
      (patches : Service.Patches s id request existing) :
      Writes s (.updateCreditLine id request) id (patched request existing)
  | drawn {id : Uuid} {borrowerId : String} {amount : A.Text} {requestedAt confirmedAt : ℤ}
      {line : CreditLine A} (found : s.repository.creditLines.get id = some line)
      (drawable : Service.Drawable line borrowerId amount) :
      Writes s (.draw id borrowerId amount requestedAt confirmedAt) id
        (patched { utilized := some (Service.drawn line amount) } line)
  | repaid {id : Uuid} {walletAddress : String} {amount : A.Text} {confirmedAt : ℤ}
      {line : CreditLine A} (found : s.repository.creditLines.get id = some line) :
      Writes s (.repay id walletAddress amount confirmedAt) id
        (patched { utilized := some (Service.repaid line amount) } line)

/-- What holds of every stored line and of every line a call writes holds after the call. -/
theorem Service.forall_lines_step {P : Uuid → CreditLine A → Prop} {s : Service A} {call : Call A}
    (h : ∀ id line, s.repository.creditLines.get id = some line → P id line)
    (hw : ∀ id line, Writes s call id line → P id line) :
    ∀ id line, (s.step call).repository.creditLines.get id = some line → P id line := by
  cases call with
  | createCreditLine request now =>
      rcases createCreditLine_cases s request now with ⟨e,hno⟩ | ⟨haccepted,hyes⟩
      · simp only [step,hno]
        exact h
      · simp only [step,hyes]
        exact InsertionMap.forall_get_set h (hw _ _ (.created haccepted))
  | updateCreditLine id request =>
      rcases updateCreditLine_cases s id request with hno | ⟨existing,hpatches,hyes⟩
      · simp only [step,hno]
        exact h
      · simp only [step,hyes]
        exact InsertionMap.forall_get_set h (hw _ _ (.updated hpatches))
  | deleteCreditLine id => exact InsertionMap.forall_get_delete h id
  | draw id borrowerId amount requestedAt confirmedAt =>
      rcases draw_cases s id borrowerId amount requestedAt confirmedAt with
        ⟨e,hno⟩ | ⟨line,hget,hdrawable,hyes⟩
      · simp only [step,hno]
        exact h
      · simp only [step,hyes]
        exact InsertionMap.forall_get_set h (hw _ _ (.drawn hget hdrawable))
  | repay id walletAddress amount confirmedAt =>
      rcases repay_cases s id walletAddress amount confirmedAt with ⟨e,hno⟩ | ⟨line,hget,_,_,hyes⟩
      · simp only [step,hno]
        exact h
      · simp only [step,hyes]
        exact InsertionMap.forall_get_set h (hw _ _ (.repaid hget))

end Creditra.MemoryCreditLines
