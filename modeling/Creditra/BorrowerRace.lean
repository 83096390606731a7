import Creditra.PostgresCluster

/-!
# Racing to create a borrower

Calls of `createCreditLine`, each on a session of its own. `ensureBorrower`
looks for the wallet's borrower, inserts one if there is none, and looks again
when the insertion meets a unique violation. Inside the transaction of the
service the violation has already failed everything that follows it, so the
second look is refused, and that refusal is what the call rejects with.

The repository module uses three names of `errors/` without importing them.
Whether they resolve is a parameter; a name that does not is a `ReferenceError`.
-/
namespace Creditra.BorrowerRace
open CreditModels AwaitTasks GuardedRuns PostgresCluster
open PostgresSession (CreditLineRow)

/-! ## The code -/

structure ConflictError where
  code : String
  message : String
  resource : String
  details : List (String × String)
  deriving DecidableEq

inductive Rejection where
  | error (message : String)
  | conflict (conflict : ConflictError)
  | reference (name : String)
  | database (error : SqlError)
  deriving DecidableEq

/-- Which of the names that are not imported resolve. -/
structure Scope where
  duplicateResource : Bool
  conflictError : Bool
  conflictFromUniqueViolation : Bool
  deriving DecidableEq

/-- The module as it stands. -/
def Scope.unimported : Scope := ⟨false,false,false⟩

def openLineMessage : String :=
  "An open credit line already exists for this wallet. Close it before opening another."

def statusText : CreditLineStatus → String
  | .active => "active"
  | .suspended => "suspended"
  | .closed => "closed"
  | .pending => "pending"

/-- What `throw duplicateResource(...)` throws. -/
def Scope.duplicate (scope : Scope) (status : CreditLineStatus) : Rejection :=
  if scope.duplicateResource then
    .conflict ⟨"duplicate_resource",openLineMessage,"credit_line",
      [("field","walletAddress"),("existingStatus",statusText status)]⟩
  else .reference "duplicateResource"

/-- What `throw new ConflictError(...)` throws. -/
def Scope.taken (scope : Scope) : Rejection :=
  if scope.conflictError then
    .conflict ⟨"duplicate_resource",openLineMessage,"credit_line",
      [("field","walletAddress"),("reason","unique_constraint")]⟩
  else .reference "ConflictError"

def resourceFromConstraint : UniqueIndex → String
  | .borrowersWalletAddressKey => "borrower"
  | .creditLinesOneOpenPerBorrower => "credit_line"

def safeMessage : UniqueIndex → String
  | .borrowersWalletAddressKey => "A borrower with this identity already exists."
  | .creditLinesOneOpenPerBorrower => "A credit line for this resource already exists."

def conflictFromUniqueViolation : Rejection → Option ConflictError
  | .database (.uniqueViolation index) => some ⟨"unique_constraint_violation",safeMessage index,
      resourceFromConstraint index,[("reason","unique_constraint")]⟩
  | _ => none

/-- What calling the name comes to. -/
def conflictIn (scope : Scope) (err : Rejection) : Except Rejection (Option ConflictError) :=
  if scope.conflictFromUniqueViolation then .ok (conflictFromUniqueViolation err)
  else .error (.reference "conflictFromUniqueViolation")

abbrev SqlTask := Task Statement Statement.Answer Rejection

def query (q : Statement) : SqlTask q.Rows :=
  .await q fun answer => .done (answer.mapError .database)

/-- The second look of `ensureBorrower`. -/
def retryBorrower (walletAddress : String) (conflict : ConflictError) : SqlTask Uuid := do
  let retry ← query (.selectBorrower walletAddress)
  match retry with
  | some id => pure id
  | none => Task.throw (.conflict conflict)

/-- The `catch` clause of `ensureBorrower`. -/
def recoverBorrower (scope : Scope) (walletAddress : String) (err : Rejection) : SqlTask Uuid :=
  match conflictIn scope err with
  | .error reference => Task.throw reference
  | .ok (some conflict) => retryBorrower walletAddress conflict
  | .ok none => Task.throw err

def insertBorrower (scope : Scope) (walletAddress : String) : SqlTask Uuid :=
  Task.handle (query (.insertBorrower walletAddress)) (recoverBorrower scope walletAddress)

def ensureBorrower (scope : Scope) (walletAddress : String) : SqlTask Uuid := do
  let found ← query (.selectBorrower walletAddress)
  match found with
  | some id => pure id
  | none => insertBorrower scope walletAddress

def getWalletAddress (borrowerId : Uuid) : SqlTask String := do
  let result ← query (.selectWallet borrowerId)
  match result with
  | some walletAddress => pure walletAddress
  | none => Task.throw (.error ("Borrower not found: " ++ toString borrowerId))

/-- The end of `create`, once the line is there. -/
def returnLine (borrowerId : Uuid) (row : CreditLineRow) : SqlTask CreditLine := do
  let walletAddress ← getWalletAddress borrowerId
  pure ⟨row.id,walletAddress,row.creditLimit,row.creditLimit,0,row.interestRateBps,row.status,
    some row.version⟩

/-- `create` from the insertion of the line on. -/
def insertLine (scope : Scope) (request : CreateCreditLineRequest) (borrowerId : Uuid) :
    SqlTask CreditLine := do
  let row ← Task.handle
    (query (.insertCreditLine borrowerId request.creditLimit request.interestRateBps)) fun err =>
      Task.throw (match conflictIn scope err with
        | .error reference => reference
        | .ok (some _) => scope.taken
        | .ok none => err)
  returnLine borrowerId row

/-- `create` from the check for an open line on. -/
def openLine (scope : Scope) (request : CreateCreditLineRequest) (borrowerId : Uuid) :
    SqlTask CreditLine := do
  let openCheck ← query (.selectOpenLine borrowerId)
  match openCheck with
  | some status => Task.throw (scope.duplicate status)
  | none => insertLine scope request borrowerId

def create (scope : Scope) (request : CreateCreditLineRequest) : SqlTask CreditLine := do
  let borrowerId ← ensureBorrower scope request.walletAddress
  openLine scope request borrowerId

/-- The `catch` clause of `withTransaction`. -/
def rollbackAfter (error : Rejection) : SqlTask CreditLine := do
  Task.handle (query .rollback) fun _ => pure ()
  Task.throw error

/-- `withTransaction` once its `BEGIN` is through. -/
def begun (work : SqlTask CreditLine) : SqlTask CreditLine :=
  Task.handle (do
      let result ← work
      query .commit
      pure result)
    rollbackAfter

def withTransaction (work : SqlTask CreditLine) : SqlTask CreditLine := do
  query .begin
  begun work

def createCreditLine (scope : Scope) (request : CreateCreditLineRequest) : SqlTask CreditLine :=
  if request.walletAddress = "" then Task.throw (.error "Wallet address is required")
  else if request.creditLimit ≤ 0 then
    Task.throw (.error "Credit limit must be greater than 0")
  else if request.interestRateBps < 0 ∨ request.interestRateBps > 10000 then
    Task.throw (.error "Interest rate must be between 0 and 10000 basis points")
  else withTransaction (create scope request)

/-! ## Runs -/

abbrev Race := Pool Statement Statement.Answer Rejection CreditLine Cluster

/-- Each call on a session of its own. -/
def start (scope : Scope) (requests : List CreateCreditLineRequest) (committed : Tables)
    (nextId : Uuid) : Race :=
  ⟨⟨committed,fun _ => .idle,requests.length,nextId⟩,requests.map (createCreditLine scope)⟩

/-- The statement call `i` awaits cannot be executed yet. -/
def Waits (p : Race) (i : ℕ) : Bool :=
  match p.tasks[i]?.bind Task.awaited with
  | some q => p.store.waits i q
  | none => false

/-- One call moves, unless its statement waits for another session. -/
def step (p : Race) (i : ℕ) : Race := if Waits p i then p else p.step exec (i,())

def Acceptable : Except Rejection CreditLine → Prop
  | .ok _ => True
  | .error (.conflict _) => True
  | .error _ => False

instance (r : Except Rejection CreditLine) : Decidable (Acceptable r) :=
  match r with
  | .ok _ | .error (.conflict _) => inferInstanceAs (Decidable True)
  | .error (.error _) | .error (.reference _) | .error (.database _) =>
      inferInstanceAs (Decidable False)

theorem acceptable_duplicate {scope : Scope} {status : CreditLineStatus} :
    Acceptable (.error (scope.duplicate status)) ↔ scope.duplicateResource = true := by
  unfold Scope.duplicate
  split_ifs with h
  · exact iff_of_true trivial h
  · exact iff_of_false id h

theorem acceptable_taken {scope : Scope} :
    Acceptable (.error scope.taken) ↔ scope.conflictError = true := by
  unfold Scope.taken
  split_ifs with h
  · exact iff_of_true trivial h
  · exact iff_of_false id h

/-- Every call that has settled has succeeded or rejects with a conflict. -/
def Handled (p : Race) : Prop := ∀ i r, p.result i = some r → Acceptable r

/-- No borrower of the wallet is visible when one is inserted; and where a name does not resolve,
no open line is met where the name is used. -/
def Admits (scope : Scope) (c : Cluster) (i : ℕ) : Statement → Prop
  | .insertBorrower walletAddress => (c.visible i).borrowerOf walletAddress = none
  | .selectOpenLine borrowerId =>
      scope.duplicateResource = true ∨ (c.visible i).openLine borrowerId = none
  | .insertCreditLine borrowerId _ _ =>
      (scope.conflictFromUniqueViolation = true ∧ scope.conflictError = true) ∨
        (c.visible i).openLine borrowerId = none
  | _ => True

instance (scope : Scope) (c : Cluster) (i : ℕ) (q : Statement) : Decidable (Admits scope c i q) :=
  match q with
  | .insertBorrower walletAddress =>
      inferInstanceAs (Decidable ((c.visible i).borrowerOf walletAddress = none))
  | .selectOpenLine _ | .insertCreditLine _ _ _ => inferInstanceAs (Decidable (_ ∨ _))
  | .begin | .commit | .rollback | .selectBorrower _ | .selectWallet _ =>
      inferInstanceAs (Decidable True)

/-- The guard on the next statement of call `i`. -/
def Admitted (scope : Scope) (p : Race) (i : ℕ) : Prop :=
  ∀ q, p.tasks[i]?.bind Task.awaited = some q → Admits scope p.store i q

instance (scope : Scope) (p : Race) (i : ℕ) : Decidable (Admitted scope p i) :=
  inferInstanceAs (Decidable (∀ q, p.tasks[i]?.bind Task.awaited = some q →
    Admits scope p.store i q))

/-! ## Where a call is -/

/-- A call on its way to an acceptable end, with what it has seen. -/
inductive Point (scope : Scope) (c : Cluster) (i : ℕ) : SqlTask CreditLine → Prop
  | starting (request : CreateCreditLineRequest) (idle : c.transactions i = .idle) :
      Point scope c i (withTransaction (create scope request))
  | selecting (request : CreateCreditLineRequest) {own : Tables}
      (running : c.transactions i = .running own) :
      Point scope c i (begun (create scope request))
  | inserting (request : CreateCreditLineRequest) {own : Tables}
      (running : c.transactions i = .running own) :
      Point scope c i (begun (insertBorrower scope request.walletAddress >>= openLine scope request))
  | checking (request : CreateCreditLineRequest) {own : Tables} {borrowerId : Uuid}
      (running : c.transactions i = .running own)
      (borrower : (c.visible i).HasBorrower borrowerId) :
      Point scope c i (begun (openLine scope request borrowerId))
  | adding (request : CreateCreditLineRequest) {own : Tables} {borrowerId : Uuid}
      (running : c.transactions i = .running own)
      (borrower : (c.visible i).HasBorrower borrowerId) :
      Point scope c i (begun (insertLine scope request borrowerId))
  | reading {own : Tables} {borrowerId : Uuid} {row : CreditLineRow}
      (running : c.transactions i = .running own)
      (borrower : (c.visible i).HasBorrower borrowerId) :
      Point scope c i (begun (returnLine borrowerId row))
  | committing {own : Tables} {line : CreditLine} (running : c.transactions i = .running own) :
      Point scope c i (begun (.done (.ok line)))
  | rolling {e : Rejection} (acceptable : Acceptable (.error e)) : Point scope c i (rollbackAfter e)
  | settled {r : Except Rejection CreditLine} (acceptable : Acceptable r) :
      Point scope c i (.done r)

/-- A call that cannot end acceptably any more. -/
inductive Doomed (scope : Scope) (c : Cluster) (i : ℕ) : SqlTask CreditLine → Prop
  | retrying (request : CreateCreditLineRequest) (conflict : ConflictError)
      (failed : c.transactions i = .failed) :
      Doomed scope c i
        (begun (retryBorrower request.walletAddress conflict >>= openLine scope request))
  | rolling {e : Rejection} (other : ¬ Acceptable (.error e)) : Doomed scope c i (rollbackAfter e)
  | settled {e : Rejection} (other : ¬ Acceptable (.error e)) : Doomed scope c i (.done (.error e))

section Others
variable {scope : Scope} {c : Cluster} {i j : ℕ} {q : Statement} {t : SqlTask CreditLine}

/-- A call stays where it is while others act. -/
theorem Point.others (h : Point scope c j t) (hne : j ≠ i) :
    Point scope (c.execute i q).2 j t := by
  have hsame : (c.execute i q).2.transactions j = c.transactions j := execute_other hne
  cases h with
  | starting request idle => exact .starting request (hsame.trans idle)
  | selecting request running => exact .selecting request (hsame.trans running)
  | inserting request running => exact .inserting request (hsame.trans running)
  | checking request running borrower =>
      exact .checking request (hsame.trans running) (hasBorrower_execute hne borrower)
  | adding request running borrower =>
      exact .adding request (hsame.trans running) (hasBorrower_execute hne borrower)
  | reading running borrower =>
      exact .reading (hsame.trans running) (hasBorrower_execute hne borrower)
  | committing running => exact .committing (hsame.trans running)
  | rolling acceptable => exact .rolling acceptable
  | settled acceptable => exact .settled acceptable

theorem Doomed.others (h : Doomed scope c j t) (hne : j ≠ i) :
    Doomed scope (c.execute i q).2 j t := by
  cases h with
  | retrying request conflict failed =>
      exact .retrying request conflict ((execute_other hne).trans failed)
  | rolling other => exact .rolling other
  | settled other => exact .settled other

end Others

section Own
variable {scope : Scope} {c : Cluster} {i : ℕ} {own : Tables}

/-- The task has awaited its statement, and goes on where it should. -/
def Advances (scope : Scope) (c : Cluster) (i : ℕ) (t : SqlTask CreditLine) : Prop :=
  ∃ q next, t = .await q next ∧
    (Admits scope c i q → Point scope (c.execute i q).2 i (next (c.execute i q).1)) ∧
    (¬ Admits scope c i q → Doomed scope (c.execute i q).2 i (next (c.execute i q).1))

theorem advances_starting (request : CreateCreditLineRequest) (h : c.transactions i = .idle) :
    Advances scope c i (withTransaction (create scope request)) := by
  refine ⟨.begin,_,rfl,fun _ => ?_,fun hno => absurd trivial hno⟩
  have hexecute : c.execute i .begin = (.ok (),c.put i (.running {})) := by
    simp [Cluster.execute,Cluster.perform,h,Transaction.own]
  rw [hexecute]
  exact .selecting request (put_self _)

theorem advances_selecting (request : CreateCreditLineRequest)
    (h : c.transactions i = .running own) :
    Advances scope c i (begun (create scope request)) := by
  refine ⟨.selectBorrower request.walletAddress,_,rfl,fun _ => ?_,fun hno => absurd trivial hno⟩
  rw [execute_of_running h,Cluster.perform]
  cases hfound : (c.visible i).borrowerOf request.walletAddress with
  | some id => exact .checking request h (hasBorrower_of_borrowerOf hfound)
  | none => exact .inserting request h

theorem advances_inserting (request : CreateCreditLineRequest)
    (h : c.transactions i = .running own) :
    Advances scope c i
      (begun (insertBorrower scope request.walletAddress >>= openLine scope request)) := by
  refine ⟨.insertBorrower request.walletAddress,_,rfl,fun hnone => ?_,fun hsome => ?_⟩
  · rw [execute_of_running h,Cluster.perform,conflict_insertBorrower.mpr hnone]
    refine .checking request (insert_running h) ⟨⟨c.nextId,request.walletAddress⟩,?_,rfl⟩
    rw [visible_insert h]
    exact List.mem_append_right _ List.mem_cons_self
  · obtain ⟨index,hindex⟩ := Option.ne_none_iff_exists'.mp (mt conflict_insertBorrower.mp hsome)
    rw [execute_of_running h,Cluster.perform,hindex]
    obtain ⟨duplicateResource,conflictError,resolves⟩ := scope
    cases resolves with
    | true => exact .retrying request _ (fail_running h)
    | false => exact .rolling id

theorem advances_checking (request : CreateCreditLineRequest) {borrowerId : Uuid}
    (h : c.transactions i = .running own) (hb : (c.visible i).HasBorrower borrowerId) :
    Advances scope c i (begun (openLine scope request borrowerId)) := by
  refine ⟨.selectOpenLine borrowerId,_,rfl,fun hadmits => ?_,fun hno => ?_⟩
  · rw [execute_of_running h,Cluster.perform]
    cases hopen : (c.visible i).openLine borrowerId with
    | none => exact .adding request h hb
    | some status =>
        refine .rolling (acceptable_duplicate.mpr (hadmits.resolve_right ?_))
        simp only [hopen,reduceCtorEq,not_false_eq_true]
  · obtain ⟨hscope,hopen⟩ := not_or.mp hno
    obtain ⟨status,hstatus⟩ := Option.ne_none_iff_exists'.mp hopen
    rw [execute_of_running h,Cluster.perform,hstatus]
    exact .rolling (mt acceptable_duplicate.mp hscope)

theorem advances_adding (request : CreateCreditLineRequest) {borrowerId : Uuid}
    (h : c.transactions i = .running own) (hb : (c.visible i).HasBorrower borrowerId) :
    Advances scope c i (begun (insertLine scope request borrowerId)) := by
  refine ⟨.insertCreditLine borrowerId request.creditLimit request.interestRateBps,_,rfl,
    fun hadmits => ?_,fun hno => ?_⟩
  · rw [execute_of_running h,Cluster.perform]
    cases hindex : (c.visible i).conflict
        (.insertCreditLine borrowerId request.creditLimit request.interestRateBps) with
    | none =>
        simp only [walletOf_isSome.mpr hb,if_true]
        refine .reading (insert_running h) ?_
        obtain ⟨row,hrow,hid⟩ := hb
        refine ⟨row,?_,hid⟩
        rw [visible_insert h]
        exact List.mem_append_left _ hrow
    | some index =>
        obtain ⟨hresolves,hconflict⟩ := hadmits.resolve_right fun hopen => by
          rw [conflict_insertCreditLine.mpr hopen] at hindex
          cases hindex
        obtain ⟨duplicateResource,conflictError,resolves⟩ := scope
        obtain rfl : resolves = true := hresolves
        exact .rolling (acceptable_taken.mpr hconflict)
  · obtain ⟨hscope,hopen⟩ := not_or.mp hno
    obtain ⟨index,hindex⟩ :=
      Option.ne_none_iff_exists'.mp (mt conflict_insertCreditLine.mp hopen)
    rw [execute_of_running h,Cluster.perform,hindex]
    obtain ⟨duplicateResource,conflictError,resolves⟩ := scope
    cases resolves with
    | true => exact .rolling (mt acceptable_taken.mp fun hconflict => hscope ⟨rfl,hconflict⟩)
    | false => exact .rolling id

theorem advances_reading {borrowerId : Uuid} {row : CreditLineRow}
    (h : c.transactions i = .running own) (hb : (c.visible i).HasBorrower borrowerId) :
    Advances scope c i (begun (returnLine borrowerId row)) := by
  refine ⟨.selectWallet borrowerId,_,rfl,fun _ => ?_,fun hno => absurd trivial hno⟩
  obtain ⟨walletAddress,hwallet⟩ := Option.isSome_iff_exists.mp (walletOf_isSome.mpr hb)
  rw [execute_of_running h,Cluster.perform,hwallet]
  exact .committing h

theorem advances_committing {line : CreditLine} (h : c.transactions i = .running own) :
    Advances scope c i (begun (.done (.ok line))) := by
  refine ⟨.commit,_,rfl,fun _ => ?_,fun hno => absurd trivial hno⟩
  rw [execute_of_running h]
  exact .settled trivial

/-- `ROLLBACK` is never refused. -/
theorem execute_rollback : (c.execute i .rollback).1 = .ok () := by
  unfold Cluster.execute
  split
  · rfl
  · rfl

theorem advances_rolling {e : Rejection} (he : Acceptable (.error e)) :
    Advances scope c i (rollbackAfter e) := by
  refine ⟨.rollback,_,rfl,fun _ => ?_,fun hno => absurd trivial hno⟩
  rw [execute_rollback]
  exact .settled he

/-- A call on its way has settled, or its next statement takes it on. -/
theorem Point.advance {t : SqlTask CreditLine} (h : Point scope c i t) :
    (∃ r, t = .done r ∧ Acceptable r) ∨ Advances scope c i t := by
  cases h with
  | starting request idle => exact .inr (advances_starting request idle)
  | selecting request running => exact .inr (advances_selecting request running)
  | inserting request running => exact .inr (advances_inserting request running)
  | checking request running borrower => exact .inr (advances_checking request running borrower)
  | adding request running borrower => exact .inr (advances_adding request running borrower)
  | reading running borrower => exact .inr (advances_reading running borrower)
  | committing running => exact .inr (advances_committing running)
  | rolling acceptable => exact .inr (advances_rolling acceptable)
  | settled acceptable => exact .inl ⟨_,rfl,acceptable⟩

/-- Nothing takes a doomed call back. -/
theorem Doomed.advance {t : SqlTask CreditLine} (h : Doomed scope c i t) :
    (∃ e, t = .done (.error e) ∧ ¬ Acceptable (.error e)) ∨
    ∃ q next, t = .await q next ∧ Doomed scope (c.execute i q).2 i (next (c.execute i q).1) := by
  cases h with
  | retrying request conflict failed =>
      refine .inr ⟨.selectBorrower request.walletAddress,_,rfl,?_⟩
      rw [execute_of_failed failed]
      exact .rolling id
  | @rolling e other =>
      refine .inr ⟨.rollback,_,rfl,?_⟩
      rw [execute_rollback]
      exact .settled other
  | settled other => exact .inl ⟨_,rfl,other⟩

/-- An insertion that meets a row it can see does not wait. -/
theorem waits_of_conflict {q : Statement} (h : (c.visible i).conflict q ≠ none) :
    c.waits i q = false := by
  have htaken : ((c.visible i).conflict q).isNone = false :=
    Option.isNone_eq_false_iff.mpr (Option.isSome_iff_ne_none.mpr h)
  simp only [Cluster.waits,htaken,Bool.and_false,Bool.false_and]

/-- A statement the guard refuses is executed at once. -/
theorem waits_of_not_admits {q : Statement} (h : ¬ Admits scope c i q) : c.waits i q = false := by
  cases q with
  | begin | commit | rollback | selectBorrower _ | selectWallet _ => exact absurd trivial h
  | selectOpenLine borrowerId => simp [Cluster.waits,Tables.conflict]
  | insertBorrower walletAddress => exact waits_of_conflict (mt conflict_insertBorrower.mp h)
  | insertCreditLine borrowerId creditLimit interestRateBps =>
      exact waits_of_conflict (mt conflict_insertCreditLine.mp (not_or.mp h).2)

end Own

/-! ## All calls together -/

/-- Every call is on its way to an acceptable end. -/
def Sound (scope : Scope) (p : Race) : Prop :=
  ∀ i t, p.tasks[i]? = some t → Point scope p.store i t

/-- Some call cannot end acceptably any more. -/
def Lost (scope : Scope) (p : Race) : Prop :=
  ∃ i t, p.tasks[i]? = some t ∧ Doomed scope p.store i t

section Calls
variable {scope : Scope} {p : Race} {i : ℕ}

/-- Everything a step can do: nothing, or one statement of one call. -/
theorem step_cases (p : Race) (i : ℕ) :
    step p i = p ∨ ∃ q next, p.tasks[i]? = some (.await q next) ∧
      step p i = ⟨(p.store.execute i q).2,p.tasks.set i (next (p.store.execute i q).1)⟩ := by
  unfold step
  split
  · exact .inl rfl
  · rcases Pool.step_cases exec p i () with ⟨hstay,-⟩ | hmove
    · exact .inl hstay
    · exact .inr hmove

theorem step_of_not_waits {q : Statement} {next : q.Answer → SqlTask CreditLine}
    (ht : p.tasks[i]? = some (.await q next)) (h : Waits p i = false) :
    step p i = ⟨(p.store.execute i q).2,p.tasks.set i (next (p.store.execute i q).1)⟩ := by
  unfold step
  rw [if_neg (by simp [h]),Pool.step_await ht]
  rfl

/-- An admitted step keeps every call on its way. -/
theorem sound_step (h : Sound scope p) (hadmitted : Admitted scope p i) :
    Sound scope (step p i) := by
  rcases step_cases p i with hstay | ⟨q,next,ht,hmove⟩
  · rw [hstay]
    exact h
  · rw [hmove]
    intro j u hu
    rcases moved_cases hu with ⟨rfl,rfl⟩ | ⟨hne,hold⟩
    · rcases (h j _ ht).advance with ⟨r,he,-⟩ | ⟨q',next',he,hpoint,-⟩
      · cases he
      · cases he
        exact hpoint (hadmitted q (by simp [ht]))
    · exact (h j u hold).others hne

/-- A step that is not admitted loses its call. -/
theorem lost_of_sound (h : Sound scope p) (hno : ¬ Admitted scope p i) :
    Lost scope (step p i) := by
  obtain ⟨q,hq,hrefused⟩ : ∃ q, p.tasks[i]?.bind Task.awaited = some q ∧
      ¬ Admits scope p.store i q := by
    simpa only [Admitted,not_forall,exists_prop] using hno
  obtain ⟨t,ht,hawaited⟩ := Option.bind_eq_some_iff.mp hq
  rcases (h i t ht).advance with ⟨r,rfl,-⟩ | ⟨q',next,rfl,-,hdoomed⟩
  · cases hawaited
  · cases hawaited
    have hwaits : Waits p i = false := by
      unfold Waits
      rw [hq]
      exact waits_of_not_admits hrefused
    rw [step_of_not_waits ht hwaits]
    exact ⟨i,_,moved ht _,hdoomed hrefused⟩

/-- A lost call stays lost. -/
theorem lost_step (h : Lost scope p) : Lost scope (step p i) := by
  obtain ⟨j,u,hu,hdoomed⟩ := h
  rcases step_cases p i with hstay | ⟨q,next,ht,hmove⟩
  · rw [hstay]
    exact ⟨j,u,hu,hdoomed⟩
  · rw [hmove]
    by_cases hne : j = i
    · subst hne
      obtain rfl := Option.some.inj (hu.symm.trans ht)
      rcases hdoomed.advance with ⟨e,he,-⟩ | ⟨q',next',he,hnext⟩
      · cases he
      · cases he
        exact ⟨j,_,moved ht _,hnext⟩
    · refine ⟨j,u,?_,hdoomed.others hne⟩
      rw [List.getElem?_set_ne (Ne.symm hne)]
      exact hu

/-- From a state where every call is on its way, a run is admitted throughout or loses a call. -/
theorem guarded_or_lost (h : Sound scope p) (schedule : List ℕ) :
    Guarded step (Admitted scope) p schedule ∨ Lost scope (run step p schedule) := by
  induction schedule generalizing p with
  | nil => exact .inl trivial
  | cons i rest ih =>
      by_cases hadmitted : Admitted scope p i
      · exact (ih (sound_step h hadmitted)).imp (And.intro hadmitted) id
      · exact .inr (run_induction (fun _ _ => lost_step) (lost_of_sound h hadmitted) rest)

theorem handled_of_sound (h : Sound scope p) : Handled p := by
  intro i r hr
  rcases (h i _ (Pool.result_eq_some.mp hr)).advance with ⟨r',he,hr'⟩ | ⟨q,next,he,-⟩
  · cases he
    exact hr'
  · cases he

theorem not_handled_of_lost (h : Lost scope p) (hsettled : p.Settled) : ¬ Handled p := by
  obtain ⟨i,t,ht,hdoomed⟩ := h
  intro hhandled
  obtain ⟨r,rfl⟩ := hsettled.done (List.mem_of_getElem? ht)
  rcases hdoomed.advance with ⟨e,he,hother⟩ | ⟨q,next,he,-⟩
  · cases he
    exact hother (hhandled i _ (Pool.result_eq_some.mpr ht))
  · cases he

end Calls

/-! ## From the requests on -/

/-- The checks of `createCreditLine` before its transaction. -/
def Valid (request : CreateCreditLineRequest) : Prop :=
  request.walletAddress ≠ "" ∧ 0 < request.creditLimit ∧ 0 ≤ request.interestRateBps ∧
    request.interestRateBps ≤ 10000

instance (request : CreateCreditLineRequest) : Decidable (Valid request) :=
  inferInstanceAs (Decidable (_ ∧ _))

section Requests
variable {scope : Scope} {requests : List CreateCreditLineRequest} {committed : Tables}
  {nextId : Uuid}

theorem createCreditLine_valid {request : CreateCreditLineRequest} (h : Valid request) :
    createCreditLine scope request = withTransaction (create scope request) := by
  obtain ⟨hwallet,hlimit,hlow,hhigh⟩ := h
  have hnot : ¬ request.creditLimit ≤ 0 := Rat.not_le.mpr hlimit
  unfold createCreditLine
  rw [if_neg hwallet,if_neg hnot,if_neg (by omega)]

theorem createCreditLine_invalid (scope : Scope) {request : CreateCreditLineRequest}
    (h : ¬ Valid request) :
    ∃ message, createCreditLine scope request = .done (.error (.error message)) := by
  unfold createCreditLine
  split_ifs with hwallet hlimit hrate
  · exact ⟨_,rfl⟩
  · exact ⟨_,rfl⟩
  · exact ⟨_,rfl⟩
  · obtain ⟨hlow,hhigh⟩ := not_or.mp hrate
    exact absurd ⟨hwallet,Rat.not_le.mp hlimit,by omega,by omega⟩ h

theorem start_tasks {i : ℕ} {t : SqlTask CreditLine}
    (h : (start scope requests committed nextId).tasks[i]? = some t) :
    ∃ request, requests[i]? = some request ∧ createCreditLine scope request = t := by
  rw [start,List.getElem?_map] at h
  exact Option.map_eq_some_iff.mp h

theorem start_sound (h : ∀ request ∈ requests, Valid request) :
    Sound scope (start scope requests committed nextId) := by
  intro i t ht
  obtain ⟨request,hrequest,rfl⟩ := start_tasks ht
  rw [createCreditLine_valid (h request (List.mem_of_getElem? hrequest))]
  exact .starting request rfl

theorem start_lost (h : ¬ ∀ request ∈ requests, Valid request) :
    Lost scope (start scope requests committed nextId) := by
  obtain ⟨request,hmem,hinvalid⟩ : ∃ request ∈ requests, ¬ Valid request := by
    simpa only [not_forall,exists_prop] using h
  obtain ⟨i,hi⟩ := List.mem_iff_getElem?.mp hmem
  obtain ⟨message,hmessage⟩ := createCreditLine_invalid scope hinvalid
  refine ⟨i,.done (.error (.error message)),?_,.settled id⟩
  rw [start,List.getElem?_map,hi,Option.map_some,hmessage]

variable {schedule before : List ℕ}

theorem handled_of_guarded (hvalid : ∀ request ∈ requests, Valid request)
    (hguarded : Guarded step (Admitted scope) (start scope requests committed nextId) schedule)
    (hbefore : before <+: schedule) :
    Handled (run step (start scope requests committed nextId) before) :=
  handled_of_sound (run_invariant_passed (fun _ _ => sound_step) (start_sound hvalid) hguarded
    hbefore)

/-- A run not of the kind described has lost a call at its end. -/
theorem lost_of_not (h : ¬ ((∀ request ∈ requests, Valid request) ∧
      Guarded step (Admitted scope) (start scope requests committed nextId) schedule)) :
    Lost scope (run step (start scope requests committed nextId) schedule) := by
  by_cases hvalid : ∀ request ∈ requests, Valid request
  · rcases guarded_or_lost (start_sound hvalid) schedule with hguarded | hlost
    · exact absurd ⟨hvalid,hguarded⟩ h
    · exact hlost
  · exact run_induction (I := Lost scope) (fun _ _ => lost_step) (start_lost hvalid) schedule

end Requests

/-- Calls of `createCreditLine` for any wallets, in any interleaving: while every request passes
the service's checks and every statement is admitted, each call that has settled has succeeded or
rejects with a conflict; and a run in which every call has settled is of that kind. -/
theorem race_handled_iff (scope : Scope) (requests : List CreateCreditLineRequest)
    (committed : Tables) (nextId : Uuid) (schedule : List ℕ) :
    ((∀ request ∈ requests, Valid request) →
      Guarded step (Admitted scope) (start scope requests committed nextId) schedule →
      ∀ before, before <+: schedule →
        Handled (run step (start scope requests committed nextId) before)) ∧
    ((run step (start scope requests committed nextId) schedule).Settled →
      (Handled (run step (start scope requests committed nextId) schedule) ↔
        (∀ request ∈ requests, Valid request) ∧
          Guarded step (Admitted scope) (start scope requests committed nextId) schedule)) := by
  refine ⟨fun hvalid hguarded before hbefore => handled_of_guarded hvalid hguarded hbefore,
    fun hsettled => ⟨fun hhandled => ?_,fun h => ?_⟩⟩
  · exact by_contra fun hnot => not_handled_of_lost (lost_of_not hnot) hsettled hhandled
  · exact handled_of_guarded h.1 h.2 (List.prefix_refl schedule)

def alice : CreateCreditLineRequest := ⟨"alice",1000,500⟩

/-- Two calls for a new wallet, one after the other: the second meets the line of the first. -/
def inTurn : List ℕ := [0,0,0,0,0,0,0,1,1,1,1]

theorem race_handled_in_turn :
    Guarded step (Admitted ⟨true,true,true⟩) (start ⟨true,true,true⟩ [alice,alice] {} 1) inTurn ∧
    (run step (start ⟨true,true,true⟩ [alice,alice] {} 1) inTurn).Settled ∧
    Handled (run step (start ⟨true,true,true⟩ [alice,alice] {} 1) inTurn) := by
  have hguarded : Guarded step (Admitted ⟨true,true,true⟩) (start ⟨true,true,true⟩ [alice,alice] {} 1)
      inTurn := by decide +kernel
  exact ⟨hguarded,by decide +kernel,(race_handled_iff ⟨true,true,true⟩ [alice,alice] {} 1 inTurn).1
    (by decide +kernel) hguarded inTurn (List.prefix_refl inTurn)⟩

/-- Two calls for a new wallet: both look for its borrower before either has inserted one. -/
def overtaken : List ℕ := [0,0,1,1,0,0,0,0,0,1,1,1]

theorem loser_not_a_conflict :
    Valid alice ∧
    (run step (start ⟨true,true,true⟩ [alice,alice] {} 1) overtaken).result 1 =
      some (.error (.database .inFailedTransaction)) ∧
    ¬ Handled (run step (start ⟨true,true,true⟩ [alice,alice] {} 1) overtaken) := by
  have hresult : (run step (start ⟨true,true,true⟩ [alice,alice] {} 1) overtaken).result 1 =
      some (.error (.database .inFailedTransaction)) := by decide +kernel
  exact ⟨by decide +kernel,hresult,fun h => h 1 _ hresult⟩

/-- In the module as it stands the loser does not get as far as the second look. -/
example : (run step (start .unimported [alice,alice] {} 1) overtaken).result 1 =
    some (.error (.reference "conflictFromUniqueViolation")) := by
  decide +kernel

end Creditra.BorrowerRace
