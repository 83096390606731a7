import Creditra.GuardedRuns
import Creditra.MemoryCreditLines

/-!
# Suspension and draws

Three stores of one process keep credit lines: the map of the functional module,
which `suspendCreditLine` and `closeCreditLine` write; the legacy array, which
`drawFromCreditLine` reads; and the repository of `CreditLineService`.
`submitDrawRequest` looks at none of them. No operation on the one store touches
another, so a line that is halted in the first can be drawn on in the others.

Where a line is halted only once nobody else holds it as active, and the draws
submitted for it meet a client that rejects them, no draw on it goes through until
one of the stores makes it active again.
-/
namespace Creditra.SuspendedDraws
open GuardedRuns CreditModels FloatNumbers InsertionMaps
open MemoryCreditLines (Service Writes floats patched CreateCreditLineRequest
  UpdateCreditLineRequest)

/-! ## The functional module -/

namespace Functional

inductive Status where
  | active | suspended | closed
  deriving DecidableEq

inductive Action where
  | created | suspended | closed
  deriving DecidableEq

structure CreditLine where
  id : String
  status : Status
  createdAt : ℤ
  updatedAt : ℤ
  events : List (Action × ℤ)

/-- The lines and, for each of them, its status changes. -/
structure Module where
  store : InsertionMap String CreditLine := .empty
  transactionStore : InsertionMap String (List (Action × ℤ)) := .empty

inductive Refusal where
  | notFound (id : String)
  | invalidTransition (currentStatus : Status) (requestedAction : String)
  | error (message : String)

def recordTransaction (m : Module) (id : String) (action : Action) (now : ℤ) : Module :=
  { m with
    transactionStore := m.transactionStore.set id
      (((m.transactionStore.get id).getD []) ++ [(action,now)]) }

/-- An id that is taken is taken over. -/
def createCreditLine (m : Module) (id : String) (status : Status) (now : ℤ) :
    CreditLine × Module :=
  let line : CreditLine := ⟨id,status,now,now,[(.created,now)]⟩
  (line,recordTransaction { m with store := m.store.set id line } id .created now)

/-- What suspending and closing write. -/
def changed (m : Module) (id : String) (line : CreditLine) (status : Status) (action : Action)
    (now : ℤ) : CreditLine × Module :=
  let line : CreditLine :=
    { line with status, updatedAt := now, events := line.events ++ [(action,now)] }
  (line,recordTransaction { m with store := m.store.set id line } id action now)

def suspendCreditLine (m : Module) (id : String) (now : ℤ) : Except Refusal (CreditLine × Module) :=
  match m.store.get id with
  | none => .error (.notFound id)
  | some line =>
      if line.status ≠ .active then .error (.invalidTransition line.status "suspend")
      else .ok (changed m id line .suspended .suspended now)

def closeCreditLine (m : Module) (id : String) (now : ℤ) : Except Refusal (CreditLine × Module) :=
  match m.store.get id with
  | none => .error (.notFound id)
  | some line =>
      if line.status = .closed then .error (.invalidTransition line.status "close")
      else .ok (changed m id line .closed .closed now)

end Functional

/-! ## The legacy array -/

namespace Legacy

inductive Status where
  | active | closed | suspended
  deriving DecidableEq

structure CreditLine where
  id : String
  borrowerId : String
  limit : Value
  utilized : Value
  status : Status

def normalizeStoredCreditLineStatus : Status → Functional.Status
  | .active => .active
  | .suspended => .suspended
  | .closed => .closed

def thousand : Value := .round 1000

/-- `creditLines` as the module loads it. -/
def creditLines : List CreditLine := [⟨"line-1","user-1",thousand,.zero,.active⟩]

def drawFromCreditLine (lines : List CreditLine) (id borrowerId : String) (amount : Value) :
    Except Functional.Refusal (CreditLine × List CreditLine) :=
  match lines.find? (·.id = id) with
  | none => .error (.notFound id)
  | some line =>
      if line.status ≠ .active then
        .error (.invalidTransition (normalizeStoredCreditLineStatus line.status) "draw")
      else if line.borrowerId ≠ borrowerId then
        .error (.error ("Borrower \"" ++ borrowerId ++
          "\" is not authorized to draw from credit line \"" ++ id ++ "\"."))
      else if amount.le .zero then
        .error (.error ("Draw amount must be greater than zero. Received " ++
          FloatNumbers.toText amount ++ "."))
      else
        let availableCredit := line.limit.sub line.utilized
        if availableCredit.lt amount then
          .error (.error ("Requested draw amount of " ++ FloatNumbers.toText amount ++
            " exceeds available credit of " ++ FloatNumbers.toText availableCredit ++
            " for credit line \"" ++ id ++ "\"."))
        else
          let drawn := { line with utilized := line.utilized.add amount }
          .ok (drawn,lines.set (lines.findIdx (·.id = id)) drawn)

end Legacy

/-! ## Submission -/

structure DrawBody where
  walletAddress : String
  amount : String

inductive SubmissionStatus where
  | submitted | pending

structure DrawResult where
  id : String
  walletAddress : String
  amount : String
  txHash : Option String
  status : SubmissionStatus

/-- `answer` is what the Soroban client returns for the draw, or the error it rejects with. -/
def submitDrawRequest (id : String) (body : DrawBody) (answer : Except String (Option String)) :
    Except String DrawResult :=
  match answer with
  | .error e => .error e
  | .ok txHash => .ok ⟨id,body.walletAddress,body.amount,txHash,
      match txHash with
      | some _ => .submitted
      | none => .pending⟩

/-- The client that is used where none is given. -/
def noopSorobanClient : Except String (Option String) := .ok none

/-! ## One process -/

/-- A draw, whether its line was halted, and whether it was rejected. -/
structure Draw where
  id : String
  halted : Bool
  rejected : Bool

/-- The three stores, the ids that were halted and not reactivated since, and the draws so far. -/
structure Process where
  functional : Functional.Module := {}
  creditLines : List Legacy.CreditLine := Legacy.creditLines
  service : Service floats := Service.empty floats
  halted : List String := []
  draws : List Draw := []

inductive Op where
  | createCreditLine (id : String) (status : Functional.Status) (now : ℤ)
  | suspendCreditLine (id : String) (now : ℤ)
  | closeCreditLine (id : String) (now : ℤ)
  | resetStore
  | drawFromCreditLine (id borrowerId : String) (amount : Value)
  | openCreditLine (request : CreateCreditLineRequest floats) (now : ℤ)
  | updateCreditLine (id : String) (request : UpdateCreditLineRequest floats)
  | deleteCreditLine (id : String)
  | draw (id borrowerId amount : String) (requestedAt confirmedAt : ℤ)
  | repay (id walletAddress amount : String) (confirmedAt : ℤ)
  | submitDrawRequest (id : String) (body : DrawBody) (answer : Except String (Option String))

section Steps
variable (uuid : Uuid → String)

/-- The line of the repository that has the id. -/
def located (service : Service floats) (id : String) : Option Uuid :=
  service.repository.creditLines.keys.find? (uuid · = id)

namespace Process

def halt (s : Process) (id : String) :
    Except Functional.Refusal (Functional.CreditLine × Functional.Module) → Process
  | .error _ => s
  | .ok r => { s with functional := r.2, halted := id :: s.halted }

/-- A halted line that one of the stores has made active is no longer halted. -/
def reactivate (s : Process) (id : String) (active : Bool) : Process :=
  if active then { s with halted := s.halted.filter (· ≠ id) } else s

def note (s : Process) (id : String) (rejected : Bool) : Process :=
  { s with draws := s.draws ++ [⟨id,decide (id ∈ s.halted),rejected⟩] }

/-- A call of the service on a line it knows; an unknown id changes nothing. -/
def serve (s : Process) (id : String) (call : Uuid → MemoryCreditLines.Call floats) : Process :=
  match located uuid s.service id with
  | none => s
  | some n => { s with service := s.service.step (call n) }

/-- What `CreditLineService.draw` answers for an id. -/
def drawAnswer (s : Process) (id borrowerId amount : String) (requestedAt confirmedAt : ℤ) :
    Except MemoryCreditLines.Refusal (MemoryCreditLines.CreditLine floats) :=
  match located uuid s.service id with
  | none => .error (.error "Credit line not found")
  | some n => (s.service.draw n borrowerId amount requestedAt confirmedAt).1

/-- The update sets the status of a line to active and goes through. -/
def activates (s : Process) (id : String) (request : UpdateCreditLineRequest floats) : Bool :=
  match located uuid s.service id with
  | none => false
  | some n => match (s.service.updateCreditLine n request).1 with
      | .ok (some _) => request.status = some CreditLineStatus.active
      | _ => false

/-- A new line of the repository is an active one. -/
def step (s : Process) : Op → Process
  | .createCreditLine id status now =>
      { s with functional := (Functional.createCreditLine s.functional id status now).2 }.reactivate
        id (status = Functional.Status.active)
  | .suspendCreditLine id now => s.halt id (Functional.suspendCreditLine s.functional id now)
  | .closeCreditLine id now => s.halt id (Functional.closeCreditLine s.functional id now)
  | .resetStore => { s with functional := {} }
  | .drawFromCreditLine id borrowerId amount =>
      match Legacy.drawFromCreditLine s.creditLines id borrowerId amount with
      | .error _ => s.note id true
      | .ok r => { s.note id false with creditLines := r.2 }
  | .openCreditLine request now =>
      { s with service := s.service.step (.createCreditLine request now) }.reactivate
        (uuid s.service.repository.nextId) (s.service.createCreditLine request now).1.isOk
  | .updateCreditLine id request =>
      (s.serve uuid id (.updateCreditLine · request)).reactivate id (s.activates uuid id request)
  | .deleteCreditLine id => s.serve uuid id .deleteCreditLine
  | .draw id borrowerId amount requestedAt confirmedAt =>
      let rejected := !(s.drawAnswer uuid id borrowerId amount requestedAt confirmedAt).isOk
      (s.serve uuid id (.draw · borrowerId amount requestedAt confirmedAt)).note id rejected
  | .repay id walletAddress amount confirmedAt =>
      s.serve uuid id (.repay · walletAddress amount confirmedAt)
  | .submitDrawRequest id body answer => s.note id !(submitDrawRequest id body answer).isOk

end Process

/-- Every draw on a line that was halted at the time was rejected. -/
def Stopped (s : Process) : Prop := ∀ draw ∈ s.draws, draw.halted = true → draw.rejected = true

/-- The repository holds no active line with the id. -/
def Inactive (service : Service floats) (id : String) : Prop :=
  ∀ e ∈ service.repository.creditLines.entries, uuid e.1 = id → e.2.status ≠ .active

/-- Nor does the array. -/
def Unheld (s : Process) (id : String) : Prop :=
  Inactive uuid s.service id ∧ ∀ line ∈ s.creditLines, line.id = id → line.status ≠ .active

/-- A line is halted only when the other stores do not hold it as active, and a client rejects
the draws that are submitted for a halted line. -/
def Concerted (s : Process) : Op → Prop
  | .suspendCreditLine id _ =>
      ∀ line ∈ s.functional.store.get id, line.status = .active → Unheld uuid s id
  | .closeCreditLine id _ =>
      ∀ line ∈ s.functional.store.get id, line.status ≠ .closed → Unheld uuid s id
  | .submitDrawRequest id _ answer => id ∈ s.halted → answer.isOk = false
  | _ => True

/-! ## What the repository does to an inactive line -/

variable {uuid} {service : Service floats} {id : String} {n : Uuid}

theorem located_some (h : located uuid service id = some n) : uuid n = id := by
  have hn := List.find?_some h
  exact of_decide_eq_true hn

theorem Inactive.get (h : Inactive uuid service id) {line : MemoryCreditLines.CreditLine floats}
    (hget : service.repository.creditLines.get n = some line) :
    uuid n = id → line.status ≠ .active :=
  h (n,line) (InsertionMap.get_eq_some.mp hget)

/-- A call that writes no active line under the id. -/
theorem Inactive.step (h : Inactive uuid service id) {call : MemoryCreditLines.Call floats}
    (hw : ∀ n line, Writes service call n line → uuid n = id → line.status ≠ .active) :
    Inactive uuid (service.step call) id := by
  unfold Inactive
  rw [InsertionMap.forall_entries (P := fun k (line : MemoryCreditLines.CreditLine floats) =>
    uuid k = id → line.status ≠ .active)]
  exact Service.forall_lines_step (fun n line hget => h.get hget) hw

theorem inactive_createCreditLine (h : Inactive uuid service id)
    (request : CreateCreditLineRequest floats) (now : ℤ)
    (hid : (service.createCreditLine request now).1.isOk = true →
      uuid service.repository.nextId ≠ id) :
    Inactive uuid (service.step (.createCreditLine request now)) id := by
  apply h.step
  intro n line hw hn
  cases hw with
  | created haccepted =>
      unfold Service.createCreditLine at hid
      rw [haccepted] at hid
      exact absurd hn (hid rfl)

theorem inactive_updateCreditLine (h : Inactive uuid service id)
    (request : UpdateCreditLineRequest floats)
    (hid : ∀ line, (service.updateCreditLine n request).1 = .ok (some line) → uuid n = id →
      request.status ≠ some .active) :
    Inactive uuid (service.step (.updateCreditLine n request)) id := by
  apply h.step
  intro n' line hw hn
  cases hw with
  | updated hpatches =>
      have hstatus := hid _ (Service.updateCreditLine_answer hpatches) hn
      have hold := h.get hpatches.found hn
      unfold patched
      cases hr : request.status with
      | none => exact hold
      | some status =>
          intro hactive
          rw [hr] at hstatus
          exact hstatus (congrArg some hactive)

theorem inactive_deleteCreditLine (h : Inactive uuid service id) :
    Inactive uuid (service.step (.deleteCreditLine n)) id := by
  apply h.step
  intro n' line hw
  cases hw

/-- A mutation of the balance leaves the status as it is. -/
theorem inactive_draw (h : Inactive uuid service id) (borrowerId amount : String)
    (requestedAt confirmedAt : ℤ) :
    Inactive uuid (service.step (.draw n borrowerId amount requestedAt confirmedAt)) id := by
  apply h.step
  intro n' line hw hn
  cases hw with
  | drawn hget _ =>
      rw [MemoryCreditLines.patched_utilized_status]
      exact h.get hget hn

theorem inactive_repay (h : Inactive uuid service id) (walletAddress amount : String)
    (confirmedAt : ℤ) :
    Inactive uuid (service.step (.repay n walletAddress amount confirmedAt)) id := by
  apply h.step
  intro n' line hw hn
  cases hw with
  | repaid hget =>
      rw [MemoryCreditLines.patched_utilized_status]
      exact h.get hget hn

theorem draw_rejected (h : Inactive uuid service id) (hn : uuid n = id) (borrowerId amount : String)
    (requestedAt confirmedAt : ℤ) :
    (service.draw n borrowerId amount requestedAt confirmedAt).1.isOk = false := by
  rcases Service.draw_cases service n borrowerId amount requestedAt confirmedAt with
    ⟨e,he⟩ | ⟨line,hget,hdrawable,_⟩
  · rw [he]
    rfl
  · exact absurd hdrawable.active (h.get hget hn)

/-! ## The other two stores -/

theorem Legacy.drawFromCreditLine_ok {lines : List Legacy.CreditLine} {id borrowerId : String}
    {amount : Value} {r : Legacy.CreditLine × List Legacy.CreditLine}
    (h : Legacy.drawFromCreditLine lines id borrowerId amount = .ok r) :
    ∃ line ∈ lines, line.id = id ∧ line.status = .active ∧
      r.2 = lines.set (lines.findIdx (·.id = id))
        { line with utilized := line.utilized.add amount } := by
  unfold Legacy.drawFromCreditLine at h
  split at h
  · cases h
  · rename_i line hfind
    have hid := List.find?_some hfind
    split at h
    · cases h
    · rename_i hstatus
      split at h
      · cases h
      · split at h
        · cases h
        · dsimp only at h
          split at h
          · cases h
          · cases h
            have hmem := List.mem_of_find?_eq_some hfind
            exact ⟨line,hmem,of_decide_eq_true hid,not_not.mp hstatus,rfl⟩

theorem Functional.suspendCreditLine_ok {m : Functional.Module} {id : String} {now : ℤ}
    (h : (Functional.suspendCreditLine m id now).isOk = true) :
    ∃ line ∈ m.store.get id, line.status = .active := by
  unfold Functional.suspendCreditLine at h
  split at h
  · cases h
  · rename_i line hget
    split at h
    · cases h
    · rename_i hactive
      exact ⟨line,hget,not_not.mp hactive⟩

theorem Functional.closeCreditLine_ok {m : Functional.Module} {id : String} {now : ℤ}
    (h : (Functional.closeCreditLine m id now).isOk = true) :
    ∃ line ∈ m.store.get id, line.status ≠ .closed := by
  unfold Functional.closeCreditLine at h
  split at h
  · cases h
  · rename_i line hget
    split at h
    · cases h
    · rename_i hopen
      exact ⟨line,hget,hopen⟩

theorem halt_cases (s : Process) (id : String)
    (r : Except Functional.Refusal (Functional.CreditLine × Functional.Module)) :
    s.halt id r = s ∨ r.isOk = true ∧ ∃ functional,
      s.halt id r = { s with functional, halted := id :: s.halted } := by
  cases r with
  | error e => exact .inl rfl
  | ok r => exact .inr ⟨rfl,r.2,rfl⟩

/-! ## A step -/

variable (uuid) in
/-- Halted lines are held as active by no store, and no draw on one has gone through. -/
structure Quiet (s : Process) : Prop where
  unheld : ∀ id ∈ s.halted, Unheld uuid s id
  stopped : Stopped s

variable {s : Process}

theorem Quiet.halt (h : Quiet uuid s) {id : String}
    {r : Except Functional.Refusal (Functional.CreditLine × Functional.Module)}
    (hr : r.isOk = true → Unheld uuid s id) : Quiet uuid (s.halt id r) := by
  rcases halt_cases s id r with hsame | ⟨hok,functional,hhalt⟩
  · rw [hsame]
    exact h
  · rw [hhalt]
    constructor
    · intro id' hid'
      cases hid' with
      | head => exact hr hok
      | tail _ hmem => exact h.unheld id' hmem
    · exact h.stopped

theorem Quiet.note (h : Quiet uuid s) {id : String} {rejected : Bool}
    (hr : id ∈ s.halted → rejected = true) : Quiet uuid (s.note id rejected) := by
  constructor
  · exact h.unheld
  · intro draw hdraw hhalted
    rcases List.mem_append.mp hdraw with hold | hnew
    · exact h.stopped draw hold hhalted
    · cases List.mem_singleton.mp hnew
      exact hr (of_decide_eq_true hhalted)

/-- Only the lines that are still halted afterwards have to be looked at. -/
theorem Quiet.reactivate (hstopped : Stopped s) {id : String} {active : Bool}
    (h : ∀ id' ∈ s.halted, (active = true → id ≠ id') → Unheld uuid s id') :
    Quiet uuid (s.reactivate id active) := by
  unfold Process.reactivate
  cases active with
  | false =>
      constructor
      · intro id' hid'
        exact h id' hid' fun hactive => absurd hactive Bool.false_ne_true
      · exact hstopped
  | true =>
      constructor
      · intro id' hid'
        obtain ⟨hmem,hne⟩ := List.mem_filter.mp hid'
        exact h id' hmem fun _ => (of_decide_eq_true hne).symm
      · exact hstopped

theorem unheld_serve {call : Uuid → MemoryCreditLines.Call floats} {id id' : String}
    (h : Unheld uuid s id')
    (hcall : ∀ n, located uuid s.service id = some n →
      Inactive uuid (s.service.step (call n)) id') :
    Unheld uuid (s.serve uuid id call) id' := by
  unfold Process.serve
  split
  · exact h
  · rename_i n hn
    exact ⟨hcall n hn,h.2⟩

theorem Process.serve_halted (s : Process) (id : String)
    (call : Uuid → MemoryCreditLines.Call floats) :
    (s.serve uuid id call).halted = s.halted := by
  unfold Process.serve
  split <;> rfl

theorem Process.serve_draws (s : Process) (id : String)
    (call : Uuid → MemoryCreditLines.Call floats) :
    (s.serve uuid id call).draws = s.draws := by
  unfold Process.serve
  split <;> rfl

theorem Quiet.serve (h : Quiet uuid s) {call : Uuid → MemoryCreditLines.Call floats} {id : String}
    (hcall : ∀ n id', Inactive uuid s.service id' → Inactive uuid (s.service.step (call n)) id') :
    Quiet uuid (s.serve uuid id call) := by
  constructor
  · intro id' hid'
    rw [Process.serve_halted] at hid'
    have hold := h.unheld id' hid'
    exact unheld_serve hold fun n _ => hcall n id' hold.1
  · unfold Stopped
    rw [Process.serve_draws]
    exact h.stopped

theorem Quiet.drawFromCreditLine (h : Quiet uuid s) (id borrowerId : String) (amount : Value) :
    Quiet uuid (s.step uuid (.drawFromCreditLine id borrowerId amount)) := by
  unfold Process.step
  dsimp only
  split
  · exact h.note fun _ => rfl
  · rename_i r hr
    obtain ⟨line,hmem,hid,hactive,hset⟩ := Legacy.drawFromCreditLine_ok hr
    have hnot : id ∉ s.halted := fun hhalted => (h.unheld id hhalted).2 line hmem hid hactive
    have hnote : Quiet uuid (s.note id false) := h.note fun hhalted => absurd hhalted hnot
    constructor
    · intro id' hid'
      have hold := h.unheld id' hid'
      refine ⟨hold.1,?_⟩
      intro line' hline' hid''
      dsimp only at hline'
      rw [hset] at hline'
      rcases List.mem_or_eq_of_mem_set hline' with hthere | heq
      · exact hold.2 line' hthere hid''
      · rw [heq] at hid'' ⊢
        exact hold.2 line hmem hid''
    · exact hnote.stopped

theorem Quiet.openCreditLine (h : Quiet uuid s) (request : CreateCreditLineRequest floats)
    (now : ℤ) : Quiet uuid (s.step uuid (.openCreditLine request now)) := by
  unfold Process.step
  dsimp only
  apply Quiet.reactivate
  · exact h.stopped
  · intro id' hid' hne
    have hold := h.unheld id' hid'
    exact ⟨inactive_createCreditLine hold.1 request now hne,hold.2⟩

theorem Quiet.updateCreditLine (h : Quiet uuid s) (id : String)
    (request : UpdateCreditLineRequest floats) :
    Quiet uuid (s.step uuid (.updateCreditLine id request)) := by
  unfold Process.step
  dsimp only
  apply Quiet.reactivate
  · unfold Stopped
    rw [Process.serve_draws]
    exact h.stopped
  · intro id' hid' hne
    rw [Process.serve_halted] at hid'
    have hold := h.unheld id' hid'
    apply unheld_serve hold
    intro n hn
    apply inactive_updateCreditLine hold.1
    intro line hanswer huuid hstatus
    rw [located_some hn] at huuid
    apply hne _ huuid
    unfold Process.activates
    rw [hn]
    dsimp only
    rw [hanswer,hstatus]
    rfl

theorem Quiet.draw (h : Quiet uuid s) (id borrowerId amount : String)
    (requestedAt confirmedAt : ℤ) :
    Quiet uuid (s.step uuid (.draw id borrowerId amount requestedAt confirmedAt)) := by
  unfold Process.step
  dsimp only
  apply Quiet.note
  · exact h.serve fun n id' hold => inactive_draw hold borrowerId amount requestedAt confirmedAt
  · intro hhalted
    rw [Process.serve_halted] at hhalted
    unfold Process.drawAnswer
    split
    · rfl
    · rename_i n hn
      rw [draw_rejected (h.unheld id hhalted).1 (located_some hn)]
      rfl

/-- No other step than halting a line and submitting a draw for it has to be guarded. -/
theorem quiet_step (s : Process) (op : Op) (h : Quiet uuid s) (hg : Concerted uuid s op) :
    Quiet uuid (s.step uuid op) := by
  cases op with
  | createCreditLine id status now =>
      apply Quiet.reactivate
      · exact h.stopped
      · intro id' hid' _
        exact h.unheld id' hid'
  | suspendCreditLine id now =>
      apply h.halt
      intro hok
      obtain ⟨line,hget,hactive⟩ := Functional.suspendCreditLine_ok hok
      exact hg line hget hactive
  | closeCreditLine id now =>
      apply h.halt
      intro hok
      obtain ⟨line,hget,hopen⟩ := Functional.closeCreditLine_ok hok
      exact hg line hget hopen
  | resetStore => exact ⟨h.unheld,h.stopped⟩
  | drawFromCreditLine id borrowerId amount => exact h.drawFromCreditLine id borrowerId amount
  | openCreditLine request now => exact h.openCreditLine request now
  | updateCreditLine id request => exact h.updateCreditLine id request
  | deleteCreditLine id => exact h.serve fun n id' hold => inactive_deleteCreditLine hold
  | draw id borrowerId amount requestedAt confirmedAt =>
      exact h.draw id borrowerId amount requestedAt confirmedAt
  | repay id walletAddress amount confirmedAt =>
      exact h.serve fun n id' hold => inactive_repay hold walletAddress amount confirmedAt
  | submitDrawRequest id body answer =>
      apply h.note
      intro hhalted
      cases answer with
      | error e => rfl
      | ok txHash =>
          have hrejects : (Except.ok txHash : Except String (Option String)).isOk = false :=
            hg hhalted
          cases hrejects

theorem quiet_initial : Quiet uuid {} := by
  constructor
  · intro id hid
    cases hid
  · intro draw hdraw
    cases hdraw

variable (uuid) in
/-- Where lines are halted in concert with the other stores, no draw on a halted line goes
through. -/
theorem stopped_of_concerted (ops before : List Op)
    (hg : Guarded (Process.step uuid) (Concerted uuid) {} ops) (hp : before <+: ops) :
    Stopped (run (Process.step uuid) {} before) :=
  (run_invariant_passed quiet_step quiet_initial hg hp).stopped

end Steps

/-! ## Two runs -/

instance (s : Process) : Decidable (Stopped s) :=
  inferInstanceAs (Decidable (∀ draw ∈ s.draws, draw.halted = true → draw.rejected = true))

instance (uuid : Uuid → String) (service : Service floats) (id : String) :
    Decidable (Inactive uuid service id) :=
  inferInstanceAs (Decidable (∀ e ∈ service.repository.creditLines.entries, uuid e.1 = id →
    e.2.status ≠ .active))

instance (uuid : Uuid → String) (s : Process) (id : String) : Decidable (Unheld uuid s id) :=
  inferInstanceAs (Decidable (Inactive uuid s.service id ∧
    ∀ line ∈ s.creditLines, line.id = id → line.status ≠ .active))

instance (uuid : Uuid → String) (s : Process) : (op : Op) → Decidable (Concerted uuid s op)
  | .suspendCreditLine id _ => inferInstanceAs (Decidable
      (∀ line ∈ s.functional.store.get id, line.status = .active → Unheld uuid s id))
  | .closeCreditLine id _ => inferInstanceAs (Decidable
      (∀ line ∈ s.functional.store.get id, line.status ≠ .closed → Unheld uuid s id))
  | .submitDrawRequest _ _ _ => inferInstanceAs (Decidable (_ → _))
  | .createCreditLine _ _ _ | .resetStore | .drawFromCreditLine _ _ _ | .openCreditLine _ _
  | .updateCreditLine _ _ | .deleteCreditLine _ | .draw _ _ _ _ _ | .repay _ _ _ _ =>
      inferInstanceAs (Decidable True)

def numbered (n : Uuid) : String := "id-" ++ toString n

def opened : Op := .openCreditLine ⟨"user-1","1000",.round 500⟩ 0

/-- The line is suspended in the repository before it is in the functional module. -/
def inConcert : List Op :=
  [opened,.updateCreditLine "id-0" { status := some .suspended },
    .createCreditLine "id-0" .active 1,.suspendCreditLine "id-0" 2,
    .draw "id-0" "user-1" "100" 3 3,.drawFromCreditLine "id-0" "user-1" (.round 100),
    .submitDrawRequest "id-0" ⟨"user-1","100"⟩ (.error "rejected")]

theorem stopped_inConcert :
    Guarded (Process.step numbered) (Concerted numbered) {} inConcert ∧
      (run (Process.step numbered) {} inConcert).draws.map Draw.halted = [true,true,true] ∧
      Stopped (run (Process.step numbered) {} inConcert) := by
  have hg : Guarded (Process.step numbered) (Concerted numbered) {} inConcert := by decide +kernel
  refine ⟨hg,?_,stopped_of_concerted numbered inConcert inConcert hg (List.prefix_refl _)⟩
  decide +kernel

/-- Suspended in the functional module only. -/
def apart : List Op :=
  [opened,.createCreditLine "id-0" .active 1,.suspendCreditLine "id-0" 2,
    .draw "id-0" "user-1" "100" 3 3,
    .submitDrawRequest "id-0" ⟨"user-1","100"⟩ noopSorobanClient,
    .createCreditLine "line-1" .active 4,.closeCreditLine "line-1" 5,
    .drawFromCreditLine "line-1" "user-1" (.round 100)]

theorem draws_apart :
    (run (Process.step numbered) {} apart).draws.map (fun draw => (draw.halted,draw.rejected)) =
        [(true,false),(true,false),(true,false)] ∧
      ¬ Stopped (run (Process.step numbered) {} apart) := by
  constructor <;> decide +kernel

end Creditra.SuspendedDraws
