import Creditra.GuardedRuns
import Creditra.PostgresCreditLines

/-!
# One open line per wallet

On Postgres the partial unique index refuses a second open line of a borrower,
whichever statement would make it. The in-memory repository leaves the check to
the service, and the service does not make it: a line is opened or reopened
beside another one, unless the callers see to it that the other one is closed.
-/
namespace Creditra.OpenLines
open GuardedRuns CreditModels FloatNumbers InsertionMaps PostgresCreditLines
open MemoryCreditLines (Arithmetic CreateCreditLineRequest UpdateCreditLineRequest CreditLine
  Service floats isStale patched)

/-- A call that opens, changes or removes a line. -/
inductive LineCall (A : Arithmetic) where
  | createCreditLine (request : CreateCreditLineRequest A) (now : ℤ)
  | updateCreditLine (id : Uuid) (request : UpdateCreditLineRequest A)
  | deleteCreditLine (id : Uuid)

section Runs
variable {A : Arithmetic}

def memoryStep (s : Service A) : LineCall A → Service A
  | .createCreditLine request now => (s.createCreditLine request now).2
  | .updateCreditLine id request => (s.updateCreditLine id request).2
  | .deleteCreditLine id => (s.deleteCreditLine id).2

def postgresStep (server : Server A) (t : Tables) : LineCall A → Tables
  | .createCreditLine request _ => (t.createCreditLine server request).2
  | .updateCreditLine id request => (t.updateCreditLine server id request).2
  | .deleteCreditLine id => (t.deleteCreditLine id).2

def isOpen (line : CreditLine A) : Bool := line.status ≠ .closed

/-- No two lines of one wallet are open in memory. -/
def OneOpenInMemory (s : Service A) : Prop :=
  s.repository.creditLines.Exclusive CreditLine.walletAddress isOpen

/-- No two lines that join with one wallet are open in the tables. -/
def OneOpenInTables (t : Tables) : Prop :=
  ∀ id id' found found', t.findById id = some found → t.findById id' = some found' →
    found.2 = found'.2 → Tables.isOpen found.1 = true → Tables.isOpen found'.1 = true → id = id'

/-- Another line of the wallet is open. -/
def openElsewhere (s : Service A) (id : Uuid) (walletAddress : String) : Bool :=
  s.repository.creditLines.taken CreditLine.walletAddress isOpen id walletAddress

/-- A line is opened, or left open by a patch, only where no other line of its wallet is open. -/
def Unrivalled (s : Service A) : LineCall A → Prop
  | .createCreditLine request _ =>
      Service.createRefusal request = none →
      openElsewhere s s.repository.nextId request.walletAddress = false
  | .updateCreditLine id request =>
      Service.updateRefusal request = none →
      ∀ existing ∈ s.repository.creditLines.get id, isStale request existing = false →
      isOpen (patched request existing) = true →
      openElsewhere s id existing.walletAddress = false
  | .deleteCreditLine _ => True

instance (s : Service A) : (call : LineCall A) → Decidable (Unrivalled s call)
  | .createCreditLine _ _ => inferInstanceAs (Decidable (_ → _))
  | .updateCreditLine _ request =>
      inferInstanceAs (Decidable (_ → ∀ existing ∈ _, isStale request existing = false →
        isOpen (patched request existing) = true → _ = false))
  | .deleteCreditLine _ => inferInstanceAs (Decidable True)

theorem oneOpen_memoryStep (s : Service A) (call : LineCall A) (h : OneOpenInMemory s)
    (hu : Unrivalled s call) : OneOpenInMemory (memoryStep s call) := by
  cases call with
  | createCreditLine request now =>
      cases Service.createCreditLine_cases s request now with
      | inl hno =>
          obtain ⟨e,hno⟩ := hno
          simp only [memoryStep,hno]
          exact h
      | inr hyes =>
          obtain ⟨haccepted,hyes⟩ := hyes
          simp only [memoryStep,hyes]
          exact InsertionMap.exclusive_set h fun _ => hu haccepted
  | updateCreditLine id request =>
      cases Service.updateCreditLine_cases s id request with
      | inl hno =>
          simp only [memoryStep,hno]
          exact h
      | inr hyes =>
          obtain ⟨existing,hp,hyes⟩ := hyes
          simp only [memoryStep,hyes]
          exact InsertionMap.exclusive_set h (hu hp.accepted existing hp.found hp.fresh)
  | deleteCreditLine id => exact InsertionMap.exclusive_delete h id

theorem consistent_postgresStep (server : Server A) (t : Tables) (call : LineCall A)
    (h : Consistent t) : Consistent (postgresStep server t call) := by
  cases call with
  | createCreditLine request now => exact consistent_createCreditLine h request
  | updateCreditLine id request => exact consistent_updateCreditLine h id request
  | deleteCreditLine id => exact consistent_deleteCreditLine h id

/-- Lines that join with one wallet have one borrower. -/
theorem oneOpen_of_consistent {t : Tables} (h : Consistent t) : OneOpenInTables t := by
  intro id id' found found' hfind hfind' hwallet hopen hopen'
  obtain ⟨row,hrow,hjoin⟩ := Option.bind_eq_some_iff.mp hfind
  obtain ⟨row',hrow',hjoin'⟩ := Option.bind_eq_some_iff.mp hfind'
  obtain ⟨wallet,hget,rfl⟩ := Option.map_eq_some_iff.mp hjoin
  obtain ⟨wallet',hget',rfl⟩ := Option.map_eq_some_iff.mp hjoin'
  have hborrower : row.borrowerId = row'.borrowerId :=
    h.wallet row.borrowerId row'.borrowerId wallet wallet' hget hget' hwallet rfl rfl
  exact h.oneOpen id id' row row' hrow hrow' hborrower hopen hopen'

/-- On Postgres every run keeps one open line per wallet; in memory, every run whose lines are
opened and reopened without a rival does. -/
theorem one_open_line (server : Server A) (calls : List (LineCall A)) :
    (∀ pre, pre <+: calls → OneOpenInTables (run (postgresStep server) Tables.empty pre)) ∧
    (Guarded memoryStep Unrivalled (Service.empty A) calls →
      ∀ pre, pre <+: calls → OneOpenInMemory (run memoryStep (Service.empty A) pre)) := by
  constructor
  · intro pre _
    exact oneOpen_of_consistent
      (run_induction (consistent_postgresStep server) consistent_empty pre)
  · intro hg pre hp
    exact run_invariant_passed oneOpen_memoryStep InsertionMap.exclusive_empty hg hp

end Runs

/-- Two lines of one wallet, the second opened when the first is closed. -/
def successive : List (LineCall floats) :=
  [.createCreditLine ⟨"GA","100",.zero⟩ 0,.updateCreditLine 0 { status := some .closed },
    .createCreditLine ⟨"GA","200",.zero⟩ 1,.updateCreditLine 1 { status := some .suspended }]

theorem one_open_line_successive :
    Guarded memoryStep Unrivalled (Service.empty floats) successive ∧
      OneOpenInMemory (run memoryStep (Service.empty floats) successive) := by
  have hg : Guarded memoryStep Unrivalled (Service.empty floats) successive := by decide +kernel
  exact ⟨hg,(one_open_line anyText successive).2 hg successive (List.prefix_refl _)⟩

/-- Two lines of one wallet, opened one after the other. -/
def duplicates : List (LineCall floats) :=
  [.createCreditLine ⟨"GA","100",.zero⟩ 0,.createCreditLine ⟨"GA","100",.zero⟩ 1]

theorem duplicates_open_together :
    ¬ OneOpenInMemory (run memoryStep (Service.empty floats) duplicates) := by
  intro h
  have hlines : ∃ line ∈ (run memoryStep (Service.empty floats)
        duplicates).repository.creditLines.get 0,
      ∃ line' ∈ (run memoryStep (Service.empty floats) duplicates).repository.creditLines.get 1,
        line.walletAddress = line'.walletAddress ∧ isOpen line = true ∧ isOpen line' = true := by
    decide +kernel
  obtain ⟨line,hget,line',hget',hwallet,hopen,hopen'⟩ := hlines
  cases h 0 1 line line' hget hget' hwallet hopen hopen'

end Creditra.OpenLines
