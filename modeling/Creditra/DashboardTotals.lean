import Creditra.DashboardCache
import Creditra.MemoryCreditLines
import Creditra.PostgresCursor

/-!
# What the dashboard totals cover

`computeSummary` of `services/dashboardSummaryService.ts` aggregates what
`findAll()` returns. Both repositories list the lines newest first and answer a
call without arguments with the first hundred of them; the SQL query leaves
lines of one instant in any order.

The aggregation is that of the cached summary, with the arithmetic as a
parameter. On exact numbers it counts and adds up what it is given, whatever the
order, so that the summary covers the stored lines when none is cut off.
-/
namespace Creditra.DashboardTotals
open CreditModels MemoryCreditLines
open DashboardCache (Counts DashboardSummary fixedDigits)

/-! ## The aggregation -/

structure Line (A : Arithmetic) where
  status : CreditLineStatus
  creditLimit : A.Text
  utilized : A.Text

structure Totals (A : Arithmetic) where
  countsByStatus : Counts
  totalLimit : A.Number
  totalUtilized : A.Number

section Aggregation
variable {A : Arithmetic}

/-- `x || 0`; only what is not a number differs from itself. -/
def orZero (x : A.Number) : A.Number := if A.le x x then x else A.zero

def limitNum (line : Line A) : A.Number := orZero (A.parseFloat line.creditLimit)

def utilizedNum (line : Line A) : A.Number :=
  orZero (A.parseFloat (if line.utilized = A.empty then A.zeroText else line.utilized))

/-- Before the loop. -/
def Totals.initial : Totals A := ⟨{},A.zero,A.zero⟩

def Totals.add (totals : Totals A) (line : Line A) : Totals A where
  countsByStatus := totals.countsByStatus.add line.status
  totalLimit := A.add totals.totalLimit (limitNum line)
  totalUtilized := A.add totals.totalUtilized (utilizedNum line)

def aggregate (toFixed : A.Number → String) (lines : List (Line A)) (generatedAt : String) :
    DashboardSummary :=
  let totals : Totals A := lines.foldl Totals.add .initial
  let totalAvailable := A.max A.zero (A.sub totals.totalLimit totals.totalUtilized)
  { totalCreditLines := lines.length
    totalCreditLimit := toFixed totals.totalLimit
    totalUtilized := toFixed totals.totalUtilized
    totalAvailable := toFixed totalAvailable
    countsByStatus := totals.countsByStatus
    generatedAt := generatedAt }

end Aggregation

/-! ## On the runtime's numbers -/

def toCached (line : Line floats) : DashboardCache.Line :=
  ⟨line.status,line.creditLimit,line.utilized⟩

theorem orZero_floats (x : FloatNumbers.Value) :
    orZero (A := floats) x = DashboardCache.orZero x := by
  cases x with
  | finite d => simp [orZero,DashboardCache.orZero,FloatNumbers.Value.le]
  | infinite negative => cases negative <;> rfl
  | nan => rfl

/-- The cached totals that these are. -/
def Totals.toCached (totals : Totals floats) : DashboardCache.Totals :=
  ⟨totals.countsByStatus,totals.totalLimit,totals.totalUtilized⟩

theorem toCached_foldl (lines : List (Line floats)) (totals : Totals floats) :
    (lines.foldl Totals.add totals).toCached =
      (lines.map toCached).foldl DashboardCache.Totals.add totals.toCached := by
  induction lines generalizing totals with
  | nil => rfl
  | cons line lines ih =>
      have hadd : (totals.add line).toCached = totals.toCached.add (toCached line) := by
        simp only [Totals.add,Totals.toCached,DashboardCache.Totals.add,toCached,limitNum,
          utilizedNum,orZero_floats]
        rfl
      rw [List.foldl_cons,ih,hadd,List.map_cons,List.foldl_cons]

/-- The aggregation of the cached summary. -/
theorem aggregate_floats (lines : List (Line floats)) (generatedAt : String) :
    aggregate DashboardCache.toFixed lines generatedAt =
      DashboardCache.aggregate (lines.map toCached) generatedAt := by
  have h : (lines.foldl Totals.add .initial).toCached =
    (lines.map toCached).foldl DashboardCache.Totals.add {} := toCached_foldl lines .initial
  unfold aggregate DashboardCache.aggregate
  dsimp only
  rw [← h,List.length_map]
  rfl

/-! ## On exact numbers -/

/-- `x.toFixed(2)` of an exact number. -/
def toFixed : Option ℚ → String
  | some q =>
      if 1000000000000000000000 ≤ |q| then FloatNumbers.toText (.round q)
      else (if q < 0 then "-" else "") ++ fixedDigits ⌊|q| * 100 + 1 / 2⌋.toNat
  | none => "NaN"

def exactLimit (line : Line exacts) : ℚ := line.creditLimit.value.getD 0

def exactUtilized (line : Line exacts) : ℚ :=
  (if line.utilized = .literal "" then ExactText.literal "0" else line.utilized).value.getD 0

/-- The lines counted under a status. -/
def countOf (counts : Counts) : CreditLineStatus → ℕ
  | .active => counts.active
  | .suspended => counts.suspended
  | .closed => counts.closed
  | .pending => counts.pending

/-- The counts and totals of a summary are those of the given lines: what the limits leave over
the balances is available, and nothing when they leave less than that. -/
structure Covers (summary : DashboardSummary) (lines : List (Line exacts)) : Prop where
  counts : ∀ status, countOf summary.countsByStatus status = lines.countP (·.status = status)
  creditLimit : summary.totalCreditLimit = toFixed (some (lines.map exactLimit).sum)
  utilized : summary.totalUtilized = toFixed (some (lines.map exactUtilized).sum)
  available : summary.totalAvailable =
    toFixed (some (max 0 ((lines.map exactLimit).sum - (lines.map exactUtilized).sum)))

theorem limitNum_exacts (line : Line exacts) : limitNum line = some (exactLimit line) := by
  unfold limitNum exactLimit orZero
  cases h : line.creditLimit.value with
  | none => simp [h]
  | some q => simp [h]

theorem utilizedNum_exacts (line : Line exacts) :
    utilizedNum line = some (exactUtilized line) := by
  unfold utilizedNum exactUtilized orZero
  cases h : (if line.utilized = .literal "" then ExactText.literal "0"
      else line.utilized).value with
  | none => simp [h]
  | some q => simp [h]

theorem countOf_add (counts : Counts) (added status : CreditLineStatus) :
    countOf (counts.add added) status =
      countOf counts status + if added = status then 1 else 0 := by
  cases added <;> cases status <;> rfl

theorem countOf_foldl (lines : List (Line exacts)) (totals : Totals exacts)
    (status : CreditLineStatus) :
    countOf (lines.foldl Totals.add totals).countsByStatus status =
      countOf totals.countsByStatus status + lines.countP (·.status = status) := by
  induction lines generalizing totals with
  | nil => rfl
  | cons line lines ih =>
      rw [List.foldl_cons,ih,Totals.add,countOf_add,List.countP_cons]
      simp only [decide_eq_true_eq]
      omega

/-- A total that every line adds its amount to is the sum of the amounts. -/
theorem total_foldl {total : Totals exacts → Option ℚ} {amount : Line exacts → ℚ}
    (hstep : ∀ totals line q, total totals = some q →
      total (totals.add line) = some (q + amount line))
    (lines : List (Line exacts)) {totals : Totals exacts} {q : ℚ} (h : total totals = some q) :
    total (lines.foldl Totals.add totals) = some (q + (lines.map amount).sum) := by
  induction lines generalizing totals q with
  | nil => simpa using h
  | cons line lines ih =>
      rw [List.foldl_cons,ih (hstep totals line q h),List.map_cons,List.sum_cons,add_assoc]

theorem totalLimit_foldl (lines : List (Line exacts)) :
    (lines.foldl Totals.add Totals.initial).totalLimit =
      some (lines.map exactLimit).sum := by
  have hstep : ∀ (totals : Totals exacts) (line : Line exacts) (q : ℚ),
      totals.totalLimit = some q → (totals.add line).totalLimit = some (q + exactLimit line) := by
    intro totals line q h
    simp only [Totals.add,h,limitNum_exacts]
    rfl
  have h : (lines.foldl Totals.add Totals.initial).totalLimit =
    some (0 + (lines.map exactLimit).sum) := total_foldl hstep lines rfl
  rw [h,zero_add]

theorem totalUtilized_foldl (lines : List (Line exacts)) :
    (lines.foldl Totals.add Totals.initial).totalUtilized =
      some (lines.map exactUtilized).sum := by
  have hstep : ∀ (totals : Totals exacts) (line : Line exacts) (q : ℚ),
      totals.totalUtilized = some q →
        (totals.add line).totalUtilized = some (q + exactUtilized line) := by
    intro totals line q h
    simp only [Totals.add,h,utilizedNum_exacts]
    rfl
  have h : (lines.foldl Totals.add Totals.initial).totalUtilized =
    some (0 + (lines.map exactUtilized).sum) := total_foldl hstep lines rfl
  rw [h,zero_add]

/-- The loop counts every line and adds it up. -/
theorem covers_aggregate (lines : List (Line exacts)) (generatedAt : String) :
    Covers (aggregate toFixed lines generatedAt) lines := by
  constructor
  · intro status
    have hzero : countOf {} status = 0 := by cases status <;> rfl
    have hcount := countOf_foldl lines .initial status
    rw [Totals.initial,hzero,Nat.zero_add] at hcount
    exact hcount
  · simp only [aggregate,totalLimit_foldl]
  · simp only [aggregate,totalUtilized_foldl]
  · simp only [aggregate,totalLimit_foldl,totalUtilized_foldl]
    rfl

section Covering
variable {summary : DashboardSummary} {lines lines' : List (Line exacts)}

theorem Covers.perm (h : Covers summary lines) (hp : lines.Perm lines') :
    Covers summary lines' where
  counts status := by
    rw [h.counts,hp.countP_eq]
  creditLimit := by
    rw [h.creditLimit,(hp.map exactLimit).sum_eq]
  utilized := by
    rw [h.utilized,(hp.map exactUtilized).sum_eq]
  available := by
    rw [h.available,(hp.map exactLimit).sum_eq,(hp.map exactUtilized).sum_eq]

/-- Every line has one of the four statuses. -/
theorem length_eq_counts (lines : List (Line exacts)) :
    lines.length = lines.countP (·.status = .active) + lines.countP (·.status = .suspended) +
      lines.countP (·.status = .closed) + lines.countP (·.status = .pending) := by
  induction lines with
  | nil => rfl
  | cons line lines ih =>
      simp only [List.length_cons,List.countP_cons,ih,decide_eq_true_eq]
      cases line.status <;> simp <;> omega

theorem Covers.length_eq (h : Covers summary lines) (h' : Covers summary lines') :
    lines.length = lines'.length := by
  have hsame : ∀ status,
      lines.countP (·.status = status) = lines'.countP (·.status = status) := by
    intro status
    rw [← h.counts,h'.counts]
  rw [length_eq_counts lines,length_eq_counts lines',hsame,hsame,hsame,hsame]

/-- A summary of the front of a listing covers the whole of it when nothing is cut off. -/
theorem covers_take_iff {listing : List (Line exacts)} (hp : listing.Perm lines) (n : ℕ)
    (generatedAt : String) :
    Covers (aggregate toFixed (listing.take n) generatedAt) lines ↔ lines.length ≤ n := by
  have hfront := covers_aggregate (listing.take n) generatedAt
  constructor
  · intro h
    have hlength := h.length_eq hfront
    rw [List.length_take] at hlength
    omega
  · intro h
    rw [← hp.length_eq] at h
    rw [List.take_of_length_le h] at hfront ⊢
    exact hfront.perm hp

end Covering

/-! ## The repositories -/

/-- Once the lines are there; the text of the clock is given. -/
def computeSummary (findAll : List (Line exacts)) (generatedAt : String) : DashboardSummary :=
  aggregate toFixed findAll generatedAt

section Memory
variable {A : Arithmetic} (createdAt : Uuid → ℤ) (localeCompare : Uuid → Uuid → ℤ)

/-- The comparator of `sortByNewest`. -/
def compareNewest (a b : CreditLine A) : ℤ :=
  let tsDiff := createdAt b.id - createdAt a.id
  if tsDiff ≠ 0 then tsDiff else localeCompare a.id b.id

def sortByNewest (creditLines : List (CreditLine A)) : List (CreditLine A) :=
  creditLines.insertionSort fun a b => compareNewest createdAt localeCompare a b ≤ 0

def findAll (r : Repository A) (offset : ℕ := 0) (limit : ℕ := 100) : List (CreditLine A) :=
  ((sortByNewest createdAt localeCompare (r.creditLines.entries.map Prod.snd)).drop offset).take
    limit

/-- What the aggregation reads of a line. -/
def ofMemory (line : CreditLine A) : Line A := ⟨line.status,line.creditLimit,line.utilized⟩

/-- Every line of the repository. -/
def storedInMemory (r : Repository A) : List (Line A) :=
  r.creditLines.entries.map fun e => ofMemory e.2

theorem covers_memory (r : Repository exacts) (generatedAt : String) :
    Covers (computeSummary ((findAll createdAt localeCompare r).map ofMemory) generatedAt)
      (storedInMemory r) ↔ (storedInMemory r).length ≤ 100 := by
  have hp : ((sortByNewest createdAt localeCompare
      (r.creditLines.entries.map Prod.snd)).map ofMemory).Perm (storedInMemory r) := by
    have hsorted := (List.perm_insertionSort
      (fun a b => compareNewest createdAt localeCompare a b ≤ 0)
      (r.creditLines.entries.map Prod.snd)).map ofMemory
    rw [List.map_map] at hsorted
    exact hsorted
  unfold computeSummary findAll
  rw [List.drop_zero,List.map_take]
  exact covers_take_iff hp 100 generatedAt

end Memory

section Postgres
variable {ι : Type} (server : PostgresCursor.Server ι)
  (table : PostgresCursor.Table ι)

/-- `ORDER BY cl.created_at DESC`, with ties in any order. -/
structure Listing where
  rows : List (PostgresCursor.CreditLineRow ι)
  perm : rows.Perm table.rows
  newestFirst : rows.Pairwise fun a b => b.createdAt.us ≤ a.createdAt.us

variable {table}

def Listing.findAll (listing : Listing table) (offset : ℕ := 0) (limit : ℕ := 100) :
    List PostgresCursor.CreditLine :=
  ((listing.rows.drop offset).take limit).map (PostgresCursor.line server table)

/-- The texts of `NUMERIC` values are exact. -/
def ofPostgres (line : PostgresCursor.CreditLine) : Line exacts :=
  ⟨line.status,.number line.creditLimit,.number line.utilized⟩

variable (table)

/-- Every line of the table, with its balance from the ledger. -/
def storedInPostgres : List (Line exacts) :=
  table.rows.map fun row => ofPostgres (PostgresCursor.line server table row)

variable {table}

theorem covers_postgres (listing : Listing table) (generatedAt : String) :
    Covers (computeSummary ((listing.findAll server).map ofPostgres) generatedAt)
      (storedInPostgres server table) ↔ (storedInPostgres server table).length ≤ 100 := by
  have hp := listing.perm.map fun row => ofPostgres (PostgresCursor.line server table row)
  unfold computeSummary Listing.findAll
  rw [List.drop_zero,List.map_map,List.map_take]
  exact covers_take_iff hp 100 generatedAt

end Postgres

/-- On either backend the summary covers all stored lines exactly when there are at most a
hundred. -/
theorem summary_covers_iff (createdAt : Uuid → ℤ) (localeCompare : Uuid → Uuid → ℤ)
    (r : Repository exacts) {ι : Type} (server : PostgresCursor.Server ι)
    (table : PostgresCursor.Table ι) (listing : Listing table) (generatedAt : String) :
    (Covers (computeSummary ((findAll createdAt localeCompare r).map ofMemory) generatedAt)
        (storedInMemory r) ↔ (storedInMemory r).length ≤ 100) ∧
    (Covers (computeSummary ((listing.findAll server).map ofPostgres) generatedAt)
        (storedInPostgres server table) ↔ (storedInPostgres server table).length ≤ 100) := by
  constructor
  · exact covers_memory createdAt localeCompare r generatedAt
  · exact covers_postgres server listing generatedAt

/-- A line opened for each of `n` wallets. -/
def opened (n : ℕ) : Repository exacts :=
  (List.range n).foldl
    (fun r i => (r.create ⟨"wallet-" ++ toString i,.literal "1000.00",.zero⟩).2)
    (Repository.empty exacts)

/-- Of 101 lines, one after the other, the first is in no total. -/
theorem oldest_line_missed :
    (storedInMemory (opened 101)).length = 101 ∧
    ¬ Covers (computeSummary
        ((findAll (fun id => id) (fun a b => a - b) (opened 101)).map ofMemory)
        "2026-01-01T00:00:00.000Z") (storedInMemory (opened 101)) := by
  have hlength : (storedInMemory (opened 101)).length = 101 := by decide +kernel
  refine ⟨hlength,?_⟩
  rw [covers_memory,hlength]
  decide

end Creditra.DashboardTotals
