import Creditra.CreditModels
import Creditra.FloatNumbers
import Creditra.GuardedRuns
import Creditra.IsoDates

/-!
# The cached dashboard summary

`services/dashboardSummaryService.ts`: `getSummary` answers from a cache until
it expires, and otherwise reads every credit line, aggregates them and fills the
cache. It suspends while the lines are read and again while the aggregate is
handed back, so calls overlap with each other, with writes to the lines and with
`invalidate`. A call that is under way when the cache is dropped still fills it
afterwards, with what it had read.
-/
namespace Creditra.DashboardCache
open CreditModels FloatNumbers GuardedRuns IsoDates

/-- What the aggregation reads of a credit line. -/
structure Line where
  status : CreditLineStatus
  creditLimit : String
  utilized : String
  deriving DecidableEq

structure Counts where
  active : ℕ := 0
  suspended : ℕ := 0
  closed : ℕ := 0
  pending : ℕ := 0
  deriving DecidableEq

def Counts.add (counts : Counts) : CreditLineStatus → Counts
  | .active => { counts with active := counts.active + 1 }
  | .suspended => { counts with suspended := counts.suspended + 1 }
  | .closed => { counts with closed := counts.closed + 1 }
  | .pending => { counts with pending := counts.pending + 1 }

structure DashboardSummary where
  totalCreditLines : ℕ
  totalCreditLimit : String
  totalUtilized : String
  totalAvailable : String
  countsByStatus : Counts
  generatedAt : String
  deriving DecidableEq

/-- `x || 0`. -/
def orZero : Value → Value
  | .nan => .zero
  | x => x

/-- The digits of hundredths, with at least one before the point. -/
def fixedDigits (hundredths : ℕ) : String :=
  toString (hundredths / 100) ++ "." ++ String.ofList (padded 2 (hundredths % 100))

/-- `x.toFixed(2)`: a half goes away from zero, and large values print as they are. -/
def toFixed (x : Value) : String :=
  match x with
  | .finite d =>
      if 1000000000000000000000 ≤ |d.1| then toText x
      else (if d.1 < 0 then "-" else "") ++ fixedDigits ⌊|d.1| * 100 + 1 / 2⌋.toNat
  | _ => toText x

/-- What the loop over the lines adds up. -/
structure Totals where
  countsByStatus : Counts := {}
  totalLimit : Value := .zero
  totalUtilized : Value := .zero

def Totals.add (totals : Totals) (line : Line) : Totals :=
  let utilized := if line.utilized = "" then "0" else line.utilized
  { countsByStatus := totals.countsByStatus.add line.status
    totalLimit := totals.totalLimit.add (orZero (parseFloat line.creditLimit))
    totalUtilized := totals.totalUtilized.add (orZero (parseFloat utilized)) }

def aggregate (lines : List Line) (generatedAt : String) : DashboardSummary :=
  let totals := lines.foldl Totals.add {}
  let totalAvailable := Value.max .zero (totals.totalLimit.sub totals.totalUtilized)
  { totalCreditLines := lines.length
    totalCreditLimit := toFixed totals.totalLimit
    totalUtilized := toFixed totals.totalUtilized
    totalAvailable := toFixed totalAvailable
    countsByStatus := totals.countsByStatus
    generatedAt := generatedAt }

def Counts.total (counts : Counts) : ℕ :=
  counts.active + counts.suspended + counts.closed + counts.pending

theorem total_add (counts : Counts) (status : CreditLineStatus) :
    (counts.add status).total = counts.total + 1 := by
  cases status with
  | active | suspended | closed | pending =>
      simp only [Counts.add,Counts.total]
      omega

theorem total_foldl (lines : List Line) (totals : Totals) :
    (lines.foldl Totals.add totals).countsByStatus.total =
      totals.countsByStatus.total + lines.length := by
  induction lines generalizing totals with
  | nil => rfl
  | cons line lines ih =>
      rw [List.foldl_cons,ih,List.length_cons,Totals.add,total_add]
      omega

/-- Every line is counted under one status. -/
theorem total_countsByStatus (lines : List Line) (generatedAt : String) :
    (aggregate lines generatedAt).countsByStatus.total =
      (aggregate lines generatedAt).totalCreditLines := by
  have h := total_foldl lines {}
  rw [show Counts.total {} = 0 from rfl,Nat.zero_add] at h
  exact h

/-- What was read, or computed from it, and how many writes the lines had seen by then. -/
structure Dated (α : Type) where
  value : α
  version : ℕ
  deriving DecidableEq

/-- How far a call of `getSummary` is. -/
inductive Phase where
  | finding
  | found (lines : Dated (List Line))
  | computed (summary : Dated DashboardSummary)
  | returned (summary : Dated DashboardSummary)
  | rejected
  deriving DecidableEq

/-- The age of the data a suspended call holds. -/
def Phase.held : Phase → Option ℕ
  | .found lines => some lines.version
  | .computed summary => some summary.version
  | _ => none

structure Call where
  nowMs : ℤ
  phase : Phase
  deriving DecidableEq

structure Cache where
  summary : Dated DashboardSummary
  expiresAt : ℤ
  deriving DecidableEq

/-- The lines, the number of writes to them so far, the cache, and the calls in the order of their
starts. -/
structure State where
  lines : List Line
  version : ℕ := 0
  cache : Option Cache := none
  calls : List Call := []
  deriving DecidableEq

inductive Label where
  | getSummary (nowMs : ℤ)
  | read (i : ℕ)
  | failed (i : ℕ)
  | compute (i : ℕ) (nowMs : ℤ)
  | settle (i : ℕ)
  | mutate (lines : List Line)
  | invalidate
  deriving DecidableEq

/-- `getSummary` up to its first suspension. -/
def getSummary (s : State) (nowMs : ℤ) : Phase :=
  match s.cache with
  | some cache => if nowMs < cache.expiresAt then .returned cache.summary else .finding
  | none => .finding

/-- `computeSummary` once the lines are there. -/
def computeSummary (lines : Dated (List Line)) (nowMs : ℤ) : Phase :=
  match dateText nowMs with
  | some generatedAt => .computed ⟨aggregate lines.value generatedAt,lines.version⟩
  | none => .rejected

def State.advance (s : State) (i : ℕ) (call : Call) (phase : Phase) : State :=
  { s with calls := s.calls.set i { call with phase } }

def step (ttlMs : ℤ) (s : State) : Label → State
  | .getSummary nowMs => { s with calls := s.calls ++ [⟨nowMs,getSummary s nowMs⟩] }
  | .read i => match s.calls[i]? with
      | some ⟨nowMs,.finding⟩ => s.advance i ⟨nowMs,.finding⟩ (.found ⟨s.lines,s.version⟩)
      | _ => s
  | .failed i => match s.calls[i]? with
      | some ⟨nowMs,.finding⟩ => s.advance i ⟨nowMs,.finding⟩ .rejected
      | _ => s
  | .compute i nowMs => match s.calls[i]? with
      | some ⟨startedAt,.found lines⟩ =>
          s.advance i ⟨startedAt,.found lines⟩ (computeSummary lines nowMs)
      | _ => s
  | .settle i => match s.calls[i]? with
      | some ⟨nowMs,.computed summary⟩ =>
          { s.advance i ⟨nowMs,.computed summary⟩ (.returned summary) with
            cache := some ⟨summary,nowMs + ttlMs⟩ }
      | _ => s
  | .mutate lines => { s with lines, version := s.version + 1 }
  | .invalidate => { s with cache := none }

def initial (lines : List Line) : State := { lines }

/-- The age of the data behind a call, returned or not. -/
def Phase.version : Phase → Option ℕ
  | .returned summary => some summary.version
  | phase => phase.held

theorem version_of_held {phase : Phase} {v : ℕ} (h : phase.held = some v) :
    phase.version = some v := by
  cases phase with
  | found lines | computed summary => exact h
  | finding | returned summary | rejected => cases h

section Steps
variable {ttlMs : ℤ} {s : State} {l : Label} {k v : ℕ} {call : Call}

theorem version_getSummary {nowMs : ℤ} (h : (getSummary s nowMs).version = some v) :
    ∃ cache, s.cache = some cache ∧ cache.summary.version = v := by
  unfold getSummary at h
  split at h
  · rename_i cache hcache
    split at h
    · exact ⟨cache,hcache,Option.some.inj h⟩
    · cases h
  · cases h

theorem version_computeSummary {lines : Dated (List Line)} {nowMs : ℤ}
    (h : (computeSummary lines nowMs).version = some v) : lines.version = v := by
  unfold computeSummary at h
  split at h
  · exact Option.some.inj h
  · cases h

theorem version_le_step : s.version ≤ (step ttlMs s l).version := by
  cases l with
  | getSummary nowMs => exact le_refl _
  | read i | failed i | compute i nowMs | settle i =>
      simp only [step]
      split <;> exact le_refl _
  | mutate lines => exact Nat.le_succ _
  | invalidate => exact le_refl _

/-- The cache is what it was, or filled from a call that was suspended. -/
theorem cache_step {cache : Cache} (h : (step ttlMs s l).cache = some cache) :
    s.cache = some cache ∨ ∃ (i : ℕ) (old : Call), s.calls[i]? = some old ∧
      old.phase.held = some cache.summary.version := by
  cases l with
  | getSummary nowMs => exact .inl h
  | read i | failed i | compute i nowMs =>
      simp only [step] at h
      split at h <;> exact .inl h
  | settle i =>
      simp only [step] at h
      split at h
      · rename_i startedAt summary hi
        cases h
        exact .inr ⟨i,_,hi,rfl⟩
      · exact .inl h
  | mutate lines => exact .inl h
  | invalidate => cases h

/-- The data behind a call that moved or joined are the lines as they are, the cache, or what the
call held before. -/
theorem calls_step (h : (step ttlMs s l).calls[k]? = some call) (hv : call.phase.version = some v) :
    s.calls[k]? = some call ∨ v = s.version ∨
      (∃ cache, s.cache = some cache ∧ cache.summary.version = v) ∨
      ∃ old, s.calls[k]? = some old ∧ old.phase.held = some v := by
  cases l with
  | getSummary nowMs =>
      rcases joined_cases h with hold | ⟨-,rfl⟩
      · exact .inl hold
      · exact .inr (.inr (.inl (version_getSummary hv)))
  | read i =>
      simp only [step] at h
      split at h
      · rcases moved_cases h with ⟨-,rfl⟩ | ⟨-,hold⟩
        · exact .inr (.inl (Option.some.inj hv).symm)
        · exact .inl hold
      · exact .inl h
  | failed i =>
      simp only [step] at h
      split at h
      · rcases moved_cases h with ⟨-,rfl⟩ | ⟨-,hold⟩
        · cases hv
        · exact .inl hold
      · exact .inl h
  | compute i nowMs =>
      simp only [step] at h
      split at h
      · rename_i startedAt lines hi
        rcases moved_cases h with ⟨rfl,rfl⟩ | ⟨-,hold⟩
        · exact .inr (.inr (.inr ⟨_,hi,congrArg some (version_computeSummary hv)⟩))
        · exact .inl hold
      · exact .inl h
  | settle i =>
      simp only [step] at h
      split at h
      · rename_i startedAt summary hi
        rcases moved_cases h with ⟨rfl,rfl⟩ | ⟨-,hold⟩
        · exact .inr (.inr (.inr ⟨_,hi,hv⟩))
        · exact .inl hold
      · exact .inl h
  | mutate lines => exact .inl h
  | invalidate => exact .inl h

end Steps

/-- Nothing older than version `m` is cached, held by a suspended call, or returned by a call from
number `n` on. -/
structure Fresh (m n : ℕ) (s : State) : Prop where
  version : m ≤ s.version
  cache : ∀ cache, s.cache = some cache → m ≤ cache.summary.version
  held : ∀ (i : ℕ) call v, s.calls[i]? = some call → call.phase.held = some v → m ≤ v
  returned : ∀ (i : ℕ) call v, n ≤ i → s.calls[i]? = some call → call.phase.version = some v → m ≤ v

theorem fresh_step {m n : ℕ} {ttlMs : ℤ} {s : State} (h : Fresh m n s) (l : Label) :
    Fresh m n (step ttlMs s l) := by
  have hnew : ∀ (i : ℕ) call v, (step ttlMs s l).calls[i]? = some call →
      call.phase.version = some v → s.calls[i]? = some call ∨ m ≤ v := by
    intro i call v hi hv
    rcases calls_step hi hv with hold | rfl | ⟨cache,hc,rfl⟩ | ⟨old,hold,hheld⟩
    · exact .inl hold
    · exact .inr h.version
    · exact .inr (h.cache cache hc)
    · exact .inr (h.held i old v hold hheld)
  constructor
  · exact le_trans h.version version_le_step
  · intro cache hc
    rcases cache_step hc with hold | ⟨i,old,hold,hheld⟩
    · exact h.cache cache hold
    · exact h.held i old _ hold hheld
  · intro i call v hi hheld
    rcases hnew i call v hi (version_of_held hheld) with hold | hle
    · exact h.held i call v hold hheld
    · exact hle
  · intro i call v hn hi hv
    rcases hnew i call v hi hv with hold | hle
    · exact h.returned i call v hn hold hv
    · exact hle

theorem fresh_run {m n : ℕ} (ttlMs : ℤ) {s : State} (h : Fresh m n s) (labels : List Label) :
    Fresh m n (run (step ttlMs) s labels) := by
  induction labels generalizing s with
  | nil => exact h
  | cons l labels ih => exact ih (fresh_step h l)

/-- The cache is dropped only while no suspended call holds lines from before the last write. -/
def Quiet (s : State) : Label → Prop
  | .invalidate => ∀ call ∈ s.calls, call.phase.held = none ∨ call.phase.held = some s.version
  | _ => True

instance (s : State) (l : Label) : Decidable (Quiet s l) :=
  match l with
  | .invalidate => inferInstanceAs (Decidable (∀ call ∈ s.calls, _))
  | .getSummary _ | .read _ | .failed _ | .compute _ _ | .settle _ | .mutate _ =>
      inferInstanceAs (Decidable True)

theorem fresh_invalidate {m : ℕ} (ttlMs : ℤ) {s : State} (hm : m ≤ s.version)
    (hq : Quiet s .invalidate) : Fresh m s.calls.length (step ttlMs s .invalidate) := by
  constructor
  · exact hm
  · intro cache hc
    cases hc
  · intro i call v hi hheld
    rcases hq call (List.mem_of_getElem? hi) with hnone | hsome
    · rw [hnone] at hheld
      cases hheld
    · rw [hsome,Option.some.injEq] at hheld
      exact hheld ▸ hm
  · intro i call v hn hi _
    have hlt : i < s.calls.length := (List.getElem?_eq_some_iff.mp hi).choose
    exact absurd hn (not_le.mpr hlt)

theorem version_le_run {ttlMs : ℤ} {s : State} (labels : List Label) :
    s.version ≤ (run (step ttlMs) s labels).version := by
  induction labels generalizing s with
  | nil => exact le_refl _
  | cons l labels ih => exact le_trans version_le_step ih

/-- After a write and a later `invalidate`, no call started from then on returns a summary of lines
that were read before the write. -/
def NotOvertaken (ttlMs : ℤ) (lines : List Line) (labels : List Label) : Prop :=
  ∀ (before : List Label) (written : List Line) (between after : List Label),
    (before ++ [Label.mutate written]) ++ between ++ [Label.invalidate] ++ after <+: labels →
    ∀ (i : ℕ) (call : Call) (summary : Dated DashboardSummary),
      (run (step ttlMs) (initial lines)
        ((before ++ [Label.mutate written]) ++ between ++ [Label.invalidate])).calls.length ≤ i →
      (run (step ttlMs) (initial lines)
        ((before ++ [Label.mutate written]) ++ between ++ [Label.invalidate] ++ after)).calls[i]? =
          some call →
      call.phase = .returned summary →
      (run (step ttlMs) (initial lines) (before ++ [Label.mutate written])).version ≤
        summary.version

/-- An invalidation is not overtaken in any run in which no suspended call holds older lines when
the cache is dropped. -/
theorem invalidation_not_overtaken (ttlMs : ℤ) (lines : List Line) (labels : List Label)
    (hg : Guarded (step ttlMs) Quiet (initial lines) labels) : NotOvertaken ttlMs lines labels := by
  intro before written between after hprefix i call summary hi hcall hreturned
  obtain ⟨rest,rfl⟩ := hprefix
  have hdrop := ((guarded_append _ _ _ _ rest).mp hg).1
  have hdrop := ((guarded_append _ _ _ _ after).mp hdrop).1
  have hquiet := ((guarded_append _ _ _ _ [Label.invalidate]).mp hdrop).2.1
  have hdropped : run (step ttlMs) (initial lines)
        (before ++ [.mutate written] ++ between ++ [.invalidate]) =
      step ttlMs (run (step ttlMs) (run (step ttlMs) (initial lines) (before ++ [.mutate written]))
        between) .invalidate := by
    rw [run_append,run_append _ _ _ between]
    rfl
  rw [run_append _ _ _ after,hdropped] at hcall
  rw [hdropped] at hi
  rw [run_append _ _ _ between] at hquiet
  have hfresh := fresh_invalidate ttlMs (version_le_run between) hquiet
  have hend := fresh_run ttlMs hfresh after
  have hversion : call.phase.version = some summary.version := by
    rw [hreturned]
    rfl
  exact hend.returned i call summary.version hi hcall hversion

/-- A call fills the cache, a line is closed, and the cache is dropped before the next call. -/
def inTurn : List Label :=
  [.getSummary 0,.read 0,.compute 0 1,.settle 0,.mutate [],.invalidate,.getSummary 2,.read 1,
    .compute 1 3,.settle 1]

theorem invalidation_not_overtaken_inTurn :
    Guarded (step 30000) Quiet (initial [⟨.active,"1000.00","0.00"⟩]) inTurn ∧
    NotOvertaken 30000 [⟨.active,"1000.00","0.00"⟩] inTurn := by
  have hg : Guarded (step 30000) Quiet (initial [⟨.active,"1000.00","0.00"⟩]) inTurn := by
    decide +kernel
  exact ⟨hg,invalidation_not_overtaken 30000 _ inTurn hg⟩

/-- A call reads the lines, a line is closed and the cache dropped, the call fills the cache, and
the next call is answered from it. -/
def overtaking : List Label :=
  [.getSummary 0,.read 0,.mutate [],.invalidate,.compute 0 1,.settle 0,.getSummary 2]

theorem invalidation_overtaken :
    ¬ NotOvertaken 30000 [⟨.active,"1000.00","0.00"⟩] overtaking := by
  intro h
  have hlate := h [.getSummary 0,.read 0] [] [] [.compute 0 1,.settle 0,.getSummary 2]
    (List.prefix_refl _) 1 ⟨2,.returned ⟨_,0⟩⟩ ⟨_,0⟩ (by decide) rfl rfl
  exact absurd hlate (by decide)

end Creditra.DashboardCache
