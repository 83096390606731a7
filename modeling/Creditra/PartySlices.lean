import Creditra.GuardedRuns

/-!
# Machines seen by some of their parties

Of the parties of a machine some belong to an owner. Their places among
themselves are their ranks. A label of the whole machine is a label of the
slice, with a rank for a place, or is not about it. When a step of the whole is
a step of the slice, or none, so is a run.
-/
namespace Creditra.PartySlices
open GuardedRuns

section Ranks
variable {α : Type*} {p : α → Bool} {xs : List α} {i : ℕ} {x x' : α}

/-- The place of a party among those that pass the test. -/
def rank (p : α → Bool) (xs : List α) (i : ℕ) : ℕ := (xs.take i).countP p

@[simp] theorem rank_zero (p : α → Bool) (xs : List α) : rank p xs 0 = 0 := by
  unfold rank
  rw [List.take_zero,List.countP_nil]

theorem rank_cons_succ (p : α → Bool) (a : α) (xs : List α) (i : ℕ) :
    rank p (a :: xs) (i + 1) = rank p xs i + if p a then 1 else 0 := by
  unfold rank
  rw [List.take_succ_cons,List.countP_cons]

theorem getElem?_filter_rank (h : xs[i]? = some x) (hx : p x = true) :
    (xs.filter p)[rank p xs i]? = some x := by
  induction xs generalizing i with
  | nil => cases h
  | cons a xs ih =>
      cases i with
      | zero =>
          obtain rfl := Option.some.inj h
          rw [List.filter_cons_of_pos hx,rank_zero]
          rfl
      | succ i =>
          rw [rank_cons_succ]
          cases ha : p a with
          | true =>
              rw [List.filter_cons_of_pos ha]
              exact ih h
          | false =>
              rw [List.filter_cons_of_neg (by simp [ha])]
              exact ih h

/-- A party of the slice moves. -/
theorem filter_set_of_pos (h : xs[i]? = some x) (hx : p x = true) (hx' : p x' = true) :
    (xs.set i x').filter p = (xs.filter p).set (rank p xs i) x' := by
  induction xs generalizing i with
  | nil => cases h
  | cons a xs ih =>
      cases i with
      | zero =>
          obtain rfl := Option.some.inj h
          rw [List.set_cons_zero,List.filter_cons_of_pos hx',List.filter_cons_of_pos hx,rank_zero,
            List.set_cons_zero]
      | succ i =>
          rw [rank_cons_succ,List.set_cons_succ]
          cases ha : p a with
          | true =>
              rw [List.filter_cons_of_pos ha,List.filter_cons_of_pos ha,ih h]
              rfl
          | false =>
              rw [List.filter_cons_of_neg (by simp [ha]),List.filter_cons_of_neg (by simp [ha]),
                ih h]
              rfl

/-- A party outside the slice moves. -/
theorem filter_set_of_neg (h : xs[i]? = some x) (hx : p x = false) (hx' : p x' = false) :
    (xs.set i x').filter p = xs.filter p := by
  induction xs generalizing i with
  | nil => cases h
  | cons a xs ih =>
      cases i with
      | zero =>
          obtain rfl := Option.some.inj h
          rw [List.set_cons_zero,List.filter_cons_of_neg (by simp [hx']),
            List.filter_cons_of_neg (by simp [hx])]
      | succ i =>
          rw [List.set_cons_succ,List.filter_cons,List.filter_cons,ih h]

end Ranks

section Runs
variable {σ ι κ : Type*} (step : σ → ι → σ) (project : σ → ι → Option κ)

/-- The labels of a run that are about the slice. -/
def restrict : σ → List ι → List κ
  | _, [] => []
  | s, i :: is => (project s i).toList ++ restrict (step s i) is

variable {step project} {slice : σ → κ → σ} {R : σ → σ → Prop}

/-- When a step of the whole is a step of the slice, or none, so is a run. -/
theorem run_restrict
    (hstep : ∀ s t i, R s t → R (step s i) (run slice t (project s i).toList)) {s t : σ}
    (h : R s t) (is : List ι) : R (run step s is) (run slice t (restrict step project s is)) := by
  induction is generalizing s t with
  | nil => exact h
  | cons i is ih =>
      rw [run_cons,restrict,run_append]
      exact ih (hstep s t i h)

end Runs

end Creditra.PartySlices
