import Mathlib.Data.List.Basic

/-!
# Runs of a step function under a guard on each step

A state machine is a total step function on states and labels; a label that is
not enabled leaves the state as it is. A run folds a list of labels. A guard is
a condition on the state before a step and its label, and a guarded run is one
whose every step meets it. The two invariant rules below carry a state property
along a guarded run, to its last state and to every state it passes through.

Many machines keep their parties in a list, in which one party moves at a time
and new ones join at the end; the last section says who stands where afterwards.
-/
namespace Creditra.GuardedRuns

variable {σ ι : Type*}

/-- Labels are consumed from the left. -/
def run (step : σ → ι → σ) : σ → List ι → σ
  | s, [] => s
  | s, i :: is => run step (step s i) is

@[simp] theorem run_nil (step : σ → ι → σ) (s : σ) : run step s [] = s := rfl

@[simp] theorem run_cons (step : σ → ι → σ) (s : σ) (i : ι) (is : List ι) :
    run step s (i :: is) = run step (step s i) is := rfl

theorem run_append (step : σ → ι → σ) (s : σ) (is js : List ι) :
    run step s (is ++ js) = run step (run step s is) js := by
  induction is generalizing s with
  | nil => rfl
  | cons i is ih => exact ih (step s i)

/-- Every step of the run is taken from a state that admits its label. -/
def Guarded (step : σ → ι → σ) (C : σ → ι → Prop) : σ → List ι → Prop
  | _, [] => True
  | s, i :: is => C s i ∧ Guarded step C (step s i) is

@[simp] theorem guarded_nil (step : σ → ι → σ) (C : σ → ι → Prop) (s : σ) :
    Guarded step C s [] := trivial

@[simp] theorem guarded_cons (step : σ → ι → σ) (C : σ → ι → Prop) (s : σ) (i : ι)
    (is : List ι) : Guarded step C s (i :: is) ↔ C s i ∧ Guarded step C (step s i) is :=
  Iff.rfl

instance guardedDecidable (step : σ → ι → σ) (C : σ → ι → Prop)
    [∀ s i, Decidable (C s i)] : (s : σ) → (is : List ι) → Decidable (Guarded step C s is)
  | _, [] => inferInstanceAs (Decidable True)
  | s, i :: is =>
      have := guardedDecidable step C (step s i) is
      inferInstanceAs (Decidable (C s i ∧ Guarded step C (step s i) is))

theorem guarded_append (step : σ → ι → σ) (C : σ → ι → Prop) (s : σ) (is js : List ι) :
    Guarded step C s (is ++ js) ↔
      Guarded step C s is ∧ Guarded step C (run step s is) js := by
  induction is generalizing s with
  | nil => simp
  | cons i is ih => simp [ih,and_assoc]

/-- A guard that looks at the labels alone. -/
theorem guarded_of_labels {step : σ → ι → σ} {C : ι → Prop} {s : σ} {is : List ι}
    (h : ∀ i ∈ is, C i) : Guarded step (fun _ i => C i) s is := by
  induction is generalizing s with
  | nil => trivial
  | cons i is ih =>
      exact ⟨h i List.mem_cons_self,ih fun j hj => h j (List.mem_cons_of_mem i hj)⟩

/-- A guard that compares a label with what the labels before it have left behind. -/
theorem guarded_of_pairwise {step : σ → ι → σ} {C : σ → ι → Prop} {R : ι → ι → Prop}
    (keep : ∀ s i j, C s i → R i j → C (step s i) j) {s : σ} {is : List ι}
    (hs : ∀ i ∈ is, C s i) (hp : is.Pairwise R) : Guarded step C s is := by
  induction is generalizing s with
  | nil => trivial
  | cons i is ih =>
      rw [List.pairwise_cons] at hp
      have hi := hs i List.mem_cons_self
      refine ⟨hi,ih ?_ hp.2⟩
      intro j hj
      exact keep s i j hi (hp.1 j hj)

theorem guarded_and {step : σ → ι → σ} {C D : σ → ι → Prop} {s : σ} {is : List ι} :
    Guarded step (fun s i => C s i ∧ D s i) s is ↔ Guarded step C s is ∧ Guarded step D s is := by
  induction is generalizing s with
  | nil => simp
  | cons i is ih =>
      simp only [guarded_cons,ih]
      exact and_and_and_comm

/-- Guards that agree where an invariant holds admit the same runs. -/
theorem guarded_congr {step : σ → ι → σ} {C D : σ → ι → Prop} {I : σ → Prop}
    (keep : ∀ s i, I s → C s i → I (step s i)) (hsame : ∀ s i, I s → (C s i ↔ D s i)) {s : σ}
    (hs : I s) (is : List ι) : Guarded step C s is ↔ Guarded step D s is := by
  induction is generalizing s with
  | nil => exact Iff.rfl
  | cons i is ih =>
      rw [guarded_cons,guarded_cons,← hsame s i hs]
      exact and_congr_right fun hi => ih (keep s i hs hi)

/-- What one admitted step keeps, a guarded run keeps. -/
theorem run_invariant {step : σ → ι → σ} {C : σ → ι → Prop} {I : σ → Prop}
    (keep : ∀ s i, I s → C s i → I (step s i)) {s : σ} {is : List ι}
    (hs : I s) (hg : Guarded step C s is) : I (run step s is) := by
  induction is generalizing s with
  | nil => exact hs
  | cons i is ih => exact ih (keep s i hs hg.1) hg.2

/-- What every step keeps, every run keeps. -/
theorem run_induction {step : σ → ι → σ} {I : σ → Prop}
    (keep : ∀ s i, I s → I (step s i)) {s : σ} (hs : I s) (is : List ι) : I (run step s is) := by
  induction is generalizing s with
  | nil => exact hs
  | cons i is ih => exact ih (keep s i hs)

/-- The same rule at every state the run passes through. -/
theorem run_invariant_passed {step : σ → ι → σ} {C : σ → ι → Prop} {I : σ → Prop}
    (keep : ∀ s i, I s → C s i → I (step s i)) {s : σ} {is pre : List ι}
    (hs : I s) (hg : Guarded step C s is) (hp : pre <+: is) : I (run step s pre) := by
  obtain ⟨rest,rfl⟩ := hp
  exact run_invariant keep hs ((guarded_append step C s pre rest).mp hg).1

/-- Where only admitted steps keep a property, it holds at every state passed exactly in the
guarded runs. -/
theorem passed_iff_guarded {step : σ → ι → σ} {C : σ → ι → Prop} {I P : σ → Prop}
    (keep : ∀ s i, I s → C s i → I (step s i)) (holds : ∀ s, I s → P s)
    (fails : ∀ s i, I s → ¬ C s i → ¬ P (step s i)) {s : σ} (hs : I s) (is : List ι) :
    (∀ pre, pre <+: is → P (run step s pre)) ↔ Guarded step C s is := by
  constructor
  · intro hpassed
    induction is generalizing s with
    | nil => trivial
    | cons i is ih =>
        have hi : C s i := by
          by_contra hnot
          exact fails s i hs hnot (hpassed [i] ⟨is,rfl⟩)
        refine ⟨hi,ih (keep s i hs hi) ?_⟩
        intro pre hpre
        exact hpassed (i :: pre) (List.cons_prefix_cons.mpr ⟨rfl,hpre⟩)
  · intro hg pre hpre
    exact holds _ (run_invariant_passed keep hs hg hpre)

section Parties
variable {α : Type*} {xs ys : List α} {i k : ℕ} {x x' : α}

/-- The party at `i`, after `i` itself has moved. -/
theorem moved (h : xs[i]? = some x) (x' : α) : (xs.set i x')[i]? = some x' := by
  rw [List.getElem?_set_self (List.getElem?_eq_some_iff.mp h).choose]

/-- Every other party is where it was. -/
theorem moved_cases (h : (xs.set i x')[k]? = some x) :
    k = i ∧ x = x' ∨ k ≠ i ∧ xs[k]? = some x := by
  by_cases hk : k = i
  · subst hk
    have hlt : k < xs.length := by
      simpa using (List.getElem?_eq_some_iff.mp h).choose
    rw [List.getElem?_set_self hlt] at h
    exact .inl ⟨rfl,(Option.some.inj h).symm⟩
  · rw [List.getElem?_set_ne (Ne.symm hk)] at h
    exact .inr ⟨hk,h⟩

/-- Those who were there before keep their places. -/
theorem appended_cases (h : (xs ++ ys)[k]? = some x) :
    xs[k]? = some x ∨ ∃ j, k = xs.length + j ∧ ys[j]? = some x := by
  rw [List.getElem?_append] at h
  split at h
  · exact .inl h
  · exact .inr ⟨k - xs.length,by omega,h⟩

theorem joined_cases (h : (xs ++ [x'])[k]? = some x) :
    xs[k]? = some x ∨ k = xs.length ∧ x = x' := by
  rcases appended_cases h with hold | ⟨j,hk,hj⟩
  · exact .inl hold
  · rw [List.getElem?_singleton] at hj
    split at hj
    · exact .inr ⟨by omega,(Option.some.inj hj).symm⟩
    · cases hj

end Parties
end Creditra.GuardedRuns
