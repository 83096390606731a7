import Mathlib.Data.List.Sort
import Mathlib.Order.Basic

/-!
# Ranks in lists of comparable items

The item of a given rank is the least one that as many items as the rank do not
exceed. In a sorted list it stands at the place of its rank, and a rank can be
given as a percentage of the number of items.
-/
namespace Creditra.OrderStatistics

variable {α : Type*} [LinearOrder α] {xs ys : List α} {d : α}

/-- The `k`-th smallest item, the smallest being the first. -/
structure IsRank (k : ℕ) (xs : List α) (d : α) : Prop where
  mem : d ∈ xs
  enough : k ≤ xs.countP (· ≤ d)
  least : ∀ e, e < d → xs.countP (· ≤ e) < k

/-- The least item that at least `p` percent of the items do not exceed. -/
structure AtPercent (p : ℕ) (xs : List α) (d : α) : Prop where
  mem : d ∈ xs
  enough : p * xs.length ≤ 100 * xs.countP (· ≤ d)
  least : ∀ e, e < d → 100 * xs.countP (· ≤ e) < p * xs.length

theorem IsRank.perm {k : ℕ} (h : IsRank k xs d) (hp : xs.Perm ys) : IsRank k ys d where
  mem := hp.mem_iff.mp h.mem
  enough := by
    rw [← hp.countP_eq]
    exact h.enough
  least := by
    intro e he
    rw [← hp.countP_eq]
    exact h.least e he

theorem AtPercent.unique {p : ℕ} {e : α} (h : AtPercent p xs d) (h' : AtPercent p xs e) :
    d = e := by
  rcases lt_trichotomy d e with hlt | rfl | hgt
  · exact absurd h.enough (not_le.mpr (h'.least d hlt))
  · rfl
  · exact absurd h'.enough (not_le.mpr (h.least e hgt))

/-- The front of a sorted list does not exceed the item behind it. -/
theorem countP_le_getElem (h : xs.Pairwise (· ≤ ·)) {i : ℕ} (hi : i < xs.length) :
    i + 1 ≤ xs.countP (· ≤ xs[i]) := by
  have hfront : (xs.take (i + 1)).countP (· ≤ xs[i]) = i + 1 := by
    rw [List.countP_eq_length.mpr,List.length_take,Nat.min_eq_left hi]
    intro a ha
    obtain ⟨j,hj,rfl⟩ := List.mem_iff_getElem.mp ha
    rw [List.length_take] at hj
    rw [List.getElem_take,decide_eq_true_eq]
    rcases Nat.lt_or_eq_of_le (show j ≤ i by omega) with hlt | rfl
    · exact List.pairwise_iff_getElem.mp h j i (by omega) hi hlt
    · exact le_refl _
  exact hfront.symm.trans_le ((List.take_sublist _ _).countP_le)

/-- What is below an item of a sorted list is below all that stand behind it. -/
theorem countP_lt_getElem (h : xs.Pairwise (· ≤ ·)) {i : ℕ} (hi : i < xs.length) {e : α}
    (he : e < xs[i]) : xs.countP (· ≤ e) < i + 1 := by
  have hsplit : xs.countP (· ≤ e) =
      (xs.take i).countP (· ≤ e) + (xs.drop i).countP (· ≤ e) := by
    rw [← List.countP_append,List.take_append_drop]
  have hback : (xs.drop i).countP (· ≤ e) = 0 := by
    rw [List.countP_eq_zero]
    intro a ha
    obtain ⟨j,hj,rfl⟩ := List.mem_iff_getElem.mp ha
    rw [List.length_drop] at hj
    rw [List.getElem_drop,decide_eq_true_eq,not_le]
    rcases Nat.eq_zero_or_pos j with rfl | hpos
    · exact he
    · exact he.trans_le (List.pairwise_iff_getElem.mp h i (i + j) hi (by omega) (by omega))
  have hfront : (xs.take i).countP (· ≤ e) ≤ i := by
    refine List.countP_le_length.trans ?_
    rw [List.length_take]
    omega
  omega

theorem isRank_getElem (h : xs.Pairwise (· ≤ ·)) {i : ℕ} (hi : i < xs.length) :
    IsRank (i + 1) xs xs[i] :=
  ⟨List.getElem_mem hi,countP_le_getElem h hi,fun _ he => countP_lt_getElem h hi he⟩

/-- A rank that is the given percentage of the items, rounded up. -/
theorem IsRank.atPercent {k p : ℕ} (h : IsRank k xs d) (hk : p * xs.length ≤ 100 * k)
    (hlast : 100 * k < p * xs.length + 100) : AtPercent p xs d where
  mem := h.mem
  enough := by
    have := h.enough
    omega
  least := by
    intro e he
    have := h.least e he
    omega

end Creditra.OrderStatistics
