import Mathlib.Data.List.Sort
import Mathlib.Order.Basic

/-!
# Listings ordered by a key

`ORDER BY` on a key that several rows share leaves the order among those to the
server, and may decide it anew for every statement. What it may answer is any
arrangement of the rows that puts the greater keys first; for the smaller ones
first, the keys are taken in the dual order. Two answers agree in their keys,
page by page, and agree altogether where no two rows share a key.
-/
namespace Creditra.SqlOrderings

variable {α β κ : Type*} [LinearOrder κ] {key : α → κ} {rows answer answer' : List α}

/-- An answer to `SELECT` from the rows with `ORDER BY key DESC`. -/
structure Ordered (key : α → κ) (rows answer : List α) : Prop where
  perm : answer.Perm rows
  sorted : answer.Pairwise fun a b => key b ≤ key a

/-- No two rows share a key. -/
def Distinct (key : α → κ) (rows : List α) : Prop := ∀ a ∈ rows, ∀ b ∈ rows, key a = key b → a = b

/-- A stable sort is one way to answer. -/
theorem ordered_insertionSort (key : α → κ) (rows : List α) :
    Ordered key rows (rows.insertionSort fun a b => key b ≤ key a) where
  perm := List.perm_insertionSort _ _
  sorted := by
    have htotal : Std.Total fun a b : α => key b ≤ key a := ⟨fun a b => le_total _ _⟩
    have htrans : IsTrans α fun a b => key b ≤ key a := ⟨fun _ _ _ hab hbc => hbc.trans hab⟩
    exact List.pairwise_insertionSort _ _

theorem Ordered.map {key' : β → κ} {f : α → β} (h : Ordered key rows answer)
    (hf : ∀ a, key' (f a) = key a) : Ordered key' (rows.map f) (answer.map f) where
  perm := h.perm.map f
  sorted := by
    rw [List.pairwise_map]
    simpa only [hf] using h.sorted

theorem Ordered.keys_eq (h : Ordered key rows answer) (h' : Ordered key rows answer') :
    answer.map key = answer'.map key := by
  have hp : (answer.map key).Perm (answer'.map key) := (h.perm.trans h'.perm.symm).map key
  have hsorted : (answer.map key).Pairwise fun a b => b ≤ a := List.pairwise_map.mpr h.sorted
  have hsorted' : (answer'.map key).Pairwise fun a b => b ≤ a := List.pairwise_map.mpr h'.sorted
  exact hp.eq_of_pairwise (fun _ _ _ _ hab hba => le_antisymm hba hab) hsorted hsorted'

theorem Ordered.eq (h : Ordered key rows answer) (h' : Ordered key rows answer')
    (hd : Distinct key rows) : answer = answer' := by
  refine (h.perm.trans h'.perm.symm).eq_of_pairwise ?_ h.sorted h'.sorted
  intro a b ha hb hab hba
  exact hd a (h.perm.mem_iff.mp ha) b (h'.perm.mem_iff.mp hb) (le_antisymm hba hab)

/-- `LIMIT` and `OFFSET`. -/
def page (offset limit : ℕ) (answer : List α) : List α := (answer.drop offset).take limit

theorem page_map (f : α → β) (offset limit : ℕ) (answer : List α) :
    page offset limit (answer.map f) = (page offset limit answer).map f := by
  rw [page,page,List.map_take,List.map_drop]

theorem Ordered.page_keys (h : Ordered key rows answer) (h' : Ordered key rows answer')
    (offset limit : ℕ) :
    (page offset limit answer).map key = (page offset limit answer').map key := by
  rw [← page_map,← page_map,h.keys_eq h']

theorem head?_eq_page (answer : List α) : answer.head? = (page 0 1 answer).head? := by
  cases answer <;> rfl

end Creditra.SqlOrderings
