import Mathlib.Data.List.Nodup
import Mathlib.Order.Lattice
import Mathlib.Order.Defs.LinearOrder
import Mathlib.Order.MinMax

/-!
# Outer joins and aggregates with nulls

A null is an absent value. An outer join gives a row without matches one row of
nulls. The aggregates pass over nulls and are null when nothing else is there.
-/
namespace Creditra.SqlAggregates
variable {α τ : Type}

/-- What a row is joined with in a `LEFT JOIN`: its matches, or nulls. -/
def leftJoin (found : List α) : List (Option α) :=
  if found.isEmpty then [none] else found.map some

theorem some_mem_leftJoin {found : List α} {a : α} : some a ∈ leftJoin found ↔ a ∈ found := by
  unfold leftJoin
  cases found with
  | nil => simp
  | cons b found => simp

/-- No row is lost in an outer join. -/
theorem exists_mem_leftJoin (found : List α) : ∃ a, a ∈ leftJoin found := by
  unfold leftJoin
  cases found with
  | nil => exact ⟨none,List.mem_singleton_self none⟩
  | cons b found => exact ⟨some b,by simp⟩

/-- `MAX`. -/
def maximum [Max τ] (values : List (Option τ)) : Option τ := (values.filterMap id).max?

/-- `BOOL_OR`. -/
def boolOr (values : List (Option Bool)) : Option Bool :=
  match values.filterMap id with
  | [] => none
  | known => some (known.any id)

theorem boolOr_eq_true_iff {values : List (Option Bool)} :
    boolOr values = some true ↔ some true ∈ values := by
  have hmem : some true ∈ values ↔ true ∈ values.filterMap id := by simp
  unfold boolOr
  rw [hmem]
  cases values.filterMap id with
  | nil => simp
  | cons b known =>
      rw [Option.some.injEq,List.any_eq_true]
      constructor
      · rintro ⟨c,hc,htrue⟩
        exact htrue ▸ hc
      · intro h
        exact ⟨true,h,rfl⟩

theorem lt_of_maximum [LinearOrder τ] {xs : List τ} {bound : τ} :
    (∀ m, xs.max? = some m → m < bound) ↔ ∀ x ∈ xs, x < bound := by
  constructor
  · intro h x hx
    cases hm : xs.max? with
    | none =>
        rw [List.max?_eq_none_iff.mp hm] at hx
        cases hx
    | some m => exact lt_of_le_of_lt ((List.max?_eq_some_iff.mp hm).2 x hx) (h m hm)
  · intro h m hm
    exact h m (List.max?_eq_some_iff.mp hm).1

/-- `COALESCE(MAX(...), default)` is below a bound that the default is below. -/
theorem coalesce_maximum_lt_iff [LinearOrder τ] {values : List (Option τ)} {default bound : τ}
    (hd : default < bound) :
    (maximum values).getD default < bound ↔ ∀ x, some x ∈ values → x < bound := by
  have hmem : (∀ x, some x ∈ values → x < bound) ↔ ∀ x ∈ values.filterMap id, x < bound := by simp
  rw [hmem,← lt_of_maximum,maximum]
  cases (values.filterMap id).max? with
  | none => simpa using hd
  | some m => simp

/-- The same for a column of joined rows, by the values it is taken from. -/
theorem coalesce_column_lt_iff [LinearOrder τ] {ρ : Type} {rows : List ρ} {column : ρ → Option α}
    {value : α → τ} {default bound : τ} (hd : default < bound) :
    (maximum (rows.map fun row => (column row).map value)).getD default < bound ↔
      ∀ a, (∃ row ∈ rows, column row = some a) → value a < bound := by
  rw [coalesce_maximum_lt_iff hd]
  constructor
  · rintro h a ⟨row,hrow,ha⟩
    apply h
    exact List.mem_map.mpr ⟨row,hrow,by rw [ha,Option.map_some]⟩
  · intro h x hx
    obtain ⟨row,hrow,hvalue⟩ := List.mem_map.mp hx
    obtain ⟨a,ha,rfl⟩ := Option.map_eq_some_iff.mp hvalue
    exact h a ⟨row,hrow,ha⟩

/-- At most one row has a given primary key. -/
theorem length_filter_key {κ : Type} {rows : List α} {key : α → κ} (hkey : (rows.map key).Nodup)
    {p : α → Bool} {k : κ} (h : ∀ a, p a = true → key a = k) : (rows.filter p).length ≤ 1 := by
  have hnodup : ((rows.filter p).map key).Nodup := hkey.sublist (List.filter_sublist.map key)
  have hall : ∀ a ∈ rows.filter p, key a = k := by
    intro a ha
    exact h a (List.mem_filter.mp ha).2
  generalize rows.filter p = found at hnodup hall
  match found with
  | [] => exact Nat.zero_le 1
  | [_] => exact Nat.le_refl 1
  | a :: b :: found =>
      rw [List.map_cons,List.map_cons,hall a (by simp),hall b (by simp)] at hnodup
      simp at hnodup

/-- A join with rows of which at most one matches counts the rows that match. -/
theorem length_join {β : Type} {rows : List α} {others : List β} {p : α → β → Bool}
    (h : ∀ a, (others.filter (p a)).length ≤ 1) :
    (rows.flatMap fun a => others.filter (p a)).length =
      (rows.filter fun a => others.any (p a)).length := by
  induction rows with
  | nil => rfl
  | cons a rows ih =>
      rw [List.flatMap_cons,List.length_append,ih,List.filter_cons]
      have hone := h a
      cases hany : others.any (p a) with
      | true =>
          obtain ⟨b,hb,hp⟩ := List.any_eq_true.mp hany
          have hpos := List.length_pos_of_mem (List.mem_filter.mpr ⟨hb,hp⟩)
          simp only [if_true,List.length_cons]
          omega
      | false =>
          have hnone : others.filter (p a) = [] := by
            rw [List.filter_eq_nil_iff]
            exact List.any_eq_false.mp hany
          rw [hnone]
          simp

end Creditra.SqlAggregates
