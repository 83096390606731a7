import Mathlib.Data.List.Basic

/-!
# Lists cut at a separator

A list written as a left part, a separator and a right part may be written so
in several ways. Two ways of cutting one list are the same, or one of them cuts
inside the left part of the other. When a part on the outer side holds no
separator there is only one way. The text of a natural number holds no
separator, and tells the number.
-/
namespace Creditra.Separators

variable {α : Type*} {sep : α} {l l' r r' : List α}

/-- Two cuts of one list. -/
theorem cut_cases (h : l ++ sep :: r = l' ++ sep :: r') :
    (l = l' ∧ r = r') ∨ (∃ mid, l' = l ++ sep :: mid ∧ r = mid ++ sep :: r') ∨
      ∃ mid, l = l' ++ sep :: mid ∧ r' = mid ++ sep :: r := by
  rw [List.append_eq_append_iff] at h
  rcases h with ⟨mid,hl,hr⟩ | ⟨mid,hl,hr⟩
  · cases mid with
    | nil =>
        rw [List.append_nil] at hl
        rw [List.nil_append,List.cons.injEq] at hr
        exact .inl ⟨hl.symm,hr.2⟩
    | cons x mid =>
        rw [List.cons_append,List.cons.injEq] at hr
        exact .inr (.inl ⟨mid,hr.1 ▸ hl,hr.2⟩)
  · cases mid with
    | nil =>
        rw [List.append_nil] at hl
        rw [List.nil_append,List.cons.injEq] at hr
        exact .inl ⟨hl,hr.2.symm⟩
    | cons x mid =>
        rw [List.cons_append,List.cons.injEq] at hr
        exact .inr (.inr ⟨mid,hr.1 ▸ hl,hr.2⟩)

/-- Left parts without the separator. -/
theorem cut_unique_left (hl : sep ∉ l) (hl' : sep ∉ l')
    (h : l ++ sep :: r = l' ++ sep :: r') : l = l' ∧ r = r' := by
  rcases cut_cases h with heq | ⟨mid,hmid,-⟩ | ⟨mid,hmid,-⟩
  · exact heq
  · exact absurd (by simp [hmid]) hl'
  · exact absurd (by simp [hmid]) hl

/-- Right parts without the separator. -/
theorem cut_unique_right (hr : sep ∉ r) (hr' : sep ∉ r')
    (h : l ++ sep :: r = l' ++ sep :: r') : l = l' ∧ r = r' := by
  rcases cut_cases h with heq | ⟨mid,-,hmid⟩ | ⟨mid,-,hmid⟩
  · exact heq
  · exact absurd (by simp [hmid]) hr
  · exact absurd (by simp [hmid]) hr'

/-- The left part is shorter than the list it begins. -/
theorem cut_ne (h : l = l' ++ sep :: r) : l' ≠ l := by
  intro heq
  rw [heq] at h
  have hlen := congrArg List.length h
  simp at hlen

theorem toString_nat_injective {m n : ℕ} (h : toString m = toString n) : m = n := by
  have hdigits := congrArg (fun s => Nat.ofDigitChars 10 s.toList 0) h
  simpa [Nat.toString_eq_ofList_toDigits] using hdigits

theorem notMem_toString {c : Char} (hc : c.isDigit = false) (n : ℕ) :
    c ∉ (toString n).toList := by
  rw [Nat.toString_eq_ofList_toDigits,String.toList_ofList]
  intro hmem
  rw [Nat.isDigit_of_mem_toDigits (by decide) (by decide) hmem] at hc
  cases hc

end Creditra.Separators
