import Creditra.GuardedRuns
import Creditra.MemoryCreditLines

/-!
# Available credit and utilization

With exact amounts, a stored line is in step when its available credit is its
limit less its balance. A patched balance recomputes the available credit from
limit and balance. A patched limit instead rescales the old available credit,
so that its ratio to the limit stays what it was.

The runs below remember which lines were rescaled since they were opened or
last recomputed; every other line is in step.
-/
namespace Creditra.AvailableCredit
open GuardedRuns CreditModels InsertionMaps MemoryCreditLines

/-- All three amounts of a line are numbers. -/
def Numeric (line : CreditLine exacts) : Prop :=
  line.creditLimit.value.isSome ∧ line.utilized.value.isSome ∧ line.availableCredit.value.isSome

/-- The available credit is the difference of limit and balance. -/
def InStep (line : CreditLine exacts) : Prop :=
  ∃ limit utilized : ℚ, line.creditLimit.value = some limit ∧
    line.utilized.value = some utilized ∧ line.availableCredit.value = some (limit - utilized)

/-- The available credit has kept its ratio to the limit; where the old limit is not positive,
all of the new one is available. -/
def InRatio (existing updated : CreditLine exacts) : Prop :=
  ∃ oldLimit newLimit oldAvailable newAvailable : ℚ,
    existing.creditLimit.value = some oldLimit ∧ updated.creditLimit.value = some newLimit ∧
    existing.availableCredit.value = some oldAvailable ∧
    updated.availableCredit.value = some newAvailable ∧
    if 0 < oldLimit then newAvailable * oldLimit = newLimit * oldAvailable
    else newAvailable = newLimit

/-- The calls of the repository that write lines. -/
inductive Write where
  | create (request : CreateCreditLineRequest exacts)
  | update (id : Uuid) (request : UpdateCreditLineRequest exacts)

/-- The amounts of a patch are decimals. -/
def ValidPatch (request : UpdateCreditLineRequest exacts) : Prop :=
  (∀ creditLimit ∈ request.creditLimit, creditLimit.value.isSome) ∧
  ∀ utilized ∈ request.utilized, utilized.value.isSome

def Write.Valid : Write → Prop
  | .create request => request.creditLimit.value.isSome
  | .update _ request => ValidPatch request

instance : (w : Write) → Decidable w.Valid
  | .create _ => inferInstanceAs (Decidable (_ = true))
  | .update _ _ => inferInstanceAs (Decidable (_ ∧ _))

/-- The repository and the lines that were rescaled since they were opened or recomputed. -/
structure Tracked where
  repository : Repository exacts
  rescaled : Uuid → Bool

def Tracked.empty : Tracked := ⟨Repository.empty exacts,fun _ => false⟩

/-- Whether a line counts as rescaled after a patch. -/
def rescaledAfter (request : UpdateCreditLineRequest exacts) (existing : CreditLine exacts)
    (before : Bool) : Bool :=
  if isStale request existing then before
  else if (changedLimit request existing).isSome then true
  else if request.utilized.isSome then false
  else before

def write (t : Tracked) : Write → Tracked
  | .create request => ⟨(t.repository.create request).2,
      Function.update t.rescaled t.repository.nextId false⟩
  | .update id request => ⟨(t.repository.update id request).2,
      match t.repository.creditLines.get id with
      | some existing =>
          Function.update t.rescaled id (rescaledAfter request existing (t.rescaled id))
      | none => t.rescaled⟩

section Patch
variable {existing : CreditLine exacts} {request : UpdateCreditLineRequest exacts}

theorem changedLimit_eq_some {creditLimit : ExactText}
    (h : changedLimit request existing = some creditLimit) :
    request.creditLimit = some creditLimit := by
  unfold changedLimit at h
  split at h
  · rename_i given hgiven
    split at h
    · exact hgiven.trans h
    · cases h
  · cases h

/-- A decimal limit that does not count as changed is the stored one. -/
theorem limit_of_unchanged (h : changedLimit request existing = none)
    (hv : ∀ creditLimit ∈ request.creditLimit, creditLimit.value.isSome) :
    request.creditLimit.getD existing.creditLimit = existing.creditLimit := by
  cases hr : request.creditLimit with
  | none => rfl
  | some creditLimit =>
      unfold changedLimit at h
      rw [hr] at h
      dsimp only at h
      split at h
      · cases h
      · rename_i hsame
        rw [Decidable.not_and_iff_not_or_not,not_not,not_not] at hsame
        cases hsame with
        | inl hempty =>
            have hsome := hv creditLimit hr
            rw [hempty] at hsome
            cases hsome
        | inr heq => exact heq

theorem value_getD_isSome {given : Option ExactText} {stored : ExactText}
    (hs : stored.value.isSome) (hg : ∀ text ∈ given, text.value.isSome) :
    (given.getD stored).value.isSome := by
  cases given with
  | none => exact hs
  | some text => exact hg text rfl

/-- A patched balance recomputes the available credit. -/
theorem inStep_recomputed {utilized : ExactText} (h : Numeric existing) (hv : ValidPatch request)
    (hc : changedLimit request existing = none) (hu : request.utilized = some utilized) :
    InStep (patched request existing) := by
  obtain ⟨limit,hlimit⟩ := Option.isSome_iff_exists.mp (value_getD_isSome h.1 hv.1)
  obtain ⟨balance,hbalance⟩ := Option.isSome_iff_exists.mp (hv.2 utilized hu)
  refine ⟨limit,balance,hlimit,?_,?_⟩
  · unfold patched
    rw [hu]
    exact hbalance
  · unfold patched patchedAvailable
    rw [hc,hu]
    dsimp only
    rw [hlimit,hbalance]
    rfl

/-- A patch that leaves limit and balance alone leaves the available credit alone. -/
theorem inStep_untouched (h : InStep existing) (hv : ValidPatch request)
    (hc : changedLimit request existing = none) (hu : request.utilized = none) :
    InStep (patched request existing) := by
  obtain ⟨limit,utilized,hlimit,hutilized,havailable⟩ := h
  refine ⟨limit,utilized,?_,?_,?_⟩
  · unfold patched
    rw [limit_of_unchanged hc hv.1]
    exact hlimit
  · unfold patched
    rw [hu]
    exact hutilized
  · unfold patched patchedAvailable
    rw [hc,hu]
    exact havailable

/-- A changed limit rescales what was available. -/
theorem available_of_changed {creditLimit : ExactText} {limit oldLimit available : ℚ}
    (hc : changedLimit request existing = some creditLimit)
    (hlimit : creditLimit.value = some limit) (hold : existing.creditLimit.value = some oldLimit)
    (havailable : existing.availableCredit.value = some available) :
    (patchedAvailable request existing).value =
      some (limit * (if 0 < oldLimit then available / oldLimit else 1)) := by
  unfold patchedAvailable
  rw [hc]
  dsimp only
  rw [hlimit,hold,havailable]
  by_cases hpos : 0 < oldLimit
  · simp only [hpos,decide_true,if_true]
    rfl
  · simp only [hpos,decide_false,if_false]
    rfl

/-- A changed limit keeps the ratio. -/
theorem inRatio_patched {creditLimit : ExactText} (h : Numeric existing) (hv : ValidPatch request)
    (hc : changedLimit request existing = some creditLimit) :
    InRatio existing (patched request existing) := by
  obtain ⟨oldLimit,hold⟩ := Option.isSome_iff_exists.mp h.1
  obtain ⟨available,havailable⟩ := Option.isSome_iff_exists.mp h.2.2
  have hgiven := changedLimit_eq_some hc
  obtain ⟨limit,hlimit⟩ := Option.isSome_iff_exists.mp (hv.1 creditLimit hgiven)
  refine ⟨oldLimit,limit,available,_,hold,?_,havailable,
    available_of_changed hc hlimit hold havailable,?_⟩
  · unfold patched
    rw [hgiven]
    exact hlimit
  · by_cases hpos : 0 < oldLimit
    · rw [if_pos hpos,if_pos hpos,mul_assoc,div_mul_cancel₀ _ hpos.ne']
    · rw [if_neg hpos,if_neg hpos,mul_one]

theorem InRatio.numeric {updated : CreditLine exacts} (h : InRatio existing updated)
    (hu : updated.utilized.value.isSome) : Numeric updated := by
  obtain ⟨oldLimit,newLimit,oldAvailable,newAvailable,-,hlimit,-,havailable,-⟩ := h
  exact ⟨Option.isSome_iff_exists.mpr ⟨newLimit,hlimit⟩,hu,
    Option.isSome_iff_exists.mpr ⟨newAvailable,havailable⟩⟩

theorem InStep.numeric (h : InStep existing) : Numeric existing := by
  obtain ⟨limit,utilized,hlimit,hutilized,havailable⟩ := h
  exact ⟨Option.isSome_iff_exists.mpr ⟨limit,hlimit⟩,
    Option.isSome_iff_exists.mpr ⟨utilized,hutilized⟩,
    Option.isSome_iff_exists.mpr ⟨limit - utilized,havailable⟩⟩

theorem numeric_patched (h : Numeric existing) (hv : ValidPatch request) :
    Numeric (patched request existing) := by
  cases hc : changedLimit request existing with
  | some creditLimit => exact (inRatio_patched h hv hc).numeric (value_getD_isSome h.2.1 hv.2)
  | none =>
      cases hu : request.utilized with
      | some utilized => exact (inStep_recomputed h hv hc hu).numeric
      | none =>
          refine ⟨value_getD_isSome h.1 hv.1,value_getD_isSome h.2.1 hv.2,?_⟩
          unfold patched patchedAvailable
          rw [hc,hu]
          exact h.2.2

end Patch

/-! ## Runs -/

/-- Every line is numeric, and in step unless it was rescaled. -/
def Followed (t : Tracked) : Prop :=
  ∀ id line, t.repository.creditLines.get id = some line →
    Numeric line ∧ (t.rescaled id = false → InStep line)

theorem inStep_created (r : Repository exacts) {request : CreateCreditLineRequest exacts}
    (hv : (Write.create request).Valid) : InStep (r.create request).1 := by
  obtain ⟨limit,hlimit⟩ := Option.isSome_iff_exists.mp hv
  have hzero : (ExactText.literal "0").value = some 0 := by decide +kernel
  exact ⟨limit,0,hlimit,hzero,by rw [sub_zero]; exact hlimit⟩

theorem inStep_of_rescaledAfter {existing : CreditLine exacts}
    {request : UpdateCreditLineRequest exacts} {before : Bool} (hn : Numeric existing)
    (hs : before = false → InStep existing) (hv : ValidPatch request)
    (hf : isStale request existing = false)
    (h : rescaledAfter request existing before = false) : InStep (patched request existing) := by
  unfold rescaledAfter at h
  rw [hf,if_neg Bool.false_ne_true] at h
  cases hc : changedLimit request existing with
  | some creditLimit =>
      rw [hc] at h
      cases h
  | none =>
      rw [hc,Option.isSome_none,if_neg Bool.false_ne_true] at h
      cases hu : request.utilized with
      | some utilized => exact inStep_recomputed hn hv hc hu
      | none =>
          rw [hu,Option.isSome_none,if_neg Bool.false_ne_true] at h
          exact inStep_untouched (hs h) hv hc hu

theorem followed_set {t : Tracked} (h : Followed t) {id : Uuid} {line : CreditLine exacts}
    {rescaled : Bool} (hn : Numeric line) (hs : rescaled = false → InStep line) (nextId : Uuid) :
    Followed ⟨⟨t.repository.creditLines.set id line,nextId⟩,
      Function.update t.rescaled id rescaled⟩ := by
  intro id' line' hget
  dsimp only at hget ⊢
  rcases InsertionMap.get_set_cases hget with ⟨rfl,rfl⟩ | ⟨hid,hold⟩
  · rw [Function.update_self]
    exact ⟨hn,hs⟩
  · rw [Function.update_of_ne hid]
    exact h id' line' hold

theorem write_update_fresh {t : Tracked} {id : Uuid} {request : UpdateCreditLineRequest exacts}
    {existing : CreditLine exacts} (hget : t.repository.creditLines.get id = some existing)
    (hf : isStale request existing = false) :
    write t (.update id request) =
      ⟨⟨t.repository.creditLines.set id (patched request existing),t.repository.nextId⟩,
        Function.update t.rescaled id (rescaledAfter request existing (t.rescaled id))⟩ := by
  simp only [write,Repository.update_fresh hget hf,hget]

theorem write_update_unwritten {t : Tracked} {id : Uuid} {request : UpdateCreditLineRequest exacts}
    (h : ∀ existing, t.repository.creditLines.get id = some existing →
      isStale request existing = true) : write t (.update id request) = t := by
  simp only [write,Repository.update_unwritten h]
  cases hget : t.repository.creditLines.get id with
  | none => rfl
  | some existing =>
      simp only [rescaledAfter,h existing hget,if_true,Function.update_eq_self]

theorem followed_write (t : Tracked) (w : Write) (h : Followed t) (hv : w.Valid) :
    Followed (write t w) := by
  cases w with
  | create request =>
      have hstep := inStep_created t.repository hv
      exact followed_set h hstep.numeric (fun _ => hstep) (t.repository.nextId + 1)
  | update id request =>
      cases hget : t.repository.creditLines.get id with
      | none =>
          rw [write_update_unwritten (by intro existing he; rw [hget] at he; cases he)]
          exact h
      | some existing =>
          obtain ⟨hn,hs⟩ := h id existing hget
          cases hf : isStale request existing with
          | true =>
              rw [write_update_unwritten (by intro e he; rw [hget] at he; cases he; exact hf)]
              exact h
          | false =>
              rw [write_update_fresh hget hf]
              exact followed_set h (numeric_patched hn hv) (inStep_of_rescaledAfter hn hs hv hf)
                t.repository.nextId

/-- Along every run of decimal writes each line is in step unless its limit was changed since it
was opened or its balance was last patched alone; and a patch that changes the limit and leaves
the balance keeps the ratio of the available credit to the limit. -/
theorem available_credit_followed (writes : List Write) (hv : ∀ w ∈ writes, w.Valid) :
    (∀ id line, (run write Tracked.empty writes).repository.creditLines.get id = some line →
      (run write Tracked.empty writes).rescaled id = false → InStep line) ∧
    ∀ id existing request,
      (run write Tracked.empty writes).repository.creditLines.get id = some existing →
      isStale request existing = false → ValidPatch request → request.utilized = none →
      (changedLimit request existing).isSome →
      (write (run write Tracked.empty writes) (.update id request)).repository.creditLines.get id =
          some (patched request existing) ∧ InRatio existing (patched request existing) := by
  have hstart : Followed Tracked.empty := by
    intro id line hget
    cases hget
  have hend := run_invariant followed_write hstart (guarded_of_labels hv)
  constructor
  · intro id line hget hr
    exact (hend id line hget).2 hr
  · intro id existing request hget hf hp hu hc
    obtain ⟨creditLimit,hc⟩ := Option.isSome_iff_exists.mp hc
    rw [write_update_fresh hget hf]
    exact ⟨InsertionMap.get_set_self _ _ _,inRatio_patched (hend id existing hget).1 hp hc⟩

/-- A line is patched in every way and its balance last. -/
def recomputed : List Write :=
  [.create ⟨"GA",.literal "100",.zero⟩,.update 0 { utilized := some (.literal "40") },
    .update 0 { creditLimit := some (.literal "200"), status := some .suspended },
    .update 0 { utilized := some (.literal "50.5"), creditLimit := some (.literal "200") }]

theorem available_credit_followed_recomputed :
    (∀ w ∈ recomputed, w.Valid) ∧ (run write Tracked.empty recomputed).rescaled 0 = false ∧
    ∀ line, (run write Tracked.empty recomputed).repository.creditLines.get 0 = some line →
      InStep line := by
  have hv : ∀ w ∈ recomputed, w.Valid := by decide +kernel
  have hr : (run write Tracked.empty recomputed).rescaled 0 = false := by decide +kernel
  refine ⟨hv,hr,?_⟩
  intro line hget
  exact (available_credit_followed recomputed hv).1 0 line hget hr

/-- A line whose limit is doubled behind its balance. -/
def raised : List Write :=
  [.create ⟨"GA",.literal "100",.zero⟩,.update 0 { utilized := some (.literal "40") },
    .update 0 { creditLimit := some (.literal "200") }]

theorem raised_not_in_step :
    (∀ w ∈ raised, w.Valid) ∧
    ¬ ∀ id line, (run write Tracked.empty raised).repository.creditLines.get id = some line →
      InStep line := by
  refine ⟨by decide +kernel,?_⟩
  intro h
  have hline : ∃ line ∈ (run write Tracked.empty raised).repository.creditLines.get 0,
      line.creditLimit.value = some 200 ∧ line.utilized.value = some 40 ∧
        line.availableCredit.value = some 120 := by decide +kernel
  obtain ⟨line,hget,hlimit,hutilized,havailable⟩ := hline
  obtain ⟨l,u,hl,hu,ha⟩ := h 0 line hget
  rw [← Option.some.inj (hlimit.symm.trans hl),← Option.some.inj (hutilized.symm.trans hu),
    havailable,Option.some.injEq] at ha
  norm_num at ha

end Creditra.AvailableCredit
