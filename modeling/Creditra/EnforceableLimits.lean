import Creditra.GuardedRuns
import Creditra.MemoryCreditLines

/-!
# Which limits a draw is held to

The service compares a limit with zero and lets it pass when the comparison is
false, which it also is for a text that is not a number; and it does not compare
an empty text at all when a line is patched. A draw is refused when the new
balance is above the limit, which is false again for what is not a number.

The checks hold a line to its limit along every run in which no accepted text
reads as not-a-number or positive infinity and no draw finds a balance that is
not a number.
-/
namespace Creditra.EnforceableLimits
open GuardedRuns CreditModels FloatNumbers InsertionMaps MemoryCreditLines

/-! ## Comparisons -/

theorem round_ne_nan (q : ℚ) : Value.round q ≠ .nan := by
  unfold Value.round
  split
  · intro h
    cases h
  · intro h
    cases h

theorem add_ne_nan {u a : Value} (hu : u ≠ .nan) (ha : a.isFinite = true) : u.add a ≠ .nan := by
  cases a with
  | finite y =>
      cases u with
      | finite x => exact round_ne_nan _
      | infinite negative =>
          intro h
          cases h
      | nan => exact absurd rfl hu
  | infinite negative => cases ha
  | nan => cases ha

/-- Two values that are numbers compare one way or the other. -/
theorem le_of_not_lt {u v : Value} (hu : u ≠ .nan) (hv : v ≠ .nan) (h : u.lt v = false) :
    v.le u = true := by
  cases u with
  | finite x =>
      cases v with
      | finite y =>
          simp only [Value.lt,decide_eq_false_iff_not,not_lt] at h
          simpa only [Value.le,decide_eq_true_eq] using h
      | infinite negative => simpa [Value.lt,Value.le] using h
      | nan => exact absurd rfl hv
  | infinite negative =>
      cases v with
      | finite y => simpa [Value.lt,Value.le] using h
      | infinite negative' =>
          cases negative <;> cases negative' <;> first | rfl | cases h
      | nan => exact absurd rfl hv
  | nan => exact absurd rfl hu

/-- A text that reads as a positive finite number. -/
def Enforceable (creditLimit : String) : Prop :=
  match parseFloat creditLimit with
  | .finite x => 0 < x.1
  | _ => False

instance (creditLimit : String) : Decidable (Enforceable creditLimit) := by
  unfold Enforceable
  split <;> infer_instance

/-- Neither not-a-number nor positive infinity: a value that a comparison with zero decides. -/
def Decided (v : Value) : Prop := v ≠ .nan ∧ v ≠ .infinite false

instance (v : Value) : Decidable (Decided v) := inferInstanceAs (Decidable (_ ∧ _))

theorem enforceable_of_decided {creditLimit : String} (h : Decided (parseFloat creditLimit))
    (hpos : (parseFloat creditLimit).le .zero = false) : Enforceable creditLimit := by
  unfold Enforceable
  cases hv : parseFloat creditLimit with
  | finite x =>
      rw [hv] at hpos
      simpa [Value.le,Value.zero] using hpos
  | infinite negative =>
      rw [hv] at h hpos
      cases negative with
      | false => exact absurd rfl h.2
      | true => cases hpos
  | nan =>
      rw [hv] at h
      exact absurd rfl h.1

theorem Enforceable.ne_nan {creditLimit : String} (h : Enforceable creditLimit) :
    parseFloat creditLimit ≠ .nan := by
  intro hv
  unfold Enforceable at h
  rw [hv] at h
  exact h

/-! ## Runs -/

/-- The service and the lines that successful draws have answered with. -/
structure History where
  service : Service floats
  draws : List (CreditLine floats)

def History.empty : History := ⟨Service.empty floats,[]⟩

/-- The line a call has drawn from, if it succeeds. -/
def drawnBy (s : Service floats) : Call floats → List (CreditLine floats)
  | .draw id borrowerId amount requestedAt confirmedAt =>
      match (s.draw id borrowerId amount requestedAt confirmedAt).1 with
      | .ok line => [line]
      | .error _ => []
  | _ => []

def History.step (h : History) (call : Call floats) : History :=
  ⟨h.service.step call,h.draws ++ drawnBy h.service call⟩

/-- Every stored limit is a positive finite number, and every draw has left its line within
its limit. -/
def Enforced (h : History) : Prop :=
  (∀ id line, h.service.repository.creditLines.get id = some line →
    Enforceable line.creditLimit) ∧
  ∀ line ∈ h.draws, (parseFloat line.utilized).le (parseFloat line.creditLimit) = true

/-- A text that is stored is decided by its comparison with zero, and a draw that gets as far
as the limit check finds a balance that is a number. -/
def Admissible (h : History) : Call floats → Prop
  | .createCreditLine request _ =>
      request.walletAddress ≠ "" → request.creditLimit ≠ "" →
      Service.rateOutOfRange request.interestRateBps = false →
      Decided (parseFloat request.creditLimit)
  | .updateCreditLine id request =>
      ∀ existing ∈ h.service.repository.creditLines.get id, isStale request existing = false →
      Service.rateRefused request = false →
      ∀ creditLimit ∈ request.creditLimit, Decided (parseFloat creditLimit)
  | .deleteCreditLine _ => True
  | .draw id borrowerId amount _ _ =>
      ∀ line ∈ h.service.repository.creditLines.get id,
      line.walletAddress = borrowerId → line.status = .active →
      (parseFloat amount).isFinite = true → (parseFloat amount).le .zero = false →
      Service.utilizedNum line ≠ Value.nan
  | .repay _ _ _ _ => True

instance (h : History) : (call : Call floats) → Decidable (Admissible h call)
  | .createCreditLine _ _ => inferInstanceAs (Decidable (_ → _ → _ → Decided _))
  | .updateCreditLine _ request =>
      inferInstanceAs (Decidable (∀ existing ∈ _, isStale request existing = false → _ →
        ∀ creditLimit ∈ request.creditLimit, Decided (parseFloat creditLimit)))
  | .deleteCreditLine _ => inferInstanceAs (Decidable True)
  | .draw _ borrowerId _ _ _ =>
      inferInstanceAs (Decidable (∀ line : CreditLine floats, line ∈ _ →
        line.walletAddress = borrowerId → line.status = .active → _ → _ →
        Service.utilizedNum line ≠ Value.nan))
  | .repay _ _ _ _ => inferInstanceAs (Decidable True)

/-- A patch that the service lets through keeps the limit or gives a positive one. -/
theorem enforceable_patched {request : UpdateCreditLineRequest floats}
    {existing : CreditLine floats} (h : Enforceable existing.creditLimit)
    (hlimit : Service.limitRefused request = false)
    (hdecided : ∀ creditLimit, request.creditLimit = some creditLimit →
      Decided (parseFloat creditLimit)) : Enforceable (patched request existing).creditLimit := by
  unfold patched
  dsimp only
  cases hr : request.creditLimit with
  | none => exact h
  | some creditLimit =>
      have hv := hdecided creditLimit hr
      unfold Service.limitRefused at hlimit
      rw [hr] at hlimit
      rw [Option.getD_some]
      apply enforceable_of_decided hv
      rw [Bool.and_eq_false_iff,decide_eq_false_iff_not,not_not] at hlimit
      cases hlimit with
      | inl hempty =>
          rw [hempty] at hv
          exact absurd (by decide +kernel) hv.1
      | inr hpos => exact hpos

/-- A draw that passes the limit check leaves the line within its limit. -/
theorem drawn_le_limit {line : CreditLine floats} {borrowerId amount : String}
    (h : Enforceable line.creditLimit) (hd : Service.Drawable line borrowerId amount)
    (hu : Service.utilizedNum line ≠ .nan) :
    (parseFloat (Service.drawn line amount)).le (parseFloat line.creditLimit) = true := by
  have hsum : (Service.utilizedNum line).add (parseFloat amount) ≠ .nan := add_ne_nan hu hd.finite
  have hread : parseFloat (Service.drawn line amount) =
      (Service.utilizedNum line).add (parseFloat amount) := parseFloat_toText _
  rw [hread]
  exact le_of_not_lt h.ne_nan hsum hd.within

theorem enforceable_writes {h : History} {call : Call floats} (he : Enforced h)
    (ha : Admissible h call) {id : Uuid} {line : CreditLine floats}
    (hw : Writes h.service call id line) : Enforceable line.creditLimit := by
  cases hw with
  | created haccepted =>
      have hcreate := Service.creatable_of_createRefusal haccepted
      exact enforceable_of_decided (ha hcreate.wallet hcreate.limit hcreate.rate) hcreate.positive
  | updated hpatches =>
      obtain ⟨hlimit,hrate⟩ := Service.updateRefusal_eq_none.mp hpatches.accepted
      apply enforceable_patched (he.1 id _ hpatches.found) hlimit
      intro creditLimit hr
      exact ha _ hpatches.found hpatches.fresh hrate creditLimit hr
  | drawn hget _ =>
      rw [patched_utilized_creditLimit]
      exact he.1 id _ hget
  | repaid hget =>
      rw [patched_utilized_creditLimit]
      exact he.1 id _ hget

theorem drawnBy_le_limit {h : History} {call : Call floats} (he : Enforced h)
    (ha : Admissible h call) {line : CreditLine floats} (hline : line ∈ drawnBy h.service call) :
    (parseFloat line.utilized).le (parseFloat line.creditLimit) = true := by
  cases call with
  | draw id borrowerId amount requestedAt confirmedAt =>
      unfold drawnBy at hline
      dsimp only at hline
      rcases Service.draw_cases h.service id borrowerId amount requestedAt confirmedAt with
        ⟨e,hno⟩ | ⟨before,hget,hd,hyes⟩
      · rw [hno] at hline
        cases hline
      · rw [hyes] at hline
        cases List.mem_singleton.mp hline
        exact drawn_le_limit (he.1 id before hget) hd
          (ha before hget hd.owner hd.active hd.finite hd.positive)
  | createCreditLine request now => cases hline
  | updateCreditLine id request => cases hline
  | deleteCreditLine id => cases hline
  | repay id walletAddress amount confirmedAt => cases hline

theorem enforced_step (h : History) (call : Call floats) (he : Enforced h)
    (ha : Admissible h call) : Enforced (h.step call) := by
  constructor
  · exact Service.forall_lines_step he.1 fun id line hw => enforceable_writes he ha hw
  · intro line hline
    cases List.mem_append.mp hline with
    | inl hold => exact he.2 line hold
    | inr hnew => exact drawnBy_le_limit he ha hnew

/-- Along every run of admissible calls each stored limit is a positive finite number and each
draw leaves its line within its limit. -/
theorem limits_enforced_of_admissible (calls pre : List (Call floats))
    (h : Guarded History.step Admissible History.empty calls) (hp : pre <+: calls) :
    Enforced (run History.step History.empty pre) := by
  apply run_invariant_passed enforced_step _ h hp
  constructor
  · intro id line hget
    cases hget
  · intro line hmem
    cases hmem

/-- A line is opened, its limit is patched, and it is drawn from. -/
def patchedLine : List (Call floats) :=
  [.createCreditLine ⟨"GA","1000",.round 500⟩ 0,
    .updateCreditLine 0 { creditLimit := some "500.5" },.draw 0 "GA" "400" 1 2]

theorem limits_enforced_patchedLine :
    Guarded History.step Admissible History.empty patchedLine ∧
      Enforced (run History.step History.empty patchedLine) := by
  have h : Guarded History.step Admissible History.empty patchedLine := by decide +kernel
  exact ⟨h,limits_enforced_of_admissible patchedLine patchedLine h (List.prefix_refl _)⟩

/-- A line is opened with a limit that is not a number and drawn from. -/
def unreadableLimit : List (Call floats) :=
  [.createCreditLine ⟨"GA","abc",.round 500⟩ 0,.draw 0 "GA" "1000000" 1 2]

theorem unreadableLimit_not_enforced :
    (run History.step History.empty unreadableLimit).draws.length = 1 ∧
      ¬ Enforced (run History.step History.empty unreadableLimit) := by
  refine ⟨by decide +kernel,?_⟩
  intro h
  have hline : ∃ line ∈ (run History.step History.empty
      unreadableLimit).service.repository.creditLines.get 0,
      ¬ Enforceable line.creditLimit := by decide +kernel
  obtain ⟨line,hget,hlimit⟩ := hline
  exact hlimit (h.1 0 line hget)

end Creditra.EnforceableLimits
