import Creditra.FloatNumbers
import Creditra.InsertionMaps
import Creditra.StellarDiagnostics

/-!
# The credit policy engine

`services/policyEngine.ts`: rules are registered under their identifiers, and
`evaluatePolicy` asks every registered rule, in the order of registration. A rule
may read and change the world that it runs in, and may throw. Approval is inferred
from the rejections, and a rule that does not pass only adds one when it gives both
a code and a reason.
-/
namespace Creditra.PolicyEngine
open FloatNumbers InsertionMaps StellarDiagnostics

/-- A computation in a world `σ`. -/
abbrev Effect (σ α : Type) : Type := ExceptT Thrown (StateM σ) α

structure PolicyContext where
  walletAddress : String
  creditScore : Value
  requestedAmount : Value
  kycLevel : Value
  lastDrawAt : Option String
  outstandingBalance : Value

inductive RejectionCode where
  | creditScoreTooLow
  | amountExceedsLimit
  | kycNotVerified
  | cooldownActive
  | outstandingBalanceTooHigh
  deriving DecidableEq

structure RuleOutcome where
  passed : Bool
  code : Option RejectionCode := none
  reason : Option String := none
  deriving DecidableEq

structure PolicyRule (σ : Type) where
  id : String
  evaluate : PolicyContext → Effect σ RuleOutcome

structure Rejection where
  code : RejectionCode
  reason : String
  deriving DecidableEq

structure PolicyEvaluationResult where
  approved : Bool
  rejections : List Rejection
  evaluatedRules : List String
  deriving DecidableEq

/-! ## The registry -/

structure PolicyRuleRegistry (σ : Type) where
  rules : InsertionMap String (PolicyRule σ)

namespace PolicyRuleRegistry
variable {σ : Type}

def empty : PolicyRuleRegistry σ := ⟨.empty⟩

def register (registry : PolicyRuleRegistry σ) (rule : PolicyRule σ) :
    Except Thrown (PolicyRuleRegistry σ) :=
  if (registry.rules.get rule.id).isSome then
    .error ⟨"Error","Policy rule \"" ++ rule.id ++ "\" is already registered."⟩
  else .ok ⟨registry.rules.set rule.id rule⟩

def unregister (registry : PolicyRuleRegistry σ) (id : String) : Bool × PolicyRuleRegistry σ :=
  ((registry.rules.get id).isSome,⟨registry.rules.delete id⟩)

def list (registry : PolicyRuleRegistry σ) : List (PolicyRule σ) :=
  registry.rules.entries.map Prod.snd

def get (registry : PolicyRuleRegistry σ) (id : String) : Option (PolicyRule σ) :=
  registry.rules.get id

end PolicyRuleRegistry

/-! ## Evaluation -/

section Evaluation
variable {σ : Type}

/-- What an outcome adds to the rejections: nothing without a code and a non-empty reason. -/
def rejection (outcome : RuleOutcome) : Option Rejection :=
  if outcome.passed then none
  else match outcome.code, outcome.reason with
    | some code, some reason => if reason = "" then none else some ⟨code,reason⟩
    | _, _ => none

/-- The loop over the rules. -/
def evaluateRules (ctx : PolicyContext) :
    List (PolicyRule σ) → List Rejection → List String → Effect σ PolicyEvaluationResult
  | [], rejections, evaluatedRules => pure ⟨rejections.isEmpty,rejections,evaluatedRules⟩
  | rule :: rules, rejections, evaluatedRules => do
      let outcome ← rule.evaluate ctx
      evaluateRules ctx rules (rejections ++ (rejection outcome).toList) (evaluatedRules ++ [rule.id])

def evaluatePolicy (registry : PolicyRuleRegistry σ) (ctx : PolicyContext) :
    Effect σ PolicyEvaluationResult :=
  evaluateRules ctx registry.list [] []

end Evaluation

/-! ## The built-in rules -/

section Builtin
variable {σ : Type}

def MINIMUM_CREDIT_SCORE : Value := .round 40

def MAXIMUM_AMOUNT_USD_CENTS : Value := .round 50000000

def REQUIRED_KYC_LEVEL : Value := .round 1

def COOLDOWN_HOURS : Value := .round 24

def MAX_OUTSTANDING_RATIO : Value := .round (8 / 10)

/-- The outcome of a rule that tests a condition. -/
def tested (passed : Bool) (code : RejectionCode) (reason : String) : RuleOutcome :=
  if passed then { passed := true }
  else { passed := false, code := some code, reason := some reason }

def creditScoreMinimum : PolicyRule σ where
  id := "credit-score-minimum"
  evaluate ctx := pure (tested (MINIMUM_CREDIT_SCORE.le ctx.creditScore) .creditScoreTooLow
    ("Credit score " ++ toText ctx.creditScore ++ " is below the minimum of " ++
      toText MINIMUM_CREDIT_SCORE ++ "."))

def amountWithinLimit : PolicyRule σ where
  id := "amount-within-limit"
  evaluate ctx := pure (tested (ctx.requestedAmount.le MAXIMUM_AMOUNT_USD_CENTS) .amountExceedsLimit
    ("Requested amount " ++ toText ctx.requestedAmount ++ " cents exceeds the limit of " ++
      toText MAXIMUM_AMOUNT_USD_CENTS ++ " cents."))

def kycVerified : PolicyRule σ where
  id := "kyc-verified"
  evaluate ctx := pure (tested (REQUIRED_KYC_LEVEL.le ctx.kycLevel) .kycNotVerified
    ("KYC level " ++ toText ctx.kycLevel ++ " does not meet the requirement of " ++
      toText REQUIRED_KYC_LEVEL ++ "."))

/-- `x.toFixed(1)`: a half goes away from zero, and large values print as they are. -/
def toFixed (x : Value) : String :=
  match x with
  | .finite d =>
      if 1000000000000000000000 ≤ |d.1| then toText x
      else
        let tenths := ⌊|d.1| * 10 + 1 / 2⌋.toNat
        (if d.1 < 0 then "-" else "") ++ toString (tenths / 10) ++ "." ++ toString (tenths % 10)
  | _ => toText x

/-- `dateNow` is `Date.now()`, and `getTime` is `new Date(text).getTime()`. -/
def drawCooldown (dateNow : Effect σ Value) (getTime : String → Value) : PolicyRule σ where
  id := "draw-cooldown"
  evaluate ctx :=
    match ctx.lastDrawAt with
    | none => pure { passed := true }
    | some lastDrawAt =>
        if lastDrawAt = "" then pure { passed := true }
        else do
          let elapsed := ((← dateNow).sub (getTime lastDrawAt)).div (.round 3600000)
          pure (tested (COOLDOWN_HOURS.le elapsed) .cooldownActive
            ("Only " ++ toFixed elapsed ++ " hours have passed since the last draw; " ++
              toText COOLDOWN_HOURS ++ " hours required."))

def outstandingBalanceLimit : PolicyRule σ where
  id := "outstanding-balance-limit"
  evaluate ctx :=
    let threshold := MAXIMUM_AMOUNT_USD_CENTS.mul MAX_OUTSTANDING_RATIO
    pure (tested (ctx.outstandingBalance.le threshold) .outstandingBalanceTooHigh
      ("Outstanding balance " ++ toText ctx.outstandingBalance ++
        " cents exceeds the allowed threshold of " ++ toText threshold ++ " cents."))

def builtinRules (dateNow : Effect σ Value) (getTime : String → Value) : List (PolicyRule σ) :=
  [creditScoreMinimum,amountWithinLimit,kycVerified,drawCooldown dateNow getTime,
    outstandingBalanceLimit]

def createDefaultRegistry (dateNow : Effect σ Value) (getTime : String → Value) :
    Except Thrown (PolicyRuleRegistry σ) :=
  (builtinRules dateNow getTime).foldlM (fun registry rule => registry.register rule) .empty

end Builtin

/-! ## Registered rules -/

section Calls
variable {σ : Type}

inductive Call (σ : Type) where
  | register (rule : PolicyRule σ)
  | unregister (id : String)

namespace Call

/-- The identifier that a call is about. -/
def about : Call σ → String
  | .register rule => rule.id
  | .unregister id => id

def registers : Call σ → Bool
  | .register _ => true
  | .unregister _ => false

/-- The call does not unregister the identifier. -/
def keeps (id : String) (c : Call σ) : Bool := c.registers || c.about ≠ id

end Call

/-- A registration that throws leaves the registry as it is. -/
def PolicyRuleRegistry.after (registry : PolicyRuleRegistry σ) : Call σ → PolicyRuleRegistry σ
  | .register rule => match registry.register rule with
      | .ok registry => registry
      | .error _ => registry
  | .unregister id => (registry.unregister id).2

def built (calls : List (Call σ)) : PolicyRuleRegistry σ :=
  calls.foldl PolicyRuleRegistry.after .empty

/-- The last call about an identifier is a registration. -/
def isRegistered (calls : List (Call σ)) (id : String) : Bool :=
  (calls.filter (·.about = id)).getLast?.any Call.registers

/-- The rules of the calls that come after those before: each was registered under a free
identifier, and has not been unregistered since. -/
def registeredAfter (before : List (Call σ)) : List (Call σ) → List (PolicyRule σ)
  | [] => []
  | .register rule :: calls =>
      if ! isRegistered before rule.id && calls.all (Call.keeps rule.id) then
        rule :: registeredAfter (before ++ [.register rule]) calls
      else registeredAfter (before ++ [.register rule]) calls
  | .unregister id :: calls => registeredAfter (before ++ [.unregister id]) calls

/-- The rules that the calls leave registered, in the order of their registration. -/
def registered (calls : List (Call σ)) : List (PolicyRule σ) := registeredAfter [] calls

theorem isRegistered_append (calls : List (Call σ)) (c : Call σ) (id : String) :
    isRegistered (calls ++ [c]) id =
      if c.about = id then c.registers else isRegistered calls id := by
  unfold isRegistered
  rw [List.filter_append]
  split_ifs with habout
  · rw [List.filter_singleton,decide_eq_true habout,cond_true,List.getLast?_concat,Option.any_some]
  · rw [List.filter_singleton,decide_eq_false habout,cond_false,List.append_nil]

theorem registeredAfter_register (before calls : List (Call σ)) (rule : PolicyRule σ) :
    registeredAfter before (calls ++ [.register rule]) = registeredAfter before calls ++
      if isRegistered (before ++ calls) rule.id then [] else [rule] := by
  induction calls generalizing before with
  | nil =>
      rw [List.nil_append,List.append_nil]
      unfold registeredAfter
      cases isRegistered before rule.id with
      | true => rfl
      | false => rfl
  | cons c calls ih =>
      have hbefore : before ++ c :: calls = before ++ [c] ++ calls := by
        rw [List.append_assoc,List.singleton_append]
      rw [hbefore,List.cons_append]
      cases c with
      | register rule' =>
          have hall : (calls ++ [Call.register rule]).all (Call.keeps rule'.id) =
              calls.all (Call.keeps rule'.id) := by
            rw [List.all_append]
            exact Bool.and_true _
          rw [registeredAfter,hall,ih,registeredAfter,apply_ite (· ++ _)]
          rfl
      | unregister id => rw [registeredAfter,ih,registeredAfter]

theorem registeredAfter_unregister (before calls : List (Call σ)) (id : String) :
    registeredAfter before (calls ++ [.unregister id]) =
      (registeredAfter before calls).filter fun rule => rule.id ≠ id := by
  induction calls generalizing before with
  | nil => rfl
  | cons c calls ih =>
      rw [List.cons_append]
      cases c with
      | register rule =>
          have hall : (calls ++ [Call.unregister id]).all (Call.keeps rule.id) =
              (calls.all (Call.keeps rule.id) && decide (rule.id ≠ id)) := by
            rw [List.all_append,List.all_cons,List.all_nil,Bool.and_true,Call.keeps,Call.registers,
              Call.about,Bool.false_or,decide_eq_decide.mpr ne_comm]
          rw [registeredAfter,hall,ih,registeredAfter,apply_ite (List.filter _),List.filter_cons,
            ← Bool.and_assoc]
          cases decide (rule.id ≠ id) with
          | true => rw [Bool.and_true,if_pos rfl]
          | false => rw [Bool.and_false,if_neg Bool.false_ne_true,ite_self]
      | unregister id' => rw [registeredAfter,ih,registeredAfter]

theorem built_append (calls : List (Call σ)) (c : Call σ) :
    built (calls ++ [c]) = (built calls).after c := by
  unfold built
  rw [List.foldl_append,List.foldl_cons,List.foldl_nil]

theorem after_register (registry : PolicyRuleRegistry σ) (rule : PolicyRule σ) :
    registry.after (.register rule) =
      if (registry.rules.get rule.id).isSome then registry
      else ⟨registry.rules.set rule.id rule⟩ := by
  by_cases htaken : (registry.rules.get rule.id).isSome
  · simp only [PolicyRuleRegistry.after,PolicyRuleRegistry.register,if_pos htaken]
  · simp only [PolicyRuleRegistry.after,PolicyRuleRegistry.register,if_neg htaken]

theorem isSome_get_built (calls : List (Call σ)) (id : String) :
    ((built calls).rules.get id).isSome = isRegistered calls id := by
  induction calls using List.reverseRecOn with
  | nil => rfl
  | append_singleton calls c ih =>
      rw [built_append,isRegistered_append]
      cases c with
      | register rule =>
          rw [after_register,← ih,Call.about,Call.registers]
          by_cases hid : rule.id = id
          · rw [if_pos hid,hid]
            split_ifs with htaken
            · exact htaken
            · rw [InsertionMap.get_set_self,Option.isSome_some]
          · rw [if_neg hid]
            split_ifs
            · rfl
            · rw [InsertionMap.get_set_of_ne _ (Ne.symm hid)]
      | unregister id' =>
          rw [PolicyRuleRegistry.after,PolicyRuleRegistry.unregister,← ih,Call.about,Call.registers]
          by_cases hid : id' = id
          · rw [if_pos hid,hid,InsertionMap.get_delete_self,Option.isSome_none]
          · rw [if_neg hid,InsertionMap.get_delete_of_ne _ (Ne.symm hid)]

/-- The registry holds the rules that the calls leave registered. -/
theorem entries_built (calls : List (Call σ)) :
    (built calls).rules.entries = (registered calls).map fun rule => (rule.id,rule) := by
  induction calls using List.reverseRecOn with
  | nil => rfl
  | append_singleton calls c ih =>
      rw [built_append]
      cases c with
      | register rule =>
          rw [registered,registeredAfter_register,← registered,List.nil_append,List.map_append,← ih,
            ← isSome_get_built,after_register]
          split_ifs with htaken
          · rw [List.map_nil,List.append_nil]
          · exact InsertionMap.entries_set_of_none (Option.not_isSome_iff_eq_none.mp htaken) rule
      | unregister id =>
          rw [registered,registeredAfter_unregister,← registered]
          simp only [PolicyRuleRegistry.after,PolicyRuleRegistry.unregister,InsertionMap.delete,
            InsertionMap.filter]
          rw [ih,List.filter_map]
          rfl

theorem list_built (calls : List (Call σ)) : (built calls).list = registered calls := by
  rw [PolicyRuleRegistry.list,entries_built,List.map_map]
  exact List.map_id _

theorem get_built (calls : List (Call σ)) (id : String) :
    (built calls).get id = (registered calls).find? fun rule => rule.id = id := by
  rw [PolicyRuleRegistry.get,InsertionMap.get,entries_built,List.find?_map,Option.map_map]
  exact Option.map_id'

theorem nodup_registered (calls : List (Call σ)) : ((registered calls).map PolicyRule.id).Nodup := by
  have hnodup := (built calls).rules.nodup
  rw [entries_built,List.map_map] at hnodup
  exact hnodup

theorem isRegistered_iff {calls : List (Call σ)} {id : String} :
    isRegistered calls id = true ↔ id ∈ (registered calls).map PolicyRule.id := by
  rw [← isSome_get_built,← InsertionMap.mem_keys,InsertionMap.keys,entries_built,List.map_map]
  rfl

/-- Rules with identifiers of their own are registered as they come. -/
theorem registered_map_register {rules : List (PolicyRule σ)}
    (h : (rules.map PolicyRule.id).Nodup) : registered (rules.map .register) = rules := by
  induction rules using List.reverseRecOn with
  | nil => rfl
  | append_singleton rules rule ih =>
      rw [List.map_append,List.nodup_append] at h
      have hfree : isRegistered (rules.map .register) rule.id ≠ true := by
        rw [Ne,isRegistered_iff,ih h.1]
        intro hmem
        exact h.2.2 _ hmem _ (List.mem_singleton_self _) rfl
      rw [List.map_append,List.map_singleton,registered,registeredAfter_register,← registered,
        List.nil_append,ih h.1,if_neg hfree]

theorem foldlM_register {rules : List (PolicyRule σ)} {calls : List (Call σ)}
    (h : ((registered calls).map PolicyRule.id ++ rules.map PolicyRule.id).Nodup) :
    rules.foldlM (fun registry rule => registry.register rule) (built calls) =
      .ok (built (calls ++ rules.map .register)) := by
  induction rules generalizing calls with
  | nil =>
      rw [List.map_nil,List.append_nil]
      rfl
  | cons rule rules ih =>
      have hfree : isRegistered calls rule.id ≠ true := by
        rw [Ne,isRegistered_iff]
        intro hmem
        exact (List.nodup_append.mp h).2.2 _ hmem _ List.mem_cons_self rfl
      have hbuilt : built (calls ++ [.register rule]) =
          ⟨(built calls).rules.set rule.id rule⟩ := by
        rw [built_append,after_register,isSome_get_built,if_neg hfree]
      have hregister : (built calls).register rule = .ok (built (calls ++ [.register rule])) := by
        rw [hbuilt,PolicyRuleRegistry.register,isSome_get_built,if_neg hfree]
      have hregistered : registered (calls ++ [.register rule]) = registered calls ++ [rule] := by
        rw [registered,registeredAfter_register,← registered,List.nil_append,if_neg hfree]
      have hcalls : calls ++ (rule :: rules).map .register =
          calls ++ [.register rule] ++ rules.map .register := by
        rw [List.map_cons,List.append_assoc,List.singleton_append]
      rw [List.foldlM_cons,hregister,hcalls]
      refine @ih (calls ++ [.register rule]) ?_
      rw [hregistered,List.map_append,List.append_assoc]
      exact h

theorem nodup_builtinRules (dateNow : Effect σ Value) (getTime : String → Value) :
    ((builtinRules dateNow getTime).map PolicyRule.id).Nodup := by
  change ["credit-score-minimum","amount-within-limit","kyc-verified","draw-cooldown",
    "outstanding-balance-limit"].Nodup
  decide

theorem createDefaultRegistry_eq (dateNow : Effect σ Value) (getTime : String → Value) :
    createDefaultRegistry dateNow getTime =
      .ok (built ((builtinRules dateNow getTime).map .register)) :=
  @foldlM_register σ (builtinRules dateNow getTime) [] (nodup_builtinRules dateNow getTime)

end Calls

/-! ## What evaluation comes to -/

section Outcomes
variable {σ : Type}

/-- The result of a computation, and the world after it. -/
def exec {α : Type} (effect : Effect σ α) (s : σ) : Except Thrown α × σ := effect.run.run s

theorem exec_map {α β : Type} (f : α → β) (effect : Effect σ α) (s : σ) :
    exec (f <$> effect) s = ((exec effect s).1.map f,(exec effect s).2) := by
  unfold exec
  rw [ExceptT.run_map,StateT.run_map]
  rfl

/-- The outcomes of the rules, in their order. -/
def ask (rules : List (PolicyRule σ)) (ctx : PolicyContext) : Effect σ (List RuleOutcome) :=
  rules.mapM fun rule => rule.evaluate ctx

theorem ask_cons (rule : PolicyRule σ) (rules : List (PolicyRule σ)) (ctx : PolicyContext) :
    ask (rule :: rules) ctx =
      rule.evaluate ctx >>= fun outcome => (outcome :: ·) <$> ask rules ctx := by
  simp only [ask,List.mapM_cons,bind_pure_comp]

/-- The result that the outcomes make. -/
def verdict (rules : List (PolicyRule σ)) (outcomes : List RuleOutcome) : PolicyEvaluationResult :=
  let rejections := outcomes.filterMap rejection
  ⟨rejections.isEmpty,rejections,rules.map PolicyRule.id⟩

theorem exec_bind {α β : Type} (effect : Effect σ α) (next : α → Effect σ β) (s : σ) :
    exec (effect >>= next) s = match exec effect s with
      | (.ok a,s') => exec (next a) s'
      | (.error e,s') => (.error e,s') := by
  unfold exec
  rw [ExceptT.run_bind,StateT.run_bind]
  rcases effect.run.run s with ⟨_ | _,_⟩ <;> rfl

theorem evaluateRules_eq (ctx : PolicyContext) (rules : List (PolicyRule σ))
    (rejections : List Rejection) (evaluatedRules : List String) :
    evaluateRules ctx rules rejections evaluatedRules = (fun outcomes =>
      ⟨(rejections ++ outcomes.filterMap rejection).isEmpty,
        rejections ++ outcomes.filterMap rejection,
        evaluatedRules ++ rules.map PolicyRule.id⟩) <$> ask rules ctx := by
  induction rules generalizing rejections evaluatedRules with
  | nil => simp [evaluateRules,ask]
  | cons rule rules ih =>
      rw [ask_cons,evaluateRules,map_bind]
      refine congrArg _ (funext fun outcome => ?_)
      rw [ih,Functor.map_map]
      refine congrArg (· <$> ask rules ctx) (funext fun outcomes => ?_)
      have hfirst : rejections ++ (outcome :: outcomes).filterMap rejection =
          rejections ++ (rejection outcome).toList ++ outcomes.filterMap rejection := by
        rw [List.append_assoc]
        cases hrejection : rejection outcome with
        | none => rw [List.filterMap_cons_none hrejection]; rfl
        | some r => rw [List.filterMap_cons_some hrejection]; rfl
      rw [hfirst,List.map_cons,List.append_assoc evaluatedRules,List.singleton_append]

theorem evaluatePolicy_eq (registry : PolicyRuleRegistry σ) (ctx : PolicyContext) :
    evaluatePolicy registry ctx = verdict registry.list <$> ask registry.list ctx :=
  evaluateRules_eq ctx registry.list [] []

/-- The outcome is a rejection with a code and a reason. -/
def Explained (outcome : RuleOutcome) : Prop :=
  outcome.passed = false ∧ outcome.code.isSome ∧ ∃ reason ∈ outcome.reason, reason ≠ ""

theorem isSome_rejection {outcome : RuleOutcome} :
    (rejection outcome).isSome = true ↔ Explained outcome := by
  obtain ⟨passed,code,reason⟩ := outcome
  unfold rejection Explained
  cases passed with
  | true => simp
  | false =>
      cases code with
      | none => simp
      | some code =>
          cases reason with
          | none => simp
          | some reason => by_cases hempty : reason = "" <;> simp [hempty]

theorem approved_verdict {rules : List (PolicyRule σ)} {outcomes : List RuleOutcome} :
    (verdict rules outcomes).approved = true ↔ ∀ outcome ∈ outcomes, ¬ Explained outcome := by
  rw [verdict,List.isEmpty_iff,List.filterMap_eq_nil_iff]
  refine forall₂_congr fun outcome _ => ?_
  rw [← isSome_rejection,Bool.not_eq_true,Option.isSome_eq_false_iff,Option.isNone_iff_eq_none]

/-- When every rule returns, so does the evaluation, and it approves exactly if all rules
passed; when one throws, so does the evaluation. -/
structure FailsClosed (calls : List (Call σ)) (ctx : PolicyContext) (s : σ) : Prop where
  returns : ∀ outcomes s', exec (ask (registered calls) ctx) s = (.ok outcomes,s') →
    ∃ result, exec (evaluatePolicy (built calls) ctx) s = (.ok result,s') ∧
      (result.approved = true ↔ ∀ outcome ∈ outcomes, outcome.passed = true) ∧
      result.evaluatedRules = (registered calls).map PolicyRule.id ∧
      result.evaluatedRules.Nodup ∧
      (result.approved = false → result.rejections ≠ [])
  throws : ∀ e s', exec (ask (registered calls) ctx) s = (.error e,s') →
    exec (evaluatePolicy (built calls) ctx) s = (.error e,s')

/-- All rules pass, or one that does not says why. -/
def Accountable (outcomes : List RuleOutcome) : Prop :=
  (∀ outcome ∈ outcomes, outcome.passed = true) ∨ ∃ outcome ∈ outcomes, Explained outcome

theorem approved_iff_passed {rules : List (PolicyRule σ)} {outcomes : List RuleOutcome} :
    ((verdict rules outcomes).approved = true ↔ ∀ outcome ∈ outcomes, outcome.passed = true) ↔
      Accountable outcomes := by
  rw [approved_verdict]
  constructor
  · intro h
    by_cases hexplained : ∃ outcome ∈ outcomes, Explained outcome
    · exact .inr hexplained
    · refine .inl (h.mp fun outcome hmem hwhy => hexplained ⟨outcome,hmem,hwhy⟩)
  · rintro (hpassed | ⟨outcome,hmem,hwhy⟩)
    · refine ⟨fun _ => hpassed,fun _ outcome hmem hwhy => ?_⟩
      exact absurd (hwhy.1.symm.trans (hpassed outcome hmem)) Bool.false_ne_true
    · constructor
      · intro h
        exact absurd hwhy (h outcome hmem)
      · intro h
        exact absurd (hwhy.1.symm.trans (h outcome hmem)) Bool.false_ne_true

theorem exec_evaluatePolicy (calls : List (Call σ)) (ctx : PolicyContext) (s : σ) :
    exec (evaluatePolicy (built calls) ctx) s =
      ((exec (ask (registered calls) ctx) s).1.map (verdict (registered calls)),
        (exec (ask (registered calls) ctx) s).2) := by
  rw [evaluatePolicy_eq,exec_map,list_built]

theorem failsClosed_of_accountable {calls : List (Call σ)} {ctx : PolicyContext} {s : σ}
    (h : ∀ outcomes s', exec (ask (registered calls) ctx) s = (.ok outcomes,s') →
      Accountable outcomes) : FailsClosed calls ctx s where
  returns outcomes s' hask := by
    refine ⟨verdict (registered calls) outcomes,?_,?_,rfl,nodup_registered calls,?_⟩
    · rw [exec_evaluatePolicy,hask]
      rfl
    · exact approved_iff_passed.mpr (h outcomes s' hask)
    · intro hrejected hempty
      have happroved : (verdict (registered calls) outcomes).approved = true :=
        List.isEmpty_iff.mpr hempty
      exact absurd (hrejected.symm.trans happroved) Bool.false_ne_true
  throws e s' hask := by
    rw [exec_evaluatePolicy,hask]
    rfl

/-- Evaluation fails closed exactly when, in case the rules return without all of them
passing, one that does not pass gives a code and a reason that is not empty. -/
theorem fails_closed_iff (calls : List (Call σ)) (ctx : PolicyContext) (s : σ) :
    FailsClosed calls ctx s ↔
      ∀ outcomes s', exec (ask (registered calls) ctx) s = (.ok outcomes,s') →
        Accountable outcomes := by
  constructor
  · intro h outcomes s' hask
    obtain ⟨result,hresult,happroved,-⟩ := h.returns outcomes s' hask
    rw [exec_evaluatePolicy,hask] at hresult
    obtain rfl : verdict (registered calls) outcomes = result :=
      Except.ok.inj (congrArg Prod.fst hresult)
    exact approved_iff_passed.mp happroved
  · exact failsClosed_of_accountable

/-- Every outcome is what some rule came to in some world. -/
theorem mem_ask {rules : List (PolicyRule σ)} {ctx : PolicyContext} {s s' : σ}
    {outcomes : List RuleOutcome} (h : exec (ask rules ctx) s = (.ok outcomes,s')) :
    ∀ outcome ∈ outcomes, ∃ rule ∈ rules, ∃ s₁ s₂,
      exec (rule.evaluate ctx) s₁ = (.ok outcome,s₂) := by
  induction rules generalizing s outcomes with
  | nil =>
      cases h
      exact fun _ hmem => absurd hmem List.not_mem_nil
  | cons rule rules ih =>
      rw [ask_cons,exec_bind] at h
      rcases hrule : exec (rule.evaluate ctx) s with ⟨result,s₁⟩
      rw [hrule] at h
      cases result with
      | error e => cases h
      | ok first =>
          dsimp only at h
          rw [exec_map] at h
          rcases hrest : exec (ask rules ctx) s₁ with ⟨result,s₂⟩
          rw [hrest] at h
          cases result with
          | error e => cases h
          | ok rest =>
              cases h
              intro outcome hmem
              rcases List.mem_cons.mp hmem with rfl | hmem
              · exact ⟨rule,List.mem_cons_self,s,s₁,hrule⟩
              · obtain ⟨rule',hrule',hstates⟩ := ih hrest outcome hmem
                exact ⟨rule',List.mem_cons_of_mem _ hrule',hstates⟩

/-- The rules that never reject without a code and a reason. -/
theorem failsClosed_of_rules {calls : List (Call σ)} {ctx : PolicyContext}
    (h : ∀ rule ∈ registered calls, ∀ outcome s₁ s₂,
      exec (rule.evaluate ctx) s₁ = (.ok outcome,s₂) → outcome.passed = true ∨ Explained outcome)
    (s : σ) : FailsClosed calls ctx s := by
  refine failsClosed_of_accountable fun outcomes s' hask => ?_
  by_cases hexplained : ∃ outcome ∈ outcomes, Explained outcome
  · exact .inr hexplained
  · refine .inl fun outcome hmem => ?_
    obtain ⟨rule,hrule,s₁,s₂,houtcome⟩ := mem_ask hask outcome hmem
    rcases h rule hrule outcome s₁ s₂ houtcome with hpassed | hwhy
    · exact hpassed
    · exact absurd ⟨outcome,hmem,hwhy⟩ hexplained

theorem append_ne_empty (s : String) {t : String} (h : t ≠ "") : s ++ t ≠ "" := by
  intro hempty
  exact h (String.append_eq_empty_iff.mp hempty).2

/-- A tested condition gives a code and a reason where it fails. -/
theorem explained_of_tested {passed : Bool} {code : RejectionCode} {reason : String}
    (h : reason ≠ "") {outcome : RuleOutcome} {s s' : σ}
    (houtcome : exec (pure (tested passed code reason)) s = (.ok outcome,s')) :
    outcome.passed = true ∨ Explained outcome := by
  cases houtcome
  cases passed with
  | true => exact .inl rfl
  | false => exact .inr ⟨rfl,rfl,reason,rfl,h⟩

theorem explained_of_drawCooldown {dateNow : Effect σ Value} {getTime : String → Value}
    {ctx : PolicyContext} {outcome : RuleOutcome} {s s' : σ}
    (houtcome : exec ((drawCooldown dateNow getTime).evaluate ctx) s = (.ok outcome,s')) :
    outcome.passed = true ∨ Explained outcome := by
  simp only [drawCooldown] at houtcome
  split at houtcome
  · cases houtcome
    exact .inl rfl
  · split at houtcome
    · cases houtcome
      exact .inl rfl
    · rw [exec_bind] at houtcome
      rcases hnow : exec dateNow s with ⟨now,s₁⟩
      rw [hnow] at houtcome
      cases now with
      | error e => cases houtcome
      | ok now => exact explained_of_tested (append_ne_empty _ (by decide)) houtcome

/-- The built-in rules say why they reject, whatever the clock shows. -/
theorem builtin_fails_closed (dateNow : Effect σ Value) (getTime : String → Value)
    (ctx : PolicyContext) (s : σ) :
    FailsClosed ((builtinRules dateNow getTime).map .register) ctx s := by
  refine failsClosed_of_rules (fun rule hrule outcome s₁ s₂ houtcome => ?_) s
  rw [registered_map_register (nodup_builtinRules dateNow getTime)] at hrule
  simp only [builtinRules,List.mem_cons,List.not_mem_nil,or_false] at hrule
  rcases hrule with rfl | rfl | rfl | rfl | rfl
  · exact explained_of_tested (append_ne_empty _ (by decide)) houtcome
  · exact explained_of_tested (append_ne_empty _ (by decide)) houtcome
  · exact explained_of_tested (append_ne_empty _ (by decide)) houtcome
  · exact explained_of_drawCooldown houtcome
  · exact explained_of_tested (append_ne_empty _ (by decide)) houtcome

/-- A rule that blocks every wallet and does not say why. -/
def silentRule : PolicyRule Unit where
  id := "block-wallet"
  evaluate _ := pure { passed := false }

def newBorrower : PolicyContext :=
  ⟨"GABC",.round 72,.round 500000,.round 1,none,.round 0⟩

theorem silent_rule_approves :
    exec (evaluatePolicy (built [.register silentRule]) newBorrower) () =
        (.ok ⟨true,[],["block-wallet"]⟩,()) ∧
      ¬ FailsClosed [.register silentRule] newBorrower () := by
  refine ⟨rfl,fun h => ?_⟩
  obtain ⟨result,hresult,happroved,-⟩ := h.returns [{ passed := false }] () rfl
  have happroves : result.approved = true := by
    rw [← Except.ok.inj (congrArg Prod.fst hresult)]
    rfl
  exact absurd (happroved.mp happroves _ (List.mem_singleton_self _)) Bool.false_ne_true

end Outcomes

end Creditra.PolicyEngine
