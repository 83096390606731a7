import Creditra.DashboardCache
import Creditra.GuardedRuns
import Creditra.InsertionMaps
import Mathlib.Data.List.Sort

/-!
# Creating risk evaluations

Calls of `RiskEvaluationService.evaluateRisk` over the in-memory repository, each
divided at its awaits. A creation looks for an unexpired evaluation of the wallet, asks
the provider, and saves the outcome; the repository saves whatever it is given. Of the
creations for a wallet one succeeds and the others meet a conflict, unless one of them
finds no evaluation while another has found none and not saved yet.
-/
namespace Creditra.RiskCreation
open FloatNumbers GuardedRuns InsertionMaps
open DashboardCache (toFixed)

/-! ## The repository -/

structure RiskFactor where
  name : String
  value : Value
  weight : Value
  description : Option String
  deriving DecidableEq

/-- A `RiskEvaluation` without its id. -/
structure NewEvaluation where
  walletAddress : String
  riskScore : Value
  creditLimit : String
  interestRateBps : Value
  factors : List RiskFactor
  evaluatedAt : ℤ
  expiresAt : ℤ
  deriving DecidableEq

structure RiskEvaluation extends NewEvaluation where
  id : String
  deriving DecidableEq

abbrev Repository := InsertionMap String RiskEvaluation

namespace Repository

def save (repository : Repository) (evaluation : NewEvaluation) (uuid : String) : Repository :=
  repository.set uuid { evaluation with id := uuid }

/-- Latest first; of those of one instant the oldest entry first. -/
def findLatestByWalletAddress (repository : Repository) (walletAddress : String) :
    Option RiskEvaluation :=
  (((repository.entries.map Prod.snd).filter (·.walletAddress = walletAddress)).insertionSort
    fun a b => b.evaluatedAt ≤ a.evaluatedAt).head?

end Repository

/-- The end of `isValid`, once the latest evaluation is there. -/
def isValid (latest : Option RiskEvaluation) (now : ℤ) : Bool :=
  match latest with
  | none => false
  | some latest => now < latest.expiresAt

/-! ## The service -/

structure RiskProviderOutput where
  score : Value
  factors : List RiskFactor

/-- `Math.round`: a half goes up. -/
def mathRound : Value → Value
  | .finite d => .round ⌊d.1 + 1 / 2⌋
  | x => x

def ttl : ℤ := 24 * 60 * 60 * 1000

/-- The end of `performRiskEvaluation`, once the provider has answered. -/
def performRiskEvaluation (walletAddress : String) (output : RiskProviderOutput) (now : ℤ) :
    NewEvaluation :=
  let hundred := Value.round 100
  let baseCreditLimit := Value.round 1000
  let creditLimit := toFixed ((baseCreditLimit.mul output.score).div hundred)
  let baseRateBps := Value.round 500
  let riskMultiplier := (hundred.sub output.score).div hundred
  { walletAddress
    riskScore := output.score
    creditLimit
    interestRateBps := mathRound (baseRateBps.add (baseRateBps.mul riskMultiplier))
    factors := output.factors
    evaluatedAt := now
    expiresAt := now + ttl }

structure RiskEvaluationRequest where
  walletAddress : String
  forceRefresh : Bool := false
  createOnly : Bool := false

structure RiskEvaluationResult where
  walletAddress : String
  riskScore : Value
  creditLimit : String
  interestRateBps : Value
  message : String

def summary (evaluation : NewEvaluation) (message : String) : RiskEvaluationResult where
  walletAddress := evaluation.walletAddress
  riskScore := evaluation.riskScore
  creditLimit := evaluation.creditLimit
  interestRateBps := evaluation.interestRateBps
  message := message

inductive Rejection where
  | error (message : String)
  | conflict (code resource message : String) (details : List (String × String))
  deriving DecidableEq

def duplicateResource : Rejection :=
  .conflict "duplicate_resource" "risk_evaluation"
    ("A valid risk evaluation already exists for this wallet. " ++
      "Pass forceRefresh to replace it.")
    [("field","walletAddress"),("reason","unexpired_evaluation")]

/-- Where a call stands. `isValid` has read the latest evaluation, or has settled; the
cached evaluation is read; the provider is asked; the evaluation is there, or saved. -/
inductive Phase where
  | checking (latest : Option RiskEvaluation)
  | checked (valid : Bool)
  | finding (cached : Option RiskEvaluation)
  | evaluating
  | evaluated (evaluation : NewEvaluation)
  | saving (evaluation : NewEvaluation)
  | resolved (result : RiskEvaluationResult)
  | rejected (error : Rejection)

structure Call where
  request : RiskEvaluationRequest
  phase : Phase

structure Service where
  repository : Repository := .empty
  calls : List Call := []

/-- A call begins, goes on after an await, or hears from the provider. -/
inductive Action where
  | evaluateRisk (request : RiskEvaluationRequest)
  | proceed (i : ℕ) (uuid : String)
  | answer (i : ℕ) (output : RiskProviderOutput)
  | fail (i : ℕ) (message : String)

structure Step where
  now : ℤ
  action : Action

def createRiskEvaluation (request : RiskEvaluationRequest) : Action :=
  .evaluateRisk { request with createOnly := true }

namespace Service

def setPhase (s : Service) (i : ℕ) (call : Call) (phase : Phase) : Service :=
  { s with calls := s.calls.set i { call with phase } }

/-- `evaluateRisk` up to its first await. -/
def begin (s : Service) (request : RiskEvaluationRequest) : Phase :=
  if request.walletAddress = "" then .rejected (.error "Wallet address is required")
  else if request.forceRefresh then .evaluating
  else .checking (s.repository.findLatestByWalletAddress request.walletAddress)

/-- A call goes on to its next await. An id in use is not drawn again. -/
def proceed (s : Service) (now : ℤ) (i : ℕ) (uuid : String) (call : Call) : Service :=
  match call.phase with
  | .checking latest => s.setPhase i call (.checked (isValid latest now))
  | .checked valid =>
      if valid then
        s.setPhase i call
          (.finding (s.repository.findLatestByWalletAddress call.request.walletAddress))
      else s.setPhase i call .evaluating
  | .finding cached => match cached with
      | some cached =>
          if call.request.createOnly then s.setPhase i call (.rejected duplicateResource)
          else s.setPhase i call
            (.resolved (summary cached.toNewEvaluation "Using cached risk evaluation"))
      | none => s.setPhase i call .evaluating
  | .evaluated evaluation =>
      if (s.repository.get uuid).isSome then s
      else { s with repository := s.repository.save evaluation uuid }.setPhase i call
        (.saving evaluation)
  | .saving evaluation =>
      s.setPhase i call (.resolved (summary evaluation "New risk evaluation completed"))
  | .evaluating | .resolved _ | .rejected _ => s

def step (s : Service) (st : Step) : Service :=
  match st.action with
  | .evaluateRisk request => { s with calls := s.calls ++ [⟨request,s.begin request⟩] }
  | .proceed i uuid => match s.calls[i]? with
      | none => s
      | some call => s.proceed st.now i uuid call
  | .answer i output => match s.calls[i]? with
      | some ⟨request,.evaluating⟩ => s.setPhase i ⟨request,.evaluating⟩
          (.evaluated (performRiskEvaluation request.walletAddress output st.now))
      | _ => s
  | .fail i message => match s.calls[i]? with
      | some ⟨request,.evaluating⟩ =>
          s.setPhase i ⟨request,.evaluating⟩ (.rejected (.error message))
      | _ => s

end Service

/-! ## What is claimed of a run -/

section Wallet
variable (w : String) (start : ℤ)

def Succeeds (s : Service) (i : ℕ) : Prop :=
  ∃ request result, s.calls[i]? = some ⟨request,.resolved result⟩ ∧ request.walletAddress = w

/-- At most one call for the wallet succeeds, and the others are rejected as duplicates. -/
structure Exclusive (s : Service) : Prop where
  once : ∀ i j, Succeeds w s i → Succeeds w s j → i = j
  duplicates : ∀ call ∈ s.calls, call.request.walletAddress = w → ∀ e, call.phase = .rejected e →
    e = duplicateResource

/-- The run is shorter than an evaluation lives, and what calls for the wallet are
creations without `forceRefresh`. -/
def Creates (st : Step) : Prop :=
  start ≤ st.now ∧ st.now < start + ttl ∧ match st.action with
    | .evaluateRisk request => request.walletAddress = w →
        request.createOnly = true ∧ request.forceRefresh = false
    | _ => True

/-- The call is about to learn that there is no unexpired evaluation. -/
def findsNone (now : ℤ) (call : Call) : Bool :=
  match call.phase with
  | .checking latest => call.request.walletAddress = w ∧ isValid latest now = false
  | _ => false

/-- The call has found no evaluation and not saved one yet. -/
def Phase.claims : Phase → Bool
  | .checked valid => ! valid
  | .evaluating | .evaluated _ => true
  | _ => false

/-- A call that learns of no evaluation is the only one to do so, none has appeared
since it looked, and the provider does not fail. -/
def Undisturbed (s : Service) (st : Step) : Prop :=
  match st.action with
  | .proceed i _ => ∀ call ∈ s.calls[i]?, findsNone w st.now call = true →
      isValid (s.repository.findLatestByWalletAddress w) st.now = false ∧
        ∀ call' ∈ s.calls, call'.request.walletAddress = w → call'.phase.claims = false
  | .fail i _ => ∀ call ∈ s.calls[i]?, call.request.walletAddress ≠ w
  | _ => True

instance (st : Step) : Decidable (Creates w start st) := by
  unfold Creates
  cases st.action <;> infer_instance

instance (s : Service) (st : Step) : Decidable (Undisturbed w s st) := by
  unfold Undisturbed
  cases st.action <;> infer_instance

/-! ## The invariant -/

/-- An evaluation of the wallet is stored. -/
def Known (repository : Repository) : Prop :=
  ∃ id e, repository.get id = some e ∧ e.walletAddress = w

/-- One was stored in this run. -/
def Fresh (repository : Repository) : Prop :=
  ∃ id e, repository.get id = some e ∧ e.walletAddress = w ∧ start ≤ e.evaluatedAt

/-- What a call for the wallet knows of the repository. -/
def PhaseFits (repository : Repository) : Phase → Prop
  | .checking latest => latest.isSome → Known w repository
  | .checked valid => valid = true → Known w repository
  | .finding cached => cached.isSome
  | .evaluating => True
  | .evaluated _ => True
  | .saving _ => Fresh w start repository
  | .resolved _ => Fresh w start repository
  | .rejected e => e = duplicateResource

/-- The call has found no evaluation. -/
def Phase.wins : Phase → Bool
  | .saving _ | .resolved _ => true
  | phase => phase.claims

/-- The call holds an evaluation that is not saved yet. -/
def Phase.isDraft : Phase → Bool
  | .evaluated _ => true
  | _ => false

structure Inv (s : Service) : Prop where
  stamped : ∀ id e, s.repository.get id = some e → e.walletAddress = w →
    e.expiresAt = e.evaluatedAt + ttl
  creations : ∀ call ∈ s.calls, call.request.walletAddress = w →
    call.request.createOnly = true ∧ call.request.forceRefresh = false
  drafts : ∀ call ∈ s.calls, ∀ e, call.phase = .evaluated e →
    e.walletAddress = call.request.walletAddress ∧ start ≤ e.evaluatedAt ∧
      e.expiresAt = e.evaluatedAt + ttl
  phases : ∀ call ∈ s.calls, call.request.walletAddress = w →
    PhaseFits w start s.repository call.phase
  alone : ∀ (i j : ℕ) (call call' : Call), s.calls[i]? = some call → s.calls[j]? = some call' →
    call.request.walletAddress = w → call'.request.walletAddress = w →
      call.phase.wins = true → call'.phase.wins = true → i = j

end Wallet

/-! ## The latest evaluation -/

section Latest
variable {w : String} {start now : ℤ} {repository : Repository}

theorem mem_forWallet {e : RiskEvaluation} :
    e ∈ (repository.entries.map Prod.snd).filter (·.walletAddress = w) ↔
      (∃ id, repository.get id = some e) ∧ e.walletAddress = w := by
  rw [List.mem_filter,decide_eq_true_eq]
  refine and_congr_left fun _ => ?_
  constructor
  · intro h
    obtain ⟨entry,hentry,rfl⟩ := List.mem_map.mp h
    exact ⟨entry.1,InsertionMap.get_eq_some.mpr hentry⟩
  · intro h
    obtain ⟨id,hid⟩ := h
    exact List.mem_map.mpr ⟨(id,e),InsertionMap.get_eq_some.mp hid,rfl⟩

theorem findLatest_some {e : RiskEvaluation}
    (h : repository.findLatestByWalletAddress w = some e) :
    ((∃ id, repository.get id = some e) ∧ e.walletAddress = w) ∧
      ∀ id e', repository.get id = some e' → e'.walletAddress = w →
        e'.evaluatedAt ≤ e.evaluatedAt := by
  unfold Repository.findLatestByWalletAddress at h
  have hperm := List.perm_insertionSort (fun a b : RiskEvaluation => b.evaluatedAt ≤ a.evaluatedAt)
    ((repository.entries.map Prod.snd).filter (·.walletAddress = w))
  have hsorted := List.pairwise_insertionSort
    (fun a b : RiskEvaluation => b.evaluatedAt ≤ a.evaluatedAt)
    ((repository.entries.map Prod.snd).filter (·.walletAddress = w))
  obtain ⟨rest,hrest⟩ := List.head?_eq_some_iff.mp h
  rw [hrest] at hperm hsorted
  refine ⟨mem_forWallet.mp (hperm.mem_iff.mp List.mem_cons_self),fun id e' hget hwallet => ?_⟩
  have hmem := hperm.mem_iff.mpr (mem_forWallet.mpr ⟨⟨id,hget⟩,hwallet⟩)
  rcases List.mem_cons.mp hmem with rfl | hmem
  · exact Int.le_refl _
  · exact (List.pairwise_cons.mp hsorted).1 e' hmem

theorem findLatest_isSome (h : Known w repository) :
    (repository.findLatestByWalletAddress w).isSome := by
  obtain ⟨id,e,hget,hwallet⟩ := h
  have hmem := (List.perm_insertionSort
    (fun a b : RiskEvaluation => b.evaluatedAt ≤ a.evaluatedAt) _).mem_iff.mpr
    (mem_forWallet.mpr ⟨⟨id,hget⟩,hwallet⟩)
  unfold Repository.findLatestByWalletAddress
  rw [List.isSome_head?]
  exact List.ne_nil_of_mem hmem

theorem known_of_findLatest (h : (repository.findLatestByWalletAddress w).isSome) :
    Known w repository := by
  obtain ⟨e,he⟩ := Option.isSome_iff_exists.mp h
  obtain ⟨⟨id,hget⟩,hwallet⟩ := (findLatest_some he).1
  exact ⟨id,e,hget,hwallet⟩

/-- What was stored in this run is valid until it ends. -/
theorem isValid_of_fresh (hstamped : ∀ id e, repository.get id = some e → e.walletAddress = w →
    e.expiresAt = e.evaluatedAt + ttl) (h : Fresh w start repository) (hnow : now < start + ttl) :
    isValid (repository.findLatestByWalletAddress w) now = true := by
  obtain ⟨id,e,hget,hwallet,hstart⟩ := h
  obtain ⟨latest,hlatest⟩ := Option.isSome_iff_exists.mp
    (findLatest_isSome ⟨id,e,hget,hwallet⟩)
  obtain ⟨⟨⟨id',hget'⟩,hwallet'⟩,hmax⟩ := findLatest_some hlatest
  have hle := hmax id e hget hwallet
  have hexpires := hstamped id' latest hget' hwallet'
  rw [hlatest]
  simp only [isValid,decide_eq_true_eq]
  omega

end Latest

/-! ## One step -/

section Steps
variable {w : String} {start : ℤ} {s : Service}

theorem ne_evaluated {phase : Phase} (h : phase.isDraft = false) (e : NewEvaluation) :
    phase ≠ .evaluated e := by
  intro he
  rw [he] at h
  cases h

/-- A call goes on, with the repository as it is. -/
theorem Inv.setPhase (h : Inv w start s) {i : ℕ} {call : Call} (hi : s.calls[i]? = some call)
    {phase : Phase}
    (hdraft : ∀ e, phase = .evaluated e → e.walletAddress = call.request.walletAddress ∧
      start ≤ e.evaluatedAt ∧ e.expiresAt = e.evaluatedAt + ttl)
    (hfits : call.request.walletAddress = w → PhaseFits w start s.repository phase)
    (hwins : call.request.walletAddress = w → phase.wins = true → call.phase.wins = true ∨
      ∀ call' ∈ s.calls, call'.request.walletAddress = w → call'.phase.wins = false) :
    Inv w start (s.setPhase i call phase) := by
  have hmem := List.mem_of_getElem? hi
  refine ⟨h.stamped,?_,?_,?_,?_⟩
  · intro call' hcall'
    rcases List.mem_or_eq_of_mem_set hcall' with hold | rfl
    · exact h.creations call' hold
    · exact h.creations call hmem
  · intro call' hcall'
    rcases List.mem_or_eq_of_mem_set hcall' with hold | rfl
    · exact h.drafts call' hold
    · exact hdraft
  · intro call' hcall'
    rcases List.mem_or_eq_of_mem_set hcall' with hold | rfl
    · exact h.phases call' hold
    · exact hfits
  · -- Whoever wins now won before, or nobody did.
    have hother : ∀ j call', j ≠ i → s.calls[j]? = some call' → call.request.walletAddress = w →
        call'.request.walletAddress = w → phase.wins = true → call'.phase.wins = false := by
      intro j call' hne hj hw hw' hphase
      rcases hwins hw hphase with hbefore | hnobody
      · by_contra hwins'
        rw [Bool.not_eq_false] at hwins'
        exact hne (h.alone j i call' call hj hi hw' hw hwins' hbefore)
      · exact hnobody call' (List.mem_of_getElem? hj) hw'
    intro j k call' call'' hj hk hw' hw'' hwins' hwins''
    rcases moved_cases hj with ⟨hji,rfl⟩ | ⟨hji,hj'⟩
    · rcases moved_cases hk with ⟨hki,rfl⟩ | ⟨hki,hk'⟩
      · rw [hji,hki]
      · rw [hother k call'' hki hk' hw' hw'' hwins'] at hwins''
        cases hwins''
    · rcases moved_cases hk with ⟨hki,rfl⟩ | ⟨hki,hk'⟩
      · rw [hother j call' hji hj' hw'' hw' hwins''] at hwins'
        cases hwins'
      · exact h.alone j k call' call'' hj' hk' hw' hw'' hwins' hwins''

/-- A phase that wins only if the one before it does, and is no draft. -/
theorem Inv.goOn (h : Inv w start s) {i : ℕ} {call : Call} (hi : s.calls[i]? = some call)
    {phase : Phase} (hdraft : phase.isDraft = false)
    (hfits : call.request.walletAddress = w → PhaseFits w start s.repository phase)
    (hwins : phase.wins = true → call.phase.wins = true) : Inv w start (s.setPhase i call phase) :=
  h.setPhase hi (fun e he => absurd he (ne_evaluated hdraft e)) hfits fun _ hphase => .inl (hwins hphase)

theorem isDraft_begin (s : Service) (request : RiskEvaluationRequest) :
    (s.begin request).isDraft = false := by
  unfold Service.begin
  split_ifs
  · rfl
  · rfl
  · rfl

theorem Inv.begin (h : Inv w start s) (hw : w ≠ "") {request : RiskEvaluationRequest}
    (hcreates : request.walletAddress = w →
      request.createOnly = true ∧ request.forceRefresh = false) :
    Inv w start { s with calls := s.calls ++ [⟨request,s.begin request⟩] } := by
  have hbegin : request.walletAddress = w → s.begin request =
      .checking (s.repository.findLatestByWalletAddress w) := by
    intro hwallet
    unfold Service.begin
    rw [hwallet,if_neg hw,(hcreates hwallet).2]
    rfl
  refine ⟨h.stamped,?_,?_,?_,?_⟩
  · intro call hcall
    rcases List.mem_append.mp hcall with hold | hnew
    · exact h.creations call hold
    · rw [List.mem_singleton.mp hnew]
      exact hcreates
  · intro call hcall e he
    rcases List.mem_append.mp hcall with hold | hnew
    · exact h.drafts call hold e he
    · rw [List.mem_singleton.mp hnew] at he
      exact absurd he (ne_evaluated (isDraft_begin s request) e)
  · intro call hcall hwallet
    rcases List.mem_append.mp hcall with hold | hnew
    · exact h.phases call hold hwallet
    · rw [List.mem_singleton.mp hnew] at hwallet ⊢
      dsimp only
      rw [hbegin hwallet]
      exact known_of_findLatest
  · have hnew : ∀ call : Call, call = ⟨request,s.begin request⟩ → call.request.walletAddress = w →
        call.phase.wins = true → False := by
      intro call hcall hwallet hwins
      subst hcall
      dsimp only at hwallet hwins
      rw [hbegin hwallet] at hwins
      cases hwins
    intro i j call call' hi hj hwallet hwallet' hwins hwins'
    rcases joined_cases hi with hi | ⟨-,hcall⟩
    · rcases joined_cases hj with hj | ⟨-,hcall'⟩
      · exact h.alone i j call call' hi hj hwallet hwallet' hwins hwins'
      · exact (hnew call' hcall' hwallet' hwins').elim
    · exact (hnew call hcall hwallet hwins).elim

/-- A draft is saved. -/
theorem Inv.save (h : Inv w start s) {i : ℕ} {request : RiskEvaluationRequest}
    {evaluation : NewEvaluation} (hi : s.calls[i]? = some ⟨request,.evaluated evaluation⟩)
    {uuid : String} (huuid : s.repository.get uuid = none) :
    Inv w start ({ s with repository := s.repository.save evaluation uuid }.setPhase i
      ⟨request,.evaluated evaluation⟩ (.saving evaluation)) := by
  obtain ⟨hwallet,hstart,hexpires⟩ := h.drafts _ (List.mem_of_getElem? hi) evaluation rfl
  have hself : (s.repository.save evaluation uuid).get uuid =
      some { evaluation with id := uuid } := InsertionMap.get_set_self _ _ _
  have hkeep : ∀ {id e}, s.repository.get id = some e →
      (s.repository.save evaluation uuid).get id = some e := by
    intro id e hget
    have hne : id ≠ uuid := by
      rintro rfl
      rw [huuid] at hget
      cases hget
    exact (InsertionMap.get_set_of_ne _ hne _).trans hget
  have hknown : Known w s.repository → Known w (s.repository.save evaluation uuid) := by
    intro hknown
    obtain ⟨id,e,hget,he⟩ := hknown
    exact ⟨id,e,hkeep hget,he⟩
  have hfresh : Fresh w start s.repository → Fresh w start (s.repository.save evaluation uuid) := by
    intro hfresh
    obtain ⟨id,e,hget,he⟩ := hfresh
    exact ⟨id,e,hkeep hget,he⟩
  have hsaved : Inv w start { s with repository := s.repository.save evaluation uuid } := by
    refine ⟨?_,h.creations,h.drafts,?_,h.alone⟩
    · refine InsertionMap.forall_get_set h.stamped ?_
      intro _
      exact hexpires
    · intro call hcall hw
      have hfits := h.phases call hcall hw
      cases hphase : call.phase with
      | checking latest =>
          rw [hphase] at hfits
          exact fun hsome => hknown (hfits hsome)
      | checked valid =>
          rw [hphase] at hfits
          exact fun hvalid => hknown (hfits hvalid)
      | finding cached =>
          rw [hphase] at hfits
          exact hfits
      | evaluating => trivial
      | evaluated e => trivial
      | saving e =>
          rw [hphase] at hfits
          exact hfresh hfits
      | resolved result =>
          rw [hphase] at hfits
          exact hfresh hfits
      | rejected e =>
          rw [hphase] at hfits
          exact hfits
  refine hsaved.goOn hi rfl ?_ fun _ => rfl
  intro hw
  exact ⟨uuid,_,hself,hwallet.trans hw,hstart⟩

/-- While nothing has been stored, whoever has won still has to save. -/
theorem wins_eq_claims {repository : Repository} {phase : Phase}
    (hfits : PhaseFits w start repository phase) (hfresh : ¬ Fresh w start repository) :
    phase.wins = phase.claims := by
  cases phase with
  | saving e => exact absurd hfits hfresh
  | resolved result => exact absurd hfits hfresh
  | checking latest => rfl
  | checked valid => rfl
  | finding cached => rfl
  | evaluating => rfl
  | evaluated e => rfl
  | rejected e => rfl

theorem Inv.proceed (h : Inv w start s) {now : ℤ} (hnow : now < start + ttl) {i : ℕ} {call : Call}
    (hi : s.calls[i]? = some call) (uuid : String)
    (hundisturbed : findsNone w now call = true →
      isValid (s.repository.findLatestByWalletAddress w) now = false ∧
        ∀ call' ∈ s.calls, call'.request.walletAddress = w → call'.phase.claims = false) :
    Inv w start (s.proceed now i uuid call) := by
  obtain ⟨request,phase⟩ := call
  have hmem := List.mem_of_getElem? hi
  unfold Service.proceed
  cases phase with
  | checking latest =>
      refine h.setPhase hi (fun e he => absurd he (ne_evaluated rfl e)) ?_ ?_
      · intro hwallet hvalid
        refine h.phases _ hmem hwallet ?_
        cases latest with
        | none => cases hvalid
        | some latest => rfl
      · intro hwallet hwins
        have hinvalid : isValid latest now = false := by
          simpa [Phase.wins,Phase.claims] using hwins
        obtain ⟨hnone,hclaims⟩ := hundisturbed (decide_eq_true ⟨hwallet,hinvalid⟩)
        -- Nothing was stored in this run, so nobody has saved.
        have hfresh : ¬ Fresh w start s.repository := by
          intro hfresh
          rw [isValid_of_fresh h.stamped hfresh hnow] at hnone
          cases hnone
        refine .inr fun call' hcall' hwallet' => ?_
        rw [wins_eq_claims (h.phases call' hcall' hwallet') hfresh]
        exact hclaims call' hcall' hwallet'
  | checked valid =>
      cases valid with
      | true =>
          refine h.goOn hi rfl ?_ Bool.noConfusion
          intro hwallet
          dsimp only at hwallet ⊢
          rw [hwallet]
          exact findLatest_isSome (h.phases _ hmem hwallet rfl)
      | false => exact h.goOn hi rfl (fun _ => trivial) fun _ => rfl
  | finding cached =>
      cases cached with
      | some cached =>
          dsimp only
          split_ifs with hcreate
          · exact h.goOn hi rfl (fun _ => rfl) Bool.noConfusion
          · refine h.setPhase hi (fun e he => absurd he (ne_evaluated rfl e)) ?_ ?_
            · intro hwallet
              exact absurd (h.creations _ hmem hwallet).1 hcreate
            · intro hwallet
              exact absurd (h.creations _ hmem hwallet).1 hcreate
      | none =>
          refine h.setPhase hi (fun e he => absurd he (ne_evaluated rfl e)) (fun _ => trivial) ?_
          intro hwallet
          cases h.phases _ hmem hwallet
  | evaluating => exact h
  | evaluated evaluation =>
      dsimp only
      split_ifs with huuid
      · exact h
      · exact h.save hi (Option.not_isSome_iff_eq_none.mp huuid)
  | saving evaluation => exact h.goOn hi rfl (fun hwallet => h.phases _ hmem hwallet) fun _ => rfl
  | resolved result => exact h
  | rejected e => exact h

theorem Inv.step (h : Inv w start s) (hw : w ≠ "") {st : Step} (hcreates : Creates w start st)
    (hundisturbed : Undisturbed w s st) : Inv w start (s.step st) := by
  obtain ⟨now,action⟩ := st
  obtain ⟨hstart,hnow,hcreates⟩ := hcreates
  unfold Service.step
  cases action with
  | evaluateRisk request => exact h.begin hw hcreates
  | proceed i uuid =>
      dsimp only
      cases hi : s.calls[i]? with
      | none => exact h
      | some call => exact h.proceed hnow hi uuid (hundisturbed call hi)
  | answer i output =>
      dsimp only
      split
      · rename_i request hi
        refine h.setPhase hi ?_ (fun _ => trivial) fun _ _ => .inl rfl
        intro e he
        cases he
        exact ⟨rfl,hstart,rfl⟩
      · exact h
  | fail i message =>
      dsimp only
      split
      · rename_i request hi
        have hne : request.walletAddress ≠ w := hundisturbed _ hi
        exact h.goOn hi rfl (fun hwallet => absurd hwallet hne) Bool.noConfusion
      · exact h

theorem inv_new {repository : Repository} (hstamped : ∀ id e, repository.get id = some e →
    e.walletAddress = w → e.expiresAt = e.evaluatedAt + ttl) :
    Inv w start ({ repository } : Service) where
  stamped := hstamped
  creations _ h := nomatch h
  drafts _ h := nomatch h
  phases _ h := nomatch h
  alone _ _ _ _ h := nomatch h

theorem Inv.exclusive (h : Inv w start s) : Exclusive w s := by
  constructor
  · intro i j hi hj
    obtain ⟨request,result,hi,hwallet⟩ := hi
    obtain ⟨request',result',hj,hwallet'⟩ := hj
    exact h.alone i j _ _ hi hj hwallet hwallet' rfl rfl
  · intro call hcall hwallet e he
    have hfits := h.phases call hcall hwallet
    rw [he] at hfits
    exact hfits

end Steps

/-! ## Runs -/

/-- What is stored or about to be stored lives for `ttl`. -/
structure Stamped (s : Service) : Prop where
  stored : ∀ id e, s.repository.get id = some e → e.expiresAt = e.evaluatedAt + ttl
  drafts : ∀ call ∈ s.calls, ∀ e, call.phase = .evaluated e → e.expiresAt = e.evaluatedAt + ttl

theorem Stamped.setPhase {s : Service} (h : Stamped s) {i : ℕ} {call : Call} {phase : Phase}
    (hdraft : ∀ e, phase = .evaluated e → e.expiresAt = e.evaluatedAt + ttl) :
    Stamped (s.setPhase i call phase) := by
  refine ⟨h.stored,fun call' hcall' => ?_⟩
  rcases List.mem_or_eq_of_mem_set hcall' with hold | rfl
  · exact h.drafts call' hold
  · exact hdraft

theorem Stamped.goOn {s : Service} (h : Stamped s) {i : ℕ} {call : Call} {phase : Phase}
    (hdraft : phase.isDraft = false) : Stamped (s.setPhase i call phase) :=
  h.setPhase fun e he => absurd he (ne_evaluated hdraft e)

theorem Stamped.step (s : Service) (st : Step) (h : Stamped s) : Stamped (s.step st) := by
  obtain ⟨now,action⟩ := st
  unfold Service.step
  cases action with
  | evaluateRisk request =>
      refine ⟨h.stored,fun call hcall e he => ?_⟩
      rcases List.mem_append.mp hcall with hold | hnew
      · exact h.drafts call hold e he
      · rw [List.mem_singleton.mp hnew] at he
        exact absurd he (ne_evaluated (isDraft_begin s request) e)
  | proceed i uuid =>
      dsimp only
      cases hi : s.calls[i]? with
      | none => exact h
      | some call =>
          obtain ⟨request,phase⟩ := call
          unfold Service.proceed
          cases phase with
          | checking latest => exact h.goOn rfl
          | checked valid =>
              cases valid with
              | true => exact h.goOn rfl
              | false => exact h.goOn rfl
          | finding cached =>
              cases cached with
              | none => exact h.goOn rfl
              | some cached =>
                  dsimp only
                  split_ifs
                  · exact h.goOn rfl
                  · exact h.goOn rfl
          | evaluating => exact h
          | evaluated evaluation =>
              have hexpires := h.drafts _ (List.mem_of_getElem? hi) evaluation rfl
              dsimp only
              split_ifs
              · exact h
              · have hsaved : Stamped
                    { s with repository := s.repository.save evaluation uuid } :=
                  ⟨InsertionMap.forall_get_set h.stored hexpires,h.drafts⟩
                exact hsaved.goOn rfl
          | saving evaluation => exact h.goOn rfl
          | resolved result => exact h
          | rejected e => exact h
  | answer i output =>
      dsimp only
      split
      · refine h.setPhase fun e he => ?_
        cases he
        rfl
      · exact h
  | fail i message =>
      dsimp only
      split
      · exact h.goOn rfl
      · exact h

/-- Every evaluation that the service has ever stored lives for `ttl`. -/
theorem stamped_run (steps : List Step) (id : String) (e : RiskEvaluation)
    (h : (run Service.step {} steps).repository.get id = some e) :
    e.expiresAt = e.evaluatedAt + ttl := by
  have hnew : Stamped ({} : Service) := by
    constructor
    · intro id' e' h'
      cases h'
    · intro call hcall
      cases hcall
  exact (run_induction Stamped.step hnew steps).stored id e h

/-- In a run of creations that is shorter than an evaluation lives, at most one for the
wallet succeeds and the others are rejected as duplicates, if whoever finds no evaluation
is alone with that. -/
theorem creation_exclusive (w : String) (hw : w ≠ "") (start : ℤ) (repository : Repository)
    (hstamped : ∀ id e, repository.get id = some e → e.walletAddress = w →
      e.expiresAt = e.evaluatedAt + ttl) (steps : List Step)
    (hcreates : ∀ st ∈ steps, Creates w start st)
    (hundisturbed : Guarded Service.step (Undisturbed w) { repository } steps) :
    ∀ pre, pre <+: steps → Exclusive w (run Service.step { repository } pre) := by
  intro pre hpre
  have hguard : Guarded Service.step (fun s st => Creates w start st ∧ Undisturbed w s st)
      { repository } steps := guarded_and.mpr ⟨guarded_of_labels hcreates,hundisturbed⟩
  exact (run_invariant_passed (fun s st h hst => h.step hw hst.1 hst.2) (inv_new hstamped) hguard
    hpre).exclusive

def wallet : String := "GBZXN7PIRZGNMHGA7MUUUF4GWPY5AYPV6LY4UV2GL6VJGIQRXFDNMADI"

def output : RiskProviderOutput := ⟨.round 80,[]⟩

/-- The second call begins when the first has found none. -/
def overlapping : List Step :=
  [⟨0,createRiskEvaluation ⟨wallet,false,false⟩⟩,⟨0,createRiskEvaluation ⟨wallet,false,false⟩⟩,
    ⟨1,.proceed 0 ""⟩,⟨1,.proceed 1 ""⟩,⟨1,.proceed 0 ""⟩,⟨1,.proceed 1 ""⟩,
    ⟨40,.answer 0 output⟩,⟨41,.proceed 0 "e1"⟩,⟨41,.proceed 0 ""⟩,
    ⟨50,.answer 1 output⟩,⟨51,.proceed 1 "e2"⟩,⟨51,.proceed 1 ""⟩]

/-- The second call begins when the first is done. -/
def inTurn : List Step :=
  [⟨0,createRiskEvaluation ⟨wallet,false,false⟩⟩,⟨1,.proceed 0 ""⟩,⟨1,.proceed 0 ""⟩,
    ⟨40,.answer 0 output⟩,⟨41,.proceed 0 "e1"⟩,⟨41,.proceed 0 ""⟩,
    ⟨50,createRiskEvaluation ⟨wallet,false,false⟩⟩,⟨51,.proceed 1 ""⟩,⟨51,.proceed 1 ""⟩,
    ⟨51,.proceed 1 ""⟩]

theorem creation_exclusive_in_turn :
    Succeeds wallet (run Service.step { repository := .empty } inTurn) 0 ∧
      ∀ pre, pre <+: inTurn → Exclusive wallet (run Service.step { repository := .empty } pre) := by
  have hone : Succeeds wallet (run Service.step { repository := .empty } inTurn) 0 :=
    ⟨_,_,rfl,rfl⟩
  refine ⟨hone,creation_exclusive wallet (by decide +kernel) 0 .empty ?_ inTurn (by decide +kernel)
    (by decide +kernel)⟩
  intro id e hget
  cases hget

/-- Two overlapping creations both succeed, and both evaluations are stored. -/
theorem creation_overlapping :
    (∀ st ∈ overlapping, Creates wallet 0 st) ∧
      ¬ Exclusive wallet (run Service.step { repository := .empty } overlapping) := by
  refine ⟨by decide +kernel,fun h => ?_⟩
  have hone : Succeeds wallet (run Service.step { repository := .empty } overlapping) 0 :=
    ⟨_,_,rfl,rfl⟩
  have htwo : Succeeds wallet (run Service.step { repository := .empty } overlapping) 1 :=
    ⟨_,_,rfl,rfl⟩
  exact absurd (h.once 0 1 hone htwo) (by decide)

end Creditra.RiskCreation
