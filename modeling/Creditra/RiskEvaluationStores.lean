import Creditra.FloatOrder
import Creditra.PostgresCreditLines
import Creditra.RiskCreation
import Creditra.SqlOrderings
import Mathlib.Data.List.Find
import Mathlib.Data.List.Forall2

/-!
# The two stores of risk evaluations side by side

One sequence of saves and clean-ups on `InMemoryRiskEvaluationRepository` and on
`PostgresRiskEvaluationRepository`. Both are given the same generated ids and the
same clock. The tables keep an evaluation in a row of their own, without its
wallet, which is the borrower's; a row comes back joined with its borrower, and
with the texts that its columns give back.

Listings of the tables are ordered by `evaluated_at` alone, so that of evaluations
of one instant the server may return any first. Memory returns the oldest entry
first, which is one of the answers the server may give.
-/
namespace Creditra.RiskEvaluationStores
open FloatNumbers GuardedRuns InsertionMaps RiskCreation SqlOrderings
open PostgresCreditLines (readInteger)

/-- The evaluations a listing is about. -/
def scope (walletAddress : Option String) (evaluations : List RiskEvaluation) :
    List RiskEvaluation :=
  match walletAddress with
  | some walletAddress => evaluations.filter (·.walletAddress = walletAddress)
  | none => evaluations

/-! ## In memory -/

namespace Memory

def evaluations (repository : Repository) : List RiskEvaluation :=
  repository.entries.map Prod.snd

/-- `findByWalletAddress`, and `findAll` without a wallet, before `slice`. -/
def sorted (repository : Repository) (walletAddress : Option String) : List RiskEvaluation :=
  (scope walletAddress (evaluations repository)).insertionSort
    fun a b => b.evaluatedAt ≤ a.evaluatedAt

def findByWalletAddress (repository : Repository) (walletAddress : String) (offset limit : ℕ) :
    List RiskEvaluation :=
  page offset limit (sorted repository (some walletAddress))

def findAll (repository : Repository) (offset limit : ℕ) : List RiskEvaluation :=
  page offset limit (sorted repository none)

def expired (now : ℤ) (entry : String × RiskEvaluation) : Bool := entry.2.expiresAt < now

def deleteExpired (repository : Repository) (now : ℤ) : ℕ × Repository :=
  (repository.entries.countP (expired now),repository.filter fun entry => ! expired now entry)

def isValid (repository : Repository) (walletAddress : String) (now : ℤ) : Bool :=
  RiskCreation.isValid (repository.findLatestByWalletAddress walletAddress) now

def count (repository : Repository) : ℕ := repository.entries.length

end Memory

/-! ## In the tables -/

/-- What the server reads as a text, an instant and a UUID, with its canonical text; and what a
`NUMERIC(28,8)` and a `JSONB` column give back, where they take the parameter. -/
structure Server where
  readsText : String → Bool
  readsTime : ℤ → Bool
  uuid : String → Option String
  numeric : String → Option String
  jsonb : List RiskFactor → Option (List RiskFactor)

structure RiskEvaluationRow where
  id : String
  borrowerId : String
  riskScore : ℤ
  suggestedLimit : String
  interestRateBps : ℤ
  inputs : Option (List RiskFactor)
  evaluatedAt : ℤ
  expiresAt : Option ℤ

/-- The tables, by primary key. -/
structure Tables where
  borrowers : InsertionMap String String
  riskEvaluations : InsertionMap String RiskEvaluationRow

def toModel (row : RiskEvaluationRow) (walletAddress : String) : RiskEvaluation where
  id := row.id
  walletAddress := walletAddress
  riskScore := .round row.riskScore
  creditLimit := row.suggestedLimit
  interestRateBps := .round row.interestRateBps
  factors := row.inputs.getD []
  evaluatedAt := row.evaluatedAt
  expiresAt := row.expiresAt.getD row.evaluatedAt

section Statements
variable (server : Server)

/-- The row of an `INSERT`, nothing where a column refuses its parameter. -/
def Server.row (evaluation : NewEvaluation) (uuid borrowerId : String) :
    Option RiskEvaluationRow :=
  match readInteger evaluation.riskScore, server.numeric evaluation.creditLimit,
    readInteger evaluation.interestRateBps, server.jsonb evaluation.factors with
  | some riskScore, some suggestedLimit, some interestRateBps, some inputs =>
      if server.readsTime evaluation.evaluatedAt && server.readsTime evaluation.expiresAt then
        some { id := uuid
               borrowerId
               riskScore
               suggestedLimit
               interestRateBps
               inputs := some inputs
               evaluatedAt := evaluation.evaluatedAt
               expiresAt := some evaluation.expiresAt }
      else none
  | _, _, _, _ => none

namespace Tables

def selectBorrower (t : Tables) (walletAddress : String) : Option String :=
  (t.borrowers.entries.find? (·.2 = walletAddress)).map Prod.fst

/-- The borrower of a wallet, inserted if there is none. -/
def ensureBorrower (t : Tables) (walletAddress uuid : String) : Option (String × Tables) :=
  if server.readsText walletAddress then
    match t.selectBorrower walletAddress with
    | some id => some (id,t)
    | none =>
        if (t.borrowers.get uuid).isSome then none
        else some (uuid,{ t with borrowers := t.borrowers.set uuid walletAddress })
  else none

/-- Nothing is returned where a statement fails; a borrower that was inserted stays. -/
def save (t : Tables) (evaluation : NewEvaluation) (uuid borrowerUuid : String) :
    Option RiskEvaluation × Tables :=
  match t.ensureBorrower server evaluation.walletAddress borrowerUuid with
  | none => (none,t)
  | some (borrowerId,t) =>
      match server.row evaluation uuid borrowerId with
      | none => (none,t)
      | some row =>
          if (t.riskEvaluations.get uuid).isSome then (none,t)
          else (some (toModel row evaluation.walletAddress),
            { t with riskEvaluations := t.riskEvaluations.set uuid row })

/-- The rows joined with their borrowers. -/
def select (t : Tables) : List RiskEvaluation :=
  t.riskEvaluations.entries.filterMap fun entry =>
    (t.borrowers.get entry.2.borrowerId).map (toModel entry.2)

/-- An answer to `findByWalletAddress`, or to `findAll` without a wallet. -/
def Lists (t : Tables) (walletAddress : Option String) (offset limit : ℕ)
    (answer : List RiskEvaluation) : Prop :=
  ∃ listing, Ordered (·.evaluatedAt) (scope walletAddress t.select) listing ∧
    answer = page offset limit listing

def FindsLatest (t : Tables) (walletAddress : String) (latest : Option RiskEvaluation) : Prop :=
  ∃ answer, t.Lists (some walletAddress) 0 1 answer ∧ latest = answer.head?

/-- Nothing where the parameter is no UUID. -/
def findById (t : Tables) (id : String) : Option (Option RiskEvaluation) :=
  (server.uuid id).map fun id => t.select.find? (·.id = id)

def expired (now : ℤ) (entry : String × RiskEvaluationRow) : Bool :=
  match entry.2.expiresAt with
  | some expiresAt => expiresAt < now
  | none => false

def deleteExpired (t : Tables) (now : ℤ) : ℕ × Tables :=
  (t.riskEvaluations.entries.countP (expired now),
    { t with riskEvaluations := t.riskEvaluations.filter fun entry => ! expired now entry })

def count (t : Tables) : ℕ := t.riskEvaluations.entries.length

end Tables

/-! ## Both under one sequence of calls -/

/-- What comes back of an evaluation that is in memory. -/
def Server.kept (evaluation : RiskEvaluation) : RiskEvaluation :=
  { evaluation with
    creditLimit := (server.numeric evaluation.creditLimit).getD evaluation.creditLimit
    factors := (server.jsonb evaluation.factors).getD evaluation.factors }

inductive Answer where
  | saved (evaluation : Option RiskEvaluation)
  | deleted (count : ℕ)

def Answer.kept : Answer → Answer
  | .saved evaluation => .saved (evaluation.map server.kept)
  | .deleted count => .deleted count

inductive Op where
  | save (evaluation : NewEvaluation) (uuid borrowerUuid : String)
  | deleteExpired (now : ℤ)

/-- The stores, and what they have answered to the calls so far. -/
structure Stores where
  memory : Repository
  tables : Tables
  answers : List (Answer × Answer)

def initial : Stores := ⟨.empty,⟨.empty,.empty⟩,[]⟩

def step (s : Stores) : Op → Stores
  | .save evaluation uuid borrowerUuid =>
      let saved := s.tables.save server evaluation uuid borrowerUuid
      { memory := s.memory.save evaluation uuid
        tables := saved.2
        answers := s.answers ++
          [(.saved (some { evaluation with id := uuid }),.saved saved.1)] }
  | .deleteExpired now =>
      let inMemory := Memory.deleteExpired s.memory now
      let inTables := s.tables.deleteExpired now
      { memory := inMemory.2
        tables := inTables.2
        answers := s.answers ++ [(.deleted inMemory.1,.deleted inTables.1)] }

/-- An evaluation that the columns take, with ids that are not in use. -/
def Admitted (s : Stores) : Op → Prop
  | .save evaluation uuid borrowerUuid =>
      server.readsText evaluation.walletAddress = true ∧
        (server.row evaluation uuid borrowerUuid).isSome ∧
        s.memory.get uuid = none ∧ s.tables.borrowers.get borrowerUuid = none
  | .deleteExpired _ => True

instance (s : Stores) (op : Op) : Decidable (Admitted server s op) :=
  match op with
  | .save evaluation uuid borrowerUuid => inferInstanceAs (Decidable (
      server.readsText evaluation.walletAddress = true ∧
        (server.row evaluation uuid borrowerUuid).isSome ∧
        s.memory.get uuid = none ∧ s.tables.borrowers.get borrowerUuid = none))
  | .deleteExpired _ => inferInstanceAs (Decidable True)

end Statements

section Proofs
variable {server : Server}

/-! ## Rows -/

theorem round_readInteger {x : Value} {n : ℤ} (h : readInteger x = some n) :
    Value.round n = x := by
  cases x with
  | finite x =>
      rw [PostgresCreditLines.readInteger_finite,Option.ite_none_right_eq_some] at h
      obtain ⟨⟨hden,-⟩,hnum⟩ := h
      have hx : (n : ℚ) = x.1 := by
        rw [← Option.some.inj hnum]
        exact Rat.coe_int_num_of_den_eq_one hden
      rw [hx,FloatOrder.round_self]
  | _ => cases h

/-- What the row of an evaluation is read back as. -/
theorem toModel_row {evaluation : NewEvaluation} {uuid borrowerId : String}
    {row : RiskEvaluationRow} (h : server.row evaluation uuid borrowerId = some row) :
    toModel row evaluation.walletAddress = server.kept { evaluation with id := uuid } ∧
      row.borrowerId = borrowerId ∧ row.expiresAt = some evaluation.expiresAt := by
  unfold Server.row at h
  split at h
  · rename_i hscore hlimit hrate hinputs
    rw [Option.ite_none_right_eq_some] at h
    obtain ⟨-,hrow⟩ := h
    rw [← Option.some.inj hrow]
    refine ⟨?_,rfl,rfl⟩
    simp only [toModel,Server.kept,hlimit,hinputs,round_readInteger hscore,
      round_readInteger hrate,Option.getD_some]
  · cases h

theorem isSome_row {evaluation : NewEvaluation} {uuid borrowerId : String}
    (h : (server.row evaluation uuid borrowerId).isSome) (borrowerId' : String) :
    (server.row evaluation uuid borrowerId').isSome := by
  unfold Server.row at h ⊢
  split
  · rename_i hscore hlimit hrate hinputs
    simp only [hscore,hlimit,hrate,hinputs] at h
    split
    · rfl
    · rename_i htime
      rw [if_neg htime] at h
      exact h
  · rename_i hnone
    split at h
    · rename_i hscore hlimit hrate hinputs
      exact absurd hinputs (hnone _ _ _ _ hscore hlimit hrate)
    · exact h

/-! ## Entries -/

/-- An entry of the table and the entry in memory that it stands for. -/
structure Matches (server : Server) (borrowers : InsertionMap String String)
    (entry : String × RiskEvaluationRow) (evaluation : String × RiskEvaluation) : Prop where
  key : entry.1 = evaluation.1
  id : evaluation.2.id = evaluation.1
  borrower : borrowers.get entry.2.borrowerId = some evaluation.2.walletAddress
  model : toModel entry.2 evaluation.2.walletAddress = server.kept evaluation.2
  expires : entry.2.expiresAt = some evaluation.2.expiresAt

/-- Entry by entry the tables hold what memory holds, and the answers so far agree. -/
structure InStep (server : Server) (s : Stores) : Prop where
  entries : List.Forall₂ (Matches server s.tables.borrowers) s.tables.riskEvaluations.entries
    s.memory.entries
  answers : ∀ answers ∈ s.answers, answers.2 = answers.1.kept server

theorem Matches.grow {borrowers : InsertionMap String String} {entry : String × RiskEvaluationRow}
    {evaluation : String × RiskEvaluation} (h : Matches server borrowers entry evaluation)
    {uuid : String} (hfresh : borrowers.get uuid = none) (walletAddress : String) :
    Matches server (borrowers.set uuid walletAddress) entry evaluation where
  key := h.key
  id := h.id
  borrower := by
    have hne : entry.2.borrowerId ≠ uuid := by
      intro heq
      have := h.borrower
      rw [heq,hfresh] at this
      cases this
    rw [InsertionMap.get_set_of_ne _ hne]
    exact h.borrower
  model := h.model
  expires := h.expires

theorem expired_eq {borrowers : InsertionMap String String} {now : ℤ}
    {entry : String × RiskEvaluationRow} {evaluation : String × RiskEvaluation}
    (h : Matches server borrowers entry evaluation) :
    Tables.expired now entry = Memory.expired now evaluation := by
  simp only [Tables.expired,Memory.expired,h.expires]

theorem inStep_initial : InStep server initial := ⟨.nil,by simp [initial]⟩

/-- The borrower that `ensureBorrower` answers with is the wallet's, and no other has moved. -/
theorem ensureBorrower_spec {t : Tables} {walletAddress uuid : String}
    (hreads : server.readsText walletAddress = true) (hfresh : t.borrowers.get uuid = none) :
    ∃ borrowerId borrowers,
      t.ensureBorrower server walletAddress uuid =
        some (borrowerId,⟨borrowers,t.riskEvaluations⟩) ∧
      borrowers.get borrowerId = some walletAddress ∧
      ∀ entry evaluation, Matches server t.borrowers entry evaluation →
        Matches server borrowers entry evaluation := by
  unfold Tables.ensureBorrower
  rw [if_pos hreads]
  cases hselect : t.selectBorrower walletAddress with
  | some borrowerId =>
      refine ⟨borrowerId,t.borrowers,rfl,?_,fun _ _ h => h⟩
      obtain ⟨e,he,rfl⟩ := Option.map_eq_some_iff.mp hselect
      have hwallet : e.2 = walletAddress := by simpa using List.find?_some he
      rw [InsertionMap.get_eq_some,← hwallet]
      exact List.mem_of_find?_eq_some he
  | none =>
      have hsome : ¬ (t.borrowers.get uuid).isSome := by simp [hfresh]
      refine ⟨uuid,t.borrowers.set uuid walletAddress,if_neg hsome,?_,?_⟩
      · exact InsertionMap.get_set_self _ _ _
      · intro entry evaluation h
        exact h.grow hfresh walletAddress

theorem InStep.keys {s : Stores} (h : InStep server s) :
    s.tables.riskEvaluations.keys = s.memory.keys := by
  have hkeys : List.Forall₂ (fun a b => a.1 = b.1) s.tables.riskEvaluations.entries
      s.memory.entries := h.entries.imp fun _ _ hab => hab.key
  rw [InsertionMap.keys,InsertionMap.keys,← List.forall₂_eq_eq_eq,List.forall₂_map_left_iff,
    List.forall₂_map_right_iff]
  exact hkeys

theorem InStep.absent {s : Stores} (h : InStep server s) {uuid : String}
    (hfresh : s.memory.get uuid = none) : s.tables.riskEvaluations.get uuid = none := by
  rw [← Option.not_isSome_iff_eq_none,← InsertionMap.mem_keys,h.keys,InsertionMap.mem_keys,hfresh]
  exact Bool.false_ne_true

theorem InStep.save {s : Stores} (h : InStep server s) {evaluation : NewEvaluation}
    {uuid borrowerUuid : String} (hop : Admitted server s (.save evaluation uuid borrowerUuid)) :
    InStep server (step server s (.save evaluation uuid borrowerUuid)) := by
  obtain ⟨hreads,hrow,hfresh,hborrower⟩ := hop
  obtain ⟨borrowerId,borrowers,hensure,hget,hgrow⟩ := ensureBorrower_spec hreads hborrower
  obtain ⟨row,hrow⟩ := Option.isSome_iff_exists.mp (isSome_row hrow borrowerId)
  obtain ⟨hmodel,hid,hexpires⟩ := toModel_row hrow
  have habsent : s.tables.riskEvaluations.get uuid = none := h.absent hfresh
  have hsave : s.tables.save server evaluation uuid borrowerUuid =
      (some (toModel row evaluation.walletAddress),
        ⟨borrowers,s.tables.riskEvaluations.set uuid row⟩) := by
    simp [Tables.save,hensure,hrow,habsent]
  constructor
  · simp only [step,hsave,Repository.save]
    rw [InsertionMap.entries_set_of_none habsent,InsertionMap.entries_set_of_none hfresh]
    refine List.rel_append (h.entries.imp hgrow) (.cons ?_ .nil)
    exact ⟨rfl,rfl,hid ▸ hget,hmodel,hexpires⟩
  · simp only [step,hsave]
    intro answers hanswers
    rcases List.mem_append.mp hanswers with hanswers | hanswers
    · exact h.answers answers hanswers
    · rw [List.mem_singleton.mp hanswers,hmodel]
      rfl

theorem InStep.deleteExpired {s : Stores} (h : InStep server s) (now : ℤ) :
    InStep server (step server s (.deleteExpired now)) := by
  have hfilter (p : Bool → Bool) :
      List.Forall₂ (Matches server s.tables.borrowers)
        (s.tables.riskEvaluations.entries.filter fun entry => p (Tables.expired now entry))
        (s.memory.entries.filter fun entry => p (Memory.expired now entry)) := by
    refine List.rel_filter ?_ h.entries
    intro entry evaluation hmatches
    simp only [expired_eq hmatches]
  refine ⟨hfilter (! ·),?_⟩
  intro answers hanswers
  rcases List.mem_append.mp hanswers with hanswers | hanswers
  · exact h.answers answers hanswers
  · rw [List.mem_singleton.mp hanswers]
    simp only [Answer.kept,Tables.deleteExpired,Memory.deleteExpired,List.countP_eq_length_filter]
    exact congrArg Answer.deleted (hfilter id).length_eq

theorem inStep_run {ops : List Op} (h : Guarded (step server) (Admitted server) initial ops) :
    InStep server (run (step server) initial ops) := by
  refine run_invariant ?_ inStep_initial h
  intro s op hs hop
  cases op with
  | save evaluation uuid borrowerUuid => exact hs.save hop
  | deleteExpired now => exact hs.deleteExpired now

/-! ## What is read -/

theorem select_matches {t : Tables} {entries : List (String × RiskEvaluation)}
    (h : List.Forall₂ (Matches server t.borrowers) t.riskEvaluations.entries entries) :
    t.select = (entries.map Prod.snd).map server.kept := by
  rw [Tables.select]
  generalize t.riskEvaluations.entries = rows at h
  induction h with
  | nil => rfl
  | @cons entry evaluation _ _ hmatches _ ih =>
      have hjoin : (t.borrowers.get entry.2.borrowerId).map (toModel entry.2) =
          some (server.kept evaluation.2) := by
        rw [hmatches.borrower,Option.map_some,hmatches.model]
      simp only [List.filterMap_cons,hjoin,ih,List.map_cons]

theorem InStep.select {s : Stores} (h : InStep server s) :
    s.tables.select = (Memory.evaluations s.memory).map server.kept := select_matches h.entries

theorem scope_kept (walletAddress : Option String) (evaluations : List RiskEvaluation) :
    scope walletAddress (evaluations.map server.kept) =
      (scope walletAddress evaluations).map server.kept := by
  cases walletAddress with
  | none => rfl
  | some walletAddress =>
      rw [scope,List.filter_map]
      rfl

theorem ids_matches {borrowers : InsertionMap String String}
    {rows : List (String × RiskEvaluationRow)} {entries : List (String × RiskEvaluation)}
    (h : List.Forall₂ (Matches server borrowers) rows entries) :
    ∀ entry ∈ entries, entry.2.id = entry.1 := by
  induction h with
  | nil => simp
  | cons hmatches _ ih => exact List.forall_mem_cons.mpr ⟨hmatches.id,ih⟩

theorem InStep.byId {s : Stores} (h : InStep server s) (id : String) :
    s.tables.select.find? (·.id = id) = (s.memory.get id).map server.kept := by
  have hfind : (s.memory.entries.find? fun entry => entry.2.id = id) =
      s.memory.entries.find? fun entry => entry.1 = id := by
    refine List.find?_congr ?_
    intro entry hentry
    rw [ids_matches h.entries entry hentry]
  rw [h.select,Memory.evaluations,List.find?_map,List.find?_map,InsertionMap.get,← hfind]
  rfl

/-- How the stores stand to each other: they have answered alike, up to the texts of the columns,
and for every listing the one in memory is one that the tables may give, the instants of each page
are the same in all of these, and there is only one if no instant comes twice. Whether the latest
evaluation of a wallet is valid does not depend on the one that is returned if all of them live
for the same time. -/
structure Agree (server : Server) (s : Stores) : Prop where
  answers : ∀ answers ∈ s.answers, answers.2 = answers.1.kept server
  byId : ∀ id, server.uuid id = some id →
    s.tables.findById server id = some ((s.memory.get id).map server.kept)
  counts : s.tables.count = Memory.count s.memory
  permitted : ∀ walletAddress offset limit, s.tables.Lists walletAddress offset limit
    ((page offset limit (Memory.sorted s.memory walletAddress)).map server.kept)
  instants : ∀ walletAddress offset limit answer, s.tables.Lists walletAddress offset limit answer →
    answer.map (·.evaluatedAt) =
      (page offset limit (Memory.sorted s.memory walletAddress)).map (·.evaluatedAt)
  unique : ∀ walletAddress offset limit answer, s.tables.Lists walletAddress offset limit answer →
    Distinct (·.evaluatedAt) (scope walletAddress (Memory.evaluations s.memory)) →
      answer = (page offset limit (Memory.sorted s.memory walletAddress)).map server.kept
  valid : ∀ walletAddress latest lifetime now, s.tables.FindsLatest walletAddress latest →
    (∀ evaluation ∈ scope (some walletAddress) (Memory.evaluations s.memory),
      evaluation.expiresAt = evaluation.evaluatedAt + lifetime) →
    RiskCreation.isValid latest now = Memory.isValid s.memory walletAddress now

theorem InStep.lists {s : Stores} (h : InStep server s) {walletAddress : Option String}
    {offset limit : ℕ} {answer : List RiskEvaluation}
    (hanswer : s.tables.Lists walletAddress offset limit answer) :
    ∃ listing, Ordered (·.evaluatedAt)
        ((scope walletAddress (Memory.evaluations s.memory)).map server.kept) listing ∧
      answer = page offset limit listing := by
  obtain ⟨listing,hordered,rfl⟩ := hanswer
  rw [h.select,scope_kept] at hordered
  exact ⟨listing,hordered,rfl⟩

/-- The listing of memory as the tables would give it. -/
theorem ordered_sorted (server : Server) (repository : Repository) (walletAddress : Option String) :
    Ordered (·.evaluatedAt) ((scope walletAddress (Memory.evaluations repository)).map server.kept)
      ((Memory.sorted repository walletAddress).map server.kept) :=
  (ordered_insertionSort (fun e : RiskEvaluation => e.evaluatedAt) _).map fun _ => rfl

theorem InStep.permitted {s : Stores} (h : InStep server s) (walletAddress : Option String)
    (offset limit : ℕ) : s.tables.Lists walletAddress offset limit
      ((page offset limit (Memory.sorted s.memory walletAddress)).map server.kept) := by
  refine ⟨(Memory.sorted s.memory walletAddress).map server.kept,?_,(page_map _ _ _ _).symm⟩
  rw [h.select,scope_kept]
  exact ordered_sorted server s.memory walletAddress

theorem InStep.instants {s : Stores} (h : InStep server s) {walletAddress : Option String}
    {offset limit : ℕ} {answer : List RiskEvaluation}
    (hanswer : s.tables.Lists walletAddress offset limit answer) :
    answer.map (·.evaluatedAt) =
      (page offset limit (Memory.sorted s.memory walletAddress)).map (·.evaluatedAt) := by
  obtain ⟨listing,hordered,rfl⟩ := h.lists hanswer
  rw [hordered.page_keys (ordered_sorted server s.memory walletAddress),page_map,List.map_map]
  rfl

theorem InStep.unique {s : Stores} (h : InStep server s) {walletAddress : Option String}
    {offset limit : ℕ} {answer : List RiskEvaluation}
    (hanswer : s.tables.Lists walletAddress offset limit answer)
    (hd : Distinct (·.evaluatedAt) (scope walletAddress (Memory.evaluations s.memory))) :
    answer = (page offset limit (Memory.sorted s.memory walletAddress)).map server.kept := by
  obtain ⟨listing,hordered,rfl⟩ := h.lists hanswer
  have hkept : Distinct (·.evaluatedAt)
      ((scope walletAddress (Memory.evaluations s.memory)).map server.kept) := by
    intro a ha b hb hab
    obtain ⟨e,he,rfl⟩ := List.mem_map.mp ha
    obtain ⟨f,hf,rfl⟩ := List.mem_map.mp hb
    rw [hd e he f hf hab]
  rw [hordered.eq (ordered_sorted server s.memory walletAddress) hkept,page_map]

theorem isValid_congr {a b : Option RiskEvaluation}
    (h : a.map (·.expiresAt) = b.map (·.expiresAt)) (now : ℤ) :
    RiskCreation.isValid a now = RiskCreation.isValid b now := by
  cases a with
  | none =>
      cases b with
      | none => rfl
      | some b => cases h
  | some a =>
      cases b with
      | none => cases h
      | some b =>
          have hexpires : a.expiresAt = b.expiresAt := Option.some.inj h
          simp only [RiskCreation.isValid,hexpires]

/-- Of evaluations that live for the same time, those of one instant expire together. -/
theorem map_expiresAt (lifetime : ℤ) {latest : Option RiskEvaluation}
    (h : ∀ evaluation, latest = some evaluation →
      evaluation.expiresAt = evaluation.evaluatedAt + lifetime) :
    latest.map (·.expiresAt) = (latest.map (·.evaluatedAt)).map (· + lifetime) := by
  cases latest with
  | none => rfl
  | some latest => simp [h latest rfl]

/-- The latest evaluation expires when the one in memory does. -/
theorem InStep.valid {s : Stores} (h : InStep server s) {walletAddress : String}
    {latest : Option RiskEvaluation} {lifetime now : ℤ}
    (hlatest : s.tables.FindsLatest walletAddress latest)
    (hlife : ∀ evaluation ∈ scope (some walletAddress) (Memory.evaluations s.memory),
      evaluation.expiresAt = evaluation.evaluatedAt + lifetime) :
    RiskCreation.isValid latest now = Memory.isValid s.memory walletAddress now := by
  obtain ⟨answer,hanswer,rfl⟩ := hlatest
  have hinstant : answer.head?.map (·.evaluatedAt) =
      (Memory.sorted s.memory (some walletAddress)).head?.map (·.evaluatedAt) := by
    rw [← List.head?_map,h.instants hanswer,List.head?_map,← head?_eq_page]
  refine isValid_congr ?_ now
  rw [map_expiresAt lifetime,hinstant,← map_expiresAt lifetime]
  · rfl
  · intro evaluation hhead
    exact hlife evaluation ((List.mem_insertionSort _).mp (List.mem_of_head? hhead))
  · intro evaluation hhead
    obtain ⟨listing,hordered,rfl⟩ := h.lists hanswer
    have hmem : evaluation ∈ listing := List.mem_of_head? ((head?_eq_page listing).trans hhead)
    obtain ⟨e,he,rfl⟩ := List.mem_map.mp (hordered.perm.mem_iff.mp hmem)
    exact hlife e he

theorem InStep.agree {s : Stores} (h : InStep server s) : Agree server s where
  answers := h.answers
  byId := by
    intro id hid
    rw [Tables.findById,hid,Option.map_some,h.byId]
  counts := h.entries.length_eq
  permitted := h.permitted
  instants := fun _ _ _ _ hanswer => h.instants hanswer
  unique := fun _ _ _ _ hanswer hd => h.unique hanswer hd
  valid := fun _ _ _ _ hlatest hlife => h.valid hlatest hlife

/-- Whatever is saved and cleaned up, if the columns take it and no id comes twice, the stores
agree. -/
theorem stores_agree (ops : List Op) (h : Guarded (step server) (Admitted server) initial ops) :
    Agree server (run (step server) initial ops) := (inStep_run h).agree

end Proofs

/-- Every text is one, and amounts come back as they are. -/
def plain : Server where
  readsText _ := true
  readsTime _ := true
  uuid := some
  numeric := some
  jsonb := some

/-- Evaluations of one instant, of which the second has the higher score. -/
def twice : List Op :=
  [.save ⟨"GA",.round 40,"400.00",.round 800,[],1000,2000⟩ "e1" "b1",
    .save ⟨"GB",.round 50,"500.00",.round 750,[],1000,1500⟩ "e2" "b2",
    .save ⟨"GA",.round 60,"600.00",.round 700,[],1000,2000⟩ "e3" "b3",.deleteExpired 1800]

theorem stores_agree_twice : Agree plain (run (step plain) initial twice) :=
  stores_agree twice (by decide +kernel)

end Creditra.RiskEvaluationStores
