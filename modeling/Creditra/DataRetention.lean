import Creditra.InboundWebhookSignature
import Creditra.SqlAggregates

/-!
# Data retention

`services/dataRetentionService.ts`: one statement deletes old events, one deletes
old risk evaluations of borrowers without an active credit line, and one replaces
the wallet address of borrowers whose last activity is old. A dry run counts what
each statement would affect in the tables as they are; a sweep runs them one after
another. Timestamps are any linear order, and `now()` stands still.
-/
namespace Creditra.DataRetention
open InboundWebhookSignature SqlAggregates

structure Borrower (τ : Type) where
  id : String
  walletAddress : String
  updatedAt : τ
  anonymizedAt : Option τ
  deriving DecidableEq

structure CreditLine (τ : Type) where
  id : String
  borrowerId : String
  status : String
  updatedAt : τ
  deriving DecidableEq

structure Transaction (τ : Type) where
  id : String
  creditLineId : String
  createdAt : τ
  deriving DecidableEq

structure RiskEvaluation (τ : Type) where
  id : String
  borrowerId : String
  evaluatedAt : τ
  deriving DecidableEq

structure Event (τ : Type) where
  id : String
  createdAt : τ
  deriving DecidableEq

/-- A row of `data_retention_runs`. -/
structure RetentionRun where
  eventsDeleted : ℕ
  riskEvaluationsDeleted : ℕ
  borrowersAnonymized : ℕ
  operationalRetentionDays : ℤ
  eventsRetentionDays : ℤ
  errors : Option (List String)
  deriving DecidableEq

/-- The tables, with the primary key of the borrowers. -/
structure Database (τ : Type) where
  borrowers : List (Borrower τ)
  creditLines : List (CreditLine τ)
  transactions : List (Transaction τ)
  riskEvaluations : List (RiskEvaluation τ)
  events : List (Event τ)
  dataRetentionRuns : List RetentionRun
  primaryKey : (borrowers.map Borrower.id).Nodup

/-- `now()`, the instant a number of days before it, and the digest of the database. -/
structure Server (τ : Type) where
  now : τ
  daysAgo : ℤ → τ
  sha256 : String → Bytes

structure DataRetentionConfig where
  operationalRetentionDays : ℤ
  eventsRetentionDays : ℤ

section Statements
variable {τ : Type} [LinearOrder τ] (server : Server τ) (retentionDays : ℤ)

def expired (event : Event τ) : Bool := event.createdAt < server.daysAgo retentionDays

def purgeExpiredEvents (db : Database τ) : ℕ × Database τ :=
  ((db.events.filter (expired server retentionDays)).length,
    { db with events := db.events.filter fun event => ! expired server retentionDays event })

/-- `EXISTS` over the active credit lines of a borrower. -/
def hasActiveLine (db : Database τ) (borrowerId : String) : Bool :=
  db.creditLines.any fun line => line.borrowerId = borrowerId ∧ line.status = "active"

/-- The condition under which an evaluation is deleted along with a borrower. -/
def staleEvaluation (db : Database τ) (evaluation : RiskEvaluation τ) (borrower : Borrower τ) :
    Bool :=
  evaluation.borrowerId = borrower.id ∧ evaluation.evaluatedAt < server.daysAgo retentionDays ∧
    ¬ hasActiveLine db borrower.id

/-- `DELETE ... USING borrowers` deletes a row that matches any borrower. -/
def purgeStaleRiskEvaluations (db : Database τ) : ℕ × Database τ :=
  let stale evaluation := db.borrowers.any (staleEvaluation server retentionDays db evaluation)
  ((db.riskEvaluations.filter stale).length,
    { db with riskEvaluations := db.riskEvaluations.filter fun evaluation => ! stale evaluation })

/-- The rows of a borrower in the outer join with its lines, their transactions and its
evaluations. -/
def activityRows (db : Database τ) (borrower : Borrower τ) :
    List (Option (CreditLine τ) × Option (Transaction τ) × Option (RiskEvaluation τ)) :=
  (leftJoin (db.creditLines.filter (·.borrowerId = borrower.id))).flatMap fun line =>
    (leftJoin (db.transactions.filter fun t =>
      some t.creditLineId = line.map CreditLine.id)).flatMap fun transaction =>
        (leftJoin (db.riskEvaluations.filter (·.borrowerId = borrower.id))).map fun evaluation =>
          (line,transaction,evaluation)

structure LastActivity (τ : Type) where
  borrowerId : String
  lastActiveAt : τ
  hasActiveLine : Option Bool

/-- The group of one borrower. -/
def activityOf (db : Database τ) (borrower : Borrower τ) : LastActivity τ :=
  let rows := activityRows db borrower
  let lastLine := maximum (rows.map fun row => row.1.map CreditLine.updatedAt)
  let lastTransaction := maximum (rows.map fun row => row.2.1.map Transaction.createdAt)
  let lastEvaluation := maximum (rows.map fun row => row.2.2.map RiskEvaluation.evaluatedAt)
  { borrowerId := borrower.id
    lastActiveAt := max (max (max borrower.updatedAt (lastLine.getD borrower.updatedAt))
      (lastTransaction.getD borrower.updatedAt)) (lastEvaluation.getD borrower.updatedAt)
    hasActiveLine := boolOr (rows.map fun row => row.1.map fun line => line.status = "active") }

/-- The `WITH` clause. -/
def lastActivity (db : Database τ) : List (LastActivity τ) :=
  (db.borrowers.filter (·.anonymizedAt.isNone)).map (activityOf db)

def staleActivity (activity : LastActivity τ) : Bool :=
  activity.hasActiveLine ≠ some true ∧ activity.lastActiveAt < server.daysAgo retentionDays

def anonymize (borrower : Borrower τ) : Borrower τ :=
  { borrower with
    walletAddress := "anon_" ++ hexEncode (server.sha256 borrower.id)
    anonymizedAt := some server.now }

/-- The rows that `UPDATE ... FROM last_activity` writes. -/
def staleBorrower (db : Database τ) (borrower : Borrower τ) : Bool :=
  (lastActivity db).any fun activity =>
    borrower.id = activity.borrowerId ∧ staleActivity server retentionDays activity

omit [LinearOrder τ] in
theorem map_id_anonymize (p : Borrower τ → Bool) (borrowers : List (Borrower τ)) :
    (borrowers.map fun b => if p b then anonymize server b else b).map Borrower.id =
      borrowers.map Borrower.id := by
  rw [List.map_map]
  apply List.map_congr_left
  intro b _
  simp only [Function.comp_apply]
  split
  · rfl
  · rfl

def anonymizeStaleBorrowers (db : Database τ) : ℕ × Database τ :=
  let stale := staleBorrower server retentionDays db
  ((db.borrowers.filter stale).length,
    { db with
      borrowers := db.borrowers.map fun b => if stale b then anonymize server b else b
      primaryKey := by
        rw [map_id_anonymize]
        exact db.primaryKey })

/-- The `JOIN` counts each pair of an evaluation and a borrower. -/
def countStaleRiskEvaluations (db : Database τ) : ℕ :=
  (db.riskEvaluations.flatMap fun evaluation =>
    db.borrowers.filter (staleEvaluation server retentionDays db evaluation)).length

def countStaleBorrowers (db : Database τ) : ℕ :=
  ((lastActivity db).filter (staleActivity server retentionDays)).length

end Statements

structure DataRetentionResult (τ : Type) where
  runAt : τ
  eventsDeleted : ℕ
  riskEvaluationsDeleted : ℕ
  borrowersAnonymized : ℕ
  errors : List String

/-- The steps of a sweep or of a dry run, each of which can fail. -/
inductive Step where
  | events | riskEvaluations | borrowers | recordRun
  deriving DecidableEq

/-- The message a step fails with, if it does. -/
abbrev Failures := Step → Option String

section Sweep
variable {τ : Type}

/-- A step in its `try`: the number of rows, the tables and the errors so far. -/
def attempt (label : String) (failure : Option String) (statement : Database τ → ℕ × Database τ)
    (db : Database τ) (errors : List String) : ℕ × Database τ × List String :=
  match failure with
  | none => ((statement db).1,(statement db).2,errors)
  | some message => (0,db,errors ++ [label ++ ": " ++ message])

def recordRun (config : DataRetentionConfig) (result : DataRetentionResult τ) (db : Database τ) :
    Database τ :=
  { db with dataRetentionRuns := db.dataRetentionRuns ++
      [⟨result.eventsDeleted,result.riskEvaluationsDeleted,result.borrowersAnonymized,
        config.operationalRetentionDays,config.eventsRetentionDays,
        if result.errors.isEmpty then none else some result.errors⟩] }

variable [LinearOrder τ] (server : Server τ) (config : DataRetentionConfig) (failures : Failures)
  (runAt : τ)

def preview (db : Database τ) : DataRetentionResult τ :=
  let events := attempt "previewExpiredEvents" (failures .events)
    (fun db => ((db.events.filter (expired server config.eventsRetentionDays)).length,db)) db []
  let evaluations := attempt "previewStaleRiskEvaluations" (failures .riskEvaluations)
    (fun db => (countStaleRiskEvaluations server config.operationalRetentionDays db,db)) db
    events.2.2
  let borrowers := attempt "previewStaleBorrowers" (failures .borrowers)
    (fun db => (countStaleBorrowers server config.operationalRetentionDays db,db)) db
    evaluations.2.2
  ⟨runAt,events.1,evaluations.1,borrowers.1,borrowers.2.2⟩

def run (db : Database τ) : DataRetentionResult τ × Database τ :=
  let events := attempt "purgeExpiredEvents" (failures .events)
    (purgeExpiredEvents server config.eventsRetentionDays) db []
  let evaluations := attempt "purgeStaleRiskEvaluations" (failures .riskEvaluations)
    (purgeStaleRiskEvaluations server config.operationalRetentionDays) events.2.1 events.2.2
  let borrowers := attempt "anonymizeStaleBorrowers" (failures .borrowers)
    (anonymizeStaleBorrowers server config.operationalRetentionDays) evaluations.2.1
    evaluations.2.2
  let result : DataRetentionResult τ :=
    ⟨runAt,events.1,evaluations.1,borrowers.1,borrowers.2.2⟩
  let recorded := attempt "recordRun" (failures .recordRun)
    (fun db => (1,recordRun config result db)) borrowers.2.1 borrowers.2.2
  ({ result with errors := recorded.2.2 },recorded.2.1)

end Sweep

/-! ## Which borrowers are stale -/

section Stale
variable {τ : Type} {db : Database τ} {b : Borrower τ}

theorem mem_activityRows {line : Option (CreditLine τ)} {transaction : Option (Transaction τ)}
    {evaluation : Option (RiskEvaluation τ)} :
    (line,transaction,evaluation) ∈ activityRows db b ↔
      line ∈ leftJoin (db.creditLines.filter (·.borrowerId = b.id)) ∧
      transaction ∈ leftJoin
        (db.transactions.filter fun t => some t.creditLineId = line.map CreditLine.id) ∧
      evaluation ∈ leftJoin (db.riskEvaluations.filter (·.borrowerId = b.id)) := by
  unfold activityRows
  simp only [List.mem_flatMap,List.mem_map,Prod.mk.injEq]
  constructor
  · rintro ⟨l,hl,t,ht,e,he,rfl,rfl,rfl⟩
    exact ⟨hl,ht,he⟩
  · rintro ⟨hl,ht,he⟩
    exact ⟨line,hl,transaction,ht,evaluation,he,rfl,rfl,rfl⟩

theorem line_mem_activityRows {line : CreditLine τ} :
    (∃ row ∈ activityRows db b, row.1 = some line) ↔
      line ∈ db.creditLines ∧ line.borrowerId = b.id := by
  constructor
  · rintro ⟨⟨l,t,e⟩,hrow,rfl⟩
    have hl := some_mem_leftJoin.mp (mem_activityRows.mp hrow).1
    simpa using hl
  · intro h
    obtain ⟨t,ht⟩ := exists_mem_leftJoin
      (db.transactions.filter fun t => some t.creditLineId = some line.id)
    obtain ⟨e,he⟩ := exists_mem_leftJoin (db.riskEvaluations.filter (·.borrowerId = b.id))
    refine ⟨(some line,t,e),mem_activityRows.mpr ⟨?_,ht,he⟩,rfl⟩
    exact some_mem_leftJoin.mpr (by simpa using h)

theorem transaction_mem_activityRows {transaction : Transaction τ} :
    (∃ row ∈ activityRows db b, row.2.1 = some transaction) ↔
      transaction ∈ db.transactions ∧ ∃ line ∈ db.creditLines,
        line.borrowerId = b.id ∧ transaction.creditLineId = line.id := by
  constructor
  · rintro ⟨⟨l,t,e⟩,hrow,rfl⟩
    obtain ⟨hl,ht,-⟩ := mem_activityRows.mp hrow
    have ht := List.mem_filter.mp (some_mem_leftJoin.mp ht)
    cases l with
    | none => simp at ht
    | some line =>
        have hline := List.mem_filter.mp (some_mem_leftJoin.mp hl)
        simp only [Option.map_some,Option.some.injEq,decide_eq_true_eq] at ht hline
        exact ⟨ht.1,line,hline.1,hline.2,ht.2⟩
  · rintro ⟨ht,line,hline,hborrower,hid⟩
    obtain ⟨e,he⟩ := exists_mem_leftJoin (db.riskEvaluations.filter (·.borrowerId = b.id))
    refine ⟨(some line,some transaction,e),mem_activityRows.mpr ⟨?_,?_,he⟩,rfl⟩
    · exact some_mem_leftJoin.mpr (by simpa using ⟨hline,hborrower⟩)
    · exact some_mem_leftJoin.mpr (by simpa using ⟨ht,hid⟩)

theorem evaluation_mem_activityRows {evaluation : RiskEvaluation τ} :
    (∃ row ∈ activityRows db b, row.2.2 = some evaluation) ↔
      evaluation ∈ db.riskEvaluations ∧ evaluation.borrowerId = b.id := by
  constructor
  · rintro ⟨⟨l,t,e⟩,hrow,rfl⟩
    have he := some_mem_leftJoin.mp (mem_activityRows.mp hrow).2.2
    simpa using he
  · intro h
    obtain ⟨l,hl⟩ := exists_mem_leftJoin (db.creditLines.filter (·.borrowerId = b.id))
    obtain ⟨t,ht⟩ := exists_mem_leftJoin
      (db.transactions.filter fun t => some t.creditLineId = l.map CreditLine.id)
    refine ⟨(l,t,some evaluation),mem_activityRows.mpr ⟨hl,ht,?_⟩,rfl⟩
    exact some_mem_leftJoin.mpr (by simpa using h)

variable [LinearOrder τ]

/-- No line of the borrower is active, and nothing about it is as recent as `bound`. -/
structure Dormant (db : Database τ) (bound : τ) (b : Borrower τ) : Prop where
  inactive : hasActiveLine db b.id = false
  borrower : b.updatedAt < bound
  lines : ∀ line ∈ db.creditLines, line.borrowerId = b.id → line.updatedAt < bound
  transactions : ∀ t ∈ db.transactions, ∀ line ∈ db.creditLines, line.borrowerId = b.id →
    t.creditLineId = line.id → t.createdAt < bound
  evaluations : ∀ e ∈ db.riskEvaluations, e.borrowerId = b.id → e.evaluatedAt < bound

theorem hasActiveLine_activityOf :
    (activityOf db b).hasActiveLine = some true ↔ hasActiveLine db b.id = true := by
  rw [activityOf,boolOr_eq_true_iff,hasActiveLine,List.any_eq_true,List.mem_map]
  constructor
  · rintro ⟨row,hrow,hactive⟩
    obtain ⟨line,hline,hstatus⟩ := Option.map_eq_some_iff.mp hactive
    have hmem := line_mem_activityRows.mp ⟨row,hrow,hline⟩
    exact ⟨line,hmem.1,by simpa [hmem.2] using hstatus⟩
  · rintro ⟨line,hline,htest⟩
    rw [decide_eq_true_eq] at htest
    obtain ⟨row,hrow,hsome⟩ := line_mem_activityRows.mpr ⟨hline,htest.1⟩
    exact ⟨row,hrow,by simp [hsome,htest.2]⟩

theorem lastActiveAt_activityOf {bound : τ} :
    (activityOf db b).lastActiveAt < bound ↔
      b.updatedAt < bound ∧
      (∀ line, line ∈ db.creditLines ∧ line.borrowerId = b.id → line.updatedAt < bound) ∧
      (∀ t, (t ∈ db.transactions ∧ ∃ line ∈ db.creditLines,
        line.borrowerId = b.id ∧ t.creditLineId = line.id) → t.createdAt < bound) ∧
      ∀ e, e ∈ db.riskEvaluations ∧ e.borrowerId = b.id → e.evaluatedAt < bound := by
  simp only [activityOf,max_lt_iff,and_assoc]
  apply and_congr_right
  intro hb
  simp only [coalesce_column_lt_iff hb,line_mem_activityRows,transaction_mem_activityRows,
    evaluation_mem_activityRows]

theorem staleActivity_iff (server : Server τ) (retentionDays : ℤ) :
    staleActivity server retentionDays (activityOf db b) = true ↔
      Dormant db (server.daysAgo retentionDays) b := by
  rw [staleActivity,decide_eq_true_eq,lastActiveAt_activityOf,ne_eq,hasActiveLine_activityOf,
    Bool.not_eq_true]
  constructor
  · rintro ⟨hinactive,hb,hlines,htransactions,hevaluations⟩
    refine ⟨hinactive,hb,?_,?_,?_⟩
    · intro line hline hborrower
      exact hlines line ⟨hline,hborrower⟩
    · intro t ht line hline hborrower hid
      exact htransactions t ⟨ht,line,hline,hborrower,hid⟩
    · intro e he hborrower
      exact hevaluations e ⟨he,hborrower⟩
  · intro h
    refine ⟨h.inactive,h.borrower,?_,?_,?_⟩
    · rintro line ⟨hline,hborrower⟩
      exact h.lines line hline hborrower
    · rintro t ⟨ht,line,hline,hborrower,hid⟩
      exact h.transactions t ht line hline hborrower hid
    · rintro e ⟨he,hborrower⟩
      exact h.evaluations e he hborrower

omit [LinearOrder τ] in
theorem eq_of_id {a b : Borrower τ} (ha : a ∈ db.borrowers) (hb : b ∈ db.borrowers)
    (h : a.id = b.id) : a = b :=
  List.inj_on_of_nodup_map db.primaryKey ha hb h

/-- The borrowers that the update writes. -/
theorem staleBorrower_iff (server : Server τ) (retentionDays : ℤ) (hb : b ∈ db.borrowers) :
    staleBorrower server retentionDays db b = true ↔
      b.anonymizedAt = none ∧ Dormant db (server.daysAgo retentionDays) b := by
  rw [staleBorrower,List.any_eq_true]
  constructor
  · rintro ⟨activity,hactivity,htest⟩
    rw [decide_eq_true_eq] at htest
    obtain ⟨a,ha,rfl⟩ := List.mem_map.mp hactivity
    obtain ⟨ha,hnone⟩ := List.mem_filter.mp ha
    obtain rfl : b = a := eq_of_id hb ha htest.1
    exact ⟨Option.isNone_iff_eq_none.mp hnone,(staleActivity_iff server retentionDays).mp htest.2⟩
  · rintro ⟨hnone,hdormant⟩
    refine ⟨activityOf db b,List.mem_map_of_mem (List.mem_filter.mpr ⟨hb,?_⟩),?_⟩
    · exact Option.isNone_iff_eq_none.mpr hnone
    · rw [decide_eq_true_eq]
      exact ⟨rfl,(staleActivity_iff server retentionDays).mpr hdormant⟩

/-- The dry run counts the borrowers that the update would write. -/
theorem countStaleBorrowers_eq (server : Server τ) (retentionDays : ℤ) (db : Database τ) :
    countStaleBorrowers server retentionDays db =
      (db.borrowers.filter (staleBorrower server retentionDays db)).length := by
  rw [countStaleBorrowers,lastActivity,List.filter_map,List.length_map,List.filter_filter]
  congr 1
  apply List.filter_congr
  intro b hb
  rw [Bool.eq_iff_iff,staleBorrower_iff server retentionDays hb,Bool.and_eq_true,
    Option.isNone_iff_eq_none,Function.comp_apply,staleActivity_iff,and_comm]

/-- Where each evaluation has at most one borrower, counting pairs counts evaluations. -/
theorem countStaleRiskEvaluations_eq (server : Server τ) (retentionDays : ℤ) (db : Database τ) :
    countStaleRiskEvaluations server retentionDays db =
      (purgeStaleRiskEvaluations server retentionDays db).1 := by
  unfold countStaleRiskEvaluations purgeStaleRiskEvaluations
  apply length_join
  intro evaluation
  apply length_filter_key (k := evaluation.borrowerId) db.primaryKey
  intro b hstale
  rw [staleEvaluation,decide_eq_true_eq] at hstale
  exact hstale.1.symm

end Stale

/-! ## What the steps leave -/

section Steps
variable {τ : Type} [LinearOrder τ] (server : Server τ) (retentionDays : ℤ)

/-- The evaluations that are deleted: those of a borrower that are old, unless it has an active
line. -/
theorem purged_iff {db : Database τ} {e : RiskEvaluation τ} :
    db.borrowers.any (staleEvaluation server retentionDays db e) = true ↔
      e.borrowerId ∈ db.borrowers.map Borrower.id ∧ e.evaluatedAt < server.daysAgo retentionDays ∧
        hasActiveLine db e.borrowerId = false := by
  simp only [List.any_eq_true,staleEvaluation,decide_eq_true_eq,Bool.not_eq_true,List.mem_map]
  constructor
  · rintro ⟨b,hb,hid,hold,hinactive⟩
    exact ⟨⟨b,hb,hid.symm⟩,hold,hid ▸ hinactive⟩
  · rintro ⟨⟨b,hb,hid⟩,hold,hinactive⟩
    exact ⟨b,hb,hid.symm,hold,hid ▸ hinactive⟩

/-- Whatever happens to old evaluations, who is dormant stays so, and nobody else becomes it. -/
theorem dormant_congr {db db' : Database τ} {bound : τ} {b : Borrower τ}
    (hlines : db'.creditLines = db.creditLines) (htransactions : db'.transactions = db.transactions)
    (hsub : ∀ e ∈ db'.riskEvaluations, e ∈ db.riskEvaluations)
    (hold : ∀ e ∈ db.riskEvaluations, e ∉ db'.riskEvaluations → e.evaluatedAt < bound) :
    Dormant db' bound b ↔ Dormant db bound b := by
  have hactive : hasActiveLine db' b.id = hasActiveLine db b.id := by
    rw [hasActiveLine,hasActiveLine,hlines]
  constructor
  · intro h
    refine ⟨hactive ▸ h.inactive,h.borrower,hlines ▸ h.lines,?_,?_⟩
    · rw [← hlines,← htransactions]
      exact h.transactions
    · intro e he hborrower
      by_cases hkept : e ∈ db'.riskEvaluations
      · exact h.evaluations e hkept hborrower
      · exact hold e he hkept
  · intro h
    refine ⟨hactive ▸ h.inactive,h.borrower,hlines ▸ h.lines,?_,?_⟩
    · rw [hlines,htransactions]
      exact h.transactions
    · intro e he hborrower
      exact h.evaluations e (hsub e he) hborrower

/-- Purging the evaluations first does not change which borrowers are stale. -/
theorem staleBorrower_purged {db : Database τ} {b : Borrower τ} (hb : b ∈ db.borrowers) :
    staleBorrower server retentionDays (purgeStaleRiskEvaluations server retentionDays db).2 b =
      staleBorrower server retentionDays db b := by
  have hpurged : b ∈ (purgeStaleRiskEvaluations server retentionDays db).2.borrowers := hb
  rw [Bool.eq_iff_iff,staleBorrower_iff server retentionDays hpurged,
    staleBorrower_iff server retentionDays hb]
  apply and_congr_right
  intro _
  refine dormant_congr ?_ ?_ ?_ ?_
  · rfl
  · rfl
  · intro e he
    exact (List.mem_filter.mp he).1
  · intro e he hgone
    by_contra hrecent
    apply hgone
    refine List.mem_filter.mpr ⟨he,?_⟩
    rw [Bool.not_eq_true',Bool.eq_false_iff,ne_eq,purged_iff]
    intro h
    exact hrecent h.2.1

theorem anonymizeStaleBorrowers_purged (db : Database τ) :
    (anonymizeStaleBorrowers server retentionDays
        (purgeStaleRiskEvaluations server retentionDays db).2).1 =
      (anonymizeStaleBorrowers server retentionDays db).1 ∧
    (anonymizeStaleBorrowers server retentionDays
        (purgeStaleRiskEvaluations server retentionDays db).2).2.borrowers =
      (anonymizeStaleBorrowers server retentionDays db).2.borrowers := by
  constructor
  · apply congrArg List.length
    apply List.filter_congr
    intro b hb
    exact staleBorrower_purged server retentionDays hb
  · apply List.map_congr_left
    intro b hb
    have hmem : b ∈ db.borrowers := hb
    rw [staleBorrower_purged server retentionDays hmem]

/-- A statement whose condition no row meets. -/
theorem anonymizeStaleBorrowers_none {db : Database τ}
    (h : ∀ b ∈ db.borrowers, staleBorrower server retentionDays db b = false) :
    (anonymizeStaleBorrowers server retentionDays db).1 = 0 ∧
      (anonymizeStaleBorrowers server retentionDays db).2.borrowers = db.borrowers := by
  unfold anonymizeStaleBorrowers
  constructor
  · rw [List.length_eq_zero_iff,List.filter_eq_nil_iff]
    intro b hb
    rw [h b hb]
    exact Bool.false_ne_true
  · calc db.borrowers.map (fun b => if staleBorrower server retentionDays db b then
            anonymize server b else b) = db.borrowers.map id := by
          apply List.map_congr_left
          intro b hb
          rw [h b hb,if_neg Bool.false_ne_true,id]
      _ = db.borrowers := List.map_id db.borrowers

/-- Nobody with an active line is anonymised or loses an evaluation. -/
theorem staleBorrower_of_active {db : Database τ} {b : Borrower τ} (hb : b ∈ db.borrowers)
    (h : hasActiveLine db b.id = true) : staleBorrower server retentionDays db b = false := by
  rw [Bool.eq_false_iff,ne_eq,staleBorrower_iff server retentionDays hb]
  rintro ⟨-,hdormant⟩
  rw [hdormant.inactive] at h
  cases h

theorem evaluations_of_active {db : Database τ} {borrowerId : String}
    (h : hasActiveLine db borrowerId = true) :
    (purgeStaleRiskEvaluations server retentionDays db).2.riskEvaluations.filter
        (·.borrowerId = borrowerId) =
      db.riskEvaluations.filter (·.borrowerId = borrowerId) := by
  unfold purgeStaleRiskEvaluations
  rw [List.filter_filter]
  apply List.filter_congr
  intro e _
  by_cases he : e.borrowerId = borrowerId
  · have hkept : db.borrowers.any (staleEvaluation server retentionDays db e) = false := by
      rw [Bool.eq_false_iff,ne_eq,purged_iff,he,h]
      rintro ⟨-,-,hinactive⟩
      cases hinactive
    dsimp only
    rw [hkept,he]
    simp
  · simp [he]

/-- After a sweep of the borrowers none is stale. -/
theorem staleBorrower_anonymized {db db' : Database τ} {b : Borrower τ}
    (hborrowers : db'.borrowers = (anonymizeStaleBorrowers server retentionDays db).2.borrowers)
    (hlines : db'.creditLines = db.creditLines) (htransactions : db'.transactions = db.transactions)
    (hevaluations : db'.riskEvaluations = db.riskEvaluations) (hb : b ∈ db'.borrowers) :
    staleBorrower server retentionDays db' b = false := by
  rw [Bool.eq_false_iff,ne_eq,staleBorrower_iff server retentionDays hb]
  rintro ⟨hnone,hdormant⟩
  rw [hborrowers] at hb
  obtain ⟨a,ha,rfl⟩ := List.mem_map.mp hb
  by_cases hstale : staleBorrower server retentionDays db a = true
  · rw [if_pos hstale] at hnone
    cases hnone
  · rw [if_neg hstale] at hnone hdormant
    apply hstale
    rw [staleBorrower_iff server retentionDays ha]
    refine ⟨hnone,(dormant_congr hlines htransactions ?_ ?_).mp hdormant⟩
    · intro e he
      exact hevaluations ▸ he
    · intro e he hgone
      rw [hevaluations] at hgone
      exact absurd he hgone

/-- A second deletion finds nothing while the borrowers and the lines are the same. -/
theorem purgeStaleRiskEvaluations_again {db db' : Database τ}
    (hborrowers : db'.borrowers.map Borrower.id = db.borrowers.map Borrower.id)
    (hlines : db'.creditLines = db.creditLines)
    (hevaluations : db'.riskEvaluations =
      (purgeStaleRiskEvaluations server retentionDays db).2.riskEvaluations) :
    (purgeStaleRiskEvaluations server retentionDays db').1 = 0 ∧
      (purgeStaleRiskEvaluations server retentionDays db').2.riskEvaluations =
        db'.riskEvaluations := by
  have hnone : ∀ e ∈ db'.riskEvaluations,
      db'.borrowers.any (staleEvaluation server retentionDays db' e) = false := by
    intro e he
    rw [hevaluations] at he
    have hkept := (List.mem_filter.mp he).2
    rw [Bool.not_eq_true',Bool.eq_false_iff,ne_eq,purged_iff] at hkept
    rw [Bool.eq_false_iff,ne_eq,purged_iff,hborrowers]
    rintro ⟨hid,hold,hinactive⟩
    apply hkept
    rw [hasActiveLine,hlines] at hinactive
    exact ⟨hid,hold,hinactive⟩
  constructor
  · refine List.length_eq_zero_iff.mpr (List.filter_eq_nil_iff.mpr ?_)
    intro e he
    rw [hnone e he]
    exact Bool.false_ne_true
  · refine List.filter_eq_self.mpr ?_
    intro e he
    dsimp only
    rw [hnone e he]
    rfl

theorem purgeExpiredEvents_again {db db' : Database τ}
    (h : db'.events = (purgeExpiredEvents server retentionDays db).2.events) :
    (purgeExpiredEvents server retentionDays db').1 = 0 ∧
      (purgeExpiredEvents server retentionDays db').2.events = db'.events := by
  have hnone : ∀ event ∈ db'.events, expired server retentionDays event = false := by
    intro event hevent
    rw [h] at hevent
    have hkept := (List.mem_filter.mp hevent).2
    rwa [Bool.not_eq_true'] at hkept
  constructor
  · refine List.length_eq_zero_iff.mpr (List.filter_eq_nil_iff.mpr ?_)
    intro event hevent
    rw [hnone event hevent]
    exact Bool.false_ne_true
  · refine List.filter_eq_self.mpr ?_
    intro event hevent
    rw [hnone event hevent]
    rfl

end Steps

/-- No statement fails. -/
def undisturbed : Failures := fun _ => none

def DataRetentionResult.counts {τ : Type} (result : DataRetentionResult τ) : ℕ × ℕ × ℕ :=
  (result.eventsDeleted,result.riskEvaluationsDeleted,result.borrowersAnonymized)

/-- The tables a sweep works on are the same in both states. -/
structure Untouched {τ : Type} (db db' : Database τ) : Prop where
  borrowers : db'.borrowers = db.borrowers
  creditLines : db'.creditLines = db.creditLines
  transactions : db'.transactions = db.transactions
  riskEvaluations : db'.riskEvaluations = db.riskEvaluations
  events : db'.events = db.events

section Runs
variable {τ : Type} [LinearOrder τ] (server : Server τ) (config : DataRetentionConfig) (runAt : τ)
  (db : Database τ)

theorem counts_run :
    (run server config undisturbed runAt db).1.counts =
      ((purgeExpiredEvents server config.eventsRetentionDays db).1,
        (purgeStaleRiskEvaluations server config.operationalRetentionDays db).1,
        (anonymizeStaleBorrowers server config.operationalRetentionDays
          (purgeStaleRiskEvaluations server config.operationalRetentionDays db).2).1) := rfl

theorem counts_preview :
    (preview server config undisturbed runAt db).counts =
      ((purgeExpiredEvents server config.eventsRetentionDays db).1,
        countStaleRiskEvaluations server config.operationalRetentionDays db,
        countStaleBorrowers server config.operationalRetentionDays db) := rfl

theorem borrowers_run :
    (run server config undisturbed runAt db).2.borrowers =
      (anonymizeStaleBorrowers server config.operationalRetentionDays db).2.borrowers :=
  (anonymizeStaleBorrowers_purged server config.operationalRetentionDays db).2

theorem events_again :
    (purgeExpiredEvents server config.eventsRetentionDays
        (run server config undisturbed runAt db).2).1 = 0 ∧
      (purgeExpiredEvents server config.eventsRetentionDays
        (run server config undisturbed runAt db).2).2.events =
          (run server config undisturbed runAt db).2.events := by
  have hevents : (run server config undisturbed runAt db).2.events =
      (purgeExpiredEvents server config.eventsRetentionDays db).2.events := rfl
  exact purgeExpiredEvents_again server config.eventsRetentionDays hevents

theorem evaluations_again :
    (purgeStaleRiskEvaluations server config.operationalRetentionDays
        (run server config undisturbed runAt db).2).1 = 0 ∧
      (purgeStaleRiskEvaluations server config.operationalRetentionDays
        (run server config undisturbed runAt db).2).2.riskEvaluations =
          (run server config undisturbed runAt db).2.riskEvaluations := by
  have hids : (run server config undisturbed runAt db).2.borrowers.map Borrower.id =
      db.borrowers.map Borrower.id := by
    rw [borrowers_run]
    exact map_id_anonymize server _ db.borrowers
  have hlines : (run server config undisturbed runAt db).2.creditLines = db.creditLines := rfl
  have hevaluations : (run server config undisturbed runAt db).2.riskEvaluations =
      (purgeStaleRiskEvaluations server config.operationalRetentionDays db).2.riskEvaluations := rfl
  exact purgeStaleRiskEvaluations_again server config.operationalRetentionDays hids hlines
    hevaluations

theorem borrowers_again :
    (anonymizeStaleBorrowers server config.operationalRetentionDays
        (purgeStaleRiskEvaluations server config.operationalRetentionDays
          (run server config undisturbed runAt db).2).2).1 = 0 ∧
      (anonymizeStaleBorrowers server config.operationalRetentionDays
        (purgeStaleRiskEvaluations server config.operationalRetentionDays
          (run server config undisturbed runAt db).2).2).2.borrowers =
            (run server config undisturbed runAt db).2.borrowers := by
  have hborrowers : (purgeStaleRiskEvaluations server config.operationalRetentionDays
        (run server config undisturbed runAt db).2).2.borrowers =
      (anonymizeStaleBorrowers server config.operationalRetentionDays
        (purgeStaleRiskEvaluations server config.operationalRetentionDays db).2).2.borrowers := rfl
  have hevaluations := (evaluations_again server config runAt db).2
  apply anonymizeStaleBorrowers_none server config.operationalRetentionDays
  intro b hb
  exact staleBorrower_anonymized server config.operationalRetentionDays hborrowers rfl rfl
    hevaluations hb

end Runs

/-- A dry run predicts the counts of the sweep, which anonymises the borrowers that were stale
before it, takes nothing from a borrower with an active line, and leaves nothing to a second one. -/
theorem preview_predicts_run {τ : Type} [LinearOrder τ] (server : Server τ)
    (config : DataRetentionConfig) (previewedAt runAt againAt : τ) (db : Database τ) :
    (preview server config undisturbed previewedAt db).counts =
        (run server config undisturbed runAt db).1.counts ∧
    (run server config undisturbed runAt db).2.borrowers =
        (anonymizeStaleBorrowers server config.operationalRetentionDays db).2.borrowers ∧
    (∀ b ∈ db.borrowers, hasActiveLine db b.id = true →
      b ∈ (run server config undisturbed runAt db).2.borrowers ∧
      (run server config undisturbed runAt db).2.riskEvaluations.filter (·.borrowerId = b.id) =
        db.riskEvaluations.filter (·.borrowerId = b.id)) ∧
    (run server config undisturbed againAt (run server config undisturbed runAt db).2).1.counts =
        (0,0,0) ∧
    Untouched (run server config undisturbed runAt db).2
      (run server config undisturbed againAt (run server config undisturbed runAt db).2).2 := by
  refine ⟨?_,borrowers_run server config runAt db,?_,?_,?_⟩
  · rw [counts_preview,counts_run,countStaleRiskEvaluations_eq,countStaleBorrowers_eq,
      (anonymizeStaleBorrowers_purged server config.operationalRetentionDays db).1]
    rfl
  · intro b hb hactive
    have hkept := staleBorrower_of_active server config.operationalRetentionDays hb hactive
    constructor
    · rw [borrowers_run]
      refine List.mem_map.mpr ⟨b,hb,?_⟩
      rw [hkept,if_neg Bool.false_ne_true]
    · exact evaluations_of_active server config.operationalRetentionDays hactive
  · rw [counts_run,(events_again server config runAt db).1,
      (evaluations_again server config runAt db).1,(borrowers_again server config runAt db).1]
  · exact ⟨(borrowers_again server config runAt db).2,rfl,rfl,
      (evaluations_again server config runAt db).2,(events_again server config runAt db).2⟩

/-- Two borrowers with old evaluations, one of them with an active line, and two events. -/
def twoBorrowers : Database ℕ :=
  { borrowers := [⟨"b1","GA",1,none⟩,⟨"b2","GB",1,none⟩]
    creditLines := [⟨"l1","b1","active",2⟩,⟨"l2","b2","closed",2⟩]
    transactions := [⟨"t1","l2",3⟩]
    riskEvaluations := [⟨"r1","b1",4⟩,⟨"r2","b2",4⟩]
    events := [⟨"e1",1⟩,⟨"e2",9⟩]
    dataRetentionRuns := []
    primaryKey := by decide }

example :
    (run ⟨10,fun _ => 5,fun _ => []⟩ ⟨90,365⟩ undisturbed 10 twoBorrowers).1.counts = (1,1,1) := by
  decide +kernel

end Creditra.DataRetention
