import Creditra.MemoryCreditLines
import Creditra.PostgresCreditLines

/-!
# The optimistic lock on both repositories

The in-memory repository checks the caller's version on every update and always
advances it. The Postgres repository does so inside its `UPDATE`, which it only
sends when there is a column to set: a request without one is answered with the
stored line, whatever version it carries. The server can also refuse an
`UPDATE`, for a parameter it cannot read or a second open line of a borrower.
The two repositories agree exactly where none of this happens.
-/
namespace Creditra.OptimisticLocking
open CreditModels FloatNumbers InsertionMaps PostgresCreditLines
open MemoryCreditLines (Arithmetic Repository UpdateCreditLineRequest CreditLine floats isStale
  currentVersion differs patched)

/-- How an update ends, as far as versions go. -/
inductive Outcome where
  | missing
  | conflict
  | updated (version : ℤ)
  | failed
  deriving DecidableEq

section Agreement
variable {A : Arithmetic} (server : Server A) (r : Repository A) (t : Tables) (id : Uuid)
  (request : UpdateCreditLineRequest A)

def memoryOutcome : Outcome :=
  match (r.update id request).1 with
  | .ok none => .missing
  | .ok (some line) => .updated (currentVersion line)
  | .error (.versionConflict _ _ _) => .conflict
  | .error (.error _) => .failed

def postgresOutcome : Outcome :=
  match (t.update server id request).1 with
  | .ok none => .missing
  | .ok (some current) => .updated current.1.version
  | .error (.versionConflict _ _ _) => .conflict
  | .error _ => .failed

/-- Both answer null, both report a conflict, or both succeed with one version. -/
def Agree : Prop :=
  memoryOutcome r id request = .missing ∧ postgresOutcome server t id request = .missing ∨
  memoryOutcome r id request = .conflict ∧ postgresOutcome server t id request = .conflict ∨
  ∃ version, memoryOutcome r id request = .updated version ∧
    postgresOutcome server t id request = .updated version

/-- A version other than the stored one is a conflict for both and changes nothing. -/
def StaleRefused : Prop :=
  ∀ line ∈ r.creditLines.get id, isStale request line = true →
    (memoryOutcome r id request = .conflict ∧ (r.update id request).2 = r) ∧
    postgresOutcome server t id request = .conflict ∧ (t.update server id request).2 = t

/-- The two stores hold the same lines at the same versions. -/
def Mirrors : Prop :=
  ∀ id, (r.creditLines.get id).map (fun line => (currentVersion line : ℤ)) =
    (t.creditLines.get id).map CreditLineRow.version

/-- The server takes the `UPDATE` of a request: its parameters are read, and the row it is
about to write has a next version and stays the borrower's only open line. -/
def Taken : Prop :=
  Tables.readable server request = true ∧
  ∀ row ∈ t.creditLines.get id, Tables.matchesVersion request row = true →
    row.version ≠ maxInteger ∧
    ¬ (Tables.isOpen (Tables.patchRow request row) = true ∧
      t.openElsewhere id row.borrowerId = true)

/-- There is a column to set and the server takes the `UPDATE`, or there is no line. -/
def Versioned : Prop :=
  if Tables.setsColumn request then Taken server t id request else t.creditLines.get id = none

instance : Decidable (Taken server t id request) := inferInstanceAs (Decidable (_ ∧ _))

instance : Decidable (Versioned server t id request) := by
  unfold Versioned
  split <;> infer_instance

end Agreement

section Proof
variable {A : Arithmetic} {server : Server A} {r : Repository A} {t : Tables} {id : Uuid}
  {request : UpdateCreditLineRequest A}

/-- A version the server reads is compared as the runtime compares it. -/
theorem differs_eq_false_iff {expectedVersion : Value} {version : ℕ}
    (h : (readInteger expectedVersion).isSome) :
    differs expectedVersion version = false ↔ readInteger expectedVersion = some (version : ℤ) := by
  cases expectedVersion with
  | finite x =>
      rw [readInteger_finite] at h ⊢
      split at h
      · rename_i hwhole
        rw [if_pos hwhole]
        have hx : x.1 = x.1.num := ((Rat.den_eq_one_iff _).mp hwhole.1).symm
        simp only [differs,ne_eq,decide_not,Bool.not_eq_false',decide_eq_true_eq,
          Option.some.injEq]
        constructor
        · intro he
          rw [he]
          rfl
        · intro he
          rw [hx,he]
          rfl
      · cases h
  | infinite negative => cases h
  | nan => cases h

/-! ## In memory -/

theorem memory_missing (h : r.creditLines.get id = none) :
    memoryOutcome r id request = .missing := by
  unfold memoryOutcome Repository.update
  rw [h]

theorem memory_fresh {line : CreditLine A} (h : r.creditLines.get id = some line)
    (hf : isStale request line = false) :
    memoryOutcome r id request = .updated (currentVersion line + 1) := by
  unfold memoryOutcome
  rw [Repository.update_fresh h hf]
  rfl

theorem memory_stale {line : CreditLine A} (h : r.creditLines.get id = some line)
    (hs : isStale request line = true) :
    memoryOutcome r id request = .conflict ∧ (r.update id request).2 = r := by
  unfold memoryOutcome Repository.update
  unfold isStale at hs
  rw [h]
  dsimp only
  cases he : request.expectedVersion with
  | none =>
      rw [he] at hs
      cases hs
  | some expectedVersion =>
      rw [he] at hs
      dsimp only at hs ⊢
      rw [hs,if_pos rfl]
      exact ⟨rfl,rfl⟩

/-! ## On Postgres -/

theorem findById_of_get (hc : Consistent t) {row : CreditLineRow}
    (h : t.creditLines.get id = some row) : ∃ wallet, t.findById id = some (row,wallet) := by
  obtain ⟨wallet,hw⟩ := Option.isSome_iff_exists.mp (hc.borrower id row h)
  refine ⟨wallet,?_⟩
  unfold Tables.findById
  rw [h,Option.bind_some,hw,Option.map_some]

/-- Without a column to set the stored line is answered. -/
theorem postgres_unset (hc : Consistent t) (hset : Tables.setsColumn request = false) :
    postgresOutcome server t id request =
      match t.creditLines.get id with
      | none => .missing
      | some row => .updated row.version := by
  unfold postgresOutcome Tables.update
  rw [hset,if_neg Bool.false_ne_true]
  dsimp only
  cases h : t.creditLines.get id with
  | none =>
      unfold Tables.findById
      rw [h]
      rfl
  | some row =>
      obtain ⟨wallet,hfind⟩ := findById_of_get hc h
      rw [hfind]

theorem postgres_refused (hset : Tables.setsColumn request = true) {e : SqlError}
    (h : t.updateLine server id request = .error e) :
    postgresOutcome server t id request = .failed := by
  unfold postgresOutcome Tables.update
  rw [hset,if_pos rfl,h]

theorem updateLine_unreadable (h : Tables.readable server request = false) :
    t.updateLine server id request = .error .invalidParameter := by
  unfold Tables.updateLine
  rw [h,if_neg Bool.false_ne_true]

theorem postgres_missing (hset : Tables.setsColumn request = true)
    (hread : Tables.readable server request = true) (h : t.creditLines.get id = none) :
    postgresOutcome server t id request = .missing := by
  unfold postgresOutcome Tables.update Tables.updateLine
  rw [hset,if_pos rfl,hread,if_pos rfl,h]
  dsimp only
  cases request.expectedVersion with
  | none => rfl
  | some expectedVersion =>
      dsimp only
      rw [h]
      rfl

theorem postgres_written (hc : Consistent t) (hset : Tables.setsColumn request = true)
    (hread : Tables.readable server request = true) {row : CreditLineRow}
    (h : t.creditLines.get id = some row) (hm : Tables.matchesVersion request row = true)
    (hv : row.version ≠ maxInteger)
    (ho : ¬ (Tables.isOpen (Tables.patchRow request row) = true ∧
      t.openElsewhere id row.borrowerId = true)) :
    postgresOutcome server t id request = .updated (row.version + 1) := by
  obtain ⟨wallet,hw⟩ := Option.isSome_iff_exists.mp (hc.borrower id row h)
  unfold postgresOutcome Tables.update Tables.updateLine
  rw [hset,if_pos rfl,hread,if_pos rfl,h]
  dsimp only
  rw [hm,if_pos rfl,if_neg hv,if_neg ho]
  dsimp only [Tables.findById]
  rw [InsertionMap.get_set_self,Option.bind_some]
  dsimp only [Tables.patchRow]
  rw [hw]
  rfl

theorem postgres_conflict (hset : Tables.setsColumn request = true)
    (hread : Tables.readable server request = true) {row : CreditLineRow}
    (h : t.creditLines.get id = some row) (hm : Tables.matchesVersion request row = false) :
    postgresOutcome server t id request = .conflict ∧ (t.update server id request).2 = t := by
  unfold postgresOutcome Tables.update Tables.updateLine
  rw [hset,if_pos rfl,hread,if_pos rfl,h]
  dsimp only
  rw [hm,if_neg Bool.false_ne_true]
  dsimp only
  cases he : request.expectedVersion with
  | none =>
      unfold Tables.matchesVersion at hm
      rw [he] at hm
      cases hm
  | some expectedVersion =>
      dsimp only
      rw [h]
      exact ⟨rfl,rfl⟩

/-- The two tests of the caller's version agree. -/
theorem isStale_iff (hread : Tables.readable server request = true) {line : CreditLine A}
    {row : CreditLineRow} (hv : (currentVersion line : ℤ) = row.version) :
    isStale request line = true ↔ Tables.matchesVersion request row = false := by
  unfold isStale Tables.matchesVersion
  cases he : request.expectedVersion with
  | none => simp
  | some expectedVersion =>
      have hsome : (readInteger expectedVersion).isSome := by
        unfold Tables.readable at hread
        rw [he,Bool.and_eq_true] at hread
        exact hread.2
      dsimp only
      rw [decide_eq_false_iff_not,← hv,← differs_eq_false_iff hsome,Bool.not_eq_false]

theorem mirror_some (hm : Mirrors r t) {row : CreditLineRow}
    (h : t.creditLines.get id = some row) :
    ∃ line, r.creditLines.get id = some line ∧ (currentVersion line : ℤ) = row.version := by
  have hid := hm id
  rw [h,Option.map_some] at hid
  obtain ⟨line,hl,hv⟩ := Option.map_eq_some_iff.mp hid
  exact ⟨line,hl,hv⟩

theorem mirror_none (hm : Mirrors r t) (h : t.creditLines.get id = none) :
    r.creditLines.get id = none := by
  have hid := hm id
  rw [h,Option.map_none] at hid
  exact Option.map_eq_none_iff.mp hid

theorem not_agree_of_failed (h : postgresOutcome server t id request = .failed) :
    ¬ Agree server r t id request := by
  intro ha
  unfold Agree at ha
  rw [h] at ha
  rcases ha with ⟨-,hp⟩ | ⟨-,hp⟩ | ⟨v,-,hp⟩
  · cases hp
  · cases hp
  · cases hp

/-- Without a column to set, the repositories differ on every stored line. -/
theorem not_agree_of_unset (hm : Mirrors r t) (hc : Consistent t)
    (hset : Tables.setsColumn request = false) {row : CreditLineRow}
    (h : t.creditLines.get id = some row) : ¬ Agree server r t id request := by
  obtain ⟨line,hl,hv⟩ := mirror_some hm h
  intro ha
  unfold Agree at ha
  rw [postgres_unset hc hset,h] at ha
  rcases ha with ⟨-,hp⟩ | ⟨-,hp⟩ | ⟨v,hmem,hp⟩
  · cases hp
  · cases hp
  · have hstored : v = row.version := (Outcome.updated.inj hp).symm
    cases hs : isStale request line with
    | false =>
        rw [memory_fresh hl hs] at hmem
        have hnext := Outcome.updated.inj hmem
        omega
    | true =>
        rw [(memory_stale hl hs).1] at hmem
        cases hmem

theorem agree_of_taken (hm : Mirrors r t) (hc : Consistent t)
    (hset : Tables.setsColumn request = true) (h : Taken server t id request) :
    Agree server r t id request ∧ StaleRefused server r t id request := by
  obtain ⟨hread,hrow⟩ := h
  cases hget : t.creditLines.get id with
  | none =>
      have hmem := mirror_none hm hget
      refine ⟨.inl ⟨memory_missing hmem,postgres_missing hset hread hget⟩,?_⟩
      intro line hl
      rw [hmem] at hl
      cases hl
  | some row =>
      obtain ⟨line,hl,hv⟩ := mirror_some hm hget
      have hstale := isStale_iff hread hv
      cases hmatch : Tables.matchesVersion request row with
      | true =>
          have hfresh : isStale request line = false := by
            rw [hmatch,Bool.true_eq_false,iff_false,Bool.not_eq_true] at hstale
            exact hstale
          obtain ⟨hmax,hopen⟩ := hrow row hget hmatch
          have hpg := postgres_written hc hset hread hget hmatch hmax hopen
          refine ⟨.inr (.inr ⟨row.version + 1,?_,hpg⟩),?_⟩
          · rw [memory_fresh hl hfresh,hv]
          · intro line' hl' hs
            rw [hl] at hl'
            cases hl'
            rw [hfresh] at hs
            cases hs
      | false =>
          have hs := hstale.mpr hmatch
          have hmem := memory_stale hl hs
          have hpg := postgres_conflict hset hread hget hmatch
          refine ⟨.inr (.inl ⟨hmem.1,hpg.1⟩),?_⟩
          intro line' hl' _
          exact ⟨hmem,hpg⟩

/-- A refused `UPDATE` is an outcome the in-memory repository does not have. -/
theorem taken_of_agree (hset : Tables.setsColumn request = true)
    (h : Agree server r t id request) : Taken server t id request := by
  have hno : ∀ e, t.updateLine server id request ≠ .error e := by
    intro e he
    exact not_agree_of_failed (postgres_refused hset he) h
  have hread : Tables.readable server request = true := by
    by_contra hunread
    rw [Bool.not_eq_true] at hunread
    exact hno _ (updateLine_unreadable hunread)
  refine ⟨hread,?_⟩
  intro row hget hmatch
  have heq : t.updateLine server id request =
      if row.version = maxInteger then .error .outOfRange
      else if Tables.isOpen (Tables.patchRow request row) ∧ t.openElsewhere id row.borrowerId then
        .error .uniqueViolation
      else .ok (true,{ t with
        creditLines := t.creditLines.set id (Tables.patchRow request row) }) := by
    unfold Tables.updateLine
    rw [hread,if_pos rfl,Option.mem_def.mp hget]
    dsimp only
    rw [hmatch,if_pos rfl]
  constructor
  · intro hmax
    rw [if_pos hmax] at heq
    exact hno _ heq
  · intro hopen
    by_cases hmax : row.version = maxInteger
    · rw [if_pos hmax] at heq
      exact hno _ heq
    · rw [if_neg hmax,if_pos hopen] at heq
      exact hno _ heq

/-- On mirrored stores the repositories agree on a request exactly when it sets a column and the
server takes its `UPDATE`, or neither holds the line. -/
theorem locking_agrees_iff (hm : Mirrors r t) (hc : Consistent t) :
    Agree server r t id request ∧ StaleRefused server r t id request ↔
      Versioned server t id request := by
  unfold Versioned
  cases hset : Tables.setsColumn request with
  | false =>
      rw [if_neg Bool.false_ne_true]
      cases hget : t.creditLines.get id with
      | none =>
          have hmem := mirror_none hm hget
          refine iff_of_true ⟨.inl ⟨memory_missing hmem,?_⟩,?_⟩ rfl
          · rw [postgres_unset hc hset,hget]
          · intro line hl
            rw [hmem] at hl
            cases hl
      | some row =>
          refine iff_of_false ?_ (Option.some_ne_none row)
          intro h
          exact not_agree_of_unset hm hc hset hget h.1
  | true =>
      rw [if_pos rfl]
      constructor
      · intro h
        exact taken_of_agree hset h.1
      · exact agree_of_taken hm hc hset

end Proof

/-! ## One stored line -/

/-- The line of one wallet in memory, at its first version. -/
def oneLine : Repository floats := ((Repository.empty floats).create ⟨"GA","100",.zero⟩).2

/-- The same line in the tables. -/
def oneRow : Tables :=
  ⟨InsertionMap.empty.set 1 "GA",InsertionMap.empty.set 0 ⟨1,.active,1⟩,[],2⟩

theorem mirrors_oneRow : Mirrors oneLine oneRow := by
  intro id
  by_cases hid : id = 0
  · subst hid
    rfl
  · unfold oneLine oneRow Repository.create Repository.empty
    dsimp only
    rw [InsertionMap.get_set_of_ne _ hid,InsertionMap.get_set_of_ne _ hid]
    rfl

theorem consistent_oneRow : Consistent oneRow := by
  constructor
  · intro id row h
    obtain ⟨-,rfl⟩ := InsertionMap.get_singleton h
    rfl
  · intro id id' wallet wallet' h h' _ _ _
    exact (InsertionMap.get_singleton h).1.trans (InsertionMap.get_singleton h').1.symm
  · intro id id' row row' h h' _ _ _
    exact (InsertionMap.get_singleton h).1.trans (InsertionMap.get_singleton h').1.symm
  · intro id row h
    rw [(InsertionMap.get_singleton h).1]
    decide
  · intro id wallet h
    rw [(InsertionMap.get_singleton h).1]
    decide

/-- A limit and a rate under the stored version. -/
def currentPatch : UpdateCreditLineRequest floats :=
  { creditLimit := some "200", interestRateBps := some (.round 300)
    expectedVersion := some .one }

theorem locking_agrees_currentPatch :
    Versioned anyText oneRow 0 currentPatch ∧
      Agree anyText oneLine oneRow 0 currentPatch ∧
        StaleRefused anyText oneLine oneRow 0 currentPatch := by
  have h : Versioned anyText oneRow 0 currentPatch := by decide +kernel
  exact ⟨h,(locking_agrees_iff mirrors_oneRow consistent_oneRow).mpr h⟩

/-- A balance alone, under a version that is not the stored one. -/
def staleBalance : UpdateCreditLineRequest floats :=
  { utilized := some "50", expectedVersion := some (.round 7) }

theorem staleBalance_disagrees :
    Mirrors oneLine oneRow ∧ Consistent oneRow ∧
      memoryOutcome oneLine 0 staleBalance = .conflict ∧
      postgresOutcome anyText oneRow 0 staleBalance = .updated 1 ∧
      ¬ (Agree anyText oneLine oneRow 0 staleBalance ∧
        StaleRefused anyText oneLine oneRow 0 staleBalance) := by
  refine ⟨mirrors_oneRow,consistent_oneRow,by decide +kernel,by decide +kernel,?_⟩
  intro h
  exact not_agree_of_unset mirrors_oneRow consistent_oneRow rfl rfl h.1

end Creditra.OptimisticLocking
