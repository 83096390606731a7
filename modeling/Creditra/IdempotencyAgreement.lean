import Creditra.GuardedRuns
import Creditra.PostgresIdempotency

/-!
# The two idempotency stores side by side

One trace of calls on `InMemoryIdempotencyStore` and on
`PostgresIdempotencyStore`, with the same clock. Tokens are numbered in the order
in which they are handed out, so that a call addresses the same claim in both.
Each store is read as a map from tokens to what the token holds.

The stores drift apart in four ways. Completing a record starts its lifetime
anew in memory and not in the table; completing it again overwrites the row only;
failing a completed one removes the record only; and the joined cache key takes
some keys for the same that the unique index tells apart. Until the lifetime of
a claim is over, a trace without these keeps its record and its row alike, and
that is all a `begin` looks at.
-/
namespace Creditra.IdempotencyAgreement
open GuardedRuns IdempotencyStore InsertionMaps JsonValues PostgresIdempotency

/-! ## Records by token -/

section Records
variable {s : InMemoryIdempotencyStore}

/-- The record that a token holds. -/
def recordOf (s : InMemoryIdempotencyStore) (t : Token) : Option MemoryRecord :=
  (s.tokens.get t).bind s.records.get

theorem tokens_get (h : s.WellFormed) {t : Token} {k : String} :
    s.tokens.get t = some k ↔ ∃ r, s.records.get k = some r ∧ r.token = t := by
  rw [h.registered t k]
  exact Option.map_eq_some_iff

theorem recordOf_eq_some (h : s.WellFormed) {t : Token} {r : MemoryRecord} :
    recordOf s t = some r ↔ ∃ k, s.records.get k = some r ∧ r.token = t := by
  unfold recordOf
  rw [Option.bind_eq_some_iff]
  constructor
  · rintro ⟨k,hk,hr⟩
    obtain ⟨r',hr',ht⟩ := (tokens_get h).mp hk
    rw [hr,Option.some.injEq] at hr'
    exact ⟨k,hr,hr' ▸ ht⟩
  · rintro ⟨k,hr,ht⟩
    exact ⟨k,(tokens_get h).mpr ⟨r,hr,ht⟩,hr⟩

theorem get_pruneLoop (now : ℤ) (es : List (String × MemoryRecord)) (s : InMemoryIdempotencyStore)
    (k : String) :
    (es.foldl (InMemoryIdempotencyStore.pruneEntry now) s).records.get k =
      if ∃ e ∈ es, e.1 = k ∧ e.2.expiresAt ≤ now then none else s.records.get k := by
  induction es generalizing s with
  | nil => simp
  | cons e es ih =>
      rw [List.foldl_cons,ih]
      unfold InMemoryIdempotencyStore.pruneEntry
      by_cases hlater : ∃ e ∈ es, e.1 = k ∧ e.2.expiresAt ≤ now
      · obtain ⟨e',he',hk⟩ := hlater
        rw [if_pos ⟨e',he',hk⟩,if_pos ⟨e',List.mem_cons_of_mem e he',hk⟩]
      · rw [if_neg hlater]
        by_cases hexpired : e.2.expiresAt ≤ now
        · rw [if_pos hexpired]
          by_cases hk : e.1 = k
          · rw [if_pos ⟨e,List.mem_cons_self,hk,hexpired⟩,← hk]
            exact InsertionMap.get_delete_self ..
          · rw [if_neg]
            · exact InsertionMap.get_delete_of_ne _ (Ne.symm hk)
            · rintro ⟨e',he',hk',hold⟩
              cases List.mem_cons.mp he' with
              | inl hself => exact hk (hself ▸ hk')
              | inr htail => exact hlater ⟨e',htail,hk',hold⟩
        · rw [if_neg hexpired,if_neg]
          rintro ⟨e',he',hk',hold⟩
          cases List.mem_cons.mp he' with
          | inl hself => exact hexpired (hself ▸ hold)
          | inr htail => exact hlater ⟨e',htail,hk',hold⟩

theorem get_pruneExpired (s : InMemoryIdempotencyStore) (now : ℤ) (k : String) :
    (s.pruneExpired now).records.get k = (s.records.get k).filter (now < ·.expiresAt) := by
  unfold InMemoryIdempotencyStore.pruneExpired
  rw [get_pruneLoop]
  cases hget : s.records.get k with
  | none => exact ite_self none
  | some r =>
      have hmem := InsertionMap.get_eq_some.mp hget
      by_cases hlive : now < r.expiresAt
      · rw [if_neg]
        · simp [Option.filter,hlive]
        · rintro ⟨e,he,hk,hold⟩
          have hsame := InsertionMap.get_eq_some.mpr he
          rw [hk,hget,Option.some.injEq] at hsame
          rw [← hsame] at hold
          omega
      · rw [if_pos ⟨(k,r),hmem,rfl,Int.not_lt.mp hlive⟩]
        simp [Option.filter,hlive]

theorem recordOf_pruneExpired (h : s.WellFormed) (now : ℤ) (t : Token) :
    recordOf (s.pruneExpired now) t = (recordOf s t).filter (now < ·.expiresAt) := by
  apply Option.ext
  intro r
  rw [recordOf_eq_some (h.pruneExpired now).1,Option.filter_eq_some_iff,recordOf_eq_some h]
  constructor
  · rintro ⟨k,hr,ht⟩
    rw [get_pruneExpired,Option.filter_eq_some_iff] at hr
    exact ⟨⟨k,hr.1,ht⟩,hr.2⟩
  · rintro ⟨⟨k,hr,ht⟩,hlive⟩
    refine ⟨k,?_,ht⟩
    rw [get_pruneExpired,Option.filter_eq_some_iff]
    exact ⟨hr,hlive⟩

/-- A new claim holds its record, and takes nothing from the others. -/
theorem recordOf_claim (h : s.WellFormed) {entry : IdempotencyEntry}
    (hfree : s.records.get (cacheKey entry) = none) (claimAt : ℤ) (t : Token) :
    recordOf (s.claim entry claimAt) t =
      if t = s.nextToken then some ⟨s.nextToken,entry.requestHash,claimAt + s.ttlMs,.pending⟩
      else recordOf s t := by
  have hholder : s.holder (cacheKey entry) = none := by
    simp [InMemoryIdempotencyStore.holder,hfree]
  have hwf := h.claim hholder claimAt
  by_cases ht : t = s.nextToken
  · rw [if_pos ht,recordOf_eq_some hwf]
    exact ⟨cacheKey entry,InsertionMap.get_set_self ..,ht.symm⟩
  · rw [if_neg ht]
    apply Option.ext
    intro r
    rw [recordOf_eq_some hwf,recordOf_eq_some h]
    constructor
    · rintro ⟨k,hr,hrt⟩
      by_cases hk : k = cacheKey entry
      · subst hk
        rw [InMemoryIdempotencyStore.claim,InsertionMap.get_set_self,Option.some.injEq] at hr
        subst hr
        exact absurd hrt.symm ht
      · exact ⟨k,(InsertionMap.get_set_of_ne _ hk _).symm.trans hr,hrt⟩
    · rintro ⟨k,hr,hrt⟩
      have hk : k ≠ cacheKey entry := by
        intro heq
        rw [heq,hfree] at hr
        cases hr
      exact ⟨k,(InsertionMap.get_set_of_ne _ hk _).trans hr,hrt⟩

/-- A record of the token is stored under its key only. -/
theorem token_eq_iff (h : s.WellFormed) {t : Token} {key k : String} {r : MemoryRecord}
    (hkey : s.tokens.get t = some key) (hr : s.records.get k = some r) : r.token = t ↔ k = key := by
  constructor
  · intro ht
    have hk := (tokens_get h).mpr ⟨r,hr,ht⟩
    rw [hkey,Option.some.injEq] at hk
    exact hk.symm
  · intro hk
    obtain ⟨r',hr',ht⟩ := (tokens_get h).mp hkey
    rw [← hk,hr,Option.some.injEq] at hr'
    exact hr' ▸ ht

theorem token_ne_of_unused (h : s.WellFormed) {t : Token} {k : String} {r : MemoryRecord}
    (hkey : s.tokens.get t = none) (hr : s.records.get k = some r) : r.token ≠ t := by
  intro ht
  rw [(tokens_get h).mpr ⟨r,hr,ht⟩] at hkey
  cases hkey

/-- What `complete` makes of the record of its token. -/
def finished (response : CachedIdempotencyResponse) (expiresAt : ℤ) (r : MemoryRecord) :
    MemoryRecord :=
  match r.state with
  | .pending => ⟨r.token,r.requestHash,expiresAt,.completed response⟩
  | .completed _ => r

theorem finished_token (response : CachedIdempotencyResponse) (expiresAt : ℤ) (r : MemoryRecord) :
    (finished response expiresAt r).token = r.token := by
  unfold finished
  split <;> rfl

theorem get_complete (h : s.WellFormed) (t : Token) (response : CachedIdempotencyResponse)
    (now : ℤ) (k : String) :
    (s.complete t response now).records.get k = (s.records.get k).map fun r =>
      if r.token = t then finished response (now + s.ttlMs) r else r := by
  unfold InMemoryIdempotencyStore.complete
  cases hkey : s.tokens.get t with
  | none =>
      cases hr : s.records.get k with
      | none => rfl
      | some r =>
          have ht := token_ne_of_unused h hkey hr
          simp [ht]
  | some key =>
      obtain ⟨record,hrecord,htoken⟩ := (tokens_get h).mp hkey
      simp only [hrecord]
      by_cases hk : k = key
      · subst hk
        rw [hrecord,Option.map_some,if_pos htoken]
        unfold finished
        cases hstate : record.state with
        | pending => simp [htoken]
        | completed earlier => exact hrecord
      · have hsame : (s.records.get k).map (fun r =>
            if r.token = t then finished response (now + s.ttlMs) r else r) = s.records.get k := by
          cases hr : s.records.get k with
          | none => rfl
          | some r =>
              have ht : r.token ≠ t := fun ht => hk ((token_eq_iff h hkey hr).mp ht)
              simp [ht]
        rw [hsame]
        cases hstate : record.state with
        | pending => simp [InsertionMap.get_set_of_ne _ hk]
        | completed earlier => rfl

theorem recordOf_complete (h : s.WellFormed) (t : Token) (response : CachedIdempotencyResponse)
    (now : ℤ) (t' : Token) :
    recordOf (s.complete t response now) t' = (recordOf s t').map fun r =>
      if r.token = t then finished response (now + s.ttlMs) r else r := by
  have htoken : ∀ r : MemoryRecord,
      (if r.token = t then finished response (now + s.ttlMs) r else r).token = r.token := by
    intro r
    split
    · exact finished_token ..
    · rfl
  apply Option.ext
  intro r
  rw [recordOf_eq_some (h.complete t response now).1,Option.map_eq_some_iff]
  constructor
  · rintro ⟨k,hr,ht⟩
    rw [get_complete h,Option.map_eq_some_iff] at hr
    obtain ⟨r₀,hr₀,heq⟩ := hr
    rw [← heq,htoken] at ht
    exact ⟨r₀,(recordOf_eq_some h).mpr ⟨k,hr₀,ht⟩,heq⟩
  · rintro ⟨r₀,hr₀,heq⟩
    obtain ⟨k,hk,ht⟩ := (recordOf_eq_some h).mp hr₀
    refine ⟨k,?_,?_⟩
    · rw [get_complete h,hk,Option.map_some,heq]
    · rw [← heq,htoken,ht]

theorem get_fail (h : s.WellFormed) (t : Token) (k : String) :
    (s.fail t).records.get k = (s.records.get k).filter (·.token ≠ t) := by
  unfold InMemoryIdempotencyStore.fail
  cases hkey : s.tokens.get t with
  | none =>
      cases hr : s.records.get k with
      | none => rfl
      | some r =>
          have ht := token_ne_of_unused h hkey hr
          simp [ht,Option.filter]
  | some key =>
      obtain ⟨record,hrecord,htoken⟩ := (tokens_get h).mp hkey
      have hdeleted : (s.records.delete key).get k = (s.records.get k).filter (·.token ≠ t) := by
        by_cases hk : k = key
        · subst hk
          simp [hrecord,htoken,Option.filter]
        · rw [InsertionMap.get_delete_of_ne _ hk]
          cases hr : s.records.get k with
          | none => rfl
          | some r =>
              have ht : r.token ≠ t := fun ht => hk ((token_eq_iff h hkey hr).mp ht)
              simp [ht,Option.filter]
      simp only [hrecord]
      cases hstate : record.state with
      | pending => simp only [InMemoryIdempotencyStore.settle_records,hdeleted]
      | completed earlier => exact hdeleted

theorem recordOf_fail (h : s.WellFormed) (t t' : Token) :
    recordOf (s.fail t) t' = (recordOf s t').filter (·.token ≠ t) := by
  apply Option.ext
  intro r
  rw [recordOf_eq_some (h.fail t).1,Option.filter_eq_some_iff,recordOf_eq_some h]
  constructor
  · rintro ⟨k,hr,ht⟩
    rw [get_fail h,Option.filter_eq_some_iff] at hr
    exact ⟨⟨k,hr.1,ht⟩,hr.2⟩
  · rintro ⟨⟨k,hr,ht⟩,hne⟩
    refine ⟨k,?_,ht⟩
    rw [get_fail h,Option.filter_eq_some_iff]
    exact ⟨hr,hne⟩

theorem ttlMs_pruneExpired (s : InMemoryIdempotencyStore) (now : ℤ) :
    (s.pruneExpired now).ttlMs = s.ttlMs := by
  have hloop : ∀ (es : List (String × MemoryRecord)) (s : InMemoryIdempotencyStore),
      (es.foldl (InMemoryIdempotencyStore.pruneEntry now) s).ttlMs = s.ttlMs := by
    intro es
    induction es with
    | nil =>
        intro s
        rfl
    | cons e es ih =>
        intro s
        rw [List.foldl_cons,ih]
        unfold InMemoryIdempotencyStore.pruneEntry
        split <;> rfl
  exact hloop s.records.entries s

theorem ttlMs_settle (s : InMemoryIdempotencyStore) (p : Token)
    (o : Option CachedIdempotencyResponse) : (s.settle p o).ttlMs = s.ttlMs := by
  unfold InMemoryIdempotencyStore.settle
  split <;> rfl

theorem ttlMs_complete (s : InMemoryIdempotencyStore) (t : Token)
    (response : CachedIdempotencyResponse) (now : ℤ) :
    (s.complete t response now).ttlMs = s.ttlMs := by
  unfold InMemoryIdempotencyStore.complete
  split
  · rfl
  · split
    · rfl
    · split
      · rfl
      · exact ttlMs_settle ..

theorem ttlMs_fail (s : InMemoryIdempotencyStore) (t : Token) : (s.fail t).ttlMs = s.ttlMs := by
  unfold InMemoryIdempotencyStore.fail
  split
  · rfl
  · dsimp only
    split
    · rfl
    · split
      · rfl
      · exact ttlMs_settle ..

end Records

/-! ## Both stores in one trace -/

/-- Responses that send the same status and the same members. -/
def Same (r r' : CachedIdempotencyResponse) : Prop :=
  r.statusCode = r'.statusCode ∧ stableStringify r.body = stableStringify r'.body

instance (r r' : CachedIdempotencyResponse) : Decidable (Same r r') :=
  inferInstanceAs (Decidable (_ ∧ _))

theorem Same.symm {r r' : CachedIdempotencyResponse} (h : Same r r') : Same r' r :=
  ⟨h.1.symm,h.2.symm⟩

theorem Same.trans {r r' r'' : CachedIdempotencyResponse} (h : Same r r') (h' : Same r' r'') :
    Same r r'' :=
  ⟨h.1.trans h'.1,h.2.trans h'.2⟩

/-- Outcomes of one `begin` in the two stores, the tokens by their number. -/
def Agrees : IdempotencyBeginResult → Option IdempotencyBeginResult → Prop
  | .started token, some (.started token') => token = token'
  | .replay response, some (.replay response') => Same response response'
  | .pending _, some .inProgress => True
  | .conflict, some .conflict => True
  | _, _ => False

instance (o : IdempotencyBeginResult) (o' : Option IdempotencyBeginResult) :
    Decidable (Agrees o o') := by
  unfold Agrees
  split <;> infer_instance

/-- The two stores, what each token was handed out for and when, the clock and the outcomes of
every `begin` so far. -/
structure Pair where
  memory : InMemoryIdempotencyStore
  postgres : PostgresIdempotencyStore
  claims : List (IdempotencyEntry × ℤ) := []
  clock : ℤ
  outcomes : List (IdempotencyBeginResult × Option IdempotencyBeginResult) := []

/-- Two empty stores. -/
def Pair.start (ttlMs clock : ℤ) : Pair := ⟨{ ttlMs },{ ttlMs },[],clock,[]⟩

inductive Call where
  | begin (entry : IdempotencyEntry) (pruneAt claimAt : ℤ)
  | complete (token : Token) (response : CachedIdempotencyResponse) (now : ℤ)
  | fail (token : Token) (now : ℤ)

def claimsAfter (entry : IdempotencyEntry) (claimAt : ℤ) (claims : List (IdempotencyEntry × ℤ)) :
    IdempotencyBeginResult → List (IdempotencyEntry × ℤ)
  | .started _ => claims ++ [(entry,claimAt)]
  | _ => claims

def Pair.step (server : Server) (s : Pair) : Call → Pair
  | .begin entry pruneAt claimAt =>
      let memory := s.memory.begin entry pruneAt claimAt
      let postgres := s.postgres.begin server entry pruneAt claimAt
      ⟨memory.2,postgres.2,claimsAfter entry claimAt s.claims memory.1,claimAt,
        s.outcomes ++ [(memory.1,postgres.1)]⟩
  | .complete token response now =>
      { s with
        memory := s.memory.complete token response now
        postgres := s.postgres.complete server token response
        clock := now }
  | .fail token now =>
      { s with memory := s.memory.fail token, postgres := s.postgres.fail token, clock := now }

/-- The clock does not run backwards. -/
def OnTime (s : Pair) : Call → Prop
  | .begin _ pruneAt claimAt => s.clock ≤ pruneAt ∧ pruneAt ≤ claimAt
  | .complete _ _ now => s.clock ≤ now
  | .fail _ now => s.clock ≤ now

/-- A completed record is given the response it has, a pending one a response that the table
takes. -/
def Answerable (server : Server) (response : CachedIdempotencyResponse) : RecordState → Prop
  | .pending => (server.stored response).isSome
  | .completed earlier => Same response earlier

/-- A record that `begin` finds alive was claimed under the same key, scope and principal, less
than a lifetime ago. As long as its claim is less than a lifetime old, a token completes and fails
only a pending record, or completes it again with the same response. -/
def Aligned (server : Server) (s : Pair) : Call → Prop
  | .begin entry pruneAt _ => server.reads entry = true ∧
      ∀ record ∈ s.memory.records.get (cacheKey entry), pruneAt < record.expiresAt →
      ∃ claim ∈ s.claims[record.token]?, scopeKey claim.1 = scopeKey entry ∧
        pruneAt < claim.2 + s.memory.ttlMs
  | .complete token response now =>
      ∀ claim ∈ s.claims[token]?, now < claim.2 + s.memory.ttlMs →
      ∀ record ∈ recordOf s.memory token, Answerable server response record.state
  | .fail token now =>
      ∀ claim ∈ s.claims[token]?, now < claim.2 + s.memory.ttlMs →
      ∀ record ∈ recordOf s.memory token, record.state = .pending

instance {server : Server} {response : CachedIdempotencyResponse} :
    (state : RecordState) → Decidable (Answerable server response state)
  | .pending => inferInstanceAs (Decidable (_ = true))
  | .completed _ => inferInstanceAs (Decidable (Same _ _))

instance : (state : RecordState) → Decidable (state = .pending)
  | .pending => isTrue rfl
  | .completed _ => isFalse (by intro h; cases h)

instance {s : Pair} : (call : Call) → Decidable (OnTime s call)
  | .begin _ _ _ => inferInstanceAs (Decidable (_ ∧ _))
  | .complete _ _ _ => inferInstanceAs (Decidable (_ ≤ _))
  | .fail _ _ => inferInstanceAs (Decidable (_ ≤ _))

instance {server : Server} {s : Pair} : (call : Call) → Decidable (Aligned server s call)
  | .begin entry pruneAt _ => inferInstanceAs (Decidable (server.reads entry = true ∧
      ∀ record ∈ s.memory.records.get (cacheKey entry), pruneAt < record.expiresAt →
      ∃ claim ∈ s.claims[record.token]?, scopeKey claim.1 = scopeKey entry ∧
        pruneAt < claim.2 + s.memory.ttlMs))
  | .complete token response now => inferInstanceAs (Decidable
      (∀ claim ∈ s.claims[token]?, now < claim.2 + s.memory.ttlMs →
      ∀ record ∈ recordOf s.memory token, Answerable server response record.state))
  | .fail token now => inferInstanceAs (Decidable
      (∀ claim ∈ s.claims[token]?, now < claim.2 + s.memory.ttlMs →
      ∀ record ∈ recordOf s.memory token, record.state = .pending))

/-- A record and a row that say the same. -/
def Reflects (record : MemoryRecord) (row : IdempotencyRow) : Prop :=
  match record.state with
  | .pending => row.status = .pending
  | .completed response => row.status = .completed ∧
      ∃ statusCode, row.responseStatus = some statusCode ∧
        Same response ⟨statusCode,row.responseBody⟩

/-- What both stores keep of the claims of a trace, at an instant of the clock. -/
structure Mirrored (memory : InMemoryIdempotencyStore) (postgres : PostgresIdempotencyStore)
    (claims : List (IdempotencyEntry × ℤ)) (clock : ℤ) : Prop where
  wellFormed : memory.WellFormed
  indexed : postgres.Indexed
  lifetimes : postgres.ttlMs = memory.ttlMs
  memoryTokens : memory.nextToken = claims.length
  postgresTokens : postgres.nextToken = claims.length
  past : ∀ (t : Token) (claim : IdempotencyEntry × ℤ), claims[t]? = some claim → claim.2 ≤ clock
  records : ∀ k record, memory.records.get k = some record → ∃ claim : IdempotencyEntry × ℤ,
    claims[record.token]? = some claim ∧ k = cacheKey claim.1 ∧
      record.requestHash = claim.1.requestHash ∧ claim.2 + memory.ttlMs ≤ record.expiresAt
  rows : ∀ t row, postgres.rows.get t = some row → ∃ claim : IdempotencyEntry × ℤ,
    claims[t]? = some claim ∧ row.toIdempotencyEntry = claim.1 ∧
      row.expiresAt = claim.2 + memory.ttlMs
  current : ∀ (t : Token) (claim : IdempotencyEntry × ℤ), claims[t]? = some claim →
    clock < claim.2 + memory.ttlMs → Option.Rel Reflects (recordOf memory t) (postgres.rows.get t)

section Mirrored
variable {memory : InMemoryIdempotencyStore} {postgres : PostgresIdempotencyStore}
  {claims : List (IdempotencyEntry × ℤ)} {clock : ℤ}

theorem Mirrored.later (h : Mirrored memory postgres claims clock) {now : ℤ} (hnow : clock ≤ now) :
    Mirrored memory postgres claims now :=
  { h with
    past := fun t claim hclaim => Int.le_trans (h.past t claim hclaim) hnow
    current := fun t claim hclaim hlive =>
      h.current t claim hclaim (Int.lt_of_le_of_lt hnow hlive) }

/-- The claim of a token that holds a record. -/
theorem Mirrored.claim_of_recordOf (h : Mirrored memory postgres claims clock) {t : Token}
    {record : MemoryRecord} (hr : recordOf memory t = some record)
    {claim : IdempotencyEntry × ℤ} (hclaim : claims[t]? = some claim) :
    memory.records.get (cacheKey claim.1) = some record ∧ record.token = t ∧
      record.requestHash = claim.1.requestHash ∧ claim.2 + memory.ttlMs ≤ record.expiresAt := by
  obtain ⟨k,hk,ht⟩ := (recordOf_eq_some h.wellFormed).mp hr
  obtain ⟨claim',hclaim',hkey,hhash,hexpiry⟩ := h.records k record hk
  rw [ht,hclaim,Option.some.injEq] at hclaim'
  subst hclaim'
  exact ⟨hkey ▸ hk,ht,hhash,hexpiry⟩

/-- A claim that has not expired is in both stores or in none. -/
theorem Mirrored.current_cases (h : Mirrored memory postgres claims clock) {t : Token}
    {claim : IdempotencyEntry × ℤ} (hclaim : claims[t]? = some claim)
    (hlive : clock < claim.2 + memory.ttlMs) :
    (recordOf memory t = none ∧ postgres.rows.get t = none) ∨
      ∃ record row, recordOf memory t = some record ∧ postgres.rows.get t = some row ∧
        Reflects record row := by
  have hrel := h.current t claim hclaim hlive
  generalize recordOf memory t = record at hrel
  generalize postgres.rows.get t = row at hrel
  cases hrel with
  | none => exact .inl ⟨rfl,rfl⟩
  | some hreflects => exact .inr ⟨_,_,rfl,rfl,hreflects⟩

/-- Rows that are kept come from their claims as before. -/
theorem Mirrored.rows_kept (h : Mirrored memory postgres claims clock)
    {postgres' : PostgresIdempotencyStore} (hkept : postgres.Kept postgres') (t : Token)
    (row : IdempotencyRow) (hrow : postgres'.rows.get t = some row) :
    ∃ claim : IdempotencyEntry × ℤ, claims[t]? = some claim ∧ row.toIdempotencyEntry = claim.1 ∧
      row.expiresAt = claim.2 + memory.ttlMs := by
  obtain ⟨row₀,hrow₀,hentry,hexpiry⟩ := hkept t row hrow
  rw [hentry,hexpiry]
  exact h.rows t row₀ hrow₀

theorem Mirrored.pruned (h : Mirrored memory postgres claims clock) {now : ℤ}
    (hnow : clock ≤ now) :
    Mirrored (memory.pruneExpired now) (postgres.deleteExpired now) claims now := by
  obtain ⟨hwf,hnext,-⟩ := h.wellFormed.pruneExpired now
  have hkept := PostgresIdempotencyStore.kept_deleteExpired postgres now
  have hlater := h.later hnow
  refine ⟨hwf,hkept.indexed h.indexed,?_,hnext.trans h.memoryTokens,h.postgresTokens,hlater.past,
    ?_,?_,?_⟩
  · rw [ttlMs_pruneExpired]
    exact h.lifetimes
  · intro k record hrecord
    rw [get_pruneExpired,Option.filter_eq_some_iff] at hrecord
    rw [ttlMs_pruneExpired]
    exact h.records k record hrecord.1
  · rw [ttlMs_pruneExpired]
    exact h.rows_kept hkept
  · intro t claim hclaim hlive
    rw [ttlMs_pruneExpired] at hlive
    rw [recordOf_pruneExpired h.wellFormed,PostgresIdempotencyStore.get_deleteExpired]
    rcases hlater.current_cases hclaim hlive with ⟨hr,hp⟩ | ⟨record,row,hr,hp,hreflects⟩
    · rw [hr,hp]
      exact .none
    · obtain ⟨-,-,-,hexpiry⟩ := h.claim_of_recordOf hr hclaim
      obtain ⟨claim',hclaim',-,hexpiry'⟩ := h.rows t row hp
      rw [hclaim,Option.some.injEq] at hclaim'
      subst hclaim'
      rw [hr,hp,Option.filter_some_pos (by simp; omega),Option.filter_some_pos (by simp; omega)]
      exact .some hreflects

theorem claims_append {t : Token} {claim : IdempotencyEntry × ℤ} (h : claims[t]? = some claim)
    (new : IdempotencyEntry × ℤ) : (claims ++ [new])[t]? = some claim := by
  rw [List.getElem?_append_left (List.getElem?_eq_some_iff.mp h).choose]
  exact h

theorem Mirrored.claimed (h : Mirrored memory postgres claims clock) {entry : IdempotencyEntry}
    {claimAt : ℤ} (hnow : clock ≤ claimAt) (hfree : memory.records.get (cacheKey entry) = none)
    (hfree' : ∀ t row, postgres.rows.get t = some row →
      scopeKey row.toIdempotencyEntry ≠ scopeKey entry) :
    Mirrored (memory.claim entry claimAt) (postgres.claim entry claimAt)
      (claims ++ [(entry,claimAt)]) claimAt := by
  have hholder : memory.holder (cacheKey entry) = none := by
    simp [InMemoryIdempotencyStore.holder,hfree]
  have hlast : (claims ++ [(entry,claimAt)])[claims.length]? = some (entry,claimAt) := by simp
  have hlater := h.later hnow
  refine ⟨h.wellFormed.claim hholder claimAt,
    PostgresIdempotencyStore.indexed_claim h.indexed claimAt hfree',h.lifetimes,?_,?_,?_,?_,?_,?_⟩
  · rw [List.length_append,List.length_singleton,← h.memoryTokens]
    rfl
  · rw [List.length_append,List.length_singleton,← h.postgresTokens]
    rfl
  · intro t claim hclaim
    cases joined_cases hclaim with
    | inl hold => exact hlater.past t claim hold
    | inr hnew => rw [hnew.2]
  · apply InsertionMap.forall_get_set
    · intro k record hrecord
      obtain ⟨claim,hclaim,hrest⟩ := h.records k record hrecord
      exact ⟨claim,claims_append hclaim _,hrest⟩
    · refine ⟨(entry,claimAt),?_,rfl,rfl,Int.le_refl _⟩
      rw [h.memoryTokens]
      exact hlast
  · apply InsertionMap.forall_get_set
    · intro t row hrow
      obtain ⟨claim,hclaim,hrest⟩ := h.rows t row hrow
      exact ⟨claim,claims_append hclaim _,hrest⟩
    · refine ⟨(entry,claimAt),?_,rfl,?_⟩
      · rw [h.postgresTokens]
        exact hlast
      · rw [h.lifetimes]
        rfl
  · intro t claim hclaim hlive
    rw [recordOf_claim h.wellFormed hfree,h.memoryTokens]
    unfold PostgresIdempotencyStore.claim
    dsimp only
    cases joined_cases hclaim with
    | inl hold =>
        have ht : t ≠ claims.length := Nat.ne_of_lt (List.getElem?_eq_some_iff.mp hold).choose
        rw [if_neg ht,h.postgresTokens,InsertionMap.get_set_of_ne _ ht]
        exact hlater.current t claim hold hlive
    | inr hnew =>
        rw [if_pos hnew.1,h.postgresTokens,hnew.1,InsertionMap.get_set_self]
        exact .some rfl

/-- A completed record and the row that was written with it. -/
theorem reflects_finished {server : Server} (hs : server.Faithful) {record : MemoryRecord}
    {row : IdempotencyRow} (hr : Reflects record row) {response : CachedIdempotencyResponse}
    (expiresAt : ℤ) (ha : Answerable server response record.state) :
    Reflects (finished response expiresAt record) (match server.stored response with
      | none => row
      | some stored => PostgresIdempotencyStore.answered stored row) := by
  have hsame : ∀ stored, server.stored response = some stored → Same response stored := by
    intro stored hstored
    unfold Server.stored at hstored
    split at hstored
    · obtain ⟨body,hbody,heq⟩ := Option.map_eq_some_iff.mp hstored
      subst heq
      exact ⟨rfl,(hs _ _ hbody).symm⟩
    · cases hstored
  unfold Reflects at hr
  cases hstate : record.state with
  | pending =>
      rw [hstate] at ha
      obtain ⟨stored,hstored⟩ := Option.isSome_iff_exists.mp ha
      simp only [Reflects,finished,hstate,hstored]
      exact ⟨rfl,stored.statusCode,rfl,hsame stored hstored⟩
  | completed earlier =>
      rw [hstate] at ha hr
      simp only [Reflects,finished,hstate]
      cases hstored : server.stored response with
      | none => exact hr
      | some stored =>
          exact ⟨rfl,stored.statusCode,rfl,(Same.symm ha).trans (hsame stored hstored)⟩

theorem Mirrored.completed {server : Server} (hs : server.Faithful)
    (h : Mirrored memory postgres claims clock) {t : Token} {response : CachedIdempotencyResponse}
    {now : ℤ} (hnow : clock ≤ now)
    (ha : ∀ claim ∈ claims[t]?, now < claim.2 + memory.ttlMs →
      ∀ record ∈ recordOf memory t, Answerable server response record.state) :
    Mirrored (memory.complete t response now) (postgres.complete server t response) claims now := by
  obtain ⟨hwf,hnext,-⟩ := h.wellFormed.complete t response now
  have hkept := PostgresIdempotencyStore.kept_complete server postgres t response
  have hlater := h.later hnow
  refine ⟨hwf,hkept.indexed h.indexed,?_,hnext.trans h.memoryTokens,?_,hlater.past,?_,?_,?_⟩
  · rw [ttlMs_complete,PostgresIdempotencyStore.ttlMs_complete]
    exact h.lifetimes
  · rw [PostgresIdempotencyStore.nextToken_complete]
    exact h.postgresTokens
  · intro k record hrecord
    rw [ttlMs_complete]
    rw [get_complete h.wellFormed,Option.map_eq_some_iff] at hrecord
    obtain ⟨record₀,hrecord₀,heq⟩ := hrecord
    obtain ⟨claim,hclaim,hkey,hhash,hexpiry⟩ := h.records k record₀ hrecord₀
    have hpast := hlater.past _ claim hclaim
    subst heq
    split
    · unfold finished
      split
      · exact ⟨claim,hclaim,hkey,hhash,Int.add_le_add_right hpast _⟩
      · exact ⟨claim,hclaim,hkey,hhash,hexpiry⟩
    · exact ⟨claim,hclaim,hkey,hhash,hexpiry⟩
  · rw [ttlMs_complete]
    exact h.rows_kept hkept
  · intro t' claim hclaim hlive
    rw [ttlMs_complete] at hlive
    rw [recordOf_complete h.wellFormed,PostgresIdempotencyStore.get_complete]
    rcases hlater.current_cases hclaim hlive with ⟨hr,hp⟩ | ⟨record,row,hr,hp,hreflects⟩
    · rw [hr,hp]
      split
      · split <;> exact .none
      · exact .none
    · obtain ⟨-,htoken,-⟩ := h.claim_of_recordOf hr hclaim
      rw [hr,hp,Option.map_some,htoken]
      by_cases ht : t' = t
      · subst ht
        rw [if_pos rfl,if_pos rfl]
        have hnew := reflects_finished hs hreflects (now + memory.ttlMs)
          (ha claim hclaim hlive record hr)
        split <;> rename_i hstored
        · rw [hstored] at hnew
          exact .some hnew
        · rw [hstored] at hnew
          exact .some hnew
      · rw [if_neg ht,if_neg ht]
        exact .some hreflects

theorem Mirrored.failed (h : Mirrored memory postgres claims clock) {t : Token} {now : ℤ}
    (hnow : clock ≤ now)
    (hp : ∀ claim ∈ claims[t]?, now < claim.2 + memory.ttlMs →
      ∀ record ∈ recordOf memory t, record.state = .pending) :
    Mirrored (memory.fail t) (postgres.fail t) claims now := by
  obtain ⟨hwf,hnext,-⟩ := h.wellFormed.fail t
  have hkept := PostgresIdempotencyStore.kept_fail postgres t
  have hlater := h.later hnow
  refine ⟨hwf,hkept.indexed h.indexed,?_,hnext.trans h.memoryTokens,?_,hlater.past,?_,?_,?_⟩
  · rw [ttlMs_fail,PostgresIdempotencyStore.ttlMs_fail]
    exact h.lifetimes
  · rw [PostgresIdempotencyStore.nextToken_fail]
    exact h.postgresTokens
  · intro k record hrecord
    rw [get_fail h.wellFormed,Option.filter_eq_some_iff] at hrecord
    rw [ttlMs_fail]
    exact h.records k record hrecord.1
  · rw [ttlMs_fail]
    exact h.rows_kept hkept
  · intro t' claim hclaim hlive
    rw [ttlMs_fail] at hlive
    rw [recordOf_fail h.wellFormed,PostgresIdempotencyStore.get_fail]
    rcases hlater.current_cases hclaim hlive with ⟨hr,hq⟩ | ⟨record,row,hr,hq,hreflects⟩
    · rw [hr,hq]
      split <;> exact .none
    · obtain ⟨-,htoken,-⟩ := h.claim_of_recordOf hr hclaim
      by_cases ht : t' = t
      · subst ht
        have hpending := hp claim hclaim hlive record hr
        unfold Reflects at hreflects
        rw [hpending] at hreflects
        rw [hr,hq,if_pos rfl,Option.filter_some_neg (by simp [htoken]),
          Option.filter_some_neg (by simp [hreflects])]
        exact .none
      · rw [hr,hq,if_neg ht,Option.filter_some_pos (by simp [htoken,ht])]
        exact .some hreflects

/-- What `begin` makes of the record it finds. -/
def answer (entry : IdempotencyEntry) (record : MemoryRecord) : IdempotencyBeginResult :=
  if record.requestHash ≠ entry.requestHash then .conflict
  else match record.state with
    | .completed response => .replay response
    | .pending => .pending record.token

theorem begin_of_record {entry : IdempotencyEntry} {pruneAt : ℤ} (claimAt : ℤ)
    {record : MemoryRecord}
    (h : (memory.pruneExpired pruneAt).records.get (cacheKey entry) = some record) :
    memory.begin entry pruneAt claimAt = (answer entry record,memory.pruneExpired pruneAt) := by
  unfold InMemoryIdempotencyStore.begin answer
  simp only [h]
  split
  · rfl
  · cases record.state with
    | pending => rfl
    | completed response => rfl

theorem begin_of_free {entry : IdempotencyEntry} {pruneAt : ℤ} (claimAt : ℤ)
    (h : (memory.pruneExpired pruneAt).records.get (cacheKey entry) = none) :
    memory.begin entry pruneAt claimAt = (.started (memory.pruneExpired pruneAt).nextToken,
      (memory.pruneExpired pruneAt).claim entry claimAt) := by
  unfold InMemoryIdempotencyStore.begin
  simp only [h]
  rfl

theorem answers_agree {entry : IdempotencyEntry} {record : MemoryRecord} {row : IdempotencyRow}
    (hr : Reflects record row) (hhash : record.requestHash = row.requestHash) :
    Agrees (answer entry record) (some (PostgresIdempotencyStore.answer entry row)) := by
  unfold answer PostgresIdempotencyStore.answer
  rw [hhash]
  by_cases hconflict : row.requestHash ≠ entry.requestHash
  · rw [if_pos hconflict,if_pos hconflict]
    trivial
  · rw [if_neg hconflict,if_neg hconflict]
    unfold Reflects at hr
    cases hstate : record.state with
    | pending =>
        rw [hstate] at hr
        simp only [hr]
        trivial
    | completed response =>
        rw [hstate] at hr
        obtain ⟨hstatus,statusCode,hcode,hsame⟩ := hr
        simp only [hstatus,hcode]
        exact hsame

theorem cacheKey_of_scopeKey {entry entry' : IdempotencyEntry}
    (h : scopeKey entry = scopeKey entry') : cacheKey entry = cacheKey entry' := by
  unfold scopeKey at h
  rw [Prod.ext_iff,Prod.ext_iff] at h
  obtain ⟨hkey,hscope,hprincipal⟩ := h
  dsimp only at hkey hscope hprincipal
  unfold cacheKey
  rw [hkey,hscope,hprincipal]

/-- Stores that mirror each other, with the expired claims gone: a record in the one is a row in
the other. -/
theorem Mirrored.row_of_record (h : Mirrored memory postgres claims clock) {t : Token}
    {claim : IdempotencyEntry × ℤ} (hclaim : claims[t]? = some claim)
    (hlive : clock < claim.2 + memory.ttlMs) {record : MemoryRecord}
    (hr : recordOf memory t = some record) :
    ∃ row, postgres.rows.get t = some row ∧ Reflects record row := by
  rcases h.current_cases hclaim hlive with ⟨hnone,_⟩ | ⟨record',row,hr',hp,hreflects⟩
  · rw [hr] at hnone
    cases hnone
  · rw [hr,Option.some.injEq] at hr'
    exact ⟨row,hp,hr' ▸ hreflects⟩

theorem Mirrored.record_of_row (h : Mirrored memory postgres claims clock) {t : Token}
    {claim : IdempotencyEntry × ℤ} (hclaim : claims[t]? = some claim)
    (hlive : clock < claim.2 + memory.ttlMs) {row : IdempotencyRow}
    (hp : postgres.rows.get t = some row) : ∃ record, recordOf memory t = some record := by
  rcases h.current_cases hclaim hlive with ⟨_,hnone⟩ | ⟨record,row',hr,_,_⟩
  · rw [hp] at hnone
    cases hnone
  · exact ⟨record,hr⟩

theorem Mirrored.begun {server : Server} (h : Mirrored memory postgres claims clock)
    {entry : IdempotencyEntry} {pruneAt claimAt : ℤ} (hprune : clock ≤ pruneAt)
    (hclaimAt : pruneAt ≤ claimAt) (hreads : server.reads entry = true)
    (hfound : ∀ record ∈ memory.records.get (cacheKey entry), pruneAt < record.expiresAt →
      ∃ claim ∈ claims[record.token]?, scopeKey claim.1 = scopeKey entry ∧
        pruneAt < claim.2 + memory.ttlMs) :
    Mirrored (memory.begin entry pruneAt claimAt).2 (postgres.begin server entry pruneAt claimAt).2
      (claimsAfter entry claimAt claims (memory.begin entry pruneAt claimAt).1) claimAt ∧
    Agrees (memory.begin entry pruneAt claimAt).1
      (postgres.begin server entry pruneAt claimAt).1 := by
  have hpruned := h.pruned hprune
  have httl := ttlMs_pruneExpired memory pruneAt
  cases hget : (memory.pruneExpired pruneAt).records.get (cacheKey entry) with
  | none =>
      have hfree : ∀ t row, (postgres.deleteExpired pruneAt).rows.get t = some row →
          scopeKey row.toIdempotencyEntry ≠ scopeKey entry := by
        intro t row hrow hkey
        obtain ⟨claim,hclaim,hentry,hexpiry⟩ := hpruned.rows t row hrow
        rw [PostgresIdempotencyStore.get_deleteExpired,Option.filter_eq_some_iff] at hrow
        have hlive : pruneAt < row.expiresAt := by simpa using hrow.2
        rw [hexpiry] at hlive
        obtain ⟨record,hrecord⟩ := hpruned.record_of_row hclaim hlive (by
          rw [PostgresIdempotencyStore.get_deleteExpired,Option.filter_eq_some_iff]
          exact hrow)
        have hstored := (hpruned.claim_of_recordOf hrecord hclaim).1
        rw [hentry] at hkey
        rw [cacheKey_of_scopeKey hkey,hget] at hstored
        cases hstored
      rw [begin_of_free claimAt hget,PostgresIdempotencyStore.begin_of_free hreads claimAt hfree]
      refine ⟨hpruned.claimed hclaimAt hget hfree,?_⟩
      exact hpruned.memoryTokens.trans h.postgresTokens.symm
  | some record =>
      have hold := hget
      rw [get_pruneExpired,Option.filter_eq_some_iff] at hold
      have hlive : pruneAt < record.expiresAt := by simpa using hold.2
      obtain ⟨claim,hclaim,hkey,hcurrent⟩ := hfound record hold.1 hlive
      rw [← httl] at hcurrent
      have hrecord : recordOf (memory.pruneExpired pruneAt) record.token = some record :=
        (recordOf_eq_some hpruned.wellFormed).mpr ⟨_,hget,rfl⟩
      obtain ⟨row,hrow,hreflects⟩ := hpruned.row_of_record hclaim hcurrent hrecord
      obtain ⟨claim',hclaim',hentry,-⟩ := hpruned.rows _ row hrow
      have hsame := hclaim.symm.trans hclaim'
      rw [Option.some.injEq] at hsame
      subst hsame
      have hhash := (hpruned.claim_of_recordOf hrecord hclaim).2.2.1
      rw [begin_of_record claimAt hget,PostgresIdempotencyStore.begin_of_row h.indexed hreads
        claimAt hrow (by rw [hentry]; exact hkey)]
      refine ⟨?_,answers_agree hreflects (hhash.trans (by rw [hentry]))⟩
      have hclaims : claimsAfter entry claimAt claims (answer entry record) = claims := by
        unfold answer
        split
        · rfl
        · split <;> rfl
      rw [hclaims]
      exact hpruned.later hclaimAt

end Mirrored

/-- Every `begin` so far has had the same outcome in both stores. -/
def Agreed (s : Pair) : Prop := ∀ o ∈ s.outcomes, Agrees o.1 o.2

theorem mirrored_step {server : Server} (hs : server.Faithful) (s : Pair) (call : Call)
    (h : Mirrored s.memory s.postgres s.claims s.clock ∧ Agreed s)
    (hc : OnTime s call ∧ Aligned server s call) :
    Mirrored (s.step server call).memory (s.step server call).postgres (s.step server call).claims
      (s.step server call).clock ∧ Agreed (s.step server call) := by
  obtain ⟨hmirrored,hagreed⟩ := h
  obtain ⟨hclock,haligned⟩ := hc
  cases call with
  | begin entry pruneAt claimAt =>
      obtain ⟨hnext,hagrees⟩ := hmirrored.begun hclock.1 hclock.2 haligned.1 haligned.2
      refine ⟨hnext,?_⟩
      intro o ho
      cases List.mem_append.mp ho with
      | inl hold => exact hagreed o hold
      | inr hlast =>
          rw [List.mem_singleton] at hlast
          rw [hlast]
          exact hagrees
  | complete token response now => exact ⟨hmirrored.completed hs hclock haligned,hagreed⟩
  | fail token now => exact ⟨hmirrored.failed hclock haligned,hagreed⟩

theorem mirrored_start (ttlMs clock : ℤ) :
    Mirrored (Pair.start ttlMs clock).memory (Pair.start ttlMs clock).postgres [] clock where
  wellFormed := InMemoryIdempotencyStore.wellFormed_new ttlMs
  indexed := InsertionMap.exclusive_empty
  lifetimes := rfl
  memoryTokens := rfl
  postgresTokens := rfl
  past t claim hclaim := by cases hclaim
  records k record hrecord := by cases hrecord
  rows t row hrow := by cases hrow
  current t claim hclaim := by cases hclaim

/-- Along every trace of aligned calls both stores answer every `begin` alike. -/
theorem stores_agree_of_aligned (server : Server) (hs : server.Faithful) (ttlMs clock : ℤ)
    (calls pre : List Call)
    (hc : Guarded (Pair.step server) (fun s call => OnTime s call ∧ Aligned server s call)
      (Pair.start ttlMs clock) calls) (hp : pre <+: calls) :
    Agreed (run (Pair.step server) (Pair.start ttlMs clock) pre) :=
  (run_invariant_passed (I := fun s => Mirrored s.memory s.postgres s.claims s.clock ∧ Agreed s)
    (mirrored_step hs) ⟨mirrored_start ttlMs clock,by intro o ho; cases ho⟩ hc hp).2

/-- A server that reads every text and gives every body back. -/
def plainServer : Server := ⟨fun _ => true,some⟩

theorem plainServer_faithful : plainServer.Faithful := by
  intro body stored h
  cases h
  rfl

def purchase : IdempotencyEntry := ⟨"k","POST:/draw","p","h"⟩

def created : CachedIdempotencyResponse := ⟨201,.object [("ok",.bool true)]⟩

/-- Two calls while the first is under way, one after it, one with another body, and a late one. -/
def retries : List Call :=
  [.begin purchase 0 1,.begin purchase 10 11,.complete 0 created 20,.begin purchase 30 31,
    .begin { purchase with requestHash := "h2" } 40 41,.begin purchase 200 201,.fail 1 210,
    .begin purchase 220 221]

theorem stores_agree_retries :
    Agreed (run (Pair.step plainServer) (Pair.start 100 0) retries) :=
  stores_agree_of_aligned plainServer plainServer_faithful 100 0 retries retries
    (by decide +kernel) (List.prefix_refl retries)

/-- A response that comes late in the lifetime of its claim, and a call after that lifetime. -/
def refreshed : List Call :=
  [.begin purchase 0 0,.complete 0 created 60,.begin purchase 110 110]

theorem refreshed_disagrees :
    ¬ Agreed (run (Pair.step plainServer) (Pair.start 100 0) refreshed) := by
  unfold Agreed
  decide +kernel

end Creditra.IdempotencyAgreement
