import Creditra.IdempotencyStore

/-!
# The idempotency table

`PostgresIdempotencyStore`, one call at a time. A row is addressed by its token,
and the unique index over key, scope and principal holds the place of the cache
key. A row keeps the expiry it was claimed with, `complete` writes whatever row
has the token, and `fail` deletes a pending row only.

What the server reads as a text and what it gives back for a body are
parameters. A call that it refuses leaves the table as it is, once the expired
rows are gone.
-/
namespace Creditra.PostgresIdempotency
open IdempotencyStore InsertionMaps JsonValues

structure Server where
  readsText : String → Bool
  jsonb : Json → Option Json

namespace Server

/-- A body that is accepted comes back with its members, in whatever order. -/
def Faithful (server : Server) : Prop :=
  ∀ body stored, server.jsonb body = some stored → stableStringify stored = stableStringify body

def reads (server : Server) (entry : IdempotencyEntry) : Bool :=
  server.readsText entry.keyHash && server.readsText entry.scope &&
    server.readsText entry.principalHash && server.readsText entry.requestHash

/-- What `response_status INTEGER` and `response_body JSONB` give back for a response. -/
def stored (server : Server) (response : CachedIdempotencyResponse) :
    Option CachedIdempotencyResponse :=
  if -2147483648 ≤ response.statusCode ∧ response.statusCode ≤ 2147483647 then
    (server.jsonb response.body).map fun body => ⟨response.statusCode,body⟩
  else none

end Server

/-- The columns of `idempotency_keys_scope_key`. -/
def scopeKey (entry : IdempotencyEntry) : String × String × String :=
  (entry.keyHash,entry.scope,entry.principalHash)

inductive RowStatus where
  | pending | completed
  deriving DecidableEq

structure IdempotencyRow extends IdempotencyEntry where
  status : RowStatus
  responseStatus : Option ℤ
  responseBody : Json
  expiresAt : ℤ

/-- Rows by token, which is their primary key. -/
structure PostgresIdempotencyStore where
  ttlMs : ℤ
  rows : InsertionMap Token IdempotencyRow := .empty
  nextToken : Token := 0

namespace PostgresIdempotencyStore

def deleteExpired (s : PostgresIdempotencyStore) (now : ℤ) : PostgresIdempotencyStore :=
  { s with rows := s.rows.filter fun e => now < e.2.expiresAt }

/-- What `begin` makes of the row it runs into. -/
def answer (entry : IdempotencyEntry) (row : IdempotencyRow) : IdempotencyBeginResult :=
  if row.requestHash ≠ entry.requestHash then .conflict
  else match row.status, row.responseStatus with
    | .completed, some statusCode => .replay ⟨statusCode,row.responseBody⟩
    | _, _ => .inProgress

/-- The inserted row, with a new token. -/
def claim (s : PostgresIdempotencyStore) (entry : IdempotencyEntry) (claimAt : ℤ) :
    PostgresIdempotencyStore :=
  { s with
    rows := s.rows.set s.nextToken ⟨entry,.pending,none,.null,claimAt + s.ttlMs⟩
    nextToken := s.nextToken + 1 }

/-- The row that an insertion conflicts with is the one the next query reads: nothing runs in
between. -/
def begin (server : Server) (s : PostgresIdempotencyStore) (entry : IdempotencyEntry)
    (pruneAt claimAt : ℤ) : Option IdempotencyBeginResult × PostgresIdempotencyStore :=
  let s := s.deleteExpired pruneAt
  if server.reads entry then
    match s.rows.entries.find? fun e => scopeKey e.2.toIdempotencyEntry = scopeKey entry with
    | some existing => (some (answer entry existing.2),s)
    | none => (some (.started s.nextToken),s.claim entry claimAt)
  else (none,s)

/-- What `complete` sets in a row. -/
def answered (response : CachedIdempotencyResponse) (row : IdempotencyRow) : IdempotencyRow :=
  { row with
    status := .completed
    responseStatus := some response.statusCode
    responseBody := response.body }

def complete (server : Server) (s : PostgresIdempotencyStore) (token : Token)
    (response : CachedIdempotencyResponse) : PostgresIdempotencyStore :=
  match server.stored response with
  | none => s
  | some response => match s.rows.get token with
      | none => s
      | some row => { s with rows := s.rows.set token (answered response row) }

def fail (s : PostgresIdempotencyStore) (token : Token) : PostgresIdempotencyStore :=
  match s.rows.get token with
  | none => s
  | some row => if row.status = .pending then { s with rows := s.rows.delete token } else s

/-! ## What the calls do to the row of a token -/

variable {server : Server} {s : PostgresIdempotencyStore}

theorem get_deleteExpired (s : PostgresIdempotencyStore) (now : ℤ) (t : Token) :
    (s.deleteExpired now).rows.get t = (s.rows.get t).filter (now < ·.expiresAt) := by
  apply Option.ext
  intro row
  unfold deleteExpired
  rw [InsertionMap.get_filter_eq_some,Option.filter_eq_some_iff]

/-- The unique index. -/
def Indexed (s : PostgresIdempotencyStore) : Prop :=
  s.rows.Exclusive (fun row => scopeKey row.toIdempotencyEntry) fun _ => true

/-- Every row was there before, with its entry and its expiry. -/
def Kept (s s' : PostgresIdempotencyStore) : Prop :=
  ∀ t row, s'.rows.get t = some row → ∃ row₀, s.rows.get t = some row₀ ∧
    row.toIdempotencyEntry = row₀.toIdempotencyEntry ∧ row.expiresAt = row₀.expiresAt

theorem Kept.indexed {s' : PostgresIdempotencyStore} (hk : Kept s s') (h : s.Indexed) :
    s'.Indexed := by
  intro t t' row row' hrow hrow' hkey
  obtain ⟨row₀,hget,hentry,-⟩ := hk t row hrow
  obtain ⟨row₀',hget',hentry',-⟩ := hk t' row' hrow'
  dsimp only at hkey
  rw [hentry,hentry'] at hkey
  exact h t t' row₀ row₀' hget hget' hkey

theorem kept_deleteExpired (s : PostgresIdempotencyStore) (now : ℤ) :
    Kept s (s.deleteExpired now) := by
  intro t row hrow
  exact ⟨row,(InsertionMap.get_filter_eq_some.mp hrow).1,rfl,rfl⟩

theorem indexed_claim (h : s.Indexed) {entry : IdempotencyEntry} (claimAt : ℤ)
    (hfree : ∀ t row, s.rows.get t = some row →
      scopeKey row.toIdempotencyEntry ≠ scopeKey entry) : (s.claim entry claimAt).Indexed := by
  apply InsertionMap.exclusive_set h
  intro _
  rw [InsertionMap.taken_eq_false]
  intro t row hrow _ hkey
  exact absurd hkey (hfree t row hrow)

/-- A call that runs into a row answers from it. -/
theorem begin_of_row (h : s.Indexed) {entry : IdempotencyEntry} (hreads : server.reads entry = true)
    {pruneAt : ℤ} (claimAt : ℤ) {t : Token} {row : IdempotencyRow}
    (hrow : (s.deleteExpired pruneAt).rows.get t = some row)
    (hkey : scopeKey row.toIdempotencyEntry = scopeKey entry) :
    s.begin server entry pruneAt claimAt = (some (answer entry row),s.deleteExpired pruneAt) := by
  unfold begin
  dsimp only
  rw [if_pos hreads]
  split
  · rename_i e he
    have hfound := InsertionMap.get_eq_some.mpr (List.mem_of_find?_eq_some he)
    have hsame : scopeKey e.2.toIdempotencyEntry = scopeKey entry := by
      simpa using List.find?_some he
    have ht : e.1 = t := (kept_deleteExpired s pruneAt).indexed h e.1 t e.2 row hfound hrow
      (hsame.trans hkey.symm) rfl rfl
    rw [ht,hrow,Option.some.injEq] at hfound
    rw [hfound]
  · rename_i hnone
    rw [List.find?_eq_none] at hnone
    exact absurd (by simpa using hkey) (hnone _ (InsertionMap.get_eq_some.mp hrow))

/-- A call that runs into no row claims the key. -/
theorem begin_of_free {entry : IdempotencyEntry} (hreads : server.reads entry = true)
    {pruneAt : ℤ} (claimAt : ℤ) (hfree : ∀ t row, (s.deleteExpired pruneAt).rows.get t = some row →
      scopeKey row.toIdempotencyEntry ≠ scopeKey entry) :
    s.begin server entry pruneAt claimAt =
      (some (.started s.nextToken),(s.deleteExpired pruneAt).claim entry claimAt) := by
  unfold begin
  dsimp only
  rw [if_pos hreads]
  split
  · rename_i e he
    have hfound := InsertionMap.get_eq_some.mpr (List.mem_of_find?_eq_some he)
    exact absurd (by simpa using List.find?_some he) (hfree e.1 e.2 hfound)
  · rfl

theorem get_complete (server : Server) (s : PostgresIdempotencyStore) (t t' : Token)
    (response : CachedIdempotencyResponse) :
    (s.complete server t response).rows.get t' =
      if t' = t then
        match server.stored response with
        | none => s.rows.get t'
        | some stored => (s.rows.get t').map (answered stored)
      else s.rows.get t' := by
  unfold complete
  by_cases ht : t' = t
  · subst ht
    rw [if_pos rfl]
    cases hstored : server.stored response with
    | none => rfl
    | some stored =>
        cases hrow : s.rows.get t' with
        | none => exact hrow
        | some row => exact InsertionMap.get_set_self ..
  · rw [if_neg ht]
    cases hstored : server.stored response with
    | none => rfl
    | some stored =>
        cases hrow : s.rows.get t with
        | none => rfl
        | some row => exact InsertionMap.get_set_of_ne _ ht _

theorem kept_complete (server : Server) (s : PostgresIdempotencyStore) (t : Token)
    (response : CachedIdempotencyResponse) : Kept s (s.complete server t response) := by
  intro t' row hrow
  rw [get_complete] at hrow
  split at hrow
  · split at hrow
    · exact ⟨row,hrow,rfl,rfl⟩
    · obtain ⟨row₀,hget,heq⟩ := Option.map_eq_some_iff.mp hrow
      subst heq
      exact ⟨row₀,hget,rfl,rfl⟩
  · exact ⟨row,hrow,rfl,rfl⟩

theorem get_fail (s : PostgresIdempotencyStore) (t t' : Token) :
    (s.fail t).rows.get t' =
      if t' = t then (s.rows.get t').filter (·.status ≠ .pending) else s.rows.get t' := by
  unfold fail
  by_cases ht : t' = t
  · subst ht
    rw [if_pos rfl]
    cases hrow : s.rows.get t' with
    | none => exact hrow
    | some row =>
        by_cases hstatus : row.status = .pending
        · simp [hstatus,Option.filter]
        · simp [hstatus,hrow,Option.filter]
  · rw [if_neg ht]
    cases hrow : s.rows.get t with
    | none => rfl
    | some row =>
        by_cases hstatus : row.status = .pending
        · simp [hstatus,InsertionMap.get_delete_of_ne _ ht]
        · simp [hstatus]

theorem kept_fail (s : PostgresIdempotencyStore) (t : Token) : Kept s (s.fail t) := by
  intro t' row hrow
  rw [get_fail] at hrow
  split at hrow
  · exact ⟨row,(Option.filter_eq_some_iff.mp hrow).1,rfl,rfl⟩
  · exact ⟨row,hrow,rfl,rfl⟩

@[simp] theorem ttlMs_complete (server : Server) (s : PostgresIdempotencyStore) (t : Token)
    (response : CachedIdempotencyResponse) :
    (s.complete server t response).ttlMs = s.ttlMs := by
  unfold complete
  split
  · rfl
  · split <;> rfl

@[simp] theorem nextToken_complete (server : Server) (s : PostgresIdempotencyStore) (t : Token)
    (response : CachedIdempotencyResponse) :
    (s.complete server t response).nextToken = s.nextToken := by
  unfold complete
  split
  · rfl
  · split <;> rfl

@[simp] theorem ttlMs_fail (s : PostgresIdempotencyStore) (t : Token) :
    (s.fail t).ttlMs = s.ttlMs := by
  unfold fail
  split
  · rfl
  · split <;> rfl

@[simp] theorem nextToken_fail (s : PostgresIdempotencyStore) (t : Token) :
    (s.fail t).nextToken = s.nextToken := by
  unfold fail
  split
  · rfl
  · split <;> rfl

end PostgresIdempotencyStore

end Creditra.PostgresIdempotency
