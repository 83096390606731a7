import Creditra.InsertionMaps
import Creditra.JsonValues
import Mathlib.Data.Int.Notation

/-!
# The in-memory idempotency store

A record is claimed under a cache key with a fresh token, and the token is
registered back to its key. `complete` and `fail` are addressed by token only.
Clock readings are arguments: `begin` reads the clock once to prune and once
for the expiry it writes. A pending record carries a promise; the promise is
named by the token it was created with, and the store remembers how each
promise has settled.

The abstract content of the store is which token holds each key. All
operations are described by what they do to that.
-/
namespace Creditra.IdempotencyStore
open InsertionMaps JsonValues

/-- Tokens are drawn from a counter, which is what their freshness amounts to. -/
abbrev Token := ℕ

structure CachedIdempotencyResponse where
  statusCode : ℤ
  body : Json

inductive IdempotencyBeginResult where
  | started (token : Token)
  | replay (response : CachedIdempotencyResponse)
  | pending (promise : Token)
  | inProgress
  | conflict

structure IdempotencyEntry where
  keyHash : String
  scope : String
  principalHash : String
  requestHash : String
  deriving DecidableEq

inductive RecordState where
  | pending
  | completed (response : CachedIdempotencyResponse)

structure MemoryRecord where
  token : Token
  requestHash : String
  expiresAt : ℤ
  state : RecordState

structure InMemoryIdempotencyStore where
  ttlMs : ℤ
  records : InsertionMap String MemoryRecord := .empty
  tokens : InsertionMap Token String := .empty
  settled : InsertionMap Token (Option CachedIdempotencyResponse) := .empty
  nextToken : Token := 0

def cacheKey (entry : IdempotencyEntry) : String :=
  entry.keyHash ++ ":" ++ entry.scope ++ ":" ++ entry.principalHash

namespace InMemoryIdempotencyStore

/-- One turn of the pruning loop. -/
def pruneEntry (now : ℤ) (s : InMemoryIdempotencyStore) (e : String × MemoryRecord) :
    InMemoryIdempotencyStore :=
  if e.2.expiresAt ≤ now then
    { s with records := s.records.delete e.1, tokens := s.tokens.delete e.2.token }
  else s

def pruneExpired (s : InMemoryIdempotencyStore) (now : ℤ) : InMemoryIdempotencyStore :=
  s.records.entries.foldl (pruneEntry now) s

/-- A promise settles once; later settlements are ignored. -/
def settle (s : InMemoryIdempotencyStore) (promise : Token)
    (outcome : Option CachedIdempotencyResponse) : InMemoryIdempotencyStore :=
  if (s.settled.get promise).isSome then s
  else { s with settled := s.settled.set promise outcome }

def begin (s : InMemoryIdempotencyStore) (entry : IdempotencyEntry) (pruneAt claimAt : ℤ) :
    IdempotencyBeginResult × InMemoryIdempotencyStore :=
  let s := s.pruneExpired pruneAt
  match s.records.get (cacheKey entry) with
  | some existing =>
      if existing.requestHash ≠ entry.requestHash then (.conflict,s)
      else match existing.state with
        | .completed response => (.replay response,s)
        | .pending => (.pending existing.token,s)
  | none =>
      (.started s.nextToken,{ s with
        records := s.records.set (cacheKey entry)
          ⟨s.nextToken,entry.requestHash,claimAt + s.ttlMs,.pending⟩
        tokens := s.tokens.set s.nextToken (cacheKey entry)
        nextToken := s.nextToken + 1 })

def complete (s : InMemoryIdempotencyStore) (token : Token)
    (response : CachedIdempotencyResponse) (now : ℤ) : InMemoryIdempotencyStore :=
  match s.tokens.get token with
  | none => s
  | some key =>
      match s.records.get key with
      | none => s
      | some record => match record.state with
          | .completed _ => s
          | .pending =>
              let completed : MemoryRecord :=
                ⟨token,record.requestHash,now + s.ttlMs,.completed response⟩
              settle { s with records := s.records.set key completed } record.token (some response)

/-- The record found under the token's key is deleted, whatever its state. -/
def fail (s : InMemoryIdempotencyStore) (token : Token) : InMemoryIdempotencyStore :=
  match s.tokens.get token with
  | none => s
  | some key =>
      let s' := { s with records := s.records.delete key, tokens := s.tokens.delete token }
      match s.records.get key with
      | none => s'
      | some record => match record.state with
          | .completed _ => s'
          | .pending => s'.settle record.token none

/-- The promise that failing the token rejects. -/
def rejected (s : InMemoryIdempotencyStore) (token : Token) : Option Token :=
  match (s.tokens.get token).bind s.records.get with
  | none => none
  | some record => match record.state with
      | .completed _ => none
      | .pending => some record.token

/-- The token under which a key is held. -/
def holder (s : InMemoryIdempotencyStore) (key : String) : Option Token :=
  (s.records.get key).map MemoryRecord.token

/-- Registered tokens and held keys correspond, and new tokens are new. -/
structure WellFormed (s : InMemoryIdempotencyStore) : Prop where
  registered : ∀ token key, s.tokens.get token = some key ↔ s.holder key = some token
  fresh : ∀ token key, s.holder key = some token → token < s.nextToken

variable {s : InMemoryIdempotencyStore}

@[simp] theorem settle_records (s : InMemoryIdempotencyStore) (p : Token)
    (o : Option CachedIdempotencyResponse) : (s.settle p o).records = s.records := by
  unfold settle
  split <;> rfl

@[simp] theorem settle_tokens (s : InMemoryIdempotencyStore) (p : Token)
    (o : Option CachedIdempotencyResponse) : (s.settle p o).tokens = s.tokens := by
  unfold settle
  split <;> rfl

@[simp] theorem settle_nextToken (s : InMemoryIdempotencyStore) (p : Token)
    (o : Option CachedIdempotencyResponse) : (s.settle p o).nextToken = s.nextToken := by
  unfold settle
  split <;> rfl

theorem wellFormed_congr {s' : InMemoryIdempotencyStore} (h : s.WellFormed)
    (ht : s'.tokens = s.tokens) (hh : s'.holder = s.holder) (hn : s'.nextToken = s.nextToken) :
    s'.WellFormed where
  registered token key := by
    rw [ht,hh]
    exact h.registered token key
  fresh token key hk := by
    rw [hn]
    rw [hh] at hk
    exact h.fresh token key hk

theorem WellFormed.holder_unique (h : s.WellFormed) {k k' : String} {t : Token}
    (hk : s.holder k = some t) (hk' : s.holder k' = some t) : k = k' := by
  have hr := (h.registered t k).mpr hk
  rw [(h.registered t k').mpr hk'] at hr
  exact (Option.some.inj hr).symm

/-- The store without a key and its token. -/
def release (s : InMemoryIdempotencyStore) (k : String) (t : Token) : InMemoryIdempotencyStore :=
  { s with records := s.records.delete k, tokens := s.tokens.delete t }

theorem WellFormed.holder_release (h : s.WellFormed) {k : String} {t : Token}
    (hk : s.holder k = some t) (k' : String) :
    (s.release k t).holder k' = (s.holder k').filter (· ≠ t) := by
  by_cases hkk : k' = k
  · subst hkk
    rw [hk]
    simp [holder,release,Option.filter]
  · have hsame : (s.release k t).holder k' = s.holder k' := by
      simp [holder,release,InsertionMap.get_delete_of_ne _ hkk]
    rw [hsame]
    cases ht : s.holder k' with
    | none => rfl
    | some t' =>
        have hne : t' ≠ t := by
          intro heq
          subst heq
          exact hkk (h.holder_unique ht hk)
        simp [Option.filter,hne]

theorem WellFormed.release (h : s.WellFormed) {k : String} {t : Token}
    (hk : s.holder k = some t) : (s.release k t).WellFormed where
  registered token key := by
    rw [h.holder_release hk]
    by_cases ht : token = t
    · subst ht
      simp [InMemoryIdempotencyStore.release]
    · have hsame : (s.release k t).tokens.get token = s.tokens.get token :=
        InsertionMap.get_delete_of_ne _ ht
      rw [hsame,h.registered token key,Option.filter_eq_some_iff]
      simp [ht]
  fresh token key hkey := by
    rw [h.holder_release hk,Option.filter_eq_some_iff] at hkey
    exact h.fresh token key hkey.1

/-- Failing a token gives up whatever it holds, and nothing else. -/
theorem WellFormed.fail (h : s.WellFormed) (t : Token) :
    (s.fail t).WellFormed ∧ (s.fail t).nextToken = s.nextToken ∧
      ∀ k, (s.fail t).holder k = (s.holder k).filter (· ≠ t) := by
  unfold InMemoryIdempotencyStore.fail
  split
  · rename_i hnone
    refine ⟨h,rfl,?_⟩
    intro k
    cases hk : s.holder k with
    | none => rfl
    | some t' =>
        have hne : t' ≠ t := by
          intro heq
          subst heq
          rw [(h.registered t' k).mpr hk] at hnone
          cases hnone
        simp [Option.filter,hne]
  · rename_i key hkey
    have hheld := (h.registered t key).mp hkey
    have hwf := h.release hheld
    have hholder := h.holder_release hheld
    simp only
    split
    · exact ⟨hwf,rfl,hholder⟩
    · split
      · exact ⟨hwf,rfl,hholder⟩
      · refine ⟨wellFormed_congr hwf (settle_tokens ..) ?_ (settle_nextToken ..),
          settle_nextToken ..,?_⟩
        · funext k
          simp [holder,InMemoryIdempotencyStore.release]
        · intro k
          rw [← hholder k]
          simp [holder,InMemoryIdempotencyStore.release]

theorem holder_set_of_held {key : String} {t : Token} {record : MemoryRecord}
    (hheld : s.holder key = some t) (hrecord : record.token = t) :
    holder { s with records := s.records.set key record } = s.holder := by
  funext k
  by_cases hk : k = key
  · subst hk
    rw [hheld]
    simp [holder,hrecord]
  · simp [holder,InsertionMap.get_set_of_ne _ hk]

/-- Completing a token changes no holder. -/
theorem WellFormed.complete (h : s.WellFormed) (t : Token) (r : CachedIdempotencyResponse)
    (now : ℤ) : (s.complete t r now).WellFormed ∧
      (s.complete t r now).nextToken = s.nextToken ∧
      (s.complete t r now).holder = s.holder := by
  unfold InMemoryIdempotencyStore.complete
  split
  · exact ⟨h,rfl,rfl⟩
  · rename_i key hkey
    have hheld := (h.registered t key).mp hkey
    split
    · exact ⟨h,rfl,rfl⟩
    · split
      · exact ⟨h,rfl,rfl⟩
      · have hsettled : ∀ record' : MemoryRecord, record'.token = t → ∀ p o,
            holder (settle { s with records := s.records.set key record' } p o) = s.holder := by
          intro record' hrecord' p o
          rw [← holder_set_of_held hheld hrecord']
          funext k
          simp [holder]
        exact ⟨wellFormed_congr h (settle_tokens ..) (hsettled _ rfl _ _) (settle_nextToken ..),
          settle_nextToken ..,hsettled _ rfl _ _⟩

/-- One turn of the pruning loop, on an entry the store still has. -/
theorem WellFormed.pruneEntry (h : s.WellFormed) (now : ℤ) {e : String × MemoryRecord}
    (he : s.records.get e.1 = some e.2) :
    (s.pruneEntry now e).WellFormed ∧ (s.pruneEntry now e).nextToken = s.nextToken ∧
    (∀ k, k ≠ e.1 → (s.pruneEntry now e).records.get k = s.records.get k) ∧
    ∀ k r, s.records.get k = some r → now < r.expiresAt →
      (s.pruneEntry now e).records.get k = some r := by
  have hheld : s.holder e.1 = some e.2.token := by simp [holder,he]
  unfold InMemoryIdempotencyStore.pruneEntry
  split
  · rename_i hexpired
    refine ⟨h.release hheld,rfl,fun k hk => InsertionMap.get_delete_of_ne _ hk,?_⟩
    intro k r hr hlive
    have hk : k ≠ e.1 := by
      intro heq
      subst heq
      rw [he] at hr
      cases hr
      omega
    simp only [InsertionMap.get_delete_of_ne _ hk,hr]
  · exact ⟨h,rfl,fun _ _ => rfl,fun k r hr _ => hr⟩

/-- The pruning loop over any part of the entries. -/
theorem WellFormed.pruneLoop (now : ℤ) (es : List (String × MemoryRecord)) (h : s.WellFormed)
    (hnodup : (es.map Prod.fst).Nodup) (hes : ∀ e ∈ es, s.records.get e.1 = some e.2) :
    (es.foldl (InMemoryIdempotencyStore.pruneEntry now) s).WellFormed ∧
    (es.foldl (InMemoryIdempotencyStore.pruneEntry now) s).nextToken = s.nextToken ∧
    ∀ k r, s.records.get k = some r → now < r.expiresAt →
      (es.foldl (InMemoryIdempotencyStore.pruneEntry now) s).records.get k = some r := by
  induction es generalizing s with
  | nil => exact ⟨h,rfl,fun k r hr _ => hr⟩
  | cons e es ih =>
      rw [List.map_cons,List.nodup_cons] at hnodup
      obtain ⟨hwf,hnext,hother,hkeep⟩ := h.pruneEntry now (hes e List.mem_cons_self)
      have hrest : ∀ e' ∈ es, (s.pruneEntry now e).records.get e'.1 = some e'.2 := by
        intro e' he'
        have hne : e'.1 ≠ e.1 := by
          intro heq
          exact hnodup.1 (heq ▸ List.mem_map_of_mem he')
        rw [hother e'.1 hne]
        exact hes e' (List.mem_cons_of_mem e he')
      obtain ⟨hwf',hnext',hkeep'⟩ := ih hwf hnodup.2 hrest
      exact ⟨hwf',hnext'.trans hnext,fun k r hr hlive => hkeep' k r (hkeep k r hr hlive) hlive⟩

theorem WellFormed.pruneExpired (h : s.WellFormed) (now : ℤ) :
    (s.pruneExpired now).WellFormed ∧ (s.pruneExpired now).nextToken = s.nextToken ∧
    ∀ k r, s.records.get k = some r → now < r.expiresAt →
      (s.pruneExpired now).records.get k = some r :=
  h.pruneLoop now s.records.entries s.records.nodup fun _ he => InsertionMap.get_eq_some.mpr he

/-- A claim of a free key. -/
def claim (s : InMemoryIdempotencyStore) (entry : IdempotencyEntry) (claimAt : ℤ) :
    InMemoryIdempotencyStore :=
  { s with
    records := s.records.set (cacheKey entry)
      ⟨s.nextToken,entry.requestHash,claimAt + s.ttlMs,.pending⟩
    tokens := s.tokens.set s.nextToken (cacheKey entry)
    nextToken := s.nextToken + 1 }

theorem WellFormed.holder_claim {entry : IdempotencyEntry} (claimAt : ℤ) (k : String) :
    (s.claim entry claimAt).holder k =
      if k = cacheKey entry then some s.nextToken else s.holder k := by
  by_cases hk : k = cacheKey entry
  · subst hk
    simp [claim,holder]
  · simp [claim,holder,hk,InsertionMap.get_set_of_ne _ hk]

theorem WellFormed.claim (h : s.WellFormed) {entry : IdempotencyEntry}
    (hfree : s.holder (cacheKey entry) = none) (claimAt : ℤ) :
    (s.claim entry claimAt).WellFormed where
  registered token key := by
    rw [holder_claim]
    by_cases ht : token = s.nextToken
    · subst ht
      have hself : (s.claim entry claimAt).tokens.get s.nextToken = some (cacheKey entry) :=
        InsertionMap.get_set_self ..
      rw [hself]
      by_cases hk : key = cacheKey entry
      · simp [hk]
      · rw [if_neg hk]
        constructor
        · intro heq
          exact absurd (Option.some.inj heq).symm hk
        · intro hheld
          exact absurd (h.fresh _ _ hheld) (Nat.lt_irrefl _)
    · have hsame : (s.claim entry claimAt).tokens.get token = s.tokens.get token :=
        InsertionMap.get_set_of_ne _ ht _
      rw [hsame,h.registered token key]
      by_cases hk : key = cacheKey entry
      · subst hk
        rw [hfree,if_pos rfl]
        simp [Ne.symm ht]
      · rw [if_neg hk]
  fresh token key hkey := by
    rw [holder_claim] at hkey
    by_cases hk : key = cacheKey entry
    · rw [if_pos hk] at hkey
      cases hkey
      exact Nat.lt_succ_self _
    · rw [if_neg hk] at hkey
      exact Nat.lt_succ_of_lt (h.fresh token key hkey)

/-- Everything `begin` can do: find the key held, or claim it with a new token. -/
theorem begin_cases (s : InMemoryIdempotencyStore) (entry : IdempotencyEntry)
    (pruneAt claimAt : ℤ) :
    ((∀ t, (s.begin entry pruneAt claimAt).1 ≠ .started t) ∧
      (s.begin entry pruneAt claimAt).2 = s.pruneExpired pruneAt) ∨
    (s.pruneExpired pruneAt).holder (cacheKey entry) = none ∧
      s.begin entry pruneAt claimAt =
        (.started (s.pruneExpired pruneAt).nextToken,
          (s.pruneExpired pruneAt).claim entry claimAt) := by
  unfold InMemoryIdempotencyStore.begin
  simp only
  split
  · left
    split
    · exact ⟨by simp,rfl⟩
    · split
      · exact ⟨by simp,rfl⟩
      · exact ⟨by simp,rfl⟩
  · rename_i hnone
    right
    exact ⟨by simp [holder,hnone],rfl⟩

theorem WellFormed.begin (h : s.WellFormed) (entry : IdempotencyEntry) (pruneAt claimAt : ℤ) :
    (s.begin entry pruneAt claimAt).2.WellFormed ∧
    s.nextToken ≤ (s.begin entry pruneAt claimAt).2.nextToken ∧
    (∀ k r, s.records.get k = some r → pruneAt < r.expiresAt →
      (s.begin entry pruneAt claimAt).2.holder k = some r.token) ∧
    ∀ t, (s.begin entry pruneAt claimAt).1 = .started t →
      t = s.nextToken ∧ (s.begin entry pruneAt claimAt).2.nextToken = s.nextToken + 1 ∧
      (s.begin entry pruneAt claimAt).2.holder (cacheKey entry) = some t := by
  obtain ⟨hwf,hnext,hkeep⟩ := h.pruneExpired pruneAt
  have hheld : ∀ k r, s.records.get k = some r → pruneAt < r.expiresAt →
      (s.pruneExpired pruneAt).holder k = some r.token := by
    intro k r hr hlive
    simp [holder,hkeep k r hr hlive]
  rcases s.begin_cases entry pruneAt claimAt with ⟨hno,hstore⟩ | ⟨hfree,hbegin⟩
  · rw [hstore]
    exact ⟨hwf,Nat.le_of_eq hnext.symm,hheld,fun t ht => absurd ht (hno t)⟩
  · rw [hbegin]
    refine ⟨hwf.claim hfree claimAt,?_,?_,?_⟩
    · simp only [InMemoryIdempotencyStore.claim,hnext]
      exact Nat.le_succ _
    · intro k r hr hlive
      have hk : k ≠ cacheKey entry := by
        intro heq
        rw [← heq,hheld k r hr hlive] at hfree
        cases hfree
      rw [WellFormed.holder_claim,if_neg hk]
      exact hheld k r hr hlive
    · intro t ht
      cases ht
      rw [WellFormed.holder_claim,if_pos rfl]
      exact ⟨hnext,by simp [InMemoryIdempotencyStore.claim,hnext],rfl⟩

theorem wellFormed_new (ttlMs : ℤ) : WellFormed { ttlMs } where
  registered token key := by simp [holder]
  fresh token key hkey := by simp [holder] at hkey

end InMemoryIdempotencyStore
end Creditra.IdempotencyStore
