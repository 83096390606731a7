import Creditra.IdempotencyAgreement

/-!
# Generations of claims in the in-memory store

A cache key is claimed again and again, each time under a new token. The calls
`complete` and `fail` come with tokens only, in any order, any number of times
and at any time; the tokens map decides which record they reach. It is the
inverse of the records map in every state, so a token whose claim has failed or
has been pruned reaches nothing any more.
-/
namespace Creditra.IdempotencyGenerations
open GuardedRuns IdempotencyAgreement IdempotencyStore InsertionMaps

inductive Call where
  | begin (entry : IdempotencyEntry) (pruneAt claimAt : ℤ)
  | complete (token : Token) (response : CachedIdempotencyResponse) (now : ℤ)
  | fail (token : Token)

def step (s : InMemoryIdempotencyStore) : Call → InMemoryIdempotencyStore
  | .begin entry pruneAt claimAt => (s.begin entry pruneAt claimAt).2
  | .complete token response now => s.complete token response now
  | .fail token => s.fail token

section Steps
variable {s : InMemoryIdempotencyStore}

theorem wellFormed_step (s : InMemoryIdempotencyStore) (call : Call) (h : s.WellFormed) :
    (step s call).WellFormed := by
  cases call with
  | begin entry pruneAt claimAt => exact (h.begin entry pruneAt claimAt).1
  | complete token response now => exact (h.complete token response now).1
  | fail token => exact (h.fail token).1

theorem wellFormed_run (ttlMs : ℤ) (calls : List Call) :
    (run step { ttlMs } calls).WellFormed :=
  run_induction (I := InMemoryIdempotencyStore.WellFormed) wellFormed_step
    (InMemoryIdempotencyStore.wellFormed_new ttlMs) calls

/-- A token that was handed out and holds nothing any more. -/
def Ended (token : Token) (s : InMemoryIdempotencyStore) : Prop :=
  token < s.nextToken ∧ s.tokens.get token = none

theorem ended_iff (h : s.WellFormed) {token : Token} :
    Ended token s ↔ token < s.nextToken ∧ ∀ key, s.holder key ≠ some token := by
  unfold Ended
  rw [Option.eq_none_iff_forall_ne_some]
  simp only [ne_eq,h.registered]

/-- Who holds a key after `begin` held it before, or has the new token. -/
theorem holder_begin (h : s.WellFormed) (entry : IdempotencyEntry) (pruneAt claimAt : ℤ)
    {key : String} {token : Token}
    (hkey : (s.begin entry pruneAt claimAt).2.holder key = some token) :
    token = s.nextToken ∨ ∃ record, s.records.get key = some record ∧ record.token = token ∧
      pruneAt < record.expiresAt := by
  have hpruned : ∀ k, (s.pruneExpired pruneAt).holder k = some token →
      ∃ record, s.records.get k = some record ∧ record.token = token ∧
        pruneAt < record.expiresAt := by
    intro k hk
    obtain ⟨record,hrecord,htoken⟩ := Option.map_eq_some_iff.mp hk
    rw [get_pruneExpired,Option.filter_eq_some_iff] at hrecord
    exact ⟨record,hrecord.1,htoken,of_decide_eq_true hrecord.2⟩
  rcases s.begin_cases entry pruneAt claimAt with ⟨-,hstore⟩ | ⟨-,hbegin⟩
  · rw [hstore] at hkey
    exact .inr (hpruned key hkey)
  · rw [hbegin,InMemoryIdempotencyStore.WellFormed.holder_claim] at hkey
    split at hkey
    · left
      rw [← Option.some.inj hkey]
      exact (h.pruneExpired pruneAt).2.1
    · exact .inr (hpruned key hkey)

theorem ended_step (s : InMemoryIdempotencyStore) (call : Call) {token : Token}
    (h : s.WellFormed ∧ Ended token s) :
    (step s call).WellFormed ∧ Ended token (step s call) := by
  obtain ⟨hwf,hended⟩ := h
  refine ⟨wellFormed_step s call hwf,?_⟩
  rw [ended_iff hwf] at hended
  rw [ended_iff (wellFormed_step s call hwf)]
  cases call with
  | begin entry pruneAt claimAt =>
      refine ⟨Nat.lt_of_lt_of_le hended.1 (hwf.begin entry pruneAt claimAt).2.1,?_⟩
      intro key hkey
      rcases holder_begin hwf entry pruneAt claimAt hkey with hnew | ⟨record,hrecord,htoken,-⟩
      · exact absurd hnew (Nat.ne_of_lt hended.1)
      · exact hended.2 key (by simp [InMemoryIdempotencyStore.holder,hrecord,htoken])
  | complete t response now =>
      obtain ⟨-,hnext,hholder⟩ := hwf.complete t response now
      simp only [step]
      rw [hnext,hholder]
      exact hended
  | fail t =>
      obtain ⟨-,hnext,hholder⟩ := hwf.fail t
      simp only [step]
      refine ⟨hnext ▸ hended.1,?_⟩
      intro key hkey
      rw [hholder,Option.filter_eq_some_iff] at hkey
      exact hended.2 key hkey.1

/-- The call ends the generation of a token: it fails the token, or prunes its expired record. -/
def Ends (token : Token) (s : InMemoryIdempotencyStore) : Call → Prop
  | .begin _ pruneAt _ =>
      ∃ key record, s.records.get key = some record ∧ record.token = token ∧
        record.expiresAt ≤ pruneAt
  | .complete .. => False
  | .fail t => t = token ∧ token < s.nextToken

theorem ended_of_ends (h : s.WellFormed) {token : Token} {call : Call} (hends : Ends token s call) :
    Ended token (step s call) := by
  rw [ended_iff (wellFormed_step s call h)]
  cases call with
  | begin entry pruneAt claimAt =>
      obtain ⟨key,record,hrecord,htoken,hexpired⟩ := hends
      have hheld : s.holder key = some token := by
        simp [InMemoryIdempotencyStore.holder,hrecord,htoken]
      have hissued := h.fresh token key hheld
      refine ⟨Nat.lt_of_lt_of_le hissued (h.begin entry pruneAt claimAt).2.1,?_⟩
      intro k hk
      rcases holder_begin h entry pruneAt claimAt hk with hnew | ⟨other,hother,htoken',hlive⟩
      · exact absurd hnew (Nat.ne_of_lt hissued)
      · have hheld' : s.holder k = some token := by
          simp [InMemoryIdempotencyStore.holder,hother,htoken']
        rw [h.holder_unique hheld' hheld,hrecord,Option.some.injEq] at hother
        rw [← hother] at hlive
        omega
  | complete t response now => exact hends.elim
  | fail t =>
      obtain ⟨rfl,hissued⟩ := hends
      obtain ⟨-,hnext,hholder⟩ := h.fail t
      simp only [step]
      refine ⟨hnext ▸ hissued,?_⟩
      intro key hkey
      rw [hholder,Option.filter_eq_some_iff] at hkey
      simp at hkey

/-- What a late call of an ended token does. -/
theorem Ended.untouched {token : Token} (h : Ended token s) (response : CachedIdempotencyResponse)
    (now : ℤ) : s.complete token response now = s ∧ s.fail token = s := by
  unfold InMemoryIdempotencyStore.complete InMemoryIdempotencyStore.fail
  rw [h.2]
  exact ⟨rfl,rfl⟩

/-- A call by token leaves the records of other tokens as they are. -/
theorem others_untouched (h : s.WellFormed) {token : Token} (response : CachedIdempotencyResponse)
    (now : ℤ) {key : String} {record : MemoryRecord} (hr : s.records.get key = some record)
    (hne : record.token ≠ token) :
    (s.complete token response now).records.get key = some record ∧
      (s.fail token).records.get key = some record := by
  rw [get_complete h,get_fail h,hr,Option.map_some,if_neg hne,Option.filter_some_pos (by simpa)]
  exact ⟨rfl,rfl⟩

end Steps

/-- Hashes of one length leave the joined key no other reading. -/
theorem cacheKey_separates {entry entry' : IdempotencyEntry}
    (hkey : entry.keyHash.length = entry'.keyHash.length)
    (hprincipal : entry.principalHash.length = entry'.principalHash.length)
    (h : cacheKey entry = cacheKey entry') :
    entry.keyHash = entry'.keyHash ∧ entry.scope = entry'.scope ∧
      entry.principalHash = entry'.principalHash := by
  have hlist := congrArg String.toList h
  unfold cacheKey at hlist
  simp only [String.toList_append,List.append_assoc] at hlist
  rw [← String.length_toList,← String.length_toList] at hkey hprincipal
  obtain ⟨hfirst,hrest⟩ := List.append_inj hlist hkey
  have hrest := List.append_cancel_left hrest
  obtain ⟨hscope,hlast⟩ := List.append_inj' hrest (by
    rw [List.length_append,List.length_append,hprincipal])
  have hlast := List.append_cancel_left hlast
  exact ⟨String.toList_inj.mp hfirst,String.toList_inj.mp hscope,String.toList_inj.mp hlast⟩

/-- In every reachable state the tokens map is the inverse of the records map, a late call reaches
no record but that of its own token, and a token whose generation has ended reaches none. -/
theorem store_consistent (ttlMs : ℤ) (calls : List Call) :
    (∀ token key, (run step { ttlMs } calls).tokens.get token = some key ↔
      ∃ record, (run step { ttlMs } calls).records.get key = some record ∧
        record.token = token) ∧
    (∀ entry entry', entry.keyHash.length = entry'.keyHash.length →
      entry.principalHash.length = entry'.principalHash.length →
      cacheKey entry = cacheKey entry' →
        entry.keyHash = entry'.keyHash ∧ entry.scope = entry'.scope ∧
          entry.principalHash = entry'.principalHash) ∧
    (∀ token response now key record,
      (run step { ttlMs } calls).records.get key = some record → record.token ≠ token →
        ((run step { ttlMs } calls).complete token response now).records.get key = some record ∧
        ((run step { ttlMs } calls).fail token).records.get key = some record) ∧
    ∀ token earlier call later, calls = earlier ++ call :: later →
      Ends token (run step { ttlMs } earlier) call → ∀ response now,
        (run step { ttlMs } calls).complete token response now = run step { ttlMs } calls ∧
        (run step { ttlMs } calls).fail token = run step { ttlMs } calls := by
  have hwf := wellFormed_run ttlMs calls
  refine ⟨fun token key => tokens_get hwf,fun _ _ => cacheKey_separates,?_,?_⟩
  · intro token response now key record hr hne
    exact others_untouched hwf response now hr hne
  · intro token earlier call later hcalls hends response now
    have hbefore := wellFormed_run ttlMs earlier
    have hended : Ended token (run step { ttlMs } calls) := by
      rw [hcalls,run_append,run_cons]
      exact (run_induction (I := fun s => s.WellFormed ∧ Ended token s)
        (fun s call h => ended_step s call h)
        ⟨wellFormed_step _ call hbefore,ended_of_ends hbefore hends⟩ later).2
    exact hended.untouched response now

/-- A claim that fails and the next claim of its key. -/
def retried : List Call :=
  [.begin ⟨"k","POST:/draw","p","h"⟩ 0 0,.fail 0,.begin ⟨"k","POST:/draw","p","h"⟩ 1 1]

theorem store_consistent_retried :
    (run step { ttlMs := 10 } retried).complete 0 ⟨201,.null⟩ 2 =
        run step { ttlMs := 10 } retried ∧
      (run step { ttlMs := 10 } retried).fail 0 = run step { ttlMs := 10 } retried := by
  have hends : Ends 0 (run step { ttlMs := 10 } (retried.take 1)) (.fail 0) :=
    ⟨rfl,by decide⟩
  exact (store_consistent 10 retried).2.2.2 0 _ _ _ rfl hends ⟨201,.null⟩ 2

end Creditra.IdempotencyGenerations
