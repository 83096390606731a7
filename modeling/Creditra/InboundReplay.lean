import Creditra.InboundWebhookSignature
import Mathlib.Tactic.Linarith

/-!
# Replays of an accepted webhook

The freshness window of a timestamp is closed at both ends, while a claim made
in it is dropped at the very instant it expires. A claim made no later than the
sending time expires exactly when the window closes, and at that instant the
same request is fresh and its nonce is free again.

Away from that instant an accepted request is never accepted again: as long as
its claim is kept the nonce is refused, and once the claim is dropped the clock
has passed the end of the window.
-/
namespace Creditra.InboundReplay
open InsertionMaps JsStrings InboundWebhookSignature

/-- Same timestamp, nonce, raw body and signature. -/
def Identical (r r' : InboundRequest) : Prop :=
  headerValue r.xTimestamp = headerValue r'.xTimestamp ∧
    headerValue r.xNonce = headerValue r'.xNonce ∧
    headerValue r.xSignature = headerValue r'.xSignature ∧ r.rawBody = r'.rawBody

instance (r r' : InboundRequest) : Decidable (Identical r r') := by
  unfold Identical
  infer_instance

/-- The readings of one clock that does not run backwards. -/
structure ClockOrdered (arrivals : List Arrival) : Prop where
  within : ∀ a ∈ arrivals, a.skewAt ≤ a.claimAt ∧ a.claimAt ≤ a.purgeAt
  across : arrivals.Pairwise fun a b => a.purgeAt ≤ b.skewAt

section
variable (dateParse : String → Option ℤ) (hmac : String → Bytes → Bytes) (options : Options)

/-- `b` repeats `a`, both pass every check before the claim, and the claim of `a`
has expired when the store is purged for `b`. -/
def LateReplay (a b : Arrival) : Prop :=
  Identical a.request b.request ∧
    match checks dateParse hmac options a.request a.skewAt with
    | .error _ => False
    | .ok passed =>
        checks dateParse hmac options b.request b.skewAt = .ok passed ∧
          max a.claimAt passed.2 + options.toleranceMs ≤ b.purgeAt

instance (a b : Arrival) : Decidable (LateReplay dateParse hmac options a b) := by
  unfold LateReplay
  cases checks dateParse hmac options a.request a.skewAt <;> infer_instance

/-- No two identical requests are both passed on. -/
def AcceptedOnce (nonces : NonceStore) (arrivals : List Arrival) : Prop :=
  (arrivals.zip (verdicts dateParse hmac options nonces arrivals)).Pairwise fun p q =>
    Identical p.1.request q.1.request → p.2 = .next → q.2 ≠ .next

instance (nonces : NonceStore) (arrivals : List Arrival) :
    Decidable (AcceptedOnce dateParse hmac options nonces arrivals) := by
  unfold AcceptedOnce
  infer_instance

end

section Claims
variable {nonces : NonceStore} {nonce nonce' : String} {expires expires' now : ℚ}

theorem purgeExpired_kept (h : nonces.get nonce = some expires) (hlive : now < expires) :
    (purgeExpired nonces now).2.get nonce = some expires := by
  rw [purgeExpired,InsertionMap.get_filter_eq_some]
  exact ⟨h,by simpa using hlive⟩

/-- A live claim is refused to a second claimant and kept from the purge. -/
theorem claim_of_live (h : nonces.get nonce = some expires) (hlive : now < expires) :
    (claim nonces nonce' expires' now).2.get nonce = some expires ∧
      (nonce' = nonce → (claim nonces nonce' expires' now).1 = false) := by
  have hkept := purgeExpired_kept h hlive
  unfold claim
  simp only
  split
  · exact ⟨hkept,fun _ => rfl⟩
  · rename_i hfree
    have hne : nonce ≠ nonce' := by
      intro heq
      rw [← heq,hkept] at hfree
      exact hfree rfl
    exact ⟨by rw [InsertionMap.get_set_of_ne _ hne,hkept],fun heq => absurd heq.symm hne⟩

/-- A successful claim is in the store with its expiry. -/
theorem claim_get (h : (claim nonces nonce expires now).1 = true) :
    (claim nonces nonce expires now).2.get nonce = some expires := by
  unfold claim at h ⊢
  simp only at h ⊢
  split at h
  · cases h
  · rename_i hfree
    rw [if_neg hfree]
    exact InsertionMap.get_set_self ..

end Claims

section Verdicts
variable {dateParse : String → Option ℤ} {hmac : String → Bytes → Bytes} {options : Options}

/-- What a request that reaches the claim has shown. -/
theorem checks_eq_ok {request : InboundRequest} {skewAt : ℚ} {passed : String × ℤ}
    (h : checks dateParse hmac options request skewAt = .ok passed) :
    passed.1 = headerValue request.xNonce ∧
      parseWebhookTimestamp dateParse (headerValue request.xTimestamp) = some passed.2 ∧
      |skewAt - passed.2| ≤ options.toleranceMs := by
  unfold checks at h
  simp only at h
  split at h
  · cases h
  · split at h
    · cases h
    · split at h
      · cases h
      · split at h
        · cases h
        · rename_i sentAtMs hsent
          split at h
          · cases h
          · rename_i hfresh
            split at h
            · cases h
            · split at h
              · cases h
              · split at h
                · cases h
                · cases h
                  exact ⟨rfl,hsent,not_lt.mp hfresh⟩

/-- A request that fails a check touches no nonce. -/
theorem rejected {nonces : NonceStore} {a : Arrival} {e : ℕ × String}
    (h : checks dateParse hmac options a.request a.skewAt = .error e) :
    inboundWebhookSignature dateParse hmac options nonces a = (.reply e.1 e.2,nonces) := by
  unfold inboundWebhookSignature
  rw [h]

theorem passedOn {nonces : NonceStore} {a : Arrival} {passed : String × ℤ}
    (h : checks dateParse hmac options a.request a.skewAt = .ok passed) :
    inboundWebhookSignature dateParse hmac options nonces a =
      (if (claim nonces passed.1 (max a.claimAt passed.2 + options.toleranceMs) a.purgeAt).1
        then .next else .reply 401 "Replay detected",
        (claim nonces passed.1 (max a.claimAt passed.2 + options.toleranceMs) a.purgeAt).2) := by
  unfold inboundWebhookSignature
  rw [h]

/-- An accepted request has passed the checks, and its claim is recorded. -/
theorem accepted {nonces : NonceStore} {a : Arrival}
    (h : (inboundWebhookSignature dateParse hmac options nonces a).1 = .next) :
    ∃ passed, checks dateParse hmac options a.request a.skewAt = .ok passed ∧
      (claim nonces passed.1 (max a.claimAt passed.2 + options.toleranceMs) a.purgeAt).1 = true ∧
      (inboundWebhookSignature dateParse hmac options nonces a).2.get passed.1 =
        some (max a.claimAt passed.2 + options.toleranceMs) := by
  cases hchecks : checks dateParse hmac options a.request a.skewAt with
  | error e =>
      rw [rejected hchecks] at h
      cases h
  | ok passed =>
      rw [passedOn hchecks] at h ⊢
      have hclaimed : (claim nonces passed.1 (max a.claimAt passed.2 + options.toleranceMs)
          a.purgeAt).1 = true := by
        by_contra hno
        simp [hno] at h
      exact ⟨passed,rfl,hclaimed,claim_get hclaimed⟩

theorem Identical.checks {a b : Arrival} (h : Identical a.request b.request)
    {passed passed' : String × ℤ}
    (ha : InboundWebhookSignature.checks dateParse hmac options a.request a.skewAt = .ok passed)
    (hb : InboundWebhookSignature.checks dateParse hmac options b.request b.skewAt = .ok passed') :
    passed' = passed := by
  obtain ⟨hn,ht,-⟩ := checks_eq_ok ha
  obtain ⟨hn',ht',-⟩ := checks_eq_ok hb
  obtain ⟨hts,hns,-⟩ := h
  rw [hts,ht'] at ht
  exact Prod.ext (hn'.trans (hns.symm.trans hn.symm)) (Option.some.inj ht)

/-- The claim of `a` is still in the store, or a purge has dropped it and the
clock of everything to come has passed its expiry. -/
def Spent (options : Options) (a : Arrival) (passed : String × ℤ) (nonces : NonceStore)
    (rest : List Arrival) : Prop :=
  nonces.get passed.1 = some (max a.claimAt passed.2 + options.toleranceMs) ∨
    ∀ b ∈ rest, max a.claimAt passed.2 + options.toleranceMs ≤ b.skewAt

/-- One request keeps the claim of `a` spent, for the requests after it. -/
theorem Spent.step {a b : Arrival} {passed : String × ℤ} {nonces : NonceStore}
    {rest : List Arrival} (h : Spent options a passed nonces (b :: rest))
    (hacross : ∀ c ∈ rest, b.purgeAt ≤ c.skewAt) :
    Spent options a passed (inboundWebhookSignature dateParse hmac options nonces b).2 rest := by
  rcases h with hkept | hpast
  · cases hchecks : checks dateParse hmac options b.request b.skewAt with
    | error e =>
        rw [rejected hchecks]
        exact .inl hkept
    | ok passed' =>
        rw [passedOn hchecks]
        by_cases hlive : b.purgeAt < max a.claimAt passed.2 + options.toleranceMs
        · exact .inl (claim_of_live hkept hlive).1
        · right
          intro c hc
          exact (not_lt.mp hlive).trans (hacross c hc)
  · right
    intro c hc
    exact hpast c (List.mem_cons_of_mem b hc)

/-- While the claim of `a` is spent, a repetition of `a` is accepted only as a
late replay. -/
theorem Spent.refused {a b : Arrival} {passed : String × ℤ} {nonces : NonceStore}
    {rest : List Arrival} (h : Spent options a passed nonces (b :: rest))
    (ha : checks dateParse hmac options a.request a.skewAt = .ok passed)
    (hb : b.skewAt ≤ b.purgeAt) (hsame : Identical a.request b.request)
    (hlate : ¬ LateReplay dateParse hmac options a b) :
    (inboundWebhookSignature dateParse hmac options nonces b).1 ≠ .next := by
  intro hnext
  obtain ⟨passed',hchecks,hclaimed,-⟩ := accepted hnext
  have hpassed := hsame.checks ha hchecks
  subst hpassed
  have hlive : b.purgeAt < max a.claimAt passed'.2 + options.toleranceMs := by
    by_contra hexpired
    apply hlate
    unfold LateReplay
    rw [ha]
    exact ⟨hsame,hchecks,not_lt.mp hexpired⟩
  rcases h with hkept | hpast
  · rw [(claim_of_live hkept hlive).2 rfl] at hclaimed
    cases hclaimed
  · have hskew := hpast b List.mem_cons_self
    linarith

/-- Over everything that comes after an accepted request. -/
theorem Spent.verdicts {a : Arrival} {passed : String × ℤ} {nonces : NonceStore}
    {rest : List Arrival} (h : Spent options a passed nonces rest)
    (ha : checks dateParse hmac options a.request a.skewAt = .ok passed)
    (hclock : ClockOrdered rest)
    (hlate : ∀ b ∈ rest, ¬ LateReplay dateParse hmac options a b) :
    ∀ q ∈ rest.zip (InboundWebhookSignature.verdicts dateParse hmac options nonces rest),
      Identical a.request q.1.request → q.2 ≠ .next := by
  induction rest generalizing nonces with
  | nil => simp
  | cons b rest ih =>
      obtain ⟨hwithin,hacross⟩ := hclock
      rw [List.pairwise_cons] at hacross
      have hb := hwithin b List.mem_cons_self
      have hclock' : ClockOrdered rest :=
        ⟨fun c hc => hwithin c (List.mem_cons_of_mem b hc),hacross.2⟩
      intro q hq hsame
      rw [InboundWebhookSignature.verdicts,List.zip_cons_cons,List.mem_cons] at hq
      cases hq with
      | inl hhead =>
          subst hhead
          exact h.refused ha (hb.1.trans hb.2) hsame (hlate b List.mem_cons_self)
      | inr htail =>
          exact ih (h.step hacross.1) hclock' (fun c hc => hlate c (List.mem_cons_of_mem b hc)) q
            htail hsame

end Verdicts

/-- On a clock that does not run backwards, and without late replays, an
identical request is accepted at most once. -/
theorem accepted_once_of_no_late_replay (dateParse : String → Option ℤ)
    (hmac : String → Bytes → Bytes) (options : Options) (nonces : NonceStore)
    (arrivals : List Arrival) (hclock : ClockOrdered arrivals)
    (hlate : arrivals.Pairwise fun a b => ¬ LateReplay dateParse hmac options a b) :
    AcceptedOnce dateParse hmac options nonces arrivals := by
  induction arrivals generalizing nonces with
  | nil => exact List.Pairwise.nil
  | cons a rest ih =>
      obtain ⟨hwithin,hacross⟩ := hclock
      rw [List.pairwise_cons] at hacross hlate
      have hclock' : ClockOrdered rest :=
        ⟨fun c hc => hwithin c (List.mem_cons_of_mem a hc),hacross.2⟩
      unfold AcceptedOnce
      rw [verdicts,List.zip_cons_cons,List.pairwise_cons]
      constructor
      · intro q hq hsame hnext
        obtain ⟨passed,hchecks,-,hclaimed⟩ := accepted hnext
        exact Spent.verdicts (.inl hclaimed) hchecks hclock' hlate.1 q hq hsame
      · exact ih (inboundWebhookSignature dateParse hmac options nonces a).2 hclock' hlate.2

/-- A signed request sent at 1700000000 seconds. -/
def signedRequest : InboundRequest :=
  ⟨.one "1700000000",.one "n1",
    .one "sha256=e4f5738e117e2a62be851c02fe08298fd5cb4cf9f64b8de4cf0ec9c99d64ee60",
    some (utf8 "\x7b\x7d")⟩

/-- HMAC-SHA256 under `whsec_test`, at the bytes signed for `signedRequest`. -/
def testHmac (_secret : String) (input : Bytes) : Bytes :=
  if input = signingInput "1700000000" "n1" (utf8 "\x7b\x7d") then
    hexDecode "e4f5738e117e2a62be851c02fe08298fd5cb4cf9f64b8de4cf0ec9c99d64ee60".toList
  else []

/-- All clock readings of a request fall in the same millisecond. -/
def arriving (now : ℚ) : Arrival := ⟨signedRequest,now,now,now⟩

def testOptions : Options := ⟨"whsec_test",resolveToleranceMs (some 1000) none⟩

/-- The signature is checked once; the clock only matters to the window. -/
theorem checks_signedRequest {now : ℚ} (h : |now - 1700000000000| ≤ 1000) :
    checks (fun _ => none) testHmac testOptions signedRequest now = .ok ("n1",1700000000000) := by
  have hsent : checks (fun _ => none) testHmac testOptions signedRequest 1700000000000 =
      .ok ("n1",1700000000000) := by decide +kernel
  have htime : parseWebhookTimestamp (fun _ => none) (headerValue signedRequest.xTimestamp) =
      some 1700000000000 := by decide +kernel
  have htolerance : testOptions.toleranceMs = 1000 := by decide +kernel
  have hfresh : ¬ |now - ((1700000000000 : ℤ) : ℚ)| > (1000 : ℚ) := by
    push_cast
    exact not_lt.mpr h
  have hsame : ¬ |(1700000000000 : ℚ) - ((1700000000000 : ℤ) : ℚ)| > (1000 : ℚ) := by norm_num
  rw [← hsent]
  unfold checks
  dsimp only
  rw [htime,htolerance]
  dsimp only
  rw [if_neg hfresh,if_neg hsame]

/-- Accepted half a second after it was sent, refused while its claim lives, and
stale one millisecond after the window. -/
theorem accepted_once_of_no_late_replay_fresh :
    ClockOrdered [arriving 1700000000500,arriving 1700000000900,arriving 1700000001001] ∧
    [arriving 1700000000500,arriving 1700000000900,arriving 1700000001001].Pairwise
      (fun a b => ¬ LateReplay (fun _ => none) testHmac testOptions a b) ∧
    AcceptedOnce (fun _ => none) testHmac testOptions .empty
      [arriving 1700000000500,arriving 1700000000900,arriving 1700000001001] := by
  have hclock : ClockOrdered
      [arriving 1700000000500,arriving 1700000000900,arriving 1700000001001] :=
    ⟨by decide +kernel,by decide +kernel⟩
  have hkept : ¬ LateReplay (fun _ => none) testHmac testOptions (arriving 1700000000500)
      (arriving 1700000000900) := by
    have hfresh : |(1700000000500 : ℚ) - 1700000000000| ≤ 1000 := by norm_num [abs_le]
    have hpassed : checks (fun _ => none) testHmac testOptions (arriving 1700000000500).request
        (arriving 1700000000500).skewAt = .ok ("n1",1700000000000) := checks_signedRequest hfresh
    have hlive : ¬ max (arriving 1700000000500).claimAt ((1700000000000 : ℤ) : ℚ) +
        testOptions.toleranceMs ≤ (arriving 1700000000900).purgeAt := by decide +kernel
    intro h
    unfold LateReplay at h
    rw [hpassed] at h
    exact hlive h.2.2
  have hstale : ∀ now, ¬ LateReplay (fun _ => none) testHmac testOptions (arriving now)
      (arriving 1700000001001) := by
    have hrefused : checks (fun _ => none) testHmac testOptions signedRequest 1700000001001 =
        .error (401,"Stale webhook timestamp") := by decide +kernel
    intro now h
    unfold LateReplay at h
    obtain ⟨-,h⟩ := h
    split at h
    · exact h
    · rw [arriving,hrefused] at h
      cases h.1
  have hlate : [arriving 1700000000500,arriving 1700000000900,arriving 1700000001001].Pairwise
      (fun a b => ¬ LateReplay (fun _ => none) testHmac testOptions a b) := by
    simp [hkept,hstale]
  exact ⟨hclock,hlate,accepted_once_of_no_late_replay _ _ _ _ _ hclock hlate⟩

/-- Accepted at the millisecond it was sent, and again at the millisecond its
window closes. -/
theorem replay_accepted_at_window_end :
    ClockOrdered [arriving 1700000000000,arriving 1700000001000] ∧
    verdicts (fun _ => none) testHmac testOptions .empty
      [arriving 1700000000000,arriving 1700000001000] = [.next,.next] ∧
    ¬ AcceptedOnce (fun _ => none) testHmac testOptions .empty
      [arriving 1700000000000,arriving 1700000001000] := by
  have hclock : ClockOrdered [arriving 1700000000000,arriving 1700000001000] :=
    ⟨by decide +kernel,by decide +kernel⟩
  have hsent : |(1700000000000 : ℚ) - 1700000000000| ≤ 1000 := by norm_num
  have hend : |(1700000001000 : ℚ) - 1700000000000| ≤ 1000 := by norm_num [abs_le]
  have hfirst : checks (fun _ => none) testHmac testOptions (arriving 1700000000000).request
      (arriving 1700000000000).skewAt = .ok ("n1",1700000000000) := checks_signedRequest hsent
  have hsecond : checks (fun _ => none) testHmac testOptions (arriving 1700000001000).request
      (arriving 1700000001000).skewAt = .ok ("n1",1700000000000) := checks_signedRequest hend
  have htwice : verdicts (fun _ => none) testHmac testOptions .empty
      [arriving 1700000000000,arriving 1700000001000] = [.next,.next] := by
    rw [verdicts,verdicts,verdicts,passedOn hfirst,passedOn hsecond]
    decide +kernel
  have honce : ¬ AcceptedOnce (fun _ => none) testHmac testOptions .empty
      [arriving 1700000000000,arriving 1700000001000] := by
    unfold AcceptedOnce
    rw [htwice]
    decide
  exact ⟨hclock,htwice,honce⟩

end Creditra.InboundReplay
