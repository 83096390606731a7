import Creditra.IdempotencyAgreement
import Creditra.IdempotencyMiddleware
import Creditra.JsonKeyOrder
import Creditra.SigningInput

/-!
# The fingerprint of an idempotent request

The request hash is the hash of method, path, query and body as
`stableStringify` prints them. The text says what these are but for the order of
their keys. The store compares the hash with that of the request which claimed
the key, so a `begin` answers with a conflict exactly when the key is held by a
request that differs in more than the order of its keys.
-/
namespace Creditra.IdempotencyFingerprints
open GuardedRuns IdempotencyMiddleware IdempotencyStore InsertionMaps JsonKeyOrder JsonRoundTrip
open JsonValues
open IdempotencyAgreement (answer begin_of_free begin_of_record get_complete get_fail
  get_pruneExpired)
open JsStrings (sortsBefore sortsBefore_iff utf16_injective)

/-! ## The text -/

theorem arranges_sortsBefore : Arranges sortsBefore where
  total a b := by
    rw [sortsBefore_iff,sortsBefore_iff]
    exact le_total _ _
  trans hab hbc := by
    rw [sortsBefore_iff] at *
    exact le_trans hab hbc
  antisymm hab hba := by
    rw [sortsBefore_iff] at hab hba
    exact utf16_injective (le_antisymm hab hba)

theorem commas_eq_intercalate (texts : List (List Char)) :
    commas texts = [','].intercalate texts := by
  induction texts with
  | nil => rfl
  | cons text texts ih =>
      cases texts with
      | nil => simp [commas]
      | cons next texts =>
          rw [commas,ih,List.intercalate_cons_cons,List.append_assoc]
          rfl

theorem toList_intercalate_comma (texts : List String) :
    (String.intercalate "," texts).toList = commas (texts.map String.toList) := by
  rw [String.toList_intercalate,commas_eq_intercalate]
  rfl

theorem stableItems_eq (items : List Json) : stableItems items = items.map stableStringify := by
  induction items with
  | nil => rw [stableItems,List.map_nil]
  | cons v items ih => rw [stableItems,List.map_cons,ih]

theorem stableFields_eq (fields : List (String × Json)) :
    stableFields fields = fields.map fun f => (f.1,stableStringify f.2) := by
  induction fields with
  | nil => rw [stableFields,List.map_nil]
  | cons f fields ih => rw [stableFields,List.map_cons,ih]

theorem toList_stableStringify (v : Json) :
    (stableStringify v).toList = sortedText sortsBefore v := by
  induction v using json_induction with
  | null => rw [stableStringify,sortedText]
  | bool b => cases b <;> rw [stableStringify,sortedText] <;> rfl
  | number text => rw [stableStringify,sortedText]
  | string s => rw [stableStringify,sortedText]
  | array items ih =>
      have htexts : (items.map stableStringify).map String.toList =
          items.map (sortedText sortsBefore) := by
        rw [List.map_map]
        exact List.map_congr_left ih
      rw [stableStringify,sortedText,stableItems_eq,sortedItems_eq,String.toList_append,
        String.toList_append,toList_intercalate_comma,htexts]
      rfl
  | object fields ih =>
      have htexts : fields.map (fun f => (f.1,sortedText sortsBefore f.2)) =
          (fields.map fun f => (f.1,stableStringify f.2)).map fun f => (f.1,f.2.toList) := by
        rw [List.map_map]
        apply List.map_congr_left
        intro f hf
        rw [← ih f hf]
        rfl
      rw [stableStringify,sortedText,stableFields_eq,sortedEntries_eq,String.toList_append,
        String.toList_append,toList_intercalate_comma,htexts,map_sorted sortsBefore String.toList,
        List.map_map,List.map_map]
      have hentry : (String.toList ∘ fun p : String × String => quote p.1 ++ ":" ++ p.2) =
          (fun p : String × List Char => (quote p.1).toList ++ ':' :: p.2) ∘
            fun p => (p.1,p.2.toList) := by
        funext p
        simp
      rw [hentry]
      rfl

/-- One text for values that differ at most in the order of their keys, and for no others. -/
theorem stableStringify_eq_iff {v w : Json} (hv : Printable v) (hw : Printable w) :
    stableStringify v = stableStringify w ↔ Same v w := by
  rw [← String.toList_inj,toList_stableStringify,toList_stableStringify]
  exact sortedText_eq_iff arranges_sortsBefore hv hw

/-! ## Requests -/

/-- A request whose query and body are values of JSON. -/
abbrev JsonRequest : Type :=
  { req : Request // Printable req.query ∧ ∀ body ∈ req.body, Printable body }

/-- What is hashed of a request. -/
def hashed (req : Request) : Json :=
  .object [("method",.string req.method),("path",.string req.path),("query",req.query),
    ("body",req.body.getD .null)]

/-- Requests that differ at most in the order of the keys of query and body. -/
def SameRequest (req req' : Request) : Prop :=
  req.method = req'.method ∧ req.path = req'.path ∧ Same req.query req'.query ∧
    Same (req.body.getD .null) (req'.body.getD .null)

theorem printable_hashed (req : JsonRequest) : Printable (hashed req.1) := by
  obtain ⟨req,hquery,hbody⟩ := req
  apply Printable.object
  · have hgiven : Printable (req.body.getD .null) := by
      cases hreq : req.body with
      | none => exact .null
      | some body => exact hbody body hreq
    simp [hquery,hgiven,Printable.string]
  · simp

theorem sortKeys_hashed (req : Request) :
    sortKeys sortsBefore (hashed req) =
      .object [("body",sortKeys sortsBefore (req.body.getD .null)),("method",.string req.method),
        ("path",.string req.path),("query",sortKeys sortsBefore req.query)] := by
  have hquery : sortsBefore "query" "body" = false := by decide
  have hpath : sortsBefore "path" "body" = false ∧ sortsBefore "path" "query" = true := by decide
  have hmethod : sortsBefore "method" "body" = false ∧ sortsBefore "method" "path" = true := by
    decide
  rw [hashed,sortKeys,sortFields_eq]
  simp [sortKeys,hquery,hpath,hmethod]

theorem same_hashed_iff (req req' : JsonRequest) :
    Same (hashed req.1) (hashed req'.1) ↔ SameRequest req.1 req'.1 := by
  constructor
  · intro h
    have hsorted := sortKeys_of_same arranges_sortsBefore (printable_hashed req) _ h
    rw [sortKeys_hashed,sortKeys_hashed] at hsorted
    simp only [Json.object.injEq,List.cons.injEq,Prod.mk.injEq,Json.string.injEq,true_and,
      and_true] at hsorted
    obtain ⟨hbody,hmethod,hpath,hquery⟩ := hsorted
    exact ⟨hmethod,hpath,same_of_sortKeys sortsBefore hquery,same_of_sortKeys sortsBefore hbody⟩
  · rintro ⟨hmethod,hpath,hquery,hbody⟩
    unfold hashed
    rw [hmethod,hpath]
    exact .object (List.Perm.refl _) (.cons _ (.string _) (.cons _ (.string _)
      (.cons _ hquery (.cons _ hbody .nil))))

section Entries
variable {sha256 : String → String}

theorem requestHash_eq_iff (hinj : Function.Injective sha256) (req req' : JsonRequest)
    (key key' : String) :
    (entryOf sha256 req.1 key).requestHash = (entryOf sha256 req'.1 key').requestHash ↔
      SameRequest req.1 req'.1 := by
  rw [← same_hashed_iff,← stableStringify_eq_iff (printable_hashed req) (printable_hashed req')]
  exact hinj.eq_iff

theorem admission_begin {req : Request} {entry : IdempotencyEntry}
    (h : admission sha256 req = .begin entry) : ∃ key, entry = entryOf sha256 req key := by
  unfold admission at h
  split at h
  · cases h
  · split at h
    · cases h
    · cases h
    · dsimp only at h
      split at h
      · cases h
      · split at h
        · cases h
        · cases h
          exact ⟨_,rfl⟩

/-- The order of the keys does not matter to a lookup. -/
theorem find?_of_perm {fields moved : List (String × Json)} (hkeys : (fields.map Prod.fst).Nodup)
    (h : fields.Perm moved) (key : String) :
    (fields.find? (·.1 = key)).map Prod.snd = (moved.find? (·.1 = key)).map Prod.snd := by
  have hmoved : (moved.map Prod.fst).Nodup := (h.map Prod.fst).nodup_iff.mp hkeys
  let before : InsertionMap String Json := ⟨fields,hkeys⟩
  let after : InsertionMap String Json := ⟨moved,hmoved⟩
  have hget : before.get key = after.get key := by
    apply Option.ext
    intro v
    rw [InsertionMap.get_eq_some,InsertionMap.get_eq_some]
    exact h.mem_iff
  exact hget

theorem find?_of_sameFields {fields fields' : List (String × Json)} (h : SameFields fields fields')
    (key : String) :
    Option.Rel Same ((fields.find? (·.1 = key)).map Prod.snd)
      ((fields'.find? (·.1 = key)).map Prod.snd) := by
  induction fields generalizing fields' with
  | nil =>
      cases h
      exact .none
  | cons f fields ih =>
      cases h with
      | cons first hv hrest =>
          rw [List.find?_cons,List.find?_cons]
          by_cases hkey : first = key
          · simp only [hkey,decide_true]
            exact .some hv
          · simp only [hkey,decide_false]
            exact ih hrest

theorem field_of_same {v w : Json} (hv : Printable v) (h : Same v w) (key : String) :
    Option.Rel Same (field key v) (field key w) := by
  cases h with
  | object hmoved hsame =>
      cases hv with
      | object _ hkeys =>
          simp only [field]
          rw [find?_of_perm hkeys hmoved]
          exact find?_of_sameFields hsame key
  | null => exact .none
  | bool b => exact .none
  | number text => exact .none
  | string s => exact .none
  | array h => exact .none

theorem bodyWalletAddress_of_same (req : Request) {body body' : Json} (hbody : Printable body)
    (h : Same body body') :
    bodyWalletAddress { req with body := some body } =
      bodyWalletAddress { req with body := some body' } := by
  have hrel := field_of_same hbody h "walletAddress"
  unfold bodyWalletAddress
  simp only [Option.bind_some]
  generalize field "walletAddress" body = found at hrel
  generalize field "walletAddress" body' = found' at hrel
  cases hrel with
  | none => rfl
  | some hsame =>
      cases hsame with
      | string s => rfl
      | null => rfl
      | bool b => rfl
      | number text => rfl
      | array hitems => rfl
      | object hmoved hfields => rfl

/-- A body with its keys in another order makes the same call to the store. -/
theorem admission_of_same (req : Request) (hquery : Printable req.query) {body body' : Json}
    (hbody : Printable body) (hbody' : Printable body') (h : Same body body') :
    admission sha256 { req with body := some body } =
      admission sha256 { req with body := some body' } := by
  let left : JsonRequest := ⟨{ req with body := some body },hquery,by rintro _ ⟨⟩; exact hbody⟩
  let right : JsonRequest := ⟨{ req with body := some body' },hquery,by rintro _ ⟨⟩; exact hbody'⟩
  have htext : stableStringify (hashed left.1) = stableStringify (hashed right.1) := by
    rw [stableStringify_eq_iff (printable_hashed left) (printable_hashed right),same_hashed_iff]
    exact ⟨rfl,rfl,same_of_sortKeys sortsBefore rfl,h⟩
  have hentry : ∀ key, entryOf sha256 { req with body := some body } key =
      entryOf sha256 { req with body := some body' } key := by
    intro key
    have hprincipal : resolvePrincipal sha256 { req with body := some body } =
        resolvePrincipal sha256 { req with body := some body' } := by
      unfold resolvePrincipal
      rw [bodyWalletAddress_of_same req hbody h]
    unfold entryOf
    rw [hprincipal]
    exact congrArg (fun text => (⟨_,_,_,sha256 text⟩ : IdempotencyEntry)) htext
  unfold admission
  simp only [hentry]

end Entries

/-! ## Runs -/

/-- The store and the request that each token was handed out to, by the number of the token. -/
structure Sends where
  store : InMemoryIdempotencyStore
  claims : List JsonRequest := []

inductive Turn where
  | send (req : JsonRequest) (pruneAt claimAt : ℤ)
  | complete (token : Token) (response : CachedIdempotencyResponse) (now : ℤ)
  | fail (token : Token)

def claimsAfter (req : JsonRequest) (claims : List JsonRequest) :
    IdempotencyBeginResult → List JsonRequest
  | .started _ => claims ++ [req]
  | _ => claims

section Runs
variable (sha256 : String → String)

def Sends.step (s : Sends) : Turn → Sends
  | .send req pruneAt claimAt =>
      match admission sha256 req.1 with
      | .begin entry =>
          let (result,store) := s.store.begin entry pruneAt claimAt
          ⟨store,claimsAfter req s.claims result⟩
      | _ => s
  | .complete token response now => { s with store := s.store.complete token response now }
  | .fail token => { s with store := s.store.fail token }

/-- A record carries the hash of the request that its token was handed out to, and is kept under
the cache key of that request. -/
def ClaimedBy (claims : List JsonRequest) (key : String) (record : MemoryRecord) : Prop :=
  ∃ req entry, claims[record.token]? = some req ∧ admission sha256 req.1 = .begin entry ∧
    cacheKey entry = key ∧ record.requestHash = entry.requestHash

structure Claimed (s : Sends) : Prop where
  wellFormed : s.store.WellFormed
  numbered : s.store.nextToken = s.claims.length
  claimed : ∀ key record, s.store.records.get key = some record →
    ClaimedBy sha256 s.claims key record

variable {sha256}

theorem ClaimedBy.appended {claims : List JsonRequest} {key : String} {record : MemoryRecord}
    (h : ClaimedBy sha256 claims key record) (req : JsonRequest) :
    ClaimedBy sha256 (claims ++ [req]) key record := by
  obtain ⟨owner,entry,howner,hrest⟩ := h
  refine ⟨owner,entry,?_,hrest⟩
  rw [List.getElem?_append_left (List.getElem?_eq_some_iff.mp howner).1]
  exact howner

theorem ClaimedBy.of_token {claims : List JsonRequest} {key : String}
    {record record' : MemoryRecord} (h : ClaimedBy sha256 claims key record)
    (htoken : record'.token = record.token) (hhash : record'.requestHash = record.requestHash) :
    ClaimedBy sha256 claims key record' := by
  unfold ClaimedBy at *
  rw [htoken,hhash]
  exact h

theorem Claimed.pruned {s : Sends} (h : Claimed sha256 s) (now : ℤ) :
    Claimed sha256 ⟨s.store.pruneExpired now,s.claims⟩ where
  wellFormed := (h.wellFormed.pruneExpired now).1
  numbered := (h.wellFormed.pruneExpired now).2.1.trans h.numbered
  claimed key record hr := by
    rw [get_pruneExpired,Option.filter_eq_some_iff] at hr
    exact h.claimed key record hr.1

/-- A free key is claimed for the request that asked. -/
theorem Claimed.claim {s : Sends} (h : Claimed sha256 s) {req : JsonRequest}
    {entry : IdempotencyEntry} (hreq : admission sha256 req.1 = .begin entry)
    (hfree : s.store.records.get (cacheKey entry) = none) (claimAt : ℤ) :
    Claimed sha256 ⟨s.store.claim entry claimAt,s.claims ++ [req]⟩ where
  wellFormed :=
    h.wellFormed.claim (by simp [InMemoryIdempotencyStore.holder,hfree]) claimAt
  numbered := by
    rw [List.length_append]
    exact congrArg (· + 1) h.numbered
  claimed key record hr := by
    rcases InsertionMap.get_set_cases hr with ⟨hkey,rfl⟩ | ⟨-,hold⟩
    · refine ⟨req,entry,?_,hreq,hkey.symm,rfl⟩
      rw [h.numbered]
      exact List.getElem?_concat_length
    · exact (h.claimed key record hold).appended req

theorem claimed_step (s : Sends) (turn : Turn) (h : Claimed sha256 s) :
    Claimed sha256 (s.step sha256 turn) := by
  cases turn with
  | send req pruneAt claimAt =>
      simp only [Sends.step]
      split
      · rename_i entry hreq
        have hpruned := h.pruned pruneAt
        cases hr : (s.store.pruneExpired pruneAt).records.get (cacheKey entry) with
        | none =>
            rw [begin_of_free claimAt hr]
            exact hpruned.claim hreq hr claimAt
        | some record =>
            have hclaims : claimsAfter req s.claims (answer entry record) = s.claims := by
              unfold answer
              split
              · rfl
              · cases record.state <;> rfl
            rw [begin_of_record claimAt hr]
            simp only [hclaims]
            exact hpruned
      · exact h
  | complete token response now =>
      obtain ⟨hwf,hnext,-⟩ := h.wellFormed.complete token response now
      refine ⟨hwf,hnext.trans h.numbered,?_⟩
      intro key record hr
      simp only [Sends.step] at hr
      rw [get_complete h.wellFormed,Option.map_eq_some_iff] at hr
      obtain ⟨old,hold,rfl⟩ := hr
      apply (h.claimed key old hold).of_token
      · split
        · exact IdempotencyAgreement.finished_token ..
        · rfl
      · split
        · unfold IdempotencyAgreement.finished
          split <;> rfl
        · rfl
  | fail token =>
      obtain ⟨hwf,hnext,-⟩ := h.wellFormed.fail token
      refine ⟨hwf,hnext.trans h.numbered,?_⟩
      intro key record hr
      simp only [Sends.step] at hr
      rw [get_fail h.wellFormed,Option.filter_eq_some_iff] at hr
      exact h.claimed key record hr.1

theorem claimed_run (ttlMs : ℤ) (turns : List Turn) :
    Claimed sha256 (run (Sends.step sha256) ⟨{ ttlMs },[]⟩ turns) := by
  apply run_induction (I := Claimed sha256) claimed_step
  exact ⟨InMemoryIdempotencyStore.wellFormed_new ttlMs,rfl,fun key record hr => by cases hr⟩

/-- What `begin` answers is a conflict when the record it finds carries another hash. -/
theorem begin_conflict_iff (s : InMemoryIdempotencyStore) (entry : IdempotencyEntry)
    (pruneAt claimAt : ℤ) :
    (s.begin entry pruneAt claimAt).1 = .conflict ↔
      ∃ record, s.records.get (cacheKey entry) = some record ∧ pruneAt < record.expiresAt ∧
        record.requestHash ≠ entry.requestHash := by
  have hget := get_pruneExpired s pruneAt (cacheKey entry)
  cases hr : (s.pruneExpired pruneAt).records.get (cacheKey entry) with
  | none =>
      rw [hr] at hget
      rw [begin_of_free claimAt hr]
      constructor
      · intro h
        cases h
      · rintro ⟨record,hrecord,hlive,-⟩
        rw [hrecord,Option.filter_some_pos (by simpa)] at hget
        cases hget
  | some record =>
      rw [hr] at hget
      obtain ⟨hrecord,hlive⟩ := Option.filter_eq_some_iff.mp hget.symm
      rw [begin_of_record claimAt hr]
      constructor
      · intro h
        refine ⟨record,hrecord,of_decide_eq_true hlive,?_⟩
        intro hsame
        rw [answer,if_neg (not_not_intro hsame)] at h
        split at h <;> cases h
      · rintro ⟨other,hother,-,hne⟩
        rw [hrecord,Option.some.injEq] at hother
        rw [answer,if_pos (hother ▸ hne)]

/-- The text of a value is that of all values which differ at most in the order of their keys and
of no others. So a body with its keys in another order makes the same call to the store, and in
every run a call is answered with a conflict exactly when its key is held by a request that differs
in more than the order of its keys. -/
theorem fingerprint_canonical (hinj : Function.Injective sha256) :
    (∀ v w, Printable v → Printable w → (stableStringify v = stableStringify w ↔ Same v w)) ∧
    (∀ (req : Request) (body body' : Json), Printable req.query → Printable body →
      Printable body' → Same body body' →
        admission sha256 { req with body := some body } =
          admission sha256 { req with body := some body' }) ∧
    ∀ (ttlMs : ℤ) (turns : List Turn) (req : JsonRequest) (entry : IdempotencyEntry)
      (pruneAt claimAt : ℤ), admission sha256 req.1 = .begin entry →
      (((run (Sends.step sha256) ⟨{ ttlMs },[]⟩ turns).store.begin entry pruneAt claimAt).1 =
          .conflict ↔
        ∃ holder record,
          (run (Sends.step sha256) ⟨{ ttlMs },[]⟩ turns).store.records.get (cacheKey entry) =
            some record ∧ pruneAt < record.expiresAt ∧
          (run (Sends.step sha256) ⟨{ ttlMs },[]⟩ turns).claims[record.token]? = some holder ∧
          ¬ SameRequest holder.1 req.1) := by
  refine ⟨fun v w hv hw => stableStringify_eq_iff hv hw,?_,?_⟩
  · intro req body body' hquery hbody hbody' h
    exact admission_of_same req hquery hbody hbody' h
  · intro ttlMs turns req entry pruneAt claimAt hreq
    have hclaimed := @claimed_run sha256 ttlMs turns
    obtain ⟨key,hentry⟩ := admission_begin hreq
    have hhash : ∀ {owner : JsonRequest} {owned : IdempotencyEntry},
        admission sha256 owner.1 = .begin owned →
        (owned.requestHash = entry.requestHash ↔ SameRequest owner.1 req.1) := by
      intro owner owned howned
      obtain ⟨key',rfl⟩ := admission_begin howned
      rw [hentry]
      exact requestHash_eq_iff hinj owner req key' key
    rw [begin_conflict_iff]
    constructor
    · rintro ⟨record,hrecord,hlive,hne⟩
      obtain ⟨owner,owned,howner,howned,-,hsame⟩ := hclaimed.claimed _ record hrecord
      refine ⟨owner,record,hrecord,hlive,howner,?_⟩
      rwa [← hhash howned,← hsame]
    · rintro ⟨holder,record,hrecord,hlive,hholder,hdiffers⟩
      obtain ⟨owner,owned,howner,howned,-,hsame⟩ := hclaimed.claimed _ record hrecord
      rw [hholder,Option.some.injEq] at howner
      refine ⟨record,hrecord,hlive,?_⟩
      rwa [hsame,ne_eq,hhash howned,← howner]

end Runs

/-- A keyed draw with a body of one field. -/
def keyedDraw (amount : String) : JsonRequest :=
  ⟨{ method := "POST", path := "/draw", idempotencyKey := .one "k-1", xApiKey := .one "a",
      body := some (.object [("amount",.string amount)]) },
    .object (by simp) (by simp),
    by rintro _ ⟨⟩; exact .object (by simp [Printable.string]) (by simp)⟩

/-- The texts that are hashed for the draws of 5 and of 6. -/
def hashedTexts : List String :=
  ["k-1","a","x-api-key:ca978112ca1bbdcafac231b39a23dc4da786eff8147c4e72b9807785afee48bb",
    "\x7b\"body\":\x7b\"amount\":\"5\"\x7d,\"method\":\"POST\",\"path\":\"/draw\"," ++
      "\"query\":\x7b\x7d\x7d",
    "\x7b\"body\":\x7b\"amount\":\"6\"\x7d,\"method\":\"POST\",\"path\":\"/draw\"," ++
      "\"query\":\x7b\x7d\x7d"]

/-- SHA-256 on these texts, and no collision on the others. -/
def digestOf (text : String) : String :=
  InboundWebhookSignature.hexEncode
    (Sha256.digestAmong (hashedTexts.map JsStrings.utf8) (JsStrings.utf8 text))

example : ∀ amount ∈ ["5","6"],
    entryOf digestOf (keyedDraw amount).1 "k-1" = entryOf digest (keyedDraw amount).1 "k-1" := by
  decide +kernel

theorem digestOf_injective : Function.Injective digestOf := by
  intro a b h
  have hbytes := congrArg (fun text => InboundWebhookSignature.hexDecode text.toList) h
  simp only [digestOf,SigningInput.hexDecode_hexEncode] at hbytes
  exact SigningInput.utf8_injective (Sha256.digestAmong_injective (by decide +kernel) hbytes)

theorem admission_keyedDraw (amount : String) :
    admission digestOf (keyedDraw amount).1 =
      .begin (entryOf digestOf (keyedDraw amount).1 "k-1") := rfl

/-- The draw of 5 has claimed the key. -/
theorem run_keyedDraw :
    run (Sends.step digestOf) ⟨{ ttlMs := 10 },[]⟩ [.send (keyedDraw "5") 0 0] =
      ⟨({ ttlMs := 10 } : InMemoryIdempotencyStore).claim
        (entryOf digestOf (keyedDraw "5").1 "k-1") 0,[keyedDraw "5"]⟩ := by
  simp only [run_cons,run_nil,Sends.step,admission_keyedDraw "5"]
  rfl

theorem fingerprint_canonical_other_amount :
    ((run (Sends.step digestOf) ⟨{ ttlMs := 10 },[]⟩ [.send (keyedDraw "5") 0 0]).store.begin
      (entryOf digestOf (keyedDraw "6").1 "k-1") 1 1).1 = .conflict := by
  have hkey : cacheKey (entryOf digestOf (keyedDraw "6").1 "k-1") =
      cacheKey (entryOf digestOf (keyedDraw "5").1 "k-1") := by decide +kernel
  refine ((fingerprint_canonical digestOf_injective).2.2 10 [.send (keyedDraw "5") 0 0]
    (keyedDraw "6") _ 1 1 (admission_keyedDraw "6")).mpr
      ⟨keyedDraw "5",⟨0,(entryOf digestOf (keyedDraw "5").1 "k-1").requestHash,10,.pending⟩,
        ?_,by decide,?_,?_⟩
  · rw [run_keyedDraw,hkey]
    exact InsertionMap.get_set_self ..
  · rw [run_keyedDraw]
    rfl
  · rintro ⟨-,-,-,hbody⟩
    have hsorted := sortKeys_of_same arranges_sortsBefore
      (.object (by simp [Printable.string]) (by simp)) _ hbody
    simp [keyedDraw,sortKeys,sortFields_eq] at hsorted

end Creditra.IdempotencyFingerprints
