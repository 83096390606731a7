import Creditra.GuardedRuns
import Creditra.InsertionMaps
import Creditra.IsoDates
import Creditra.Sha256
import Creditra.SigningInput

/-!
# API keys

`services/apiKeyStore.ts`: keys are issued and revoked, a revoked key stays valid
for a grace period, and only digests of the keys are kept. Instants are written
into the records as texts and read back by `verify`. An instant that no date
holds makes the call throw before it changes anything.

The life of a key is told by the calls and their answers: the call that issued
it, and the first revocation that was answered by true.
-/
namespace Creditra.ApiKeys
open GuardedRuns InsertionMaps IsoDates InboundWebhookSignature SigningInput

inductive ApiKeyStatus where
  | active | revoked
  deriving DecidableEq

structure ApiKeyMetadata where
  id : String
  label : String
  status : ApiKeyStatus
  createdAt : String
  revokedAt : Option String
  graceExpiresAt : Option String
  deriving DecidableEq

structure ApiKeyRecord extends ApiKeyMetadata where
  hash : String
  deriving DecidableEq

inductive AuditAction where
  | issued | revoked
  deriving DecidableEq

structure ApiKeyAuditEntry where
  action : AuditAction
  keyId : String
  label : String
  time : String
  deriving DecidableEq

structure ApiKeyStore where
  records : InsertionMap String ApiKeyRecord := .empty
  audit : List ApiKeyAuditEntry := []

/-- The digest and the grace period of a store. -/
structure Options where
  sha256 : String → Bytes
  gracePeriodMs : ℤ

def sha256Hex (options : Options) (value : String) : String := hexEncode (options.sha256 value)

def timingSafeHexEqual (a b : String) : Bool :=
  if JsStrings.length a ≠ JsStrings.length b then false
  else hexDecode a.toList = hexDecode b.toList

/-- A call, with the bytes `issue` draws and the reading of the clock. -/
inductive Op where
  | issue (label : String) (idBytes keyBytes : Bytes) (now : ℤ)
  | revoke (id : String) (now : ℤ)
  | verify (presented : String) (now : ℤ)
  deriving DecidableEq

inductive Answer where
  | issued (id plaintext : String) (metadata : ApiKeyMetadata)
  | revoked (known : Bool)
  | verified (valid : Bool)
  | rangeError
  deriving DecidableEq

def plaintextOf (keyBytes : Bytes) : String := "ck_" ++ hexEncode keyBytes

def issue (options : Options) (store : ApiKeyStore) (label : String) (idBytes keyBytes : Bytes)
    (now : ℤ) : Answer × ApiKeyStore :=
  let id := hexEncode idBytes
  let plaintext := plaintextOf keyBytes
  match dateText now with
  | none => (.rangeError,store)
  | some createdAt =>
      let record : ApiKeyRecord :=
        ⟨⟨id,label,.active,createdAt,none,none⟩,sha256Hex options plaintext⟩
      (.issued id plaintext record.toApiKeyMetadata,
        ⟨store.records.set id record,store.audit ++ [⟨.issued,id,label,createdAt⟩]⟩)

def revoke (options : Options) (store : ApiKeyStore) (id : String) (now : ℤ) :
    Answer × ApiKeyStore :=
  match store.records.get id with
  | none => (.revoked false,store)
  | some record =>
      if record.status = .revoked then (.revoked true,store)
      else match dateText now, dateText (now + options.gracePeriodMs) with
        | some revokedAt, some graceExpiresAt =>
            let updated : ApiKeyRecord :=
              { record with
                status := .revoked, revokedAt := some revokedAt
                graceExpiresAt := some graceExpiresAt }
            (.revoked true,⟨store.records.set id updated,
              store.audit ++ [⟨.revoked,id,record.label,revokedAt⟩]⟩)
        | _, _ => (.rangeError,store)

/-- A text that is no date is not a number, and no instant is at most that. -/
def isUsable (record : ApiKeyRecord) (nowMs : ℤ) : Bool :=
  match record.status, record.graceExpiresAt with
  | .active, _ => true
  | .revoked, none => false
  | .revoked, some graceExpiresAt => match dateParse graceExpiresAt with
      | some expires => nowMs ≤ expires
      | none => false

/-- Every record is compared, whether or not one has matched. -/
def verify (options : Options) (store : ApiKeyStore) (presented : String) (nowMs : ℤ) : Bool :=
  if presented = "" then false
  else
    let presentedHash := sha256Hex options presented
    store.records.entries.any fun entry =>
      timingSafeHexEqual entry.2.hash presentedHash && isUsable entry.2 nowMs

def perform (options : Options) (store : ApiKeyStore) : Op → Answer × ApiKeyStore
  | .issue label idBytes keyBytes now => issue options store label idBytes keyBytes now
  | .revoke id now => revoke options store id now
  | .verify presented now => (.verified (verify options store presented now),store)

/-- A store and the calls it has answered. -/
structure State where
  store : ApiKeyStore := {}
  history : List (Op × Answer) := []

def step (options : Options) (s : State) (op : Op) : State :=
  let result := perform options s.store op
  ⟨result.2,s.history ++ [(op,result.1)]⟩

/-! ## The life of a key -/

/-- The id and the plaintext a call gave out. -/
def issuedBy : Op × Answer → Option (String × String)
  | (_,.issued id plaintext _) => some (id,plaintext)
  | _ => none

def issuedKeys (history : List (Op × Answer)) : List (String × String) :=
  history.filterMap issuedBy

/-- The instant at which a call revoked a key, or found it revoked. -/
def revokedBy (id : String) : Op × Answer → Option ℤ
  | (.revoke key now,.revoked true) => if key = id then some now else none
  | _ => none

def firstRevocation (history : List (Op × Answer)) (id : String) : Option ℤ :=
  history.findSome? (revokedBy id)

/-- Ids and keys that are drawn have not been given out before. -/
def Fresh (s : State) : Op → Prop
  | .issue _ idBytes keyBytes _ => ∀ issued ∈ issuedKeys s.history,
      issued.1 ≠ hexEncode idBytes ∧ issued.2 ≠ plaintextOf keyBytes
  | _ => True

instance (s : State) (op : Op) : Decidable (Fresh s op) :=
  match op with
  | .issue _ idBytes keyBytes _ => inferInstanceAs (Decidable (∀ issued ∈ issuedKeys s.history,
      issued.1 ≠ hexEncode idBytes ∧ issued.2 ≠ plaintextOf keyBytes))
  | .revoke _ _ | .verify _ _ => inferInstanceAs (Decidable True)

theorem issuedKeys_append (history : List (Op × Answer)) (entry : Op × Answer) :
    issuedKeys (history ++ [entry]) = issuedKeys history ++ (issuedBy entry).toList := by
  unfold issuedKeys
  rw [List.filterMap_append]
  cases h : issuedBy entry with
  | none => simp [h]
  | some key => simp [h]

theorem firstRevocation_append (history : List (Op × Answer)) (entry : Op × Answer) (id : String) :
    firstRevocation (history ++ [entry]) id =
      (firstRevocation history id).or (revokedBy id entry) := by
  unfold firstRevocation
  rw [List.findSome?_append,List.findSome?_singleton]

section Steps
variable {options : Options}

/-- What a call does to the store. -/
inductive Effect (options : Options) (store : ApiKeyStore) : Op → Answer → ApiKeyStore → Prop
  | unchanged {op : Op} {answer : Answer} (hissued : issuedBy (op,answer) = none)
      (hrevoked : ∀ id, revokedBy id (op,answer) = none) : Effect options store op answer store
  | again {id : String} {record : ApiKeyRecord} (now : ℤ)
      (hget : store.records.get id = some record) (hstatus : record.status = .revoked) :
      Effect options store (.revoke id now) (.revoked true) store
  | issued (label : String) (idBytes keyBytes : Bytes) {now : ℤ} {createdAt : String}
      (hcreated : dateText now = some createdAt) :
      Effect options store (.issue label idBytes keyBytes now)
        (.issued (hexEncode idBytes) (plaintextOf keyBytes)
          ⟨hexEncode idBytes,label,.active,createdAt,none,none⟩)
        ⟨store.records.set (hexEncode idBytes)
            ⟨⟨hexEncode idBytes,label,.active,createdAt,none,none⟩,
              sha256Hex options (plaintextOf keyBytes)⟩,
          store.audit ++ [⟨.issued,hexEncode idBytes,label,createdAt⟩]⟩
  | revoked {id : String} {record : ApiKeyRecord} {now : ℤ} {revokedAt graceExpiresAt : String}
      (hget : store.records.get id = some record) (hstatus : record.status = .active)
      (hgrace : dateText (now + options.gracePeriodMs) = some graceExpiresAt) :
      Effect options store (.revoke id now) (.revoked true)
        ⟨store.records.set id
            { record with
              status := .revoked, revokedAt := some revokedAt
              graceExpiresAt := some graceExpiresAt },
          store.audit ++ [⟨.revoked,id,record.label,revokedAt⟩]⟩

theorem perform_effect (options : Options) (store : ApiKeyStore) (op : Op) :
    Effect options store op (perform options store op).1 (perform options store op).2 := by
  cases op with
  | issue label idBytes keyBytes now =>
      simp only [perform,issue]
      split
      · exact .unchanged rfl fun _ => rfl
      · rename_i createdAt hcreated
        exact .issued label idBytes keyBytes hcreated
  | revoke id now =>
      simp only [perform,revoke]
      split
      · exact .unchanged rfl fun _ => rfl
      · rename_i record hget
        split
        · rename_i hstatus
          exact .again now hget hstatus
        · rename_i hstatus
          split
          · rename_i revokedAt graceExpiresAt _ hgrace
            cases hactive : record.status with
            | active => exact .revoked hget hactive hgrace
            | revoked => exact absurd hactive hstatus
          · exact .unchanged rfl fun _ => rfl
  | verify presented now => exact .unchanged rfl fun _ => rfl

/-- A record is active until the first revocation of its key, and then says when its grace ends. -/
def Lived (options : Options) (record : ApiKeyRecord) : Option ℤ → Prop
  | none => record.status = .active
  | some revokedAt => record.status = .revoked ∧ ValidTime (revokedAt + options.gracePeriodMs) ∧
      record.graceExpiresAt = some (toISOString (revokedAt + options.gracePeriodMs))

/-- The entries of one kind for one key. -/
def entriesOf (action : AuditAction) (id : String) (audit : List ApiKeyAuditEntry) :
    List ApiKeyAuditEntry :=
  audit.filter fun entry => entry.action = action ∧ entry.keyId = id

/-- The records and the audit log tell the lives of the keys. -/
structure Told (options : Options) (store : ApiKeyStore) (history : List (Op × Answer)) : Prop where
  known : ∀ id record, store.records.get id = some record → ∃ plaintext,
    (id,plaintext) ∈ issuedKeys history ∧ record.hash = sha256Hex options plaintext ∧
      Lived options record (firstRevocation history id)
  complete : ∀ id plaintext, (id,plaintext) ∈ issuedKeys history → plaintext ≠ "" ∧
    ∃ record, store.records.get id = some record ∧ record.hash = sha256Hex options plaintext
  unknown : ∀ id, store.records.get id = none → firstRevocation history id = none
  issuedOnce : ∀ id, (entriesOf .issued id store.audit).length =
    if (store.records.get id).isSome then 1 else 0
  revokedOnce : ∀ id, (entriesOf .revoked id store.audit).length =
    if (firstRevocation history id).isSome then 1 else 0

theorem told_start (options : Options) : Told options {} [] := by
  constructor
  · intro id record h
    cases h
  · intro id plaintext h
    cases h
  · intro id _
    rfl
  · intro id
    rfl
  · intro id
    rfl

/-- A step that tells nothing new. -/
theorem told_congr {store : ApiKeyStore} {history history' : List (Op × Answer)}
    (h : Told options store history) (hissued : issuedKeys history' = issuedKeys history)
    (hrevoked : ∀ id, firstRevocation history' id = firstRevocation history id) :
    Told options store history' := by
  constructor
  · intro id record hget
    rw [hissued,hrevoked]
    exact h.known id record hget
  · rw [hissued]
    exact h.complete
  · intro id hget
    rw [hrevoked]
    exact h.unknown id hget
  · exact h.issuedOnce
  · intro id
    rw [hrevoked]
    exact h.revokedOnce id

theorem plaintextOf_ne (keyBytes : Bytes) : plaintextOf keyBytes ≠ "" := by
  intro h
  have hlist := congrArg String.toList h
  rw [plaintextOf,String.toList_append] at hlist
  cases hlist

theorem entriesOf_append (action : AuditAction) (id : String) (audit : List ApiKeyAuditEntry)
    (entry : ApiKeyAuditEntry) :
    (entriesOf action id (audit ++ [entry])).length = (entriesOf action id audit).length +
      if entry.action = action ∧ entry.keyId = id then 1 else 0 := by
  unfold entriesOf
  rw [List.filter_append,List.length_append]
  by_cases h : entry.action = action ∧ entry.keyId = id
  · rw [if_pos h,List.filter_cons_of_pos (by simpa using h)]
    rfl
  · rw [if_neg h,List.filter_cons_of_neg (by simpa using h)]
    rfl

theorem get_of_fresh {store : ApiKeyStore} {history : List (Op × Answer)} {id : String}
    (h : Told options store history) (hfresh : ∀ issued ∈ issuedKeys history, issued.1 ≠ id) :
    store.records.get id = none := by
  cases hget : store.records.get id with
  | none => rfl
  | some record =>
      obtain ⟨plaintext,hmem,-⟩ := h.known _ record hget
      exact absurd rfl (hfresh _ hmem)

/-- A call that issues a key adds this key. -/
theorem mem_issuedKeys_issued (history : List (Op × Answer)) (op : Op) (id plaintext : String)
    (metadata : ApiKeyMetadata) (key : String × String) :
    key ∈ issuedKeys (history ++ [(op,.issued id plaintext metadata)]) ↔
      key ∈ issuedKeys history ∨ key = (id,plaintext) := by
  rw [issuedKeys_append,List.mem_append]
  simp [issuedBy]

theorem told_issued {store : ApiKeyStore} {history : List (Op × Answer)}
    (h : Told options store history) (label : String) {idBytes keyBytes : Bytes} {now : ℤ}
    {createdAt : String} (hfresh : ∀ issued ∈ issuedKeys history,
      issued.1 ≠ hexEncode idBytes ∧ issued.2 ≠ plaintextOf keyBytes)
    (metadata : ApiKeyMetadata) :
    Told options
      ⟨store.records.set (hexEncode idBytes)
          ⟨⟨hexEncode idBytes,label,.active,createdAt,none,none⟩,
            sha256Hex options (plaintextOf keyBytes)⟩,
        store.audit ++ [⟨.issued,hexEncode idBytes,label,createdAt⟩]⟩
      (history ++ [(.issue label idBytes keyBytes now,
        .issued (hexEncode idBytes) (plaintextOf keyBytes) metadata)]) := by
  have hnone := get_of_fresh h fun issued hissued => (hfresh issued hissued).1
  have hrevoked : ∀ id, firstRevocation (history ++ [(.issue label idBytes keyBytes now,
      .issued (hexEncode idBytes) (plaintextOf keyBytes) metadata)]) id =
        firstRevocation history id := by
    intro id
    rw [firstRevocation_append]
    exact Option.or_none
  constructor
  · intro id record hget
    rw [hrevoked]
    rcases InsertionMap.get_set_cases hget with ⟨rfl,rfl⟩ | ⟨-,hold⟩
    · rw [h.unknown _ hnone]
      exact ⟨plaintextOf keyBytes,(mem_issuedKeys_issued ..).mpr (.inr rfl),rfl,rfl⟩
    · obtain ⟨plaintext,hmem,hhash,hlived⟩ := h.known id record hold
      exact ⟨plaintext,(mem_issuedKeys_issued ..).mpr (.inl hmem),hhash,hlived⟩
  · intro id plaintext hmem
    cases (mem_issuedKeys_issued ..).mp hmem with
    | inl hold =>
        obtain ⟨hne,record,hget,hhash⟩ := h.complete id plaintext hold
        have hid : id ≠ hexEncode idBytes := (hfresh _ hold).1
        exact ⟨hne,record,(InsertionMap.get_set_of_ne _ hid _).trans hget,hhash⟩
    | inr hnew =>
        cases hnew
        exact ⟨plaintextOf_ne keyBytes,_,InsertionMap.get_set_self _ _ _,rfl⟩
  · intro id hget
    rw [hrevoked]
    apply h.unknown
    by_cases hid : id = hexEncode idBytes
    · rw [hid]
      exact hnone
    · rwa [InsertionMap.get_set_of_ne _ hid] at hget
  · intro id
    rw [entriesOf_append,h.issuedOnce]
    by_cases hid : id = hexEncode idBytes
    · rw [hid,InsertionMap.get_set_self,hnone]
      simp
    · rw [InsertionMap.get_set_of_ne _ hid]
      simp [Ne.symm hid]
  · intro id
    rw [entriesOf_append,h.revokedOnce,hrevoked]
    simp

theorem Lived.never {record : ApiKeyRecord} {revocation : Option ℤ}
    (h : Lived options record revocation) (hstatus : record.status = .active) :
    revocation = none := by
  cases revocation with
  | none => rfl
  | some t =>
      rw [h.1] at hstatus
      cases hstatus

theorem firstRevocation_revoked_other (history : List (Op × Answer)) {id key : String} (now : ℤ)
    (hkey : key ≠ id) :
    firstRevocation (history ++ [(.revoke id now,.revoked true)]) key =
      firstRevocation history key := by
  rw [firstRevocation_append,revokedBy,if_neg (Ne.symm hkey),Option.or_none]

theorem issuedKeys_revoked (history : List (Op × Answer)) (id : String) (now : ℤ) :
    issuedKeys (history ++ [(.revoke id now,.revoked true)]) = issuedKeys history := by
  rw [issuedKeys_append]
  exact List.append_nil _

theorem told_revoked {store : ApiKeyStore} {history : List (Op × Answer)}
    (h : Told options store history) {id : String} {record : ApiKeyRecord} {now : ℤ}
    {revokedAt graceExpiresAt : String} (hget : store.records.get id = some record)
    (hstatus : record.status = .active)
    (hgrace : dateText (now + options.gracePeriodMs) = some graceExpiresAt) :
    Told options
      ⟨store.records.set id
          { record with
            status := .revoked, revokedAt := some revokedAt
            graceExpiresAt := some graceExpiresAt },
        store.audit ++ [⟨.revoked,id,record.label,revokedAt⟩]⟩
      (history ++ [(.revoke id now,.revoked true)]) := by
  obtain ⟨plaintext,hmem,hhash,hlived⟩ := h.known id record hget
  have hnever := hlived.never hstatus
  have hself : firstRevocation (history ++ [(.revoke id now,.revoked true)]) id = some now := by
    rw [firstRevocation_append,hnever,Option.none_or,revokedBy,if_pos rfl]
  obtain ⟨hvalid,hgraceText⟩ := dateText_eq_some hgrace
  constructor
  · intro key found hfound
    rw [issuedKeys_revoked]
    rcases InsertionMap.get_set_cases hfound with ⟨rfl,rfl⟩ | ⟨hkey,hold⟩
    · rw [hself]
      exact ⟨plaintext,hmem,hhash,rfl,hvalid,congrArg some hgraceText⟩
    · rw [firstRevocation_revoked_other history now hkey]
      exact h.known key found hold
  · intro key text hkeyed
    rw [issuedKeys_revoked] at hkeyed
    obtain ⟨hne,found,hfound,hfoundHash⟩ := h.complete key text hkeyed
    by_cases hkey : key = id
    · subst hkey
      rw [hget,Option.some.injEq] at hfound
      subst hfound
      exact ⟨hne,_,InsertionMap.get_set_self _ _ _,hfoundHash⟩
    · exact ⟨hne,found,(InsertionMap.get_set_of_ne _ hkey _).trans hfound,hfoundHash⟩
  · intro key hnone
    by_cases hkey : key = id
    · rw [hkey,InsertionMap.get_set_self] at hnone
      cases hnone
    · rw [InsertionMap.get_set_of_ne _ hkey] at hnone
      rw [firstRevocation_revoked_other history now hkey]
      exact h.unknown key hnone
  · intro key
    rw [entriesOf_append,h.issuedOnce]
    by_cases hkey : key = id
    · rw [hkey,InsertionMap.get_set_self,hget]
      simp
    · rw [InsertionMap.get_set_of_ne _ hkey]
      simp
  · intro key
    rw [entriesOf_append,h.revokedOnce]
    by_cases hkey : key = id
    · rw [hkey,hnever,hself]
      simp
    · rw [firstRevocation_revoked_other history now hkey]
      simp [Ne.symm hkey]

/-- Every call keeps the lives told. -/
theorem told_step {s : State} {op : Op} (h : Told options s.store s.history) (hfresh : Fresh s op) :
    Told options (step options s op).store (step options s op).history := by
  have heffect := perform_effect options s.store op
  unfold step
  dsimp only
  generalize (perform options s.store op).1 = answer at heffect ⊢
  generalize (perform options s.store op).2 = store at heffect ⊢
  cases heffect with
  | unchanged hissued hrevoked =>
      apply told_congr h
      · rw [issuedKeys_append,hissued]
        exact List.append_nil _
      · intro id
        rw [firstRevocation_append,hrevoked]
        exact Option.or_none
  | again now hget hstatus =>
      obtain ⟨plaintext,-,-,hlived⟩ := h.known _ _ hget
      apply told_congr h
      · rw [issuedKeys_append]
        exact List.append_nil _
      · intro key
        rw [firstRevocation_append]
        cases hfirst : firstRevocation s.history key with
        | some t => rfl
        | none =>
            rw [Option.none_or,revokedBy]
            split
            · rename_i hkey
              subst hkey
              rw [hfirst] at hlived
              rw [hlived] at hstatus
              cases hstatus
            · rfl
  | issued label idBytes keyBytes hcreated => exact told_issued h label hfresh _
  | revoked hget hstatus hgrace => exact told_revoked h hget hstatus hgrace

end Steps

/-! ## Verification -/

section Verification
variable {options : Options}

theorem isUsable_iff {record : ApiKeyRecord} {first : Option ℤ} (h : Lived options record first)
    (now : ℤ) : isUsable record now = true ↔
      ∀ revokedAt, first = some revokedAt → now ≤ revokedAt + options.gracePeriodMs := by
  unfold isUsable
  cases first with
  | none =>
      rw [show record.status = .active from h]
      simp
  | some t =>
      obtain ⟨hstatus,hvalid,hgrace⟩ := h
      rw [hstatus,hgrace]
      simp [dateParse_toISOString hvalid]

theorem timingSafeHexEqual_iff (a b : String) :
    timingSafeHexEqual (sha256Hex options a) (sha256Hex options b) = true ↔
      options.sha256 a = options.sha256 b := by
  unfold timingSafeHexEqual sha256Hex
  constructor
  · intro h
    split at h
    · cases h
    · rwa [hexDecode_hexEncode,hexDecode_hexEncode,decide_eq_true_eq] at h
  · intro h
    rw [h]
    simp

/-- A text verifies exactly if it is the plaintext of a key that was issued and is not beyond the
grace of its first revocation. -/
theorem verify_iff {store : ApiKeyStore} {history : List (Op × Answer)}
    (h : Told options store history) (hsha : Function.Injective options.sha256) (presented : String)
    (now : ℤ) : verify options store presented now = true ↔
      ∃ id, (id,presented) ∈ issuedKeys history ∧ ∀ revokedAt,
        firstRevocation history id = some revokedAt → now ≤ revokedAt + options.gracePeriodMs := by
  unfold verify
  constructor
  · intro hverify
    split at hverify
    · cases hverify
    · rw [List.any_eq_true] at hverify
      obtain ⟨⟨id,record⟩,hentry,htest⟩ := hverify
      rw [Bool.and_eq_true] at htest
      obtain ⟨plaintext,hmem,hhash,hlived⟩ :=
        h.known id record (InsertionMap.get_eq_some.mpr hentry)
      rw [hhash,timingSafeHexEqual_iff] at htest
      have hsame : plaintext = presented := hsha htest.1
      exact ⟨id,hsame ▸ hmem,(isUsable_iff hlived now).mp htest.2⟩
  · intro hexists
    obtain ⟨id,hmem,hgrace⟩ := hexists
    obtain ⟨hne,record,hget,hhash⟩ := h.complete id presented hmem
    obtain ⟨-,-,-,hlived⟩ := h.known id record hget
    rw [if_neg hne,List.any_eq_true]
    refine ⟨(id,record),InsertionMap.get_eq_some.mp hget,?_⟩
    rw [Bool.and_eq_true,hhash,timingSafeHexEqual_iff]
    exact ⟨rfl,(isUsable_iff hlived now).mpr hgrace⟩

theorem revoke_again {store : ApiKeyStore} {history : List (Op × Answer)}
    (h : Told options store history) {id : String}
    (hrevoked : (firstRevocation history id).isSome = true) (now : ℤ) :
    revoke options store id now = (.revoked true,store) := by
  obtain ⟨t,hfirst⟩ := Option.isSome_iff_exists.mp hrevoked
  cases hget : store.records.get id with
  | none =>
      rw [h.unknown id hget] at hfirst
      cases hfirst
  | some record =>
      obtain ⟨-,-,-,hlived⟩ := h.known id record hget
      rw [hfirst] at hlived
      simp only [revoke,hget]
      rw [if_pos hlived.1]

end Verification

/-- The state after a sequence of calls on a new store. -/
def after (options : Options) (ops : List Op) : State := run (step options) {} ops

/-- After any calls with fresh ids and keys, a text verifies exactly if it was issued and its key
was never revoked or is within the grace of its first revocation; revoking again changes nothing;
and the audit log has one entry of the issue of a key and at most one of its revocation. -/
theorem api_key_life_cycle (options : Options) (hsha : Function.Injective options.sha256)
    (ops : List Op) (hfresh : Guarded (step options) Fresh {} ops) :
    (∀ presented now, verify options (after options ops).store presented now = true ↔
      ∃ id, (id,presented) ∈ issuedKeys (after options ops).history ∧ ∀ revokedAt,
        firstRevocation (after options ops).history id = some revokedAt →
          now ≤ revokedAt + options.gracePeriodMs) ∧
    (∀ id now, (firstRevocation (after options ops).history id).isSome = true →
      revoke options (after options ops).store id now = (.revoked true,(after options ops).store)) ∧
    ∀ id plaintext, (id,plaintext) ∈ issuedKeys (after options ops).history →
      (entriesOf .issued id (after options ops).store.audit).length = 1 ∧
      (entriesOf .revoked id (after options ops).store.audit).length ≤ 1 := by
  have htold : Told options (after options ops).store (after options ops).history :=
    run_invariant (I := fun s => Told options s.store s.history) (fun _ _ h hop => told_step h hop)
      (told_start options) hfresh
  refine ⟨verify_iff htold hsha,fun id now hrevoked => revoke_again htold hrevoked now,?_⟩
  intro id plaintext hmem
  obtain ⟨-,record,hget,-⟩ := htold.complete id plaintext hmem
  constructor
  · rw [htold.issuedOnce,hget]
    rfl
  · rw [htold.revokedOnce]
    split
    · exact le_refl 1
    · exact Nat.zero_le 1

/-- SHA-256 on one key and no collision on the others, and a grace of a minute. -/
def minuteOfGrace : Options :=
  ⟨fun text => Sha256.digestAmong [JsStrings.utf8 "ck_02"] (JsStrings.utf8 text),60000⟩

/-- A key is issued, revoked, and revoked again. -/
def revokedTwice : List Op :=
  [.issue "ci" [1] [2] 0,.revoke "01" 10,.revoke "01" 20,.verify "ck_02" 60010]

theorem api_key_life_cycle_revokedTwice :
    Guarded (step minuteOfGrace) Fresh {} revokedTwice ∧
    ("01","ck_02") ∈ issuedKeys (after minuteOfGrace revokedTwice).history ∧
    verify minuteOfGrace (after minuteOfGrace revokedTwice).store "ck_02" 60010 = true ∧
    verify minuteOfGrace (after minuteOfGrace revokedTwice).store "ck_02" 60011 = false ∧
    (entriesOf .revoked "01" (after minuteOfGrace revokedTwice).store.audit).length ≤ 1 := by
  have hfresh : Guarded (step minuteOfGrace) Fresh {} revokedTwice := by decide +kernel
  have hsha : Function.Injective minuteOfGrace.sha256 := by
    intro a b h
    exact utf8_injective (Sha256.digestAmong_injective (by simp) h)
  have hmem : ("01","ck_02") ∈ issuedKeys (after minuteOfGrace revokedTwice).history := by decide +kernel
  obtain ⟨hverify,-,haudit⟩ := api_key_life_cycle minuteOfGrace hsha revokedTwice hfresh
  refine ⟨hfresh,hmem,?_,by decide +kernel,(haudit "01" "ck_02" hmem).2⟩
  rw [hverify]
  refine ⟨"01",hmem,?_⟩
  have hfirst : firstRevocation (after minuteOfGrace revokedTwice).history "01" = some 10 := by
    decide +kernel
  intro revokedAt h
  rw [hfirst,Option.some.injEq] at h
  rw [← h]
  decide

end Creditra.ApiKeys
