import Creditra.ApiKeys
import Creditra.CursorReaders
import Creditra.Separators

/-!
# Paging through API keys

The admin routes list the API keys and their audit log page by page, while keys
are issued and revoked. The keys are listed by the time at which they were
issued, those of one millisecond by their identifiers, and a revocation changes a
key's metadata but not its place. The audit log is listed newest first, so that
its new entries come in front of the cursor.
-/
namespace Creditra.ApiKeyListings
open ApiKeys CursorPagination CursorReaders CursorTraversal GuardedRuns InsertionMaps IsoDates
open JsStrings Separators SigningInput SortedListings StellarDiagnostics
open InboundWebhookSignature (Bytes hexByte hexEncode)

def list (store : ApiKeyStore) : List ApiKeyMetadata :=
  store.records.entries.map fun entry => entry.2.toApiKeyMetadata

def metadataKey (m : ApiKeyMetadata) : CursorKey := ⟨parsedTime m.createdAt,m.id⟩

def actionText : AuditAction → String
  | .issued => "issued"
  | .revoked => "revoked"

def auditKey (entry : ApiKeyAuditEntry) : CursorKey :=
  ⟨parsedTime entry.time,entry.keyId ++ ":" ++ actionText entry.action ++ ":" ++ entry.time⟩

/-- The ids are eight random bytes that have not been drawn before. -/
def Drawn (s : State) (op : Op) : Prop :=
  Fresh s op ∧ match op with
    | .issue _ idBytes _ _ => idBytes.length = 8
    | _ => True

instance (s : State) (op : Op) : Decidable (Drawn s op) :=
  match op with
  | .issue label idBytes keyBytes now => inferInstanceAs (Decidable
      (Fresh s (.issue label idBytes keyBytes now) ∧ idBytes.length = 8))
  | .revoke id now => inferInstanceAs (Decidable (Fresh s (.revoke id now) ∧ True))
  | .verify presented now => inferInstanceAs (Decidable (Fresh s (.verify presented now) ∧ True))

section Readers
variable (options : Options) (collation : Collation)

/-- `listWithCursor`, read page by page from a new store on. -/
def readKeys (labels : List (Label Op)) : Reading State ApiKeyMetadata :=
  run (CursorReaders.step (ApiKeys.step options) (fun s => list s.store) collation metadataKey .asc)
    ⟨{},[],[],none,false⟩ labels

/-- `auditLogWithCursor`, read page by page from a new store on. -/
def readAudit (labels : List (Label Op)) : Reading State ApiKeyAuditEntry :=
  run (CursorReaders.step (ApiKeys.step options) (fun s => s.store.audit) collation auditKey .desc)
    ⟨{},[],[],none,false⟩ labels

/-- What is known of a list of keys that has been read. -/
structure KeysRead (s : Reading State ApiKeyMetadata) : Prop where
  once : ((shown s).map (·.id)).Nodup
  ordered : (shownKeys metadataKey s).Pairwise (keyBefore collation .asc)
  dated : ∀ m ∈ shown s, ReadsBack m.createdAt
  present : ∀ m ∈ shown s, ∃ record, s.store.store.records.get m.id = some record ∧
    record.label = m.label ∧ record.createdAt = m.createdAt
  complete : s.finished = true → ∀ first, s.found.head? = some first →
    ∀ issued ∈ issuedKeys first.history, issued.1 ∈ (shown s).map (·.id)
  revoked : ∀ first, s.found.head? = some first → ∀ m ∈ shown s,
    (firstRevocation first.history m.id).isSome = true → m.status = .revoked
  answered : Answered (fun s => list s.store) collation metadataKey .asc s

/-- What is known of an audit log that has been read. -/
structure AuditRead (s : Reading State ApiKeyAuditEntry) : Prop where
  once : (shown s).Nodup
  ordered : (shownKeys auditKey s).Pairwise (keyBefore collation .desc)
  dated : ∀ entry ∈ shown s, ReadsBack entry.time
  present : ∀ entry ∈ shown s, entry ∈ s.store.store.audit
  complete : s.finished = true → ∀ first, s.found.head? = some first →
    ∀ entry ∈ first.store.audit, entry ∈ shown s
  answered : Answered (fun s => s.store.audit) collation auditKey .desc s

end Readers

/-! ## What the store holds -/

/-- A text of eight bytes. -/
def IsId (id : String) : Prop := ∃ bytes : Bytes, bytes.length = 8 ∧ id = hexEncode bytes

theorem IsId.ne_empty {id : String} (h : IsId id) : id ≠ "" := by
  obtain ⟨bytes,hlength,rfl⟩ := h
  intro hempty
  have hdecode := hexDecode_hexEncode bytes
  rw [hempty] at hdecode
  rw [← hdecode] at hlength
  cases hlength

theorem colon_notMem_hexByte : ∀ b : UInt8, ':' ∉ hexByte b := by
  intro b hmem
  have hdigit : ∀ n < 16, Nat.digitChar n ≠ ':' := by decide
  have hsmall : b.toNat < 256 := b.toNat_lt
  rcases List.mem_cons.mp hmem with h | hmem
  · exact hdigit _ (by omega) h.symm
  · exact hdigit _ (by omega) (List.mem_singleton.mp hmem).symm

theorem IsId.colon_notMem {id : String} (h : IsId id) : ':' ∉ id.toList := by
  obtain ⟨bytes,-,rfl⟩ := h
  unfold hexEncode
  rw [String.toList_ofList,List.mem_flatMap]
  rintro ⟨b,-,hmem⟩
  exact colon_notMem_hexByte b hmem

/-- The ids and dates of a store, beside the lives of its keys. -/
structure Kept (options : Options) (s : State) : Prop where
  told : Told options s.store s.history
  records : ∀ id record, s.store.records.get id = some record →
    record.id = id ∧ IsId id ∧ IsDate record.createdAt
  audit : ∀ entry ∈ s.store.audit, IsId entry.keyId ∧ IsDate entry.time

/-- From one store to a later one, keys stay, revoked keys stay revoked, and the log grows. -/
structure Later (a b : State) : Prop where
  records : ∀ id record, a.store.records.get id = some record →
    ∃ later, b.store.records.get id = some later ∧ later.label = record.label ∧
      later.createdAt = record.createdAt ∧ (record.status = .revoked → later.status = .revoked)
  audit : a.store.audit <+: b.store.audit

section Steps
variable {options : Options} {s : State} {op : Op}

theorem audit_times (options : Options) (store : ApiKeyStore) (op : Op) :
    ∀ entry ∈ (perform options store op).2.audit, entry ∈ store.audit ∨ IsDate entry.time := by
  intro entry hentry
  cases op with
  | issue label idBytes keyBytes now =>
      simp only [perform,issue] at hentry
      split at hentry
      · exact .inl hentry
      · rename_i createdAt hcreated
        obtain ⟨hvalid,htext⟩ := dateText_eq_some hcreated
        rcases List.mem_append.mp hentry with hold | hnew
        · exact .inl hold
        · obtain rfl := List.mem_singleton.mp hnew
          exact .inr ⟨now,hvalid,htext⟩
  | revoke id now =>
      simp only [perform,revoke] at hentry
      split at hentry
      · exact .inl hentry
      · split at hentry
        · exact .inl hentry
        · split at hentry
          · rename_i revokedAt graceExpiresAt hrevoked hgrace
            obtain ⟨hvalid,htext⟩ := dateText_eq_some hrevoked
            rcases List.mem_append.mp hentry with hold | hnew
            · exact .inl hold
            · obtain rfl := List.mem_singleton.mp hnew
              exact .inr ⟨now,hvalid,htext⟩
          · exact .inl hentry
  | verify presented now => exact .inl hentry

theorem kept_records (h : Kept options s) (hdrawn : Drawn s op) :
    ∀ id record, (ApiKeys.step options s op).store.records.get id = some record →
      record.id = id ∧ IsId id ∧ IsDate record.createdAt := by
  have heffect := perform_effect options s.store op
  change ∀ id record, (perform options s.store op).2.records.get id = some record → _
  generalize (perform options s.store op).1 = answer at heffect
  generalize (perform options s.store op).2 = store at heffect ⊢
  cases heffect with
  | unchanged hissued hrevoked => exact h.records
  | again now hget hstatus => exact h.records
  | issued label idBytes keyBytes hcreated =>
      obtain ⟨hvalid,htext⟩ := dateText_eq_some hcreated
      intro id record hget
      rcases InsertionMap.get_set_cases hget with ⟨rfl,rfl⟩ | ⟨-,hold⟩
      · exact ⟨rfl,⟨idBytes,hdrawn.2,rfl⟩,_,hvalid,htext⟩
      · exact h.records id record hold
  | revoked hget hstatus hgrace =>
      intro id record hfound
      rcases InsertionMap.get_set_cases hfound with ⟨rfl,rfl⟩ | ⟨-,hold⟩
      · have hkept := h.records _ _ hget
        exact hkept
      · exact h.records id record hold

theorem kept_audit (h : Kept options s) (hdrawn : Drawn s op) :
    ∀ entry ∈ (ApiKeys.step options s op).store.audit, IsId entry.keyId ∧ IsDate entry.time := by
  have htimes := audit_times options s.store op
  have heffect := perform_effect options s.store op
  change ∀ entry ∈ (perform options s.store op).2.audit, _
  generalize (perform options s.store op).1 = answer at heffect
  generalize (perform options s.store op).2 = store at heffect htimes ⊢
  intro entry hentry
  have hold : entry ∈ s.store.audit → IsId entry.keyId ∧ IsDate entry.time := h.audit entry
  refine ⟨?_,(htimes entry hentry).elim (fun hmem => (hold hmem).2) id⟩
  cases heffect with
  | unchanged hissued hrevoked => exact (hold hentry).1
  | again now hget hstatus => exact (hold hentry).1
  | issued label idBytes keyBytes hcreated =>
      rcases List.mem_append.mp hentry with hmem | hnew
      · exact (hold hmem).1
      · obtain rfl := List.mem_singleton.mp hnew
        exact ⟨idBytes,hdrawn.2,rfl⟩
  | revoked hget hstatus hgrace =>
      rcases List.mem_append.mp hentry with hmem | hnew
      · exact (hold hmem).1
      · obtain rfl := List.mem_singleton.mp hnew
        exact (h.records _ _ hget).2.1

theorem kept_step (h : Kept options s) (hdrawn : Drawn s op) :
    Kept options (ApiKeys.step options s op) :=
  ⟨told_step h.told hdrawn.1,kept_records h hdrawn,kept_audit h hdrawn⟩

theorem kept_start (options : Options) : Kept options {} where
  told := told_start options
  records := nofun
  audit := nofun

theorem Later.refl (s : State) : Later s s :=
  ⟨fun _ record hget => ⟨record,hget,rfl,rfl,id⟩,List.prefix_refl _⟩

theorem Later.trans {a b c : State} (hab : Later a b) (hbc : Later b c) : Later a c where
  records := by
    intro id record hget
    obtain ⟨later,hlater,hlabel,hcreated,hrevoked⟩ := hab.records id record hget
    obtain ⟨last,hlast,hlabel',hcreated',hrevoked'⟩ := hbc.records id later hlater
    exact ⟨last,hlast,hlabel'.trans hlabel,hcreated'.trans hcreated,
      fun hstatus => hrevoked' (hrevoked hstatus)⟩
  audit := hab.audit.trans hbc.audit

/-- A key that is set again keeps its label and its date, and is not active again. -/
theorem records_set {store : ApiKeyStore} {key : String} {old new : ApiKeyRecord}
    (hget : store.records.get key = some old) (hlabel : new.label = old.label)
    (hcreated : new.createdAt = old.createdAt) (hstatus : old.status = .revoked →
      new.status = .revoked) (id : String) (record : ApiKeyRecord)
    (hrecord : store.records.get id = some record) :
    ∃ later, (store.records.set key new).get id = some later ∧ later.label = record.label ∧
      later.createdAt = record.createdAt ∧ (record.status = .revoked → later.status = .revoked) := by
  by_cases hid : id = key
  · subst hid
    obtain rfl := Option.some.inj (hget.symm.trans hrecord)
    exact ⟨new,InsertionMap.get_set_self _ _ _,hlabel,hcreated,hstatus⟩
  · exact ⟨record,(InsertionMap.get_set_of_ne _ hid _).trans hrecord,rfl,rfl,fun h => h⟩

theorem later_step (h : Kept options s) (hdrawn : Drawn s op) :
    Later s (ApiKeys.step options s op) := by
  have heffect := perform_effect options s.store op
  change Later s ⟨(perform options s.store op).2,_⟩
  generalize s.history ++ [(op,(perform options s.store op).1)] = history
  generalize (perform options s.store op).1 = answer at heffect
  generalize (perform options s.store op).2 = store at heffect ⊢
  cases heffect with
  | unchanged hissued hrevoked => exact ⟨(Later.refl s).records,List.prefix_refl _⟩
  | again now hget hstatus => exact ⟨(Later.refl s).records,List.prefix_refl _⟩
  | issued label idBytes keyBytes hcreated =>
      refine ⟨?_,List.prefix_append _ _⟩
      intro id record hget
      have hfresh := get_of_fresh h.told fun issued hissued => (hdrawn.1 issued hissued).1
      have hne : id ≠ hexEncode idBytes := by
        rintro rfl
        rw [hfresh] at hget
        cases hget
      exact ⟨record,(InsertionMap.get_set_of_ne _ hne _).trans hget,rfl,rfl,fun hrevoked => hrevoked⟩
  | revoked hget hstatus hgrace =>
      exact ⟨records_set hget rfl rfl fun _ => rfl,List.prefix_append _ _⟩

end Steps

/-! ## Keys of their own -/

section Keys
variable {options : Options} {s : State}

theorem get_of_mem {store : ApiKeyStore} {entry : String × ApiKeyRecord}
    (h : entry ∈ store.records.entries) : store.records.get entry.1 = some entry.2 :=
  InsertionMap.get_eq_some.mpr h

theorem Kept.ids (h : Kept options s) : (list s.store).map (·.id) =
    s.store.records.entries.map Prod.fst := by
  unfold list
  rw [List.map_map]
  apply List.map_congr_left
  intro entry hentry
  exact (h.records _ _ (get_of_mem hentry)).1

theorem keyed_list (h : Kept options s) : Keyed metadataKey (list s.store) where
  nodup := by
    have hids : ((list s.store).map metadataKey).map CursorKey.i = (list s.store).map (·.id) := by
      rw [List.map_map]
      rfl
    refine List.Nodup.of_map CursorKey.i ?_
    rw [hids,h.ids]
    exact s.store.records.nodup
  ids := by
    intro m hm
    obtain ⟨entry,hentry,rfl⟩ := List.mem_map.mp hm
    obtain ⟨hid,his,-⟩ := h.records _ _ (get_of_mem hentry)
    change entry.2.id ≠ ""
    rw [hid]
    exact his.ne_empty

theorem colon_notMem_actionText (action : AuditAction) : ':' ∉ (actionText action).toList := by
  cases action <;> decide

theorem actionText_injective : Function.Injective actionText := by
  intro a b h
  cases a <;> cases b <;> first | rfl | exact absurd h (by decide)

/-- The key of an audit entry tells the key it is about and what was done with it. -/
theorem auditKey_inj {a b : ApiKeyAuditEntry} (ha : IsId a.keyId) (hb : IsId b.keyId)
    (h : auditKey a = auditKey b) : a.action = b.action ∧ a.keyId = b.keyId := by
  have hi : a.keyId.toList ++ ':' :: ((actionText a.action).toList ++ ':' :: a.time.toList) =
      b.keyId.toList ++ ':' :: ((actionText b.action).toList ++ ':' :: b.time.toList) := by
    have htext := congrArg (fun key => key.i.toList) h
    simpa [auditKey] using htext
  obtain ⟨hid,hrest⟩ := cut_unique_left ha.colon_notMem hb.colon_notMem hi
  obtain ⟨haction,-⟩ := cut_unique_left (colon_notMem_actionText a.action)
    (colon_notMem_actionText b.action) hrest
  exact ⟨actionText_injective (String.toList_inj.mp haction),String.toList_inj.mp hid⟩

/-- No two entries of the log are about the same action on the same key. -/
theorem Kept.pairwise_audit (h : Kept options s) :
    s.store.audit.Pairwise fun a b => ¬ (a.action = b.action ∧ a.keyId = b.keyId) := by
  rw [List.pairwise_iff_forall_sublist]
  rintro a b hsub ⟨haction,hid⟩
  have hcount : (entriesOf a.action a.keyId s.store.audit).length ≤ 1 := by
    cases hkind : a.action with
    | issued =>
        rw [h.told.issuedOnce]
        split <;> omega
    | revoked =>
        rw [h.told.revokedOnce]
        split <;> omega
  have hboth : List.Sublist [a,b] (entriesOf a.action a.keyId s.store.audit) := by
    have hfilter := hsub.filter fun entry => entry.action = a.action ∧ entry.keyId = a.keyId
    rwa [List.filter_cons_of_pos (by simp),List.filter_cons_of_pos (by simp [haction,hid])]
      at hfilter
  have hlength := hboth.length_le
  simp at hlength
  omega

theorem keyed_audit (h : Kept options s) : Keyed auditKey s.store.audit where
  nodup := by
    rw [List.Nodup,List.pairwise_map]
    refine List.Pairwise.imp_of_mem ?_ h.pairwise_audit
    intro a b ha hb hne hsame
    exact hne (auditKey_inj (h.audit a ha).1 (h.audit b hb).1 hsame)
  ids := by
    intro entry _ hempty
    have hlist := congrArg String.toList hempty
    simp [auditKey] at hlist

/-- A key stands at the same place in every later list. -/
theorem forward_list (collation : Collation) {a b : State} (ha : Kept options a)
    (hb : Kept options b) (hlater : Later a b) :
    Forward (fun s => list s.store) collation metadataKey .asc a b := by
  intro x hx y hy hsame
  obtain ⟨ex,hex,rfl⟩ := List.mem_map.mp hx
  obtain ⟨ey,hey,rfl⟩ := List.mem_map.mp hy
  obtain ⟨hidx,-,-⟩ := ha.records _ _ (get_of_mem hex)
  obtain ⟨hidy,-,-⟩ := hb.records _ _ (get_of_mem hey)
  obtain ⟨later,hget,-,hcreated,-⟩ := hlater.records _ _ (get_of_mem hex)
  have hfst : ex.1 = ey.1 := hidx.symm.trans (Eq.trans hsame hidy)
  rw [hfst,get_of_mem hey] at hget
  obtain rfl := Option.some.inj hget
  have hkey : metadataKey ex.2.toApiKeyMetadata = metadataKey ey.2.toApiKeyMetadata := by
    unfold metadataKey
    rw [← hcreated]
    exact congrArg _ hsame
  rw [hkey]
  exact keyBefore_irrefl collation .asc _

end Keys

/-! ## What has been read -/

section Read
variable {options : Options} {collation : Collation}

theorem read_of_keys {s : Reading State ApiKeyMetadata}
    (h : InStep (fun s => list s.store) collation metadataKey .asc s)
    (hfollowed : Followed (Kept options) Later s) : KeysRead collation s where
  once := by
    apply h.read.nodup_ids
    · intro store hstore
      have hkept := (hfollowed.found store hstore).1
      exact forward_list collation hkept hkept (Later.refl store)
    · refine List.Pairwise.imp_of_mem ?_ hfollowed.ordered
      intro a b ha hb hlater
      exact forward_list collation (hfollowed.found a ha).1 (hfollowed.found b hb).1 hlater
  ordered := h.read.ordered
  dated := by
    intro m hm
    obtain ⟨store,hstore,hmem⟩ := h.read.origin hm
    obtain ⟨entry,hentry,rfl⟩ := List.mem_map.mp hmem
    exact ((hfollowed.found store hstore).1.records _ _ (get_of_mem hentry)).2.2.readsBack
  present := by
    intro m hm
    obtain ⟨store,hstore,hmem⟩ := h.read.origin hm
    obtain ⟨hkept,hlater⟩ := hfollowed.found store hstore
    obtain ⟨entry,hentry,rfl⟩ := List.mem_map.mp hmem
    obtain ⟨hid,-,-⟩ := hkept.records _ _ (get_of_mem hentry)
    obtain ⟨later,hget,hlabel,hcreated,-⟩ := hlater.records _ _ (get_of_mem hentry)
    exact ⟨later,hid ▸ hget,hlabel,hcreated⟩
  complete := by
    intro hfinished first hfirst issued hissued
    have hmem : ∀ store ∈ s.found, Kept options first ∧ Later first store :=
      fun store hstore => hfollowed.after_first (fun s _ => Later.refl s) hfirst hstore
    have hhead : first ∈ s.found := List.mem_of_head? hfirst
    have hkept := (hmem first hhead).1
    obtain ⟨-,record,hget,-⟩ := hkept.told.complete issued.1 issued.2 hissued
    have hid := (hkept.records _ _ hget).1
    have hall : ∀ store ∈ s.found,
        metadataKey record.toApiKeyMetadata ∈ (list store.store).map metadataKey := by
      intro store hstore
      obtain ⟨later,hlater,-,hcreated,-⟩ := (hmem store hstore).2.records _ _ hget
      have hsame := ((hfollowed.found store hstore).1.records _ _ hlater).1
      refine List.mem_map.mpr ⟨later.toApiKeyMetadata,?_,?_⟩
      · exact List.mem_map.mpr ⟨(issued.1,later),InsertionMap.get_eq_some.mp hlater,rfl⟩
      · unfold metadataKey
        rw [hcreated,hsame,hid]
    obtain ⟨m,hm,hkey⟩ := List.mem_map.mp (h.read.complete hfinished _ hall)
    have hmid : m.id = record.id := congrArg CursorKey.i hkey
    exact List.mem_map.mpr ⟨m,hm,hmid.trans hid⟩
  revoked := by
    intro first hfirst m hm hrevoked
    obtain ⟨store,hstore,hmem⟩ := h.read.origin hm
    obtain ⟨hkept,hlater⟩ := hfollowed.after_first (fun s _ => Later.refl s) hfirst hstore
    obtain ⟨entry,hentry,rfl⟩ := List.mem_map.mp hmem
    have hid := ((hfollowed.found store hstore).1.records _ _ (get_of_mem hentry)).1
    change (firstRevocation first.history entry.2.id).isSome = true at hrevoked
    rw [hid] at hrevoked
    cases hget : first.store.records.get entry.1 with
    | none =>
        rw [hkept.told.unknown _ hget] at hrevoked
        cases hrevoked
    | some record =>
        obtain ⟨-,-,-,hlived⟩ := hkept.told.known _ _ hget
        obtain ⟨t,ht⟩ := Option.isSome_iff_exists.mp hrevoked
        rw [ht] at hlived
        obtain ⟨later,hfound,-,-,hstays⟩ := hlater.records _ _ hget
        rw [get_of_mem hentry] at hfound
        obtain rfl := Option.some.inj hfound
        exact hstays hlived.1
  answered := h.answered (keyed_list hfollowed.present)

theorem read_of_audit {s : Reading State ApiKeyAuditEntry}
    (h : InStep (fun s => s.store.audit) collation auditKey .desc s)
    (hfollowed : Followed (Kept options) Later s) : AuditRead collation s where
  once := by
    have hkeys : (shownKeys auditKey s).Nodup := by
      refine h.read.ordered.imp ?_
      rintro a _ hab rfl
      exact keyBefore_irrefl collation .desc a hab
    exact List.Nodup.of_map auditKey hkeys
  ordered := h.read.ordered
  dated := by
    intro entry hentry
    obtain ⟨store,hstore,hmem⟩ := h.read.origin hentry
    exact ((hfollowed.found store hstore).1.audit entry hmem).2.readsBack
  present := by
    intro entry hentry
    obtain ⟨store,hstore,hmem⟩ := h.read.origin hentry
    exact (hfollowed.found store hstore).2.audit.subset hmem
  complete := by
    intro hfinished first hfirst entry hentry
    have hall : ∀ store ∈ s.found, auditKey entry ∈ store.store.audit.map auditKey := by
      intro store hstore
      obtain ⟨-,hlater⟩ := hfollowed.after_first (fun s _ => Later.refl s) hfirst hstore
      exact List.mem_map_of_mem (hlater.audit.subset hentry)
    obtain ⟨shownEntry,hshown,hkey⟩ := List.mem_map.mp (h.read.complete hfinished _ hall)
    obtain ⟨store,hstore,hmem⟩ := h.read.origin hshown
    obtain ⟨-,hlater⟩ := hfollowed.after_first (fun s _ => Later.refl s) hfirst hstore
    have hkeyed := keyed_audit (hfollowed.found store hstore).1
    have hsame := List.inj_on_of_nodup_map hkeyed.nodup hmem (hlater.audit.subset hentry) hkey
    exact hsame ▸ hshown
  answered := h.answered (keyed_audit hfollowed.present)

end Read

/-- However calls to the store come between the requests, whoever follows the cursors reads every
key once that had been issued before the first request, by creation time and then identifier and
with every revocation before it, and every entry once that the audit log had then. -/
theorem listings_read (options : Options) (collation : Collation) (labels : List (Label Op))
    (hdrawn : Guarded (ApiKeys.step options) Drawn {} (calls labels)) :
    KeysRead collation (readKeys options collation labels) ∧
      AuditRead collation (readAudit options collation labels) := by
  have hkept : ∀ s op, Kept options s → Drawn s op → Kept options (ApiKeys.step options s op) :=
    fun _ _ => kept_step
  have hlater : ∀ s op, Kept options s → Drawn s op → Later s (ApiKeys.step options s op) :=
    fun _ _ => later_step
  have htrans : ∀ a b c : State, Later a b → Later b c → Later a c := fun _ _ _ => Later.trans
  constructor
  · exact read_of_keys (run_inStep hkept (fun _ => keyed_list) (kept_start options) hdrawn)
      (run_followed hkept (fun s _ => Later.refl s) htrans hlater (kept_start options) hdrawn)
  · exact read_of_audit (run_inStep hkept (fun _ => keyed_audit) (kept_start options) hdrawn)
      (run_followed hkept (fun s _ => Later.refl s) htrans hlater (kept_start options) hdrawn)

def hourOfGrace : Options := ⟨fun text => Sha256.sha256 (JsStrings.utf8 text),3600000⟩

/-- Two keys are issued; the second is revoked after the first page, and a third is issued. -/
def betweenPages : List (Label Op) :=
  [.perform (.issue "ci" [1,0,0,0,0,0,0,0] [1] 0),.perform (.issue "cd" [2,0,0,0,0,0,0,0] [2] 10),
    .request (some (.text "1")),.perform (.revoke "0200000000000000" 20),
    .perform (.issue "ops" [3,0,0,0,0,0,0,0] [3] 30),.request none]

theorem listings_read_betweenPages :
    KeysRead ordinal (readKeys hourOfGrace ordinal betweenPages) ∧
      AuditRead ordinal (readAudit hourOfGrace ordinal betweenPages) :=
  listings_read hourOfGrace ordinal betweenPages (by decide +kernel)

end Creditra.ApiKeyListings
