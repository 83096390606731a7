import Creditra.GuardedRuns
import Creditra.IsoDates
import Creditra.JsonKeyOrder
import Creditra.Sha256
import Creditra.SigningInput

/-!
# The admin audit log

`services/adminAuditLog.ts`: every record carries the hash of the record before
it and the hash of its own text. The text has the fields of the record and the
keys of every nested object sorted by `localeCompare`, of which nothing is
assumed: equivalent keys keep the order they came in. Values of `before` and
`after` are JSON values or are missing, and a missing one is printed as
`undefined`. Sensitive keys lose their values before anything is stored.
-/
namespace Creditra.AdminAudit
open GuardedRuns InboundWebhookSignature IsoDates JsStrings JsonKeyOrder JsonRoundTrip JsonText
open JsonValues NumberText SigningInput

/-- A value of JSON: its numbers are doubles, and no object has a key twice. -/
abbrev JsonValue : Type := { v : Json // Printable v }

structure AuditTarget where
  type : String
  id : Option String

structure AdminAuditRecordInput where
  actor : String
  action : String
  target : AuditTarget
  before : Option JsonValue
  after : Option JsonValue
  correlationId : Option String

/-- A record without its hash. -/
structure RecordBody where
  id : String
  actor : String
  action : String
  targetType : String
  targetId : Option String
  before : Option JsonValue
  after : Option JsonValue
  correlationId : String
  createdAt : String
  previousHash : Option String

structure AdminAuditRecord extends RecordBody where
  hash : String

/-- The collation and the digest of the platform. -/
structure Platform where
  localeCompare : String → String → ℤ
  sha256 : Bytes → Bytes

/-! ## Redaction -/

def REDACTED : String := "[REDACTED]"

/-- Two words with a hyphen, an underscore or nothing between them. -/
def joined (first second : String) : List String :=
  [first ++ second,first ++ "-" ++ second,first ++ "_" ++ second]

def SENSITIVE_KEY_PATTERN : List String :=
  ["authorization","secret","password","plaintext","token"] ++ joined "api" "key" ++
    joined "private" "key" ++ ["seed","mnemonic"]

/-- The pattern ignores the case of ASCII letters and matches anywhere in the key. -/
def sensitive (key : String) : Bool :=
  (key.toList.map Char.toLower).tails.any fun rest =>
    SENSITIVE_KEY_PATTERN.any fun word => word.toList.isPrefixOf rest

mutual

def redactAuditValue : Json → Json
  | .null => .null
  | .bool b => .bool b
  | .number text => .number text
  | .string s => .string s
  | .array items => .array (redactItems items)
  | .object fields => .object (redactFields fields)

def redactItems : List Json → List Json
  | [] => []
  | v :: items => redactAuditValue v :: redactItems items

def redactFields : List (String × Json) → List (String × Json)
  | [] => []
  | f :: fields =>
      (f.1,if sensitive f.1 then .string REDACTED else redactAuditValue f.2) :: redactFields fields

end

theorem redactItems_eq (items : List Json) : redactItems items = items.map redactAuditValue := by
  induction items with
  | nil => rw [redactItems,List.map_nil]
  | cons v items ih => rw [redactItems,List.map_cons,ih]

theorem redactFields_eq (fields : List (String × Json)) :
    redactFields fields = fields.map fun f =>
      (f.1,if sensitive f.1 then .string REDACTED else redactAuditValue f.2) := by
  induction fields with
  | nil => rw [redactFields,List.map_nil]
  | cons f fields ih => rw [redactFields,List.map_cons,ih]

theorem printable_redactAuditValue {v : Json} (h : Printable v) :
    Printable (redactAuditValue v) := by
  induction h with
  | null =>
      rw [redactAuditValue]
      exact .null
  | bool b =>
      rw [redactAuditValue]
      exact .bool b
  | number x =>
      rw [redactAuditValue]
      exact .number x
  | string s =>
      rw [redactAuditValue]
      exact .string s
  | array hitems ih =>
      rw [redactAuditValue,redactItems_eq]
      apply Printable.array
      intro w hw
      obtain ⟨v,hv,rfl⟩ := List.mem_map.mp hw
      exact ih v hv
  | object hfields hkeys ih =>
      rw [redactAuditValue,redactFields_eq]
      apply Printable.object
      · intro g hg
        obtain ⟨f,hf,rfl⟩ := List.mem_map.mp hg
        by_cases hsensitive : sensitive f.1 = true
        · rw [if_pos hsensitive]
          exact .string REDACTED
        · rw [if_neg hsensitive]
          exact ih f hf
      · rw [List.map_map]
        exact hkeys

/-- What is kept of a value, where there is one. -/
def redacted (value : Option JsonValue) : Option JsonValue :=
  value.map fun v => ⟨redactAuditValue v.1,printable_redactAuditValue v.2⟩

/-! ## The text of a record -/

inductive Field where
  | id | actor | action | targetType | targetId | before | after | correlationId | createdAt
  | previousHash
  deriving DecidableEq

/-- The fields in the order in which a record is built. -/
def Field.all : List Field :=
  [.id,.actor,.action,.targetType,.targetId,.before,.after,.correlationId,.createdAt,.previousHash]

def Field.name : Field → String
  | .id => "id"
  | .actor => "actor"
  | .action => "action"
  | .targetType => "targetType"
  | .targetId => "targetId"
  | .before => "before"
  | .after => "after"
  | .correlationId => "correlationId"
  | .createdAt => "createdAt"
  | .previousHash => "previousHash"

def stringValue (s : String) : JsonValue := ⟨.string s,.string s⟩

def nullable : Option String → JsonValue
  | some s => stringValue s
  | none => ⟨.null,.null⟩

/-- A field that is `undefined` has no value. -/
def RecordBody.value (body : RecordBody) : Field → Option JsonValue
  | .id => some (stringValue body.id)
  | .actor => some (stringValue body.actor)
  | .action => some (stringValue body.action)
  | .targetType => some (stringValue body.targetType)
  | .targetId => some (nullable body.targetId)
  | .before => body.before
  | .after => body.after
  | .correlationId => some (stringValue body.correlationId)
  | .createdAt => some (stringValue body.createdAt)
  | .previousHash => some (nullable body.previousHash)

section Texts
variable (platform : Platform)

def sortsFirst (left right : String) : Bool := platform.localeCompare left right ≤ 0

/-- Below the record, `undefined` does not occur. -/
def stableStringify : Option JsonValue → List Char
  | none => "undefined".toList
  | some v => sortedText (sortsFirst platform) v.1

def entryText (entry : String × Option JsonValue) : List Char :=
  (quote entry.1).toList ++ ':' :: stableStringify platform entry.2

def recordText (body : RecordBody) : List Char :=
  '\x7b' :: (commas (((Field.all.map fun field => (field.name,body.value field)).insertionSort
    fun left right => sortsFirst platform left.1 right.1).map (entryText platform)) ++ ['\x7d'])

def computeHash (body : RecordBody) : String :=
  hexEncode (platform.sha256 (utf8 (String.ofList (recordText platform body))))

end Texts

/-! ## The log -/

/-- A call, with the identifiers drawn for it and the reading of the clock. -/
inductive Call where
  | record (input : AdminAuditRecordInput) (id fallbackId : String) (now : ℤ)
  | resetForTests

/-- The record of an entry; an instant that no date holds makes the call throw. -/
def newRecord (platform : Platform) (records : List AdminAuditRecord)
    (input : AdminAuditRecordInput) (id fallbackId : String) (now : ℤ) :
    Option AdminAuditRecord :=
  (dateText now).map fun createdAt =>
    let withoutHash : RecordBody :=
      { id := id
        actor := input.actor
        action := input.action
        targetType := input.target.type
        targetId := input.target.id
        before := redacted input.before
        after := redacted input.after
        correlationId := input.correlationId.getD fallbackId
        createdAt := createdAt
        previousHash := records.getLast?.map AdminAuditRecord.hash }
    ⟨withoutHash,computeHash platform withoutHash⟩

def step (platform : Platform) (records : List AdminAuditRecord) :
    Call → List AdminAuditRecord
  | .record input id fallbackId now =>
      records ++ (newRecord platform records input id fallbackId now).toList
  | .resetForTests => []

/-- The log after a sequence of calls. -/
def built (platform : Platform) (calls : List Call) : List AdminAuditRecord :=
  run (step platform) [] calls

def lastHash (records : List AdminAuditRecord) : Option String :=
  records.getLast?.map AdminAuditRecord.hash

/-! ## The text of a record tells the record -/

/-- Both values are missing, or they are the same up to the order of keys. -/
def SameValue : Option JsonValue → Option JsonValue → Prop :=
  Option.Rel fun v w => Same v.1 w.1

/-- The records are equal but for the order of the keys in `before` and `after`. -/
structure SameRecord (r r' : AdminAuditRecord) : Prop where
  id : r.id = r'.id
  actor : r.actor = r'.actor
  action : r.action = r'.action
  targetType : r.targetType = r'.targetType
  targetId : r.targetId = r'.targetId
  before : SameValue r.before r'.before
  after : SameValue r.after r'.after
  correlationId : r.correlationId = r'.correlationId
  createdAt : r.createdAt = r'.createdAt
  previousHash : r.previousHash = r'.previousHash
  hash : r.hash = r'.hash

theorem stringValue_inj {s s' : String}
    (h : SameValue (some (stringValue s)) (some (stringValue s'))) : s = s' := by
  cases h with
  | some hsame =>
      generalize hv : (stringValue s).1 = v at hsame
      generalize hw : (stringValue s').1 = w at hsame
      cases hsame with
      | string text => exact (Json.string.inj hv).trans (Json.string.inj hw).symm
      | null | bool b | number text | array hitems | object hmoved hfields => cases hv

theorem nullable_inj {s s' : Option String}
    (h : SameValue (some (nullable s)) (some (nullable s'))) : s = s' := by
  cases s with
  | none =>
      cases s' with
      | none => rfl
      | some t' =>
          cases h with
          | some hsame =>
              exact nomatch (show Same .null (.string t') from hsame)
  | some t =>
      cases s' with
      | none =>
          cases h with
          | some hsame =>
              exact nomatch (show Same (.string t) .null from hsame)
      | some t' => rw [stringValue_inj h]

section Texts
variable (platform : Platform)

/-- No value begins like `undefined`. -/
theorem undefined_ne_sortedText {v : Json} (hv : Printable v) (rest rest' : List Char) :
    "undefined".toList ++ rest ≠ sortedText (sortsFirst platform) v ++ rest' := by
  intro h
  rw [sortedText_eq] at h
  obtain ⟨c,tail,htext,hc⟩ := begins_valueText (printable_sortKeys (sortsFirst platform) hv)
  rw [htext] at h
  have hhead : 'u' = c := (List.cons.inj h).1
  exact hc.2.2.2 hhead.symm

theorem stableStringify_append_inj {value value' : Option JsonValue} {rest rest' : List Char}
    (hrest : Stops rest) (hrest' : Stops rest')
    (h : stableStringify platform value ++ rest = stableStringify platform value' ++ rest') :
    SameValue value value' ∧ rest = rest' := by
  cases value with
  | none =>
      cases value' with
      | none => exact ⟨.none,List.append_cancel_left h⟩
      | some w => exact absurd h (undefined_ne_sortedText platform w.2 rest rest')
  | some v =>
      cases value' with
      | none => exact absurd h.symm (undefined_ne_sortedText platform v.2 rest' rest)
      | some w =>
          obtain ⟨hsame,htail⟩ :=
            sortedText_append_inj (sortsFirst platform) v.2 w.2 hrest hrest' h
          exact ⟨.some hsame,htail⟩

theorem entryText_append_inj {name : String} {value value' : Option JsonValue}
    {rest rest' : List Char} (hrest : Stops rest) (hrest' : Stops rest')
    (h : entryText platform (name,value) ++ rest = entryText platform (name,value') ++ rest') :
    SameValue value value' ∧ rest = rest' := by
  unfold entryText at h
  rw [List.append_assoc,List.append_assoc] at h
  have htail := List.append_cancel_left h
  rw [List.cons_append,List.cons_append,List.cons.injEq] at htail
  exact stableStringify_append_inj platform hrest hrest' htail.2

/-- One list of fields, printed for two records. -/
theorem fields_inj {body body' : RecordBody} {fields : List Field}
    (h : commas (fields.map fun field => entryText platform (field.name,body.value field)) ++
        ['\x7d'] =
      commas (fields.map fun field => entryText platform (field.name,body'.value field)) ++
        ['\x7d']) :
    ∀ field ∈ fields, SameValue (body.value field) (body'.value field) := by
  induction fields with
  | nil =>
      intro field hfield
      cases hfield
  | cons first fields ih =>
      cases fields with
      | nil =>
          rw [List.map_singleton,List.map_singleton,commas,commas] at h
          obtain ⟨hsame,-⟩ := entryText_append_inj platform (stops_brace []) (stops_brace []) h
          intro field hfield
          rw [List.mem_singleton.mp hfield]
          exact hsame
      | cons second fields =>
          rw [List.map_cons,List.map_cons,List.map_cons,List.map_cons,commas,commas,
            List.append_assoc,List.append_assoc,List.cons_append,List.cons_append] at h
          obtain ⟨hsame,htail⟩ := entryText_append_inj platform (stops_comma _) (stops_comma _) h
          intro field hfield
          cases List.mem_cons.mp hfield with
          | inl heq =>
              rw [heq]
              exact hsame
          | inr hmem => exact ih (List.cons.inj htail).2 field hmem

/-- The fields are printed in one order, whatever they hold. -/
theorem recordText_eq (body : RecordBody) :
    recordText platform body = '\x7b' :: (commas ((Field.all.insertionSort
      fun left right => sortsFirst platform left.name right.name).map fun field =>
        entryText platform (field.name,body.value field)) ++ ['\x7d']) := by
  have hsort : (Field.all.map fun field => (field.name,body.value field)).insertionSort
        (fun left right => sortsFirst platform left.1 right.1) =
      (Field.all.insertionSort fun left right => sortsFirst platform left.name right.name).map
        fun field => (field.name,body.value field) := by
    symm
    apply List.map_insertionSort
    intro a _ b _
    exact Iff.rfl
  rw [recordText,hsort,List.map_map]
  rfl

theorem mem_all (field : Field) : field ∈ Field.all := by
  cases field <;> decide

theorem recordText_inj {body body' : RecordBody}
    (h : recordText platform body = recordText platform body') (field : Field) :
    SameValue (body.value field) (body'.value field) := by
  rw [recordText_eq,recordText_eq] at h
  apply fields_inj platform (List.cons.inj h).2
  have hperm := List.perm_insertionSort
    (fun left right : Field => sortsFirst platform left.name right.name = true) Field.all
  exact hperm.mem_iff.mpr (mem_all field)

theorem computeHash_inj (hsha : Function.Injective platform.sha256) {body body' : RecordBody}
    (h : computeHash platform body = computeHash platform body') :
    recordText platform body = recordText platform body' := by
  have hdigest := congrArg (fun text => hexDecode text.toList) h
  simp only [computeHash,hexDecode_hexEncode] at hdigest
  have htext := congrArg fromUtf8 (hsha hdigest)
  rw [fromUtf8_utf8,fromUtf8_utf8] at htext
  exact String.ofList_injective htext

end Texts

/-! ## The chain -/

/-- Each record is linked to the one before it and hashed as it stands. -/
inductive Chained (platform : Platform) : List AdminAuditRecord → Prop
  | nil : Chained platform []
  | snoc {records : List AdminAuditRecord} {r : AdminAuditRecord} (h : Chained platform records)
      (hprevious : r.previousHash = lastHash records)
      (hhash : r.hash = computeHash platform r.toRecordBody) : Chained platform (records ++ [r])

theorem newRecord_chained {platform : Platform} {records : List AdminAuditRecord}
    {input : AdminAuditRecordInput} {id fallbackId : String} {now : ℤ} {r : AdminAuditRecord}
    (h : newRecord platform records input id fallbackId now = some r) :
    r.previousHash = lastHash records ∧ r.hash = computeHash platform r.toRecordBody := by
  rw [newRecord,Option.map_eq_some_iff] at h
  obtain ⟨createdAt,-,hr⟩ := h
  rw [← hr]
  exact ⟨rfl,rfl⟩

theorem chained_step {platform : Platform} {records : List AdminAuditRecord}
    (h : Chained platform records) (call : Call) :
    Chained platform (step platform records call) := by
  cases call with
  | record input id fallbackId now =>
      rw [step]
      cases hrecord : newRecord platform records input id fallbackId now with
      | none =>
          rw [Option.toList_none,List.append_nil]
          exact h
      | some r =>
          obtain ⟨hprevious,hhash⟩ := newRecord_chained hrecord
          exact .snoc h hprevious hhash
  | resetForTests => exact .nil

theorem chained_built (platform : Platform) (calls : List Call) :
    Chained platform (built platform calls) :=
  run_induction (I := Chained platform) (fun _ call h => chained_step h call) .nil calls

/-- The first record has no predecessor, and every later one names the hash of its own. -/
def Linked (records : List AdminAuditRecord) : Prop :=
  (∀ r, records[0]? = some r → r.previousHash = none) ∧
  ∀ i r r', records[i]? = some r → records[i + 1]? = some r' → r'.previousHash = some r.hash

theorem linked_of_chained {platform : Platform} {records : List AdminAuditRecord}
    (h : Chained platform records) : Linked records := by
  induction h with
  | nil =>
      constructor
      · intro r hr
        cases hr
      · intro i r r' hr
        cases hr
  | @snoc records last h hprevious hhash ih =>
      constructor
      · intro r hr
        cases records with
        | nil =>
            rw [← Option.some.inj hr]
            exact hprevious
        | cons first records => exact ih.1 r hr
      · intro i r r' hr hr'
        by_cases hlater : i + 1 < records.length
        · rw [List.getElem?_append_left hlater] at hr'
          rw [List.getElem?_append_left (by omega)] at hr
          exact ih.2 i r r' hr hr'
        · have hlength : i + 1 = records.length := by
            have hbound := (List.getElem?_eq_some_iff.mp hr').1
            rw [List.length_append,List.length_singleton] at hbound
            omega
          rw [hlength,List.getElem?_concat_length,Option.some.injEq] at hr'
          rw [List.getElem?_append_left (by omega)] at hr
          have hi : records.length - 1 = i := by omega
          rw [← hr',hprevious,lastHash,List.getLast?_eq_getElem?,hi,hr]
          rfl

/-- The hash of a record pins down the record, and its link the hash before it. -/
theorem sameRecord_of_hash {platform : Platform} (hsha : Function.Injective platform.sha256)
    {r r' : AdminAuditRecord} (hhash : r.hash = computeHash platform r.toRecordBody)
    (hhash' : r'.hash = computeHash platform r'.toRecordBody) (h : r.hash = r'.hash) :
    SameRecord r r' := by
  have htext : computeHash platform r.toRecordBody = computeHash platform r'.toRecordBody := by
    rw [← hhash,← hhash',h]
  have hfield := recordText_inj platform (computeHash_inj platform hsha htext)
  exact
    { id := stringValue_inj (hfield .id)
      actor := stringValue_inj (hfield .actor)
      action := stringValue_inj (hfield .action)
      targetType := stringValue_inj (hfield .targetType)
      targetId := nullable_inj (hfield .targetId)
      before := hfield .before
      after := hfield .after
      correlationId := stringValue_inj (hfield .correlationId)
      createdAt := stringValue_inj (hfield .createdAt)
      previousHash := nullable_inj (hfield .previousHash)
      hash := h }

theorem lastHash_snoc (records : List AdminAuditRecord) (r : AdminAuditRecord) :
    lastHash (records ++ [r]) = some r.hash := by
  rw [lastHash,List.getLast?_concat]
  rfl

/-- Chains that end in one hash have the same records. -/
theorem same_of_lastHash {platform : Platform} (hsha : Function.Injective platform.sha256)
    {records records' : List AdminAuditRecord} (h : Chained platform records)
    (h' : Chained platform records') (hlast : lastHash records = lastHash records') :
    List.Forall₂ SameRecord records records' := by
  induction h generalizing records' with
  | nil =>
      cases h' with
      | nil => exact .nil
      | snoc h' hprevious' hhash' =>
          rw [lastHash_snoc] at hlast
          cases hlast
  | snoc h hprevious hhash ih =>
      cases h' with
      | nil =>
          rw [lastHash_snoc] at hlast
          cases hlast
      | snoc h' hprevious' hhash' =>
          rw [lastHash_snoc,lastHash_snoc,Option.some.injEq] at hlast
          have hsame := sameRecord_of_hash hsha hhash hhash' hlast
          have hbefore := hsame.previousHash
          rw [hprevious,hprevious'] at hbefore
          exact List.rel_append (ih h' hbefore) (.cons hsame .nil)

/-- The log is tamper-evident: its last hash tells all its records, and every
record names the hash of the one before it. -/
theorem audit_log_tamper_evident (platform : Platform)
    (hsha : Function.Injective platform.sha256) :
    (∀ calls calls', lastHash (built platform calls) = lastHash (built platform calls') →
      List.Forall₂ SameRecord (built platform calls) (built platform calls')) ∧
    ∀ calls, Linked (built platform calls) := by
  constructor
  · intro calls calls' hlast
    exact same_of_lastHash hsha (chained_built platform calls) (chained_built platform calls') hlast
  · intro calls
    exact linked_of_chained (chained_built platform calls)

/-- The two orders in which one value can be written. -/
def maintenance (swapped : Bool) : JsonValue :=
  ⟨.object (if swapped then [("since",.null),("enabled",.bool true)]
      else [("enabled",.bool true),("since",.null)]),by
    apply Printable.object
    · cases swapped with
      | true => simp [Printable.null,Printable.bool]
      | false => simp [Printable.null,Printable.bool]
    · cases swapped <;> decide⟩

def updated (swapped : Bool) : Call :=
  .record ⟨"actor-1","maintenance_mode.updated",⟨"maintenance_mode",none⟩,
    some (maintenance swapped),none,some "corr-1"⟩ "record-1" "unused" 0

/-- What `updated` is logged as. -/
def loggedBody (swapped : Bool) : RecordBody :=
  ⟨"record-1","actor-1","maintenance_mode.updated","maintenance_mode",none,
    redacted (some (maintenance swapped)),none,"corr-1",toISOString 0,none⟩

def compareCodePoints (a b : String) : ℤ := if a < b then -1 else if b < a then 1 else 0

/-- SHA-256 on the text of one record, and no collision on the others. -/
def byCodePoints : Platform where
  localeCompare := compareCodePoints
  sha256 := Sha256.digestAmong
    [utf8 (String.ofList (recordText ⟨compareCodePoints,id⟩ (loggedBody false)))]

theorem recordText_maintenance (body : RecordBody) :
    recordText byCodePoints { body with before := redacted (some (maintenance true)) } =
      recordText byCodePoints { body with before := redacted (some (maintenance false)) } := by
  have hvalue : stableStringify byCodePoints (redacted (some (maintenance true))) =
      stableStringify byCodePoints (redacted (some (maintenance false))) := by
    decide
  rw [recordText_eq,recordText_eq]
  apply congrArg fun texts => '\x7b' :: (commas texts ++ ['\x7d'])
  apply List.map_congr_left
  intro field _
  cases field with
  | before => exact congrArg (fun text => (quote "before").toList ++ ':' :: text) hvalue
  | id | actor | action | targetType | targetId | after | correlationId | createdAt
  | previousHash => rfl

theorem lastHash_updated (swapped : Bool) :
    lastHash (built byCodePoints [updated swapped]) =
      some (computeHash byCodePoints (loggedBody swapped)) := by
  have hdate : dateText 0 = some (toISOString 0) := if_pos (by decide)
  rw [built,run_cons,run_nil,updated,step,newRecord,hdate]
  rfl

theorem audit_log_tamper_evident_reordered :
    lastHash (built byCodePoints [updated true]) = lastHash (built byCodePoints [updated false]) ∧
    List.Forall₂ SameRecord (built byCodePoints [updated true])
      (built byCodePoints [updated false]) := by
  have hlast : lastHash (built byCodePoints [updated true]) =
      lastHash (built byCodePoints [updated false]) := by
    rw [lastHash_updated,lastHash_updated,computeHash,computeHash]
    exact congrArg (fun text => some (hexEncode (byCodePoints.sha256 (utf8 (String.ofList text)))))
      (recordText_maintenance (loggedBody false))
  have hsha : Function.Injective byCodePoints.sha256 := Sha256.digestAmong_injective (by simp)
  exact ⟨hlast,(audit_log_tamper_evident byCodePoints hsha).1 _ _ hlast⟩

end Creditra.AdminAudit
