import Creditra.AdminAudit

/-!
# What the audit log learns of secrets

Two values that differ only below sensitive keys are redacted to the same value,
and a log that is built from such values is the same log, hashes included.
-/
namespace Creditra.AuditRedaction
open AdminAudit GuardedRuns JsonRoundTrip JsonValues

mutual

/-- The values have the same shape and the same leaves, except below sensitive keys. -/
inductive Agrees : Json → Json → Prop
  | null : Agrees .null .null
  | bool (b : Bool) : Agrees (.bool b) (.bool b)
  | number (text : String) : Agrees (.number text) (.number text)
  | string (s : String) : Agrees (.string s) (.string s)
  | array {items items' : List Json} (h : AgreesItems items items') :
      Agrees (.array items) (.array items')
  | object {fields fields' : List (String × Json)} (h : AgreesFields fields fields') :
      Agrees (.object fields) (.object fields')

inductive AgreesItems : List Json → List Json → Prop
  | nil : AgreesItems [] []
  | cons {v v' : Json} {items items' : List Json} (hv : Agrees v v')
      (h : AgreesItems items items') : AgreesItems (v :: items) (v' :: items')

inductive AgreesFields : List (String × Json) → List (String × Json) → Prop
  | nil : AgreesFields [] []
  | secret (key : String) (hkey : sensitive key = true) (v v' : Json)
      {fields fields' : List (String × Json)} (h : AgreesFields fields fields') :
      AgreesFields ((key,v) :: fields) ((key,v') :: fields')
  | cons (key : String) {v v' : Json} {fields fields' : List (String × Json)}
      (hv : Agrees v v') (h : AgreesFields fields fields') :
      AgreesFields ((key,v) :: fields) ((key,v') :: fields')

end

/-! ## Values -/

mutual

theorem redactAuditValue_eq {v w : Json} (h : Agrees v w) :
    redactAuditValue v = redactAuditValue w := by
  cases h with
  | null => rfl
  | bool b => rfl
  | number text => rfl
  | string s => rfl
  | array h => rw [redactAuditValue,redactAuditValue,redactItems_agree h]
  | object h => rw [redactAuditValue,redactAuditValue,redactFields_agree h]

theorem redactItems_agree {items items' : List Json} (h : AgreesItems items items') :
    redactItems items = redactItems items' := by
  cases h with
  | nil => rfl
  | cons hv h => rw [redactItems,redactItems,redactAuditValue_eq hv,redactItems_agree h]

theorem redactFields_agree {fields fields' : List (String × Json)}
    (h : AgreesFields fields fields') : redactFields fields = redactFields fields' := by
  cases h with
  | nil => rfl
  | secret key hkey v v' h =>
      rw [redactFields,redactFields,redactFields_agree h,if_pos hkey,if_pos hkey]
  | cons key hv h => rw [redactFields,redactFields,redactAuditValue_eq hv,redactFields_agree h]

end

/-- Redaction changes nothing but what is below sensitive keys. -/
theorem agrees_redactAuditValue (v : Json) : Agrees v (redactAuditValue v) := by
  induction v using json_induction with
  | null => exact .null
  | bool b => exact .bool b
  | number text => exact .number text
  | string s => exact .string s
  | array items ih =>
      rw [redactAuditValue]
      apply Agrees.array
      induction items with
      | nil => exact .nil
      | cons v items ihitems =>
          rw [redactItems]
          exact .cons (ih v List.mem_cons_self)
            (ihitems fun w hw => ih w (List.mem_cons_of_mem _ hw))
  | object fields ih =>
      rw [redactAuditValue]
      apply Agrees.object
      induction fields with
      | nil => exact .nil
      | cons f fields ihfields =>
          have hrest := ihfields fun g hg => ih g (List.mem_cons_of_mem _ hg)
          rw [redactFields]
          by_cases hkey : sensitive f.1 = true
          · rw [if_pos hkey]
            exact .secret f.1 hkey f.2 _ hrest
          · rw [if_neg hkey]
            exact .cons f.1 (ih f List.mem_cons_self) hrest

theorem redactAuditValue_idem (v : Json) :
    redactAuditValue (redactAuditValue v) = redactAuditValue v :=
  (redactAuditValue_eq (agrees_redactAuditValue v)).symm

/-! ## Logs -/

/-- The inputs agree in everything but the sensitive parts of their values. -/
structure AgreesInput (input input' : AdminAuditRecordInput) : Prop where
  actor : input.actor = input'.actor
  action : input.action = input'.action
  target : input.target = input'.target
  before : Option.Rel (fun v w : JsonValue => Agrees v.1 w.1) input.before input'.before
  after : Option.Rel (fun v w : JsonValue => Agrees v.1 w.1) input.after input'.after
  correlationId : input.correlationId = input'.correlationId

inductive AgreesCall : Call → Call → Prop
  | record {input input' : AdminAuditRecordInput} (h : AgreesInput input input')
      (id fallbackId : String) (now : ℤ) :
      AgreesCall (.record input id fallbackId now) (.record input' id fallbackId now)
  | resetForTests : AgreesCall .resetForTests .resetForTests

theorem redacted_eq {value value' : Option JsonValue}
    (h : Option.Rel (fun v w : JsonValue => Agrees v.1 w.1) value value') :
    redacted value = redacted value' := by
  cases h with
  | none => rfl
  | some hv => exact congrArg some (Subtype.ext (redactAuditValue_eq hv))

theorem newRecord_eq (platform : Platform) (records : List AdminAuditRecord)
    {input input' : AdminAuditRecordInput} (h : AgreesInput input input')
    (id fallbackId : String) (now : ℤ) :
    newRecord platform records input id fallbackId now =
      newRecord platform records input' id fallbackId now := by
  simp only [newRecord,h.actor,h.action,h.target,h.correlationId,redacted_eq h.before,
    redacted_eq h.after]

theorem step_eq (platform : Platform) (records : List AdminAuditRecord) {call call' : Call}
    (h : AgreesCall call call') : step platform records call = step platform records call' := by
  cases h with
  | record h id fallbackId now => rw [step,step,newRecord_eq platform records h]
  | resetForTests => rfl

theorem run_eq (platform : Platform) {calls calls' : List Call}
    (h : List.Forall₂ AgreesCall calls calls') (records : List AdminAuditRecord) :
    run (step platform) records calls = run (step platform) records calls' := by
  induction h generalizing records with
  | nil => rfl
  | cons hcall _ ih => rw [run_cons,run_cons,step_eq platform records hcall,ih]

/-- Redaction does not look below sensitive keys and changes nothing else, and no
record or hash of a log depends on what is there. -/
theorem audit_redaction_noninterference (platform : Platform) :
    (∀ v w : Json, Agrees v w → redactAuditValue v = redactAuditValue w) ∧
    (∀ v : Json, Agrees v (redactAuditValue v)) ∧
    (∀ v : Json, redactAuditValue (redactAuditValue v) = redactAuditValue v) ∧
    ∀ calls calls' : List Call, List.Forall₂ AgreesCall calls calls' →
      built platform calls = built platform calls' := by
  refine ⟨?_,agrees_redactAuditValue,redactAuditValue_idem,?_⟩
  · intro v w h
    exact redactAuditValue_eq h
  · intro calls calls' h
    exact run_eq platform h []

/-- Two settings of a user, by password. -/
def settings (password : String) : Json :=
  .object [("user",.object [("newPassword",.string password)]),("roles",.array [.string "admin"])]

theorem audit_redaction_password :
    redactAuditValue (settings "hunter2") = redactAuditValue (settings "correct horse") := by
  refine (audit_redaction_noninterference ⟨fun _ _ => 0,id⟩).1 _ _ (.object ?_)
  refine .cons "user" (.object ?_) (.cons "roles" (.array (.cons (.string "admin") .nil)) .nil)
  exact .secret "newPassword" (by decide +kernel) _ _ .nil

end Creditra.AuditRedaction
