import Mathlib.Data.List.Basic

/-!
# Diagnostics with Stellar keys redacted

`sanitizeStellarDiagnostic`, on whatever a promise may be rejected with.
The patterns are `\bS[A-Z2-7]{55}\b` and `\bG[A-Z2-7]{55}\b`; the word boundary
knows the ASCII letters, the digits and the underscore.
-/
namespace Creditra.StellarDiagnostics

/-- An error object. -/
structure Thrown where
  name : String
  message : String
  deriving DecidableEq, Repr

def isWordChar (c : Char) : Bool := c.isAlphanum ∨ c = '_'

/-- The class `[A-Z2-7]`. -/
def isKeyChar (c : Char) : Bool := c.isUpper ∨ '2'.toNat ≤ c.toNat ∧ c.toNat ≤ '7'.toNat

/-- The pattern matches here, provided that no word character stands before. -/
def keyStarts (lead : Char) (cs : List Char) : Bool :=
  cs.head? = some lead ∧ 56 ≤ cs.length ∧ ((cs.drop 1).take 55).all isKeyChar ∧
    (cs.drop 56).head?.all fun c => ! isWordChar c

/-- `text.replace(pattern, redacted)` with the global flag. `skip` counts the
characters of the current match that are still to be passed over. -/
def redact (lead : Char) (redacted : List Char) (skip : ℕ) (afterWord : Bool) :
    List Char → List Char
  | [] => []
  | c :: cs =>
      match skip with
      | n + 1 => redact lead redacted n true cs
      | 0 =>
          if ! afterWord ∧ keyStarts lead (c :: cs) then
            redacted ++ redact lead redacted 55 true cs
          else c :: redact lead redacted 0 (isWordChar c) cs

def redactedPublicKey : String := "[REDACTED_STELLAR_PUBLIC_KEY]"

def redactedStellarSeed : String := "[REDACTED_STELLAR_SECRET_KEY]"

def sanitizeText (text : String) : String :=
  String.ofList (redact 'G' redactedPublicKey.toList 0 false
    (redact 'S' redactedStellarSeed.toList 0 false text.toList))

/-- The text made of an error object. -/
def Thrown.diagnostic (error : Thrown) : String :=
  let errorName := if error.name = "" then "Error" else error.name
  errorName ++ ": " ++ error.message

/-- What a promise is rejected with: an error object, a text, another value as it is printed, or
a value that no text is made of, so that the diagnostic throws. `undefined`, a symbol and a
function are of the last kind. -/
inductive Rejection where
  | error (e : Thrown)
  | text (s : String)
  | value (printed : String)
  | unprintable (e : Thrown)
  deriving DecidableEq, Repr

def stringifyForDiagnostic : Rejection → Except Thrown String
  | .error e => .ok e.diagnostic
  | .text s => .ok s
  | .value printed => .ok printed
  | .unprintable e => .error e

def sanitizeStellarDiagnostic (value : Rejection) : Except Thrown String :=
  (stringifyForDiagnostic value).map sanitizeText

/-- A text is made of the value. -/
def Rejection.Printable (value : Rejection) : Prop := ∀ e, value ≠ .unprintable e

theorem sanitizeStellarDiagnostic_of_printable {value : Rejection} (h : value.Printable) :
    ∃ message, sanitizeStellarDiagnostic value = .ok message := by
  cases value with
  | error e => exact ⟨_,rfl⟩
  | text s => exact ⟨_,rfl⟩
  | value printed => exact ⟨_,rfl⟩
  | unprintable e => exact absurd rfl (h e)

end Creditra.StellarDiagnostics
