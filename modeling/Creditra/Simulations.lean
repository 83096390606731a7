import Creditra.ExactNumbers
import Creditra.LedgerBalances
import Creditra.MemoryCreditLines
import Creditra.SorobanAmounts

/-!
# Simulated draws and repayments

`routes/simulation.ts`: a simulation reads the line through the service and says
what a draw or a repayment would do, without doing it. It looks at the amount,
the limit and the balance of the line; neither at its status nor at its owner,
which a real draw checks. And it reads texts by `Number`, where the calls use
`parseFloat`.

The bodies are those the schemas admit. Amounts are exact. In memory a line keeps
its texts, whatever they say; the columns of Postgres keep decimals, which both
functions read alike.
-/
namespace Creditra.Simulations
open CreditModels AwaitTasks CreditLineService DecimalStrings ExactNumbers JsNumbers
open LedgerBalances PostgresSession PostgresRepositories

/-! ## The requests -/

/-- `/^G[A-Z2-7]{55}$/`. -/
def isValidStellarAddress (address : String) : Bool :=
  match address.toList with
  | 'G' :: cs => cs.length = 55 ∧ cs.all StellarDiagnostics.isKeyChar
  | _ => false

/-- `numericString`: `/^\d+(\.\d+)?$/`. -/
def numericString (text : String) : Option Numeral := afterSign false text.toList

/-- A body of `drawSchema` or `repaySchema`. -/
structure Body where
  walletAddress : String
  amount : String
  stellar : isValidStellarAddress walletAddress = true
  numeric : (numericString amount).isSome = true

namespace Body

/-- The decimal that the amount spells. -/
def value (body : Body) : ℚ := ((numericString body.amount).get body.numeric).number

/-- `Number(amount)`. -/
def number (body : Body) : Number := exactNumber body.amount

/-- `parseFloat(amount)`. -/
def parsed (body : Body) : Number := exactFloat body.amount

end Body

/-- The parts of a text of digits with an optional fraction. -/
theorem unsigned_parts {numeral : Numeral} (h : numeral.WellFormed) :
    numeral.unsigned.takeWhile isDigit = numeral.whole ∧
      FloatNumbers.fractionAtFront (numeral.unsigned.dropWhile isDigit) =
        (numeral.fraction,[]) := by
  obtain ⟨negative,whole,fraction⟩ := numeral
  obtain ⟨-,hwhole,hfraction⟩ := h
  unfold Numeral.unsigned
  by_cases hnil : fraction = []
  · obtain ⟨htake,hdrop⟩ := digits_append [] hwhole fun c hc => by cases hc
    simp only [hnil,if_true,htake,hdrop,FloatNumbers.fractionAtFront,and_self]
  · obtain ⟨htake,hdrop⟩ := digits_append ('.' :: fraction) hwhole fun c hc => by cases hc; rfl
    have hall : ∀ c ∈ fraction, isDigit c = true := List.all_eq_true.mp hfraction
    simp only [hnil,if_false,htake,hdrop,FloatNumbers.fractionAtFront,
      List.takeWhile_eq_self_iff.mpr hall,List.dropWhile_eq_nil_iff.mpr hall,and_self]

theorem exactValue_unsigned {numeral : Numeral} (hsign : numeral.negative = false) :
    FloatNumbers.exactValue ⟨false,numeral.whole,numeral.fraction,none⟩ = numeral.number := by
  simp only [FloatNumbers.exactValue,NumberText.Literal.magnitude,
    NumberText.Literal.exponentValue,Numeral.number,hsign,Bool.false_eq_true,if_false,one_mul,
    zero_sub,zpow_neg,zpow_natCast,div_eq_mul_inv]

section Readings
variable {text : String} {numeral : Numeral}

/-- Such a text begins with a digit. -/
theorem exists_cons (h : numeral.WellFormed) :
    ∃ c cs, numeral.unsigned = c :: cs ∧ isDigit c = true := by
  cases hu : numeral.unsigned with
  | nil =>
      have hnil : numeral.whole = [] := (List.append_eq_nil_iff.mp hu).1
      exact absurd hnil h.1
  | cons c cs => exact ⟨c,cs,rfl,unsigned_head h hu⟩

theorem exactFloat_numeric (h : numericString text = some numeral) :
    exactFloat text = .finite numeral.number := by
  obtain ⟨hsign,hform,htext⟩ := afterSign_spec h
  obtain ⟨hwhole,hfraction⟩ := unsigned_parts hform
  obtain ⟨c,cs,hcons,hdigit⟩ := exists_cons hform
  obtain ⟨hspace,hminus,hplus,hinfinity⟩ := FloatNumbers.digit_facts hdigit
  have hfront : ¬ "Infinity".toList.isPrefixOf (c :: cs) = true := by
    rw [List.isPrefixOf_iff_prefix]
    intro hprefix
    exact hinfinity (List.cons_prefix_cons.mp hprefix).1.symm
  have hdecimal : FloatNumbers.decimalAtFront false (c :: cs) =
      some ⟨false,numeral.whole,numeral.fraction,none⟩ := by
    rw [← hcons]
    unfold FloatNumbers.decimalAtFront
    rw [hwhole,hfraction]
    dsimp only
    rw [if_neg fun hnil => hform.1 hnil.1]
    rfl
  unfold exactFloat
  rw [htext,hcons,List.dropWhile_cons_of_neg (by simp [hspace]),
    FloatNumbers.signed_of_ne hminus hplus]
  dsimp only
  rw [if_neg hfront,hdecimal]
  exact congrArg Number.finite (exactValue_unsigned hsign)

theorem exactUnsigned_numeric (hform : numeral.WellFormed) (hsign : numeral.negative = false) :
    exactUnsigned false numeral.unsigned = .finite numeral.number := by
  obtain ⟨hwhole,hfraction⟩ := unsigned_parts hform
  obtain ⟨c,cs,hcons,hdigit⟩ := exists_cons hform
  obtain ⟨-,-,-,hinfinity⟩ := FloatNumbers.digit_facts hdigit
  have hne : numeral.unsigned ≠ "Infinity".toList := by
    rw [hcons]
    intro heq
    exact hinfinity (List.cons.inj heq).1
  unfold exactUnsigned
  rw [hwhole,hfraction]
  dsimp only
  rw [if_neg hne,if_neg fun hnil => hform.1 hnil.1]
  exact congrArg Number.finite (exactValue_unsigned hsign)

/-- Neither a sign nor the letter of a radix stands in such a text. -/
theorem digit_or_point (h : numeral.WellFormed) {c : Char} (hc : c ∈ numeral.unsigned) :
    isDigit c = true ∨ c = '.' := by
  obtain ⟨-,hwhole,hfraction⟩ := h
  rcases List.mem_append.mp hc with hmem | htail
  · exact .inl (List.all_eq_true.mp hwhole c hmem)
  · split at htail
    · cases htail
    · rcases List.mem_cons.mp htail with hpoint | hmem
      · exact .inr hpoint
      · exact .inl (List.all_eq_true.mp hfraction c hmem)

theorem exactNumber_numeric (h : numericString text = some numeral) :
    exactNumber text = .finite numeral.number := by
  obtain ⟨hsign,hform,htext⟩ := afterSign_spec h
  have hunsigned : SorobanAmounts.text numeral = numeral.unsigned := by
    simp [SorobanAmounts.text,hsign]
  have htrim : JsStrings.trimChars text.toList = numeral.unsigned := by
    rw [htext,← hunsigned,
      JsStrings.trimChars_eq_self (SorobanAmounts.not_isWhiteSpace_text hform)]
  have hread := exactUnsigned_numeric hform hsign
  have hmem := fun c => digit_or_point hform (c := c)
  have hne : numeral.unsigned ≠ [] := by
    obtain ⟨c,cs,hcons,-⟩ := exists_cons hform
    rw [hcons]
    exact List.cons_ne_nil c cs
  unfold exactNumber
  rw [htrim]
  generalize numeral.unsigned = cs at hread hmem hne
  split
  · exact absurd rfl hne
  · exact absurd (hmem 'x' (by simp)) (by decide)
  · exact absurd (hmem 'X' (by simp)) (by decide)
  · exact absurd (hmem 'o' (by simp)) (by decide)
  · exact absurd (hmem 'O' (by simp)) (by decide)
  · exact absurd (hmem 'b' (by simp)) (by decide)
  · exact absurd (hmem 'B' (by simp)) (by decide)
  · exact absurd (hmem '-' (by simp)) (by decide)
  · exact absurd (hmem '+' (by simp)) (by decide)
  · exact hread

end Readings

theorem Body.numeric_get (body : Body) :
    numericString body.amount = some ((numericString body.amount).get body.numeric) :=
  (Option.some_get body.numeric).symm

/-- Both paths read the same amount. -/
theorem Body.number_eq (body : Body) : body.number = .finite body.value :=
  exactNumber_numeric body.numeric_get

theorem Body.parsed_eq (body : Body) : body.parsed = .finite body.value :=
  exactFloat_numeric body.numeric_get

/-! ## Texts and numbers -/

/-- An amount as it is kept: a text of a request, or the text of an exact result. -/
inductive Amount where
  | literal (text : String)
  | result (x : Number)
  deriving DecidableEq

namespace Amount

/-- `Number(amount)`. -/
def number : Amount → Number
  | .literal text => exactNumber text
  | .result x => x

/-- `parseFloat(amount)`. -/
def parsed : Amount → Number
  | .literal text => exactFloat text
  | .result x => x

end Amount

/-- Exact numbers with the infinities and not-a-number. -/
abbrev exactly : MemoryCreditLines.Arithmetic where
  Text := Amount
  decEq := inferInstance
  empty := .literal ""
  zeroText := .literal "0"
  Number := Number
  parseFloat := Amount.parsed
  toText := .result
  zero := .finite 0
  one := .finite 1
  add := .add
  sub := .sub
  mul := .mul
  div := .div
  max := .max
  lt := Number.lt
  le := Number.le
  isFinite := Number.isFinite

/-- `${x}`. -/
def numberText (x : Number) : String := FloatNumbers.toText x.rounded

def ofValue : FloatNumbers.Value → Number
  | .finite x => .finite x.1
  | .infinite n => .infinite n
  | .nan => .nan

/-- What the simulations read of a line, by `Number`. -/
structure Reading where
  creditLimit : Number
  utilized : Number
  interestRateBps : Number

/-- A line in memory. -/
abbrev KeptLine : Type := MemoryCreditLines.CreditLine exactly

def KeptLine.reading (line : KeptLine) : Reading :=
  ⟨line.creditLimit.number,line.utilized.number,ofValue line.interestRateBps⟩

/-- A line as it is read from the columns. -/
def columnReading (line : CreditLine) : Reading :=
  ⟨.finite line.creditLimit,.finite line.utilized,.finite line.interestRateBps⟩

/-! ## The simulations -/

def interestRateDivisor : Number := .finite 10000

structure DrawPreview where
  requestedAmount : Number
  estimatedFee : Number
  newBalance : Option Number
  remainingCredit : Number

structure DrawSimulation where
  valid : Bool
  issues : List String
  preview : DrawPreview

def simulateDraw (drawAmount : Number) (line : Reading) : DrawSimulation :=
  let availableCredit := line.creditLimit.sub line.utilized
  let valid := Number.lt (.finite 0) drawAmount && drawAmount.le availableCredit
  let positive := if drawAmount.le (.finite 0) then some "amount must be positive" else none
  let within := if availableCredit.lt drawAmount then
      some ("amount " ++ numberText drawAmount ++ " exceeds available credit " ++
        numberText availableCredit)
    else none
  { valid
    issues := if valid then [] else [positive,within].filterMap id
    preview := {
      requestedAmount := drawAmount
      estimatedFee := ((drawAmount.mul line.interestRateBps).div interestRateDivisor).ceil
      newBalance := if valid then some (line.utilized.add drawAmount) else none
      remainingCredit := if valid then availableCredit.sub drawAmount else availableCredit } }

structure RepayPreview where
  requestedAmount : Number
  effectiveRepayAmount : Number
  overpaymentReturned : Number
  newBalance : Number

structure RepaySimulation where
  valid : Bool
  issues : List String
  preview : RepayPreview

def simulateRepay (repayAmount : Number) (line : Reading) : RepaySimulation :=
  let currentBalance := line.utilized
  let effectiveRepay := repayAmount.min currentBalance
  let valid := Number.lt (.finite 0) repayAmount
  { valid
    issues := if valid then [] else ["amount must be positive"]
    preview := {
      requestedAmount := repayAmount
      effectiveRepayAmount := effectiveRepay
      overpaymentReturned :=
        if currentBalance.lt repayAmount then repayAmount.sub currentBalance else .finite 0
      newBalance := if valid then currentBalance.sub effectiveRepay else currentBalance } }

inductive Response (α : Type) where
  | ok (data : α)
  | fail (message : String) (statusCode : ℕ)

/-- Both handlers, once the line has been read: a missing one is answered with 404. -/
def respond {α : Type} (id : Uuid) (simulate : Reading → α) : Option Reading → Response α
  | none => .fail ("Credit line \"" ++ toString id ++ "\" not found.") 404
  | some line => .ok (simulate line)

namespace Memory

/-- A handler over the in-memory repository, which does not fail. -/
def handler {α : Type} (s : MemoryCreditLines.Service exactly) (id : Uuid)
    (simulate : Reading → α) : Except Failure (Response α) :=
  .ok (respond id simulate ((s.repository.findById id).map KeptLine.reading))

def drawSimulate (s : MemoryCreditLines.Service exactly) (id : Uuid) (body : Body) :
    Except Failure (Response DrawSimulation) :=
  handler s id (simulateDraw body.number)

def repaySimulate (s : MemoryCreditLines.Service exactly) (id : Uuid) (body : Body) :
    Except Failure (Response RepaySimulation) :=
  handler s id (simulateRepay body.number)

/-- The balance that the real draw leaves. -/
def draw (s : MemoryCreditLines.Service exactly) (id : Uuid) (body : Body)
    (requestedAt confirmedAt : ℤ) : Except MemoryCreditLines.Refusal Number :=
  (s.draw id body.walletAddress (.literal body.amount) requestedAt confirmedAt).1.map
    fun updated => updated.utilized.number

def repay (s : MemoryCreditLines.Service exactly) (id : Uuid) (body : Body) (confirmedAt : ℤ) :
    Except MemoryCreditLines.Refusal Number :=
  (s.repay id body.walletAddress (.literal body.amount) confirmedAt).1.map
    fun updated => updated.utilized.number

end Memory

namespace Postgres

/-- A handler over the tables of a session, with no other call on it. -/
def handler {α : Type} (client : DbClient) (s : Session) (id : Uuid) (simulate : Reading → α) :
    Except Failure (Response α) :=
  (((service client).creditLineRepository.findById id).complete exec none 0 s).1.map
    fun line => respond id simulate (line.map columnReading)

def drawSimulate (client : DbClient) (s : Session) (id : Uuid) (body : Body) :
    Except Failure (Response DrawSimulation) :=
  handler client s id (simulateDraw body.number)

def repaySimulate (client : DbClient) (s : Session) (id : Uuid) (body : Body) :
    Except Failure (Response RepaySimulation) :=
  handler client s id (simulateRepay body.number)

/-- The amount as the service reads it. -/
def amountNum (body : Body) : Option ℚ :=
  match body.parsed with
  | .finite amount => some amount
  | _ => none

/-- The balance that the real draw leaves. -/
def draw (client : DbClient) (s : Session) (id : Uuid) (body : Body) : Except Failure Number :=
  (onPostgres client id (.draw body.walletAddress (amountNum body)) s).1.map
    fun updated => .finite updated.utilized

def repay (client : DbClient) (s : Session) (id : Uuid) (body : Body) : Except Failure Number :=
  (onPostgres client id (.repay body.walletAddress (amountNum body)) s).1.map
    fun updated => .finite updated.utilized

end Postgres

/-! ## Predictions -/

section Predictions
variable {ε : Type}

/-- Valid exactly when the call succeeds, and then with the balance the call leaves. -/
structure Predicts (valid : Bool) (newBalance : Option Number) (balance : Except ε Number) :
    Prop where
  valid : valid = true ↔ balance.isOk = true
  newBalance : ∀ utilized, balance = .ok utilized →
    ∃ announced ∈ newBalance, announced.strictEquals utilized = true

/-- The simulation of a draw answers, and predicts the call. -/
def DrawPredicted (answer : Except Failure (Response DrawSimulation))
    (balance : Except ε Number) : Prop :=
  ∃ simulation, answer = .ok (.ok simulation) ∧
    Predicts simulation.valid simulation.preview.newBalance balance

def RepayPredicted (answer : Except Failure (Response RepaySimulation))
    (balance : Except ε Number) : Prop :=
  ∃ simulation, answer = .ok (.ok simulation) ∧
    Predicts simulation.valid (some simulation.preview.newBalance) balance

theorem drawPredicted_iff {simulation : DrawSimulation} {balance : Except ε Number} :
    DrawPredicted (.ok (.ok simulation)) balance ↔
      Predicts simulation.valid simulation.preview.newBalance balance := by
  constructor
  · rintro ⟨_,heq,h⟩
    cases heq
    exact h
  · intro h
    exact ⟨simulation,rfl,h⟩

theorem repayPredicted_iff {simulation : RepaySimulation} {balance : Except ε Number} :
    RepayPredicted (.ok (.ok simulation)) balance ↔
      Predicts simulation.valid (some simulation.preview.newBalance) balance := by
  constructor
  · rintro ⟨_,heq,h⟩
    cases heq
    exact h
  · intro h
    exact ⟨simulation,rfl,h⟩

/-- A preview under its own condition against a call under another. -/
theorem predicts_iff {valid : Bool} {newBalance : Option Number} {balance : Except ε Number}
    {Preview Call : Prop} {announced left : Number} (hvalid : valid = true ↔ Preview)
    (hannounced : Preview → newBalance = some announced) (hok : Call → balance = .ok left)
    (herror : ¬ Call → ∃ e, balance = .error e) :
    Predicts valid newBalance balance ↔
      (Preview → Call ∧ announced.strictEquals left = true) ∧ (Call → Preview) := by
  by_cases hcall : Call
  · have hbalance := hok hcall
    subst hbalance
    constructor
    · intro hpredicts
      have hpreview := hvalid.mp (hpredicts.valid.mpr rfl)
      obtain ⟨b,hb,hsame⟩ := hpredicts.newBalance _ rfl
      rw [hannounced hpreview,Option.mem_some_iff] at hb
      exact ⟨fun _ => ⟨hcall,hb ▸ hsame⟩,fun _ => hpreview⟩
    · rintro ⟨hsame,hpreview⟩
      have hp := hpreview hcall
      refine ⟨⟨fun _ => rfl,fun _ => hvalid.mpr hp⟩,?_⟩
      intro utilized hutilized
      cases hutilized
      exact ⟨announced,hannounced hp,(hsame hp).2⟩
  · obtain ⟨e,he⟩ := herror hcall
    subst he
    constructor
    · intro hpredicts
      refine ⟨fun hpreview => ?_,fun h => absurd h hcall⟩
      exact absurd (hpredicts.valid.mp (hvalid.mpr hpreview)) Bool.false_ne_true
    · rintro ⟨hsame,-⟩
      refine ⟨⟨fun h => absurd (hsame (hvalid.mp h)).1 hcall,fun h => absurd h Bool.false_ne_true⟩,
        ?_⟩
      intro utilized hutilized
      cases hutilized

end Predictions

/-- What a simulated draw asks of the amount. -/
def FitsPreview (line : Reading) (amount : ℚ) : Prop :=
  0 < amount ∧ (Number.finite amount).le (line.creditLimit.sub line.utilized) = true

theorem simulateDraw_valid (amount : ℚ) (line : Reading) :
    (simulateDraw (.finite amount) line).valid = true ↔ FitsPreview line amount := by
  unfold simulateDraw FitsPreview
  rw [Bool.and_eq_true]
  simp only [Number.lt,decide_eq_true_eq]

theorem simulateDraw_newBalance {amount : ℚ} {line : Reading} (h : FitsPreview line amount) :
    (simulateDraw (.finite amount) line).preview.newBalance =
      some (line.utilized.add (.finite amount)) := by
  have hvalid := (simulateDraw_valid amount line).mpr h
  unfold simulateDraw at hvalid ⊢
  dsimp only at hvalid ⊢
  rw [if_pos hvalid]

theorem simulateRepay_valid (amount : ℚ) (line : Reading) :
    (simulateRepay (.finite amount) line).valid = true ↔ 0 < amount := by
  simp only [simulateRepay,Number.lt,decide_eq_true_eq]

theorem simulateRepay_newBalance {amount : ℚ} (h : 0 < amount) (line : Reading) :
    (simulateRepay (.finite amount) line).preview.newBalance =
      line.utilized.sub ((Number.finite amount).min line.utilized) := by
  simp only [simulateRepay,Number.lt,h,decide_true,if_true]

/-! ## In memory -/

section InMemory
variable {s : MemoryCreditLines.Service exactly} {id : Uuid} {line : KeptLine} {body : Body}

theorem handler_memory {α : Type} (h : s.repository.findById id = some line)
    (simulate : Reading → α) :
    Memory.handler s id simulate = .ok (.ok (simulate line.reading)) := by
  unfold Memory.handler
  rw [h]
  rfl

/-- What a real draw asks of the amount. -/
def FitsCall (line : KeptLine) (amount : ℚ) : Prop :=
  0 < amount ∧ line.creditLimit.parsed.lt
    ((MemoryCreditLines.Service.utilizedNum line).add (.finite amount)) = false

theorem drawable_iff :
    MemoryCreditLines.Service.Drawable line body.walletAddress (.literal body.amount) ↔
      line.walletAddress = body.walletAddress ∧ line.status = .active ∧
        FitsCall line body.value := by
  have hparsed : Amount.parsed (.literal body.amount) = .finite body.value := body.parsed_eq
  rw [MemoryCreditLines.Service.drawable_iff]
  unfold FitsCall
  simp only [hparsed,Number.isFinite,Number.le,decide_eq_false_iff_not,not_le,true_and]

/-- When a draw in memory is foreseen: an amount that fits the preview is within an active line of
the wallet, which reads the balance alike, and one that a draw admits fits the preview. -/
structure DrawForeseen (line : KeptLine) (body : Body) : Prop where
  admitted : FitsPreview line.reading body.value →
    line.walletAddress = body.walletAddress ∧ line.status = .active ∧
      FitsCall line body.value ∧ MemoryCreditLines.Service.utilizedNum line = line.utilized.number
  previewed : FitsCall line body.value → line.walletAddress = body.walletAddress →
    line.status = .active → FitsPreview line.reading body.value

/-- When a repayment in memory is foreseen: the balance is a number but not minus infinity, and
both readings of it are one or within the amount. -/
def RepayForeseen (line : KeptLine) (body : Body) : Prop :=
  0 < body.value → line.utilized.number ≠ .nan ∧ line.utilized.number ≠ .infinite true ∧
    (MemoryCreditLines.Service.utilizedNum line = line.utilized.number ∨
      line.utilized.number.le (.finite body.value) = true ∧
        (MemoryCreditLines.Service.utilizedNum line).le (.finite body.value) = true)

theorem strictEquals_add {x y : Number} (amount : ℚ) (hx : x ≠ .nan) :
    (x.add (.finite amount)).strictEquals (y.add (.finite amount)) = true ↔ y = x := by
  rw [Number.strictEquals_iff]
  cases x <;> cases y <;> simp_all [Number.add,eq_comm]

theorem ne_nan_of_fitsPreview {line : Reading} {amount : ℚ} (h : FitsPreview line amount) :
    line.utilized ≠ .nan := by
  intro hnan
  have hle := h.2
  rw [hnan] at hle
  cases hlimit : line.creditLimit <;> rw [hlimit] at hle <;> cases hle

theorem draw_of_fits (h : s.repository.findById id = some line)
    (hd : line.walletAddress = body.walletAddress ∧ line.status = .active ∧
      FitsCall line body.value) (requestedAt confirmedAt : ℤ) :
    Memory.draw s id body requestedAt confirmedAt =
      .ok ((MemoryCreditLines.Service.utilizedNum line).add (.finite body.value)) := by
  have hparsed : Amount.parsed (.literal body.amount) = .finite body.value := body.parsed_eq
  unfold Memory.draw
  rw [MemoryCreditLines.Service.draw_of_drawable h (drawable_iff.mpr hd)]
  change Except.ok ((MemoryCreditLines.Service.utilizedNum line).add
    (Amount.parsed (.literal body.amount))) = _
  rw [hparsed]

theorem draw_of_not_fits (h : s.repository.findById id = some line)
    (hd : ¬ (line.walletAddress = body.walletAddress ∧ line.status = .active ∧
      FitsCall line body.value)) (requestedAt confirmedAt : ℤ) :
    ∃ e, Memory.draw s id body requestedAt confirmedAt = .error e := by
  obtain ⟨e,he⟩ := MemoryCreditLines.Service.draw_of_not_drawable h
    (fun hd' => hd (drawable_iff.mp hd')) requestedAt confirmedAt
  unfold Memory.draw
  rw [he]
  exact ⟨e,rfl⟩

theorem drawPredicted_memory_iff (h : s.repository.findById id = some line) (body : Body)
    (requestedAt confirmedAt : ℤ) :
    DrawPredicted (Memory.drawSimulate s id body) (Memory.draw s id body requestedAt confirmedAt) ↔
      DrawForeseen line body := by
  unfold Memory.drawSimulate
  rw [handler_memory h,body.number_eq,drawPredicted_iff,
    predicts_iff (simulateDraw_valid body.value line.reading) simulateDraw_newBalance
      (fun hd => draw_of_fits h hd requestedAt confirmedAt)
      (fun hd => draw_of_not_fits h hd requestedAt confirmedAt)]
  constructor
  · rintro ⟨hadmitted,hpreviewed⟩
    constructor
    · intro hfits
      obtain ⟨⟨howner,hactive,hcall⟩,hsame⟩ := hadmitted hfits
      exact ⟨howner,hactive,hcall,
        (strictEquals_add body.value (ne_nan_of_fitsPreview hfits)).mp hsame⟩
    · intro hcall howner hactive
      exact hpreviewed ⟨howner,hactive,hcall⟩
  · intro hforeseen
    constructor
    · intro hfits
      obtain ⟨howner,hactive,hcall,hsame⟩ := hforeseen.admitted hfits
      exact ⟨⟨howner,hactive,hcall⟩,
        (strictEquals_add body.value (ne_nan_of_fitsPreview hfits)).mpr hsame⟩
    · rintro ⟨howner,hactive,hcall⟩
      exact hforeseen.previewed hcall howner hactive

theorem finite_repaid (p amount : ℚ) :
    (Number.finite p).sub ((Number.finite amount).min (.finite p)) =
      .finite (max 0 (p - amount)) := by
  unfold Number.min Number.le
  by_cases h : amount ≤ p
  · simp only [h,decide_true,if_true,Number.sub,Number.neg,Number.add]
    rw [max_eq_right (sub_nonneg.mpr h),sub_eq_add_neg]
  · simp only [h,decide_false,Bool.false_eq_true,if_false,Number.sub,Number.neg,Number.add]
    rw [max_eq_left (sub_nonpos.mpr (not_le.mp h).le),add_neg_cancel]

theorem finite_floored (q amount : ℚ) :
    Number.max (.finite 0) ((Number.finite q).sub (.finite amount)) =
      .finite (max 0 (q - amount)) := by
  simp only [Number.sub,Number.neg,Number.add,Number.max,Number.le,decide_eq_true_eq,
    ← sub_eq_add_neg]
  rcases le_total 0 (q - amount) with h | h
  · rw [if_pos h,max_eq_right h]
  · rw [max_eq_left h]
    split_ifs with h'
    · rw [le_antisymm h h']
    · rfl

theorem floored_eq_iff {p q amount : ℚ} :
    max 0 (p - amount) = max 0 (q - amount) ↔ q = p ∨ p ≤ amount ∧ q ≤ amount := by
  constructor
  · intro h
    by_cases hp : p ≤ amount
    · rw [max_eq_left (sub_nonpos.mpr hp)] at h
      exact .inr ⟨hp,sub_nonpos.mp (max_eq_left_iff.mp h.symm)⟩
    · have hlt := sub_pos.mpr (not_le.mp hp)
      rw [max_eq_right hlt.le] at h
      rcases le_total (q - amount) 0 with hq | hq
      · rw [max_eq_left hq] at h
        exact absurd h hlt.ne'
      · rw [max_eq_right hq] at h
        exact .inl (by linarith)
  · rintro (rfl | ⟨hp,hq⟩)
    · rfl
    · rw [max_eq_left (sub_nonpos.mpr hp),max_eq_left (sub_nonpos.mpr hq)]

/-- The announced balance of a repayment is the floored difference, unless the readings of the
balance differ where it matters. -/
theorem strictEquals_repaid (x y : Number) (amount : ℚ) :
    (x.sub ((Number.finite amount).min x)).strictEquals
        (Number.max (.finite 0) (y.sub (.finite amount))) = true ↔
      x ≠ .nan ∧ x ≠ .infinite true ∧
        (y = x ∨ x.le (.finite amount) = true ∧ y.le (.finite amount) = true) := by
  rw [Number.strictEquals_iff]
  cases x with
  | nan => simp [Number.sub,Number.add,Number.neg]
  | infinite n =>
      cases n with
      | true => simp [Number.sub,Number.add,Number.neg,Number.min,Number.le]
      | false =>
          cases y with
          | nan => simp [Number.sub,Number.add,Number.neg,Number.min,Number.max,Number.le]
          | infinite m =>
              cases m <;> simp [Number.sub,Number.add,Number.neg,Number.min,Number.max,Number.le]
          | finite q =>
              rw [finite_floored]
              simp [Number.sub,Number.add,Number.neg,Number.min,Number.le]
  | finite p =>
      rw [finite_repaid]
      cases y with
      | nan => simp [Number.sub,Number.add,Number.max,Number.le]
      | infinite m =>
          cases m <;>
            simp [Number.sub,Number.add,Number.neg,Number.max,Number.le]
      | finite q =>
          rw [finite_floored]
          simp only [Number.finite.injEq,floored_eq_iff,Number.le,decide_eq_true_eq,ne_eq,
            reduceCtorEq,not_false_eq_true,true_and]

theorem repay_of_pos (h : s.repository.findById id = some line) (hpos : 0 < body.value)
    (confirmedAt : ℤ) :
    Memory.repay s id body confirmedAt = .ok (Number.max (.finite 0)
      ((MemoryCreditLines.Service.utilizedNum line).sub (.finite body.value))) := by
  have hparsed : Amount.parsed (.literal body.amount) = .finite body.value := body.parsed_eq
  have hfinite : Number.isFinite (Amount.parsed (.literal body.amount)) = true := by
    rw [hparsed]
    rfl
  have hpositive : (Amount.parsed (.literal body.amount)).le (.finite 0) = false := by
    rw [hparsed]
    exact decide_eq_false (not_le.mpr hpos)
  unfold Memory.repay
  rw [MemoryCreditLines.Service.repay_of_positive h hfinite hpositive]
  change Except.ok (Number.max (.finite 0) ((MemoryCreditLines.Service.utilizedNum line).sub
    (Amount.parsed (.literal body.amount)))) = _
  rw [hparsed]

theorem repay_of_not_pos (h : s.repository.findById id = some line) (hpos : ¬ 0 < body.value)
    (confirmedAt : ℤ) : ∃ e, Memory.repay s id body confirmedAt = .error e := by
  have hparsed : Amount.parsed (.literal body.amount) = .finite body.value := body.parsed_eq
  have hpositive : exactly.le (exactly.parseFloat (.literal body.amount)) exactly.zero = true := by
    change (Amount.parsed (.literal body.amount)).le (.finite 0) = true
    rw [hparsed]
    exact decide_eq_true (not_lt.mp hpos)
  obtain ⟨e,he⟩ := MemoryCreditLines.Service.repay_of_not_positive h hpositive
    body.walletAddress confirmedAt
  unfold Memory.repay
  rw [he]
  exact ⟨e,rfl⟩

theorem repayPredicted_memory_iff (h : s.repository.findById id = some line) (body : Body)
    (confirmedAt : ℤ) :
    RepayPredicted (Memory.repaySimulate s id body) (Memory.repay s id body confirmedAt) ↔
      RepayForeseen line body := by
  have hannounced : 0 < body.value →
      some (simulateRepay (.finite body.value) line.reading).preview.newBalance =
        some (line.utilized.number.sub ((Number.finite body.value).min line.utilized.number)) :=
    fun hpos => congrArg some (simulateRepay_newBalance hpos line.reading)
  unfold Memory.repaySimulate RepayForeseen
  rw [handler_memory h,body.number_eq,repayPredicted_iff,
    predicts_iff (simulateRepay_valid body.value line.reading) hannounced
      (fun hpos => repay_of_pos h hpos confirmedAt)
      (fun hpos => repay_of_not_pos h hpos confirmedAt),
    strictEquals_repaid]
  constructor
  · rintro ⟨hsame,-⟩ hpos
    exact (hsame hpos).2
  · intro hforeseen
    exact ⟨fun hpos => ⟨hpos,hforeseen hpos⟩,fun hpos => hpos⟩

end InMemory

/-! ## On Postgres -/

/-- The balance read for a limit and a ledger sum. -/
def balance (creditLimit net : ℚ) : ℚ :=
  calculateUtilized creditLimit (calculateAvailableCredit net creditLimit)

theorem balance_eq (creditLimit net : ℚ) :
    balance creditLimit net = max 0 (min creditLimit (max 0 net)) := by
  unfold balance calculateUtilized calculateAvailableCredit
  grind

/-- What a draw asks of the amount. -/
def Fits (creditLimit utilized amount : ℚ) : Prop := 0 < amount ∧ utilized + amount ≤ creditLimit

/-- A draw within the limit moves the balance by its amount unless the ledger sum is negative. -/
theorem balance_draw_iff {creditLimit net amount : ℚ}
    (h : Fits creditLimit (balance creditLimit net) amount) :
    balance creditLimit (net + amount) = balance creditLimit net + amount ↔ 0 ≤ net := by
  obtain ⟨hpos,hwithin⟩ := h
  rw [balance_eq] at hwithin
  rw [balance_eq,balance_eq]
  grind

/-- A repayment comes off the balance unless the ledger sum is above both the limit and the
amount. -/
theorem balance_repay_iff {amount : ℚ} (hpos : 0 < amount) (creditLimit net : ℚ) :
    balance creditLimit (net - amount) = max 0 (balance creditLimit net - amount) ↔
      creditLimit ≤ 0 ∨ net ≤ max creditLimit amount := by
  rw [balance_eq,balance_eq]
  grind

theorem fitsPreview_column (line : CreditLine) (amount : ℚ) :
    FitsPreview (columnReading line) amount ↔ Fits line.creditLimit line.utilized amount := by
  unfold FitsPreview Fits columnReading
  simp only [Number.sub,Number.neg,Number.add,Number.le,decide_eq_true_eq,← sub_eq_add_neg,
    le_sub_iff_add_le']

/-- A line in the tables of a session that is in no transaction. -/
structure Stored (s : Session) (id : Uuid) (row : CreditLineRow) (walletAddress : String) :
    Prop where
  idle : s.working = none
  line : s.durable.lineById id = some (row,walletAddress)
  fresh : ∀ t ∈ s.durable.transactions, t.id < s.nextId

section InTables
variable {s : Session} {id : Uuid} {row : CreditLineRow} {walletAddress : String}

theorem handler_postgres {α : Type} (h : Stored s id row walletAddress) (client : DbClient)
    (simulate : Reading → α) :
    Postgres.handler client s id simulate = .ok (.ok (simulate
      (columnReading (lineFrom row walletAddress (s.durable.utilizedSum id))))) := by
  have hvisible : s.visible = s.durable := by simp [Session.visible,h.idle]
  have hline := h.line
  rw [← hvisible] at hline
  unfold Postgres.handler
  simp only [service,PostgresCreditLineRepository.repository]
  rw [findById_complete (failed_of_idle h.idle) hline,hvisible]
  rfl

theorem onPostgres_eq_map (h : Stored s id row walletAddress) (client : DbClient) (c : Operation) :
    (onPostgres client id c s).1 =
      (c.posting (some (lineFrom row walletAddress (s.durable.utilizedSum id)))).map fun p =>
        lineFrom row walletAddress
          (s.durable.utilizedSum id + Database.signedAmount (rowOf s id p)) := by
  unfold onPostgres
  rw [Operation.task_eq,mutate_complete client c.posting h.idle h.line h.fresh]
  cases c.posting (some (lineFrom row walletAddress (s.durable.utilizedSum id))) <;> rfl

theorem amountNum_eq (body : Body) : Postgres.amountNum body = some body.value := by
  unfold Postgres.amountNum
  rw [body.parsed_eq]

/-- What the draw asks of the line and the amount. -/
def Admitted (row : CreditLineRow) (walletAddress : String) (net : ℚ) (body : Body) : Prop :=
  walletAddress = body.walletAddress ∧ row.status = .active ∧
    Fits row.creditLimit (balance row.creditLimit net) body.value

theorem draw_of_admitted (h : Stored s id row walletAddress) (client : DbClient) {body : Body}
    (hd : Admitted row walletAddress (s.durable.utilizedSum id) body) :
    Postgres.draw client s id body =
      .ok (.finite (balance row.creditLimit (s.durable.utilizedSum id + body.value))) := by
  obtain ⟨howner,hactive,hpos,hwithin⟩ := hd
  have hposting : (Operation.draw body.walletAddress (some body.value)).posting
      (some (lineFrom row walletAddress (s.durable.utilizedSum id))) =
        .ok ⟨.borrow,body.value,
          balance row.creditLimit (s.durable.utilizedSum id) + body.value⟩ := by
    unfold balance at hwithin ⊢
    simp [Operation.posting,drawPosting,lineFrom,toCreditLine,howner,hactive,not_le.mpr hpos,
      not_lt.mpr hwithin]
  unfold Postgres.draw
  rw [amountNum_eq,onPostgres_eq_map h client,hposting]
  rfl

theorem draw_of_not_admitted (h : Stored s id row walletAddress) (client : DbClient) {body : Body}
    (hd : ¬ Admitted row walletAddress (s.durable.utilizedSum id) body) :
    ∃ e, Postgres.draw client s id body = .error e := by
  unfold Postgres.draw
  rw [amountNum_eq,onPostgres_eq_map h client]
  cases hp : (Operation.draw body.walletAddress (some body.value)).posting
      (some (lineFrom row walletAddress (s.durable.utilizedSum id))) with
  | error e => exact ⟨e,rfl⟩
  | ok p =>
      rw [Operation.posting] at hp
      obtain ⟨line,_,hline,hamount,howner,hactive,hpos,hwithin,-⟩ := drawPosting_eq_ok hp
      cases hline
      cases hamount
      exact absurd ⟨howner,hactive,hpos,hwithin⟩ hd

/-- On Postgres the ledger sum must also not be negative. -/
theorem drawPredicted_postgres_iff (h : Stored s id row walletAddress) (client : DbClient)
    (body : Body) :
    DrawPredicted (Postgres.drawSimulate client s id body) (Postgres.draw client s id body) ↔
      (Fits row.creditLimit (balance row.creditLimit (s.durable.utilizedSum id)) body.value →
        walletAddress = body.walletAddress ∧ row.status = .active ∧
          0 ≤ s.durable.utilizedSum id) := by
  have hpreview : ∀ {valid : Bool} {amount : ℚ},
      (valid = true ↔ FitsPreview (columnReading
        (lineFrom row walletAddress (s.durable.utilizedSum id))) amount) →
      (valid = true ↔ Fits row.creditLimit
        (balance row.creditLimit (s.durable.utilizedSum id)) amount) :=
    fun hvalid => hvalid.trans (fitsPreview_column _ _)
  unfold Postgres.drawSimulate
  rw [handler_postgres h,body.number_eq,drawPredicted_iff,
    predicts_iff (hpreview (simulateDraw_valid body.value _))
      (fun hfits => simulateDraw_newBalance ((fitsPreview_column _ _).mpr hfits))
      (draw_of_admitted h client) (draw_of_not_admitted h client)]
  constructor
  · rintro ⟨hadmitted,-⟩ hfits
    obtain ⟨⟨howner,hactive,-⟩,hsame⟩ := hadmitted hfits
    refine ⟨howner,hactive,(balance_draw_iff hfits).mp ?_⟩
    exact (Number.finite.inj (Number.strictEquals_iff.mp hsame).2).symm
  · intro hcond
    refine ⟨fun hfits => ?_,fun hd => hd.2.2⟩
    obtain ⟨howner,hactive,hnet⟩ := hcond hfits
    refine ⟨⟨howner,hactive,hfits⟩,Number.strictEquals_iff.mpr ⟨Number.noConfusion,?_⟩⟩
    exact congrArg Number.finite ((balance_draw_iff hfits).mpr hnet).symm

theorem repay_posted (h : Stored s id row walletAddress) (client : DbClient) {body : Body}
    (hpos : 0 < body.value) :
    Postgres.repay client s id body =
      .ok (.finite (balance row.creditLimit (s.durable.utilizedSum id - body.value))) := by
  have hposting : (Operation.repay body.walletAddress (some body.value)).posting
      (some (lineFrom row walletAddress (s.durable.utilizedSum id))) =
        .ok ⟨.repay,body.value,
          max 0 (balance row.creditLimit (s.durable.utilizedSum id) - body.value)⟩ := by
    simp [Operation.posting,repayPosting,hpos,lineFrom,toCreditLine,balance]
  unfold Postgres.repay
  rw [amountNum_eq,onPostgres_eq_map h client,hposting,
    sub_eq_add_neg (s.durable.utilizedSum id)]
  rfl

theorem repay_refused (h : Stored s id row walletAddress) (client : DbClient) {body : Body}
    (hpos : ¬ 0 < body.value) : ∃ e, Postgres.repay client s id body = .error e := by
  have hposting : (Operation.repay body.walletAddress (some body.value)).posting
      (some (lineFrom row walletAddress (s.durable.utilizedSum id))) =
        .error (.error "Repay amount must be greater than 0") := by
    simp [Operation.posting,repayPosting,not_lt.mp hpos]
  unfold Postgres.repay
  rw [amountNum_eq,onPostgres_eq_map h client,hposting]
  exact ⟨_,rfl⟩

theorem repayPredicted_postgres_iff (h : Stored s id row walletAddress) (client : DbClient)
    (body : Body) :
    RepayPredicted (Postgres.repaySimulate client s id body) (Postgres.repay client s id body) ↔
      (0 < body.value → row.creditLimit ≤ 0 ∨
        s.durable.utilizedSum id ≤ max row.creditLimit body.value) := by
  have hannounced : 0 < body.value → some (simulateRepay (.finite body.value) (columnReading
      (lineFrom row walletAddress (s.durable.utilizedSum id)))).preview.newBalance =
        some (.finite (max 0
          (balance row.creditLimit (s.durable.utilizedSum id) - body.value))) := by
    intro hpos
    rw [simulateRepay_newBalance hpos]
    exact congrArg some (finite_repaid _ _)
  unfold Postgres.repaySimulate
  rw [handler_postgres h,body.number_eq,repayPredicted_iff,
    predicts_iff (simulateRepay_valid body.value _) hannounced (repay_posted h client)
      (repay_refused h client)]
  constructor
  · rintro ⟨hsame,-⟩ hpos
    rw [← balance_repay_iff hpos]
    exact (Number.finite.inj (Number.strictEquals_iff.mp (hsame hpos).2).2).symm
  · intro hcond
    refine ⟨fun hpos => ⟨hpos,Number.strictEquals_iff.mpr ⟨Number.noConfusion,?_⟩⟩,fun hpos => hpos⟩
    exact congrArg Number.finite ((balance_repay_iff hpos _ _).mpr (hcond hpos)).symm

end InTables

/-- When the simulations predict the real calls, for every stored line, wallet and amount. -/
theorem simulation_predicts_iff (id : Uuid) (body : Body) :
    (∀ (s : MemoryCreditLines.Service exactly) (line : KeptLine) (requestedAt confirmedAt : ℤ),
      s.repository.findById id = some line →
      (DrawPredicted (Memory.drawSimulate s id body)
          (Memory.draw s id body requestedAt confirmedAt) ↔ DrawForeseen line body) ∧
      (RepayPredicted (Memory.repaySimulate s id body) (Memory.repay s id body confirmedAt) ↔
        RepayForeseen line body)) ∧
    ∀ (client : DbClient) (s : Session) (row : CreditLineRow) (walletAddress : String),
      Stored s id row walletAddress →
      (DrawPredicted (Postgres.drawSimulate client s id body) (Postgres.draw client s id body) ↔
        (Fits row.creditLimit (balance row.creditLimit (s.durable.utilizedSum id)) body.value →
          walletAddress = body.walletAddress ∧ row.status = .active ∧
            0 ≤ s.durable.utilizedSum id)) ∧
      (RepayPredicted (Postgres.repaySimulate client s id body) (Postgres.repay client s id body) ↔
        (0 < body.value → row.creditLimit ≤ 0 ∨
          s.durable.utilizedSum id ≤ max row.creditLimit body.value)) := by
  constructor
  · intro s line requestedAt confirmedAt h
    exact ⟨drawPredicted_memory_iff h body requestedAt confirmedAt,
      repayPredicted_memory_iff h body confirmedAt⟩
  · intro client s row walletAddress h
    exact ⟨drawPredicted_postgres_iff h client body,repayPredicted_postgres_iff h client body⟩

/-! ## Lines whose texts are plain -/

/-- Both functions read one finite number. -/
def Plain (amount : Amount) (q : ℚ) : Prop :=
  amount.number = .finite q ∧ amount.parsed = .finite q

theorem plain_numeric {text : String} {numeral : Numeral} (h : numericString text = some numeral) :
    Plain (.literal text) numeral.number := ⟨exactNumber_numeric h,exactFloat_numeric h⟩

theorem utilizedNum_plain {line : KeptLine} {utilized : ℚ} (h : Plain line.utilized utilized) :
    MemoryCreditLines.Service.utilizedNum line = .finite utilized := by
  unfold MemoryCreditLines.Service.utilizedNum
  split_ifs with hempty
  · -- the empty text reads as not-a-number
    have hnan : Amount.parsed exactly.empty = .nan := by decide
    have hparsed := h.2
    rw [hempty,hnan] at hparsed
    cases hparsed
  · exact h.2

/-- Of a line with plain texts only a draw is unforeseen that fits and is not the owner's, or
comes while the line is not active. -/
theorem drawForeseen_plain_iff {line : KeptLine} {creditLimit utilized : ℚ}
    (hlimit : Plain line.creditLimit creditLimit) (hutilized : Plain line.utilized utilized)
    (body : Body) :
    DrawForeseen line body ↔ (Fits creditLimit utilized body.value →
      line.walletAddress = body.walletAddress ∧ line.status = .active) := by
  have hpreview : FitsPreview line.reading body.value ↔ Fits creditLimit utilized body.value := by
    unfold FitsPreview Fits KeptLine.reading
    rw [hlimit.1,hutilized.1]
    simp only [Number.sub,Number.neg,Number.add,Number.le,decide_eq_true_eq,← sub_eq_add_neg,
      le_sub_iff_add_le']
  have hcall : FitsCall line body.value ↔ Fits creditLimit utilized body.value := by
    unfold FitsCall Fits
    rw [hlimit.2,utilizedNum_plain hutilized]
    simp only [Number.add,Number.lt,decide_eq_false_iff_not,not_lt]
  constructor
  · intro hforeseen hfits
    obtain ⟨howner,hactive,-⟩ := hforeseen.admitted (hpreview.mpr hfits)
    exact ⟨howner,hactive⟩
  · intro hcond
    constructor
    · intro hfits
      obtain ⟨howner,hactive⟩ := hcond (hpreview.mp hfits)
      exact ⟨howner,hactive,hcall.mpr (hpreview.mp hfits),
        (utilizedNum_plain hutilized).trans hutilized.1.symm⟩
    · intro hfits _ _
      exact hpreview.mpr (hcall.mp hfits)

theorem repayForeseen_plain {line : KeptLine} {utilized : ℚ} (h : Plain line.utilized utilized)
    (body : Body) : RepayForeseen line body := by
  intro _
  rw [h.1,utilizedNum_plain h]
  exact ⟨Number.noConfusion,Number.noConfusion,.inl rfl⟩

/-! ## A line of 1000 -/

def alice : String := "GAAAAAAAAAAAAAAAAAAAAAAAAAAAAAAAAAAAAAAAAAAAAAAAAAAAAWHF"

def hundred : Body := ⟨alice,"100.00",by decide +kernel,by decide⟩

theorem hundred_value : hundred.value = 100 := by
  decide +kernel

def lineOf (creditLimit : String) (status : CreditLineStatus) : KeptLine :=
  ⟨0,alice,.literal creditLimit,.literal creditLimit,.literal "0",.round 500,status,some 1⟩

def serviceOf (line : KeptLine) : MemoryCreditLines.Service exactly :=
  ⟨⟨InsertionMaps.InsertionMap.empty.set 0 line,1⟩,[],[]⟩

theorem findById_serviceOf (line : KeptLine) :
    (serviceOf line).repository.findById 0 = some line := rfl

theorem plain_thousand : Plain (.literal "1000") 1000 := by
  constructor <;> decide +kernel

theorem plain_zero : Plain (.literal "0") 0 := by
  constructor <;> decide +kernel

def rowOfAlice : CreditLineRow := ⟨1,0,1000,.active,500,1⟩

def sessionOfAlice : Session where
  durable := [⟨none,.borrower ⟨0,alice⟩⟩,⟨none,.creditLine rowOfAlice⟩]
  nextId := 2

theorem stored_sessionOfAlice : Stored sessionOfAlice 1 rowOfAlice alice where
  idle := rfl
  line := by decide
  fresh t ht := by cases ht

/-- On her own active line, Alice's draw and her repayment are predicted. -/
theorem simulation_predicts_alice :
    (DrawPredicted (Memory.drawSimulate (serviceOf (lineOf "1000" .active)) 0 hundred)
        (Memory.draw (serviceOf (lineOf "1000" .active)) 0 hundred 0 0) ∧
      RepayPredicted (Memory.repaySimulate (serviceOf (lineOf "1000" .active)) 0 hundred)
        (Memory.repay (serviceOf (lineOf "1000" .active)) 0 hundred 0)) ∧
    DrawPredicted (Postgres.drawSimulate ⟨⟩ sessionOfAlice 1 hundred)
        (Postgres.draw ⟨⟩ sessionOfAlice 1 hundred) ∧
      RepayPredicted (Postgres.repaySimulate ⟨⟩ sessionOfAlice 1 hundred)
        (Postgres.repay ⟨⟩ sessionOfAlice 1 hundred) := by
  have hmemory := (simulation_predicts_iff 0 hundred).1 _ _ 0 0
    (findById_serviceOf (lineOf "1000" .active))
  have hpostgres := (simulation_predicts_iff 1 hundred).2 ⟨⟩ sessionOfAlice rowOfAlice alice
    stored_sessionOfAlice
  have hledger : sessionOfAlice.durable.utilizedSum 1 = 0 := by decide
  refine ⟨⟨hmemory.1.mpr ?_,hmemory.2.mpr (repayForeseen_plain plain_zero hundred)⟩,
    hpostgres.1.mpr fun _ => ?_,hpostgres.2.mpr fun _ => ?_⟩
  · exact (drawForeseen_plain_iff plain_thousand plain_zero hundred).mpr fun _ => ⟨rfl,rfl⟩
  · exact ⟨rfl,rfl,hledger.ge⟩
  · rw [hledger]
    exact .inr (le_max_of_le_left (by decide))

/-- On a suspended line the draw is announced as valid and refused. -/
theorem suspended_line_mispredicted :
    ¬ DrawPredicted (Memory.drawSimulate (serviceOf (lineOf "1000" .suspended)) 0 hundred)
      (Memory.draw (serviceOf (lineOf "1000" .suspended)) 0 hundred 0 0) := by
  rw [drawPredicted_memory_iff (findById_serviceOf (lineOf "1000" .suspended)),
    drawForeseen_plain_iff plain_thousand plain_zero]
  intro h
  have hfits : Fits 1000 0 hundred.value := by
    rw [hundred_value]
    exact ⟨by decide,by decide +kernel⟩
  cases (h hfits).2

/-- A limit with its unit is a number to the call alone: the draw is refused in advance and
succeeds. -/
example : FitsCall (lineOf "1000 USDC" .active) 100 ∧
    ¬ FitsPreview (lineOf "1000 USDC" .active).reading 100 :=
  ⟨⟨by decide,by decide +kernel⟩,fun h => absurd h.2 (by decide +kernel)⟩

end Creditra.Simulations
