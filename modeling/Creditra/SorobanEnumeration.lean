import Creditra.Reconciliation
import Creditra.SorobanAmounts
import Creditra.StrKeys

/-!
# Enumeration of the contract's credit lines

`fetchAllCreditRecords` of the Soroban client: pages are requested with the
cursor of the last record as `start_after` until one is not full. The replies
come from outside and need not be pages of any one list. Signatures of the SDK
and the lower case of a text are parameters; what goes wrong before the SDK
returns a value counts as a failed attempt.
-/
namespace Creditra.SorobanEnumeration
open DecimalStrings JsNumbers JsStrings NumberText Reconciliation SorobanAmounts StellarDiagnostics

/-! ## Decoding -/

/-- What the client uses of the SDK and of the runtime's character tables. -/
structure Sdk where
  ScVal : Type
  scValToNative : ScVal → Except Thrown Native
  isValidContract : String → Bool
  isValidEd25519PublicKey : String → Bool
  toLowerCase : String → String

structure EnumeratedCreditRecord extends OnChainCreditRecord where
  cursor : ℤ
  deriving DecidableEq

def fetchError (message : String) (retryable : Bool) : SorobanError :=
  .fetch (sanitizeText message) retryable

/-- `value !== null && typeof value === 'object' && !Array.isArray(value)`. -/
def isRecord : Native → Bool
  | .map _ => true
  | .object _ => true
  | _ => false

/-- `undefined` also stands for a field that is not there. -/
def readOptionalField (value : Native) (fieldNames : List String) : Native :=
  match value with
  | .map entries => ((entries.find? fun e => e.1 ∈ fieldNames).map Prod.snd).getD .undefined
  | .object fields => (fieldNames.findSome? fun name => fields.lookup name).getD .undefined
  | _ => .undefined

def isUndefined : Native → Bool
  | .undefined => true
  | _ => false

def readField (value : Native) (fieldNames : List String) (tupleIndex recordIndex : ℕ) :
    Except SorobanError Native :=
  let named : Except SorobanError Native :=
    let namedValue := readOptionalField value fieldNames
    if isUndefined namedValue then
      .error (decodeError ("Credit line " ++ toString recordIndex ++ " is missing " ++
        fieldNames.headD "required field"))
    else .ok namedValue
  match value with
  | .array items =>
      match items[tupleIndex]? with
      | some item => .ok item
      | none => named
  | _ => named

def readCreditStatusField (value : Native) (recordIndex : ℕ) : Except SorobanError Native :=
  match value with
  | .array items =>
      match items[if 6 ≤ items.length then 5 else 4]? with
      | some item => .ok item
      | none => readField value ["status"] 4 recordIndex
  | _ => readField value ["status"] 4 recordIndex

def toNonEmptyString (value : Native) (index : ℕ) (field : String) : Except SorobanError String :=
  match value with
  | .string text =>
      let stringValue := trim text
      if length stringValue = 0 then
        .error (decodeError ("Credit line " ++ toString index ++ " field " ++ field ++
          " must be non-empty"))
      else .ok stringValue
  | _ =>
      .error (decodeError ("Credit line " ++ toString index ++ " field " ++ field ++
        " must be a string"))

/-- `/^-?\d+$/`. -/
def integerString : List Char → Bool
  | '-' :: cs => cs ≠ [] ∧ cs.all isDigit
  | cs => cs ≠ [] ∧ cs.all isDigit

def toSafeInteger (value : Native) (index : ℕ) (field : String) : Except SorobanError ℤ :=
  let parsed : Option ℤ :=
    match value with
    | .number x => safeInteger x
    | .bigint z => if z ≤ 2 ^ 53 - 1 ∧ -(2 ^ 53 - 1) ≤ z then some z else none
    | .string text =>
        if integerString text.toList then safeInteger (stringToNumber text.toList) else none
    | _ => none
  match parsed with
  | some z => .ok z
  | none =>
      .error (decodeError ("Credit line " ++ toString index ++ " field " ++ field ++
        " must be a safe integer"))

/-- `CREDIT_STATUS_BY_CONTRACT_DISCRIMINANT`. -/
def creditStatusByContractDiscriminant : ℤ → Option String
  | 0 => some "active"
  | 1 => some "suspended"
  | 2 => some "defaulted"
  | 3 => some "closed"
  | 4 => some "restricted"
  | _ => none

def contractStatusFromDiscriminant (value : ℤ) (index : ℕ) : Except SorobanError String :=
  match creditStatusByContractDiscriminant value with
  | some status => .ok status
  | none =>
      .error (decodeError ("Credit line " ++ toString index ++ " status " ++
        String.ofList (integerText value) ++ " is not a recognized contract status"))

/-- `.replace(/([a-z0-9])([A-Z])/g, '$1_$2')`. -/
def separateWords : List Char → List Char
  | c :: d :: cs =>
      if (c.isLower ∨ isDigit c) ∧ d.isUpper then c :: '_' :: separateWords (d :: cs)
      else c :: separateWords (d :: cs)
  | cs => cs

/-- `.replace(/[\s-]+/g, '_')`; `inRun` tells whether the character before was replaced. -/
def joinWords (inRun : Bool) : List Char → List Char
  | [] => []
  | c :: cs =>
      if isWhiteSpace c ∨ c = '-' then
        if inRun then joinWords true cs else '_' :: joinWords true cs
      else c :: joinWords false cs

section Decode
variable (sdk : Sdk)

def normalizeStatusString (value : String) : String :=
  sdk.toLowerCase (String.ofList (joinWords false (separateWords value.toList)))

def normalizeCreditStatus (value : Native) (index : ℕ) : Except SorobanError String :=
  let named := (toNonEmptyString value index "status").map (normalizeStatusString sdk)
  match value with
  | .number x =>
      match safeInteger x with
      | some z => contractStatusFromDiscriminant z index
      | none => named
  | .bigint z =>
      if z < 0 ∨ 2 ^ 53 - 1 < z then
        .error (decodeError ("Credit line " ++ toString index ++ " status " ++
          String.ofList (integerText z) ++ " is not a recognized contract status"))
      else contractStatusFromDiscriminant z index
  | .object fields =>
      match fields.lookup "tag" with
      | some (.string tag) => .ok (normalizeStatusString sdk tag)
      | _ => named
  | _ => named

def toBorrowerPublicKey (value : Native) (index : ℕ) : Except SorobanError String := do
  let walletAddress ← toNonEmptyString value index "borrower"
  if sdk.isValidEd25519PublicKey walletAddress then .ok walletAddress
  else .error (decodeError ("Credit line " ++ toString index ++
    " borrower must be a valid Stellar public key"))

structure CreditLineData where
  walletAddress : String
  creditLimit : String
  utilizedAmount : String
  interestRateBps : ℤ
  status : String

def parseCreditLineData (value : Native) (index : ℕ) : Except SorobanError CreditLineData := do
  let borrower ← readField value ["borrower","walletAddress","wallet_address"] 0 index
  let walletAddress ← toBorrowerPublicKey sdk borrower index
  let limit ← readField value ["credit_limit","creditLimit","limit"] 1 index
  let creditLimit ← toPreciseDecimalString limit index "creditLimit"
  let utilized ← readField value ["utilized_amount","utilizedAmount","utilized"] 2 index
  let utilizedAmount ← toPreciseDecimalString utilized index "utilizedAmount"
  let rate ← readField value ["interest_rate_bps","interestRateBps","interestRate"] 3 index
  let interestRateBps ← toSafeInteger rate index "interestRateBps"
  let status ← readCreditStatusField value index
  let status ← normalizeCreditStatus sdk status index
  .ok ⟨walletAddress,creditLimit,utilizedAmount,interestRateBps,status⟩

def readEnumerationTuple (entry : Native) (index : ℕ) : Except SorobanError (Native × Native) :=
  let malformed : Except SorobanError (Native × Native) :=
    .error (decodeError ("enumerate_credit_lines entry " ++ toString index ++
      " must be an id/record tuple"))
  match entry with
  | .array (first :: second :: _) => .ok (first,second)
  | _ =>
      if isRecord entry then
        let cursor := readOptionalField entry ["id","cursor","creditLineId","credit_line_id"]
        let record := readOptionalField entry ["record","line","creditLine","credit_line"]
        if ! isUndefined cursor ∧ ! isUndefined record then .ok (cursor,record)
        else malformed
      else malformed

def parseEnumeratedEntry (entry : Native) (index : ℕ) :
    Except SorobanError EnumeratedCreditRecord := do
  let tuple ← readEnumerationTuple entry index
  let cursor ← toSafeInteger tuple.1 index "cursor"
  let record ← parseCreditLineData sdk tuple.2 index
  let availableCredit ← subtractDecimalStrings record.creditLimit record.utilizedAmount
  .ok ⟨⟨String.ofList (integerText cursor),record.walletAddress,record.creditLimit,availableCredit,
    .finite record.interestRateBps,record.status⟩,cursor⟩

/-- `nativeValue.map((entry, index) => parseEnumeratedEntry(entry, index))`. -/
def parseEntries (index : ℕ) : List Native → Except SorobanError (List EnumeratedCreditRecord)
  | [] => .ok []
  | entry :: entries => do
      let record ← parseEnumeratedEntry sdk entry index
      let records ← parseEntries (index + 1) entries
      .ok (record :: records)

def decodeScVal (scVal : sdk.ScVal) : Except SorobanError Native :=
  match sdk.scValToNative scVal with
  | .ok value => .ok value
  | .error e =>
      .error (decodeError ("Could not decode enumerate_credit_lines ScVal: " ++
        sanitizeText e.diagnostic))

def parseEnumeratedCreditLineEntriesScVal (scVal : sdk.ScVal) :
    Except SorobanError (List EnumeratedCreditRecord) := do
  match ← decodeScVal sdk scVal with
  | .array entries => parseEntries sdk 0 entries
  | _ => .error (decodeError "enumerate_credit_lines result must be an array")

end Decode

/-! ## Fetching -/

def enumerationPageLimit : ℕ := 100

def maxEnumeratedCreditRecords : ℕ := 10000

/-- The loop of `withRetry` from an attempt on, with the retries that are left. -/
def withRetry {α : Type} (operation : ℕ → Except SorobanError α) (attempt : ℕ) :
    ℕ → Except SorobanError α
  | 0 => operation attempt
  | retries + 1 =>
      match operation attempt with
      | .error (.fetch _ true) => withRetry operation (attempt + 1) retries
      | outcome => outcome

/-- What an attempt at a request comes to: the page it is for, the attempt at that page and the
cursor it is sent with. -/
abbrev Server (sdk : Sdk) := ℕ → ℕ → Option ℤ → Except SorobanError sdk.ScVal

section Fetch
variable (sdk : Sdk) (server : Server sdk) (maxRetries : ℕ)

def fetchCreditRecordPage (page : ℕ) (startAfter : Option ℤ) :
    Except SorobanError (List EnumeratedCreditRecord) := do
  let returnValue ← withRetry (fun attempt => server page attempt startAfter) 0 maxRetries
  parseEnumeratedCreditLineEntriesScVal sdk returnValue

def enumerationExceeded : SorobanError :=
  decodeError ("Soroban enumeration exceeded " ++ toString maxEnumeratedCreditRecords ++
    " credit records")

/-- What the body of the loop does with a page: it stops with all records or goes on behind a
cursor. -/
def takePage (startAfter : Option ℤ) (records page : List EnumeratedCreditRecord) :
    Except SorobanError (Option ℤ) :=
  if maxEnumeratedCreditRecords < (records ++ page).length then .error enumerationExceeded
  else if page.length < enumerationPageLimit then .ok none
  else
    match page.getLast? with
    | none => .error (decodeError "Soroban enumeration page did not expose a cursor")
    | some last =>
        if ∃ cursor ∈ startAfter, last.cursor ≤ cursor then
          .error (decodeError "Soroban enumeration cursor did not advance")
        else .ok (some last.cursor)

/-- The loop before the request for page number `page`; absent when `fetches` requests do not
end it. -/
def enumerate (startAfter : Option ℤ) (records : List EnumeratedCreditRecord) (page : ℕ) :
    ℕ → Option (Except SorobanError (List EnumeratedCreditRecord))
  | 0 => none
  | fetches + 1 =>
      match fetchCreditRecordPage sdk server maxRetries page startAfter with
      | .error e => some (.error e)
      | .ok fetched =>
          match takePage startAfter records fetched with
          | .error e => some (.error e)
          | .ok none => some (.ok (records ++ fetched))
          | .ok (some cursor) => enumerate (some cursor) (records ++ fetched) (page + 1) fetches

/-- The loop of `assertUniqueBorrowers`. -/
def assertUniqueFrom (seen : List String) : List OnChainCreditRecord → Except SorobanError Unit
  | [] => .ok ()
  | record :: records =>
      if record.walletAddress ∈ seen then
        .error (decodeError ("Duplicate borrower " ++ record.walletAddress ++
          " in Soroban enumeration"))
      else assertUniqueFrom (record.walletAddress :: seen) records

def assertUniqueBorrowers (records : List OnChainCreditRecord) : Except SorobanError Unit :=
  assertUniqueFrom [] records

/-- `records.map(({ cursor: _cursor, ...record }) => record)`, once the borrowers are distinct. -/
def withoutCursors (records : List EnumeratedCreditRecord) :
    Except SorobanError (List OnChainCreditRecord) := do
  assertUniqueBorrowers (records.map EnumeratedCreditRecord.toOnChainCreditRecord)
  .ok (records.map EnumeratedCreditRecord.toOnChainCreditRecord)

/-- The whole call; absent when `fetches` page requests do not end it. -/
def fetchAllCreditRecords (contractId : String) (fetches : ℕ) :
    Option (Except SorobanError (List OnChainCreditRecord)) :=
  let contractId := trim contractId
  if contractId = "" then some (.ok [])
  else if sdk.isValidContract contractId then
    (enumerate sdk server maxRetries none [] 0 fetches).map fun records =>
      records.bind withoutCursors
  else
    some (.error (fetchError "Invalid CREDIT_CONTRACT_ID; expected a C... contract id" false))

end Fetch

/-! ## Any pages end the loop -/

theorem assertUniqueFrom_eq_ok {seen : List String} {records : List OnChainCreditRecord} :
    assertUniqueFrom seen records = .ok () ↔
      (records.map OnChainCreditRecord.walletAddress).Nodup ∧
        ∀ record ∈ records, record.walletAddress ∉ seen := by
  induction records generalizing seen with
  | nil => simp [assertUniqueFrom]
  | cons record records ih =>
      unfold assertUniqueFrom
      split
      · rename_i hseen
        simp [hseen]
      · rename_i hnew
        rw [ih,List.map_cons,List.nodup_cons,List.mem_map]
        constructor
        · rintro ⟨hnodup,hnot⟩
          refine ⟨⟨?_,hnodup⟩,?_⟩
          · rintro ⟨other,hother,heq⟩
            exact hnot other hother (heq ▸ List.mem_cons_self)
          · intro other hother
            rcases List.mem_cons.mp hother with rfl | hother
            · exact hnew
            · exact fun hmem => hnot other hother (List.mem_cons_of_mem _ hmem)
        · rintro ⟨⟨hfirst,hnodup⟩,hnot⟩
          refine ⟨hnodup,fun other hother hmem => ?_⟩
          rcases List.mem_cons.mp hmem with heq | hmem
          · exact hfirst ⟨other,hother,heq⟩
          · exact hnot other (List.mem_cons_of_mem _ hother) hmem

theorem assertUniqueBorrowers_eq_ok {records : List OnChainCreditRecord} :
    assertUniqueBorrowers records = .ok () ↔
      (records.map OnChainCreditRecord.walletAddress).Nodup := by
  unfold assertUniqueBorrowers
  rw [assertUniqueFrom_eq_ok]
  simp

/-- A page after which the loop goes on is full, and all records are still within the cap. -/
theorem takePage_more {startAfter : Option ℤ} {records page : List EnumeratedCreditRecord}
    {cursor : ℤ} (h : takePage startAfter records page = .ok (some cursor)) :
    enumerationPageLimit ≤ page.length ∧
      (records ++ page).length ≤ maxEnumeratedCreditRecords := by
  unfold takePage at h
  split at h
  · cases h
  · split at h
    · cases h
    · constructor <;> omega

theorem takePage_done {startAfter : Option ℤ} {records page : List EnumeratedCreditRecord}
    (h : takePage startAfter records page = .ok none) :
    (records ++ page).length ≤ maxEnumeratedCreditRecords := by
  unfold takePage at h
  split at h
  · cases h
  · omega

section Runs
variable {sdk : Sdk} {server : Server sdk} {maxRetries : ℕ}

/-- The requests still allowed cover the records still missing up to the cap. -/
theorem enumerate_ends (fetches : ℕ) (startAfter : Option ℤ)
    (records : List EnumeratedCreditRecord) (page : ℕ)
    (hcap : records.length ≤ maxEnumeratedCreditRecords)
    (hfetches : maxEnumeratedCreditRecords < records.length + enumerationPageLimit * fetches) :
    ∃ outcome, enumerate sdk server maxRetries startAfter records page fetches = some outcome ∧
      ∀ all, outcome = .ok all → all.length ≤ maxEnumeratedCreditRecords := by
  induction fetches generalizing startAfter records page with
  | zero => omega
  | succ fetches ih =>
      unfold enumerate
      cases fetchCreditRecordPage sdk server maxRetries page startAfter with
      | error e => exact ⟨_,rfl,fun all hall => by cases hall⟩
      | ok fetched =>
          dsimp only
          cases htake : takePage startAfter records fetched with
          | error e => exact ⟨_,rfl,fun all hall => by cases hall⟩
          | ok next =>
              cases next with
              | none =>
                  refine ⟨_,rfl,fun all hall => ?_⟩
                  cases hall
                  exact takePage_done htake
              | some cursor =>
                  obtain ⟨hfull,hwithin⟩ := takePage_more htake
                  apply ih (some cursor) (records ++ fetched) (page + 1) hwithin
                  rw [List.length_append]
                  rw [Nat.mul_succ] at hfetches
                  omega

theorem withoutCursors_eq_ok {records : List EnumeratedCreditRecord}
    {result : List OnChainCreditRecord} (h : withoutCursors records = .ok result) :
    result = records.map EnumeratedCreditRecord.toOnChainCreditRecord ∧
      (result.map OnChainCreditRecord.walletAddress).Nodup := by
  unfold withoutCursors at h
  cases hunique : assertUniqueBorrowers
      (records.map EnumeratedCreditRecord.toOnChainCreditRecord) with
  | error e =>
      rw [hunique] at h
      cases h
  | ok u =>
      rw [hunique] at h
      cases h
      exact ⟨rfl,assertUniqueBorrowers_eq_ok.mp hunique⟩

/-- Whatever the replies are, the call ends within the requests that the cap allows. -/
theorem fetchAllCreditRecords_ends (contractId : String) :
    ∃ outcome, fetchAllCreditRecords sdk server maxRetries contractId 101 = some outcome ∧
      ∀ records, outcome = .ok records →
        records.length ≤ maxEnumeratedCreditRecords ∧
          (records.map OnChainCreditRecord.walletAddress).Nodup := by
  unfold fetchAllCreditRecords
  dsimp only
  split
  · refine ⟨_,rfl,fun records hrecords => ?_⟩
    cases hrecords
    exact ⟨by decide,List.nodup_nil⟩
  · split
    · obtain ⟨outcome,houtcome,hlength⟩ :=
        @enumerate_ends sdk server maxRetries 101 none [] 0 (by decide) (by decide)
      rw [houtcome]
      refine ⟨_,rfl,fun records hrecords => ?_⟩
      cases outcome with
      | error e => cases hrecords
      | ok all =>
          obtain ⟨hresult,hnodup⟩ := withoutCursors_eq_ok hrecords
          refine ⟨?_,hnodup⟩
          rw [hresult,List.length_map]
          exact hlength all rfl
    · exact ⟨_,rfl,fun records hrecords => by cases hrecords⟩

/-! ## The pages of a contract end it with all records -/

/-- The entries of a contract with the records they decode to, in the order of their ids. -/
structure Holds (sdk : Sdk) (entries : List (Native × EnumeratedCreditRecord)) : Prop where
  decodes : ∀ e ∈ entries, ∀ index, parseEnumeratedEntry sdk e.1 index = .ok e.2
  ascending : entries.Pairwise fun d e => d.2.cursor < e.2.cursor
  distinct : (entries.map fun e => e.2.walletAddress).Nodup

/-- The entries that a request behind a cursor asks for. -/
def entriesAfter (entries : List (Native × EnumeratedCreditRecord)) (startAfter : Option ℤ) :
    List (Native × EnumeratedCreditRecord) :=
  entries.filter fun e => decide (∀ cursor ∈ startAfter, cursor < e.2.cursor)

/-- Every request is answered with the next entries, at most a page of them. -/
def Answers (server : Server sdk) (entries : List (Native × EnumeratedCreditRecord)) : Prop :=
  ∀ page attempt startAfter, ∃ scVal, server page attempt startAfter = .ok scVal ∧
    sdk.scValToNative scVal = .ok (.array
      (((entriesAfter entries startAfter).take enumerationPageLimit).map Prod.fst))

theorem parseEntries_map {entries : List (Native × EnumeratedCreditRecord)}
    (h : ∀ e ∈ entries, ∀ index, parseEnumeratedEntry sdk e.1 index = .ok e.2) (index : ℕ) :
    parseEntries sdk index (entries.map Prod.fst) = .ok (entries.map Prod.snd) := by
  induction entries generalizing index with
  | nil => rfl
  | cons e entries ih =>
      have hrest := ih (fun d hd => h d (List.mem_cons_of_mem e hd)) (index + 1)
      rw [List.map_cons,List.map_cons,parseEntries,h e List.mem_cons_self index,hrest]
      rfl

theorem fetchCreditRecordPage_answers {entries : List (Native × EnumeratedCreditRecord)}
    (h : Holds sdk entries) (hs : Answers server entries) (page : ℕ)
    (startAfter : Option ℤ) :
    fetchCreditRecordPage sdk server maxRetries page startAfter =
      .ok (((entriesAfter entries startAfter).take enumerationPageLimit).map Prod.snd) := by
  obtain ⟨scVal,hserver,hnative⟩ := hs page 0 startAfter
  have hretry : withRetry (fun attempt => server page attempt startAfter) 0 maxRetries =
      .ok scVal := by
    cases maxRetries <;> simp only [withRetry,hserver]
  unfold fetchCreditRecordPage parseEnumeratedCreditLineEntriesScVal decodeScVal
  rw [hretry]
  simp only [bind,Except.bind,hnative]
  apply parseEntries_map
  intro e he
  exact h.decodes e (List.mem_of_mem_filter (List.mem_of_mem_take he))

/-- Behind the last of the first entries stand the others. -/
theorem entriesAfter_append {done rest : List (Native × EnumeratedCreditRecord)}
    (h : (done ++ rest).Pairwise fun d e => d.2.cursor < e.2.cursor) :
    entriesAfter (done ++ rest) (done.getLast?.map fun e => e.2.cursor) = rest := by
  unfold entriesAfter
  induction done using List.reverseRecOn with
  | nil => simp
  | append_singleton done last _ =>
      obtain ⟨hdone,-,hrest⟩ := List.pairwise_append.mp h
      obtain ⟨-,-,hlast⟩ := List.pairwise_append.mp hdone
      have hbefore : ∀ e ∈ done ++ [last], ¬ last.2.cursor < e.2.cursor := by
        intro e he
        rcases List.mem_append.mp he with hinit | hsame
        · exact not_lt_of_gt (hlast e hinit last List.mem_cons_self)
        · rw [List.mem_singleton.mp hsame]
          exact lt_irrefl _
      rw [List.getLast?_concat,List.filter_append,List.filter_eq_nil_iff.mpr,
        List.filter_eq_self.mpr,List.nil_append]
      · intro e he
        simpa using hrest last (List.mem_append_right _ List.mem_cons_self) e he
      · intro e he
        simpa using hbefore e he

/-- A page of the contract is behind the cursor it was asked for. -/
theorem cursor_advances {done page : List (Native × EnumeratedCreditRecord)}
    {last : Native × EnumeratedCreditRecord}
    (h : (done ++ page).Pairwise fun d e => d.2.cursor < e.2.cursor)
    (hlast : page.getLast? = some last) :
    ¬ ∃ cursor ∈ done.getLast?.map fun e => e.2.cursor, last.2.cursor ≤ cursor := by
  rintro ⟨cursor,hcursor,hle⟩
  obtain ⟨before,hbefore,rfl⟩ := Option.map_eq_some_iff.mp hcursor
  have hlt := (List.pairwise_append.mp h).2.2 before (List.mem_of_getLast? hbefore) last
    (List.mem_of_getLast? hlast)
  omega

theorem sorted_take {done rest : List (Native × EnumeratedCreditRecord)}
    (h : (done ++ rest).Pairwise fun d e => d.2.cursor < e.2.cursor) (n : ℕ) :
    (done ++ rest.take n).Pairwise fun d e => d.2.cursor < e.2.cursor := by
  exact List.Pairwise.sublist ((List.take_sublist n rest).append_left done) h

/-- The loop on a contract, behind the entries that are done. -/
theorem enumerate_contract {entries : List (Native × EnumeratedCreditRecord)}
    (h : Holds sdk entries) (hs : Answers server entries) (fetches : ℕ)
    (done rest : List (Native × EnumeratedCreditRecord)) (page : ℕ)
    (hsplit : entries = done ++ rest)
    (hcap : done.length ≤ maxEnumeratedCreditRecords)
    (hfetches : maxEnumeratedCreditRecords < done.length + enumerationPageLimit * fetches) :
    enumerate sdk server maxRetries (done.getLast?.map fun e => e.2.cursor) (done.map Prod.snd) page
        fetches =
      some (if entries.length ≤ maxEnumeratedCreditRecords then .ok (entries.map Prod.snd)
        else .error enumerationExceeded) := by
  induction fetches generalizing done rest page with
  | zero => omega
  | succ fetches ih =>
      have hsorted := h.ascending
      rw [hsplit] at hsorted
      have hpage : fetchCreditRecordPage sdk server maxRetries page
          (done.getLast?.map fun e => e.2.cursor) =
            .ok ((rest.take enumerationPageLimit).map Prod.snd) := by
        rw [fetchCreditRecordPage_answers h hs,hsplit,entriesAfter_append hsorted]
      have hlength : entries.length = done.length + rest.length := by
        rw [hsplit,List.length_append]
      unfold enumerate
      rw [hpage]
      dsimp only
      unfold takePage
      rw [← List.map_append,List.length_map,List.length_map,List.length_append,List.length_take]
      by_cases hover :
          maxEnumeratedCreditRecords < done.length + min enumerationPageLimit rest.length
      · rw [if_pos hover,if_neg (by omega)]
      · rw [if_neg hover]
        by_cases hshort : min enumerationPageLimit rest.length < enumerationPageLimit
        · rw [if_pos hshort,if_pos (by omega),List.take_of_length_le (by omega),← hsplit]
        · rw [if_neg hshort]
          have hne : rest.take enumerationPageLimit ≠ [] := by
            apply List.ne_nil_of_length_pos
            rw [List.length_take]
            exact Nat.lt_of_lt_of_le (by decide) (Nat.not_lt.mp hshort)
          have hlast := List.getLast?_eq_some_getLast hne
          have hmore := cursor_advances (sorted_take hsorted _) hlast
          have hnext := ih (done ++ rest.take enumerationPageLimit) (rest.drop enumerationPageLimit)
            (page + 1) (by rw [List.append_assoc,List.take_append_drop,hsplit])
            (by rw [List.length_append,List.length_take]; omega)
            (by rw [List.length_append,List.length_take]; rw [Nat.mul_succ] at hfetches; omega)
          rw [List.getLast?_append,hlast] at hnext
          rw [List.getLast?_map,hlast]
          simp only [Option.map_some]
          rw [if_neg hmore]
          exact hnext

/-- A contract with distinct ascending ids and distinct borrowers is listed in full, or refused
when it holds more records than the cap. -/
theorem fetchAllCreditRecords_contract {contractId : String}
    (hid : sdk.isValidContract (trim contractId) = true) (hne : trim contractId ≠ "")
    {entries : List (Native × EnumeratedCreditRecord)} (h : Holds sdk entries)
    (hs : Answers server entries) :
    fetchAllCreditRecords sdk server maxRetries contractId 101 =
      some (if entries.length ≤ maxEnumeratedCreditRecords then
          .ok (entries.map fun e => e.2.toOnChainCreditRecord)
        else .error enumerationExceeded) := by
  have hrun : enumerate sdk server maxRetries none [] 0 101 =
      some (if entries.length ≤ maxEnumeratedCreditRecords then .ok (entries.map Prod.snd)
        else .error enumerationExceeded) :=
    enumerate_contract h hs 101 [] entries 0 rfl (by decide) (by decide)
  have hunique : assertUniqueBorrowers (entries.map fun e => e.2.toOnChainCreditRecord) =
      .ok () := by
    rw [assertUniqueBorrowers_eq_ok,List.map_map]
    exact h.distinct
  unfold fetchAllCreditRecords
  dsimp only
  rw [if_neg hne,if_pos hid,hrun,Option.map_some]
  split
  · simp only [Except.bind,withoutCursors,List.map_map]
    rw [show EnumeratedCreditRecord.toOnChainCreditRecord ∘ Prod.snd =
      fun e : Native × EnumeratedCreditRecord => e.2.toOnChainCreditRecord from rfl,hunique]
    rfl
  · rfl

/-- Any replies end the enumeration, with at most the capped number of records and no borrower
twice; those of a contract give its records, or the refusal when they are too many. -/
theorem enumeration_ends_and_is_complete (sdk : Sdk) (maxRetries : ℕ) (contractId : String) :
    (∀ server : Server sdk, ∃ outcome,
      fetchAllCreditRecords sdk server maxRetries contractId 101 = some outcome ∧
      ∀ records, outcome = .ok records →
        records.length ≤ 10000 ∧ (records.map OnChainCreditRecord.walletAddress).Nodup) ∧
    ∀ (server : Server sdk) (entries : List (Native × EnumeratedCreditRecord)),
      trim contractId ≠ "" → sdk.isValidContract (trim contractId) = true →
      Holds sdk entries → Answers server entries →
        (entries.length ≤ 10000 →
          fetchAllCreditRecords sdk server maxRetries contractId 101 =
            some (.ok (entries.map fun e => e.2.toOnChainCreditRecord))) ∧
        (10000 < entries.length →
          fetchAllCreditRecords sdk server maxRetries contractId 101 =
            some (.error enumerationExceeded)) := by
  refine ⟨fun server => fetchAllCreditRecords_ends contractId,?_⟩
  intro server entries hne hid h hs
  have hrun := @fetchAllCreditRecords_contract sdk server maxRetries contractId hid hne entries h hs
  unfold maxEnumeratedCreditRecords at hrun
  constructor
  · intro hle
    rwa [if_pos hle] at hrun
  · intro hlt
    rwa [if_neg (by omega)] at hrun

end Runs

def keyOf (n : ℕ) : String := StrKeys.encode 48 n

/-- An SDK that checks keys and hands values over as they are. -/
def sampleSdk : Sdk where
  ScVal := Native
  scValToNative := .ok
  isValidContract := StrKeys.isValid 16
  isValidEd25519PublicKey := StrKeys.isValid 48
  toLowerCase := String.map Char.toLower

/-- A line with its cursor, as a contract returns it. -/
def sampleEntry (n : ℕ) : Native × EnumeratedCreditRecord :=
  (.array [.bigint n,.object [("borrower",.string (keyOf n)),("credit_limit",.string "100"),
      ("utilized_amount",.string "40.5"),("interest_rate_bps",.bigint 500),("status",.bigint 0)]],
    ⟨⟨String.ofList (integerText n),keyOf n,"100","59.5",.finite 500,"active"⟩,n⟩)

/-- As many as do not fit on one page. -/
def sampleEntries : List (Native × EnumeratedCreditRecord) := (List.range 101).map sampleEntry

def sampleServer : Server sampleSdk := fun _ _ startAfter =>
  .ok (.array (((entriesAfter sampleEntries startAfter).take enumerationPageLimit).map Prod.fst))

theorem trim_keyOf (n : ℕ) : trim (keyOf n) = keyOf n := by
  have hblank : StrKeys.alphabet.all (fun c => ! isWhiteSpace c) = true := by decide
  rw [trim,trimChars_eq_self,String.ofList_toList]
  intro c hc
  rw [keyOf,StrKeys.toList_encode] at hc
  simpa using List.all_eq_true.mp hblank c (StrKeys.mem_digits hc)

theorem toBorrowerPublicKey_keyOf {n : ℕ} (h : n < 2 ^ 256) (index : ℕ) :
    toBorrowerPublicKey sampleSdk (.string (keyOf n)) index = .ok (keyOf n) := by
  have hlength : length (keyOf n) ≠ 0 := by
    rw [ne_eq,length_eq_zero_iff]
    intro hempty
    have hchars := congrArg (fun text => text.toList.length) hempty
    simp only [keyOf,StrKeys.toList_encode,StrKeys.length_digits] at hchars
    cases hchars
  have hvalid : StrKeys.isValid 48 (keyOf n) = true := StrKeys.isValid_encode (by decide) h
  have htext : toNonEmptyString (.string (keyOf n)) index "borrower" = .ok (keyOf n) := by
    rw [toNonEmptyString,trim_keyOf]
    exact if_neg hlength
  rw [toBorrowerPublicKey,htext]
  exact if_pos hvalid

theorem lt_of_mem_range {n : ℕ} (h : n ∈ List.range 101) : n < 2 ^ 256 :=
  (List.mem_range.mp h).trans (by decide)

theorem sampleEntries_hold : Holds sampleSdk sampleEntries where
  decodes := by
    intro e he index
    obtain ⟨n,hn,rfl⟩ := List.mem_map.mp he
    have hcursor : toSafeInteger (.bigint n) index "cursor" = .ok (n : ℤ) := by
      have hsafe : (n : ℤ) ≤ 2 ^ 53 - 1 ∧ -(2 ^ 53 - 1) ≤ (n : ℤ) := by
        have := List.mem_range.mp hn
        omega
      simp only [toSafeInteger,if_pos hsafe]
    have hdata : parseCreditLineData sampleSdk (.object [("borrower",.string (keyOf n)),
        ("credit_limit",.string "100"),("utilized_amount",.string "40.5"),
        ("interest_rate_bps",.bigint 500),("status",.bigint 0)]) index =
          .ok ⟨keyOf n,"100","40.5",500,"active"⟩ := by
      have hread : readField (.object [("borrower",.string (keyOf n)),
          ("credit_limit",.string "100"),("utilized_amount",.string "40.5"),
          ("interest_rate_bps",.bigint 500),("status",.bigint 0)])
            ["borrower","walletAddress","wallet_address"] 0 index = .ok (.string (keyOf n)) := rfl
      simp only [parseCreditLineData,hread,toBorrowerPublicKey_keyOf (lt_of_mem_range hn) index,bind,
        Except.bind]
      rfl
    simp only [parseEnumeratedEntry,sampleEntry,readEnumerationTuple,bind,Except.bind,hcursor,hdata]
    rfl
  ascending := by
    rw [sampleEntries,List.pairwise_map]
    exact List.pairwise_lt_range.imp fun h => Int.ofNat_lt.mpr h
  distinct := by
    rw [sampleEntries,List.map_map]
    refine List.Nodup.map_on ?_ List.nodup_range
    intro n hn m hm h
    exact StrKeys.encode_injective (by decide) (lt_of_mem_range hn) (lt_of_mem_range hm) h

/-- The last line is on a page of its own. -/
theorem enumeration_of_two_pages :
    (entriesAfter sampleEntries (some 99)).map Prod.snd = [(sampleEntry 100).2] ∧
      fetchAllCreditRecords sampleSdk sampleServer 3 (StrKeys.encode 16 0) 101 =
        some (.ok ((List.range 101).map fun n => (sampleEntry n).2.toOnChainCreditRecord)) := by
  have hcontract : trim (StrKeys.encode 16 0) = StrKeys.encode 16 0 := by decide +kernel
  have hall := ((enumeration_ends_and_is_complete sampleSdk 3 (StrKeys.encode 16 0)).2 sampleServer
    sampleEntries (by rw [hcontract]; decide +kernel)
    (by rw [hcontract]; exact StrKeys.isValid_encode (by decide) (by decide))
    sampleEntries_hold fun _ _ _ => ⟨_,rfl,rfl⟩).1 (by simp [sampleEntries])
  refine ⟨by decide +kernel,hall.trans ?_⟩
  rw [sampleEntries,List.map_map]
  rfl

end Creditra.SorobanEnumeration
