import Creditra.CreditModels
import Mathlib.Algebra.Order.Group.Nat

/-!
# Filtered exports

`services/complianceExportService.ts`: an export scans a repository in batches,
keeps the rows that pass its filters, and stops once it has one row more than
its page needs. The repository answers `findAll(offset, limit)` with a slice of
one listing. Rows are given as they are before they are serialized.
-/
namespace Creditra.ComplianceExports
open CreditModels

def scanBatch : ℕ := 500

def maxExportLimit : ℕ := 5000

def defaultExportLimit : ℕ := 1000

def clampLimit (limit : Option ℕ) : ℕ := min (max 1 (limit.getD defaultExportLimit)) maxExportLimit

/-! ## The scan -/

section Scan
variable {α : Type} (admits : α → Bool) (need : ℕ)

/-- The loop over one batch. -/
def collect : List α → List α → List α
  | matched, [] => matched
  | matched, row :: batch =>
      if admits row then
        if need ≤ (matched ++ [row]).length then matched ++ [row]
        else collect (matched ++ [row]) batch
      else collect matched batch

/-- `findAll(scanOffset, SCAN_BATCH)`. -/
def batchAt (listing : List α) (scanOffset : ℕ) : List α :=
  (listing.drop scanOffset).take scanBatch

/-- The loop over the batches, from `scanOffset` on. -/
def scan (listing : List α) (scanOffset : ℕ) (matched : List α) : List α :=
  if matched.length < need then
    if (batchAt listing scanOffset).length = 0 then matched
    else if (batchAt listing scanOffset).length < scanBatch then
      collect admits need matched (batchAt listing scanOffset)
    else scan listing (scanOffset + (batchAt listing scanOffset).length)
      (collect admits need matched (batchAt listing scanOffset))
  else matched
termination_by listing.length - scanOffset
decreasing_by
  simp only [batchAt,List.length_take,List.length_drop,scanBatch] at *
  omega

variable {admits need}

theorem collect_eq {matched : List α} (h : matched.length < need) (batch : List α) :
    collect admits need matched batch = (matched ++ batch.filter admits).take need := by
  induction batch generalizing matched with
  | nil => rw [collect,List.filter_nil,List.append_nil,List.take_of_length_le h.le]
  | cons row batch ih =>
      rw [collect]
      cases hrow : admits row with
      | false =>
          rw [if_neg Bool.false_ne_true,ih h,List.filter_cons_of_neg (by simp [hrow])]
      | true =>
          have hcons : matched ++ row :: batch.filter admits =
            (matched ++ [row]) ++ batch.filter admits := List.append_cons ..
          rw [if_pos rfl,List.filter_cons_of_pos hrow,hcons]
          split
          · rename_i hfull
            rw [List.take_append_of_le_length hfull,List.take_of_length_le]
            rw [List.length_append,List.length_singleton]
            omega
          · rename_i hopen
            exact ih (not_le.mp hopen)

/-- What has been scanned, up to the rows that are needed. -/
def scanned (admits : α → Bool) (need : ℕ) (listing : List α) (scanOffset : ℕ) : List α :=
  ((listing.take scanOffset).filter admits).take need

theorem scanned_full {listing : List α} {scanOffset : ℕ}
    (h : need ≤ (scanned admits need listing scanOffset).length) :
    scanned admits need listing scanOffset = (listing.filter admits).take need := by
  unfold scanned at h ⊢
  rw [List.length_take] at h
  have hsplit : listing.filter admits = (listing.take scanOffset).filter admits ++
      (listing.drop scanOffset).filter admits := by
    rw [← List.filter_append,List.take_append_drop]
  rw [hsplit,List.take_append_of_le_length (by omega)]

theorem scanned_of_length_le {listing : List α} {scanOffset : ℕ}
    (h : listing.length ≤ scanOffset) :
    scanned admits need listing scanOffset = (listing.filter admits).take need := by
  rw [scanned,List.take_of_length_le h]

theorem length_batchAt (listing : List α) (scanOffset : ℕ) :
    (batchAt listing scanOffset).length = min scanBatch (listing.length - scanOffset) := by
  rw [batchAt,List.length_take,List.length_drop]

/-- A batch carries the scan on. -/
theorem collect_scanned {listing : List α} {scanOffset : ℕ}
    (h : (scanned admits need listing scanOffset).length < need) :
    collect admits need (scanned admits need listing scanOffset) (batchAt listing scanOffset) =
      scanned admits need listing (scanOffset + scanBatch) := by
  have hall : scanned admits need listing scanOffset =
      (listing.take scanOffset).filter admits := by
    unfold scanned at h ⊢
    rw [List.length_take] at h
    exact List.take_of_length_le (by omega)
  rw [collect_eq h,hall,← List.filter_append,scanned,List.take_add,batchAt]

/-- The scan finds the first rows that pass the filters, as many as are needed. -/
theorem scan_scanned (listing : List α) (scanOffset : ℕ) :
    scan admits need listing scanOffset (scanned admits need listing scanOffset) =
      (listing.filter admits).take need := by
  induction hn : listing.length - scanOffset using Nat.strong_induction_on generalizing scanOffset
    with
  | h n ih =>
      have hlength := length_batchAt listing scanOffset
      unfold scan
      split
      · rename_i hopen
        rw [collect_scanned hopen,hlength]
        split
        · rename_i hempty
          apply scanned_of_length_le
          rw [scanBatch] at hempty
          omega
        · rename_i hsome
          split
          · rename_i hshort
            apply scanned_of_length_le
            omega
          · rename_i hlong
            rw [Nat.min_eq_left (by omega)]
            exact ih _ (by rw [scanBatch] at *; omega) _ rfl
      · rename_i hfull
        exact scanned_full (not_lt.mp hfull)

theorem scan_eq (listing : List α) :
    scan admits need listing 0 [] = (listing.filter admits).take need := by
  have hstart : scanned admits need listing 0 = [] := by
    rw [scanned,List.take_zero,List.filter_nil,List.take_nil]
  rw [← hstart,scan_scanned]

/-- One row more than the page needs tells whether there are more. -/
theorem page_truncated (admits : α → Bool) (listing : List α) (offset limit : ℕ) :
    (scan admits (offset + limit + 1) listing 0 []).length > offset + limit ↔
      offset + limit < (listing.filter admits).length := by
  rw [scan_eq,List.length_take]
  omega

/-- A page of what the scan finds is the page of what there is. -/
theorem page_rows (admits : α → Bool) (listing : List α) (offset limit : ℕ) :
    ((scan admits (offset + limit + 1) listing 0 []).drop offset).take limit =
      ((listing.filter admits).drop offset).take limit := by
  rw [scan_eq,List.drop_take,List.take_take]
  congr 1
  omega

end Scan

/-! ## Exports of lines and of the ledger -/

/-- A text with at least one character. -/
abbrev NonEmptyText := { text : String // text ≠ "" }

/-- A query as its schema admits it, with the instants of its window. -/
structure TransactionExportQuery where
  fromMs : ℤ
  toMs : ℤ
  limit : Option ℕ := none
  offset : Option ℕ := none
  status : Option TransactionStatus := none
  type : Option TransactionType := none
  creditLineId : Option Uuid := none
  walletAddress : Option NonEmptyText := none

structure CreditLineExportQuery where
  fromMs : ℤ
  toMs : ℤ
  limit : Option ℕ := none
  offset : Option ℕ := none
  status : Option CreditLineStatus := none
  walletAddress : Option NonEmptyText := none

structure ExportPage (α : Type) where
  rows : List α
  truncated : Bool
  limit : ℕ
  offset : ℕ
  fromMs : ℤ
  toMs : ℤ

def inRange (ms fromMs toMs : ℤ) : Bool := ms ≥ fromMs ∧ ms ≤ toMs

/-- A filter that is not set passes everything. -/
def passes {β : Type} [DecidableEq β] (filter : Option β) (value : β) : Bool :=
  match filter with
  | none => true
  | some wanted => value = wanted

theorem inRange_iff {ms fromMs toMs : ℤ} :
    inRange ms fromMs toMs = true ↔ fromMs ≤ ms ∧ ms ≤ toMs := decide_eq_true_iff

theorem passes_iff {β : Type} [DecidableEq β] {filter : Option β} {value : β} :
    passes filter value = true ↔ ∀ wanted ∈ filter, value = wanted := by
  cases filter with
  | none => simp [passes]
  | some wanted => simp [passes]

theorem passes_text_iff {filter : Option NonEmptyText} {value : String} :
    passes (filter.map Subtype.val) value = true ↔ ∀ wanted ∈ filter, value = wanted.1 := by
  rw [passes_iff]
  cases filter with
  | none => simp
  | some wanted => simp

section Ledger
variable (createdAt : Transaction → ℤ)

def TransactionExportQuery.admits (query : TransactionExportQuery) (tx : Transaction) : Bool :=
  inRange (createdAt tx) query.fromMs query.toMs && passes query.status tx.status &&
    passes query.type tx.type && passes query.creditLineId tx.creditLineId &&
    passes (query.walletAddress.map Subtype.val) tx.walletAddress

/-- A transaction matches when it was created in the window, ends included, and has what each
filter that is set asks for. -/
theorem TransactionExportQuery.admits_iff (query : TransactionExportQuery) (tx : Transaction) :
    query.admits createdAt tx = true ↔
      (query.fromMs ≤ createdAt tx ∧ createdAt tx ≤ query.toMs) ∧
      (∀ status ∈ query.status, tx.status = status) ∧ (∀ type ∈ query.type, tx.type = type) ∧
      (∀ creditLineId ∈ query.creditLineId, tx.creditLineId = creditLineId) ∧
      ∀ walletAddress ∈ query.walletAddress, tx.walletAddress = walletAddress.1 := by
  simp only [admits,Bool.and_eq_true,inRange_iff,passes_text_iff,and_assoc]
  simp only [passes_iff]

def exportTransactions (listing : List Transaction) (query : TransactionExportQuery) :
    ExportPage Transaction :=
  let limit := clampLimit query.limit
  let offset := query.offset.getD 0
  let need := offset + limit + 1
  let matched := scan (query.admits createdAt) need listing 0 []
  { rows := (matched.drop offset).take limit
    truncated := matched.length > offset + limit
    limit
    offset
    fromMs := query.fromMs
    toMs := query.toMs }

/-- The rows that pass the filters, from the offset on and up to the limit. -/
theorem exportTransactions_rows (listing : List Transaction) (query : TransactionExportQuery) :
    (exportTransactions createdAt listing query).rows =
      ((listing.filter (query.admits createdAt)).drop (query.offset.getD 0)).take
        (clampLimit query.limit) := page_rows _ _ _ _

theorem clampLimit_pos (limit : Option ℕ) : 0 < clampLimit limit := by
  unfold clampLimit maxExportLimit
  omega

end Ledger

section Lines
variable (createdAt : CreditLine → ℤ)

def CreditLineExportQuery.admits (query : CreditLineExportQuery) (line : CreditLine) : Bool :=
  inRange (createdAt line) query.fromMs query.toMs && passes query.status line.status &&
    passes (query.walletAddress.map Subtype.val) line.walletAddress

theorem CreditLineExportQuery.admits_iff (query : CreditLineExportQuery) (line : CreditLine) :
    query.admits createdAt line = true ↔
      (query.fromMs ≤ createdAt line ∧ createdAt line ≤ query.toMs) ∧
      (∀ status ∈ query.status, line.status = status) ∧
      ∀ walletAddress ∈ query.walletAddress, line.walletAddress = walletAddress.1 := by
  simp only [admits,Bool.and_eq_true,inRange_iff,passes_text_iff,and_assoc]
  simp only [passes_iff]

def exportCreditLines (listing : List CreditLine) (query : CreditLineExportQuery) :
    ExportPage CreditLine :=
  let limit := clampLimit query.limit
  let offset := query.offset.getD 0
  let need := offset + limit + 1
  let matched := scan (query.admits createdAt) need listing 0 []
  { rows := (matched.drop offset).take limit
    truncated := matched.length > offset + limit
    limit
    offset
    fromMs := query.fromMs
    toMs := query.toMs }

end Lines

/-! ## Pages -/

/-- A client that goes on by the page's limit until a page is not truncated, for at most `fuel`
pages. -/
def follow {α : Type} (exportAt : ℕ → ExportPage α) : ℕ → ℕ → Option (List α)
  | 0, _ => none
  | fuel + 1, offset =>
      if (exportAt offset).truncated then
        (follow exportAt fuel (offset + (exportAt offset).limit)).map ((exportAt offset).rows ++ ·)
      else some (exportAt offset).rows

/-- An export for every limit and offset, as a window on the rows that match. -/
structure PagesExact {α : Type} (exportAt : Option ℕ → Option ℕ → ExportPage α)
    (matching : List α) : Prop where
  limit : ∀ limit offset, 1 ≤ limit → limit ≤ maxExportLimit →
    (exportAt (some limit) offset).limit = limit
  rows : ∀ limit offset, (exportAt limit offset).rows =
    (matching.drop (offset.getD 0)).take (exportAt limit offset).limit
  truncated : ∀ limit offset, (exportAt limit offset).truncated = true ↔
    offset.getD 0 + (exportAt limit offset).limit < matching.length
  followed : ∀ limit offset, ∃ fuel,
    follow (fun offset => exportAt limit (some offset)) fuel offset = some (matching.drop offset)

section Pages
variable {α : Type}

theorem clampLimit_of_admitted {limit : ℕ} (hlow : 1 ≤ limit) (hhigh : limit ≤ maxExportLimit) :
    clampLimit (some limit) = limit := by
  unfold clampLimit
  rw [Option.getD_some,Nat.max_eq_right hlow,Nat.min_eq_left hhigh]

theorem follow_eq {exportAt : ℕ → ExportPage α} {matching : List α} {limit : ℕ}
    (hlimit : ∀ offset, (exportAt offset).limit = limit)
    (hrows : ∀ offset, (exportAt offset).rows = (matching.drop offset).take limit)
    (htruncated : ∀ offset, (exportAt offset).truncated = true ↔
      offset + limit < matching.length) {fuel offset : ℕ}
    (hfuel : matching.length < offset + limit * fuel + limit) :
    follow exportAt (fuel + 1) offset = some (matching.drop offset) := by
  induction fuel generalizing offset with
  | zero =>
      have hlast : ¬ (exportAt offset).truncated = true := by
        rw [htruncated]
        omega
      have hall : (matching.drop offset).length ≤ limit := by
        rw [List.length_drop]
        omega
      rw [follow,if_neg hlast,hrows,List.take_of_length_le hall]
  | succ fuel ih =>
      rw [follow,hlimit,hrows]
      split_ifs with hmore
      · rw [ih (by rw [Nat.mul_succ] at hfuel; omega),Option.map_some,← List.drop_drop,
          List.take_append_drop]
      · have hall : (matching.drop offset).length ≤ limit := by
          rw [htruncated] at hmore
          rw [List.length_drop]
          omega
        rw [List.take_of_length_le hall]

theorem pagesExact_of {exportAt : Option ℕ → Option ℕ → ExportPage α} {matching : List α}
    (hlimit : ∀ limit offset, (exportAt limit offset).limit = clampLimit limit)
    (hrows : ∀ limit offset, (exportAt limit offset).rows =
      (matching.drop (offset.getD 0)).take (clampLimit limit))
    (htruncated : ∀ limit offset, (exportAt limit offset).truncated = true ↔
      offset.getD 0 + clampLimit limit < matching.length) : PagesExact exportAt matching where
  limit limit offset hlow hhigh := by rw [hlimit,clampLimit_of_admitted hlow hhigh]
  rows limit offset := by rw [hlimit,hrows]
  truncated limit offset := by rw [hlimit,htruncated]
  followed limit offset := by
    have hpos := clampLimit_pos limit
    have hfuel :
        matching.length < offset + clampLimit limit * matching.length + clampLimit limit := by
      have hmul := Nat.le_mul_of_pos_left matching.length hpos
      omega
    exact ⟨_,follow_eq (fun offset => hlimit limit (some offset))
      (fun offset => hrows limit (some offset)) (fun offset => htruncated limit (some offset))
      hfuel⟩

end Pages

/-- Both exports give the rows that match, page by page, and say whether there are more. -/
theorem export_pages_exact :
    (∀ (createdAt : CreditLine → ℤ) (listing : List CreditLine) (query : CreditLineExportQuery),
      PagesExact
        (fun limit offset => exportCreditLines createdAt listing { query with limit, offset })
        (listing.filter (query.admits createdAt))) ∧
    ∀ (createdAt : Transaction → ℤ) (listing : List Transaction) (query : TransactionExportQuery),
      PagesExact
        (fun limit offset => exportTransactions createdAt listing { query with limit, offset })
        (listing.filter (query.admits createdAt)) := by
  constructor
  · intro createdAt listing query
    apply pagesExact_of
    · exact fun _ _ => rfl
    · exact fun _ _ => page_rows _ _ _ _
    · intro limit offset
      exact decide_eq_true_iff.trans (page_truncated _ _ _ _)
  · intro createdAt listing query
    apply pagesExact_of
    · exact fun _ _ => rfl
    · exact fun _ _ => page_rows _ _ _ _
    · intro limit offset
      exact decide_eq_true_iff.trans (page_truncated _ _ _ _)

end Creditra.ComplianceExports
