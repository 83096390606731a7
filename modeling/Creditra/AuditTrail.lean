import Creditra.ComplianceExports
import Creditra.DomainEventBus
import Creditra.JsStrings
import Mathlib.Data.List.DropRight
import Mathlib.Data.List.Sort

/-!
# The audit trail of lifecycle events

`services/events/auditSubscriber.ts` turns each event into a record, and
`services/auditLogStore.ts` keeps the newest of them: a store that is full drops
its oldest record. Queries list the retained records newest first, and
`exportAudit` of `services/complianceExportService.ts` serves the listing in
pages. `Date.parse` is a parameter; what it cannot read has no instant.
-/
namespace Creditra.AuditTrail
open ComplianceExports JsStrings JsonValues
open OutboundWebhooks (CreditEventType CreditDomainEvent)

structure AuditRecord where
  action : CreditEventType
  creditLineId : String
  occurredAt : String
  details : List (String × Json)

def toAuditRecord (event : CreditDomainEvent) : AuditRecord :=
  ⟨event.type,event.creditLineId,event.occurredAt,event.payload⟩

/-- The `while` loop of `append`. -/
def dropOldest {α : Type} (capacity : ℕ) : List α → List α
  | [] => []
  | record :: records =>
      if capacity < (record :: records).length then dropOldest capacity records
      else record :: records

theorem dropOldest_eq {α : Type} (capacity : ℕ) (records : List α) :
    dropOldest capacity records = records.rtake capacity := by
  induction records with
  | nil => simp [dropOldest,List.rtake]
  | cons record records ih =>
      rw [dropOldest,List.rtake,List.length_cons]
      split
      · rename_i hover
        obtain ⟨n,hn⟩ : ∃ n, records.length + 1 - capacity = n + 1 :=
          Nat.exists_eq_add_one.mpr (by omega)
        rw [ih,List.rtake,hn,List.drop_succ_cons]
        congr 1
        omega
      · rename_i hfits
        rw [Nat.sub_eq_zero_of_le (by omega),List.drop_zero]

/-- What the constructor lets through. -/
abbrev Capacity := { capacity : ℕ // 1 ≤ capacity }

structure AuditLogStore where
  capacity : Capacity
  records : List AuditRecord
  bounded : records.length ≤ capacity.val

structure AuditQuery where
  /-- A `Date`, which may hold no instant. -/
  fromDate : Option (Option ℤ) := none
  toDate : Option (Option ℤ) := none
  creditLineId : Option String := none
  action : Option String := none
  offset : Option ℤ := none
  limit : Option ℕ := none

namespace AuditLogStore

def new (capacity : Capacity) : AuditLogStore := ⟨capacity,[],Nat.zero_le _⟩

theorem length_dropOldest_le {α : Type} (capacity : ℕ) (records : List α) :
    (dropOldest capacity records).length ≤ capacity := by
  rw [dropOldest_eq,List.rtake,List.length_drop]
  omega

def append (store : AuditLogStore) (record : AuditRecord) : AuditLogStore :=
  ⟨store.capacity,dropOldest store.capacity (store.records ++ [record]),
    length_dropOldest_le _ _⟩

def size (store : AuditLogStore) : ℕ := store.records.length

section Queries
variable (parse : String → Option ℤ) (collation : Collation)

/-- A text filter that is missing or empty passes everything. -/
def passesText (filter : Option String) (value : String) : Bool :=
  match filter with
  | none => true
  | some text => text = "" || value = text

def matchesAuditFilters (record : AuditRecord) (options : AuditQuery) : Bool :=
  match parse record.occurredAt with
  | none => false
  | some occurredMs =>
      (match options.fromDate with
        | some (some ms) => ms ≤ occurredMs
        | _ => true) &&
      (match options.toDate with
        | some (some ms) => occurredMs ≤ ms
        | _ => true) &&
      passesText options.creditLineId record.creditLineId &&
      passesText options.action record.action.name

/-- The comparison of the sort: the newer instant first, then the line. -/
def compareRecords (a b : AuditRecord) : ℤ :=
  let ts := (parse b.occurredAt).getD 0 - (parse a.occurredAt).getD 0
  if ts ≠ 0 then ts else collation.localeCompare a.creditLineId b.creditLineId

def matched (store : AuditLogStore) (options : AuditQuery) : List AuditRecord :=
  (store.records.filter (matchesAuditFilters parse · options)).insertionSort
    fun a b => compareRecords parse collation a b ≤ 0

def query (store : AuditLogStore) (options : AuditQuery) : List AuditRecord :=
  let offset := (max 0 (options.offset.getD 0)).toNat
  let limit := options.limit.getD store.records.length
  ((store.matched parse collation options).take (offset + limit)).drop offset

def count (store : AuditLogStore) (options : AuditQuery) : ℕ :=
  (store.records.filter (matchesAuditFilters parse · options)).length

end Queries
end AuditLogStore

/-- A query as its schema admits it, with the instants of its window. -/
structure AuditExportQuery where
  fromMs : ℤ
  toMs : ℤ
  limit : Option ℕ := none
  offset : Option ℕ := none
  action : Option NonEmptyText := none
  creditLineId : Option NonEmptyText := none

/-- The filters of an export, as the store reads them. -/
def AuditExportQuery.filters (query : AuditExportQuery) : AuditQuery :=
  { fromDate := some (some query.fromMs)
    toDate := some (some query.toMs)
    creditLineId := query.creditLineId.map Subtype.val
    action := query.action.map Subtype.val }

def exportAudit (parse : String → Option ℤ) (collation : Collation) (store : AuditLogStore)
    (query : AuditExportQuery) : ExportPage AuditRecord :=
  let limit := clampLimit query.limit
  let offset := query.offset.getD 0
  let records := store.query parse collation
    { query.filters with offset := some offset, limit := some (limit + 1) }
  let truncated : Bool := limit < records.length
  { rows := if truncated then records.take limit else records
    truncated
    limit
    offset
    fromMs := query.fromMs
    toMs := query.toMs }

/-! ## What the store retains -/

theorem append_records (store : AuditLogStore) (record : AuditRecord) :
    (store.append record).records = (store.records ++ [record]).rtake store.capacity :=
  dropOldest_eq _ _

/-- Dropping the oldest after every record or once at the end leaves the same. -/
theorem rtake_append_rtake {α : Type} (n : ℕ) (xs ys : List α) :
    (xs.rtake n ++ ys).rtake n = (xs ++ ys).rtake n := by
  unfold List.rtake
  rw [← List.drop_append_of_le_length (by omega),List.drop_drop]
  congr 1
  simp only [List.length_drop,List.length_append]
  omega

theorem foldl_append_records (capacity : Capacity) (records : List AuditRecord) :
    (records.foldl AuditLogStore.append (.new capacity)).records = records.rtake capacity ∧
      (records.foldl AuditLogStore.append (.new capacity)).capacity = capacity := by
  induction records using List.reverseRecOn with
  | nil => exact ⟨(List.drop_nil).symm,rfl⟩
  | append_singleton records record ih =>
      obtain ⟨hrecords,hcapacity⟩ := ih
      rw [List.foldl_append,List.foldl_cons,List.foldl_nil,append_records,hrecords,hcapacity,
        rtake_append_rtake]
      exact ⟨rfl,hcapacity⟩

/-! ## What an export lists -/

/-- A listing of some records, newest first and by line within one instant. Records that agree in
both stand in the order in which they came. -/
structure Listed (parse : String → Option ℤ) (collation : Collation)
    (records listing : List AuditRecord) : Prop where
  perm : listing.Perm records
  sorted : listing.Pairwise fun a b =>
    AuditLogStore.compareRecords parse collation a b ≤ 0
  stable : ∀ part : List AuditRecord, part.Sublist records →
    (part.Pairwise fun a b => AuditLogStore.compareRecords parse collation a b ≤ 0) →
    part.Sublist listing

section Listing
variable (parse : String → Option ℤ) (collation : Collation)

instance compareTotal : Std.Total fun a b : AuditRecord =>
    AuditLogStore.compareRecords parse collation a b ≤ 0 where
  total a b := by
    unfold AuditLogStore.compareRecords
    have hline := collation.le_total a.creditLineId b.creditLineId
    simp only
    split_ifs <;> omega

instance compareTrans : IsTrans AuditRecord fun a b =>
    AuditLogStore.compareRecords parse collation a b ≤ 0 where
  trans a b c hab hbc := by
    unfold AuditLogStore.compareRecords at hab hbc ⊢
    simp only at hab hbc ⊢
    have hline := @Collation.le_trans collation a.creditLineId b.creditLineId c.creditLineId
    split_ifs at hab hbc ⊢ <;> omega

theorem matched_listed (store : AuditLogStore) (options : AuditQuery) :
    Listed parse collation
      (store.records.filter (AuditLogStore.matchesAuditFilters parse · options))
      (store.matched parse collation options) where
  perm := List.perm_insertionSort _ _
  sorted := List.pairwise_insertionSort _ _
  stable _ hpart hsorted := List.sublist_insertionSort hsorted hpart

/-- Paging options do not change what is listed. -/
theorem matched_paged (store : AuditLogStore) (options : AuditQuery) (offset : Option ℤ)
    (limit : Option ℕ) :
    store.matched parse collation { options with offset, limit } =
      store.matched parse collation options := rfl

theorem exportAudit_records (store : AuditLogStore) (query : AuditExportQuery) :
    store.query parse collation { query.filters with
        offset := some ((query.offset.getD 0 : ℕ) : ℤ), limit := some (clampLimit query.limit + 1) } =
      ((store.matched parse collation query.filters).drop (query.offset.getD 0)).take
        (clampLimit query.limit + 1) := by
  rw [AuditLogStore.query,matched_paged]
  simp only [Option.getD_some]
  rw [max_eq_right (by omega),Int.toNat_natCast,List.drop_take]
  congr 1
  omega

theorem exportAudit_rows (store : AuditLogStore) (query : AuditExportQuery) :
    (exportAudit parse collation store query).rows =
      ((store.matched parse collation query.filters).drop (query.offset.getD 0)).take
        (clampLimit query.limit) := by
  simp only [exportAudit]
  rw [exportAudit_records]
  split_ifs with hmore
  · rw [List.take_take,Nat.min_eq_left (Nat.le_succ _)]
  · rw [decide_eq_true_eq,List.length_take] at hmore
    rw [List.take_of_length_le (by omega),List.take_of_length_le (by omega)]

theorem exportAudit_truncated (store : AuditLogStore) (query : AuditExportQuery) :
    (exportAudit parse collation store query).truncated = true ↔
      query.offset.getD 0 + clampLimit query.limit <
        (store.matched parse collation query.filters).length := by
  simp only [exportAudit]
  rw [exportAudit_records,decide_eq_true_eq,List.length_take,List.length_drop]
  omega

end Listing

/-- After any appends the store holds the newest records, as many as it has room for. Exports page
through those that pass the filters, newest first: every page is a window on that listing, says
whether there is more, and a client that follows the pages reads all of it; `count` is its length. -/
theorem audit_export_exact (parse : String → Option ℤ) (collation : Collation)
    (capacity : Capacity) (appended : List AuditRecord) (query : AuditExportQuery) :
    (appended.foldl AuditLogStore.append (.new capacity)).records = appended.rtake capacity ∧
      ∃ listing,
        Listed parse collation ((appended.rtake capacity).filter
          (AuditLogStore.matchesAuditFilters parse · query.filters)) listing ∧
        (appended.foldl AuditLogStore.append (.new capacity)).count parse query.filters =
          listing.length ∧
        PagesExact (fun limit offset => exportAudit parse collation
          (appended.foldl AuditLogStore.append (.new capacity)) { query with limit, offset })
          listing := by
  obtain ⟨hrecords,_⟩ := foldl_append_records capacity appended
  refine ⟨hrecords,(appended.foldl AuditLogStore.append (.new capacity)).matched parse collation
    query.filters,?_,?_,pagesExact_of (fun _ _ => rfl)
    (fun limit offset => exportAudit_rows parse collation _ { query with limit, offset })
    (fun limit offset => exportAudit_truncated parse collation _ { query with limit, offset })⟩
  · rw [← hrecords]
    exact matched_listed parse collation _ query.filters
  · rw [AuditLogStore.count]
    exact (matched_listed parse collation _ query.filters).perm.length_eq.symm

end Creditra.AuditTrail
