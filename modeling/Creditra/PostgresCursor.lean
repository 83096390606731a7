import Creditra.CursorTraversal
import Creditra.PostgresRepositories
import Mathlib.Data.Prod.Lex

/-!
# Cursor paging over the table of credit lines

`findAllWithCursor` of the Postgres repository, over a table that stays as it
is. The column `created_at` counts microseconds. The driver hands it over as a
`Date`, which counts milliseconds, by cutting off what is left of the
millisecond; the cursor carries the `Date` back into the query, where it is
compared with the column.

Every line has a borrower, so the join with `borrowers` keeps every row. The
sums over the ledger are given with the table, and `limit + 1` is exact.
-/
namespace Creditra.PostgresCursor
open CreditModels CursorPagination CursorTraversal JsNumbers PostgresRepositories SortedListings
open StellarDiagnostics

/-! ## Instants -/

/-- The milliseconds a `Date` reaches from 1970. -/
def maxTime : ℤ := 8640000000000000

structure Date where
  ms : ℤ
  valid : |ms| ≤ maxTime
  deriving DecidableEq

def Date.getTime (date : Date) : Double := ⟨date.ms,by
  have hvalid := date.valid
  have hlt : date.ms.natAbs < 2 ^ 53 := by
    unfold maxTime at hvalid
    rw [abs_le] at hvalid
    omega
  rw [← Int.cast_abs,Int.abs_eq_natAbs,Int.cast_natCast]
  exact toDouble_natCast hlt⟩

/-- Towards zero. -/
def truncate (q : ℚ) : ℤ := if 0 ≤ q then ⌊q⌋ else ⌈q⌉

theorem abs_truncate_le {q : ℚ} {n : ℤ} (h : |q| ≤ n) : |truncate q| ≤ n := by
  rw [abs_le] at h ⊢
  unfold truncate
  split
  · rename_i hq
    have hfloor := Int.floor_nonneg.mpr hq
    have hle : ⌊q⌋ ≤ n := by
      have hcast := (Int.floor_le q).trans h.2
      exact_mod_cast hcast
    omega
  · rename_i hq
    have hceil : ⌈q⌉ ≤ 0 := Int.ceil_le.mpr (by push_cast; linarith)
    have hle : -n ≤ ⌈q⌉ := by
      have hcast := h.1.trans (Int.le_ceil q)
      exact_mod_cast hcast
    omega

/-- `new Date(t)`, unless it is an invalid date. -/
def newDate (t : Double) : Option Date :=
  if h : |t.1| ≤ maxTime then some ⟨truncate t.1,abs_truncate_le h⟩ else none

/-- The first instant of `timestamptz`, in microseconds from 1970. -/
def earliest : ℤ := -210866803200000000

/-- A `created_at` that a `Date` can hold. -/
structure Timestamp where
  us : ℤ
  stored : earliest ≤ us
  held : us / 1000 ≤ maxTime
  deriving DecidableEq

def Timestamp.toDate (timestamp : Timestamp) : Date := ⟨timestamp.us / 1000,by
  have hstored := timestamp.stored
  have hheld := timestamp.held
  unfold earliest at hstored
  unfold maxTime at hheld ⊢
  rw [abs_le]
  omega⟩

/-- The instant a `Date` parameter stands for; older ones are out of range. -/
def Date.parameter (date : Date) : Option ℤ :=
  if earliest ≤ date.ms * 1000 then some (date.ms * 1000) else none

/-! ## The repository -/

/-- What is left to the database: how an id is written and read, and the error
that a refused statement ends in. -/
structure Server (ι : Type) where
  uuidText : ι → String
  readUuid : String → Option ι
  refusal : Thrown
  readUuid_uuidText : ∀ id, readUuid (uuidText id) = some id
  uuidText_ne : ∀ id, uuidText id ≠ ""

structure CreditLineRow (ι : Type) where
  id : ι
  creditLimit : ℚ
  status : CreditLineStatus
  interestRateBps : ℤ
  version : ℕ
  createdAt : Timestamp
  updatedAt : Timestamp
  walletAddress : String
  deriving DecidableEq

structure CreditLine where
  id : String
  walletAddress : String
  creditLimit : ℚ
  availableCredit : ℚ
  utilized : ℚ
  interestRateBps : ℤ
  status : CreditLineStatus
  version : ℕ
  createdAt : Date
  updatedAt : Date
  deriving DecidableEq

/-- The page without its limit. -/
structure CursorPaginationResult where
  items : List CreditLine
  hasMore : Bool
  nextCursor : Option String

structure Table (ι : Type) where
  rows : List (CreditLineRow ι)
  utilized : ι → ℚ
  nodup : (rows.map CreditLineRow.id).Nodup

section Repository
variable {ι : Type} [LinearOrder ι] (server : Server ι) (table : Table ι)

def toCreditLine (row : CreditLineRow ι) (availableCredit : ℚ) : CreditLine :=
  ⟨server.uuidText row.id,row.walletAddress,row.creditLimit,availableCredit,
    calculateUtilized row.creditLimit availableCredit,row.interestRateBps,row.status,row.version,
    row.createdAt.toDate,row.updatedAt.toDate⟩

/-- A row as the loop over the result pushes it. -/
def line (row : CreditLineRow ι) : CreditLine :=
  toCreditLine server row (calculateAvailableCredit (table.utilized row.id) row.creditLimit)

/-- `ORDER BY cl.created_at ASC, cl.id ASC`. -/
def ordered : List (CreditLineRow ι) :=
  table.rows.insertionSort fun a b =>
    a.createdAt.us < b.createdAt.us ∨ a.createdAt.us = b.createdAt.us ∧ a.id ≤ b.id

/-- `WHERE (cl.created_at > $2 OR (cl.created_at = $2 AND cl.id > $3))`. -/
def whereClause : Option (ℤ × ι) → CreditLineRow ι → Bool
  | none, _ => true
  | some (t,i), row => row.createdAt.us > t ∨ row.createdAt.us = t ∧ row.id > i

/-- `new Date(decoded.t), decoded.i`, as the server reads them. -/
def seekParameters : Option CursorKey → Option (Option (ℤ × ι))
  | none => some none
  | some decoded => do
      let date ← newDate decoded.t
      let t ← date.parameter
      let i ← server.readUuid decoded.i
      return some (t,i)

/-- The limit, when `limit + 1` is a count the server accepts. -/
def limitParameter : Number → Option ℤ
  | .finite q => if q.den = 1 ∧ -1 ≤ q.num ∧ q.num + 1 < 2 ^ 63 then some q.num else none
  | _ => none

def cursorKey (cl : CreditLine) : CursorKey := ⟨cl.createdAt.getTime,cl.id⟩

def findAllWithCursor (cursor : Option String) (limit : Number := .finite 100) :
    Except Thrown CursorPaginationResult :=
  match decodeCursor cursor with
  | .error e => .error e
  | .ok decoded =>
      match seekParameters server decoded, limitParameter limit with
      | some seek, some limit =>
          let rows := ((ordered table).filter (whereClause seek)).take (limit + 1).toNat
          match buildPageFromOverfetch (rows.map (line server table)) limit cursorKey with
          | .ok page => .ok ⟨page.items,page.hasMore,page.nextCursor⟩
          | .error e => .error e
      | _, _ => .error server.refusal

end Repository

/-! ## The order of the rows -/

section Order
variable {ι : Type} [LinearOrder ι] (table : Table ι)

def rowKey (row : CreditLineRow ι) : ℤ × ι := (row.createdAt.us,row.id)

def rowBefore (a b : ℤ × ι) : Prop := toLex a < toLex b

instance : DecidableRel (@rowBefore ι _) :=
  fun a b => inferInstanceAs (Decidable (toLex a < toLex b))

theorem rowBefore_order : ListingOrder (@rowBefore ι _) where
  irrefl _ := lt_irrefl _
  trans := lt_trans
  behind hba hbx := lt_of_le_of_lt (not_lt.mp hba) hbx

theorem rowBefore_iff {a b : ℤ × ι} : rowBefore a b ↔ a.1 < b.1 ∨ a.1 = b.1 ∧ a.2 < b.2 :=
  Prod.Lex.toLex_lt_toLex

theorem ordered_perm : (ordered table).Perm table.rows := List.perm_insertionSort _ _

theorem ordered_ids_nodup : ((ordered table).map CreditLineRow.id).Nodup :=
  ((ordered_perm table).map _).nodup_iff.mpr table.nodup

theorem ordered_sorted : SortedBy rowKey rowBefore (ordered table) := by
  have hle : ∀ a b : CreditLineRow ι, (a.createdAt.us < b.createdAt.us ∨
      a.createdAt.us = b.createdAt.us ∧ a.id ≤ b.id) ↔ toLex (rowKey a) ≤ toLex (rowKey b) := by
    intro a b
    rw [Prod.Lex.toLex_le_toLex]
    rfl
  have htotal : Std.Total fun a b : CreditLineRow ι => a.createdAt.us < b.createdAt.us ∨
      a.createdAt.us = b.createdAt.us ∧ a.id ≤ b.id := by
    constructor
    intro a b
    rw [hle,hle]
    exact le_total _ _
  have htrans : IsTrans (CreditLineRow ι) fun a b => a.createdAt.us < b.createdAt.us ∨
      a.createdAt.us = b.createdAt.us ∧ a.id ≤ b.id := by
    constructor
    intro a b c hab hbc
    rw [hle] at hab hbc ⊢
    exact le_trans hab hbc
  have hsorted := List.pairwise_insertionSort (fun a b : CreditLineRow ι =>
    a.createdAt.us < b.createdAt.us ∨ a.createdAt.us = b.createdAt.us ∧ a.id ≤ b.id) table.rows
  have hne : (ordered table).Pairwise fun a b => a.id ≠ b.id :=
    List.pairwise_map.mp (ordered_ids_nodup table)
  refine (hsorted.and hne).imp ?_
  rintro a b ⟨hab,hne⟩
  rw [hle] at hab
  refine lt_of_le_of_ne hab ?_
  intro heq
  exact hne (congrArg (fun key => (ofLex key).2) heq)

theorem whereClause_eq (seek : Option (ℤ × ι)) :
    whereClause seek = after rowKey rowBefore seek := by
  funext row
  rcases seek with _ | ⟨t,i⟩
  · rfl
  · apply decide_eq_decide.mpr
    rw [rowBefore_iff]
    simp only [rowKey,gt_iff_lt]
    tauto

/-- Whatever is asked for, the rows that match are the last ones. -/
theorem exists_filter_eq_drop (seek : Option (ℤ × ι)) :
    ∃ m, (ordered table).filter (whereClause seek) = (ordered table).drop m := by
  have hinitial : Initial (fun row => ! whereClause seek row) (ordered table) := by
    refine (ordered_sorted table).imp ?_
    intro a b hab hb
    rw [whereClause_eq] at hb ⊢
    rcases seek with _ | c
    · exact hb
    · have hnot : ¬ rowBefore c (rowKey b) := by simpa [after] using hb
      have hnot' : ¬ rowBefore c (rowKey a) := fun h => hnot (rowBefore_order.trans h hab)
      simpa [after] using hnot'
  refine ⟨(ordered table).countP fun row => ! whereClause seek row,?_⟩
  rw [drop_countP hinitial]
  simp

end Order

/-! ## One page -/

section Page
variable {ι : Type} [LinearOrder ι] {server : Server ι} {table : Table ι}

/-- With this cursor the query matches the rows from index `m` on. -/
def StandsAt (server : Server ι) (table : Table ι) (cursor : Option String) (m : ℕ) : Prop :=
  ∃ key seek, decodeCursor cursor = .ok key ∧ seekParameters server key = some seek ∧
    (ordered table).filter (whereClause seek) = (ordered table).drop m

theorem standsAt_start : StandsAt server table none 0 := by
  refine ⟨none,none,rfl,rfl,?_⟩
  rw [List.drop_zero]
  exact List.filter_eq_self.mpr fun _ _ => rfl

omit [LinearOrder ι] in
/-- A cursor made from a row asks for the instant the row was cut to. -/
theorem seekParameters_row (server : Server ι) (table : Table ι) (row : CreditLineRow ι) :
    seekParameters server (some (cursorKey (line server table row))) =
      some (some (row.createdAt.us / 1000 * 1000,row.id)) := by
  have hstored := row.createdAt.stored
  have hdate : newDate row.createdAt.toDate.getTime = some row.createdAt.toDate := by
    have hvalid := row.createdAt.toDate.valid
    have habs : |(row.createdAt.toDate.ms : ℚ)| ≤ maxTime := by exact_mod_cast hvalid
    have htruncate : truncate (row.createdAt.toDate.ms : ℚ) = row.createdAt.toDate.ms := by
      simp [truncate]
    simp only [newDate,Date.getTime,dif_pos habs,htruncate]
  have hparameter : row.createdAt.toDate.parameter = some (row.createdAt.us / 1000 * 1000) := by
    apply if_pos
    unfold earliest at hstored ⊢
    simp only [Timestamp.toDate]
    omega
  have hread : server.readUuid (line server table row).id = some row.id :=
    server.readUuid_uuidText row.id
  change (newDate row.createdAt.toDate.getTime).bind _ = _
  rw [hdate]
  change row.createdAt.toDate.parameter.bind _ = _
  rw [hparameter]
  change (server.readUuid (line server table row).id).bind _ = _
  rw [hread]
  rfl

/-- Behind a row on a whole millisecond the cursor goes on with the next row;
any other row is matched again. -/
theorem standsAt_row {i : ℕ} (hi : i < (ordered table).length) {cursor : String}
    (hcursor : encodeCursor (cursorKey (line server table (ordered table)[i])) = .ok cursor) :
    if (ordered table)[i].createdAt.us % 1000 = 0 then StandsAt server table (some cursor) (i + 1)
    else ∃ j ≤ i, StandsAt server table (some cursor) j := by
  have hdecode := decodeCursor_encodeCursor hcursor false
  have hseek := seekParameters_row server table (ordered table)[i]
  split
  · rename_i hwhole
    refine ⟨_,_,hdecode,hseek,?_⟩
    rw [drop_succ_eq_remaining rowBefore_order (ordered_sorted table) hi,whereClause_eq]
    have hsame : (ordered table)[i].createdAt.us / 1000 * 1000 =
        (ordered table)[i].createdAt.us := by omega
    rw [hsame]
    rfl
  · rename_i hpart
    rcases exists_filter_eq_drop table (some ((ordered table)[i].createdAt.us / 1000 * 1000,
      (ordered table)[i].id)) with ⟨j,hj⟩
    refine ⟨j,?_,_,_,hdecode,hseek,hj⟩
    have hmem : (ordered table)[i] ∈ (ordered table).drop j := by
      rw [← hj,List.mem_filter]
      refine ⟨List.getElem_mem hi,?_⟩
      apply decide_eq_true
      left
      omega
    rcases List.mem_drop_iff_getElem.mp hmem with ⟨k,hk,heq⟩
    have hnodup : (ordered table).Nodup := (ordered_ids_nodup table).of_map
    have hindex := (List.Nodup.getElem_inj_iff hnodup).mp heq
    omega

/-- A page of `size` rows from index `m` on. -/
theorem findAllWithCursor_spec {cursor : Option String} {m size : ℕ} {limit : Number}
    (hat : StandsAt server table cursor m) (hlimit : limitParameter limit = some (size : ℤ))
    (hsize : 0 < size) : ∃ page, findAllWithCursor server table cursor limit = .ok page ∧
      page.items = (((ordered table).drop m).take size).map (line server table) ∧
      ((ordered table).length ≤ m + size → page.nextCursor = none) ∧
      ∀ (h : m + size - 1 < (ordered table).length), m + size < (ordered table).length →
        ∃ next, page.nextCursor = some next ∧
          encodeCursor (cursorKey (line server table (ordered table)[m + size - 1])) =
            .ok next := by
  rcases hat with ⟨key,seek,hdecode,hseek,hrows⟩
  have hids : ∀ cl ∈ ((ordered table).drop m).map (line server table), (cursorKey cl).i ≠ "" := by
    intro cl hcl
    rcases List.mem_map.mp hcl with ⟨row,-,rfl⟩
    exact server.uuidText_ne row.id
  rcases buildPageFromOverfetch_spec cursorKey hsize hids with ⟨page,hpage,hspec⟩
  have hcount : ((size : ℤ) + 1).toNat = size + 1 := by omega
  refine ⟨⟨page.items,page.hasMore,page.nextCursor⟩,?_,?_,?_,?_⟩
  · unfold findAllWithCursor
    rw [hdecode]
    dsimp only
    rw [hseek,hlimit]
    dsimp only
    rw [hrows,hcount,List.map_take,hpage]
  · dsimp only
    rw [hspec.items,List.map_take]
  · intro hle
    apply hspec.done
    rw [hspec.hasMore,List.length_map,List.length_drop]
    apply decide_eq_false
    omega
  · intro h hlt
    have hmore : page.hasMore = true := by
      rw [hspec.hasMore,List.length_map,List.length_drop]
      apply decide_eq_true
      omega
    rcases hspec.next hmore with ⟨last,next,hlast,hnext,hencode⟩
    refine ⟨next,hnext,?_⟩
    have hrow : last = line server table (ordered table)[m + size - 1] := by
      have hlength : (((ordered table).drop m).take size).length = size := by
        rw [List.length_take,List.length_drop]
        omega
      have hindex : m + (size - 1) = m + size - 1 := by omega
      rw [← List.map_take,List.getLast?_map,List.getLast?_eq_getElem?,hlength,
        List.getElem?_take_of_lt (by omega),List.getElem?_drop,hindex,
        List.getElem?_eq_getElem h] at hlast
      exact (Option.some.inj hlast).symm
    rw [← hrow]
    exact hencode

theorem buildPageFromOverfetch_small {creditLines : List CreditLine} {n : ℤ} (hn : n ≤ 0)
    (hlength : (creditLines.length : ℤ) ≤ n + 1) :
    ∃ page, buildPageFromOverfetch creditLines n cursorKey = .ok page ∧ page.items = [] ∧
      page.nextCursor = none := by
  have hempty : (if decide (n < creditLines.length) then sliceTo creditLines n else creditLines) =
      [] := by
    split
    · unfold sliceTo
      split
      · rw [Int.toNat_of_nonpos hn,List.take_zero]
      · rw [List.take_eq_nil_iff]
        omega
    · rename_i hmore
      rw [decide_eq_true_eq] at hmore
      apply List.length_eq_zero_iff.mp
      omega
  refine ⟨⟨[],none,decide (n < creditLines.length),n⟩,?_,rfl,rfl⟩
  unfold buildPageFromOverfetch
  dsimp only
  rw [hempty,List.getLast?_nil]
  split
  · rename_i hlast
    cases hlast
  · rfl

theorem limitParameter_eq_some {limit : Number} {n : ℤ} :
    limitParameter limit = some n ↔ limit = .finite n ∧ -1 ≤ n ∧ n + 1 < 2 ^ 63 := by
  constructor
  · intro h
    cases limit with
    | finite q =>
        simp only [limitParameter] at h
        split at h
        · rename_i hq
          have hnum := Option.some.inj h
          have hwhole : q = q.num := (Rat.den_eq_one_iff q).mp hq.1 |>.symm
          rw [← hnum,← hwhole]
          exact ⟨rfl,hq.2⟩
        · cases h
    | infinite negative => cases h
    | nan => cases h
  · rintro ⟨rfl,hmin,hmax⟩
    simp only [limitParameter,Rat.den_intCast,Rat.num_intCast]
    exact if_pos ⟨trivial,hmin,hmax⟩

/-- A limit below one brings an empty page without a cursor. -/
theorem findAllWithCursor_small (server : Server ι) (table : Table ι) {limit : Number} {n : ℤ}
    (hlimit : limitParameter limit = some n) (hn : n ≤ 0) :
    ∃ page, findAllWithCursor server table none limit = .ok page ∧
      page.items = [] ∧ page.nextCursor = none := by
  have hmin := (limitParameter_eq_some.mp hlimit).2.1
  have hlength : (((((ordered table).filter (whereClause none)).take (n + 1).toNat).map
      (line server table)).length : ℤ) ≤ n + 1 := by
    rw [List.length_map,List.length_take]
    omega
  rcases buildPageFromOverfetch_small hn hlength with ⟨page,hpage,hitems,hnone⟩
  refine ⟨⟨page.items,page.hasMore,page.nextCursor⟩,?_,hitems,hnone⟩
  have hseek : seekParameters server none = some none := rfl
  unfold findAllWithCursor
  rw [show decodeCursor none = .ok none from rfl]
  dsimp only
  rw [hseek,hlimit]
  dsimp only
  rw [hpage]

end Page

/-! ## Following the cursors -/

section Traversal
variable {ι : Type} [LinearOrder ι] (server : Server ι) (table : Table ι) (limit : Number)

/-- The pages of at most `requests` requests, from the start. -/
def traversal (requests : ℕ) : Except Thrown (List CursorPaginationResult) :=
  traverse CursorPaginationResult.nextCursor
    (fun _ cursor => findAllWithCursor server table cursor limit) requests 0 none

def emittedLines (pages : List CursorPaginationResult) : List CreditLine :=
  pages.flatMap CursorPaginationResult.items

theorem emittedLines_cons (page : CursorPaginationResult) (pages : List CursorPaginationResult) :
    emittedLines (page :: pages) = page.items ++ emittedLines pages := List.flatMap_cons

theorem emittedLines_singleton (page : CursorPaginationResult) :
    emittedLines [page] = page.items := List.flatMap_singleton ..

/-- The last page has no cursor. -/
def Ended (pages : List CursorPaginationResult) : Prop :=
  ∃ last, pages.getLast? = some last ∧ last.nextCursor = none

/-- Following the cursors comes to an end, with every row emitted exactly once. -/
def Complete : Prop :=
  ∃ requests pages, traversal server table limit requests = .ok pages ∧ Ended pages ∧
    (emittedLines pages).Perm (table.rows.map (line server table))

/-- From index `m` on, every page of `size` rows but the last one ends in a row
created on a whole millisecond. -/
def WholeFrom (size m : ℕ) : Prop :=
  ∀ k row, m + (k + 1) * size < (ordered table).length →
    (ordered table)[m + (k + 1) * size - 1]? = some row → row.createdAt.us % 1000 = 0

variable {server table limit} {size m : ℕ}

theorem wholeFrom_end (h : (ordered table).length ≤ m + size) : WholeFrom table size m := by
  intro k row hlt _
  have hsucc := Nat.succ_mul k size
  rw [Nat.succ_eq_add_one] at hsucc
  omega

theorem wholeFrom_iff (hlt : m + size < (ordered table).length)
    (hi : m + size - 1 < (ordered table).length) : WholeFrom table size m ↔
      (ordered table)[m + size - 1].createdAt.us % 1000 = 0 ∧ WholeFrom table size (m + size) := by
  have hshift : ∀ k, m + (k + 1 + 1) * size = m + size + (k + 1) * size := by
    intro k
    rw [Nat.add_mul (k + 1)]
    omega
  constructor
  · intro h
    constructor
    · apply h 0
      · rwa [Nat.zero_add,Nat.one_mul]
      · rw [Nat.zero_add,Nat.one_mul]
        exact List.getElem?_eq_getElem hi
    · intro k row hlt hrow
      rw [← hshift] at hlt hrow
      exact h (k + 1) row hlt hrow
  · rintro ⟨hfirst,hrest⟩ k row hlt hrow
    cases k with
    | zero =>
        rw [Nat.zero_add,Nat.one_mul,List.getElem?_eq_getElem hi] at hrow
        rw [← Option.some.inj hrow]
        exact hfirst
    | succ k =>
        rw [hshift] at hlt hrow
        exact hrest k row hlt hrow

theorem ended_cons {page : CursorPaginationResult} {pages : List CursorPaginationResult}
    (h : Ended pages) : Ended (page :: pages) := by
  rcases h with ⟨last,hlast,hnone⟩
  refine ⟨last,?_,hnone⟩
  rw [List.getLast?_cons,hlast]
  rfl

/-- When the pages end in whole milliseconds, each one goes on where the last one stopped. -/
theorem traverse_whole (hlimit : limitParameter limit = some (size : ℤ)) (hsize : 0 < size)
    (requests : ℕ) : ∀ {k m : ℕ} {cursor : Option String}, StandsAt server table cursor m →
    (ordered table).length - m < requests → WholeFrom table size m →
    ∃ pages, traverse CursorPaginationResult.nextCursor
        (fun _ cursor => findAllWithCursor server table cursor limit) requests k cursor =
          .ok pages ∧
      Ended pages ∧ emittedLines pages = ((ordered table).drop m).map (line server table) := by
  induction requests with
  | zero =>
      intro k m cursor _ hlt
      omega
  | succ requests ih =>
      intro k m cursor hat hlt hwhole
      rcases findAllWithCursor_spec hat hlimit hsize with ⟨page,hpage,hitems,hlast,hnext⟩
      rcases Nat.lt_or_ge (m + size) (ordered table).length with hmore | hdone
      · have hi : m + size - 1 < (ordered table).length := by omega
        rcases hnext hi hmore with ⟨next,hcursor,hencode⟩
        rw [wholeFrom_iff hmore hi] at hwhole
        have hat' := standsAt_row hi hencode
        rw [if_pos hwhole.1,Nat.sub_add_cancel (by omega)] at hat'
        rcases ih hat' (by omega) hwhole.2 with ⟨pages,hpages,hended,hall⟩
        refine ⟨page :: pages,traverse_next hpage hcursor hpages,ended_cons hended,?_⟩
        rw [emittedLines_cons,hitems,hall,← List.map_append,← List.drop_drop,List.take_append_drop]
      · have hnone := hlast hdone
        refine ⟨[page],traverse_last hpage hnone requests,⟨page,rfl,hnone⟩,?_⟩
        rw [emittedLines_singleton,hitems,List.take_of_length_le]
        rw [List.length_drop]
        omega

theorem ended_tail {page : CursorPaginationResult} {pages : List CursorPaginationResult}
    {next : String} (h : Ended (page :: pages)) (hnext : page.nextCursor = some next) :
    Ended pages := by
  rcases h with ⟨last,hlast,hnone⟩
  cases pages with
  | nil =>
      rw [List.getLast?_singleton] at hlast
      rw [Option.some.inj hlast,hnone] at hnext
      cases hnext
  | cons page' pages =>
      rw [List.getLast?_cons_cons] at hlast
      exact ⟨last,hlast,hnone⟩

/-- Wherever it stands, a traversal that goes on emits the row there. -/
theorem line_mem_emitted (hlimit : limitParameter limit = some (size : ℤ)) (hsize : 0 < size)
    {requests k j : ℕ} {cursor : Option String} {pages : List CursorPaginationResult}
    (hat : StandsAt server table cursor j) (hj : j < (ordered table).length)
    (hpages : traverse CursorPaginationResult.nextCursor
      (fun _ cursor => findAllWithCursor server table cursor limit) requests k cursor = .ok pages)
    (hended : Ended pages) : line server table (ordered table)[j] ∈ emittedLines pages := by
  cases requests with
  | zero =>
      rcases hended with ⟨last,hlast,-⟩
      rw [← Except.ok.inj hpages] at hlast
      cases hlast
  | succ requests =>
      rcases findAllWithCursor_spec hat hlimit hsize with ⟨page,hpage,hitems,-,-⟩
      have hmem : line server table (ordered table)[j] ∈ page.items := by
        rw [hitems]
        apply List.mem_map_of_mem
        rw [List.drop_eq_getElem_cons hj]
        cases size with
        | zero => cases hsize
        | succ size => exact List.mem_cons_self
      rcases traverse_cases hpages with ⟨page',hpage',hcases⟩
      rw [Except.ok.inj (hpage.symm.trans hpage')] at hmem
      rcases hcases with ⟨-,rfl⟩ | ⟨next,rest,-,-,rfl⟩
      · exact List.mem_flatMap.mpr ⟨page',List.mem_cons_self,hmem⟩
      · exact List.mem_flatMap.mpr ⟨page',List.mem_cons_self,hmem⟩

/-- A page that ends within a millisecond brings a row for the second time. -/
theorem whole_of_nodup (hlimit : limitParameter limit = some (size : ℤ)) (hsize : 0 < size)
    (requests : ℕ) : ∀ {k m : ℕ} {cursor : Option String} {pages : List CursorPaginationResult},
    StandsAt server table cursor m →
    traverse CursorPaginationResult.nextCursor
      (fun _ cursor => findAllWithCursor server table cursor limit) requests k cursor = .ok pages →
    Ended pages →
    (((ordered table).take m).map (line server table) ++ emittedLines pages).Nodup →
    WholeFrom table size m := by
  induction requests with
  | zero =>
      intro k m cursor pages _ hpages hended
      rcases hended with ⟨last,hlast,-⟩
      rw [← Except.ok.inj hpages] at hlast
      cases hlast
  | succ requests ih =>
      intro k m cursor pages hat hpages hended hnodup
      rcases findAllWithCursor_spec hat hlimit hsize with ⟨page,hpage,hitems,hlast,hnext⟩
      rcases Nat.lt_or_ge (m + size) (ordered table).length with hmore | hdone
      · have hi : m + size - 1 < (ordered table).length := by omega
        rcases hnext hi hmore with ⟨next,hcursor,hencode⟩
        rcases traverse_cases hpages with ⟨page',hpage',hcases⟩
        rw [← Except.ok.inj (hpage.symm.trans hpage'),hcursor] at hcases
        rcases hcases with ⟨hnone,-⟩ | ⟨next',rest,hsame,hrest,rfl⟩
        · cases hnone
        · rw [← Option.some.inj hsame] at hrest
          have hended' := ended_tail hended hcursor
          have hemitted : ((ordered table).take m).map (line server table) ++
              emittedLines (page :: rest) =
                ((ordered table).take (m + size)).map (line server table) ++ emittedLines rest := by
            rw [emittedLines_cons,hitems,← List.append_assoc,← List.map_append,List.take_add]
          rw [hemitted] at hnodup
          have hat' := standsAt_row hi hencode
          rw [wholeFrom_iff hmore hi]
          by_cases hwhole : (ordered table)[m + size - 1].createdAt.us % 1000 = 0
          · rw [if_pos hwhole,Nat.sub_add_cancel (by omega)] at hat'
            exact ⟨hwhole,ih hat' hrest hended' hnodup⟩
          · rw [if_neg hwhole] at hat'
            rcases hat' with ⟨j,hj,hat'⟩
            have hagain := line_mem_emitted hlimit hsize hat' (by omega) hrest hended'
            have hbefore : line server table (ordered table)[j] ∈
                ((ordered table).take (m + size)).map (line server table) := by
              apply List.mem_map_of_mem
              exact List.mem_take_iff_getElem.mpr ⟨j,by omega,rfl⟩
            exact absurd rfl ((List.nodup_append.mp hnodup).2.2 _ hbefore _ hagain)
      · exact wholeFrom_end hdone

omit [LinearOrder ι] in
theorem lines_nodup (server : Server ι) (table : Table ι) :
    (table.rows.map (line server table)).Nodup := by
  have hinjective : Function.Injective server.uuidText := by
    intro a b hab
    have hread := congrArg server.readUuid hab
    rw [server.readUuid_uuidText,server.readUuid_uuidText] at hread
    exact Option.some.inj hread
  have hids : ((table.rows.map (line server table)).map CreditLine.id).Nodup := by
    have htexts := table.nodup.map hinjective
    rw [List.map_map] at htexts ⊢
    exact htexts
  exact hids.of_map

theorem not_ended_of_refused (hlimit : limitParameter limit = none) {requests : ℕ}
    {pages : List CursorPaginationResult}
    (hpages : traversal server table limit requests = .ok pages) : ¬ Ended pages := by
  rintro ⟨last,hlast,-⟩
  cases requests with
  | zero =>
      rw [← Except.ok.inj hpages] at hlast
      cases hlast
  | succ requests =>
      rcases traverse_cases hpages with ⟨page,hpage,-⟩
      have hseek : seekParameters server none = some none := rfl
      unfold findAllWithCursor at hpage
      rw [show decodeCursor none = .ok none from rfl] at hpage
      dsimp only at hpage
      rw [hseek,hlimit] at hpage
      cases hpage

theorem emitted_of_small {n : ℤ} (hlimit : limitParameter limit = some n) (hn : n ≤ 0)
    {requests : ℕ} {pages : List CursorPaginationResult}
    (hpages : traversal server table limit requests = .ok pages) : emittedLines pages = [] := by
  cases requests with
  | zero =>
      rw [← Except.ok.inj hpages]
      rfl
  | succ requests =>
      rcases findAllWithCursor_small server table hlimit hn with ⟨page,hpage,hitems,hnone⟩
      have hone : traversal server table limit (requests + 1) = .ok [page] :=
        traverse_last hpage hnone requests
      rw [← Except.ok.inj (hone.symm.trans hpages),emittedLines_singleton,hitems]

theorem whole_of_complete (hlimit : limitParameter limit = some (size : ℤ)) (hsize : 0 < size)
    (h : Complete server table limit) : WholeFrom table size 0 := by
  rcases h with ⟨requests,pages,hpages,hended,hperm⟩
  apply whole_of_nodup hlimit hsize requests standsAt_start hpages hended
  rw [List.take_zero,List.map_nil,List.nil_append]
  exact hperm.nodup_iff.mpr (lines_nodup server table)

theorem complete_of_whole (hlimit : limitParameter limit = some (size : ℤ)) (hsize : 0 < size)
    (h : WholeFrom table size 0) : Complete server table limit := by
  have hstart : StandsAt server table none 0 := standsAt_start
  rcases traverse_whole hlimit hsize ((ordered table).length + 1) hstart (by omega) h with
    ⟨pages,hpages,hended,hall⟩
  refine ⟨_,pages,hpages,hended,?_⟩
  rw [hall,List.drop_zero]
  exact (ordered_perm table).map _

theorem complete_of_empty {n : ℤ} (hlimit : limitParameter limit = some n) (hn : n ≤ 0)
    (hrows : table.rows = []) : Complete server table limit := by
  rcases findAllWithCursor_small server table hlimit hn with ⟨page,hpage,hitems,hnone⟩
  refine ⟨1,[page],traverse_last hpage hnone 0,⟨page,rfl,hnone⟩,?_⟩
  rw [emittedLines_singleton,hitems,hrows,List.map_nil]

/-- The paging is complete exactly when the limit is at least one and every page
but the last ends in a row created on a whole millisecond; an empty table can
also be read with the limits `0` and `-1`. -/
theorem cursor_paging_complete_iff (server : Server ι) (table : Table ι) (limit : Number) :
    Complete server table limit ↔ ∃ n : ℤ, limit = .finite n ∧ n + 1 < 2 ^ 63 ∧
      (table.rows = [] ∧ -1 ≤ n ∨ 1 ≤ n ∧ WholeFrom table n.toNat 0) := by
  constructor
  · intro h
    cases hlimit : limitParameter limit with
    | none =>
        rcases h with ⟨requests,pages,hpages,hended,-⟩
        exact absurd hended (not_ended_of_refused hlimit hpages)
    | some n =>
        rcases limitParameter_eq_some.mp hlimit with ⟨hfinite,hmin,hmax⟩
        refine ⟨n,hfinite,hmax,?_⟩
        rcases lt_or_ge 0 n with hpos | hn
        · have hsize : ((n.toNat : ℕ) : ℤ) = n := Int.toNat_of_nonneg hpos.le
          rw [← hsize] at hlimit
          exact .inr ⟨hpos,whole_of_complete hlimit (by omega) h⟩
        · rcases h with ⟨requests,pages,hpages,-,hperm⟩
          rw [emitted_of_small hlimit hn hpages] at hperm
          exact .inl ⟨List.map_eq_nil_iff.mp hperm.nil_eq.symm,hmin⟩
  · rintro ⟨n,hfinite,hmax,hcases⟩
    rcases lt_or_ge 0 n with hpos | hn
    · have hsize : ((n.toNat : ℕ) : ℤ) = n := Int.toNat_of_nonneg hpos.le
      have hlimit : limitParameter limit = some ((n.toNat : ℕ) : ℤ) := by
        rw [hsize]
        exact limitParameter_eq_some.mpr ⟨hfinite,by omega,hmax⟩
      apply complete_of_whole hlimit (by omega)
      rcases hcases with ⟨hrows,-⟩ | ⟨-,hwhole⟩
      · apply wholeFrom_end
        rw [(ordered_perm table).length_eq,hrows]
        exact Nat.zero_le _
      · exact hwhole
    · rcases hcases with ⟨hrows,hmin⟩ | ⟨hone,-⟩
      · exact complete_of_empty (limitParameter_eq_some.mpr ⟨hfinite,hmin,hmax⟩) hn hrows
      · omega

end Traversal

/-! ## Two lines created within one millisecond -/

/-- The canonical text of a uuid. -/
def isUuidText (text : String) : Bool :=
  text.toList.map (fun c => if isDigit c ∨ c ∈ "abcdef".toList then 'x' else c) =
    "xxxxxxxx-xxxx-xxxx-xxxx-xxxxxxxxxxxx".toList

/-- Ids as their canonical texts, which sort as the bytes do. -/
abbrev UuidText : Type := { text : String // isUuidText text = true }

def textServer : Server UuidText where
  uuidText := Subtype.val
  readUuid text := if h : isUuidText text = true then some ⟨text,h⟩ else none
  refusal := ⟨"error","invalid input syntax for type uuid"⟩
  readUuid_uuidText id := dif_pos id.2
  uuidText_ne := by
    rintro ⟨text,htext⟩ rfl
    revert htext
    decide

def sampleRow (id : UuidText) (us : ℤ) (h : earliest ≤ us ∧ us / 1000 ≤ maxTime)
    (walletAddress : String) : CreditLineRow UuidText :=
  ⟨id,1000,.active,500,1,⟨us,h.1,h.2⟩,⟨us,h.1,h.2⟩,walletAddress⟩

def firstRow : CreditLineRow UuidText :=
  sampleRow ⟨"00000000-0000-4000-8000-000000000001",by decide⟩ 1700000000000500 (by decide) "GA"

def secondRow : CreditLineRow UuidText :=
  sampleRow ⟨"00000000-0000-4000-8000-000000000002",by decide⟩ 1700000000000700 (by decide) "GB"

def sampleTable : Table UuidText := ⟨[firstRow,secondRow],fun _ => 0,by decide⟩

/-- With one line to a page the first line comes again. -/
theorem cursor_repeats_within_a_millisecond : ¬ Complete textServer sampleTable (.finite 1) := by
  intro h
  have hlimit : limitParameter (.finite 1) = some ((1 : ℕ) : ℤ) := by decide
  have hwhole := whole_of_complete hlimit Nat.one_pos h
  have hfirst : firstRow.createdAt.us % 1000 = 0 := hwhole 0 firstRow (by decide) (by decide)
  revert hfirst
  decide

end Creditra.PostgresCursor
