import Creditra.AdminAudit
import Creditra.CursorTraversal
import Creditra.FloatOrder
import Creditra.SortedListings

/-!
# Paging through the admin audit log

`AdminAuditLog.list`: the records that match a query, newest first, in pages. A
cursor is the text of a position in that listing. Between two pages records may
be added; the clock that dates them is not restricted here. An array holds fewer
than 2^32 records, and `push` throws on a full one.
-/
namespace Creditra.AuditPages
open AdminAudit FloatNumbers FloatOrder GuardedRuns JsStrings JsNumbers SortedListings

structure AdminAuditQuery where
  limit : Option Value := none
  cursor : Option String := none
  actor : Option String := none
  action : Option String := none
  targetType : Option String := none

structure AdminAuditPage where
  items : List AdminAuditRecord
  nextCursor : Option String
  hasMore : Bool

def DEFAULT_LIMIT : Value := Value.round 50

def MAX_LIMIT : Value := Value.round 100

/-- `Math.min(Math.max(limit ?? DEFAULT_LIMIT, 1), MAX_LIMIT)`. -/
def clampedLimit (limit : Option Value) : Value :=
  minValue (Value.max (limit.getD DEFAULT_LIMIT) Value.one) MAX_LIMIT

/-- A missing or empty cursor is the start, and so is one that is no positive number. -/
def offsetOf (cursor : Option String) : ℕ :=
  match cursor with
  | none => 0
  | some text =>
      if text = "" then 0
      else match parseIntDecimal text with
        | .finite start => if 0 < start.1 then ⌊start.1⌋.toNat else 0
        | _ => 0

/-- An empty text filters nothing. -/
def passes (filter : Option String) (value : String) : Bool :=
  match filter with
  | none => true
  | some text => text = "" || value = text

def AdminAuditQuery.admits (query : AdminAuditQuery) (record : AdminAuditRecord) : Bool :=
  passes query.actor record.actor && passes query.action record.action &&
    passes query.targetType record.targetType

/-- `array.slice(start, stop)`, for a `stop` that is not negative. -/
def slice {α : Type} (l : List α) (start : ℕ) : Value → List α
  | .finite stop => (l.take ⌊stop.1⌋.toNat).drop start
  | .infinite false => l.drop start
  | _ => []

section Listing
variable (collation : Collation)

/-- The comparison of the sort: `left` may stand before `right`. -/
def noOlder (left right : AdminAuditRecord) : Prop :=
  collation.localeCompare right.createdAt left.createdAt ≤ 0

instance : DecidableRel (noOlder collation) := fun _ _ => inferInstanceAs (Decidable (_ ≤ _))

/-- The records of the array that match, newest first. -/
def matching (query : AdminAuditQuery) (records : List AdminAuditRecord) :
    List AdminAuditRecord :=
  (records.filter query.admits).insertionSort (noOlder collation)

def list (query : AdminAuditQuery) (records : List AdminAuditRecord) : AdminAuditPage :=
  let limit := clampedLimit query.limit
  let offset := offsetOf query.cursor
  let filtered := matching collation query records
  let items := slice filtered offset (Value.add (Value.round offset) limit)
  let nextOffset := offset + items.length
  { items := items
    nextCursor := if nextOffset < filtered.length then some (toString nextOffset) else none
    hasMore := nextOffset < filtered.length }

end Listing

/-! ## Traversals -/

/-- The array of a log. -/
abbrev Log : Type := { records : List AdminAuditRecord // records.length < 2 ^ 32 }

/-- A call of `record`, with the identifiers drawn for it and the reading of the clock. -/
structure RecordCall where
  input : AdminAuditRecordInput
  id : String
  fallbackId : String
  now : ℤ

/-- The record of a call, unless the call throws. -/
def RecordCall.entry (call : RecordCall) (platform : Platform) (log : Log) :
    Option AdminAuditRecord :=
  if log.1.length + 1 < 2 ^ 32 then
    newRecord platform log.1 call.input call.id call.fallbackId call.now
  else none

/-- The log and the pages that have been returned. -/
structure Traversal where
  log : Log
  pages : List AdminAuditPage

inductive Op where
  | record (call : RecordCall)
  | next

def Op.isNext : Op → Bool
  | .record _ => false
  | .next => true

namespace Traversal

def returned (t : Traversal) : List AdminAuditRecord := t.pages.flatMap AdminAuditPage.items

/-- The cursor of the last page. -/
def cursor (t : Traversal) : Option String := t.pages.getLast?.bind AdminAuditPage.nextCursor

/-- The last page has no next one. -/
def ended (t : Traversal) : Bool := t.pages.getLast?.any fun page => page.nextCursor.isNone

end Traversal

section Steps
variable (platform : Platform) (collation : Collation) (query : AdminAuditQuery)

/-- The log after a call. -/
def recorded (log : Log) (call : RecordCall) : Log :=
  match h : call.entry platform log with
  | none => log
  | some entry =>
      ⟨log.1 ++ [entry],by
        unfold RecordCall.entry at h
        rw [List.length_append,List.length_singleton]
        by_contra hfull
        rw [if_neg hfull] at h
        cases h⟩

/-- Pages are asked for until one has no next one. -/
def step (t : Traversal) : Op → Traversal
  | .record call => { t with log := recorded platform t.log call }
  | .next =>
      if t.ended then t
      else { t with
        pages := t.pages ++ [list collation { query with cursor := t.cursor } t.log.1] }

/-- A record that matches and is made before the last page is no newer than any
record that has been returned. -/
def Calm (t : Traversal) : Op → Prop
  | .record call =>
      ∀ entry, call.entry platform t.log = some entry → query.admits entry = true →
        t.ended = false → ∀ returned ∈ t.returned, noOlder collation returned entry
  | .next => True

end Steps

/-! ## One page -/

theorem clampedLimit_spec (limit : Option Value) :
    (limit = some .nan ∧ clampedLimit limit = .nan) ∨
      ∃ x : Double, clampedLimit limit = .finite x ∧ 1 ≤ x.1 ∧ x.1 ≤ 100 := by
  obtain ⟨top,htop,htopValue⟩ := round_natCast (n := 100) (by decide)
  have hmax : MAX_LIMIT = .finite top := htop
  have hmin : ∀ x : Double, 1 ≤ x.1 → ∃ y : Double,
      minValue (.finite x) MAX_LIMIT = .finite y ∧ 1 ≤ y.1 ∧ y.1 ≤ 100 := by
    intro x hx
    rw [hmax]
    by_cases hle : x.1 ≤ top.1
    · exact ⟨x,by simp [minValue,Value.le,hle],hx,hle.trans_eq (by rw [htopValue]; norm_num)⟩
    · refine ⟨top,by simp [minValue,Value.le,hle],?_,?_⟩
      · rw [htopValue]
        norm_num
      · rw [htopValue]
        norm_num
  have hfinite : ∀ x : Double, ∃ y : Double,
      minValue (Value.max (.finite x) Value.one) MAX_LIMIT = .finite y ∧ 1 ≤ y.1 ∧ y.1 ≤ 100 := by
    intro x
    by_cases hle : x.1 ≤ 1
    · rw [show Value.max (.finite x) Value.one = Value.one by
        simp [Value.max,Value.one,Value.le,hle]]
      exact hmin _ (le_refl 1)
    · rw [show Value.max (.finite x) Value.one = .finite x by
        simp [Value.max,Value.one,Value.le,hle]]
      exact hmin x (not_le.mp hle).le
  obtain ⟨fifty,hfifty,-⟩ := round_natCast (n := 50) (by decide)
  unfold clampedLimit
  cases limit with
  | none =>
      rw [Option.getD_none,show DEFAULT_LIMIT = .finite fifty from hfifty]
      exact .inr (hfinite fifty)
  | some v =>
      rw [Option.getD_some]
      cases v with
      | finite x => exact .inr (hfinite x)
      | nan => exact .inl ⟨rfl,rfl⟩
      | infinite negative =>
          cases negative with
          | true => exact .inr (hmin _ (le_refl 1))
          | false =>
              refine .inr ⟨top,?_,?_,?_⟩
              · rw [hmax]
                rfl
              · rw [htopValue]
                norm_num
              · rw [htopValue]
                norm_num

/-- A page from a position takes what follows it, at least one record unless the
limit is not a number. -/
theorem slice_spec (limit : Option Value) {α : Type} (l : List α) {p : ℕ} (hp : p < 2 ^ 32) :
    ∃ m, p ≤ m ∧ (limit ≠ some .nan → p < m) ∧
      slice l p (Value.add (Value.round p) (clampedLimit limit)) = (l.take m).drop p := by
  obtain ⟨start,hstart,hstartValue⟩ := round_natCast (n := p) (by omega)
  rcases clampedLimit_spec limit with ⟨hnan,hclamped⟩ | ⟨x,hclamped,hlow,hhigh⟩
  · refine ⟨p,le_refl p,fun hne => absurd hnan hne,?_⟩
    rw [hstart,hclamped,List.drop_eq_nil_of_le (List.length_take_le p l)]
    rfl
  · obtain ⟨low,-,hlowValue⟩ := round_natCast (n := p + 1) (by omega)
    obtain ⟨high,-,hhighValue⟩ := round_natCast (n := p + 100) (by omega)
    push_cast at hlowValue hhighValue
    have hnonneg : 0 ≤ low.1 := by
      rw [hlowValue]
      positivity
    obtain ⟨stop,hstop,hstopLow,-⟩ : ∃ z, Value.round (start.1 + x.1) = .finite z ∧
        low.1 ≤ z.1 ∧ z.1 ≤ high.1 := by
      apply exists_round_between hnonneg
      · rw [hlowValue,hstartValue]
        linarith
      · rw [hhighValue,hstartValue]
        linarith
    have hfloor : p + 1 ≤ ⌊stop.1⌋.toNat := by
      have hint : ((p + 1 : ℕ) : ℤ) ≤ ⌊stop.1⌋ := by
        rw [Int.le_floor]
        push_cast
        rw [hlowValue] at hstopLow
        exact hstopLow
      omega
    refine ⟨⌊stop.1⌋.toNat,by omega,fun _ => hfloor,?_⟩
    rw [hstart,hclamped]
    change slice l p (Value.round (start.1 + x.1)) = _
    rw [hstop,slice]

theorem offsetOf_toString {n : ℕ} (hn : n < 2 ^ 32) : offsetOf (some (toString n)) = n := by
  have hne : toString n ≠ "" := by
    rw [Nat.toString_eq_ofList_toDigits]
    intro hempty
    have hnil := congrArg String.toList hempty
    rw [String.toList_ofList] at hnil
    exact Nat.toDigits_ne_nil hnil
  obtain ⟨x,hx,hvalue⟩ := round_natCast (n := n) (by omega)
  have hparse : parseIntDecimal (toString n) = .finite x := by
    rw [parseIntDecimal,decimalText_toString,wholeValue,Int.cast_natCast,hx]
  simp only [offsetOf,if_neg hne,hparse,hvalue]
  split_ifs with hpos
  · rw [Int.floor_natCast,Int.toNat_natCast]
  · have hzero : (n : ℚ) ≤ 0 := not_lt.mp hpos
    exact_mod_cast (le_antisymm hzero (Nat.cast_nonneg n)).symm

section Order
variable (collation : Collation)

theorem noOlder_total (a b : AdminAuditRecord) : noOlder collation a b ∨ noOlder collation b a := by
  unfold noOlder
  by_cases h : collation.localeCompare b.createdAt a.createdAt ≤ 0
  · exact .inl h
  · exact .inr (collation.neg_iff.mpr (not_le.mp h)).le

theorem noOlder_trans {a b c : AdminAuditRecord} (hab : noOlder collation a b)
    (hbc : noOlder collation b c) : noOlder collation a c := by
  unfold noOlder at hab hbc ⊢
  rcases lt_or_eq_of_le hab with hab | hab
  · rcases lt_or_eq_of_le hbc with hbc | hbc
    · exact (collation.trans hbc hab).le
    · rw [collation.eq_of_zero hbc]
      exact hab.le
  · rw [← collation.eq_of_zero hab]
    exact hbc

/-- A record that matches goes behind all records that are no older. -/
theorem matching_append (query : AdminAuditQuery) (records : List AdminAuditRecord)
    (entry : AdminAuditRecord) :
    matching collation query (records ++ [entry]) =
      if query.admits entry then
        insertAfter (noOlder collation) entry (matching collation query records)
      else matching collation query records := by
  unfold matching
  rw [List.filter_append]
  split_ifs with hentry
  · rw [List.filter_cons_of_pos hentry,List.filter_nil,
      insertionSort_append_singleton (noOlder_total collation) (noOlder_trans collation)]
  · rw [List.filter_cons_of_neg hentry,List.filter_nil,List.append_nil]

theorem matching_perm (query : AdminAuditQuery) (records : List AdminAuditRecord) :
    (matching collation query records).Perm (records.filter query.admits) :=
  List.perm_insertionSort _ _

theorem length_matching_lt (query : AdminAuditQuery) (log : Log) :
    (matching collation query log.1).length < 2 ^ 32 := by
  rw [(matching_perm collation query log.1).length_eq]
  exact (List.length_filter_le _ _).trans_lt log.2

end Order

/-! ## Whole traversals -/

section Runs
variable {platform : Platform} {collation : Collation} {query : AdminAuditQuery}

/-- What has been returned is an initial segment of the listing, up to the cursor. -/
structure Reading (collation : Collation) (query : AdminAuditQuery) (t : Traversal) : Prop where
  position : offsetOf t.cursor ≤ (matching collation query t.log.1).length
  returned : t.returned = (matching collation query t.log.1).take (offsetOf t.cursor)
  paced : query.limit ≠ some .nan → t.pages.length ≤ offsetOf t.cursor

/-- What holds all along a traversal that began with the records `start`. -/
structure Sound (collation : Collation) (query : AdminAuditQuery)
    (start : List AdminAuditRecord) (t : Traversal) : Prop where
  grown : (start.filter query.admits).Sublist (t.log.1.filter query.admits)
  reading : t.ended = false → Reading collation query t
  once : t.returned.Subperm (t.log.1.filter query.admits)
  complete : t.ended = true → (start.filter query.admits).Subperm t.returned
  bounded : query.limit ≠ some .nan →
    t.pages.length ≤ (t.log.1.filter query.admits).length + 1

theorem sound_start (log : Log) : Sound collation query log.1 ⟨log,[]⟩ where
  grown := List.Sublist.refl _
  reading _ := ⟨Nat.zero_le _,rfl,fun _ => Nat.zero_le _⟩
  once := List.nil_subperm
  complete h := absurd h Bool.false_ne_true
  bounded _ := Nat.zero_le _

/-- The calls that add a record, and those that throw. -/
theorem recorded_cases (platform : Platform) (log : Log) (call : RecordCall) :
    (recorded platform log call = log ∧ call.entry platform log = none) ∨
      ∃ entry, call.entry platform log = some entry ∧
        (recorded platform log call).1 = log.1 ++ [entry] := by
  unfold recorded
  split
  · rename_i h
    exact .inl ⟨rfl,h⟩
  · rename_i entry h
    exact .inr ⟨entry,h,rfl⟩

theorem reading_record {t : Traversal} {log' : Log} {entry : AdminAuditRecord}
    (h : Reading collation query t) (hlog : log'.1 = t.log.1 ++ [entry])
    (hcalm : query.admits entry = true → ∀ y ∈ t.returned, noOlder collation y entry) :
    Reading collation query { t with log := log' } := by
  have hmatching := matching_append collation query t.log.1 entry
  rw [← hlog] at hmatching
  by_cases hentry : query.admits entry = true
  · rw [if_pos hentry] at hmatching
    refine ⟨?_,?_,h.paced⟩
    · change offsetOf t.cursor ≤ (matching collation query log'.1).length
      rw [hmatching,length_insertAfter]
      exact h.position.trans (Nat.le_succ _)
    · change t.returned = (matching collation query log'.1).take (offsetOf t.cursor)
      have hkept := hcalm hentry
      rw [h.returned] at hkept
      rw [hmatching,take_insertAfter h.position hkept,h.returned]
  · rw [if_neg hentry] at hmatching
    refine ⟨?_,?_,h.paced⟩
    · change offsetOf t.cursor ≤ (matching collation query log'.1).length
      rw [hmatching]
      exact h.position
    · change t.returned = (matching collation query log'.1).take (offsetOf t.cursor)
      rw [hmatching,h.returned]

theorem sound_record {start : List AdminAuditRecord} {t : Traversal} {call : RecordCall}
    (h : Sound collation query start t) (hcalm : Calm platform collation query t (.record call)) :
    Sound collation query start (step platform collation query t (.record call)) := by
  rcases recorded_cases platform t.log call with ⟨hsame,-⟩ | ⟨entry,hentry,hlog⟩
  · have hstep : step platform collation query t (.record call) = t := by rw [step,hsame]
    rw [hstep]
    exact h
  · have hsublist : (t.log.1.filter query.admits).Sublist
        ((recorded platform t.log call).1.filter query.admits) := by
      rw [hlog]
      exact (List.sublist_append_left _ _).filter _
    exact {
      grown := h.grown.trans hsublist
      reading := fun hopen => reading_record (h.reading hopen) hlog fun hadmits =>
        hcalm entry hentry hadmits hopen
      once := h.once.trans hsublist.subperm
      complete := h.complete
      bounded := fun hlimit => (h.bounded hlimit).trans
        (Nat.succ_le_succ hsublist.length_le) }

/-- The page after what has been read: it ends at some position `m`, and it has a
next one exactly if the listing goes on there. -/
theorem list_spec {t : Traversal} (h : Reading collation query t) :
    ∃ m, offsetOf t.cursor ≤ m ∧ (query.limit ≠ some .nan → offsetOf t.cursor < m) ∧
      let page := list collation { query with cursor := t.cursor } t.log.1
      t.returned ++ page.items = (matching collation query t.log.1).take m ∧
      page.nextCursor =
        if m < (matching collation query t.log.1).length then some (toString m) else none := by
  have hlength := length_matching_lt collation query t.log
  obtain ⟨m,hle,hlt,hslice⟩ := slice_spec query.limit (matching collation query t.log.1)
    (h.position.trans_lt hlength)
  refine ⟨m,hle,hlt,?_,?_⟩
  · have hitems : (list collation { query with cursor := t.cursor } t.log.1).items =
        ((matching collation query t.log.1).take m).drop (offsetOf t.cursor) := hslice
    have hsplit := List.take_append_drop (offsetOf t.cursor)
      ((matching collation query t.log.1).take m)
    rw [List.take_take,Nat.min_eq_left hle] at hsplit
    rw [hitems,h.returned,hsplit]
  · have hnext : (list collation { query with cursor := t.cursor } t.log.1).nextCursor =
        if offsetOf t.cursor + (slice (matching collation query t.log.1) (offsetOf t.cursor)
            (Value.add (Value.round (offsetOf t.cursor)) (clampedLimit query.limit))).length <
          (matching collation query t.log.1).length
        then some (toString (offsetOf t.cursor + (slice (matching collation query t.log.1)
          (offsetOf t.cursor)
            (Value.add (Value.round (offsetOf t.cursor)) (clampedLimit query.limit))).length))
        else none := rfl
    have hend : offsetOf t.cursor + (((matching collation query t.log.1).take m).drop
        (offsetOf t.cursor)).length = min m (matching collation query t.log.1).length := by
      have hposition := h.position
      rw [List.length_drop,List.length_take]
      omega
    rw [hnext,hslice,hend]
    by_cases hmore : m < (matching collation query t.log.1).length
    · rw [Nat.min_eq_left hmore.le]
    · rw [Nat.min_eq_right (not_lt.mp hmore),if_neg hmore,if_neg (lt_irrefl _)]

/-- One more page has been read. -/
def Traversal.turned (t : Traversal) (page : AdminAuditPage) : Traversal :=
  { t with pages := t.pages ++ [page] }

theorem returned_turned (t : Traversal) (page : AdminAuditPage) :
    (t.turned page).returned = t.returned ++ page.items := by
  rw [Traversal.turned,Traversal.returned,List.flatMap_append,List.flatMap_singleton]
  rfl

theorem cursor_turned (t : Traversal) (page : AdminAuditPage) :
    (t.turned page).cursor = page.nextCursor := by
  simp [Traversal.turned,Traversal.cursor]

theorem ended_turned (t : Traversal) (page : AdminAuditPage) :
    (t.turned page).ended = page.nextCursor.isNone := by
  simp [Traversal.turned,Traversal.ended]

theorem length_turned (t : Traversal) (page : AdminAuditPage) :
    (t.turned page).pages.length = t.pages.length + 1 :=
  List.length_append

theorem sound_next {start : List AdminAuditRecord} {t : Traversal}
    (h : Sound collation query start t) :
    Sound collation query start (step platform collation query t .next) := by
  cases hended : t.ended with
  | true =>
      rw [step,if_pos hended]
      exact h
  | false =>
      have hreading := h.reading hended
      obtain ⟨m,hle,hlt,hreturned,hnext⟩ := list_spec hreading
      rw [step,if_neg (by rw [hended]; exact Bool.false_ne_true)]
      generalize list collation { query with cursor := t.cursor } t.log.1 = page at *
      change Sound collation query start (t.turned page)
      have hperm := matching_perm collation query t.log.1
      have hall : (t.turned page).returned = (matching collation query t.log.1).take m :=
        (returned_turned t page).trans hreturned
      refine ⟨h.grown,?_,?_,?_,?_⟩
      · intro hopen
        rw [ended_turned,hnext] at hopen
        have hmore : m < (matching collation query t.log.1).length := by
          by_contra hmore
          rw [if_neg hmore] at hopen
          exact Bool.false_ne_true hopen.symm
        have hoffset : offsetOf (t.turned page).cursor = m := by
          rw [cursor_turned,hnext,if_pos hmore,
            offsetOf_toString (hmore.trans (length_matching_lt collation query t.log))]
        refine ⟨?_,?_,?_⟩
        · rw [hoffset]
          exact hmore.le
        · rw [hoffset,hall]
          rfl
        · intro hlimit
          have hpaced := hreading.paced hlimit
          have hstrict := hlt hlimit
          rw [hoffset,length_turned]
          omega
      · rw [hall]
        exact ((List.take_sublist _ _).subperm).trans hperm.subperm
      · intro hclosed
        rw [ended_turned,hnext] at hclosed
        have hlast : (matching collation query t.log.1).length ≤ m := by
          by_contra hmore
          rw [if_pos (not_le.mp hmore)] at hclosed
          exact Bool.false_ne_true hclosed
        rw [hall,List.take_of_length_le hlast]
        exact h.grown.subperm.trans hperm.symm.subperm
      · intro hlimit
        have hpaced := hreading.paced hlimit
        have hposition := hreading.position
        rw [hperm.length_eq] at hposition
        rw [length_turned]
        change t.pages.length + 1 ≤ (t.log.1.filter query.admits).length + 1
        omega

theorem sound_step {start : List AdminAuditRecord} (t : Traversal) (op : Op)
    (h : Sound collation query start t) (hcalm : Calm platform collation query t op) :
    Sound collation query start (step platform collation query t op) := by
  cases op with
  | record call => exact sound_record h hcalm
  | next => exact sound_next h

/-- As long as there is a next page, every request has brought one. -/
theorem pages_of_not_ended (ops : List Op) (t : Traversal)
    (h : (run (step platform collation query) t ops).ended = false) :
    (run (step platform collation query) t ops).pages.length =
      t.pages.length + ops.countP Op.isNext := by
  have hstays : ∀ (s : Traversal) (op : Op), s.ended = true →
      (step platform collation query s op).ended = true := by
    intro s op hs
    cases op with
    | record call => exact hs
    | next =>
        rw [step,if_pos hs]
        exact hs
  induction ops generalizing t with
  | nil => rfl
  | cons op ops ih =>
      rw [run_cons] at h ⊢
      rw [ih _ h]
      cases op with
      | record call => rw [List.countP_cons_of_neg (by simp [Op.isNext]),step]
      | next =>
          have hopen : t.ended = false := by
            by_contra hended
            rw [run_induction hstays (hstays t .next (Bool.not_eq_false _ ▸ hended)) ops] at h
            exact Bool.false_ne_true h.symm
          rw [List.countP_cons_of_pos rfl,step,if_neg (by rw [hopen]; exact Bool.false_ne_true),
            List.length_append,List.length_singleton]
          omega

end Runs

/-- As long as no record that matches and is newer than a returned one is made
between the pages, no record is returned twice, the last page completes the records
that matched at the start, and there is a last page. -/
theorem audit_paging_stable_of_calm (platform : Platform) (collation : Collation)
    (query : AdminAuditQuery) (hlimit : query.limit ≠ some .nan) (log : Log) (ops : List Op)
    (h : Guarded (step platform collation query) (Calm platform collation query) ⟨log,[]⟩ ops) :
    let t := run (step platform collation query) ⟨log,[]⟩ ops
    t.returned.Subperm (t.log.1.filter query.admits) ∧
      (t.ended = true → (log.1.filter query.admits).Subperm t.returned) ∧
      ((t.log.1.filter query.admits).length < ops.countP Op.isNext → t.ended = true) := by
  have hsound := run_invariant sound_step (sound_start log) h
  refine ⟨hsound.once,hsound.complete,?_⟩
  intro hmany
  by_contra hopen
  have hopen' := Bool.not_eq_true _ ▸ hopen
  have hpages := pages_of_not_ended ops ⟨log,[]⟩ hopen'
  have hreading := hsound.reading hopen'
  have hpaced := hreading.paced hlimit
  have hposition := hreading.position
  rw [(matching_perm collation query _).length_eq] at hposition
  rw [hpages,List.length_nil] at hpaced
  omega

/-! ## A log of two records -/

def samplePlatform : Platform := ⟨fun _ _ => 0,fun _ => []⟩

/-- A change to a credit line, by its actor and the reading of the clock. -/
def change (actor id : String) (now : ℤ) : RecordCall where
  input := ⟨actor,"credit_line.updated",⟨"credit_line",none⟩,none,none,some "corr"⟩
  id := id
  fallbackId := "unused"
  now := now

def twoRecords : Log :=
  recorded samplePlatform (recorded samplePlatform ⟨[],by decide⟩ (change "alice" "a" 0))
    (change "alice" "b" 1)

/-- One record a page. -/
def onePerPage (actor : Option String) : AdminAuditQuery :=
  { limit := some Value.one, actor := actor }

theorem admits_entry {call : RecordCall} {platform : Platform} {log : Log}
    {entry : AdminAuditRecord} (h : call.entry platform log = some entry) {query : AdminAuditQuery}
    (hadmits : query.admits entry = true) : passes query.actor call.input.actor = true := by
  unfold RecordCall.entry newRecord at h
  split_ifs at h
  obtain ⟨createdAt,-,rfl⟩ := Option.map_eq_some_iff.mp h
  unfold AdminAuditQuery.admits at hadmits
  simp only [Bool.and_eq_true] at hadmits
  exact hadmits.1.1

/-- A newer record of another actor does not disturb the pages of one actor. -/
theorem audit_paging_stable_of_calm_other_actor :
    let t := run (step samplePlatform CursorTraversal.ordinal (onePerPage (some "alice")))
      ⟨twoRecords,[]⟩ [.next,.record (change "bob" "c" 2),.next,.next]
    t.returned.Subperm (t.log.1.filter (onePerPage (some "alice")).admits) ∧
      (t.ended = true →
        (twoRecords.1.filter (onePerPage (some "alice")).admits).Subperm t.returned) ∧
      ((t.log.1.filter (onePerPage (some "alice")).admits).length < 3 → t.ended = true) := by
  refine audit_paging_stable_of_calm samplePlatform CursorTraversal.ordinal
    (onePerPage (some "alice")) (by decide) twoRecords
    [.next,.record (change "bob" "c" 2),.next,.next] ⟨trivial,?_,trivial,trivial,trivial⟩
  intro entry hentry hadmits
  exact absurd (admits_entry hentry hadmits) (by decide)

/-- A newer record moves the one that was returned to the next page. -/
theorem audit_paging_repeats :
    let t := run (step samplePlatform CursorTraversal.ordinal (onePerPage none))
      ⟨twoRecords,[]⟩ [.next,.record (change "alice" "c" 2),.next,.next]
    t.ended = true ∧ ¬ t.returned.Subperm (t.log.1.filter (onePerPage none).admits) := by
  intro t
  have hended : t.ended = true := by decide +kernel
  have hreturned : t.returned.map (·.id) = ["b","b","a"] := by decide +kernel
  have hlog : (t.log.1.filter (onePerPage none).admits).map (·.id) = ["a","b","c"] := by
    decide +kernel
  refine ⟨hended,fun hsub => ?_⟩
  obtain ⟨kept,hperm,hsublist⟩ := hsub
  have hids : (t.returned.map (·.id)).Subperm
      ((t.log.1.filter (onePerPage none).admits).map (·.id)) :=
    ⟨kept.map (·.id),hperm.map _,hsublist.map _⟩
  rw [hreturned,hlog] at hids
  exact absurd hids (by decide)

end Creditra.AuditPages
