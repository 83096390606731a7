import Creditra.CursorPagination
import Creditra.SortedListings
import Mathlib.Data.List.Sort
import Mathlib.Data.String.Basic
import Mathlib.Tactic.Linarith

/-!
# Following the cursors of `paginateArray`

A client asks for the first page without a cursor and for each further page
with the `nextCursor` of the page before, until there is none. The collection
may be another one at every request.
-/
namespace Creditra.CursorTraversal
open CursorPagination JsNumbers JsStrings SortedListings StellarDiagnostics

section Keys
variable (collation : Collation) (order : CursorSortOrder)

/-- The first key stands before the second in the order. -/
def keyBefore (a b : CursorKey) : Prop := compareCursorKeys collation order a b < 0

instance : DecidableRel (keyBefore collation order) :=
  fun a b => inferInstanceAs (Decidable (compareCursorKeys collation order a b < 0))

def timeBefore : CursorSortOrder → Double → Double → Prop
  | .asc, s, t => s.1 < t.1
  | .desc, s, t => t.1 < s.1

theorem timeBefore_irrefl (s : Double) : ¬ timeBefore order s s := by
  cases order <;> exact lt_irrefl _

theorem timeBefore_trans {s t u : Double} (hst : timeBefore order s t)
    (htu : timeBefore order t u) : timeBefore order s u := by
  cases order with
  | asc => exact lt_trans hst htu
  | desc => exact lt_trans htu hst

theorem timeBefore_trichotomy (s t : Double) :
    timeBefore order s t ∨ s = t ∨ timeBefore order t s := by
  have h := lt_trichotomy s.1 t.1
  rw [← Subtype.ext_iff] at h
  cases order with
  | asc => exact h
  | desc => tauto

variable {a b c : CursorKey}

theorem keyBefore_iff : keyBefore collation order a b ↔
    timeBefore order a.t b.t ∨ a.t = b.t ∧ collation.localeCompare a.i b.i < 0 := by
  by_cases ht : a.t = b.t
  · have hirrefl := timeBefore_irrefl order b.t
    cases order <;>
      simp [keyBefore,compareCursorKeys,compareCursorKeysAsc,compareCursorKeysDesc,ht,hirrefl]
  · cases order <;>
      simp [keyBefore,compareCursorKeys,compareCursorKeysAsc,compareCursorKeysDesc,ht,timeBefore]

theorem isAfterCursor_iff :
    isAfterCursor collation a b order = true ↔ keyBefore collation order b a := by
  have hneg := collation.neg_iff (a := b.i) (b := a.i)
  rw [keyBefore_iff,hneg]
  by_cases ht : a.t = b.t
  · have hirrefl := timeBefore_irrefl order b.t
    cases order <;> simp [isAfterCursor,compareCursorKeysAsc,ht,hirrefl]
  · have ht' : b.t ≠ a.t := fun h => ht h.symm
    cases order <;> simp [isAfterCursor,compareCursorKeysAsc,ht,ht',timeBefore]

theorem keyBefore_irrefl (a : CursorKey) : ¬ keyBefore collation order a a := by
  rw [keyBefore_iff,collation.localeCompare_self]
  rintro (h | ⟨-,h⟩)
  · exact timeBefore_irrefl order a.t h
  · exact lt_irrefl _ h

theorem keyBefore_trans (hab : keyBefore collation order a b)
    (hbc : keyBefore collation order b c) : keyBefore collation order a c := by
  rw [keyBefore_iff] at hab hbc ⊢
  rcases hab with hab | ⟨hab,hid⟩
  · rcases hbc with hbc | ⟨hbc,-⟩
    · exact .inl (timeBefore_trans order hab hbc)
    · exact .inl (hbc ▸ hab)
  · rcases hbc with hbc | ⟨hbc,hid'⟩
    · exact .inl (hab ▸ hbc)
    · exact .inr ⟨hab.trans hbc,collation.trans hid hid'⟩

theorem keyBefore_trichotomy (a b : CursorKey) :
    keyBefore collation order a b ∨ a = b ∨ keyBefore collation order b a := by
  rw [keyBefore_iff,keyBefore_iff]
  rcases timeBefore_trichotomy order a.t b.t with ht | ht | ht
  · exact .inl (.inl ht)
  · rcases lt_trichotomy (collation.localeCompare a.i b.i) 0 with hi | hi | hi
    · exact .inl (.inr ⟨ht,hi⟩)
    · have hid := collation.eq_of_zero hi
      refine .inr (.inl ?_)
      cases a
      cases b
      simp_all
    · exact .inr (.inr (.inr ⟨ht.symm,collation.neg_iff.mpr hi⟩))
  · exact .inr (.inr (.inl ht))

theorem keyBefore_order : ListingOrder (keyBefore collation order) where
  irrefl := keyBefore_irrefl collation order
  trans := keyBefore_trans collation order
  behind := by
    intro a b x hba hbx
    rcases keyBefore_trichotomy collation order a b with h | rfl | h
    · exact keyBefore_trans collation order h hbx
    · exact hbx
    · exact absurd h hba

theorem eq_of_compareCursorKeys (h : compareCursorKeys collation order a b = 0) : a = b := by
  have hboth : a.t = b.t ∧ collation.localeCompare a.i b.i = 0 := by
    by_cases ht : a.t = b.t
    · cases order <;>
        simpa [compareCursorKeys,compareCursorKeysAsc,compareCursorKeysDesc,ht] using h
    · have hvalue : a.t.1 ≠ b.t.1 := fun h => ht (Subtype.ext h)
      exfalso
      apply hvalue
      cases order <;>
        simp [compareCursorKeys,compareCursorKeysAsc,compareCursorKeysDesc,ht] at h <;> linarith
  have hi := collation.eq_of_zero hboth.2
  cases a
  cases b
  simp_all

theorem compareCursorKeys_nonpos : compareCursorKeys collation order a b ≤ 0 ↔
    keyBefore collation order a b ∨ a = b := by
  constructor
  · intro hle
    rcases lt_or_eq_of_le hle with hlt | hzero
    · exact .inl hlt
    · exact .inr (eq_of_compareCursorKeys collation order hzero)
  · rintro (h | rfl)
    · exact le_of_lt h
    · have hself := collation.localeCompare_self a.i
      cases order <;> simp [compareCursorKeys,compareCursorKeysAsc,compareCursorKeysDesc,hself]

end Keys

/-! ## One page -/

section Page
variable {α : Type} (collation : Collation) (getKey : α → CursorKey) (order : CursorSortOrder)

theorem sortItems_perm (items : List α) : (sortItems collation getKey order items).Perm items :=
  List.perm_insertionSort _ _

theorem sortItems_sorted {items : List α} (hkeys : (items.map getKey).Nodup) :
    SortedBy getKey (keyBefore collation order) (sortItems collation getKey order items) := by
  have htotal : Std.Total fun a b : α =>
      compareCursorKeys collation order (getKey a) (getKey b) ≤ 0 := by
    constructor
    intro a b
    rw [compareCursorKeys_nonpos,compareCursorKeys_nonpos]
    have h := keyBefore_trichotomy collation order (getKey a) (getKey b)
    tauto
  have htrans : IsTrans α fun a b =>
      compareCursorKeys collation order (getKey a) (getKey b) ≤ 0 := by
    constructor
    intro a b c hab hbc
    rw [compareCursorKeys_nonpos] at hab hbc ⊢
    rcases hab with hab | hab
    · rcases hbc with hbc | hbc
      · exact .inl (keyBefore_trans collation order hab hbc)
      · exact .inl (hbc ▸ hab)
    · rw [hab]
      exact hbc
  have hle := List.pairwise_insertionSort
    (fun a b : α => compareCursorKeys collation order (getKey a) (getKey b) ≤ 0) items
  have hne : (sortItems collation getKey order items).Pairwise fun a b => getKey a ≠ getKey b := by
    have hnodup := ((sortItems_perm collation getKey order items).map getKey).nodup_iff.mpr hkeys
    exact List.pairwise_map.mp hnodup
  refine (hle.and hne).imp ?_
  rintro a b ⟨hab,hne⟩
  rcases (compareCursorKeys_nonpos collation order).mp hab with h | h
  · exact h
  · exact absurd h hne

/-- The window opens on what is left behind the cursor. -/
theorem drop_startIndex {sorted : List α}
    (hsorted : SortedBy getKey (keyBefore collation order) sorted) (decoded : Option CursorKey) :
    sorted.drop (startIndex collation getKey order sorted decoded) =
      remaining getKey (keyBefore collation order) decoded sorted := by
  have ord := keyBefore_order collation order
  cases decoded with
  | none =>
      symm
      exact List.filter_eq_self.mpr fun _ _ => rfl
  | some decoded =>
      simp only [startIndex]
      split
      · rename_i i hexact
        rcases List.findIdx?_eq_some_iff_getElem.mp hexact with ⟨hi,hkey,-⟩
        have hsame : getKey sorted[i] = decoded := by
          have hboth := of_decide_eq_true hkey
          generalize getKey sorted[i] = key at hboth
          cases key
          cases decoded
          simp_all
        rw [← hsame]
        exact drop_succ_eq_remaining ord hsorted hi
      · split
        · rename_i i hfirst
          rcases List.findIdx?_eq_some_iff_getElem.mp hfirst with ⟨hi,hafter,hbefore⟩
          have hkey := (isAfterCursor_iff collation order).mp hafter
          refine drop_eq_remaining ord hsorted hi hkey ?_
          intro j hj hkey
          exact hbefore j hj ((isAfterCursor_iff collation order).mpr hkey)
        · rename_i hnone
          rw [List.drop_length]
          symm
          rw [remaining,List.filter_eq_nil_iff]
          intro x hx hafter
          have hnot := List.findIdx?_eq_none_iff.mp hnone x hx
          have hyes := (isAfterCursor_iff collation order).mpr (of_decide_eq_true hafter)
          rw [hyes] at hnot
          cases hnot

/-- How the page of `n` items relates to what is left. -/
structure PageOf (left : List α) (n : ℕ) (page : CursorPage α) : Prop where
  items : page.items = left.take n
  hasMore : page.hasMore = decide (n < left.length)
  done : page.hasMore = false → page.nextCursor = none
  next : page.hasMore = true → ∃ last cursor, (left.take n).getLast? = some last ∧
    page.nextCursor = some cursor ∧ encodeCursor (getKey last) = .ok cursor

variable {getKey} in
theorem PageOf.length_le {left : List α} {n : ℕ} {page : CursorPage α}
    (h : PageOf getKey left n page) (hdone : page.hasMore = false) : left.length ≤ n := by
  have hmore := h.hasMore
  rw [hdone] at hmore
  exact Nat.le_of_not_lt (of_decide_eq_false hmore.symm)

variable {getKey} in
theorem PageOf.lt_length {left : List α} {n : ℕ} {page : CursorPage α}
    (h : PageOf getKey left n page) (hmore : page.hasMore = true) : n < left.length := by
  have hlong := h.hasMore
  rw [hmore] at hlong
  exact of_decide_eq_true hlong.symm

theorem encodeCursor_ok {key : CursorKey} (hi : key.i ≠ "") :
    ∃ cursor, encodeCursor key = .ok cursor := by
  have hlength : JsStrings.length key.i ≠ 0 := by
    rw [Ne,length_eq_zero_iff]
    exact hi
  exact ⟨_,if_neg hlength⟩

theorem buildPageFromOverfetch_spec {left : List α} {n : ℕ} (hn : 0 < n)
    (hids : ∀ x ∈ left, (getKey x).i ≠ "") :
    ∃ page, buildPageFromOverfetch (left.take (n + 1)) n getKey = .ok page ∧
      PageOf getKey left n page := by
  have hlength : decide ((n : ℤ) < (left.take (n + 1)).length) = decide (n < left.length) := by
    rw [List.length_take]
    congr 1
    apply propext
    omega
  by_cases hmore : n < left.length
  · have hslice : sliceTo (left.take (n + 1)) n = left.take n := by
      unfold sliceTo
      rw [if_pos (by omega),Int.toNat_natCast,List.take_take]
      congr 1
      omega
    have hne : left.take n ≠ [] := by
      intro hnil
      have hzero := congrArg List.length hnil
      rw [List.length_take,List.length_nil] at hzero
      omega
    have hlast := List.getLast?_eq_some_getLast hne
    have hmem := List.mem_of_mem_take (List.getLast_mem hne)
    rcases encodeCursor_ok (hids _ hmem) with ⟨cursor,hcursor⟩
    refine ⟨⟨left.take n,some cursor,true,n⟩,?_,rfl,(decide_eq_true hmore).symm,nofun,?_⟩
    · unfold buildPageFromOverfetch
      simp only [hlength,decide_eq_true hmore,if_true,hslice,hlast,hcursor]
    · intro _
      exact ⟨_,cursor,hlast,rfl,hcursor⟩
  · have htake : left.take (n + 1) = left.take n := by
      rw [List.take_of_length_le (by omega),List.take_of_length_le (by omega)]
    refine ⟨⟨left.take n,none,false,n⟩,?_,rfl,(decide_eq_false hmore).symm,fun _ => rfl,nofun⟩
    unfold buildPageFromOverfetch
    simp only [hlength,decide_eq_false hmore,Bool.false_eq_true,if_false]
    rw [htake]

/-- The text of a cursor stands for a key; no cursor, for the start. -/
def StandsFor : Option String → Option CursorKey → Prop
  | none, none => True
  | some cursor, some key => encodeCursor key = .ok cursor
  | _, _ => False

theorem decodeCursor_of_standsFor {cursor : Option String} {key : Option CursorKey}
    (h : StandsFor cursor key) (strict : Bool) : decodeCursor cursor strict = .ok key := by
  cases cursor with
  | none =>
      cases key with
      | none => rfl
      | some key => cases h
  | some cursor =>
      cases key with
      | none => cases h
      | some key => exact decodeCursor_encodeCursor h strict

theorem clampLimit_ok {limit : ℕ} (hmin : 1 ≤ limit) (hmax : limit ≤ 100) (defaultLimit : ℕ) :
    clampLimit (some (.finite limit)) defaultLimit = .ok limit := by
  have hden : ¬ (limit : ℚ).den ≠ 1 := by simp
  have hsmall : ¬ (limit : ℚ) < (minPageSize : ℚ) := by
    rw [not_lt]
    exact_mod_cast hmin
  have hlarge : ¬ (maxPageSize : ℚ) < (limit : ℚ) := by
    rw [not_lt]
    exact_mod_cast hmax
  simp only [clampLimit,if_neg hden,if_neg hsmall,if_neg hlarge,Rat.num_natCast,Int.toNat_natCast]

/-- The items of a collection have keys of their own, with non-empty ids. -/
structure Keyed (items : List α) : Prop where
  nodup : (items.map getKey).Nodup
  ids : ∀ x ∈ items, (getKey x).i ≠ ""

theorem paginateArray_spec {items : List α} (hitems : Keyed getKey items) {limit : ℕ}
    (hmin : 1 ≤ limit) (hmax : limit ≤ 100) {cursor : Option String} {key : Option CursorKey}
    (hcursor : StandsFor cursor key) (strictCursor : Bool) (defaultLimit : ℕ) :
    ∃ page, paginateArray collation getKey items cursor (some (.finite limit)) order strictCursor
        defaultLimit = .ok page ∧
      PageOf getKey (remaining getKey (keyBefore collation order) key
        (sortItems collation getKey order items)) limit page := by
  have hsorted := sortItems_sorted collation getKey order hitems.nodup
  have hids : ∀ x ∈ remaining getKey (keyBefore collation order) key
      (sortItems collation getKey order items), (getKey x).i ≠ "" := by
    intro x hx
    have hmem := (List.mem_filter.mp hx).1
    exact hitems.ids x ((sortItems_perm collation getKey order items).mem_iff.mp hmem)
  rcases buildPageFromOverfetch_spec getKey hmin hids with ⟨page,hpage,hspec⟩
  refine ⟨page,?_,hspec⟩
  unfold paginateArray
  rw [clampLimit_ok hmin hmax]
  dsimp only
  rw [decodeCursor_of_standsFor hcursor]
  dsimp only
  rw [drop_startIndex collation getKey order hsorted]
  exact hpage

end Page

/-! ## A traversal -/

/-- The pages of at most `requests` requests, the first of which is request `k`. -/
def traverse {π : Type} (nextCursor : π → Option String)
    (request : ℕ → Option String → Except Thrown π) :
    ℕ → ℕ → Option String → Except Thrown (List π)
  | 0, _, _ => .ok []
  | requests + 1, k, cursor =>
      match request k cursor with
      | .error e => .error e
      | .ok page =>
          match nextCursor page with
          | none => .ok [page]
          | some next =>
              match traverse nextCursor request requests (k + 1) (some next) with
              | .error e => .error e
              | .ok pages => .ok (page :: pages)

section Requests
variable {π : Type} {nextCursor : π → Option String}
  {request : ℕ → Option String → Except Thrown π} {k : ℕ} {cursor : Option String} {page : π}

theorem traverse_last (hpage : request k cursor = .ok page) (hnext : nextCursor page = none)
    (requests : ℕ) :
    traverse nextCursor request (requests + 1) k cursor = .ok [page] := by
  rw [traverse,hpage]
  dsimp only
  rw [hnext]

theorem traverse_next {next : String} (hpage : request k cursor = .ok page)
    (hnext : nextCursor page = some next) {requests : ℕ} {pages : List π}
    (hpages : traverse nextCursor request requests (k + 1) (some next) = .ok pages) :
    traverse nextCursor request (requests + 1) k cursor = .ok (page :: pages) := by
  rw [traverse,hpage]
  dsimp only
  rw [hnext]
  dsimp only
  rw [hpages]

/-- What a traversal with a request left does. -/
theorem traverse_cases {requests : ℕ} {pages : List π}
    (h : traverse nextCursor request (requests + 1) k cursor = .ok pages) :
    ∃ page, request k cursor = .ok page ∧ (nextCursor page = none ∧ pages = [page] ∨
      ∃ next rest, nextCursor page = some next ∧
        traverse nextCursor request requests (k + 1) (some next) = .ok rest ∧
        pages = page :: rest) := by
  rw [traverse] at h
  split at h
  · cases h
  · rename_i page hpage
    refine ⟨page,hpage,?_⟩
    split at h
    · rename_i hnone
      exact .inl ⟨hnone,(Except.ok.inj h).symm⟩
    · rename_i next hnext
      split at h
      · cases h
      · rename_i rest hrest
        exact .inr ⟨next,rest,hnext,hrest,(Except.ok.inj h).symm⟩

end Requests

section Traversal
variable {α : Type} (collation : Collation) (getKey : α → CursorKey) (order : CursorSortOrder)
  (items : ℕ → List α) (limit : ℕ) (strictCursor : Bool) (defaultLimit : ℕ)

/-- The pages a client reads when request `k` finds the collection `items k`. -/
def traversal (requests : ℕ) : Except Thrown (List (CursorPage α)) :=
  traverse CursorPage.nextCursor (fun k cursor => paginateArray collation getKey (items k) cursor
    (some (.finite limit)) order strictCursor defaultLimit) requests 0 none

def emitted (pages : List (CursorPage α)) : List α := pages.flatMap CursorPage.items

theorem emitted_cons (page : CursorPage α) (pages : List (CursorPage α)) :
    emitted (page :: pages) = page.items ++ emitted pages := List.flatMap_cons

theorem emitted_singleton (page : CursorPage α) : emitted [page] = page.items :=
  List.flatMap_singleton ..

variable {collation getKey order items limit} {strictCursor defaultLimit}

/-- A traversal under way has emitted `soFar` before request `k`. -/
theorem traverse_stable (hitems : ∀ k, Keyed getKey (items k)) (hmin : 1 ≤ limit)
    (hmax : limit ≤ 100) (requests : ℕ) : ∀ {k : ℕ} {cursor : Option String}
    {key : Option CursorKey} {soFar : List α}, StandsFor cursor key →
    Emitted getKey (keyBefore collation order)
      (fun k => sortItems collation getKey order (items k)) k key soFar →
    ∃ pages, traverse CursorPage.nextCursor (fun k cursor => paginateArray collation getKey
        (items k) cursor (some (.finite limit)) order strictCursor defaultLimit) requests k cursor =
          .ok pages ∧
      SortedBy getKey (keyBefore collation order) (soFar ++ emitted pages) ∧
      ((∃ page ∈ pages, page.hasMore = false) →
        ∀ x, (∀ j < k + pages.length, x ∈ items j) → x ∈ soFar ++ emitted pages) := by
  have ord := keyBefore_order collation order
  induction requests with
  | zero =>
      intro k cursor key soFar _ hsoFar
      refine ⟨[],rfl,?_,?_⟩
      · rw [emitted,List.flatMap_nil,List.append_nil]
        exact hsoFar.sorted
      · rintro ⟨page,hpage,-⟩
        cases hpage
  | succ requests ih =>
      intro k cursor key soFar hcursor hsoFar
      have hsorted := sortItems_sorted collation getKey order (hitems k).nodup
      rcases paginateArray_spec collation getKey order (hitems k) hmin hmax hcursor strictCursor
        defaultLimit with ⟨page,hpage,hspec⟩
      cases hmore : page.hasMore with
      | false =>
          refine ⟨[page],traverse_last hpage (hspec.done hmore) requests,?_,?_⟩
          · rw [emitted_singleton,hspec.items]
            exact hsoFar.append_sorted ord hsorted
          · intro _ x hx
            rw [emitted_singleton,hspec.items]
            apply hsoFar.mem_of_last (hspec.length_le hmore)
            intro j hj
            exact (sortItems_perm collation getKey order (items j)).mem_iff.mpr (hx j hj)
      | true =>
          rcases hspec.next hmore with ⟨last,next,hlast,hnext,hencode⟩
          have hkey : StandsFor (some next) (some (getKey last)) := hencode
          rcases ih hkey (hsoFar.next ord hsorted hlast) with ⟨pages,hpages,hkeys,hall⟩
          have hemitted : soFar ++ emitted (page :: pages) =
              soFar ++ (remaining getKey (keyBefore collation order) key
                (sortItems collation getKey order (items k))).take limit ++ emitted pages := by
            rw [emitted_cons,hspec.items,List.append_assoc]
          refine ⟨page :: pages,traverse_next hpage hnext hpages,?_,?_⟩
          · rw [hemitted]
            exact hkeys
          · rintro ⟨shown,hshown,hdone⟩ x hx
            rw [hemitted]
            rcases List.mem_cons.mp hshown with rfl | hshown
            · rw [hdone] at hmore
              cases hmore
            · apply hall ⟨shown,hshown,hdone⟩
              intro j hj
              apply hx
              rw [List.length_cons]
              omega

/-- Over a collection that stays as it is, a traversal ends with everything emitted. -/
theorem traverse_unchanging {fixed : List α} (hfixed : Keyed getKey fixed) (hmin : 1 ≤ limit)
    (hmax : limit ≤ 100) (requests : ℕ) : ∀ {k : ℕ} {cursor : Option String}
    {key : Option CursorKey}, StandsFor cursor key →
    (remaining getKey (keyBefore collation order) key
      (sortItems collation getKey order fixed)).length < requests →
    ∃ pages last, traverse CursorPage.nextCursor (fun _ cursor => paginateArray collation getKey
        fixed cursor (some (.finite limit)) order strictCursor defaultLimit) requests k cursor =
          .ok pages ∧
      pages.getLast? = some last ∧ last.hasMore = false ∧ last.nextCursor = none ∧
      emitted pages = remaining getKey (keyBefore collation order) key
        (sortItems collation getKey order fixed) := by
  have ord := keyBefore_order collation order
  have hsorted := sortItems_sorted collation getKey order hfixed.nodup
  induction requests with
  | zero =>
      intro k cursor key _ hlt
      omega
  | succ requests ih =>
      intro k cursor key hcursor hlt
      rcases paginateArray_spec collation getKey order hfixed hmin hmax hcursor strictCursor
        defaultLimit with ⟨page,hpage,hspec⟩
      cases hmore : page.hasMore with
      | false =>
          have hnone := hspec.done hmore
          refine ⟨[page],page,traverse_last hpage hnone requests,rfl,hmore,hnone,?_⟩
          rw [emitted_singleton,hspec.items]
          exact List.take_of_length_le (hspec.length_le hmore)
      | true =>
          rcases hspec.next hmore with ⟨last,next,hlast,hnext,hencode⟩
          have hkey : StandsFor (some next) (some (getKey last)) := hencode
          have hleft := remaining_last ord hsorted hlast
          have hlength := hspec.lt_length hmore
          have hless : (remaining getKey (keyBefore collation order) (some (getKey last))
              (sortItems collation getKey order fixed)).length < requests := by
            rw [hleft,List.length_drop]
            omega
          rcases ih hkey hless with ⟨pages,final,hpages,hfinal,hdone,hnone,hall⟩
          refine ⟨page :: pages,final,traverse_next hpage hnext hpages,?_,hdone,hnone,?_⟩
          · rw [List.getLast?_cons,hfinal]
            rfl
          · rw [hleft] at hall
            rw [emitted_cons,hspec.items,hall,List.take_append_drop]

/-- Whatever is inserted and deleted between the requests, no key is emitted
twice, the keys come in order, and the page that reports no more completes the
items that were there all along; an unchanging collection is emitted sorted. -/
theorem keyset_pagination_stable (hitems : ∀ k, Keyed getKey (items k)) (hmin : 1 ≤ limit)
    (hmax : limit ≤ 100) :
    (∀ requests, ∃ pages,
      traversal collation getKey order items limit strictCursor defaultLimit requests = .ok pages ∧
      ((emitted pages).map getKey).Nodup ∧
      ((emitted pages).map getKey).Pairwise (keyBefore collation order) ∧
      ((∃ page ∈ pages, page.hasMore = false) →
        ∀ x, (∀ k < pages.length, x ∈ items k) → x ∈ emitted pages)) ∧
    ((∀ k, items k = items 0) → ∀ requests, (items 0).length < requests → ∃ pages last,
      traversal collation getKey order items limit strictCursor defaultLimit requests = .ok pages ∧
      pages.getLast? = some last ∧ last.hasMore = false ∧ last.nextCursor = none ∧
      emitted pages = sortItems collation getKey order (items 0) ∧
      (emitted pages).Perm (items 0)) := by
  constructor
  · intro requests
    rcases traverse_stable hitems hmin hmax requests (show StandsFor none none from trivial)
      (emitted_start getKey (keyBefore collation order) _) with ⟨pages,hpages,hsorted,hall⟩
    rw [List.nil_append] at hsorted hall
    have hkeys : ((emitted pages).map getKey).Pairwise (keyBefore collation order) :=
      List.pairwise_map.mpr hsorted
    refine ⟨pages,hpages,?_,hkeys,?_⟩
    · refine hkeys.imp ?_
      rintro a b hab rfl
      exact keyBefore_irrefl collation order a hab
    · intro hdone x hx
      apply hall hdone
      intro j hj
      exact hx j (by omega)
  · intro hsame requests hrequests
    have hitems' : items = fun _ => items 0 := funext hsame
    have hwhole : remaining getKey (keyBefore collation order) none
        (sortItems collation getKey order (items 0)) = sortItems collation getKey order (items 0) :=
      List.filter_eq_self.mpr fun _ _ => rfl
    have hperm := sortItems_perm collation getKey order (items 0)
    have hlt : (remaining getKey (keyBefore collation order) none
        (sortItems collation getKey order (items 0))).length < requests := by
      rw [hwhole,hperm.length_eq]
      exact hrequests
    rcases traverse_unchanging (hitems 0) hmin hmax requests (show StandsFor none none from trivial)
      hlt with ⟨pages,last,hpages,hlast,hdone,hnone,hall⟩
    rw [hwhole] at hall
    refine ⟨pages,last,?_,hlast,hdone,hnone,hall,?_⟩
    · unfold traversal
      rw [hitems']
      exact hpages
    · rw [hall]
      exact hperm

end Traversal

/-! ## A collection that changes after the first page -/

/-- The order of the code points, for ids of lower-case letters. -/
def ordinal : Collation where
  localeCompare a b := if a < b then -1 else if b < a then 1 else 0
  eq_of_zero := by
    intro a b h
    split_ifs at h with hab hba
    · cases h
    · exact le_antisymm (not_lt.mp hba) (not_lt.mp hab)
  neg_iff := by
    intro a b
    have hasymm := lt_asymm (a := a) (b := b)
    split_ifs <;> simp_all
  trans := by
    intro a b c hab hbc
    have htrans := lt_trans (a := a) (b := b) (c := c)
    split_ifs at hab hbc ⊢ <;> simp_all

def sampleKey (t : ℕ) (i : String) (ht : toDouble |(t : ℚ)| = some |(t : ℚ)|) : CursorKey :=
  ⟨⟨t,ht⟩,i⟩

def sampleItems : ℕ → List CursorKey
  | 0 => [sampleKey 2 "b" (by decide +kernel),sampleKey 1 "a" (by decide +kernel),
      sampleKey 2 "a" (by decide +kernel)]
  | _ => [sampleKey 3 "c" (by decide +kernel),sampleKey 2 "b" (by decide +kernel),
      sampleKey 0 "d" (by decide +kernel)]

theorem keyed_sampleItems (k : ℕ) : Keyed id (sampleItems k) := by
  cases k with
  | zero => exact ⟨by decide,by decide⟩
  | succ k =>
      change Keyed id (sampleItems 1)
      exact ⟨by decide,by decide⟩

theorem keyset_pagination_stable_sample :
    (∀ k, Keyed id (sampleItems k)) ∧ ∀ requests, ∃ pages,
      traversal ordinal id .desc sampleItems 1 false 25 requests = .ok pages ∧
      ((emitted pages).map id).Nodup ∧
      ((emitted pages).map id).Pairwise (keyBefore ordinal .desc) ∧
      ((∃ page ∈ pages, page.hasMore = false) →
        ∀ x, (∀ k < pages.length, x ∈ sampleItems k) → x ∈ emitted pages) :=
  ⟨keyed_sampleItems,(keyset_pagination_stable keyed_sampleItems (by decide) (by decide)).1⟩

end Creditra.CursorTraversal
