import Creditra.CursorTraversal
import Creditra.FloatNumbers
import Creditra.GuardedRuns
import Creditra.IsoDates

/-!
# Listings that are read while their collection changes

A route takes `cursor` and `limit` from the query and answers with one page of
a collection. The collection belongs to a store that goes on working between
the requests. A reader passes on the cursor of each page until a page has none,
and may ask for another number of items each time.

What a reader has been shown is compared with the stores its requests found.
-/
namespace Creditra.CursorReaders
open CursorPagination CursorTraversal FloatNumbers GuardedRuns IsoDates JsNumbers JsStrings
open SortedListings StellarDiagnostics

/-! ## The query -/

/-- A value of the query: a text, or something else as it is printed. -/
inductive QueryValue where
  | text (s : String)
  | other (printed : String)

def QueryValue.printed : QueryValue → String
  | .text s => s
  | .other printed => printed

structure ListingQuery where
  cursor : Option QueryValue := none
  limit : Option QueryValue := none

structure CursorQuery where
  cursor : Option String
  limit : ℕ
  cursorMode : Bool

def numberOf : Value → Number
  | .finite x => .finite x.1
  | .infinite negative => .infinite negative
  | .nan => .nan

/-- An absent limit and an empty text ask for no number. -/
def rawLimit : Option QueryValue → Option Number
  | none => none
  | some (.text s) => if s = "" then none else some (numberOf (parseIntDecimal s))
  | some (.other printed) => some (numberOf (parseIntDecimal printed))

def parseCursorQuery (query : ListingQuery) (defaultLimit : ℕ := defaultPageSize) :
    Except Thrown CursorQuery :=
  let cursor := match query.cursor with
    | some (.text s) => if s = "" then none else some s
    | _ => none
  match clampLimit (rawLimit query.limit) defaultLimit with
  | .error e => .error e
  | .ok limit => .ok ⟨cursor,limit,query.cursor.isSome⟩

section Answers
variable {α : Type} (collation : Collation) (getKey : α → CursorKey) (order : CursorSortOrder)

/-- What a route answers to a query that names a cursor. -/
def answer (items : List α) (query : ListingQuery) : Except Thrown (CursorPage α) :=
  match parseCursorQuery query with
  | .error e => .error e
  | .ok parsed =>
      paginateArray collation getKey items parsed.cursor (some (.finite parsed.limit)) order

end Answers

/-! ## Times -/

/-- The milliseconds of a date. -/
def millisecond (t : ℤ) (h : ValidTime t) : Double := ⟨t,by
  have hlt : t.natAbs < 2 ^ 53 := by
    have hlow := h.1
    have hhigh := h.2
    omega
  rw [← Int.cast_abs,Int.abs_eq_natAbs,Int.cast_natCast]
  exact toDouble_natCast hlt⟩

theorem validTime_zero : ValidTime 0 := by decide

/-- `Date.parse(text)`. A text that is no date is not a number, which no key holds; the listings
here have texts that were written by `toISOString`. -/
def parsedTime (text : String) : Double :=
  match dateParse text with
  | some t => if h : ValidTime t then millisecond t h else millisecond 0 validTime_zero
  | none => millisecond 0 validTime_zero

/-- A text that `toISOString` writes. -/
def IsDate (text : String) : Prop := ∃ t, ValidTime t ∧ text = toISOString t

/-- A text that reads as the time it was written for. -/
def ReadsBack (text : String) : Prop :=
  ∃ (t : ℤ) (h : ValidTime t), text = toISOString t ∧ parsedTime text = millisecond t h

theorem IsDate.readsBack {text : String} (h : IsDate text) : ReadsBack text := by
  obtain ⟨t,hvalid,rfl⟩ := h
  refine ⟨t,hvalid,rfl,?_⟩
  unfold parsedTime
  rw [dateParse_toISOString hvalid]
  exact dif_pos hvalid

/-! ## A reader -/

/-- A reader has the pages it was answered, and `found` the stores that answered them. -/
structure Reading (σ α : Type) where
  store : σ
  found : List σ := []
  pages : List (CursorPage α) := []
  cursor : Option String := none
  finished : Bool := false

inductive Label (ι : Type) where
  | perform (op : ι)
  | request (limit : Option QueryValue)

section Machine
variable {σ ι α : Type} (apply : σ → ι → σ) (items : σ → List α) (collation : Collation)
  (getKey : α → CursorKey) (order : CursorSortOrder)

/-- The first request names an empty cursor. -/
def queryOf (cursor : Option String) (limit : Option QueryValue) : ListingQuery :=
  ⟨some (.text (cursor.getD "")),limit⟩

def Reading.request (s : Reading σ α) (limit : Option QueryValue) : Reading σ α :=
  if s.finished then s
  else match answer collation getKey order (items s.store) (queryOf s.cursor limit) with
    | .error _ => s
    | .ok page =>
        { s with
          found := s.found ++ [s.store]
          pages := s.pages ++ [page]
          cursor := page.nextCursor
          finished := page.nextCursor.isNone }

def step (s : Reading σ α) : Label ι → Reading σ α
  | .perform op => { s with store := apply s.store op }
  | .request limit => s.request items collation getKey order limit

/-- The calls of a run, without the requests. -/
def calls : List (Label ι) → List ι
  | [] => []
  | .perform op :: labels => op :: calls labels
  | .request _ :: labels => calls labels

/-- The keys a store lists, in order. -/
def listing (store : σ) : List CursorKey :=
  (sortItems collation getKey order (items store)).map getKey

def shown (s : Reading σ α) : List α := emitted s.pages

def shownKeys (s : Reading σ α) : List CursorKey := (shown s).map getKey

/-- What a reader may rely on. -/
structure Read (s : Reading σ α) : Prop where
  ordered : (shownKeys getKey s).Pairwise (keyBefore collation order)
  within : List.Forall₂ (fun page store => ∀ x ∈ page.items, x ∈ items store) s.pages s.found
  full : ∀ page ∈ s.pages, page.hasMore = true → (page.items.length : ℤ) = page.limit
  complete : s.finished = true → ∀ key,
    (∀ store ∈ s.found, key ∈ (items store).map getKey) → key ∈ shownKeys getKey s

/-- A request that asks for an acceptable number of items is answered, until the last page. -/
def Answered (s : Reading σ α) : Prop :=
  s.finished = false → ∀ limit n, clampLimit (rawLimit limit) defaultPageSize = .ok n →
    (s.request items collation getKey order limit).pages.length = s.pages.length + 1

end Machine

/-! ## Requests -/

section Requests
variable {σ ι α : Type} {apply : σ → ι → σ} {items : σ → List α} {collation : Collation}
  {getKey : α → CursorKey} {order : CursorSortOrder}

theorem clampLimit_bounds {limit : Option Number} {n : ℕ}
    (h : clampLimit limit defaultPageSize = .ok n) : 1 ≤ n ∧ n ≤ 100 := by
  unfold clampLimit at h
  split at h
  · cases h
    decide
  · cases h
    decide
  · cases h
  · rename_i q
    split_ifs at h with hden hsmall hlarge
    have hq : q = q.num := (Rat.den_eq_one_iff q).mp (not_not.mp hden) |>.symm
    have hn := Except.ok.inj h
    rw [hq] at hsmall hlarge
    have hlow : ((minPageSize : ℤ) : ℚ) ≤ q.num := not_lt.mp hsmall
    have hhigh : (q.num : ℚ) ≤ ((maxPageSize : ℤ) : ℚ) := not_lt.mp hlarge
    have hlow' : (1 : ℤ) ≤ q.num := Int.cast_le.mp hlow
    have hhigh' : q.num ≤ 100 := Int.cast_le.mp hhigh
    omega

theorem limit_of_buildPageFromOverfetch {list : List α} {limit : ℤ} {page : CursorPage α}
    (h : buildPageFromOverfetch list limit getKey = .ok page) : page.limit = limit := by
  unfold buildPageFromOverfetch at h
  dsimp only at h
  split at h
  · split at h
    · exact (Except.ok.inj h) ▸ rfl
    · cases h
  · exact (Except.ok.inj h) ▸ rfl

theorem limit_of_paginateArray {list : List α} {cursor : Option String} {n : ℕ}
    {page : CursorPage α} (hmin : 1 ≤ n) (hmax : n ≤ 100)
    (h : paginateArray collation getKey list cursor (some (.finite n)) order = .ok page) :
    page.limit = n := by
  unfold paginateArray at h
  rw [clampLimit_ok hmin hmax] at h
  dsimp only at h
  split at h
  · cases h
  · exact limit_of_buildPageFromOverfetch h

/-- A cursor that stands for a key is no empty text. -/
theorem parsed_cursor {cursor : Option String} {key : Option CursorKey}
    (h : StandsFor cursor key) :
    (if cursor.getD "" = "" then none else some (cursor.getD "")) = cursor := by
  cases cursor with
  | none => exact if_pos rfl
  | some text =>
      have hne : text ≠ "" := by
        rintro rfl
        have hdecode := decodeCursor_of_standsFor h false
        cases key with
        | none => exact h
        | some key => cases hdecode
      exact if_neg hne

variable (collation order) in
/-- A query with the cursor of a page is answered by a page from behind its key. -/
theorem answer_spec {list : List α} (hkeyed : Keyed getKey list) {cursor : Option String}
    {key : Option CursorKey} (hcursor : StandsFor cursor key) {limit : Option QueryValue} {n : ℕ}
    (hlimit : clampLimit (rawLimit limit) defaultPageSize = .ok n) :
    ∃ page, answer collation getKey order list (queryOf cursor limit) = .ok page ∧
      page.limit = n ∧ PageOf getKey (remaining getKey (keyBefore collation order) key
        (sortItems collation getKey order list)) n page := by
  obtain ⟨hmin,hmax⟩ := clampLimit_bounds hlimit
  obtain ⟨page,hpage,hspec⟩ := paginateArray_spec collation getKey order hkeyed hmin hmax hcursor
    false defaultPageSize
  refine ⟨page,?_,limit_of_paginateArray hmin hmax hpage,hspec⟩
  unfold answer parseCursorQuery queryOf
  simp only [hlimit,parsed_cursor hcursor]
  exact hpage

/-- A limit that is refused is the only reason for an error. -/
theorem answer_error {list : List α} {cursor : Option String} {limit : Option QueryValue}
    {e : Thrown} (hlimit : clampLimit (rawLimit limit) defaultPageSize = .error e) :
    answer collation getKey order list (queryOf cursor limit) = .error e := by
  unfold answer parseCursorQuery queryOf
  simp only [hlimit]

/-- The reader that a page has been answered to. -/
def Reading.answered (s : Reading σ α) (page : CursorPage α) : Reading σ α :=
  { s with
    found := s.found ++ [s.store]
    pages := s.pages ++ [page]
    cursor := page.nextCursor
    finished := page.nextCursor.isNone }

variable (items collation getKey order) in
theorem request_cases (s : Reading σ α) (limit : Option QueryValue) :
    s.request items collation getKey order limit = s ∨ s.finished = false ∧ ∃ page,
      answer collation getKey order (items s.store) (queryOf s.cursor limit) = .ok page ∧
        s.request items collation getKey order limit = s.answered page := by
  unfold Reading.request
  split
  · exact .inl rfl
  · rename_i hfinished
    split
    · exact .inl rfl
    · rename_i page hpage
      exact .inr ⟨Bool.eq_false_iff.mpr hfinished,page,hpage,rfl⟩

variable (items collation getKey order) in
theorem store_request (s : Reading σ α) (limit : Option QueryValue) :
    (s.request items collation getKey order limit).store = s.store := by
  rcases request_cases items collation getKey order s limit with h | ⟨-,page,-,h⟩
  · rw [h]
  · rw [h]
    rfl

end Requests

/-! ## What a reader has seen -/

section Seen
variable {σ ι α : Type} {apply : σ → ι → σ} {items : σ → List α} {collation : Collation}
  {getKey : α → CursorKey} {order : CursorSortOrder} {s : Reading σ α}

theorem Emitted.congr {β κ : Type} {key : β → κ} {r : κ → κ → Prop} [DecidableRel r]
    {listings listings' : ℕ → List β} {k : ℕ} {cursor : Option κ} {all : List β}
    (h : Emitted key r listings k cursor all) (hsame : ∀ j < k, listings' j = listings j) :
    Emitted key r listings' k cursor all where
  sorted := h.sorted
  passed := h.passed
  complete := by
    intro x hx
    exact h.complete x fun j hj => hsame j hj ▸ hx j hj

theorem remaining_keys (key : Option CursorKey) (list : List α) :
    remaining id (keyBefore collation order) key (list.map getKey) =
      (remaining getKey (keyBefore collation order) key list).map getKey := by
  unfold remaining
  rw [List.filter_map]
  congr 2
  funext x
  cases key <;> rfl

variable (items collation getKey order) in
def listingAt (found : List σ) (j : ℕ) : List CursorKey :=
  match found[j]? with
  | none => []
  | some store => listing items collation getKey order store

theorem listingAt_append {found : List σ} {j : ℕ} (store : σ) (hj : j < found.length) :
    listingAt items collation getKey order (found ++ [store]) j =
      listingAt items collation getKey order found j := by
  unfold listingAt
  rw [List.getElem?_append_left hj]

variable (items collation getKey order) in
theorem listingAt_last (found : List σ) (store : σ) :
    listingAt items collation getKey order (found ++ [store]) found.length =
      listing items collation getKey order store := by
  unfold listingAt
  rw [List.getElem?_concat_length]

theorem mem_listing {store : σ} {key : CursorKey} :
    key ∈ listing items collation getKey order store ↔ key ∈ (items store).map getKey :=
  ((sortItems_perm collation getKey order (items store)).map getKey).mem_iff

theorem mem_listingAt {found : List σ} {key : CursorKey}
    (h : ∀ store ∈ found, key ∈ (items store).map getKey) {j : ℕ} (hj : j < found.length) :
    key ∈ listingAt items collation getKey order found j := by
  unfold listingAt
  rw [List.getElem?_eq_getElem hj]
  exact mem_listing.mpr (h _ (List.getElem_mem hj))

variable (items collation getKey order) in
/-- The invariant: up to its cursor, a reader has been shown what was there all along. -/
structure InStep (s : Reading σ α) : Prop where
  within : List.Forall₂ (fun page store => ∀ x ∈ page.items, x ∈ items store) s.pages s.found
  full : ∀ page ∈ s.pages, page.hasMore = true → (page.items.length : ℤ) = page.limit
  reading : s.finished = false → ∃ key, StandsFor s.cursor key ∧
    Emitted id (keyBefore collation order) (listingAt items collation getKey order s.found)
      s.found.length key (shownKeys getKey s)
  ended : s.finished = true → SortedBy id (keyBefore collation order) (shownKeys getKey s) ∧
    ∀ key, (∀ store ∈ s.found, key ∈ (items store).map getKey) → key ∈ shownKeys getKey s

theorem InStep.read (h : InStep items collation getKey order s) :
    Read items collation getKey order s where
  ordered := by
    cases hfinished : s.finished with
    | false =>
        obtain ⟨key,-,hall⟩ := h.reading hfinished
        exact hall.sorted
    | true => exact (h.ended hfinished).1
  within := h.within
  full := h.full
  complete := fun hfinished => (h.ended hfinished).2

theorem inStep_start (store : σ) : InStep items collation getKey order ⟨store,[],[],none,false⟩ where
  within := .nil
  full := by
    intro page hpage
    cases hpage
  reading := fun _ => ⟨none,trivial,emitted_start id (keyBefore collation order) _⟩
  ended := nofun

theorem shownKeys_answered (s : Reading σ α) (page : CursorPage α) :
    shownKeys getKey (s.answered page) = shownKeys getKey s ++ page.items.map getKey := by
  unfold shownKeys shown emitted Reading.answered
  rw [List.flatMap_append,List.map_append,List.flatMap_singleton]

theorem keys_of_page {list : List α} {key : Option CursorKey} {n : ℕ} {page : CursorPage α}
    (h : PageOf getKey (remaining getKey (keyBefore collation order) key
      (sortItems collation getKey order list)) n page) :
    page.items.map getKey = (remaining id (keyBefore collation order) key
      ((sortItems collation getKey order list).map getKey)).take n := by
  rw [h.items,remaining_keys,List.map_take]

/-- Every item of a page is an item of the collection. -/
theorem mem_of_page {list : List α} {key : Option CursorKey} {n : ℕ} {page : CursorPage α}
    (h : PageOf getKey (remaining getKey (keyBefore collation order) key
      (sortItems collation getKey order list)) n page) {x : α} (hx : x ∈ page.items) :
    x ∈ list := by
  rw [h.items] at hx
  have hmem := (List.mem_filter.mp (List.mem_of_mem_take hx)).1
  exact (sortItems_perm collation getKey order list).mem_iff.mp hmem

theorem length_of_page {left : List α} {n : ℕ} {page : CursorPage α}
    (h : PageOf getKey left n page) (hmore : page.hasMore = true) : page.items.length = n := by
  have hlt := h.lt_length hmore
  rw [h.items,List.length_take]
  omega

variable (collation order) in
theorem sortedBy_listing {store : σ} (hkeyed : Keyed getKey (items store)) :
    SortedBy id (keyBefore collation order) (listing items collation getKey order store) := by
  have hsorted := sortItems_sorted collation getKey order hkeyed.nodup
  exact List.pairwise_map.mpr hsorted

/-- What a page brings that the next request was answered. -/
structure NextPage (items : σ → List α) (collation : Collation) (getKey : α → CursorKey)
    (order : CursorSortOrder) (s : Reading σ α) (page : CursorPage α) (key : Option CursorKey)
    (n : ℕ) : Prop where
  limit : page.limit = n
  spec : PageOf getKey (remaining getKey (keyBefore collation order) key
    (sortItems collation getKey order (items s.store))) n page
  soFar : Emitted id (keyBefore collation order)
    (listingAt items collation getKey order (s.found ++ [s.store])) s.found.length key
    (shownKeys getKey s)
  sorted : SortedBy id (keyBefore collation order)
    (listingAt items collation getKey order (s.found ++ [s.store]) s.found.length)
  keys : shownKeys getKey (s.answered page) = shownKeys getKey s ++
    (remaining id (keyBefore collation order) key
      (listingAt items collation getKey order (s.found ++ [s.store]) s.found.length)).take n

theorem InStep.nextPage (h : InStep items collation getKey order s)
    (hkeyed : Keyed getKey (items s.store)) (hfinished : s.finished = false)
    {limit : Option QueryValue} {page : CursorPage α}
    (hpage : answer collation getKey order (items s.store) (queryOf s.cursor limit) = .ok page) :
    ∃ key n, NextPage items collation getKey order s page key n := by
  obtain ⟨key,hcursor,hall⟩ := h.reading hfinished
  cases hlimit : clampLimit (rawLimit limit) defaultPageSize with
  | error e =>
      rw [answer_error hlimit] at hpage
      cases hpage
  | ok n =>
      obtain ⟨page',hpage',hn,hspec⟩ := answer_spec collation order hkeyed hcursor hlimit
      obtain rfl : page' = page := Except.ok.inj (hpage'.symm.trans hpage)
      have hlast := listingAt_last items collation getKey order s.found s.store
      refine ⟨key,n,hn,hspec,Emitted.congr hall fun j hj => listingAt_append s.store hj,?_,?_⟩
      · rw [hlast]
        exact sortedBy_listing collation order hkeyed
      · rw [shownKeys_answered,keys_of_page hspec,hlast]
        rfl

theorem NextPage.within {page : CursorPage α} {key : Option CursorKey} {n : ℕ}
    (hnext : NextPage items collation getKey order s page key n)
    (h : InStep items collation getKey order s) :
    List.Forall₂ (fun page store => ∀ x ∈ page.items, x ∈ items store) (s.answered page).pages
      (s.answered page).found :=
  List.rel_append h.within (.cons (fun _ hx => mem_of_page hnext.spec hx) .nil)

theorem NextPage.full {page : CursorPage α} {key : Option CursorKey} {n : ℕ}
    (hnext : NextPage items collation getKey order s page key n)
    (h : InStep items collation getKey order s) :
    ∀ shown ∈ (s.answered page).pages, shown.hasMore = true →
      (shown.items.length : ℤ) = shown.limit := by
  intro shown hmem hmore
  rcases List.mem_append.mp hmem with hmem | hmem
  · exact h.full shown hmem hmore
  · obtain rfl := List.mem_singleton.mp hmem
    rw [hnext.limit,length_of_page hnext.spec hmore]

/-- A page with more behind it leaves off at the key of its last item. -/
theorem NextPage.reading {page : CursorPage α} {key : Option CursorKey} {n : ℕ}
    (hnext : NextPage items collation getKey order s page key n)
    (hnot : (s.answered page).finished = false) :
    ∃ key, StandsFor (s.answered page).cursor key ∧
      Emitted id (keyBefore collation order)
        (listingAt items collation getKey order (s.answered page).found)
        (s.answered page).found.length key (shownKeys getKey (s.answered page)) := by
  have hmore : page.hasMore = true := by
    by_contra hdone
    have hnone := hnext.spec.done (Bool.eq_false_iff.mpr hdone)
    simp [Reading.answered,hnone] at hnot
  obtain ⟨last,next,hgot,hcursor,hencode⟩ := hnext.spec.next hmore
  refine ⟨some (getKey last),?_,?_⟩
  · change StandsFor page.nextCursor _
    rw [hcursor]
    exact hencode
  · have hlen : (s.answered page).found.length = s.found.length + 1 := List.length_append
    rw [hnext.keys,hlen]
    apply hnext.soFar.next (keyBefore_order collation order) hnext.sorted
    have hlisting := listingAt_last items collation getKey order s.found s.store
    rw [hlisting]
    unfold listing
    rw [← keys_of_page hnext.spec,hnext.spec.items,List.getLast?_map,hgot]
    rfl

/-- The page without more behind it shows whatever is left. -/
theorem NextPage.ended {page : CursorPage α} {key : Option CursorKey} {n : ℕ}
    (hnext : NextPage items collation getKey order s page key n)
    (hended : (s.answered page).finished = true) :
    SortedBy id (keyBefore collation order) (shownKeys getKey (s.answered page)) ∧
      ∀ key, (∀ store ∈ (s.answered page).found, key ∈ (items store).map getKey) →
        key ∈ shownKeys getKey (s.answered page) := by
  have hdone : page.hasMore = false := by
    by_contra hmore
    obtain ⟨last,next,-,hcursor,-⟩ := hnext.spec.next (Bool.eq_true_of_not_eq_false hmore)
    simp [Reading.answered,hcursor] at hended
  rw [hnext.keys]
  refine ⟨hnext.soFar.append_sorted (keyBefore_order collation order) hnext.sorted,?_⟩
  intro κ hκ
  apply hnext.soFar.mem_of_last
  · have hlisting := listingAt_last items collation getKey order s.found s.store
    rw [hlisting]
    unfold listing
    rw [remaining_keys,List.length_map]
    exact hnext.spec.length_le hdone
  · intro j hj
    have hlen : (s.answered page).found.length = s.found.length + 1 := List.length_append
    exact mem_listingAt hκ (hlen ▸ hj)

theorem inStep_request (h : InStep items collation getKey order s)
    (hkeyed : Keyed getKey (items s.store)) (limit : Option QueryValue) :
    InStep items collation getKey order (s.request items collation getKey order limit) := by
  rcases request_cases items collation getKey order s limit with hsame | ⟨hfinished,page,hpage,hnew⟩
  · rw [hsame]
    exact h
  · obtain ⟨key,n,hnext⟩ := h.nextPage hkeyed hfinished hpage
    rw [hnew]
    exact ⟨hnext.within h,hnext.full h,hnext.reading,hnext.ended⟩

theorem InStep.answered (h : InStep items collation getKey order s)
    (hkeyed : Keyed getKey (items s.store)) : Answered items collation getKey order s := by
  intro hfinished limit n hlimit
  obtain ⟨key,hcursor,-⟩ := h.reading hfinished
  obtain ⟨page,hpage,-⟩ := answer_spec collation order hkeyed hcursor hlimit
  unfold Reading.request
  rw [hfinished,hpage]
  exact List.length_append

end Seen

/-! ## Runs -/

section Runs
variable {σ ι α : Type} {apply : σ → ι → σ} {items : σ → List α} {collation : Collation}
  {getKey : α → CursorKey} {order : CursorSortOrder} {I : σ → Prop} {C : σ → ι → Prop}

/-- The calls of a run meet the store that the calls alone lead to. -/
theorem guarded_of_calls {store : σ} {labels : List (Label ι)}
    (h : Guarded apply C store (calls labels)) {s : Reading σ α} (hs : s.store = store) :
    Guarded (step apply items collation getKey order)
      (fun s label => match label with
        | .perform op => C s.store op
        | .request _ => True) s labels := by
  induction labels generalizing s store with
  | nil => trivial
  | cons label labels ih =>
      subst hs
      cases label with
      | perform op => exact ⟨h.1,ih h.2 rfl⟩
      | request limit => exact ⟨trivial,ih h (store_request items collation getKey order s limit)⟩

/-- How the stores that were found precede each other and the present one. -/
structure Followed (I : σ → Prop) (M : σ → σ → Prop) (s : Reading σ α) : Prop where
  present : I s.store
  found : ∀ store ∈ s.found, I store ∧ M store s.store
  ordered : s.found.Pairwise M

theorem followed_step {M : σ → σ → Prop} (keep : ∀ s op, I s → C s op → I (apply s op))
    (refl : ∀ s, I s → M s s) (trans : ∀ a b c, M a b → M b c → M a c)
    (moves : ∀ s op, I s → C s op → M s (apply s op)) {s : Reading σ α} {label : Label ι}
    (h : Followed I M s) (hguard : match label with
      | .perform op => C s.store op
      | .request _ => True) :
    Followed I M (step apply items collation getKey order s label) := by
  cases label with
  | perform op =>
      refine ⟨keep _ _ h.present hguard,?_,h.ordered⟩
      intro store hstore
      obtain ⟨hI,hM⟩ := h.found store hstore
      exact ⟨hI,trans _ _ _ hM (moves _ _ h.present hguard)⟩
  | request limit =>
      change Followed I M (s.request items collation getKey order limit)
      rcases request_cases items collation getKey order s limit with hsame | ⟨-,page,-,hnew⟩
      · rw [hsame]
        exact h
      · rw [hnew]
        refine ⟨h.present,?_,?_⟩
        · intro store hstore
          rcases List.mem_append.mp hstore with hstore | hstore
          · exact h.found store hstore
          · obtain rfl := List.mem_singleton.mp hstore
            exact ⟨h.present,refl _ h.present⟩
        · refine List.pairwise_append.mpr ⟨h.ordered,List.pairwise_singleton _ _,?_⟩
          intro a ha b hb
          obtain rfl := List.mem_singleton.mp hb
          exact (h.found a ha).2

theorem run_followed {M : σ → σ → Prop} (keep : ∀ s op, I s → C s op → I (apply s op))
    (refl : ∀ s, I s → M s s) (trans : ∀ a b c, M a b → M b c → M a c)
    (moves : ∀ s op, I s → C s op → M s (apply s op)) {store : σ} (hstore : I store)
    {labels : List (Label ι)} (hguard : Guarded apply C store (calls labels)) :
    Followed I M (run (step apply items collation getKey order) ⟨store,[],[],none,false⟩ labels) := by
  refine run_invariant (fun s label h hlabel => followed_step keep refl trans moves h hlabel) ?_
    (guarded_of_calls hguard rfl)
  exact ⟨hstore,by simp,.nil⟩

/-- What was found first precedes all that was found. -/
theorem Followed.after_first {M : σ → σ → Prop} {s : Reading σ α} (h : Followed I M s)
    (refl : ∀ s, I s → M s s) {first : σ} (hfirst : s.found.head? = some first) {store : σ}
    (hstore : store ∈ s.found) : I first ∧ M first store := by
  cases hfound : s.found with
  | nil =>
      rw [hfound] at hfirst
      cases hfirst
  | cons a rest =>
      rw [hfound] at hfirst
      obtain rfl := Option.some.inj hfirst
      have hordered := h.ordered
      rw [hfound] at hordered hstore
      have hpresent : I a := (h.found a (hfound ▸ List.mem_cons_self)).1
      rcases List.mem_cons.mp hstore with rfl | hrest
      · exact ⟨hpresent,refl _ hpresent⟩
      · exact ⟨hpresent,(List.pairwise_cons.mp hordered).1 store hrest⟩

/-- Over a store that keeps its items keyed, a reader may rely on what it is shown. -/
theorem run_inStep (keep : ∀ s op, I s → C s op → I (apply s op))
    (hkeyed : ∀ s, I s → Keyed getKey (items s)) {store : σ} (hstore : I store)
    {labels : List (Label ι)} (hguard : Guarded apply C store (calls labels)) :
    InStep items collation getKey order
      (run (step apply items collation getKey order) ⟨store,[],[],none,false⟩ labels) := by
  have hrun : I (run (step apply items collation getKey order) ⟨store,[],[],none,false⟩ labels).store ∧
      InStep items collation getKey order
        (run (step apply items collation getKey order) ⟨store,[],[],none,false⟩ labels) := by
    refine run_invariant (I := fun s => I s.store ∧ InStep items collation getKey order s) ?_
      ⟨hstore,inStep_start store⟩ (guarded_of_calls hguard rfl)
    rintro s (op | limit) ⟨hs,h⟩ hlabel
    · exact ⟨keep _ _ hs hlabel,h.within,h.full,h.reading,h.ended⟩
    · refine ⟨?_,inStep_request h (hkeyed _ hs) limit⟩
      exact store_request items collation getKey order s limit ▸ hs
  exact hrun.2

end Runs

/-! ## Items that change their place -/

section Places
variable {σ α : Type} {items : σ → List α} {collation : Collation} {getKey : α → CursorKey}
  {order : CursorSortOrder} {s : Reading σ α}

variable (items collation getKey order) in
/-- From one store to the other no item has moved away from the front. -/
def Forward (a b : σ) : Prop :=
  ∀ x ∈ items a, ∀ y ∈ items b, (getKey x).i = (getKey y).i →
    ¬ keyBefore collation order (getKey x) (getKey y)

theorem exists_of_forall₂ {β γ : Type} {R : β → γ → Prop} {xs : List β} {ys : List γ}
    (h : List.Forall₂ R xs ys) {a : β} (ha : a ∈ xs) : ∃ c ∈ ys, R a c := by
  induction h with
  | nil => cases ha
  | cons hac h ih =>
      rcases List.mem_cons.mp ha with rfl | ha
      · exact ⟨_,List.mem_cons_self,hac⟩
      · obtain ⟨c,hc,hR⟩ := ih ha
        exact ⟨c,List.mem_cons_of_mem _ hc,hR⟩

theorem Read.origin (h : Read items collation getKey order s) {x : α} (hx : x ∈ shown s) :
    ∃ store ∈ s.found, x ∈ items store := by
  obtain ⟨page,hpage,hmem⟩ := List.mem_flatMap.mp hx
  obtain ⟨store,hstore,hwithin⟩ := exists_of_forall₂ h.within hpage
  exact ⟨store,hstore,hwithin x hmem⟩

/-- Pages follow each other as the stores do that they were taken from. -/
theorem pairwise_of_forall₂ {β γ : Type} {R : β → γ → Prop} {M : γ → γ → Prop} {xs : List β}
    {ys : List γ} (h : List.Forall₂ R xs ys) (hys : ys.Pairwise M) :
    xs.Pairwise fun a b => ∃ c d, R a c ∧ R b d ∧ M c d := by
  induction h with
  | nil => exact .nil
  | @cons a c xs ys hac h ih =>
      obtain ⟨hc,hys⟩ := List.pairwise_cons.mp hys
      refine List.pairwise_cons.mpr ⟨?_,ih hys⟩
      intro b hb
      obtain ⟨d,hd,hbd⟩ := exists_of_forall₂ h hb
      exact ⟨c,d,hac,hbd,hc d hd⟩

/-- When no item moves away from the front, none is shown a second time. -/
theorem Read.nodup_ids (h : Read items collation getKey order s)
    (hself : ∀ store ∈ s.found, Forward items collation getKey order store store)
    (hordered : s.found.Pairwise (Forward items collation getKey order)) :
    ((shown s).map fun x => (getKey x).i).Nodup := by
  have hkeys := List.pairwise_map.mp h.ordered
  unfold shown emitted at hkeys ⊢
  rw [List.pairwise_flatMap] at hkeys
  rw [List.Nodup,List.pairwise_map,List.pairwise_flatMap]
  constructor
  · intro page hpage
    obtain ⟨store,hstore,hwithin⟩ := exists_of_forall₂ h.within hpage
    refine List.Pairwise.imp_of_mem ?_ (hkeys.1 page hpage)
    intro x y hx hy hxy hsame
    exact hself store hstore x (hwithin x hx) y (hwithin y hy) hsame hxy
  · refine (hkeys.2.and (pairwise_of_forall₂ h.within hordered)).imp ?_
    rintro a b ⟨hab,c,d,hac,hbd,hcd⟩ x hx y hy hsame
    exact hcd x (hac x hx) y (hbd y hy) hsame (hab x hx y hy)

end Places

end Creditra.CursorReaders
