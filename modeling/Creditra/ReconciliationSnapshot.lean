import Creditra.Reconciliation
import Creditra.SortedListings
import Mathlib.Data.List.Sort
import Mathlib.Data.String.Basic

/-!
# Reading the credit lines while they change

Both repositories list the lines newest first and answer `findAll` with a slice
of the listing. The in-memory one breaks ties by id; the SQL query names no
second column, so that lines created at one instant may come in any order, and
in another order at the next read. Lines are created and deleted between the
reads of `fetchAllDbCreditLines`.
-/
namespace Creditra.ReconciliationSnapshot
open JsStrings Reconciliation SortedListings StellarDiagnostics

/-! ## The table and its listings -/

/-- The rows in insertion order; the id is the primary key. -/
structure Table where
  lines : List StoredLine
  nodup : (lines.map StoredLine.id).Nodup

inductive Change where
  | create (line : StoredLine)
  | delete (id : String)

/-- A taken id is never drawn for a new line. -/
def Table.apply (table : Table) : Change → Table
  | .create line =>
      if h : line.id ∈ table.lines.map StoredLine.id then table
      else ⟨table.lines ++ [line],by
        rw [List.map_append,List.nodup_append]
        refine ⟨table.nodup,List.nodup_singleton _,?_⟩
        intro x hx y hy hxy
        rw [List.map_singleton,List.mem_singleton] at hy
        exact h (hy ▸ hxy ▸ hx)⟩
  | .delete id =>
      ⟨table.lines.filter (·.id ≠ id),table.nodup.sublist (List.filter_sublist.map _)⟩

/-- The table at read `k`, when `changes k` are made between reads `k` and `k + 1`. -/
def tableAt (initial : Table) (changes : ℕ → List Change) : ℕ → Table
  | 0 => initial
  | k + 1 => (changes k).foldl Table.apply (tableAt initial changes k)

/-- How the table is listed at each read. -/
structure Listings (tables : ℕ → Table) where
  order : ℕ → List StoredLine
  perm : ∀ k, (order k).Perm (tables k).lines
  newestFirst : ∀ k, (order k).Pairwise fun a b => b.createdAt ≤ a.createdAt

variable {tables : ℕ → Table}

/-- `findAll(offset, limit)` at each read. -/
def Listings.reads (listings : Listings tables) : Reads := fun read offset limit =>
  .ok (((listings.order read).drop offset).take limit)

/-- Newest first, with ties broken by `tie` on the ids. -/
def listedBefore (tie : String → String → Prop) (a b : StoredLine) : Prop :=
  b.createdAt < a.createdAt ∨ a.createdAt = b.createdAt ∧ tie a.id b.id

instance (tie : String → String → Prop) [DecidableRel tie] : DecidableRel (listedBefore tie) :=
  fun a b => inferInstanceAs (Decidable
    (b.createdAt < a.createdAt ∨ a.createdAt = b.createdAt ∧ tie a.id b.id))

/-- The comparator of `sortByNewest`. -/
def compareNewest (collation : Collation) (a b : StoredLine) : ℤ :=
  let tsDiff := b.createdAt - a.createdAt
  if tsDiff ≠ 0 then tsDiff else collation.localeCompare a.id b.id

def sortByNewest (collation : Collation) (creditLines : List StoredLine) : List StoredLine :=
  creditLines.insertionSort fun a b => compareNewest collation a b ≤ 0

section Memory
variable (collation : Collation)

theorem compareNewest_nonpos {a b : StoredLine} : compareNewest collation a b ≤ 0 ↔
    b.createdAt < a.createdAt ∨
      a.createdAt = b.createdAt ∧ collation.localeCompare a.id b.id ≤ 0 := by
  unfold compareNewest
  dsimp only
  split <;> omega

theorem compareNewest_total (a b : StoredLine) :
    compareNewest collation a b ≤ 0 ∨ compareNewest collation b a ≤ 0 := by
  have h := collation.neg_iff (a := b.id) (b := a.id)
  rw [compareNewest_nonpos,compareNewest_nonpos]
  omega

theorem compareNewest_trans {a b c : StoredLine} (hab : compareNewest collation a b ≤ 0)
    (hbc : compareNewest collation b c ≤ 0) : compareNewest collation a c ≤ 0 := by
  rw [compareNewest_nonpos] at hab hbc ⊢
  rcases hab with hab | ⟨hab,hid⟩
  · left
    omega
  · rcases hbc with hbc | ⟨hbc,hid'⟩
    · left
      omega
    · refine .inr ⟨hab.trans hbc,?_⟩
      rcases lt_or_eq_of_le hid with hlt | heq
      · rcases lt_or_eq_of_le hid' with hlt' | heq'
        · exact (collation.trans hlt hlt').le
        · rw [← collation.eq_of_zero heq']
          exact hid
      · rw [collation.eq_of_zero heq]
        exact hid'

theorem sortByNewest_pairwise (lines : List StoredLine) :
    (sortByNewest collation lines).Pairwise fun a b => compareNewest collation a b ≤ 0 := by
  have htotal : Std.Total fun a b => compareNewest collation a b ≤ 0 :=
    ⟨compareNewest_total collation⟩
  have htrans : IsTrans StoredLine fun a b => compareNewest collation a b ≤ 0 :=
    ⟨fun _ _ _ => compareNewest_trans collation⟩
  exact List.pairwise_insertionSort _ lines

/-- What the in-memory repository lists at each read. -/
def memoryListings (tables : ℕ → Table) : Listings tables where
  order k := sortByNewest collation (tables k).lines
  perm k := List.perm_insertionSort _ _
  newestFirst k := by
    refine (sortByNewest_pairwise collation (tables k).lines).imp ?_
    intro a b hab
    rw [compareNewest_nonpos] at hab
    omega

/-- Its ties are always broken the same way. -/
theorem memoryListings_settled (tables : ℕ → Table) (k : ℕ) :
    ((memoryListings collation tables).order k).Pairwise
      (listedBefore fun a b => collation.localeCompare a b < 0) := by
  have hids : ((memoryListings collation tables).order k).Pairwise fun a b => a.id ≠ b.id := by
    have hnodup := (((memoryListings collation tables).perm k).map StoredLine.id).nodup_iff.mpr
      (tables k).nodup
    exact List.pairwise_map.mp hnodup
  have hsorted : ((memoryListings collation tables).order k).Pairwise fun a b =>
      compareNewest collation a b ≤ 0 := sortByNewest_pairwise collation (tables k).lines
  refine (hsorted.and hids).imp ?_
  rintro a b ⟨hle,hne⟩
  rw [compareNewest_nonpos] at hle
  have hzero : collation.localeCompare a.id b.id ≠ 0 := fun h => hne (collation.eq_of_zero h)
  unfold listedBefore
  omega

end Memory

/-! ## Complete readings -/

/-- Read `k` is made: the pages before it were full and did not exceed the cap. -/
def Reached (listings : Listings tables) (k : ℕ) : Prop :=
  k * reconciliationDbPageSize ≤ reconciliationMaxDbRecords ∧
    ∀ j < k, (j + 1) * reconciliationDbPageSize ≤ (listings.order j).length

/-- Every line that is in the table at each read is returned exactly once. The
reading only fails when more lines than the cap allows have been in the table. -/
def CompleteSnapshot (listings : Listings tables) : Prop :=
  match fetchAllDbCreditLines listings.reads with
  | .ok all => ∀ line, (∀ k, Reached listings k → line ∈ (tables k).lines) → all.count line = 1
  | .error e => e = capExceeded ∧ ∃ lines : List StoredLine, lines.Nodup ∧
      reconciliationMaxDbRecords < lines.length ∧
      ∀ line ∈ lines, ∃ k, Reached listings k ∧ line ∈ (tables k).lines

theorem listingOrder_listedBefore {tie : String → String → Prop} (htie : ListingOrder tie) :
    ListingOrder (listedBefore tie) where
  irrefl := by
    rintro x (h | ⟨-,h⟩)
    · omega
    · exact htie.irrefl x.id h
  trans := by
    rintro x y z (h | ⟨h,ht⟩) (h' | ⟨h',ht'⟩)
    · exact .inl (by omega)
    · exact .inl (by omega)
    · exact .inl (by omega)
    · exact .inr ⟨by omega,htie.trans ht ht'⟩
  behind := by
    intro a b x hnot hbx
    unfold listedBefore at hnot
    push Not at hnot
    rcases hbx with h | ⟨h,ht⟩
    · exact .inl (by omega)
    · by_cases hab : b.createdAt = a.createdAt
      · exact .inr ⟨by omega,htie.behind (hnot.2 hab) ht⟩
      · exact .inl (by omega)

section Reading
variable {tie : String → String → Prop} [DecidableRel tie] {listings : Listings tables}

/-- What the loop returns, or how far it got before it threw. -/
def Read (tie : String → String → Prop) (listings : Listings tables) :
    Except Rejection (List StoredLine) → Prop
  | .ok all => ∃ k, Reached listings k ∧ all.Pairwise (listedBefore tie) ∧
      ∀ line, (∀ j < k + 1, line ∈ listings.order j) → line ∈ all
  | .error e => e = capExceeded ∧ ∃ (k : ℕ) (all : List StoredLine), Reached listings k ∧
      all.Pairwise (listedBefore tie) ∧ reconciliationMaxDbRecords < all.length ∧
      ∀ line ∈ all, ∃ j < k + 1, line ∈ listings.order j

theorem Reached.mono {j k : ℕ} (h : Reached listings k) (hj : j ≤ k) : Reached listings j := by
  refine ⟨?_,fun i hi => h.2 i (Nat.lt_of_lt_of_le hi hj)⟩
  exact Nat.le_trans (Nat.mul_le_mul_right _ hj) h.1

theorem fetchFrom_reads (listings : Listings tables) (k : ℕ) (all : List StoredLine) :
    fetchFrom listings.reads k all =
      if reconciliationMaxDbRecords <
          (all ++ page listings.order reconciliationDbPageSize k).length then .error capExceeded
      else if (page listings.order reconciliationDbPageSize k).length <
          reconciliationDbPageSize then
        .ok (all ++ page listings.order reconciliationDbPageSize k)
      else fetchFrom listings.reads (k + 1)
        (all ++ page listings.order reconciliationDbPageSize k) := by
  rw [fetchFrom]
  rfl

theorem Reached.next {k : ℕ} (h : Reached listings k)
    (hcap : k * reconciliationDbPageSize + reconciliationDbPageSize ≤ reconciliationMaxDbRecords)
    (hfull : (page listings.order reconciliationDbPageSize k).length = reconciliationDbPageSize) :
    Reached listings (k + 1) := by
  have hsucc : (k + 1) * reconciliationDbPageSize =
      k * reconciliationDbPageSize + reconciliationDbPageSize := by
    rw [Nat.add_mul,Nat.one_mul]
  have hpos : 0 < reconciliationDbPageSize := by decide
  refine ⟨by omega,?_⟩
  intro j hj
  rcases Nat.lt_succ_iff_lt_or_eq.mp hj with hj | rfl
  · exact h.2 j hj
  · unfold page at hfull
    rw [List.length_take,List.length_drop] at hfull
    omega

theorem fetchFrom_read (htie : ListingOrder tie)
    (hsettled : ∀ k, (listings.order k).Pairwise (listedBefore tie))
    (haligned : ∀ k, Reached listings k →
      Aligned (listedBefore tie) listings.order reconciliationDbPageSize k)
    {k : ℕ} {all : List StoredLine} (hk : Reached listings k)
    (hall : ReadSoFar (listedBefore tie) listings.order reconciliationDbPageSize k all) :
    Read tie listings (fetchFrom listings.reads k all) := by
  have ord := listingOrder_listedBefore htie
  have hpos : 0 < reconciliationDbPageSize := by decide
  induction hleft : reconciliationMaxDbRecords - all.length using Nat.strong_induction_on
    generalizing k all with
  | _ left ih =>
      have hsorted := hall.sorted_append ord (hsettled k) (haligned k hk)
      rw [fetchFrom_reads]
      split
      · rename_i hcap
        exact ⟨rfl,k,_,hk,hsorted,hcap,fun line hline => hall.origin_append hline⟩
      · rename_i hcap
        split
        · rename_i hshort
          refine ⟨k,hk,hsorted,?_⟩
          intro line hline
          exact hall.mem_of_short ord (hsettled k) (haligned k hk) hshort hline
        · rename_i hnot
          have hlength : (page listings.order reconciliationDbPageSize k).length ≤
              reconciliationDbPageSize := List.length_take_le _ _
          have hfull : (page listings.order reconciliationDbPageSize k).length =
              reconciliationDbPageSize := by omega
          have hnext := hall.next ord hpos (hsettled k) (haligned k hk) hfull
          have hlen := hall.length
          rw [List.length_append] at hcap
          refine ih _ ?_ (hk.next (by omega) hfull) hnext rfl
          rw [List.length_append]
          omega

theorem reached_zero (listings : Listings tables) : Reached listings 0 := by
  refine ⟨?_,fun j hj => absurd hj (Nat.not_lt_zero j)⟩
  rw [Nat.zero_mul]
  exact Nat.zero_le _

theorem completeSnapshot_of_aligned (htie : ListingOrder tie)
    (hsettled : ∀ k, (listings.order k).Pairwise (listedBefore tie))
    (haligned : ∀ k, Reached listings k →
      Aligned (listedBefore tie) listings.order reconciliationDbPageSize k) :
    CompleteSnapshot listings := by
  have ord := listingOrder_listedBefore htie
  have hnodup : ∀ {lines : List StoredLine}, lines.Pairwise (listedBefore tie) → lines.Nodup := by
    intro lines hlines
    refine hlines.imp ?_
    rintro a b hab rfl
    exact ord.irrefl a hab
  have hread : Read tie listings (fetchAllDbCreditLines listings.reads) :=
    fetchFrom_read htie hsettled haligned (reached_zero listings) (readSoFar_zero _ _ _)
  unfold CompleteSnapshot
  cases hfetch : fetchAllDbCreditLines listings.reads with
  | ok all =>
      rw [hfetch] at hread
      rcases hread with ⟨k,hk,hsorted,hcomplete⟩
      intro line hline
      apply List.count_eq_one_of_mem (hnodup hsorted)
      apply hcomplete
      intro j hj
      exact (listings.perm j).mem_iff.mpr (hline j (hk.mono (Nat.le_of_lt_succ hj)))
  | error e =>
      rw [hfetch] at hread
      rcases hread with ⟨he,k,all,hk,hsorted,hcap,horigin⟩
      refine ⟨he,all,hnodup hsorted,hcap,?_⟩
      intro line hline
      rcases horigin line hline with ⟨j,hj,hmem⟩
      exact ⟨j,hk.mono (Nat.le_of_lt_succ hj),(listings.perm j).mem_iff.mp hmem⟩

theorem tableAt_unchanged {initial : Table} {changes : ℕ → List Change}
    (h : ∀ k, changes k = []) (k : ℕ) : tableAt initial changes k = initial := by
  induction k with
  | zero => rfl
  | succ k ih => rw [tableAt,h k,List.foldl_nil,ih]

omit [DecidableRel tie] in
/-- A table that does not change is listed the same way at every read. -/
theorem order_unchanged {initial : Table} {changes : ℕ → List Change}
    {listings : Listings (tableAt initial changes)} (htie : ListingOrder tie)
    (hsettled : ∀ k, (listings.order k).Pairwise (listedBefore tie))
    (h : ∀ k, changes k = []) (k : ℕ) : listings.order k = listings.order 0 := by
  have hperm : (listings.order k).Perm (listings.order 0) := by
    refine (listings.perm k).trans ?_
    rw [tableAt_unchanged h k]
    exact (listings.perm 0).symm
  apply hperm.eq_of_pairwise ?_ (hsettled k) (hsettled 0)
  intro a b _ _ hab hba
  exact absurd hba ((listingOrder_listedBefore htie).asymm hab)

end Reading

/-- The reading is a complete snapshot when lines of one instant are always
listed in the same order and, at each read, as many lines are listed up to the
last one read as the offset skips. -/
theorem snapshot_complete_of_aligned {tie : String → String → Prop} [DecidableRel tie]
    (htie : ListingOrder tie) (initial : Table) (changes : ℕ → List Change)
    (listings : Listings (tableAt initial changes))
    (hsettled : ∀ k, (listings.order k).Pairwise (listedBefore tie)) :
    ((∀ k, Reached listings k →
        Aligned (listedBefore tie) listings.order reconciliationDbPageSize k) →
      CompleteSnapshot listings) ∧
    ((∀ k, changes k = []) →
      (initial.lines.length ≤ reconciliationMaxDbRecords →
        ∃ all, fetchAllDbCreditLines listings.reads = .ok all ∧ all.Perm initial.lines) ∧
      (reconciliationMaxDbRecords < initial.lines.length →
        fetchAllDbCreditLines listings.reads = .error capExceeded)) := by
  constructor
  · exact completeSnapshot_of_aligned htie hsettled
  · intro hunchanged
    have hreads : listings.reads = unchanging (listings.order 0) := by
      funext read offset limit
      simp only [Listings.reads,unchanging,order_unchanged htie hsettled hunchanged read]
    have hperm : (listings.order 0).Perm initial.lines := listings.perm 0
    rw [hreads,fetchAllDbCreditLines_unchanging,hperm.length_eq]
    constructor
    · intro hsize
      rw [if_pos hsize]
      exact ⟨_,rfl,hperm⟩
    · intro hsize
      rw [if_neg (Nat.not_le_of_lt hsize)]

/-! ## A full page and one more line -/

def aged (n : ℕ) : StoredLine :=
  ⟨String.ofList (List.replicate n 'x'),"GA","10","10",.finite 500,.closed,n⟩

theorem aged_id_injective : Function.Injective fun n => (aged n).id := by
  intro m n h
  have hlist : List.replicate m 'x' = List.replicate n 'x' := by
    simpa [aged] using congrArg String.toList h
  simpa using congrArg List.length hlist

/-- As many lines as a page holds, numbered from `first` on, the oldest first. -/
def fullPage (first : ℕ) : List StoredLine :=
  (List.range' first reconciliationDbPageSize).map aged

theorem fullPage_nodup (first : ℕ) : ((fullPage first).map StoredLine.id).Nodup := by
  unfold fullPage
  rw [List.map_map]
  exact List.Nodup.map aged_id_injective List.nodup_range'

def agedTable (first : ℕ) : Table := ⟨fullPage first,fullPage_nodup first⟩

def createOnce (line : StoredLine) : ℕ → List Change
  | 0 => [.create line]
  | _ + 1 => []

theorem tableAt_createOnce {first n : ℕ} (hn : n < first ∨ first + reconciliationDbPageSize ≤ n)
    (k : ℕ) : (tableAt (agedTable first) (createOnce (aged n)) (k + 1)).lines =
      fullPage first ++ [aged n] := by
  have hfresh : (aged n).id ∉ (agedTable first).lines.map StoredLine.id := by
    unfold agedTable fullPage
    rw [List.map_map]
    intro hmem
    rcases List.mem_map.mp hmem with ⟨m,hm,heq⟩
    have hmn : m = n := aged_id_injective heq
    rw [hmn,List.mem_range'_1] at hm
    omega
  induction k with
  | zero =>
      change ((agedTable first).apply (.create (aged n))).lines = _
      simp only [Table.apply]
      rw [dif_neg hfresh]
      rfl
  | succ k ih => exact ih

theorem fullPage_sorted (tie : String → String → Prop) (first : ℕ) :
    (fullPage first).reverse.Pairwise (listedBefore tie) := by
  unfold fullPage
  rw [List.pairwise_reverse,List.pairwise_map]
  have hrange : (List.range' first reconciliationDbPageSize).Pairwise (· < ·) :=
    List.pairwise_lt_range' 1
  refine hrange.imp ?_
  intro a b hab
  left
  exact Int.ofNat_lt.mpr hab

theorem createdAt_of_mem_fullPage {first : ℕ} {line : StoredLine} (h : line ∈ fullPage first) :
    ∃ m : ℕ, first ≤ m ∧ m < first + reconciliationDbPageSize ∧ line.createdAt = m := by
  rcases List.mem_map.mp h with ⟨m,hm,rfl⟩
  rw [List.mem_range'_1] at hm
  exact ⟨m,hm.1,hm.2,rfl⟩

theorem newestFirst_of_sorted {tie : String → String → Prop} {lines : List StoredLine}
    (h : lines.Pairwise (listedBefore tie)) :
    lines.Pairwise fun a b => b.createdAt ≤ a.createdAt := by
  refine h.imp ?_
  rintro a b (hab | ⟨hab,-⟩) <;> omega

theorem sorted_append_oldest (tie : String → String → Prop) :
    ((fullPage 1).reverse ++ [aged 0]).Pairwise (listedBefore tie) := by
  rw [List.pairwise_append]
  refine ⟨fullPage_sorted tie 1,List.pairwise_singleton _ _,?_⟩
  intro a ha b hb
  rcases createdAt_of_mem_fullPage (List.mem_reverse.mp ha) with ⟨m,hm,-,hcreated⟩
  rw [List.mem_singleton] at hb
  left
  rw [hb,hcreated]
  exact Int.ofNat_lt.mpr hm

theorem sorted_cons_newest (tie : String → String → Prop) :
    (aged reconciliationDbPageSize :: (fullPage 0).reverse).Pairwise (listedBefore tie) := by
  rw [List.pairwise_cons]
  refine ⟨?_,fullPage_sorted tie 0⟩
  intro b hb
  rcases createdAt_of_mem_fullPage (List.mem_reverse.mp hb) with ⟨m,-,hm,hcreated⟩
  left
  rw [hcreated]
  rw [Nat.zero_add] at hm
  exact Int.ofNat_lt.mpr hm

theorem fullPage_length (first : ℕ) : (fullPage first).length = reconciliationDbPageSize := by
  simp [fullPage]

/-- The oldest line stands at the end of the listing. -/
theorem reverse_fullPage_zero :
    ∃ newer : List StoredLine, (fullPage 0).reverse = newer ++ [aged 0] ∧
      newer.length + 1 = reconciliationDbPageSize := by
  refine ⟨((List.range' 1 999).map aged).reverse,?_,?_⟩
  · have hpage : fullPage 0 = aged 0 :: (List.range' 1 999).map aged := by
      unfold fullPage reconciliationDbPageSize
      rw [List.range'_succ,List.map_cons]
    rw [hpage,List.reverse_cons]
  · rw [List.length_reverse,List.length_map,List.length_range']
    rfl

attribute [irreducible] fullPage

/-- The line that is created is older than all the others and comes last. -/
def olderListings : Listings (tableAt (agedTable 1) (createOnce (aged 0))) where
  order
    | 0 => (fullPage 1).reverse
    | _ + 1 => (fullPage 1).reverse ++ [aged 0]
  perm
    | 0 => List.reverse_perm _
    | k + 1 => by
        rw [tableAt_createOnce (.inl Nat.zero_lt_one) k]
        exact (List.reverse_perm _).append_right _
  newestFirst
    | 0 => newestFirst_of_sorted (fullPage_sorted (· < ·) 1)
    | _ + 1 => newestFirst_of_sorted (sorted_append_oldest (· < ·))

/-- The line that is created is the newest and comes first. -/
def newerListings :
    Listings (tableAt (agedTable 0) (createOnce (aged reconciliationDbPageSize))) where
  order
    | 0 => (fullPage 0).reverse
    | _ + 1 => aged reconciliationDbPageSize :: (fullPage 0).reverse
  perm
    | 0 => List.reverse_perm _
    | k + 1 => by
        rw [tableAt_createOnce (.inr (Nat.zero_add _).le) k]
        exact ((List.reverse_perm _).cons _).trans (List.perm_append_singleton _ _).symm
  newestFirst
    | 0 => newestFirst_of_sorted (fullPage_sorted (· < ·) 0)
    | _ + 1 => newestFirst_of_sorted (sorted_cons_newest (· < ·))

theorem listingOrder_lt : ListingOrder fun a b : String => a < b where
  irrefl := lt_irrefl
  trans := lt_trans
  behind hnot hlt := lt_of_le_of_lt (not_lt.mp hnot) hlt

theorem aligned_olderListings {k : ℕ} (hk : Reached olderListings k) :
    Aligned (listedBefore (· < ·)) olderListings.order reconciliationDbPageSize k := by
  have ord := listingOrder_listedBefore listingOrder_lt
  have hlength := fullPage_length 1
  have hsize : 2 ≤ reconciliationDbPageSize := by decide
  rcases Nat.lt_or_ge k 2 with hlt | hge
  · cases k with
    | zero => exact aligned_zero
    | succ k =>
        have hzero : k = 0 := by omega
        subst hzero
        have hone : (0 + 1) * reconciliationDbPageSize = reconciliationDbPageSize := Nat.one_mul _
        refine aligned_of_same_front ord (sorted_append_oldest _) (by omega) ?_ ?_
        · rw [hone,← hlength]
          exact (List.length_reverse).ge
        · exact (List.take_prefix _ _).trans (List.prefix_append _ _)
  · have hfull := hk.2 1 hge
    have htwo : (1 + 1) * reconciliationDbPageSize =
        reconciliationDbPageSize + reconciliationDbPageSize := by
      rw [Nat.add_mul,Nat.one_mul]
    have hpage : (olderListings.order 1).length = reconciliationDbPageSize + 1 := by
      change ((fullPage 1).reverse ++ [aged 0]).length = _
      rw [List.length_append,List.length_reverse,hlength,List.length_singleton]
    omega

theorem snapshot_complete_of_aligned_sample :
    (∀ k, (olderListings.order k).Pairwise (listedBefore (· < ·))) ∧
      CompleteSnapshot olderListings := by
  have hsettled : ∀ k, (olderListings.order k).Pairwise (listedBefore (· < ·)) := by
    intro k
    cases k with
    | zero => exact fullPage_sorted _ 1
    | succ k => exact sorted_append_oldest _
  exact ⟨hsettled,(snapshot_complete_of_aligned listingOrder_lt _ _ olderListings hsettled).1
    fun k hk => aligned_olderListings hk⟩

theorem page_newerListings_zero :
    page newerListings.order reconciliationDbPageSize 0 = (fullPage 0).reverse := by
  have hlength := fullPage_length 0
  unfold page
  rw [Nat.zero_mul,List.drop_zero]
  apply List.take_of_length_le
  change (fullPage 0).reverse.length ≤ _
  rw [List.length_reverse]
  omega

theorem page_newerListings_one :
    page newerListings.order reconciliationDbPageSize 1 = [aged 0] := by
  rcases reverse_fullPage_zero with ⟨newer,hnewer,hlength⟩
  have hpos : 0 < reconciliationDbPageSize := by decide
  unfold page
  change ((aged reconciliationDbPageSize :: (fullPage 0).reverse).drop _).take _ = _
  have hfront : 1 * reconciliationDbPageSize =
      (aged reconciliationDbPageSize :: newer).length := by
    rw [List.length_cons,hlength,Nat.one_mul]
  rw [hnewer,hfront,← List.cons_append,List.drop_left]
  exact List.take_of_length_le hpos

theorem count_fullPage_zero : (fullPage 0).reverse.count (aged 0) = 1 := by
  rcases reverse_fullPage_zero with ⟨newer,hnewer,-⟩
  have hmem : aged 0 ∈ (fullPage 0).reverse := by
    rw [hnewer]
    exact List.mem_append_right _ (List.mem_singleton_self _)
  exact List.count_eq_one_of_mem (List.nodup_reverse.mpr (fullPage_nodup 0).of_map) hmem

/-- A line created after the first page has been read shifts the oldest line to
the second page, and it is returned twice. -/
theorem created_line_repeats_the_oldest :
    (∀ k, aged 0 ∈ (tableAt (agedTable 0) (createOnce (aged reconciliationDbPageSize)) k).lines) ∧
      ∃ all, fetchAllDbCreditLines newerListings.reads = .ok all ∧ all.count (aged 0) = 2 := by
  have hcount := count_fullPage_zero
  have hmem : aged 0 ∈ (fullPage 0).reverse := List.count_pos_iff.mp (by omega)
  constructor
  · intro k
    apply (newerListings.perm k).mem_iff.mp
    cases k with
    | zero => exact hmem
    | succ k => exact List.mem_cons_of_mem _ hmem
  · have hlength := fullPage_length 0
    have hsize : 1 < reconciliationDbPageSize ∧
        reconciliationDbPageSize + 1 ≤ reconciliationMaxDbRecords := by decide
    refine ⟨(fullPage 0).reverse ++ [aged 0],?_,?_⟩
    · unfold fetchAllDbCreditLines
      rw [fetchFrom_reads,page_newerListings_zero,List.nil_append,List.length_reverse,hlength,
        if_neg (by omega),if_neg (by omega),fetchFrom_reads,page_newerListings_one,
        List.length_append,List.length_reverse,hlength,List.length_singleton,if_neg (by omega),
        if_pos (by omega)]
    · rw [List.count_append,hcount,List.count_singleton_self]

end Creditra.ReconciliationSnapshot
