import Mathlib.Data.List.Pairwise
import Mathlib.Data.List.Sort

/-!
# Paging through sorted listings

A collection is listed in a strict order and read in pages of a fixed size. A
predicate that is closed towards the front of the order holds on an initial
segment of a listing, whose length is the number of items that satisfy it.

Paging by offset reads page `k` from the `k`-th listing, and the listings may
differ from one read to the next. The pages fit together as long as each offset
falls right behind the last item read, that is, as long as the `k`-th listing
has as many items up to that one as the offset skips.

Paging by key reads the items behind the last key read, wherever they stand by
then, and the pages fit together whatever the listings are.

A stable sort puts an item that joins a collection last behind all the items that
it does not have to precede, so that an initial segment stays as it is unless the
new item precedes some item of it.
-/
namespace Creditra.SortedListings

section Initial
variable {α : Type*} {P : α → Bool} {l : List α}

/-- No item that fails the test stands before one that passes it. -/
def Initial (P : α → Bool) (l : List α) : Prop := l.Pairwise fun x y => P y = true → P x = true

theorem countP_of_head_false {a : α} (h : Initial P (a :: l)) (ha : P a = false) :
    l.countP P = 0 := by
  rw [List.countP_eq_zero]
  intro x hx hPx
  rw [(List.pairwise_cons.mp h).1 x hx hPx] at ha
  cases ha

theorem drop_countP (h : Initial P l) : l.drop (l.countP P) = l.filter fun x => ! P x := by
  induction l with
  | nil => rfl
  | cons a l ih =>
      have hl : Initial P l := (List.pairwise_cons.mp h).2
      cases ha : P a with
      | true =>
          rw [List.countP_cons_of_pos ha,List.drop_succ_cons,ih hl,
            List.filter_cons_of_neg (by simp [ha])]
      | false =>
          have hzero := countP_of_head_false h ha
          rw [List.countP_cons_of_neg (by simp [ha]),hzero,List.drop_zero,
            List.filter_cons_of_pos (by simp [ha])]
          congr 1
          symm
          rw [List.filter_eq_self]
          intro x hx
          have hnot := List.countP_eq_zero.mp hzero x hx
          simpa using hnot

end Initial

/-- A strict order in which items that neither precedes the other stand on the
same side of any third. -/
structure ListingOrder {α : Type*} (r : α → α → Prop) : Prop where
  irrefl : ∀ x, ¬ r x x
  trans : ∀ {x y z}, r x y → r y z → r x z
  behind : ∀ {a b x}, ¬ r b a → r b x → r a x

theorem ListingOrder.asymm {α : Type*} {r : α → α → Prop} (ord : ListingOrder r) {x y : α}
    (h : r x y) : ¬ r y x := fun h' => ord.irrefl x (ord.trans h h')

theorem ListingOrder.not_rel_getElem {α : Type*} {r : α → α → Prop} (ord : ListingOrder r)
    {l : List α} (hl : l.Pairwise r) {i j : ℕ} {hi : i < l.length} {hj : j < l.length}
    (hij : i ≤ j) : ¬ r l[j] l[i] := by
  rcases Nat.eq_or_lt_of_le hij with rfl | hlt
  · exact ord.irrefl _
  · exact ord.asymm (List.pairwise_iff_getElem.mp hl i j hi hj hlt)

section Offset
variable {α : Type*} (r : α → α → Prop) [DecidableRel r] (order : ℕ → List α) (size : ℕ)

/-- The page of read `k`. -/
def page (k : ℕ) : List α := ((order k).drop (k * size)).take size

/-- Listed no later than the last item of the page before read `k`. -/
def behindLast : ℕ → α → Bool
  | 0, _ => false
  | k + 1, x =>
      match (order k)[(k + 1) * size - 1]? with
      | none => false
      | some last => ! decide (r last x)

/-- At read `k` the offset skips exactly what has been passed. -/
def Aligned (k : ℕ) : Prop := (order k).countP (behindLast r order size k) = k * size

/-- What the first `k` pages have brought, when each of them was full. -/
structure ReadSoFar (k : ℕ) (all : List α) : Prop where
  length : all.length = k * size
  sorted : all.Pairwise r
  passed : ∀ x ∈ all, behindLast r order size k x = true
  complete : ∀ x, (∀ j < k, x ∈ order j) → behindLast r order size k x = true → x ∈ all
  origin : ∀ x ∈ all, ∃ j < k, x ∈ order j

theorem readSoFar_zero : ReadSoFar r order size 0 [] where
  length := (Nat.zero_mul size).symm
  sorted := .nil
  passed := by
    intro x hx
    cases hx
  complete := by
    intro x _ hx
    cases hx
  origin := by
    intro x hx
    cases hx

variable {r order size} {k : ℕ} {all : List α}

theorem behindLast_succ {x last : α} (hlast : (order k)[(k + 1) * size - 1]? = some last) :
    behindLast r order size (k + 1) x = true ↔ ¬ r last x := by
  simp [behindLast,hlast]

theorem initial_behindLast (ord : ListingOrder r) {l : List α} (hl : l.Pairwise r) :
    Initial (behindLast r order size k) l := by
  refine hl.imp ?_
  intro x y hxy hy
  cases k with
  | zero => exact hy
  | succ k =>
      cases hlast : (order k)[(k + 1) * size - 1]? with
      | none => simp [behindLast,hlast] at hy
      | some last =>
          rw [behindLast_succ hlast] at hy ⊢
          intro h
          exact hy (ord.trans h hxy)

theorem drop_of_aligned (ord : ListingOrder r) (hsorted : (order k).Pairwise r)
    (haligned : Aligned r order size k) :
    (order k).drop (k * size) = (order k).filter fun x => ! behindLast r order size k x := by
  rw [← haligned]
  exact drop_countP (initial_behindLast ord hsorted)

theorem countP_not_rel_getElem (ord : ListingOrder r) {l : List α} (hl : l.Pairwise r) {n : ℕ}
    (hn : n < l.length) : l.countP (fun x => ! decide (r l[n] x)) = n + 1 := by
  have hsplit : l.countP (fun x => ! decide (r l[n] x)) =
      (l.take (n + 1)).countP (fun x => ! decide (r l[n] x)) +
        (l.drop (n + 1)).countP (fun x => ! decide (r l[n] x)) := by
    rw [← List.countP_append,List.take_append_drop]
  have hfront : (l.take (n + 1)).countP (fun x => ! decide (r l[n] x)) =
      (l.take (n + 1)).length := by
    rw [List.countP_eq_length]
    intro x hx
    rcases List.mem_take_iff_getElem.mp hx with ⟨i,hi,rfl⟩
    simpa using ord.not_rel_getElem hl (by omega)
  have hback : (l.drop (n + 1)).countP (fun x => ! decide (r l[n] x)) = 0 := by
    rw [List.countP_eq_zero]
    intro x hx
    rcases List.mem_iff_getElem.mp hx with ⟨i,hi,rfl⟩
    rw [List.length_drop] at hi
    have hrel : r l[n] (l.drop (n + 1))[i] := by
      rw [List.getElem_drop]
      exact List.pairwise_iff_getElem.mp hl _ _ hn (by omega) (by omega)
    simpa using hrel
  rw [hsplit,hfront,hback,List.length_take]
  omega

theorem aligned_zero : Aligned r order size 0 := by
  unfold Aligned
  rw [Nat.zero_mul,List.countP_eq_zero]
  intro x _ hx
  cases hx

/-- What changes behind the last item read leaves the offset in its place. -/
theorem aligned_of_same_front (ord : ListingOrder r) (hsorted : (order (k + 1)).Pairwise r)
    (hsize : 0 < size) (hlength : (k + 1) * size ≤ (order k).length)
    (hfront : (order k).take ((k + 1) * size) <+: order (k + 1)) :
    Aligned r order size (k + 1) := by
  have hpos : 0 < (k + 1) * size := Nat.mul_pos (Nat.succ_pos k) hsize
  have hlt : (k + 1) * size - 1 < (order (k + 1)).length := by
    have hle := hfront.length_le
    rw [List.length_take] at hle
    omega
  have hlast : (order k)[(k + 1) * size - 1]? = some (order (k + 1))[(k + 1) * size - 1] := by
    rw [← List.getElem?_eq_getElem hlt]
    have htake : (k + 1) * size - 1 < ((order k).take ((k + 1) * size)).length := by
      rw [List.length_take]
      omega
    have hsame := List.IsPrefix.getElem hfront htake
    rw [List.getElem?_eq_getElem (by omega),List.getElem?_eq_getElem hlt,← hsame,List.getElem_take]
  have hcount := countP_not_rel_getElem ord hsorted hlt
  unfold Aligned
  rw [← Nat.sub_add_cancel hpos,← hcount]
  congr 1
  funext x
  simp [behindLast,hlast]

/-- What has been passed stands before what has not. -/
theorem rel_of_behindLast (ord : ListingOrder r) {a x : α}
    (ha : behindLast r order size k a = true) (hx : behindLast r order size k x = false) :
    r a x := by
  cases k with
  | zero => cases ha
  | succ k =>
      cases hlast : (order k)[(k + 1) * size - 1]? with
      | none => simp [behindLast,hlast] at ha
      | some last =>
          rw [behindLast_succ hlast] at ha
          have hlx : r last x := by simpa [behindLast,hlast] using hx
          exact ord.behind ha hlx

theorem mem_page_of_aligned (ord : ListingOrder r) (hsorted : (order k).Pairwise r)
    (haligned : Aligned r order size k) {x : α} (hx : x ∈ page order size k) :
    x ∈ order k ∧ behindLast r order size k x = false := by
  have hmem := List.mem_of_mem_take hx
  rw [drop_of_aligned ord hsorted haligned,List.mem_filter] at hmem
  simpa using hmem

theorem ReadSoFar.sorted_append (h : ReadSoFar r order size k all) (ord : ListingOrder r)
    (hsorted : (order k).Pairwise r) (haligned : Aligned r order size k) :
    (all ++ page order size k).Pairwise r := by
  rw [List.pairwise_append]
  refine ⟨h.sorted,hsorted.sublist ((List.take_sublist _ _).trans (List.drop_sublist _ _)),?_⟩
  intro a ha x hx
  exact rel_of_behindLast ord (h.passed a ha) (mem_page_of_aligned ord hsorted haligned hx).2

theorem ReadSoFar.origin_append (h : ReadSoFar r order size k all) {x : α}
    (hx : x ∈ all ++ page order size k) : ∃ j < k + 1, x ∈ order j := by
  rcases List.mem_append.mp hx with hx | hx
  · rcases h.origin x hx with ⟨j,hj,hmem⟩
    exact ⟨j,Nat.lt_succ_of_lt hj,hmem⟩
  · exact ⟨k,Nat.lt_succ_self k,List.mem_of_mem_drop (List.mem_of_mem_take hx)⟩

/-- A short page is the last one, and it completes the reading. -/
theorem ReadSoFar.mem_of_short (h : ReadSoFar r order size k all) (ord : ListingOrder r)
    (hsorted : (order k).Pairwise r) (haligned : Aligned r order size k)
    (hshort : (page order size k).length < size) {x : α} (hx : ∀ j < k + 1, x ∈ order j) :
    x ∈ all ++ page order size k := by
  cases hpast : behindLast r order size k x with
  | true =>
      exact List.mem_append_left _ (h.complete x (fun j hj => hx j (Nat.lt_succ_of_lt hj)) hpast)
  | false =>
      have hdrop : x ∈ (order k).drop (k * size) := by
        rw [drop_of_aligned ord hsorted haligned,List.mem_filter]
        exact ⟨hx k (Nat.lt_succ_self k),by simp [hpast]⟩
      have hwhole : page order size k = (order k).drop (k * size) := by
        unfold page at hshort ⊢
        rw [List.length_take] at hshort
        exact List.take_of_length_le (by omega)
      rw [hwhole]
      exact List.mem_append_right _ hdrop

theorem ReadSoFar.next (h : ReadSoFar r order size k all) (ord : ListingOrder r)
    (hsize : 0 < size) (hsorted : (order k).Pairwise r) (haligned : Aligned r order size k)
    (hfull : (page order size k).length = size) :
    ReadSoFar r order size (k + 1) (all ++ page order size k) := by
  have hsucc : (k + 1) * size = k * size + size := by rw [Nat.add_mul,Nat.one_mul]
  have hlen : k * size + size ≤ (order k).length := by
    unfold page at hfull
    rw [List.length_take,List.length_drop] at hfull
    omega
  have hindex : (k + 1) * size - 1 < (order k).length := by omega
  have hlast := List.getElem?_eq_getElem hindex
  have hpage : (order k)[(k + 1) * size - 1] ∈ page order size k := by
    unfold page
    rw [List.mem_take_iff_getElem]
    refine ⟨size - 1,by rw [List.length_drop]; omega,?_⟩
    rw [List.getElem_drop]
    congr 1
    omega
  refine ⟨?_,h.sorted_append ord hsorted haligned,?_,?_,fun x hx => h.origin_append hx⟩
  · rw [List.length_append,h.length,hfull,hsucc]
  · intro x hx
    rw [behindLast_succ hlast]
    rcases List.mem_append.mp hx with hx | hx
    · have hbefore := rel_of_behindLast ord (h.passed x hx)
        (mem_page_of_aligned ord hsorted haligned hpage).2
      exact ord.asymm hbefore
    · rcases List.mem_take_iff_getElem.mp hx with ⟨i,hi,rfl⟩
      rw [List.getElem_drop]
      exact ord.not_rel_getElem hsorted (by omega)
  · intro x hx hpast
    rw [behindLast_succ hlast] at hpast
    cases hbefore : behindLast r order size k x with
    | true =>
        have hall := h.complete x (fun j hj => hx j (Nat.lt_succ_of_lt hj)) hbefore
        exact List.mem_append_left _ hall
    | false =>
        apply List.mem_append_right
        have hdrop : x ∈ (order k).drop (k * size) := by
          rw [drop_of_aligned ord hsorted haligned,List.mem_filter]
          exact ⟨hx k (Nat.lt_succ_self k),by simp [hbefore]⟩
        rcases List.mem_iff_getElem.mp hdrop with ⟨i,hi,rfl⟩
        rw [List.length_drop] at hi
        have hle : i < size := by
          by_contra hge
          apply hpast
          rw [List.getElem_drop]
          exact List.pairwise_iff_getElem.mp hsorted _ _ hindex (by omega) (by omega)
        exact List.mem_take_iff_getElem.mpr ⟨i,by rw [List.length_drop]; omega,rfl⟩

end Offset

section Keyset
variable {α κ : Type*} (key : α → κ) (r : κ → κ → Prop) [DecidableRel r]

/-- Behind the cursor; without one, every item is. -/
def after : Option κ → α → Bool
  | none, _ => true
  | some c, x => decide (r c (key x))

/-- What is left to be read. -/
def remaining (cursor : Option κ) (l : List α) : List α := l.filter (after key r cursor)

def SortedBy (l : List α) : Prop := l.Pairwise fun x y => r (key x) (key y)

/-- What the pages of the first `k` listings have brought, up to `cursor`. -/
structure Emitted (order : ℕ → List α) (k : ℕ) (cursor : Option κ) (emitted : List α) : Prop where
  sorted : SortedBy key r emitted
  passed : ∀ x ∈ emitted, after key r cursor x = false
  complete : ∀ x, (∀ j < k, x ∈ order j) → after key r cursor x = false → x ∈ emitted

theorem emitted_start (order : ℕ → List α) : Emitted key r order 0 none [] where
  sorted := .nil
  passed := by
    intro x hx
    cases hx
  complete := by
    intro x _ hx
    cases hx

variable {key r} {order : ℕ → List α} {k n : ℕ} {cursor : Option κ} {emitted : List α}

theorem SortedBy.remaining {l : List α} (h : SortedBy key r l) (cursor : Option κ) :
    SortedBy key r (remaining key r cursor l) := h.sublist List.filter_sublist

theorem Emitted.append_sorted (h : Emitted key r order k cursor emitted) (ord : ListingOrder r)
    (hsorted : SortedBy key r (order k)) :
    SortedBy key r (emitted ++ (remaining key r cursor (order k)).take n) := by
  unfold SortedBy
  rw [List.pairwise_append]
  refine ⟨h.sorted,(hsorted.remaining cursor).sublist (List.take_sublist _ _),?_⟩
  intro a ha x hx
  have hpast := h.passed a ha
  have hahead := (List.mem_filter.mp (List.mem_of_mem_take hx)).2
  cases cursor with
  | none => cases hpast
  | some c => exact ord.behind (of_decide_eq_false hpast) (of_decide_eq_true hahead)

/-- When no more items are left than the page holds, everything has been read. -/
theorem Emitted.mem_of_last (h : Emitted key r order k cursor emitted)
    (hlast : (remaining key r cursor (order k)).length ≤ n) {x : α}
    (hx : ∀ j < k + 1, x ∈ order j) : x ∈ emitted ++ (remaining key r cursor (order k)).take n := by
  rw [List.take_of_length_le hlast]
  cases hafter : after key r cursor x with
  | true =>
      apply List.mem_append_right
      exact List.mem_filter.mpr ⟨hx k (Nat.lt_succ_self k),hafter⟩
  | false =>
      apply List.mem_append_left
      exact h.complete x (fun j hj => hx j (Nat.lt_succ_of_lt hj)) hafter

omit [DecidableRel r] in
/-- The first items behind a cursor are not behind the last of them. -/
theorem not_after_last (ord : ListingOrder r) {l : List α} (hsorted : SortedBy key r l) {last : α}
    (hlast : (l.take n).getLast? = some last) {x : α} (hx : x ∈ l.take n) :
    ¬ r (key last) (key x) := by
  have hne : l.take n ≠ [] := List.ne_nil_of_mem hx
  rw [List.getLast?_eq_some_getLast hne] at hlast
  have heq := Option.some.inj hlast
  rcases List.mem_iff_getElem.mp hx with ⟨i,hi,rfl⟩
  rw [← heq,List.getLast_eq_getElem]
  have hpage : SortedBy key r (l.take n) := hsorted.sublist (List.take_sublist _ _)
  rcases Nat.eq_or_lt_of_le (Nat.le_sub_one_of_lt hi) with rfl | hlt
  · exact ord.irrefl _
  · exact ord.asymm (List.pairwise_iff_getElem.mp hpage i _ hi (by omega) hlt)

omit [DecidableRel r] in
/-- What stands behind the page is behind the last item of the page. -/
theorem after_last {l : List α} (hsorted : SortedBy key r l) {last : α}
    (hlast : (l.take n).getLast? = some last) {x : α} (hx : x ∈ l.drop n) :
    r (key last) (key x) := by
  have hsplit : SortedBy key r (l.take n ++ l.drop n) := by
    rw [List.take_append_drop]
    exact hsorted
  exact (List.pairwise_append.mp hsplit).2.2 last (List.mem_of_getLast? hlast) x hx

theorem Emitted.next (h : Emitted key r order k cursor emitted) (ord : ListingOrder r)
    (hsorted : SortedBy key r (order k)) {last : α}
    (hlast : ((remaining key r cursor (order k)).take n).getLast? = some last) :
    Emitted key r order (k + 1) (some (key last))
      (emitted ++ (remaining key r cursor (order k)).take n) := by
  have hleft := hsorted.remaining cursor
  have hmem := List.mem_of_getLast? hlast
  refine ⟨h.append_sorted ord hsorted,?_,?_⟩
  · intro x hx
    apply decide_eq_false
    rcases List.mem_append.mp hx with hx | hx
    · have hbefore := (List.pairwise_append.mp (h.append_sorted ord hsorted)).2.2 x hx last hmem
      exact ord.asymm hbefore
    · exact not_after_last ord hleft hlast hx
  · intro x hx hpast
    have hnot : ¬ r (key last) (key x) := of_decide_eq_false hpast
    cases hafter : after key r cursor x with
    | false =>
        exact List.mem_append_left _ (h.complete x (fun j hj => hx j (Nat.lt_succ_of_lt hj)) hafter)
    | true =>
        have hin : x ∈ remaining key r cursor (order k) :=
          List.mem_filter.mpr ⟨hx k (Nat.lt_succ_self k),hafter⟩
        rw [← List.take_append_drop n (remaining key r cursor (order k))] at hin
        rcases List.mem_append.mp hin with hin | hin
        · exact List.mem_append_right _ hin
        · exact absurd (after_last hleft hlast hin) hnot

/-- A listing that stays the same loses exactly the page. -/
theorem remaining_last (ord : ListingOrder r) {l : List α} (hsorted : SortedBy key r l) {last : α}
    (hlast : ((remaining key r cursor l).take n).getLast? = some last) :
    remaining key r (some (key last)) l = (remaining key r cursor l).drop n := by
  have hleft := hsorted.remaining cursor
  have hmem := List.mem_of_getLast? hlast
  have hahead := (List.mem_filter.mp (List.mem_of_mem_take hmem)).2
  have hboth : remaining key r (some (key last)) l =
      remaining key r (some (key last)) (remaining key r cursor l) := by
    unfold remaining
    rw [List.filter_filter]
    apply List.filter_congr
    intro x _
    cases hx : after key r (some (key last)) x with
    | false => rfl
    | true =>
        have hrel : r (key last) (key x) := of_decide_eq_true hx
        cases cursor with
        | none => rfl
        | some c =>
            have hc : r c (key x) := ord.trans (of_decide_eq_true hahead) hrel
            simp [after,hc]
  rw [hboth]
  conv_lhs => rw [← List.take_append_drop n (remaining key r cursor l)]
  unfold remaining
  rw [List.filter_append]
  have hfront : ((l.filter (after key r cursor)).take n).filter
      (after key r (some (key last))) = [] := by
    rw [List.filter_eq_nil_iff]
    intro x hx hafter
    exact not_after_last ord hleft hlast hx (of_decide_eq_true hafter)
  rw [hfront,List.nil_append,List.filter_eq_self]
  intro x hx
  exact decide_eq_true (after_last hleft hlast hx)

theorem drop_eq_filter {P : α → Bool} {l : List α} {i : ℕ} (hfront : ∀ x ∈ l.take i, P x = false)
    (hback : ∀ x ∈ l.drop i, P x = true) : l.drop i = l.filter P := by
  conv_rhs => rw [← List.take_append_drop i l]
  have hnone : (l.take i).filter P = [] := by
    rw [List.filter_eq_nil_iff]
    intro x hx
    rw [hfront x hx]
    exact Bool.false_ne_true
  rw [List.filter_append,hnone,List.nil_append]
  symm
  exact List.filter_eq_self.mpr hback

/-- Behind an item of the listing stands what follows it. -/
theorem drop_succ_eq_remaining (ord : ListingOrder r) {l : List α} (h : SortedBy key r l) {i : ℕ}
    (hi : i < l.length) : l.drop (i + 1) = remaining key r (some (key l[i])) l := by
  apply drop_eq_filter
  · intro x hx
    rcases List.mem_take_iff_getElem.mp hx with ⟨j,hj,rfl⟩
    apply decide_eq_false
    rcases Nat.eq_or_lt_of_le (show j ≤ i by omega) with rfl | hlt
    · exact ord.irrefl _
    · exact ord.asymm (List.pairwise_iff_getElem.mp h j i _ hi hlt)
  · intro x hx
    rcases List.mem_drop_iff_getElem.mp hx with ⟨j,hj,rfl⟩
    apply decide_eq_true
    exact List.pairwise_iff_getElem.mp h i _ hi (by omega) (by omega)

/-- Behind a key stands what follows the first item behind it. -/
theorem drop_eq_remaining (ord : ListingOrder r) {l : List α} (h : SortedBy key r l) {c : κ}
    {i : ℕ} (hi : i < l.length) (hafter : r c (key l[i]))
    (hbefore : ∀ (j : ℕ) (hj : j < i), ¬ r c (key l[j])) :
    l.drop i = remaining key r (some c) l := by
  apply drop_eq_filter
  · intro x hx
    rcases List.mem_take_iff_getElem.mp hx with ⟨j,hj,rfl⟩
    exact decide_eq_false (hbefore j (by omega))
  · intro x hx
    rcases List.mem_drop_iff_getElem.mp hx with ⟨j,hj,rfl⟩
    apply decide_eq_true
    rcases Nat.eq_or_lt_of_le (show i ≤ i + j by omega) with heq | hlt
    · simpa only [← heq] using hafter
    · exact ord.trans hafter (List.pairwise_iff_getElem.mp h i _ hi (by omega) hlt)

end Keyset
section Whole
variable {α : Type*} {size : ℕ} {l : List α}

/-- Pages read one after the other, from page `k` to the first empty one. -/
inductive ReadThrough (pages : ℕ → List α) : ℕ → List α → Prop
  | last {k : ℕ} : pages k = [] → ReadThrough pages k []
  | next {k : ℕ} {rows : List α} : pages k ≠ [] → ReadThrough pages (k + 1) rows →
      ReadThrough pages k (pages k ++ rows)

theorem page_append_drop (l : List α) (size k : ℕ) :
    page (fun _ => l) size k ++ l.drop ((k + 1) * size) = l.drop (k * size) := by
  have hdrop : l.drop ((k + 1) * size) = (l.drop (k * size)).drop size := by
    rw [List.drop_drop,Nat.succ_mul]
  rw [hdrop,page,List.take_append_drop]

theorem page_eq_nil_iff (hsize : 0 < size) (k : ℕ) :
    page (fun _ => l) size k = [] ↔ l.drop (k * size) = [] := by
  rw [page,List.take_eq_nil_iff]
  constructor
  · rintro (h | h)
    · omega
    · exact h
  · exact .inr

theorem readThrough_drop (hsize : 0 < size) (n k : ℕ) (hn : (l.drop (k * size)).length ≤ n) :
    ReadThrough (page (fun _ => l) size) k (l.drop (k * size)) := by
  induction n generalizing k with
  | zero =>
      rw [List.length_eq_zero_iff.mp (Nat.le_zero.mp hn)]
      exact .last ((page_eq_nil_iff hsize k).mpr (List.length_eq_zero_iff.mp (Nat.le_zero.mp hn)))
  | succ n ih =>
      by_cases hnil : l.drop (k * size) = []
      · rw [hnil]
        exact .last ((page_eq_nil_iff hsize k).mpr hnil)
      · have hpos := List.length_pos_of_ne_nil hnil
        rw [← page_append_drop]
        refine .next (mt (page_eq_nil_iff hsize k).mp hnil) (ih (k + 1) ?_)
        rw [List.length_drop] at hn hpos ⊢
        rw [Nat.succ_mul]
        omega

/-- The pages of a listing that stays as it is are read through to the listing itself. -/
theorem readThrough_iff (hsize : 0 < size) {rows : List α} :
    ReadThrough (page (fun _ => l) size) 0 rows ↔ rows = l := by
  have hfrom : ∀ k rows, ReadThrough (page (fun _ => l) size) k rows →
      rows = l.drop (k * size) := by
    intro k rows h
    induction h with
    | last hnil => exact ((page_eq_nil_iff hsize _).mp hnil).symm
    | next _ _ ih => rw [ih,page_append_drop]
  constructor
  · intro h
    rw [hfrom 0 rows h,Nat.zero_mul,List.drop_zero]
  · rintro rfl
    have h := readThrough_drop hsize _ 0 (Nat.le_refl (rows.drop (0 * size)).length)
    rwa [Nat.zero_mul,List.drop_zero] at h

end Whole

/-! ## Stable sorting -/

section Stable
variable {α : Type*} (r : α → α → Prop) [DecidableRel r]

/-- The place of a new item: behind all that may stand before it. -/
def insertAfter (x : α) : List α → List α
  | [] => [x]
  | y :: l => if r y x then y :: insertAfter x l else x :: y :: l

variable {r}

theorem orderedInsert_insertAfter (htotal : ∀ a b, r a b ∨ r b a)
    (htrans : ∀ {a b c}, r a b → r b c → r a c) (a x : α) (l : List α) :
    (insertAfter r x l).orderedInsert r a = insertAfter r x (l.orderedInsert r a) := by
  induction l with
  | nil =>
      simp only [insertAfter,List.orderedInsert]
  | cons b l ih =>
      simp only [insertAfter,List.orderedInsert_cons]
      by_cases hbx : r b x
      · rw [if_pos hbx,List.orderedInsert_cons]
        by_cases hab : r a b
        · rw [if_pos hab,if_pos hab,insertAfter,if_pos (htrans hab hbx),insertAfter,if_pos hbx]
        · rw [if_neg hab,if_neg hab,ih,insertAfter,if_pos hbx]
      · have hxb : r x b := (htotal x b).resolve_right hbx
        rw [if_neg hbx,List.orderedInsert_cons,List.orderedInsert_cons]
        by_cases hab : r a b
        · rw [if_pos hab,insertAfter,insertAfter,if_neg hbx]
        · have hax : ¬ r a x := fun hax => hab (htrans hax hxb)
          rw [if_neg hax,if_neg hab,insertAfter,if_neg hbx]

/-- Sorting after an item has joined at the end. -/
theorem insertionSort_append_singleton (htotal : ∀ a b, r a b ∨ r b a)
    (htrans : ∀ {a b c}, r a b → r b c → r a c) (l : List α) (x : α) :
    (l ++ [x]).insertionSort r = insertAfter r x (l.insertionSort r) := by
  induction l with
  | nil => rfl
  | cons a l ih =>
      rw [List.cons_append,List.insertionSort_cons,ih,List.insertionSort_cons,
        orderedInsert_insertAfter htotal htrans]

theorem length_insertAfter (x : α) (l : List α) : (insertAfter r x l).length = l.length + 1 := by
  induction l with
  | nil => rfl
  | cons y l ih =>
      rw [insertAfter]
      split_ifs
      · rw [List.length_cons,ih,List.length_cons]
      · rfl

/-- An initial segment that the new item need not precede stays as it is. -/
theorem take_insertAfter {x : α} {l : List α} {n : ℕ} (hn : n ≤ l.length)
    (h : ∀ y ∈ l.take n, r y x) : (insertAfter r x l).take n = l.take n := by
  induction l generalizing n with
  | nil =>
      obtain rfl : n = 0 := Nat.le_zero.mp hn
      rfl
  | cons y l ih =>
      cases n with
      | zero => rfl
      | succ n =>
          rw [List.take_succ_cons] at h ⊢
          have hy : r y x := h y List.mem_cons_self
          have hrest := ih (Nat.le_of_succ_le_succ hn) fun z hz => h z (List.mem_cons_of_mem y hz)
          rw [insertAfter,if_pos hy,List.take_succ_cons,hrest]

end Stable

end Creditra.SortedListings
