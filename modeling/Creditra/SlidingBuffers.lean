import Mathlib.Data.List.DropRight

/-!
# Buffers that forget by age and by number

A buffer takes one item at a time. It keeps the items that are not older than a
given age when the newest one comes, and of these at most a given number. Of
items that come in the order of their times, it holds what trimming the whole
history once would leave, so that nothing is lost by trimming early. A reader
that looks at a part of the newest items sees all of them in the buffer.
-/
namespace Creditra.SlidingBuffers

variable {α : Type*} (time : α → ℤ)

/-- Items in the order of their times. -/
def Chronological (items : List α) : Prop := items.Pairwise fun a b => time a ≤ time b

/-- The items from an instant on. -/
def since (start : ℤ) (items : List α) : List α := items.filter fun a => start ≤ time a

def push (age : ℤ) (cap : ℕ) (buffer : List α) (a : α) : List α :=
  (since time (time a - age) (buffer ++ [a])).rtake cap

def pushAll (age : ℤ) (cap : ℕ) (items : List α) : List α :=
  items.foldl (push time age cap) []

section Newest

theorem rtake_suffix (items : List α) (n : ℕ) : items.rtake n <:+ items :=
  List.drop_suffix _ _

theorem length_rtake (items : List α) (n : ℕ) : (items.rtake n).length = min n items.length := by
  rw [List.rtake,List.length_drop]
  omega

theorem rtake_of_length_le {items : List α} {n : ℕ} (h : items.length ≤ n) :
    items.rtake n = items := by
  rw [List.rtake,Nat.sub_eq_zero_of_le h,List.drop_zero]

/-- Suffixes of one list are told apart by their lengths. -/
theorem eq_of_suffix (items : List α) {xs ys : List α} (hx : xs <:+ items) (hy : ys <:+ items)
    (h : xs.length = ys.length) : xs = ys :=
  (List.suffix_of_suffix_length_le hx hy h.le).eq_of_length h

end Newest

section Ages
variable {time} {items : List α}

theorem Chronological.of_suffix {xs : List α} (h : Chronological time items) (hx : xs <:+ items) :
    Chronological time xs :=
  List.Pairwise.sublist hx.sublist h

/-- The newer items stand behind the older ones. -/
theorem exists_older (h : Chronological time items) (start : ℤ) :
    ∃ older, items = older ++ since time start items ∧ ∀ a ∈ older, time a < start := by
  induction items with
  | nil =>
      refine ⟨[],rfl,?_⟩
      intro a ha
      cases ha
  | cons a items ih =>
      obtain ⟨hfirst,hrest⟩ := List.pairwise_cons.mp h
      by_cases ha : start ≤ time a
      · refine ⟨[],?_,?_⟩
        · rw [since,List.nil_append,List.filter_eq_self.mpr]
          intro b hb
          rw [decide_eq_true_eq]
          cases List.mem_cons.mp hb with
          | inl heq => rwa [heq]
          | inr hmem => exact Int.le_trans ha (hfirst b hmem)
        · intro b hb
          cases hb
      · obtain ⟨older,hitems,holder⟩ := ih hrest
        refine ⟨a :: older,?_,?_⟩
        · rw [since,List.filter_cons_of_neg (by rwa [decide_eq_true_eq]),List.cons_append]
          exact congrArg (a :: ·) hitems
        · intro b hb
          cases List.mem_cons.mp hb with
          | inl heq =>
              rw [heq]
              omega
          | inr hmem => exact holder b hmem

theorem since_suffix (h : Chronological time items) (start : ℤ) :
    since time start items <:+ items := by
  obtain ⟨older,hitems,-⟩ := exists_older h start
  exact ⟨older,hitems.symm⟩

/-- Of a suffix, everything is new or everything new of the list is in it. -/
theorem length_since_suffix (h : Chronological time items) {xs : List α} (hx : xs <:+ items)
    (start : ℤ) :
    (since time start xs).length = min xs.length (since time start items).length := by
  obtain ⟨older,hxs,holder⟩ := exists_older (h.of_suffix hx) start
  obtain ⟨front,rfl⟩ := hx
  have hsplit : since time start (front ++ xs) = since time start front ++ since time start xs :=
    List.filter_append ..
  have hlength := congrArg List.length hxs
  rw [List.length_append] at hlength
  rw [hsplit,List.length_append]
  cases older with
  | nil =>
      rw [List.length_nil] at hlength
      omega
  | cons a older =>
      have hfront : since time start front = [] := by
        rw [since,List.filter_eq_nil_iff]
        intro b hb
        rw [decide_eq_true_eq]
        have hle : time b ≤ time a := by
          apply (List.pairwise_append.mp h).2.2 b hb a
          rw [hxs]
          exact List.mem_append_left _ List.mem_cons_self
        have hlt := holder a List.mem_cons_self
        omega
      rw [hfront,List.length_nil]
      omega

theorem length_since_le (time : α → ℤ) {start start' : ℤ} (h : start ≤ start') (xs : List α) :
    (since time start' xs).length ≤ (since time start xs).length := by
  apply List.Sublist.length_le
  apply List.monotone_filter_right
  intro a ha
  rw [decide_eq_true_eq] at ha ⊢
  exact Int.le_trans h ha

theorem Chronological.left {xs : List α} (h : Chronological time (items ++ xs)) :
    Chronological time items :=
  (List.pairwise_append.mp h).1

theorem Chronological.le_last {a b : α} (h : Chronological time (items ++ [b]))
    (ha : a ∈ items) : time a ≤ time b :=
  (List.pairwise_append.mp h).2.2 a ha b List.mem_cons_self

/-- Trimming again after one more item gives what trimming once gives. -/
theorem push_trimmed {a b : α} (h : Chronological time (items ++ [a] ++ [b])) (age : ℤ) (cap : ℕ) :
    push time age cap ((since time (time a - age) (items ++ [a])).rtake cap) b =
      (since time (time b - age) (items ++ [a] ++ [b])).rtake cap := by
  have htrimmed : (since time (time a - age) (items ++ [a])).rtake cap <:+ items ++ [a] :=
    (rtake_suffix _ cap).trans (since_suffix h.left _)
  have hbuffer : (since time (time a - age) (items ++ [a])).rtake cap ++ [b] <:+
      items ++ [a] ++ [b] := (List.suffix_append_inj_of_length_eq rfl).mpr ⟨htrimmed,rfl⟩
  apply eq_of_suffix (items ++ [a] ++ [b])
  · exact (rtake_suffix _ cap).trans
      ((since_suffix (h.of_suffix hbuffer) _).trans hbuffer)
  · exact (rtake_suffix _ cap).trans (since_suffix h _)
  · have hold : (since time (time b - age) (items ++ [a] ++ [b])).length ≤
        (since time (time a - age) (items ++ [a])).length + 1 := by
      have hle : time a ≤ time b := h.le_last (List.mem_append_right _ List.mem_cons_self)
      have hmore := length_since_le time (show time a - age ≤ time b - age by omega)
        (items ++ [a])
      have hone : (since time (time b - age) [b]).length ≤ 1 := List.length_filter_le _ _
      have hsplit : since time (time b - age) (items ++ [a] ++ [b]) =
          since time (time b - age) (items ++ [a]) ++ since time (time b - age) [b] :=
        List.filter_append ..
      rw [hsplit,List.length_append]
      omega
    rw [push,length_rtake,length_rtake,length_since_suffix h hbuffer,List.length_append,
      length_rtake,List.length_singleton]
    omega

/-- The buffer is the history, trimmed once. -/
theorem pushAll_eq {a : α} (h : Chronological time (items ++ [a])) (age : ℤ) (cap : ℕ) :
    pushAll time age cap (items ++ [a]) = (since time (time a - age) (items ++ [a])).rtake cap := by
  induction items using List.reverseRecOn generalizing a with
  | nil => rfl
  | append_singleton items b ih =>
      have hstep : pushAll time age cap (items ++ [b] ++ [a]) =
          push time age cap (pushAll time age cap (items ++ [b])) a := List.foldl_concat ..
      rw [hstep,ih h.left,push_trimmed h]

/-! ## What a reader of the newest items sees -/

theorem filter_since {start : ℤ} {p : α → Bool} (hp : ∀ a, p a = true → start ≤ time a)
    (xs : List α) : (since time start xs).filter p = xs.filter p := by
  rw [since,List.filter_filter]
  apply List.filter_congr
  intro a _
  cases ha : p a with
  | false => rfl
  | true => rw [decide_eq_true (hp a ha),Bool.and_self]

/-- Who reads only newer items reads them all in a suffix that holds them. -/
theorem filter_suffix (h : Chronological time items) {xs : List α} (hx : xs <:+ items) {start : ℤ}
    {p : α → Bool} (hp : ∀ a, p a = true → start ≤ time a)
    (hlong : (since time start items).length ≤ xs.length) : xs.filter p = items.filter p := by
  have hsame : since time start xs = since time start items := by
    apply eq_of_suffix items ((since_suffix (h.of_suffix hx) start).trans hx) (since_suffix h start)
    rw [length_since_suffix h hx]
    omega
  rw [← filter_since hp xs,hsame,filter_since hp]

/-- The age does not matter to who reads only younger items. -/
theorem filter_pushAll {a : α} (h : Chronological time (items ++ [a])) {age : ℤ} (cap : ℕ)
    {p : α → Bool} (hp : ∀ b, p b = true → time a - age ≤ time b) :
    (pushAll time age cap (items ++ [a])).filter p = ((items ++ [a]).rtake cap).filter p := by
  rw [pushAll_eq h]
  have hlength : (since time (time a - age) (items ++ [a])).length ≤ (items ++ [a]).length :=
    List.length_filter_le _ _
  have hnewest := rtake_suffix (items ++ [a]) cap
  apply filter_suffix (h.of_suffix hnewest) _ hp
  · rw [length_since_suffix h hnewest,length_rtake,length_rtake]
    omega
  · apply List.suffix_of_suffix_length_le
      ((rtake_suffix _ cap).trans (since_suffix h _)) hnewest
    rw [length_rtake,length_rtake]
    omega

/-- Nor does the cap, where no more items are that young. -/
theorem filter_pushAll_of_sparse {a : α} (h : Chronological time (items ++ [a])) {age window : ℤ}
    (hage : window ≤ age) {cap : ℕ}
    (hcap : (since time (time a - window) (items ++ [a])).length ≤ cap) {p : α → Bool}
    (hp : ∀ b, p b = true → time a - window ≤ time b) :
    (pushAll time age cap (items ++ [a])).filter p = (items ++ [a]).filter p := by
  rw [pushAll_eq h]
  apply filter_suffix h ((rtake_suffix _ cap).trans (since_suffix h _)) hp
  have hmore := length_since_le time
    (show time a - age ≤ time a - window by omega) (items ++ [a])
  rw [length_rtake]
  omega

/-- The last item is kept. -/
theorem getLast?_pushAll {a : α} (h : Chronological time (items ++ [a])) {age : ℤ} (hage : 0 ≤ age)
    {cap : ℕ} (hcap : 0 < cap) : (pushAll time age cap (items ++ [a])).getLast? = some a := by
  have hnew : since time (time a - age) (items ++ [a]) =
      since time (time a - age) items ++ [a] := by
    rw [since,List.filter_append,List.filter_singleton,decide_eq_true (by omega)]
    rfl
  obtain ⟨n,rfl⟩ : ∃ n, cap = n + 1 := ⟨cap - 1,by omega⟩
  rw [pushAll_eq h,hnew,List.rtake_concat_succ,List.getLast?_concat]

end Ages

end Creditra.SlidingBuffers
