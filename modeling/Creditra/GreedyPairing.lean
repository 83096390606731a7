import Mathlib.Data.List.Nodup
import Mathlib.Data.List.Perm.Basic

/-!
# Pairing events with earlier ones

A sequence of events, some of which open and the others close. A closing event
may be paired with an opening one before it that suits it, and no event is
paired twice. `newestFirst` gives each closing event in turn the newest opening
event that suits it and is not taken yet. No choice of pairs has more than twice
as many, and none has more at all when an older event suits wherever a newer one
does that it competed with.
-/
namespace Creditra.GreedyPairing

variable {α : Type*} (opens : α → Bool) (suits : α → α → Bool)

/-- The pairs of positions: the first opens, the second closes and suits the first. -/
def Fits (events : List α) (p : ℕ × ℕ) : Prop :=
  p.1 < p.2 ∧ ∃ d e, events[p.1]? = some d ∧ events[p.2]? = some e ∧
    opens d = true ∧ opens e = false ∧ suits e d = true

/-- Pairs no two of which share a position. -/
structure Pairs (events : List α) (pairs : List (ℕ × ℕ)) : Prop where
  openings : (pairs.map Prod.fst).Nodup
  closings : (pairs.map Prod.snd).Nodup
  fits : ∀ p ∈ pairs, Fits opens suits events p

/-- How many pairs are made; `left` are the opening events not taken yet, the newest first. -/
def newestFirst (left : List α) : List α → ℕ
  | [] => 0
  | e :: events =>
      if opens e then newestFirst (e :: left) events
      else match left.find? (suits e) with
        | none => newestFirst left events
        | some _ => newestFirst (left.eraseP (suits e)) events + 1

/-- `n` pairs can be made one after the other, with the opening events `left` at hand. -/
inductive Pairable : List α → List α → ℕ → Prop
  | nil (left : List α) : Pairable left [] 0
  | opening {e : α} {left events : List α} {n : ℕ} (he : opens e = true)
      (h : Pairable (e :: left) events n) : Pairable left (e :: events) n
  | pass {e : α} {left events : List α} {n : ℕ} (he : opens e = false)
      (h : Pairable left events n) : Pairable left (e :: events) n
  | pair {e d : α} {left rest events : List α} {n : ℕ} (he : opens e = false)
      (hleft : left.Perm (d :: rest)) (hsuits : suits e d = true)
      (h : Pairable rest events n) : Pairable left (e :: events) (n + 1)

variable {opens suits}

theorem Pairable.perm {left left' events : List α} {n : ℕ} (h : Pairable opens suits left events n)
    (hperm : left.Perm left') : Pairable opens suits left' events n := by
  induction h generalizing left' with
  | nil left => exact .nil left'
  | opening he _ ih => exact .opening he (ih (hperm.cons _))
  | pass he _ ih => exact .pass he (ih hperm)
  | pair he hleft hsuits h _ => exact .pair he (hperm.symm.trans hleft) hsuits h

/-- Two events taken out of one list are the same or leave a common rest. -/
theorem taken_cases {left xs ys : List α} {a b : α} (hx : left.Perm (a :: xs))
    (hy : left.Perm (b :: ys)) :
    a = b ∧ xs.Perm ys ∨ ∃ common, xs.Perm (b :: common) ∧ ys.Perm (a :: common) := by
  by_cases hab : a = b
  · subst hab
    exact .inl ⟨rfl,(hx.symm.trans hy).cons_inv⟩
  · right
    have hmem : b ∈ xs := by
      have hin : b ∈ a :: xs := hx.mem_iff.mp (hy.mem_iff.mpr List.mem_cons_self)
      exact (List.mem_cons.mp hin).resolve_left fun heq => hab heq.symm
    obtain ⟨front,back,rfl⟩ := List.append_of_mem hmem
    have hmiddle : (front ++ b :: back).Perm (b :: (front ++ back)) := List.perm_middle
    refine ⟨front ++ back,hmiddle,?_⟩
    apply List.Perm.cons_inv (a := b)
    exact hy.symm.trans (hx.trans ((hmiddle.cons a).trans (List.Perm.swap ..)))

/-- One more opening event does no harm. -/
theorem Pairable.more {left events : List α} {n : ℕ} (h : Pairable opens suits left events n)
    (d : α) : Pairable opens suits (d :: left) events n := by
  induction h with
  | nil left => exact .nil (d :: left)
  | opening he _ ih => exact .opening he (ih.perm (List.Perm.swap ..))
  | pass he _ ih => exact .pass he ih
  | pair he hleft hsuits _ ih =>
      exact .pair he ((hleft.cons d).trans (List.Perm.swap ..)) hsuits ih

/-- One opening event less costs one pair at most. -/
theorem Pairable.less {left events : List α} {n : ℕ} (h : Pairable opens suits left events n)
    {d : α} {rest : List α} (hleft : left.Perm (d :: rest)) :
    ∃ m, n ≤ m + 1 ∧ Pairable opens suits rest events m := by
  induction h generalizing rest with
  | nil left => exact ⟨0,Nat.zero_le _,.nil rest⟩
  | opening he _ ih =>
      obtain ⟨m,hm,h⟩ := ih ((hleft.cons _).trans (List.Perm.swap ..))
      exact ⟨m,hm,.opening he h⟩
  | pass he _ ih =>
      obtain ⟨m,hm,h⟩ := ih hleft
      exact ⟨m,hm,.pass he h⟩
  | @pair e d' left rest' events n he hleft' hsuits h ih =>
      rcases taken_cases hleft' hleft with ⟨-,hrest⟩ | ⟨common,hrest',hrest⟩
      · exact ⟨n,Nat.le_refl _,.pass he (h.perm hrest)⟩
      · obtain ⟨m,hm,h⟩ := ih hrest'
        exact ⟨m + 1,by omega,.pair he hrest hsuits h⟩

/-- An opening event may be replaced by one that suits wherever it does. -/
theorem Pairable.exchange {left events : List α} {n : ℕ} (h : Pairable opens suits left events n)
    {d d' : α} {rest : List α} (hleft : left.Perm (d' :: rest))
    (hdom : ∀ e ∈ events, opens e = false → suits e d' = true → suits e d = true) :
    Pairable opens suits (d :: rest) events n := by
  induction h generalizing rest with
  | nil left => exact .nil (d :: rest)
  | opening he _ ih =>
      refine .opening he ((ih ((hleft.cons _).trans (List.Perm.swap ..)) ?_).perm
        (List.Perm.swap ..))
      exact fun e' he' => hdom e' (List.mem_cons_of_mem _ he')
  | pass he _ ih =>
      exact .pass he (ih hleft fun e' he' => hdom e' (List.mem_cons_of_mem _ he'))
  | @pair e c left rest' events n he hleft' hsuits h ih =>
      rcases taken_cases hleft' hleft with ⟨rfl,hrest⟩ | ⟨common,hrest',hrest⟩
      · exact .pair he (List.Perm.refl _) (hdom e List.mem_cons_self he hsuits) (h.perm hrest)
      · have hswap : (d :: rest).Perm (c :: d :: common) :=
          (hrest.cons d).trans (List.Perm.swap ..)
        exact .pair he hswap hsuits
          (ih hrest' fun e' he' => hdom e' (List.mem_cons_of_mem _ he'))

/-! ## The newest first -/

/-- The newest event that suits stands in front of the others that do. -/
theorem find?_cases {p : α → Bool} {left : List α} {d : α} (h : left.find? p = some d) :
    p d = true ∧ left.Perm (d :: left.eraseP p) ∧
      ∀ c ∈ left.eraseP p, p c = true → List.Sublist [d,c] left := by
  obtain ⟨hd,front,back,hsplit,hfront⟩ := List.find?_eq_some_iff_append.mp h
  have herase : left.eraseP p = front ++ back := by
    rw [hsplit,List.eraseP_append_right _ (by simpa using hfront),List.eraseP_cons_of_pos hd]
  refine ⟨hd,?_,?_⟩
  · rw [herase,hsplit]
    exact List.perm_middle
  · intro c hc hpc
    rw [herase] at hc
    rcases List.mem_append.mp hc with hin | hin
    · have hnot := hfront c hin
      simp [hpc] at hnot
    · rw [hsplit]
      exact ((List.singleton_sublist.mpr hin).cons_cons d).trans (List.sublist_append_right ..)

theorem newestFirst_pairable (left events : List α) :
    Pairable opens suits left events (newestFirst opens suits left events) := by
  induction events generalizing left with
  | nil => exact .nil left
  | cons e events ih =>
      unfold newestFirst
      split
      · rename_i he
        exact .opening he (ih (e :: left))
      · rename_i he
        have hclose : opens e = false := by simpa using he
        split
        · exact .pass hclose (ih left)
        · rename_i d hd
          obtain ⟨hsuits,hleft,-⟩ := find?_cases hd
          exact .pair hclose hleft hsuits (ih _)

/-- What is paired is at least half of what can be. -/
theorem le_two_mul_newestFirst {left events : List α} {n : ℕ}
    (h : Pairable opens suits left events n) : n ≤ 2 * newestFirst opens suits left events := by
  induction events generalizing left n with
  | nil =>
      cases h
      exact Nat.zero_le _
  | cons e events ih =>
      unfold newestFirst
      cases h with
      | opening he h =>
          rw [if_pos he]
          exact ih h
      | pass he h =>
          rw [if_neg (by simp [he])]
          split
          · exact ih h
          · rename_i d hd
            obtain ⟨m,hm,hless⟩ := h.less (find?_cases hd).2.1
            have hle := ih hless
            omega
      | @pair _ c _ rest _ n he hleft hsuits h =>
          rw [if_neg (by simp [he])]
          split
          · rename_i hnone
            have hmem : c ∈ left := hleft.mem_iff.mpr List.mem_cons_self
            exact absurd hsuits (List.find?_eq_none.mp hnone c hmem)
          · rename_i d hd
            rcases taken_cases hleft (find?_cases hd).2.1 with ⟨-,hrest⟩ | ⟨common,hrest,herase⟩
            · have hle := ih (h.perm hrest)
              omega
            · obtain ⟨m,hm,hless⟩ := h.less hrest
              have hle := ih ((hless.more c).perm herase.symm)
              omega

/-- An older event suits later on wherever a newer one does, if both suit the event between. -/
def Nested (opens : α → Bool) (suits : α → α → Bool) (events : List α) : Prop :=
  ∀ d d' e e', List.Sublist [d,d',e,e'] events → opens e = false → opens e' = false →
    suits e d = true → suits e d' = true → suits e' d' = true → suits e' d = true

theorem Nested.sublist {events events' : List α} (h : Nested opens suits events)
    (hsub : List.Sublist events' events) : Nested opens suits events' :=
  fun d d' e e' hfour => h d d' e e' (hfour.trans hsub)

/-- No choice of pairs has more of them. -/
theorem le_newestFirst {left events : List α} {n : ℕ}
    (hn : Nested opens suits (left.reverse ++ events)) (h : Pairable opens suits left events n) :
    n ≤ newestFirst opens suits left events := by
  induction events generalizing left n with
  | nil =>
      cases h
      exact Nat.zero_le _
  | cons e events ih =>
      have hlater : Nested opens suits (left.reverse ++ events) :=
        hn.sublist ((List.sublist_cons_self e events).append_left left.reverse)
      have herased : ∀ p : α → Bool, Nested opens suits ((left.eraseP p).reverse ++ events) :=
        fun p => hlater.sublist (((List.eraseP_sublist).reverse).append_right events)
      unfold newestFirst
      cases h with
      | opening he h =>
          rw [if_pos he]
          apply ih _ h
          rwa [List.reverse_cons,List.append_assoc]
      | pass he h =>
          rw [if_neg (by simp [he])]
          split
          · exact ih hlater h
          · rename_i d hd
            obtain ⟨m,hm,hless⟩ := h.less (find?_cases hd).2.1
            have hle := ih (herased _) hless
            omega
      | @pair _ c _ rest _ n he hleft hsuits h =>
          rw [if_neg (by simp [he])]
          split
          · rename_i hnone
            have hmem : c ∈ left := hleft.mem_iff.mpr List.mem_cons_self
            exact absurd hsuits (List.find?_eq_none.mp hnone c hmem)
          · rename_i d hd
            obtain ⟨hdsuits,hperm,hnewest⟩ := find?_cases hd
            rcases taken_cases hleft hperm with ⟨-,hrest⟩ | ⟨common,hrest,herase⟩
            · have hle := ih (herased _) (h.perm hrest)
              omega
            · have hdc : List.Sublist [d,c] left :=
                hnewest c (herase.mem_iff.mpr List.mem_cons_self) hsuits
              have hdom : ∀ e' ∈ events, opens e' = false → suits e' d = true →
                  suits e' c = true := by
                intro e' he' hclose hlast
                apply hn c d e e' _ he hclose hsuits hdsuits hlast
                have htwo : List.Sublist [e,e'] (e :: events) :=
                  (List.singleton_sublist.mpr he').cons_cons e
                exact hdc.reverse.append htwo
              have hle := ih (herased _) ((h.exchange hrest hdom).perm herase.symm)
              omega

/-! ## Positions -/

/-- Opening events with their positions in what has been read. -/
structure AtHand (opens : α → Bool) (done : List α) (left : List (ℕ × α)) : Prop where
  nodup : (left.map Prod.fst).Nodup
  opening : ∀ x ∈ left, done[x.1]? = some x.2 ∧ opens x.2 = true

theorem AtHand.lt {done : List α} {left : List (ℕ × α)} (h : AtHand opens done left) {i : ℕ}
    (hi : i ∈ left.map Prod.fst) : i < done.length := by
  obtain ⟨x,hx,rfl⟩ := List.mem_map.mp hi
  exact (List.getElem?_eq_some_iff.mp (h.opening x hx).1).1

theorem AtHand.read {done : List α} {left : List (ℕ × α)} (h : AtHand opens done left) (e : α) :
    AtHand opens (done ++ [e]) left where
  nodup := h.nodup
  opening x hx := by
    obtain ⟨hget,hopens⟩ := h.opening x hx
    rw [List.getElem?_append_left (List.getElem?_eq_some_iff.mp hget).1]
    exact ⟨hget,hopens⟩

theorem AtHand.opened {done : List α} {left : List (ℕ × α)} (h : AtHand opens done left) {e : α}
    (he : opens e = true) : AtHand opens (done ++ [e]) ((done.length,e) :: left) where
  nodup := by
    rw [List.map_cons,List.nodup_cons]
    exact ⟨fun hmem => absurd (h.lt hmem) (Nat.lt_irrefl _),h.nodup⟩
  opening x hx := by
    rcases List.mem_cons.mp hx with rfl | hx
    · exact ⟨List.getElem?_concat_length,he⟩
    · exact (h.read e).opening x hx

theorem AtHand.taken {done : List α} {left rest : List (ℕ × α)} {x : ℕ × α}
    (h : AtHand opens done left) (hperm : left.Perm (x :: rest)) :
    AtHand opens done rest ∧ x.1 ∉ rest.map Prod.fst := by
  have hnodup := (hperm.map Prod.fst).nodup_iff.mp h.nodup
  rw [List.map_cons,List.nodup_cons] at hnodup
  refine ⟨⟨hnodup.2,?_⟩,hnodup.1⟩
  intro y hy
  exact h.opening y (hperm.mem_iff.mpr (List.mem_cons_of_mem x hy))

/-- Pairs that close in what is still to be read. -/
structure Ahead (opens : α → Bool) (suits : α → α → Bool) (done events : List α)
    (left : List (ℕ × α)) (pairs : List (ℕ × ℕ)) : Prop where
  paired : Pairs opens suits (done ++ events) pairs
  openings : ∀ p ∈ pairs, p.1 ∈ left.map Prod.fst ∨ done.length ≤ p.1
  closings : ∀ p ∈ pairs, done.length ≤ p.2

/-- The pairs behind an event are among those from the event on. -/
theorem Ahead.unread {done events : List α} {e : α} {left rest : List (ℕ × α)}
    {pairs : List (ℕ × ℕ)} (h : Ahead opens suits (done ++ [e]) events rest pairs)
    (hrest : ∀ i ∈ rest.map Prod.fst, i ∈ left.map Prod.fst ∨ done.length ≤ i) :
    Ahead opens suits done (e :: events) left pairs := by
  obtain ⟨hpaired,hopenings,hclosings⟩ := h
  rw [List.append_assoc] at hpaired
  refine ⟨hpaired,?_,?_⟩
  · intro p hp
    rcases hopenings p hp with hmem | hle
    · exact hrest p.1 hmem
    · rw [List.length_append] at hle
      exact .inr (by omega)
  · intro p hp
    have hle := hclosings p hp
    rw [List.length_append] at hle
    omega

theorem getElem?_next (done events : List α) (e : α) :
    (done ++ e :: events)[done.length]? = some e := by
  rw [List.getElem?_append_right (Nat.le_refl _),Nat.sub_self]
  rfl

/-- An event that closes adds its own pair to those behind it. -/
theorem Ahead.closed {done events : List α} {e : α} {left rest : List (ℕ × α)} {x : ℕ × α}
    {pairs : List (ℕ × ℕ)} (hleft : AtHand opens done left) (hperm : left.Perm (x :: rest))
    (he : opens e = false) (hsuits : suits e x.2 = true)
    (h : Ahead opens suits (done ++ [e]) events rest pairs) :
    Ahead opens suits done (e :: events) left ((x.1,done.length) :: pairs) := by
  have hx : x ∈ left := hperm.mem_iff.mpr List.mem_cons_self
  obtain ⟨hget,hopens⟩ := hleft.opening x hx
  have hlt : x.1 < done.length := (List.getElem?_eq_some_iff.mp hget).1
  have hsub : ∀ i ∈ rest.map Prod.fst, i ∈ left.map Prod.fst := fun i hi =>
    (hperm.map Prod.fst).mem_iff.mpr (List.mem_cons_of_mem _ hi)
  have hunread : Ahead opens suits done (e :: events) left pairs :=
    h.unread fun i hi => .inl (hsub i hi)
  obtain ⟨hpaired,hopenings,hclosings⟩ := hunread
  refine ⟨⟨?_,?_,?_⟩,?_,?_⟩
  · rw [List.map_cons,List.nodup_cons]
    refine ⟨?_,hpaired.openings⟩
    intro hmem
    obtain ⟨p,hp,heq⟩ := List.mem_map.mp hmem
    rcases h.openings p hp with hrest | hle
    · exact (hleft.taken hperm).2 (heq ▸ hrest)
    · rw [List.length_append] at hle
      omega
  · rw [List.map_cons,List.nodup_cons]
    refine ⟨?_,hpaired.closings⟩
    intro hmem
    obtain ⟨p,hp,heq⟩ := List.mem_map.mp hmem
    have hle := h.closings p hp
    rw [List.length_append,List.length_singleton] at hle
    omega
  · intro p hp
    rcases List.mem_cons.mp hp with rfl | hp
    · refine ⟨hlt,x.2,e,?_,?_,hopens,he,hsuits⟩
      · rw [List.getElem?_append_left hlt]
        exact hget
      · exact getElem?_next done events e
    · exact hpaired.fits p hp
  · intro p hp
    rcases List.mem_cons.mp hp with rfl | hp
    · exact .inl (List.mem_map_of_mem hx)
    · exact hopenings p hp
  · intro p hp
    rcases List.mem_cons.mp hp with rfl | hp
    · exact Nat.le_refl _
    · exact hclosings p hp

theorem exists_ahead {left events : List α} {n : ℕ} (h : Pairable opens suits left events n)
    {done : List α} {hand : List (ℕ × α)} (hhand : AtHand opens done hand)
    (hleft : left.Perm (hand.map Prod.snd)) :
    ∃ pairs, Ahead opens suits done events hand pairs ∧ pairs.length = n := by
  induction h generalizing done hand with
  | nil left => exact ⟨[],⟨⟨List.nodup_nil,List.nodup_nil,by simp⟩,by simp,by simp⟩,rfl⟩
  | opening he _ ih =>
      obtain ⟨pairs,hpairs,hlength⟩ := ih (hhand.opened he) (hleft.cons _)
      refine ⟨pairs,hpairs.unread ?_,hlength⟩
      intro i hi
      rcases List.mem_cons.mp hi with heq | hmem
      · exact .inr (Nat.le_of_eq heq.symm)
      · exact .inl hmem
  | pass he _ ih =>
      obtain ⟨pairs,hpairs,hlength⟩ := ih (hhand.read _) hleft
      exact ⟨pairs,hpairs.unread fun i hi => .inl hi,hlength⟩
  | pair he hperm hsuits _ ih =>
      obtain ⟨x,hx,rfl⟩ := List.mem_map.mp
        ((hperm.symm.trans hleft).mem_iff.mp List.mem_cons_self)
      obtain ⟨front,back,rfl⟩ := List.append_of_mem hx
      have hmiddle : (front ++ x :: back).Perm (x :: (front ++ back)) := List.perm_middle
      have hrest := (hperm.symm.trans (hleft.trans (hmiddle.map Prod.snd))).cons_inv
      obtain ⟨pairs,hpairs,hlength⟩ := ih ((hhand.taken hmiddle).1.read _) hrest
      exact ⟨_,hpairs.closed hhand hmiddle he hsuits,by rw [List.length_cons,hlength]⟩

/-- The pairs from an event on are behind it, if it closes none of them. -/
theorem Ahead.read {done events : List α} {e : α} {left rest : List (ℕ × α)}
    {pairs : List (ℕ × ℕ)} (h : Ahead opens suits done (e :: events) left pairs)
    (hopenings : ∀ p ∈ pairs, p.1 ∈ left.map Prod.fst ∨ p.1 = done.length →
      p.1 ∈ rest.map Prod.fst)
    (hclosings : ∀ p ∈ pairs, p.2 ≠ done.length) :
    Ahead opens suits (done ++ [e]) events rest pairs where
  paired := by
    rw [List.append_assoc]
    exact h.paired
  openings p hp := by
    rw [List.length_append,List.length_singleton]
    rcases h.openings p hp with hmem | hle
    · exact .inl (hopenings p hp (.inl hmem))
    · rcases Nat.eq_or_lt_of_le hle with heq | hlt
      · exact .inl (hopenings p hp (.inr heq.symm))
      · exact .inr hlt
  closings p hp := by
    have hle := h.closings p hp
    have hne := hclosings p hp
    rw [List.length_append,List.length_singleton]
    omega

theorem Ahead.tail {done events : List α} {left : List (ℕ × α)} {p : ℕ × ℕ}
    {pairs : List (ℕ × ℕ)} (h : Ahead opens suits done events left (p :: pairs)) :
    Ahead opens suits done events left pairs where
  paired := ⟨(List.nodup_cons.mp h.paired.openings).2,(List.nodup_cons.mp h.paired.closings).2,
    fun q hq => h.paired.fits q (List.mem_cons_of_mem p hq)⟩
  openings q hq := h.openings q (List.mem_cons_of_mem p hq)
  closings q hq := h.closings q (List.mem_cons_of_mem p hq)

theorem Ahead.perm {done events : List α} {left : List (ℕ × α)} {pairs pairs' : List (ℕ × ℕ)}
    (h : Ahead opens suits done events left pairs) (hperm : pairs.Perm pairs') :
    Ahead opens suits done events left pairs' where
  paired := ⟨(hperm.map Prod.fst).nodup_iff.mp h.paired.openings,
    (hperm.map Prod.snd).nodup_iff.mp h.paired.closings,
    fun q hq => h.paired.fits q (hperm.mem_iff.mpr hq)⟩
  openings q hq := h.openings q (hperm.mem_iff.mpr hq)
  closings q hq := h.closings q (hperm.mem_iff.mpr hq)

/-- With nothing left to read there is nothing left to close. -/
theorem Ahead.eq_nil {done : List α} {hand : List (ℕ × α)} {pairs : List (ℕ × ℕ)}
    (h : Ahead opens suits done [] hand pairs) : pairs = [] := by
  apply List.eq_nil_iff_forall_not_mem.mpr
  intro p hp
  obtain ⟨-,-,e,-,hget,-⟩ := h.paired.fits p hp
  have hlt := (List.getElem?_eq_some_iff.mp hget).1
  have hle := h.closings p hp
  rw [List.append_nil] at hlt
  omega

theorem Ahead.not_closing {e : α} {done events : List α} {hand : List (ℕ × α)}
    {pairs : List (ℕ × ℕ)} (h : Ahead opens suits done (e :: events) hand pairs)
    (he : opens e = true) : ∀ p ∈ pairs, p.2 ≠ done.length := by
  intro p hp heq
  obtain ⟨-,-,e',-,hget,-,hclose,-⟩ := h.paired.fits p hp
  rw [heq,getElem?_next,Option.some.injEq] at hget
  rw [← hget,he] at hclose
  cases hclose

theorem Ahead.not_opening {e : α} {done events : List α} {hand : List (ℕ × α)}
    {pairs : List (ℕ × ℕ)} (h : Ahead opens suits done (e :: events) hand pairs)
    (he : opens e = false) : ∀ p ∈ pairs, p.1 ≠ done.length := by
  intro p hp heq
  obtain ⟨-,d,-,hget,-,hopens,-⟩ := h.paired.fits p hp
  rw [heq,getElem?_next,Option.some.injEq] at hget
  rw [← hget,he] at hopens
  cases hopens

/-- The opening event of a pair that closes now is at hand. -/
theorem Ahead.opening_at_hand {e : α} {done events : List α} {hand : List (ℕ × α)}
    {pairs : List (ℕ × ℕ)} {p : ℕ × ℕ} (hhand : AtHand opens done hand)
    (h : Ahead opens suits done (e :: events) hand pairs) (hp : p ∈ pairs)
    (hpk : p.2 = done.length) : ∃ x ∈ hand, x.1 = p.1 ∧ suits e x.2 = true := by
  obtain ⟨hlt,d,e',hd,he',-,-,hsuits⟩ := h.paired.fits p hp
  rw [hpk,getElem?_next,Option.some.injEq] at he'
  obtain ⟨x,hx,hxp⟩ : ∃ x ∈ hand, x.1 = p.1 := by
    rcases h.openings p hp with hmem | hle
    · exact List.mem_map.mp hmem
    · omega
  have hxd : x.2 = d := by
    have hget := (hhand.opening x hx).1
    rw [List.getElem?_append_left (by omega),← hxp,hget] at hd
    exact Option.some.inj hd
  refine ⟨x,hx,hxp,?_⟩
  rw [hxd,he']
  exact hsuits

/-- The pair that closes now leaves the hand with its opening event. -/
theorem Ahead.after_closing {e : α} {done events : List α} {hand hand' : List (ℕ × α)} {x : ℕ × α}
    {pairs : List (ℕ × ℕ)} {p : ℕ × ℕ} (h : Ahead opens suits done (e :: events) hand (p :: pairs))
    (he : opens e = false) (hpk : p.2 = done.length) (hxp : x.1 = p.1)
    (hmiddle : hand.Perm (x :: hand')) : Ahead opens suits (done ++ [e]) events hand' pairs := by
  have hopenings := List.nodup_cons.mp h.paired.openings
  have hclosings := List.nodup_cons.mp h.paired.closings
  apply h.tail.read
  · rintro q hq (hmem | heq)
    · have hin := (hmiddle.map Prod.fst).mem_iff.mp hmem
      refine (List.mem_cons.mp hin).resolve_left ?_
      intro heq
      exact hopenings.1 (hxp ▸ heq ▸ List.mem_map_of_mem hq)
    · exact absurd heq (h.not_opening he q (List.mem_cons_of_mem p hq))
  · intro q hq heq
    exact hclosings.1 (hpk ▸ heq ▸ List.mem_map_of_mem hq)

/-- Pairs at hand can be made one after the other. -/
theorem pairable_of_ahead {events done : List α} {hand : List (ℕ × α)} {pairs : List (ℕ × ℕ)}
    (hhand : AtHand opens done hand) (h : Ahead opens suits done events hand pairs) :
    Pairable opens suits (hand.map Prod.snd) events pairs.length := by
  induction events generalizing done hand pairs with
  | nil =>
      rw [h.eq_nil]
      exact .nil _
  | cons e events ih =>
      cases he : opens e with
      | true =>
          refine .opening he (ih (hhand.opened he) (h.read ?_ (h.not_closing he)))
          rintro p - (hmem | heq)
          · exact List.mem_cons_of_mem _ hmem
          · rw [heq]
            exact List.mem_cons_self
      | false =>
          by_cases hcloses : ∃ p ∈ pairs, p.2 = done.length
          · obtain ⟨p,hp,hpk⟩ := hcloses
            obtain ⟨x,hx,hxp,hsuits⟩ := h.opening_at_hand hhand hp hpk
            obtain ⟨front,back,rfl⟩ := List.append_of_mem hp
            obtain ⟨before,after,rfl⟩ := List.append_of_mem hx
            have hperm : (front ++ p :: back).Perm (p :: (front ++ back)) := List.perm_middle
            have hmiddle : (before ++ x :: after).Perm (x :: (before ++ after)) := List.perm_middle
            have hpairs := ih ((hhand.taken hmiddle).1.read e)
              ((h.perm hperm).after_closing he hpk hxp hmiddle)
            rw [hperm.length_eq]
            exact .pair he (hmiddle.map Prod.snd) hsuits hpairs
          · refine .pass he (ih (hhand.read e) (h.read ?_ ?_))
            · rintro p hp (hmem | heq)
              · exact hmem
              · exact absurd heq (h.not_opening he p hp)
            · intro p hp heq
              exact hcloses ⟨p,hp,heq⟩

/-- Pairs without a common position are as many as can be made one after the other. -/
theorem pairable_iff {events : List α} {n : ℕ} :
    Pairable opens suits [] events n ↔
      ∃ pairs, Pairs opens suits events pairs ∧ pairs.length = n := by
  have hhand : AtHand opens ([] : List α) [] := ⟨List.nodup_nil,by simp⟩
  constructor
  · intro h
    obtain ⟨pairs,hpairs,hlength⟩ := exists_ahead h hhand (List.Perm.refl _)
    exact ⟨pairs,hpairs.paired,hlength⟩
  · rintro ⟨pairs,hpairs,rfl⟩
    refine pairable_of_ahead hhand ⟨hpairs,?_,?_⟩
    · exact fun p _ => .inr (Nat.zero_le _)
    · exact fun p _ => Nat.zero_le _

end Creditra.GreedyPairing
