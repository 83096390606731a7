import Mathlib.Data.List.Basic
import Mathlib.Data.List.DropRight
import Mathlib.Data.List.TakeWhile

/-!
# Replacing patterns that keep to word boundaries

The words of a text are its longest runs of word characters. A pattern that begins
and ends at word boundaries covers whole words, so that replacing its matches
leaves every other word as it was, whatever stands between the words.

A pattern is given by a function that finds the length of its match at the front
of a text, told whether a word character stands before.
-/
namespace Creditra.WordPatterns

variable {α : Type*} (word : α → Bool)

/-! ## Words -/

/-- The word that ends here, if there is one. -/
def flush : List α → List (List α)
  | [] => []
  | c :: cs => [c :: cs]

/-- The words of a text that goes on a word begun before. -/
def wordsFrom (begun : List α) : List α → List (List α)
  | [] => flush begun
  | c :: cs => if word c then wordsFrom (begun ++ [c]) cs else flush begun ++ wordsFrom [] cs

def words (text : List α) : List (List α) := wordsFrom word [] text

/-- No word goes on into the text. -/
def StartsPlain (text : List α) : Prop := ∀ c ∈ text.head?, word c = false

/-- No word goes on behind the text. -/
def EndsPlain (text : List α) : Prop := ∀ c ∈ text.getLast?, word c = false

variable {word}

theorem flush_of_ne {l : List α} (h : l ≠ []) : flush l = [l] := by
  cases l with
  | nil => exact absurd rfl h
  | cons c cs => rfl

theorem wordsFrom_of_startsPlain {text : List α} (h : StartsPlain word text) (begun : List α) :
    wordsFrom word begun text = flush begun ++ words word text := by
  cases text with
  | nil => rw [words,wordsFrom,wordsFrom,flush,List.append_nil]
  | cons c cs =>
      have hc : word c = false := h c rfl
      rw [words,wordsFrom,wordsFrom,if_neg (by rw [hc]; exact Bool.false_ne_true),
        if_neg (by rw [hc]; exact Bool.false_ne_true)]
      rfl

theorem wordsFrom_append_of_startsPlain (x : List α) {y : List α} (h : StartsPlain word y)
    (begun : List α) : wordsFrom word begun (x ++ y) = wordsFrom word begun x ++ words word y := by
  induction x generalizing begun with
  | nil => exact wordsFrom_of_startsPlain h begun
  | cons c x ih =>
      rw [List.cons_append,wordsFrom,wordsFrom,ih,ih]
      split_ifs
      · rfl
      · rw [List.append_assoc]

theorem wordsFrom_append_of_endsPlain {x : List α} (hne : x ≠ []) (h : EndsPlain word x)
    (y begun : List α) : wordsFrom word begun (x ++ y) = wordsFrom word begun x ++ words word y := by
  induction x generalizing begun with
  | nil => exact absurd rfl hne
  | cons c x ih =>
      cases x with
      | nil =>
          have hc : word c = false := h c rfl
          rw [List.cons_append,wordsFrom,wordsFrom,if_neg (by rw [hc]; exact Bool.false_ne_true),
            if_neg (by rw [hc]; exact Bool.false_ne_true),wordsFrom,flush,List.append_nil]
          rfl
      | cons d x =>
          have hx : EndsPlain word (d :: x) := fun e he => h e (by rwa [List.getLast?_cons_cons])
          rw [List.cons_append,wordsFrom,wordsFrom,ih (List.cons_ne_nil _ _) hx,
            ih (List.cons_ne_nil _ _) hx]
          split_ifs
          · rfl
          · rw [List.append_assoc]

theorem wordsFrom_word (t y begun : List α) (h : ∀ c ∈ t, word c = true) :
    wordsFrom word begun (t ++ y) = wordsFrom word (begun ++ t) y := by
  induction t generalizing begun with
  | nil => rw [List.nil_append,List.append_nil]
  | cons c t ih =>
      rw [List.cons_append,wordsFrom,if_pos (h c List.mem_cons_self),
        ih _ fun d hd => h d (List.mem_cons_of_mem c hd),List.append_assoc,List.singleton_append]

/-- A stretch of word characters between plain ends. -/
def IsWord (word : α → Bool) (text t : List α) : Prop :=
  ∃ x y, text = x ++ t ++ y ∧ t ≠ [] ∧ (∀ c ∈ t, word c = true) ∧ EndsPlain word x ∧
    StartsPlain word y

theorem startsPlain_nil : StartsPlain word ([] : List α) := by
  intro c hc
  cases hc

theorem startsPlain_cons {c : α} (h : word c = false) (cs : List α) :
    StartsPlain word (c :: cs) := by
  intro d hd
  obtain rfl : c = d := Option.some.inj hd
  exact h

theorem endsPlain_append_cons {c : α} (hc : word c = false) {x : List α} (hx : EndsPlain word x)
    (begun : List α) : EndsPlain word (begun ++ c :: x) := by
  intro d hd
  cases x with
  | nil =>
      rw [List.getLast?_append,List.getLast?_singleton] at hd
      obtain rfl : c = d := Option.some.inj hd
      exact hc
  | cons e x =>
      have hlast : (begun ++ c :: e :: x).getLast? = (e :: x).getLast? := by
        rw [List.getLast?_append,List.getLast?_cons_cons,
          List.getLast?_eq_some_getLast (List.cons_ne_nil e x)]
        rfl
      rw [hlast] at hd
      exact hx d hd

theorem isWord_of_mem_wordsFrom {t : List α} (text begun : List α)
    (hbegun : ∀ c ∈ begun, word c = true) (h : t ∈ wordsFrom word begun text) :
    IsWord word (begun ++ text) t := by
  induction text generalizing begun with
  | nil =>
      cases begun with
      | nil => cases h
      | cons c cs =>
          obtain rfl := List.mem_singleton.mp h
          exact ⟨[],[],rfl,List.cons_ne_nil c cs,hbegun,startsPlain_nil,startsPlain_nil⟩
  | cons c text ih =>
      rw [wordsFrom] at h
      split_ifs at h with hc
      · have hnext : ∀ d ∈ begun ++ [c], word d = true := by
          intro d hd
          rcases List.mem_append.mp hd with hd | hd
          · exact hbegun d hd
          · exact List.mem_singleton.mp hd ▸ hc
        have hword := ih (begun ++ [c]) hnext h
        rwa [List.append_assoc,List.singleton_append] at hword
      · have hplain : word c = false := Bool.eq_false_iff.mpr hc
        rcases List.mem_append.mp h with hflush | hrest
        · cases begun with
          | nil => cases hflush
          | cons d ds =>
              obtain rfl := List.mem_singleton.mp hflush
              exact ⟨[],c :: text,rfl,List.cons_ne_nil d ds,hbegun,startsPlain_nil,
                startsPlain_cons hplain text⟩
        · obtain ⟨x,y,htext,hne,hall,hx,hy⟩ := ih [] (fun d hd => by cases hd) hrest
          rw [List.nil_append] at htext
          refine ⟨begun ++ c :: x,y,?_,hne,hall,endsPlain_append_cons hplain hx begun,hy⟩
          rw [htext]
          simp only [List.append_assoc,List.cons_append]

theorem mem_words_iff {text t : List α} : t ∈ words word text ↔ IsWord word text t := by
  constructor
  · intro h
    exact isWord_of_mem_wordsFrom text [] (fun c hc => by cases hc) h
  · intro h
    obtain ⟨x,y,rfl,hne,ht,hx,hy⟩ := h
    have hrest : words word (t ++ y) = t :: words word y := by
      rw [words,wordsFrom_word t y [] ht,List.nil_append,wordsFrom_of_startsPlain hy,
        flush_of_ne hne]
      rfl
    rw [List.append_assoc]
    cases x with
    | nil =>
        rw [List.nil_append,hrest]
        exact List.mem_cons_self
    | cons c x =>
        rw [words,wordsFrom_append_of_endsPlain (List.cons_ne_nil c x) hx,hrest]
        exact List.mem_append_right _ List.mem_cons_self

theorem length_le_of_mem_words {text t : List α} (h : t ∈ words word text) :
    t.length ≤ text.length := by
  obtain ⟨x,y,rfl,-⟩ := mem_words_iff.mp h
  simp only [List.length_append]
  omega

/-- A stretch of word characters lies within a word. -/
theorem exists_word_around (x m y : List α) (hne : m ≠ []) (hm : ∀ c ∈ m, word c = true) :
    ∃ x' a b y', x = x' ++ a ∧ y = b ++ y' ∧ (∀ c ∈ a, word c = true) ∧
      (∀ c ∈ b, word c = true) ∧ EndsPlain word x' ∧ StartsPlain word y' ∧
      a ++ m ++ b ∈ words word (x ++ m ++ y) := by
  have hx : x = x.rdropWhile word ++ x.rtakeWhile word :=
    List.rdropWhile_append_rtakeWhile.symm
  have hy : y = y.takeWhile word ++ y.dropWhile word := List.takeWhile_append_dropWhile.symm
  have hends : EndsPlain word (x.rdropWhile word) := by
    intro c hc
    have hne' : x.rdropWhile word ≠ [] := by
      intro hnil
      rw [hnil] at hc
      cases hc
    rw [List.getLast?_eq_some_getLast hne'] at hc
    obtain rfl := Option.some.inj hc
    exact Bool.eq_false_iff.mpr (List.rdropWhile_last_not word x hne')
  have hstarts : StartsPlain word (y.dropWhile word) := by
    intro c hc
    have hhead := List.head?_dropWhile_not word y
    rw [Option.mem_def.mp hc] at hhead
    exact hhead
  have hbefore : ∀ c ∈ x.rtakeWhile word, word c = true := fun c hc => List.mem_rtakeWhile_imp hc
  have hafter : ∀ c ∈ y.takeWhile word, word c = true := fun c hc => List.mem_takeWhile_imp hc
  refine ⟨x.rdropWhile word,x.rtakeWhile word,y.takeWhile word,y.dropWhile word,hx,hy,hbefore,
    hafter,hends,hstarts,mem_words_iff.mpr ⟨x.rdropWhile word,y.dropWhile word,?_,?_,?_,hends,
    hstarts⟩⟩
  · nth_rewrite 1 [hx,hy]
    simp only [List.append_assoc]
  · intro hnil
    simp only [List.append_eq_nil_iff] at hnil
    exact hne hnil.1.2
  · intro c hc
    simp only [List.mem_append] at hc
    rcases hc with (hc | hc) | hc
    · exact hbefore c hc
    · exact hm c hc
    · exact hafter c hc

/-! ## Replacing -/

/-- `text.replace(pattern, put)` with the global flag; `skip` counts the characters
of the current match that are still to be passed over. -/
def replaceAll (word : α → Bool) (find : Bool → List α → Option ℕ) (put : List α → List α) :
    ℕ → Bool → List α → List α
  | _, _, [] => []
  | skip + 1, _, c :: cs => replaceAll word find put skip (word c) cs
  | 0, afterWord, c :: cs =>
      match find afterWord (c :: cs) with
      | some (n + 1) => put ((c :: cs).take (n + 1)) ++ replaceAll word find put n (word c) cs
      | _ => c :: replaceAll word find put 0 (word c) cs

/-- A pattern that begins and ends at word boundaries, and ends in a word; `K` are
words that it matches wherever they stand. -/
structure Bounded (word : α → Bool) (find : Bool → List α → Option ℕ) (K : List α → Prop) :
    Prop where
  within : ∀ {afterWord text n}, find afterWord text = some n → 0 < n ∧ n ≤ text.length
  front : ∀ {text n}, find true text = some n → StartsPlain word text
  back : ∀ {afterWord text n}, find afterWord text = some n → StartsPlain word (text.drop n)
  finds : ∀ {text}, K (text.takeWhile word) → find false text ≠ none

/-- Words before and after replacing: a word that is none of `K` stays, and the
words of a match make place for those of its replacement. -/
inductive Rewritten (word : α → Bool) (K M : List α → Prop) (put : List α → List α) :
    List (List α) → List (List α) → Prop
  | nil : Rewritten word K M put [] []
  | keep {t : List α} {ts us : List (List α)} (ht : ¬ K t) (h : Rewritten word K M put ts us) :
      Rewritten word K M put (t :: ts) (t :: us)
  | replace {m : List α} {ts us : List (List α)} (hm : M m) (h : Rewritten word K M put ts us) :
      Rewritten word K M put (words word m ++ ts) (words word (put m) ++ us)

section Rewriting
variable {find : Bool → List α → Option ℕ} {put : List α → List α} {K M : List α → Prop}

/-- Passing over the rest of a match. -/
theorem replaceAll_skip (n : ℕ) (afterWord : Bool) (text : List α) (hn : 0 < n)
    (hlength : n ≤ text.length) :
    ∃ flag, replaceAll word find put n afterWord text =
      replaceAll word find put 0 flag (text.drop n) := by
  induction text generalizing n afterWord with
  | nil =>
      rw [List.length_nil] at hlength
      omega
  | cons c text ih =>
      cases n with
      | zero => omega
      | succ n =>
          rw [replaceAll,List.drop_succ_cons]
          cases n with
          | zero => exact ⟨word c,by rw [List.drop_zero]⟩
          | succ n =>
              rw [List.length_cons] at hlength
              exact ih (n + 1) (word c) (by omega) (by omega)

/-- One step of the replacement: a match is replaced, or a character is copied. -/
theorem replaceAll_cons (hfind : Bounded word find K) (put : List α → List α) (afterWord : Bool)
    (c : α) (cs : List α) :
    (∃ n flag, find afterWord (c :: cs) = some (n + 1) ∧
      replaceAll word find put 0 afterWord (c :: cs) =
        put ((c :: cs).take (n + 1)) ++ replaceAll word find put 0 flag ((c :: cs).drop (n + 1))) ∨
    (find afterWord (c :: cs) = none ∧ replaceAll word find put 0 afterWord (c :: cs) =
      c :: replaceAll word find put 0 (word c) cs) := by
  cases h : find afterWord (c :: cs) with
  | none => exact .inr ⟨rfl,by rw [replaceAll,h]⟩
  | some n =>
      obtain ⟨hpos,hlength⟩ := hfind.within h
      cases n with
      | zero => omega
      | succ n =>
          refine .inl ⟨n,?_⟩
          cases n with
          | zero => exact ⟨word c,rfl,by rw [replaceAll,h,List.drop_succ_cons,List.drop_zero]⟩
          | succ n =>
              rw [List.length_cons] at hlength
              obtain ⟨flag,hflag⟩ :=
                @replaceAll_skip α word find put (n + 1) (word c) cs (by omega) (by omega)
              refine ⟨flag,rfl,?_⟩
              rw [replaceAll,h,List.drop_succ_cons,← hflag]

theorem startsPlain_append {x : List α} (hne : x ≠ []) (h : StartsPlain word x) (y : List α) :
    StartsPlain word (x ++ y) := by
  cases x with
  | nil => exact absurd rfl hne
  | cons c x => exact h

theorem startsPlain_take {c : α} {cs : List α} (h : StartsPlain word (c :: cs)) (n : ℕ) :
    StartsPlain word ((c :: cs).take (n + 1)) := h

variable (hfind : Bounded word find K)
  (hmatch : ∀ {afterWord text n}, find afterWord text = some n → M (text.take n))
  (hput : ∀ {m}, M m → put m ≠ [] ∧ (StartsPlain word m → StartsPlain word (put m)))
include hfind hmatch hput

theorem startsPlain_replaceAll {text : List α} (h : StartsPlain word text) (afterWord : Bool) :
    StartsPlain word (replaceAll word find put 0 afterWord text) := by
  cases text with
  | nil => exact h
  | cons c cs =>
      rcases replaceAll_cons hfind put afterWord c cs with ⟨n,flag,hfound,heq⟩ | ⟨-,heq⟩
      · obtain ⟨hne,hplain⟩ := hput (hmatch hfound)
        rw [heq]
        exact startsPlain_append hne (hplain (startsPlain_take h n)) _
      · rw [heq]
        exact startsPlain_cons (h c rfl) _

omit hfind hmatch hput in
theorem rewritten_flush {begun : List α} {ts us : List (List α)} (hbegun : begun ≠ [] → ¬ K begun)
    (h : Rewritten word K M put ts us) :
    Rewritten word K M put (flush begun ++ ts) (flush begun ++ us) := by
  cases begun with
  | nil => exact h
  | cons c cs => exact .keep (hbegun (List.cons_ne_nil c cs)) h

/-- A match behind a word that is begun ends that word. -/
theorem rewritten_match {text begun : List α} {afterWord flag : Bool} {n : ℕ}
    (hfound : find afterWord text = some n) (hbegun : begun ≠ [] → afterWord = true)
    (hK : begun ≠ [] → ¬ K (begun ++ text.takeWhile word))
    (hrest : Rewritten word K M put (words word (text.drop n))
      (words word (replaceAll word find put 0 flag (text.drop n)))) :
    Rewritten word K M put (wordsFrom word begun text)
      (wordsFrom word begun (put (text.take n) ++
        replaceAll word find put 0 flag (text.drop n))) := by
  have hback := hfind.back hfound
  have hout := startsPlain_replaceAll hfind hmatch hput hback flag
  obtain ⟨hne,hplain⟩ := hput (hmatch hfound)
  obtain ⟨hpos,-⟩ := hfind.within hfound
  have hwords : words word text = words word (text.take n) ++ words word (text.drop n) := by
    nth_rewrite 1 [← List.take_append_drop n text]
    exact wordsFrom_append_of_startsPlain _ hback []
  have hputs : words word (put (text.take n) ++ replaceAll word find put 0 flag (text.drop n)) =
      words word (put (text.take n)) ++
        words word (replaceAll word find put 0 flag (text.drop n)) :=
    wordsFrom_append_of_startsPlain _ hout []
  cases begun with
  | nil =>
      change Rewritten word K M put (words word text) (words word _)
      rw [hwords,hputs]
      exact .replace (hmatch hfound) hrest
  | cons b bs =>
      have hafter := hbegun (List.cons_ne_nil b bs)
      rw [hafter] at hfound
      have hstarts := hfind.front hfound
      have htake : StartsPlain word (text.take n) := by
        cases text with
        | nil => simpa using hstarts
        | cons c cs =>
            cases n with
            | zero => exact absurd hpos (Nat.lt_irrefl 0)
            | succ n => exact startsPlain_take hstarts n
      have hkept : ¬ K (b :: bs) := by
        have hnone : text.takeWhile word = [] := by
          cases text with
          | nil => rfl
          | cons c cs => rw [List.takeWhile_cons,hstarts c rfl]; rfl
        have hK' := hK (List.cons_ne_nil b bs)
        rwa [hnone,List.append_nil] at hK'
      rw [wordsFrom_of_startsPlain hstarts,
        wordsFrom_of_startsPlain (startsPlain_append hne (hplain htake) _),hwords,hputs]
      exact rewritten_flush (fun _ => hkept) (.replace (hmatch hfound) hrest)

omit hmatch hput in
/-- A word stays out of `K` when it goes on; where it begins, the pattern has been tried. -/
theorem not_begun_cons {begun cs : List α} {c : α} {afterWord : Bool} (hc : word c = true)
    (hflag : (afterWord = true ↔ begun ≠ []) ∨ begun = [] ∧ StartsPlain word (c :: cs))
    (hK : begun ≠ [] → ¬ K (begun ++ (c :: cs).takeWhile word))
    (hnone : find afterWord (c :: cs) = none) : ¬ K (begun ++ [c] ++ cs.takeWhile word) := by
  have hwhole : begun ++ [c] ++ cs.takeWhile word = begun ++ (c :: cs).takeWhile word := by
    rw [List.takeWhile_cons_of_pos hc,List.append_assoc,List.singleton_append]
  rw [hwhole]
  cases begun with
  | cons b bs => exact hK (List.cons_ne_nil b bs)
  | nil =>
      have hafter : afterWord = false := by
        rcases hflag with hflag | ⟨-,hplain⟩
        · exact Bool.eq_false_iff.mpr fun h => hflag.mp h rfl
        · rw [hplain c rfl] at hc
          exact absurd hc Bool.false_ne_true
      intro hfound
      rw [hafter] at hnone
      exact hfind.finds hfound hnone

/-- Words are kept or replaced as a whole. A word that is begun is none of `K`. -/
theorem rewritten_wordsFrom (length : ℕ) :
    ∀ (text begun : List α) (afterWord : Bool), text.length ≤ length →
      ((afterWord = true ↔ begun ≠ []) ∨ begun = [] ∧ StartsPlain word text) →
      (begun ≠ [] → ¬ K (begun ++ text.takeWhile word)) →
      Rewritten word K M put (wordsFrom word begun text)
        (wordsFrom word begun (replaceAll word find put 0 afterWord text)) := by
  have hnil : ∀ {begun : List α}, (begun ≠ [] → ¬ K (begun ++ [])) →
      Rewritten word K M put (flush begun) (flush begun) := by
    intro begun hK
    rw [List.append_nil] at hK
    have h : Rewritten word K M put (flush begun ++ []) (flush begun ++ []) :=
      rewritten_flush hK .nil
    rwa [List.append_nil] at h
  induction length with
  | zero =>
      intro text begun afterWord hlength _ hK
      obtain rfl := List.length_eq_zero_iff.mp (Nat.le_zero.mp hlength)
      exact hnil hK
  | succ length ih =>
      intro text begun afterWord hlength hflag hK
      cases text with
      | nil => exact hnil hK
      | cons c cs =>
          rw [List.length_cons] at hlength
          rcases replaceAll_cons hfind put afterWord c cs with ⟨n,flag,hfound,heq⟩ | ⟨hnone,heq⟩
          · rw [heq]
            have hbegun : begun ≠ [] → afterWord = true := by
              intro hne
              rcases hflag with hflag | ⟨hempty,-⟩
              · exact hflag.mpr hne
              · exact absurd hempty hne
            refine rewritten_match hfind hmatch hput hfound hbegun hK (ih _ _ flag ?_ ?_ ?_)
            · rw [List.length_drop,List.length_cons]
              omega
            · exact .inr ⟨rfl,hfind.back hfound⟩
            · exact fun hne => absurd rfl hne
          · rw [heq,wordsFrom,wordsFrom]
            split_ifs with hc
            · refine ih cs (begun ++ [c]) (word c) (by omega) (.inl ?_) ?_
              · exact ⟨fun _ => by simp,fun _ => hc⟩
              · intro _
                exact not_begun_cons hfind hc hflag hK hnone
            · have hplain : word c = false := Bool.eq_false_iff.mpr hc
              refine rewritten_flush ?_ (ih cs [] (word c) (by omega) (.inl ?_) ?_)
              · intro hne
                have hK' := hK hne
                rwa [List.takeWhile_cons,hplain,if_neg Bool.false_ne_true,List.append_nil] at hK'
              · rw [hplain]
                exact ⟨fun h => absurd h Bool.false_ne_true,fun h => absurd rfl h⟩
              · exact fun hne => absurd rfl hne

theorem rewritten_words (text : List α) :
    Rewritten word K M put (words word text)
      (words word (replaceAll word find put 0 false text)) :=
  rewritten_wordsFrom hfind hmatch hput text.length text [] false (Nat.le_refl _)
    (.inl ⟨fun h => absurd h Bool.false_ne_true,fun h => absurd rfl h⟩) fun h => absurd rfl h

end Rewriting

section Consequences
variable {put : List α → List α} {K M : List α → Prop} {ts us : List (List α)}

/-- A word after replacing was there before, or belongs to a replacement. -/
theorem Rewritten.of_mem (h : Rewritten word K M put ts us) {u : List α} (hu : u ∈ us) :
    (u ∈ ts ∧ ¬ K u) ∨ ∃ m, M m ∧ u ∈ words word (put m) := by
  induction h with
  | nil => cases hu
  | keep ht _ ih =>
      rcases List.mem_cons.mp hu with rfl | hu
      · exact .inl ⟨List.mem_cons_self,ht⟩
      · rcases ih hu with ⟨hmem,hK⟩ | hput
        · exact .inl ⟨List.mem_cons_of_mem _ hmem,hK⟩
        · exact .inr hput
  | @replace m ts us hm _ ih =>
      rcases List.mem_append.mp hu with hu | hu
      · exact .inr ⟨m,hm,hu⟩
      · rcases ih hu with ⟨hmem,hK⟩ | hput
        · exact .inl ⟨List.mem_append_right _ hmem,hK⟩
        · exact .inr hput

/-- A word before replacing is there afterwards, or belongs to a match. -/
theorem Rewritten.mem_of (h : Rewritten word K M put ts us) {t : List α} (ht : t ∈ ts) :
    t ∈ us ∨ ∃ m, M m ∧ t ∈ words word m := by
  induction h with
  | nil => cases ht
  | keep _ _ ih =>
      rcases List.mem_cons.mp ht with rfl | ht
      · exact .inl List.mem_cons_self
      · rcases ih ht with hmem | hm
        · exact .inl (List.mem_cons_of_mem _ hmem)
        · exact .inr hm
  | @replace m ts us hm _ ih =>
      rcases List.mem_append.mp ht with ht | ht
      · exact .inr ⟨m,hm,ht⟩
      · rcases ih ht with hmem | hm
        · exact .inl (List.mem_append_right _ hmem)
        · exact .inr hm

end Consequences

end Creditra.WordPatterns
