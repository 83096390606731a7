import Creditra.JsStrings
import Creditra.StellarDiagnostics
import Creditra.WordPatterns

/-!
# Redacted texts

`redactLogString` of `utils/logRedact.ts`: secret seeds, muxed accounts, e-mail
addresses and account addresses are replaced, in this order. All four patterns
begin and end at word boundaries, so they cover whole words; a key that adjoins
another word character is no word, and stays.
-/
namespace Creditra.LogRedaction
open JsStrings StellarDiagnostics WordPatterns

/-! ## The patterns -/

/-- `\b<lead>[A-Z2-7]{count}\b`, for a lead that is a word character. -/
def keyAt (lead : Char) (count : ℕ) (afterWord : Bool) (cs : List Char) : Option ℕ :=
  if afterWord = false ∧ cs.head? = some lead ∧ count + 1 ≤ cs.length ∧
      ((cs.drop 1).take count).all isKeyChar ∧
      (cs.drop (count + 1)).head?.all fun c => ! isWordChar c then
    some (count + 1)
  else none

/-- `[A-Z]`, whatever the case. -/
def isLetter (c : Char) : Bool := c.isUpper ∨ c.isLower

/-- `[A-Z0-9._%+-]`. -/
def isLocal (c : Char) : Bool :=
  isLetter c ∨ c.isDigit ∨ c = '.' ∨ c = '_' ∨ c = '%' ∨ c = '+' ∨ c = '-'

/-- `[A-Z0-9.-]`. -/
def isDomain (c : Char) : Bool := isLetter c ∨ c.isDigit ∨ c = '.' ∨ c = '-'

/-- `\.[A-Z]{2,}\b`. With fewer letters than there are, a letter would follow, and
no boundary. -/
def topLevelAt : List Char → Option ℕ
  | '.' :: cs =>
      let letters := (cs.takeWhile isLetter).length
      if 2 ≤ letters ∧ (cs.drop letters).head?.all fun c => ! isWordChar c then some (letters + 1)
      else none
  | _ => none

/-- `[A-Z0-9.-]+\.[A-Z]{2,}\b`: the first part gives characters back one by one. -/
def domainAt (cs : List Char) : Option ℕ :=
  ((List.range (cs.takeWhile isDomain).length).map (· + 1)).reverse.findSome? fun k =>
    (topLevelAt (cs.drop k)).map (k + ·)

/-- `\b[A-Z0-9._%+-]+@[A-Z0-9.-]+\.[A-Z]{2,}\b`. The class of the first part lacks the
`@` that has to follow, so the part is as long as it can be. -/
def emailAt (afterWord : Bool) : List Char → Option ℕ
  | [] => none
  | c :: cs =>
      let localPart := ((c :: cs).takeWhile isLocal).length
      if afterWord = isWordChar c ∨ localPart = 0 then none
      else match (c :: cs).drop localPart with
        | '@' :: rest => (domainAt rest).map (localPart + 1 + ·)
        | _ => none

/-! ## Replacing -/

def truncateAddress (address : List Char) : List Char :=
  address.take 6 ++ "...".toList ++ address.drop (address.length - 4)

def replace (find : Bool → List Char → Option ℕ) (put : List Char → List Char)
    (text : List Char) : List Char :=
  replaceAll isWordChar find put 0 false text

def isLogRedactionDebugEnabled (flag : Option String) : Bool :=
  match flag with
  | none => false
  | some flag =>
      let normalized := (trim flag).map Char.toLower
      normalized = "true" || normalized = "1"

def redactLogString (value : String) (debugEnabled : Bool) : String :=
  if debugEnabled then value
  else
    let text := value.toList
    let text := replace (keyAt 'S' 55) (fun _ => "[REDACTED_STELLAR_SECRET]".toList) text
    let text := replace (keyAt 'M' 68) (fun _ => "[REDACTED_MUXED_ACCOUNT]".toList) text
    let text := replace emailAt (fun _ => "[REDACTED_EMAIL]".toList) text
    let text := replace (keyAt 'G' 55) truncateAddress text
    String.ofList text

/-! ## Keys as words -/

/-- A lead and `count` characters of the key alphabet. -/
def IsKey (lead : Char) (count : ℕ) (t : List Char) : Prop :=
  t.head? = some lead ∧ t.length = count + 1 ∧ ∀ c ∈ t.drop 1, isKeyChar c = true

theorem isWordChar_of_isKeyChar {c : Char} (h : isKeyChar c = true) : isWordChar c = true := by
  simp only [isKeyChar,Bool.decide_or,Bool.decide_eq_true,Bool.or_eq_true,decide_eq_true_eq] at h
  simp only [isWordChar,Bool.decide_or,Bool.decide_eq_true,Bool.or_eq_true,decide_eq_true_eq]
  rcases h with h | ⟨hlow,hhigh⟩
  · have halpha : c.isAlpha = true := Bool.or_eq_true_iff.mpr (.inl h)
    exact .inl (Bool.or_eq_true_iff.mpr (.inl halpha))
  · have hdigit : c.isDigit = true := by
      simp only [Char.isDigit,Bool.and_eq_true,decide_eq_true_eq]
      have hlow' : (50 : ℕ) ≤ c.toNat := hlow
      have hhigh' : c.toNat ≤ 55 := hhigh
      exact ⟨by rw [ge_iff_le,UInt32.le_iff_toNat_le]; exact le_trans (by decide) hlow',
        by rw [UInt32.le_iff_toNat_le]; exact le_trans hhigh' (by decide)⟩
    exact .inl (Bool.or_eq_true_iff.mpr (.inr hdigit))

theorem startsPlain_iff {cs : List Char} :
    StartsPlain isWordChar cs ↔ (cs.head?.all fun c => ! isWordChar c) = true := by
  cases cs with
  | nil => simp [StartsPlain]
  | cons c cs => simp [StartsPlain]

section Keys
variable {lead : Char} {count : ℕ}

theorem IsKey.word {t : List Char} (h : IsKey lead count t) (hlead : isWordChar lead = true) :
    ∀ c ∈ t, isWordChar c = true := by
  obtain ⟨hhead,-,hkey⟩ := h
  cases t with
  | nil => cases hhead
  | cons d t =>
      obtain rfl : d = lead := Option.some.inj hhead
      intro c hc
      rcases List.mem_cons.mp hc with rfl | hc
      · exact hlead
      · exact isWordChar_of_isKeyChar (hkey c hc)

theorem keyAt_eq_some {afterWord : Bool} {cs : List Char} {n : ℕ}
    (h : keyAt lead count afterWord cs = some n) :
    n = count + 1 ∧ afterWord = false ∧ n ≤ cs.length ∧ IsKey lead count (cs.take n) ∧
      StartsPlain isWordChar (cs.drop n) := by
  unfold keyAt at h
  split_ifs at h with hkey
  obtain ⟨hafter,hhead,hlength,hall,hend⟩ := hkey
  obtain rfl : count + 1 = n := Option.some.inj h
  refine ⟨rfl,hafter,hlength,⟨?_,?_,?_⟩,startsPlain_iff.mpr hend⟩
  · rw [List.head?_take,if_neg (Nat.succ_ne_zero count),hhead]
  · rw [List.length_take,Nat.min_eq_left hlength]
  · rw [List.drop_take]
    exact List.all_eq_true.mp hall

theorem bounded_keyAt (lead : Char) (count : ℕ) :
    Bounded isWordChar (keyAt lead count) (IsKey lead count) where
  within h := by
    obtain ⟨rfl,-,hlength,-⟩ := keyAt_eq_some h
    exact ⟨Nat.succ_pos count,hlength⟩
  front h := absurd (keyAt_eq_some h).2.1 (by decide)
  back h := (keyAt_eq_some h).2.2.2.2
  finds {text} h := by
    obtain ⟨hhead,hlength,hkey⟩ := h
    have hsplit : text.takeWhile isWordChar ++ text.dropWhile isWordChar = text :=
      List.takeWhile_append_dropWhile
    generalize text.takeWhile isWordChar = t at *
    have hend : StartsPlain isWordChar (text.dropWhile isWordChar) := by
      intro c hc
      have hnot := List.head?_dropWhile_not isWordChar text
      rw [Option.mem_def.mp hc] at hnot
      exact hnot
    generalize text.dropWhile isWordChar = rest at *
    subst hsplit
    unfold keyAt
    rw [if_pos]
    · exact Option.some_ne_none _
    · refine ⟨rfl,?_,?_,?_,?_⟩
      · rw [List.head?_append,hhead]
        rfl
      · rw [List.length_append]
        omega
      · have hpart : ((t ++ rest).drop 1).take count = t.drop 1 := by
          rw [List.drop_append_of_le_length (by omega),List.take_append_of_le_length
            (by rw [List.length_drop]; omega),List.take_of_length_le
            (by rw [List.length_drop]; omega)]
        rw [hpart]
        exact List.all_eq_true.mpr hkey
      · rw [← hlength,List.drop_left]
        exact startsPlain_iff.mp hend

end Keys

/-! ## E-mail addresses as words -/

theorem topLevelAt_eq_some {cs : List Char} {n : ℕ} (h : topLevelAt cs = some n) :
    0 < n ∧ n ≤ cs.length ∧ StartsPlain isWordChar (cs.drop n) := by
  unfold topLevelAt at h
  split at h
  · rename_i rest
    simp only [] at h
    split_ifs at h with hletters
    obtain rfl := Option.some.inj h
    refine ⟨Nat.succ_pos _,?_,?_⟩
    · rw [List.length_cons]
      exact Nat.succ_le_succ (List.takeWhile_prefix _).length_le
    · rw [List.drop_succ_cons]
      exact startsPlain_iff.mpr hletters.2
  · cases h

theorem domainAt_eq_some {cs : List Char} {n : ℕ} (h : domainAt cs = some n) :
    n ≤ cs.length ∧ StartsPlain isWordChar (cs.drop n) := by
  unfold domainAt at h
  obtain ⟨k,hk,htop⟩ := List.exists_of_findSome?_eq_some h
  obtain ⟨m,hm,rfl⟩ := Option.map_eq_some_iff.mp htop
  obtain ⟨-,hlength,hend⟩ := topLevelAt_eq_some hm
  rw [List.length_drop] at hlength
  rw [List.drop_drop] at hend
  refine ⟨?_,hend⟩
  rw [List.mem_reverse] at hk
  obtain ⟨j,hj,rfl⟩ := List.mem_map.mp hk
  have hbound := List.mem_range.mp hj
  have hprefix := (List.takeWhile_prefix (p := isDomain) (l := cs)).length_le
  omega

theorem emailAt_eq_some {afterWord : Bool} {cs : List Char} {n : ℕ}
    (h : emailAt afterWord cs = some n) :
    0 < n ∧ n ≤ cs.length ∧ (afterWord = true → StartsPlain isWordChar cs) ∧
      StartsPlain isWordChar (cs.drop n) := by
  cases cs with
  | nil => cases h
  | cons c cs =>
      unfold emailAt at h
      simp only [] at h
      split_ifs at h with hfront
      rw [not_or] at hfront
      split at h
      · rename_i rest hrest
        obtain ⟨m,hm,rfl⟩ := Option.map_eq_some_iff.mp h
        obtain ⟨hlength,hend⟩ := domainAt_eq_some hm
        have hdrop : (c :: cs).drop (((c :: cs).takeWhile isLocal).length + 1) = rest := by
          rw [← List.drop_drop,hrest]
          rfl
        have htotal := congrArg List.length hrest
        simp only [List.length_drop,List.length_cons] at htotal
        refine ⟨by omega,?_,?_,?_⟩
        · rw [List.length_cons]
          omega
        · intro hafter
          apply startsPlain_cons
          rw [hafter] at hfront
          exact Bool.eq_false_iff.mpr fun hc => hfront.1 hc.symm
        · rw [← List.drop_drop,hdrop]
          exact hend
      · cases h

theorem bounded_emailAt : Bounded isWordChar emailAt fun _ => False where
  within h := ⟨(emailAt_eq_some h).1,(emailAt_eq_some h).2.1⟩
  front h := (emailAt_eq_some h).2.2.1 rfl
  back h := (emailAt_eq_some h).2.2.2
  finds h := h.elim

/-! ## What is left of the words -/

/-- No word goes on into a replacement in brackets. -/
theorem startsPlain_bracketed {text : String} (h : text.toList.head? = some '[') :
    text.toList ≠ [] ∧ StartsPlain isWordChar text.toList := by
  cases htext : text.toList with
  | nil =>
      rw [htext] at h
      cases h
  | cons c cs =>
      rw [htext] at h
      obtain rfl : c = '[' := Option.some.inj h
      exact ⟨List.cons_ne_nil _ _,startsPlain_cons (by decide) cs⟩

theorem rewritten_key (lead : Char) (count : ℕ) (text : String)
    (h : text.toList.head? = some '[') (cs : List Char) :
    Rewritten isWordChar (IsKey lead count) (IsKey lead count) (fun _ => text.toList)
      (words isWordChar cs)
      (words isWordChar (replace (keyAt lead count) (fun _ => text.toList) cs)) := by
  refine rewritten_words (bounded_keyAt lead count) (fun h => (keyAt_eq_some h).2.2.2.1) ?_ cs
  intro m _
  exact ⟨(startsPlain_bracketed h).1,fun _ => (startsPlain_bracketed h).2⟩

theorem rewritten_address (cs : List Char) :
    Rewritten isWordChar (IsKey 'G' 55) (IsKey 'G' 55) truncateAddress (words isWordChar cs)
      (words isWordChar (replace (keyAt 'G' 55) truncateAddress cs)) := by
  refine rewritten_words (bounded_keyAt 'G' 55) (fun h => (keyAt_eq_some h).2.2.2.1) ?_ cs
  intro m hm
  obtain ⟨hhead,hlength,-⟩ := hm
  constructor
  · intro hnil
    have hnone := congrArg List.length hnil
    simp [truncateAddress] at hnone
  · intro hplain
    exact absurd (hplain 'G' hhead) (by decide)

theorem rewritten_email (cs : List Char) :
    Rewritten isWordChar (fun _ => False) (fun _ => True) (fun _ => "[REDACTED_EMAIL]".toList)
      (words isWordChar cs)
      (words isWordChar (replace emailAt (fun _ => "[REDACTED_EMAIL]".toList) cs)) := by
  have hbracketed : "[REDACTED_EMAIL]".toList.head? = some '[' := by decide
  refine rewritten_words bounded_emailAt (fun _ => trivial) ?_ cs
  intro m _
  exact ⟨(startsPlain_bracketed hbracketed).1,fun _ => (startsPlain_bracketed hbracketed).2⟩

theorem length_lt_of_mem {u text : List Char} (h : u ∈ words isWordChar text)
    (htext : text.length < 56) : u.length < 56 :=
  (length_le_of_mem_words h).trans_lt htext

/-- A long word of a redacted text is a word of the text and no key. -/
theorem mem_words_redactLogString {value : String} {u : List Char}
    (h : u ∈ words isWordChar (redactLogString value false).toList) :
    u.length < 56 ∨ u ∈ words isWordChar value.toList ∧ ¬ IsKey 'S' 55 u ∧ ¬ IsKey 'M' 68 u ∧
      ¬ IsKey 'G' 55 u := by
  rw [redactLogString,if_neg Bool.false_ne_true,String.toList_ofList] at h
  rcases (rewritten_address _).of_mem h with ⟨h,hG⟩ | ⟨m,hm,h⟩
  · rcases (rewritten_email _).of_mem h with ⟨h,-⟩ | ⟨m,-,h⟩
    · rcases (rewritten_key 'M' 68 "[REDACTED_MUXED_ACCOUNT]" (by decide) _).of_mem h
        with ⟨h,hM⟩ | ⟨m,-,h⟩
      · rcases (rewritten_key 'S' 55 "[REDACTED_STELLAR_SECRET]" (by decide) _).of_mem h
          with ⟨h,hS⟩ | ⟨m,-,h⟩
        · exact .inr ⟨h,hS,hM,hG⟩
        · exact .inl (length_lt_of_mem h (by decide))
      · exact .inl (length_lt_of_mem h (by decide))
    · exact .inl (length_lt_of_mem h (by decide))
  · refine .inl (length_lt_of_mem h ?_)
    rw [truncateAddress,List.length_append,List.length_append,List.length_take,List.length_drop,
      hm.2.1]
    decide

/-! ## Delimited seeds -/

/-- A secret seed in a text, between ends of the text or characters outside the key
alphabet. -/
structure SeedAt (text x seed y : List Char) : Prop where
  split : text = x ++ seed ++ y
  key : IsKey 'S' 55 seed
  before : ∀ c ∈ x.getLast?, isKeyChar c = false
  after : ∀ c ∈ y.head?, isKeyChar c = false

def HasSeed (text : List Char) : Prop := ∃ x seed y, SeedAt text x seed y

/-- A seed stands next to another word character: an underscore, a lower-case letter,
or one of 0, 1, 8 and 9. -/
def SeedAdjoinsWord (text : List Char) : Prop :=
  ∃ x seed y, SeedAt text x seed y ∧
    ((∃ c ∈ x.getLast?, isWordChar c = true) ∨ ∃ c ∈ y.head?, isWordChar c = true)

theorem IsKey.ne_nil {lead : Char} {count : ℕ} {t : List Char} (h : IsKey lead count t) :
    t ≠ [] := by
  intro hnil
  rw [hnil] at h
  cases h.1

theorem getLast?_append_of_ne {x a : List Char} (h : a ≠ []) :
    (x ++ a).getLast? = a.getLast? := by
  rw [List.getLast?_append,List.getLast?_eq_some_getLast h]
  rfl

theorem head?_append_of_ne {b y : List Char} (h : b ≠ []) : (b ++ y).head? = b.head? := by
  cases b with
  | nil => exact absurd rfl h
  | cons c b => rfl

/-- A seed of a text is a seed of one of its words. -/
theorem SeedAt.in_word {text x seed y : List Char} (h : SeedAt text x seed y) :
    ∃ a b, a ++ seed ++ b ∈ words isWordChar text ∧ SeedAt (a ++ seed ++ b) a seed b ∧
      ((∃ c ∈ x.getLast?, isWordChar c = true) → a ≠ []) ∧
      ((∃ c ∈ y.head?, isWordChar c = true) → b ≠ []) := by
  obtain ⟨x',a,b,y',hx,hy,-,-,hends,hstarts,hmem⟩ :=
    exists_word_around x seed y h.key.ne_nil (h.key.word (by decide))
  rw [← h.split] at hmem
  refine ⟨a,b,hmem,⟨rfl,h.key,?_,?_⟩,?_,?_⟩
  · intro c hc
    have hne : a ≠ [] := by
      intro hnil
      rw [hnil] at hc
      cases hc
    exact h.before c (by rw [hx,getLast?_append_of_ne hne]; exact hc)
  · intro c hc
    have hne : b ≠ [] := by
      intro hnil
      rw [hnil] at hc
      cases hc
    exact h.after c (by rw [hy,head?_append_of_ne hne]; exact hc)
  · intro hword hnil
    obtain ⟨c,hc,hword⟩ := hword
    rw [hx,hnil,List.append_nil] at hc
    rw [hends c hc] at hword
    exact Bool.false_ne_true hword
  · intro hword hnil
    obtain ⟨c,hc,hword⟩ := hword
    rw [hy,hnil,List.nil_append] at hc
    rw [hstarts c hc] at hword
    exact Bool.false_ne_true hword

/-- A seed of a word of a text is a seed of the text. -/
theorem SeedAt.of_word {text u a seed b : List Char} (h : SeedAt u a seed b)
    (hu : u ∈ words isWordChar text) :
    ∃ x y, SeedAt text x seed y ∧ (a ≠ [] → ∃ c ∈ x.getLast?, isWordChar c = true) ∧
      (b ≠ [] → ∃ c ∈ y.head?, isWordChar c = true) := by
  obtain ⟨x,y,htext,-,hword,hends,hstarts⟩ := mem_words_iff.mp hu
  have hplain : ∀ {c : Char}, isWordChar c = false → isKeyChar c = false := by
    intro c hc
    by_contra hkey
    rw [isWordChar_of_isKeyChar (Bool.not_eq_false _ ▸ hkey)] at hc
    exact Bool.false_ne_true hc.symm
  refine ⟨x ++ a,b ++ y,⟨?_,h.key,?_,?_⟩,?_,?_⟩
  · rw [htext,h.split]
    simp only [List.append_assoc]
  · intro c hc
    by_cases hne : a = []
    · rw [hne,List.append_nil] at hc
      exact hplain (hends c hc)
    · rw [getLast?_append_of_ne hne] at hc
      exact h.before c hc
  · intro c hc
    by_cases hne : b = []
    · rw [hne,List.nil_append] at hc
      exact hplain (hstarts c hc)
    · rw [head?_append_of_ne hne] at hc
      exact h.after c hc
  · intro hne
    refine ⟨a.getLast hne,?_,hword _ ?_⟩
    · rw [getLast?_append_of_ne hne,List.getLast?_eq_some_getLast hne]
      rfl
    · rw [h.split]
      exact List.mem_append_left _ (List.mem_append_left _ (List.getLast_mem hne))
  · intro hne
    refine ⟨b.head hne,?_,hword _ ?_⟩
    · rw [head?_append_of_ne hne,List.head?_eq_some_head hne]
      rfl
    · rw [h.split]
      exact List.mem_append_right _ (List.head_mem hne)

/-- A text whose long words are words of another, and no seeds, has only seeds that
adjoin word characters there. -/
theorem not_hasSeed_of_words {text out : List Char}
    (hwords : ∀ u ∈ words isWordChar out,
      u.length < 56 ∨ u ∈ words isWordChar text ∧ ¬ IsKey 'S' 55 u)
    (h : ¬ SeedAdjoinsWord text) : ¬ HasSeed out := by
  intro hseed
  obtain ⟨x,seed,y,hseed⟩ := hseed
  obtain ⟨a,b,hmem,hword,-⟩ := hseed.in_word
  rcases hwords _ hmem with hshort | ⟨hmem,hkey⟩
  · rw [List.length_append,List.length_append,hseed.key.2.1] at hshort
    omega
  · obtain ⟨x',y',hat,hbefore,hafter⟩ := hword.of_word hmem
    by_cases ha : a = []
    · by_cases hb : b = []
      · rw [ha,hb,List.nil_append,List.append_nil] at hkey
        exact hkey hseed.key
      · exact h ⟨x',seed,y',hat,.inr (hafter hb)⟩
    · exact h ⟨x',seed,y',hat,.inl (hbefore ha)⟩

/-! ## Diagnostics -/

theorem keyAt_eq (lead : Char) (afterWord : Bool) (cs : List Char) :
    keyAt lead 55 afterWord cs =
      if ! afterWord ∧ keyStarts lead cs then some 56 else none := by
  unfold keyAt keyStarts
  cases afterWord with
  | true => simp
  | false => simp

/-- The replacement of `StellarDiagnostics`, which knows the flag behind a match. -/
theorem redact_eq (lead : Char) (redacted cs : List Char) (skip : ℕ) (flag flag' : Bool)
    (hflag : skip = 0 → flag = flag') (hlength : skip ≤ cs.length)
    (hskip : ∀ c ∈ cs.take skip, isWordChar c = true) :
    redact lead redacted skip flag cs =
      replaceAll isWordChar (keyAt lead 55) (fun _ => redacted) skip flag' cs := by
  induction cs generalizing skip flag flag' with
  | nil => rw [redact,replaceAll]
  | cons c cs ih =>
      cases skip with
      | succ n =>
          rw [redact,replaceAll]
          have hc : isWordChar c = true := hskip c List.mem_cons_self
          rw [List.length_cons] at hlength
          exact ih n true (isWordChar c) (fun _ => hc.symm) (by omega) fun d hd =>
            hskip d (List.mem_cons_of_mem c hd)
      | zero =>
          obtain rfl := hflag rfl
          rw [redact,replaceAll,keyAt_eq]
          split_ifs with hkey
          · have hfound : keyAt lead 55 flag (c :: cs) = some 56 := by rw [keyAt_eq,if_pos hkey]
            obtain ⟨-,-,hlong,hword,-⟩ := keyAt_eq_some hfound
            have hrest : ∀ d ∈ cs.take 55, isWordChar d = true := fun d hd =>
              isWordChar_of_isKeyChar (hword.2.2 d hd)
            rw [List.length_cons] at hlong
            dsimp only
            rw [ih 55 true (isWordChar c) (fun h => by cases h) (by omega) hrest]
          · dsimp only
            rw [ih 0 (isWordChar c) (isWordChar c) (fun _ => rfl) (Nat.zero_le _)
              fun d hd => by cases hd]

theorem sanitizeText_eq (text : String) :
    (sanitizeText text).toList =
      replace (keyAt 'G' 55) (fun _ => redactedPublicKey.toList)
        (replace (keyAt 'S' 55) (fun _ => redactedStellarSeed.toList) text.toList) := by
  have hredact : ∀ (lead : Char) (redacted cs : List Char), redact lead redacted 0 false cs =
      replace (keyAt lead 55) (fun _ => redacted) cs := by
    intro lead redacted cs
    exact redact_eq lead redacted cs 0 false false (fun _ => rfl) (Nat.zero_le _)
      fun c hc => by cases hc
  rw [sanitizeText,String.toList_ofList,hredact,hredact]

theorem mem_words_sanitizeText {text : String} {u : List Char}
    (h : u ∈ words isWordChar (sanitizeText text).toList) :
    u.length < 56 ∨ u ∈ words isWordChar text.toList ∧ ¬ IsKey 'S' 55 u := by
  rw [sanitizeText_eq] at h
  rcases (rewritten_key 'G' 55 redactedPublicKey (by decide) _).of_mem h with ⟨h,-⟩ | ⟨m,-,h⟩
  · rcases (rewritten_key 'S' 55 redactedStellarSeed (by decide) _).of_mem h with
      ⟨h,hS⟩ | ⟨m,-,h⟩
    · exact .inr ⟨h,hS⟩
    · exact .inl (length_lt_of_mem h (by decide))
  · exact .inl (length_lt_of_mem h (by decide))

/-- A word that is longer than a key stays. -/
theorem long_word_stays {text : String} {u : List Char} (h : u ∈ words isWordChar text.toList)
    (hlong : 56 < u.length) : u ∈ words isWordChar (sanitizeText text).toList := by
  have hno : ∀ {lead : Char}, ¬ ∃ m, IsKey lead 55 m ∧ u ∈ words isWordChar m := by
    intro lead hm
    obtain ⟨m,hm,hu⟩ := hm
    have hle := length_le_of_mem_words hu
    rw [hm.2.1] at hle
    omega
  rw [sanitizeText_eq]
  have hseeds := ((rewritten_key 'S' 55 redactedStellarSeed (by decide) _).mem_of h).resolve_right
    hno
  exact ((rewritten_key 'G' 55 redactedPublicKey (by decide) _).mem_of hseeds).resolve_right hno

/-- No seed is left by either redaction exactly if no seed of the text adjoins a word
character. -/
theorem no_seed_left_iff (text : String) :
    ¬ HasSeed (redactLogString text false).toList ∧ ¬ HasSeed (sanitizeText text).toList ↔
      ¬ SeedAdjoinsWord text.toList := by
  constructor
  · intro h hadjoins
    obtain ⟨x,seed,y,hat,hword⟩ := hadjoins
    obtain ⟨a,b,hmem,hseed,ha,hb⟩ := hat.in_word
    have hlong : 56 < (a ++ seed ++ b).length := by
      rw [List.length_append,List.length_append,hat.key.2.1]
      rcases hword with hword | hword
      · have hpos := List.length_pos_of_ne_nil (ha hword)
        omega
      · have hpos := List.length_pos_of_ne_nil (hb hword)
        omega
    obtain ⟨x',y',hleft,-⟩ := hseed.of_word (long_word_stays hmem hlong)
    exact h.2 ⟨x',seed,y',hleft⟩
  · intro h
    constructor
    · refine not_hasSeed_of_words (fun u hu => ?_) h
      rcases mem_words_redactLogString hu with hshort | ⟨hmem,hS,-⟩
      · exact .inl hshort
      · exact .inr ⟨hmem,hS⟩
    · exact not_hasSeed_of_words (fun u hu => mem_words_sanitizeText hu) h

/-- A seed behind an underscore. -/
def seedBehindUnderscore : String :=
  "key_S" ++ "AAAAAAAAAAA" ++ "AAAAAAAAAAA" ++ "AAAAAAAAAAA" ++ "AAAAAAAAAAA" ++ "AAAAAAAAAAA"

theorem seed_left_behind_underscore :
    HasSeed (redactLogString seedBehindUnderscore false).toList ∧
      HasSeed (sanitizeText seedBehindUnderscore).toList := by
  have hlog : (redactLogString seedBehindUnderscore false).toList = seedBehindUnderscore.toList := by
    decide +kernel
  have hdiagnostic : (sanitizeText seedBehindUnderscore).toList = seedBehindUnderscore.toList := by
    decide +kernel
  have hseed : HasSeed seedBehindUnderscore.toList := by
    refine ⟨"key_".toList,seedBehindUnderscore.toList.drop 4,[],by decide +kernel,
      ⟨by decide +kernel,by decide +kernel,List.all_eq_true.mp (by decide +kernel)⟩,?_,?_⟩
    · intro c hc
      obtain rfl : '_' = c := Option.some.inj hc
      decide
    · intro c hc
      cases hc
  rw [hlog,hdiagnostic]
  exact ⟨hseed,hseed⟩

end Creditra.LogRedaction
