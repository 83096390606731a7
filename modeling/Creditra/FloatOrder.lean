import Creditra.FloatNumbers
import Mathlib.Tactic.Linarith
import Mathlib.Tactic.NormNum

/-!
# Rounding and order

Rounding to binary64 keeps the order of rationals, and what it gives for a whole
number is whole. Adding a small number to the largest finite value gives that
value again, so that only large steps leave the finite range.
-/
namespace Creditra.FloatOrder
open FloatNumbers JsNumbers NumberText

theorem roundHalfEven_floor (q : ℚ) : ⌊q⌋ ≤ roundHalfEven q ∧ roundHalfEven q ≤ ⌊q⌋ + 1 := by
  unfold roundHalfEven
  dsimp only
  split_ifs <;> omega

theorem roundHalfEven_mono {q q' : ℚ} (h : q ≤ q') : roundHalfEven q ≤ roundHalfEven q' := by
  have hfloor : ⌊q⌋ ≤ ⌊q'⌋ := Int.floor_le_floor h
  rcases hfloor.lt_or_eq with hlt | heq
  · have hbelow := (roundHalfEven_floor q).2
    have habove := (roundHalfEven_floor q').1
    omega
  · unfold roundHalfEven
    dsimp only
    rw [← heq]
    split_ifs <;> first | omega | (exfalso; linarith)

/-- Rounding to a multiple of `2 ^ k` and to a multiple of a larger `2 ^ k'`. -/
theorem rounded_le {q q' : ℚ} {k k' : ℤ} (hq : 0 ≤ q) (hle : q ≤ q') (hk : k ≤ k')
    (hbound : q < 2 ^ (k + 53)) (hnormal : k < k' → (2 : ℚ) ^ (k' + 52) ≤ q') :
    (roundHalfEven (q / 2 ^ k) : ℚ) * 2 ^ k ≤ roundHalfEven (q' / 2 ^ k') * 2 ^ k' := by
  have htwo : (0 : ℚ) < 2 ^ k := zpow_pos two_pos k
  have htwo' : (0 : ℚ) < 2 ^ k' := zpow_pos two_pos k'
  rcases hk.lt_or_eq with hlt | heq
  · -- Below is at most the power of two that `q'` has reached.
    have hbits : q / 2 ^ k < ((2 ^ 53 : ℕ) : ℚ) := by
      rw [div_lt_iff₀ htwo]
      push_cast
      rwa [zpow_add₀ two_ne_zero,mul_comm] at hbound
    have hbelow : (roundHalfEven (q / 2 ^ k) : ℚ) ≤ 2 ^ (53 : ℤ) := by
      have hround := (roundHalfEven_bounds (div_nonneg hq htwo.le) hbits).2
      exact_mod_cast hround
    have hreached : ((2 ^ 52 : ℤ) : ℚ) ≤ q' / 2 ^ k' := by
      rw [le_div_iff₀ htwo']
      have hpow := hnormal hlt
      rw [zpow_add₀ two_ne_zero,mul_comm] at hpow
      exact_mod_cast hpow
    have habove : (2 : ℚ) ^ (52 : ℤ) ≤ roundHalfEven (q' / 2 ^ k') := by
      have hround := roundHalfEven_mono hreached
      rw [roundHalfEven_intCast] at hround
      exact_mod_cast hround
    calc (roundHalfEven (q / 2 ^ k) : ℚ) * 2 ^ k ≤ 2 ^ (53 : ℤ) * 2 ^ k :=
          mul_le_mul_of_nonneg_right hbelow htwo.le
      _ = 2 ^ (53 + k) := (zpow_add₀ two_ne_zero 53 k).symm
      _ ≤ 2 ^ (52 + k') := zpow_le_zpow_right₀ one_le_two (by omega)
      _ = 2 ^ (52 : ℤ) * 2 ^ k' := zpow_add₀ two_ne_zero 52 k'
      _ ≤ roundHalfEven (q' / 2 ^ k') * 2 ^ k' := mul_le_mul_of_nonneg_right habove htwo'.le
  · rw [heq]
    have hround : roundHalfEven (q / 2 ^ k') ≤ roundHalfEven (q' / 2 ^ k') :=
      roundHalfEven_mono (div_le_div_of_nonneg_right hle htwo'.le)
    exact mul_le_mul_of_nonneg_right (by exact_mod_cast hround) htwo'.le

theorem toDouble_mono {q q' r' : ℚ} (hq : 0 ≤ q) (hle : q ≤ q') (h : toDouble q' = some r') :
    ∃ r, toDouble q = some r ∧ r ≤ r' := by
  rcases hq.eq_or_lt with hzero | hpos
  · rw [← hzero]
    exact ⟨0,rfl,(toDouble_toDouble (hq.trans hle) h).1⟩
  · have hpos' : 0 < q' := hpos.trans_le hle
    unfold toDouble at h ⊢
    rw [if_neg hpos'.ne'] at h
    rw [if_neg hpos.ne']
    dsimp only at h ⊢
    split at h
    · rename_i hlarge
      cases h
      have hlog : Int.log 2 q ≤ Int.log 2 q' := Int.log_mono_right hpos hle
      rw [floorLog2_eq_log hpos'] at hlarge ⊢
      rw [floorLog2_eq_log hpos]
      have hexponents : max (Int.log 2 q) (-1022) - 52 ≤ max (Int.log 2 q') (-1022) - 52 := by omega
      have hbound : q < 2 ^ (max (Int.log 2 q) (-1022) - 52 + 53) := by
        rw [lt_zpow_iff hpos]
        omega
      have hround := rounded_le hq hle hexponents hbound (by
        rw [zpow_le_iff hpos']
        omega)
      exact ⟨_,if_pos (hround.trans_lt hlarge),hround⟩
    · cases h

/-- Rounding a whole number gives a whole number. -/
theorem toDouble_whole {n : ℕ} {r : ℚ} (h : toDouble n = some r) : ∃ m : ℕ, r = m := by
  by_cases hsmall : n < 2 ^ 53
  · rw [toDouble_natCast hsmall] at h
    cases h
    exact ⟨n,rfl⟩
  · have hne : n ≠ 0 := by omega
    have hlog : 53 ≤ Nat.log2 n := (Nat.le_log2 hne).mpr (by omega)
    have hpos : (n : ℚ) ≠ 0 := by exact_mod_cast hne
    have hexp : max (Nat.log2 n : ℤ) (-1022) - 52 = ((Nat.log2 n - 52 : ℕ) : ℤ) := by omega
    unfold toDouble at h
    rw [if_neg hpos,floorLog2_natCast hne,hexp] at h
    dsimp only at h
    split at h
    · cases h
      have hnonneg : 0 ≤ roundHalfEven ((n : ℚ) / 2 ^ ((Nat.log2 n - 52 : ℕ) : ℤ)) := by
        have hfloor := (roundHalfEven_floor ((n : ℚ) / 2 ^ ((Nat.log2 n - 52 : ℕ) : ℤ))).1
        have hquot : (0 : ℚ) ≤ (n : ℚ) / 2 ^ ((Nat.log2 n - 52 : ℕ) : ℤ) :=
          div_nonneg (Nat.cast_nonneg n) (zpow_nonneg two_pos.le _)
        exact (Int.floor_nonneg.mpr hquot).trans hfloor
      refine ⟨(roundHalfEven ((n : ℚ) / 2 ^ ((Nat.log2 n - 52 : ℕ) : ℤ))).toNat *
        2 ^ (Nat.log2 n - 52),?_⟩
      rw [Nat.cast_mul,Nat.cast_pow,Nat.cast_ofNat,zpow_natCast]
      congr 1
      exact_mod_cast (Int.toNat_of_nonneg hnonneg).symm
    · cases h

/-! ## The largest finite value -/

def largest : ℚ := (2 ^ 53 - 1) * 2 ^ 971

/-- Nothing finite is larger. -/
theorem le_largest {q r : ℚ} (hq : 0 ≤ q) (h : toDouble q = some r) : r ≤ largest := by
  obtain ⟨m,e,hm,-,rfl,hlarge⟩ := exists_bits hq h
  unfold largest
  by_cases he : e ≤ 970
  · have hbits : (m : ℚ) ≤ 2 ^ (53 : ℕ) := by exact_mod_cast hm
    have htwo : (2 : ℚ) ^ (970 : ℤ) = 2 ^ (970 : ℕ) := zpow_natCast 2 970
    have hstep : (m : ℚ) * 2 ^ e ≤ 2 ^ (53 : ℕ) * 2 ^ (970 : ℕ) := by
      rw [← htwo]
      exact mul_le_mul hbits (zpow_le_zpow_right₀ one_le_two he) (zpow_nonneg two_pos.le e)
        (pow_nonneg two_pos.le 53)
    have hpos : (0 : ℚ) < 2 ^ (970 : ℕ) := pow_pos two_pos 970
    rw [pow_succ' (2 : ℚ) 970]
    generalize (2 : ℚ) ^ (970 : ℕ) = t at hstep hpos ⊢
    norm_num at hstep ⊢
    linarith
  · obtain ⟨n,hn⟩ := Int.le.dest (show (971 : ℤ) ≤ e by omega)
    have hpow : (m : ℚ) * 2 ^ e = ((m * 2 ^ n : ℕ) : ℚ) * 2 ^ 971 := by
      have htwo : (2 : ℚ) ^ (971 : ℤ) = 2 ^ 971 := zpow_natCast 2 971
      rw [← hn,zpow_add₀ two_ne_zero,zpow_natCast,htwo,Nat.cast_mul,Nat.cast_pow,Nat.cast_ofNat,
        mul_assoc,mul_comm ((2 : ℚ) ^ n)]
    rw [hpow] at hlarge ⊢
    have hfactor : (2 : ℚ) ^ (1024 : ℕ) = ((2 ^ 53 : ℕ) : ℚ) * 2 ^ 971 := by
      rw [Nat.cast_pow,Nat.cast_ofNat,← pow_add]
    rw [hfactor] at hlarge
    have hless : m * 2 ^ n < 2 ^ 53 := by
      have hcast := lt_of_mul_lt_mul_right hlarge (pow_nonneg two_pos.le 971)
      exact_mod_cast hcast
    have hle : ((m * 2 ^ n : ℕ) : ℚ) ≤ 2 ^ 53 - 1 := by
      have hpred : m * 2 ^ n + 1 ≤ 2 ^ 53 := hless
      have hcast : (((m * 2 ^ n + 1 : ℕ)) : ℚ) ≤ ((2 ^ 53 : ℕ) : ℚ) := by exact_mod_cast hpred
      push_cast at hcast ⊢
      linarith
    exact mul_le_mul_of_nonneg_right hle (pow_nonneg two_pos.le 971)

theorem toDouble_beyond_largest : (toDouble (largest + 5)).isSome = true := by decide +kernel

/-! ## Values -/

theorem abs_le_largest (x : Double) : |x.1| ≤ largest := le_largest (abs_nonneg x.1) x.2

theorem round_spec {q : ℚ} {x : Double} (h : Value.round q = .finite x) :
    toDouble |q| = some |x.1| ∧ (q < 0 → x.1 ≤ 0) ∧ (0 ≤ q → 0 ≤ x.1) := by
  unfold Value.round at h
  split at h
  · rename_i r hr
    cases h
    have hnonneg := (toDouble_toDouble (abs_nonneg q) hr).1
    by_cases hneg : q < 0
    · simp only [if_pos hneg,abs_neg,abs_of_nonneg hnonneg]
      exact ⟨hr,fun _ => neg_nonpos.mpr hnonneg,fun hq => absurd hq (not_le.mpr hneg)⟩
    · simp only [if_neg hneg,abs_of_nonneg hnonneg]
      exact ⟨hr,fun hq => absurd hq hneg,fun _ => hnonneg⟩
  · cases h

/-- Only what is too large is not rounded to a finite value. -/
theorem round_cases (q : ℚ) :
    (∃ x, Value.round q = .finite x) ∨ Value.round q = .infinite (q < 0) := by
  unfold Value.round
  split
  · exact .inl ⟨_,rfl⟩
  · exact .inr rfl

theorem round_self (x : Double) : Value.round x.1 = .finite x := by
  apply round_eq_finite x.2
  split_ifs with hneg
  · rw [abs_of_neg hneg,neg_neg]
  · exact (abs_of_nonneg (not_lt.mp hneg)).symm

theorem round_mono {q q' : ℚ} {x y : Double} (hle : q ≤ q') (hx : Value.round q = .finite x)
    (hy : Value.round q' = .finite y) : x.1 ≤ y.1 := by
  obtain ⟨hx,hxneg,hxpos⟩ := round_spec hx
  obtain ⟨hy,hyneg,hypos⟩ := round_spec hy
  by_cases hq : 0 ≤ q
  · rw [abs_of_nonneg hq,abs_of_nonneg (hxpos hq)] at hx
    rw [abs_of_nonneg (hq.trans hle),abs_of_nonneg (hypos (hq.trans hle))] at hy
    obtain ⟨r,hr,hrle⟩ := toDouble_mono hq hle hy
    rw [hx] at hr
    cases hr
    exact hrle
  · have hneg : q < 0 := not_le.mp hq
    by_cases hq' : 0 ≤ q'
    · exact (hxneg hneg).trans (hypos hq')
    · have hneg' : q' < 0 := not_le.mp hq'
      have habs : |q'| ≤ |q| := by
        rw [abs_of_neg hneg,abs_of_neg hneg']
        exact neg_le_neg hle
      obtain ⟨r,hr,hrle⟩ := toDouble_mono (abs_nonneg q') habs hx
      rw [hy,Option.some.injEq] at hr
      rw [← hr,abs_of_nonpos (hxneg hneg),abs_of_nonpos (hyneg hneg')] at hrle
      exact neg_le_neg_iff.mp hrle

theorem round_whole {n : ℤ} {x : Double} (h : Value.round n = .finite x) : ∃ m : ℤ, x.1 = m := by
  have hround := (round_spec h).1
  rw [← Int.cast_abs,Int.abs_eq_natAbs,Int.cast_natCast] at hround
  obtain ⟨m,hm⟩ := toDouble_whole hround
  rcases abs_choice x.1 with habs | habs
  · exact ⟨m,by rw [← habs,hm,Int.cast_natCast]⟩
  · refine ⟨-m,?_⟩
    rw [Int.cast_neg,Int.cast_natCast,← hm,habs,neg_neg]

/-- Steps of up to five do not leave the finite range. -/
theorem exists_round_add (x : Double) {n : ℚ} (hn : |n| ≤ 5) :
    ∃ y, Value.round (x.1 + n) = .finite y := by
  have hbound : |x.1 + n| ≤ largest + 5 :=
    (abs_add_le x.1 n).trans (add_le_add (abs_le_largest x) hn)
  obtain ⟨r',hr'⟩ := Option.isSome_iff_exists.mp toDouble_beyond_largest
  obtain ⟨r,hr,-⟩ := toDouble_mono (abs_nonneg _) hbound hr'
  unfold Value.round
  split
  · exact ⟨_,rfl⟩
  · rename_i hnone
    rw [hr] at hnone
    cases hnone

/-- `Math.min(x, y)`. -/
def minValue : Value → Value → Value
  | .nan, _ => .nan
  | _, .nan => .nan
  | x, y => if Value.le x y then x else y

theorem round_natCast {n : ℕ} (h : n < 9007199254740992) :
    ∃ x : Double, Value.round n = .finite x ∧ x.1 = n := by
  have habs : |(n : ℚ)| = n := Nat.abs_cast n
  have hdouble : toDouble |(n : ℚ)| = some |(n : ℚ)| := by
    rw [habs]
    exact toDouble_natCast h
  exact ⟨⟨n,hdouble⟩,round_self ⟨n,hdouble⟩,rfl⟩

/-- `Math.floor(x)`. -/
def floorValue : Value → Value
  | .finite x => .round ⌊x.1⌋
  | v => v

/-- The whole part of a value is a value. -/
theorem floorValue_finite (x : Double) :
    ∃ y : Double, floorValue (.finite x) = .finite y ∧ y.1 = ⌊x.1⌋ := by
  suffices hdouble : toDouble |(⌊x.1⌋ : ℚ)| = some |(⌊x.1⌋ : ℚ)| from
    ⟨⟨⌊x.1⌋,hdouble⟩,round_self ⟨⌊x.1⌋,hdouble⟩,rfl⟩
  obtain ⟨m,e,hm,-,habs,-⟩ := exists_bits (abs_nonneg x.1) x.2
  by_cases he : 0 ≤ e
  · -- such a value is whole itself
    obtain ⟨n,rfl⟩ := Int.eq_ofNat_of_zero_le he
    have hwhole : ∃ z : ℤ, x.1 = z := by
      have hnat : |x.1| = ((m * 2 ^ n : ℕ) : ℚ) := by
        rw [habs]
        push_cast
        rfl
      rcases abs_choice x.1 with hx | hx
      · exact ⟨(m * 2 ^ n : ℕ),by rw [← hx,hnat,Int.cast_natCast]⟩
      · refine ⟨-(m * 2 ^ n : ℕ),?_⟩
        rw [Int.cast_neg,Int.cast_natCast,← hnat,hx,neg_neg]
    obtain ⟨z,hz⟩ := hwhole
    rw [hz,Int.floor_intCast,← hz]
    exact x.2
  · have hsmall : |x.1| ≤ 2 ^ 52 := by
      have hpow : (2 : ℚ) ^ e ≤ 2 ^ (-1 : ℤ) := zpow_le_zpow_right₀ one_le_two (by omega)
      have hbits : (m : ℚ) ≤ 2 ^ 53 := by exact_mod_cast hm
      rw [habs]
      calc (m : ℚ) * 2 ^ e ≤ 2 ^ 53 * 2 ^ (-1 : ℤ) :=
            mul_le_mul hbits hpow (zpow_nonneg two_pos.le e) (by norm_num)
        _ = 2 ^ 52 := by norm_num
    obtain ⟨hlow,hhigh⟩ := abs_le.mp hsmall
    have hfloor : ⌊x.1⌋.natAbs < 9007199254740992 := by
      have hbelow : ⌊x.1⌋ ≤ 2 ^ 52 := by
        exact_mod_cast (Int.floor_le x.1).trans hhigh
      have habove : -(2 ^ 52) ≤ ⌊x.1⌋ := Int.le_floor.mpr (by exact_mod_cast hlow)
      omega
    have hcast : |(⌊x.1⌋ : ℚ)| = (⌊x.1⌋.natAbs : ℕ) := by
      rw [← Int.cast_abs,Int.abs_eq_natAbs,Int.cast_natCast]
    rw [hcast]
    exact toDouble_natCast hfloor

/-- Comparing whole parts. -/
theorem floorValue_le_floorValue (v w : Value) :
    (floorValue v).le (floorValue w) = (floorValue v).le w := by
  cases w with
  | infinite n => rfl
  | nan => rfl
  | finite y =>
      obtain ⟨b,hb,hby⟩ := floorValue_finite y
      cases v with
      | infinite n =>
          rw [hb]
          rfl
      | nan =>
          rw [hb]
          rfl
      | finite x =>
          obtain ⟨a,ha,hax⟩ := floorValue_finite x
          rw [ha,hb,Bool.eq_iff_iff]
          simp only [Value.le,decide_eq_true_eq,hax,hby,Int.cast_le]
          exact Int.le_floor

/-- What lies between two values is rounded to a value between them. -/
theorem exists_round_between {q : ℚ} {x y : Double} (hx : 0 ≤ x.1) (hxq : x.1 ≤ q)
    (hqy : q ≤ y.1) : ∃ z, Value.round q = .finite z ∧ x.1 ≤ z.1 ∧ z.1 ≤ y.1 := by
  have hq : 0 ≤ q := hx.trans hxq
  have hy : toDouble y.1 = some y.1 := by
    have hself := y.2
    rwa [abs_of_nonneg (hq.trans hqy)] at hself
  obtain ⟨r,hr,-⟩ := toDouble_mono hq hqy hy
  have hround : ∃ z, Value.round q = .finite z := by
    unfold Value.round
    split
    · exact ⟨_,rfl⟩
    · rename_i hnone
      rw [abs_of_nonneg hq,hr] at hnone
      cases hnone
  obtain ⟨z,hz⟩ := hround
  exact ⟨z,hz,round_mono hxq (round_self x) hz,round_mono hqy hz (round_self y)⟩

/-! ## Whole numbers as texts -/

theorem digitValue_digit {c : Char} (h : c.isDigit = true) :
    (FloatNumbers.digitValue c).filter (· < 10) = some (c.toNat - 48) := by
  simp only [Char.isDigit,Bool.and_eq_true,decide_eq_true_eq] at h
  have hlow : 48 ≤ c.toNat := h.1
  have hhigh : c.toNat ≤ 57 := h.2
  rw [FloatNumbers.digitValue,if_pos ⟨hlow,hhigh⟩]
  simp only [Option.filter_some]
  rw [if_pos (by simpa using (by omega : c.toNat - 48 < 10))]

theorem digitsAtFront_digits {cs : List Char} (h : ∀ c ∈ cs, c.isDigit = true) :
    digitsAtFront 10 cs = cs.map fun c => c.toNat - 48 := by
  induction cs with
  | nil => rfl
  | cons c cs ih =>
      rw [digitsAtFront,digitValue_digit (h c List.mem_cons_self)]
      simp only [List.map_cons]
      rw [ih fun d hd => h d (List.mem_cons_of_mem _ hd)]

theorem foldl_digits (cs : List Char) (n : ℕ) :
    (cs.map fun c => c.toNat - 48).foldl (fun (n : ℤ) (d : ℕ) => n * (10 : ℕ) + d) n =
      (Nat.ofDigitChars 10 cs n : ℤ) := by
  induction cs generalizing n with
  | nil => rfl
  | cons c cs ih =>
      have hnext : (n : ℤ) * (10 : ℕ) + (c.toNat - 48 : ℕ) = (10 * n + (c.toNat - 48) : ℕ) := by
        push_cast
        ring
      rw [List.map_cons,List.foldl_cons,hnext,ih,Nat.ofDigitChars_cons]
      rfl

theorem isDigit_of_isDigit {c : Char} (h : c.isDigit = true) : isDigit c = true := by
  simp only [Char.isDigit,Bool.and_eq_true,decide_eq_true_eq] at h
  exact decide_eq_true ⟨h.1,h.2⟩

/-- `parseInt(String(n), 10)`. -/
theorem decimalText_toString (n : ℕ) : decimalText (toString n) = some (n : ℤ) := by
  have hdigits : ∀ c ∈ Nat.toDigits 10 n, c.isDigit = true := fun c hc =>
    Nat.isDigit_of_mem_toDigits (by decide) (by decide) hc
  have hread := digitsAtFront_digits hdigits
  have hvalue := foldl_digits (Nat.toDigits 10 n) 0
  rw [Nat.ofDigitChars_toDigits (by decide) (by decide)] at hvalue
  rw [decimalText,Nat.toString_eq_ofList_toDigits,String.toList_ofList]
  cases hcs : Nat.toDigits 10 n with
  | nil => exact absurd hcs Nat.toDigits_ne_nil
  | cons c cs =>
      rw [hcs] at hread hvalue hdigits
      obtain ⟨hspace,hminus,hplus,-⟩ :=
        digit_facts (isDigit_of_isDigit (hdigits c List.mem_cons_self))
      rw [List.dropWhile_cons_of_neg (by simp [hspace]),signed_of_ne hminus hplus]
      simp only [wholeAtFront,hread,List.map_cons]
      have hcast : ∀ ds : List ℕ, (do let d ← ds; pure (d : ℤ)) = ds.map Nat.cast := by
        intro ds
        simp [List.map_eq_flatMap,List.bind_eq_flatMap]
      rw [hcast,List.foldl_map,if_neg Bool.false_ne_true]
      exact congrArg some hvalue

end Creditra.FloatOrder
