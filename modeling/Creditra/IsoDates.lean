import Creditra.NumberText

/-!
# Instants as texts

`Date.prototype.toISOString` for an instant in milliseconds of the proleptic
Gregorian calendar. The parts behind the year have fixed widths, so that a text
is read from its end, and its parts give the instant back: two instants never
share a text, and `Date.parse` reads the text of an instant as that instant.
-/
namespace Creditra.IsoDates
open JsNumbers NumberText

/-! ## The calendar -/

/-- The number of the first day of a year, counted from 1970. -/
def dayFromYear (y : ℤ) : ℤ :=
  365 * (y - 1970) + (y - 1969) / 4 - (y - 1901) / 100 + (y - 1601) / 400

/-- The year of a day: a guess by the mean length of a year, moved by one if need be. -/
def yearFromDay (day : ℤ) : ℤ :=
  let guess := 1970 + 400 * day / 146097
  if day < dayFromYear guess then guess - 1
  else if dayFromYear (guess + 1) ≤ day then guess + 1
  else guess

def inLeapYear (y : ℤ) : Bool := y % 4 = 0 ∧ (y % 100 ≠ 0 ∨ y % 400 = 0)

/-- The days of a year before its months. -/
def monthStarts (leap : Bool) : List ℕ :=
  let l := if leap then 1 else 0
  [0,31,59 + l,90 + l,120 + l,151 + l,181 + l,212 + l,243 + l,273 + l,304 + l,334 + l]

/-- The month of a day of the year, counted from zero. -/
def monthFromDay (leap : Bool) (day : ℕ) : ℕ := ((monthStarts leap).filter (· ≤ day)).length - 1

def dateFromDay (leap : Bool) (day : ℕ) : ℕ :=
  day - (monthStarts leap).getD (monthFromDay leap day) 0 + 1

/-- A day is no further than a year away from the guess. -/
theorem guess_bounds (day : ℤ) :
    dayFromYear (1970 + 400 * day / 146097 - 1) ≤ day ∧
      day < dayFromYear (1970 + 400 * day / 146097 + 1 + 1) := by
  unfold dayFromYear
  constructor <;> omega

theorem dayFromYear_yearFromDay (day : ℤ) :
    dayFromYear (yearFromDay day) ≤ day ∧ day < dayFromYear (yearFromDay day + 1) := by
  obtain ⟨hbelow,habove⟩ := guess_bounds day
  unfold yearFromDay
  dsimp only
  split
  · rename_i hbefore
    rw [sub_add_cancel]
    exact ⟨hbelow,hbefore⟩
  · rename_i hnot
    split
    · rename_i hafter
      exact ⟨hafter,habove⟩
    · rename_i hnot'
      exact ⟨not_lt.mp hnot,not_le.mp hnot'⟩

theorem dayFromYear_succ (y : ℤ) : dayFromYear (y + 1) ≤ dayFromYear y + 366 := by
  unfold dayFromYear
  omega

theorem month_date_bounds : ∀ leap : Bool, ∀ day < 366,
    monthFromDay leap day < 12 ∧ dateFromDay leap day ≤ 32 ∧
      day = (monthStarts leap).getD (monthFromDay leap day) 0 + (dateFromDay leap day - 1) := by
  decide +kernel

/-! ## Texts -/

/-- A number with zeros in front of it, at least `width` digits long. -/
def padded (width n : ℕ) : List Char :=
  List.replicate (width - (digitsOf n).length) '0' ++ digitsOf n

/-- Four digits, or a sign and six. -/
def yearText (y : ℤ) : List Char :=
  if 0 ≤ y ∧ y ≤ 9999 then padded 4 y.toNat
  else if y < 0 then '-' :: padded 6 y.natAbs
  else '+' :: padded 6 y.toNat

/-- The text of a day and of a time of day, both behind the year. -/
def monthDayText (leap : Bool) (day : ℕ) : List Char :=
  '-' :: padded 2 (monthFromDay leap day + 1) ++ '-' :: padded 2 (dateFromDay leap day)

def timeText (ms : ℕ) : List Char :=
  'T' :: padded 2 (ms / 3600000) ++ ':' :: padded 2 (ms / 60000 % 60) ++
    ':' :: padded 2 (ms / 1000 % 60) ++ '.' :: padded 3 (ms % 1000) ++ ['Z']

def toISOString (t : ℤ) : String :=
  let day := t / 86400000
  let year := yearFromDay day
  String.ofList (yearText year ++ (monthDayText (inLeapYear year) (day - dayFromYear year).toNat ++
    timeText (t % 86400000).toNat))

/-- The instants a date can hold. -/
def ValidTime (t : ℤ) : Prop := -8640000000000000 ≤ t ∧ t ≤ 8640000000000000

instance (t : ℤ) : Decidable (ValidTime t) := inferInstanceAs (Decidable (_ ∧ _))

/-- `new Date(t).toISOString()`, which throws when no date holds the instant. -/
def dateText (t : ℤ) : Option String := if ValidTime t then some (toISOString t) else none

theorem dateText_eq_some {t : ℤ} {text : String} (h : dateText t = some text) :
    ValidTime t ∧ text = toISOString t := by
  unfold dateText at h
  split at h
  · rename_i hvalid
    exact ⟨hvalid,(Option.some.inj h).symm⟩
  · cases h

theorem decimal_padded (width n : ℕ) : decimal (padded width n) = n := by
  unfold padded
  rw [decimal_append,decimal_replicate,decimal_digitsOf,zero_mul,zero_add]

theorem padded_injective {width n m : ℕ} (h : padded width n = padded width m) : n = m := by
  rw [← decimal_padded width n,h,decimal_padded]

theorem length_digitsOf {n width : ℕ} (h : n < 10 ^ width) : (digitsOf n).length ≤ width := by
  unfold digitsOf
  rw [List.length_map,List.length_reverse]
  exact Nat.digits_length_le_iff (by decide) n |>.mpr h

theorem length_padded {n width : ℕ} (h : n < 10 ^ width) : (padded width n).length = width := by
  have hle := length_digitsOf h
  unfold padded
  rw [List.length_append,List.length_replicate]
  omega

theorem length_monthDayText {leap : Bool} {day : ℕ} (h : day < 366) :
    (monthDayText leap day).length = 6 := by
  obtain ⟨hmonth,hdate,-⟩ := month_date_bounds leap day h
  unfold monthDayText
  rw [List.length_append,List.length_cons,List.length_cons,length_padded (by omega),
    length_padded (by omega)]

theorem length_timeText {ms : ℕ} (h : ms < 86400000) : (timeText ms).length = 14 := by
  unfold timeText
  simp only [List.length_append,List.length_cons,List.length_nil]
  rw [length_padded (by omega),length_padded (by omega),length_padded (by omega),
    length_padded (by omega)]

/-- Two parts of one width that are followed by the same kind of rest. -/
theorem padded_append_inj {width n m : ℕ} {r r' : List Char} (hn : n < 10 ^ width)
    (hm : m < 10 ^ width) (h : padded width n ++ r = padded width m ++ r') : n = m ∧ r = r' := by
  obtain ⟨hp,hr⟩ := List.append_inj h (by rw [length_padded hn,length_padded hm])
  exact ⟨padded_injective hp,hr⟩

theorem monthDayText_injective {leap : Bool} {day day' : ℕ} (h : day < 366) (h' : day' < 366)
    (heq : monthDayText leap day = monthDayText leap day') : day = day' := by
  obtain ⟨hmonth,hdate,hday⟩ := month_date_bounds leap day h
  obtain ⟨hmonth',hdate',hday'⟩ := month_date_bounds leap day' h'
  unfold monthDayText at heq
  rw [List.cons_append,List.cons_append,List.cons.injEq] at heq
  obtain ⟨hm,hrest⟩ := padded_append_inj (by omega) (by omega) heq.2
  rw [List.cons.injEq] at hrest
  have hd := padded_injective hrest.2
  have hmonths : monthFromDay leap day = monthFromDay leap day' := by omega
  rw [hmonths,hd] at hday
  rw [hday,← hday']

theorem timeText_injective {ms ms' : ℕ} (h : ms < 86400000) (h' : ms' < 86400000)
    (heq : timeText ms = timeText ms') : ms = ms' := by
  unfold timeText at heq
  simp only [List.cons_append,List.append_assoc,List.cons.injEq,true_and] at heq
  obtain ⟨hhour,hrest⟩ := padded_append_inj (by omega) (by omega) heq
  simp only [List.cons.injEq,true_and] at hrest
  obtain ⟨hminute,hrest⟩ := padded_append_inj (by omega) (by omega) hrest
  simp only [List.cons.injEq,true_and] at hrest
  obtain ⟨hsecond,hrest⟩ := padded_append_inj (by omega) (by omega) hrest
  simp only [List.cons.injEq,true_and] at hrest
  obtain ⟨hms,-⟩ := padded_append_inj (by omega) (by omega) hrest
  omega

theorem padded_ne_sign (width n : ℕ) {c : Char} (hc : isDigit c = false)
    (rest : List Char) : padded width n ≠ c :: rest := by
  intro h
  have hall : (padded width n).all isDigit = true := by
    unfold padded
    rw [List.all_append,all_zeros,all_digitsOf]
    rfl
  rw [h,List.all_cons,hc] at hall
  cases hall

theorem yearText_injective {y y' : ℤ} (h : yearText y = yearText y') : y = y' := by
  unfold yearText at h
  split at h
  · split at h
    · have hn := padded_injective h
      omega
    · split at h
      · exact absurd h (padded_ne_sign 4 _ (by decide) _)
      · exact absurd h (padded_ne_sign 4 _ (by decide) _)
  · split at h
    · split at h
      · exact absurd h.symm (padded_ne_sign 4 _ (by decide) _)
      · split at h
        · rw [List.cons.injEq] at h
          have hn := padded_injective h.2
          omega
        · cases (List.cons.inj h).1
    · split at h
      · exact absurd h.symm (padded_ne_sign 4 _ (by decide) _)
      · split at h
        · cases (List.cons.inj h).1
        · rw [List.cons.injEq] at h
          have hn := padded_injective h.2
          omega

/-- Two instants never share a text. -/
theorem toISOString_injective {t t' : ℤ} (h : toISOString t = toISOString t') : t = t' := by
  have hday := dayFromYear_yearFromDay (t / 86400000)
  have hday' := dayFromYear_yearFromDay (t' / 86400000)
  have hwithin : (t / 86400000 - dayFromYear (yearFromDay (t / 86400000))).toNat < 366 := by
    have hsucc := dayFromYear_succ (yearFromDay (t / 86400000))
    omega
  have hwithin' : (t' / 86400000 - dayFromYear (yearFromDay (t' / 86400000))).toNat < 366 := by
    have hsucc := dayFromYear_succ (yearFromDay (t' / 86400000))
    omega
  unfold toISOString at h
  dsimp only at h
  rw [String.ofList_inj] at h
  obtain ⟨hyear,hrest⟩ := List.append_inj' h (by
    rw [List.length_append,List.length_append,length_monthDayText hwithin,
      length_monthDayText hwithin',length_timeText (by omega),length_timeText (by omega)])
  obtain ⟨hmonth,htime⟩ := List.append_inj hrest (by
    rw [length_monthDayText hwithin,length_monthDayText hwithin'])
  rw [yearText_injective hyear] at hmonth hday hwithin
  have hd := monthDayText_injective hwithin hwithin' hmonth
  have hms := timeText_injective (by omega) (by omega) htime
  omega

/-! ## Reading -/

/-- A number of `width` digits, and what follows it. -/
def readField (width : ℕ) (cs : List Char) : Option (ℕ × List Char) :=
  if (cs.take width).length = width ∧ (cs.take width).all isDigit then
    some (decimal (cs.take width),cs.drop width)
  else none

def readChar (c : Char) : List Char → Option (List Char)
  | d :: rest => if d = c then some rest else none
  | [] => none

/-- Four digits, or a sign and six; a negative year is not zero. -/
def readYear (cs : List Char) : Option (ℤ × List Char) :=
  match cs with
  | '+' :: rest => (readField 6 rest).map fun r => ((r.1 : ℤ),r.2)
  | '-' :: rest => (readField 6 rest).bind fun r => if r.1 = 0 then none else some (-(r.1 : ℤ),r.2)
  | _ => (readField 4 cs).map fun r => ((r.1 : ℤ),r.2)

/-- The day of the year behind the year, if there is such a day. -/
def readMonthDay (leap : Bool) (cs : List Char) : Option (ℕ × List Char) := do
  let cs ← readChar '-' cs
  let (month,cs) ← readField 2 cs
  let cs ← readChar '-' cs
  let (date,cs) ← readField 2 cs
  let day := (monthStarts leap).getD (month - 1) 0 + (date - 1)
  if monthFromDay leap day + 1 = month ∧ dateFromDay leap day = date ∧
      day < (if leap then 366 else 365) then some (day,cs)
  else none

/-- The milliseconds of a time of day. -/
def readTime (cs : List Char) : Option ℕ := do
  let cs ← readChar 'T' cs
  let (hour,cs) ← readField 2 cs
  let cs ← readChar ':' cs
  let (minute,cs) ← readField 2 cs
  let cs ← readChar ':' cs
  let (second,cs) ← readField 2 cs
  let cs ← readChar '.' cs
  let (ms,cs) ← readField 3 cs
  if hour < 24 ∧ minute < 60 ∧ second < 60 ∧ cs = ['Z'] then
    some (hour * 3600000 + minute * 60000 + second * 1000 + ms)
  else none

/-- `Date.parse` on a text in the format of `toISOString`. -/
def dateParse (text : String) : Option ℤ := do
  let (year,cs) ← readYear text.toList
  let (day,cs) ← readMonthDay (inLeapYear year) cs
  let ms ← readTime cs
  let t := (dayFromYear year + day) * 86400000 + ms
  if ValidTime t then some t else none

theorem readField_padded {width n : ℕ} (h : n < 10 ^ width) (rest : List Char) :
    readField width (padded width n ++ rest) = some (n,rest) := by
  have hlength := length_padded h
  have htake : (padded width n ++ rest).take width = padded width n := by
    exact List.take_left' hlength
  have hdrop : (padded width n ++ rest).drop width = rest := by
    exact List.drop_left' hlength
  rw [readField,htake,hdrop,if_pos,decimal_padded]
  refine ⟨hlength,?_⟩
  unfold padded
  rw [List.all_append,all_zeros,all_digitsOf]
  rfl

theorem readChar_cons (c : Char) (rest : List Char) : readChar c (c :: rest) = some rest :=
  if_pos rfl

theorem readYear_digit {c : Char} (hc : isDigit c = true) (cs : List Char) :
    readYear (c :: cs) = (readField 4 (c :: cs)).map fun r => ((r.1 : ℤ),r.2) := by
  unfold readYear
  split
  · rename_i heq
    cases heq
    exact absurd hc (by decide)
  · rename_i heq
    cases heq
    exact absurd hc (by decide)
  · rfl

theorem readYear_yearText {y : ℤ} (hlow : -1000000 < y) (hhigh : y < 1000000)
    (rest : List Char) : readYear (yearText y ++ rest) = some (y,rest) := by
  unfold yearText
  split
  · rename_i hfour
    have hread : readField 4 (padded 4 y.toNat ++ rest) = some (y.toNat,rest) :=
      readField_padded (by omega) rest
    cases hp : padded 4 y.toNat with
    | nil =>
        have hlength : (padded 4 y.toNat).length = 4 := length_padded (by omega)
        rw [hp] at hlength
        cases hlength
    | cons c cs =>
        have hdigit : isDigit c = true := by
          by_contra hc
          exact padded_ne_sign 4 y.toNat (by simpa using hc) cs hp
        rw [hp] at hread
        rw [List.cons_append,readYear_digit hdigit,← List.cons_append,hread,Option.map_some,
          Int.toNat_of_nonneg hfour.1]
  · split
    · rename_i hnegative
      have hne : y.natAbs ≠ 0 := by omega
      simp only [readYear,List.cons_append]
      rw [readField_padded (by omega),Option.bind_some,if_neg hne,Int.ofNat_natAbs_of_nonpos
        (by omega),neg_neg]
    · simp only [readYear,List.cons_append]
      rw [readField_padded (by omega),Option.map_some,Int.toNat_of_nonneg (by omega)]

theorem readMonthDay_monthDayText {leap : Bool} {day : ℕ} (h : day < (if leap then 366 else 365))
    (rest : List Char) : readMonthDay leap (monthDayText leap day ++ rest) = some (day,rest) := by
  have hyear : day < 366 := by
    split at h <;> omega
  obtain ⟨hmonth,hdate,hday⟩ := month_date_bounds leap day hyear
  unfold readMonthDay monthDayText
  simp only [List.cons_append,List.append_assoc,readChar_cons,Option.bind_eq_bind,Option.bind_some]
  rw [readField_padded (by omega)]
  simp only [Option.bind_some,readChar_cons]
  rw [readField_padded (by omega)]
  simp only [Option.bind_some,Nat.add_sub_cancel]
  rw [← hday,if_pos ⟨rfl,rfl,h⟩]

theorem readTime_timeText {ms : ℕ} (h : ms < 86400000) : readTime (timeText ms) = some ms := by
  unfold readTime timeText
  simp only [List.cons_append,List.append_assoc,readChar_cons,Option.bind_eq_bind,Option.bind_some]
  rw [readField_padded (by omega)]
  simp only [Option.bind_some,readChar_cons]
  rw [readField_padded (by omega)]
  simp only [Option.bind_some,readChar_cons]
  rw [readField_padded (by omega)]
  simp only [Option.bind_some,readChar_cons]
  rw [readField_padded (by omega)]
  simp only [Option.bind_some]
  rw [if_pos ⟨by omega,by omega,by omega,trivial⟩,Option.some.injEq]
  omega

theorem dayFromYear_succ_eq (y : ℤ) :
    dayFromYear (y + 1) = dayFromYear y + (if inLeapYear y then 366 else 365) := by
  unfold dayFromYear inLeapYear
  split
  · rename_i h
    simp only [decide_eq_true_eq] at h
    omega
  · rename_i h
    simp only [decide_eq_true_eq] at h
    omega

/-- An instant that a date holds is read back from its text. -/
theorem dateParse_toISOString {t : ℤ} (h : ValidTime t) : dateParse (toISOString t) = some t := by
  obtain ⟨hlow,hhigh⟩ := dayFromYear_yearFromDay (t / 86400000)
  have hsucc := dayFromYear_succ_eq (yearFromDay (t / 86400000))
  unfold dateParse toISOString
  rw [String.toList_ofList]
  generalize yearFromDay (t / 86400000) = year at hlow hhigh hsucc ⊢
  obtain ⟨hmin,hmax⟩ := h
  have hyears : -1000000 < year ∧ year < 1000000 := by
    rw [hsucc] at hhigh
    unfold dayFromYear at hlow hhigh
    split at hhigh <;> omega
  have hday : (t / 86400000 - dayFromYear year).toNat < (if inLeapYear year then 366 else 365) := by
    split at hsucc <;> simp only [*,if_true,Bool.false_eq_true,if_false] <;> omega
  have hms : (t % 86400000).toNat < 86400000 := by omega
  have ht : (dayFromYear year + ((t / 86400000 - dayFromYear year).toNat : ℤ)) * 86400000 +
      ((t % 86400000).toNat : ℤ) = t := by omega
  rw [readYear_yearText hyears.1 hyears.2]
  simp only [Option.bind_eq_bind,Option.bind_some]
  rw [readMonthDay_monthDayText hday]
  simp only [Option.bind_some]
  rw [readTime_timeText hms]
  simp only [Option.bind_some]
  rw [ht,if_pos ⟨hmin,hmax⟩]

example : toISOString 1709210096789 = "2024-02-29T12:34:56.789Z" := by decide +kernel

example : dateParse "2023-02-29T00:00:00.000Z" = none := by decide +kernel

end Creditra.IsoDates
