import Creditra.FloatOrder
import Creditra.HorizonListener

/-!
# The cursor of the Horizon listener

`currentLedgerCursor` is null or a number of the runtime. It is written in two
places: `fetchHorizonEvents` puts the highest ledger of a served page there, and
`handleCursorGap` moves it past a gap. Both take a cursor that does not count as
true for an unset one, and begin at the configured start ledger again.

The configuration is what `resolveConfig` makes of the environment. A poll is
answered by the environment; `simulated` is what `fetchHorizonEvents` makes of
its own contract identifiers. The instants and delays of the backoff are chosen
by the environment. Of an event only the ledger is kept here; the search for
events in a gap writes metrics alone, and a poll is taken at its end.
-/
namespace Creditra.HorizonCursor
open FloatNumbers FloatOrder GuardedRuns JsNumbers JsStrings
open HorizonListener (HorizonError RetryState classifyError contains)

structure HorizonListenerConfig where
  contractIds : List String
  startLedger : String
  maxRetries : Value
  maxCursorGap : Value

def resolveConfig (env : String → Option String) : HorizonListenerConfig where
  contractIds := splitTrimmed ',' ((env "CONTRACT_IDS").getD "")
  startLedger := (env "HORIZON_START_LEDGER").getD "latest"
  maxRetries := parseIntDecimal ((env "HORIZON_MAX_RETRIES").getD "3")
  maxCursorGap := parseIntDecimal ((env "HORIZON_MAX_CURSOR_GAP").getD "100")

structure Listener where
  currentLedgerCursor : Option Value := none
  retryState : RetryState := {}

/-- `delay` is how long a rate limit or a transient error holds the next poll back. -/
structure Poll where
  running : Bool
  now : ℤ
  response : Except HorizonError Unit
  failedAt : ℤ
  delay : Value

/-- The cursor where it counts as set. -/
def counted (cursor : Option Value) : Option Value := cursor.filter Value.truthy

/-- The answer that `fetchHorizonEvents` simulates. -/
def simulated (config : HorizonListenerConfig) : Except HorizonError Unit :=
  let contractHint := config.contractIds.headD ""
  if contains contractHint "RATE_LIMIT" then
    .error { status := some 429, message := "Rate limit exceeded" }
  else if contains contractHint "TRANSIENT" || contains contractHint "MAX_RETRY" then
    .error { status := some 503, message := "Transient network error" }
  else if contains contractHint "GAP" then
    .error { code := some "CURSOR_GAP", message := "Cursor gap detected" }
  else .ok ()

/-- Where a page begins when there is no cursor. -/
def startValue (config : HorizonListenerConfig) : Value :=
  if config.startLedger = "latest" then .round 1000 else parseInt config.startLedger

def baseLedger (config : HorizonListenerConfig) (cursor : Option Value) : Value :=
  match counted cursor with
  | some v => v.add .one
  | none => startValue config

/-- The ledgers of the events on a page. -/
def ledgers (config : HorizonListenerConfig) (cursor : Option Value) : List Value :=
  (List.range (min 5 config.contractIds.length)).map fun i : ℕ =>
    (baseLedger config cursor).add (.round i)

/-- `Math.max(...values)`. -/
def highest (values : List Value) : Value := values.foldl Value.max (.infinite true)

/-- The cursor after a page has been served. -/
def fetchHorizonEvents (config : HorizonListenerConfig) (cursor : Option Value) : Option Value :=
  if config.contractIds.length > 0 then
    if (ledgers config cursor).length > 0 then some (highest (ledgers config cursor)) else cursor
  else cursor

def maxGap (config : HorizonListenerConfig) : Value := config.maxCursorGap.orElse (.round 100)

/-- The cursor after a gap: `(currentLedgerCursor || startLedger) + maxGap`. -/
def handleCursorGap (config : HorizonListenerConfig) (gapStart : String)
    (cursor : Option Value) : Option Value :=
  let startLedger := parseInt gapStart
  some (((counted cursor).getD startLedger).add (maxGap config))

/-- The text of the cursor, or of the start ledger. -/
def cursorText (config : HorizonListenerConfig) (cursor : Option Value) : String :=
  match counted cursor with
  | some v => toText v
  | none => config.startLedger

namespace Listener

def resetRetries (l : Listener) : Listener :=
  if l.retryState.attempts > 0 then { l with retryState := {} } else l

/-- The `catch` clause of a poll. -/
def pollFailed (config : HorizonListenerConfig) (p : Poll) (error : HorizonError)
    (l : Listener) : Listener :=
  let classified := classifyError error
  if classified.isRateLimit then
    { l with retryState := { l.retryState with
        nextRetryTime := (Value.round p.failedAt).add p.delay } }
  else if classified.isCursorGap then
    let gapStart := cursorText config l.currentLedgerCursor
    { l with currentLedgerCursor := handleCursorGap config gapStart l.currentLedgerCursor }
  else if classified.isTransient then
    let attempts := l.retryState.attempts + 1
    if (Value.round attempts).le (config.maxRetries.orElse (.round 3)) then
      { l with retryState := ⟨attempts,p.failedAt,(Value.round p.failedAt).add p.delay⟩ }
    else { l with retryState := { l.retryState with attempts := 0 } }
  else l

/-- A poll once the backoff period is over. -/
def pollAnswered (config : HorizonListenerConfig) (l : Listener) (p : Poll) : Listener :=
  match p.response with
  | .ok _ =>
      { l with currentLedgerCursor := fetchHorizonEvents config l.currentLedgerCursor }
  | .error error => l.pollFailed config p error

/-- The state in which a poll looks at the clock. -/
def entered (l : Listener) (p : Poll) : Listener := if p.running then l else l.resetRetries

/-- The poll falls into a backoff period. -/
def waiting (l : Listener) (p : Poll) : Bool :=
  (Value.round p.now).lt (l.entered p).retryState.nextRetryTime

def pollOnce (config : HorizonListenerConfig) (l : Listener) (p : Poll) : Listener :=
  if l.waiting p then l.entered p else (l.entered p).resetRetries.pollAnswered config p

end Listener

/-! ## What is promised of the cursor -/

/-- Null, or a whole number. -/
def IsLedger (cursor : Option Value) : Prop :=
  ∀ v ∈ cursor, ∃ (x : Double) (n : ℤ), v = .finite x ∧ x.1 = n

/-- The cursor is as it should be and has not gone back. -/
def Advances (before after : Option Value) : Prop :=
  IsLedger after ∧ ∀ v ∈ before, ∃ w ∈ after, v.le w = true

/-- A page is served to a listener without a cursor, or with one that does not count: the start
ledger is a number, and the page ends behind the cursor. -/
def PageSound (config : HorizonListenerConfig) (cursor : Option Value) : Prop :=
  config.contractIds ≠ [] → counted cursor = none →
    ∃ x, startValue config = .finite x ∧
      (cursor ≠ none → 0 ≤ x.1 + (min 5 config.contractIds.length - 1 : ℕ))

/-- Where the skip of a gap begins. -/
def origin (config : HorizonListenerConfig) (cursor : Option Value) : Value :=
  (counted cursor).getD (parseInt config.startLedger)

/-- A gap begins at a number, is finite and ends at a finite number, which is not below a cursor
that does not count. -/
def GapSound (config : HorizonListenerConfig) (cursor : Option Value) : Prop :=
  ∃ x gap : Double, origin config cursor = .finite x ∧ maxGap config = .finite gap ∧
    (Value.round (x.1 + gap.1)).isFinite = true ∧
    (counted cursor = none → cursor ≠ none → 0 ≤ x.1 + gap.1)

/-- What a poll outside the backoff period asks of the cursor and the configuration. -/
def Sound (config : HorizonListenerConfig) (l : Listener) (p : Poll) : Prop :=
  l.waiting p = false →
    match p.response with
    | .ok _ => PageSound config l.currentLedgerCursor
    | .error error => (classifyError error).isRateLimit = false →
        (classifyError error).isCursorGap = true → GapSound config l.currentLedgerCursor

/-! ## Whole numbers -/

/-- The value is whole if it is finite. -/
def Whole (v : Value) : Prop := ∀ x, v = .finite x → ∃ n : ℤ, x.1 = n

theorem whole_round (n : ℤ) : Whole (.round n) := fun _ h => round_whole h

theorem whole_wholeValue (n : Option ℤ) : Whole (wholeValue n) := by
  cases n with
  | none =>
      intro x hx
      cases hx
  | some n => exact whole_round n

theorem whole_startValue (config : HorizonListenerConfig) : Whole (startValue config) := by
  unfold startValue
  split_ifs
  · exact whole_round 1000
  · exact whole_wholeValue _

theorem whole_maxGap (env : String → Option String) : Whole (maxGap (resolveConfig env)) := by
  unfold maxGap Value.orElse
  split_ifs
  · exact whole_wholeValue _
  · exact whole_round 100

/-! ## The highest ledger -/

theorem max_finite (x y : Double) :
    ∃ z, Value.max (.finite x) (.finite y) = .finite z ∧ (z = x ∨ z = y) ∧
      x.1 ≤ z.1 ∧ y.1 ≤ z.1 := by
  unfold Value.max Value.le
  by_cases hle : x.1 ≤ y.1
  · exact ⟨y,by simp [hle],.inr rfl,hle,le_refl _⟩
  · exact ⟨x,by simp [hle],.inl rfl,le_refl _,(not_le.mp hle).le⟩

theorem foldl_max_finite (a : Double) (xs : List Double) :
    ∃ z, (xs.map Value.finite).foldl Value.max (.finite a) = .finite z ∧ z ∈ a :: xs ∧
      ∀ x ∈ a :: xs, x.1 ≤ z.1 := by
  induction xs generalizing a with
  | nil =>
      refine ⟨a,rfl,List.mem_singleton.mpr rfl,?_⟩
      intro x hx
      rw [List.mem_singleton.mp hx]
  | cons y xs ih =>
      rcases max_finite a y with ⟨b,hb,hmem,hle,hle'⟩
      rcases ih b with ⟨z,hz,hzmem,hzle⟩
      refine ⟨z,?_,?_,?_⟩
      · rw [List.map_cons,List.foldl_cons,hb,hz]
      · rcases List.mem_cons.mp hzmem with rfl | hin
        · rcases hmem with rfl | rfl
          · exact List.mem_cons_self
          · exact List.mem_cons_of_mem _ List.mem_cons_self
        · exact List.mem_cons_of_mem _ (List.mem_cons_of_mem _ hin)
      · intro x hx
        have hbz := hzle b List.mem_cons_self
        rcases List.mem_cons.mp hx with rfl | hx'
        · exact hle.trans hbz
        · rcases List.mem_cons.mp hx' with rfl | hin
          · exact hle'.trans hbz
          · exact hzle x (List.mem_cons_of_mem b hin)

theorem highest_finite {xs : List Double} (hne : xs ≠ []) :
    ∃ z ∈ xs, highest (xs.map Value.finite) = .finite z ∧ ∀ x ∈ xs, x.1 ≤ z.1 := by
  cases xs with
  | nil => exact absurd rfl hne
  | cons a xs =>
      rcases foldl_max_finite a xs with ⟨z,hz,hmem,hle⟩
      exact ⟨z,hmem,hz,hle⟩

/-- What `Math.max` gives is not a number, or one of its arguments. -/
theorem foldl_max_mem (values : List Value) (v : Value) :
    values.foldl Value.max v = .nan ∨ values.foldl Value.max v ∈ v :: values := by
  induction values generalizing v with
  | nil => exact .inr (List.mem_singleton.mpr rfl)
  | cons w values ih =>
      have hmax : Value.max v w = .nan ∨ Value.max v w = v ∨ Value.max v w = w := by
        unfold Value.max
        split
        · exact .inl rfl
        · exact .inl rfl
        · split_ifs
          · exact .inr (.inr rfl)
          · exact .inr (.inl rfl)
      rw [List.foldl_cons]
      rcases ih (Value.max v w) with hnan | hmem
      · exact .inl hnan
      · rcases List.mem_cons.mp hmem with heq | hin
        · rw [heq]
          rcases hmax with hnan | hv | hw
          · exact .inl hnan
          · rw [hv]
            exact .inr List.mem_cons_self
          · rw [hw]
            exact .inr (List.mem_cons_of_mem _ List.mem_cons_self)
        · exact .inr (List.mem_cons_of_mem _ (List.mem_cons_of_mem _ hin))

theorem mem_of_highest {values : List Value} {x : Double} (h : highest values = .finite x) :
    .finite x ∈ values := by
  rcases foldl_max_mem values (.infinite true) with hnan | hmem
  · unfold highest at h
    rw [h] at hnan
    cases hnan
  · unfold highest at h
    rw [h] at hmem
    rcases List.mem_cons.mp hmem with heq | hin
    · cases heq
    · exact hin

theorem add_eq_finite {v w : Value} {x : Double} (h : v.add w = .finite x) :
    ∃ a b, v = .finite a ∧ w = .finite b ∧ Value.round (a.1 + b.1) = .finite x := by
  cases v with
  | finite a =>
      cases w with
      | finite b => exact ⟨a,b,rfl,rfl,h⟩
      | infinite n => cases h
      | nan => cases h
  | infinite n =>
      cases w with
      | finite b => cases h
      | infinite m =>
          unfold Value.add at h
          dsimp only at h
          split_ifs at h
      | nan => cases h
  | nan => cases h

theorem exists_of_isFinite {v : Value} (h : v.isFinite = true) : ∃ x, v = .finite x := by
  cases v with
  | finite x => exact ⟨x,rfl⟩
  | infinite n => cases h
  | nan => cases h

theorem round_nonneg_iff {n : ℤ} {x : Double} (h : Value.round n = .finite x) :
    0 ≤ x.1 ↔ 0 ≤ n := by
  constructor
  · intro hx
    by_contra hneg
    have hle : (n : ℚ) ≤ -1 := by exact_mod_cast (show n ≤ -1 by omega)
    have hone : Value.round (-1) = .finite ⟨-1,by decide +kernel⟩ := round_self ⟨-1,_⟩
    have hround := round_mono hle h hone
    linarith
  · intro hn
    exact (round_spec h).2.2 (by exact_mod_cast hn)

/-! ## A page -/

section Cursors
variable {config : HorizonListenerConfig} {cursor : Option Value}

theorem isLedger_null : IsLedger none := by
  intro v hv
  cases hv

theorem isLedger_some {v : Value} (h : IsLedger (some v)) :
    ∃ x, v = .finite x ∧ ∃ n : ℤ, x.1 = n := by
  rcases h v rfl with ⟨x,n,hx,hn⟩
  exact ⟨x,hx,n,hn⟩

theorem le_finite (x y : Double) : (Value.finite x).le (.finite y) = true ↔ x.1 ≤ y.1 :=
  decide_eq_true_iff

/-- The cursor is left as it is. -/
theorem advances_refl (h : IsLedger cursor) : Advances cursor cursor := by
  refine ⟨h,?_⟩
  intro v hv
  rcases h v hv with ⟨x,-,rfl,-⟩
  exact ⟨_,hv,(le_finite x x).mpr (le_refl _)⟩

theorem counted_some {v : Value} (h : counted cursor = some v) : cursor = some v :=
  (Option.filter_eq_some_iff.mp h).1

/-- A cursor that does not count is zero. -/
theorem counted_none (hledger : IsLedger cursor) (h : counted cursor = none) (hne : cursor ≠ none) :
    cursor = some .zero := by
  cases cursor with
  | none => exact absurd rfl hne
  | some v =>
      rcases isLedger_some hledger with ⟨x,rfl,-⟩
      have hzero : x.1 = 0 := by
        unfold counted at h
        rw [Option.filter_eq_none_iff] at h
        have hfalse := h _ rfl
        simpa [Value.truthy] using hfalse
      unfold Value.zero
      congr 2
      exact Subtype.ext hzero

theorem add_round (b : Double) {i : ℕ} (hi : i < 5) :
    (Value.finite b).add (.round i) = .round (b.1 + i) := by
  have hdouble : toDouble |(i : ℚ)| = some |(i : ℚ)| := by
    rw [Nat.abs_cast]
    exact toDouble_natCast (by omega)
  rw [show Value.round i = .finite ⟨i,hdouble⟩ from round_self ⟨i,hdouble⟩]
  rfl

theorem fetchHorizonEvents_page (hne : config.contractIds ≠ []) :
    fetchHorizonEvents config cursor = some (highest (ledgers config cursor)) := by
  have hlength : 0 < config.contractIds.length := List.length_pos_iff.mpr hne
  unfold fetchHorizonEvents
  rw [if_pos hlength,if_pos]
  simp only [ledgers,List.length_map,List.length_range]
  omega

/-- The ledgers of a page that begins at a finite number, and the highest of them. -/
theorem ledgers_spec {b : Double} (hb : baseLedger config cursor = .finite b)
    (hne : config.contractIds ≠ []) :
    ∃ ledger : ℕ → Double,
      (∀ j < min 5 config.contractIds.length, Value.round (b.1 + j) = .finite (ledger j)) ∧
      ∃ i < min 5 config.contractIds.length,
        highest (ledgers config cursor) = .finite (ledger i) ∧
        ∀ j < min 5 config.contractIds.length, (ledger j).1 ≤ (ledger i).1 := by
  have hlength : 0 < config.contractIds.length := List.length_pos_iff.mpr hne
  have hledger : ∀ i : ℕ, ∃ y, i < 5 → Value.round (b.1 + i) = .finite y := by
    intro i
    by_cases hi : i < 5
    · have habs : |(i : ℚ)| ≤ 5 := by
        rw [Nat.abs_cast]
        exact_mod_cast hi.le
      rcases exists_round_add b habs with ⟨y,hy⟩
      exact ⟨y,fun _ => hy⟩
    · exact ⟨b,fun h => absurd h hi⟩
  choose ledger hledger using hledger
  have hledgers : ledgers config cursor =
      ((List.range (min 5 config.contractIds.length)).map ledger).map Value.finite := by
    unfold ledgers
    rw [hb,List.map_map]
    apply List.map_congr_left
    intro i hi
    have hi5 : i < 5 := by
      have hlt := List.mem_range.mp hi
      omega
    rw [add_round b hi5,hledger i hi5]
    rfl
  have hsome : (List.range (min 5 config.contractIds.length)).map ledger ≠ [] := by
    intro hnil
    have hzero := congrArg List.length hnil
    rw [List.length_map,List.length_range,List.length_nil] at hzero
    omega
  rcases highest_finite hsome with ⟨z,hz,hhighest,hle⟩
  rcases List.mem_map.mp hz with ⟨i,hi,rfl⟩
  refine ⟨ledger,?_,i,List.mem_range.mp hi,?_,?_⟩
  · intro j hj
    exact hledger j (by omega)
  · rw [hledgers,hhighest]
  · intro j hj
    exact hle _ (List.mem_map_of_mem (List.mem_range.mpr hj))

/-- A page that begins at a whole number ends at one. -/
theorem page_spec {b : Double} (hb : baseLedger config cursor = .finite b)
    (hwhole : ∃ n : ℤ, b.1 = n) (hne : config.contractIds ≠ []) :
    ∃ z, fetchHorizonEvents config cursor = some (.finite z) ∧ (∃ n : ℤ, z.1 = n) ∧ b.1 ≤ z.1 ∧
      (0 ≤ z.1 ↔ 0 ≤ b.1 + (min 5 config.contractIds.length - 1 : ℕ)) := by
  have hlength : 0 < config.contractIds.length := List.length_pos_iff.mpr hne
  rcases hwhole with ⟨n,hn⟩
  rcases ledgers_spec hb hne with ⟨ledger,hledger,i,hi,hhighest,hwithin⟩
  have hround : ∀ j < min 5 config.contractIds.length,
      Value.round ((n + j : ℤ) : ℚ) = .finite (ledger j) := by
    intro j hj
    rw [Int.cast_add,Int.cast_natCast,← hn]
    exact hledger j hj
  refine ⟨ledger i,?_,round_whole (hround i hi),?_,?_⟩
  · rw [fetchHorizonEvents_page hne,hhighest]
  · have hfirst := hledger 0 (by omega)
    rw [Nat.cast_zero,add_zero,round_self b,Value.finite.injEq] at hfirst
    rw [hfirst]
    exact hwithin 0 (by omega)
  · rw [hn]
    constructor
    · intro hnonneg
      have hsum := (round_nonneg_iff (hround i hi)).mp hnonneg
      exact_mod_cast (show 0 ≤ n + (min 5 config.contractIds.length - 1 : ℕ) by omega)
    · intro hsum
      have hlast := (round_nonneg_iff (hround (min 5 config.contractIds.length - 1) (by omega))).mpr
        (by exact_mod_cast hsum)
      exact hlast.trans (hwithin _ (by omega))

/-- A page with a finite end has a finite beginning. -/
theorem page_begins {z : Double} (h : highest (ledgers config cursor) = .finite z) :
    ∃ b, baseLedger config cursor = .finite b := by
  rcases List.mem_map.mp (mem_of_highest h) with ⟨i,-,hi⟩
  rcases add_eq_finite hi with ⟨b,-,hb,-⟩
  exact ⟨b,hb⟩

theorem baseLedger_counted {x : Double} (h : counted cursor = some (.finite x)) :
    baseLedger config cursor = .round (x.1 + 1) := by
  unfold baseLedger
  rw [h]
  rfl

theorem baseLedger_unset (h : counted cursor = none) :
    baseLedger config cursor = startValue config := by
  unfold baseLedger
  rw [h]

/-- A move to a number. -/
theorem advances_iff (hledger : IsLedger cursor) {w : Value} :
    Advances cursor (some w) ↔ ∃ z, w = .finite z ∧ (∃ n : ℤ, z.1 = n) ∧
      ∀ x, cursor = some (.finite x) → x.1 ≤ z.1 := by
  constructor
  · rintro ⟨hafter,hforward⟩
    rcases isLedger_some hafter with ⟨z,rfl,hwhole⟩
    refine ⟨z,rfl,hwhole,?_⟩
    intro x hx
    rcases hforward _ hx with ⟨w,hw,hle⟩
    cases hw
    exact (le_finite x z).mp hle
  · rintro ⟨z,rfl,⟨n,hn⟩,hforward⟩
    constructor
    · intro v hv
      cases hv
      exact ⟨z,n,rfl,hn⟩
    · intro v hv
      rcases hledger v hv with ⟨x,-,rfl,-⟩
      exact ⟨_,rfl,(le_finite x z).mpr (hforward x hv)⟩

/-- A cursor that does not count is passed by what is not negative. -/
theorem passes_uncounted (hledger : IsLedger cursor) (h : counted cursor = none) {z : Double} :
    (∀ x, cursor = some (.finite x) → x.1 ≤ z.1) ↔ (cursor ≠ none → 0 ≤ z.1) := by
  constructor
  · intro hpasses hset
    exact hpasses _ (counted_none hledger h hset)
  · intro hnonneg x hx
    have hset : cursor ≠ none := by
      rw [hx]
      exact Option.some_ne_none _
    have hzero := counted_none hledger h hset
    rw [hx] at hzero
    cases hzero
    exact hnonneg hset

/-- A page behind a cursor that counts. -/
theorem page_counted {x : Double} (hledger : IsLedger cursor)
    (h : counted cursor = some (.finite x)) (hne : config.contractIds ≠ []) :
    Advances cursor (fetchHorizonEvents config cursor) := by
  have hcursor := counted_some h
  rcases isLedger_some (hcursor ▸ hledger) with ⟨x',hx,n,hn⟩
  cases hx
  have hone : |(1 : ℚ)| ≤ 5 := by norm_num
  rcases exists_round_add x hone with ⟨b,hround⟩
  have hwhole : ∃ m : ℤ, b.1 = m := by
    have hnext : x.1 + 1 = ((n + 1 : ℤ) : ℚ) := by rw [hn,Int.cast_add,Int.cast_one]
    rw [hnext] at hround
    exact round_whole hround
  have hxb : x.1 ≤ b.1 := round_mono (by linarith) (round_self x) hround
  rcases page_spec ((baseLedger_counted h).trans hround) hwhole hne with ⟨z,hz,hz',hle,-⟩
  rw [hz,advances_iff hledger]
  refine ⟨z,rfl,hz',?_⟩
  intro y hy
  rw [hcursor] at hy
  cases hy
  exact hxb.trans hle

/-- A page that begins at the start ledger. -/
theorem page_uncounted (hledger : IsLedger cursor) (h : counted cursor = none)
    (hne : config.contractIds ≠ []) :
    Advances cursor (fetchHorizonEvents config cursor) ↔ PageSound config cursor := by
  have hspec {b : Double} (hb : startValue config = .finite b) :=
    page_spec ((baseLedger_unset h).trans hb) (whole_startValue config b hb) hne
  have hpage : fetchHorizonEvents config cursor = some (highest (ledgers config cursor)) :=
    fetchHorizonEvents_page hne
  rw [hpage,advances_iff hledger]
  constructor
  · rintro ⟨z,hz,-,hpasses⟩ - -
    rcases page_begins hz with ⟨b,hb⟩
    rw [baseLedger_unset h] at hb
    rcases hspec hb with ⟨z',hz',-,-,hiff⟩
    rw [hpage,Option.some.injEq,hz] at hz'
    cases hz'
    refine ⟨b,hb,?_⟩
    rw [← hiff]
    exact (passes_uncounted hledger h).mp hpasses
  · intro hsound
    rcases hsound hne h with ⟨b,hb,hnonneg⟩
    rcases hspec hb with ⟨z,hz,hwhole,-,hiff⟩
    rw [hpage,Option.some.injEq] at hz
    rw [← hiff] at hnonneg
    exact ⟨z,hz,hwhole,(passes_uncounted hledger h).mpr hnonneg⟩

theorem page_iff (hledger : IsLedger cursor) :
    Advances cursor (fetchHorizonEvents config cursor) ↔ PageSound config cursor := by
  by_cases hne : config.contractIds = []
  · have hsame : fetchHorizonEvents config cursor = cursor := by
      unfold fetchHorizonEvents
      rw [hne]
      rfl
    rw [hsame]
    exact iff_of_true (advances_refl hledger) fun hsome => absurd hne hsome
  · cases hcounted : counted cursor with
    | none => exact page_uncounted hledger hcounted hne
    | some v =>
        rcases isLedger_some (counted_some hcounted ▸ hledger) with ⟨x,rfl,-⟩
        refine iff_of_true (page_counted hledger hcounted hne) ?_
        intro _ hnone
        rw [hcounted] at hnone
        cases hnone

/-! ## A gap -/

theorem handleCursorGap_eq : handleCursorGap config (cursorText config cursor) cursor =
    some ((origin config cursor).add (maxGap config)) := by
  unfold handleCursorGap cursorText origin
  cases counted cursor with
  | none => rfl
  | some v => rfl

theorem whole_origin (hledger : IsLedger cursor) : Whole (origin config cursor) := by
  unfold origin
  cases hcounted : counted cursor with
  | none => exact whole_wholeValue _
  | some v =>
      rcases isLedger_some (counted_some hcounted ▸ hledger) with ⟨x,rfl,hwhole⟩
      intro y hy
      cases hy
      exact hwhole

theorem gap_iff (hledger : IsLedger cursor) (hwhole : Whole (maxGap config))
    (hpos : Value.zero.lt (maxGap config) = true) :
    Advances cursor (handleCursorGap config (cursorText config cursor) cursor) ↔
      GapSound config cursor := by
  rw [handleCursorGap_eq,advances_iff hledger]
  constructor
  · rintro ⟨z,hz,-,hpasses⟩
    rcases add_eq_finite hz with ⟨x,gap,hx,hgap,hround⟩
    rcases whole_origin hledger x hx with ⟨n,hn⟩
    rcases hwhole gap hgap with ⟨m,hm⟩
    refine ⟨x,gap,hx,hgap,by rw [hround]; rfl,?_⟩
    intro hcounted hset
    have hnonneg := (passes_uncounted hledger hcounted).mp hpasses hset
    rw [hn,hm,← Int.cast_add] at hround ⊢
    exact_mod_cast (round_nonneg_iff hround).mp hnonneg
  · rintro ⟨x,gap,hx,hgap,hfinite,hnonneg⟩
    rcases whole_origin hledger x hx with ⟨n,hn⟩
    rcases hwhole gap hgap with ⟨m,hm⟩
    have hsum : x.1 + gap.1 = ((n + m : ℤ) : ℚ) := by rw [hn,hm,Int.cast_add]
    rcases exists_of_isFinite hfinite with ⟨z,hz⟩
    refine ⟨z,?_,?_,?_⟩
    · rw [hx,hgap]
      exact hz
    · rw [hsum] at hz
      exact round_whole hz
    · cases hcounted : counted cursor with
      | none =>
          rw [passes_uncounted hledger hcounted]
          intro hset
          have hle := hnonneg hcounted hset
          rw [hsum] at hz hle
          exact (round_nonneg_iff hz).mpr (by exact_mod_cast hle)
      | some v =>
          intro y hy
          have horigin : origin config cursor = .finite y := by
            unfold origin
            rw [hcounted,← counted_some hcounted,hy]
            rfl
          rw [hx] at horigin
          cases horigin
          have hgap : 0 < gap.1 := by
            rw [hgap] at hpos
            exact of_decide_eq_true hpos
          exact round_mono (by linarith) (round_self x) hz

end Cursors

/-! ## Runs of polls -/

section Polls
variable {config : HorizonListenerConfig} {l : Listener}

theorem resetRetries_cursor (l : Listener) :
    l.resetRetries.currentLedgerCursor = l.currentLedgerCursor := by
  unfold Listener.resetRetries
  split_ifs
  · rfl
  · rfl

theorem entered_cursor (l : Listener) (p : Poll) :
    (l.entered p).currentLedgerCursor = l.currentLedgerCursor := by
  unfold Listener.entered
  split_ifs
  · rfl
  · exact resetRetries_cursor l

/-- What a failed poll does to the cursor. -/
theorem pollFailed_cursor (l : Listener) (p : Poll) (error : HorizonError) :
    (l.pollFailed config p error).currentLedgerCursor =
      if (classifyError error).isRateLimit = false ∧ (classifyError error).isCursorGap = true then
        handleCursorGap config (cursorText config l.currentLedgerCursor) l.currentLedgerCursor
      else l.currentLedgerCursor := by
  unfold Listener.pollFailed
  dsimp only
  split_ifs <;> simp_all

/-- One poll: the cursor advances exactly where nothing is asked of it that it cannot give. -/
theorem advances_iff_sound (hwhole : Whole (maxGap config))
    (hpos : Value.zero.lt (maxGap config) = true) (hledger : IsLedger l.currentLedgerCursor)
    (p : Poll) :
    Advances l.currentLedgerCursor (l.pollOnce config p).currentLedgerCursor ↔
      Sound config l p := by
  unfold Sound Listener.pollOnce
  cases hwaiting : l.waiting p with
  | true =>
      rw [if_pos rfl,entered_cursor]
      exact iff_of_true (advances_refl hledger) fun hnot => nomatch hnot
  | false =>
      rw [if_neg Bool.false_ne_true,forall_prop_of_true rfl]
      have hcursor : (l.entered p).resetRetries.currentLedgerCursor = l.currentLedgerCursor :=
        (resetRetries_cursor _).trans (entered_cursor l p)
      unfold Listener.pollAnswered
      cases p.response with
      | ok _ =>
          dsimp only
          rw [hcursor]
          exact page_iff hledger
      | error error =>
          dsimp only
          rw [pollFailed_cursor,hcursor]
          split_ifs with hgap
          · rw [gap_iff hledger hwhole hpos]
            exact ⟨fun h _ _ => h,fun h => h hgap.1 hgap.2⟩
          · refine iff_of_true (advances_refl hledger) ?_
            intro hlimit hcursorGap
            exact absurd ⟨hlimit,hcursorGap⟩ hgap

end Polls

/-- For every configuration that the loader makes, and all answers to all polls: the cursor is
always null or a whole number and never goes back, if and only if every poll outside the backoff
period is sound where it takes place. -/
theorem cursor_monotone_iff (env : String → Option String)
    (hpos : Value.zero.lt (maxGap (resolveConfig env)) = true) (polls : List Poll) :
    Guarded (Listener.pollOnce (resolveConfig env)) (fun l p => Advances l.currentLedgerCursor
        (l.pollOnce (resolveConfig env) p).currentLedgerCursor) {} polls ↔
      Guarded (Listener.pollOnce (resolveConfig env)) (Sound (resolveConfig env)) {} polls :=
  guarded_congr (I := fun l => IsLedger l.currentLedgerCursor)
    (fun _ _ _ hadvances => hadvances.1)
    (fun _ p hledger => advances_iff_sound (whole_maxGap env) hpos hledger p)
    isLedger_null polls

/-- The environment sets the two variables. -/
def setting (contractIds startLedger : String) (name : String) : Option String :=
  if name = "CONTRACT_IDS" then some contractIds
  else if name = "HORIZON_START_LEDGER" then some startLedger
  else none

/-- Two polls that are served. -/
def served : List Poll := [⟨true,0,.ok (),0,.zero⟩,⟨true,5000,.ok (),0,.zero⟩]

theorem cursor_monotone_iff_served :
    Value.zero.lt (maxGap (resolveConfig (setting "CA,CB" "500"))) = true ∧
    Guarded (Listener.pollOnce (resolveConfig (setting "CA,CB" "500")))
      (fun l p => Advances l.currentLedgerCursor
        (l.pollOnce (resolveConfig (setting "CA,CB" "500")) p).currentLedgerCursor) {} served := by
  have hpos : Value.zero.lt (maxGap (resolveConfig (setting "CA,CB" "500"))) = true := by
    decide +kernel
  refine ⟨hpos,(cursor_monotone_iff _ hpos served).mpr ⟨?_,?_,trivial⟩⟩
  · intro _ _ _
    exact ⟨⟨500,by decide +kernel⟩,by decide +kernel,fun hset => absurd rfl hset⟩
  · intro _ _ hcounted
    exact absurd hcounted (by decide +kernel)

/-- The environment without a start ledger. -/
def contractsOnly (contractIds : String) (name : String) : Option String :=
  if name = "CONTRACT_IDS" then some contractIds else none

/-- The first poll reports a cursor gap, as `fetchHorizonEvents` makes it from the contract. -/
def gapAtOnce : List Poll := [⟨true,0,simulated (resolveConfig (contractsOnly "GAP")),0,.zero⟩]

theorem cursor_not_a_number :
    Value.zero.lt (maxGap (resolveConfig (contractsOnly "GAP"))) = true ∧
    ¬ Guarded (Listener.pollOnce (resolveConfig (contractsOnly "GAP")))
      (fun l p => Advances l.currentLedgerCursor
        (l.pollOnce (resolveConfig (contractsOnly "GAP")) p).currentLedgerCursor) {} gapAtOnce := by
  have hnan : (Listener.pollOnce (resolveConfig (contractsOnly "GAP")) {}
      ⟨true,0,simulated (resolveConfig (contractsOnly "GAP")),0,.zero⟩).currentLedgerCursor =
        some .nan := by
    decide +kernel
  refine ⟨by decide +kernel,?_⟩
  intro hguarded
  have hledger := hguarded.1.1
  rw [hnan] at hledger
  rcases isLedger_some hledger with ⟨x,hx,-⟩
  cases hx

end Creditra.HorizonCursor
