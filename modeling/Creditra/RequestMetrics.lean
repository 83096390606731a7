import Creditra.FloatOrder
import Creditra.OrderStatistics
import Creditra.SlidingBuffers
import Mathlib.Tactic.NormNum

/-!
# Request metrics

`routes/metrics.ts`: a buffer of the requests that were answered in the last
minute, and a report on them. `percentile` computes its index with the runtime's
numbers, and `95 / 100` is not one of them; the index is right all the same for
any number of items that an array can hold.

Durations are differences of two readings of the clock, in whole milliseconds.
-/
namespace Creditra.RequestMetrics
open JsNumbers FloatNumbers FloatOrder OrderStatistics SlidingBuffers

def WINDOW_MS : ℤ := 60000

structure RequestSample where
  timestamp : ℤ
  durationMs : ℤ
  isError : Bool

/-- `while (requestSamples[0].timestamp < cutoff) requestSamples.shift()`. -/
def evict (cutoff : ℤ) (samples : List RequestSample) : List RequestSample :=
  samples.dropWhile fun sample => sample.timestamp < cutoff

/-- One request answered at `sample.timestamp`. -/
def recordRequest (samples : List RequestSample) (sample : RequestSample) : List RequestSample :=
  evict (sample.timestamp - WINDOW_MS) (samples ++ [sample])

/-- What the buffer holds after these requests. -/
def recorded (history : List RequestSample) : List RequestSample :=
  history.foldl recordRequest []

/-- `Math.ceil((p / 100) * n) - 1`, and zero if that is negative. -/
def percentileIndex (p n : ℕ) : Option ℕ :=
  match Value.mul (Value.div (Value.round p) (Value.round 100)) (Value.round n) with
  | .finite x => some (⌈x.1⌉ - 1).toNat
  | _ => none

def percentile (sortedValues : List ℤ) (p : ℕ) : Option ℤ :=
  if sortedValues.length = 0 then some 0
  else (percentileIndex p sortedValues.length).bind (sortedValues[·]?)

structure LatencyMs where
  p50 : Option ℤ
  p95 : Option ℤ
  p99 : Option ℤ

structure SloTargets where
  availabilityTarget : ℚ := 999 / 1000
  p95LatencyTargetMs : ℚ := 300
  errorRateTarget : ℚ := 1 / 1000

structure Metrics where
  uptimeSeconds : ℤ
  windowSeconds : ℤ
  totalRequests : ℕ
  errorCount : ℕ
  errorRate : Value
  latencyMs : LatencyMs
  sloTargets : SloTargets

def computeMetrics (processStart : ℤ) (samples : List RequestSample) (now : ℤ) : Metrics :=
  let window := samples.filter fun sample => now - WINDOW_MS ≤ sample.timestamp
  let totalRequests := window.length
  let errorCount := (window.filter (·.isError)).length
  let durations := (window.map (·.durationMs)).insertionSort (· ≤ ·)
  { uptimeSeconds := (now - processStart) / 1000
    windowSeconds := WINDOW_MS / 1000
    totalRequests := totalRequests
    errorCount := errorCount
    errorRate :=
      if 0 < totalRequests then Value.div (Value.round errorCount) (Value.round totalRequests)
      else Value.zero
    latencyMs := ⟨percentile durations 50,percentile durations 95,percentile durations 99⟩
    sloTargets := {} }

/-! ## The index of a percentile -/

/-- `p / 100` as the runtime has it. -/
def fraction (p : ℕ) : Value := Value.div (Value.round p) (Value.round 100)

/-- A value a little below the exact fraction, or the fraction itself. -/
structure Close (p : ℕ) (r : Double) : Prop where
  value : fraction p = .finite r
  nonneg : 0 ≤ r.1
  le : r.1 ≤ p / 100
  near : (p : ℚ) / 100 - r.1 ≤ 1 / 2 ^ 53

theorem exists_close {p : ℕ} (hp : p = 50 ∨ p = 95 ∨ p = 99) : ∃ r, Close p r := by
  rcases hp with rfl | rfl | rfl
  · refine ⟨⟨1 / 2,by decide +kernel⟩,by decide +kernel,?_,?_,?_⟩ <;> norm_num
  · refine ⟨⟨4278419646001971 / 4503599627370496,by decide +kernel⟩,by decide +kernel,?_,?_,?_⟩ <;>
      norm_num
  · refine ⟨⟨4458563631096791 / 4503599627370496,by decide +kernel⟩,by decide +kernel,?_,?_,?_⟩ <;>
      norm_num

/-- A whole number that an array's length stays below, and a little more than one. -/
theorem exists_little_more {m : ℕ} (hm : m < 2 ^ 32) :
    ∃ x : Double, x.1 = m + 1 / 256 := by
  have hbits : toDouble (((256 * m + 1 : ℕ) : ℚ) * 2 ^ (-8 : ℤ)) =
      some (((256 * m + 1 : ℕ) : ℚ) * 2 ^ (-8 : ℤ)) := by
    apply toDouble_of_bits (by omega) (by omega)
    have hle : ((256 * m + 1 : ℕ) : ℚ) ≤ 2 ^ 53 := by exact_mod_cast (by omega)
    calc ((256 * m + 1 : ℕ) : ℚ) * 2 ^ (-8 : ℤ) ≤ 2 ^ 53 * 1 :=
          mul_le_mul hle (by norm_num) (by positivity) (by positivity)
      _ < 2 ^ (1024 : ℕ) := by
          rw [mul_one]
          exact pow_lt_pow_right₀ one_lt_two (by omega)
  have hvalue : ((256 * m + 1 : ℕ) : ℚ) * 2 ^ (-8 : ℤ) = m + 1 / 256 := by
    push_cast
    norm_num
    ring
  rw [hvalue] at hbits
  have hnonneg : (0 : ℚ) ≤ m + 1 / 256 := by positivity
  exact ⟨⟨m + 1 / 256,by rwa [abs_of_nonneg hnonneg]⟩,rfl⟩

/-- The index is that of the exact percentage, rounded up. -/
theorem percentileIndex_eq {p n : ℕ} (hp : p = 50 ∨ p = 95 ∨ p = 99) (hn : 1 ≤ n)
    (hn' : n < 2 ^ 32) :
    ∃ m, percentileIndex p n = some m ∧ p * n ≤ 100 * (m + 1) ∧ 100 * m < p * n := by
  obtain ⟨r,hr⟩ := exists_close hp
  obtain ⟨len,hlen,hlenval⟩ := FloatOrder.round_natCast (n := n) (by omega)
  -- the exact index counts from zero
  have hpos : 1 ≤ p * n := Nat.mul_pos (by omega) hn
  obtain ⟨m,hlow,hhigh⟩ : ∃ m, p * n ≤ 100 * (m + 1) ∧ 100 * m < p * n :=
    ⟨(p * n - 1) / 100,by omega,by omega⟩
  have hle : p * n ≤ 100 * n := Nat.mul_le_mul_right n (by omega)
  have hm : m < 2 ^ 32 := by omega
  obtain ⟨x,hx⟩ := exists_little_more hm
  obtain ⟨y,-,hy⟩ := FloatOrder.round_natCast (n := m + 1) (by omega)
  have hnq : (0 : ℚ) < n := by exact_mod_cast hn
  have hnle : (n : ℚ) ≤ 2 ^ 32 := by exact_mod_cast hn'.le
  have hlowq : (p : ℚ) * n ≤ 100 * (m + 1) := by exact_mod_cast hlow
  have hhighq : (100 : ℚ) * m + 1 ≤ p * n := by exact_mod_cast hhigh
  have habove : r.1 * n ≤ y.1 := by
    rw [hy]
    push_cast
    have := mul_le_mul_of_nonneg_right hr.le hnq.le
    linarith
  have hbelow : x.1 ≤ r.1 * n := by
    rw [hx]
    have hnear := mul_le_mul_of_nonneg_right hr.near hnq.le
    have hsmall : (1 : ℚ) / 2 ^ 53 * n ≤ 1 / 2 ^ 53 * 2 ^ 32 :=
      mul_le_mul_of_nonneg_left hnle (by positivity)
    norm_num at hsmall
    linarith
  obtain ⟨z,hz,hzlow,hzhigh⟩ := exists_round_between (by rw [hx]; positivity) hbelow habove
  refine ⟨m,?_,hlow,hhigh⟩
  have hmul : Value.mul (fraction p) (Value.round n) = .finite z := by
    rw [hr.value,hlen]
    change Value.round (r.1 * len.1) = .finite z
    rw [hlenval]
    exact hz
  have hceil : ⌈z.1⌉ = m + 1 := by
    rw [Int.ceil_eq_iff]
    rw [hx] at hzlow
    rw [hy] at hzhigh
    push_cast at hzhigh ⊢
    constructor <;> linarith
  rw [percentileIndex,show Value.div (Value.round p) (Value.round 100) = fraction p from rfl,hmul]
  simp [hceil]

theorem percentile_atPercent {p : ℕ} (hp : p = 50 ∨ p = 95 ∨ p = 99) {durations : List ℤ}
    (hne : durations ≠ []) (hlen : durations.length < 2 ^ 32) :
    ∃ d, percentile (durations.insertionSort (· ≤ ·)) p = some d ∧ AtPercent p durations d := by
  have hperm := List.perm_insertionSort (· ≤ ·) durations
  have hlength := hperm.length_eq
  have hpos : 1 ≤ durations.length := List.length_pos_iff.mpr hne
  obtain ⟨m,hm,hlow,hhigh⟩ := percentileIndex_eq hp hpos hlen
  have hle : p * durations.length ≤ 100 * durations.length := Nat.mul_le_mul_right _ (by omega)
  have hi : m < (durations.insertionSort (· ≤ ·)).length := by omega
  refine ⟨(durations.insertionSort (· ≤ ·))[m],?_,?_⟩
  · rw [percentile,if_neg (by omega),hlength,hm]
    exact List.getElem?_eq_getElem hi
  · have hrank := isRank_getElem (List.pairwise_insertionSort (· ≤ ·) durations) hi
    exact (hrank.perm hperm).atPercent hlow (by omega)

/-! ## The window -/

section Window
variable {history : List RequestSample}

/-- Of samples in the order of their times, the old ones are at the front. -/
theorem evict_eq (h : Chronological RequestSample.timestamp history) (cutoff : ℤ) :
    evict cutoff history = since RequestSample.timestamp cutoff history := by
  obtain ⟨older,hsplit,holder⟩ := exists_older h cutoff
  have hnew : ∀ sample ∈ since RequestSample.timestamp cutoff history,
      cutoff ≤ sample.timestamp := by
    intro sample hs
    exact of_decide_eq_true (List.mem_filter.mp hs).2
  conv_lhs => rw [hsplit]
  rw [evict,List.dropWhile_append_of_pos]
  · cases hs : since RequestSample.timestamp cutoff history with
    | nil => rfl
    | cons sample rest =>
        rw [List.dropWhile_cons_of_neg]
        have := hnew sample (by rw [hs]; exact List.mem_cons_self)
        simpa using this
  · intro sample hs
    simpa using holder sample hs

theorem since_since {start start' : ℤ} (h : start ≤ start') (xs : List RequestSample) :
    since RequestSample.timestamp start' (since RequestSample.timestamp start xs) =
      since RequestSample.timestamp start' xs := by
  unfold since
  rw [List.filter_filter]
  apply List.filter_congr
  intro sample _
  rw [Bool.and_eq_left_iff_imp]
  intro hs
  rw [decide_eq_true_eq] at hs ⊢
  omega

theorem since_append (start : ℤ) (xs ys : List RequestSample) :
    since RequestSample.timestamp start (xs ++ ys) =
      since RequestSample.timestamp start xs ++ since RequestSample.timestamp start ys :=
  List.filter_append ..

/-- The buffer holds the last minute before the request that was recorded last. -/
theorem recorded_concat {last : RequestSample}
    (h : Chronological RequestSample.timestamp (history ++ [last])) :
    recorded (history ++ [last]) =
      since RequestSample.timestamp (last.timestamp - WINDOW_MS) (history ++ [last]) := by
  have hstep : ∀ (before : List RequestSample) (sample : RequestSample),
      recorded (before ++ [sample]) = recordRequest (recorded before) sample :=
    fun _ _ => List.foldl_concat ..
  induction history using List.reverseRecOn generalizing last with
  | nil => exact evict_eq h _
  | append_singleton history before ih =>
      have hle : before.timestamp ≤ last.timestamp :=
        h.le_last (List.mem_append_right _ List.mem_cons_self)
      have hkept : Chronological RequestSample.timestamp (since RequestSample.timestamp
          (before.timestamp - WINDOW_MS) (history ++ [before]) ++ [last]) :=
        List.Pairwise.sublist (List.filter_sublist.append_right _) h
      rw [hstep,ih h.left,recordRequest,evict_eq hkept,since_append,
        since_since (by omega),← since_append]

/-- A report looks no further back than the buffer does. -/
theorem window_recorded (h : Chronological RequestSample.timestamp history) {now : ℤ}
    (hnow : ∀ sample ∈ history, sample.timestamp ≤ now) :
    since RequestSample.timestamp (now - WINDOW_MS) (recorded history) =
      since RequestSample.timestamp (now - WINDOW_MS) history := by
  rcases List.eq_nil_or_concat history with rfl | ⟨before,last,rfl⟩
  · rfl
  · rw [List.concat_eq_append] at h hnow ⊢
    have hlast := hnow last (List.mem_append_right _ List.mem_cons_self)
    rw [recorded_concat h,since_since (by omega)]

theorem recorded_eq (h : Chronological RequestSample.timestamp history) {last : RequestSample}
    (hlast : history.getLast? = some last) :
    recorded history =
      since RequestSample.timestamp (last.timestamp - WINDOW_MS) history := by
  obtain ⟨before,rfl⟩ := List.getLast?_eq_some_iff.mp hlast
  exact recorded_concat h

end Window

/-! ## The route -/

/-- `Authorization: Bearer <token>`, and the token itself. -/
def provided (authorization : Option String) : String :=
  let authHeader := authorization.getD ""
  if "Bearer ".toList.isPrefixOf authHeader.toList then String.ofList (authHeader.toList.drop 7)
  else ""

/-- What `GET /` answers: a status, and the report or an error. -/
inductive Answer
  | ok (metrics : Metrics)
  | fail (error : String) (statusCode : ℕ)

def getMetrics (metricsToken authorization : Option String) (processStart : ℤ)
    (samples : List RequestSample) (now : ℤ) : Answer :=
  match metricsToken.filter (· ≠ "") with
  | none => .fail "Metrics endpoint is not enabled (METRICS_TOKEN not configured)" 503
  | some token =>
      if provided authorization ≠ token then .fail "Unauthorized" 401
      else .ok (computeMetrics processStart samples now)

theorem provided_eq_iff {authorization : Option String} {token : String} (ht : token ≠ "") :
    provided authorization = token ↔ authorization = some ("Bearer " ++ token) := by
  unfold provided
  constructor
  · intro h
    dsimp only at h
    split at h
    · rename_i hpre
      obtain ⟨rest,hrest⟩ := List.isPrefixOf_iff_prefix.mp hpre
      rw [← hrest] at h
      cases authorization with
      | none => simp at hrest
      | some header =>
          rw [← h,Option.some.injEq,← String.toList_inj,String.toList_append]
          simpa using hrest.symm
    · exact absurd h.symm ht
  · rintro rfl
    have hpre : "Bearer ".toList.isPrefixOf ("Bearer " ++ token).toList = true := by
      rw [List.isPrefixOf_iff_prefix,String.toList_append]
      exact List.prefix_append _ _
    rw [Option.getD_some,if_pos hpre,String.toList_append]
    simp

theorem getMetrics_ok {metricsToken authorization : Option String} {processStart now : ℤ}
    {samples : List RequestSample} {metrics : Metrics} :
    getMetrics metricsToken authorization processStart samples now = .ok metrics ↔
      (∃ token ≠ "", metricsToken = some token ∧ authorization = some ("Bearer " ++ token)) ∧
        metrics = computeMetrics processStart samples now := by
  unfold getMetrics
  cases metricsToken with
  | none => simp
  | some token =>
      by_cases ht : token = ""
      · have hfilter : (some token).filter (· ≠ "") = none := by simp [Option.filter,ht]
        rw [hfilter]
        simp [ht]
      · have hfilter : (some token).filter (· ≠ "") = some token := by simp [Option.filter,ht]
        rw [hfilter]
        dsimp only
        split
        · rename_i hne
          have hauth := mt (provided_eq_iff ht).mpr hne
          simp [hauth]
        · rename_i heq
          have hauth := (provided_eq_iff ht).mp (not_not.mp heq)
          simp [hauth,ht,eq_comm]

/-- What a report says of the requests in its window: their number, how many of them failed, and
of their durations those that half, 95 and 99 percent of them do not exceed. -/
structure Describes (metrics : Metrics) (window : List RequestSample) : Prop where
  total : metrics.totalRequests = window.length
  errors : metrics.errorCount = window.countP RequestSample.isError
  rate : metrics.errorRate = if window = [] then Value.zero
    else Value.div (Value.round metrics.errorCount) (Value.round metrics.totalRequests)
  empty : window = [] → metrics.latencyMs = ⟨some 0,some 0,some 0⟩
  latency : window ≠ [] → ∃ p50 p95 p99, metrics.latencyMs = ⟨some p50,some p95,some p99⟩ ∧
    AtPercent 50 (window.map RequestSample.durationMs) p50 ∧
    AtPercent 95 (window.map RequestSample.durationMs) p95 ∧
    AtPercent 99 (window.map RequestSample.durationMs) p99

theorem describes_computeMetrics (processStart : ℤ) (samples : List RequestSample) (now : ℤ)
    (hlen : samples.length < 2 ^ 32) :
    Describes (computeMetrics processStart samples now)
      (since RequestSample.timestamp (now - WINDOW_MS) samples) := by
  have hwindow : (since RequestSample.timestamp (now - WINDOW_MS) samples).length < 2 ^ 32 :=
    (List.length_filter_le _ _).trans_lt hlen
  generalize hw : since RequestSample.timestamp (now - WINDOW_MS) samples = window at hwindow
  have hfilter : (samples.filter fun sample => now - WINDOW_MS ≤ sample.timestamp) = window := hw
  constructor
  · rw [computeMetrics,hfilter]
  · rw [computeMetrics,hfilter,List.countP_eq_length_filter]
  · rw [computeMetrics,hfilter]
    cases window <;> simp
  · rintro rfl
    rw [computeMetrics,hfilter]
    rfl
  · intro hne
    have hmap : window.map RequestSample.durationMs ≠ [] := by simpa using hne
    have hshort : (window.map RequestSample.durationMs).length < 2 ^ 32 := by simpa using hwindow
    obtain ⟨p50,h50,hp50⟩ := percentile_atPercent (.inl rfl) hmap hshort
    obtain ⟨p95,h95,hp95⟩ := percentile_atPercent (.inr (.inl rfl)) hmap hshort
    obtain ⟨p99,h99,hp99⟩ := percentile_atPercent (.inr (.inr rfl)) hmap hshort
    refine ⟨p50,p95,p99,?_,hp50,hp95,hp99⟩
    rw [computeMetrics,hfilter]
    exact congr (congr (congrArg LatencyMs.mk h50) h95) h99

/-- As long as the clock does not go back, a report describes exactly the requests answered in
the last minute, whatever the buffer has evicted, if it holds fewer than `2 ^ 32`; only a caller
that presents the configured token gets one. The buffer has no request that is older than a minute
before the last one. -/
theorem metrics_exact (metricsToken authorization : Option String) (processStart now : ℤ)
    (history : List RequestSample) (h : Chronological RequestSample.timestamp history)
    (hnow : ∀ sample ∈ history, sample.timestamp ≤ now)
    (hlen : (recorded history).length < 2 ^ 32) :
    (∀ metrics,
      getMetrics metricsToken authorization processStart (recorded history) now = .ok metrics →
        Describes metrics (since RequestSample.timestamp (now - WINDOW_MS) history)) ∧
    ((∃ metrics,
      getMetrics metricsToken authorization processStart (recorded history) now = .ok metrics) ↔
        ∃ token ≠ "", metricsToken = some token ∧ authorization = some ("Bearer " ++ token)) ∧
    ∀ last, history.getLast? = some last →
      recorded history =
        since RequestSample.timestamp (last.timestamp - WINDOW_MS) history := by
  have hdescribes := describes_computeMetrics processStart (recorded history) now hlen
  rw [window_recorded h hnow] at hdescribes
  refine ⟨?_,?_,fun last hlast => recorded_eq h hlast⟩
  · intro metrics hok
    obtain ⟨-,rfl⟩ := getMetrics_ok.mp hok
    exact hdescribes
  · constructor
    · rintro ⟨metrics,hok⟩
      exact (getMetrics_ok.mp hok).1
    · intro htoken
      exact ⟨_,getMetrics_ok.mpr ⟨htoken,rfl⟩⟩

/-- Four requests, of which the first is more than a minute old at the time of the report. -/
def minute : List RequestSample :=
  [⟨0,900,true⟩,⟨59000,40,false⟩,⟨60000,20,false⟩,⟨60001,30,true⟩]

theorem metrics_exact_minute :
    Describes (computeMetrics 0 (recorded minute) 60001)
      (since RequestSample.timestamp (60001 - WINDOW_MS) minute) :=
  (metrics_exact (some "secret") (some "Bearer secret") 0 60001 minute
    (by unfold minute Chronological; decide) (by unfold minute; decide) (by decide +kernel)).1 _ rfl

end Creditra.RequestMetrics
