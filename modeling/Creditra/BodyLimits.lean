import Creditra.FloatNumbers
import Mathlib.Data.List.Infix
import Mathlib.Data.List.TakeWhile

/-!
# Body limits of versioned and legacy paths

`config/bodyLimit.ts` and the path helpers of `config/apiVersion.ts`. Every limit
rule is stated for a legacy path, and a path that has been mapped to its
versioned successor is no longer below one, so the versioned spelling of the
bulk endpoint gets the default limit.
-/
namespace Creditra.BodyLimits
open FloatNumbers

/-! ## Paths -/

def API_V1_PREFIX : List Char := "/api/v1".toList

/-- `text.startsWith(start)`. -/
def startsWith (text start : List Char) : Bool := start.isPrefixOf text

/-- The path is the given one or continues it behind a slash. -/
def atOrBelow (path stem : List Char) : Bool := path = stem || startsWith path (stem ++ ['/'])

/-- `pathname` up to the first question mark, and from there on. -/
def pathOnly (pathname : String) : List Char := pathname.toList.takeWhile (· ≠ '?')

def query (pathname : String) : List Char := pathname.toList.dropWhile (· ≠ '?')

def isLegacyApiPath (pathname : List Char) : Bool :=
  if ! startsWith pathname "/api".toList then false
  else if atOrBelow pathname API_V1_PREFIX then false
  else pathname = "/api".toList || startsWith pathname "/api/".toList

def toVersionedApiPath (pathname : String) : String :=
  if atOrBelow (pathOnly pathname) API_V1_PREFIX then pathname
  else if pathOnly pathname = "/api".toList then String.ofList (API_V1_PREFIX ++ query pathname)
  else if startsWith (pathOnly pathname) "/api/".toList then
    String.ofList (API_V1_PREFIX ++ '/' :: (pathOnly pathname).drop "/api/".length ++
      query pathname)
  else pathname

/-! ## Limits -/

structure BodyLimitRouteRule where
  pathPrefix : List Char
  maxBytes : Value

structure BodyLimitConfig where
  defaultMaxBytes : Value
  maxBytes : Value
  routes : List BodyLimitRouteRule

def BODY_LIMIT_DEFAULT_BYTES : Value := .round (100 * 1024)

def BODY_LIMIT_BULK_BYTES : Value := .round (1024 * 1024)

def parsePositiveInt (value : Option String) (fallback : Value) : Value :=
  match value with
  | none => fallback
  | some text =>
      if text = "" then fallback
      else
        let parsed := parseIntDecimal text
        if ! parsed.isFinite || parsed.le .zero then fallback else parsed

/-- `env` are the variables of the process. -/
def bulkMaxBytes (env : String → Option String) : Value :=
  parsePositiveInt (env "BODY_LIMIT_BULK_BYTES") BODY_LIMIT_BULK_BYTES

def loadBodyLimitConfig (env : String → Option String) : BodyLimitConfig :=
  let defaultMaxBytes := parsePositiveInt (env "BODY_LIMIT_DEFAULT_BYTES") BODY_LIMIT_DEFAULT_BYTES
  { defaultMaxBytes
    maxBytes := parsePositiveInt (env "BODY_LIMIT_MAX_BYTES")
      (Value.max defaultMaxBytes (bulkMaxBytes env))
    routes := [⟨"/api/credit/lines/bulk".toList,bulkMaxBytes env⟩] }

/-- The rule's path without a slash at its end. -/
def BodyLimitRouteRule.stem (rule : BodyLimitRouteRule) : List Char :=
  if rule.pathPrefix.getLast? = some '/' then rule.pathPrefix.dropLast else rule.pathPrefix

/-- The first rule that matches decides. -/
def resolveBodyLimit (path : String) (config : BodyLimitConfig) : Value :=
  let normalized := if pathOnly path = [] then ['/'] else pathOnly path
  match config.routes.find? fun rule => atOrBelow normalized rule.stem with
  | some rule => rule.maxBytes
  | none => config.defaultMaxBytes

/-! ## Loaded limits -/

/-- What `parsePositiveInt` admits. -/
def Positive (limit : Value) : Prop := limit.isFinite = true ∧ limit.le .zero = false

instance (limit : Value) : Decidable (Positive limit) := inferInstanceAs (Decidable (_ ∧ _))

theorem positive_parsePositiveInt {fallback : Value} (h : Positive fallback)
    (value : Option String) : Positive (parsePositiveInt value fallback) := by
  unfold parsePositiveInt
  cases value with
  | none => exact h
  | some text =>
      dsimp only
      split_ifs with hempty hrefused
      · exact h
      · exact h
      · rw [Bool.or_eq_true,not_or,Bool.not_eq_true,Bool.not_eq_false',Bool.not_eq_true] at hrefused
        exact hrefused

theorem positive_max {x y : Value} (hx : Positive x) (hy : Positive y) :
    Positive (Value.max x y) := by
  cases x with
  | nan => exact hx
  | infinite n => exact absurd hx.1 Bool.false_ne_true
  | finite x =>
      cases y with
      | nan => exact hy
      | infinite n => exact absurd hy.1 Bool.false_ne_true
      | finite y =>
          unfold Value.max
          dsimp only
          split_ifs
          · exact hy
          · exact hx

/-- Whatever the settings are, every limit is a positive number. -/
theorem loadBodyLimitConfig_positive (env : String → Option String) :
    Positive (loadBodyLimitConfig env).defaultMaxBytes ∧ Positive (loadBodyLimitConfig env).maxBytes ∧
      ∀ rule ∈ (loadBodyLimitConfig env).routes, Positive rule.maxBytes := by
  have hdefault : Positive (loadBodyLimitConfig env).defaultMaxBytes :=
    positive_parsePositiveInt (by decide +kernel) _
  have hbulk : Positive (bulkMaxBytes env) := positive_parsePositiveInt (by decide +kernel) _
  refine ⟨hdefault,positive_parsePositiveInt (positive_max hdefault hbulk) _,?_⟩
  intro rule hrule
  rw [List.mem_singleton.mp hrule]
  exact hbulk

/-! ## Paths below others -/

theorem atOrBelow_iff {path stem : List Char} :
    atOrBelow path stem = true ↔ stem ++ ['/'] <+: path ++ ['/'] := by
  rw [atOrBelow,startsWith,Bool.or_eq_true,decide_eq_true_eq,List.isPrefixOf_iff_prefix,
    List.prefix_concat_iff,List.append_left_inj,eq_comm]

theorem atOrBelow_trans {path stem stem' : List Char} (h : atOrBelow path stem = true)
    (h' : atOrBelow stem stem' = true) : atOrBelow path stem' = true :=
  atOrBelow_iff.mpr ((atOrBelow_iff.mp h').trans (atOrBelow_iff.mp h))

/-- Of two paths above a third one, one is above the other. -/
theorem atOrBelow_or {path stem stem' : List Char} (h : atOrBelow path stem = true)
    (h' : atOrBelow path stem' = true) : atOrBelow stem stem' = true ∨ atOrBelow stem' stem = true := by
  rw [atOrBelow_iff,atOrBelow_iff]
  exact List.prefix_or_prefix_of_prefix (atOrBelow_iff.mp h') (atOrBelow_iff.mp h)

/-- The legacy paths are those below `/api` that are not below `/api/v1`. -/
theorem isLegacyApiPath_iff {path : List Char} :
    isLegacyApiPath path = true ↔
      atOrBelow path "/api".toList = true ∧ atOrBelow path API_V1_PREFIX = false := by
  have hbelow : (path = "/api".toList || startsWith path "/api/".toList) =
      atOrBelow path "/api".toList := rfl
  unfold isLegacyApiPath
  rw [hbelow]
  split_ifs with hstart hversioned
  · have hnot : atOrBelow path "/api".toList ≠ true := by
      intro h
      have hfront : "/api".toList <+: path := by
        rcases Bool.or_eq_true_iff.mp h with heq | hslash
        · exact (of_decide_eq_true heq) ▸ List.prefix_rfl
        · exact (List.prefix_append _ _).trans (List.isPrefixOf_iff_prefix.mp hslash)
      rw [startsWith,List.isPrefixOf_iff_prefix.mpr hfront] at hstart
      cases hstart
    exact ⟨False.elim,fun h => absurd h.1 hnot⟩
  · simp [hversioned]
  · simp [hversioned]

/-- What is below a legacy path is legacy, unless that path is `/api` itself. -/
theorem legacy_of_below {path stem : List Char} (hstem : isLegacyApiPath stem = true)
    (hne : stem ≠ "/api".toList) (h : atOrBelow path stem = true) :
    isLegacyApiPath path = true := by
  obtain ⟨hapi,hnot⟩ := isLegacyApiPath_iff.mp hstem
  refine isLegacyApiPath_iff.mpr ⟨atOrBelow_trans h hapi,?_⟩
  by_contra hversioned
  rcases atOrBelow_or h (Bool.not_eq_false _ ▸ hversioned) with hbelow | habove
  · rw [hnot] at hbelow
    cases hbelow
  · -- A path between `/api` and `/api/v1` is one of the two.
    have hbetween : ∀ between ∈ (API_V1_PREFIX ++ ['/']).inits,
        between.getLast? = some '/' → "/api/".toList <+: between →
          between = "/api/".toList ∨ between = API_V1_PREFIX ++ ['/'] := by decide
    rcases hbetween _ ((List.mem_inits _ _).mpr (atOrBelow_iff.mp habove))
      List.getLast?_concat (atOrBelow_iff.mp hapi) with heq | heq
    · exact hne (List.append_cancel_right heq)
    · rw [List.append_cancel_right heq] at hnot
      exact absurd hnot (by decide)

/-! ## Versioned paths -/

theorem notMem_pathOnly (pathname : String) : '?' ∉ pathOnly pathname := by
  intro h
  have hne := List.mem_takeWhile_imp h
  simp at hne

/-- The part before the question mark can be exchanged. -/
theorem pathOnly_append_query {path : List Char} (h : '?' ∉ path) (pathname : String) :
    pathOnly (String.ofList (path ++ query pathname)) = path := by
  have hall : ∀ c ∈ path, decide (c ≠ '?') = true := by
    intro c hc
    exact decide_eq_true fun heq => h (heq ▸ hc)
  unfold pathOnly query
  rw [String.toList_ofList,List.takeWhile_append_of_pos hall]
  cases hrest : pathname.toList.dropWhile (· ≠ '?') with
  | nil => rw [List.takeWhile_nil,List.append_nil]
  | cons c cs =>
      have hc := List.head?_dropWhile_not (fun c => decide (c ≠ '?')) pathname.toList
      rw [hrest] at hc
      rw [List.takeWhile_cons_of_neg (by simpa using hc),List.append_nil]

/-- The mapping to versioned paths leaves no legacy path. -/
theorem not_legacy_toVersionedApiPath (pathname : String) :
    isLegacyApiPath (pathOnly (toVersionedApiPath pathname)) = false := by
  rw [Bool.eq_false_iff]
  intro h
  obtain ⟨hapi,hnot⟩ := isLegacyApiPath_iff.mp h
  revert hapi hnot
  unfold toVersionedApiPath
  split_ifs with hversioned hroot hlegacy
  · intro _ hnot
    rw [hversioned] at hnot
    cases hnot
  · intro _ hnot
    rw [pathOnly_append_query (by decide)] at hnot
    exact absurd hnot (by decide)
  · intro _ hnot
    have hfront : '?' ∉ API_V1_PREFIX ++ '/' :: (pathOnly pathname).drop "/api/".length := by
      rw [List.mem_append,List.mem_cons]
      rintro (h | h | h)
      · exact absurd h (by decide)
      · exact absurd h (by decide)
      · exact notMem_pathOnly pathname (List.mem_of_mem_drop h)
    have hbelow : atOrBelow (API_V1_PREFIX ++ '/' :: (pathOnly pathname).drop "/api/".length)
        API_V1_PREFIX = true := by
      refine Bool.or_eq_true_iff.mpr (.inr (List.isPrefixOf_iff_prefix.mpr ?_))
      rw [List.prefix_append_right_inj,List.cons_prefix_cons]
      exact ⟨rfl,List.nil_prefix⟩
    rw [pathOnly_append_query hfront,hbelow] at hnot
    cases hnot
  · intro hapi _
    rcases Bool.or_eq_true_iff.mp hapi with heq | hslash
    · exact hroot (of_decide_eq_true heq)
    · exact hlegacy hslash

/-! ## The limits of both spellings -/

/-- Rules for legacy paths give every versioned path the default. -/
theorem resolveBodyLimit_of_not_legacy {config : BodyLimitConfig} {path : String}
    (hrules : ∀ rule ∈ config.routes,
      isLegacyApiPath rule.stem = true ∧ rule.stem ≠ "/api".toList)
    (hpath : isLegacyApiPath (pathOnly path) = false) :
    resolveBodyLimit path config = config.defaultMaxBytes := by
  have hnormalized : isLegacyApiPath (if pathOnly path = [] then ['/'] else pathOnly path) = false := by
    split_ifs
    · decide
    · exact hpath
  unfold resolveBodyLimit
  dsimp only
  rw [List.find?_eq_none.mpr]
  intro rule hrule hbelow
  rw [legacy_of_below (hrules rule hrule).1 (hrules rule hrule).2 hbelow] at hnormalized
  cases hnormalized

def BULK_PATH : List Char := "/api/credit/lines/bulk".toList

theorem stem_bulk (maxBytes : Value) :
    (⟨BULK_PATH,maxBytes⟩ : BodyLimitRouteRule).stem = BULK_PATH := by
  have hlast : BULK_PATH.getLast? ≠ some '/' := by decide
  exact if_neg hlast

theorem resolveBodyLimit_loadBodyLimitConfig (env : String → Option String) (path : String) :
    resolveBodyLimit path (loadBodyLimitConfig env) =
      if atOrBelow (pathOnly path) BULK_PATH then bulkMaxBytes env
      else (loadBodyLimitConfig env).defaultMaxBytes := by
  have hnormalized : atOrBelow (if pathOnly path = [] then ['/'] else pathOnly path) BULK_PATH =
      atOrBelow (pathOnly path) BULK_PATH := by
    split_ifs with hempty
    · rw [hempty]
      decide
    · rfl
  change (match List.find? _ [(⟨BULK_PATH,bulkMaxBytes env⟩ : BodyLimitRouteRule)] with
    | some rule => rule.maxBytes
    | none => (loadBodyLimitConfig env).defaultMaxBytes) = _
  rw [List.find?_singleton,stem_bulk,hnormalized]
  split_ifs <;> rfl

/-- The two spellings of a path have the same limit exactly when the path is not the
bulk endpoint's, or bulk requests have the limit of all others. -/
theorem same_limit_iff (env : String → Option String) (path : String) :
    resolveBodyLimit path (loadBodyLimitConfig env) =
        resolveBodyLimit (toVersionedApiPath path) (loadBodyLimitConfig env) ↔
      bulkMaxBytes env = (loadBodyLimitConfig env).defaultMaxBytes ∨
        atOrBelow (pathOnly path) BULK_PATH = false := by
  have hversioned : resolveBodyLimit (toVersionedApiPath path) (loadBodyLimitConfig env) =
      (loadBodyLimitConfig env).defaultMaxBytes := by
    refine resolveBodyLimit_of_not_legacy ?_ (not_legacy_toVersionedApiPath path)
    intro rule hrule
    have hstem : rule.stem = BULK_PATH := by
      rw [List.mem_singleton.mp hrule]
      exact stem_bulk (bulkMaxBytes env)
    rw [hstem]
    decide
  rw [hversioned,resolveBodyLimit_loadBodyLimitConfig]
  cases atOrBelow (pathOnly path) BULK_PATH with
  | true => simp
  | false => simp

/-- Without settings the bulk endpoint takes a mebibyte under its legacy path, and a
hundred kibibytes under the versioned one. -/
theorem bulk_limit_lost :
    resolveBodyLimit "/api/credit/lines/bulk" (loadBodyLimitConfig fun _ => none) ≠
      resolveBodyLimit (toVersionedApiPath "/api/credit/lines/bulk")
        (loadBodyLimitConfig fun _ => none) := by
  decide +kernel

end Creditra.BodyLimits
