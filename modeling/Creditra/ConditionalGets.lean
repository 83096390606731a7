import Creditra.Base64
import Creditra.GuardedRuns
import Creditra.JsonRoundTrip
import Creditra.Sha256

/-!
# Conditional GETs

`utils/etag.ts`: a response carries a tag made from a digest of its body, and a
client that names tags it knows in `If-None-Match` gets no body when the tag of
the current one is among them. A tag may come back marked as weak, in a list and
with blanks around it.

A client that keeps what it was sent and names any of the tags it holds always
ends up with the current body, as long as no two bodies share a digest.
-/
namespace Creditra.ConditionalGets
open Base64 GuardedRuns JsStrings JsonRoundTrip JsonValues

/-! ## Tags -/

/-- The tag of a body; `sha256` is the digest of its UTF-8 bytes. -/
def computeEtag (sha256 : List UInt8 → List UInt8) (body : String) : String :=
  "\"" ++ String.ofList ((toBase64url (sha256 (utf8 body))).toList.take 27) ++ "\""

/-- `normalizeTag`, on characters. -/
def normalizeTag (tag : List Char) : List Char :=
  let t := trimChars tag
  let t := if "W/".toList.isPrefixOf t || "w/".toList.isPrefixOf t then trimChars (t.drop 2) else t
  if t.head? = some '"' ∧ t.getLast? = some '"' ∧ 2 ≤ t.length then (t.drop 1).dropLast else t

/-- A header that was sent several times comes as a list. -/
def etagMatches (ifNoneMatch : Option (List String)) (etag : String) : Bool :=
  match ifNoneMatch with
  | none => false
  | some header =>
      let trimmed := trimChars (",".intercalate header).toList
      if trimmed.length = 0 then false
      else if trimmed = ['*'] then true
      else (trimmed.splitOn ',').any fun part => normalizeTag part = normalizeTag etag.toList

structure Response where
  statusCode : ℕ
  etag : String
  cacheControl : String
  body : Option String

def ETAG_CACHE_CONTROL : String := "private, must-revalidate"

/-- The body of a successful answer. -/
def payload (data : Json) : String := stringify (.object [("data",data),("error",.null)])

def okWithEtag (sha256 : List UInt8 → List UInt8) (ifNoneMatch : Option (List String))
    (data : Json) : Response :=
  let etag := computeEtag sha256 (payload data)
  if etagMatches ifNoneMatch etag then ⟨304,etag,ETAG_CACHE_CONTROL,none⟩
  else ⟨200,etag,ETAG_CACHE_CONTROL,some (payload data)⟩

/-! ## Blanks -/

theorem trimChars_cons {c : Char} (hc : isWhiteSpace c = true) (cs : List Char) :
    trimChars (c :: cs) = trimChars cs := by
  rw [trimChars,List.dropWhile_cons_of_pos hc,trimChars]

theorem trimChars_concat {c : Char} (hc : isWhiteSpace c = true) (cs : List Char) :
    trimChars (cs ++ [c]) = trimChars cs := by
  induction cs with
  | nil => simp [trimChars,hc]
  | cons d cs ih =>
      by_cases hd : isWhiteSpace d = true
      · rw [List.cons_append,trimChars_cons hd,trimChars_cons hd,ih]
      · unfold trimChars
        rw [List.cons_append,List.dropWhile_cons_of_neg hd,List.dropWhile_cons_of_neg hd,
          ← List.cons_append,List.reverse_append,List.reverse_singleton,List.singleton_append,
          List.dropWhile_cons_of_pos hc]

theorem trimChars_append_left {blanks : List Char} (h : ∀ c ∈ blanks, isWhiteSpace c = true)
    (cs : List Char) : trimChars (blanks ++ cs) = trimChars cs := by
  induction blanks with
  | nil => rfl
  | cons c blanks ih =>
      rw [List.cons_append,trimChars_cons (h c List.mem_cons_self),
        ih fun d hd => h d (List.mem_cons_of_mem c hd)]

theorem trimChars_append_right {blanks : List Char} (h : ∀ c ∈ blanks, isWhiteSpace c = true)
    (cs : List Char) : trimChars (cs ++ blanks) = trimChars cs := by
  induction blanks generalizing cs with
  | nil => rw [List.append_nil]
  | cons c blanks ih =>
      rw [List.append_cons,ih fun d hd => h d (List.mem_cons_of_mem c hd),
        trimChars_concat (h c List.mem_cons_self)]

/-- A text without blanks at its ends. -/
theorem trimChars_ends {cs : List Char} {a b : Char} (ha : cs.head? = some a)
    (hb : cs.getLast? = some b) (ha' : isWhiteSpace a = false) (hb' : isWhiteSpace b = false) :
    trimChars cs = cs := by
  have hfront : cs.dropWhile isWhiteSpace = cs := by
    obtain ⟨rest,rfl⟩ := List.head?_eq_some_iff.mp ha
    rw [List.dropWhile_cons_of_neg (by simp [ha'])]
  obtain ⟨front,rfl⟩ := List.getLast?_eq_some_iff.mp hb
  rw [trimChars,hfront,List.reverse_append,List.reverse_singleton,List.singleton_append,
    List.dropWhile_cons_of_neg (by simp [hb'])]
  simp

theorem exists_trimmed (cs : List Char) : ∃ front back, cs = front ++ trimChars cs ++ back ∧
    (∀ c ∈ front, isWhiteSpace c = true) ∧ ∀ c ∈ back, isWhiteSpace c = true := by
  refine ⟨cs.takeWhile isWhiteSpace,
    ((cs.dropWhile isWhiteSpace).reverse.takeWhile isWhiteSpace).reverse,?_,?_,?_⟩
  · rw [trimChars,List.append_assoc,← List.reverse_append,List.takeWhile_append_dropWhile,
      List.reverse_reverse,List.takeWhile_append_dropWhile]
  · intro c hc
    exact List.mem_takeWhile_imp hc
  · intro c hc
    exact List.mem_takeWhile_imp (List.mem_reverse.mp hc)

/-! ## Lists of tags -/

theorem ne_comma_of_blank {c : Char} (hc : isWhiteSpace c = true) : c ≠ ',' := by
  rintro rfl
  revert hc
  decide

theorem normalizeTag_congr {xs ys : List Char} (h : trimChars xs = trimChars ys) :
    normalizeTag xs = normalizeTag ys := by
  unfold normalizeTag
  rw [h]

/-- A blank in front goes to the first part. -/
theorem parts_cons {c : Char} (hc : isWhiteSpace c = true) (cs : List Char) :
    ((c :: cs).splitOn ',').map trimChars = (cs.splitOn ',').map trimChars := by
  rw [List.splitOn_cons_eq_if_modifyHead,if_neg (by simpa using ne_comma_of_blank hc)]
  cases cs.splitOn ',' with
  | nil => rfl
  | cons part parts => simp [trimChars_cons hc]

/-- A blank at the end goes to the last part. -/
theorem splitOn_concat {c : Char} (hc : c ≠ ',') (cs : List Char) :
    ∃ parts last, cs.splitOn ',' = parts ++ [last] ∧
      (cs ++ [c]).splitOn ',' = parts ++ [last ++ [c]] := by
  induction cs with
  | nil =>
      refine ⟨[],[],rfl,?_⟩
      rw [List.nil_append,List.splitOn_eq_singleton (by simpa using hc.symm)]
      rfl
  | cons d cs ih =>
      obtain ⟨parts,last,hold,hnew⟩ := ih
      rw [List.cons_append,List.splitOn_cons_eq_if_modifyHead,List.splitOn_cons_eq_if_modifyHead,
        hold,hnew]
      by_cases hd : d = ','
      · exact ⟨[] :: parts,last,by simp [hd],by simp [hd]⟩
      · cases parts with
        | nil => exact ⟨[],d :: last,by simp [hd],by simp [hd]⟩
        | cons part parts => exact ⟨(d :: part) :: parts,last,by simp [hd],by simp [hd]⟩

theorem parts_concat {c : Char} (hc : isWhiteSpace c = true) (cs : List Char) :
    ((cs ++ [c]).splitOn ',').map trimChars = (cs.splitOn ',').map trimChars := by
  obtain ⟨parts,last,hold,hnew⟩ := splitOn_concat (ne_comma_of_blank hc) cs
  rw [hold,hnew,List.map_append,List.map_append,List.map_singleton,List.map_singleton,
    trimChars_concat hc]

/-- Whether a list is trimmed before it is split makes no difference to its trimmed parts. -/
theorem parts_trimChars (cs : List Char) :
    ((trimChars cs).splitOn ',').map trimChars = (cs.splitOn ',').map trimChars := by
  have hfront : ∀ blanks : List Char, (∀ c ∈ blanks, isWhiteSpace c = true) → ∀ ds : List Char,
      ((blanks ++ ds).splitOn ',').map trimChars = (ds.splitOn ',').map trimChars := by
    intro blanks h ds
    induction blanks with
    | nil => rfl
    | cons c blanks ih =>
        rw [List.cons_append,parts_cons (h c List.mem_cons_self),
          ih fun d hd => h d (List.mem_cons_of_mem c hd)]
  have hback : ∀ blanks : List Char, (∀ c ∈ blanks, isWhiteSpace c = true) → ∀ ds : List Char,
      ((ds ++ blanks).splitOn ',').map trimChars = (ds.splitOn ',').map trimChars := by
    intro blanks h
    induction blanks with
    | nil => simp
    | cons c blanks ih =>
        intro ds
        rw [List.append_cons,ih (fun d hd => h d (List.mem_cons_of_mem c hd)),
          parts_concat (h c List.mem_cons_self)]
  obtain ⟨front,back,hcs,hf,hb⟩ := exists_trimmed cs
  conv_rhs => rw [hcs]
  rw [hback back hb,hfront front hf]

theorem trimChars_trimChars (cs : List Char) : trimChars (trimChars cs) = trimChars cs := by
  obtain ⟨front,back,hcs,hf,hb⟩ := exists_trimmed cs
  conv_rhs => rw [hcs]
  rw [trimChars_append_right hb,trimChars_append_left hf]

inductive Mark
  | strong
  | weak
  | lowerWeak

def Mark.text : Mark → List Char
  | .strong => []
  | .weak => "W/".toList
  | .lowerWeak => "w/".toList

structure Blanks where
  chars : List Char
  blank : ∀ c ∈ chars, isWhiteSpace c = true

/-- A tag as a client names it. -/
structure Named where
  etag : String
  mark : Mark
  before : Blanks
  after : Blanks

def Named.core (e : Named) : List Char := e.mark.text ++ e.etag.toList

def Named.text (e : Named) : String :=
  String.ofList (e.before.chars ++ e.core ++ e.after.chars)

def headerOf (entries : List Named) : Option (List String) :=
  if entries.length = 0 then none else some [",".intercalate (entries.map Named.text)]

section Tags
variable {sha256 : List UInt8 → List UInt8} {body : String} {e : Named}

/-- The digits between the quotes. -/
def digits (sha256 : List UInt8 → List UInt8) (body : String) : List Char :=
  (toBase64url (sha256 (utf8 body))).toList.take 27

theorem toList_computeEtag (sha256 : List UInt8 → List UInt8) (body : String) :
    (computeEtag sha256 body).toList = '"' :: (digits sha256 body ++ ['"']) := by
  simp [computeEtag,digits]

theorem plain_urlDigit : ∀ n < 64,
    isWhiteSpace (urlDigit n) = false ∧ urlDigit n ≠ ',' ∧ urlDigit n ≠ '"' := by
  decide +kernel

theorem plain_digits {c : Char} (hc : c ∈ digits sha256 body) :
    isWhiteSpace c = false ∧ c ≠ ',' ∧ c ≠ '"' := by
  have hmem := List.mem_of_mem_take hc
  rw [toBase64url,String.toList_ofList] at hmem
  obtain ⟨n,hn,rfl⟩ := List.mem_map.mp hmem
  exact plain_urlDigit n (sextets_lt _ n hn)

theorem getLast?_quoted (front cs : List Char) :
    (front ++ '"' :: (cs ++ ['"'])).getLast? = some '"' := by
  rw [← List.cons_append,← List.append_assoc,List.getLast?_concat]

theorem trimChars_quoted (cs : List Char) : trimChars ('"' :: (cs ++ ['"'])) = '"' :: (cs ++ ['"']) :=
  trimChars_ends rfl (getLast?_quoted [] cs) (by decide) (by decide)

/-- The quotes are taken off. -/
theorem unquoted (cs : List Char) :
    (if ('"' :: (cs ++ ['"'])).head? = some '"' ∧ ('"' :: (cs ++ ['"'])).getLast? = some '"' ∧
        2 ≤ ('"' :: (cs ++ ['"'])).length
      then (('"' :: (cs ++ ['"'])).drop 1).dropLast else '"' :: (cs ++ ['"'])) = cs := by
  rw [if_pos ⟨rfl,getLast?_quoted [] cs,by simp⟩,List.drop_one,List.tail_cons,List.dropLast_concat]

theorem trimChars_marked (mark : Mark) (cs : List Char) :
    trimChars (mark.text ++ '"' :: (cs ++ ['"'])) = mark.text ++ '"' :: (cs ++ ['"']) := by
  cases mark with
  | strong => exact trimChars_quoted cs
  | weak => exact trimChars_ends rfl (getLast?_quoted _ cs) (by decide) (by decide)
  | lowerWeak => exact trimChars_ends rfl (getLast?_quoted _ cs) (by decide) (by decide)

theorem normalizeTag_marked (mark : Mark) (cs : List Char) :
    normalizeTag (mark.text ++ '"' :: (cs ++ ['"'])) = cs := by
  -- behind the mark, and with none, the quoted digits are left
  have hleft : (if "W/".toList.isPrefixOf (mark.text ++ '"' :: (cs ++ ['"'])) ||
        "w/".toList.isPrefixOf (mark.text ++ '"' :: (cs ++ ['"']))
      then trimChars ((mark.text ++ '"' :: (cs ++ ['"'])).drop 2)
      else mark.text ++ '"' :: (cs ++ ['"'])) = '"' :: (cs ++ ['"']) := by
    cases mark with
    | strong => rfl
    | weak => exact trimChars_quoted cs
    | lowerWeak => exact trimChars_quoted cs
  simp only [normalizeTag,trimChars_marked,hleft]
  exact unquoted cs

/-- A named tag, without the blanks around it. -/
theorem trimChars_text (he : e.etag = computeEtag sha256 body) :
    trimChars e.text.toList = e.core := by
  rw [Named.text,String.toList_ofList,trimChars_append_right e.after.blank,
    trimChars_append_left e.before.blank,Named.core,he,toList_computeEtag,trimChars_marked]

theorem normalizeTag_core (he : e.etag = computeEtag sha256 body) :
    normalizeTag e.core = digits sha256 body := by
  rw [Named.core,he,toList_computeEtag,normalizeTag_marked]

theorem notMem_text (he : e.etag = computeEtag sha256 body) : ',' ∉ e.text.toList := by
  rw [Named.text,String.toList_ofList,Named.core,he,toList_computeEtag]
  intro hc
  rcases List.mem_append.mp hc with hc | hc
  · rcases List.mem_append.mp hc with hc | hc
    · exact ne_comma_of_blank (e.before.blank _ hc) rfl
    · rcases List.mem_append.mp hc with hc | hc
      · revert hc
        cases e.mark <;> decide
      · rw [List.mem_cons,List.mem_append,List.mem_singleton] at hc
        rcases hc with hc | hc | hc
        · cases hc
        · exact (plain_digits hc).2.1 rfl
        · cases hc
  · exact ne_comma_of_blank (e.after.blank _ hc) rfl

theorem computeEtag_inj {body' : String} :
    computeEtag sha256 body = computeEtag sha256 body' ↔
      digits sha256 body = digits sha256 body' := by
  rw [← String.toList_inj,toList_computeEtag,toList_computeEtag]
  simp

end Tags

section Matches
variable {sha256 : List UInt8 → List UInt8} {entries : List Named}

/-- Every named tag was computed for some body. -/
def Genuine (sha256 : List UInt8 → List UInt8) (entries : List Named) : Prop :=
  ∀ e ∈ entries, ∃ body, e.etag = computeEtag sha256 body

theorem toList_header (entries : List Named) :
    (",".intercalate (entries.map Named.text)).toList =
      [','].intercalate (entries.map fun e => e.text.toList) := by
  rw [String.toList_intercalate,List.map_map]
  rfl

/-- The parts of the header are the tags as they were named. -/
theorem parts_header (hne : entries ≠ []) (hg : Genuine sha256 entries) :
    ((trimChars (",".intercalate (entries.map Named.text)).toList).splitOn ',').map trimChars =
      entries.map Named.core := by
  rw [parts_trimChars,toList_header,List.splitOn_intercalate,List.map_map]
  · apply List.map_congr_left
    intro e he
    obtain ⟨body,hb⟩ := hg e he
    exact trimChars_text hb
  · intro part hpart
    obtain ⟨e,he,rfl⟩ := List.mem_map.mp hpart
    obtain ⟨body,hb⟩ := hg e he
    exact notMem_text hb
  · simpa using hne

/-- A header of tags is neither empty nor the one that matches anything. -/
theorem header_ne (hne : entries ≠ []) (hg : Genuine sha256 entries) {cs : List Char}
    (hcs : cs.length < 2) (hcomma : ',' ∉ cs) :
    trimChars (",".intercalate (entries.map Named.text)).toList ≠ cs := by
  intro heq
  have hparts := parts_header hne hg
  rw [heq,List.splitOn_eq_singleton hcomma] at hparts
  obtain ⟨e,rest,rfl⟩ := List.exists_cons_of_ne_nil hne
  obtain ⟨body,hb⟩ := hg e List.mem_cons_self
  have hcore : trimChars cs = e.core := (List.cons.inj hparts).1
  have hlong := congrArg List.length hcore
  have hshort : (trimChars cs).length ≤ cs.length := by
    obtain ⟨front,back,hsplit,-,-⟩ := exists_trimmed cs
    have := congrArg List.length hsplit
    simp only [List.length_append] at this
    omega
  rw [Named.core,hb,toList_computeEtag] at hlong
  simp only [List.length_append,List.length_cons,List.length_nil] at hlong
  omega

/-- However the tags are marked and spaced, a header matches if one of them is the tag. -/
theorem etagMatches_iff (hg : Genuine sha256 entries) (body : String) :
    etagMatches (headerOf entries) (computeEtag sha256 body) = true ↔
      ∃ e ∈ entries, e.etag = computeEtag sha256 body := by
  unfold headerOf
  split
  · rename_i hnil
    rw [List.length_eq_zero_iff] at hnil
    simp [hnil,etagMatches]
  · rename_i hlen
    have hne : entries ≠ [] := by
      rintro rfl
      exact hlen rfl
    have hempty : ¬ (trimChars (",".intercalate (entries.map Named.text)).toList).length = 0 := by
      rw [List.length_eq_zero_iff]
      exact header_ne hne hg (by decide) (by decide)
    have hstar : trimChars (",".intercalate (entries.map Named.text)).toList ≠ ['*'] :=
      header_ne hne hg (by decide) (by decide)
    have hparts := parts_header hne hg
    have hone : ",".intercalate [",".intercalate (entries.map Named.text)] =
        ",".intercalate (entries.map Named.text) := by
      simp
    simp only [etagMatches,hone,if_neg hempty,if_neg hstar]
    have htarget : normalizeTag (computeEtag sha256 body).toList = digits sha256 body := by
      rw [toList_computeEtag]
      exact normalizeTag_marked .strong _
    rw [htarget,List.any_eq_true]
    constructor
    · rintro ⟨part,hpart,heq⟩
      have hmem : trimChars part ∈ entries.map Named.core := by
        rw [← hparts]
        exact List.mem_map_of_mem hpart
      obtain ⟨e,he,hcore⟩ := List.mem_map.mp hmem
      obtain ⟨body',hb⟩ := hg e he
      refine ⟨e,he,?_⟩
      rw [hb,computeEtag_inj,← normalizeTag_core hb,hcore,
        normalizeTag_congr (trimChars_trimChars part)]
      exact of_decide_eq_true heq
    · rintro ⟨e,he,hb⟩
      have hmem : e.core ∈ entries.map Named.core := List.mem_map_of_mem he
      rw [← hparts] at hmem
      obtain ⟨part,hpart,hcore⟩ := List.mem_map.mp hmem
      refine ⟨part,hpart,decide_eq_true ?_⟩
      rw [← normalizeTag_congr (trimChars_trimChars part),hcore,normalizeTag_core hb]

end Matches

/-! ## Clients -/

/-- What a client was sent, the newest first, and the body it shows. -/
structure Client where
  cache : List (String × String)
  shown : Option String

/-- A stored tag, as the client names it in a request. -/
structure Choice where
  index : ℕ
  mark : Mark
  before : Blanks
  after : Blanks

namespace Client

def named (client : Client) (choices : List Choice) : List Named :=
  choices.filterMap fun choice => (client.cache[choice.index]?).map fun stored =>
    ⟨stored.1,choice.mark,choice.before,choice.after⟩

/-- A body is stored; an answer without one is looked up by its tag. -/
def receive (client : Client) (response : Response) : Client :=
  match response.body with
  | some body => ⟨(response.etag,body) :: client.cache,some body⟩
  | none => { client with
      shown := (client.cache.find? fun stored => stored.1 = response.etag).map Prod.snd }

end Client

structure Process where
  data : Json
  clients : ℕ → Client

inductive Op
  /-- The resource changes. -/
  | change (data : Json)
  | get (client : ℕ) (choices : List Choice)

namespace Process

def start (data : Json) : Process := ⟨data,fun _ => ⟨[],none⟩⟩

section Steps
variable (sha256 : List UInt8 → List UInt8)

def answer (p : Process) (client : ℕ) (choices : List Choice) : Response :=
  okWithEtag sha256 (headerOf ((p.clients client).named choices)) p.data

def step (p : Process) : Op → Process
  | .change data => { p with data := data }
  | .get client choices => { p with
      clients := Function.update p.clients client
        ((p.clients client).receive (p.answer sha256 client choices)) }

/-- The bodies that the resource has had. -/
def bodies (first : Json) (ops : List Op) : List String :=
  payload first :: ops.filterMap fun
    | .change data => some (payload data)
    | .get _ _ => none

/-- No two bodies share a digest. -/
def NoCollision (bodies : List String) : Prop :=
  ∀ a ∈ bodies, ∀ b ∈ bodies, computeEtag sha256 a = computeEtag sha256 b → a = b

/-- What the clients have stored are bodies of the resource, under their tags. -/
structure Sound (all : List String) (p : Process) : Prop where
  current : payload p.data ∈ all
  stored : ∀ client, ∀ e ∈ (p.clients client).cache, e.1 = computeEtag sha256 e.2 ∧ e.2 ∈ all

end Steps

section Runs
variable {sha256 : List UInt8 → List UInt8} {all : List String} {p : Process}

theorem Sound.genuine (h : p.Sound sha256 all) (client : ℕ) (choices : List Choice) :
    Genuine sha256 ((p.clients client).named choices) := by
  intro e he
  obtain ⟨choice,-,he⟩ := List.mem_filterMap.mp he
  obtain ⟨stored,hs,rfl⟩ := Option.map_eq_some_iff.mp he
  exact ⟨stored.2,(h.stored client stored (List.mem_of_getElem? hs)).1⟩

theorem exists_stored {client : Client} {choices : List Choice} {e : Named}
    (he : e ∈ client.named choices) : ∃ body, (e.etag,body) ∈ client.cache := by
  obtain ⟨choice,-,he⟩ := List.mem_filterMap.mp he
  obtain ⟨stored,hs,rfl⟩ := Option.map_eq_some_iff.mp he
  exact ⟨stored.2,List.mem_of_getElem? hs⟩

theorem Sound.change (h : p.Sound sha256 all) {data : Json} (hd : payload data ∈ all) :
    ({ p with data := data } : Process).Sound sha256 all :=
  ⟨hd,h.stored⟩

theorem Sound.get (h : p.Sound sha256 all) (client : ℕ) (choices : List Choice) :
    (p.step sha256 (.get client choices)).Sound sha256 all := by
  refine ⟨h.current,?_⟩
  intro c e he
  by_cases hc : c = client
  · subst hc
    simp only [step,Function.update_self,Client.receive,answer,okWithEtag] at he
    split at he
    · rename_i body hbody
      rcases List.mem_cons.mp he with rfl | he
      · split at hbody
        · cases hbody
        · obtain rfl := Option.some.inj hbody
          rename_i hmiss
          simp only [if_neg hmiss]
          exact ⟨trivial,h.current⟩
      · exact h.stored c e he
    · exact h.stored c e he
  · simp only [step,Function.update_of_ne hc] at he
    exact h.stored c e he

theorem Sound.step (h : p.Sound sha256 all) {op : Op}
    (hop : ∀ data, op = .change data → payload data ∈ all) : (p.step sha256 op).Sound sha256 all := by
  cases op with
  | change data => exact h.change (hop data rfl)
  | get client choices => exact h.get client choices

theorem sound_run (sha256 : List UInt8 → List UInt8) (first : Json) (ops : List Op) :
    (run (step sha256) (start first) ops).Sound sha256 (bodies first ops) := by
  refine run_invariant (C := fun _ op => ∀ data, op = .change data → payload data ∈ bodies first ops)
    (fun _ _ h hop => h.step hop) ?_ (guarded_of_labels ?_)
  · refine ⟨List.mem_cons_self,?_⟩
    intro client e he
    cases he
  · rintro op hop data rfl
    exact List.mem_cons_of_mem _ (List.mem_filterMap.mpr ⟨_,hop,rfl⟩)

/-- A get brings the current body, from the answer or from what the client has stored. -/
theorem Sound.shown (h : p.Sound sha256 all) (hno : NoCollision sha256 all) (client : ℕ)
    (choices : List Choice) :
    ((p.step sha256 (.get client choices)).clients client).shown = some (payload p.data) ∧
      ((p.answer sha256 client choices).statusCode = 304 ↔
        ∃ e ∈ (p.clients client).named choices,
          (e.etag,payload p.data) ∈ (p.clients client).cache) := by
  have hmatch := etagMatches_iff (h.genuine client choices) (payload p.data)
  -- what is stored under the current tag is the current body
  have hsame : ∀ e ∈ (p.clients client).cache, e.1 = computeEtag sha256 (payload p.data) →
      e.2 = payload p.data := by
    intro e he htag
    obtain ⟨hold,hmem⟩ := h.stored client e he
    exact hno e.2 hmem (payload p.data) h.current (hold.symm.trans htag)
  have hiff : etagMatches (headerOf ((p.clients client).named choices))
        (computeEtag sha256 (payload p.data)) = true ↔
      ∃ e ∈ (p.clients client).named choices,
        (e.etag,payload p.data) ∈ (p.clients client).cache := by
    rw [hmatch]
    constructor
    · rintro ⟨e,he,htag⟩
      obtain ⟨body,hb⟩ := exists_stored he
      obtain rfl := hsame (e.etag,body) hb htag
      exact ⟨e,he,hb⟩
    · rintro ⟨e,he,hb⟩
      exact ⟨e,he,(h.stored client _ hb).1⟩
  simp only [Process.step,Function.update_self,Client.receive,answer,okWithEtag]
  by_cases hm : etagMatches (headerOf ((p.clients client).named choices))
      (computeEtag sha256 (payload p.data)) = true
  · simp only [if_pos hm]
    refine ⟨?_,by simpa using hiff.mp hm⟩
    obtain ⟨e,-,hb⟩ := hiff.mp hm
    have htag : e.etag = computeEtag sha256 (payload p.data) := (h.stored client _ hb).1
    cases hfind : (p.clients client).cache.find? fun stored =>
        stored.1 = computeEtag sha256 (payload p.data) with
    | none =>
        have hnone := List.find?_eq_none.mp hfind _ hb
        simp [htag] at hnone
    | some stored =>
        have hkey := List.find?_some hfind
        rw [Option.map_some,hsame stored (List.mem_of_find?_eq_some hfind) (by simpa using hkey)]
  · simp only [if_neg hm]
    refine ⟨trivial,?_⟩
    rw [← hiff]
    simpa using hm

end Runs

/-- Whatever the resource has been and whichever of their stored tags the clients name, a get
leaves its client with the current body, and is answered without one exactly when a named tag
stands for it. -/
theorem get_coherent (sha256 : List UInt8 → List UInt8) (first : Json) (ops : List Op)
    (h : NoCollision sha256 (bodies first ops)) (client : ℕ) (choices : List Choice) :
    let p := run (step sha256) (start first) ops
    ((p.step sha256 (.get client choices)).clients client).shown = some (payload p.data) ∧
      ((p.answer sha256 client choices).statusCode = 304 ↔
        ∃ e ∈ (p.clients client).named choices,
          (e.etag,payload p.data) ∈ (p.clients client).cache) :=
  (sound_run sha256 first ops).shown h client choices

/-- The resource changes and changes back; the client then names both of its tags. -/
def thereAndBack : List Op :=
  [.get 0 [],.change (.bool false),.get 0 [⟨0,.strong,⟨[],by simp⟩,⟨[],by simp⟩⟩],
    .change (.bool true)]

def bothTags : List Choice :=
  [⟨0,.strong,⟨[],by simp⟩,⟨[],by simp⟩⟩,⟨1,.weak,⟨[' '],by simp [isWhiteSpace]⟩,⟨[],by simp⟩⟩]

theorem get_coherent_thereAndBack :
    let p := run (step Sha256.sha256) (start (.bool true)) thereAndBack
    ((p.step Sha256.sha256 (.get 0 bothTags)).clients 0).shown = some (payload p.data) :=
  (get_coherent Sha256.sha256 (.bool true) thereAndBack (by unfold NoCollision; decide +kernel) 0
    bothTags).1

end Process
end Creditra.ConditionalGets
