import Creditra.CursorReaders
import Creditra.DrawWebhooks

/-!
# Paging through webhook deliveries

`GET /api/webhooks/deliveries` lists the delivery records of draw webhooks,
latest update first. An update moves a record to the front, past a reader who
has not come to it yet. The keys are draw ids and addresses as they come, and
`localeCompare` is assumed to tell any two of them apart.
-/
namespace Creditra.DeliveryListings
open CursorPagination CursorReaders CursorTraversal DrawWebhooks GuardedRuns HorizonListener
open InsertionMaps IsoDates JsStrings JsonValues SortedListings StellarDiagnostics

/-- `status`, when the query has one. -/
def statusPasses (statusFilter : Option DeliveryStatus) (r : DeliveryRecord) : Bool :=
  match statusFilter with
  | none => true
  | some status => r.status = status

def list (records : DeliveryStore) : List DeliveryRecord := records.entries.map Prod.snd

def listed (statusFilter : Option DeliveryStatus) (s : Sender) : List DeliveryRecord :=
  (list s.store).filter (statusPasses statusFilter)

def recordKey (r : DeliveryRecord) : CursorKey := ⟨parsedTime r.updatedAt,key r.drawId r.url⟩

/-- The text is one that `toISOString` writes. -/
def isDate (text : String) : Bool :=
  (dateParse text).any fun t => ValidTime t ∧ text = toISOString t

/-- A record is written at a date, and not before another one that is there. -/
def Timely (s : Sender) : Step → Prop
  | .record _ _ updatedAt => isDate updatedAt = true ∧
      ∀ r ∈ list s.store, (parsedTime r.updatedAt).1 ≤ (parsedTime updatedAt).1
  | _ => True

instance (s : Sender) (st : Step) : Decidable (Timely s st) :=
  match st with
  | .record _ _ updatedAt => inferInstanceAs (Decidable (isDate updatedAt = true ∧
      ∀ r ∈ list s.store, (parsedTime r.updatedAt).1 ≤ (parsedTime updatedAt).1))
  | .call _ _ | .answer _ _ | .fail _ _ _ | .wake _ => inferInstanceAs (Decidable True)

section Readers
variable (imported : Bool) (jsonParse : String → Option Json) (activeConfig : Option WebhookConfig)
  (collation : Collation) (statusFilter : Option DeliveryStatus)

/-- The deliveries, read page by page while webhooks are sent. -/
def readDeliveries (labels : List (Label Step)) : Reading Sender DeliveryRecord :=
  run (CursorReaders.step (Sender.step imported jsonParse activeConfig) (listed statusFilter)
    collation recordKey .desc) ⟨{},[],[],none,false⟩ labels

/-- What is known of deliveries that have been read. Each is shown as its record stood in the
store that answered its page. -/
structure DeliveriesRead (s : Reading Sender DeliveryRecord) : Prop where
  once : ((shown s).map fun r => key r.drawId r.url).Nodup
  ordered : (shownKeys recordKey s).Pairwise (keyBefore collation .desc)
  dated : ∀ r ∈ shown s, ReadsBack r.updatedAt
  present : List.Forall₂ (fun page store => ∀ r ∈ page.items, statusPasses statusFilter r = true ∧
    store.store.get (key r.drawId r.url) = some r) s.pages s.found
  complete : s.finished = true → ∀ r, (∀ store ∈ s.found, r ∈ listed statusFilter store) →
    r ∈ shown s
  answered : Answered (listed statusFilter) collation recordKey .desc s

end Readers

/-! ## Records -/

/-- Every record stands under its own key, and was written at a date. -/
def Dated (s : Sender) : Prop :=
  ∀ k r, s.store.get k = some r → k = key r.drawId r.url ∧ IsDate r.updatedAt

/-- From one store to a later one, records stay, or have been written again since. -/
def Later (a b : Sender) : Prop :=
  ∀ k r, a.store.get k = some r → ∃ r', b.store.get k = some r' ∧
    (r' = r ∨ (parsedTime r.updatedAt).1 ≤ (parsedTime r'.updatedAt).1)

theorem Later.refl (s : Sender) : Later s s := fun _ r hget => ⟨r,hget,.inl rfl⟩

theorem Later.trans {a b c : Sender} (hab : Later a b) (hbc : Later b c) : Later a c := by
  intro k r hget
  obtain ⟨r',hget',h⟩ := hab k r hget
  obtain ⟨r'',hget'',h'⟩ := hbc k r' hget'
  refine ⟨r'',hget'',?_⟩
  rcases h with rfl | h
  · exact h'
  · rcases h' with rfl | h'
    · exact .inr h
    · exact .inr (h.trans h')

section Steps
variable {imported : Bool} {jsonParse : String → Option Json}
  {activeConfig : Option WebhookConfig} {s : Sender} {st : Step}

variable (imported jsonParse activeConfig) in
/-- A step writes no record, or one, at the time it names. -/
theorem store_step (s : Sender) (st : Step) :
    (Sender.step imported jsonParse activeConfig s st).store = s.store ∨
      ∃ i deliveredAt r, st = .record i deliveredAt r.updatedAt ∧
        (Sender.step imported jsonParse activeConfig s st).store = record s.store r := by
  cases st with
  | call event now =>
      refine .inl ?_
      simp only [Sender.step,Sender.sendDrawConfirmationWebhook]
      repeat (first | rfl | split)
  | answer i response =>
      refine .inl ?_
      simp only [Sender.step]
      repeat (first | rfl | split)
  | fail i message reached =>
      refine .inl ?_
      simp only [Sender.step]
      repeat (first | rfl | split)
  | wake i =>
      refine .inl ?_
      simp only [Sender.step]
      repeat (first | rfl | split)
  | record i deliveredAt updatedAt =>
      simp only [Sender.step]
      split
      · rename_i d hd
        split
        · rename_i attempt result hphase
          exact .inr ⟨i,deliveredAt,answeredRecord d attempt result deliveredAt updatedAt,rfl,rfl⟩
        · rename_i lastError hphase
          exact .inr ⟨i,deliveredAt,
            exhaustedRecord (activeConfig.bind (·.maxRetries)) d lastError updatedAt,rfl,rfl⟩
        · exact .inl rfl
      · exact .inl rfl

theorem dated_step (h : Dated s) (htimely : Timely s st) :
    Dated (Sender.step imported jsonParse activeConfig s st) := by
  rcases store_step imported jsonParse activeConfig s st with
    hsame | ⟨i,deliveredAt,r,rfl,hstore⟩
  · unfold Dated
    rw [hsame]
    exact h
  · intro k found hget
    rw [hstore] at hget
    rcases InsertionMap.get_set_cases hget with ⟨rfl,rfl⟩ | ⟨-,hold⟩
    · obtain ⟨t,-,ht⟩ := (Option.any_eq_true _ _).mp htimely.1
      rw [decide_eq_true_eq] at ht
      exact ⟨rfl,t,ht⟩
    · exact h k found hold

theorem mem_list {records : DeliveryStore} {k : String} {r : DeliveryRecord}
    (h : records.get k = some r) : r ∈ list records :=
  List.mem_map.mpr ⟨(k,r),InsertionMap.get_eq_some.mp h,rfl⟩

theorem later_step (htimely : Timely s st) :
    Later s (Sender.step imported jsonParse activeConfig s st) := by
  rcases store_step imported jsonParse activeConfig s st with
    hsame | ⟨i,deliveredAt,r,rfl,hstore⟩
  · unfold Later
    rw [hsame]
    exact Later.refl s
  · intro k found hget
    rw [hstore]
    by_cases hk : k = key r.drawId r.url
    · subst hk
      exact ⟨r,InsertionMap.get_set_self _ _ _,.inr (htimely.2 found (mem_list hget))⟩
    · exact ⟨found,(InsertionMap.get_set_of_ne _ hk _).trans hget,.inl rfl⟩

end Steps

/-! ## Places in the listing -/

section Places
variable {s : Sender} {statusFilter : Option DeliveryStatus}

theorem get_of_listed (h : Dated s) {r : DeliveryRecord} (hr : r ∈ listed statusFilter s) :
    s.store.get (key r.drawId r.url) = some r := by
  obtain ⟨entry,hentry,rfl⟩ := List.mem_map.mp (List.mem_filter.mp hr).1
  have hget : s.store.get entry.1 = some entry.2 := InsertionMap.get_eq_some.mpr hentry
  rw [← (h entry.1 entry.2 hget).1]
  exact hget

theorem Dated.keys (h : Dated s) : (list s.store).map (fun r => key r.drawId r.url) =
    s.store.entries.map Prod.fst := by
  unfold list
  rw [List.map_map]
  apply List.map_congr_left
  intro entry hentry
  exact (h _ _ (InsertionMap.get_eq_some.mpr hentry)).1.symm

theorem keyed_listed (statusFilter : Option DeliveryStatus) (h : Dated s) :
    Keyed recordKey (listed statusFilter s) where
  nodup := by
    have hnodup : ((list s.store).map fun r => key r.drawId r.url).Nodup := by
      rw [h.keys]
      exact s.store.nodup
    have hfilter := hnodup.sublist (List.filter_sublist (p := statusPasses statusFilter) |>.map _)
    refine List.Nodup.of_map CursorKey.i ?_
    rw [List.map_map]
    exact hfilter
  ids := by
    intro r _ hempty
    have hlist := congrArg String.toList hempty
    simp [recordKey,key] at hlist

/-- No record moves away from the front. -/
theorem forward_listed (collation : Collation) {a b : Sender} (ha : Dated a) (hb : Dated b)
    (hlater : Later a b) : Forward (listed statusFilter) collation recordKey .desc a b := by
  intro x hx y hy hsame
  change key x.drawId x.url = key y.drawId y.url at hsame
  obtain ⟨r,hget,hmoved⟩ := hlater _ x (get_of_listed ha hx)
  rw [hsame,get_of_listed hb hy] at hget
  obtain rfl := Option.some.inj hget
  rcases hmoved with rfl | hle
  · exact keyBefore_irrefl collation .desc _
  · rw [keyBefore_iff]
    rintro (hbefore | ⟨-,hid⟩)
    · exact absurd hle (not_le.mpr hbefore)
    · change collation.localeCompare (key x.drawId x.url) (key y.drawId y.url) < 0 at hid
      rw [hsame,collation.localeCompare_self] at hid
      exact lt_irrefl _ hid

theorem read_of_deliveries {collation : Collation} {s : Reading Sender DeliveryRecord}
    (h : InStep (listed statusFilter) collation recordKey .desc s)
    (hfollowed : Followed Dated Later s) : DeliveriesRead collation statusFilter s where
  once := by
    apply h.read.nodup_ids
    · intro store hstore
      have hdated := (hfollowed.found store hstore).1
      exact forward_listed collation hdated hdated (Later.refl store)
    · refine List.Pairwise.imp_of_mem ?_ hfollowed.ordered
      intro a b ha hb hlater
      exact forward_listed collation (hfollowed.found a ha).1 (hfollowed.found b hb).1 hlater
  ordered := h.read.ordered
  dated := by
    intro r hr
    obtain ⟨store,hstore,hmem⟩ := h.read.origin hr
    have hdated := (hfollowed.found store hstore).1
    exact (hdated _ _ (get_of_listed hdated hmem)).2.readsBack
  present := by
    rw [List.forall₂_iff_zip]
    refine ⟨h.read.within.length_eq,?_⟩
    intro page store hpair r hr
    have hmem := (List.forall₂_iff_zip.mp h.read.within).2 hpair r hr
    have hdated := (hfollowed.found store (List.of_mem_zip hpair).2).1
    exact ⟨(List.mem_filter.mp hmem).2,get_of_listed hdated hmem⟩
  complete := by
    intro hfinished r hall
    have hkey : recordKey r ∈ shownKeys recordKey s := h.read.complete hfinished _
      fun store hstore => List.mem_map_of_mem (hall store hstore)
    obtain ⟨r',hr',hsame⟩ := List.mem_map.mp hkey
    obtain ⟨store,hstore,hmem⟩ := h.read.origin hr'
    have hkeyed := keyed_listed statusFilter (hfollowed.found store hstore).1
    exact List.inj_on_of_nodup_map hkeyed.nodup hmem (hall store hstore) hsame ▸ hr'
  answered := h.answered (keyed_listed statusFilter hfollowed.present)

end Places

/-- However webhooks are sent between the requests, whoever follows the cursors reads no delivery
twice, and every delivery once whose record is not written again before the last page. -/
theorem deliveries_read (imported : Bool) (jsonParse : String → Option Json)
    (activeConfig : Option WebhookConfig) (collation : Collation)
    (statusFilter : Option DeliveryStatus) (labels : List (Label Step))
    (htimely : Guarded (Sender.step imported jsonParse activeConfig) Timely {} (calls labels)) :
    DeliveriesRead collation statusFilter
      (readDeliveries imported jsonParse activeConfig collation statusFilter labels) := by
  have hdated : ∀ s st, Dated s → Timely s st →
      Dated (Sender.step imported jsonParse activeConfig s st) := fun _ _ => dated_step
  have hstart : Dated {} := nofun
  exact read_of_deliveries
    (run_inStep hdated (fun _ => keyed_listed statusFilter) hstart htimely)
    (run_followed hdated (fun s _ => Later.refl s) (fun _ _ _ => Later.trans)
      (fun _ _ _ => later_step) hstart htimely)

/-- Every event is about one draw. -/
def parseDraw (_ : String) : Option Json := some (.object [("drawId",.string "d1")])

def confirmed : HorizonEvent :=
  ⟨7,"2026-07-09T00:00:00.000Z","CA",["draw_confirmed"],"\x7b\x7d",7⟩

def subscribers : Option WebhookConfig :=
  some ⟨["https://a.example/hook","https://b.example/hook"],some 0⟩

/-- Both deliveries are dead-lettered; the first is tried again between the pages. -/
def triedAgain : List (Label Step) :=
  [.perform (.call confirmed (toISOString 0)),.perform (.fail 0 "" false),
    .perform (.record 0 "" (toISOString 1)),.perform (.fail 1 "" false),
    .perform (.record 1 "" (toISOString 2)),.request (some (.text "1")),
    .perform (.call confirmed (toISOString 3)),.perform (.fail 2 "" false),
    .perform (.record 2 "" (toISOString 4)),.request none]

theorem deliveries_read_triedAgain :
    DeliveriesRead ordinal none
      (readDeliveries fetchImported parseDraw subscribers ordinal none triedAgain) :=
  deliveries_read fetchImported parseDraw subscribers ordinal none triedAgain (by decide +kernel)

end Creditra.DeliveryListings
