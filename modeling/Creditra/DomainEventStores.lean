import Creditra.EventLogs
import Creditra.SqlOrderings
import Mathlib.Data.List.Forall2

/-!
# The two stores of domain events side by side

One sequence of events appended to `InMemoryDomainEventStore` and to the table
`domain_events`. Memory tells events apart by a text that is put together from
line, type and the text of the instant, and the table by its unique index on the
three columns. For the events that the service publishes these are the same: a
line's id has no colon, and an instant has one text.

`list` replays oldest first. The table orders by `occurred_at`, memory keeps the
order in which the events came. Where these are not the same order, memory's replay
is not one that the table may give.
-/
namespace Creditra.DomainEventStores
open DomainEventLog GuardedRuns IsoDates JsonValues Separators SqlOrderings
open EventLogs.InMemoryDomainEventStore (recordKey keeps_foldl)
open OutboundWebhooks (CreditDomainEvent)

structure DomainEventQuery where
  aggregateId : Option String
  eventType : Option String
  offset : Option ℕ
  limit : Option ℕ

/-- A filter of a query; an empty text is none. -/
def passes (filter : Option String) (value : String) : Bool :=
  match filter with
  | none => true
  | some wanted => wanted = "" || value = wanted

/-! ## In memory -/

def DomainEventQuery.wants (query : DomainEventQuery) (record : DomainEventRecord) : Bool :=
  passes query.aggregateId record.aggregateId && passes query.eventType record.eventType

/-- `list` of the in-memory store. -/
def list (store : InMemoryDomainEventStore) (query : DomainEventQuery) : List DomainEventRecord :=
  page (query.offset.getD 0) (query.limit.getD store.records.length)
    (store.records.filter query.wants)

/-! ## In the table -/

/-- What the server reads as a text and as an instant, and what a `JSONB` column gives back. -/
structure Server where
  readsText : String → Bool
  readsTime : String → Option ℤ
  jsonb : List (String × Json) → Option (List (String × Json))

structure DomainEventRow where
  id : String
  eventType : String
  aggregateId : String
  payload : List (String × Json)
  occurredAt : ℤ

def toRecord (row : DomainEventRow) : DomainEventRecord :=
  ⟨row.id,row.eventType,row.aggregateId,row.payload,toISOString row.occurredAt⟩

/-- The unique index of the table. -/
def Conflicts (row : DomainEventRow) (aggregateId eventType : String) (occurredAt : ℤ) : Prop :=
  row.aggregateId = aggregateId ∧ row.eventType = eventType ∧ row.occurredAt = occurredAt

instance (row : DomainEventRow) (aggregateId eventType : String) (occurredAt : ℤ) :
    Decidable (Conflicts row aggregateId eventType occurredAt) :=
  inferInstanceAs (Decidable (_ ∧ _ ∧ _))

/-- `INSERT .. ON CONFLICT .. DO NOTHING`; nothing where the statement fails. -/
def insert (server : Server) (rows : List DomainEventRow) (event : CreditDomainEvent)
    (uuid : String) : Option (List DomainEventRow) :=
  match server.jsonb event.payload, server.readsTime event.occurredAt with
  | some payload, some occurredAt =>
      if server.readsText event.creditLineId then
        if ∃ row ∈ rows, Conflicts row event.creditLineId event.type.name occurredAt then some rows
        else if ∃ row ∈ rows, row.id = uuid then none
        else some (rows ++ [⟨uuid,event.type.name,event.creditLineId,payload,occurredAt⟩])
      else none
  | _, _ => none

def DomainEventQuery.selects (query : DomainEventQuery) (row : DomainEventRow) : Bool :=
  passes query.aggregateId row.aggregateId && passes query.eventType row.eventType

/-- An answer to the `SELECT` of `list`, the oldest first. -/
def Lists (rows : List DomainEventRow) (query : DomainEventQuery)
    (answer : List DomainEventRecord) : Prop :=
  ∃ listing, Ordered (fun row => OrderDual.toDual row.occurredAt) (rows.filter query.selects)
      listing ∧
    answer = (page (query.offset.getD 0) (query.limit.getD 100) listing).map toRecord

/-! ## Both under one sequence of events -/

structure Stores where
  memory : InMemoryDomainEventStore
  rows : List DomainEventRow

def initial : Stores := ⟨.empty,[]⟩

/-- An event, with the id that the table would give it. -/
structure Append where
  event : CreditDomainEvent
  uuid : String

section Runs
variable (server : Server)

/-- A statement that fails leaves the table as it is. -/
def step (s : Stores) (op : Append) : Stores :=
  ⟨s.memory.append op.event,(insert server s.rows op.event op.uuid).getD s.rows⟩

/-- An event as the service publishes it, which the columns take, with an id not in use. -/
structure Admitted (s : Stores) (op : Append) : Prop where
  plain : ':' ∉ op.event.creditLineId.toList
  readsText : server.readsText op.event.creditLineId = true
  stamped : ∃ t, op.event.occurredAt = toISOString t ∧
    server.readsTime op.event.occurredAt = some t
  taken : (server.jsonb op.event.payload).isSome
  fresh : ∀ row ∈ s.rows, row.id ≠ op.uuid

/-- A record as the table gives it back, and the one in memory that it stands for. Each store
gives a record an id and a creation time of its own. -/
structure Same (read stored : DomainEventRecord) : Prop where
  eventType : read.eventType = stored.eventType
  aggregateId : read.aggregateId = stored.aggregateId
  occurredAt : read.occurredAt = stored.occurredAt
  payload : server.jsonb stored.payload = some read.payload

/-- The events of a query came in the order in which they happened. -/
def Chronological (rows : List DomainEventRow) (query : DomainEventQuery) : Prop :=
  (rows.filter query.selects).Pairwise fun a b => a.occurredAt ≤ b.occurredAt

/-- The same, each later than the one before. -/
def Spaced (rows : List DomainEventRow) (query : DomainEventQuery) : Prop :=
  (rows.filter query.selects).Pairwise fun a b => a.occurredAt < b.occurredAt

/-- The stores hold the same. A page that memory replays is one that the table may give if its
events came in their order, and the only one if no two of them are of one instant; the whole of a
listing is one only if they did. -/
structure Agree (s : Stores) : Prop where
  records : List.Forall₂ (Same server) (s.rows.map toRecord) s.memory.records
  replayed : ∀ query, query.limit.isSome → Chronological s.rows query →
    ∃ answer, Lists s.rows query answer ∧ List.Forall₂ (Same server) answer (list s.memory query)
  unique : ∀ query answer, query.limit.isSome → Spaced s.rows query → Lists s.rows query answer →
    List.Forall₂ (Same server) answer (list s.memory query)
  whole : ∀ query answer limit, query.offset = none → query.limit = some limit →
    s.rows.length ≤ limit → Lists s.rows query answer →
      List.Forall₂ (Same server) answer (list s.memory query) → Chronological s.rows query

end Runs

section Proofs
variable {server : Server}

/-! ## Keys -/

theorem key_eq_iff {a a' b b' c c' : String} (ha : ':' ∉ a.toList) (ha' : ':' ∉ a'.toList)
    (hb : ':' ∉ b.toList) (hb' : ':' ∉ b'.toList) :
    a ++ "::" ++ b ++ "::" ++ c = a' ++ "::" ++ b' ++ "::" ++ c' ↔ a = a' ∧ b = b' ∧ c = c' := by
  constructor
  · intro h
    have hlist : a.toList ++ ':' :: ':' :: (b.toList ++ ':' :: ':' :: c.toList) =
        a'.toList ++ ':' :: ':' :: (b'.toList ++ ':' :: ':' :: c'.toList) := by
      simpa using congrArg String.toList h
    obtain ⟨hleft,hrest⟩ := cut_unique_left ha ha' hlist
    obtain ⟨hmid,hright⟩ := cut_unique_left hb hb' (List.cons.inj hrest).2
    exact ⟨String.toList_inj.mp hleft,String.toList_inj.mp hmid,
      String.toList_inj.mp (List.cons.inj hright).2⟩
  · rintro ⟨rfl,rfl,rfl⟩
    rfl

/-- The texts of a record have no colon where the key joins them. -/
def Plain (record : DomainEventRecord) : Prop :=
  ':' ∉ record.aggregateId.toList ∧ ':' ∉ record.eventType.toList

/-- The table and memory take an event for the same one. -/
theorem conflicts_iff {row : DomainEventRow} {record : DomainEventRecord}
    {event : CreditDomainEvent} {t : ℤ} (h : Same server (toRecord row) record)
    (hrecord : Plain record) (hplain : ':' ∉ event.creditLineId.toList)
    (ht : event.occurredAt = toISOString t) :
    Conflicts row event.creditLineId event.type.name t ↔ recordKey record = dedupeKey event := by
  unfold recordKey dedupeKey Conflicts
  rw [key_eq_iff hrecord.1 hplain hrecord.2 (colon_notMem_name _),← h.aggregateId,← h.eventType,
    ← h.occurredAt,ht]
  exact and_congr_right fun _ => and_congr_right fun _ =>
    ⟨congrArg toISOString,fun heq => toISOString_injective heq⟩

theorem exists_iff_of_forall₂ {α β : Type} {R : α → β → Prop} {p : α → Prop} {q : β → Prop}
    {l : List α} {l' : List β} (h : List.Forall₂ R l l') (hpq : ∀ a b, R a b → (p a ↔ q b)) :
    (∃ a ∈ l, p a) ↔ ∃ b ∈ l', q b := by
  induction h with
  | nil => simp
  | cons hab _ ih => rw [List.exists_mem_cons_iff,List.exists_mem_cons_iff,hpq _ _ hab,ih]

/-! ## Steps -/

structure InStep (server : Server) (s : Stores) : Prop where
  records : List.Forall₂ (fun row record => Same server (toRecord row) record ∧ Plain record)
    s.rows s.memory.records
  seen : s.memory.records.map recordKey = s.memory.seen

theorem inStep_initial : InStep server initial := ⟨.nil,rfl⟩

/-- The event is in the table exactly when it is in memory. -/
theorem InStep.known_iff {s : Stores} (h : InStep server s) {event : CreditDomainEvent} {t : ℤ}
    (hplain : ':' ∉ event.creditLineId.toList) (ht : event.occurredAt = toISOString t) :
    (∃ row ∈ s.rows, Conflicts row event.creditLineId event.type.name t) ↔
      dedupeKey event ∈ s.memory.seen := by
  rw [← h.seen,List.mem_map]
  exact exists_iff_of_forall₂ h.records fun _ _ hsame => conflicts_iff hsame.1 hsame.2 hplain ht

theorem InStep.step {s : Stores} (h : InStep server s) {op : Append} (hop : Admitted server s op) :
    InStep server (step server s op) := by
  obtain ⟨t,ht,hreads⟩ := hop.stamped
  obtain ⟨payload,hpayload⟩ := Option.isSome_iff_exists.mp hop.taken
  have hfresh : ¬ ∃ row ∈ s.rows, row.id = op.uuid := by
    rintro ⟨row,hrow,hid⟩
    exact hop.fresh row hrow hid
  have hknown := h.known_iff hop.plain ht
  simp only [DomainEventStores.step,insert,hpayload,hreads,hop.readsText,if_true,if_neg hfresh]
  unfold InMemoryDomainEventStore.append
  dsimp only
  by_cases hkey : dedupeKey op.event ∈ s.memory.seen
  · rw [if_pos hkey,if_pos (hknown.mpr hkey)]
    exact h
  · rw [if_neg hkey,if_neg (hknown.not.mpr hkey)]
    refine ⟨List.rel_append h.records (.cons ?_ .nil),?_⟩
    · exact ⟨⟨rfl,rfl,ht.symm,hpayload⟩,hop.plain,colon_notMem_name _⟩
    · rw [List.map_append,h.seen]
      rfl

theorem inStep_run {ops : List Append} (h : Guarded (step server) (Admitted server) initial ops) :
    InStep server (run (step server) initial ops) :=
  run_invariant (fun _ _ hs hop => hs.step hop) inStep_initial h

/-! ## What is replayed -/

theorem InStep.same {s : Stores} (h : InStep server s) :
    List.Forall₂ (fun row record => Same server (toRecord row) record) s.rows s.memory.records :=
  h.records.imp fun _ _ hsame => hsame.1

theorem InStep.wanted {s : Stores} (h : InStep server s) (query : DomainEventQuery) :
    List.Forall₂ (fun row record => Same server (toRecord row) record)
      (s.rows.filter query.selects) (s.memory.records.filter query.wants) := by
  refine List.rel_filter ?_ h.same
  intro row record hsame
  have hid : row.aggregateId = record.aggregateId := hsame.aggregateId
  have htype : row.eventType = record.eventType := hsame.eventType
  simp only [DomainEventQuery.selects,DomainEventQuery.wants,hid,htype]

/-- The page that memory replays, read off the rows. -/
theorem InStep.listed {s : Stores} (h : InStep server s) {query : DomainEventQuery} {limit : ℕ}
    (hlimit : query.limit = some limit) :
    List.Forall₂ (Same server)
      ((page (query.offset.getD 0) limit (s.rows.filter query.selects)).map toRecord)
      (list s.memory query) := by
  rw [list,hlimit,Option.getD_some,List.forall₂_map_left_iff]
  exact List.forall₂_take _ (List.forall₂_drop _ (h.wanted query))

theorem Chronological.ordered {rows : List DomainEventRow} {query : DomainEventQuery}
    (h : Chronological rows query) :
    Ordered (fun row => OrderDual.toDual row.occurredAt) (rows.filter query.selects)
      (rows.filter query.selects) := ⟨.refl _,h⟩

theorem Spaced.chronological {rows : List DomainEventRow} {query : DomainEventQuery}
    (h : Spaced rows query) : Chronological rows query := h.imp fun hab => hab.le

theorem Spaced.distinct {rows : List DomainEventRow} {query : DomainEventQuery}
    (h : Spaced rows query) :
    Distinct (fun row => OrderDual.toDual row.occurredAt) (rows.filter query.selects) := by
  intro a ha b hb hab
  have heq : a.occurredAt = b.occurredAt := hab
  obtain ⟨i,hi,rfl⟩ := List.mem_iff_getElem.mp ha
  obtain ⟨j,hj,rfl⟩ := List.mem_iff_getElem.mp hb
  rcases lt_trichotomy i j with hij | rfl | hij
  · exact absurd heq (List.pairwise_iff_getElem.mp h i j hi hj hij).ne
  · rfl
  · exact absurd heq.symm (List.pairwise_iff_getElem.mp h j i hj hi hij).ne

theorem InStep.replayed {s : Stores} (h : InStep server s) {query : DomainEventQuery}
    (hlimit : query.limit.isSome) (hc : Chronological s.rows query) :
    ∃ answer, Lists s.rows query answer ∧
      List.Forall₂ (Same server) answer (list s.memory query) := by
  obtain ⟨limit,hlimit⟩ := Option.isSome_iff_exists.mp hlimit
  refine ⟨_,⟨_,hc.ordered,rfl⟩,?_⟩
  rw [hlimit,Option.getD_some]
  exact h.listed hlimit

theorem InStep.unique {s : Stores} (h : InStep server s) {query : DomainEventQuery}
    {answer : List DomainEventRecord} (hlimit : query.limit.isSome) (hs : Spaced s.rows query)
    (hanswer : Lists s.rows query answer) :
    List.Forall₂ (Same server) answer (list s.memory query) := by
  obtain ⟨limit,hlimit⟩ := Option.isSome_iff_exists.mp hlimit
  obtain ⟨listing,hordered,rfl⟩ := hanswer
  rw [hordered.eq hs.chronological.ordered hs.distinct,hlimit,Option.getD_some]
  exact h.listed hlimit

theorem texts_eq {read stored : List DomainEventRecord}
    (h : List.Forall₂ (Same server) read stored) :
    read.map DomainEventRecord.occurredAt = stored.map DomainEventRecord.occurredAt := by
  induction h with
  | nil => rfl
  | cons hsame _ ih => rw [List.map_cons,List.map_cons,hsame.occurredAt,ih]

/-- The instants of a listing that reads like the rows are those of the rows, in their order. -/
theorem InStep.whole {s : Stores} (h : InStep server s) {query : DomainEventQuery}
    {answer : List DomainEventRecord} {limit : ℕ} (hoffset : query.offset = none)
    (hlimit : query.limit = some limit) (hlen : s.rows.length ≤ limit)
    (hanswer : Lists s.rows query answer)
    (hsame : List.Forall₂ (Same server) answer (list s.memory query)) :
    Chronological s.rows query := by
  obtain ⟨listing,hordered,rfl⟩ := hanswer
  have hrows := h.listed hlimit
  have hlisted : (s.rows.filter query.selects).length ≤ limit :=
    (List.length_filter_le _ _).trans hlen
  simp only [hoffset,hlimit,Option.getD_none,Option.getD_some,page,List.drop_zero] at hsame hrows
  rw [List.take_of_length_le hlisted] at hrows
  rw [List.take_of_length_le (hordered.perm.length_eq.trans_le hlisted)] at hsame
  have hinstants : listing.map (·.occurredAt) =
      (s.rows.filter query.selects).map (·.occurredAt) := by
    refine List.map_injective_iff.mpr (fun _ _ => toISOString_injective) ?_
    have htexts := (texts_eq hsame).trans (texts_eq hrows).symm
    rw [List.map_map,List.map_map] at htexts
    rw [List.map_map,List.map_map]
    exact htexts
  have hsorted : (listing.map (·.occurredAt)).Pairwise (· ≤ ·) :=
    List.pairwise_map.mpr hordered.sorted
  rw [hinstants] at hsorted
  exact List.pairwise_map.mp hsorted

theorem InStep.agree {s : Stores} (h : InStep server s) : Agree server s where
  records := List.forall₂_map_left_iff.mpr h.same
  replayed := fun _ hlimit hc => h.replayed hlimit hc
  unique := fun _ _ hlimit hs hanswer => h.unique hlimit hs hanswer
  whole := fun _ _ _ hoffset hlimit hlen hanswer hsame =>
    h.whole hoffset hlimit hlen hanswer hsame

/-- Whatever is appended, if the service has published it and the columns take it, the stores
agree. -/
theorem replays_agree (ops : List Append)
    (h : Guarded (step server) (Admitted server) initial ops) :
    Agree server (run (step server) initial ops) := (inStep_run h).agree

end Proofs

/-- A server that reads the instants of two texts. -/
def plain : Server where
  readsText _ := true
  readsTime text :=
    if text = toISOString 0 then some 0 else if text = toISOString 1 then some 1 else none
  jsonb := some

/-- A draw is published again, and after it an event that happened before it. -/
def outOfOrder : List Append :=
  [⟨⟨.drawConfirmed,toISOString 1,"line",[("amount",.string "5")]⟩,"u1"⟩,
    ⟨⟨.drawConfirmed,toISOString 1,"line",[("amount",.string "5")]⟩,"u2"⟩,
    ⟨⟨.drawRequested,toISOString 0,"line",[("amount",.string "5")]⟩,"u3"⟩]

theorem replays_agree_outOfOrder : Agree plain (run (step plain) initial outOfOrder) := by
  refine replays_agree outOfOrder ⟨?_,?_,?_,trivial⟩
  · exact ⟨by decide,rfl,⟨1,rfl,by decide +kernel⟩,rfl,by decide⟩
  · exact ⟨by decide,rfl,⟨1,rfl,by decide +kernel⟩,rfl,by decide +kernel⟩
  · exact ⟨by decide,rfl,⟨0,rfl,by decide +kernel⟩,rfl,by decide +kernel⟩

end Creditra.DomainEventStores
