import Creditra.HorizonListener
import Creditra.Separators

/-!
# Identifiers of chain events

An identifier joins the ledger, the contract, the topics and a digest of the
data with dashes. The ledger and the digest hold no dash, so they can be read
back; the contract and the topics are read back only as one text, in which the
dashes between them and the dashes inside them look alike. And nothing in an
identifier tells two emissions of one ledger apart.

So two events have different identifiers exactly when they differ in ledger, in
data, or in that text, and when the events of a run differ so, each of them is
handed to the handlers.
-/
namespace Creditra.EventIdentity
open GuardedRuns HorizonListener Separators

/-- Contract and topics, as they stand in the identifier. -/
def sourceText (e : HorizonEvent) : String :=
  e.contractId ++ "-" ++ String.intercalate "-" e.topics

/-- Two events that differ in what an identifier keeps of them. -/
def Separated (e e' : HorizonEvent) : Prop :=
  e.ledger ≠ e'.ledger ∨ e.data ≠ e'.data ∨ sourceText e ≠ sourceText e'

instance (e e' : HorizonEvent) : Decidable (Separated e e') := by
  unfold Separated
  infer_instance

/-- Digests are hexadecimal, so they hold no dash. -/
def DashFree (dataHash : String → String) : Prop := ∀ data, '-' ∉ (dataHash data).toList

theorem generateEventId_toList (dataHash : String → String) (e : HorizonEvent) :
    (generateEventId dataHash e).toList =
      (toString e.ledger).toList ++ '-' :: ((sourceText e).toList ++
        '-' :: (dataHash e.data).toList) := by
  simp [generateEventId,sourceText]

/-- An identifier determines ledger, source text and digest, and nothing more. -/
theorem generateEventId_eq_iff {dataHash : String → String} (hdash : DashFree dataHash)
    (e e' : HorizonEvent) :
    generateEventId dataHash e = generateEventId dataHash e' ↔
      e.ledger = e'.ledger ∧ sourceText e = sourceText e' ∧
        dataHash e.data = dataHash e'.data := by
  constructor
  · intro h
    have hlist := congrArg String.toList h
    rw [generateEventId_toList,generateEventId_toList] at hlist
    obtain ⟨hledger,hrest⟩ :=
      cut_unique_left (notMem_toString rfl e.ledger) (notMem_toString rfl e'.ledger) hlist
    obtain ⟨hsource,hdata⟩ := cut_unique_right (hdash e.data) (hdash e'.data) hrest
    exact ⟨toString_nat_injective (String.toList_inj.mp hledger),String.toList_inj.mp hsource,
      String.toList_inj.mp hdata⟩
  · intro h
    obtain ⟨hledger,hsource,hdata⟩ := h
    apply String.toList_inj.mp
    rw [generateEventId_toList,generateEventId_toList,hledger,hsource,hdata]

/-- The truncated digest tells the data of these events apart. -/
def DigestInjective (dataHash : String → String) (events : List HorizonEvent) : Prop :=
  ∀ e ∈ events, ∀ e' ∈ events, dataHash e.data = dataHash e'.data → e.data = e'.data

/-- Distinct events of the run have distinct identifiers, and each event has
been handed to the handlers. -/
def NoneDropped (dataHash : String → String) (l : Listener) : Prop :=
  (∀ e ∈ l.returned, ∀ e' ∈ l.returned, e ≠ e' →
    generateEventId dataHash e ≠ generateEventId dataHash e') ∧
  ∀ e ∈ l.returned, e ∈ l.delivered

instance (dataHash : String → String) (l : Listener) : Decidable (NoneDropped dataHash l) := by
  unfold NoneDropped
  infer_instance

section Runs
variable {dataHash : String → String} {handlers : ℕ} {config : HorizonListenerConfig}

theorem generateEventId_ne_iff (hdash : DashFree dataHash) {events : List HorizonEvent}
    (hinj : DigestInjective dataHash events) {e e' : HorizonEvent} (he : e ∈ events)
    (he' : e' ∈ events) :
    generateEventId dataHash e ≠ generateEventId dataHash e' ↔ Separated e e' := by
  have hdata : dataHash e.data = dataHash e'.data ↔ e.data = e'.data :=
    ⟨hinj e he e' he',congrArg dataHash⟩
  rw [Ne,generateEventId_eq_iff hdash,hdata]
  unfold Separated
  constructor
  · intro hno
    by_contra hsame
    rw [not_or,not_or,not_not,not_not,not_not] at hsame
    exact hno ⟨hsame.1,hsame.2.2,hsame.2.1⟩
  · intro hdiff hsame
    rcases hdiff with hledger | hdata' | hsource
    · exact hledger hsame.1
    · exact hdata' hsame.2.2
    · exact hsource hsame.2.1

def Delivered (r : Records) (e : HorizonEvent) : Prop := e ∈ r.delivered

theorem delivered_lasting : Lasting Delivered := by
  intro r r' e he
  exact List.mem_append_left _ he

theorem delivered_doneBy (throws : ℕ → Bool) : DoneBy Delivered handlers throws := by
  intro r e
  exact List.mem_append_right _ (List.mem_singleton_self e)

/-- Identifiers tell the events apart. -/
def Identified (dataHash : String → String) (events : List HorizonEvent) : Prop :=
  ∀ e ∈ events, ∀ e' ∈ events,
    generateEventId dataHash e = generateEventId dataHash e' → e = e'

/-- One poll: as long as identifiers tell all returned events apart, each of
them has been delivered, whatever the handlers do. -/
theorem delivered_pollOnce (l : Listener) (p : Poll)
    (h : Identified dataHash l.returned → Settled dataHash Delivered l) :
    Identified dataHash (l.pollOnce dataHash handlers config p).returned →
      Settled dataHash Delivered (l.pollOnce dataHash handlers config p) := by
  intro hid
  obtain hsame | ⟨l',events,hsame,-,hpage⟩ :=
    pollOnce_cases dataHash handlers config l p
  · rw [hsame.returned] at hid
    exact (h hid).same hsame
  · rw [hpage,returned_dispatchFrom] at hid
    have hall : Identified dataHash (l'.returned ++ events) := hid
    have hbefore : Identified dataHash l.returned := by
      intro e he e' he'
      rw [hsame.returned] at hall
      exact hall e (List.mem_append_left _ he) e' (List.mem_append_left _ he')
    rw [hpage]
    exact ((h hbefore).same hsame).page delivered_lasting
      (fun i _ => delivered_doneBy (p.throws i)) hall

theorem delivered_run (polls : List Poll)
    (hid : Identified dataHash
      (run (Listener.pollOnce dataHash handlers config) {} polls).returned) :
    Settled dataHash Delivered (run (Listener.pollOnce dataHash handlers config) {} polls) :=
  run_induction
    (I := fun l => Identified dataHash l.returned → Settled dataHash Delivered l)
    delivered_pollOnce (fun _ => settled_new) polls hid

end Runs

/-- In every run, no distinct event is dropped exactly when all distinct events
differ in ledger, in data, or in the text of contract and topics. -/
theorem none_dropped_iff_separated (dataHash : String → String) (handlers : ℕ)
    (config : HorizonListenerConfig) (polls : List Poll) (hdash : DashFree dataHash)
    (hinj : DigestInjective dataHash
      (run (Listener.pollOnce dataHash handlers config) {} polls).returned) :
    NoneDropped dataHash (run (Listener.pollOnce dataHash handlers config) {} polls) ↔
      ∀ e ∈ (run (Listener.pollOnce dataHash handlers config) {} polls).returned,
      ∀ e' ∈ (run (Listener.pollOnce dataHash handlers config) {} polls).returned,
        e ≠ e' → Separated e e' := by
  constructor
  · intro h e he e' he' hne
    exact (generateEventId_ne_iff hdash hinj he he').mp (h.1 e he e' he' hne)
  · intro h
    have hne : ∀ e ∈ (run (Listener.pollOnce dataHash handlers config) {} polls).returned,
        ∀ e' ∈ (run (Listener.pollOnce dataHash handlers config) {} polls).returned,
        e ≠ e' → generateEventId dataHash e ≠ generateEventId dataHash e' := by
      intro e he e' he' hdiff
      exact (generateEventId_ne_iff hdash hinj he he').mpr (h e he e' he' hdiff)
    have hid : Identified dataHash
        (run (Listener.pollOnce dataHash handlers config) {} polls).returned := by
      intro e he e' he' hsame
      by_contra hdiff
      exact hne e he e' he' hdiff hsame
    exact ⟨hne,(delivered_run polls hid).done⟩

/-- The first sixteen digits of SHA-256, on the data below. -/
def shortHash (data : String) : String :=
  if data = "a" then "ca978112ca1bbdca"
  else if data = "b" then "3e23e8160039594a"
  else "44136fa355b3678a"

theorem shortHash_dashFree : DashFree shortHash := by
  intro data
  unfold shortHash
  split
  · decide
  · split
    · decide
    · decide

def contractEvent (topics : List String) (data : String) (emission : ℕ) : HorizonEvent :=
  ⟨1000,"2026-07-09T00:00:00.000Z","CA",topics,data,emission⟩

/-- One page of two events, read twice. -/
def readTwice (e e' : HorizonEvent) : List Poll :=
  [⟨true,0,.ok [e,e'],fun _ _ => false,0,.zero⟩,⟨true,0,.ok [e,e'],fun _ _ => false,0,.zero⟩]

theorem none_dropped_iff_separated_two_draws :
    DashFree shortHash ∧
    DigestInjective shortHash (run (Listener.pollOnce shortHash 1 ⟨none,none,none,none⟩) {}
      (readTwice (contractEvent ["draw"] "a" 0) (contractEvent ["draw"] "b" 1))).returned ∧
    (NoneDropped shortHash (run (Listener.pollOnce shortHash 1 ⟨none,none,none,none⟩) {}
      (readTwice (contractEvent ["draw"] "a" 0) (contractEvent ["draw"] "b" 1))) ↔
      ∀ e ∈ (run (Listener.pollOnce shortHash 1 ⟨none,none,none,none⟩) {}
        (readTwice (contractEvent ["draw"] "a" 0) (contractEvent ["draw"] "b" 1))).returned,
      ∀ e' ∈ (run (Listener.pollOnce shortHash 1 ⟨none,none,none,none⟩) {}
        (readTwice (contractEvent ["draw"] "a" 0) (contractEvent ["draw"] "b" 1))).returned,
        e ≠ e' → Separated e e') := by
  have hinj : DigestInjective shortHash
      (run (Listener.pollOnce shortHash 1 ⟨none,none,none,none⟩) {}
        (readTwice (contractEvent ["draw"] "a" 0) (contractEvent ["draw"] "b" 1))).returned := by
    unfold DigestInjective
    decide +kernel
  exact ⟨shortHash_dashFree,hinj,none_dropped_iff_separated shortHash 1 ⟨none,none,none,none⟩
    (readTwice (contractEvent ["draw"] "a" 0) (contractEvent ["draw"] "b" 1))
    shortHash_dashFree hinj⟩

/-- Topics `a-b` and `a`, `b`; and two emissions with the same fields. -/
theorem distinct_events_are_dropped :
    ¬ NoneDropped shortHash (run (Listener.pollOnce shortHash 1 ⟨none,none,none,none⟩) {}
      (readTwice (contractEvent ["a-b"] "a" 0) (contractEvent ["a","b"] "a" 1))) ∧
    ¬ NoneDropped shortHash (run (Listener.pollOnce shortHash 1 ⟨none,none,none,none⟩) {}
      (readTwice (contractEvent ["draw"] "a" 0) (contractEvent ["draw"] "a" 1))) := by
  constructor
  · decide +kernel
  · decide +kernel

end Creditra.EventIdentity
