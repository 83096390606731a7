import Creditra.HorizonListener
import Mathlib.Data.Finset.Card

/-!
# How long the listener remembers an event

`processedEventIds` of `services/horizonListener.ts` drops its oldest thousand
marks whenever there are more than ten thousand. The marks are then the newest
of all that were ever set, and as soon as one has been dropped there are at
least 9001 of them, all set after it.
-/
namespace Creditra.EventDeduplication
open GuardedRuns HorizonListener

/-- An event handed to `dispatchEvent`, and which handlers throw on it. -/
structure Dispatch where
  event : HorizonEvent
  throws : ℕ → Bool

section Window
variable (dataHash : String → String) (handlers : ℕ)

def dispatch (l : Listener) (d : Dispatch) : Listener :=
  l.dispatchEvent dataHash handlers d.throws d.event

/-- The identifiers that a sequence of dispatches marks, in order. -/
def marked : Listener → List Dispatch → List String
  | _, [] => []
  | l, d :: ds =>
      (if generateEventId dataHash d.event ∈ l.processedEventIds then []
        else [generateEventId dataHash d.event]) ++ marked (dispatch dataHash handlers l d) ds

theorem marked_append (l : Listener) (ds ds' : List Dispatch) :
    marked dataHash handlers l (ds ++ ds') = marked dataHash handlers l ds ++
      marked dataHash handlers (run (dispatch dataHash handlers) l ds) ds' := by
  induction ds generalizing l with
  | nil => rfl
  | cons d ds ih =>
      rw [List.cons_append,marked,ih,marked,List.append_assoc]
      rfl

end Window

/-- The marks are the newest of the history, and all of it unless there are many. -/
structure Recent (ids history : List String) : Prop where
  suffix : ids <:+ history
  nodup : ids.Nodup
  bounded : ids.length ≤ 10000
  long : ids = history ∨ 9001 ≤ ids.length

theorem recent_nil : Recent [] [] :=
  ⟨List.suffix_refl [],List.nodup_nil,by simp,.inl rfl⟩

theorem recent_mark {ids history : List String} (h : Recent ids history) {eventId : String}
    (hnew : eventId ∉ ids) : Recent (markEventProcessed ids eventId) (history ++ [eventId]) := by
  have hsuffix : ids ++ [eventId] <:+ history ++ [eventId] := by
    rcases h.suffix with ⟨older,holder⟩
    exact ⟨older,by rw [← holder,List.append_assoc]⟩
  have hnodup : (ids ++ [eventId]).Nodup := by
    rw [List.nodup_append]
    refine ⟨h.nodup,List.nodup_singleton eventId,?_⟩
    intro id hid other hother heq
    rw [List.mem_singleton] at hother
    rw [heq,hother] at hid
    exact hnew hid
  have hbounded := h.bounded
  have hlength : (ids ++ [eventId]).length = ids.length + 1 := by simp
  unfold markEventProcessed addId
  rw [if_neg hnew]
  split_ifs with hfull
  · have hdropped : ((ids ++ [eventId]).drop 1000).length = 9001 := by
      rw [List.length_drop]
      omega
    exact ⟨(List.drop_suffix 1000 _).trans hsuffix,hnodup.sublist (List.drop_sublist 1000 _),
      by omega,.inr (by omega)⟩
  · refine ⟨hsuffix,hnodup,by omega,?_⟩
    cases h.long with
    | inl hall => exact .inl (by rw [hall])
    | inr hmany => exact .inr (by omega)

section Runs
variable {dataHash : String → String} {handlers : ℕ}

theorem recent_run {l : Listener} {history : List String} (h : Recent l.processedEventIds history)
    (ds : List Dispatch) :
    Recent (run (dispatch dataHash handlers) l ds).processedEventIds
      (history ++ marked dataHash handlers l ds) := by
  induction ds generalizing l history with
  | nil =>
      rw [marked,List.append_nil]
      exact h
  | cons d ds ih =>
      rw [run_cons,marked,← List.append_assoc]
      apply ih
      by_cases hmarked : generateEventId dataHash d.event ∈ l.processedEventIds
      · rw [dispatch,dispatchEvent_marked hmarked,if_pos hmarked,List.append_nil]
        exact h
      · rw [dispatch,(dispatchEvent_new handlers d.throws hmarked).2,if_neg hmarked]
        exact recent_mark h hmarked

end Runs

/-- Of a list that ends in `newer` after `x`, an end without `x` is an end of `newer`. -/
theorem suffix_of_notMem {α : Type} {older newer xs : List α} {x : α}
    (h : xs <:+ older ++ x :: newer) (hx : x ∉ xs) : xs <:+ newer := by
  have hnewer : newer <:+ older ++ x :: newer := ⟨older ++ [x],by simp⟩
  cases Nat.lt_or_ge newer.length xs.length with
  | inl hlong =>
      have hcons : x :: newer <:+ xs :=
        List.suffix_of_suffix_length_le (List.suffix_append older (x :: newer)) h (by simpa)
      exact absurd (hcons.subset List.mem_cons_self) hx
  | inr hshort => exact List.suffix_of_suffix_length_le h hnewer hshort

/-- What has been dropped was followed by many others. -/
theorem Recent.mem_of_few {ids older newer : List String} {id : String}
    (h : Recent ids (older ++ id :: newer)) (hfew : newer.toFinset.card < 9001) : id ∈ ids := by
  by_contra hdropped
  have hsuffix := suffix_of_notMem h.suffix hdropped
  have hmany : 9001 ≤ ids.length := by
    cases h.long with
    | inl hall =>
        rw [hall] at hdropped
        exact absurd (List.mem_append_right older List.mem_cons_self) hdropped
    | inr hmany => exact hmany
  have hsubset : ids.toFinset ⊆ newer.toFinset := by
    intro other hother
    rw [List.mem_toFinset] at hother ⊢
    exact hsuffix.subset hother
  have hcard := Finset.card_le_card hsubset
  rw [List.toFinset_card_of_nodup h.nodup] at hcard
  omega

/-- There are never more than ten thousand marks between two dispatches, and until 9001 others
have been set a mark is there and keeps its event from the handlers. -/
theorem deduplication_window (dataHash : String → String) (handlers : ℕ) :
    (∀ ds : List Dispatch,
      (run (dispatch dataHash handlers) {} ds).processedEventIds.length ≤ 10000) ∧
    ∀ (before : List Dispatch) (d : Dispatch) (after : List Dispatch),
      generateEventId dataHash d.event ∉
        (run (dispatch dataHash handlers) {} before).processedEventIds →
      (marked dataHash handlers (run (dispatch dataHash handlers) {} (before ++ [d]))
        after).toFinset.card < 9001 →
      generateEventId dataHash d.event ∈
        (run (dispatch dataHash handlers) {} (before ++ d :: after)).processedEventIds ∧
      ∀ again : Dispatch, generateEventId dataHash again.event = generateEventId dataHash d.event →
        dispatch dataHash handlers
            (run (dispatch dataHash handlers) {} (before ++ d :: after)) again =
          run (dispatch dataHash handlers) {} (before ++ d :: after) := by
  have hrecent : ∀ ds : List Dispatch,
      Recent (run (dispatch dataHash handlers) {} ds).processedEventIds
        (marked dataHash handlers {} ds) := by
    intro ds
    have hrun : Recent _ ([] ++ marked dataHash handlers {} ds) := recent_run recent_nil ds
    rwa [List.nil_append] at hrun
  constructor
  · intro ds
    exact (hrecent ds).bounded
  · intro before d after hnew hfew
    have hmem : generateEventId dataHash d.event ∈
        (run (dispatch dataHash handlers) {} (before ++ d :: after)).processedEventIds := by
      have hall := hrecent (before ++ d :: after)
      rw [run_append,run_cons,run_nil] at hfew
      rw [marked_append,marked,if_neg hnew,List.singleton_append] at hall
      exact hall.mem_of_few hfew
    refine ⟨hmem,?_⟩
    intro again hsame
    rw [← hsame] at hmem
    exact dispatchEvent_marked hmem

/-- A second event does not let the first one through again. -/
theorem deduplication_window_second_event :
    generateEventId emptyObjectHash (drawEvent 7) ∈
      (run (dispatch emptyObjectHash 1) {} [⟨drawEvent 7,fun _ => false⟩,
        ⟨drawEvent 8,fun _ => false⟩]).processedEventIds ∧
    (dispatch emptyObjectHash 1 (run (dispatch emptyObjectHash 1) {}
      [⟨drawEvent 7,fun _ => false⟩,⟨drawEvent 8,fun _ => false⟩])
        ⟨drawEvent 7,fun _ => false⟩).delivered = [drawEvent 7,drawEvent 8] := by
  have hwindow := (deduplication_window emptyObjectHash 1).2 [] ⟨drawEvent 7,fun _ => false⟩
    [⟨drawEvent 8,fun _ => false⟩] (by decide +kernel) (by decide +kernel)
  have hagain := hwindow.2 ⟨drawEvent 7,fun _ => false⟩ rfl
  rw [List.nil_append] at hwindow hagain
  exact ⟨hwindow.1,by rw [hagain]; decide +kernel⟩

end Creditra.EventDeduplication
