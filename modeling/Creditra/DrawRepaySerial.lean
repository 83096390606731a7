import Creditra.MemoryRepositories
import Mathlib.Data.List.Induction
import Mathlib.Data.List.Perm.Basic
import Mathlib.Algebra.BigOperators.Group.List.Basic
import Mathlib.Tactic.Linarith
import Mathlib.Tactic.Ring

/-!
# Concurrent draws and repayments on the in-memory repositories

Any number of draws and repayments on one line run interleaved at their awaits.
Each reads the line, appends its ledger row and writes an absolute balance. The
service does not pass the version it has read to `update`, so a balance write
can overwrite another one that landed after the read.

When every balance write finds the line at the version its call has read, the
run has the outcome of a sequential order: a call takes its place when it
writes, or when its reading makes it reject. The order is built along the run;
a call that has recorded its ledger row but not yet written holds one row more
than the order accounts for. Rows are compared call by call, which gives the
whole ledger up to order.
-/
namespace Creditra.DrawRepaySerial
open CreditModels AwaitTasks GuardedRuns CreditLineService MemoryRepositories

theorem task_eq_await (id : Uuid) (op : Operation) :
    op.task service id = .await (.findById id) fun line => match op.posting line with
      | .error e => .done (.error e)
      | .ok p => recording id p := by
  rw [Operation.task_eq]
  exact mutate_eq id op.posting

abbrev MemoryPool := Pool Action Action.Answer Failure CreditLine MemoryStore

/-- A store that no running call has touched. -/
def seed (lines : Uuid → Option CreditLine) (ledger : List Transaction) (nextId : Uuid) :
    MemoryStore :=
  ⟨lines,ledger.map fun t => (none,t),nextId,fun _ => none⟩

def start (id : Uuid) (ops : List Operation) (s : MemoryStore) : MemoryPool :=
  ⟨s,ops.map (Operation.task service id)⟩

abbrev memoryStep : MemoryPool → ℕ × Unit → MemoryPool := Pool.step exec

/-- A balance write finds the line at the version its call has read. -/
def WritesVersionRead (p : MemoryPool) (t : ℕ × Unit) : Prop :=
  match p.tasks[t.1]?.bind Task.awaited with
  | some (.update id _) =>
      (p.store.reads t.1).map currentVersion = (p.store.creditLines id).map currentVersion
  | _ => True

instance (p : MemoryPool) (t : ℕ × Unit) : Decidable (WritesVersionRead p t) := by
  unfold WritesVersionRead
  split <;> infer_instance

/-- One call after the other; the list collects those that succeeded. -/
def serialStep (id : Uuid) (ops : List Operation) (acc : MemoryStore × List ℕ) (i : ℕ) :
    MemoryStore × List ℕ :=
  match ops[i]? with
  | none => acc
  | some op =>
      let r := (op.task service id).complete exec () i acc.1
      (r.2,match r.1 with | .ok _ => acc.2 ++ [i] | .error _ => acc.2)

def serial (id : Uuid) (ops : List Operation) (order : List ℕ) (s : MemoryStore) :
    MemoryStore × List ℕ := order.foldl (serialStep id ops) (s,[])

theorem serial_snoc (id : Uuid) (ops : List Operation) (order : List ℕ) (i : ℕ)
    (s : MemoryStore) :
    serial id ops (order ++ [i]) s = serialStep id ops (serial id ops order s) i := by
  simp [serial]

/-- What the ledger says about one owner, in order. -/
def rows (k : Option ℕ) (s : MemoryStore) : List (Uuid × ℚ × TransactionType) :=
  (s.transactions.filter fun t => t.1 = k).map fun t => t.2.entry

@[simp] theorem rows_findById (k : Option ℕ) (s : MemoryStore) (i : ℕ) (id : Uuid) :
    rows k (s.findById i id).2 = rows k s := rfl

theorem rows_createTransaction (k : Option ℕ) (s : MemoryStore) (i : ℕ)
    (request : CreateTransactionRequest) :
    rows k (s.createTransaction i request).2 = rows k s ++
      if k = some i then [(request.creditLineId,request.amount,request.type)] else [] := by
  by_cases h : k = some i
  · subst h
    simp [rows,MemoryStore.createTransaction,Transaction.entry]
  · simp [rows,MemoryStore.createTransaction,h,Ne.symm h]

/-- The store after a whole mutation that found `line` and decided on `p`. -/
def posted (s : MemoryStore) (i : ℕ) (id : Uuid) (p : Posting) (line : CreditLine) :
    MemoryStore :=
  let s' := ((s.findById i id).2.createTransaction i
    { creditLineId := id, amount := p.amount, type := p.type }).2
  { s' with
    creditLines := Function.update s.creditLines id
      (some (patch { utilized := some p.utilized } line)) }

theorem complete_error {id : Uuid} {op : Operation} {s : MemoryStore} {e : Failure}
    (h : op.posting (s.creditLines id) = .error e) (i : ℕ) :
    (op.task service id).complete exec () i s = (.error e,(s.findById i id).2) := by
  rw [task_eq_await,Task.complete_await]
  simp only [exec,MemoryStore.findById,h,Task.complete_done]

theorem complete_ok {id : Uuid} {op : Operation} {s : MemoryStore} {p : Posting}
    {line : CreditLine} (hl : s.creditLines id = some line)
    (h : op.posting (some line) = .ok p) (i : ℕ) :
    (op.task service id).complete exec () i s =
      (.ok (patch { utilized := some p.utilized } line),posted s i id p line) := by
  rw [task_eq_await,Task.complete_await]
  simp only [exec,MemoryStore.findById,hl,h,recording,updating,Task.complete_await,
    MemoryStore.createTransaction,MemoryStore.update,Task.complete_done,posted]

theorem serialStep_error {id : Uuid} {ops : List Operation} {op : Operation} {e : Failure}
    {acc : MemoryStore × List ℕ} {i : ℕ} (hop : ops[i]? = some op)
    (h : op.posting (acc.1.creditLines id) = .error e) :
    serialStep id ops acc i = ((acc.1.findById i id).2,acc.2) := by
  simp [serialStep,hop,complete_error h]

theorem serialStep_ok {id : Uuid} {ops : List Operation} {op : Operation} {p : Posting}
    {line : CreditLine} {acc : MemoryStore × List ℕ} {i : ℕ} (hop : ops[i]? = some op)
    (hl : acc.1.creditLines id = some line) (h : op.posting (some line) = .ok p) :
    serialStep id ops acc i = (posted acc.1 i id p line,acc.2 ++ [i]) := by
  simp [serialStep,hop,complete_ok hl h]

@[simp] theorem rows_posted (k : Option ℕ) (s : MemoryStore) (i : ℕ) (id : Uuid) (p : Posting)
    (line : CreditLine) : rows k (posted s i id p line) = rows k s ++
      if k = some i then [(id,p.amount,p.type)] else [] :=
  rows_createTransaction k (s.findById i id).2 i _

/-- Running one call touches only its own rows. -/
theorem rows_serialStep (id : Uuid) (ops : List Operation) (acc : MemoryStore × List ℕ) (i : ℕ)
    {k : Option ℕ} (hk : k ≠ some i) :
    rows k (serialStep id ops acc i).1 = rows k acc.1 := by
  match hop : ops[i]? with
  | none => simp [serialStep,hop]
  | some op =>
      match h : op.posting (acc.1.creditLines id) with
      | .error e => rw [serialStep_error hop h,rows_findById]
      | .ok p =>
          obtain ⟨line,hl⟩ := Operation.posting_some h
          rw [hl] at h
          rw [serialStep_ok hop hl h,rows_posted,if_neg hk,List.append_nil]

theorem rows_serial {id : Uuid} {ops : List Operation} {order : List ℕ} {s : MemoryStore}
    {k : Option ℕ} (hk : ∀ i ∈ order, k ≠ some i) :
    rows k (serial id ops order s).1 = rows k s := by
  induction order using List.reverseRecOn with
  | nil => rfl
  | append_singleton order i ih =>
      rw [serial_snoc,rows_serialStep id ops _ i (hk i (by simp))]
      exact ih fun j hj => hk j (by simp [hj])

/-- A call without a place has no row in the sequential ledger. -/
theorem rows_unplaced {id : Uuid} {ops : List Operation} {order : List ℕ} {s : MemoryStore}
    {i : ℕ} (hs : rows (some i) s = []) (hi : i ∉ order) :
    rows (some i) (serial id ops order s).1 = [] := by
  rw [rows_serial,hs]
  intro j hj hij
  obtain rfl := Option.some.inj hij
  exact hi hj

/-- The calls that succeed do so in their order. -/
theorem serial_succeeded_sublist (id : Uuid) (ops : List Operation) (order : List ℕ)
    (s : MemoryStore) : (serial id ops order s).2.Sublist order := by
  induction order using List.reverseRecOn with
  | nil => exact List.Sublist.refl _
  | append_singleton order i ih =>
      rw [serial_snoc]
      unfold serialStep
      split
      · exact ih.trans (List.sublist_append_left _ _)
      · simp only
        split
        · exact ih.append (List.Sublist.refl _)
        · exact ih.trans (List.sublist_append_left _ _)

/-- The line a call has read is not newer than the stored one, and equal to it
when the versions are. -/
def ReadOf (read stored : CreditLine) : Prop :=
  currentVersion read ≤ currentVersion stored ∧
    (currentVersion read = currentVersion stored → read = stored)

/-- Where a call stands before it has taken its place in the order. -/
inductive Waiting (id : Uuid) (op : Operation) (s : MemoryStore) (i : ℕ) :
    MemoryTask CreditLine → Prop
  | fresh : rows (some i) s = [] → Waiting id op s i (op.task service id)
  | recording {read stored : CreditLine} {p : Posting} : s.reads i = some read →
      op.posting (some read) = .ok p → s.creditLines id = some stored → ReadOf read stored →
      rows (some i) s = [] → Waiting id op s i (recording id p)
  | updating {read stored : CreditLine} {p : Posting} : s.reads i = some read →
      op.posting (some read) = .ok p → s.creditLines id = some stored → ReadOf read stored →
      rows (some i) s = [(id,p.amount,p.type)] → Waiting id op s i (updating id p)

theorem Waiting.ne_done {id : Uuid} {op : Operation} {s : MemoryStore} {i : ℕ}
    {t : MemoryTask CreditLine} (h : Waiting id op s i t) (r : Except Failure CreditLine) :
    t ≠ .done r := by
  cases h with
  | fresh _ =>
      rw [task_eq_await]
      intro hd
      cases hd
  | recording => exact fun hd => by cases hd
  | updating => exact fun hd => by cases hd

/-- Another call's step changes neither what this call has read nor its rows,
and replaces the stored line by the same or a newer one. -/
theorem Waiting.frame {id : Uuid} {op : Operation} {s s' : MemoryStore} {i : ℕ}
    {t : MemoryTask CreditLine} (h : Waiting id op s i t) (hreads : s'.reads i = s.reads i)
    (hrows : rows (some i) s' = rows (some i) s)
    (hline : ∀ l, s.creditLines id = some l → ∃ l', s'.creditLines id = some l' ∧
      (l' = l ∨ currentVersion l < currentVersion l')) : Waiting id op s' i t := by
  have newer : ∀ {read stored}, s.creditLines id = some stored → ReadOf read stored →
      ∃ stored', s'.creditLines id = some stored' ∧ ReadOf read stored' := by
    intro read stored hs hr
    obtain ⟨l',hl,hv⟩ := hline stored hs
    refine ⟨l',hl,?_⟩
    rcases hv with rfl | hv
    · exact hr
    · have hlt := lt_of_le_of_lt hr.1 hv
      exact ⟨hlt.le,fun he => absurd he hlt.ne⟩
  cases h with
  | fresh hr => exact .fresh (hrows.trans hr)
  | recording hread hp hs hv hr =>
      obtain ⟨stored',hs',hv'⟩ := newer hs hv
      exact .recording (hreads.trans hread) hp hs' hv' (hrows.trans hr)
  | updating hread hp hs hv hr =>
      obtain ⟨stored',hs',hv'⟩ := newer hs hv
      exact .updating (hreads.trans hread) hp hs' hv' (hrows.trans hr)

/-- The run so far has the outcome of the calls in `order`, one after the
other; the remaining calls are waiting. -/
structure Linearized (id : Uuid) (ops : List Operation) (s : MemoryStore) (p : MemoryPool)
    (order : List ℕ) : Prop where
  nodup : order.Nodup
  size : p.tasks.length = ops.length
  lines : p.store.creditLines = (serial id ops order s).1.creditLines
  foreign : ∀ k : Option ℕ, (∀ i < ops.length, k ≠ some i) → rows k p.store = rows k s
  placed : ∀ i ∈ order, ∃ r, p.tasks[i]? = some (.done r) ∧
    ((∃ line, r = .ok line) ↔ i ∈ (serial id ops order s).2) ∧
    rows (some i) p.store = rows (some i) (serial id ops order s).1
  waiting : ∀ i op t, i ∉ order → ops[i]? = some op → p.tasks[i]? = some t →
    Waiting id op p.store i t

variable {id : Uuid} {ops : List Operation} {s : MemoryStore} {p : MemoryPool}
  {order : List ℕ}

theorem linearized_start (id : Uuid) (ops : List Operation) (lines : Uuid → Option CreditLine)
    (ledger : List Transaction) (nextId : Uuid) :
    Linearized id ops (seed lines ledger nextId) (start id ops (seed lines ledger nextId)) [] where
  nodup := List.nodup_nil
  size := List.length_map ..
  lines := rfl
  foreign _ _ := rfl
  placed _ h := by simp at h
  waiting i op t _ hop ht := by
    obtain rfl : op.task service id = t := by simpa [start,hop] using ht
    exact .fresh (by simp [rows,start,seed])

/-- A waiting call moves on and stays waiting. -/
theorem Linearized.wait (h : Linearized id ops s p order) {i : ℕ} {op : Operation}
    (hop : ops[i]? = some op) (hi : i ∉ order) {s' : MemoryStore} {t' : MemoryTask CreditLine}
    (hw : Waiting id op s' i t') (hlines : s'.creditLines = p.store.creditLines)
    (hreads : ∀ k, k ≠ i → s'.reads k = p.store.reads k)
    (hrows : ∀ k, k ≠ some i → rows k s' = rows k p.store) :
    Linearized id ops s ⟨s',p.tasks.set i t'⟩ order where
  nodup := h.nodup
  size := by simpa using h.size
  lines := hlines.trans h.lines
  foreign k hk := by
    have hlt : i < ops.length := (List.getElem?_eq_some_iff.mp hop).choose
    exact (hrows k (hk i hlt)).trans (h.foreign k hk)
  placed k hk := by
    have hki : k ≠ i := fun e => hi (e ▸ hk)
    obtain ⟨r,ht,hr,hrow⟩ := h.placed k hk
    refine ⟨r,?_,hr,(hrows _ (by simpa using hki)).trans hrow⟩
    rw [List.getElem?_set_ne hki.symm]
    exact ht
  waiting k op' t hk hop' ht := by
    rcases moved_cases ht with ⟨rfl,rfl⟩ | ⟨hki,ht⟩
    · rw [hop] at hop'
      obtain rfl := Option.some.inj hop'
      exact hw
    · exact (h.waiting k op' t hk hop' ht).frame (hreads k hki) (hrows _ (by simpa using hki))
        fun l hl => ⟨l,by rw [hlines]; exact hl,.inl rfl⟩

/-- A waiting call settles and takes the next place in the order. -/
theorem Linearized.place (h : Linearized id ops s p order) {i : ℕ} {op : Operation}
    (hop : ops[i]? = some op) (hi : i ∉ order) {s' : MemoryStore}
    {r : Except Failure CreditLine} (ht : ∃ t, p.tasks[i]? = some t)
    (hlines : s'.creditLines = (serial id ops (order ++ [i]) s).1.creditLines)
    (hresult : (∃ line, r = .ok line) ↔ i ∈ (serial id ops (order ++ [i]) s).2)
    (hkeep : ∀ k, k ≠ i → (k ∈ (serial id ops (order ++ [i]) s).2 ↔
      k ∈ (serial id ops order s).2))
    (hown : rows (some i) s' = rows (some i) (serial id ops (order ++ [i]) s).1)
    (hreads : ∀ k, k ≠ i → s'.reads k = p.store.reads k)
    (hrows : ∀ k, k ≠ some i → rows k s' = rows k p.store)
    (hline : ∀ l, p.store.creditLines id = some l → ∃ l', s'.creditLines id = some l' ∧
      (l' = l ∨ currentVersion l < currentVersion l')) :
    Linearized id ops s ⟨s',p.tasks.set i (.done r)⟩ (order ++ [i]) where
  nodup := by
    rw [List.nodup_append]
    refine ⟨h.nodup,by simp,?_⟩
    intro a ha b hb hab
    obtain rfl := List.mem_singleton.mp hb
    exact hi (hab ▸ ha)
  size := by simpa using h.size
  lines := hlines
  foreign k hk := by
    have hlt : i < ops.length := (List.getElem?_eq_some_iff.mp hop).choose
    exact (hrows k (hk i hlt)).trans (h.foreign k hk)
  placed k hk := by
    by_cases hki : k = i
    · subst hki
      obtain ⟨t,ht⟩ := ht
      exact ⟨r,moved ht _,hresult,hown⟩
    · have hko : k ∈ order := by simpa [hki] using hk
      obtain ⟨r',ht',hr,hrow⟩ := h.placed k hko
      refine ⟨r',?_,hr.trans (hkeep k hki).symm,?_⟩
      · rw [List.getElem?_set_ne (Ne.symm hki)]
        exact ht'
      · rw [serial_snoc,rows_serialStep id ops _ i (by simpa using hki),← hrow]
        exact hrows _ (by simpa using hki)
  waiting k op' t hk hop' ht' := by
    have hki : k ≠ i := by
      rintro rfl
      simp at hk
    rcases moved_cases ht' with ⟨rfl,-⟩ | ⟨-,ht'⟩
    · exact absurd rfl hki
    · have hko : k ∉ order := fun hko => hk (List.mem_append_left _ hko)
      exact (h.waiting k op' t hko hop' ht').frame (hreads k hki)
        (hrows _ (by simpa using hki)) hline

/-- The pre-flight read: the call rejects on the spot, or goes on to record. -/
theorem Linearized.step_read (h : Linearized id ops s p order)
    (hs : ∀ i, rows (some i) s = []) {i : ℕ} {op : Operation} (hop : ops[i]? = some op)
    (hi : i ∉ order) (ht : p.tasks[i]? = some (op.task service id))
    (hr : rows (some i) p.store = []) :
    ∃ order', Linearized id ops s (memoryStep p (i,())) order' := by
  have hreads : ∀ k, k ≠ i → (p.store.findById i id).2.reads k = p.store.reads k :=
    fun k hk => Function.update_of_ne hk _ _
  have ht' := ht
  rw [task_eq_await] at ht'
  unfold memoryStep
  rw [Pool.step_await ht']
  simp only [exec]
  match hp : op.posting (p.store.findById i id).1 with
  | .error e =>
      have hser : serial id ops (order ++ [i]) s =
          (((serial id ops order s).1.findById i id).2,(serial id ops order s).2) := by
        rw [serial_snoc,serialStep_error hop (by rw [← h.lines]; exact hp)]
      have hout : i ∉ (serial id ops order s).2 := fun hmem =>
        hi ((serial_succeeded_sublist id ops order s).subset hmem)
      refine ⟨order ++ [i],h.place hop hi ⟨_,ht⟩ ?_ ?_ ?_ ?_ hreads (fun _ _ => rfl)
        fun l hl => ⟨l,hl,.inl rfl⟩⟩
      · rw [hser]
        exact h.lines
      · simp [hser,hout]
      · simp [hser]
      · rw [hser,rows_findById,rows_findById,hr,rows_unplaced (hs i) hi]
  | .ok posting =>
      obtain ⟨line,hl⟩ := Operation.posting_some hp
      rw [hl] at hp
      refine ⟨order,h.wait hop hi ?_ rfl hreads fun _ _ => rfl⟩
      exact .recording (by simpa [MemoryStore.findById] using hl) hp hl
        ⟨le_rfl,fun _ => rfl⟩ hr

/-- The ledger row: the call stays waiting, now with one row of its own. -/
theorem Linearized.step_record (h : Linearized id ops s p order) {i : ℕ} {op : Operation}
    (hop : ops[i]? = some op) (hi : i ∉ order) {read stored : CreditLine} {posting : Posting}
    (hread : p.store.reads i = some read) (hp : op.posting (some read) = .ok posting)
    (hl : p.store.creditLines id = some stored) (hv : ReadOf read stored)
    (hr : rows (some i) p.store = []) (ht : p.tasks[i]? = some (recording id posting)) :
    ∃ order', Linearized id ops s (memoryStep p (i,())) order' := by
  unfold memoryStep
  rw [Pool.step_await ht]
  refine ⟨order,h.wait hop hi ?_ rfl (fun _ _ => rfl) fun k hk => ?_⟩
  · refine .updating hread hp hl hv ?_
    simp only [exec,rows_createTransaction,hr,if_pos,List.nil_append]
  · simp only [exec,rows_createTransaction,if_neg hk,List.append_nil]

/-- The balance write, with the line as the call has read it: the call takes
the next place. -/
theorem Linearized.step_update (h : Linearized id ops s p order)
    (hs : ∀ i, rows (some i) s = []) {i : ℕ} {op : Operation} (hop : ops[i]? = some op)
    (hi : i ∉ order) {read : CreditLine} {posting : Posting}
    (hp : op.posting (some read) = .ok posting) (hl : p.store.creditLines id = some read)
    (hr : rows (some i) p.store = [(id,posting.amount,posting.type)])
    (ht : p.tasks[i]? = some (updating id posting)) :
    ∃ order', Linearized id ops s (memoryStep p (i,())) order' := by
  unfold memoryStep
  rw [Pool.step_await ht]
  simp only [exec,update_utilized hl]
  have hser : serial id ops (order ++ [i]) s =
      (posted (serial id ops order s).1 i id posting read,(serial id ops order s).2 ++ [i]) := by
    rw [serial_snoc,serialStep_ok hop (by rw [← h.lines]; exact hl) hp]
  refine ⟨order ++ [i],h.place hop hi ⟨_,ht⟩ ?_ ?_ ?_ ?_ (fun _ _ => rfl) (fun _ _ => rfl) ?_⟩
  · rw [hser]
    simp only [posted,h.lines]
  · simp [hser]
  · intro k hk
    simp [hser,hk]
  · rw [hser,rows_posted,if_pos rfl,rows_unplaced (hs i) hi,List.nil_append]
    exact hr
  · intro l hl'
    rw [hl] at hl'
    obtain rfl := Option.some.inj hl'
    refine ⟨_,Function.update_self ..,.inr ?_⟩
    simp [currentVersion]

/-- A step that meets the guard extends the order or leaves it. -/
theorem linearized_step (hs : ∀ i, rows (some i) s = []) (h : Linearized id ops s p order)
    (t : ℕ × Unit) (hg : WritesVersionRead p t) :
    ∃ order', Linearized id ops s (memoryStep p t) order' := by
  obtain ⟨i,w⟩ := t
  by_cases hi : i ∈ order
  · obtain ⟨r,ht,-⟩ := h.placed i hi
    refine ⟨order,?_⟩
    unfold memoryStep
    rw [Pool.step_settled ht]
    exact h
  · match ht : p.tasks[i]? with
    | none =>
        refine ⟨order,?_⟩
        unfold memoryStep
        rw [Pool.step_absent ht]
        exact h
    | some t =>
        have hlt : i < ops.length := h.size ▸ (List.getElem?_eq_some_iff.mp ht).choose
        have hop : ops[i]? = some ops[i] := List.getElem?_eq_getElem hlt
        have hwait := h.waiting i _ t hi hop ht
        cases hwait with
        | fresh hr => exact h.step_read hs hop hi ht hr
        | recording hread hp hl hv hr => exact h.step_record hop hi hread hp hl hv hr ht
        | @updating read stored posting hread hp hl hv hr =>
            have hver : currentVersion read = currentVersion stored := by
              simpa [WritesVersionRead,ht,updating,hread,hl] using hg
            obtain rfl := hv.2 hver
            exact h.step_update hs hop hi hp hl hr ht

theorem linearized_run {lines : Uuid → Option CreditLine} {ledger : List Transaction}
    {nextId : Uuid} {schedule passed : List (ℕ × Unit)}
    (hg : Guarded memoryStep WritesVersionRead (start id ops (seed lines ledger nextId)) schedule)
    (hp : passed <+: schedule) :
    ∃ order, Linearized id ops (seed lines ledger nextId)
      (run memoryStep (start id ops (seed lines ledger nextId)) passed) order := by
  have hs : ∀ i, rows (some i) (seed lines ledger nextId) = [] := by
    intro i
    simp [rows,seed]
  refine run_invariant_passed (I := fun p => ∃ order, Linearized id ops _ p order)
    (fun p t h hg => ?_) ⟨[],linearized_start id ops lines ledger nextId⟩ hg hp
  obtain ⟨order,h⟩ := h
  exact linearized_step hs h t hg

def entries (s : MemoryStore) : List (Uuid × ℚ × TransactionType) :=
  s.transactions.map fun t => t.2.entry

/-- Counting one owner's entries in the tagged list and in the owner's part. -/
theorem count_filter_owner {κ β : Type} [DecidableEq κ] [DecidableEq β] (l : List (κ × β))
    (k : κ) (b : β) :
    l.count (k,b) = ((l.filter fun t => t.1 = k).map Prod.snd).count b := by
  induction l with
  | nil => rfl
  | cons t l ih =>
      obtain ⟨k',b'⟩ := t
      by_cases hk : k' = k
      · subst hk
        by_cases hb : b' = b
        · subst hb
          simp [ih]
        · simp [hb,ih]
      · have hne : (k',b') ≠ (k,b) := fun h => hk (congrArg Prod.fst h)
        simp [hk,hne,ih]

/-- Tagged lists that agree owner by owner agree up to order. -/
theorem perm_of_filter_owner {κ β : Type} [DecidableEq κ] [DecidableEq β] {l l' : List (κ × β)}
    (h : ∀ k, (l.filter fun t => t.1 = k).map Prod.snd =
      (l'.filter fun t => t.1 = k).map Prod.snd) : l.Perm l' := by
  rw [List.perm_iff_count]
  rintro ⟨k,b⟩
  rw [count_filter_owner,count_filter_owner,h k]

theorem entries_perm {s s' : MemoryStore} (h : ∀ k, rows k s = rows k s') :
    (entries s).Perm (entries s') := by
  have hperm : (s.transactions.map fun t => (t.1,t.2.entry)).Perm
      (s'.transactions.map fun t => (t.1,t.2.entry)) := by
    apply perm_of_filter_owner
    intro k
    simpa [rows,List.filter_map,Function.comp_def] using h k
  simpa [entries,Function.comp_def] using hperm.map Prod.snd

theorem Linearized.resolved_iff (h : Linearized id ops s p order) (i : ℕ) :
    p.Resolved i ↔ i ∈ (serial id ops order s).2 := by
  unfold Pool.Resolved
  simp only [Pool.result_eq_some]
  by_cases hi : i ∈ order
  · obtain ⟨r,ht,hr,-⟩ := h.placed i hi
    rw [← hr,ht]
    simp
  · have hout : i ∉ (serial id ops order s).2 := fun hmem =>
      hi ((serial_succeeded_sublist id ops order s).subset hmem)
    refine ⟨?_,fun hmem => absurd hmem hout⟩
    rintro ⟨line,ht⟩
    have hlt : i < ops.length := h.size ▸ (List.getElem?_eq_some_iff.mp ht).choose
    exact absurd rfl ((h.waiting i _ _ hi (List.getElem?_eq_getElem hlt) ht).ne_done _)

def succeeded (p : MemoryPool) (i : ℕ) : Bool :=
  match p.result i with
  | some (.ok _) => true
  | _ => false

theorem succeeded_iff (p : MemoryPool) (i : ℕ) : succeeded p i = true ↔ p.Resolved i := by
  unfold succeeded Pool.Resolved
  match p.result i with
  | none => simp
  | some (.ok line) => simp
  | some (.error e) => simp

def amountOf : Operation → Option ℚ
  | .draw _ amount => amount
  | .repay _ amount => amount

/-- The amount asked for by the call at `i`. -/
def amountAt (ops : List Operation) (i : ℕ) : ℚ := (ops[i]?.bind amountOf).getD 0

/-- The sum of the amounts of the calls that have succeeded so far. -/
def drawn (ops : List Operation) (p : MemoryPool) : ℚ :=
  (((List.range ops.length).filter (succeeded p)).map (amountAt ops)).sum

def OnlyDraws (ops : List Operation) : Prop := ∀ op ∈ ops, ∃ b a, op = .draw b a

/-- Sequential draws add up, and never past the limit. -/
theorem serial_draws (hd : OnlyDraws ops) {line : CreditLine}
    (hl : s.creditLines id = some line) (order : List ℕ) :
    ∃ line', (serial id ops order s).1.creditLines id = some line' ∧
      line'.creditLimit = line.creditLimit ∧
      line'.utilized = line.utilized + ((serial id ops order s).2.map (amountAt ops)).sum ∧
      ((serial id ops order s).2.map (amountAt ops)).sum ≤
        max 0 (line.creditLimit - line.utilized) := by
  induction order using List.reverseRecOn with
  | nil => exact ⟨line,hl,rfl,by simp [serial],by simp [serial]⟩
  | append_singleton order i ih =>
      obtain ⟨line',hl',hlim,hu,hsum⟩ := ih
      rw [serial_snoc]
      match hop : ops[i]? with
      | none =>
          simp only [serialStep,hop]
          exact ⟨line',hl',hlim,hu,hsum⟩
      | some op =>
          obtain ⟨b,a,rfl⟩ := hd op (List.mem_of_getElem? hop)
          match hp : (Operation.draw b a).posting (some line') with
          | .error e =>
              rw [serialStep_error hop (by rw [hl']; exact hp)]
              exact ⟨line',hl',hlim,hu,hsum⟩
          | .ok posting =>
              rw [serialStep_ok hop hl' hp]
              have hdraw : drawPosting b a (some line') = .ok posting := hp
              obtain ⟨l,amount,hsome,ha,-,-,-,hle,hposting⟩ := drawPosting_eq_ok hdraw
              obtain rfl := Option.some.inj hsome
              have hat : amountAt ops i = amount := by simp [amountAt,hop,amountOf,ha]
              refine ⟨_,Function.update_self ..,hlim,?_,?_⟩
              · simp only [patch_utilized,hposting,hu,List.map_append,List.map_cons,
                  List.map_nil,List.sum_append,List.sum_cons,List.sum_nil,hat]
                ring
              · simp only [List.map_append,List.map_cons,List.map_nil,List.sum_append,
                  List.sum_cons,List.sum_nil,hat,add_zero]
                apply le_max_of_le_right
                linarith

/-- The successful calls of the run are those of the order. -/
theorem Linearized.drawn_eq (h : Linearized id ops s p order) :
    drawn ops p = ((serial id ops order s).2.map (amountAt ops)).sum := by
  have hsub := serial_succeeded_sublist id ops order s
  have hperm : ((List.range ops.length).filter (succeeded p)).Perm
      (serial id ops order s).2 := by
    rw [List.perm_ext_iff_of_nodup (List.nodup_range.filter _) (hsub.nodup h.nodup)]
    intro i
    rw [List.mem_filter,succeeded_iff,h.resolved_iff,List.mem_range]
    refine ⟨fun hi => hi.2,fun hi => ⟨?_,hi⟩⟩
    obtain ⟨r,ht,-⟩ := h.placed i (hsub.subset hi)
    exact h.size ▸ (List.getElem?_eq_some_iff.mp ht).choose
  exact (hperm.map _).sum_eq

/-- Once every call has settled, every call has its place. -/
theorem Linearized.order_perm (h : Linearized id ops s p order) (hp : p.Settled) :
    order.Perm (List.range ops.length) := by
  rw [List.perm_ext_iff_of_nodup h.nodup List.nodup_range]
  intro i
  rw [List.mem_range]
  constructor
  · intro hi
    obtain ⟨r,ht,-⟩ := h.placed i hi
    exact h.size ▸ (List.getElem?_eq_some_iff.mp ht).choose
  · intro hlt
    by_contra hi
    obtain ⟨t,ht⟩ : ∃ t, p.tasks[i]? = some t :=
      ⟨_,List.getElem?_eq_getElem (h.size ▸ hlt)⟩
    obtain ⟨r,hr⟩ := hp.done (List.mem_of_getElem? ht)
    exact (h.waiting i _ t hi (List.getElem?_eq_getElem hlt) ht).ne_done r hr

/-- A settled run has the outcome of some sequential order of its calls. -/
def Serializable (id : Uuid) (ops : List Operation) (s : MemoryStore) (p : MemoryPool) : Prop :=
  ∃ order : List ℕ, order.Perm (List.range ops.length) ∧
    (p.store.creditLines id).map (·.utilized) =
      ((serial id ops order s).1.creditLines id).map (·.utilized) ∧
    (entries p.store).Perm (entries (serial id ops order s).1) ∧
    ∀ i, p.Resolved i ↔ i ∈ (serial id ops order s).2

/-- With only draws running, no successful draw is lost and together they stay
within what the limit left open at the start. -/
def DrawsAddUp (id : Uuid) (ops : List Operation) (s : MemoryStore) (p : MemoryPool) : Prop :=
  OnlyDraws ops → ∀ line, s.creditLines id = some line →
    (p.store.creditLines id).map (·.utilized) = some (line.utilized + drawn ops p) ∧
    drawn ops p ≤ max 0 (line.creditLimit - line.utilized)

theorem Linearized.serializable (h : Linearized id ops s p order) (hp : p.Settled) :
    Serializable id ops s p := by
  have hperm := h.order_perm hp
  refine ⟨order,hperm,by rw [h.lines],entries_perm fun k => ?_,h.resolved_iff⟩
  by_cases hk : ∃ i ∈ order, k = some i
  · obtain ⟨i,hi,rfl⟩ := hk
    obtain ⟨r,-,-,hr⟩ := h.placed i hi
    exact hr
  · have hout : ∀ i ∈ order, k ≠ some i := fun i hi hki => hk ⟨i,hi,hki⟩
    rw [rows_serial hout]
    exact h.foreign k fun i hi => hout i (hperm.mem_iff.mpr (List.mem_range.mpr hi))

theorem Linearized.drawsAddUp (h : Linearized id ops s p order) : DrawsAddUp id ops s p := by
  intro hd line hl
  obtain ⟨line',hl',-,hu,hsum⟩ := serial_draws hd hl order
  rw [h.lines,hl',h.drawn_eq]
  exact ⟨by simp [hu],hsum⟩

/-- In every run whose balance writes find the version their call has read:
settled, the run is one of the sequential orders; and with only draws running,
at every state passed through, the successful draws add up within the limit. -/
theorem serializable_of_writes_version_read (id : Uuid) (ops : List Operation)
    (lines : Uuid → Option CreditLine) (ledger : List Transaction) (nextId : Uuid)
    (schedule : List (ℕ × Unit))
    (hg : Guarded memoryStep WritesVersionRead (start id ops (seed lines ledger nextId))
      schedule) :
    ((run memoryStep (start id ops (seed lines ledger nextId)) schedule).Settled →
      Serializable id ops (seed lines ledger nextId)
        (run memoryStep (start id ops (seed lines ledger nextId)) schedule)) ∧
    ∀ passed, passed <+: schedule → DrawsAddUp id ops (seed lines ledger nextId)
      (run memoryStep (start id ops (seed lines ledger nextId)) passed) := by
  constructor
  · intro hp
    obtain ⟨order,h⟩ := linearized_run hg (List.prefix_refl schedule)
    exact h.serializable hp
  · intro passed hpre
    obtain ⟨order,h⟩ := linearized_run hg hpre
    exact h.drawsAddUp

/-- An untouched active line 1 of `GA` with a limit of 100. -/
def openLine : Uuid → Option CreditLine :=
  Function.update (fun _ => none) 1 (some ⟨1,"GA",100,100,0,500,.active,some 1⟩)

/-- The second draw reads after the first has written: it is refused, and the
run is the sequential one. -/
theorem serializable_of_writes_version_read_two_draws :
    Guarded memoryStep WritesVersionRead
        (start 1 [.draw "GA" (some 60),.draw "GA" (some 50)] (seed openLine [] 2))
        [(0,()),(0,()),(0,()),(1,())] ∧
      Serializable 1 [.draw "GA" (some 60),.draw "GA" (some 50)] (seed openLine [] 2)
        (run memoryStep
          (start 1 [.draw "GA" (some 60),.draw "GA" (some 50)] (seed openLine [] 2))
          [(0,()),(0,()),(0,()),(1,())]) := by
  have hg : Guarded memoryStep WritesVersionRead
      (start 1 [.draw "GA" (some 60),.draw "GA" (some 50)] (seed openLine [] 2))
      [(0,()),(0,()),(0,()),(1,())] := by decide +kernel
  exact ⟨hg,(serializable_of_writes_version_read 1 _ openLine [] 2 _ hg).1 (by decide +kernel)⟩

/-- Both draws read the untouched line before either writes: both succeed, 110
is drawn on a limit of 100, and no sequential order lets both through. -/
theorem two_draws_exceed_the_limit :
    (run memoryStep (start 1 [.draw "GA" (some 60),.draw "GA" (some 50)] (seed openLine [] 2))
        [(0,()),(1,()),(0,()),(1,()),(0,()),(1,())]).Settled ∧
      ¬ Serializable 1 [.draw "GA" (some 60),.draw "GA" (some 50)] (seed openLine [] 2)
        (run memoryStep
          (start 1 [.draw "GA" (some 60),.draw "GA" (some 50)] (seed openLine [] 2))
          [(0,()),(1,()),(0,()),(1,()),(0,()),(1,())]) ∧
      ¬ DrawsAddUp 1 [.draw "GA" (some 60),.draw "GA" (some 50)] (seed openLine [] 2)
        (run memoryStep
          (start 1 [.draw "GA" (some 60),.draw "GA" (some 50)] (seed openLine [] 2))
          [(0,()),(1,()),(0,()),(1,()),(0,()),(1,())]) := by
  refine ⟨by decide +kernel,?_,?_⟩
  · rintro ⟨order,hperm,-,-,hres⟩
    have hnone : ∀ o ∈ [[0,1],[1,0]],
        ¬ (0 ∈ (serial 1 [.draw "GA" (some 60),.draw "GA" (some 50)] o (seed openLine [] 2)).2 ∧
          1 ∈ (serial 1 [.draw "GA" (some 60),.draw "GA" (some 50)] o
            (seed openLine [] 2)).2) := by decide +kernel
    have horder : order ∈ [[0,1],[1,0]] := by
      obtain ⟨a,b,rfl⟩ := List.length_eq_two.mp hperm.length_eq
      have ha : a ∈ List.range 2 := hperm.subset (by simp)
      have hb : b ∈ List.range 2 := hperm.subset (by simp)
      have hab : a ≠ b := by simpa using hperm.nodup_iff.mpr List.nodup_range
      simp only [List.mem_range] at ha hb
      have hcases : a = 0 ∧ b = 1 ∨ a = 1 ∧ b = 0 := by omega
      rcases hcases with ⟨rfl,rfl⟩ | ⟨rfl,rfl⟩ <;> simp
    refine hnone order horder ⟨(hres 0).mp ?_,(hres 1).mp ?_⟩
    · rw [← succeeded_iff]
      decide +kernel
    · rw [← succeeded_iff]
      decide +kernel
  · intro h
    have hsum := (h (by simp [OnlyDraws]) ⟨1,"GA",100,100,0,500,.active,some 1⟩
      (by decide +kernel)).2
    revert hsum
    decide +kernel

end Creditra.DrawRepaySerial
