import Creditra.SuspendedDraws

/-!
# Histories of credit lines

The functional module keeps the history of a line twice: as the events of the line
and as its status changes in the transaction store. Creating, suspending and closing
are written here statement by statement, so that what was written before a `throw`
stays. A line that is created again starts its events anew, while its transactions go
on; otherwise both histories are the same, and a closed line stays closed.
-/
namespace Creditra.LineHistories
open GuardedRuns InsertionMaps SuspendedDraws.Functional

/-! ## The operations -/

/-- Statements on the two stores. -/
abbrev Script : Type → Type := ExceptT Refusal (StateM Module)

/-- An assignment to fields of the line that the map holds. -/
def assign (id : String) (f : CreditLine → CreditLine) : Script Unit :=
  modify fun m => match m.store.get id with
    | none => m
    | some line => { m with store := m.store.set id (f line) }

/-- The assignments and the record that suspending and closing end with. -/
def change (id : String) (status : Status) (action : Action) (now : ℤ) : Script Unit := do
  assign id fun line => { line with status }
  assign id fun line => { line with updatedAt := now }
  assign id fun line => { line with events := line.events ++ [(action,now)] }
  modify fun m => recordTransaction m id action now

inductive Call where
  | create (id : String) (status : Status) (now : ℤ)
  | suspend (id : String) (now : ℤ)
  | close (id : String) (now : ℤ)

namespace Call

def script : Call → Script Unit
  | create id status now => do
      let line : CreditLine := ⟨id,status,now,now,[(.created,now)]⟩
      modify fun m => { m with store := m.store.set id line }
      modify fun m => recordTransaction m id .created now
  | suspend id now => do
      match (← get).store.get id with
      | none => throw (.notFound id)
      | some line =>
          if line.status ≠ .active then throw (.invalidTransition line.status "suspend")
          change id .suspended .suspended now
  | close id now => do
      match (← get).store.get id with
      | none => throw (.notFound id)
      | some line =>
          if line.status = .closed then throw (.invalidTransition line.status "close")
          change id .closed .closed now

/-- The outcome, and the stores as they are left. -/
def outcome (m : Module) (call : Call) : Except Refusal Unit × Module := call.script.run.run m

/-- What the functional module answers and keeps. -/
def answer (m : Module) : Call → Except Refusal (CreditLine × Module)
  | create id status now => .ok (createCreditLine m id status now)
  | suspend id now => suspendCreditLine m id now
  | close id now => closeCreditLine m id now

def Throws (m : Module) (call : Call) : Prop := ∃ e, (call.outcome m).1 = .error e

def createdId : Call → Option String
  | create id _ _ => some id
  | _ => none

/-- The status passed to a creation of the line. -/
def statusFor (id : String) : Call → Option Status
  | create id' status _ => if id' = id then some status else none
  | _ => none

end Call

def step (m : Module) (call : Call) : Module := (call.outcome m).2

/-- The stores after some calls on a fresh module. -/
def after (calls : List Call) : Module := run step {} calls

/-! ## What a call writes -/

/-- A line and the record of its change. -/
def written (m : Module) (id : String) (line : CreditLine) (action : Action) (now : ℤ) : Module :=
  recordTransaction { m with store := m.store.set id line } id action now

theorem assign_of_get {m : Module} {id : String} {line : CreditLine} (h : m.store.get id = some line)
    (f : CreditLine → CreditLine) :
    (assign id f).run.run m = (.ok (),{ m with store := m.store.set id (f line) }) := by
  have hm : (assign id f).run.run m = (.ok (),match m.store.get id with
      | none => m
      | some line => { m with store := m.store.set id (f line) }) := rfl
  rw [hm,h]

/-- A statement that succeeds hands its stores on. -/
theorem run_bind {α β : Type} {x : Script α} {f : α → Script β} {m m' : Module} {a : α}
    (h : x.run.run m = (.ok a,m')) : (x >>= f).run.run m = (f a).run.run m' := by
  rw [ExceptT.run_bind,StateT.run_bind,h]
  rfl

theorem run_change {m : Module} {id : String} {line : CreditLine} (h : m.store.get id = some line)
    (status : Status) (action : Action) (now : ℤ) :
    (change id status action now).run.run m = (.ok (),(changed m id line status action now).2) := by
  unfold change
  rw [run_bind (assign_of_get h _),run_bind (assign_of_get (InsertionMap.get_set_self _ _ _) _),
    run_bind (assign_of_get (InsertionMap.get_set_self _ _ _) _)]
  change (Except.ok (),recordTransaction _ id action now) = _
  simp only [InsertionMap.set_set]
  rfl

/-- The statements do what the functional module does at once, and nothing if it
refuses. -/
theorem outcome_eq (m : Module) (call : Call) :
    call.outcome m = match call.answer m with
      | .ok (_,m') => (.ok (),m')
      | .error e => (.error e,m) := by
  cases call with
  | create id status now => rfl
  | suspend id now =>
      simp only [Call.outcome,Call.script,Call.answer,suspendCreditLine]
      rw [@run_bind _ _ get _ m m m rfl]
      cases hline : m.store.get id with
      | none => rfl
      | some line =>
          dsimp only
          split_ifs
          · rfl
          · exact run_change hline _ _ _
  | close id now =>
      simp only [Call.outcome,Call.script,Call.answer,closeCreditLine]
      rw [@run_bind _ _ get _ m m m rfl]
      cases hline : m.store.get id with
      | none => rfl
      | some line =>
          dsimp only
          split_ifs
          · rfl
          · exact run_change hline _ _ _

theorem step_of_throws {m : Module} {call : Call} (h : call.Throws m) : step m call = m := by
  obtain ⟨e,he⟩ := h
  rw [outcome_eq] at he
  rw [step,outcome_eq]
  cases hanswer : call.answer m with
  | ok result =>
      rw [hanswer] at he
      cases he
  | error e => rfl

/-- The status an event stands for, that of a creation being given. -/
def statusOf (created : Status) : Action → Status
  | .created => created
  | .suspended => .suspended
  | .closed => .closed

/-- Everything a call can do. -/
inductive Stepped (m : Module) (call : Call) : Module → Prop
  | created (id : String) (status : Status) (now : ℤ) (hcall : call = .create id status now) :
      Stepped m call (written m id ⟨id,status,now,now,[(.created,now)]⟩ .created now)
  | changed (id : String) (line : CreditLine) (status : Status) (action : Action) (now : ℤ)
      (hcall : call.createdId = none) (hline : m.store.get id = some line)
      (hopen : line.status ≠ .closed) (haction : ∀ created, statusOf created action = status) :
      Stepped m call (written m id
        { line with status, updatedAt := now, events := line.events ++ [(action,now)] } action now)
  | refused (hcall : call.createdId = none) : Stepped m call m

theorem stepped (m : Module) (call : Call) : Stepped m call (step m call) := by
  rw [step,outcome_eq]
  cases call with
  | create id status now => exact .created id status now rfl
  | suspend id now =>
      simp only [Call.answer,suspendCreditLine]
      cases hline : m.store.get id with
      | none => exact .refused rfl
      | some line =>
          dsimp only
          split_ifs with hactive
          · exact .refused rfl
          · refine .changed id line .suspended .suspended now rfl hline ?_ fun _ => rfl
            intro hclosed
            rw [not_not,hclosed] at hactive
            cases hactive
  | close id now =>
      simp only [Call.answer,closeCreditLine]
      cases hline : m.store.get id with
      | none => exact .refused rfl
      | some line =>
          dsimp only
          split_ifs with hclosed
          · exact .refused rfl
          · exact .changed id line .closed .closed now rfl hline hclosed fun _ => rfl

section Written
variable (m : Module) (id : String) (line : CreditLine) (action : Action) (now : ℤ)

/-- The status changes recorded for a line. -/
def transactions (m : Module) (id : String) : List (Action × ℤ) :=
  (m.transactionStore.get id).getD []

@[simp] theorem store_written :
    (written m id line action now).store = m.store.set id line := rfl

@[simp] theorem transactions_written_self :
    transactions (written m id line action now) id = transactions m id ++ [(action,now)] := by
  simp [transactions,written,recordTransaction]

theorem transactions_written_of_ne {id' : String} (h : id' ≠ id) :
    transactions (written m id line action now) id' = transactions m id' := by
  simp [transactions,written,recordTransaction,InsertionMap.get_set_of_ne _ h]

/-- A line after a write is the one written, or another one as it was. -/
theorem get_written {id' : String} {line' : CreditLine}
    (h : (written m id line action now).store.get id' = some line') :
    id' = id ∧ line' = line ∨ id' ≠ id ∧ m.store.get id' = some line' := by
  rw [store_written] at h
  exact InsertionMap.get_set_cases h

end Written

/-! ## Runs -/

/-- The status passed to the last creation of a line. -/
def createdStatus (calls : List Call) (id : String) : Option Status :=
  (calls.filterMap (Call.statusFor id)).getLast?

/-- Both histories of each line agree, and its status is that of its last event. -/
structure Agrees (calls : List Call) (m : Module) : Prop where
  histories : ∀ id line, m.store.get id = some line → line.events = transactions m id
  statuses : ∀ id line, m.store.get id = some line → ∃ action time created,
    line.events.getLast? = some (action,time) ∧ createdStatus calls id = some created ∧
      line.status = statusOf created action

def Closed (m : Module) (id : String) : Prop :=
  ∃ line, m.store.get id = some line ∧ line.status = .closed

/-- The line is there, and its events begin with these. -/
def Recorded (m : Module) (id : String) (events : List (Action × ℤ)) : Prop :=
  ∃ line, m.store.get id = some line ∧ events <+: line.events

/-- Along the calls the histories agree and only grow, closed lines stay closed, and a
call that throws changes nothing. -/
structure HistoryKept (calls : List Call) : Prop where
  agrees : ∀ pre, pre <+: calls → Agrees pre (after pre)
  grows : ∀ pre pre', pre <+: pre' → pre' <+: calls → ∀ id line,
    (after pre).store.get id = some line → Recorded (after pre') id line.events
  closed : ∀ pre pre', pre <+: pre' → pre' <+: calls → ∀ id, Closed (after pre) id →
    Closed (after pre') id
  throws : ∀ pre call, pre ++ [call] <+: calls → call.Throws (after pre) →
    after (pre ++ [call]) = after pre

def createdIds (calls : List Call) : List String := calls.filterMap Call.createdId

theorem after_append (calls : List Call) (call : Call) :
    after (calls ++ [call]) = step (after calls) call := by
  rw [after,run_append]
  rfl

theorem createdIds_append (calls calls' : List Call) :
    createdIds (calls ++ calls') = createdIds calls ++ createdIds calls' :=
  List.filterMap_append

theorem createdIds_snoc_of_none {call : Call} (h : call.createdId = none) (calls : List Call) :
    createdIds (calls ++ [call]) = createdIds calls := by
  rw [createdIds_append,createdIds,createdIds,List.filterMap_cons_none h,List.filterMap_nil,
    List.append_nil]

theorem createdStatus_snoc_of_none {call : Call} {id : String} (h : call.statusFor id = none)
    (calls : List Call) : createdStatus (calls ++ [call]) id = createdStatus calls id := by
  rw [createdStatus,List.filterMap_append,List.filterMap_cons_none h,List.filterMap_nil,
    List.append_nil]
  rfl

theorem statusFor_of_createdId {call : Call} (h : call.createdId = none) (id : String) :
    call.statusFor id = none := by
  cases call with
  | create id' status now => cases h
  | suspend id' now => rfl
  | close id' now => rfl

/-- The lines of a run are those created in it, and each has an event. -/
theorem lines_of_run (calls : List Call) :
    (∀ id, id ∈ createdIds calls ↔ ∃ line, (after calls).store.get id = some line) ∧
      ∀ id line, (after calls).store.get id = some line → line.events ≠ [] := by
  induction calls using List.reverseRecOn with
  | nil =>
      constructor
      · intro id
        constructor
        · intro h
          cases h
        · intro h
          obtain ⟨line,hline⟩ := h
          cases hline
      · intro id line hline
        cases hline
  | append_singleton calls call ih =>
      obtain ⟨hids,hevents⟩ := ih
      rw [after_append]
      have hstep := stepped (after calls) call
      generalize step (after calls) call = m at hstep ⊢
      cases hstep with
      | created id status now hcall =>
          subst hcall
          constructor
          · intro id'
            rw [createdIds_append,List.mem_append,hids,store_written]
            by_cases hid : id' = id
            · subst hid
              simp [createdIds,Call.createdId]
            · rw [InsertionMap.get_set_of_ne _ hid]
              simp [createdIds,Call.createdId,hid]
          · intro id' line hline
            rcases get_written _ _ _ _ _ hline with ⟨-,rfl⟩ | ⟨-,hold⟩
            · exact List.cons_ne_nil _ _
            · exact hevents id' line hold
      | changed id line status action now hcall hline hopen haction =>
          constructor
          · intro id'
            rw [createdIds_snoc_of_none hcall,hids,store_written]
            by_cases hid : id' = id
            · subst hid
              simp [hline]
            · rw [InsertionMap.get_set_of_ne _ hid]
          · intro id' line' hline'
            rcases get_written _ _ _ _ _ hline' with ⟨-,rfl⟩ | ⟨-,hold⟩
            · exact List.append_ne_nil_of_right_ne_nil _ (List.cons_ne_nil _ _)
            · exact hevents id' line' hold
      | refused hcall =>
          rw [createdIds_snoc_of_none hcall]
          exact ⟨hids,hevents⟩

/-- A call keeps both histories the same, unless it creates a line that is there. -/
theorem agrees_step {calls : List Call} {call : Call} (h : Agrees calls (after calls))
    (hnew : ∀ id, call.createdId = some id → id ∉ createdIds calls)
    (hnone : ∀ id, id ∉ createdIds calls → transactions (after calls) id = []) :
    Agrees (calls ++ [call]) (after (calls ++ [call])) := by
  rw [after_append]
  have hstep := stepped (after calls) call
  generalize step (after calls) call = m at hstep ⊢
  cases hstep with
  | created id status now hcall =>
      subst hcall
      constructor
      · intro id' line hline
        rcases get_written _ _ _ _ _ hline with ⟨rfl,rfl⟩ | ⟨hid,hold⟩
        · rw [transactions_written_self,hnone id' (hnew id' rfl)]
          rfl
        · rw [transactions_written_of_ne _ _ _ _ _ hid]
          exact h.histories id' line hold
      · intro id' line hline
        rcases get_written _ _ _ _ _ hline with ⟨rfl,rfl⟩ | ⟨hid,hold⟩
        · exact ⟨.created,now,status,rfl,by simp [createdStatus,Call.statusFor],rfl⟩
        · have hother : (Call.create id status now).statusFor id' = none := if_neg (Ne.symm hid)
          rw [createdStatus_snoc_of_none hother]
          exact h.statuses id' line hold
  | changed id line status action now hcall hline hopen haction =>
      constructor
      · intro id' line' hline'
        rcases get_written _ _ _ _ _ hline' with ⟨rfl,rfl⟩ | ⟨hid,hold⟩
        · rw [transactions_written_self,h.histories id' line hline]
        · rw [transactions_written_of_ne _ _ _ _ _ hid]
          exact h.histories id' line' hold
      · intro id' line' hline'
        rw [createdStatus_snoc_of_none (statusFor_of_createdId hcall id')]
        rcases get_written _ _ _ _ _ hline' with ⟨rfl,rfl⟩ | ⟨hid,hold⟩
        · obtain ⟨-,-,created,-,hcreated,-⟩ := h.statuses id' line hline
          exact ⟨action,now,created,List.getLast?_concat,hcreated,(haction created).symm⟩
        · exact h.statuses id' line' hold
  | refused hcall =>
      refine ⟨h.histories,fun id line hline => ?_⟩
      rw [createdStatus_snoc_of_none (statusFor_of_createdId hcall id)]
      exact h.statuses id line hline

/-- Nothing is recorded for a line that was never created. -/
theorem transactions_of_not_created (calls : List Call) :
    ∀ id, id ∉ createdIds calls → transactions (after calls) id = [] := by
  induction calls using List.reverseRecOn with
  | nil =>
      intro id _
      rfl
  | append_singleton calls call ih =>
      intro id hid
      rw [createdIds_append,List.mem_append,not_or] at hid
      rw [after_append]
      have hstep := stepped (after calls) call
      generalize step (after calls) call = m at hstep ⊢
      cases hstep with
      | created id' status now hcall =>
          have hne : id ≠ id' := by
            rintro rfl
            exact hid.2 (by simp [hcall,createdIds,Call.createdId])
          rw [transactions_written_of_ne _ _ _ _ _ hne]
          exact ih id hid.1
      | changed id' line status action now hcall hline hopen haction =>
          have hne : id ≠ id' := by
            rintro rfl
            exact hid.1 (((lines_of_run calls).1 id).mpr ⟨line,hline⟩)
          rw [transactions_written_of_ne _ _ _ _ _ hne]
          exact ih id hid.1
      | refused hcall => exact ih id hid.1

/-- What holds of the line kept under an id, and is kept by the changes of an open line, holds
until the line is created again. -/
theorem stored_step {P : CreditLine → Prop} {m : Module} {call : Call} {id : String}
    (changes : ∀ line status action now, line.status ≠ .closed → P line →
      P { line with status, updatedAt := now, events := line.events ++ [(action,now)] })
    (h : ∃ line, m.store.get id = some line ∧ P line) (hcall : call.createdId ≠ some id) :
    ∃ line, (step m call).store.get id = some line ∧ P line := by
  obtain ⟨line,hline,hP⟩ := h
  have hother : ∀ {id' : String} (line' : CreditLine) (action : Action) (now : ℤ), id ≠ id' →
      ∃ line, (written m id' line' action now).store.get id = some line ∧ P line := by
    intro id' line' action now hid
    exact ⟨line,by rw [store_written,InsertionMap.get_set_of_ne _ hid,hline],hP⟩
  have hstep := stepped m call
  generalize step m call = m' at hstep ⊢
  cases hstep with
  | created id' status now hcreate =>
      refine hother _ _ _ ?_
      rintro rfl
      exact hcall (by rw [hcreate]; rfl)
  | changed id' line' status action now _ hline' hopen _ =>
      by_cases hid : id = id'
      · subst hid
        obtain rfl := Option.some.inj (hline.symm.trans hline')
        exact ⟨_,InsertionMap.get_set_self _ _ _,changes line status action now hopen hP⟩
      · exact hother _ _ _ hid
  | refused _ => exact ⟨line,hline,hP⟩

/-- A closed line stays closed until it is created again. -/
theorem closed_step {m : Module} {call : Call} {id : String} (h : Closed m id)
    (hcall : call.createdId ≠ some id) : Closed (step m call) id := by
  refine stored_step ?_ h hcall
  intro line status action now hopen hclosed
  exact absurd hclosed hopen

/-- A line keeps the events it has until it is created again. -/
theorem recorded_step {m : Module} {call : Call} {id : String} {events : List (Action × ℤ)}
    (h : Recorded m id events) (hcall : call.createdId ≠ some id) :
    Recorded (step m call) id events := by
  refine stored_step ?_ h hcall
  intro line status action now _ hevents
  exact hevents.trans (List.prefix_append line.events [(action,now)])

theorem not_mem_of_nodup_snoc {calls : List Call} {call : Call} {id : String}
    (h : (createdIds (calls ++ [call])).Nodup) (hid : call.createdId = some id) :
    id ∉ createdIds calls := by
  rw [createdIds_append,List.nodup_append] at h
  intro hmem
  refine h.2.2 id hmem id ?_ rfl
  rw [createdIds,List.filterMap_cons_some hid]
  exact List.mem_cons_self

theorem nodup_of_initial {pre calls : List Call} (h : pre <+: calls)
    (hnodup : (createdIds calls).Nodup) : (createdIds pre).Nodup := by
  obtain ⟨rest,rfl⟩ := h
  rw [createdIds_append] at hnodup
  exact (List.nodup_append.mp hnodup).1

theorem agrees_of_nodup {calls : List Call} (h : (createdIds calls).Nodup) :
    Agrees calls (after calls) := by
  induction calls using List.reverseRecOn with
  | nil =>
      constructor
      · intro id line hline
        cases hline
      · intro id line hline
        cases hline
  | append_singleton calls call ih =>
      have hagrees := ih (nodup_of_initial (List.prefix_append calls [call]) h)
      exact agrees_step hagrees (fun id hid => not_mem_of_nodup_snoc h hid)
        (transactions_of_not_created calls)

/-- What is so of a line, and stays so until the line is created again, stays so along a run in
which no line is created twice. -/
theorem kept_of_nodup {pre rest : List Call} (h : (createdIds (pre ++ rest)).Nodup) {id : String}
    {P : Module → Prop} (hline : ∀ m, P m → ∃ line, m.store.get id = some line)
    (hstep : ∀ m call, P m → call.createdId ≠ some id → P (step m call)) (hpre : P (after pre)) :
    P (after (pre ++ rest)) := by
  induction rest using List.reverseRecOn with
  | nil => rwa [List.append_nil]
  | append_singleton rest call ih =>
      rw [← List.append_assoc] at h ⊢
      have hbefore := ih (nodup_of_initial (List.prefix_append _ [call]) h)
      rw [after_append]
      refine hstep _ _ hbefore fun hid => ?_
      exact not_mem_of_nodup_snoc h hid (((lines_of_run _).1 id).mpr (hline _ hbefore))

/-- Creating a line that is there leaves one event and more than one transaction. -/
theorem not_agrees_of_recreated {calls : List Call} {id : String} {status : Status} {now : ℤ}
    (hagrees : Agrees calls (after calls)) (hid : id ∈ createdIds calls) :
    ¬ Agrees (calls ++ [.create id status now]) (after (calls ++ [.create id status now])) := by
  intro h
  obtain ⟨line,hline⟩ := ((lines_of_run calls).1 id).mp hid
  have hevents := (lines_of_run calls).2 id line hline
  rw [hagrees.histories id line hline] at hevents
  have hafter : after (calls ++ [.create id status now]) =
      written (after calls) id ⟨id,status,now,now,[(.created,now)]⟩ .created now := by
    rw [after_append]
    rfl
  have hboth := h.histories id ⟨id,status,now,now,[(.created,now)]⟩ (by
    rw [hafter,store_written,InsertionMap.get_set_self])
  rw [hafter,transactions_written_self] at hboth
  have hlength := congrArg List.length hboth
  have hpos := List.length_pos_of_ne_nil hevents
  rw [List.length_append] at hlength
  simp only [List.length_singleton] at hlength
  omega

theorem nodup_of_agrees {calls : List Call} (h : ∀ pre, pre <+: calls → Agrees pre (after pre)) :
    (createdIds calls).Nodup := by
  induction calls using List.reverseRecOn with
  | nil => exact List.nodup_nil
  | append_singleton calls call ih =>
      have hpre : calls <+: calls ++ [call] := List.prefix_append calls [call]
      have hnodup := ih fun pre hp => h pre (hp.trans hpre)
      cases call with
      | create id status now =>
          rw [createdIds_append]
          refine List.nodup_append.mpr ⟨hnodup,List.nodup_singleton id,?_⟩
          intro id' hid' id'' hid'' heq
          obtain rfl : id'' = id := List.mem_singleton.mp hid''
          subst heq
          exact not_agrees_of_recreated (h calls hpre) hid' (h _ (List.prefix_refl _))
      | suspend id now => rwa [createdIds_snoc_of_none rfl]
      | close id now => rwa [createdIds_snoc_of_none rfl]

/-- The histories are kept along a run exactly if no line is created twice in it. -/
theorem history_kept_iff (calls : List Call) : HistoryKept calls ↔ (createdIds calls).Nodup := by
  constructor
  · intro h
    exact nodup_of_agrees h.agrees
  · intro h
    refine ⟨fun pre hpre => agrees_of_nodup (nodup_of_initial hpre h),?_,?_,?_⟩
    · intro pre pre' hpre hpre' id line hline
      obtain ⟨rest,rfl⟩ := hpre
      exact kept_of_nodup (P := fun m => Recorded m id line.events) (nodup_of_initial hpre' h)
        (fun m ⟨line',hline',_⟩ => ⟨line',hline'⟩) (fun m call => recorded_step)
        ⟨line,hline,List.prefix_refl _⟩
    · intro pre pre' hpre hpre' id hclosed
      obtain ⟨rest,rfl⟩ := hpre
      exact kept_of_nodup (P := fun m => Closed m id) (nodup_of_initial hpre' h)
        (fun m ⟨line,hline,_⟩ => ⟨line,hline⟩) (fun m call => closed_step) hclosed
    · intro pre call _ hthrows
      rw [after_append]
      exact step_of_throws hthrows

/-- A closed line that is created again has one event and three transactions, and is
no longer closed. -/
theorem history_lost_by_recreation :
    ¬ HistoryKept [.create "line-1" .active 1,.close "line-1" 2,.create "line-1" .active 3] ∧
      Closed (after [.create "line-1" .active 1,.close "line-1" 2]) "line-1" ∧
      ¬ Closed (after [.create "line-1" .active 1,.close "line-1" 2,.create "line-1" .active 3])
        "line-1" := by
  refine ⟨fun h => absurd (nodup_of_agrees h.agrees) (by decide),⟨_,rfl,rfl⟩,?_⟩
  intro h
  obtain ⟨line,hline,hclosed⟩ := h
  obtain rfl := Option.some.inj hline
  cases hclosed

end Creditra.LineHistories
