/-
# SmartblocksOs.Context.InitialFrame -- a new task starts as `schedule_task` was told

The calls of `schedule_task` on the processor, cut into their steps, with anything else the program
does in between: ticks inside a call, other tasks, and what these tasks call in their turn. Each
context, a task or `main`, is in at most one call at a time; the calls are numbered as they begin.

Only the last three assignments of a call stand between `cli` and `sei`. A tick before them may hand
the processor to a task that calls `schedule_task` too, and that call may find the same slot free and
put its own task there. `Clear` says where that is about to happen. Up to there the slot a call is
filling is reserved for it (`Reserved`): nothing selects it. What the slot's stack will hold once the
assignments still to come are made is a complete frame (`FrameDue`), so the steps of the call keep it
by definition and the others need to leave 35 bytes alone. What `RESTORE_CONTEXT` makes of the
finished frame is `exec_switch`.
-/
import SmartblocksOs.Context.Switch
import SmartblocksOs.System.Calls

namespace SmartblocksOs.Context

open SmartblocksOs.Foundation SmartblocksOs.System

/-! ## The calls and their surroundings

Calls are numbered so that one can be spoken of after it has returned. Everything that is not a step of a
call is an action of `SmartblocksOs.Context.Switch`. -/

/-- A call of `schedule_task`: its arguments, where it stands, the slot it has taken, and whether a
switch has selected that slot since. -/
structure Call where
  address : BitVec 16
  args : BitVec 16
  pc : CallPc
  slot : Option Int
  started : Bool

namespace Call

/-- The call has not returned. -/
def InProgress (c : Call) : Prop :=
  match c.pc with
  | .returned _ => False
  | _ => True

instance (c : Call) : Decidable c.InProgress := by
  unfold InProgress
  split <;> infer_instance

/-- The call goes on to `pc`. It takes its slot when it comes to build the frame there. -/
def goto (c : Call) (pc : CallPc) : Call :=
  match pc with
  | .building taskNum _ => { c with pc := pc, slot := some taskNum }
  | _ => { c with pc := pc }

/-- A switch has selected context `next`. -/
def selected (c : Call) (next : Int) : Call :=
  { c with started := c.started || decide (c.slot = some next) }

end Call

/-- The calls of a run, by number, and the one each context is in. -/
structure Calls where
  /-- How many calls there have been. -/
  count : Nat
  call : Nat → Call
  active : Int → Option Nat

namespace Calls

/-- Nothing has been called yet. -/
def empty : Calls where
  count := 0
  call _ := { address := 0, args := 0, pc := .returned (-1), slot := none, started := false }
  active _ := none

/-- Context `c` calls `schedule_task`. -/
def enter (w : Calls) (c : Int) (address args : BitVec 16) : Calls where
  count := w.count + 1
  call := Function.update w.call w.count
    { address := address, args := args, pc := .test, slot := none, started := false }
  active := Function.update w.active c (some w.count)

/-- Call `k` of context `c` goes on to `pc`. When it returns the context is through with it, and the
task that is in its slot from now on is in no call. -/
def goto (w : Calls) (c : Int) (k : Nat) (pc : CallPc) : Calls where
  count := w.count
  call := Function.update w.call k ((w.call k).goto pc)
  active d :=
    if pc.result?.isSome ∧ (d = c ∨ (w.call k).slot = some d) then none else w.active d

/-- A switch has selected context `next`. -/
def selected (w : Calls) (next : Int) : Calls :=
  { w with call := fun k => (w.call k).selected next }

end Calls

/-- What can happen while calls of `schedule_task` are under way. -/
inductive CallEvent where
  /-- The running context calls `schedule_task`. -/
  | enter (address args : BitVec 16)
  /-- The next step of the call the running context is in. -/
  | advance
  /-- The code that is running, or a tick. -/
  | cpu (a : Action)

/-- The event is the next step of call `k`. -/
def CallEvent.IsStepOf (k : Nat) (s : Machine × Calls) : CallEvent → Prop
  | .advance => s.2.active s.1.globals.currentTask = some k
  | .enter _ _ | .cpu _ => False

instance (k : Nat) (s : Machine × Calls) : (e : CallEvent) → Decidable (e.IsStepOf k s)
  | .advance => inferInstanceAs (Decidable (_ = _))
  | .enter _ _ | .cpu _ => isFalse id

/-- Inside `schedule_task` a context does not leave the processor of its own accord. -/
def Action.Allowed (s : Machine × Calls) : Action → Prop
  | work .. | tick _ => True
  | setSleepTime _ | stopCurrent | doSomethingElse _ _ =>
      s.2.active s.1.globals.currentTask = none

instance (s : Machine × Calls) : (a : Action) → Decidable (a.Allowed s)
  | .work .. | .tick _ => isTrue trivial
  | .setSleepTime _ | .stopCurrent | .doSomethingElse _ _ => inferInstanceAs (Decidable (_ = _))

/-- One step of the processor and the calls on it. A task that has begun to exit makes no call. -/
def callStep (s : Machine × Calls) : CallEvent → Option (Machine × Calls)
  | .enter address args =>
      if s.2.active s.1.globals.currentTask = none ∧ Live s.1.globals then
        some (s.1, s.2.enter s.1.globals.currentTask address args)
      else none
  | .advance => do
      let k ← s.2.active s.1.globals.currentTask
      let (g, pc) ← (s.2.call k).pc.advance (s.2.call k).address (s.2.call k).args s.1.globals
      some ({ s.1 with globals := g }, s.2.goto s.1.globals.currentTask k pc)
  | .cpu a =>
      if a.Allowed s then
        (a.exec s.1).map fun m =>
          (m, if a.Switches then s.2.selected m.globals.currentTask else s.2)
      else none

section

variable {s t : Machine × Calls}

/-- What a call of `schedule_task` does at first: it gets a number, and nothing else happens. -/
theorem callStep_enter {address args : BitVec 16} (h : callStep s (.enter address args) = some t) :
    Live s.1.globals ∧ t = (s.1, s.2.enter s.1.globals.currentTask address args) := by
  simp only [callStep] at h
  split at h
  · rename_i hmay
    exact ⟨hmay.2, (Option.some.inj h).symm⟩
  · exact absurd h (by simp)

/-- A step of a call is one of `CallPc.advance`, on the globals of the machine. -/
theorem callStep_advance (h : callStep s .advance = some t) :
    ∃ k g pc, s.2.active s.1.globals.currentTask = some k ∧
      Advanced (s.2.call k).address (s.2.call k).args s.1.globals (s.2.call k).pc g pc ∧
        t = ({ s.1 with globals := g }, s.2.goto s.1.globals.currentTask k pc) := by
  obtain ⟨k, hk, h⟩ := Option.bind_eq_some_iff.mp h
  obtain ⟨⟨g, pc⟩, hadv, h⟩ := Option.bind_eq_some_iff.mp h
  exact ⟨k, g, pc, hk, advance_advanced hadv, (Option.some.inj h).symm⟩

/-- Any other action is one of the machine; if it switches, the call whose task is selected is marked. -/
theorem callStep_cpu {a : Action} (h : callStep s (.cpu a) = some t) :
    a.Allowed s ∧ a.exec s.1 = some t.1 ∧
      t.2 = if a.Switches then s.2.selected t.1.globals.currentTask else s.2 := by
  simp only [callStep] at h
  split at h
  · obtain ⟨m, hm, rfl⟩ := Option.map_eq_some_iff.mp h
    exact ⟨‹_›, hm, rfl⟩
  · exact absurd h (by simp)

end

/-! ## The steps at which a slot gets two owners

Two calls may read the same `task_count`, or find the same finished slot. Each of these is visible before
the step that does it. -/

/-- The next step of call `l`, at `pc`, leaves call `k` its slot: `task_count++` finds the value that
`task_num` has been given, with a slot left for it, and the block between `cli` and `sei` of another
call fills another slot than the one `k` is filling. -/
def Calls.ClearAt (w : Calls) (g : Globals) (k l : Nat) : CallPc → Prop
  | .increment taskNum => taskNum = g.taskCount ∧ taskNum < maxTasks
  | .building taskNum [] => l ≠ k → (w.call k).InProgress → (w.call k).slot ≠ some taskNum
  | _ => True

instance (w : Calls) (g : Globals) (k l : Nat) : (pc : CallPc) → Decidable (w.ClearAt g k l pc)
  | .increment _ => inferInstanceAs (Decidable (_ ∧ _))
  | .building _ [] => inferInstanceAs (Decidable (_ → _ → _))
  | .test | .search _ | .read | .building _ (_ :: _) | .returned _ => isTrue trivial

/-- The event leaves call `k` its slot. -/
def Clear (k : Nat) (s : Machine × Calls) : CallEvent → Prop
  | .advance => ∀ l ∈ s.2.active s.1.globals.currentTask,
      s.2.ClearAt s.1.globals k l (s.2.call l).pc
  | .enter _ _ | .cpu _ => True

instance (k : Nat) (s : Machine × Calls) : (e : CallEvent) → Decidable (Clear k s e)
  | .advance => inferInstanceAs (Decidable (∀ l ∈ _, _))
  | .enter _ _ | .cpu _ => isTrue trivial

/-! ## The table

What the steps of any call, and any other action, can do to the entries of the task table. -/

/-- What holds of the table and of every call. -/
structure Inv (s : Machine × Calls) : Prop where
  tableOk : TableOk s.1.globals
  /-- A task does not exit inside a call. -/
  caller : ∀ c k, s.2.active c = some k → ∀ j : Fin maxTasks, (j : Int) = c →
    (s.1.globals.tasks j).running = true
  building_lt : ∀ k n rest, (s.2.call k).pc = .building n rest → n < s.1.globals.taskCount

@[simp]
theorem Call.goto_pc (c : Call) (pc : CallPc) : (c.goto pc).pc = pc := by
  unfold Call.goto
  split <;> rfl

theorem Calls.goto_call_self (w : Calls) (c : Int) (k : Nat) (pc : CallPc) :
    (w.goto c k pc).call k = (w.call k).goto pc :=
  Function.update_self ..

theorem Calls.goto_call_of_ne (w : Calls) (c : Int) {k l : Nat} (hl : l ≠ k) (pc : CallPc) :
    (w.goto c k pc).call l = w.call l :=
  Function.update_of_ne hl _ _

/-- A step makes no context enter a call. -/
theorem Calls.goto_active {w : Calls} {c d : Int} {k l : Nat} {pc : CallPc}
    (h : (w.goto c k pc).active d = some l) : w.active d = some l := by
  simp only [Calls.goto] at h
  split at h
  · exact absurd h (by simp)
  · exact h

/-- A new call is the only one that changes. -/
theorem Calls.enter_call (w : Calls) (c : Int) (address args : BitVec 16) (k : Nat) :
    (w.enter c address args).call k = w.call k ∨
      (w.enter c address args).call k = ⟨address, args, .test, none, false⟩ := by
  by_cases hk : k = w.count
  · subst hk
    exact Or.inr (Function.update_self ..)
  · exact Or.inl (Function.update_of_ne hk _ _)

namespace Inv

variable {s t : Machine × Calls}

/-- Before the first call. -/
theorem empty {m : Machine} (h : TableOk m.globals) : Inv (m, Calls.empty) where
  tableOk := h
  caller _ _ hc := absurd hc (by simp [Calls.empty])
  building_lt _ _ _ hk := absurd hk (by simp [Calls.empty])

/-- A call that is entered is at its test, so it has no slot. -/
theorem enter (h : Inv s) {address args : BitVec 16}
    (hs : callStep s (.enter address args) = some t) : Inv t := by
  obtain ⟨hlive, rfl⟩ := callStep_enter hs
  refine ⟨h.tableOk, fun c k hk j hj => ?_, fun k n rest hk => ?_⟩
  · by_cases hc : c = s.1.globals.currentTask
    · exact hlive j (hj.trans hc)
    · exact h.caller c k ((Function.update_of_ne hc _ _).symm.trans hk) j hj
  · rcases s.2.enter_call s.1.globals.currentTask address args k with heq | heq
    · exact h.building_lt k n rest (heq ▸ hk)
    · simp only [heq] at hk
      exact absurd hk (by simp)

/-- A step of call `l` keeps the table in order when `task_count` is below `MAX_TASKS` at
`task_count++`. -/
theorem advance (h : Inv s) {k : Nat} (hs : callStep s .advance = some t)
    (hclear : Clear k s .advance) : Inv t := by
  obtain ⟨l, g, pc, hl, hadv, rfl⟩ := callStep_advance hs
  have htable := hadv.table
  have hclear := hclear l hl
  refine ⟨?_, fun c i hi j hj => ?_, fun i n rest hi => ?_⟩
  · have hlt := h.building_lt l
    -- A slot is created or committed in one step each; every other step leaves the table as it is.
    revert hadv hclear hlt
    generalize (s.2.call l).pc = p
    intro hadv hclear hlt
    cases hadv with
    | increment taskNum =>
        obtain ⟨rfl, hlt⟩ := hclear
        exact counted_tableOk h.tableOk hlt
    | store taskNum a x rest => exact h.tableOk.congr rfl rfl fun _ => id
    | commit j => exact committed_tableOk h.tableOk (hlt j [] rfl)
    | testFull _ | testFree _ | found _ _ _ | next _ _ _ | exhausted _ _ | read => exact h.tableOk
  · exact htable.running (h.caller c i (Calls.goto_active hi) j hj)
  -- the call that has moved is building a slot that exists, and the others still are
  · by_cases hil : i = l
    · subst hil
      simp only [Calls.goto_call_self, Call.goto_pc] at hi
      have hlt := h.building_lt i
      revert hadv hclear hlt
      generalize (s.2.call i).pc = p
      intro hadv hclear hlt
      subst hi
      generalize hq : CallPc.building n rest = q at hadv
      cases hadv with
      | found j hj _ =>
          obtain ⟨rfl, -⟩ := CallPc.building.inj hq
          exact hj
      | increment taskNum =>
          obtain ⟨rfl, -⟩ := CallPc.building.inj hq
          obtain ⟨rfl, -⟩ := hclear
          exact Int.lt_add_one_of_le le_rfl
      | store taskNum a x rest =>
          obtain ⟨rfl, -⟩ := CallPc.building.inj hq
          exact hlt n _ rfl
      | _ => exact absurd hq (by simp)
    · rw [Calls.goto_call_of_ne _ _ hil] at hi
      exact lt_of_lt_of_le (h.building_lt i n rest hi) htable.taskCount

/-- Code outside `schedule_task` leaves the calls where they are, and no context exits inside one. -/
theorem cpu (h : Inv s) {a : Action} (hs : callStep s (.cpu a) = some t) : Inv t := by
  obtain ⟨hallow, hexec, hcalls⟩ := callStep_cpu hs
  have ho := exec_others h.tableOk hexec
  have hactive : t.2.active = s.2.active := by
    rw [hcalls]
    split <;> rfl
  have hpc : ∀ k, (t.2.call k).pc = (s.2.call k).pc := by
    intro k
    rw [hcalls]
    split <;> rfl
  refine ⟨ho.tableOk, fun c k hk j hj => ?_, fun k n rest hk => ?_⟩
  · rw [hactive] at hk
    refine (ho.running j ?_).trans (h.caller c k hk j hj)
    by_cases hstop : a = .stopCurrent
    · subst hstop
      have hnone : s.2.active s.1.globals.currentTask = none := hallow
      refine Or.inr fun hcur => ?_
      rw [← hj, hcur, hnone] at hk
      exact absurd hk (by simp)
    · exact Or.inl hstop
  · rw [ho.taskCount]
    exact h.building_lt k n rest ((hpc k).symm.trans hk)

end Inv

/-! ## The slot of a call

From the step that chooses it up to the commit, the slot is below `task_count`, not running and not
current, so that no switch touches it. -/

/-- Slot `j`, which a call at the given point has taken: free as long as the call fills it, and then
ready to be selected. -/
def SlotDue (g : Globals) (j : Fin maxTasks) : CallPc → Prop
  | .building taskNum _ => taskNum = j ∧ (g.tasks j).running = false
  | .returned _ => (g.tasks j).running = true ∧ (g.tasks j).sp = frameSp (g.top j)
  | .test | .search _ | .read | .increment _ => False

/-- Until a call returns, the slot it has taken is its own: it is not running and not current. From
then on the slot is ready, until a switch selects it. -/
structure Reserved (g : Globals) (c : Call) : Prop where
  not_started : c.InProgress → c.started = false
  building : ∀ n rest, c.pc = .building n rest → c.slot = some n
  due : ∀ n, c.slot = some n → c.started = false →
    ∃ j : Fin maxTasks, (j : Int) = n ∧ (j : Int) ≠ g.currentTask ∧ SlotDue g j c.pc

/-- The slot of a call that has not returned is not running. -/
theorem Call.InProgress.not_running {c : Call} (h : c.InProgress) {g : Globals} {j : Fin maxTasks}
    (hdue : SlotDue g j c.pc) : (g.tasks j).running = false := by
  revert h hdue
  unfold Call.InProgress
  cases c.pc with
  | building taskNum rest => exact fun _ hdue => hdue.2
  | returned r => exact fun h _ => h.elim
  | test | search _ | read | increment _ => exact fun _ hdue => hdue.elim

namespace Reserved

variable {g g' : Globals} {c : Call}

/-- A call without a slot has nothing reserved. -/
theorem of_slot_none (hstarted : c.started = false) (hpc : ∀ n rest, c.pc ≠ .building n rest)
    (hslot : c.slot = none) : Reserved g c where
  not_started _ := hstarted
  building n rest h := absurd h (hpc n rest)
  due n h _ := absurd (hslot.symm.trans h) (by simp)

/-- Before the slot is known there is none. -/
theorem slot_none (h : Reserved g c) (hin : c.InProgress) (hpc : ∀ n rest, c.pc ≠ .building n rest) :
    c.slot = none := by
  cases hslot : c.slot with
  | none => rfl
  | some n =>
      obtain ⟨j, -, -, hdue⟩ := h.due n hslot (h.not_started hin)
      revert hdue hpc hin
      unfold Call.InProgress
      cases c.pc <;> simp [SlotDue]

/-- A step that only moves on, with the slot still unknown. -/
theorem moved (h : Reserved g c) (hin : c.InProgress) (hpc : ∀ n rest, c.pc ≠ .building n rest)
    {pc : CallPc} (hpc' : ∀ n rest, pc ≠ .building n rest) : Reserved g' (c.goto pc) := by
  have hgoto : c.goto pc = { c with pc := pc } := by
    cases pc with
    | building n rest => exact absurd rfl (hpc' n rest)
    | _ => rfl
  rw [hgoto]
  exact of_slot_none (h.not_started hin) hpc' (h.slot_none hin hpc)

/-- The step that takes slot `n`, or goes on building the frame there. -/
theorem take (h : Reserved g c) (hin : c.InProgress) {n : Int} {j : Fin maxTasks} (hj : (j : Int) = n)
    (hrun : (g.tasks j).running = false) (hcur : (j : Int) ≠ g.currentTask)
    (htasks : g'.tasks = g.tasks) (hcurrent : g'.currentTask = g.currentTask)
    (rest : List (Addr × Byte)) : Reserved g' (c.goto (.building n rest)) where
  not_started _ := h.not_started hin
  building m rest' hpc := by
    obtain ⟨rfl, -⟩ := CallPc.building.inj hpc
    rfl
  due m hm _ := ⟨j, hj.trans (Option.some.inj hm), by rwa [hcurrent], hj.symm, by rwa [htasks]⟩

/-- A step of the call itself. Its context is running, so the slot it finds idle is another one. -/
theorem advance_self (h : Reserved g c) (hok : TableOk g)
    (hcaller : ∀ j : Fin maxTasks, (j : Int) = g.currentTask → (g.tasks j).running = true) {pc : CallPc}
    (hadv : Advanced c.address c.args g c.pc g' pc)
    (hcount : ∀ n, c.pc = .increment n → n = g.taskCount ∧ n < maxTasks) :
    Reserved g' (c.goto pc) := by
  have hother : ∀ j : Fin maxTasks, (g.tasks j).running = false → (j : Int) ≠ g.currentTask :=
    fun j hrun hj => Bool.false_ne_true (hrun.symm.trans (hcaller j hj))
  obtain ⟨address, args, cpc, slot, started⟩ := c
  cases hadv with
  | testFull _ | testFree _ | next _ _ _ | exhausted _ _ | read =>
      exact h.moved trivial (by simp) (by simp)
  | found j _ hrun => exact h.take trivial rfl hrun (hother j hrun) rfl rfl _
  | increment n =>
      obtain ⟨rfl, hlt⟩ := hcount n rfl
      obtain ⟨j, hj⟩ := exists_slot hok.count_nonneg hlt
      have hidle := hok.unused j hj.ge
      apply h.take trivial hj hidle (hother j hidle) <;> rfl
  | store n a x rest =>
      obtain ⟨j, hj, hcur, -, hrun⟩ := h.due n (h.building n _ rfl) (h.not_started trivial)
      apply h.take trivial hj hrun hcur <;> rfl
  | commit j =>
      refine ⟨fun hf => hf.elim, by simp [Call.goto], fun n hn _ => ?_⟩
      obtain ⟨i, hi, hcur, -, -⟩ := h.due n hn (h.not_started trivial)
      obtain rfl : i = j := Fin.ext (by
        have := Option.some.inj ((h.building j _ rfl).symm.trans hn)
        omega)
      refine ⟨i, hi, hcur, ?_, ?_⟩ <;> rw [committed_tasks, if_pos rfl]
      rfl

/-- A step of another call, which does not fill the slot of this one. -/
theorem advance_other (h : Reserved g c) {pc : CallPc} (htable : Advanced.Table g pc g')
    (hclear : ∀ n, pc = .building n [] → c.InProgress → c.slot ≠ some n) : Reserved g' c := by
  refine ⟨h.not_started, h.building, fun n hn hst => ?_⟩
  obtain ⟨j, hj, hcur, hdue⟩ := h.due n hn hst
  refine ⟨j, hj, fun hc => hcur (hc.trans htable.currentTask), ?_⟩
  have htop : g'.top j = g.top j := by rw [Globals.top, Globals.top, htable.tasksStackTop]
  rcases htable.tasks j with heq | ⟨hpc, heq⟩
  · revert hdue
    cases c.pc <;> simp only [SlotDue, heq, htop, imp_self]
  · -- a second commit to this slot: the first one was that of this call
    have hdone : ¬ c.InProgress := fun hin =>
      hclear j hpc hin (hn.trans (congrArg some hj.symm))
    revert hdue hdone
    unfold Call.InProgress
    cases c.pc with
    | returned r =>
        intro _ _
        refine ⟨by rw [heq], ?_⟩
        rw [heq, htop]
        rfl
    | _ => exact fun _ hdone => absurd trivial hdone

/-- Code outside `schedule_task`. A switch can only select the slot when the call has returned. -/
theorem cpu (h : Reserved g c) {a : Action} (ho : Others a g g') :
    Reserved g' (if a.Switches then c.selected g'.currentTask else c) := by
  -- the slot keeps what it is due
  have hdue : ∀ j : Fin maxTasks, (j : Int) ≠ g.currentTask → SlotDue g j c.pc →
      SlotDue g' j c.pc := by
    intro j hcur
    have htop : g'.top j = g.top j := by rw [Globals.top, Globals.top, ho.tasksStackTop]
    have hrun := ho.running j (Or.inr hcur)
    have hsp := ho.sp j hcur
    cases c.pc <;> simp only [SlotDue, hrun, hsp, htop, imp_self]
  split
  · rename_i hsw
    refine ⟨fun hin => ?_, h.building, fun n hn hst => ?_⟩
    · have hst := h.not_started hin
      simp only [Call.selected, hst, Bool.false_or, decide_eq_false_iff_not]
      intro hn
      obtain ⟨j, hj, hcur, hslot⟩ := h.due _ hn hst
      rcases ho.selected hsw with ⟨i, hi, hel⟩ | ⟨hidle, -⟩
      · obtain rfl : i = j := Fin.ext (by omega)
        exact Bool.false_ne_true ((hin.not_running (hdue i hcur hslot)).symm.trans hel.1)
      · omega
    · simp only [Call.selected, Bool.or_eq_false_iff, decide_eq_false_iff_not] at hst
      obtain ⟨j, hj, hcur, hslot⟩ := h.due n hn hst.1
      refine ⟨j, hj, fun hc => hst.2 ?_, hdue j hcur hslot⟩
      exact hn.trans (congrArg some (hj.symm.trans hc))
  · rename_i hsw
    refine ⟨h.not_started, h.building, fun n hn hst => ?_⟩
    obtain ⟨j, hj, hcur, hslot⟩ := h.due n hn hst
    exact ⟨j, hj, by rwa [ho.currentTask hsw], hdue j hcur hslot⟩

end Reserved

/-! ## The frame under construction

The bytes that are there, with the stores that are still to come carried out, are the frame. -/

/-- Until its slot is selected, only call `k` itself writes the frame there. -/
def Intact (k : Nat) (s : Machine × Calls) (e : CallEvent) : Prop :=
  e.IsStepOf k s ∨ ∀ t ∈ callStep s e, ∀ n ∈ (s.2.call k).slot, (s.2.call k).started = false →
    ∀ i < frameSize, t.1.globals.ram (s.1.globals.top n - BitVec.ofNat 16 i) =
      s.1.globals.ram (s.1.globals.top n - BitVec.ofNat 16 i)

instance (k : Nat) (s : Machine × Calls) (e : CallEvent) : Decidable (Intact k s e) :=
  inferInstanceAs (Decidable (_ ∨ _))

/-- The frame of the call is complete once the assignments still to come are made. -/
def FrameDue (g : Globals) (c : Call) : Prop :=
  ∀ n, c.slot = some n → c.started = false →
    FrameAt (writeAll g.ram c.pc.pending) (g.top n) c.address 0 (initialRegs c.args)

namespace FrameDue

variable {g g' : Globals} {c : Call}

/-- Code that leaves the bytes of the frame alone leaves it due. -/
theorem congr (h : FrameDue g c) (htop : g'.tasksStackTop = g.tasksStackTop)
    (hram : ∀ n, c.slot = some n → c.started = false → ∀ i < frameSize,
      g'.ram (g.top n - BitVec.ofNat 16 i) = g.ram (g.top n - BitVec.ofNat 16 i)) :
    FrameDue g' c := by
  intro n hn hst
  have htop' : g'.top n = g.top n := by rw [Globals.top, Globals.top, htop]
  rw [htop']
  exact (h n hn hst).congr fun i hi => writeAll_congr (hram n hn hst i hi) _

/-- A step of the call itself: it makes the first of the assignments still to come, or lists them all. -/
theorem advance_self (h : FrameDue g c) (hres : Reserved g c) {pc : CallPc}
    (hadv : Advanced c.address c.args g c.pc g' pc) : FrameDue g' (c.goto pc) := by
  obtain ⟨address, args, cpc, slot, started⟩ := c
  intro n hn hst
  cases hadv with
  | testFull _ | testFree _ | next _ _ _ | exhausted _ _ | read =>
      exact absurd (hn.symm.trans (hres.slot_none trivial (by simp))) (by simp)
  | found j _ _ =>
      obtain rfl := Option.some.inj hn
      exact frameAt_frameWrites _ _ _ _
  | increment m =>
      obtain rfl := Option.some.inj hn
      exact frameAt_frameWrites _ _ _ _
  | store m a x rest =>
      obtain rfl := Option.some.inj hn
      exact h m (hres.building m _ rfl) hst
  | commit j => exact h n hn hst

end FrameDue

/-! ## Runs

The invariant for a call that is being followed, kept by every step of any context that is `Clear` of it.
-/

section

variable {k : Nat} {s t : Machine × Calls} {e : CallEvent}

/-- Every step that leaves call `k` its slot keeps the table in order and the slot reserved. -/
theorem callStep_reserved (hinv : Inv s) (h : Reserved s.1.globals (s.2.call k))
    (hclear : Clear k s e) (hs : callStep s e = some t) :
    Inv t ∧ Reserved t.1.globals (t.2.call k) := by
  cases e with
  | enter address args =>
      refine ⟨hinv.enter hs, ?_⟩
      obtain ⟨-, rfl⟩ := callStep_enter hs
      rcases s.2.enter_call s.1.globals.currentTask address args k with heq | heq
      · rw [heq]
        exact h
      · rw [heq]
        exact .of_slot_none rfl (by simp) rfl
  | advance =>
      refine ⟨hinv.advance hs hclear, ?_⟩
      obtain ⟨l, g, pc, hl, hadv, rfl⟩ := callStep_advance hs
      by_cases hkl : k = l
      -- the call itself: its slot is not selectable before it commits
      · subst hkl
        simp only [Calls.goto_call_self]
        refine h.advance_self hinv.tableOk (hinv.caller _ k hl) hadv fun n hn => ?_
        have hcount := hclear k hl
        rwa [hn] at hcount
      -- another call, which has not taken the same slot
      · simp only [Calls.goto_call_of_ne _ _ hkl]
        refine h.advance_other hadv.table fun n hn hin => ?_
        have hfree := hclear l hl
        rw [hn] at hfree
        exact hfree (Ne.symm hkl) hin
  | cpu a =>
      obtain ⟨hallow, hexec, hcalls⟩ := callStep_cpu hs
      have ho := exec_others hinv.tableOk hexec
      refine ⟨hinv.cpu hs, ?_⟩
      rw [hcalls, apply_ite Calls.call, ite_apply]
      exact h.cpu ho

/-- And as long as only the call writes there, its frame stays due. -/
theorem callStep_frameDue (hinv : Inv s) (hres : Reserved s.1.globals (s.2.call k))
    (h : FrameDue s.1.globals (s.2.call k)) (hintact : Intact k s e) (hs : callStep s e = some t) :
    FrameDue t.1.globals (t.2.call k) := by
  -- the bytes, when the step is not one of the call
  have hbytes : ¬ e.IsStepOf k s → ∀ n, (s.2.call k).slot = some n → (s.2.call k).started = false →
      ∀ i < frameSize, t.1.globals.ram (s.1.globals.top n - BitVec.ofNat 16 i) =
        s.1.globals.ram (s.1.globals.top n - BitVec.ofNat 16 i) :=
    fun hne => hintact.resolve_left hne t hs
  cases e with
  | enter address args =>
      obtain ⟨-, rfl⟩ := callStep_enter hs
      rcases s.2.enter_call s.1.globals.currentTask address args k with heq | heq
      · rw [heq]
        exact h
      · rw [heq]
        exact fun n hn => absurd hn (by simp)
  | advance =>
      obtain ⟨l, g, pc, hl, hadv, rfl⟩ := callStep_advance hs
      by_cases hkl : k = l
      · subst hkl
        simp only [Calls.goto_call_self]
        exact h.advance_self hres hadv
      · simp only [Calls.goto_call_of_ne _ _ hkl]
        exact h.congr hadv.table.tasksStackTop
          (hbytes fun hk => hkl (Option.some.inj (hk.symm.trans hl)))
  | cpu a =>
      obtain ⟨-, hexec, hcalls⟩ := callStep_cpu hs
      have hdue := h.congr (exec_others hinv.tableOk hexec).tasksStackTop (hbytes id)
      rw [hcalls]
      split
      · intro n hn hst
        simp only [Calls.selected, Call.selected, Bool.or_eq_false_iff] at hst
        exact hdue n hn hst.1
      · exact hdue

/-- The slot of a call that has not returned is not running. -/
theorem Reserved.not_eligible {g : Globals} {c : Call} (h : Reserved g c) (hin : c.InProgress)
    {n : Int} (hn : c.slot = some n) :
    ∃ j : Fin maxTasks, (j : Int) = n ∧ ¬ (g.tasks j).Eligible := by
  obtain ⟨j, hj, -, hdue⟩ := h.due n hn (h.not_started hin)
  exact ⟨j, hj, fun hel => Bool.false_ne_true ((hin.not_running hdue).symm.trans hel.1)⟩

/-- A slot that is selected for the first time has its frame complete and its stack pointer below
it. -/
theorem due_of_selected (hinv : Inv s) (hres : Reserved s.1.globals (s.2.call k))
    (hframe : FrameDue s.1.globals (s.2.call k)) {a : Action}
    (hs : callStep s (.cpu a) = some t) (hintact : Intact k s (.cpu a)) (hsw : a.Switches)
    (hst : (s.2.call k).started = false) (hn : (s.2.call k).slot = some t.1.globals.currentTask) :
    ∃ j : Fin maxTasks, (j : Int) = t.1.globals.currentTask ∧
      (t.1.globals.tasks j).sp = frameSp (t.1.globals.top j) ∧
      FrameAt t.1.globals.ram (t.1.globals.top j) (s.2.call k).address 0
        (initialRegs (s.2.call k).args) := by
  obtain ⟨-, hexec, -⟩ := callStep_cpu hs
  have ho := exec_others hinv.tableOk hexec
  obtain ⟨j, hj, hne, hdue⟩ := hres.due _ hn hst
  obtain ⟨i, hi, hel⟩ := (ho.selected hsw).resolve_right fun hidle => by omega
  obtain rfl : i = j := Fin.ext (by omega)
  have hrun : (s.1.globals.tasks i).running = true := (ho.running i (Or.inr hne)).symm.trans hel.1
  have hbytes := (hframe.congr ho.tasksStackTop (hintact.resolve_left id t hs)) _ hn hst
  refine ⟨i, hj, ?_, ?_⟩
  · rw [ho.sp i hne, Globals.top, ho.tasksStackTop, ← Globals.top]
    revert hdue
    cases (s.2.call k).pc <;> simp [SlotDue, hrun]
  · rw [hj]
    revert hdue hbytes
    cases (s.2.call k).pc <;> simp [SlotDue, hrun, CallPc.pending, writeAll_nil]

end

/-! ## The start of a task

When the slot is selected for the first time, the context restored is the one that `schedule_task` was
asked for. -/

/-- The processor at the first instruction of a new task. -/
structure Starts (m : Machine) (n : Int) (address args : BitVec 16) : Prop where
  pc : m.pc = address
  args : word (m.r 25) (m.r 24) = args
  zero : ∀ k, k ≠ 24 → k ≠ 25 → m.r k = 0
  sreg : m.sreg = 0x80
  sp : m.sp = m.globals.top n

/-- The slot that call `k` has taken cannot be selected before the call has returned. -/
def ReservedUntilReturn (k : Nat) (s : Machine × Calls) : Prop :=
  ∀ n, (s.2.call k).slot = some n → (s.2.call k).InProgress →
    ∃ j : Fin maxTasks, (j : Int) = n ∧ ¬ (s.1.globals.tasks j).Eligible

/-- The first switch that selects the slot of call `k`, with the frame as the call has left it, starts
the task the call was told to start. -/
def StartsAsTold (k : Nat) (s : Machine × Calls) : Prop :=
  ∀ a t, a.Switches → callStep s (.cpu a) = some t → Intact k s (.cpu a) →
    (s.2.call k).started = false → (s.2.call k).slot = some t.1.globals.currentTask →
      (0 ≤ t.1.globals.currentTask ∧ t.1.globals.currentTask < maxTasks) ∧
        Starts t.1 t.1.globals.currentTask (s.2.call k).address (s.2.call k).args

end SmartblocksOs.Context
