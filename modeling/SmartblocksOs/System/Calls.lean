/-
# SmartblocksOs.System.Calls -- calls of `schedule_task` in progress

The calls in progress, next to the task table: at most one in each context, a context being a task or,
as `-1`, `main` and the idle loop. Between two steps of a call the tick may switch to another context,
which may be inside `schedule_task` too. Code writes to the stack of its own context and outside the
task stacks, never to the stack of another task.

The invariant `Calls.Inv` says what holds of each call and of any two of them. This module shows that
the steps outside `schedule_task` keep it, `SmartblocksOs.System.ConcurrentCreation` that those of the
calls do.
-/
import SmartblocksOs.System.Creation

namespace SmartblocksOs.System

open Foundation

/-! ## The calls in progress

Two kinds of books are kept besides the globals: the call each context is in, and for each slot the call
whose task is in it. Neither is in the source; the properties are stated in terms of them. -/

/-- One call of `schedule_task`. -/
structure Call where
  address : BitVec 16
  args : BitVec 16
  pc : CallPc
  /-- The slot it has chosen. -/
  slot : Int
  /-- The calls whose tasks had exited when it chose. -/
  exitedBefore : Nat → Bool
  /-- Its task has been current. -/
  started : Bool
  /-- Its task has called `exit_task`. -/
  exited : Bool

/-- The globals, and what has become of all calls of `schedule_task` so far. -/
structure Calls where
  g : Globals
  /-- How many calls there have been; they are numbered from `0`. -/
  count : Nat
  call : Nat → Call
  /-- The call a context is in. -/
  active : Int → Option Nat
  /-- The call that has filled the slot last. -/
  task : Fin maxTasks → Option Nat

/-- What can happen while calls of `schedule_task` are under way. -/
inductive CallEvent where
  /-- The running context calls `schedule_task`. -/
  | call (address args : BitVec 16)
  /-- The next step of the call the running context is in. -/
  | advance
  /-- The code that is running writes to memory. -/
  | work (writes : List (Addr × Byte))
  /-- `tasks[current_task].running = false`, in `exit_task`. -/
  | stopCurrent
  /-- One of the two stores of `tasks[current_task].sleep_time = t`, in `sleep`. -/
  | storeSleepByte (half : Half) (b : Byte)
  /-- `do_something_else`, which `yield` calls, and `exit_task` and `sleep` when they are through with
  their first statement. -/
  | yield (sp : Addr) (writes : List (Addr × Byte))
  | tick (sp : Addr) (writes : List (Addr × Byte))

/-- Writes of the running context, to its own stack or outside the task stacks. -/
def Own (g : Globals) (writes : List (Addr × Byte)) : Prop :=
  ∀ e ∈ writes, stackOwner g e.1 = g.currentTask ∨ stackOwner g e.1 = -1

instance (g : Globals) (writes : List (Addr × Byte)) : Decidable (Own g writes) :=
  List.decidableBAll _ writes

/-- The running context is the idle loop, or a task that has not begun to exit. -/
def Live (g : Globals) : Prop :=
  ∀ j : Fin maxTasks, (j : Int) = g.currentTask → (g.tasks j).running = true

instance (g : Globals) : Decidable (Live g) :=
  inferInstanceAs (Decidable (∀ _ : Fin maxTasks, _ → _))

namespace CallPc

/-- The slot a call chooses when it goes from one point to the next. -/
def chosen? : CallPc → CallPc → Option Int
  | .read, .increment taskNum | .search _, .building taskNum _ => some taskNum
  | _, _ => none

/-- What the call has returned. -/
def result? : CallPc → Option Int
  | .returned result => some result
  | _ => none

end CallPc

/-- The call goes to `pc`, where the tasks of the calls `exited` have exited. -/
def Call.goto (c : Call) (pc : CallPc) (exited : Nat → Bool) : Call :=
  match c.pc.chosen? pc with
  | some taskNum => { c with pc := pc, slot := taskNum, exitedBefore := exited }
  | none => { c with pc := pc }

namespace Calls

/-- The running context is in no call. -/
def Outside (w : Calls) : Prop := w.active w.g.currentTask = none

instance (w : Calls) : Decidable w.Outside := inferInstanceAs (Decidable (_ = _))

/-- The running context calls `schedule_task`. The call gets the next number. -/
def enter (w : Calls) (address args : BitVec 16) : Calls :=
  { w with
    count := w.count + 1
    call := Function.update w.call w.count
      { address := address, args := args, pc := .test, slot := -1, exitedBefore := fun _ => false,
        started := false, exited := false }
    active := Function.update w.active w.g.currentTask (some w.count) }

/-- The call `k` of the running context goes to `pc`. -/
def moveTo (w : Calls) (k : Nat) (g : Globals) (pc : CallPc) : Calls :=
  { w with
    g := g
    call := Function.update w.call k ((w.call k).goto pc fun l => (w.call l).exited)
    active :=
      if pc.result?.isSome then Function.update w.active w.g.currentTask none else w.active
    task :=
      if pc.result? = some 0 then fun j => if (j : Int) = (w.call k).slot then some k else w.task j
      else w.task }

/-- Something happens to the task that is current: its call is marked. -/
def mark (w : Calls) (f : Call → Call) : Calls :=
  match (slot? maxTasks w.g.currentTask).bind w.task with
  | some k => { w with call := Function.update w.call k (f (w.call k)) }
  | none => w

/-- The task that has just been selected has started. -/
def markStarted (w : Calls) : Calls := w.mark fun c => { c with started := true }

/-- The task that is running has executed the first statement of `exit_task`. -/
def markExited (w : Calls) : Calls := w.mark fun c => { c with exited := true }

end Calls

/-- The steps of the calls, of the tasks and of the tick, in any order. Where the code would leave the
array of tasks there is no step. -/
def callStep (w : Calls) : CallEvent → Option Calls
  | .call address args => if w.Outside ∧ Live w.g then some (w.enter address args) else none
  | .advance => do
      let k ← w.active w.g.currentTask
      let (g, pc) ← (w.call k).pc.advance (w.call k).address (w.call k).args w.g
      some (w.moveTo k g pc)
  | .work writes =>
      if Own w.g writes then some { w with g := { w.g with ram := writeAll w.g.ram writes } }
      else none
  | .stopCurrent =>
      if w.Outside ∧ Live w.g then (step w.g .stopCurrent).map fun g => { w.markExited with g := g }
      else none
  | .storeSleepByte half b =>
      if w.Outside then (w.g.storeSleepByte half b).map fun g => { w with g := g } else none
  | .yield sp writes =>
      if w.Outside ∧ Own w.g writes then
        (step w.g (.yield ⟨sp, writeAll w.g.ram writes⟩)).map fun g =>
          { w with g := g }.markStarted
      else none
  | .tick sp writes =>
      if Own w.g writes then
        (step w.g (.tick ⟨sp, writeAll w.g.ram writes⟩)).map fun g => { w with g := g }.markStarted
      else none

/-- What an event does when it may happen. -/
inductive CallOutcome (w : Calls) : CallEvent → Calls → Prop
  | call (address args : BitVec 16) (hout : w.Outside) (hlive : Live w.g) :
      CallOutcome w (.call address args) (w.enter address args)
  | advance (k : Nat) (g : Globals) (pc : CallPc) (hk : w.active w.g.currentTask = some k)
      (hadv : Advanced (w.call k).address (w.call k).args w.g (w.call k).pc g pc) :
      CallOutcome w .advance (w.moveTo k g pc)
  | work (writes : List (Addr × Byte)) (hown : Own w.g writes) :
      CallOutcome w (.work writes) { w with g := { w.g with ram := writeAll w.g.ram writes } }
  | stopCurrent (g : Globals) (hout : w.Outside) (hlive : Live w.g)
      (hg : step w.g .stopCurrent = some g) : CallOutcome w .stopCurrent { w.markExited with g := g }
  | storeSleepByte (half : Half) (b : Byte) (t : Int16) (g : Globals) (hout : w.Outside)
      (hg : step w.g (.setSleepTime t) = some g) :
      CallOutcome w (.storeSleepByte half b) { w with g := g }
  | yield (sp : Addr) (writes : List (Addr × Byte)) (g : Globals) (hout : w.Outside)
      (hown : Own w.g writes) (hg : step w.g (.yield ⟨sp, writeAll w.g.ram writes⟩) = some g) :
      CallOutcome w (.yield sp writes) { w with g := g }.markStarted
  | tick (sp : Addr) (writes : List (Addr × Byte)) (g : Globals) (hown : Own w.g writes)
      (hg : step w.g (.tick ⟨sp, writeAll w.g.ram writes⟩) = some g) :
      CallOutcome w (.tick sp writes) { w with g := g }.markStarted

/-- The steps, one case for each of them. -/
theorem callStep_outcome {w w' : Calls} {e : CallEvent} (hst : callStep w e = some w') :
    CallOutcome w e w' := by
  cases e with
  | advance =>
      -- the call of the task that is running takes its next step
      obtain ⟨k, hk, hst⟩ := Option.bind_eq_some_iff.mp hst
      obtain ⟨⟨g, pc⟩, hadv, hst⟩ := Option.bind_eq_some_iff.mp hst
      obtain rfl := Option.some.inj hst
      exact .advance k g pc hk (advance_advanced hadv)
  | call address args =>
      simp only [callStep] at hst
      split at hst
      · rename_i hout
        obtain rfl := Option.some.inj hst
        exact .call address args hout.1 hout.2
      · cases hst
  | work writes =>
      simp only [callStep] at hst
      split at hst
      · rename_i hown
        obtain rfl := Option.some.inj hst
        exact .work writes hown
      · cases hst
  | stopCurrent =>
      simp only [callStep] at hst
      split at hst
      · rename_i hout
        obtain ⟨g, hg, rfl⟩ := Option.map_eq_some_iff.mp hst
        exact .stopCurrent g hout.1 hout.2 hg
      · cases hst
  | storeSleepByte half b =>
      simp only [callStep] at hst
      split at hst
      · rename_i hout
        obtain ⟨g, hg, rfl⟩ := Option.map_eq_some_iff.mp hst
        obtain ⟨t, ht⟩ := storeSleepByte_step hg
        exact .storeSleepByte half b t g hout ht
      · cases hst
  | yield sp writes =>
      simp only [callStep] at hst
      split at hst
      · rename_i hout
        obtain ⟨g, hg, rfl⟩ := Option.map_eq_some_iff.mp hst
        exact .yield sp writes g hout.1 hout.2 hg
      · cases hst
  | tick sp writes =>
      simp only [callStep] at hst
      split at hst
      · rename_i hown
        obtain ⟨g, hg, rfl⟩ := Option.map_eq_some_iff.mp hst
        exact .tick sp writes g hown hg
      · cases hst

/-- The system is up and `main` has called nothing yet. -/
def Calls.Initial (w : Calls) : Prop :=
  System.Initial w.g ∧ w.count = 0 ∧ (∀ k, (w.call k).pc = .returned (-1)) ∧
    (∀ c, w.active c = none) ∧ ∀ j, w.task j = none

/-! ## Where a call stands

What a call is about to do to the shared data, read off the point where it stands. -/

namespace CallPc

/-- Between `task_num=task_count` and `task_count++`. -/
def counts : CallPc → Bool
  | .increment _ => true
  | _ => false

/-- Filling the slot `taskNum`. -/
def fills (taskNum : Int) : CallPc → Bool
  | .building n _ => n == taskNum
  | _ => false

/-- The assignments still to make. -/
def pending : CallPc → List (Addr × Byte)
  | .building _ rest => rest
  | _ => []

end CallPc

/-- The frame of the call is being built, or waits for its task to be started. -/
def Call.hasFrame (c : Call) : Bool :=
  match c.pc with
  | .building _ _ => true
  | .returned result => result == 0 && !c.started && !c.exited
  | _ => false

/-! ## The invariant

`CallOk` is about one call and the table, `Apart` about two calls. All the rest of the argument preserves
these two. -/

/-- Neither about to take a slot, nor filling one, nor through with it. -/
def CallPc.Neutral (pc : CallPc) : Prop :=
  (∀ n, pc ≠ .increment n) ∧ (∀ n rest, pc ≠ .building n rest) ∧ pc ≠ .returned 0

/-- A call that is at its test or in its search has not read `task_count` yet. -/
theorem CallPc.Neutral.counts {pc : CallPc} (h : pc.Neutral) : pc.counts = false := by
  cases pc with
  | increment n => exact absurd rfl (h.1 n)
  | _ => rfl

theorem CallPc.Neutral.fills {pc : CallPc} (h : pc.Neutral) (n : Int) : pc.fills n = false := by
  cases pc with
  | building m rest => exact absurd rfl (h.2.1 m rest)
  | _ => rfl

namespace Calls

/-- What holds of one call at a time. -/
structure CallOk (w : Calls) (k : Nat) : Prop where
  counting : ∀ n, (w.call k).pc = .increment n →
    n = w.g.taskCount ∧ w.g.taskCount < maxTasks ∧ (w.call k).slot = n
  building : ∀ n rest, (w.call k).pc = .building n rest →
    ∃ j : Fin maxTasks, (j : Int) = n ∧ (w.call k).slot = n ∧ (j : Int) < w.g.taskCount ∧
      (w.g.tasks j).running = false ∧ (j : Int) ≠ w.g.currentTask ∧
        rest ⊆ frameWrites (w.g.top n) (w.call k).address (w.call k).args
  returned : (w.call k).pc = .returned 0 → ∃ j : Fin maxTasks, (j : Int) = (w.call k).slot ∧
    (j : Int) < w.g.taskCount ∧ ((w.call k).exited = false →
      w.task j = some k ∧ (w.g.tasks j).running = true ∧ ((w.call k).started = false →
        (j : Int) ≠ w.g.currentTask ∧ (w.g.tasks j).sp = w.g.top j - 35))
  frame : (w.call k).hasFrame = true →
    FrameAt (writeAll w.g.ram (w.call k).pc.pending) (w.g.top (w.call k).slot) (w.call k).address 0
      (initialRegs (w.call k).args)

/-- What holds of call `k` against call `l`. The tasks that a call finds in the slot it has chosen have
exited. -/
structure Apart (w : Calls) (k l : Nat) : Prop where
  counting : (w.call k).pc.counts = true → (w.call l).pc.counts = false
  building : ∀ n rest, (w.call k).pc = .building n rest → (w.call l).pc.fills n = false
  chosen : (w.call k).pc.counts = true ∨ (w.call k).pc.fills (w.call k).slot = true →
    (w.call l).pc = .returned 0 → (w.call l).slot = (w.call k).slot →
      (w.call k).exitedBefore l = true
  distinct : (w.call k).pc = .returned 0 → (w.call l).pc = .returned 0 →
    (w.call k).slot = (w.call l).slot →
      (w.call k).exitedBefore l = true ∨ (w.call l).exitedBefore k = true

/-- The invariant of the calls in progress. -/
structure Inv (w : Calls) : Prop where
  table : TableOk w.g
  fresh : ∀ k, w.count ≤ k → (w.call k).pc = .returned (-1)
  active_lt : ∀ c k, w.active c = some k → k < w.count
  /-- A task does not exit inside a call. -/
  caller : ∀ c k, w.active c = some k → ∀ j : Fin maxTasks, (j : Int) = c →
    (w.g.tasks j).running = true
  call : ∀ k, CallOk w k
  apart : ∀ k l, k ≠ l → Apart w k l

/-- Of such a call there is nothing to say. -/
theorem CallOk.neutral {w : Calls} {k : Nat} (h : (w.call k).pc.Neutral) : CallOk w k := by
  obtain ⟨hcount, hfill, hret⟩ := h
  refine ⟨fun n hn => absurd hn (hcount n), fun n rest hn => absurd hn (hfill n rest),
    fun hn => absurd hn hret, fun hf => ?_⟩
  unfold Call.hasFrame at hf
  split at hf
  · exact absurd ‹_› (hfill _ _)
  · simp only [Bool.and_eq_true, beq_iff_eq] at hf
    rename_i r hr
    rw [hf.1.1] at hr
    exact absurd hr hret
  · exact absurd hf Bool.false_ne_true

theorem Apart.neutral_left {w : Calls} {k l : Nat} (h : (w.call k).pc.Neutral) : Apart w k l := by
  refine ⟨fun hk => ?_, fun n rest hn => absurd hn (h.2.1 n rest), fun hk => ?_,
    fun hn => absurd hn h.2.2⟩
  · exact absurd hk (by simp [h.counts])
  · exact absurd hk (by simp [h.counts, h.fills])

theorem Apart.neutral_right {w : Calls} {k l : Nat} (h : (w.call l).pc.Neutral) : Apart w k l :=
  ⟨fun _ => h.counts, fun n _ _ => h.fills n, fun _ hn => absurd hn h.2.2,
    fun _ hn => absurd hn h.2.2⟩

theorem Initial.inv {w : Calls} (h : w.Initial) : Inv w := by
  obtain ⟨hg, hcount, hcall, hactive, -⟩ := h
  have hneutral : ∀ k, (w.call k).pc.Neutral := by
    intro k
    rw [hcall k]
    exact ⟨by simp, by simp, by simp⟩
  refine ⟨hg.tableOk, fun k _ => hcall k, ?_, ?_, fun k => .neutral (hneutral k),
    fun k l _ => .neutral_left (hneutral k)⟩
  · intro c k hk
    rw [hactive c] at hk
    exact absurd hk.symm (Option.some_ne_none k)
  · intro c k hk
    rw [hactive c] at hk
    exact absurd hk.symm (Option.some_ne_none k)

/-- A frame is in a slot that is not current: one that is being filled, or one whose task is yet to
start. -/
theorem Inv.frame_slot {w : Calls} (h : Inv w) {k : Nat} (hk : (w.call k).hasFrame = true) :
    ∃ j : Fin maxTasks, (j : Int) = (w.call k).slot ∧ (j : Int) ≠ w.g.currentTask ∧
      (((w.g.tasks j).running = false ∧ ∃ rest, (w.call k).pc = .building j rest) ∨
        (w.g.tasks j).running = true) := by
  unfold Call.hasFrame at hk
  split at hk
  · rename_i n rest hpc
    obtain ⟨j, rfl, hslot, -, hrun, hne, -⟩ := (h.call k).building n rest hpc
    exact ⟨j, hslot.symm, hne, Or.inl ⟨hrun, rest, hpc⟩⟩
  · rename_i r hpc
    simp only [Bool.and_eq_true, beq_iff_eq, Bool.not_eq_true'] at hk
    obtain ⟨⟨rfl, hstarted⟩, hexited⟩ := hk
    obtain ⟨j, hj, -, hlive⟩ := (h.call k).returned hpc
    obtain ⟨-, hrun, hnew⟩ := hlive hexited
    exact ⟨j, hj, (hnew hstarted).1, Or.inr hrun⟩
  · exact absurd hk Bool.false_ne_true

end Calls

/-! ## Steps outside `schedule_task`

A task that runs, exits, sleeps or is switched away touches neither the slots that are being filled nor
the frames of tasks that have not started. -/

/-- The same call, whose task may have started or exited in the meantime. -/
structure Call.Same (c c' : Call) : Prop where
  address : c'.address = c.address
  args : c'.args = c.args
  pc : c'.pc = c.pc
  slot : c'.slot = c.slot
  exitedBefore : c'.exitedBefore = c.exitedBefore
  started : c.started = true → c'.started = true
  exited : c.exited = true → c'.exited = true

/-- A call that nothing has happened to. -/
theorem Call.Same.refl (c : Call) : c.Same c := ⟨rfl, rfl, rfl, rfl, rfl, id, id⟩

/-- A task that has not started now had not started before. -/
theorem Call.Same.started_false {c c' : Call} (h : c.Same c') (hs : c'.started = false) :
    c.started = false := by
  by_contra hne
  rw [h.started (by simpa using hne)] at hs
  exact Bool.false_ne_true hs.symm

theorem Call.Same.exited_false {c c' : Call} (h : c.Same c') (hs : c'.exited = false) :
    c.exited = false := by
  by_contra hne
  rw [h.exited (by simpa using hne)] at hs
  exact Bool.false_ne_true hs.symm

/-- A frame that waits now waited before. -/
theorem Call.Same.hasFrame {c c' : Call} (h : c.Same c') (hf : c'.hasFrame = true) :
    c.hasFrame = true := by
  unfold Call.hasFrame at hf ⊢
  rw [h.pc] at hf
  split at hf
  · rfl
  · simp only [Bool.and_eq_true, beq_iff_eq, Bool.not_eq_true'] at hf ⊢
    exact ⟨⟨hf.1.1, h.started_false hf.1.2⟩, h.exited_false hf.2⟩
  · exact absurd hf Bool.false_ne_true

/-- Only the area of the slot matters to the frame in it. -/
theorem FrameAt.congr_area {g : Globals} {j : Fin maxTasks} {ram ram' : Ram} {pc : Addr} {sreg : Byte}
    {r : Reg → Byte} (h : FrameAt ram (g.top j) pc sreg r) (heq : ∀ a ∈ stackArea g j, ram' a = ram a) :
    FrameAt ram' (g.top j) pc sreg r := by
  refine h.congr fun i hi => heq _ ?_
  have hi : i < 35 := hi
  have hdepth : depth (g.top j) (g.top j - BitVec.ofNat 16 i) = depth (g.top j) (g.top j) + i :=
    depth_sub (by rw [depth_self]; omega)
  show depth (g.top j) (g.top j - BitVec.ofNat 16 i) < taskStackSize
  rw [hdepth, depth_self, taskStackSize]
  omega

namespace Calls

/-- What a step outside `schedule_task` does: no call moves, no slot is filled, nothing is written to
the stack of a task that is not current, and a task that becomes current is marked as started. -/
structure Elsewhere (w w' : Calls) : Prop where
  count : w'.count = w.count
  active : w'.active = w.active
  task : w'.task = w.task
  call : ∀ k, (w.call k).Same (w'.call k)
  taskCount : w'.g.taskCount = w.g.taskCount
  tasksStackTop : w'.g.tasksStackTop = w.g.tasksStackTop
  area : ∀ j : Fin maxTasks, (j : Int) ≠ w.g.currentTask → ∀ a ∈ stackArea w.g j,
    w'.g.ram a = w.g.ram a
  sp : ∀ j : Fin maxTasks, (j : Int) ≠ w.g.currentTask → (w'.g.tasks j).sp = (w.g.tasks j).sp
  running : ∀ j : Fin maxTasks, (w'.g.tasks j).running = (w.g.tasks j).running ∨
    ((j : Int) = w.g.currentTask ∧ w.Outside ∧ (w'.g.tasks j).running = false ∧
      ∀ k, w.task j = some k → (w'.call k).exited = true)
  current : ∀ j : Fin maxTasks, (j : Int) = w'.g.currentTask → (j : Int) = w.g.currentTask ∨
    ((w.g.tasks j).running = true ∧ ∀ k, w.task j = some k → (w'.call k).started = true)

/-- The stacks stay where they are. -/
theorem Elsewhere.top {w w' : Calls} (h : Elsewhere w w') (n : Int) : w'.g.top n = w.g.top n := by
  rw [Globals.top, Globals.top, h.tasksStackTop]

/-- A step that does not touch what the invariant speaks of keeps it. -/
theorem Elsewhere.inv {w w' : Calls} (he : Elsewhere w w') (h : Inv w) (htable : TableOk w'.g) :
    Inv w' := by
  have hpc : ∀ k, (w'.call k).pc = (w.call k).pc := fun k => (he.call k).pc
  have hslot : ∀ k, (w'.call k).slot = (w.call k).slot := fun k => (he.call k).slot
  -- a slot that is neither current nor running stays so
  have hcur : ∀ j : Fin maxTasks, (j : Int) ≠ w.g.currentTask → (w.g.tasks j).running = false →
      (j : Int) ≠ w'.g.currentTask := by
    intro j hne hrun hj
    rcases he.current j hj with hsame | ⟨htrue, -⟩
    · exact hne hsame
    · rw [hrun] at htrue
      exact Bool.false_ne_true htrue
  refine ⟨htable, ?_, ?_, ?_, fun k => ⟨?_, ?_, ?_, ?_⟩, fun k l hne => ⟨?_, ?_, ?_, ?_⟩⟩
  · intro k hk
    rw [hpc k]
    exact h.fresh k (by rw [← he.count]; exact hk)
  · intro c k hk
    rw [he.active] at hk
    rw [he.count]
    exact h.active_lt c k hk
  · intro c k hk j hj
    rw [he.active] at hk
    rcases he.running j with hsame | ⟨hjcur, hout, -, -⟩
    · rw [hsame]
      exact h.caller c k hk j hj
    · have hnone : w.active c = none := by
        rw [← hj, hjcur]
        exact hout
      rw [hk] at hnone
      exact absurd hnone (Option.some_ne_none k)
  · intro n hk
    rw [hpc k] at hk
    rw [he.taskCount, hslot k]
    exact (h.call k).counting n hk
  · intro n rest hk
    rw [hpc k] at hk
    obtain ⟨j, hj, hs, hlt, hrun, hne, hsub⟩ := (h.call k).building n rest hk
    refine ⟨j, hj, (hslot k).trans hs, by rw [he.taskCount]; exact hlt, ?_, hcur j hne hrun, ?_⟩
    · rcases he.running j with hsame | ⟨-, -, hfalse, -⟩
      · exact hsame.trans hrun
      · exact hfalse
    · rw [he.top, (he.call k).address, (he.call k).args]
      exact hsub
  · intro hk
    rw [hpc k] at hk
    obtain ⟨j, hj, hlt, hlive⟩ := (h.call k).returned hk
    refine ⟨j, hj.trans (hslot k).symm, by rw [he.taskCount]; exact hlt, fun hexited => ?_⟩
    obtain ⟨htask, hrun, hnew⟩ := hlive ((he.call k).exited_false hexited)
    refine ⟨by rw [he.task]; exact htask, ?_, fun hstarted => ?_⟩
    · rcases he.running j with hsame | ⟨-, -, -, hex⟩
      · exact hsame.trans hrun
      · rw [hex k htask] at hexited
        exact absurd hexited.symm Bool.false_ne_true
    · obtain ⟨hne, hsp⟩ := hnew ((he.call k).started_false hstarted)
      refine ⟨fun hjcur => ?_, by rw [he.sp j hne, he.top]; exact hsp⟩
      rcases he.current j hjcur with hsame | ⟨-, hst⟩
      · exact hne hsame
      · rw [hst k htask] at hstarted
        exact Bool.false_ne_true hstarted.symm
  · intro hk
    have hk' := (he.call k).hasFrame hk
    obtain ⟨j, hj, hne, -⟩ := h.frame_slot hk'
    have hframe := (h.call k).frame hk'
    rw [he.top, hslot k, hpc k, (he.call k).address, (he.call k).args]
    rw [← hj] at hframe ⊢
    exact hframe.congr_area fun a ha => writeAll_congr (he.area j hne a ha) _
  · rw [hpc k, hpc l]
    exact (h.apart k l hne).counting
  · rw [hpc k, hpc l]
    exact (h.apart k l hne).building
  · rw [hpc k, hpc l, hslot k, hslot l, (he.call k).exitedBefore]
    exact (h.apart k l hne).chosen
  · rw [hpc k, hpc l, hslot k, hslot l, (he.call k).exitedBefore, (he.call l).exitedBefore]
    exact (h.apart k l hne).distinct

/-! What `mark` does. -/

section

variable (w : Calls) (f : Call → Call)

@[simp]
theorem mark_g : (w.mark f).g = w.g := by
  unfold mark
  split <;> rfl

@[simp]
theorem mark_count : (w.mark f).count = w.count := by
  unfold mark
  split <;> rfl

@[simp]
theorem mark_active : (w.mark f).active = w.active := by
  unfold mark
  split <;> rfl

@[simp]
theorem mark_task : (w.mark f).task = w.task := by
  unfold mark
  split <;> rfl

/-- A mark does not change what a call is at. -/
theorem mark_call_same (hf : ∀ c : Call, c.Same (f c)) (k : Nat) :
    (w.call k).Same ((w.mark f).call k) := by
  unfold mark
  split
  · rename_i l _
    by_cases hk : k = l
    · subst hk
      show (w.call k).Same (Function.update w.call k (f (w.call k)) k)
      rw [Function.update_self]
      exact hf _
    · show (w.call k).Same (Function.update w.call l (f (w.call l)) k)
      rw [Function.update_of_ne hk]
      exact .refl _
  · exact .refl _

/-- The mark goes to the call whose task is running. -/
theorem mark_call_current {j : Fin maxTasks} {k : Nat} (hj : (j : Int) = w.g.currentTask)
    (hk : w.task j = some k) : (w.mark f).call k = f (w.call k) := by
  unfold mark
  rw [← hj, slot?_coe, Option.bind_some, hk]
  exact Function.update_self ..

end

theorem markStarted_same (w : Calls) (k : Nat) : (w.call k).Same (w.markStarted.call k) :=
  w.mark_call_same (fun c => { c with started := true })
    (fun _ => ⟨rfl, rfl, rfl, rfl, rfl, fun _ => rfl, id⟩) k

theorem markExited_same (w : Calls) (k : Nat) : (w.call k).Same (w.markExited.call k) :=
  w.mark_call_same (fun c => { c with exited := true })
    (fun _ => ⟨rfl, rfl, rfl, rfl, rfl, id, fun _ => rfl⟩) k

/-- Own writes leave the stacks of the other tasks alone. -/
theorem own_area {g : Globals} {writes : List (Addr × Byte)} (h : Own g writes) (j : Fin maxTasks)
    (hj : (j : Int) ≠ g.currentTask) (a : Addr) (ha : a ∈ stackArea g j) :
    writeAll g.ram writes a = g.ram a := by
  apply writeAll_of_forall_ne
  intro e he
  rintro rfl
  have howner := stackOwner_eq_iff.mpr ha
  rcases h e he with hcur | hnone
  · exact hj (howner.symm.trans hcur)
  · omega

/-- A switch, from the globals `g` that the suspended context leaves. -/
theorem switch_elsewhere {w : Calls} {writes : List (Addr × Byte)} (hown : Own w.g writes)
    {g g' : Globals} (hs : Switched g g') (hcount : g.taskCount = w.g.taskCount)
    (htop : g.tasksStackTop = w.g.tasksStackTop) (hcur : g.currentTask = w.g.currentTask)
    (hram : g.ram = writeAll w.g.ram writes)
    (hrun : ∀ j, (g.tasks j).running = (w.g.tasks j).running)
    (hsp : ∀ j, (g.tasks j).sp = (w.g.tasks j).sp) : Elsewhere w { w with g := g' }.markStarted := by
  have hg : { w with g := g' }.markStarted.g = g' := mark_g _ _
  refine ⟨mark_count _ _, mark_active _ _, mark_task _ _,
    markStarted_same { w with g := g' }, ?_, ?_, ?_, ?_, ?_, ?_⟩
  · rw [hg, hs.taskCount, hcount]
  · rw [hg, hs.tasksStackTop, htop]
  · intro j hj a ha
    rw [hg, hs.ram, hram]
    exact own_area hown j hj a ha
  · intro j hj
    rw [hg, hs.sp, hcur, if_neg hj, hsp]
  · intro j
    rw [hg, hs.running, hrun]
    exact Or.inl rfl
  · intro j hj
    rw [hg] at hj
    right
    refine ⟨?_, fun k hk => ?_⟩
    -- the slot chosen was eligible, and its task is marked as started
    · rcases hs.selected with ⟨i, hi, hel⟩ | ⟨hidle, -⟩
      · obtain rfl : j = i := Fin.ext (by omega)
        rw [← hrun j, ← hs.running j]
        exact hel.1
      · omega
    · rw [markStarted, mark_call_current { w with g := g' } _ hj hk]

/-- A step outside `schedule_task` keeps the invariant. -/
theorem callStep_elsewhere {w w' : Calls} {e : CallEvent} (h : Inv w) (hst : callStep w e = some w')
    (hadvance : e ≠ .advance) (hcall : ∀ address args, e ≠ .call address args) :
    Elsewhere w w' ∧ TableOk w'.g := by
  cases callStep_outcome hst with
  | advance k g pc hk hadv => exact absurd rfl hadvance
  | call address args hout hlive => exact absurd rfl (hcall address args)
  | work writes hown =>
      refine ⟨⟨rfl, rfl, rfl, fun _ => .refl _, rfl, rfl, own_area hown, fun _ _ => rfl,
        fun _ => Or.inl rfl, fun _ => Or.inl⟩, ?_⟩
      exact h.table.congr rfl rfl fun _ => id
  | stopCurrent g hout hlive hg =>
      refine ⟨?_, step_tableOk h.table hg⟩
      cases step_outcome h.table hg with
      | stopCurrent c hc =>
          refine ⟨mark_count _ _, mark_active _ _, mark_task _ _, w.markExited_same, rfl, rfl,
            fun _ _ _ _ => rfl, fun j _ => stopped_sp _ _ _, fun j => ?_, fun _ => Or.inl⟩
          show ((stopped w.g c).tasks j).running = _ ∨ _
          rw [stopped_running]
          -- the only slot whose flag changes is that of the task that exits
          by_cases hj : j = c
          · subst hj
            refine Or.inr ⟨hc, hout, if_pos rfl, fun k hk => ?_⟩
            show (w.markExited.call k).exited = true
            rw [markExited, mark_call_current w _ hc hk]
          · rw [if_neg hj]
            exact Or.inl rfl
  | storeSleepByte half b t g hout hg =>
      refine ⟨?_, step_tableOk h.table hg⟩
      cases step_outcome h.table hg with
      | setSleepTime t c hc =>
          exact ⟨rfl, rfl, rfl, fun _ => .refl _, rfl, rfl, fun _ _ _ _ => rfl,
            fun j _ => asleep_sp _ _ _ _, fun j => Or.inl (asleep_running _ _ _ _), fun _ => Or.inl⟩
  | yield sp writes g hout hown hg =>
      constructor
      · cases step_outcome h.table hg with
        | yield _ _ hs =>
            exact switch_elsewhere hown hs rfl rfl rfl rfl (fun _ => rfl) fun _ => rfl
      · rw [markStarted, mark_g]
        exact step_tableOk h.table hg
  | tick sp writes g hown hg =>
      constructor
      · cases step_outcome h.table hg with
        | tick _ _ hs =>
            apply switch_elsewhere hown hs rfl rfl rfl rfl (fun j => ticked_running _ _ _)
            intro j
            simp only [ticked]
            split
            · exact TaskDefinition.countDown_sp _
            · rfl
      · rw [markStarted, mark_g]
        exact step_tableOk h.table hg

end Calls

end SmartblocksOs.System
