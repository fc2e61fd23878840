/-
# SmartblocksOs.System.Globals -- the task table of `system.cpp` and the C code that works on it

The globals of `system.cpp` (`tasks`, `task_count`, `current_task` and the three stack pointers) and
the RAM are one record, and every C function is a function on it, statement by statement and under
the name it has in the source. An access `tasks[i]` with `i` outside the array and a `%` by zero are
undefined behaviour in C: here they make the function return `none`, so a proof that a function
returns `some` is a proof that it makes no such access.

What the assembler macros do to the registers is the subject of `SmartblocksOs.Context`. At this
level a switch is given the two things the C code sees of it: the stack pointer that `SAVE_CONTEXT`
stored in `tempSp`, and the RAM as the suspended code left it (`Suspended`).
-/
import Mathlib.Data.BitVec
import Mathlib.Logic.Function.Basic

namespace SmartblocksOs.System

/-! ## Machine words

Addresses and return addresses have 16 bits, `sleep_time` is a signed `int` of 16 bits, and memory is
accessed by the byte. -/

/-- A byte of memory or of a register. -/
abbrev Byte := BitVec 8

/-- `stackPointer`, that is `uint8_t*`: pointers are sixteen bits wide. -/
abbrev Addr := BitVec 16

/-- The memory. -/
abbrev Ram := Addr → Byte

/-- A `uint16_t` stored in a `uint8_t`. -/
def lowByte (x : BitVec 16) : Byte := x.setWidth 8

/-- `x >> 8` stored in a `uint8_t`. -/
def highByte (x : BitVec 16) : Byte := (x >>> 8).setWidth 8

theorem lowByte_append (high low : Byte) : lowByte (high ++ low) = low :=
  BitVec.setWidth_append_eq_right

theorem highByte_append (high low : Byte) : highByte (high ++ low) = high := by
  apply BitVec.eq_of_getLsbD_eq
  intro i hi
  rw [highByte, BitVec.getLsbD_setWidth, BitVec.getLsbD_ushiftRight, BitVec.getLsbD_append]
  simp [hi]

/-- A word is put together from its bytes. -/
theorem highByte_append_lowByte (x : BitVec 16) : highByte x ++ lowByte x = x := by
  apply BitVec.eq_of_getLsbD_eq
  intro i hi
  rw [BitVec.getLsbD_append, highByte, lowByte]
  split
  · rename_i hlt
    simp [hlt]
  · rename_i hge
    simp [show i - 8 < 8 by omega, show 8 + (i - 8) = i by omega]

/-- One of the two bytes of a 16-bit variable. The processor stores them one at a time. -/
inductive Half where
  | low
  | high
  deriving DecidableEq, Repr

namespace Half

/-- The other byte of the two. -/
def other : Half → Half
  | low => high
  | high => low

/-- This byte of `x`. -/
def of (x : BitVec 16) : Half → Byte
  | low => lowByte x
  | high => highByte x

/-- The variable holds `x`, and `b` is stored at this byte of it. -/
def store (x : BitVec 16) (b : Byte) : Half → BitVec 16
  | low => highByte x ++ b
  | high => b ++ lowByte x

/-- Once both bytes of `t` are stored, in either order, the variable holds `t`. -/
theorem store_store (half : Half) (x t : BitVec 16) :
    half.other.store (half.store x (half.of t)) (half.other.of t) = t := by
  cases half with
  | low =>
      show highByte t ++ lowByte (highByte x ++ lowByte t) = t
      rw [lowByte_append, highByte_append_lowByte]
  | high =>
      show highByte (highByte t ++ lowByte x) ++ lowByte t = t
      rw [highByte_append, highByte_append_lowByte]

end Half

/-- `memset(start, value, len)`. -/
def memset (ram : Ram) (start : Addr) (value : Byte) (len : Nat) : Ram :=
  fun a => if (a - start).toNat < len then value else ram a

/-! ## The data of `system.h`

`task_count` and `current_task` are `int` in the source. They stay far below its bounds, so that they are
integers here, and indices into `tasks` are checked. -/

/-- `TASK_STACK_SIZE`. -/
def taskStackSize : Nat := 256

/-- `MAX_TASKS`. -/
def maxTasks : Nat := 3

/-- `TICK_INTERVAL`, in milliseconds. -/
def tickInterval : Int16 := 10

instance : NeZero maxTasks := ⟨by decide⟩

/-- `task_definition`. -/
structure TaskDefinition where
  sp : Addr
  running : Bool
  sleepTime : Int16
  deriving DecidableEq, Repr

/-- The test both `chooseNextTask` and its callers rely on: `running && sleep_time <= 0`. -/
def TaskDefinition.Eligible (t : TaskDefinition) : Prop :=
  t.running = true ∧ t.sleepTime ≤ 0

instance (t : TaskDefinition) : Decidable t.Eligible :=
  inferInstanceAs (Decidable (_ ∧ _))

/-- The globals of `system.cpp`, and the RAM the task stacks live in. -/
structure Globals where
  stackTop : Addr
  tasksStackTop : Addr
  tempSp : Addr
  tasks : Fin maxTasks → TaskDefinition
  taskCount : Int
  currentTask : Int
  ram : Ram

/-- The array index `i` of an `n`-element array; `none` outside the array. -/
def slot? (n : Nat) (i : Int) : Option (Fin n) :=
  if h : 0 ≤ i ∧ i.toNat < n then some ⟨i.toNat, h.2⟩ else none

/-- An index that is a slot. -/
theorem slot?_eq_some {n : Nat} {i : Int} {j : Fin n} : slot? n i = some j ↔ (j : Int) = i := by
  unfold slot?
  split
  · rename_i h
    rw [Option.some.injEq, Fin.ext_iff]
    simp only
    omega
  · rename_i h
    simp only [reduceCtorEq, false_iff]
    have := j.isLt
    omega

@[simp]
theorem slot?_coe {n : Nat} (j : Fin n) : slot? n (j : Int) = some j :=
  slot?_eq_some.mpr rfl

/-- Every index in range is one. -/
theorem exists_slot {n : Nat} {i : Int} (h0 : 0 ≤ i) (hn : i < n) : ∃ j : Fin n, (j : Int) = i :=
  ⟨⟨i.toNat, by omega⟩, by simp only; omega⟩

/-! ## Sleeping and choosing

The two loops of `system.cpp` that every tick runs. -/

section Table

variable {n : Nat} (tasks : Fin n → TaskDefinition)

/-- One pass of the loop in `update_sleep_time`. -/
def TaskDefinition.countDown (t : TaskDefinition) : TaskDefinition :=
  if t.running ∧ 0 < t.sleepTime then { t with sleepTime := t.sleepTime - tickInterval } else t

/-- `update_sleep_time`, from index `i` on with `k` passes left. -/
def updateSleepTimeFrom (tasks : Fin n → TaskDefinition) :
    Nat → Int → Option (Fin n → TaskDefinition)
  | 0, _ => some tasks
  | k + 1, i => do
      let j ← slot? n i
      updateSleepTimeFrom (Function.update tasks j (tasks j).countDown) k (i + 1)

/-- `update_sleep_time`. -/
def updateSleepTime (taskCount : Int) : Option (Fin n → TaskDefinition) :=
  updateSleepTimeFrom tasks taskCount.toNat 0

/-- The loop of `chooseNextTask` with `k` passes left, `next` being the slot looked at last. -/
def chooseFrom (taskCount : Int) : Nat → Int → Option Int
  | 0, _ => some (-1)
  | k + 1, next => do
      guard (taskCount ≠ 0)
      let next := (next + 1).tmod taskCount
      let j ← slot? n next
      if (tasks j).Eligible then some next else chooseFrom taskCount k next

/-- `chooseNextTask`. -/
def chooseNextTask (taskCount currentTask : Int) : Option Int :=
  chooseFrom tasks taskCount taskCount.toNat currentTask

/-- The search in `schedule_task` for a slot whose task has finished, from index `i` on with `k`
passes left; `-1` when there is none. -/
def findFinishedFrom : Nat → Int → Option Int
  | 0, _ => some (-1)
  | k + 1, i => do
      let j ← slot? n i
      if (tasks j).running = false then some i else findFinishedFrom k (i + 1)

end Table

/-! ## `schedule_task`

The function as a whole, for the level at which it is one step; its steps are in
`SmartblocksOs.System.Creation`. -/

namespace Globals

/-- `tasksStackTop - taskNum * TASK_STACK_SIZE`. -/
def top (g : Globals) (taskNum : Int) : Addr :=
  g.tasksStackTop - BitVec.ofInt 16 (taskNum * taskStackSize)

/-- The `memset` and the four stores that build the frame of a new task. -/
def buildFrame (g : Globals) (taskNum : Int) (address args : BitVec 16) : Globals :=
  let top := g.top taskNum
  let registerStartAddr := top - 3
  let ram := memset g.ram (top - BitVec.ofNat 16 taskStackSize) 0 taskStackSize
  let ram := Function.update ram top (lowByte address)
  let ram := Function.update ram (top - 1) (highByte address)
  let ram := Function.update ram (registerStartAddr - 24) (lowByte args)
  let ram := Function.update ram (registerStartAddr - 25) (highByte args)
  { g with ram := ram }

/-- The three stores between `cli` and `sei`. -/
def commitTask (g : Globals) (taskNum : Int) : Option Globals := do
  let j ← slot? maxTasks taskNum
  some { g with
    tasks := Function.update g.tasks j { sp := g.top taskNum - 35, sleepTime := -1, running := true } }

/-- What `schedule_task` does once it has its slot. -/
def fillSlot (g : Globals) (taskNum : Int) (address args : BitVec 16) : Option (Int × Globals) := do
  let g ← (g.buildFrame taskNum address args).commitTask taskNum
  some (0, g)

/-- `System::schedule_task`: the value it returns, and the globals it leaves. -/
def scheduleTask (g : Globals) (address args : BitVec 16) : Option (Int × Globals) :=
  if g.taskCount = maxTasks then do
    let finishedTask ← findFinishedFrom g.tasks g.taskCount.toNat 0
    if finishedTask = -1 then some (-1, g) else g.fillSlot finishedTask address args
  else
    { g with taskCount := g.taskCount + 1 }.fillSlot g.taskCount address args

/-! ## Switching

The C code between `SAVE_CONTEXT` and `RESTORE_CONTEXT`. -/

/-- `if(current_task == -1) stackTop = tempSp; else tasks[current_task].sp = tempSp;` -/
def storeSp (g : Globals) : Option Globals :=
  if g.currentTask = -1 then
    some { g with stackTop := g.tempSp }
  else do
    let j ← slot? maxTasks g.currentTask
    some { g with tasks := Function.update g.tasks j { g.tasks j with sp := g.tempSp } }

/-- `if(current_task == -1) tempSp = stackTop; else tempSp = tasks[current_task].sp;` -/
def loadSp (g : Globals) : Option Globals :=
  if g.currentTask = -1 then
    some { g with tempSp := g.stackTop }
  else do
    let j ← slot? maxTasks g.currentTask
    some { g with tempSp := (g.tasks j).sp }

/-- The C code between `SAVE_CONTEXT` and `RESTORE_CONTEXT` of `do_something_else`. -/
def switchTasks (g : Globals) : Option Globals := do
  let g ← g.storeSp
  let next ← chooseNextTask g.tasks g.taskCount g.currentTask
  { g with currentTask := next }.loadSp

/-- The C code between the macros in the tick handler, which repeats that of `do_something_else` after
`update_sleep_time`. -/
def tickTasks (g : Globals) : Option Globals := do
  let tasks ← updateSleepTime g.tasks g.taskCount
  { g with tasks := tasks }.switchTasks

/-- What the C code of a switch is handed by `SAVE_CONTEXT`: the stack pointer of the suspended code,
and the RAM with its frame on it. -/
structure Suspended where
  sp : Addr
  ram : Ram

/-- `do_something_else`, as the C code sees it. -/
def doSomethingElse (g : Globals) (w : Suspended) : Option Globals :=
  { g with tempSp := w.sp, ram := w.ram }.switchTasks

/-- `ISR(TIMER0_COMPA_vect)`, as the C code sees it. -/
def timer0CompA (g : Globals) (w : Suspended) : Option Globals :=
  { g with tempSp := w.sp, ram := w.ram }.tickTasks

/-! ## `exit_task`, `yield` and `sleep`

The assignment of `sleep` is two stores of a byte each on the AVR, which has no other; `setSleepTime` is
the two of them together. -/

/-- `tasks[current_task].running = false`, the first statement of `exit_task`. -/
def stopCurrent (g : Globals) : Option Globals := do
  let j ← slot? maxTasks g.currentTask
  some { g with tasks := Function.update g.tasks j { g.tasks j with running := false } }

/-- `tasks[current_task].sleep_time = t`, the first statement of `sleep`. -/
def setSleepTime (g : Globals) (t : Int16) : Option Globals := do
  let j ← slot? maxTasks g.currentTask
  some { g with tasks := Function.update g.tasks j { g.tasks j with sleepTime := t } }

/-- The same on the processor, which stores one byte of `sleep_time` at a time: the store of `b` at the
byte `half`. -/
def storeSleepByte (g : Globals) (half : Half) (b : Byte) : Option Globals := do
  let j ← slot? maxTasks g.currentTask
  let sleepTime := Int16.ofBitVec (half.store (g.tasks j).sleepTime.toBitVec b)
  some { g with tasks := Function.update g.tasks j { g.tasks j with sleepTime := sleepTime } }

/-- `System::exit_task`. -/
def exitTask (g : Globals) (w : Suspended) : Option Globals := do
  let g ← g.stopCurrent
  g.doSomethingElse w

/-- `System::yield`. -/
def yield (g : Globals) (w : Suspended) : Option Globals :=
  g.doSomethingElse w

/-- `System::sleep`. -/
def sleep (g : Globals) (t : Int16) (w : Suspended) : Option Globals := do
  let g ← g.setSleepTime t
  g.doSomethingElse w

/-- The constructor `System::System()`, entered with stack pointer `sp`; the other globals are zero
as the C runtime leaves them. -/
def construct (sp : Addr) (ram : Ram) : Globals :=
  let stackTop := sp - 32
  { stackTop := stackTop
    tasksStackTop := stackTop - BitVec.ofNat 16 taskStackSize
    tempSp := 0
    tasks := fun _ => { sp := 0, running := false, sleepTime := 0 }
    taskCount := 0
    currentTask := -1
    ram := ram }

end Globals

end SmartblocksOs.System
