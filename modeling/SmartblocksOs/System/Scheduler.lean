/-
# SmartblocksOs.System.Scheduler -- the scheduler as a transition system, and its invariant

The operations of `system.cpp` are the events of a transition system on `Globals`: `schedule_task`,
`exit_task`, `yield`, `sleep`, the timer tick, and the code of the running task (which may leave
anything in RAM). `exit_task` and `sleep` are two statements each, and the tick may fall between
them, so their first statements are also events of their own.

For each C function there is one lemma that says everything it does (`scheduleTask_spec`,
`switchTasks_spec`, `timer0CompA_spec`). The invariant of the table follows from those, and with it
that no operation reads or writes outside `tasks` or takes a remainder by zero.
-/
import SmartblocksOs.Foundation.Runs
import SmartblocksOs.System.Selection

namespace SmartblocksOs.System

open Foundation

/-! ## Events

An event is something after which the program may be interrupted. The voluntary switches and the tick are
events as a whole, since interrupts are disabled while they last. -/

/-- The operations of `System`, each as one step, and the first statements of `exit_task` and `sleep`
apart, as a tick may come behind them. -/
inductive Event where
  /-- The code that is running changes RAM. -/
  | work (ram : Ram)
  | scheduleTask (address args : BitVec 16)
  | exitTask (w : Globals.Suspended)
  | yield (w : Globals.Suspended)
  | sleep (t : Int16) (w : Globals.Suspended)
  | tick (w : Globals.Suspended)
  /-- The first statement of `exit_task`, before `do_something_else` has disabled interrupts. -/
  | stopCurrent
  /-- The first statement of `sleep`. -/
  | setSleepTime (t : Int16)

namespace Event

/-- `exit_task` and `sleep` are called by a task; `schedule_task` and, in `Resource::lock`, `yield`
also by `main`. -/
def Enabled (g : Globals) : Event → Prop
  | work _ | scheduleTask _ _ | yield _ | tick _ => True
  | exitTask _ | sleep _ _ | stopCurrent | setSleepTime _ => g.currentTask ≠ -1

instance (g : Globals) (e : Event) : Decidable (e.Enabled g) := by
  cases e <;> unfold Enabled <;> infer_instance

/-- What the operation does to the globals. -/
def exec (g : Globals) : Event → Option Globals
  | work ram => some { g with ram := ram }
  | scheduleTask address args => (g.scheduleTask address args).map Prod.snd
  | exitTask w => g.exitTask w
  | yield w => g.yield w
  | sleep t w => g.sleep t w
  | tick w => g.timer0CompA w
  | stopCurrent => g.stopCurrent
  | setSleepTime t => g.setSleepTime t

/-- The events that end with `RESTORE_CONTEXT` of the chosen task. -/
def Switches : Event → Prop
  | exitTask _ | yield _ | sleep _ _ | tick _ => True
  | work _ | scheduleTask _ _ | stopCurrent | setSleepTime _ => False

end Event

/-- A step of the scheduler: an operation where it can occur. -/
def step (g : Globals) (e : Event) : Option Globals :=
  if e.Enabled g then e.exec g else none

/-- The state before `main` schedules its first task. -/
def Initial (g : Globals) : Prop :=
  g.taskCount = 0 ∧ g.currentTask = -1 ∧ ∀ j, (g.tasks j).running = false

/-- The constructor leaves an initial state. -/
theorem initial_construct (sp : Addr) (ram : Ram) : Initial (Globals.construct sp ram) :=
  ⟨rfl, rfl, fun _ => rfl⟩

/-! ## The invariant of the table

`TableOk` is what keeps every access within the array: the counters are in range, and no slot from
`task_count` on is running. The second half also says that every running task is among the slots that
`chooseNextTask` looks at. -/

/-- The counters are in range and no slot from `task_count` on is running. -/
structure TableOk (g : Globals) : Prop where
  count_nonneg : 0 ≤ g.taskCount
  count_le : g.taskCount ≤ maxTasks
  current_ge : -1 ≤ g.currentTask
  current_lt : g.currentTask < g.taskCount
  unused : ∀ j : Fin maxTasks, g.taskCount ≤ j → (g.tasks j).running = false

/-- The empty table is in order. -/
theorem Initial.tableOk {g : Globals} (h : Initial g) : TableOk g := by
  obtain ⟨hc, hcur, hrun⟩ := h
  exact ⟨by omega, by rw [hc]; decide, by omega, by omega, fun j _ => hrun j⟩

namespace TableOk

variable {g : Globals}

/-- A running slot lies below `task_count`. -/
theorem lt_count_of_running (h : TableOk g) {j : Fin maxTasks} (hj : (g.tasks j).running = true) :
    (j : Int) < g.taskCount := by
  by_contra hge
  rw [h.unused j (by omega)] at hj
  exact Bool.false_ne_true hj

/-- A current task that is not the idle loop is a slot of the table. -/
theorem exists_current (h : TableOk g) (hcur : g.currentTask ≠ -1) :
    ∃ j : Fin maxTasks, (j : Int) = g.currentTask := by
  have h1 := h.current_ge
  have h2 := h.current_lt
  have h3 := h.count_le
  exact exists_slot (by omega) (by omega)

/-- The invariant reads the counters and the `running` flags only. -/
theorem congr {g' : Globals} (h : TableOk g) (hc : g'.taskCount = g.taskCount)
    (hcur : g'.currentTask = g.currentTask)
    (hrun : ∀ j, (g'.tasks j).running = true → (g.tasks j).running = true) : TableOk g' := by
  refine ⟨by rw [hc]; exact h.count_nonneg, by rw [hc]; exact h.count_le,
    by rw [hcur]; exact h.current_ge, by rw [hc, hcur]; exact h.current_lt, fun j hj => ?_⟩
  by_contra hne
  have hr := hrun j (by simpa using hne)
  rw [h.unused j (by omega)] at hr
  exact Bool.false_ne_true hr

end TableOk

/-! ## What a switch does

A switch saves, chooses and restores. `Switched` is what can be said of it without knowing which slot was
chosen, `Selected` what can be said of the slot. -/

/-- `current_task` after a switch: an eligible slot, or `-1` when no slot is eligible. -/
def Selected (g : Globals) : Prop :=
  (∃ j : Fin maxTasks, (j : Int) = g.currentTask ∧ (g.tasks j).Eligible) ∨
    (g.currentTask = -1 ∧ ∀ j : Fin maxTasks, ¬ (g.tasks j).Eligible)

/-- Everything `switchTasks` does: the stack pointer in `tempSp` is saved for the suspended context,
`current_task` is chosen, and `tempSp` becomes the saved pointer of the context that is resumed. -/
structure Switched (g g' : Globals) : Prop where
  running : ∀ j, (g'.tasks j).running = (g.tasks j).running
  sleepTime : ∀ j, (g'.tasks j).sleepTime = (g.tasks j).sleepTime
  sp : ∀ j, (g'.tasks j).sp = if (j : Int) = g.currentTask then g.tempSp else (g.tasks j).sp
  stackTop : g'.stackTop = if g.currentTask = -1 then g.tempSp else g.stackTop
  tempSp_idle : g'.currentTask = -1 → g'.tempSp = g'.stackTop
  tempSp_task : ∀ j : Fin maxTasks, (j : Int) = g'.currentTask → g'.tempSp = (g'.tasks j).sp
  taskCount : g'.taskCount = g.taskCount
  tasksStackTop : g'.tasksStackTop = g.tasksStackTop
  ram : g'.ram = g.ram
  selected : Selected g'

/-- Saving the stack pointer, which touches one `sp` or `stackTop` only. -/
theorem storeSp_spec {g : Globals} (h : TableOk g) :
    ∃ g', g.storeSp = some g' ∧ (∀ j, (g'.tasks j).running = (g.tasks j).running) ∧
      (∀ j, (g'.tasks j).sleepTime = (g.tasks j).sleepTime) ∧
      (∀ j, (g'.tasks j).sp = if (j : Int) = g.currentTask then g.tempSp else (g.tasks j).sp) ∧
      (g'.stackTop = if g.currentTask = -1 then g.tempSp else g.stackTop) ∧
      g'.taskCount = g.taskCount ∧ g'.currentTask = g.currentTask ∧
      g'.tasksStackTop = g.tasksStackTop ∧ g'.ram = g.ram := by
  unfold Globals.storeSp
  by_cases hcur : g.currentTask = -1
  · rw [if_pos hcur]
    refine ⟨_, rfl, fun _ => rfl, fun _ => rfl, fun j => ?_, by rw [if_pos hcur], rfl, rfl, rfl, rfl⟩
    rw [if_neg (by omega)]
  · rw [if_neg hcur]
    obtain ⟨c, hc⟩ := h.exists_current hcur
    refine ⟨{ g with tasks := Function.update g.tasks c { g.tasks c with sp := g.tempSp } },
      by rw [slot?_eq_some.mpr hc]; rfl, fun j => ?_, fun j => ?_, fun j => ?_,
      by rw [if_neg hcur], rfl, rfl, rfl, rfl⟩
    all_goals
      by_cases hj : j = c
      · subst hj
        simp [hc]
      · have hne : (j : Int) ≠ g.currentTask := by
          rw [← hc]
          exact fun he => hj (Fin.ext (by omega))
        simp [hj, hne]

/-- Loading the stack pointer of the chosen context. -/
theorem loadSp_spec {g : Globals} (hcur : g.currentTask = -1 ∨ ∃ j : Fin maxTasks, (j : Int) = g.currentTask) :
    ∃ sp, g.loadSp = some { g with tempSp := sp } ∧ (g.currentTask = -1 → sp = g.stackTop) ∧
      ∀ j : Fin maxTasks, (j : Int) = g.currentTask → sp = (g.tasks j).sp := by
  unfold Globals.loadSp
  rcases hcur with hidle | ⟨c, hc⟩
  · rw [if_pos hidle]
    refine ⟨_, rfl, fun _ => rfl, fun j hj => ?_⟩
    omega
  · rw [if_neg (by omega), slot?_eq_some.mpr hc]
    refine ⟨_, rfl, fun h => ?_, fun j hj => ?_⟩
    · omega
    · obtain rfl : j = c := Fin.ext (by omega)
      rfl

/-- A switch comes back, and selects what it should. -/
theorem switchTasks_spec {g : Globals} (h : TableOk g) :
    ∃ g', g.switchTasks = some g' ∧ Switched g g' := by
  obtain ⟨m, hm, hrun, hsleep, hsp, htop, hcount, hcur, htst, hram⟩ := storeSp_spec h
  have hel : ∀ j, (m.tasks j).Eligible → (j : Int) < g.taskCount := fun j hj =>
    h.lt_count_of_running (by rw [← hrun j]; exact hj.1)
  have h0 : 0 ≤ m.taskCount := by rw [hcount]; exact h.count_nonneg
  have hle : m.taskCount ≤ maxTasks := by rw [hcount]; exact h.count_le
  have hge : -1 ≤ m.currentTask := by rw [hcur]; exact h.current_ge
  have hchoose := chooseNextTask_spec m.tasks h0 hle hge
  -- whichever slot is chosen, `loadSp` and the bookkeeping below are the same
  have hfinish : ∀ next, chooseNextTask m.tasks m.taskCount m.currentTask = some next →
      Selected { m with currentTask := next } → ∃ g', g.switchTasks = some g' ∧ Switched g g' := by
    intro next hnext hsel
    obtain ⟨sp, hload, hidle, htask⟩ := loadSp_spec (g := { m with currentTask := next })
      (hsel.symm.imp (fun h => h.1) fun ⟨j, hj, _⟩ => ⟨j, hj⟩)
    refine ⟨{ m with currentTask := next, tempSp := sp }, ?_,
      ⟨hrun, hsleep, hsp, htop, hidle, htask, hcount, htst, hram, hsel⟩⟩
    simp only [Globals.switchTasks, hm, Option.bind_eq_bind, Option.bind_some, hnext, hload]
  rcases hchoose with ⟨hnone, hall⟩ | ⟨j, hj, -, hje⟩
  · refine hfinish (-1) hnone (Or.inr ⟨rfl, fun j hj => hall j ?_ hj⟩)
    rw [hcount]
    exact hel j hj
  · exact hfinish j hj (Or.inl ⟨j, rfl, hje⟩)

/-- A switch keeps the table in order. -/
theorem Switched.tableOk {g g' : Globals} (hs : Switched g g') (h : TableOk g) : TableOk g' := by
  have h0 := h.count_nonneg
  refine ⟨by rw [hs.taskCount]; exact h0, by rw [hs.taskCount]; exact h.count_le, ?_, ?_, ?_⟩
  · rcases hs.selected with ⟨j, hj, -⟩ | ⟨hidle, -⟩ <;> omega
  · rw [hs.taskCount]
    rcases hs.selected with ⟨j, hj, hel⟩ | ⟨hidle, -⟩
    · rw [← hj]
      exact h.lt_count_of_running (by rw [← hs.running j]; exact hel.1)
    · omega
  · intro j hj
    rw [hs.running j]
    exact h.unused j (by rw [← hs.taskCount]; exact hj)

/-! ## What the other operations do

Each of them stores to one slot at most, which is the current one. -/

/-- The globals when the tick handler reaches the switch: every slot counted down once. -/
def ticked (g : Globals) (w : Globals.Suspended) : Globals :=
  { g with
    tempSp := w.sp
    ram := w.ram
    tasks := fun j => if (j : Int) < g.taskCount then (g.tasks j).countDown else g.tasks j }

theorem ticked_running (g : Globals) (w : Globals.Suspended) (j : Fin maxTasks) :
    ((ticked g w).tasks j).running = (g.tasks j).running := by
  simp only [ticked]
  split <;> simp

theorem ticked_tableOk {g : Globals} (h : TableOk g) (w : Globals.Suspended) :
    TableOk (ticked g w) :=
  h.congr rfl rfl fun j hj => by rwa [ticked_running] at hj

/-- The tick comes back: the sleepers are counted down, and then it switches. -/
theorem timer0CompA_spec {g : Globals} (h : TableOk g) (w : Globals.Suspended) :
    ∃ g', g.timer0CompA w = some g' ∧ Switched (ticked g w) g' := by
  obtain ⟨g', hg', hs⟩ := switchTasks_spec (ticked_tableOk h w)
  refine ⟨g', ?_, hs⟩
  simp only [Globals.timer0CompA, Globals.tickTasks, updateSleepTime_eq h.count_nonneg h.count_le,
    Option.bind_eq_bind, Option.bind_some]
  exact hg'

/-- The globals when `SAVE_CONTEXT` is through: the frame of the suspended code is on its stack. -/
def saved (g : Globals) (w : Globals.Suspended) : Globals :=
  { g with tempSp := w.sp, ram := w.ram }

theorem saved_tableOk {g : Globals} (h : TableOk g) (w : Globals.Suspended) :
    TableOk (saved g w) :=
  h.congr rfl rfl fun _ => id

/-- `do_something_else` comes back. -/
theorem doSomethingElse_spec {g : Globals} (h : TableOk g) (w : Globals.Suspended) :
    ∃ g', g.doSomethingElse w = some g' ∧ Switched (saved g w) g' :=
  switchTasks_spec (saved_tableOk h w)

/-- The globals after the first statement of `exit_task`, when slot `c` is current. -/
def stopped (g : Globals) (c : Fin maxTasks) : Globals :=
  { g with tasks := Function.update g.tasks c { g.tasks c with running := false } }

/-- What the first statement of `exit_task` does. -/
theorem stopCurrent_eq {g : Globals} {c : Fin maxTasks} (hc : (c : Int) = g.currentTask) :
    g.stopCurrent = some (stopped g c) := by
  simp only [Globals.stopCurrent, slot?_eq_some.mpr hc, Option.bind_eq_bind, Option.bind_some,
    stopped]

theorem stopped_running (g : Globals) (c j : Fin maxTasks) :
    ((stopped g c).tasks j).running = if j = c then false else (g.tasks j).running := by
  by_cases hj : j = c
  · subst hj
    simp [stopped]
  · simp [stopped, hj]

@[simp]
theorem stopped_sp (g : Globals) (c j : Fin maxTasks) :
    ((stopped g c).tasks j).sp = (g.tasks j).sp := by
  by_cases hj : j = c
  · subst hj
    simp [stopped]
  · simp [stopped, hj]

theorem stopped_tableOk {g : Globals} (h : TableOk g) (c : Fin maxTasks) : TableOk (stopped g c) :=
  h.congr rfl rfl fun j hj => by
    rw [stopped_running] at hj
    split at hj
    · exact absurd hj Bool.false_ne_true
    · exact hj

/-- The globals after the first statement of `sleep`, when slot `c` is current. -/
def asleep (g : Globals) (c : Fin maxTasks) (t : Int16) : Globals :=
  { g with tasks := Function.update g.tasks c { g.tasks c with sleepTime := t } }

/-- What the first statement of `sleep` does. -/
theorem setSleepTime_eq {g : Globals} {c : Fin maxTasks} (hc : (c : Int) = g.currentTask)
    (t : Int16) : g.setSleepTime t = some (asleep g c t) := by
  simp only [Globals.setSleepTime, slot?_eq_some.mpr hc, Option.bind_eq_bind, Option.bind_some,
    asleep]

/-- A store of one byte of `sleep_time` leaves a slot like some `sleep` would. -/
theorem storeSleepByte_eq {g : Globals} {c : Fin maxTasks} (hc : (c : Int) = g.currentTask)
    (half : Half) (b : Byte) : g.storeSleepByte half b =
      some (asleep g c (Int16.ofBitVec (half.store (g.tasks c).sleepTime.toBitVec b))) := by
  simp only [Globals.storeSleepByte, slot?_eq_some.mpr hc, Option.bind_eq_bind, Option.bind_some,
    asleep]

/-- The two stores, with nothing in between, are the assignment. -/
theorem storeSleepByte_other {g : Globals} {c : Fin maxTasks} (hc : (c : Int) = g.currentTask)
    (half : Half) (t : Int16) :
    (g.storeSleepByte half (half.of t.toBitVec)).bind
      (fun g => g.storeSleepByte half.other (half.other.of t.toBitVec)) = g.setSleepTime t := by
  rw [storeSleepByte_eq hc, Option.bind_some, storeSleepByte_eq (g := asleep g c _) hc,
    setSleepTime_eq hc]
  simp only [asleep, Function.update_self, Int16.toBitVec_ofBitVec, Half.store_store,
    Int16.ofBitVec_toBitVec, Function.update_idem]

@[simp]
theorem asleep_running (g : Globals) (c j : Fin maxTasks) (t : Int16) :
    ((asleep g c t).tasks j).running = (g.tasks j).running := by
  by_cases hj : j = c
  · subst hj
    simp [asleep]
  · simp [asleep, hj]

@[simp]
theorem asleep_sp (g : Globals) (c j : Fin maxTasks) (t : Int16) :
    ((asleep g c t).tasks j).sp = (g.tasks j).sp := by
  by_cases hj : j = c
  · subst hj
    simp [asleep]
  · simp [asleep, hj]

theorem asleep_tableOk {g : Globals} (h : TableOk g) (c : Fin maxTasks) (t : Int16) :
    TableOk (asleep g c t) :=
  h.congr rfl rfl fun j hj => by rwa [asleep_running] at hj

/-! ## `schedule_task`

As a single step: it fails and changes nothing, or it takes one slot, fills it and starts it. -/

/-- Slot `j` is the one `schedule_task` takes: the next fresh slot, or when all have been used the
first finished one. -/
def Takes (g : Globals) (j : Fin maxTasks) : Prop :=
  (g.taskCount < maxTasks ∧ (j : Int) = g.taskCount) ∨
    (g.taskCount = maxTasks ∧ FirstFinished g.tasks j)

instance (g : Globals) (j : Fin maxTasks) : Decidable (Takes g j) :=
  inferInstanceAs (Decidable (_ ∨ _))

/-- The globals `schedule_task` leaves when it takes slot `j`. -/
def filled (g : Globals) (j : Fin maxTasks) (address args : BitVec 16) : Globals :=
  { g.buildFrame j address args with
    taskCount := if g.taskCount = maxTasks then g.taskCount else g.taskCount + 1
    tasks := Function.update g.tasks j { sp := g.top j - 35, sleepTime := -1, running := true } }

/-- A slot that is taken is a free one. -/
theorem Takes.not_running {g : Globals} {j : Fin maxTasks} (h : TableOk g) (ht : Takes g j) :
    (g.tasks j).running = false := by
  rcases ht with ⟨-, hj⟩ | ⟨-, hj⟩
  · exact h.unused j (by omega)
  · exact hj.1

/-- A call takes one slot. -/
theorem Takes.unique {g : Globals} {i j : Fin maxTasks} (hi : Takes g i) (hj : Takes g j) :
    i = j := by
  rcases hi with ⟨hlt, hi⟩ | ⟨heq, hi⟩ <;> rcases hj with ⟨hlt', hj⟩ | ⟨heq', hj⟩
  · exact Fin.ext (by omega)
  · omega
  · omega
  · exact hi.unique hj

/-- `schedule_task` returns `-1` and does nothing when every slot is running, and otherwise returns
`0` with exactly one slot filled. -/
theorem scheduleTask_spec {g : Globals} (h : TableOk g) (address args : BitVec 16) :
    (g.scheduleTask address args = some (-1, g) ∧ ∀ j, (g.tasks j).running = true) ∨
      ∃ j, Takes g j ∧ g.scheduleTask address args = some (0, filled g j address args) := by
  unfold Globals.scheduleTask
  -- the two branches of the source: search among the used slots, or take a fresh one
  by_cases hfull : g.taskCount = maxTasks
  · rw [if_pos hfull]
    have hnat : g.taskCount.toNat = maxTasks := by omega
    rw [hnat]
    rcases findFinished_spec g.tasks with ⟨hs, hall⟩ | ⟨j, hs, hj⟩
    · exact Or.inl ⟨by rw [hs]; rfl, hall⟩
    · refine Or.inr ⟨j, Or.inr ⟨hfull, hj⟩, ?_⟩
      rw [hs]
      simp only [Option.bind_eq_bind, Option.bind_some]
      rw [if_neg (by omega)]
      simp only [Globals.fillSlot, Globals.commitTask, slot?_coe, Option.bind_eq_bind,
        Option.bind_some, filled]
      rw [if_pos hfull]
      rfl
  · rw [if_neg hfull]
    have hlt : g.taskCount < maxTasks := lt_of_le_of_ne h.count_le hfull
    obtain ⟨j, hj⟩ := exists_slot h.count_nonneg hlt
    refine Or.inr ⟨j, Or.inl ⟨hlt, hj⟩, ?_⟩
    simp only [Globals.fillSlot, Globals.commitTask, ← hj, slot?_coe, Option.bind_eq_bind,
      Option.bind_some, filled]
    rw [hj, if_neg hfull]
    rfl

theorem filled_running (g : Globals) (j i : Fin maxTasks) (address args : BitVec 16) :
    ((filled g j address args).tasks i).running = if i = j then true else (g.tasks i).running := by
  by_cases hi : i = j
  · subst hi
    simp [filled]
  · simp [filled, hi]

/-- A slot that has been filled keeps the table in order. -/
theorem filled_tableOk {g : Globals} (h : TableOk g) {j : Fin maxTasks} (ht : Takes g j)
    (address args : BitVec 16) : TableOk (filled g j address args) := by
  have h0 := h.count_nonneg
  have hle := h.count_le
  have hge := h.current_ge
  have hlt := h.current_lt
  have hj := j.isLt
  have hcount : (filled g j address args).taskCount =
      if g.taskCount = maxTasks then g.taskCount else g.taskCount + 1 := rfl
  have hcur : (filled g j address args).currentTask = g.currentTask := rfl
  rcases ht with ⟨hfresh, hji⟩ | ⟨hfull, -⟩
  · rw [if_neg (by omega)] at hcount
    refine ⟨by omega, by omega, by omega, by omega, fun i hi => ?_⟩
    rw [filled_running, if_neg (fun he => by subst he; omega)]
    exact h.unused i (by omega)
  · rw [if_pos hfull] at hcount
    refine ⟨by omega, by omega, by omega, by omega, fun i hi => ?_⟩
    have := i.isLt
    omega

/-! ## Every step, by what it does

The inversion of the step function. All invariants below are proved by cases on `Outcome` and never by
unfolding a step. -/

/-- What an event does to a sound table, one constructor for each way it can go. -/
inductive Outcome (g : Globals) : Event → Globals → Prop
  | work (ram : Ram) : Outcome g (.work ram) { g with ram := ram }
  | refused (address args : BitVec 16) :
      (∀ j, (g.tasks j).running = true) → g.scheduleTask address args = some (-1, g) →
      Outcome g (.scheduleTask address args) g
  | accepted (address args : BitVec 16) (j : Fin maxTasks) :
      Takes g j → g.scheduleTask address args = some (0, filled g j address args) →
      Outcome g (.scheduleTask address args) (filled g j address args)
  | exitTask (w : Globals.Suspended) (c : Fin maxTasks) (g' : Globals) :
      (c : Int) = g.currentTask → Switched (saved (stopped g c) w) g' → Outcome g (.exitTask w) g'
  | yield (w : Globals.Suspended) (g' : Globals) :
      Switched (saved g w) g' → Outcome g (.yield w) g'
  | sleep (t : Int16) (w : Globals.Suspended) (c : Fin maxTasks) (g' : Globals) :
      (c : Int) = g.currentTask → Switched (saved (asleep g c t) w) g' →
      Outcome g (.sleep t w) g'
  | tick (w : Globals.Suspended) (g' : Globals) :
      Switched (ticked g w) g' → Outcome g (.tick w) g'
  | stopCurrent (c : Fin maxTasks) :
      (c : Int) = g.currentTask → Outcome g .stopCurrent (stopped g c)
  | setSleepTime (t : Int16) (c : Fin maxTasks) :
      (c : Int) = g.currentTask → Outcome g (.setSleepTime t) (asleep g c t)

/-- On a sound table no enabled event is undefined. -/
theorem exec_outcome {g : Globals} (h : TableOk g) {e : Event} (he : e.Enabled g) :
    ∃ g', e.exec g = some g' ∧ Outcome g e g' := by
  cases e with
  | work ram => exact ⟨_, rfl, .work ram⟩
  | scheduleTask address args =>
      -- refused with all slots taken, or accepted into one that is free
      rcases scheduleTask_spec h address args with ⟨hs, hall⟩ | ⟨j, ht, hs⟩
      · exact ⟨g, by simp [Event.exec, hs], .refused address args hall hs⟩
      · exact ⟨_, by simp [Event.exec, hs], .accepted address args j ht hs⟩
  | exitTask w =>
      obtain ⟨c, hc⟩ := h.exists_current he
      obtain ⟨g', hg', hs⟩ := doSomethingElse_spec (stopped_tableOk h c) w
      refine ⟨g', ?_, .exitTask w c g' hc hs⟩
      simp only [Event.exec, Globals.exitTask, stopCurrent_eq hc, Option.bind_eq_bind,
        Option.bind_some, hg']
  | yield w =>
      obtain ⟨g', hg', hs⟩ := doSomethingElse_spec h w
      exact ⟨g', hg', .yield w g' hs⟩
  | sleep t w =>
      obtain ⟨c, hc⟩ := h.exists_current he
      obtain ⟨g', hg', hs⟩ := doSomethingElse_spec (asleep_tableOk h c t) w
      refine ⟨g', ?_, .sleep t w c g' hc hs⟩
      simp only [Event.exec, Globals.sleep, setSleepTime_eq hc, Option.bind_eq_bind,
        Option.bind_some, hg']
  | tick w =>
      obtain ⟨g', hg', hs⟩ := timer0CompA_spec h w
      exact ⟨g', hg', .tick w g' hs⟩
  | stopCurrent =>
      obtain ⟨c, hc⟩ := h.exists_current he
      exact ⟨_, stopCurrent_eq hc, .stopCurrent c hc⟩
  | setSleepTime t =>
      obtain ⟨c, hc⟩ := h.exists_current he
      exact ⟨_, setSleepTime_eq hc t, .setSleepTime t c hc⟩

theorem step_eq_some {g g' : Globals} {e : Event} :
    step g e = some g' ↔ e.Enabled g ∧ e.exec g = some g' := by
  unfold step
  split <;> simp [*]

/-- A store of one byte of `sleep_time` is the assignment of some value. -/
theorem storeSleepByte_step {g g' : Globals} {half : Half} {b : Byte}
    (h : g.storeSleepByte half b = some g') : ∃ t, step g (.setSleepTime t) = some g' := by
  obtain ⟨c, hc, -⟩ := Option.bind_eq_some_iff.mp h
  have hcur := slot?_eq_some.mp hc
  rw [storeSleepByte_eq hcur] at h
  refine ⟨_, step_eq_some.mpr ⟨?_, (setSleepTime_eq hcur _).trans h⟩⟩
  show g.currentTask ≠ -1
  omega

/-- The steps, one case for each of them. -/
theorem step_outcome {g g' : Globals} {e : Event} (h : TableOk g) (hs : step g e = some g') :
    Outcome g e g' := by
  obtain ⟨he, hexec⟩ := step_eq_some.mp hs
  obtain ⟨m, hm, hout⟩ := exec_outcome h he
  obtain rfl := Option.some.inj (hm.symm.trans hexec)
  exact hout

/-! ## The invariant holds in every reachable state

One lemma for a step, one for a run. -/

/-- Whatever the step is, it keeps the table in order. -/
theorem Outcome.tableOk {g g' : Globals} {e : Event} (h : TableOk g) (ho : Outcome g e g') :
    TableOk g' := by
  cases ho with
  | work ram => exact h.congr rfl rfl fun _ => id
  | refused address args _ _ => exact h
  | accepted address args j ht _ => exact filled_tableOk h ht address args
  | exitTask w c g' _ hs => exact hs.tableOk (saved_tableOk (stopped_tableOk h c) w)
  | yield w g' hs => exact hs.tableOk (saved_tableOk h w)
  | sleep t w c g' _ hs => exact hs.tableOk (saved_tableOk (asleep_tableOk h c t) w)
  | tick w g' hs => exact hs.tableOk (ticked_tableOk h w)
  | stopCurrent c _ => exact stopped_tableOk h c
  | setSleepTime t c _ => exact asleep_tableOk h c t

/-- After a switch the right task is selected. -/
theorem Outcome.selected {g g' : Globals} {e : Event} (ho : Outcome g e g') (he : e.Switches) :
    Selected g' := by
  cases ho with
  | exitTask w c g' _ hs => exact hs.selected
  | yield w g' hs => exact hs.selected
  | sleep t w c g' _ hs => exact hs.selected
  | tick w g' hs => exact hs.selected
  | _ => exact he.elim

theorem step_tableOk {g g' : Globals} {e : Event} (h : TableOk g) (hs : step g e = some g') :
    TableOk g' :=
  (step_outcome h hs).tableOk h

theorem reachable_tableOk {g : Globals} (h : Reachable Initial step g) : TableOk g :=
  h.invariant (fun _ => Initial.tableOk) fun _ _ _ => step_tableOk

/-- **The scheduler invariant.** In every reachable state the counters are in range, the slots from
`task_count` on are not running, every operation is defined (no `tasks[]` access outside the array,
no remainder by zero), and each switch ends on an eligible task, or on `-1` when no task is
eligible. -/
theorem scheduler_invariant {g : Globals} (h : Reachable Initial step g) :
    (0 ≤ g.taskCount ∧ g.taskCount ≤ maxTasks) ∧
      (-1 ≤ g.currentTask ∧ g.currentTask < g.taskCount) ∧
      (∀ j : Fin maxTasks, g.taskCount ≤ j → (g.tasks j).running = false) ∧
      ∀ e : Event, e.Enabled g → ∃ g', e.exec g = some g' ∧ (e.Switches → Selected g') := by
  have hok := reachable_tableOk h
  refine ⟨⟨hok.count_nonneg, hok.count_le⟩, ⟨hok.current_ge, hok.current_lt⟩, hok.unused, ?_⟩
  intro e he
  obtain ⟨g', hg', hout⟩ := exec_outcome hok he
  exact ⟨g', hg', hout.selected⟩

/-- The invariant after a task has been created, started by a tick and put to sleep. -/
theorem scheduler_invariant_asleep :
    ∃ g, run step (Globals.construct 0x08F0 fun _ => 0)
        [.scheduleTask 0x1234 7, .tick ⟨0x08E0, fun _ => 0⟩, .sleep 25 ⟨0x07A0, fun _ => 1⟩] =
          some g ∧
      (0 ≤ g.taskCount ∧ g.taskCount ≤ maxTasks) ∧
      (-1 ≤ g.currentTask ∧ g.currentTask < g.taskCount) ∧
      (∀ j : Fin maxTasks, g.taskCount ≤ j → (g.tasks j).running = false) ∧
      ∀ e : Event, e.Enabled g → ∃ g', e.exec g = some g' ∧ (e.Switches → Selected g') := by
  obtain ⟨g, hg⟩ := Option.isSome_iff_exists.mp
    (show (run step (Globals.construct 0x08F0 fun _ => 0)
      [.scheduleTask 0x1234 7, .tick ⟨0x08E0, fun _ => 0⟩,
        .sleep 25 ⟨0x07A0, fun _ => 1⟩]).isSome = true by decide)
  exact ⟨g, hg, scheduler_invariant ⟨_, _, initial_construct _ _, hg⟩⟩

end SmartblocksOs.System
