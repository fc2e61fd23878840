/-
# SmartblocksOs.System.Sleeping -- a sleeping task wakes on its tick

`sleep` leaves its argument in the slot of the task, and every tick takes `TICK_INTERVAL` off each slot
that is positive, past zero when the argument is no multiple of it. `TaskDefinition.Sleeping` is the
count exactly, for every argument. Two things can spoil it.

The argument is two bytes, and `sleep` stores them one after the other with interrupts enabled
(`Assigns`). A tick between the two stores sees one byte of the new value and one of the old, and when
that is positive it counts it down; the store to come then completes a value that nobody has asked for
(`sleep_torn`). And a call of `schedule_task` that has chosen the slot while it was free may fill it
now that another call has put a task there (`sleep_wakes_early`). `sleep_wakes_on_time` is about the
runs in which neither happens, whatever else does.
-/
import Mathlib.Data.Rat.Floor
import SmartblocksOs.System.ConcurrentCreation
import SmartblocksOs.System.RoundRobin

namespace SmartblocksOs.System

open Foundation

/-! ## Counting down

The countdown subtracts 10 from a positive value until it is positive no more, so that a value that is no
multiple of 10 ends below zero. Only the sign matters to `chooseNextTask`. -/

/-- How many ticks a task that sleeps for `t` waits for: `max(0, ceil(t / TICK_INTERVAL))`. -/
def wakeTick (t : Int16) : Nat :=
  ⌈(t.toInt : ℚ) / tickInterval.toInt⌉₊

/-- What is left in `sleep_time` after `n` ticks. -/
def remaining (t : Int16) (n : Nat) : Int :=
  t.toInt - tickInterval.toInt * min n (wakeTick t)

section

variable {t : Int16} {n : Nat}

theorem tickInterval_toInt : tickInterval.toInt = 10 := rfl

/-- A sleep is over when its ticks have taken as long as it was to last. -/
theorem wakeTick_le_iff : wakeTick t ≤ n ↔ t.toInt ≤ tickInterval.toInt * n := by
  have hpos : (0 : ℚ) < (tickInterval.toInt : ℚ) := by
    rw [tickInterval_toInt]
    norm_num
  rw [wakeTick, Nat.ceil_le, div_le_iff₀ hpos, mul_comm]
  exact_mod_cast Iff.rfl

theorem lt_wakeTick_iff : n < wakeTick t ↔ tickInterval.toInt * n < t.toInt := by
  rw [← not_le, wakeTick_le_iff, not_le]

@[simp]
theorem remaining_zero (t : Int16) : remaining t 0 = t.toInt := by
  simp [remaining]

/-- Before that each tick has counted. -/
theorem remaining_of_lt (h : n < wakeTick t) : remaining t n = t.toInt - tickInterval.toInt * n := by
  rw [remaining, Nat.min_eq_left h.le]

/-- From there on nothing changes any more: the last tick that counted may have gone below zero. -/
theorem remaining_of_le (h : wakeTick t ≤ n) :
    remaining t n = t.toInt - tickInterval.toInt * wakeTick t := by
  rw [remaining, Nat.min_eq_right h]

/-- A positive rest is one that is not over. -/
theorem remaining_pos_iff : 0 < remaining t n ↔ n < wakeTick t := by
  constructor
  · intro hpos
    by_contra hge
    rw [remaining_of_le (not_lt.mp hge)] at hpos
    have := wakeTick_le_iff.mp (le_refl (wakeTick t))
    omega
  · intro hlt
    rw [remaining_of_lt hlt]
    have := lt_wakeTick_iff.mp hlt
    omega

/-- The last step overshoots zero by less than an interval. -/
theorem remaining_ge (ht : 0 < t.toInt) : 1 - tickInterval.toInt ≤ remaining t n := by
  by_cases hlt : n < wakeTick t
  · have hpos := remaining_pos_iff.mpr hlt
    rw [tickInterval_toInt]
    omega
  · rw [remaining_of_le (not_lt.mp hlt)]
    have hwake : 0 < wakeTick t := lt_wakeTick_iff.mpr (by simpa using ht)
    have hbefore := lt_wakeTick_iff.mp (Nat.sub_one_lt_of_lt hwake)
    rw [tickInterval_toInt] at hbefore ⊢
    omega

end

/-- The task has asked for a sleep of `t`, `n` ticks ago. -/
structure TaskDefinition.Sleeping (task : TaskDefinition) (t : Int16) (n : Nat) : Prop where
  running : task.running = true
  sleepTime : task.sleepTime.toInt = remaining t n

namespace TaskDefinition

variable {task : TaskDefinition} {t : Int16} {n : Nat}

/-- A task is eligible from its tick on. -/
theorem Sleeping.eligible_iff (h : task.Sleeping t n) : task.Eligible ↔ wakeTick t ≤ n := by
  rw [← not_lt, ← remaining_pos_iff, ← h.sleepTime, not_lt]
  exact (and_iff_right h.running).trans Int16.le_iff_toInt_le

/-- The decrement stays above the least `int16_t`, so it does not wrap. -/
theorem Sleeping.countDown (h : task.Sleeping t n) : task.countDown.Sleeping t (n + 1) := by
  refine ⟨by rw [countDown_running, h.running], ?_⟩
  have hmax := task.sleepTime.toInt_lt
  by_cases hlt : n < wakeTick t
  · have hpos := remaining_pos_iff.mpr hlt
    rw [← h.sleepTime] at hpos
    have hbound : (task.sleepTime - tickInterval).toInt = task.sleepTime.toInt - tickInterval.toInt := by
      rw [Int16.toInt_sub, tickInterval_toInt]
      exact Int.bmod_eq_of_le (by omega) (by omega)
    rw [TaskDefinition.countDown, if_pos ⟨h.running, Int16.lt_iff_toInt_lt.mpr hpos⟩]
    show (task.sleepTime - tickInterval).toInt = _
    rw [hbound, h.sleepTime, remaining, remaining, Nat.min_eq_left hlt.le, Nat.min_eq_left hlt]
    push_cast
    ring
  · have hdue := not_lt.mp hlt
    have hnonpos : ¬ 0 < task.sleepTime := by
      rw [Int16.lt_iff_toInt_lt, h.sleepTime]
      exact fun hpos => hlt (remaining_pos_iff.mp hpos)
    rw [TaskDefinition.countDown, if_neg fun hand => hnonpos hand.2, h.sleepTime,
      remaining_of_le hdue, remaining_of_le (Nat.le_succ_of_le hdue)]

end TaskDefinition

/-! ## The table across a switch

Of a switch the sleeper needs two facts: whether its slot has been counted down, and that it is not
selected while it sleeps. -/

/-- The two definitions differ in their stack pointers at most, so the scheduler treats them alike. -/
structure TaskDefinition.Alike (task task' : TaskDefinition) : Prop where
  running : task'.running = task.running
  sleepTime : task'.sleepTime = task.sleepTime

namespace TaskDefinition.Alike

variable {task task' task'' : TaskDefinition}

theorem refl (task : TaskDefinition) : task.Alike task := ⟨rfl, rfl⟩

theorem trans (h : task.Alike task') (h' : task'.Alike task'') : task.Alike task'' :=
  ⟨h'.running.trans h.running, h'.sleepTime.trans h.sleepTime⟩

/-- What leaves `running` and `sleep_time` alone leaves the task asleep. -/
theorem sleeping (h : task.Alike task') {t : Int16} {n : Nat} (hs : task.Sleeping t n) :
    task'.Sleeping t n :=
  ⟨h.running.trans hs.running, by rw [h.sleepTime, hs.sleepTime]⟩

end TaskDefinition.Alike

/-- A switch changes stack pointers only. -/
def SameTasks (g g' : Globals) : Prop := ∀ j, (g.tasks j).Alike (g'.tasks j)

theorem storeSp_sameTasks {g g' : Globals} (h : g.storeSp = some g') : SameTasks g g' := by
  unfold Globals.storeSp at h
  split at h
  · obtain rfl := Option.some.inj h
    exact fun _ => .refl _
  · obtain ⟨c, -, h⟩ := Option.bind_eq_some_iff.mp h
    obtain rfl := Option.some.inj h
    intro j
    by_cases hj : j = c
    · subst hj
      constructor <;> simp
    · constructor <;> simp [hj]

/-- A switch wakes nobody. -/
theorem switchTasks_sameTasks {g g' : Globals} (h : g.switchTasks = some g') : SameTasks g g' := by
  obtain ⟨m, hstore, h⟩ := Option.bind_eq_some_iff.mp h
  obtain ⟨next, -, h⟩ := Option.bind_eq_some_iff.mp h
  rw [loadSp_eq_some h]
  exact fun j => ⟨(storeSp_sameTasks hstore j).running, (storeSp_sameTasks hstore j).sleepTime⟩

/-- A tick comes back only when `task_count` is in range. -/
theorem updateSleepTimeFrom_le {n : Nat} (k : Nat) : ∀ {tasks tasks' : Fin n → TaskDefinition} {i : Int},
    0 ≤ i → updateSleepTimeFrom tasks k i = some tasks' → k = 0 ∨ i + k ≤ n := by
  induction k with
  | zero =>
      intro tasks tasks' i _ _
      exact Or.inl rfl
  | succ k ih =>
      intro tasks tasks' i hi h
      right
      obtain ⟨j, hj, h⟩ := Option.bind_eq_some_iff.mp h
      have hslot := slot?_eq_some.mp hj
      have hlt := j.isLt
      rcases ih (show 0 ≤ i + 1 by omega) h with rfl | hle
      · push_cast
        omega
      · push_cast
        omega

/-- The tick counts down every slot below `task_count`, and then switches. -/
theorem timer0CompA_countDown {g g' : Globals} {w : Globals.Suspended} {j : Fin maxTasks}
    (hg : InRange g) (h : g.timer0CompA w = some g') (hj : (g.tasks j).running = true) :
    (g.tasks j).countDown.Alike (g'.tasks j) := by
  obtain ⟨tasks, htasks, h⟩ := Option.bind_eq_some_iff.mp h
  have h0 := hg.count_nonneg
  have hle : g.taskCount ≤ maxTasks := by
    have := updateSleepTimeFrom_le g.taskCount.toNat le_rfl htasks
    omega
  have heq : updateSleepTime g.tasks g.taskCount = some tasks := htasks
  rw [updateSleepTime_eq h0 hle, Option.some.injEq] at heq
  have hsame := switchTasks_sameTasks h j
  subst heq
  simp only [if_pos (hg.running_lt j hj)] at hsame
  exact hsame

/-- A switch ends on an eligible slot, if on any. -/
theorem Rotated.current_eligible {g g' : Globals} (h : Rotated g g') (hg : InRange g)
    {j : Fin maxTasks} (hj : (j : Int) = g'.currentTask) : (g'.tasks j).Eligible := by
  have h0 := hg.count_nonneg
  rw [← h.count] at h0
  rcases Int.lt_or_eq_of_le h0 with hpos | hzero
  · rcases chooseFrom_eq_some hpos _ hg.current_ge h.chosen with ⟨hnone, -⟩ | ⟨hel, -⟩
    · omega
    · rwa [← hj, eligibleAt_coe] at hel
  · have hchosen := h.chosen
    rw [← hzero] at hchosen
    have hnone : -1 = g'.currentTask := Option.some.inj hchosen
    omega

/-! ## The sleeper, step by step

From the state in which both bytes of the argument have been stored. Every step either is a tick, which
counts, or leaves the slot alone. -/

namespace CallEvent

/-- An event is a tick or none. -/
def ticks : CallEvent → Nat
  | .tick _ _ => 1
  | .call _ _ | .advance | .work _ | .stopCurrent | .storeSleepByte _ _ | .yield _ _ => 0

/-- What an event makes of the slot of a task that does nothing to it: a tick counts it down. -/
def countDown (task : TaskDefinition) : CallEvent → TaskDefinition
  | .tick _ _ => task.countDown
  | .call _ _ | .advance | .work _ | .stopCurrent | .storeSleepByte _ _ | .yield _ _ => task

end CallEvent

/-- How many ticks have run. -/
def ticks (es : List CallEvent) : Nat := (es.map CallEvent.ticks).sum

/-- The task in slot `i` calls neither `sleep` nor `exit_task`. -/
def KeepsAsleep (i : Fin maxTasks) (w : Calls) : CallEvent → Prop
  | .stopCurrent | .storeSleepByte _ _ => (i : Int) ≠ w.g.currentTask
  | .call _ _ | .advance | .work _ | .yield _ _ | .tick _ _ => True

instance (i : Fin maxTasks) (w : Calls) : ∀ e, Decidable (KeepsAsleep i w e)
  | .stopCurrent | .storeSleepByte _ _ => inferInstanceAs (Decidable (_ ≠ _))
  | .call _ _ | .advance | .work _ | .yield _ _ | .tick _ _ => isTrue trivial

/-- A call at `pc` is not about to put its task into slot `i` while the task there is still running. -/
def Calls.CommitsFree (i : Fin maxTasks) (w : Calls) : CallPc → Prop
  | .building taskNum [] => (i : Int) = taskNum → (w.g.tasks i).running = false
  | _ => True

instance Calls.CommitsFree.decidable (i : Fin maxTasks) (w : Calls) :
    ∀ pc, Decidable (w.CommitsFree i pc)
  | .building _ [] => inferInstanceAs (Decidable (_ → _))
  | .building _ (_ :: _) | .test | .search _ | .read | .increment _ | .returned _ => isTrue trivial

/-- The block between `cli` and `sei` of `schedule_task` does not fill slot `i` while its task is
running. -/
def FillsFree (i : Fin maxTasks) (w : Calls) : CallEvent → Prop
  | .advance => ∀ k ∈ w.active w.g.currentTask, w.CommitsFree i (w.call k).pc
  | .call _ _ | .work _ | .stopCurrent | .storeSleepByte _ _ | .yield _ _ | .tick _ _ => True

instance (i : Fin maxTasks) (w : Calls) : ∀ e, Decidable (FillsFree i w e)
  | .advance =>
      inferInstanceAs (Decidable (∀ k ∈ w.active w.g.currentTask, w.CommitsFree i (w.call k).pc))
  | .call _ _ | .work _ | .stopCurrent | .storeSleepByte _ _ | .yield _ _ | .tick _ _ => isTrue trivial

namespace Calls

variable {w w' : Calls} {i : Fin maxTasks} {t : Int16} {n : Nat}

/-- A step of `schedule_task` leaves a running slot alone. -/
theorem advance_tasks {k : Nat} {g : Globals} {pc : CallPc}
    (hadv : Advanced (w.call k).address (w.call k).args w.g (w.call k).pc g pc)
    (hfree : w.CommitsFree i (w.call k).pc) (hrun : (w.g.tasks i).running = true) :
    g.tasks i = w.g.tasks i := by
  rcases hadv.table.tasks i with heq | ⟨hpc, -⟩
  · exact heq
  · rw [hpc] at hfree
    exact absurd ((hfree rfl).symm.trans hrun) Bool.false_ne_true

/-- One step of the system, as the task in slot `i` sees it while it does not touch its slot. -/
theorem callStep_alike {e : CallEvent} (h : Bounded w) (hi : (w.g.tasks i).running = true)
    (hasleep : KeepsAsleep i w e) (hfree : FillsFree i w e) (hst : callStep w e = some w') :
    (e.countDown (w.g.tasks i)).Alike (w'.g.tasks i) := by
  cases callStep_outcome hst with
  | call address args hout hlive => exact .refl _
  | work writes hown => exact .refl _
  -- a creation that fills another slot leaves this one alone
  | advance k g pc hk hadv =>
      show (w.g.tasks i).Alike (g.tasks i)
      rw [advance_tasks hadv (hfree k hk) hi]
      exact .refl _
  | stopCurrent g hout hlive hg =>
      obtain ⟨c, hc, hg⟩ := Option.bind_eq_some_iff.mp (step_eq_some.mp hg).2
      obtain rfl := Option.some.inj hg
      -- the task that is running is not the one asleep
      have hne : i ≠ c := fun heq => hasleep (heq ▸ slot?_eq_some.mp hc)
      show (w.g.tasks i).Alike (Function.update w.g.tasks c _ i)
      rw [Function.update_of_ne hne]
      exact .refl _
  | storeSleepByte half b s g hout hg =>
      obtain ⟨c, hc, hg⟩ := Option.bind_eq_some_iff.mp (step_eq_some.mp hg).2
      obtain rfl := Option.some.inj hg
      have hne : i ≠ c := fun heq => hasleep (heq ▸ slot?_eq_some.mp hc)
      show (w.g.tasks i).Alike (Function.update w.g.tasks c _ i)
      rw [Function.update_of_ne hne]
      exact .refl _
  | yield sp writes g hout hown hg =>
      rw [markStarted, mark_g]
      exact switchTasks_sameTasks (step_eq_some.mp hg).2 i
  | tick sp writes g hown hg =>
      rw [markStarted, mark_g]
      exact timer0CompA_countDown h.inRange (step_eq_some.mp hg).2 hi

/-- One step of the system: the sleeper has slept one tick more, or none. -/
theorem callStep_sleeping {e : CallEvent} (h : Bounded w) (hi : (w.g.tasks i).Sleeping t n)
    (hasleep : KeepsAsleep i w e) (hfree : FillsFree i w e) (hst : callStep w e = some w') :
    (w'.g.tasks i).Sleeping t (n + e.ticks) := by
  apply (callStep_alike h hi.running hasleep hfree hst).sleeping
  cases e with
  | tick sp writes => exact hi.countDown
  | call _ _ | advance | work _ | stopCurrent | storeSleepByte _ _ | yield _ _ => exact hi

/-- The bounds do not depend on anyone sleeping. -/
theorem callStep_bounded {e : CallEvent} (h : Bounded w) (hst : callStep w e = some w') :
    Bounded w' := by
  by_cases he : e.Switches
  · exact (h.switch hst he).1
  · exact (h.stay hst he).1

/-- A run: the sleeper has slept as many ticks as there were. -/
theorem run_sleeping {es : List CallEvent} (h : Bounded w) (hi : (w.g.tasks i).Sleeping t n)
    (hasleep : Along callStep (KeepsAsleep i) w es) (hfree : Along callStep (FillsFree i) w es)
    (hrun : run callStep w es = some w') : (w'.g.tasks i).Sleeping t (n + ticks es) := by
  induction es generalizing w n with
  | nil =>
      obtain rfl := Option.some.inj hrun
      exact hi
  | cons e es ih =>
      obtain ⟨m, hm, hrest⟩ := run_cons_eq_some.mp hrun
      have hstep := callStep_sleeping h hi hasleep.1 hfree.1 hm
      have hlast := ih (callStep_bounded h hm) hstep (hasleep.2 m hm) (hfree.2 m hm) hrest
      rwa [Nat.add_assoc] at hlast

end Calls

/-! ## The assignment

The two byte stores, in either order, for the compiler may emit either. Between them the value is a
mixture of the old one and the new. -/

/-- The task in slot `i` is between two stores of one assignment: as long as it is current nothing
happens but a tick. -/
def Midway (i : Fin maxTasks) (w : Calls) : CallEvent → Prop
  | .tick _ _ => True
  | .call _ _ | .advance | .work _ | .stopCurrent | .storeSleepByte _ _ | .yield _ _ =>
      (i : Int) ≠ w.g.currentTask

instance (i : Fin maxTasks) (w : Calls) : ∀ e, Decidable (Midway i w e)
  | .tick _ _ => isTrue trivial
  | .call _ _ | .advance | .work _ | .stopCurrent | .storeSleepByte _ _ | .yield _ _ =>
      inferInstanceAs (Decidable (_ ≠ _))

/-- No tick counts down slot `i`. -/
def Untorn (i : Fin maxTasks) (w : Calls) : CallEvent → Prop
  | .tick _ _ => (w.g.tasks i).sleepTime ≤ 0
  | .call _ _ | .advance | .work _ | .stopCurrent | .storeSleepByte _ _ | .yield _ _ => True

instance (i : Fin maxTasks) (w : Calls) : ∀ e, Decidable (Untorn i w e)
  | .tick _ _ => inferInstanceAs (Decidable (_ ≤ _))
  | .call _ _ | .advance | .work _ | .stopCurrent | .storeSleepByte _ _ | .yield _ _ => isTrue trivial

/-- `tasks[current_task].sleep_time = t` in the task of slot `i`, from `w` to `w'`: the store of the byte
`half` leads to `v`, then `es` happens and leads to `v'`, where the task stores the other byte. -/
structure Assigns (i : Fin maxTasks) (t : Int16) (half : Half) (es : List CallEvent)
    (w v v' w' : Calls) : Prop where
  current : (i : Int) = w.g.currentTask
  /-- The task is not in `exit_task`. -/
  live : Live w.g
  first : callStep w (.storeSleepByte half (half.of t.toBitVec)) = some v
  between : run callStep v es = some v'
  midway : Along callStep (Midway i) v es
  resumed : (i : Int) = v'.g.currentTask
  second : callStep v' (.storeSleepByte half.other (half.other.of t.toBitVec)) = some w'

/-- `tasks[current_task].sleep_time = t` in the task of slot `i`, evaluated: the states around `es` and after it. -/
def assign (i : Fin maxTasks) (t : Int16) (half : Half) (es : List CallEvent) (w : Calls) :
    Option (Calls × Calls × Calls) := do
  let v ← callStep w (.storeSleepByte half (half.of t.toBitVec))
  let v' ← run callStep v es
  let w' ← callStep v' (.storeSleepByte half.other (half.other.of t.toBitVec))
  if (i : Int) = w.g.currentTask ∧ Live w.g ∧ (i : Int) = v'.g.currentTask ∧
    Along callStep (Midway i) v es then some (v, v', w') else none

theorem assigns_of_assign {i : Fin maxTasks} {t : Int16} {half : Half} {es : List CallEvent}
    {w v v' w' : Calls} (h : assign i t half es w = some (v, v', w')) :
    Assigns i t half es w v v' w' := by
  obtain ⟨u, hu, h⟩ := Option.bind_eq_some_iff.mp h
  obtain ⟨u', hu', h⟩ := Option.bind_eq_some_iff.mp h
  obtain ⟨x, hx, h⟩ := Option.bind_eq_some_iff.mp h
  split at h
  · rename_i hcond
    obtain ⟨rfl, rfl, rfl⟩ : u = v ∧ u' = v' ∧ x = w' := by simpa using h
    exact ⟨hcond.1, hcond.2.1, hu, hu', hcond.2.2.2, hcond.2.2.1, hx⟩
  · exact absurd h (by simp)

/-- Between the two stores of an assignment the task calls nothing. -/
theorem Midway.keepsAsleep {i : Fin maxTasks} {w : Calls} {e : CallEvent} (h : Midway i w e) :
    KeepsAsleep i w e := by
  cases e with
  | stopCurrent | storeSleepByte _ _ => exact h
  | call _ _ | advance | work _ | yield _ _ | tick _ _ => trivial

namespace Calls

variable {w v v' w' : Calls} {i : Fin maxTasks} {t : Int16} {half : Half} {es : List CallEvent}

theorem storeSleepByte_tasks {b : Byte} (hcur : (i : Int) = w.g.currentTask)
    (hst : callStep w (.storeSleepByte half b) = some w') :
    (w'.g.tasks i).running = (w.g.tasks i).running ∧
      (w'.g.tasks i).sleepTime = Int16.ofBitVec (half.store (w.g.tasks i).sleepTime.toBitVec b) := by
  simp only [callStep] at hst
  split at hst
  · rw [storeSleepByte_eq hcur] at hst
    obtain rfl := Option.some.inj hst
    exact ⟨asleep_running .., by simp [asleep]⟩
  · exact absurd hst (by simp)

/-- Nothing changes the slot between the two stores. -/
theorem run_midway (h : Bounded v) (hrun : (v.g.tasks i).running = true)
    (hmid : Along callStep (Midway i) v es) (huntorn : Along callStep (Untorn i) v es)
    (hfree : Along callStep (FillsFree i) v es) (hes : run callStep v es = some v') :
    (v.g.tasks i).Alike (v'.g.tasks i) := by
  have hkept := run_preserves_along
    (I := fun u : Calls => Bounded u ∧ (v.g.tasks i).Alike (u.g.tasks i)) ?_
    ⟨h, .refl _⟩ ((hmid.and huntorn).and hfree) hes
  · exact hkept.2
  · rintro u e u' ⟨hu, halike⟩ ⟨⟨hmid, huntorn⟩, hfree⟩ hst
    have hstep := callStep_alike hu (halike.running.trans hrun) hmid.keepsAsleep hfree hst
    refine ⟨callStep_bounded hu hst, halike.trans ?_⟩
    cases e with
    | tick sp writes =>
        have hidle : (u.g.tasks i).countDown = u.g.tasks i :=
          if_neg fun hpos => absurd (Int16.lt_iff_toInt_lt.mp hpos.2)
            (not_lt.mpr (Int16.le_iff_toInt_le.mp huntorn))
        exact hidle ▸ hstep
    | call _ _ | advance | work _ | stopCurrent | storeSleepByte _ _ | yield _ _ => exact hstep

/-- Once both bytes are stored the task is asleep for `t`. -/
theorem assigns_sleeping (h : Bounded w) (ha : Assigns i t half es w v v' w')
    (huntorn : Along callStep (Untorn i) v es) (hfree : Along callStep (FillsFree i) v es) :
    Bounded w' ∧ (w'.g.tasks i).Sleeping t 0 := by
  have hv := callStep_bounded h ha.first
  have hv' := run_preserves (fun _ _ _ => callStep_bounded) hv ha.between
  obtain ⟨hrun₁, htime₁⟩ := storeSleepByte_tasks ha.current ha.first
  obtain ⟨hrun₂, htime₂⟩ := storeSleepByte_tasks ha.resumed ha.second
  have hrunning : (v.g.tasks i).running = true := hrun₁.trans (ha.live i ha.current)
  have halike := run_midway hv hrunning ha.midway huntorn hfree ha.between
  refine ⟨callStep_bounded hv' ha.second, hrun₂.trans (halike.running.trans hrunning), ?_⟩
  rw [htime₂, halike.sleepTime, htime₁, Int16.toBitVec_ofBitVec, Half.store_store,
    Int16.ofBitVec_toBitVec, remaining_zero]

end Calls

/-! ## Waking up

The number of ticks after which the slot is eligible again, and the first switch that can select it. -/

/-- What `sleep(t)` promises the task in slot `i`, of the run `es` from the assignment of its `sleep_time`
to the state `w`. -/
structure OnTime (i : Fin maxTasks) (t : Int16) (es : List CallEvent) (w : Calls) : Prop where
  eligible : (w.g.tasks i).Eligible ↔ wakeTick t ≤ ticks es
  selected : ∀ e ∈ es.getLast?, e.Switches → ticks es < wakeTick t → w.g.currentTask ≠ i
  noWrap : 0 < t → 1 - tickInterval ≤ (w.g.tasks i).sleepTime

/-- A task sleeps until its tick and is eligible from there on, whatever the others do, as long as no call
of `schedule_task` fills its slot and no tick counts down a `sleep_time` of which only one byte is
stored. -/
theorem sleep_wakes_on_time {w v v' w₁ w₂ : Calls} {i : Fin maxTasks} {t : Int16} {half : Half}
    {es₀ es : List CallEvent} (hw : Reachable Calls.Initial callStep w)
    (hassigns : Assigns i t half es₀ w v v' w₁) (hrun : run callStep w₁ es = some w₂)
    (hasleep : Along callStep (KeepsAsleep i) w₁ es) (huntorn : Along callStep (Untorn i) v es₀)
    (hfree₀ : Along callStep (FillsFree i) v es₀) (hfree : Along callStep (FillsFree i) w₁ es) :
    OnTime i t es w₂ := by
  have hbounded : w.Bounded :=
    hw.invariant (fun _ => Calls.Initial.bounded) fun _ _ _ => Calls.callStep_bounded
  obtain ⟨hbounded₁, hstart⟩ := Calls.assigns_sleeping hbounded hassigns huntorn hfree₀
  have hend := Calls.run_sleeping hbounded₁ hstart hasleep hfree hrun
  rw [Nat.zero_add] at hend
  refine ⟨hend.eligible_iff, ?_, ?_⟩
  · intro e he hswitches hearly hcurrent
    obtain ⟨before, rfl⟩ := List.getLast?_eq_some_iff.mp he
    obtain ⟨m, hm, hst⟩ := run_concat_eq_some.mp hrun
    have hboundedm := run_preserves (fun _ _ _ => Calls.callStep_bounded) hbounded₁ hm
    have hrot := (hboundedm.switch hst hswitches).2
    have heligible := hrot.current_eligible hboundedm.inRange hcurrent.symm
    exact absurd (hend.eligible_iff.mp heligible) (not_le.mpr hearly)
  · intro ht
    rw [Int16.le_iff_toInt_le, hend.sleepTime]
    exact remaining_ge (Int16.lt_iff_toInt_lt.mp ht)

/-- To build a frame at one go is one way for a run to go on. -/
theorem Calls.build_reachable {w w' : Calls} (h : Reachable Calls.Initial callStep w)
    (hbuild : w.build = some w') : Reachable Calls.Initial callStep w' := by
  obtain ⟨es, hes, -⟩ := Calls.run_build hbuild
  exact h.run hes

/-- A task that sleeps for `25`, with a tick between the two bytes, the low one first. It is eligible after
three more ticks, the first of which falls between the assignment and the switch. -/
theorem sleep_wakes_on_time_25 : ∃ w v v' w₁ w₂ es, Assigns 0 25 .low [.tick 0x07A0 []] w v v' w₁ ∧
    run callStep w₁ es = some w₂ ∧ (w₁.g.tasks 0).sleepTime = 25 ∧ ticks es = 3 ∧ OnTime 0 25 es w₂ := by
  let es₀ : List CallEvent := [.tick 0x07A0 []]
  let es : List CallEvent := [.tick 0x07A0 [], .yield 0x08E0 [], .tick 0x08E0 [], .tick 0x08E0 []]
  have htrace : ((run callStep noCalls [.call 0x1200 0, .advance, .advance, .advance]).bind fun w =>
      w.build.bind fun w => (run callStep w [.advance, .tick 0x08E0 []]).bind fun w =>
        (assign 0 25 .low es₀ w).bind fun p => (run callStep p.2.2 es).map fun _ =>
          decide ((p.2.2.g.tasks 0).sleepTime = 25 ∧ Along callStep (KeepsAsleep 0) p.2.2 es ∧
            Along callStep (Untorn 0) p.1 es₀ ∧ Along callStep (FillsFree 0) p.1 es₀ ∧
              Along callStep (FillsFree 0) p.2.2 es)) = some true := by decide
  obtain ⟨a, h₁, htrace⟩ := Option.bind_eq_some_iff.mp htrace
  obtain ⟨b, h₂, htrace⟩ := Option.bind_eq_some_iff.mp htrace
  obtain ⟨w, h₃, htrace⟩ := Option.bind_eq_some_iff.mp htrace
  obtain ⟨⟨v, v', w₁⟩, hassign, htrace⟩ := Option.bind_eq_some_iff.mp htrace
  obtain ⟨w₂, hrun, hdec⟩ := Option.map_eq_some_iff.mp htrace
  obtain ⟨htime, hasleep, huntorn, hfree₀, hfree⟩ := of_decide_eq_true hdec
  have hreach : Reachable Calls.Initial callStep w :=
    (Calls.build_reachable ((Reachable.start noCalls_initial).run h₁) h₂).run h₃
  have hassigns := assigns_of_assign hassign
  exact ⟨w, v, v', w₁, w₂, es, hassigns, hrun, htime, rfl,
    sleep_wakes_on_time hreach hassigns hrun hasleep huntorn hfree₀ hfree⟩

/-- Three tasks are created and the third one exits. The first one looks for a free slot and finds this
one; the second one does too, and gets its task in first. That task sleeps for `1000`, and then the
first task fills the slot once more, with a `sleep_time` of `-1`: one tick later it is selected. -/
theorem sleep_wakes_early : ¬ ∀ (w v v' w₁ w₂ : Calls) (i : Fin maxTasks) (t : Int16) (half : Half)
    (es₀ es : List CallEvent), Reachable Calls.Initial callStep w → Assigns i t half es₀ w v v' w₁ →
    run callStep w₁ es = some w₂ → Along callStep (KeepsAsleep i) w₁ es → OnTime i t es w₂ := by
  intro hall
  let create : List CallEvent := [.call 0x1200 0, .advance, .advance, .advance]
  let choose : List CallEvent := [.call 0x1300 0, .advance, .advance, .advance, .advance]
  let es : List CallEvent := [.yield 0x05A0 [], .advance, .tick 0x07A0 [], .yield 0x06A0 []]
  have htrace : ((run callStep noCalls create).bind fun w => w.build.bind fun w =>
      (run callStep w (.advance :: create)).bind fun w => w.build.bind fun w =>
        (run callStep w (.advance :: create)).bind fun w => w.build.bind fun w =>
          (run callStep w ([.advance, .tick 0x08E0 [], .yield 0x07A0 [], .yield 0x06A0 [], .stopCurrent,
            .yield 0x05A0 []] ++ choose)).bind fun w => w.build.bind fun w =>
              (run callStep w (.tick 0x07A0 [] :: choose)).bind fun w => w.build.bind fun w =>
                (run callStep w [.advance, .tick 0x06A0 []]).bind fun w =>
                  (assign 2 1000 .high [] w).bind fun p => (run callStep p.2.2 es).map fun w₂ =>
                    decide (Along callStep (KeepsAsleep 2) p.2.2 es ∧ w₂.g.currentTask = 2)) =
      some true := by
    decide +kernel
  obtain ⟨a₁, h₁, htrace⟩ := Option.bind_eq_some_iff.mp htrace
  obtain ⟨b₁, hb₁, htrace⟩ := Option.bind_eq_some_iff.mp htrace
  obtain ⟨a₂, h₂, htrace⟩ := Option.bind_eq_some_iff.mp htrace
  obtain ⟨b₂, hb₂, htrace⟩ := Option.bind_eq_some_iff.mp htrace
  obtain ⟨a₃, h₃, htrace⟩ := Option.bind_eq_some_iff.mp htrace
  obtain ⟨b₃, hb₃, htrace⟩ := Option.bind_eq_some_iff.mp htrace
  obtain ⟨a₄, h₄, htrace⟩ := Option.bind_eq_some_iff.mp htrace
  obtain ⟨b₄, hb₄, htrace⟩ := Option.bind_eq_some_iff.mp htrace
  obtain ⟨a₅, h₅, htrace⟩ := Option.bind_eq_some_iff.mp htrace
  obtain ⟨b₅, hb₅, htrace⟩ := Option.bind_eq_some_iff.mp htrace
  obtain ⟨w, h₆, htrace⟩ := Option.bind_eq_some_iff.mp htrace
  obtain ⟨⟨v, v', w₁⟩, hassign, htrace⟩ := Option.bind_eq_some_iff.mp htrace
  obtain ⟨w₂, hrun, hdec⟩ := Option.map_eq_some_iff.mp htrace
  obtain ⟨hasleep, hselected⟩ := of_decide_eq_true hdec
  -- the state is reached: three tasks have been created, and two calls have found the same finished slot
  have hcreated₁ := Calls.build_reachable ((Reachable.start noCalls_initial).run h₁) hb₁
  have hcreated₂ := Calls.build_reachable (hcreated₁.run h₂) hb₂
  have hcreated₃ := Calls.build_reachable (hcreated₂.run h₃) hb₃
  have hfirst := Calls.build_reachable (hcreated₃.run h₄) hb₄
  have hsecond := Calls.build_reachable (hfirst.run h₅) hb₅
  have hontime := hall w v v' w₁ w₂ 2 1000 .high [] es (hsecond.run h₆) (assigns_of_assign hassign) hrun
    hasleep
  refine hontime.selected (.yield 0x06A0 []) rfl trivial ?_ hselected
  -- the second of them commits over the sleep time, and the slot is selected long before its time
  rw [lt_wakeTick_iff]
  decide

/-- A task that has just been created, with a `sleep_time` of `-1`, sleeps for `10`, and a tick falls when
the high byte is stored and the low byte is not: `255` is counted down to `-5`, and the low byte makes
`-246` of it. So the task does not sleep at all, although no call fills its slot. -/
theorem sleep_torn : ¬ ∀ (w v v' w₁ w₂ : Calls) (i : Fin maxTasks) (t : Int16) (half : Half)
    (es₀ es : List CallEvent), Reachable Calls.Initial callStep w → Assigns i t half es₀ w v v' w₁ →
    run callStep w₁ es = some w₂ → Along callStep (KeepsAsleep i) w₁ es →
    Along callStep (FillsFree i) v es₀ → Along callStep (FillsFree i) w₁ es → OnTime i t es w₂ := by
  intro hall
  let es₀ : List CallEvent := .tick 0x07A0 [] :: List.replicate 25 (.tick 0x08E0 [])
  let es : List CallEvent := [.yield 0x07A0 []]
  have htrace : ((run callStep noCalls [.call 0x1200 0, .advance, .advance, .advance]).bind fun w =>
      w.build.bind fun w => (run callStep w [.advance, .tick 0x08E0 []]).bind fun w =>
        (assign 0 10 .high es₀ w).bind fun p => (run callStep p.2.2 es).map fun w₂ =>
          decide (Along callStep (KeepsAsleep 0) p.2.2 es ∧ Along callStep (FillsFree 0) p.1 es₀ ∧
            Along callStep (FillsFree 0) p.2.2 es ∧ w₂.g.currentTask = 0)) = some true := by decide +kernel
  obtain ⟨a, h₁, htrace⟩ := Option.bind_eq_some_iff.mp htrace
  obtain ⟨b, h₂, htrace⟩ := Option.bind_eq_some_iff.mp htrace
  obtain ⟨w, h₃, htrace⟩ := Option.bind_eq_some_iff.mp htrace
  obtain ⟨⟨v, v', w₁⟩, hassign, htrace⟩ := Option.bind_eq_some_iff.mp htrace
  obtain ⟨w₂, hrun, hdec⟩ := Option.map_eq_some_iff.mp htrace
  obtain ⟨hasleep, hfree₀, hfree, hselected⟩ := of_decide_eq_true hdec
  have hreach : Reachable Calls.Initial callStep w :=
    (Calls.build_reachable ((Reachable.start noCalls_initial).run h₁) h₂).run h₃
  have hontime := hall w v v' w₁ w₂ 0 10 .high es₀ es hreach (assigns_of_assign hassign) hrun hasleep
    hfree₀ hfree
  refine hontime.selected (.yield 0x07A0 []) rfl trivial ?_ hselected
  rw [lt_wakeTick_iff]
  decide

end SmartblocksOs.System
