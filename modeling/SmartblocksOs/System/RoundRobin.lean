/-
# SmartblocksOs.System.RoundRobin -- `chooseNextTask` overtakes nobody

Every switch, by `do_something_else` or by the tick, goes on from `current_task` by first fit. So between
two switches to one slot every slot that stays eligible has its turn (`round_robin`), also when
`task_count` grows in between.

That holds of the scheduler as it is in `SmartblocksOs.System.Scheduler`, and of the steps of
`SmartblocksOs.System.Calls`, between which a tick may interrupt `schedule_task`. There `task_count` may
even exceed `MAX_TASKS`, so `TableOk` cannot be used; `InRange` is what is left of it.

The general part is in `SmartblocksOs.Foundation.Rotation`: a pointer that walks round a circle by first
fit passes nobody who is eligible. What is to be shown of a system is that it `Walks`: the pointer is in
range, an eligible slot is, an event that does not switch leaves the pointer where it is, and one that
does moves it by first fit. Two systems are shown to walk, one in which each function of the scheduler is
a step, and one in which `schedule_task` can be interrupted.
-/
import SmartblocksOs.Foundation.Rotation
import SmartblocksOs.System.Calls

namespace SmartblocksOs.System

open Foundation

/-! ## First fit

The specification of `chooseNextTask` in `SmartblocksOs.System.Selection` assumes a table that is in
order. Here a call that comes back is enough, since one that leaves the table does not. -/

/-- What `chooseFrom` looked at before it returned. -/
theorem chooseFrom_eq_some {n : Nat} {tasks : Fin n → TaskDefinition} {taskCount : Int}
    (hpos : 0 < taskCount) (k : Nat) : ∀ {current next : Int}, -1 ≤ current →
    chooseFrom tasks taskCount k current = some next →
    (next = -1 ∧ ∀ l : Nat, 1 ≤ l → l ≤ k → ¬ EligibleAt tasks ((current + l) % taskCount)) ∨
      (EligibleAt tasks next ∧ FirstFit (EligibleAt tasks) taskCount current next) := by
  intro current next hcur h
  rw [← probeFrom_snd] at h
  obtain ⟨r, hr, rfl⟩ := Option.map_eq_some_iff.mp h
  have hsome : (probeFrom tasks taskCount k current).isSome := Option.isSome_iff_exists.mpr ⟨r, hr⟩
  rcases probeFrom_spec_of_isSome tasks hpos k current hcur hsome with
    ⟨hs, hall⟩ | ⟨i, h1, -, hs, hel, hall⟩
  · obtain rfl := Option.some.inj (hr.symm.trans hs)
    exact Or.inl ⟨rfl, hall⟩
  · obtain rfl := Option.some.inj (hr.symm.trans hs)
    exact Or.inr ⟨hel, i, h1, rfl, hall⟩

/-- When `chooseNextTask` comes back it has found no eligible slot, or the first one behind the current
slot. -/
theorem chooseNextTask_eq_some {n : Nat} {tasks : Fin n → TaskDefinition} {taskCount current next : Int}
    (h0 : 0 ≤ taskCount) (hcur : -1 ≤ current)
    (h : chooseNextTask tasks taskCount current = some next) :
    (next = -1 ∧ ∀ x, 0 ≤ x → x < taskCount → ¬ EligibleAt tasks x) ∨
      (0 ≤ next ∧ next < taskCount ∧ FirstFit (EligibleAt tasks) taskCount current next) := by
  rcases Int.lt_or_eq_of_le h0 with hpos | rfl
  · rcases chooseFrom_eq_some hpos taskCount.toNat hcur h with ⟨hnext, hall⟩ | ⟨-, hfirst⟩
    · refine Or.inl ⟨hnext, fun x hx hlt hel => ?_⟩
      obtain ⟨i, h1, hi, hprobe⟩ := exists_probe current hpos hx hlt
      apply hall i h1 (by omega)
      rwa [hprobe]
    · obtain ⟨k, h1, hnext, hskip⟩ := hfirst
      refine Or.inr ⟨?_, ?_, k, h1, hnext, hskip⟩
      · rw [hnext]
        exact Int.emod_nonneg _ (by omega)
      · rw [hnext]
        exact Int.emod_lt_of_pos _ hpos
  · exact Or.inl ⟨(Option.some.inj h).symm, fun x hx hlt => absurd hlt (by omega)⟩

/-! ## What a switch does to the pointer

A switch saves the stack pointer, perhaps counts the sleepers down, and chooses. `Rotated` is what all
switches have in common, and `Stays` what the steps before the choice have: no task is started by them, so
that a slot that is eligible afterwards was running before. -/

/-- The counters are in range, and only slots below `task_count` are running. -/
structure InRange (g : Globals) : Prop where
  count_nonneg : 0 ≤ g.taskCount
  current_ge : -1 ≤ g.currentTask
  current_lt : g.currentTask < g.taskCount
  running_lt : ∀ j : Fin maxTasks, (g.tasks j).running = true → (j : Int) < g.taskCount

/-- A table in order has its counts in range. -/
theorem TableOk.inRange {g : Globals} (h : TableOk g) : InRange g :=
  ⟨h.count_nonneg, h.current_ge, h.current_lt, fun _ => h.lt_count_of_running⟩

/-- `current_task` is chosen from where it was, and no task is started. -/
structure Rotated (g g' : Globals) : Prop where
  count : g'.taskCount = g.taskCount
  running : ∀ j, (g'.tasks j).running = true → (g.tasks j).running = true
  chosen : chooseNextTask g'.tasks g'.taskCount g.currentTask = some g'.currentTask

/-- `current_task` stays as it is, and no task is started. -/
structure Stays (g g' : Globals) : Prop where
  count : g'.taskCount = g.taskCount
  current : g'.currentTask = g.currentTask
  running : ∀ j, (g'.tasks j).running = true → (g.tasks j).running = true

/-- A step that stays, and then a switch, is a switch. -/
theorem Stays.rotated {g g' g'' : Globals} (h : Stays g g') (h' : Rotated g' g'') : Rotated g g'' :=
  ⟨h'.count.trans h.count, fun j hj => h.running j (h'.running j hj), by rw [← h.current, h'.chosen]⟩

theorem InRange.stays {g g' : Globals} (h : InRange g) (hs : Stays g g') : InRange g' :=
  ⟨by rw [hs.count]; exact h.count_nonneg, by rw [hs.current]; exact h.current_ge,
    by rw [hs.current, hs.count]; exact h.current_lt,
    fun j hj => by rw [hs.count]; exact h.running_lt j (hs.running j hj)⟩

/-- Only slots below `task_count` are eligible. -/
theorem EligibleAt.inRange {g : Globals} (h : InRange g) {i : Int} (hi : EligibleAt g.tasks i) :
    0 ≤ i ∧ i < g.taskCount := by
  obtain ⟨j, rfl, hj⟩ := hi
  exact ⟨Int.natCast_nonneg _, h.running_lt j hj.1⟩

/-- A switch goes on by first fit, or finds no eligible slot. -/
theorem Rotated.selects {g g' : Globals} (h : Rotated g g') (hg : InRange g) :
    InRange g' ∧ ((∀ i, ¬ EligibleAt g'.tasks i) ∨
      FirstFit (EligibleAt g'.tasks) g'.taskCount g.currentTask g'.currentTask) := by
  have h0 : 0 ≤ g'.taskCount := by rw [h.count]; exact hg.count_nonneg
  have hrun : ∀ j : Fin maxTasks, (g'.tasks j).running = true → (j : Int) < g'.taskCount := by
    intro j hj
    rw [h.count]
    exact hg.running_lt j (h.running j hj)
  rcases chooseNextTask_eq_some h0 hg.current_ge h.chosen with ⟨hnext, hall⟩ | ⟨hge, hlt, hfirst⟩
  · refine ⟨⟨h0, by omega, by omega, hrun⟩, Or.inl fun i hi => ?_⟩
    obtain ⟨j, rfl, hj⟩ := hi
    exact hall j (Int.natCast_nonneg _) (hrun j hj.1) ⟨j, rfl, hj⟩
  · exact ⟨⟨h0, by omega, hlt, hrun⟩, Or.inr hfirst⟩

/-! ## The statements of a switch

The lines of `do_something_else` and of the tick handler, one by one. -/

/-- To save the stack pointer changes no eligibility. -/
theorem storeSp_stays {g g' : Globals} (h : g.storeSp = some g') : Stays g g' := by
  unfold Globals.storeSp at h
  split at h
  · obtain rfl := Option.some.inj h
    exact ⟨rfl, rfl, fun _ => id⟩
  · obtain ⟨c, -, h⟩ := Option.bind_eq_some_iff.mp h
    obtain rfl := Option.some.inj h
    refine ⟨rfl, rfl, fun j hj => ?_⟩
    by_cases hc : j = c
    · subst hc
      simpa using hj
    · simpa [hc] using hj

/-- To load one changes `temp_sp` only. -/
theorem loadSp_eq_some {g g' : Globals} (h : g.loadSp = some g') :
    g' = { g with tempSp := g'.tempSp } := by
  unfold Globals.loadSp at h
  split at h
  · exact Option.some.inj h ▸ rfl
  · obtain ⟨c, -, h⟩ := Option.bind_eq_some_iff.mp h
    exact Option.some.inj h ▸ rfl

/-- `chooseNextTask` sees the table as the switch leaves it: `loadSp` does not change it. -/
theorem switchTasks_rotated {g g' : Globals} (h : g.switchTasks = some g') : Rotated g g' := by
  obtain ⟨g₁, hstore, h⟩ := Option.bind_eq_some_iff.mp h
  obtain ⟨next, hnext, h⟩ := Option.bind_eq_some_iff.mp h
  have hstays := storeSp_stays hstore
  rw [loadSp_eq_some h]
  exact hstays.rotated ⟨rfl, fun _ => id, hnext⟩

/-- The countdown starts and stops no task. -/
theorem updateSleepTimeFrom_running {n : Nat} (k : Nat) : ∀ {tasks tasks' : Fin n → TaskDefinition} {i : Int},
    updateSleepTimeFrom tasks k i = some tasks' → ∀ j, (tasks' j).running = (tasks j).running := by
  induction k with
  | zero =>
      intro tasks tasks' i h j
      obtain rfl := Option.some.inj h
      rfl
  | succ k ih =>
      intro tasks tasks' i h j
      obtain ⟨l, -, h⟩ := Option.bind_eq_some_iff.mp h
      rw [ih h j]
      by_cases hj : j = l
      · subst hj
        simp
      · simp [hj]

theorem saved_stays (g : Globals) (w : Globals.Suspended) : Stays g (saved g w) :=
  ⟨rfl, rfl, fun _ => id⟩

/-- A voluntary switch goes on to the next eligible slot. -/
theorem doSomethingElse_rotated {g g' : Globals} {w : Globals.Suspended}
    (h : g.doSomethingElse w = some g') : Rotated g g' :=
  (saved_stays g w).rotated (switchTasks_rotated h)

theorem stopCurrent_stays {g g' : Globals} (h : g.stopCurrent = some g') : Stays g g' := by
  obtain ⟨c, -, h⟩ := Option.bind_eq_some_iff.mp h
  obtain rfl := Option.some.inj h
  refine ⟨rfl, rfl, fun j hj => ?_⟩
  replace hj : ((stopped g c).tasks j).running = true := hj
  rw [stopped_running] at hj
  split at hj
  · exact absurd hj Bool.false_ne_true
  · exact hj

theorem setSleepTime_stays {g g' : Globals} {t : Int16} (h : g.setSleepTime t = some g') :
    Stays g g' := by
  obtain ⟨c, -, h⟩ := Option.bind_eq_some_iff.mp h
  obtain rfl := Option.some.inj h
  refine ⟨rfl, rfl, fun j hj => ?_⟩
  replace hj : ((asleep g c t).tasks j).running = true := hj
  rwa [asleep_running] at hj

/-- Every switch of the scheduler goes on from `current_task`, whatever it saves and counts down before. -/
theorem step_rotated {g g' : Globals} {e : Event} (hst : step g e = some g') (he : e.Switches) :
    Rotated g g' := by
  obtain ⟨-, hexec⟩ := step_eq_some.mp hst
  cases e with
  | exitTask w =>
      obtain ⟨g₁, hstop, hexec⟩ := Option.bind_eq_some_iff.mp hexec
      exact (stopCurrent_stays hstop).rotated (doSomethingElse_rotated hexec)
  | yield w => exact doSomethingElse_rotated hexec
  | sleep t w =>
      obtain ⟨g₁, hset, hexec⟩ := Option.bind_eq_some_iff.mp hexec
      exact (setSleepTime_stays hset).rotated (doSomethingElse_rotated hexec)
  | tick w =>
      obtain ⟨tasks, htasks, hexec⟩ := Option.bind_eq_some_iff.mp hexec
      have hstays : Stays g { saved g w with tasks := tasks } := by
        refine ⟨rfl, rfl, fun j hj => ?_⟩
        rwa [← updateSleepTimeFrom_running _ htasks j]
      exact hstays.rotated (switchTasks_rotated hexec)
  | work _ | scheduleTask _ _ | stopCurrent | setSleepTime _ => exact he.elim

/-- The events that neither switch nor create a task. -/
theorem step_stays {g g' : Globals} {e : Event} (hst : step g e = some g') (he : ¬ e.Switches)
    (hschedule : ∀ address args, e ≠ .scheduleTask address args) : Stays g g' := by
  obtain ⟨-, hexec⟩ := step_eq_some.mp hst
  cases e with
  | work ram =>
      obtain rfl := Option.some.inj hexec
      exact ⟨rfl, rfl, fun _ => id⟩
  | scheduleTask address args => exact absurd rfl (hschedule address args)
  | exitTask _ | yield _ | sleep _ _ | tick _ => exact absurd trivial he
  | stopCurrent => exact stopCurrent_stays hexec
  | setSleepTime t => exact setSleepTime_stays hexec

/-! ## The scheduler

The first of the two systems. The limit of the circle is `task_count`, which may grow between two
switches; a slot that is added comes at the end of the circle and takes nobody's turn. -/

/-- `current_task`, and which slots `chooseNextTask` may take. -/
def slotRotation : Rotation Globals Event where
  current g := g.currentTask
  Eligible g i := EligibleAt g.tasks i
  Switches := Event.Switches

/-- The scheduler walks round its slots, so whatever holds of such a walk holds of it. -/
theorem slotRotation_walks : slotRotation.Walks step Globals.taskCount TableOk where
  range _ h := ⟨h.current_ge, h.current_lt⟩
  eligible _ _ h hi := hi.inRange h.inRange
  keeps _ _ _ := step_tableOk
  stay g e g' h hst he := by
    by_cases hschedule : ∃ address args, e = .scheduleTask address args
    · obtain ⟨address, args, rfl⟩ := hschedule
      cases step_outcome h hst with
      | refused _ _ _ _ => exact ⟨rfl, le_rfl⟩
      | accepted _ _ j _ _ =>
          refine ⟨rfl, ?_⟩
          show g.taskCount ≤ if g.taskCount = maxTasks then g.taskCount else g.taskCount + 1
          split <;> omega
    · have hstays := step_stays hst he fun address args heq => hschedule ⟨address, args, heq⟩
      exact ⟨hstays.current, hstays.count.ge⟩
  switch g e g' h hst he := by
    have hrot := step_rotated hst he
    exact ⟨hrot.count, (hrot.selects h.inRange).2⟩

/-! ## The steps of `schedule_task`

The second system. A call in progress may have incremented `task_count` without having filled its slot,
and two calls may have incremented it beyond `MAX_TASKS`. `Bounded` keeps what is needed nevertheless: no
task starts to run in a slot from `task_count` on. -/

/-- The events that end with `RESTORE_CONTEXT` of the chosen task. -/
def CallEvent.Switches : CallEvent → Prop
  | .yield _ _ | .tick _ _ => True
  | .call _ _ | .advance | .work _ | .stopCurrent | .storeSleepByte _ _ => False

@[simp]
theorem Call.goto_pc (c : Call) (pc : CallPc) (exited : Nat → Bool) : (c.goto pc exited).pc = pc := by
  unfold Call.goto
  split <;> rfl

namespace Calls

/-- No call fills a slot from `task_count` on. -/
structure Bounded (w : Calls) : Prop where
  inRange : InRange w.g
  increment : ∀ k n, (w.call k).pc = .increment n → n ≤ w.g.taskCount
  building : ∀ k n rest, (w.call k).pc = .building n rest → n < w.g.taskCount

variable {w w' : Calls}

/-- Before the first call. -/
theorem Initial.bounded (h : w.Initial) : Bounded w := by
  obtain ⟨hg, -, hcall, -, -⟩ := h
  refine ⟨hg.tableOk.inRange, fun k n hn => ?_, fun k n rest hn => ?_⟩
  · rw [hcall k] at hn
    exact CallPc.noConfusion hn
  · rw [hcall k] at hn
    exact CallPc.noConfusion hn

/-- The call `k` has gone to `pc`, and no task has been started from `task_count` on. -/
theorem Bounded.moveTo (h : Bounded w) {k : Nat} {g : Globals} {pc : CallPc} (hg : InRange g)
    (hcount : w.g.taskCount ≤ g.taskCount) (hincrement : ∀ n, pc = .increment n → n ≤ g.taskCount)
    (hbuilding : ∀ n rest, pc = .building n rest → n < g.taskCount) :
    Bounded (w.moveTo k g pc) := by
  have hpc : ∀ l, ((w.moveTo k g pc).call l).pc = if l = k then pc else (w.call l).pc := by
    intro l
    by_cases hl : l = k
    · subst hl
      simp [Calls.moveTo]
    · simp [Calls.moveTo, hl]
  refine ⟨hg, fun l n hn => ?_, fun l n rest hn => ?_⟩
  · rw [hpc] at hn
    split at hn
    · exact hincrement n hn
    · exact (h.increment l n hn).trans hcount
  · rw [hpc] at hn
    split at hn
    · exact hbuilding n rest hn
    · exact (h.building l n rest hn).trans_le hcount

/-- A step of `schedule_task` makes `task_count` larger at most, and does not switch. -/
theorem Bounded.advance (h : Bounded w) {k : Nat} {g : Globals} {pc : CallPc}
    (hadv : Advanced (w.call k).address (w.call k).args w.g (w.call k).pc g pc) :
    w.g.taskCount ≤ g.taskCount ∧ g.currentTask = w.g.currentTask ∧ Bounded (w.moveTo k g pc) := by
  have hg := h.inRange
  generalize hpc : (w.call k).pc = p at hadv
  cases hadv with
  | testFull _ | testFree _ | next _ _ _ | exhausted _ _ =>
      exact ⟨le_rfl, rfl, h.moveTo hg le_rfl (by simp) (by simp)⟩
  | read => exact ⟨le_rfl, rfl, h.moveTo hg le_rfl (by simp) (by simp)⟩
  | found j hlt _ =>
      refine ⟨le_rfl, rfl, h.moveTo hg le_rfl (fun n hn => CallPc.noConfusion hn) fun n rest hn => ?_⟩
      obtain ⟨rfl, -⟩ := CallPc.building.inj hn
      exact hlt
  | increment taskNum =>
      have hle := h.increment k taskNum hpc
      have hcur := hg.current_lt
      have hcount := hg.count_nonneg
      -- the one step that changes the count lets it grow
      have hnew : InRange { w.g with taskCount := w.g.taskCount + 1 } := by
        refine ⟨?_, hg.current_ge, ?_, fun j hj => ?_⟩
        · show 0 ≤ w.g.taskCount + 1
          omega
        · show w.g.currentTask < w.g.taskCount + 1
          omega
        · have := hg.running_lt j hj
          show (j : Int) < w.g.taskCount + 1
          omega
      have hgrown : w.g.taskCount ≤ w.g.taskCount + 1 := by omega
      refine ⟨hgrown, rfl, h.moveTo hnew hgrown (fun n hn => CallPc.noConfusion hn) fun n rest hn => ?_⟩
      obtain ⟨rfl, -⟩ := CallPc.building.inj hn
      show taskNum < w.g.taskCount + 1
      omega
  | store taskNum a x rest =>
      have hlt := h.building k taskNum _ hpc
      have hnew : InRange { w.g with ram := Function.update w.g.ram a x } :=
        hg.stays ⟨rfl, rfl, fun _ => id⟩
      refine ⟨le_rfl, rfl, h.moveTo hnew le_rfl (fun n hn => CallPc.noConfusion hn) fun n rest' hn => ?_⟩
      obtain ⟨rfl, -⟩ := CallPc.building.inj hn
      exact hlt
  | commit j =>
      have hlt := h.building k j _ hpc
      have hnew : InRange (committed w.g j) := by
        refine ⟨hg.count_nonneg, hg.current_ge, hg.current_lt, fun i hi => ?_⟩
        rw [committed_tasks] at hi
        split at hi
        -- the slot committed is below the count
        · rename_i hij
          subst hij
          exact hlt
        · exact hg.running_lt i hi
      exact ⟨le_rfl, rfl, h.moveTo hnew le_rfl (by simp) (by simp)⟩

/-- A step in which no call moves. -/
theorem Bounded.of_pc (h : Bounded w) (hpc : ∀ k, (w'.call k).pc = (w.call k).pc)
    (hcount : w'.g.taskCount = w.g.taskCount) (hg : InRange w'.g) : Bounded w' := by
  refine ⟨hg, fun k n hn => ?_, fun k n rest hn => ?_⟩
  · rw [hpc k] at hn
    rw [hcount]
    exact h.increment k n hn
  · rw [hpc k] at hn
    rw [hcount]
    exact h.building k n rest hn

/-- What a step does that does not switch. -/
theorem Bounded.stay (h : Bounded w) {e : CallEvent} (hst : callStep w e = some w')
    (he : ¬ e.Switches) :
    Bounded w' ∧ w'.g.currentTask = w.g.currentTask ∧ w.g.taskCount ≤ w'.g.taskCount := by
  have hstays : Stays w.g w'.g → (∀ k, (w'.call k).pc = (w.call k).pc) →
      Bounded w' ∧ w'.g.currentTask = w.g.currentTask ∧ w.g.taskCount ≤ w'.g.taskCount :=
    fun hs hpc => ⟨h.of_pc hpc hs.count (h.inRange.stays hs), hs.current, hs.count.ge⟩
  cases callStep_outcome hst with
  | yield _ _ _ _ _ _ | tick _ _ _ _ _ => exact absurd trivial he
  | call address args hout hlive =>
      refine ⟨⟨h.inRange, fun k n hn => ?_, fun k n rest hn => ?_⟩, rfl, le_rfl⟩
      · by_cases hk : k = w.count
        · subst hk
          simp [enter] at hn
        · exact h.increment k n (by simpa [enter, hk] using hn)
      · by_cases hk : k = w.count
        · subst hk
          simp [enter] at hn
        · exact h.building k n rest (by simpa [enter, hk] using hn)
  | advance k g pc hk hadv =>
      obtain ⟨hcount, hcur, hbounded⟩ := h.advance hadv
      exact ⟨hbounded, hcur, hcount⟩
  | work writes hown => exact hstays ⟨rfl, rfl, fun _ => id⟩ fun _ => rfl
  | stopCurrent g hout hlive hg =>
      exact hstays (step_stays hg id (by simp)) fun k => (w.markExited_same k).pc
  | storeSleepByte half b t g hout hg => exact hstays (step_stays hg id (by simp)) fun _ => rfl

/-- A step that switches, whatever the calls are at. -/
theorem Bounded.switch (h : Bounded w) {e : CallEvent} (hst : callStep w e = some w')
    (he : e.Switches) : Bounded w' ∧ Rotated w.g w'.g := by
  have hswitch : ∀ {e' : Event} {g : Globals}, step w.g e' = some g → e'.Switches →
      Bounded { w with g := g }.markStarted ∧ Rotated w.g ({ w with g := g }.markStarted).g := by
    intro e' g hg hsw
    have hrot := step_rotated hg hsw
    have hg' : ({ w with g := g }.markStarted).g = g := mark_g _ _
    rw [hg']
    refine ⟨h.of_pc (fun k => (markStarted_same { w with g := g } k).pc) ?_ ?_, hrot⟩
    · rw [hg']
      exact hrot.count
    · rw [hg']
      exact (hrot.selects h.inRange).1
  cases callStep_outcome hst with
  | yield sp writes g hout hown hg => exact hswitch hg trivial
  | tick sp writes g hown hg => exact hswitch hg trivial
  | call _ _ _ _ | advance _ _ _ _ _ | work _ _ | stopCurrent _ _ _ _ | storeSleepByte _ _ _ _ _ _ =>
      exact he.elim

end Calls

/-- The system of `SmartblocksOs.System.Calls` as a rotation. -/
def callRotation : Rotation Calls CallEvent where
  current w := w.g.currentTask
  Eligible w i := EligibleAt w.g.tasks i
  Switches := CallEvent.Switches

/-- The preemptible system walks round its slots as well. -/
theorem callRotation_walks :
    callRotation.Walks callStep (fun w => w.g.taskCount) Calls.Bounded where
  range _ h := ⟨h.inRange.current_ge, h.inRange.current_lt⟩
  eligible _ _ h hi := hi.inRange h.inRange
  keeps w e w' h hst := by
    by_cases he : e.Switches
    · exact (h.switch hst he).1
    · exact (h.stay hst he).1
  stay _ _ _ h hst he := (h.stay hst he).2
  switch w e w' h hst he := by
    have hrot := (h.switch hst he).2
    exact ⟨hrot.count, (hrot.selects h.inRange).2⟩

/-! ## Nobody is overtaken

Both systems walk, so that the general theorem applies to both. -/

/-- **Round robin.** Between two switches to a slot, every other slot that is eligible at each switch
from there on has been switched to. So it is when each function is one step, and also when the tick may
switch between the steps of `schedule_task`. A slot is eligible after a switch just when
`chooseNextTask` has found it so, since nothing that it reads is changed behind it. -/
theorem round_robin :
    slotRotation.NoOvertaking Initial step ∧ callRotation.NoOvertaking Calls.Initial callStep :=
  ⟨slotRotation_walks.noOvertaking fun _ => Initial.tableOk,
    callRotation_walks.noOvertaking fun _ => Calls.Initial.bounded⟩

/-- Two tasks, neither of which sleeps: between two turns of slot `0` slot `1` has had one. -/
theorem round_robin_two_tasks :
    ∃ s₁ s₂ t, run step (Globals.construct 0x08F0 fun _ => 0)
        [.scheduleTask 0x1234 0, .scheduleTask 0x1300 0, .tick ⟨0x08E0, fun _ => 0⟩] = some s₁ ∧
      run step s₁ [.yield ⟨0x07A0, fun _ => 0⟩] = some s₂ ∧
      step s₂ (.yield ⟨0x06A0, fun _ => 0⟩) = some t ∧
      s₁.currentTask = 0 ∧ t.currentTask = 0 ∧ s₂.currentTask = 1 := by
  let g := Globals.construct 0x08F0 fun _ => 0
  let e₁ : Event := .tick ⟨0x08E0, fun _ => 0⟩
  let y : Event := .yield ⟨0x07A0, fun _ => 0⟩
  let e₂ : Event := .yield ⟨0x06A0, fun _ => 0⟩
  have htrace : ((run step g [.scheduleTask 0x1234 0, .scheduleTask 0x1300 0]).bind fun s =>
      (step s e₁).bind fun s₁ => (step s₁ y).bind fun s₂ => (step s₂ e₂).map fun t =>
        decide (s₁.currentTask = 0 ∧ t.currentTask = 0 ∧ (s₂.tasks 1).Eligible ∧
          (t.tasks 1).Eligible)) = some true := by decide
  obtain ⟨s, hs, htrace⟩ := Option.bind_eq_some_iff.mp htrace
  obtain ⟨s₁, hs₁, htrace⟩ := Option.bind_eq_some_iff.mp htrace
  obtain ⟨s₂, hs₂, htrace⟩ := Option.bind_eq_some_iff.mp htrace
  obtain ⟨t, ht, hdec⟩ := Option.map_eq_some_iff.mp htrace
  obtain ⟨hcur₁, hcur, helig₂, helig⟩ := of_decide_eq_true hdec
  have hrun : run step s₁ [y] = some s₂ := by rw [run_cons, hs₂]; rfl
  -- slot 1 is eligible after each of the two switches
  have hall : ∀ es e fs u, [y] ++ [e₂] = es ++ e :: fs → e.Switches →
      run step s₁ (es ++ [e]) = some u → EligibleAt u.tasks 1 := by
    intro es e fs u hbetween _ hu
    cases es with
    | nil =>
        obtain rfl : y = e := (List.cons.inj hbetween).1
        obtain rfl := Option.some.inj (hrun.symm.trans hu)
        exact ⟨1, rfl, helig₂⟩
    | cons b es =>
        obtain ⟨rfl, htail⟩ := List.cons.inj hbetween
        cases es with
        | nil =>
            obtain rfl : e₂ = e := (List.cons.inj htail).1
            obtain rfl := Option.some.inj ((run_concat_eq_some.mpr ⟨s₂, hrun, ht⟩).symm.trans hu)
            exact ⟨1, rfl, helig⟩
        | cons c es => exact absurd (List.cons.inj htail).2 (by simp)
  obtain ⟨es, e, fs, u, hbetween, -, hu, hone⟩ := round_robin.1 s s₁ s₂ t e₁ e₂ [y] 1 0
    ⟨g, _, initial_construct _ _, hs⟩ trivial hs₁ hcur₁ hrun trivial ht hcur le_rfl (by decide) hall
  obtain ⟨rfl, rfl⟩ : es = [] ∧ e = y := by
    cases es with
    | nil => exact ⟨rfl, (List.cons.inj hbetween).1.symm⟩
    | cons b es => exact absurd (List.cons.inj hbetween).2 (by simp)
  obtain rfl := Option.some.inj (hrun.symm.trans hu)
  exact ⟨s₁, s₂, t, run_concat_eq_some.mpr ⟨s, hs, hs₁⟩, hrun, ht, hcur₁, hcur, hone⟩

end SmartblocksOs.System
