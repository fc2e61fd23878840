/-
# SmartblocksOs.System.Creation -- `schedule_task` one step at a time

A timer tick may switch tasks anywhere inside `schedule_task`, up to the three stores between `cli`
and `sei`. `CallPc.advance` carries the call from one such point to the next. Run without a break it
is the `scheduleTask` of `SmartblocksOs.System.Globals` (`scheduleTask_eq_advance`), and what it
builds is a frame: the 35 bytes `RESTORE_CONTEXT` and the return from it take off the stack.

The points between which a call can be interrupted are the constructors of `CallPc`. They are as fine as
the effects of the call on shared data: each test of `task_count` or of a slot, the read and the increment
of `task_count`, and each byte stored to the RAM are steps of their own, while computations on local
variables belong to the step before. `Advanced` is the inversion of `advance`, with one constructor for
each kind of step, and is what all later proofs go by.
-/
import SmartblocksOs.System.StackArea

namespace SmartblocksOs.System

open Foundation

/-! ## The frame of a suspended context

A context that is not running is a frame on its stack, and `tasks[i].sp` points below it. It does not
matter whether the frame has been put there by `SAVE_CONTEXT` or by `schedule_task`; a new task is one
that has been suspended before its first instruction. -/

/-- The general registers `r0` to `r31`. -/
abbrev Reg := Fin 32

instance neZeroRegs : NeZero 32 := ⟨by decide⟩

/-- `pc`, the registers and `sreg` lie on the stack from `top` down, where a suspension puts them:
the return address, `r0`, `SREG`, and `r1` to `r31`. -/
structure FrameAt (ram : Ram) (top : Addr) (pc : Addr) (sreg : Byte) (r : Reg → Byte) : Prop where
  pcLow : ram top = lowByte pc
  pcHigh : ram (top - 1) = highByte pc
  reg0 : ram (top - 2) = r 0
  status : ram (top - 3) = sreg
  reg : ∀ k : Reg, k ≠ 0 → ram (top - BitVec.ofNat 16 (3 + k)) = r k

/-- How many bytes a frame takes. -/
def frameSize : Nat := 35

/-- Only the frame's own bytes matter. -/
theorem FrameAt.congr {ram ram' : Ram} {top pc : Addr} {sreg : Byte} {r : Reg → Byte}
    (h : FrameAt ram top pc sreg r)
    (heq : ∀ i < frameSize, ram' (top - BitVec.ofNat 16 i) = ram (top - BitVec.ofNat 16 i)) :
    FrameAt ram' top pc sreg r := by
  refine ⟨?_, (heq 1 (by decide)).trans h.pcHigh, (heq 2 (by decide)).trans h.reg0,
    (heq 3 (by decide)).trans h.status, fun k hk => ?_⟩
  · simpa [h.pcLow] using heq 0 (by decide)
  · have hlt := k.isLt
    exact (heq (3 + k) (by simp only [frameSize]; omega)).trans (h.reg k hk)

/-- The registers a new task starts with: `args` in `r25:r24`, and zeros. -/
def initialRegs (args : BitVec 16) (k : Reg) : Byte :=
  if k = 24 then lowByte args else if k = 25 then highByte args else 0

/-- What the bytes of the slot hold once `schedule_task` has made its assignments. -/
theorem writeAll_frameWrites (ram : Ram) (top : Addr) (address args : BitVec 16) {i : Nat}
    (hi : i < taskStackSize) :
    writeAll ram (frameWrites top address args) (top - BitVec.ofNat 16 i) =
      if i = 28 then highByte args else if i = 27 then lowByte args
      else if i = 1 then highByte address else if i = 0 then lowByte address else 0 := by
  simp only [taskStackSize] at hi
  have hinj : ∀ {a : Addr} {j : Nat}, j < 256 → a = top - BitVec.ofNat 16 j →
      (top - BitVec.ofNat 16 i = a ↔ i = j) := by
    rintro a j hj rfl
    exact sub_ofNat_inj (by omega) (by omega)
  rw [frameWrites, writeAll_append, writeAll_fill _ _ _ (by decide)]
  simp only [writeAll_cons, writeAll_nil, Function.update_apply]
  refine if_congr (hinj (by decide) (sub_sub top 3 25)) rfl
    (if_congr (hinj (by decide) (sub_sub top 3 24)) rfl
      (if_congr (hinj (by decide) rfl) rfl
        (if_ctx_congr (hinj (by decide) (by simp)) (fun _ => rfl) fun hpos => if_pos ?_)))
  simp only [taskStackSize]
  bv_omega

/-- The assignments of `schedule_task` leave the frame of a context that has yet to start, whatever
was in memory before. -/
theorem frameAt_frameWrites (ram : Ram) (top : Addr) (address args : BitVec 16) :
    FrameAt (writeAll ram (frameWrites top address args)) top address 0 (initialRegs args) := by
  have hval := fun i (hi : i < taskStackSize) =>
    writeAll_frameWrites ram top address args (i := i) hi
  refine ⟨by simpa using hval 0 (by decide), hval 1 (by decide), hval 2 (by decide),
    hval 3 (by decide), fun k hk => ?_⟩
  have hlt := k.isLt
  rw [hval (3 + k) (by simp only [taskStackSize]; omega), initialRegs]
  simp only [Fin.ext_iff]
  have h24 : ((24 : Reg) : Nat) = 24 := rfl
  have h25 : ((25 : Reg) : Nat) = 25 := rfl
  split_ifs <;> first | rfl | omega

/-! ## `schedule_task`, step by step

The last section shows that the steps, one after the other, are the function. Its proof goes from the end
of the call to its beginning: first the stores and the commit, then the search, then the whole. -/

/-- Where a call of `schedule_task` stands, with the local variables it needs from there on. -/
inductive CallPc where
  /-- At `if(task_count == MAX_TASKS)`. -/
  | test
  /-- At the head of the search loop. -/
  | search (i : Int)
  /-- At `task_num=task_count`. -/
  | read
  /-- At `task_count++`. -/
  | increment (taskNum : Int)
  /-- Building the frame of slot `taskNum`, with the assignments `rest` still to make. -/
  | building (taskNum : Int) (rest : List (Addr × Byte))
  | returned (result : Int)

namespace CallPc

/-- The slot is known: go on with the `memset`. -/
def build (g : Globals) (address args : BitVec 16) (taskNum : Int) : CallPc :=
  building taskNum (frameWrites (g.top taskNum) address args)

/-- The next step of the call. The `cli`..`sei` block at the end is one step. -/
def advance (address args : BitVec 16) (g : Globals) : CallPc → Option (Globals × CallPc)
  | test => some (g, if g.taskCount = maxTasks then search 0 else read)
  | search i =>
      if i < g.taskCount then do
        let j ← slot? maxTasks i
        some (g, if (g.tasks j).running = false then build g address args i else search (i + 1))
      else some (g, returned (-1))
  | read => some (g, increment g.taskCount)
  | increment taskNum =>
      some ({ g with taskCount := g.taskCount + 1 }, build g address args taskNum)
  | building taskNum ((a, x) :: rest) =>
      some ({ g with ram := Function.update g.ram a x }, building taskNum rest)
  | building taskNum [] => (g.commitTask taskNum).map fun g => (g, returned 0)
  | returned _ => none

/-- `k` steps of the call with nothing in between. -/
def advances (address args : BitVec 16) (k : Nat) (s : Globals × CallPc) :
    Option (Globals × CallPc) :=
  run (fun s (_ : Unit) => advance address args s.1 s.2) s (List.replicate k ())

end CallPc

/-- The globals after the block between `cli` and `sei`. -/
def committed (g : Globals) (j : Fin maxTasks) : Globals :=
  { g with tasks := Function.update g.tasks j { sp := g.top j - 35, sleepTime := -1, running := true } }

/-- The slot of a call that has committed, and the others. -/
theorem committed_tasks (g : Globals) (i j : Fin maxTasks) :
    (committed g j).tasks i =
      if i = j then { sp := g.top j - 35, sleepTime := -1, running := true } else g.tasks i := by
  simp only [committed, Function.update_apply]

/-- A commit to a slot below `task_count` keeps the table in order. -/
theorem committed_tableOk {g : Globals} (h : TableOk g) {j : Fin maxTasks}
    (hlt : (j : Int) < g.taskCount) : TableOk (committed g j) := by
  refine ⟨h.count_nonneg, h.count_le, h.current_ge, h.current_lt, fun i hi => ?_⟩
  rw [committed_tasks, if_neg]
  · exact h.unused i hi
  · rintro rfl
    exact absurd hlt (not_lt.mpr hi)

/-- `task_count++`, as long as a slot is left. -/
theorem counted_tableOk {g : Globals} (h : TableOk g) (hlt : g.taskCount < maxTasks) :
    TableOk { g with taskCount := g.taskCount + 1 } := by
  have h0 := h.count_nonneg
  have hcur := h.current_lt
  refine ⟨?_, ?_, h.current_ge, ?_, fun i hi => h.unused i ?_⟩
  · show 0 ≤ g.taskCount + 1
    omega
  · show g.taskCount + 1 ≤ maxTasks
    omega
  · show g.currentTask < g.taskCount + 1
    omega
  · replace hi : g.taskCount + 1 ≤ i := hi
    omega

/-- Everything a step of the call can do. -/
inductive Advanced (address args : BitVec 16) (g : Globals) : CallPc → Globals → CallPc → Prop
  | testFull : g.taskCount = maxTasks → Advanced address args g .test g (.search 0)
  | testFree : g.taskCount ≠ maxTasks → Advanced address args g .test g .read
  | found (j : Fin maxTasks) : (j : Int) < g.taskCount → (g.tasks j).running = false →
      Advanced address args g (.search j) g (.build g address args j)
  | next (j : Fin maxTasks) : (j : Int) < g.taskCount → (g.tasks j).running = true →
      Advanced address args g (.search j) g (.search (j + 1))
  | exhausted (i : Int) : g.taskCount ≤ i → Advanced address args g (.search i) g (.returned (-1))
  | read : Advanced address args g .read g (.increment g.taskCount)
  | increment (taskNum : Int) : Advanced address args g (.increment taskNum)
      { g with taskCount := g.taskCount + 1 } (.build g address args taskNum)
  | store (taskNum : Int) (a : Addr) (x : Byte) (rest : List (Addr × Byte)) :
      Advanced address args g (.building taskNum ((a, x) :: rest))
        { g with ram := Function.update g.ram a x } (.building taskNum rest)
  | commit (j : Fin maxTasks) :
      Advanced address args g (.building j []) (committed g j) (.returned 0)

/-- The steps of a call, one case for each of them. -/
theorem advance_advanced {address args : BitVec 16} {g g' : Globals} {pc pc' : CallPc}
    (h : CallPc.advance address args g pc = some (g', pc')) :
    Advanced address args g pc g' pc' := by
  cases pc with
  | test =>
      obtain ⟨rfl, rfl⟩ := Prod.mk.inj (Option.some.inj h)
      split
      · exact .testFull ‹_›
      · exact .testFree ‹_›
  | search i =>
      simp only [CallPc.advance] at h
      split at h
      · obtain ⟨j, hj, h⟩ := Option.bind_eq_some_iff.mp h
        obtain rfl := slot?_eq_some.mp hj
        obtain ⟨rfl, rfl⟩ := Prod.mk.inj (Option.some.inj h)
        split
        · exact .found j ‹_› ‹_›
        · exact .next j ‹_› (by simpa using ‹¬ (g.tasks j).running = false›)
      · obtain ⟨rfl, rfl⟩ := Prod.mk.inj (Option.some.inj h)
        exact .exhausted i (by omega)
  | read =>
      obtain ⟨rfl, rfl⟩ := Prod.mk.inj (Option.some.inj h)
      exact .read
  | increment taskNum =>
      obtain ⟨rfl, rfl⟩ := Prod.mk.inj (Option.some.inj h)
      exact .increment taskNum
  | building taskNum rest =>
      cases rest with
      | nil =>
          obtain ⟨m, hm, hpair⟩ := Option.map_eq_some_iff.mp h
          obtain ⟨j, hj, hm⟩ := Option.bind_eq_some_iff.mp hm
          obtain rfl := slot?_eq_some.mp hj
          obtain ⟨rfl, rfl⟩ := Prod.mk.inj hpair
          obtain rfl := Option.some.inj hm
          exact .commit j
      | cons e rest =>
          obtain ⟨rfl, rfl⟩ := Prod.mk.inj (Option.some.inj h)
          exact .store taskNum e.1 e.2 rest
  | returned r => exact absurd h (by simp [CallPc.advance])

/-- What a step of a call does to the task table: the counter only grows, and a slot changes in the
block between `cli` and `sei`, where it gets its three values. -/
structure Advanced.Table (g : Globals) (pc : CallPc) (g' : Globals) : Prop where
  tasksStackTop : g'.tasksStackTop = g.tasksStackTop
  currentTask : g'.currentTask = g.currentTask
  taskCount : g.taskCount ≤ g'.taskCount
  tasks : ∀ j, g'.tasks j = g.tasks j ∨
    (pc = .building j [] ∧ g'.tasks j = { sp := g.top j - 35, sleepTime := -1, running := true })

/-- What such a step can do to the table. -/
theorem Advanced.table {address args : BitVec 16} {g g' : Globals} {pc pc' : CallPc}
    (h : Advanced address args g pc g' pc') : Advanced.Table g pc g' := by
  cases h with
  | commit j =>
      refine ⟨rfl, rfl, le_rfl, fun i => ?_⟩
      by_cases hi : i = j
      · subst hi
        exact Or.inr ⟨rfl, by rw [committed_tasks, if_pos rfl]⟩
      · exact Or.inl (by rw [committed_tasks, if_neg hi])
  | increment taskNum =>
      exact ⟨rfl, rfl, Int.le_add_of_nonneg_right (by decide), fun _ => Or.inl rfl⟩
  | testFull _ | testFree _ | found _ _ _ | next _ _ _ | exhausted _ _ | read | store _ _ _ _ =>
      exact ⟨rfl, rfl, le_rfl, fun _ => Or.inl rfl⟩

/-- No task stops running in a step of a call. -/
theorem Advanced.Table.running {g g' : Globals} {pc : CallPc} (h : Advanced.Table g pc g')
    {j : Fin maxTasks} (hj : (g.tasks j).running = true) : (g'.tasks j).running = true := by
  rcases h.tasks j with heq | ⟨-, heq⟩
  · rw [heq]
    exact hj
  · rw [heq]

section Uninterrupted

variable {address args : BitVec 16} {g : Globals}

theorem advances_succ (k : Nat) (s : Globals × CallPc) :
    CallPc.advances address args (k + 1) s =
      (CallPc.advance address args s.1 s.2).bind (CallPc.advances address args k) := rfl

/-- One number of steps, and then another. -/
theorem advances_add {m : Nat} {s t : Globals × CallPc}
    (hm : CallPc.advances address args m s = some t) (k : Nat) :
    CallPc.advances address args (m + k) s = CallPc.advances address args k t := by
  rw [CallPc.advances] at hm ⊢
  rw [← List.replicate_append_replicate, run_append, hm]
  rfl

/-- The stores of a frame, all of them. -/
theorem advances_building (g : Globals) (taskNum : Int) (rest : List (Addr × Byte)) (k : Nat) :
    CallPc.advances address args (rest.length + k) (g, .building taskNum rest) =
      CallPc.advances address args k ({ g with ram := writeAll g.ram rest }, .building taskNum []) := by
  induction rest generalizing g with
  | nil => rw [List.length_nil, Nat.zero_add, writeAll_nil]
  | cons e rest ih =>
      rw [List.length_cons, Nat.add_right_comm, advances_succ]
      exact ih _

/-- Once the slot is known, the rest of the call is `fillSlot`. -/
theorem advances_build (g : Globals) (taskNum : Int) :
    CallPc.advances address args (taskStackSize + 4 + 1) (g, .build g address args taskNum) =
      (g.fillSlot taskNum address args).map fun p => (p.2, .returned p.1) := by
  have hlen : (frameWrites (g.top taskNum) address args).length = taskStackSize + 4 := by
    simp [frameWrites]
  rw [CallPc.build, ← hlen, advances_building, ← buildFrame_ram, advances_succ]
  change (Option.map _ ((g.buildFrame taskNum address args).commitTask taskNum)).bind _ = _
  rw [Globals.fillSlot]
  cases (g.buildFrame taskNum address args).commitTask taskNum <;> rfl

/-- The search loop, run to its end, is `findFinishedFrom`. -/
theorem advances_search (address args : BitVec 16) (k : Nat) {i : Int} (hi : i + k = g.taskCount) {found : Int}
    (hfound : findFinishedFrom g.tasks k i = some found) :
    ∃ m, CallPc.advances address args m (g, .search i) =
      some (g, if found = -1 then .returned (-1) else .build g address args found) := by
  -- by induction on the slots that are left; one step for each
  induction k generalizing i with
  | zero =>
      obtain rfl : -1 = found := Option.some.inj hfound
      refine ⟨1, ?_⟩
      simp only [advances_succ, CallPc.advance, if_neg (show ¬ i < g.taskCount by omega)]
      rfl
  | succ k ih =>
      rw [findFinishedFrom] at hfound
      obtain ⟨j, hj, hfound⟩ := Option.bind_eq_some_iff.mp hfound
      by_cases hrun : (g.tasks j).running = false
      · rw [if_pos hrun] at hfound
        obtain rfl : i = found := Option.some.inj hfound
        refine ⟨1, ?_⟩
        have hpos := slot?_eq_some.mp hj
        simp only [advances_succ, CallPc.advance, if_pos (show i < g.taskCount by omega), hj,
          Option.bind_eq_bind, Option.bind_some, if_pos hrun]
        rw [if_neg (by omega)]
        rfl
      · rw [if_neg hrun] at hfound
        obtain ⟨m, hm⟩ := ih (i := i + 1) (by omega) hfound
        refine ⟨m + 1, ?_⟩
        simp only [advances_succ, CallPc.advance, if_pos (show i < g.taskCount by omega), hj,
          Option.bind_eq_bind, Option.bind_some, if_neg hrun]
        exact hm

/-- Run without a break, the steps of the call are `scheduleTask`. -/
theorem scheduleTask_eq_advance {r : Int} {g' : Globals} (h : TableOk g)
    (hr : g.scheduleTask address args = some (r, g')) :
    ∃ m, CallPc.advances address args m (g, .test) = some (g', .returned r) := by
  unfold Globals.scheduleTask at hr
  split at hr
  -- the table is full: a test, the search, and the rest of the call when it has found a slot
  · rename_i hfull
    obtain ⟨found, hfound, hr⟩ := Option.bind_eq_some_iff.mp hr
    obtain ⟨m, hm⟩ := advances_search address args g.taskCount.toNat
      (show 0 + (g.taskCount.toNat : Int) = g.taskCount by have := h.count_nonneg; omega) hfound
    have htest : CallPc.advances address args 1 (g, .test) = some (g, .search 0) := by
      simp only [advances_succ, CallPc.advance, if_pos hfull]
      rfl
    by_cases hnone : found = -1
    · rw [if_pos hnone] at hm hr
      refine ⟨1 + m, ?_⟩
      rw [advances_add htest, hm]
      cases hr
      rfl
    · rw [if_neg hnone] at hm hr
      refine ⟨1 + (m + (taskStackSize + 4 + 1)), ?_⟩
      rw [advances_add htest, advances_add hm, advances_build, hr]
      rfl
  -- there is a fresh slot: the test, the read and the increment, and then the rest
  · rename_i hfull
    have hread : CallPc.advances address args 3 (g, .test) =
        some ({ g with taskCount := g.taskCount + 1 },
          .build { g with taskCount := g.taskCount + 1 } address args g.taskCount) := by
      simp only [advances_succ, CallPc.advance, if_neg hfull]
      rfl
    refine ⟨3 + (taskStackSize + 4 + 1), ?_⟩
    rw [advances_add hread, advances_build, hr]
    rfl

end Uninterrupted

end SmartblocksOs.System
