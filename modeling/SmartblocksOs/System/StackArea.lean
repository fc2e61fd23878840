/-
# SmartblocksOs.System.StackArea -- which bytes `schedule_task` writes, and whose they are

Slot `j` owns the 256 bytes `top j - 255 .. top j`: a task starts with `SP = top j`, so its first
push writes `top j` itself. The `memset` of `schedule_task` starts one byte too low, at
`top n - 256`, which is `top (n + 1)`: the byte that holds the bottom of the next slot's stack.
`stack_isolated_iff` says when that does no harm.
-/
import SmartblocksOs.Foundation.Stack
import SmartblocksOs.System.Scheduler

namespace SmartblocksOs.System

open Foundation

/-! ## The stack areas

A byte belongs to the stack of a slot when its depth below the top of that slot is less than 256. -/

/-- The 256 bytes `top j - 255 .. top j`. -/
def stackArea (g : Globals) (j : Fin maxTasks) : Set Addr :=
  {a | depth (g.top j) a < taskStackSize}

/-- The stacks are one below the other. -/
theorem top_eq (g : Globals) (j : Fin maxTasks) :
    g.top j = g.tasksStackTop - BitVec.ofNat 16 (taskStackSize * j) := by
  rw [Globals.top, ← BitVec.ofInt_natCast, Nat.cast_mul, mul_comm]

/-- The areas are consecutive blocks of 256 bytes below `tasksStackTop`. -/
theorem mem_stackArea_iff {g : Globals} {j : Fin maxTasks} {a : Addr} :
    a ∈ stackArea g j ↔ depth g.tasksStackTop a / taskStackSize = j := by
  have hj : (j : Nat) < 3 := j.isLt
  have hx := depth_lt g.tasksStackTop a
  have hswap : g.top j - a = (g.tasksStackTop - a) - BitVec.ofNat 16 (taskStackSize * j) := by
    rw [top_eq, sub_right_comm]
  simp only [stackArea, Set.mem_ofPred_eq, depth, hswap, taskStackSize] at hx ⊢
  rw [BitVec.toNat_sub, BitVec.toNat_ofNat]
  omega

/-- No address is in two stacks. -/
theorem stackArea_disjoint {g : Globals} {i j : Fin maxTasks} {a : Addr} (hi : a ∈ stackArea g i)
    (hj : a ∈ stackArea g j) : i = j := by
  rw [mem_stackArea_iff] at hi hj
  exact Fin.ext (hi.symm.trans hj)

theorem top_mem_stackArea (g : Globals) (j : Fin maxTasks) : g.top j ∈ stackArea g j := by
  simp [stackArea, taskStackSize]

/-- The lowest byte the `memset` clears is the topmost byte of the next slot. -/
theorem top_sub_size {g : Globals} {i j : Fin maxTasks} (h : (j : Nat) = i + 1) :
    g.top i - BitVec.ofNat 16 taskStackSize = g.top j := by
  rw [top_eq, top_eq, h, Nat.mul_add, BitVec.ofNat_add, sub_sub, Nat.mul_one]

/-- The byte below the area of slot `i` lies in the area of slot `j` only when `j` comes next. -/
theorem next_of_below_mem {g : Globals} {i j : Fin maxTasks}
    (h : g.top i - BitVec.ofNat 16 taskStackSize ∈ stackArea g j) : (j : Nat) = i + 1 := by
  have hlt : (i : Nat) < 3 := i.isLt
  rw [mem_stackArea_iff, top_eq, sub_sub, ← BitVec.ofNat_add] at h
  rw [← h]
  simp only [depth, taskStackSize, sub_sub_cancel, BitVec.toNat_ofNat]
  omega

/-- The context whose stack the byte at `a` belongs to: a slot, or `-1` for everything outside the
task stacks. -/
def stackOwner (g : Globals) (a : Addr) : Int :=
  if depth g.tasksStackTop a / taskStackSize < maxTasks then
    (depth g.tasksStackTop a / taskStackSize : Nat)
  else -1

/-- An address belongs to the stack that it is in. -/
theorem stackOwner_eq_iff {g : Globals} {j : Fin maxTasks} {a : Addr} :
    stackOwner g a = j ↔ a ∈ stackArea g j := by
  have hj := j.isLt
  rw [mem_stackArea_iff, stackOwner]
  split <;> omega

/-! ## The bytes of a frame

The stores of a call in the order in which the source makes them: the `memset` first, and then four bytes
on top. -/

/-- The assignments `schedule_task` makes to the stack of its slot, in program order. -/
def frameWrites (top : Addr) (address args : BitVec 16) : List (Addr × Byte) :=
  ((List.range taskStackSize).map fun i =>
      (top - BitVec.ofNat 16 taskStackSize + BitVec.ofNat 16 i, 0)) ++
    [(top, lowByte address), (top - 1, highByte address), (top - 3 - 24, lowByte args),
      (top - 3 - 25, highByte args)]

/-- What is written when a frame is built. -/
theorem buildFrame_ram (g : Globals) (taskNum : Int) (address args : BitVec 16) :
    (g.buildFrame taskNum address args).ram =
      writeAll g.ram (frameWrites (g.top taskNum) address args) := by
  rw [frameWrites, writeAll_append, writeAll_fill _ _ _ (by decide)]
  rfl

/-- Every assignment goes to the slot's own area, or to the byte just below it. -/
theorem frameWrites_depth {top : Addr} {address args : BitVec 16} {e : Addr × Byte}
    (he : e ∈ frameWrites top address args) :
    depth top e.1 < taskStackSize ∨ e.1 = top - BitVec.ofNat 16 taskStackSize := by
  rcases List.mem_append.mp he with he | he
  · obtain ⟨i, hi, rfl⟩ := List.mem_map.mp he
    have hi : i < 256 := List.mem_range.mp hi
    by_cases h0 : i = 0
    · subst h0
      exact Or.inr (by simp)
    · apply Or.inl
      simp only [depth, taskStackSize]
      bv_omega
  · left
    simp only [List.mem_cons, List.not_mem_nil, or_false] at he
    rcases he with rfl | rfl | rfl | rfl <;> simp only [depth, taskStackSize] <;> bv_omega

/-- An assignment for slot `n` that goes to the area of another slot goes to its topmost byte. -/
theorem eq_top_of_mem_frameWrites {g : Globals} {n j : Fin maxTasks} {address args : BitVec 16}
    {e : Addr × Byte} (he : e ∈ frameWrites (g.top n) address args) (hj : e.1 ∈ stackArea g j)
    (hne : j ≠ n) : e.1 = g.top j := by
  rcases frameWrites_depth he with hn | hbelow
  · exact absurd (stackArea_disjoint hj hn) hne
  · rw [hbelow] at hj ⊢
    exact top_sub_size (next_of_below_mem hj)

/-! ## What a call changes

Among the other stacks only the top byte of the next slot can be hit, and it is cleared. -/

variable {g : Globals} {n j : Fin maxTasks} {address args : BitVec 16}

theorem filled_ram (g : Globals) (n : Fin maxTasks) (address args : BitVec 16) :
    (filled g n address args).ram = writeAll g.ram (frameWrites (g.top n) address args) :=
  buildFrame_ram g n address args

/-- Outside its own stack, a call writes at one address: the one below it, which is the top of the next
one. -/
theorem filled_ram_of_notMem {a : Addr} (harea : a ∉ stackArea g n)
    (hbelow : a ≠ g.top n - BitVec.ofNat 16 taskStackSize) :
    (filled g n address args).ram a = g.ram a := by
  rw [filled_ram]
  apply writeAll_of_forall_ne
  intro e he
  rintro rfl
  rcases frameWrites_depth he with h | h
  · exact harea h
  · exact hbelow h

/-- The byte below the area is cleared, and none of the four stores that follow reaches it. -/
theorem filled_ram_below (g : Globals) (n : Fin maxTasks) (address args : BitVec 16) :
    (filled g n address args).ram (g.top n - BitVec.ofNat 16 taskStackSize) = 0 := by
  rw [filled_ram, frameWrites, writeAll_append, writeAll_fill _ _ _ (by decide),
    writeAll_of_forall_ne, if_pos (by simp [taskStackSize])]
  intro e he
  simp only [List.mem_cons, List.not_mem_nil, or_false] at he
  rcases he with rfl | rfl | rfl | rfl <;> simp only [taskStackSize] <;> bv_omega

/-- Filling slot `n` leaves the area of slot `j` alone exactly if `j` is not the next slot, or the
byte that is lost there was zero already. -/
theorem filled_area_iff (hne : j ≠ n) :
    (∀ a ∈ stackArea g j, (filled g n address args).ram a = g.ram a) ↔
      ((j : Nat) = n + 1 → g.ram (g.top j) = 0) := by
  constructor
  · intro h hj
    rw [← h _ (top_mem_stackArea g j), ← top_sub_size hj]
    exact filled_ram_below g n address args
  · intro h a ha
    have harea : a ∉ stackArea g n := fun hn => hne (stackArea_disjoint ha hn)
    by_cases hbelow : a = g.top n - BitVec.ofNat 16 taskStackSize
    · -- the byte below area `n` lies in area `j`, so `j` is the next slot
      have hj : (j : Nat) = n + 1 := next_of_below_mem (hbelow ▸ ha)
      rw [hbelow, filled_ram_below, top_sub_size hj, h hj]
    · exact filled_ram_of_notMem harea hbelow

/-! ## Stack isolation

A call that succeeds leaves the stacks of the running slots alone just when that byte is in none of them,
or was zero before. -/

/-- A successful `schedule_task` in `g` leaves the stack area of every running slot unchanged. (The
slot it fills was not running, so the running slots are the other ones.) -/
def Isolated (g : Globals) (address args : BitVec 16) : Prop :=
  ∀ g', g.scheduleTask address args = some (0, g') →
    ∀ j, (g.tasks j).running = true → ∀ a ∈ stackArea g j, g'.ram a = g.ram a

/-- When all slots have been used and the first finished one is followed by a running one, the
topmost stack byte of that next slot is zero. -/
def NextTopClear (g : Globals) : Prop :=
  ∀ n j : Fin maxTasks, g.taskCount = maxTasks → FirstFinished g.tasks n → (j : Nat) = n + 1 →
    (g.tasks j).running = true → g.ram (g.top j) = 0

instance (g : Globals) : Decidable (NextTopClear g) :=
  inferInstanceAs (Decidable (∀ _ _ : Fin maxTasks, _ → _ → _ → _ → _))

/-- A call changes no stack of a running slot just when the byte that it clears too far down is not one of
such a stack, or was zero. -/
theorem isolated_iff (h : TableOk g) : Isolated g address args ↔ NextTopClear g := by
  rcases scheduleTask_spec h address args with ⟨hr, hall⟩ | ⟨n, ht, hr⟩
  -- with all slots taken nothing is created
  · refine iff_of_true (fun g' hg' => ?_) fun n j _ hn => ?_
    · rw [hr] at hg'
      simp at hg'
    · exact absurd hn.1 (by simp [hall n])
  -- the slot that is filled is the one chosen, and its area reaches one byte into the next
  · have hnot := ht.not_running h
    have hfirst : ∀ m, FirstFinished g.tasks m → g.taskCount = maxTasks → m = n := by
      intro m hm hfull
      exact Takes.unique (Or.inr ⟨hfull, hm⟩) ht
    constructor
    · intro hiso m j hfull hm hj hrun
      obtain rfl := hfirst m hm hfull
      have hne : j ≠ m := fun he => by omega
      exact (filled_area_iff hne).mp (hiso _ hr j hrun) hj
    · intro hclear g' hg' j hrun
      rw [hr, Option.some.injEq, Prod.mk.injEq] at hg'
      obtain ⟨-, rfl⟩ := hg'
      have hne : j ≠ n := by
        rintro rfl
        rw [hnot] at hrun
        exact Bool.false_ne_true hrun
      apply (filled_area_iff hne).mpr
      intro hj
      rcases ht with ⟨-, hcount⟩ | ⟨hfull, hn⟩
      · -- a fresh slot is followed by slots that have never been used
        have := h.lt_count_of_running hrun
        omega
      · exact hclear n j hfull hn hj hrun

/-- A `schedule_task` event in state `g` has the property `P g`, whatever its arguments. -/
def AtCall (P : Globals → BitVec 16 → BitVec 16 → Prop) (g : Globals) (e : Event) : Prop :=
  ∀ address args, e = .scheduleTask address args → P g address args

/-- **Stack isolation of task creation, where it holds.** In the state any run ends in, for every
`address` and `args`, a successful `schedule_task` leaves the stack areas of the running slots
unchanged if and only if the byte its `memset` clears too far down was zero or belongs to no running
slot. So in a run whose calls all meet that condition every call is isolated. -/
theorem stack_isolated_iff {s g : Globals} {es : List Event} (hs : Initial s)
    (hrun : run step s es = some g) (address args : BitVec 16) :
    (Isolated g address args ↔ NextTopClear g) ∧
      (Along step (AtCall fun g _ _ => NextTopClear g) s es → Along step (AtCall Isolated) s es) := by
  refine ⟨isolated_iff (reachable_tableOk ⟨s, es, hs, hrun⟩), fun hal => ?_⟩
  refine hal.mono (I := TableOk) (fun _ _ _ => step_tableOk) (fun g e hok hclear => ?_) hs.tableOk
  exact fun address args he => (isolated_iff hok).mpr (hclear address args he)

/-- A finished slot `0` is filled again while the topmost byte of slot `1` happens to be zero. -/
theorem stack_isolated_iff_clear :
    ∃ g, run step (Globals.construct 0x08F0 fun _ => 0)
        [.scheduleTask 0x1200 0, .scheduleTask 0x1300 0, .scheduleTask 0x1400 0,
          .tick ⟨0x08E0, fun _ => 0⟩, .exitTask ⟨0x07A0, fun _ => 0⟩] = some g ∧
      Isolated g 0x1500 7 := by
  obtain ⟨g, hg, hclear⟩ := (Option.any_eq_true _ _).mp
    (show (run step (Globals.construct 0x08F0 fun _ => 0)
      [.scheduleTask 0x1200 0, .scheduleTask 0x1300 0, .scheduleTask 0x1400 0,
        .tick ⟨0x08E0, fun _ => 0⟩, .exitTask ⟨0x07A0, fun _ => 0⟩]).any
          (fun g => decide (NextTopClear g)) = true by decide)
  have hiff := (stack_isolated_iff (initial_construct _ _) hg 0x1500 7).1
  exact ⟨g, hg, hiff.mpr (of_decide_eq_true hclear)⟩

/-- Three tasks are created, the first one exits, and the second one, which now runs, creates a
fourth. The new task gets slot `0`, and the `memset` clears the topmost byte of slot `1`, where the
second task keeps the low byte of an address. -/
theorem stack_isolated_fails :
    ¬ ∀ g, Reachable Initial step g → ∀ address args, Isolated g address args := by
  intro hall
  let trace : Option Globals := do
    let g ← run step (Globals.construct 0x08F0 fun _ => 0)
      [.scheduleTask 0x1200 0, .scheduleTask 0x1234 0, .scheduleTask 0x1300 0]
    let g ← step g (.tick ⟨0x08E0, g.ram⟩)
    step g (.exitTask ⟨0x07A0, g.ram⟩)
  have hbad : trace.any (fun g : Globals => decide (g.taskCount = maxTasks ∧ FirstFinished g.tasks 0 ∧
      (g.tasks 1).running = true ∧ g.ram (g.top 1) ≠ 0)) = true := by decide
  obtain ⟨g, hg, hdec⟩ := (Option.any_eq_true _ _).mp hbad
  obtain ⟨hfull, hfirst, hrun, hbyte⟩ := of_decide_eq_true hdec
  obtain ⟨g₁, h₁, hg⟩ := Option.bind_eq_some_iff.mp hg
  obtain ⟨g₂, h₂, hg⟩ := Option.bind_eq_some_iff.mp hg
  have hreach : Reachable Initial step g :=
    Reachable.next (Reachable.next ⟨_, _, initial_construct _ _, h₁⟩ h₂) hg
  have hclear := (isolated_iff (reachable_tableOk hreach)).mp (hall g hreach 0x1400 0)
  exact hbyte (hclear 0 1 hfull hfirst rfl hrun)

end SmartblocksOs.System
