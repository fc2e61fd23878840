/-
# SmartblocksOs.System.ConcurrentCreation -- tasks that create tasks at the same time

Only the last three assignments of `schedule_task` stand between `cli` and `sei`. Two calls can read
the same `task_count`, find the same finished slot, or find a slot that is still being filled.
`Undisturbed` says at which steps that is about to happen, and when the `memset` of one call is about
to spoil the frame of another. As long as it does not, no two tasks get into the same slot
(`calls_well_created`); `calls_not_well_created` is a run where they do.

The run that goes wrong and the condition under which runs go well are two sides of one analysis.
`Calls.Clear` lists the steps by which one call can harm another, in terms of the state before the step:
reading `task_count` when the table is full or another call has read it and not yet incremented it;
testing a slot that another call is filling; and clearing a byte that belongs to the frame of another
call. Everything else a call does is in its own slot.

The invariant is in `SmartblocksOs.System.Calls`: `CallOk` for each call by itself, `Apart` for each two
of them. A step of call `k` is therefore three obligations (`Inv.moveTo`): `k` itself is in order where it
has got to, the other calls still are, and `k` is apart from each of them. Calls not involved in the step
are untouched, and the lemmas below are what is left over.
-/
import SmartblocksOs.System.Calls

namespace SmartblocksOs.System

open Foundation

/-! ## The property, and the steps that break it -/

/-- Every task has a slot to itself, and finds there what its own call has put in: two calls that
returned `0` have filled different slots, unless the task of one had exited when the other chose. -/
structure Calls.WellCreated (w : Calls) : Prop where
  count_le : w.g.taskCount ≤ maxTasks
  distinct : ∀ k l, k ≠ l → (w.call k).pc = .returned 0 → (w.call l).pc = .returned 0 →
    (w.call k).slot = (w.call l).slot →
      (w.call k).exitedBefore l = true ∨ (w.call l).exitedBefore k = true
  frame : ∀ k, (w.call k).pc = .returned 0 → (w.call k).started = false →
    (w.call k).exited = false →
      FrameAt w.g.ram (w.g.top (w.call k).slot) (w.call k).address 0 (initialRegs (w.call k).args) ∧
        ∃ j : Fin maxTasks, (j : Int) = (w.call k).slot ∧ (w.g.tasks j).sp = w.g.top j - 35

/-- The assignment of `x` at `a` leaves the frame of the call alone: `a` is not its topmost byte, or
holds `x` already, or is still to be written. -/
def Calls.Spares (w : Calls) (a : Addr) (x : Byte) (c : Call) : Prop :=
  c.hasFrame = true → a = w.g.top c.slot → w.g.ram a = x ∨ a ∈ c.pc.pending.map Prod.fst

instance (w : Calls) (a : Addr) (x : Byte) (c : Call) : Decidable (w.Spares a x c) :=
  inferInstanceAs (Decidable (_ → _ → _ ∨ _))

/-- The next step of call `k`, at `pc`, gets into the way of no other call: `task_count` is read when
there is a fresh slot, which no other call is about to take; the search does not come upon a slot that
is being filled; and the byte that the `memset` clears too far down is in no frame. -/
def Calls.Clear (w : Calls) (k : Nat) : CallPc → Prop
  | .read => w.g.taskCount < maxTasks ∧ ∀ l < w.count, (w.call l).pc.counts = false
  | .search i => ∀ l < w.count, (w.call l).pc.fills i = false
  | .building _ ((a, x) :: _) => ∀ l < w.count, l ≠ k → w.Spares a x (w.call l)
  | _ => True

instance Calls.Clear.decidable (w : Calls) (k : Nat) : ∀ pc, Decidable (w.Clear k pc)
  | .read => inferInstanceAs (Decidable (_ ∧ ∀ l < w.count, _))
  | .search i => inferInstanceAs (Decidable (∀ l < w.count, (w.call l).pc.fills i = false))
  | .building _ ((a, x) :: _) =>
      inferInstanceAs (Decidable (∀ l < w.count, l ≠ k → w.Spares a x (w.call l)))
  | .building _ [] | .test | .increment _ | .returned _ => isTrue trivial

/-- The step is none of those by which one call can disturb another. -/
def Undisturbed (w : Calls) : CallEvent → Prop
  | .advance => ∀ k ∈ w.active w.g.currentTask, w.Clear k (w.call k).pc
  | _ => True

instance (w : Calls) : ∀ e, Decidable (Undisturbed w e)
  | .advance =>
      inferInstanceAs (Decidable (∀ k ∈ w.active w.g.currentTask, w.Clear k (w.call k).pc))
  | .call _ _ | .work _ | .stopCurrent | .storeSleepByte _ _ | .yield _ _ | .tick _ _ => isTrue trivial

namespace Calls

/-- What the invariant is for. -/
theorem Inv.wellCreated {w : Calls} (h : Inv w) : w.WellCreated where
  count_le := h.table.count_le
  distinct k l hne := (h.apart k l hne).distinct
  frame := by
    intro k hk hstarted hexited
    obtain ⟨j, hj, -, hlive⟩ := (h.call k).returned hk
    have hframe := (h.call k).frame (by simp [Call.hasFrame, hk, hstarted, hexited])
    rw [hk] at hframe
    exact ⟨hframe, j, hj, ((hlive hexited).2.2 hstarted).2⟩

/-! ## Calls at a point of interest

`CallOk` and `Apart` are stated for all points of a call at once. At a given point most of their clauses
are void, and these lemmas say which ones are not: before `task_count++`, while the frame is being built,
and after the return. -/

section

variable {w : Calls} {k l : Nat}

/-- A call that is about to increment `task_count`. -/
theorem CallOk.of_increment {n : Int} (hpc : (w.call k).pc = .increment n) (hn : n = w.g.taskCount)
    (hlt : w.g.taskCount < maxTasks) (hslot : (w.call k).slot = n) : CallOk w k := by
  refine ⟨fun m hm => ?_, fun m rest hm => ?_, fun hm => ?_, fun hf => ?_⟩
  · rw [hpc] at hm
    obtain rfl := CallPc.increment.inj hm
    exact ⟨hn, hlt, hslot⟩
  · rw [hpc] at hm
    exact absurd hm (by simp)
  · rw [hpc] at hm
    exact absurd hm (by simp)
  · exact absurd hf (by simp [Call.hasFrame, hpc])

/-- A call that is building a frame: those of its stores that are still to come complete it. -/
theorem CallOk.of_building {j : Fin maxTasks} {rest : List (Addr × Byte)}
    (hpc : (w.call k).pc = .building j rest) (hslot : (w.call k).slot = j)
    (hlt : (j : Int) < w.g.taskCount) (hrun : (w.g.tasks j).running = false)
    (hcur : (j : Int) ≠ w.g.currentTask)
    (hsub : rest ⊆ frameWrites (w.g.top j) (w.call k).address (w.call k).args)
    (hframe : FrameAt (writeAll w.g.ram rest) (w.g.top j) (w.call k).address 0
      (initialRegs (w.call k).args)) : CallOk w k := by
  refine ⟨fun m hm => ?_, fun m rest' hm => ?_, fun hm => ?_, fun _ => ?_⟩
  · rw [hpc] at hm
    exact absurd hm (by simp)
  · rw [hpc] at hm
    obtain ⟨rfl, rfl⟩ := CallPc.building.inj hm
    exact ⟨j, rfl, hslot, hlt, hrun, hcur, hsub⟩
  · rw [hpc] at hm
    exact absurd hm (by simp)
  · rw [hpc, hslot]
    exact hframe

/-- A call that has returned, and whose task has not started yet. -/
theorem CallOk.of_returned {j : Fin maxTasks} (hpc : (w.call k).pc = .returned 0)
    (hslot : (w.call k).slot = j) (hlt : (j : Int) < w.g.taskCount) (htask : w.task j = some k)
    (hrun : (w.g.tasks j).running = true) (hcur : (j : Int) ≠ w.g.currentTask)
    (hsp : (w.g.tasks j).sp = w.g.top j - 35)
    (hframe : FrameAt w.g.ram (w.g.top j) (w.call k).address 0 (initialRegs (w.call k).args)) :
    CallOk w k := by
  refine ⟨fun m hm => ?_, fun m rest hm => ?_, fun _ => ?_, fun _ => ?_⟩
  · rw [hpc] at hm
    exact absurd hm (by simp)
  · rw [hpc] at hm
    exact absurd hm (by simp)
  · exact ⟨j, hslot.symm, hlt, fun _ => ⟨htask, hrun, fun _ => ⟨hcur, hsp⟩⟩⟩
  · rw [hpc, hslot]
    exact hframe

/-- A call that has just read `task_count` is apart from all others when none of them counts as well. -/
theorem apart_of_increment {n : Int} (hpc : (w.call k).pc = .increment n)
    (hl : (w.call l).pc.counts = false)
    (hchosen : (w.call l).pc = .returned 0 → (w.call l).slot = (w.call k).slot →
      (w.call k).exitedBefore l = true) : Apart w k l ∧ Apart w l k := by
  refine ⟨⟨fun _ => hl, fun m rest hm => ?_, fun _ => hchosen, fun hm => ?_⟩,
    ⟨fun hm => ?_, fun m rest _ => ?_, fun _ hm => ?_, fun _ hm => ?_⟩⟩
  · rw [hpc] at hm
    exact absurd hm (by simp)
  · rw [hpc] at hm
    exact absurd hm (by simp)
  · rw [hl] at hm
    exact absurd hm Bool.false_ne_true
  · rw [hpc]
    rfl
  · rw [hpc] at hm
    exact absurd hm (by simp)
  · rw [hpc] at hm
    exact absurd hm (by simp)

/-- A call that has just found a slot is apart from all others when none of them fills it. -/
theorem apart_of_building {n : Int} {rest : List (Addr × Byte)}
    (hpc : (w.call k).pc = .building n rest) (hl : (w.call l).pc.fills n = false)
    (hchosen : (w.call l).pc = .returned 0 → (w.call l).slot = (w.call k).slot →
      (w.call k).exitedBefore l = true) : Apart w k l ∧ Apart w l k := by
  refine ⟨⟨fun hm => ?_, fun m rest' hm => ?_, fun _ => hchosen, fun hm => ?_⟩,
    ⟨fun _ => ?_, fun m rest' hm => ?_, fun _ hm => ?_, fun _ hm => ?_⟩⟩
  · rw [hpc] at hm
    exact absurd hm Bool.false_ne_true
  · rw [hpc] at hm
    obtain ⟨rfl, -⟩ := CallPc.building.inj hm
    exact hl
  · rw [hpc] at hm
    exact absurd hm (by simp)
  · rw [hpc]
    rfl
  · rw [hm] at hl
    rw [hpc]
    exact beq_eq_false_iff_ne.mpr fun heq => beq_eq_false_iff_ne.mp hl heq.symm
  · rw [hpc] at hm
    exact absurd hm (by simp)
  · rw [hpc] at hm
    exact absurd hm (by simp)

/-- A call that has returned is apart from another one when that one is filling another slot. -/
theorem apart_of_returned (hpc : (w.call k).pc = .returned 0)
    (hchosen : (w.call l).pc.counts = true ∨ (w.call l).pc.fills (w.call l).slot = true →
      (w.call k).slot ≠ (w.call l).slot)
    (hdistinct : (w.call l).pc = .returned 0 → (w.call l).slot = (w.call k).slot →
      (w.call k).exitedBefore l = true) : Apart w k l ∧ Apart w l k := by
  refine ⟨⟨fun hm => ?_, fun m rest hm => ?_, fun hm => ?_, fun _ hl hs => ?_⟩,
    ⟨fun _ => ?_, fun m rest _ => ?_, fun hm _ hs => ?_, fun hl _ hs => ?_⟩⟩
  · rw [hpc] at hm
    exact absurd hm Bool.false_ne_true
  · rw [hpc] at hm
    exact absurd hm (by simp)
  · rw [hpc] at hm
    exact absurd hm (by simp [CallPc.counts, CallPc.fills])
  · exact Or.inl (hdistinct hl hs.symm)
  · rw [hpc]
    rfl
  · rw [hpc]
    rfl
  · exact absurd hs (hchosen hm)
  · exact Or.inr (hdistinct hl hs)

/-- Only slots below `task_count` are being filled. -/
theorem Inv.fills_eq_false (h : Inv w) {n : Int} (hn : w.g.taskCount ≤ n) (l : Nat) :
    (w.call l).pc.fills n = false := by
  cases hl : (w.call l).pc with
  | building m rest =>
      obtain ⟨j, hj, -, hlt, -⟩ := (h.call l).building m rest hl
      exact beq_eq_false_iff_ne.mpr (by omega)
  | test | search _ | read | increment _ | returned _ => rfl

end

/-! ## Steps of a call

One lemma for each assignment of `schedule_task` at which the call moves from one phase to the next, in
the order of the source. The names are those of the points they start from. -/

/-- A call only looks at the table, the RAM and its own books. -/
theorem CallOk.congr {w w' : Calls} {k : Nat} (h : CallOk w k) (hcall : w'.call k = w.call k)
    (hg : w'.g = w.g) (htask : w'.task = w.task) : CallOk w' k := by
  refine ⟨?_, ?_, ?_, ?_⟩
  · rw [hcall, hg]
    exact h.counting
  · rw [hcall, hg]
    exact h.building
  · rw [hcall, hg, htask]
    exact h.returned
  · rw [hcall, hg]
    exact h.frame

/-- What keeps two calls apart is in the calls alone. -/
theorem Apart.congr {w w' : Calls} {k l : Nat} (h : Apart w k l) (hk : w'.call k = w.call k)
    (hl : w'.call l = w.call l) : Apart w' k l := by
  refine ⟨?_, ?_, ?_, ?_⟩
  · rw [hk, hl]
    exact h.counting
  · rw [hk, hl]
    exact h.building
  · rw [hk, hl]
    exact h.chosen
  · rw [hk, hl]
    exact h.distinct

/-- A new call disturbs nobody. -/
theorem enter_inv {w : Calls} (h : Inv w) (hlive : Live w.g) (address args : BitVec 16) :
    Inv (w.enter address args) := by
  have hself : ((w.enter address args).call w.count).pc = .test := by
    show (Function.update w.call w.count _ w.count).pc = .test
    rw [Function.update_self]
  have hother : ∀ k, k ≠ w.count → (w.enter address args).call k = w.call k :=
    fun k hk => Function.update_of_ne hk _ _
  -- a call that has just begun has no slot yet
  have hneutral : ((w.enter address args).call w.count).pc.Neutral := by
    rw [hself]
    exact ⟨by simp, by simp, by simp⟩
  refine ⟨h.table, fun k hk => ?_, fun c k hk => ?_, fun c k hk j hj => ?_, fun k => ?_,
    fun k l hne => ?_⟩
  · have hk : w.count + 1 ≤ k := hk
    rw [hother k (by omega)]
    exact h.fresh k (by omega)
  · show k < w.count + 1
    by_cases hc : c = w.g.currentTask
    · subst hc
      replace hk : Function.update w.active w.g.currentTask (some w.count) w.g.currentTask = some k := hk
      rw [Function.update_self, Option.some.injEq] at hk
      omega
    · replace hk : Function.update w.active w.g.currentTask (some w.count) c = some k := hk
      rw [Function.update_of_ne hc] at hk
      exact Nat.lt_succ_of_lt (h.active_lt c k hk)
  · by_cases hc : c = w.g.currentTask
    · exact hlive j (hj.trans hc)
    · replace hk : Function.update w.active w.g.currentTask (some w.count) c = some k := hk
      rw [Function.update_of_ne hc] at hk
      exact h.caller c k hk j hj
  · by_cases hk : k = w.count
    · subst hk
      exact .neutral hneutral
    · exact (h.call k).congr (hother k hk) rfl rfl
  · by_cases hk : k = w.count
    · subst hk
      exact .neutral_left hneutral
    by_cases hl : l = w.count
    · subst hl
      exact .neutral_right hneutral
    exact (h.apart k l hne).congr (hother k hk) (hother l hl)

section

variable {w : Calls} {k : Nat} {g : Globals} {pc : CallPc}

theorem moveTo_call_self : (w.moveTo k g pc).call k =
    (w.call k).goto pc fun l => (w.call l).exited :=
  Function.update_self ..

theorem moveTo_call_of_ne {l : Nat} (hl : l ≠ k) : (w.moveTo k g pc).call l = w.call l :=
  Function.update_of_ne hl _ _

theorem moveTo_task (hpc : pc.result? ≠ some 0) : (w.moveTo k g pc).task = w.task :=
  if_neg hpc

/-- What is left to show of a step of call `k`. -/
theorem Inv.moveTo (h : Inv w) (hk : w.active w.g.currentTask = some k) (htable : TableOk g)
    (hrun : ∀ j, (w.g.tasks j).running = true → (g.tasks j).running = true)
    (hself : CallOk (w.moveTo k g pc) k) (hother : ∀ l ≠ k, CallOk (w.moveTo k g pc) l)
    (hapart : ∀ l ≠ k, Apart (w.moveTo k g pc) k l ∧ Apart (w.moveTo k g pc) l k) :
    Inv (w.moveTo k g pc) := by
  -- a step begins no call: it can only end the one that moves
  have hactive : ∀ c l, (w.moveTo k g pc).active c = some l → w.active c = some l := by
    intro c l hl
    replace hl : (if pc.result?.isSome then Function.update w.active w.g.currentTask none
      else w.active) c = some l := hl
    split at hl
    · by_cases hc : c = w.g.currentTask
      · rw [hc, Function.update_self] at hl
        exact absurd hl.symm (Option.some_ne_none l)
      · rwa [Function.update_of_ne hc] at hl
    · exact hl
  refine ⟨htable, fun l hl => ?_, fun c l hl => h.active_lt c l (hactive c l hl),
    fun c l hl j hj => hrun j (h.caller c l (hactive c l hl) j hj), fun l => ?_, fun l m hne => ?_⟩
  · replace hl : w.count ≤ l := hl
    have hlt := h.active_lt _ k hk
    rw [moveTo_call_of_ne (by omega)]
    exact h.fresh l hl
  · by_cases hl : l = k
    · rw [hl]
      exact hself
    · exact hother l hl
  · by_cases hl : l = k
    · subst hl
      exact (hapart m (Ne.symm hne)).1
    by_cases hm : m = k
    · subst hm
      exact (hapart l hl).2
    exact (h.apart l m hne).congr (moveTo_call_of_ne hl) (moveTo_call_of_ne hm)

/-- A step to a point where the call is in nobody's way. -/
theorem Inv.moveToNeutral (h : Inv w) (hk : w.active w.g.currentTask = some k) (hpc : pc.Neutral)
    (hself : ((w.call k).goto pc fun l => (w.call l).exited).pc = pc) :
    Inv (w.moveTo k w.g pc) := by
  have hneutral : ((w.moveTo k w.g pc).call k).pc.Neutral := by
    rw [moveTo_call_self, hself]
    exact hpc
  refine h.moveTo hk h.table (fun _ => id) (.neutral hneutral) (fun l hl => ?_) fun l _ =>
    ⟨.neutral_left hneutral, .neutral_right hneutral⟩
  refine (h.call l).congr (moveTo_call_of_ne hl) rfl (moveTo_task fun hres => ?_)
  cases pc with
  | returned r =>
      obtain rfl : r = 0 := Option.some.inj hres
      exact hpc.2.2 rfl
  | _ => exact absurd hres (by simp [CallPc.result?])

/-- What no call so far does, no call does. -/
theorem Inv.forall_call (h : Inv w) {P : CallPc → Bool} (hP : P (.returned (-1)) = false)
    (hlt : ∀ l < w.count, P (w.call l).pc = false) (l : Nat) : P (w.call l).pc = false := by
  by_cases hl : l < w.count
  · exact hlt l hl
  · rw [h.fresh l (by omega)]
    exact hP

theorem read_inv (h : Inv w) (hk : w.active w.g.currentTask = some k) (hpc : (w.call k).pc = .read)
    (hclear : w.Clear k .read) : Inv (w.moveTo k w.g (.increment w.g.taskCount)) := by
  obtain ⟨hlt, hfree⟩ := hclear
  have hself : (w.moveTo k w.g (.increment w.g.taskCount)).call k =
      { w.call k with
        pc := .increment w.g.taskCount
        slot := w.g.taskCount
        exitedBefore := fun l => (w.call l).exited } := by
    rw [moveTo_call_self, Call.goto, hpc]
    rfl
  refine h.moveTo hk h.table (fun _ => id) ?_ (fun l hl => ?_) fun l hl => ?_
  · exact .of_increment (congrArg Call.pc hself) rfl hlt (congrArg Call.slot hself)
  · exact (h.call l).congr (moveTo_call_of_ne hl) rfl (moveTo_task (by simp [CallPc.result?]))
  · refine apart_of_increment (congrArg Call.pc hself) ?_ ?_
    · rw [moveTo_call_of_ne hl]
      exact h.forall_call (P := CallPc.counts) rfl hfree l
    · -- a fresh slot has never been filled
      rw [moveTo_call_of_ne hl, hself]
      intro hret hslot
      obtain ⟨j, hj, hjlt, -⟩ := (h.call l).returned hret
      replace hslot : (w.call l).slot = w.g.taskCount := hslot
      omega

/-- The search comes to a slot that is not running. -/
theorem found_inv (h : Inv w) (hk : w.active w.g.currentTask = some k) {j : Fin maxTasks}
    (hpc : (w.call k).pc = .search j) (hlt : (j : Int) < w.g.taskCount)
    (hrun : (w.g.tasks j).running = false) (hclear : w.Clear k (.search j)) :
    Inv (w.moveTo k w.g (.build w.g (w.call k).address (w.call k).args j)) := by
  have hself : (w.moveTo k w.g (.build w.g (w.call k).address (w.call k).args j)).call k =
      { w.call k with
        pc := .build w.g (w.call k).address (w.call k).args j
        slot := j
        exitedBefore := fun l => (w.call l).exited } := by
    rw [moveTo_call_self, Call.goto, hpc]
    rfl
  -- the caller is running, so this is not its own slot
  have hcur : (j : Int) ≠ w.g.currentTask := by
    intro hj
    rw [h.caller _ k hk j hj] at hrun
    exact Bool.false_ne_true hrun.symm
  refine h.moveTo hk h.table (fun _ => id) ?_ (fun l hl => ?_) fun l hl => ?_
  · refine .of_building (congrArg Call.pc hself) (congrArg Call.slot hself) hlt hrun hcur ?_ ?_
    · rw [hself]
      exact List.Subset.refl _
    · rw [hself]
      exact frameAt_frameWrites _ _ _ _
  · exact (h.call l).congr (moveTo_call_of_ne hl) rfl
      (moveTo_task (by simp [CallPc.build, CallPc.result?]))
  · refine apart_of_building (congrArg Call.pc hself) ?_ ?_
    · rw [moveTo_call_of_ne hl]
      exact h.forall_call (P := CallPc.fills j) rfl hclear l
    · -- the slot is not running, so the tasks that were in it have exited
      rw [moveTo_call_of_ne hl, hself]
      intro hret hslot
      show (w.call l).exited = true
      by_contra hexited
      obtain ⟨i, hi, -, hlive⟩ := (h.call l).returned hret
      obtain rfl : i = j := Fin.ext (by have hs : (w.call l).slot = j := hslot; omega)
      rw [(hlive (by simpa using hexited)).2.1] at hrun
      exact Bool.false_ne_true hrun.symm

/-- A step that chooses no slot changes nothing but where the call stands. -/
theorem moveTo_call_goto (w : Calls) (k : Nat) (g : Globals) (pc : CallPc)
    (hpc : (w.call k).pc.chosen? pc = none) :
    (w.moveTo k g pc).call k = { w.call k with pc := pc } := by
  rw [moveTo_call_self, Call.goto, hpc]

theorem increment_inv (h : Inv w) (hk : w.active w.g.currentTask = some k) {taskNum : Int}
    (hpc : (w.call k).pc = .increment taskNum) :
    Inv (w.moveTo k { w.g with taskCount := w.g.taskCount + 1 }
      (.build w.g (w.call k).address (w.call k).args taskNum)) := by
  -- `task_count` is still what the call has read
  obtain ⟨hcount, hlt, hslot⟩ := (h.call k).counting taskNum hpc
  obtain ⟨j, rfl⟩ : ∃ j : Fin maxTasks, (j : Int) = taskNum :=
    exists_slot (by rw [hcount]; exact h.table.count_nonneg) (by rw [hcount]; exact hlt)
  have hself := moveTo_call_goto w k { w.g with taskCount := w.g.taskCount + 1 }
    (.build w.g (w.call k).address (w.call k).args j) (by rw [hpc]; rfl)
  refine h.moveTo hk (counted_tableOk h.table hlt) (fun _ => id) ?_ (fun l hl => ?_) fun l hl => ?_
  · have hcur := h.table.current_lt
    refine .of_building (congrArg Call.pc hself) ((congrArg Call.slot hself).trans hslot) ?_
      (h.table.unused j (by omega)) ?_ ?_ ?_
    · show (j : Int) < w.g.taskCount + 1
      omega
    · show (j : Int) ≠ w.g.currentTask
      omega
    · rw [hself]
      exact List.Subset.refl _
    · rw [hself]
      exact frameAt_frameWrites _ _ _ _
  · have hcall := h.call l
    refine ⟨fun n hn => ?_, fun n rest hn => ?_, fun hn => ?_, fun hf => ?_⟩
    · -- no other call is about to take a slot
      rw [moveTo_call_of_ne hl] at hn
      have hfalse := (h.apart k l (Ne.symm hl)).counting (by rw [hpc]; rfl)
      rw [hn] at hfalse
      exact absurd hfalse.symm Bool.false_ne_true
    -- the other calls keep their slots, which are below the new count too
    · rw [moveTo_call_of_ne hl] at hn ⊢
      obtain ⟨i, hi, hs, hilt, hrest⟩ := hcall.building n rest hn
      exact ⟨i, hi, hs, Int.lt_add_one_of_le (Int.le_of_lt hilt), hrest⟩
    · rw [moveTo_call_of_ne hl] at hn ⊢
      obtain ⟨i, hi, hilt, hlive⟩ := hcall.returned hn
      exact ⟨i, hi, Int.lt_add_one_of_le (Int.le_of_lt hilt), hlive⟩
    · rw [moveTo_call_of_ne hl] at hf ⊢
      exact hcall.frame hf
  · refine apart_of_building (congrArg Call.pc hself) ?_ ?_
    · rw [moveTo_call_of_ne hl]
      exact h.fills_eq_false (by omega) l
    · rw [moveTo_call_of_ne hl, hself]
      exact (h.apart k l (Ne.symm hl)).chosen (Or.inl (by rw [hpc]; rfl))

/-- A store that spares the frame of a call. -/
theorem frame_store {n j : Fin maxTasks} {a : Addr} {x : Byte} {c : Call}
    {address args : BitVec 16} (hslot : (j : Int) = c.slot)
    (hframe : FrameAt (writeAll w.g.ram c.pc.pending) (w.g.top j) c.address 0 (initialRegs c.args))
    (hf : c.hasFrame = true) (hne : j ≠ n) (ha : (a, x) ∈ frameWrites (w.g.top n) address args)
    (hspares : w.Spares a x c) :
    FrameAt (writeAll (Function.update w.g.ram a x) c.pc.pending) (w.g.top j) c.address 0
      (initialRegs c.args) := by
  apply hframe.congr_area
  intro b hb
  by_cases hab : b = a
  · subst hab
    have htop : b = w.g.top c.slot := by
      rw [← hslot]
      exact eq_top_of_mem_frameWrites ha hb hne
    rcases hspares hf htop with hold | hpending
    · rw [← hold, Function.update_eq_self]
    · exact writeAll_update_of_mem w.g.ram x hpending
  · exact writeAll_congr (Function.update_of_ne hab x w.g.ram) _

/-- An assignment to the frame. -/
theorem store_inv (h : Inv w) (hk : w.active w.g.currentTask = some k) {taskNum : Int} {a : Addr}
    {x : Byte} {rest : List (Addr × Byte)} (hpc : (w.call k).pc = .building taskNum ((a, x) :: rest))
    (hclear : w.Clear k (.building taskNum ((a, x) :: rest))) :
    Inv (w.moveTo k { w.g with ram := Function.update w.g.ram a x } (.building taskNum rest)) := by
  obtain ⟨n, rfl, hslot, hlt, hrun, hcur, hsub⟩ := (h.call k).building taskNum _ hpc
  have hself := moveTo_call_goto w k { w.g with ram := Function.update w.g.ram a x }
    (.building n rest) (by rw [hpc]; rfl)
  have hfills : ∀ l ≠ k, (w.call l).pc.fills n = false := fun l hl =>
    (h.apart k l (Ne.symm hl)).building n _ hpc
  refine h.moveTo hk (h.table.congr rfl rfl fun _ => id) (fun _ => id) ?_ (fun l hl => ?_)
    fun l hl => ?_
  · refine .of_building (congrArg Call.pc hself) ((congrArg Call.slot hself).trans hslot) hlt hrun hcur ?_ ?_
    · rw [hself]
      exact List.Subset.trans (List.subset_cons_self _ _) hsub
    · have hframe := (h.call k).frame (by simp [Call.hasFrame, hpc])
      rw [hpc, hslot] at hframe
      rw [hself]
      exact hframe
  · have hcall := h.call l
    refine ⟨?_, ?_, ?_, fun hf => ?_⟩
    · rw [moveTo_call_of_ne hl]
      exact hcall.counting
    · rw [moveTo_call_of_ne hl]
      exact hcall.building
    · rw [moveTo_call_of_ne hl, moveTo_task (by simp [CallPc.result?])]
      exact hcall.returned
    · rw [moveTo_call_of_ne hl] at hf ⊢
      have hframe := hcall.frame hf
      -- a frame of another call, which has to survive the byte that is stored
      obtain ⟨j, hj, -, hwhere⟩ := h.frame_slot hf
      have hne : j ≠ n := by
        rintro rfl
        rcases hwhere with ⟨-, rest', hl'⟩ | htrue
        · have hfree := hfills l hl
          rw [hl'] at hfree
          exact beq_eq_false_iff_ne.mp hfree rfl
        · rw [hrun] at htrue
          exact Bool.false_ne_true htrue
      have hspares : w.Spares a x (w.call l) := by
        by_cases hlcount : l < w.count
        · exact hclear l hlcount hl
        · intro hf'
          exact absurd hf' (by simp [Call.hasFrame, h.fresh l (by omega)])
      rw [← hj] at hframe ⊢
      exact frame_store hj hframe hf hne (hsub List.mem_cons_self) hspares
  · refine apart_of_building (congrArg Call.pc hself) ?_ ?_
    · rw [moveTo_call_of_ne hl]
      exact hfills l hl
    · rw [moveTo_call_of_ne hl, hself]
      exact (h.apart k l (Ne.symm hl)).chosen (Or.inr (by simp [hpc, hslot, CallPc.fills]))

/-- When a call commits, the task in its slot is its own. -/
theorem commit_task {n : Fin maxTasks} (hslot : (w.call k).slot = n) (i : Fin maxTasks) :
    (w.moveTo k (committed w.g n) (.returned 0)).task i = if i = n then some k else w.task i := by
  show (if (i : Int) = (w.call k).slot then some k else w.task i) = _
  rw [hslot]
  exact if_congr (by rw [Fin.ext_iff]; omega) rfl rfl

/-- The running slots are other slots than the one taken into use, and stay as they are. -/
theorem committed_of_running {n i : Fin maxTasks} (hrun : (g.tasks n).running = false)
    (hi : (g.tasks i).running = true) : i ≠ n ∧ (committed g n).tasks i = g.tasks i := by
  have hne : i ≠ n := by
    rintro rfl
    rw [hrun] at hi
    exact Bool.false_ne_true hi
  refine ⟨hne, ?_⟩
  rw [committed_tasks, if_neg hne]

/-- What slot `n` being taken into use leaves to a call that does not fill it. -/
theorem CallOk.commit {l : Nat} {n : Fin maxTasks} (h : CallOk w l) (hl : l ≠ k)
    (hslot : (w.call k).slot = n) (hrun : (w.g.tasks n).running = false)
    (hfills : (w.call l).pc.fills n = false) :
    CallOk (w.moveTo k (committed w.g n) (.returned 0)) l := by
  refine ⟨?_, fun m rest hm => ?_, fun hret => ?_, ?_⟩
  · rw [moveTo_call_of_ne hl]
    exact h.counting
  · rw [moveTo_call_of_ne hl] at hm ⊢
    obtain ⟨i, rfl, hs, hilt, hirun, hicur, hsub⟩ := h.building m rest hm
    -- no other call is building the slot that is committed
    have hin : i ≠ n := by
      rintro rfl
      rw [hm] at hfills
      exact beq_eq_false_iff_ne.mp hfills rfl
    refine ⟨i, rfl, hs, hilt, ?_, hicur, hsub⟩
    show ((committed w.g n).tasks i).running = false
    rw [committed_tasks, if_neg hin]
    exact hirun
  · rw [moveTo_call_of_ne hl] at hret ⊢
    obtain ⟨i, hi, hilt, hlive⟩ := h.returned hret
    refine ⟨i, hi, hilt, fun hexited => ?_⟩
    obtain ⟨hitask, hirun, hstart⟩ := hlive hexited
    obtain ⟨hin, hkept⟩ := committed_of_running hrun hirun
    rw [commit_task hslot, if_neg hin]
    refine ⟨hitask, ?_, fun hstarted => ⟨(hstart hstarted).1, ?_⟩⟩
    · show ((committed w.g n).tasks i).running = true
      rw [hkept]
      exact hirun
    · show ((committed w.g n).tasks i).sp = w.g.top i - 35
      rw [hkept]
      exact (hstart hstarted).2
  · rw [moveTo_call_of_ne hl]
    exact h.frame

/-- A call has chosen no slot below `task_count` that it does not fill. -/
theorem CallOk.slot_ne {l : Nat} {n : Int} (h : CallOk w l) (hlt : n < w.g.taskCount)
    (hfills : (w.call l).pc.fills n = false)
    (hm : (w.call l).pc.counts = true ∨ (w.call l).pc.fills (w.call l).slot = true) :
    n ≠ (w.call l).slot := by
  intro hs
  rcases hm with hcounts | hfill
  · cases hl : (w.call l).pc with
    | increment m =>
        have := h.counting m hl
        omega
    | test | search _ | read | building _ _ | returned _ =>
        rw [hl] at hcounts
        exact Bool.false_ne_true hcounts
  · rw [← hs, hfills] at hfill
    exact Bool.false_ne_true hfill

theorem commit_inv (h : Inv w) (hk : w.active w.g.currentTask = some k) {j : Fin maxTasks}
    (hpc : (w.call k).pc = .building j []) : Inv (w.moveTo k (committed w.g j) (.returned 0)) := by
  obtain ⟨n, hn, hslot, hlt, hrun, hcur, -⟩ := (h.call k).building j [] hpc
  obtain rfl : n = j := Fin.ext (by omega)
  have hself := moveTo_call_goto w k (committed w.g n) (.returned 0) (by rw [hpc]; rfl)
  have hfills : ∀ l ≠ k, (w.call l).pc.fills n = false := fun l hl =>
    (h.apart k l (Ne.symm hl)).building n _ hpc
  -- from here on the slot may be selected, and its frame is complete
  have hnew : (committed w.g n).tasks n = { sp := w.g.top n - 35, sleepTime := -1, running := true } := by
    rw [committed_tasks, if_pos rfl]
  refine h.moveTo hk (committed_tableOk h.table hlt)
    (fun i hi => by rw [(committed_of_running hrun hi).2]; exact hi) ?_
    (fun l hl => (h.call l).commit hl hslot hrun (hfills l hl)) fun l hl => ?_
  · refine .of_returned (congrArg Call.pc hself) ((congrArg Call.slot hself).trans hslot) hlt
      (by rw [commit_task hslot, if_pos rfl]) ?_ hcur ?_ ?_
    · show ((committed w.g n).tasks n).running = true
      rw [hnew]
    · show ((committed w.g n).tasks n).sp = w.g.top n - 35
      rw [hnew]
    · have hframe := (h.call k).frame (by simp [Call.hasFrame, hpc])
      rw [hpc, hslot] at hframe
      rw [hself]
      exact hframe
  · refine apart_of_returned (congrArg Call.pc hself) ?_ ?_
    · rw [moveTo_call_of_ne hl, hself]
      intro hm
      show (w.call k).slot ≠ (w.call l).slot
      rw [hslot]
      exact (h.call l).slot_ne hlt (hfills l hl) hm
    · rw [moveTo_call_of_ne hl, hself]
      exact (h.apart k l (Ne.symm hl)).chosen (Or.inr (by simp [hpc, hslot, CallPc.fills]))

/-- A step of a call that gets into no other call's way. -/
theorem advance_inv (h : Inv w) (hk : w.active w.g.currentTask = some k)
    (hadv : Advanced (w.call k).address (w.call k).args w.g (w.call k).pc g pc)
    (hclear : w.Clear k (w.call k).pc) : Inv (w.moveTo k g pc) := by
  generalize hpc : (w.call k).pc = p at hadv hclear
  have hgoto : ∀ {q}, p.chosen? q = none →
      ((w.call k).goto q fun l => (w.call l).exited).pc = q := by
    intro q hq
    rw [Call.goto, hpc, hq]
  cases hadv with
  | testFull _ => exact h.moveToNeutral hk ⟨by simp, by simp, by simp⟩ (hgoto rfl)
  | testFree _ => exact h.moveToNeutral hk ⟨by simp, by simp, by simp⟩ (hgoto rfl)
  | found j hlt hrun => exact found_inv h hk hpc hlt hrun hclear
  | next j _ _ => exact h.moveToNeutral hk ⟨by simp, by simp, by simp⟩ (hgoto rfl)
  | exhausted i _ => exact h.moveToNeutral hk ⟨by simp, by simp, by simp⟩ (hgoto rfl)
  | read => exact read_inv h hk hpc hclear
  | increment taskNum => exact increment_inv h hk hpc
  | store taskNum a x rest => exact store_inv h hk hpc hclear
  | commit j => exact commit_inv h hk hpc

end

/-- Every step that disturbs no other call keeps the invariant. -/
theorem callStep_inv {w w' : Calls} {e : CallEvent} (h : Inv w) (hok : Undisturbed w e)
    (hst : callStep w e = some w') : Inv w' := by
  have helse : e ≠ .advance → (∀ address args, e ≠ .call address args) → Inv w' := by
    intro hadvance hcall
    obtain ⟨he, htable⟩ := callStep_elsewhere h hst hadvance hcall
    exact he.inv h htable
  cases callStep_outcome hst with
  | call address args hout hlive => exact enter_inv h hlive address args
  | advance k g pc hk hadv => exact advance_inv h hk hadv (hok k hk)
  | work _ _ | stopCurrent _ _ _ _ | storeSleepByte _ _ _ _ _ _ | yield _ _ _ _ _ _ | tick _ _ _ _ _ =>
      exact helse (by simp) (by simp)

end Calls

/-! ## Calls without interruption

A concrete run through `schedule_task` takes one step for each of the 260 stores to the RAM. These lemmas
take the stores of a frame at one go, so that the run below can be evaluated call by call. -/

namespace Calls

/-- The call `k` has made the assignments `rest`, which were all it had left. -/
def built (w : Calls) (k : Nat) (taskNum : Int) (rest : List (Addr × Byte)) : Calls :=
  { w with
    g := { w.g with ram := writeAll w.g.ram rest }
    call := Function.update w.call k { w.call k with pc := .building taskNum [] } }

/-- The running context builds the frame of its call without interruption. -/
def build (w : Calls) : Option Calls := do
  let k ← w.active w.g.currentTask
  match (w.call k).pc with
  | .building taskNum rest => some (w.built k taskNum rest)
  | _ => none

section

variable {w : Calls} {k : Nat} {taskNum : Int}

/-- One store of a frame. -/
theorem callStep_store {a : Addr} {x : Byte} {rest : List (Addr × Byte)}
    (hk : w.active w.g.currentTask = some k)
    (hpc : (w.call k).pc = .building taskNum ((a, x) :: rest)) :
    callStep w .advance =
      some (w.moveTo k { w.g with ram := Function.update w.g.ram a x } (.building taskNum rest)) := by
  simp only [callStep, hk, hpc, CallPc.advance, Option.bind_eq_bind, Option.bind_some]

theorem built_moveTo {a : Addr} {x : Byte} {rest : List (Addr × Byte)}
    (hpc : (w.call k).pc = .building taskNum ((a, x) :: rest)) :
    (w.moveTo k { w.g with ram := Function.update w.g.ram a x } (.building taskNum rest)).built k
      taskNum rest = w.built k taskNum ((a, x) :: rest) := by
  have hself := moveTo_call_goto w k { w.g with ram := Function.update w.g.ram a x }
    (.building taskNum rest) (by rw [hpc]; rfl)
  rw [built, hself, built, writeAll_cons]
  simp only [moveTo, Function.update_idem]
  rfl

/-- All stores of a frame, one step after the other. -/
theorem run_building (rest : List (Addr × Byte)) (hk : w.active w.g.currentTask = some k)
    (hpc : (w.call k).pc = .building taskNum rest) :
    run callStep w (List.replicate rest.length .advance) = some (w.built k taskNum rest) := by
  induction rest generalizing w with
  | nil =>
      rw [built, ← hpc, Function.update_eq_self]
      rfl
  | cons e rest ih =>
      rw [List.length_cons, List.replicate_succ, run_cons, callStep_store hk hpc, Option.bind_some,
        ← built_moveTo hpc]
      refine ih hk ?_
      rw [moveTo_call_goto _ _ _ _ (by rw [hpc]; rfl)]

/-- It spoils no frame when there is no other one. -/
theorem along_building (rest : List (Addr × Byte)) (hk : w.active w.g.currentTask = some k)
    (hpc : (w.call k).pc = .building taskNum rest)
    (hframe : ∀ l < w.count, l ≠ k → (w.call l).hasFrame = false) :
    Along callStep Undisturbed w (List.replicate rest.length .advance) := by
  induction rest generalizing w with
  | nil => exact trivial
  | cons e rest ih =>
      rw [List.length_cons, List.replicate_succ]
      refine ⟨fun l hl => ?_, fun w' hw' => ?_⟩
      · obtain rfl : k = l := Option.some.inj (hk.symm.trans hl)
        rw [hpc]
        intro l hl hne hf
        rw [hframe l hl hne] at hf
        exact absurd hf Bool.false_ne_true
      · rw [callStep_store hk hpc, Option.some.injEq] at hw'
        subst hw'
        refine ih hk ?_ fun l hl hne => ?_
        · rw [moveTo_call_goto _ _ _ _ (by rw [hpc]; rfl)]
        · rw [moveTo_call_of_ne hne]
          exact hframe l hl hne

/-- A call that builds its frame at one go. It disturbs no one when no other frame waits to be completed
or to be started. -/
theorem run_build {w' : Calls} (h : w.build = some w') :
    ∃ es, run callStep w es = some w' ∧
      ((∀ l < w.count, w.active w.g.currentTask ≠ some l → (w.call l).hasFrame = false) →
        Along callStep Undisturbed w es) := by
  obtain ⟨k, hk, h⟩ := Option.bind_eq_some_iff.mp h
  split at h
  · rename_i taskNum rest hpc
    obtain rfl := Option.some.inj h
    refine ⟨_, run_building rest hk hpc, fun hframe => ?_⟩
    refine along_building rest hk hpc fun l hl hne => hframe l hl ?_
    rw [hk]
    exact fun heq => hne (Option.some.inj heq).symm
  · exact absurd h (by simp)

end

end Calls

/-! ## Concurrent creation

Any number of contexts, each of which may be preempted anywhere in its call, with other tasks, ticks and
further calls in between. -/

/-- As long as no call gets into the way of another one, whatever the interleaving, `task_count` stays
in range, no two tasks share a slot at a time, and a task that is yet to start has its frame. -/
theorem calls_well_created {w₀ w : Calls} {es : List CallEvent} (h₀ : w₀.Initial)
    (hrun : run callStep w₀ es = some w) (hok : Along callStep Undisturbed w₀ es) : w.WellCreated :=
  (run_preserves_along (fun _ _ _ => Calls.callStep_inv) h₀.inv hok hrun).wellCreated

/-- The state after the constructor. -/
def noCalls : Calls where
  g := Globals.construct 0x08F0 fun _ => 0
  count := 0
  call _ := ⟨0, 0, .returned (-1), -1, fun _ => false, false, false⟩
  active _ := none
  task _ := none

theorem noCalls_initial : noCalls.Initial :=
  ⟨initial_construct _ _, rfl, fun _ => rfl, fun _ => rfl, fun _ => rfl⟩

/-- `main` creates a task, which is started by a tick and begins to create another one. -/
theorem calls_well_created_fresh :
    ∃ es w, run callStep noCalls es = some w ∧ w.g.taskCount = 2 ∧ w.g.currentTask = 0 ∧
      w.WellCreated := by
  let before : List CallEvent := [.call 0x1200 7, .advance, .advance, .advance]
  let after : List CallEvent := [.advance, .tick 0x08E0 [], .call 0x1300 0, .advance, .advance, .advance]
  have hok : Along callStep Undisturbed noCalls before := by decide
  have htrace : ((run callStep noCalls before).bind fun w => w.build.bind fun w' =>
      (run callStep w' after).map fun w'' => decide ((∀ l < w.count,
        w.active w.g.currentTask ≠ some l → (w.call l).hasFrame = false) ∧
          Along callStep Undisturbed w' after ∧ w''.g.taskCount = 2 ∧ w''.g.currentTask = 0)) =
      some true := by decide
  obtain ⟨w, hw, htrace⟩ := Option.bind_eq_some_iff.mp htrace
  obtain ⟨w', hw', htrace⟩ := Option.bind_eq_some_iff.mp htrace
  obtain ⟨w'', hw'', hdec⟩ := Option.map_eq_some_iff.mp htrace
  obtain ⟨hframe, hok', hcount, hcur⟩ := of_decide_eq_true hdec
  obtain ⟨es, hes, hbuild⟩ := Calls.run_build hw'
  have hrun : run callStep noCalls (before ++ (es ++ after)) = some w'' := by
    rw [run_append, hw, Option.bind_some, run_append, hes]
    exact hw''
  refine ⟨_, w'', hrun, hcount, hcur, calls_well_created noCalls_initial hrun ?_⟩
  refine along_append.mpr ⟨hok, fun v hv => ?_⟩
  obtain rfl := Option.some.inj (hw.symm.trans hv)
  refine along_append.mpr ⟨hbuild hframe, fun v hv => ?_⟩
  obtain rfl := Option.some.inj (hes.symm.trans hv)
  exact hok'

/-- Two tasks are created. The first one calls `schedule_task` and is preempted between
`task_num=task_count` and `task_count++`; the second one does the same and goes on; both have read
`2`, and `task_count` ends up at `4`. -/
theorem calls_not_well_created : ¬ ∀ w, Reachable Calls.Initial callStep w → w.WellCreated := by
  intro hall
  let trace : Option Calls := do
    let w ← run callStep noCalls [.call 0x1200 0, .advance, .advance, .advance]
    let w ← w.build
    let w ← run callStep w [.advance, .call 0x1234 0, .advance, .advance, .advance]
    let w ← w.build
    run callStep w [.advance, .tick 0x08E0 [], .call 0x1300 0, .advance, .advance, .tick 0x07A0 [],
      .call 0x1400 0, .advance, .advance, .advance, .tick 0x06A0 [], .advance]
  have hbad : trace.any (fun w => decide ((maxTasks : Int) < w.g.taskCount)) = true := by decide
  obtain ⟨w, hw, hcount⟩ := (Option.any_eq_true _ _).mp hbad
  obtain ⟨w₁, h₁, hw⟩ := Option.bind_eq_some_iff.mp hw
  obtain ⟨w₂, h₂, hw⟩ := Option.bind_eq_some_iff.mp hw
  obtain ⟨w₃, h₃, hw⟩ := Option.bind_eq_some_iff.mp hw
  obtain ⟨w₄, h₄, hw⟩ := Option.bind_eq_some_iff.mp hw
  obtain ⟨es, hes, -⟩ := Calls.run_build h₂
  obtain ⟨fs, hfs, -⟩ := Calls.run_build h₄
  have hreach : Reachable Calls.Initial callStep w :=
    ((((Reachable.start noCalls_initial).run h₁).run hes).run h₃).run hfs |>.run hw
  exact absurd (of_decide_eq_true hcount) (not_lt.mpr (hall w hreach).count_le)

end SmartblocksOs.System
