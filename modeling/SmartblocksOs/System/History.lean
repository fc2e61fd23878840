/-
# SmartblocksOs.System.History -- the task table against the history of calls

`tasks[]` forgets: it holds three slots, reused over and over. This module keeps the books beside it.
A `Ledger` numbers the `schedule_task` calls of a run and remembers which of them returned `0`,
which of those tasks have called `exit_task`, and whose task each slot holds. The table and the
books agree at all times: the running slots are exactly the accepted calls whose task has not exited
(`Agrees.bijOn`), so no task is lost, evicted or run again after its exit.
-/
import SmartblocksOs.System.Scheduler
import Mathlib.Data.Finset.Basic
import Mathlib.Data.Set.Function

namespace SmartblocksOs.System

open Foundation

/-! ## The ledger

It is computed from the events and their results, and nothing in the table depends on it. -/

/-- A record of the calls: which were accepted, which of their tasks have exited, and whose task is in
which slot. -/
structure Ledger where
  /-- How many `schedule_task` calls there have been; they are numbered from `0`. -/
  calls : Nat
  accepted : Finset Nat
  exited : Finset Nat
  /-- The call whose task each slot was filled with last. -/
  owner : Fin maxTasks → Option Nat

namespace Ledger

/-- Before the first call. -/
def empty : Ledger :=
  { calls := 0, accepted := ∅, exited := ∅, owner := fun _ => none }

/-- The accepted calls whose task has not called `exit_task`. -/
def live (l : Ledger) : Finset Nat := l.accepted \ l.exited

/-- A `schedule_task` call in state `g` returned `r`. -/
def called (l : Ledger) (g : Globals) (r : Option Int) : Ledger :=
  if r = some 0 then
    { l with
      calls := l.calls + 1
      accepted := insert l.calls l.accepted
      owner := fun j => if Takes g j then some l.calls else l.owner j }
  else
    { l with calls := l.calls + 1 }

/-- The task in the current slot called `exit_task`. -/
def left (l : Ledger) (g : Globals) : Ledger :=
  match (slot? maxTasks g.currentTask).bind l.owner with
  | some k => { l with exited := insert k l.exited }
  | none => l

/-- What the books record of the event `e` taken in state `g`. -/
def record (l : Ledger) (g : Globals) : Event → Ledger
  | .scheduleTask address args => l.called g ((g.scheduleTask address args).map Prod.fst)
  | .exitTask _ | .stopCurrent => l.left g
  | .work _ | .yield _ | .sleep _ _ | .tick _ | .setSleepTime _ => l

end Ledger

/-- One step of the scheduler with the books kept. -/
def ledgerStep (s : Globals × Ledger) (e : Event) : Option (Globals × Ledger) :=
  (step s.1 e).map fun g => (g, s.2.record s.1 e)

/-- The scheduler as constructed, and nothing recorded. -/
def LedgerInitial (s : Globals × Ledger) : Prop :=
  Initial s.1 ∧ s.2 = Ledger.empty

/-- The record follows the scheduler, and does not disturb it. -/
theorem ledgerStep_eq_some {s t : Globals × Ledger} {e : Event} :
    ledgerStep s e = some t ↔ step s.1 e = some t.1 ∧ t.2 = s.2.record s.1 e := by
  rw [ledgerStep, Option.map_eq_some_iff]
  constructor
  · rintro ⟨g, hg, rfl⟩
    exact ⟨hg, rfl⟩
  · rintro ⟨hg, ht⟩
    exact ⟨t.1, hg, by rw [← ht]⟩

/-! ## The books agree with the table

A call that is accepted takes a slot whose task has exited or that was never used, so that the entry it
overwrites in the ledger is of no live task. -/

/-- The invariant that ties the ledger to the table. -/
structure Agrees (g : Globals) (l : Ledger) : Prop where
  accepted_lt : ∀ k ∈ l.accepted, k < l.calls
  exited_sub : l.exited ⊆ l.accepted
  owner_accepted : ∀ j k, l.owner j = some k → k ∈ l.accepted
  owner_inj : ∀ i j k, l.owner i = some k → l.owner j = some k → i = j
  running_live : ∀ j, (g.tasks j).running = true → ∃ k, l.owner j = some k ∧ k ∉ l.exited
  live_running : ∀ k ∈ l.live, ∃ j, l.owner j = some k ∧ (g.tasks j).running = true

/-- Before the first call there is nothing to record. -/
theorem Initial.agrees {g : Globals} (h : Initial g) : Agrees g Ledger.empty where
  accepted_lt := by simp [Ledger.empty]
  exited_sub := by simp [Ledger.empty]
  owner_accepted := by simp [Ledger.empty]
  owner_inj := by simp [Ledger.empty]
  running_live j hj := absurd hj (by simp [h.2.2 j])
  live_running := by simp [Ledger.empty, Ledger.live]

namespace Agrees

variable {g g' : Globals} {l : Ledger}

/-- An event that leaves the `running` flags and the books alone keeps them in agreement. -/
theorem congr (h : Agrees g l) (hrun : ∀ j, (g'.tasks j).running = (g.tasks j).running) :
    Agrees g' l where
  accepted_lt := h.accepted_lt
  exited_sub := h.exited_sub
  owner_accepted := h.owner_accepted
  owner_inj := h.owner_inj
  running_live j hj := h.running_live j (by rwa [← hrun j])
  live_running k hk := by
    obtain ⟨j, ho, hj⟩ := h.live_running k hk
    exact ⟨j, ho, by rwa [hrun j]⟩

/-- A call that is refused is counted, and that is all. -/
theorem refused (h : Agrees g l) : Agrees g (l.called g (some (-1))) where
  accepted_lt k hk := Nat.lt_succ_of_lt (h.accepted_lt k hk)
  exited_sub := h.exited_sub
  owner_accepted := h.owner_accepted
  owner_inj := h.owner_inj
  running_live := h.running_live
  live_running := h.live_running

/-- An accepted call takes a slot that was not running, so it takes it from no live task. -/
theorem accepted (h : Agrees g l) (hok : TableOk g) {j : Fin maxTasks} (ht : Takes g j)
    (address args : BitVec 16) :
    Agrees (filled g j address args) (l.called g (some 0)) := by
  have htakes : ∀ i, Takes g i ↔ i = j := fun i => ⟨fun hi => hi.unique ht, fun hi => hi ▸ ht⟩
  have hfresh : l.calls ∉ l.accepted := fun hmem => lt_irrefl _ (h.accepted_lt _ hmem)
  have howner : ∀ i, (l.called g (some 0)).owner i = if i = j then some l.calls else l.owner i := by
    intro i
    simp only [Ledger.called, if_true, htakes]
  have hold : ∀ i, l.owner i ≠ some l.calls := fun i hi => hfresh (h.owner_accepted i _ hi)
  -- the six clauses: numbers, exits, owners are accepted, owners are distinct, running slots are live, and
  -- live calls have a running slot
  refine ⟨fun k hk => ?_, ?_, fun i k hi => ?_, fun a b k ha hb => ?_, fun i hi => ?_,
    fun k hk => ?_⟩
  · rcases Finset.mem_insert.mp hk with rfl | hk
    · exact Nat.lt_succ_self _
    · exact Nat.lt_succ_of_lt (h.accepted_lt k hk)
  · exact h.exited_sub.trans (Finset.subset_insert _ _)
  · rw [howner] at hi
    apply Finset.mem_insert.mpr
    split at hi
    · exact Or.inl (Option.some.inj hi).symm
    · exact Or.inr (h.owner_accepted i k hi)
  · rw [howner] at ha hb
    split at ha <;> split at hb
    · rename_i haj hbj
      rw [haj, hbj]
    · exact absurd (ha ▸ hb) (hold b)
    · exact absurd (hb ▸ ha) (hold a)
    · exact h.owner_inj a b k ha hb
  · rw [filled_running] at hi
    rw [howner]
    split
    · exact ⟨l.calls, rfl, fun hmem => hfresh (h.exited_sub hmem)⟩
    · rename_i hne
      rw [if_neg hne] at hi
      exact h.running_live i hi
  · obtain ⟨hacc, hex⟩ := Finset.mem_sdiff.mp hk
    rcases Finset.mem_insert.mp hacc with rfl | hacc
    · exact ⟨j, by rw [howner, if_pos rfl], by rw [filled_running, if_pos rfl]⟩
    · obtain ⟨i, hi, hri⟩ := h.live_running k (Finset.mem_sdiff.mpr ⟨hacc, hex⟩)
      have hne : i ≠ j := by
        rintro rfl
        rw [ht.not_running hok] at hri
        exact Bool.false_ne_true hri
      exact ⟨i, by rw [howner, if_neg hne, hi], by rw [filled_running, if_neg hne, hri]⟩

/-- `exit_task` strikes exactly the call whose task is current from the live ones. -/
theorem left (h : Agrees g l) {c : Fin maxTasks} (hc : (c : Int) = g.currentTask) :
    Agrees (stopped g c) (l.left g) := by
  have hleft : l.left g = match l.owner c with
      | some k => { l with exited := insert k l.exited }
      | none => l := by
    rw [Ledger.left, slot?_eq_some.mpr hc]
    rfl
  cases ho : l.owner c with
  | none =>
      rw [ho] at hleft
      rw [hleft]
      -- a slot without an owner was not running, so its flag does not change
      apply h.congr
      intro j
      rw [stopped_running]
      split
      · rename_i hj
        subst hj
        by_contra hne
        obtain ⟨k, hk, -⟩ := h.running_live j (by
          cases hr : (g.tasks j).running
          · exact absurd hr.symm hne
          · rfl)
        rw [ho] at hk
        exact absurd hk (by simp)
      · rfl
  | some k =>
      rw [ho] at hleft
      rw [hleft]
      refine ⟨h.accepted_lt, ?_, h.owner_accepted, h.owner_inj, fun j hj => ?_, fun m hm => ?_⟩
      · exact Finset.insert_subset (h.owner_accepted c k ho) h.exited_sub
      · rw [stopped_running] at hj
        split at hj
        · exact absurd hj Bool.false_ne_true
        · rename_i hne
          obtain ⟨m, hm, hex⟩ := h.running_live j hj
          refine ⟨m, hm, fun hmem => ?_⟩
          rcases Finset.mem_insert.mp hmem with rfl | hmem
          · exact hne (h.owner_inj j c m hm ho)
          · exact hex hmem
      · obtain ⟨hacc, hex⟩ := Finset.mem_sdiff.mp hm
        rw [Finset.mem_insert, not_or] at hex
        obtain ⟨j, hj, hrj⟩ := h.live_running m (Finset.mem_sdiff.mpr ⟨hacc, hex.2⟩)
        refine ⟨j, hj, ?_⟩
        rw [stopped_running, if_neg, hrj]
        rintro rfl
        rw [ho, Option.some.injEq] at hj
        exact hex.1 hj.symm

/-- Agreement is the one-to-one correspondence between running slots and live calls. -/
theorem bijOn (h : Agrees g l) :
    Set.BijOn l.owner {j | (g.tasks j).running = true} (some '' (l.live : Set Nat)) := by
  refine ⟨fun j hj => ?_, fun i hi j hj he => ?_, ?_⟩
  · obtain ⟨k, hk, hex⟩ := h.running_live j hj
    exact ⟨k, Finset.mem_sdiff.mpr ⟨h.owner_accepted j k hk, hex⟩, hk.symm⟩
  · obtain ⟨k, hk, -⟩ := h.running_live i hi
    exact h.owner_inj i j k hk (he ▸ hk)
  · rintro _ ⟨k, hk, rfl⟩
    obtain ⟨j, hj, hrj⟩ := h.live_running k hk
    exact ⟨j, hrj, hj⟩

end Agrees

/-- Every step keeps the books in agreement with the table. -/
theorem step_agrees {g g' : Globals} {l : Ledger} {e : Event} (hok : TableOk g) (h : Agrees g l)
    (hs : step g e = some g') : Agrees g' (l.record g e) := by
  cases step_outcome hok hs with
  | work ram => exact h.congr fun _ => rfl
  | refused address args _ hr =>
      simpa only [Ledger.record, hr, Option.map_some] using h.refused
  | accepted address args j ht hr =>
      simpa only [Ledger.record, hr, Option.map_some] using h.accepted hok ht address args
  | exitTask w c _ hc hsw => exact (h.left hc).congr hsw.running
  | yield w _ hsw => exact h.congr hsw.running
  | sleep t w c _ _ hsw => exact h.congr fun j => (hsw.running j).trans (asleep_running g c j t)
  | tick w _ hsw => exact h.congr fun j => (hsw.running j).trans (ticked_running g w j)
  | stopCurrent c hc => exact h.left hc
  | setSleepTime t c _ => exact h.congr fun j => asleep_running g c j t

/-- In every reachable state the record is right. -/
theorem ledger_reachable {s : Globals × Ledger} (h : Reachable LedgerInitial ledgerStep s) :
    TableOk s.1 ∧ Agrees s.1 s.2 := by
  refine h.invariant (I := fun s => TableOk s.1 ∧ Agrees s.1 s.2) ?_ ?_
  · rintro ⟨g, l⟩ ⟨hg, rfl⟩
    exact ⟨hg.tableOk, hg.agrees⟩
  · rintro s e t ⟨hok, hag⟩ hst
    obtain ⟨hs, hl⟩ := ledgerStep_eq_some.mp hst
    exact ⟨step_tableOk hok hs, by rw [hl]; exact step_agrees hok hag hs⟩

/-! ## A finished task is not selected again

After `exit_task` the slot is not eligible until a new task is put there. -/

/-- The event `e` in state `g` is not a `schedule_task` that takes slot `c`. -/
def NoRefill (c : Fin maxTasks) (g : Globals) (e : Event) : Prop :=
  ∀ address args, e = .scheduleTask address args → ¬ Takes g c

/-- A slot that is not running stays so until a `schedule_task` takes it. -/
theorem step_not_running {c : Fin maxTasks} {g g' : Globals} {e : Event} (hok : TableOk g)
    (hc : (g.tasks c).running = false) (hno : NoRefill c g e) (hs : step g e = some g') :
    (g'.tasks c).running = false := by
  cases step_outcome hok hs with
  | work ram => exact hc
  | refused address args _ _ => exact hc
  | accepted address args j ht _ =>
      rw [filled_running, if_neg, hc]
      rintro rfl
      exact hno address args rfl ht
  | exitTask w d _ _ hsw =>
      rw [hsw.running]
      exact (stopped_running g d c).trans (by rw [hc, ite_self])
  | yield w _ hsw => rwa [hsw.running]
  | sleep t w d _ _ hsw =>
      rw [hsw.running]
      exact (asleep_running g d c t).trans hc
  | tick w _ hsw =>
      rw [hsw.running]
      exact (ticked_running g w c).trans hc
  | stopCurrent d _ => rw [stopped_running, hc, ite_self]
  | setSleepTime t d _ => rw [asleep_running, hc]

/-- A switch selects running slots only. -/
theorem Selected.ne_of_not_running {c : Fin maxTasks} {g : Globals} (h : Selected g)
    (hc : (g.tasks c).running = false) : g.currentTask ≠ c := by
  rcases h with ⟨j, hj, hel⟩ | ⟨hidle, -⟩
  · intro heq
    obtain rfl : j = c := Fin.ext (by omega)
    exact absurd hel.1 (by simp [hc])
  · omega

/-- The events by which the task in the current slot says it has finished. -/
def Event.Exits : Event → Prop
  | exitTask _ | stopCurrent => True
  | _ => False

/-- A task that has called `exit_task` does not run any more. -/
theorem step_exit_not_running {c : Fin maxTasks} {g g' : Globals} {e : Event} (hok : TableOk g)
    (he : e.Exits) (hc : (c : Int) = g.currentTask) (hs : step g e = some g') :
    (g'.tasks c).running = false := by
  have hstop : ∀ d : Fin maxTasks, (d : Int) = g.currentTask →
      ((stopped g d).tasks c).running = false := by
    intro d hd
    rw [stopped_running, if_pos (Fin.ext (by omega))]
  cases step_outcome hok hs with
  | exitTask w d _ hd hsw =>
      rw [hsw.running]
      exact hstop d hd
  | stopCurrent d hd => exact hstop d hd
  | _ => exact he.elim

/-- After its task has exited, a slot is selected by no switch, the exit's own included, until a
`schedule_task` takes it. -/
theorem exited_not_selected {c : Fin maxTasks} {g g₁ : Globals} {e : Event} (hok : TableOk g)
    (he : e.Exits) (hc : (c : Int) = g.currentTask) (hs : step g e = some g₁) :
    (e.Switches → g₁.currentTask ≠ c) ∧
      ∀ es e' g₂, Along step (NoRefill c) g₁ es → run step g₁ (es ++ [e']) = some g₂ →
        e'.Switches → g₂.currentTask ≠ c := by
  have hstop := step_exit_not_running hok he hc hs
  refine ⟨fun hsw => ((step_outcome hok hs).selected hsw).ne_of_not_running hstop, ?_⟩
  intro es e' g₂ hno hrun hsw
  obtain ⟨m, hm, hlast⟩ := run_concat_eq_some.mp hrun
  obtain ⟨hmok, hmc⟩ : TableOk m ∧ (m.tasks c).running = false :=
    run_preserves_along (I := fun g => TableOk g ∧ (g.tasks c).running = false)
      (fun g e g' hI hok hst => ⟨step_tableOk hI.1 hst, step_not_running hI.1 hI.2 hok hst⟩)
      ⟨step_tableOk hok hs, hstop⟩ hno hm
  have hnorefill : NoRefill c m e' := by
    rintro address args rfl
    exact hsw.elim
  exact ((step_outcome hmok hlast).selected hsw).ne_of_not_running
    (step_not_running hmok hmc hnorefill hlast)

/-! ## The table forgets nothing

The results for all runs, put together. -/

/-- How many slots are running. -/
def runningTasks (g : Globals) : Nat :=
  (Finset.univ.filter fun j => (g.tasks j).running = true).card

/-- All slots are taken. -/
theorem runningTasks_eq_max_iff (g : Globals) :
    runningTasks g = maxTasks ↔ ∀ j, (g.tasks j).running = true := by
  have hcard : (Finset.univ : Finset (Fin maxTasks)).card = maxTasks := Finset.card_fin _
  have hiff := Finset.card_filter_eq_iff (s := (Finset.univ : Finset (Fin maxTasks)))
    (p := fun j => (g.tasks j).running = true)
  rw [hcard] at hiff
  rw [runningTasks, hiff]
  simp

/-- **No task is lost, evicted or resurrected.** In every state a run reaches: the running slots
correspond one to one to the `schedule_task` calls that returned `0` and whose task has not exited;
`schedule_task` returns `-1` exactly when all slots run, and then changes nothing; when it returns
`0` it overwrites one slot, which was not running; and a slot whose task exits is not selected again
before a `schedule_task` takes it. -/
theorem no_task_lost {g : Globals} {l : Ledger} (h : Reachable LedgerInitial ledgerStep (g, l)) :
    Set.BijOn l.owner {j | (g.tasks j).running = true} (some '' (l.live : Set Nat)) ∧
      (∀ address args, ∃ r g', g.scheduleTask address args = some (r, g') ∧ (r = 0 ∨ r = -1) ∧
        (r = -1 ↔ runningTasks g = maxTasks) ∧ (r = -1 → g' = g) ∧
        (r = 0 → ∃ j, (g.tasks j).running = false ∧ (g'.tasks j).running = true ∧
          ∀ i ≠ j, g'.tasks i = g.tasks i)) ∧
      ∀ (e : Event) (c : Fin maxTasks) (g₁ : Globals), e.Exits → (c : Int) = g.currentTask →
        step g e = some g₁ →
        (e.Switches → g₁.currentTask ≠ c) ∧
          ∀ es e' g₂, Along step (NoRefill c) g₁ es → run step g₁ (es ++ [e']) = some g₂ →
            e'.Switches → g₂.currentTask ≠ c := by
  obtain ⟨hok, hag⟩ := ledger_reachable h
  refine ⟨hag.bijOn, fun address args => ?_, fun e c g₁ he hc hs => exited_not_selected hok he hc hs⟩
  rcases scheduleTask_spec hok address args with ⟨hr, hall⟩ | ⟨j, ht, hr⟩
  · refine ⟨-1, g, hr, Or.inr rfl, ?_, fun _ => rfl, fun h0 => absurd h0 (by decide)⟩
    exact ⟨fun _ => (runningTasks_eq_max_iff g).mpr hall, fun _ => rfl⟩
  · have hj := ht.not_running hok
    refine ⟨0, _, hr, Or.inl rfl, ⟨fun h0 => absurd h0 (by decide), fun hfull => ?_⟩,
      fun h0 => absurd h0 (by decide), fun _ => ⟨j, hj, ?_, fun i hi => ?_⟩⟩
    · rw [(runningTasks_eq_max_iff g).mp hfull j] at hj
      exact absurd hj (by decide)
    · rw [filled_running, if_pos rfl]
    · simp [filled, hi]

/-- A slot that is finished and filled again: the second task of the run takes over slot `0`. -/
theorem no_task_lost_refilled :
    ∃ g l, run ledgerStep (Globals.construct 0x08F0 fun _ => 0, Ledger.empty)
        [.scheduleTask 0x1234 7, .scheduleTask 0x1300 0, .scheduleTask 0x1400 0,
          .tick ⟨0x08E0, fun _ => 0⟩, .exitTask ⟨0x07A0, fun _ => 1⟩, .scheduleTask 0x1500 9] =
          some (g, l) ∧
      Set.BijOn l.owner {j | (g.tasks j).running = true} (some '' (l.live : Set Nat)) ∧
      (∀ address args, ∃ r g', g.scheduleTask address args = some (r, g') ∧ (r = 0 ∨ r = -1) ∧
        (r = -1 ↔ runningTasks g = maxTasks) ∧ (r = -1 → g' = g) ∧
        (r = 0 → ∃ j, (g.tasks j).running = false ∧ (g'.tasks j).running = true ∧
          ∀ i ≠ j, g'.tasks i = g.tasks i)) ∧
      ∀ (e : Event) (c : Fin maxTasks) (g₁ : Globals), e.Exits → (c : Int) = g.currentTask →
        step g e = some g₁ →
        (e.Switches → g₁.currentTask ≠ c) ∧
          ∀ es e' g₂, Along step (NoRefill c) g₁ es → run step g₁ (es ++ [e']) = some g₂ →
            e'.Switches → g₂.currentTask ≠ c := by
  obtain ⟨⟨g, l⟩, hrun⟩ := Option.isSome_iff_exists.mp
    (show (run ledgerStep (Globals.construct 0x08F0 fun _ => 0, Ledger.empty)
      [.scheduleTask 0x1234 7, .scheduleTask 0x1300 0, .scheduleTask 0x1400 0,
        .tick ⟨0x08E0, fun _ => 0⟩, .exitTask ⟨0x07A0, fun _ => 1⟩,
        .scheduleTask 0x1500 9]).isSome = true by decide)
  exact ⟨g, l, hrun, no_task_lost ⟨_, _, ⟨initial_construct _ _, rfl⟩, hrun⟩⟩

end SmartblocksOs.System
