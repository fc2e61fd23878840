/-
# SmartblocksOs.System.Selection -- what the three loops over the task table compute

One lemma for each loop of `system.cpp`, for a table of any size: `update_sleep_time` counts every
slot below `task_count` down once, the search of `schedule_task` finds the first slot that is not
running, and `chooseNextTask` is cyclic first fit, with the slots that it looks at. The callers cite
these and never unfold a loop.

The loops are translated with the number of rounds as an argument to recurse on and the loop variable as
an `Int`, as in the source, and every access to the table goes through `slot?`, which fails for an index
out of range. So each lemma says two things at once: that no access fails, and what comes out. The range
conditions `0 ≤ i` and `i + k ≤ n` are the loop invariants of the source, and their proofs are the same
for all loops.

`chooseNextTask` is stated twice. `chooseNextTask_spec` is what the scheduler needs: an eligible slot
below `task_count`, or `-1` and no such slot. `chooseNextTask_firstFit` is the whole of what it does, with
the order in which the slots are looked at; `probeFrom`, which keeps a record of these, is the same loop
with the record added (`probeFrom_snd`).
-/
import SmartblocksOs.System.Globals
import Mathlib.Tactic

namespace SmartblocksOs.System

variable {n : Nat} {tasks : Fin n → TaskDefinition}

/-! ## `update_sleep_time`

Each slot is visited once. In the induction step the slot at the loop variable is updated and the
hypothesis speaks of the rest, so that the case distinction is whether a slot is this one, a later one, or
none of those gone over. -/

/-- The loop of `update_sleep_time` counts down the slots that it goes over, and comes back. -/
theorem updateSleepTimeFrom_eq (k : Nat) : ∀ (tasks : Fin n → TaskDefinition) (i : Int),
    0 ≤ i → i + k ≤ n →
    updateSleepTimeFrom tasks k i =
      some fun j : Fin n => if i ≤ (j : Int) ∧ (j : Int) < i + k then (tasks j).countDown else tasks j := by
  induction k with
  | zero =>
      intro tasks i _ _
      simp only [updateSleepTimeFrom, Option.some.injEq]
      funext j
      rw [if_neg (by omega)]
  | succ k ih =>
      intro tasks i h0 hn
      obtain ⟨j, rfl⟩ := exists_slot (n := n) h0 (by omega)
      simp only [updateSleepTimeFrom, slot?_coe, Option.bind_eq_bind, Option.bind_some]
      rw [ih _ _ (by omega) (by omega), Option.some.injEq]
      funext l
      by_cases hl : l = j
      · subst hl
        rw [if_neg (by omega), Function.update_self, if_pos (by omega)]
      · have hne : (l : Int) ≠ (j : Int) := fun h => hl (Fin.ext (by omega))
        rw [Function.update_of_ne hl]
        by_cases hw : (j : Int) + 1 ≤ l ∧ (l : Int) < j + 1 + k
        · rw [if_pos hw, if_pos (by omega)]
        · rw [if_neg hw, if_neg (by omega)]

/-- `update_sleep_time` counts each slot below `task_count` down once and touches no other. -/
theorem updateSleepTime_eq {taskCount : Int} (h0 : 0 ≤ taskCount) (hn : taskCount ≤ n) :
    updateSleepTime tasks taskCount =
      some fun j : Fin n => if (j : Int) < taskCount then (tasks j).countDown else tasks j := by
  rw [updateSleepTime, updateSleepTimeFrom_eq _ _ _ le_rfl (by omega), Option.some.injEq]
  funext j
  by_cases hj : (j : Int) < taskCount
  · rw [if_pos (by omega), if_pos hj]
  · rw [if_neg (by omega), if_neg hj]

@[simp]
theorem TaskDefinition.countDown_running (t : TaskDefinition) :
    t.countDown.running = t.running := by
  unfold TaskDefinition.countDown
  split <;> rfl

@[simp]
theorem TaskDefinition.countDown_sp (t : TaskDefinition) : t.countDown.sp = t.sp := by
  unfold TaskDefinition.countDown
  split <;> rfl

/-! ## The search for a finished slot

The search is made only when the table is full, and so goes over all `MAX_TASKS` slots; it stops at the
first one whose task is not running. `FirstFinished` is the same fact in terms of the slots, without the
loop. -/

/-- The slots from `i` on below `j` are all running. -/
def RunningBetween (tasks : Fin n → TaskDefinition) (i j : Int) : Prop :=
  ∀ l : Fin n, i ≤ l → (l : Int) < j → (tasks l).running = true

/-- The search for a finished slot finds the first one, or none. By induction on the slots that are left. -/
theorem findFinishedFrom_spec (tasks : Fin n → TaskDefinition) (k : Nat) : ∀ i : Int, 0 ≤ i → i + k ≤ n →
    (findFinishedFrom tasks k i = some (-1) ∧ RunningBetween tasks i (i + k)) ∨
      ∃ j : Fin n, findFinishedFrom tasks k i = some (j : Int) ∧ i ≤ j ∧ (j : Int) < i + k ∧
        (tasks j).running = false ∧ RunningBetween tasks i j := by
  induction k with
  | zero =>
      intro i _ _
      refine Or.inl ⟨rfl, fun l hl hu => ?_⟩
      omega
  | succ k ih =>
      intro i h0 hn
      obtain ⟨j, rfl⟩ := exists_slot (n := n) h0 (by omega)
      simp only [findFinishedFrom, slot?_coe, Option.bind_eq_bind, Option.bind_some]
      by_cases hr : (tasks j).running = false
      · rw [if_pos hr]
        refine Or.inr ⟨j, rfl, le_rfl, by omega, hr, fun l hl hu => ?_⟩
        omega
      · rw [if_neg hr]
        -- slot `j` itself extends the running stretch found from `j + 1` on
        have hj : ∀ m, RunningBetween tasks ((j : Int) + 1) m → RunningBetween tasks j m := by
          intro m hm l hl hu
          by_cases hlj : l = j
          · subst hlj
            simpa using hr
          · have hne : (l : Int) ≠ (j : Int) := fun h => hlj (Fin.ext (by omega))
            exact hm l (by omega) hu
        rcases ih ((j : Int) + 1) (by omega) (by omega) with ⟨hs, hall⟩ | ⟨m, hs, h1, h2, hf, hall⟩
        · refine Or.inl ⟨hs, hj _ ?_⟩
          have : (j : Int) + 1 + k = j + (k + 1 : Nat) := by omega
          rwa [← this]
        · exact Or.inr ⟨m, hs, by omega, by omega, hf, hj _ hall⟩

/-- Slot `j` is the first one whose task is not running: the slot the search of `schedule_task`
ends on. -/
def FirstFinished (tasks : Fin n → TaskDefinition) (j : Fin n) : Prop :=
  (tasks j).running = false ∧ ∀ l < j, (tasks l).running = true

instance (j : Fin n) : Decidable (FirstFinished tasks j) :=
  inferInstanceAs (Decidable (_ ∧ _))

/-- There is one first one. -/
theorem FirstFinished.unique {i j : Fin n} (hi : FirstFinished tasks i)
    (hj : FirstFinished tasks j) : i = j := by
  rcases lt_trichotomy i j with h | h | h
  · exact absurd hi.1 (by simp [hj.2 i h])
  · exact h
  · exact absurd hj.1 (by simp [hi.2 j h])

/-- Over the whole table the search fails exactly when every slot runs, and otherwise ends on the
first finished one. -/
theorem findFinished_spec (tasks : Fin n → TaskDefinition) :
    (findFinishedFrom tasks n 0 = some (-1) ∧ ∀ j, (tasks j).running = true) ∨
      ∃ j : Fin n, findFinishedFrom tasks n 0 = some (j : Int) ∧ FirstFinished tasks j := by
  rcases findFinishedFrom_spec tasks n 0 le_rfl (by omega) with
    ⟨hs, hall⟩ | ⟨j, hs, -, -, hf, hall⟩
  · exact Or.inl ⟨hs, fun j => hall j (by omega) (by omega)⟩
  · refine Or.inr ⟨j, hs, hf, fun l hl => hall l (by omega) ?_⟩
    exact_mod_cast hl

/-! ## `chooseNextTask`

The source increments first and reduces modulo `task_count` afterwards, so that from `current_task = -1`,
when no task has run yet, the search begins at slot 0. C++ truncates where Lean rounds down; the two agree
here since the sum is never negative. -/

/-- The slot with index `x` exists and its task may run. -/
def EligibleAt (tasks : Fin n → TaskDefinition) (x : Int) : Prop :=
  ∃ j : Fin n, (j : Int) = x ∧ (tasks j).Eligible

@[simp]
theorem eligibleAt_coe (j : Fin n) : EligibleAt tasks (j : Int) ↔ (tasks j).Eligible := by
  constructor
  · rintro ⟨l, hl, he⟩
    obtain rfl : l = j := Fin.ext (by omega)
    exact he
  · exact fun h => ⟨j, rfl, h⟩

/-- The loop of `chooseNextTask`, with the slots that it looks at. -/
def probeFrom (tasks : Fin n → TaskDefinition) (taskCount : Int) : Nat → Int → Option (List Int × Int)
  | 0, _ => some ([], -1)
  | k + 1, next => do
      guard (taskCount ≠ 0)
      let next := (next + 1).tmod taskCount
      let j ← slot? n next
      if (tasks j).Eligible then some ([next], next)
      else do
        let (probed, chosen) ← probeFrom tasks taskCount k next
        some (next :: probed, chosen)

/-- Apart from these it is the loop. -/
theorem probeFrom_snd (tasks : Fin n → TaskDefinition) (taskCount : Int) (k : Nat) (next : Int) :
    (probeFrom tasks taskCount k next).map Prod.snd = chooseFrom tasks taskCount k next := by
  induction k generalizing next with
  | zero => rfl
  | succ k ih =>
      simp only [probeFrom, chooseFrom, ← ih, Option.bind_eq_bind]
      rw [Option.map_bind]
      refine congrArg (Option.bind _) (funext fun _ => ?_)
      apply (Option.map_bind ..).trans
      refine congrArg (Option.bind _) (funext fun j => ?_)
      show Option.map Prod.snd (ite _ _ _) = _
      split
      · rfl
      · cases probeFrom tasks taskCount k ((next + 1).tmod taskCount) <;> rfl

/-- The slot that is looked at `l`-th from `current` on, of `taskCount` slots. -/
def probe (taskCount current : Int) (l : Nat) : Int := (current + l) % taskCount

/-- The loop of `chooseNextTask` looks at `next + 1`, `next + 2`, ... modulo `task_count` and stops
at the first eligible slot, unless it leaves the table. -/
theorem probeFrom_spec_of_isSome (tasks : Fin n → TaskDefinition) {taskCount : Int}
    (hpos : 0 < taskCount) (k : Nat) : ∀ next : Int, -1 ≤ next →
    (probeFrom tasks taskCount k next).isSome →
    (probeFrom tasks taskCount k next = some ((List.range' 1 k).map (probe taskCount next), -1) ∧
        ∀ i : Nat, 1 ≤ i → i ≤ k → ¬ EligibleAt tasks (probe taskCount next i)) ∨
      ∃ i : Nat, 1 ≤ i ∧ i ≤ k ∧
        probeFrom tasks taskCount k next =
          some ((List.range' 1 i).map (probe taskCount next), probe taskCount next i) ∧
        EligibleAt tasks (probe taskCount next i) ∧
        ∀ l : Nat, 1 ≤ l → l < i → ¬ EligibleAt tasks (probe taskCount next l) := by
  induction k with
  | zero =>
      intro next _ _
      exact Or.inl ⟨rfl, fun i h1 hk => absurd hk (by omega)⟩
  | succ k ih =>
      intro next hnext hsome
      have hmod : (next + 1).tmod taskCount = (next + 1) % taskCount :=
        Int.tmod_eq_emod_of_nonneg (by omega)
      have hnn : 0 ≤ (next + 1) % taskCount := Int.emod_nonneg _ (by omega)
      obtain ⟨j, hj⟩ : ∃ j : Fin n, (j : Int) = (next + 1) % taskCount := by
        cases hslot : slot? n ((next + 1) % taskCount) with
        | some j => exact ⟨j, slot?_eq_some.mp hslot⟩
        | none =>
            simp only [probeFrom, hmod, hslot, Option.bind_eq_bind, Option.bind_none,
              Option.bind_fun_none, Option.isSome_none] at hsome
            cases hsome
      have hunfold : probeFrom tasks taskCount (k + 1) next =
          if (tasks j).Eligible then some ([(j : Int)], (j : Int))
          else (probeFrom tasks taskCount k j).bind fun r => some ((j : Int) :: r.1, r.2) := by
        simp only [probeFrom, hmod, ← hj, slot?_coe, Option.bind_eq_bind, Option.bind_some]
        rw [guard, if_pos (by omega)]
        rfl
      have hone : probe taskCount next 1 = j := by
        rw [hj]
        rfl
      -- a later probe from `j` is a later probe from `next`
      have hshift : ∀ i : Nat, probe taskCount j i = probe taskCount next (i + 1) := by
        intro i
        unfold probe
        rw [hj, Int.emod_add_emod]
        congr 1
        push_cast
        ring
      have hprobed : ∀ i : Nat, (j : Int) :: (List.range' 1 i).map (probe taskCount j) =
          (List.range' 1 (i + 1)).map (probe taskCount next) := by
        intro i
        rw [List.range'_succ, List.map_cons, hone, List.range'_eq_map_range (s := 1 + 1),
          List.range'_eq_map_range (s := 1), List.map_map, List.map_map]
        congr 1
        apply List.map_congr_left
        intro l _
        simp only [Function.comp_apply, hshift]
        congr 1
        omega
      rw [hunfold] at hsome ⊢
      by_cases he : (tasks j).Eligible
      · rw [if_pos he]
        refine Or.inr ⟨1, le_rfl, by omega, ?_, ?_, fun l h1 hl => absurd hl (by omega)⟩
        · rw [← hprobed 0, hone]
          rfl
        · rw [hone]
          exact (eligibleAt_coe j).mpr he
      · rw [if_neg he] at hsome ⊢
        have hfirst : ¬ EligibleAt tasks (probe taskCount next 1) := by
          rw [hone, eligibleAt_coe]
          exact he
        have hrest : (probeFrom tasks taskCount k j).isSome := by
          cases hprobe : probeFrom tasks taskCount k j with
          | some r => rfl
          | none =>
              rw [hprobe] at hsome
              cases hsome
        -- the slot just looked at is not eligible, and the search goes on from it
        rcases ih j (by omega) hrest with ⟨hs, hall⟩ | ⟨i, h1, hk, hs, hel, hall⟩
        · refine Or.inl ⟨?_, fun i h1 hi => ?_⟩
          · rw [hs, Option.bind_some, hprobed]
          · rcases Nat.eq_or_lt_of_le h1 with rfl | hlt1
            · exact hfirst
            · have := hall (i - 1) (by omega) (by omega)
              rwa [hshift, Nat.sub_add_cancel (by omega)] at this
        · refine Or.inr ⟨i + 1, by omega, by omega, ?_, ?_, fun l hl1 hl => ?_⟩
          · rw [hs, Option.bind_some, hprobed, hshift]
          · rwa [← hshift]
          · rcases Nat.eq_or_lt_of_le hl1 with rfl | hlt1
            · exact hfirst
            · have := hall (l - 1) (by omega) (by omega)
              rwa [hshift, Nat.sub_add_cancel (by omega)] at this

/-- With no more than `n` tasks it does not leave the table. -/
theorem probeFrom_isSome (tasks : Fin n → TaskDefinition) {taskCount : Int} (hpos : 0 < taskCount)
    (hn : taskCount ≤ n) (k : Nat) (next : Int) (hnext : -1 ≤ next) :
    (probeFrom tasks taskCount k next).isSome := by
  induction k generalizing next with
  | zero => rfl
  | succ k ih =>
      -- the index is reduced modulo `task_count`, which leaves it inside the table
      have hmod : (next + 1).tmod taskCount = (next + 1) % taskCount :=
        Int.tmod_eq_emod_of_nonneg (by omega)
      have hnn : 0 ≤ (next + 1) % taskCount := Int.emod_nonneg _ (by omega)
      have hlt : (next + 1) % taskCount < taskCount := Int.emod_lt_of_pos _ hpos
      obtain ⟨j, hj⟩ := exists_slot (n := n) hnn (by omega)
      simp only [probeFrom, hmod, ← hj, slot?_coe, Option.bind_eq_bind, Option.bind_some]
      rw [guard, if_pos (by omega)]
      show (ite _ _ _ : Option _).isSome
      split
      · rfl
      · obtain ⟨r, hr⟩ := Option.isSome_iff_exists.mp (ih j (by omega))
        rw [hr]
        rfl

/-- The search for the next task looks at one slot after the other, and stops at the first eligible one. -/
theorem probeFrom_spec (tasks : Fin n → TaskDefinition) {taskCount : Int} (hpos : 0 < taskCount)
    (hn : taskCount ≤ n) (k : Nat) (next : Int) (hnext : -1 ≤ next) :
    (probeFrom tasks taskCount k next = some ((List.range' 1 k).map (probe taskCount next), -1) ∧
        ∀ i : Nat, 1 ≤ i → i ≤ k → ¬ EligibleAt tasks (probe taskCount next i)) ∨
      ∃ i : Nat, 1 ≤ i ∧ i ≤ k ∧
        probeFrom tasks taskCount k next =
          some ((List.range' 1 i).map (probe taskCount next), probe taskCount next i) ∧
        EligibleAt tasks (probe taskCount next i) ∧
        ∀ l : Nat, 1 ≤ l → l < i → ¬ EligibleAt tasks (probe taskCount next l) :=
  probeFrom_spec_of_isSome tasks hpos k next hnext (probeFrom_isSome tasks hpos hn k next hnext)

theorem chooseFrom_spec (tasks : Fin n → TaskDefinition) {taskCount : Int} (hpos : 0 < taskCount)
    (hn : taskCount ≤ n) (k : Nat) : ∀ next : Int, -1 ≤ next →
    (chooseFrom tasks taskCount k next = some (-1) ∧
        ∀ i : Nat, 1 ≤ i → i ≤ k → ¬ EligibleAt tasks ((next + i) % taskCount)) ∨
      ∃ i : Nat, 1 ≤ i ∧ i ≤ k ∧
        chooseFrom tasks taskCount k next = some ((next + i) % taskCount) ∧
        EligibleAt tasks ((next + i) % taskCount) ∧
        ∀ l : Nat, 1 ≤ l → l < i → ¬ EligibleAt tasks ((next + l) % taskCount) := by
  intro next hnext
  rw [← probeFrom_snd]
  rcases probeFrom_spec tasks hpos hn k next hnext with ⟨hs, hall⟩ | ⟨i, h1, hk, hs, hel, hall⟩
  · rw [hs]
    exact Or.inl ⟨rfl, hall⟩
  · rw [hs]
    exact Or.inr ⟨i, h1, hk, rfl, hel, hall⟩

/-- Every slot below `task_count` is looked at within `task_count` probes. -/
theorem exists_probe {taskCount x : Int} (current : Int) (hpos : 0 < taskCount) (h0 : 0 ≤ x)
    (hx : x < taskCount) :
    ∃ i : Nat, 1 ≤ i ∧ (i : Int) ≤ taskCount ∧ (current + i) % taskCount = x := by
  have hnn : 0 ≤ (x - current - 1) % taskCount := Int.emod_nonneg _ (by omega)
  have hlt : (x - current - 1) % taskCount < taskCount := Int.emod_lt_of_pos _ hpos
  -- the distance from `current` to `x`, counted upwards from 1
  refine ⟨((x - current - 1) % taskCount).toNat + 1, by omega, by omega, ?_⟩
  have hcast : (((x - current - 1) % taskCount).toNat + 1 : Nat) =
      (x - current - 1) % taskCount + 1 := by omega
  have hsum : current + ((x - current - 1) % taskCount + 1) =
      (x - current - 1) % taskCount + (current + 1) := by ring
  rw [hcast, hsum, Int.emod_add_emod]
  have hx' : x - current - 1 + (current + 1) = x := by ring
  rw [hx', Int.emod_eq_of_lt h0 hx]

/-- `chooseNextTask` on a table of `task_count` valid slots: the cyclically first eligible slot, or
`-1` when there is none. -/
theorem chooseNextTask_spec (tasks : Fin n → TaskDefinition) {taskCount current : Int} (h0 : 0 ≤ taskCount) (hn : taskCount ≤ n)
    (hcur : -1 ≤ current) :
    (chooseNextTask tasks taskCount current = some (-1) ∧
        ∀ j : Fin n, (j : Int) < taskCount → ¬ (tasks j).Eligible) ∨
      ∃ j : Fin n, chooseNextTask tasks taskCount current = some (j : Int) ∧
        (j : Int) < taskCount ∧ (tasks j).Eligible := by
  -- with no task at all the loop makes no round
  rcases Int.lt_or_eq_of_le h0 with hpos | rfl
  · rcases chooseFrom_spec tasks hpos hn taskCount.toNat current hcur with
      ⟨hs, hall⟩ | ⟨i, -, -, hs, ⟨j, hj, he⟩, -⟩
    · refine Or.inl ⟨hs, fun j hj he => ?_⟩
      obtain ⟨i, h1, hi, hprobe⟩ := exists_probe current hpos (Int.natCast_nonneg j) hj
      apply hall i h1 (by omega)
      rw [hprobe]
      exact (eligibleAt_coe j).mpr he
    · refine Or.inr ⟨j, ?_, ?_, he⟩
      · rw [hj]
        exact hs
      · rw [hj]
        exact Int.emod_lt_of_pos _ hpos
  · exact Or.inl ⟨rfl, fun j hj => absurd hj (by omega)⟩

/-! ### The order of the slots

Between `1` and `task_count` the values `(current + l) % task_count` are pairwise different, because two
equal ones would differ by a multiple of `task_count` that is too small. From this follows everything
about the order: no slot is looked at twice, all have been when the search gives up, and the slot that was
running is the last. -/

/-- Within one round no slot comes twice. -/
theorem probe_inj {current : Int} {l l' : Nat} (hl : 1 ≤ l ∧ l ≤ n) (hl' : 1 ≤ l' ∧ l' ≤ n)
    (heq : probe n current l = probe n current l') : l = l' := by
  have hdvd : (n : Int) ∣ (current + l) - (current + l') :=
    Int.dvd_of_emod_eq_zero (Int.emod_eq_emod_iff_emod_sub_eq_zero.mp heq)
  have hsmall : |(current + l) - (current + l')| < (n : Int) := by
    rw [abs_lt]
    omega
  have := Int.eq_zero_of_abs_lt_dvd hdvd hsmall
  omega

theorem probes_nodup (current : Int) {k : Nat} (hk : k ≤ n) :
    ((List.range' 1 k).map (probe n current)).Nodup := by
  refine List.Nodup.map_on (fun l hl l' hl' heq => ?_) List.nodup_range'
  rw [List.mem_range'_1] at hl hl'
  exact probe_inj (by omega) (by omega) heq

/-- The slot that was running is the last one. -/
theorem probe_current {current : Int} (h0 : 0 ≤ current) (hlt : current < n) :
    probe n current n = current := by
  unfold probe
  rw [Int.add_emod_right, Int.emod_eq_of_lt h0 hlt]

/-- **Cyclic first fit.** `chooseNextTask` selects the first eligible slot after `current_task`, round the
circle, and `-1` when there is none. It looks at no slot twice, and gives up only when it has looked at
all; the slot that was running comes last, and slot 0 first when none was running. -/
theorem chooseNextTask_firstFit (tasks : Fin n → TaskDefinition) {current : Int} (hge : -1 ≤ current)
    (hlt : current < n) :
    ∃ probed next, probeFrom tasks n n current = some (probed, next) ∧
      chooseNextTask tasks n current = some next ∧
      ((∃ k : Nat, 1 ≤ k ∧ k ≤ n ∧ next = (current + k) % n ∧
          EligibleAt tasks ((current + k) % n) ∧
          (∀ l : Nat, 1 ≤ l → l < k → ¬ EligibleAt tasks ((current + l) % n)) ∧
          probed = (List.range' 1 k).map fun l : Nat => (current + l) % n) ∨
        next = -1 ∧ probed = (List.range' 1 n).map fun l : Nat => (current + l) % n) ∧
      (next = -1 ↔ ∀ j, ¬ (tasks j).Eligible) ∧
      probed.Nodup ∧
      (next = -1 → ∀ j : Fin n, (j : Int) ∈ probed) ∧
      (0 ≤ current → ∀ i, probed[i]? = some current → i + 1 = n) ∧
      (current = -1 → 0 < n → probed.head? = some 0) := by
  have hchoose : ∀ {probed next}, probeFrom tasks n n current = some (probed, next) →
      chooseNextTask tasks n current = some next := by
    intro probed next h
    rw [chooseNextTask, Int.toNat_natCast, ← probeFrom_snd, h]
    rfl
  -- the order in which slots are looked at, however many are
  have hlast : ∀ {k : Nat}, k ≤ n → 0 ≤ current →
      ∀ i, ((List.range' 1 k).map (probe n current))[i]? = some current → i + 1 = n := by
    intro k hk h0 i hi
    rw [List.getElem?_map] at hi
    obtain ⟨l, hl, heq⟩ := Option.map_eq_some_iff.mp hi
    obtain ⟨hik, rfl⟩ := List.getElem?_eq_some_iff.mp hl
    rw [List.length_range'] at hik
    rw [List.getElem_range'] at heq
    have hlast : 1 + 1 * i = n :=
      probe_inj (by omega) (by omega) (heq.trans (probe_current h0 hlt).symm)
    omega
  have hfirst : ∀ {k : Nat}, 1 ≤ k → current = -1 → 0 < n →
      ((List.range' 1 k).map (probe n current)).head? = some 0 := by
    rintro k hk rfl hn
    obtain ⟨k, rfl⟩ := Nat.exists_eq_add_one.mpr hk
    rw [List.range'_succ, List.map_cons, List.head?_cons]
    rfl
  -- a table without slots is searched in no round at all
  rcases Nat.eq_zero_or_pos n with rfl | hpos
  · refine ⟨[], -1, rfl, rfl, Or.inr ⟨rfl, rfl⟩, ?_, List.nodup_nil, ?_, ?_, ?_⟩
    · exact iff_of_true rfl fun j => j.elim0
    · exact fun _ j => j.elim0
    · exact fun _ i hi => absurd hi (by simp)
    · exact fun _ h => absurd h (Nat.lt_irrefl 0)
  rcases probeFrom_spec tasks (Int.natCast_pos.mpr hpos) le_rfl n current hge with
    ⟨hs, hall⟩ | ⟨k, h1, hk, hs, hel, hall⟩
  · refine ⟨_, _, hs, hchoose hs, Or.inr ⟨rfl, rfl⟩, ?_, probes_nodup current le_rfl, ?_, hlast le_rfl,
      hfirst hpos⟩
    · refine iff_of_true rfl fun j he => ?_
      obtain ⟨i, h1, hi, hprobe⟩ := exists_probe current (Int.natCast_pos.mpr hpos) (Int.natCast_nonneg j)
        (Int.ofNat_lt.mpr j.isLt)
      apply hall i h1 (by omega)
      rw [probe, hprobe]
      exact (eligibleAt_coe j).mpr he
    · intro _ j
      obtain ⟨i, h1, hi, hprobe⟩ := exists_probe current (Int.natCast_pos.mpr hpos) (Int.natCast_nonneg j)
        (Int.ofNat_lt.mpr j.isLt)
      exact List.mem_map.mpr ⟨i, List.mem_range'_1.mpr (by omega), hprobe⟩
  · have hnext : probe n current k ≠ -1 := by
      have : 0 ≤ (current + k) % (n : Int) := Int.emod_nonneg _ (by omega)
      unfold probe
      omega
    refine ⟨_, _, hs, hchoose hs, Or.inl ⟨k, h1, hk, rfl, hel, hall, rfl⟩, ?_, probes_nodup current hk, ?_,
      hlast hk, hfirst h1⟩
    · refine iff_of_false hnext fun hnone => ?_
      obtain ⟨j, -, he⟩ := hel
      exact hnone j he
    · exact fun h => absurd h hnext

/-- Three slots: slot 0 was running and now sleeps, slot 1 has finished. -/
theorem chooseNextTask_firstFit_three :
    let tasks : Fin 3 → TaskDefinition := ![⟨0, true, 20⟩, ⟨0, false, 0⟩, ⟨0, true, -10⟩]
    (-1 ≤ (0 : Int) ∧ (0 : Int) < (3 : Nat)) ∧ chooseNextTask tasks 3 0 = some 2 ∧
      ∃ probed next, probeFrom tasks 3 (3 : Nat) 0 = some (probed, next) ∧
        chooseNextTask tasks (3 : Nat) 0 = some next ∧ probed.Nodup ∧
        (next = -1 ↔ ∀ j, ¬ (tasks j).Eligible) := by
  intro tasks
  refine ⟨by decide, by decide, ?_⟩
  obtain ⟨probed, next, hprobed, hnext, -, hnone, hnodup, -⟩ :=
    chooseNextTask_firstFit tasks (by decide : -1 ≤ (0 : Int)) (by decide)
  exact ⟨probed, next, hprobed, hnext, hnodup, hnone⟩

end SmartblocksOs.System
