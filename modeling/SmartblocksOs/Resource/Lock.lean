/-
# SmartblocksOs.Resource.Lock -- mutual exclusion of `Resource`

`lock()` reads `locked` without protection, reads it again with interrupts disabled, and only then
sets it; when it finds the resource taken it yields and starts over. The tasks and the resources are
arbitrary types. A step is what runs without a tick in between: one unprotected read, one block
between `cli` and `sei`, one `yield`. The tick may hand the processor to any task between two steps,
whatever the scheduler would have chosen.

The invariant is a refinement: `Refines s owner` ties the flags and the program points of all tasks
to the owner map of `SmartblocksOs.Foundation.Mutex`.
-/
import SmartblocksOs.Foundation.Mutex

namespace SmartblocksOs.Resource

open SmartblocksOs.Foundation

universe u v

/-! ## `lock` and `unlock` -/

/-- Where a task stands in `lock()` or `unlock()`. -/
inductive Phase (ρ : Type v) where
  | outside
  /-- `lock()`, at the unprotected `if(!locked)`. -/
  | test (r : ρ)
  /-- `lock()`, at the block between `cli` and `sei`. -/
  | trySet (r : ρ)
  /-- `lock()`, at `System::instance().yield()`. -/
  | yield (r : ρ)
  /-- `unlock()`, at the block between `cli` and `sei`. -/
  | clear (r : ρ)
  deriving DecidableEq

/-- The tasks and the resources: who runs, which resources are locked, and where each task stands in
`lock` and `unlock`. -/
structure LockState (ι : Type u) (ρ : Type v) where
  current : ι
  locked : ρ → Bool
  phase : ι → Phase ρ
  /-- The resources the task has acquired by `lock()` and not yet passed to `unlock()`. -/
  holds : ι → ρ → Bool

/-- What can happen between two instructions of `resource.h`. -/
inductive Event (ι : Type u) (ρ : Type v) where
  /-- A tick switches to task `t`. -/
  | tick (t : ι)
  /-- The current task calls `lock()`. -/
  | lock (r : ρ)
  /-- The current task calls `unlock()`. -/
  | unlock (r : ρ)
  /-- The next step of the call the current task is in. -/
  | advance
  /-- The current task yields, inside `lock()`, and the scheduler picks `t`. -/
  | yield (t : ι)

section

variable {ι : Type u} {ρ : Type v} [DecidableEq ι] [DecidableEq ρ]

namespace LockState

/-- The current task goes to `p`. -/
def enter (s : LockState ι ρ) (p : Phase ρ) : LockState ι ρ :=
  { s with phase := Function.update s.phase s.current p }

/-- The member `locked` of a resource. -/
def setLocked (s : LockState ι ρ) (r : ρ) (b : Bool) : LockState ι ρ :=
  { s with locked := Function.update s.locked r b }

/-- What the current task has acquired. -/
def setHolds (s : LockState ι ρ) (r : ρ) (b : Bool) : LockState ι ρ :=
  { s with
    holds := Function.update s.holds s.current (Function.update (s.holds s.current) r b) }

/-- The next step of the call the current task is in. -/
def advance (s : LockState ι ρ) : Option (LockState ι ρ) :=
  match s.phase s.current with
  | .test r => some (s.enter (if s.locked r then .yield r else .trySet r))
  | .trySet r =>
      if s.locked r then some (s.enter (.yield r))
      else some (((s.setLocked r true).setHolds r true).enter .outside)
  | .clear r => some ((s.setLocked r false).enter .outside)
  | .outside | .yield _ => none

end LockState

/-- The steps of the tasks. A tick may fall between any two of them, also between the test of `locked` and
`cli`. -/
def lockStep (s : LockState ι ρ) : Event ι ρ → Option (LockState ι ρ)
  | .tick t => some { s with current := t }
  | .lock r => if s.phase s.current = .outside then some (s.enter (.test r)) else none
  | .unlock r =>
      -- only a resource the task acquired and has not released
      if s.phase s.current = .outside ∧ s.holds s.current r = true then
        some ((s.setHolds r false).enter (.clear r))
      else none
  | .advance => s.advance
  | .yield t =>
      match s.phase s.current with
      | .yield r => some { s.enter (.test r) with current := t }
      | _ => none

/-- `volatile bool locked = false`, and no task is in `lock()` or `unlock()` yet. -/
def Initial (s : LockState ι ρ) : Prop :=
  (∀ r, s.locked r = false) ∧ (∀ t, s.phase t = .outside) ∧ ∀ t r, s.holds t r = false

/-- Task `t` has executed `locked=true` on `r` and not yet `locked=false`. -/
def Taken (s : LockState ι ρ) (t : ι) (r : ρ) : Prop :=
  s.holds t r = true ∨ s.phase t = .clear r

end

/-! ## Refinement of the owner map -/

section

variable {ι : Type u} {ρ : Type v}

/-- The owner of a resource is the task that has taken it, and `locked` says whether there is one. -/
structure Refines (s : LockState ι ρ) (owner : ρ → Option ι) : Prop where
  taken : ∀ t r, owner r = some t ↔ Taken s t r
  locked : ∀ r, s.locked r = (owner r).isSome
  clear : ∀ t r, s.phase t = .clear r → s.holds t r = false

/-- At first no resource is locked, and none has an owner. -/
theorem Initial.refines {s : LockState ι ρ} (h : Initial s) : Refines s fun _ => none := by
  obtain ⟨hl, hp, hh⟩ := h
  refine ⟨fun t r => ?_, hl, fun t r _ => hh t r⟩
  simp [Taken, hp, hh]

end

namespace Refines

variable {ι : Type u} {ρ : Type v} [DecidableEq ι] {s : LockState ι ρ} {owner : ρ → Option ι}

/-- Moving the current task between two points neither of which is in `unlock()`. -/
theorem enter (h : Refines s owner) {p : Phase ρ} (hs : ∀ r, s.phase s.current ≠ .clear r)
    (hp : ∀ r, p ≠ .clear r) : Refines (s.enter p) owner := by
  have hphase : ∀ t r, (s.enter p).phase t = .clear r ↔ s.phase t = .clear r := by
    intro t r
    by_cases ht : t = s.current
    · subst ht
      simp [LockState.enter, hs r, hp r]
    · simp [LockState.enter, ht]
  refine ⟨fun t r => ?_, h.locked, fun t r ht => h.clear t r ((hphase t r).mp ht)⟩
  rw [h.taken t r, Taken, Taken, hphase t r]
  rfl

variable [DecidableEq ρ]

/-- The call of `unlock()` by a task that holds `r`: the resource stays taken. -/
theorem unlock (h : Refines s owner) {r : ρ} (hpc : s.phase s.current = .outside)
    (hr : s.holds s.current r = true) :
    Refines ((s.setHolds r false).enter (.clear r)) owner := by
  -- `holds` goes down before `locked` does; in between, the owner is the task about to clear
  have hphase : ∀ t q, ((s.setHolds r false).enter (.clear r)).phase t = .clear q ↔
      if t = s.current then q = r else s.phase t = .clear q := by
    intro t q
    by_cases ht : t = s.current
    · subst ht
      simp [LockState.enter, LockState.setHolds, eq_comm]
    · simp [LockState.enter, LockState.setHolds, ht]
  have hholds : ∀ t q, ((s.setHolds r false).enter (.clear r)).holds t q =
      if t = s.current ∧ q = r then false else s.holds t q := by
    intro t q
    by_cases ht : t = s.current
    · subst ht
      by_cases hq : q = r <;> simp [LockState.enter, LockState.setHolds, hq]
    · simp [LockState.enter, LockState.setHolds, ht]
  refine ⟨fun t q => ?_, h.locked, fun t q hq => ?_⟩
  · rw [h.taken t q, Taken, Taken, hphase, hholds]
    by_cases ht : t = s.current
    · subst ht
      by_cases hq : q = r
      · simp [hq, hr]
      · simp [hq, hpc]
    · simp [ht]
  · rw [hphase] at hq
    rw [hholds]
    by_cases ht : t = s.current
    · rw [if_pos ht] at hq
      rw [if_pos ⟨ht, hq⟩]
    · rw [if_neg ht] at hq
      rw [if_neg fun hf => ht hf.1]
      exact h.clear t q hq

theorem acquire (h : Refines s owner) {r : ρ} (hpc : s.phase s.current = .trySet r)
    (hr : s.locked r = false) :
    Refines (((s.setLocked r true).setHolds r true).enter .outside)
      (Function.update owner r (some s.current)) := by
  have hfree : owner r = none := by
    rw [h.locked r] at hr
    simpa using hr
  have hphase : ∀ t q, (((s.setLocked r true).setHolds r true).enter .outside).phase t = .clear q ↔
      s.phase t = .clear q := by
    intro t q
    by_cases ht : t = s.current
    · subst ht
      simp [LockState.enter, LockState.setHolds, LockState.setLocked, hpc]
    · simp [LockState.enter, LockState.setHolds, LockState.setLocked, ht]
  have hholds : ∀ t q, (((s.setLocked r true).setHolds r true).enter .outside).holds t q =
      if t = s.current ∧ q = r then true else s.holds t q := by
    intro t q
    by_cases ht : t = s.current
    · subst ht
      by_cases hq : q = r <;> simp [LockState.enter, LockState.setHolds, LockState.setLocked, hq]
    · simp [LockState.enter, LockState.setHolds, LockState.setLocked, ht]
  -- nobody had taken `r` before
  have hnot : ∀ t, ¬ Taken s t r := by
    intro t ht
    rw [← h.taken t r, hfree] at ht
    exact Option.some_ne_none t ht.symm
  refine ⟨fun t q => ?_, fun q => ?_, fun t q hq => ?_⟩
  · rw [Taken, hphase, hholds]
    by_cases hq : q = r
    · subst hq
      have hnott := hnot t
      rw [Taken, not_or] at hnott
      simp [hnott.1, hnott.2, eq_comm]
    · rw [Function.update_of_ne hq, h.taken t q, Taken]
      simp [hq]
  · by_cases hq : q = r
    · subst hq
      simp [LockState.enter, LockState.setHolds, LockState.setLocked]
    · simp [LockState.enter, LockState.setHolds, LockState.setLocked, hq, h.locked q]
  · rw [hphase] at hq
    rw [hholds, if_neg]
    · exact h.clear t q hq
    · rintro ⟨-, rfl⟩
      exact hnot t (Or.inr hq)

/-- `locked=false`, by the task that has taken the resource. -/
theorem release (h : Refines s owner) {r : ρ} (hpc : s.phase s.current = .clear r) :
    owner r = some s.current ∧
      Refines ((s.setLocked r false).enter .outside) (Function.update owner r none) := by
  have howner : owner r = some s.current := (h.taken s.current r).mpr (Or.inr hpc)
  have hphase : ∀ t q, ((s.setLocked r false).enter .outside).phase t = .clear q ↔
      t ≠ s.current ∧ s.phase t = .clear q := by
    intro t q
    by_cases ht : t = s.current
    · subst ht
      simp [LockState.enter, LockState.setLocked]
    · simp [LockState.enter, LockState.setLocked, ht]
  refine ⟨howner, fun t q => ?_, fun q => ?_, fun t q hq => ?_⟩
  · rw [Taken, hphase]
    show _ ↔ s.holds t q = true ∨ _
    by_cases hq : q = r
    · subst hq
      rw [Function.update_self]
      apply iff_of_false (by simp)
      -- nobody else can have taken the lock: the only owner is the task that releases it
      rintro (hholds | ⟨hne, hclear⟩)
      · have ht : t = s.current :=
          Option.some.inj (((h.taken t q).mpr (Or.inl hholds)).symm.trans howner)
        rw [ht, h.clear s.current q hpc] at hholds
        exact Bool.false_ne_true hholds
      · exact hne (Option.some.inj (((h.taken t q).mpr (Or.inr hclear)).symm.trans howner))
    · rw [Function.update_of_ne hq, h.taken t q, Taken]
      refine or_congr_right ⟨fun hc => ⟨?_, hc⟩, fun hc => hc.2⟩
      rintro rfl
      rw [hpc, Phase.clear.injEq] at hc
      exact hq hc.symm
  · by_cases hq : q = r
    · subst hq
      simp [LockState.enter, LockState.setLocked]
    · simp [LockState.enter, LockState.setLocked, hq, h.locked q]
  · exact h.clear t q ((hphase t q).mp hq).2

end Refines

section

variable {ι : Type u} {ρ : Type v} [DecidableEq ι] [DecidableEq ρ]

/-- Every step of `lock` and `unlock` is a step of the owner map, or none. -/
theorem lockStep_refines {s s' : LockState ι ρ} {owner : ρ → Option ι} {e : Event ι ρ}
    (h : Refines s owner) (hs : lockStep s e = some s') :
    ∃ ds owner', run mutexStep owner ds = some owner' ∧ Refines s' owner' := by
  cases e with
  -- a switch changes who runs next, not who owns what
  | tick t =>
      obtain rfl := Option.some.inj hs
      exact ⟨[], owner, rfl, h.taken, h.locked, h.clear⟩
  | lock r =>
      simp only [lockStep] at hs
      split at hs
      · rename_i hpc
        obtain rfl := Option.some.inj hs
        exact ⟨[], owner, rfl, h.enter (by simp [hpc]) (by simp)⟩
      · exact absurd hs (by simp)
  | unlock r =>
      simp only [lockStep] at hs
      split at hs
      · rename_i hpc
        obtain rfl := Option.some.inj hs
        exact ⟨[], owner, rfl, h.unlock hpc.1 hpc.2⟩
      · exact absurd hs (by simp)
  | yield t =>
      simp only [lockStep] at hs
      split at hs
      · rename_i r hpc
        obtain rfl := Option.some.inj hs
        have he := h.enter (p := .test r) (by simp [hpc]) (by simp)
        exact ⟨[], owner, rfl, he.taken, he.locked, he.clear⟩
      · exact absurd hs (by simp)
  | advance =>
      simp only [lockStep, LockState.advance] at hs
      split at hs
      · rename_i r hpc
        obtain rfl := Option.some.inj hs
        refine ⟨[], owner, rfl, h.enter (by simp [hpc]) fun q => ?_⟩
        split <;> simp
      · rename_i r hpc
        split at hs
        · obtain rfl := Option.some.inj hs
          exact ⟨[], owner, rfl, h.enter (by simp [hpc]) (by simp)⟩
        · rename_i hr
          obtain rfl := Option.some.inj hs
          -- `locked` is down between `cli` and `sei`: this is where the lock is taken
          have hfree : owner r = none := by
            have := h.locked r
            simpa [hr] using this
          refine ⟨[.acquire s.current r], _, ?_, h.acquire hpc (by simpa using hr)⟩
          rw [run_cons, mutexStep_acquire hfree]
          rfl
      · rename_i r hpc
        obtain rfl := Option.some.inj hs
        -- and this is where it is released
        obtain ⟨howner, hrel⟩ := h.release hpc
        refine ⟨[.release s.current r], _, ?_, hrel⟩
        rw [run_cons, mutexStep_release howner]
        rfl
      · exact absurd hs (by simp)
      · exact absurd hs (by simp)

/-- Every run of `lock` and `unlock` is a run of the owner map. -/
theorem reachable_refines {s : LockState ι ρ} (h : Reachable Initial lockStep s) :
    ∃ ds owner, run mutexStep (fun _ => none) ds = some owner ∧ Refines s owner := by
  obtain ⟨s₀, es, hs₀, hrun⟩ := h
  exact run_simulates (fun _ _ _ _ hr hst => lockStep_refines hr hst) hs₀.refines hrun

/-- **Mutual exclusion of `Resource`.** In every reachable state at most one task is between the
return of `lock()` and its call of `unlock()` on a resource, and `locked` is true exactly when some
task has executed `locked=true` and not yet `locked=false`. -/
theorem resource_mutual_exclusion {s : LockState ι ρ} (h : Reachable Initial lockStep s) :
    (∀ r t t', s.holds t r = true → s.holds t' r = true → t = t') ∧
      ∀ r, s.locked r = true ↔ ∃ t, Taken s t r := by
  obtain ⟨-, owner, -, href⟩ := reachable_refines h
  refine ⟨fun r t t' ht ht' => ?_, fun r => ?_⟩
  · have h1 := (href.taken t r).mpr (Or.inl ht)
    have h2 := (href.taken t' r).mpr (Or.inl ht')
    exact Option.some.inj (h1.symm.trans h2)
  · rw [href.locked r, Option.isSome_iff_exists]
    exact exists_congr fun t => href.taken t r

end

/-- Two tasks compete for one resource: the second one reads `locked` before the first one sets it,
finds it set under `cli`, and yields. -/
theorem resource_mutual_exclusion_contended :
    ∃ s : LockState Nat Unit,
      run lockStep ⟨0, fun _ => false, fun _ => .outside, fun _ _ => false⟩
        [.lock (), .tick 1, .lock (), .advance, .tick 0, .advance, .advance, .tick 1, .advance,
          .yield 0, .unlock ()] = some s ∧
      (∀ r t t', s.holds t r = true → s.holds t' r = true → t = t') ∧
        ∀ r, s.locked r = true ↔ ∃ t, Taken s t r := by
  have hrun : (run lockStep (⟨0, fun _ => false, fun _ => .outside, fun _ _ => false⟩ :
      LockState Nat Unit) [.lock (), .tick 1, .lock (), .advance, .tick 0, .advance, .advance,
        .tick 1, .advance, .yield 0, .unlock ()]).isSome = true := by decide
  obtain ⟨s, hs⟩ := Option.isSome_iff_exists.mp hrun
  have hinit : Initial (⟨0, fun _ => false, fun _ => .outside, fun _ _ => false⟩ :
      LockState Nat Unit) := ⟨fun _ => rfl, fun _ => rfl, fun _ _ => rfl⟩
  exact ⟨s, hs, resource_mutual_exclusion ⟨_, _, hinit, hs⟩⟩

end SmartblocksOs.Resource
