/-
# SmartblocksOs.Resource.Invariants -- what the `Resource`s keep

The invariants of `SmartblocksOs.Foundation.LockInvariants` for tasks whose locks are `Resource`s. As every
step of these tasks is one of the tasks with atomic locks, or none (`tasksStep_refines`), the invariants
hold in every state that can be reached, and from one such state to a later one no variable changes in a
way that is ruled out.
-/
import SmartblocksOs.Foundation.LockInvariants
import SmartblocksOs.Foundation.Runs
import SmartblocksOs.Resource.Tasks

namespace SmartblocksOs.Resource

open SmartblocksOs.Foundation

variable {ι Op X : Type} {V : X → Type} {L E : Type} [DecidableEq ι] [DecidableEq X] [DecidableEq L]
  {D : Discipline X V L E} {I : Invariants D} {Idle : List E → Prop} {body : Op → Prog X V L E Unit}
  {volatile : X → Bool} {c c' : Tasks ι X V L E}

/-- The tasks keep the discipline and the invariants. -/
structure Tasks.Keep (I : Invariants D) (Idle : List E → Prop) (c : Tasks ι X V L E)
    (owner : L → Option ι) : Prop where
  abstracts : Abstracts c owner
  sound : Sound D Idle (c.toWorld owner)
  kept : I.Kept (c.toWorld owner)

/-- What a run of such tasks needs of their operations and of the registers of the devices. -/
structure Tasks.Keeping (I : Invariants D) (Idle : List E → Prop) (body : Op → Prog X V L E Unit)
    (volatile : X → Bool) : Prop where
  disciplined : ∀ op, D.Triple [] (fun g _ => Idle g) (body op) [] fun _ g _ => Idle g
  invariant : ∀ op, I.Triple [] (fun g _ => Idle g) (body op) [] fun _ _ _ => True
  device : ∀ x, volatile x = true → D.guard x = none ∧ ∀ v v', D.may x v v'
  about : ∀ x, volatile x = true → I.about x = false

omit [DecidableEq ι] [DecidableEq X] [DecidableEq L] in
/-- A lock that no task has taken has no owner. -/
theorem Abstracts.owner_eq_none {owner : L → Option ι} (h : Abstracts c owner) {l : L}
    (hfree : ∀ t, ¬ Taken c.locks t l) : owner l = none := by
  cases howner : owner l with
  | none => rfl
  | some t => exact absurd ((h.locks.taken t l).mp howner) (hfree t)

omit [DecidableEq ι] in
/-- At the start the invariants of the free locks hold, and nobody is in an operation. -/
theorem Tasks.Initial.keep (h : c.Initial) (hidle : Idle []) (hfree : ∀ l, I.free l c.vars) :
    c.Keep I Idle fun _ => none := by
  obtain ⟨hlocks, hcode, hlog⟩ := h
  have hworld : (c.toWorld fun _ => none).Initial := ⟨fun _ => rfl, hcode, hlog⟩
  refine ⟨⟨hlocks.refines, fun t => ?_⟩, hworld.sound hidle, .initial hworld hfree⟩
  rw [hlocks.2.1 t]
  trivial

/-- Every step of the tasks keeps the invariants, with `lock()` and `unlock()` taken step by step. -/
theorem tasksStep_keep (hops : Tasks.Keeping I Idle body volatile) {owner : L → Option ι}
    (h : c.Keep I Idle owner) {a : Action ι Op V} (hst : tasksStep body volatile c a = some c') :
    (∃ owner', c'.Keep I Idle owner') ∧ ∀ x, I.may x (c.vars x) (c'.vars x) := by
  obtain ⟨owner', hworld, habs, hs⟩ :=
    tasksStep_sound hops.disciplined hops.device h.abstracts h.sound hst
  rcases hworld with hsame | hworld
  · refine ⟨⟨owner', habs, hs, ?_⟩, fun x => ?_⟩
    · rw [hsame]
      exact h.kept
    · have hvars : c'.vars = c.vars := congrArg World.vars hsame
      rw [hvars]
      exact I.may_refl x _
  · refine ⟨⟨owner', habs, hs, ?_⟩, h.kept.may_worldStep hops.about hworld⟩
    exact h.kept.worldStep hops.invariant hops.device hops.about h.sound hworld

/-- What every reachable state of such tasks is. -/
theorem Tasks.reachable_keep (hops : Tasks.Keeping I Idle body volatile) (hidle : Idle [])
    {P : Tasks ι X V L E → Prop} (hP : ∀ c, P c → c.Initial ∧ ∀ l, I.free l c.vars)
    (h : Reachable P (tasksStep body volatile) c) : ∃ owner, c.Keep I Idle owner := by
  apply h.invariant
  · intro c hc
    exact ⟨_, (hP c hc).1.keep hidle (hP c hc).2⟩
  · rintro c a c' ⟨owner, hkeep⟩ hst
    exact (tasksStep_keep hops hkeep hst).1

/-- From one such state to a later one. -/
theorem run_may (hops : Tasks.Keeping I Idle body volatile) {owner : L → Option ι}
    (h : c.Keep I Idle owner) {es : List (Action ι Op V)}
    (hrun : run (tasksStep body volatile) c es = some c') (x : X) : I.may x (c.vars x) (c'.vars x) := by
  suffices hboth : (∃ owner', c'.Keep I Idle owner') ∧ ∀ x, I.may x (c.vars x) (c'.vars x) from hboth.2 x
  refine run_preserves (I := fun d => (∃ owner', d.Keep I Idle owner') ∧ ∀ x, I.may x (c.vars x) (d.vars x))
    ?_ ⟨⟨owner, h⟩, fun x => I.may_refl x _⟩ hrun
  rintro d a d' ⟨⟨owner', hkeep⟩, hmay⟩ hst
  obtain ⟨hnext, hstep⟩ := tasksStep_keep hops hkeep hst
  exact ⟨hnext, fun x => I.may_trans x _ _ _ (hmay x) (hstep x)⟩

end SmartblocksOs.Resource
