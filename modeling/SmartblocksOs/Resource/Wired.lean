/-
# SmartblocksOs.Resource.Wired -- the tasks and a device that reacts to them

The tasks of `SmartblocksOs.Resource.Tasks`, wired to a device: what a task stores into its registers the
device answers before the next step is taken, whichever task takes that (`wiredStep`). The other registers
still change by themselves.

Each step is one of the tasks with atomic locks next to the device, or none (`wiredAdvance_refines`), so
the phases of `SmartblocksOs.Foundation.Typestate` are those of the tasks here in every state that can be
reached (`reachable_wired`).

The device is part of the state here and not a parameter of the programs. A program does not know that a
store has a side effect; it is `wiredStep` that lets the device answer in the same step, because the
hardware is through with a command before the next instruction is executed.
-/
import SmartblocksOs.Foundation.Typestate
import SmartblocksOs.Resource.Invariants

namespace SmartblocksOs.Resource

open SmartblocksOs.Foundation

variable {ι Op X Φ Dev : Type} {V : X → Type} {L E : Type}

/-! ## The steps

A task that starts an operation and a register that changes by itself do not concern the device. -/

section

variable [DecidableEq ι] [DecidableEq X] [DecidableEq L]

/-- One step of tasks that are wired to a device. -/
def wiredStep (react : Reaction V Dev) (body : Op → Prog X V L E Unit) (volatile : X → Bool)
    (cd : Tasks ι X V L E × Dev) : Action ι Op V → Option (Tasks ι X V L E × Dev)
  | .start t op => (tasksStep body volatile cd.1 (.start t op)).map fun c => (c, cd.2)
  | .device x v => (tasksStep body volatile cd.1 (.device x v)).map fun c => (c, cd.2)
  | .advance t =>
      (cd.1.advance t).map fun c =>
        let r := (cd.1.code t).reacted react (c.vars, cd.2)
        ({ c with vars := r.1 }, r.2)

variable {D : Discipline X V L E} {Idle : List E → Prop} {react : Reaction V Dev}
  {body : Op → Prog X V L E Unit} {volatile : X → Bool} {c c' : Tasks ι X V L E} {d d' : Dev}
  {owner : L → Option ι}

/-- A step of a task is one of the tasks with atomic locks and of the device, or none. -/
theorem wiredAdvance_refines (h : Abstracts c owner) (hs : Sound D Idle (c.toWorld owner)) {t : ι}
    (hst : wiredStep react body volatile (c, d) (.advance t) = some (c', d')) :
    ∃ owner', (c'.toWorld owner' = c.toWorld owner ∧ d' = d ∨
        Custody.advanceWired react (c.toWorld owner) d t = some (c'.toWorld owner', d')) ∧
      Abstracts c' owner' := by
  obtain ⟨c₁, hc₁, heq⟩ := Option.map_eq_some_iff.mp hst
  obtain ⟨rfl, rfl⟩ := Prod.mk.inj heq
  have htasks : tasksStep body volatile c (.advance t) = some c₁ := hc₁
  obtain ⟨owner', hworld, habs⟩ := tasksStep_refines h hs htasks
  refine ⟨owner', ?_, habs.locks, habs.phase⟩
  rcases hworld with hsame | hworld
  · left
    cases hcode : c.code t with
    | store x v k =>
        -- a store is a step
        have hnext : c₁.code t = k := by
          rw [Tasks.advance, hcode] at hc₁
          obtain ⟨r, hact, rfl⟩ := Option.map_eq_some_iff.mp hc₁
          cases hact
          exact Function.update_self ..
        have hstays : c₁.code t = c.code t := congrFun (congrArg World.code hsame) t
        rw [hcode, hnext] at hstays
        cases hstays
    | ret _ | load _ _ | lock _ _ | unlock _ _ | pause _ | observe _ _ | loop _ _ =>
        exact ⟨hsame, rfl⟩
  · right
    replace hworld : (c.toWorld owner).advance t = some (c₁.toWorld owner') := hworld
    rw [Custody.advanceWired, hworld]
    rfl

omit [DecidableEq ι] in
/-- What the device does to its registers disturbs no task. -/
theorem Sound.reacted {w : World ι X V L E} (h : Sound D Idle w) {s : Store V}
    (hs : ∀ y, s y = w.vars y ∨ D.guard y = none ∧ ∀ v v', D.may y v v') :
    Sound D Idle { w with vars := s } := by
  intro t
  obtain ⟨held, ht⟩ := h t
  refine ⟨held, ht.frame rfl rfl (fun _ => Iff.rfl) fun y => ?_⟩
  show D.may y (w.vars y) (s y) ∧ _
  rcases hs y with hy | ⟨hguard, hmay⟩
  · rw [hy]
    exact ⟨D.may_refl y _, fun _ _ _ => hy⟩
  · refine ⟨hmay _ _, fun l hl => ?_⟩
    rw [hguard] at hl
    exact absurd hl.symm (Option.some_ne_none l)

end

/-! ## Every reachable state

`Wiring` collects what has to be shown of the operations of a concrete system: that they keep the
discipline, that they keep to the typestate, and that device and discipline do not get into each other's
way. -/

section

variable [DecidableEq X] [DecidableEq L] {D : Discipline X V L E} {T : Typestate X V L E Φ}

/-- What a run of tasks that are wired to the device of a controller needs. -/
structure Wiring (D : Discipline X V L E) (Idle : List E → Prop) (C : Custody T Dev)
    (body : Op → Prog X V L E Unit) (volatile : X → Bool) : Prop where
  disciplined : ∀ op, D.Triple [] (fun g _ => Idle g) (body op) [] fun _ g _ => Idle g
  follows : ∀ op, T.Follows T.start (body op) T.start
  device : ∀ x, volatile x = true → D.guard x = none ∧ ∀ v v', D.may x v v'
  apart : ∀ x, volatile x = true → C.owned x = false
  registers : ∀ x s y, (C.react x s).1 y = s.1 y ∨ D.guard y = none ∧ ∀ v v', D.may y v v'

/-- The tasks keep the discipline, and each is in its phase. -/
structure Tasks.Wired (D : Discipline X V L E) (Idle : List E → Prop) (C : Custody T Dev)
    (c : Tasks ι X V L E) (d : Dev) (owner : L → Option ι) (phase : ι → Φ) : Prop where
  abstracts : Abstracts c owner
  sound : Sound D Idle (c.toWorld owner)
  phased : C.Phased (c.toWorld owner) d phase

variable {Idle : List E → Prop} {C : Custody T Dev} {body : Op → Prog X V L E Unit}
  {volatile : X → Bool} {c c' : Tasks ι X V L E} {d d' : Dev} {owner : L → Option ι} {phase : ι → Φ}

/-- At the start the tasks run nothing, and the bus is free. -/
theorem Tasks.Initial.wired (h : c.Initial) (hidle : Idle []) (hfree : C.free c.vars d) :
    c.Wired D Idle C d (fun _ => none) fun _ => T.start := by
  obtain ⟨hlocks, hcode, hlog⟩ := h
  have hworld : (c.toWorld fun _ => none).Initial := ⟨fun _ => rfl, hcode, hlog⟩
  refine ⟨⟨hlocks.refines, fun t => ?_⟩, hworld.sound hidle, .initial hworld hfree⟩
  rw [hlocks.2.1 t]
  trivial

/-- While no task has taken the controller, it is in order. -/
theorem Tasks.Wired.free (h : c.Wired D Idle C d owner phase) (hfree : ∀ t, ¬ Taken c.locks t C.master) :
    C.free c.vars d :=
  h.phased.free (h.abstracts.owner_eq_none hfree)

/-- Else one task is at work on it. -/
theorem Tasks.Wired.free_or_busy (h : c.Wired D Idle C d owner phase) :
    C.free c.vars d ∨ ∃ t, T.holds (phase t) C.master ∧ C.Busy (phase t) (c.code t) c.vars d := by
  cases howner : owner C.master with
  | none => exact Or.inl (h.phased.free howner)
  | some t =>
      have hheld := (h.phased.owner C.master t).mp howner
      exact Or.inr ⟨t, hheld, (h.phased.tasks t).busy hheld⟩

variable [DecidableEq ι]

/-- Every step keeps the proofs of the tasks, and the bus where the phase of its holder says. -/
theorem wiredStep_keep (hops : Wiring D Idle C body volatile) (h : c.Wired D Idle C d owner phase)
    {a : Action ι Op V} (hst : wiredStep C.react body volatile (c, d) a = some (c', d')) :
    ∃ owner' phase', c'.Wired D Idle C d' owner' phase' := by
  cases a with
  | start t op =>
      obtain ⟨c₁, hc₁, heq⟩ := Option.map_eq_some_iff.mp hst
      obtain ⟨rfl, rfl⟩ := Prod.mk.inj heq
      obtain ⟨owner', hworld, habs, hs⟩ :=
        tasksStep_sound hops.disciplined hops.device h.abstracts h.sound hc₁
      rcases hworld with hsame | hworld
      -- a step that the world does not see
      · exact ⟨owner', phase, habs, hs, hsame ▸ h.phased⟩
      · refine ⟨owner', phase, habs, hs, ?_⟩
        simp only [worldStep] at hworld
        split at hworld
        · rename_i hcode
          rw [← Option.some.inj hworld]
          exact h.phased.start hcode (hops.follows op)
        · cases hworld
  | device x v =>
      obtain ⟨c₁, hc₁, heq⟩ := Option.map_eq_some_iff.mp hst
      obtain ⟨rfl, rfl⟩ := Prod.mk.inj heq
      obtain ⟨owner', hworld, habs, hs⟩ :=
        tasksStep_sound hops.disciplined hops.device h.abstracts h.sound hc₁
      rcases hworld with hsame | hworld
      · exact ⟨owner', phase, habs, hs, hsame ▸ h.phased⟩
      · refine ⟨owner', phase, habs, hs, ?_⟩
        simp only [worldStep] at hworld
        split at hworld
        · rename_i hx
          rw [← Option.some.inj hworld]
          refine h.phased.congr fun y hy => Function.update_of_ne ?_ v _
          -- what the hardware stores to is not in custody
          rintro rfl
          rw [hops.apart _ hx] at hy
          cases hy
        · cases hworld
  | advance t =>
      obtain ⟨owner', hworld, habs⟩ := wiredAdvance_refines h.abstracts h.sound hst
      rcases hworld with ⟨hsame, rfl⟩ | hworld
      · exact ⟨owner', phase, habs, hsame ▸ h.sound, hsame ▸ h.phased⟩
      · obtain ⟨phase', hphased⟩ := h.phased.advance hworld
        refine ⟨owner', phase', habs, ?_, hphased⟩
        obtain ⟨w, hw, heq⟩ := Option.map_eq_some_iff.mp hworld
        rw [← (Prod.mk.inj heq).1]
        -- the device reacts to the step in registers that no task shares
        apply Sound.reacted
        · exact worldStep_sound (a := .advance t) hops.disciplined hops.device h.sound hw
        · intro y
          unfold Prog.reacted
          split
          · exact hops.registers _ _ y
          · exact Or.inl rfl

/-- What every reachable state of such tasks is. -/
theorem reachable_wired (hops : Wiring D Idle C body volatile) (hidle : Idle [])
    {P : Tasks ι X V L E × Dev → Prop} (hP : ∀ c d, P (c, d) → c.Initial ∧ C.free c.vars d)
    (h : Reachable P (wiredStep C.react body volatile) (c, d)) :
    ∃ owner phase, c.Wired D Idle C d owner phase := by
  refine h.invariant (I := fun cd => ∃ owner phase, cd.1.Wired D Idle C cd.2 owner phase) ?_ ?_
  · rintro ⟨c, d⟩ hc
    exact ⟨_, _, (hP c d hc).1.wired hidle (hP c d hc).2⟩
  · rintro ⟨c, d⟩ a ⟨c', d'⟩ ⟨owner, phase, hwired⟩ hst
    exact wiredStep_keep hops hwired hst

end

end SmartblocksOs.Resource
