/-
# SmartblocksOs.Resource.Tasks -- programs whose locks are `Resource`s

The same programs as in `SmartblocksOs.Foundation.Locking`, with `lock()` and `unlock()` taken apart
into the steps of `SmartblocksOs.Resource.Lock`: a task that wants a resource tests `locked`, tests it
again between `cli` and `sei`, yields, and starts over, and `unlock()` clears `locked` whoever calls
it. As long as the tasks keep a discipline, this system refines the one with atomic locks
(`tasksStep_refines`), so what is known of the latter holds here.

The refinement goes in one direction only and stutters: a step of `lock()` that tests the flag, or yields,
is no step of the system above, and the store of `locked = true` between `cli` and `sei` is the step that
takes the lock. It needs the discipline in one place. `unlock()` clears the flag without a look at who has
set it, so that it is the release of a lock only if the caller holds it, which the discipline guarantees.
-/
import SmartblocksOs.Foundation.Locking
import SmartblocksOs.Resource.Lock

namespace SmartblocksOs.Resource

open SmartblocksOs.Foundation

variable {ι Op X : Type} {V : X → Type} {L E : Type}

/-- The tasks of the board with the resources of `resource.h`: the same as a `World`, but with the steps
of `lock` and `unlock` in place of one that takes a lock at once. -/
structure Tasks (ι X : Type) (V : X → Type) (L E : Type) where
  vars : Store V
  locks : LockState ι L
  code : ι → Prog X V L E Unit
  log : ι → List E

namespace Tasks

section

variable [DecidableEq ι] [DecidableEq X] [DecidableEq L]

/-- Task `t` has `p` left to do. -/
def goto (c : Tasks ι X V L E) (t : ι) (p : Prog X V L E Unit) : Tasks ι X V L E :=
  { c with code := Function.update c.code t p }

/-- The next step of task `t`. -/
def advance (c : Tasks ι X V L E) (t : ι) : Option (Tasks ι X V L E) :=
  let locks := { c.locks with current := t }
  match c.code t with
  | .lock l k =>
      match locks.phase t with
      | .test _ | .trySet _ =>
          locks.advance.map fun locks =>
            -- `lock()` returns once it has set `locked`
            if locks.phase t = .outside then { c.goto t k with locks := locks }
            else { c with locks := locks }
      | _ => some { c with locks := locks.enter (.test l) }
  | .unlock l k =>
      match locks.phase t with
      | .clear _ => locks.advance.map fun locks => { c.goto t k with locks := locks }
      | _ => some { c with locks := (locks.setHolds l false).enter (.clear l) }
  | p =>
      (p.act c.vars (c.log t)).map fun r =>
        { c.goto t r.1 with vars := r.2.1, log := Function.update c.log t r.2.2 }

end

/-- No task has started an operation yet, and no resource is locked. -/
def Initial (c : Tasks ι X V L E) : Prop :=
  Resource.Initial c.locks ∧ (∀ t, c.code t = .ret ()) ∧ ∀ t, c.log t = []

/-- Task `t` is spinning in `lock()` on resource `l`. -/
def Spinning (c : Tasks ι X V L E) (t : ι) (l : L) : Prop :=
  c.locks.phase t = .test l ∨ c.locks.phase t = .trySet l ∨ c.locks.phase t = .yield l

/-- Task `t` is spinning on a resource that task `u` has taken. -/
def WaitsFor (c : Tasks ι X V L E) (t u : ι) : Prop :=
  ∃ l, c.Spinning t l ∧ Taken c.locks u l

/-- The same tasks, with the owners of the resources in place of the flags. -/
def toWorld (c : Tasks ι X V L E) (owner : L → Option ι) : World ι X V L E :=
  { vars := c.vars, owner := owner, code := c.code, log := c.log }

end Tasks

/-- A task starts an operation, or takes its next step, in or out of `lock` and `unlock`; or a register
changes by itself. -/
def tasksStep [DecidableEq ι] [DecidableEq X] [DecidableEq L] (body : Op → Prog X V L E Unit)
    (volatile : X → Bool) (c : Tasks ι X V L E) : Action ι Op V → Option (Tasks ι X V L E)
  | .start t op =>
      match c.code t with
      | .ret _ => some (c.goto t (body op))
      | _ => none
  | .advance t => c.advance t
  | .device x v => if volatile x then some { c with vars := Function.update c.vars x v } else none

/-! ## The logs

The notes are kept for each task. What is said about interleavings is said about these logs, so that no
order between the notes of different tasks is needed. -/

section

variable [DecidableEq ι] [DecidableEq X] [DecidableEq L] {c c' : Tasks ι X V L E}

/-- A step of a task makes one note at most, in the log of the task. -/
theorem Tasks.advance_log {t : ι} (hst : c.advance t = some c') :
    c'.log = c.log ∨ ∃ e, c'.log = Function.update c.log t (c.log t ++ [e]) := by
  rw [Tasks.advance] at hst
  cases hcode : c.code t with
  -- the steps of `lock()` and `unlock()` note nothing
  | lock l k =>
      rw [hcode] at hst
      dsimp only at hst
      apply Or.inl
      split at hst
      · obtain ⟨locks, -, rfl⟩ := Option.map_eq_some_iff.mp hst
        split
        · rfl
        · rfl
      · obtain ⟨locks, -, rfl⟩ := Option.map_eq_some_iff.mp hst
        split
        · rfl
        · rfl
      · obtain rfl := Option.some.inj hst
        rfl
  | unlock l k =>
      rw [hcode] at hst
      dsimp only at hst
      apply Or.inl
      split at hst
      · obtain ⟨locks, -, rfl⟩ := Option.map_eq_some_iff.mp hst
        rfl
      · obtain rfl := Option.some.inj hst
        rfl
  -- one note at most
  | ret _ | load _ _ | store _ _ _ | pause _ | observe _ _ | loop _ _ =>
      rw [hcode] at hst
      obtain ⟨⟨p, s, g⟩, hact, rfl⟩ := Option.map_eq_some_iff.mp hst
      rcases Prog.act_log hact with rfl | ⟨e, rfl⟩
      · exact Or.inl (Function.update_eq_self t c.log)
      · exact Or.inr ⟨e, rfl⟩

/-- A step adds one note to the log of the task that takes it, or none. -/
theorem tasksStep_log {body : Op → Prog X V L E Unit} {volatile : X → Bool} {a : Action ι Op V}
    (hst : tasksStep body volatile c a = some c') :
    c'.log = c.log ∨
      ∃ t e, a = .advance t ∧ c'.log = Function.update c.log t (c.log t ++ [e]) := by
  cases a with
  | start t op =>
      simp only [tasksStep] at hst
      split at hst
      · obtain rfl := Option.some.inj hst
        exact Or.inl rfl
      · cases hst
  | device x v =>
      simp only [tasksStep] at hst
      split at hst
      · obtain rfl := Option.some.inj hst
        exact Or.inl rfl
      · cases hst
  | advance t =>
      rcases Tasks.advance_log hst with hlog | ⟨e, hlog⟩
      · exact Or.inl hlog
      · exact Or.inr ⟨t, e, rfl, hlog⟩

end

/-! ## The refinement

The abstraction forgets the flags and the places inside `lock()` and `unlock()`, and knows the owners
instead. A task in the middle of either is still at that action of its program (`PhaseFits`). -/

/-- A task in `lock()` or `unlock()` is at that call in its program. -/
def PhaseFits : Phase L → Prog X V L E Unit → Prop
  | .outside, _ => True
  | .test l, p | .trySet l, p | .yield l, p => ∃ k, p = .lock l k
  | .clear l, p => ∃ k, p = .unlock l k

/-- `owner` says who has taken which resource. -/
structure Abstracts (c : Tasks ι X V L E) (owner : L → Option ι) : Prop where
  locks : Refines c.locks owner
  phase : ∀ t, PhaseFits (c.locks.phase t) (c.code t)

/-- Who runs has nothing to do with who owns what. -/
theorem Refines.setCurrent {s : LockState ι L} {owner : L → Option ι} (h : Refines s owner)
    (t : ι) : Refines { s with current := t } owner :=
  ⟨h.taken, h.locked, h.clear⟩

/-- A task that is about to take a lock is not in the middle of giving one back. -/
theorem PhaseFits.lock {l : L} {k p : Prog X V L E Unit} {ph : Phase L} (h : PhaseFits ph p)
    (hp : p = .lock l k) : ∀ r, ph ≠ .clear r := by
  rintro r rfl
  obtain ⟨k', hk'⟩ := h
  rw [hp] at hk'
  cases hk'

/-- A task that is at neither is outside both. -/
theorem PhaseFits.outside {p : Prog X V L E Unit} {ph : Phase L} (h : PhaseFits ph p)
    (hlock : ∀ l k, p ≠ .lock l k) (hunlock : ∀ l k, p ≠ .unlock l k) : ph = .outside := by
  cases ph with
  | outside => rfl
  | test l | trySet l | yield l =>
      obtain ⟨k, hk⟩ := h
      exact absurd hk (hlock l k)
  | clear l =>
      obtain ⟨k, hk⟩ := h
      exact absurd hk (hunlock l k)

section

variable [DecidableEq ι] {c : Tasks ι X V L E} {owner : L → Option ι}

/-- A step of task `t`: where it stands in `lock()` or `unlock()` and its program may change, those of
the others do not. -/
theorem Abstracts.update (h : Abstracts c owner) {t : ι} {p : Prog X V L E Unit} {q : Phase L}
    (hfits : PhaseFits q p) (u : ι) :
    PhaseFits (Function.update c.locks.phase t q u) (Function.update c.code t p u) := by
  by_cases hu : u = t
  · subst hu
    rw [Function.update_self, Function.update_self]
    exact hfits
  · rw [Function.update_of_ne hu, Function.update_of_ne hu]
    exact h.phase u

/-- A step inside `lock()` that does not set `locked`. -/
theorem Abstracts.spin (h : Abstracts c owner) {t : ι} {l : L} {k : Prog X V L E Unit}
    (hcode : c.code t = .lock l k) {ph : Phase L} (hph : PhaseFits ph (c.code t)) :
    Abstracts { c with locks := { c.locks with current := t }.enter ph } owner := by
  refine ⟨?_, fun u => ?_⟩
  · exact (h.locks.setCurrent t).enter ((h.phase t).lock hcode) (hph.lock hcode)
  · have hu := h.update (t := t) hph u
    rw [Function.update_eq_self] at hu
    exact hu

variable [DecidableEq X] [DecidableEq L] {D : Discipline X V L E} {Idle : List E → Prop}
  {body : Op → Prog X V L E Unit} {volatile : X → Bool}

theorem advance_lock_refines (h : Abstracts c owner) {t : ι} {l : L} {k : Prog X V L E Unit}
    (hcode : c.code t = .lock l k) {c' : Tasks ι X V L E} (hst : c.advance t = some c') :
    ∃ owner', (c'.toWorld owner' = c.toWorld owner ∨
        worldStep body volatile (c.toWorld owner) (.advance t) = some (c'.toWorld owner')) ∧
      Abstracts c' owner' := by
  have hfits := h.phase t
  rw [Tasks.advance, hcode] at hst
  dsimp only at hst
  split at hst
  · -- at `if(!locked)`
    rename_i r hph
    replace hph : c.locks.phase t = .test r := hph
    rw [hph] at hfits
    simp only [LockState.advance, hph, Option.map_some] at hst
    -- the test alone does not take the lock
    rw [if_neg] at hst
    · obtain rfl := Option.some.inj hst
      refine ⟨owner, Or.inl rfl, h.spin hcode ?_⟩
      split
      · exact hfits
      · exact hfits
    · simp only [LockState.enter, Function.update_self]
      split
      · simp
      · simp
  · -- between `cli` and `sei`
    rename_i r hph
    replace hph : c.locks.phase t = .trySet r := hph
    rw [hph] at hfits
    obtain ⟨k', hk'⟩ := hfits
    rw [hcode] at hk'
    cases hk'
    simp only [LockState.advance, hph] at hst
    split at hst
    · rw [Option.map_some, if_neg (by simp [LockState.enter])] at hst
      obtain rfl := Option.some.inj hst
      exact ⟨owner, Or.inl rfl, h.spin hcode ⟨k, hcode⟩⟩
    · rename_i hlocked
      -- the lock was free: it is taken, and the call returns
      have hret : ((({ c.locks with current := t }.setLocked l true).setHolds l true).enter
          .outside).phase t = .outside := Function.update_self ..
      rw [Option.map_some, if_pos hret] at hst
      obtain rfl := Option.some.inj hst
      have hfree : owner l = none := by
        have := h.locks.locked l
        simpa [hlocked] using this
      have hacq := (h.locks.setCurrent t).acquire hph (by simpa using hlocked)
      refine ⟨Function.update owner l (some t), Or.inr ?_, hacq, h.update trivial⟩
      simp [worldStep, World.advance, Tasks.toWorld, hcode, mutexStep_acquire hfree, World.goto,
        Tasks.goto]
  · -- at the call, or after `yield`
    obtain rfl := Option.some.inj hst
    exact ⟨owner, Or.inl rfl, h.spin hcode ⟨k, hcode⟩⟩

theorem advance_unlock_refines (h : Abstracts c owner) (hs : Sound D Idle (c.toWorld owner)) {t : ι}
    {l : L} {k : Prog X V L E Unit} (hcode : c.code t = .unlock l k) {c' : Tasks ι X V L E}
    (hst : c.advance t = some c') :
    ∃ owner', (c'.toWorld owner' = c.toWorld owner ∨
        worldStep body volatile (c.toWorld owner) (.advance t) = some (c'.toWorld owner')) ∧
      Abstracts c' owner' := by
  have hfits := h.phase t
  have howner : owner l = some t := hs.owner_of_unlock hcode
  rw [Tasks.advance, hcode] at hst
  dsimp only at hst
  split at hst
  · rename_i r hph
    replace hph : c.locks.phase t = .clear r := hph
    rw [hph] at hfits
    obtain ⟨k', hk'⟩ := hfits
    rw [hcode] at hk'
    cases hk'
    simp only [LockState.advance, hph, Option.map_some] at hst
    obtain rfl := Option.some.inj hst
    obtain ⟨-, hrel⟩ := (h.locks.setCurrent t).release hph
    refine ⟨Function.update owner l none, Or.inr ?_, hrel, h.update trivial⟩
    simp [worldStep, World.advance, Tasks.toWorld, hcode, mutexStep_release howner, World.goto,
      Tasks.goto]
  · rename_i hph
    obtain rfl := Option.some.inj hst
    -- the caller has taken the resource, and is not in `unlock()` yet
    have hout : c.locks.phase t = .outside := by
      cases hpc : c.locks.phase t with
      | outside => rfl
      | test r | trySet r | yield r =>
          rw [hpc] at hfits
          obtain ⟨k', hk'⟩ := hfits
          rw [hcode] at hk'
          cases hk'
      | clear r => exact absurd hpc (hph r)
    have hholds : c.locks.holds t l = true := by
      rcases (h.locks.taken t l).mp howner with hh | hc
      · exact hh
      · rw [hout] at hc
        cases hc
    refine ⟨owner, Or.inl rfl, (h.locks.setCurrent t).unlock hout hholds, fun u => ?_⟩
    have hu := h.update (t := t) (q := .clear l) ⟨k, rfl⟩ u
    rw [← hcode, Function.update_eq_self] at hu
    exact hu

/-- Every step of tasks that keep a discipline is a step of the tasks with atomic locks, or none. -/
theorem tasksStep_refines (h : Abstracts c owner) (hs : Sound D Idle (c.toWorld owner))
    {a : Action ι Op V} {c' : Tasks ι X V L E} (hst : tasksStep body volatile c a = some c') :
    ∃ owner', (c'.toWorld owner' = c.toWorld owner ∨
        worldStep body volatile (c.toWorld owner) a = some (c'.toWorld owner')) ∧
      Abstracts c' owner' := by
  cases a with
  | start t op =>
      simp only [tasksStep] at hst
      split at hst
      · rename_i hcode
        obtain rfl := Option.some.inj hst
        -- a task that is done is in no lock operation
        have hout := (h.phase t).outside (by simp [hcode]) (by simp [hcode])
        refine ⟨owner, Or.inr ?_, h.locks, fun u => ?_⟩
        · simp [worldStep, Tasks.toWorld, hcode, World.goto, Tasks.goto]
        · have hu := h.update (t := t) (q := .outside) (p := body op) trivial u
          rw [← hout, Function.update_eq_self] at hu
          exact hu
      · exact absurd hst (by simp)
  | device x v =>
      simp only [tasksStep] at hst
      split at hst
      · rename_i hx
        obtain rfl := Option.some.inj hst
        refine ⟨owner, Or.inr ?_, h.locks, h.phase⟩
        simp [worldStep, hx, Tasks.toWorld]
      · exact absurd hst (by simp)
  | advance t =>
      replace hst : c.advance t = some c' := hst
      cases hcode : c.code t with
      | lock l k => exact advance_lock_refines h hcode hst
      | unlock l k => exact advance_unlock_refines h hs hcode hst
      | ret _ | load _ _ | store _ _ _ | pause _ | observe _ _ | loop _ _ =>
          -- neither is one at any other action
          have hout := (h.phase t).outside (by simp [hcode]) (by simp [hcode])
          rw [Tasks.advance, hcode] at hst
          obtain ⟨⟨p, s, g⟩, hact, rfl⟩ := Option.map_eq_some_iff.mp hst
          refine ⟨owner, Or.inr ?_, h.locks, fun u => ?_⟩
          · simp only [worldStep, World.advance, Tasks.toWorld, hcode, hact]
            rfl
          · have hu := h.update (t := t) (q := .outside) (p := p) trivial u
            rw [← hout, Function.update_eq_self] at hu
            exact hu

/-- The same of tasks whose operations keep the discipline, which go on keeping it. -/
theorem tasksStep_sound
    (hbody : ∀ op, D.Triple [] (fun g _ => Idle g) (body op) [] fun _ g _ => Idle g)
    (hdevice : ∀ x, volatile x = true → D.guard x = none ∧ ∀ v v', D.may x v v')
    (h : Abstracts c owner) (hs : Sound D Idle (c.toWorld owner)) {a : Action ι Op V}
    {c' : Tasks ι X V L E} (hst : tasksStep body volatile c a = some c') :
    ∃ owner', (c'.toWorld owner' = c.toWorld owner ∨
        worldStep body volatile (c.toWorld owner) a = some (c'.toWorld owner')) ∧
      Abstracts c' owner' ∧ Sound D Idle (c'.toWorld owner') := by
  obtain ⟨owner', hworld, habs⟩ := tasksStep_refines h hs hst
  refine ⟨owner', hworld, habs, ?_⟩
  rcases hworld with hsame | hworld
  · rw [hsame]
    exact hs
  · exact worldStep_sound hbody hdevice hs hworld

/-- What every reachable state of tasks that keep a discipline is. -/
theorem Tasks.reachable_sound
    (hbody : ∀ op, D.Triple [] (fun g _ => Idle g) (body op) [] fun _ g _ => Idle g)
    (hdevice : ∀ x, volatile x = true → D.guard x = none ∧ ∀ v v', D.may x v v')
    (hidle : Idle []) {P : Tasks ι X V L E → Prop} (hP : ∀ c, P c → c.Initial)
    (h : Reachable P (tasksStep body volatile) c) :
    ∃ owner, Abstracts c owner ∧ Sound D Idle (c.toWorld owner) := by
  apply h.invariant
  · intro c hc
    obtain ⟨hlocks, hcode, hlog⟩ := hP c hc
    refine ⟨fun _ => none, ⟨hlocks.refines, fun t => ?_⟩, ?_⟩
    · rw [hlocks.2.1 t]
      trivial
    · exact World.Initial.sound ⟨fun _ => rfl, hcode, hlog⟩ hidle
  · rintro c a c' ⟨owner, habs, hs⟩ hst
    obtain ⟨owner', -, hnext⟩ := tasksStep_sound hbody hdevice habs hs hst
    exact ⟨owner', hnext⟩

end

/-! ## What it gives

The results of `SmartblocksOs.Foundation.Locking`, read back in terms of tasks that spin. -/

section

variable {c : Tasks ι X V L E} {owner : L → Option ι}

/-- A task that is spinning is at a lock in its program. -/
theorem Abstracts.spinning (h : Abstracts c owner) {t : ι} {l : L} (hspin : c.Spinning t l) :
    ∃ k, c.code t = .lock l k := by
  have hfits := h.phase t
  rcases hspin with hph | hph | hph
  · rw [hph] at hfits
    exact hfits
  · rw [hph] at hfits
    exact hfits
  · rw [hph] at hfits
    exact hfits

/-- Who waits for whom is the same in the two systems. -/
theorem Abstracts.waitsFor (h : Abstracts c owner) {t u : ι} (hwait : c.WaitsFor t u) :
    (c.toWorld owner).WaitsFor t u := by
  obtain ⟨l, hspin, htaken⟩ := hwait
  obtain ⟨k, hcode⟩ := h.spinning hspin
  exact ⟨l, k, hcode, (h.locks.taken u l).mpr htaken⟩

variable [DecidableEq X] [DecidableEq L] {D : Discipline X V L E} {Idle : List E → Prop}

/-- No task waits, through whatever chain of spinning tasks, for itself. -/
theorem Abstracts.not_circular (h : Abstracts c owner) (hs : Sound D Idle (c.toWorld owner))
    (t : ι) : ¬ Relation.TransGen c.WaitsFor t t := by
  intro hcycle
  exact hs.not_circular t (Relation.TransGen.mono (fun _ _ => h.waitsFor) t t hcycle)

/-- A task between two operations has taken no resource. -/
theorem Abstracts.released (h : Abstracts c owner) (hs : Sound D Idle (c.toWorld owner)) {t : ι}
    {a : Unit} (hcode : c.code t = .ret a) (l : L) : ¬ Taken c.locks t l := by
  intro htaken
  exact hs.released hcode l ((h.locks.taken t l).mpr htaken)

end

end SmartblocksOs.Resource
