/-
# SmartblocksOs.Board.PortInit -- how often `CPortController` is initialised

`CPortController::instance()` tests `bInitRequired` before it takes the lock of the controller, and not
again behind it. Any number of tasks call it, preempted between any two loads and stores, and
`lock()` and `unlock()` are those of `SmartblocksOs.Resource.Lock`. Their steps are steps of the callers of
`SmartblocksOs.Foundation.FirstUse` (`useStep_simulates`). So `Init()` is executed once, before any call
returns, just when each call that comes to it finds `bInitRequired` still set
(`initialised_once_iff`); two tasks that have both tested the flag execute it twice
(`initialised_twice`).
-/
import SmartblocksOs.Foundation.FirstUse
import SmartblocksOs.Board.Footprints
import SmartblocksOs.Board.Operations

namespace SmartblocksOs.Board

open SmartblocksOs.Foundation SmartblocksOs.System SmartblocksOs.Resource

open CTWController CPortController

/-! ## `instance()`

The lines of the source: the test, the lock, `Init()`, the store that clears the flag, and the unlock. -/

/-- The program leaves `bInitRequired` and the lock of the port controller alone, as `Init()` does. -/
abbrev Inside {α : Type} (p : Code α) : Prop := p.Leaves initPrint

/-- The rest of `instance()` from the end of `Init()` on. -/
def leaveInit : Code Unit := do
  note fun _ => .returned
  store .initRequired false
  release .port

/-- The rest of `instance()` at each stage of a call. -/
def At : Stage → Code Unit → Prop
  | .away, p => p = .ret ()
  | .testing, p => p = initOnFirstUse
  | .waiting, p => ∃ body : Code Unit, Inside body ∧
      p = .lock .port (.observe (fun _ => .called .port) (body.bind fun _ => leaveInit))
  | .entering, p => ∃ body : Code Unit, Inside body ∧
      p = .observe (fun _ => .called .port) (body.bind fun _ => leaveInit)
  | .within, p => ∃ body : Code Unit, Inside body ∧ p = body.bind fun _ => leaveInit
  | .clearing, p => p = .store .initRequired false (.unlock .port (.ret ()))
  | .leaving, p => p = .unlock .port (.ret ())

/-- `instance()` tests `bInitRequired`, and is at the lock of the controller when it is set. -/
theorem initOnFirstUse_eq : ∃ p, At .waiting p ∧
    initOnFirstUse = .load .initRequired fun required => if required then p else .ret () := by
  obtain ⟨body, hbody, hinit⟩ := init_eq_calledFor
  refine ⟨_, ⟨body, hbody, rfl⟩, ?_⟩
  have hrest : (calledFor .port body).bind (fun _ => do
      store .initRequired false
      release .port) = .observe (fun _ => .called .port) (body.bind fun _ => leaveInit) := by
    show Prog.observe _ ((body.bind fun u => Prog.observe _ (.ret u)).bind _) = _
    rw [Prog.bind_bind]
    rfl
  rw [← hrest, ← hinit]
  rfl

/-- The program has ended. -/
def isRet : Code Unit → Bool
  | .ret _ => true
  | _ => false

/-- `Init()` is not the end of `instance()`. -/
theorem isRet_bind (body : Code Unit) : isRet (body.bind fun _ => leaveInit) = false := by
  cases body with
  | ret _ | load _ _ | store _ _ _ | lock _ _ | unlock _ _ | pause _ | observe _ _ | loop _ _ => rfl

/-- A call that has returned is over. -/
theorem At.away {q : Stage} (h : At q (.ret ())) : q = .away := by
  cases q with
  | away => rfl
  | testing =>
      obtain ⟨p, -, heq⟩ := initOnFirstUse_eq
      replace h : .ret () = initOnFirstUse := h
      rw [heq] at h
      cases h
  | waiting | entering =>
      obtain ⟨body, -, h⟩ := h
      cases h
  | within =>
      obtain ⟨body, -, h⟩ := h
      have hret := isRet_bind body
      rw [← h] at hret
      cases hret
  | clearing | leaving => cases h

/-! ## Any number of calls

The tasks call `instance()` again and again; nothing else is needed to see the race. -/

/-- What a call of `instance()` comes to at a step that takes its rest from `p` to `p'` and the log of
its task from `g` to `g'`. -/
def milestone (p p' : Code Unit) (g g' : List Event) : Option Milestone :=
  match g'[g.length]? with
  | some (.called _) => some .entered
  | some .returned => some .completed
  | some _ => none
  | none => if isRet p' && !isRet p then some .returned else none

/-- A call that is noted is `Init()` being entered. -/
@[simp]
theorem milestone_called (p p' : Code Unit) (g : List Event) (f : Callee) :
    milestone p p' g (g ++ [.called f]) = some .entered := by
  simp [milestone]

/-- A return that is noted is the end of `Init()`. -/
@[simp]
theorem milestone_returned (p p' : Code Unit) (g : List Event) :
    milestone p p' g (g ++ [.returned]) = some .completed := by
  simp [milestone]

theorem milestone_uncalled (p p' : Code Unit) (g : List Event) {e : Event}
    (he : e.uncalled = true) : milestone p p' g (g ++ [e]) = none := by
  cases e with
  | called q | returned => cases he
  | beginTransmission | accepted _ | refused | endTransmission _ _ | request _ | handler _
  | received _ | taken _ => simp [milestone]

/-- A step without a note is a milestone only where it ends `instance()`. -/
theorem milestone_unnoted (p p' : Code Unit) (g : List Event) :
    milestone p p' g g = if isRet p' && !isRet p then some .returned else none := by
  simp [milestone]

/-- The next step is the call of `Init()`. -/
def AtInit (s : Store Val) : Code Unit → Prop
  | .observe f _ => f s = .called .port
  | _ => False

/-- Inside `Init()` the flag is not about to be tested. -/
theorem Inside.not_atInit {body : Code Unit} (h : Inside body) (s : Store Val) :
    ¬ AtInit s (body.bind fun _ => leaveInit) := by
  cases body with
  | ret _ => exact nofun
  | observe f k =>
      intro hat
      have hf : (f s).uncalled = true := (h.1 s).1
      rw [show f s = .called .port from hat] at hf
      cases hf
  | load _ _ | store _ _ _ | lock _ _ | unlock _ _ | pause _ | loop _ _ => exact id

section

variable {ι : Type} [DecidableEq ι]

/-- The tasks, and what has become of their calls of `instance()`. -/
structure Callers (ι : Type) where
  tasks : Tasks ι Var Val Lock Event
  uses : Uses ι

/-- The steps of tasks that call `instance()`. -/
def instanceStep : Tasks ι Var Val Lock Event → Action ι Unit Val →
    Option (Tasks ι Var Val Lock Event) :=
  tasksStep (fun _ => initOnFirstUse) volatile

/-- The milestone at the step of task `t` that leads from `c` to `c'`. -/
def milestoneOf (c c' : Tasks ι Var Val Lock Event) (t : ι) : Option Milestone :=
  milestone (c.code t) (c'.code t) (c.log t) (c'.log t)

/-- What the step makes of the milestones. -/
def Callers.after (w : Callers ι) (tasks : Tasks ι Var Val Lock Event) :
    Action ι Unit Val → Callers ι
  | .advance t => ⟨tasks, w.uses.after t (milestoneOf w.tasks tasks t)⟩
  | .start _ _ | .device _ _ => ⟨tasks, w.uses⟩

/-- A step of the tasks, with the milestones that their calls come to. -/
def useStep (w : Callers ι) (a : Action ι Unit Val) : Option (Callers ι) :=
  (instanceStep w.tasks a).map fun tasks => w.after tasks a

/-- No task has called `instance()` yet, and `bInitRequired` is set. -/
def Callers.Initial (w : Callers ι) : Prop :=
  w.tasks.Initial ∧ w.tasks.vars .initRequired = true ∧ w.uses = .empty

/-- A call that comes to `Init()` finds `bInitRequired` still set. -/
def StillRequired (w : Callers ι) : Action ι Unit Val → Prop
  | .advance t => AtInit w.tasks.vars (w.tasks.code t) → w.tasks.vars .initRequired = true
  | .start _ _ | .device _ _ => True

/-! ## The callers of `SmartblocksOs.Foundation.FirstUse`

Each task is at one of the places of the general pattern, which is read off the text of what it has left
to do. -/

/-- `s` is what is left of `x` when only the calls of `instance()` are looked at. -/
structure Portrays (s : FirstUse ι) (x : World ι Var Val Lock Event) : Prop where
  required : s.required = x.vars .initRequired
  owner : s.owner = x.owner .port
  stage : ∀ t, At (s.stage t) (x.code t)

variable {s : FirstUse ι} {x x' : World ι Var Val Lock Event} {t : ι}

/-- One caller has moved; the others are where they were. -/
theorem Portrays.goto (h : Portrays s x) {p : Code Unit} {q : Stage} (hp : At q p) (u : ι) :
    At (Function.update s.stage t q u) (Function.update x.code t p u) := by
  by_cases hu : u = t
  · subst hu
    rw [Function.update_self, Function.update_self]
    exact hp
  · rw [Function.update_of_ne hu, Function.update_of_ne hu]
    exact h.stage u

/-- A step of `t` from `x` to `x'` at which its call comes to `m` is matched by steps from `s` on. -/
def Matched (s : FirstUse ι) (x x' : World ι Var Val Lock Event) (t : ι) (m : Option Milestone) :
    Prop :=
  ∃ es s', run FirstUse.step s es = some s' ∧ Portrays s' x' ∧ s'.uses = s.uses.after t m ∧
    ((AtInit x.vars (x.code t) → x.vars .initRequired = true) ↔
      Along FirstUse.step FirstUse.StillRequired s es)

/-- A step that the callers of the library do not see. -/
theorem Matched.nothing (h : Portrays s x') (hnot : ¬ AtInit x.vars (x.code t)) :
    Matched s x x' t none :=
  ⟨[], s, rfl, h, rfl, iff_of_true (fun hat => absurd hat hnot) trivial⟩

/-- A step other than that into `Init()`. -/
theorem Matched.step {s' : FirstUse ι} {e : UseEvent ι} {m : Option Milestone} {p : Code Unit}
    (hst : s.step e = some s') (h : Portrays s' x') (huses : s'.uses = s.uses.after t m)
    (he : s.StillRequired e) (hcode : x.code t = p) (hnot : ¬ AtInit x.vars p) :
    Matched s x x' t m := by
  refine ⟨[e], s', run_cons_eq_some.mpr ⟨s', hst, rfl⟩, h, huses, ?_⟩
  apply iff_of_true
  · intro hat
    rw [hcode] at hat
    exact absurd hat hnot
  · exact ⟨he, fun _ _ => trivial⟩

theorem test_matched (h : Portrays s x) (hstage : s.stage t = .testing)
    (hst : x.advance t = some x') :
    Matched s x x' t (milestone (x.code t) (x'.code t) (x.log t) (x'.log t)) := by
  have hcode : x.code t = initOnFirstUse := by
    have hat := h.stage t
    rw [hstage] at hat
    exact hat
  obtain ⟨p, hp, heq⟩ := initOnFirstUse_eq
  rw [heq] at hcode
  rw [World.advance, hcode] at hst
  obtain rfl := Option.some.inj hst
  show Matched s x _ t (milestone _ (Function.update x.code t _ t) (x.log t)
    (Function.update x.log t (x.log t) t))
  rw [Function.update_self, Function.update_self, milestone_unnoted, hcode]
  -- the flag decides whether the lock is waited for or the call is over
  cases hrequired : x.vars .initRequired with
  | true =>
      obtain ⟨body, hbody, rfl⟩ := hp
      have hstep : s.step (.test t) = some (s.goto t .waiting) := by
        rw [FirstUse.step, if_pos hstage, if_pos (h.required.trans hrequired)]
      exact .step hstep ⟨h.required, h.owner, h.goto ⟨body, hbody, rfl⟩⟩ rfl trivial hcode id
  | false =>
      have hstep : s.step (.test t) = some ((s.goto t .away).reach t .returned) := by
        rw [FirstUse.step, if_pos hstage, h.required, hrequired, if_neg Bool.false_ne_true]
      exact .step hstep ⟨h.required, h.owner, h.goto rfl⟩ rfl trivial hcode id

theorem take_matched (h : Portrays s x) (hstage : s.stage t = .waiting)
    (hst : x.advance t = some x') :
    Matched s x x' t (milestone (x.code t) (x'.code t) (x.log t) (x'.log t)) := by
  obtain ⟨body, hbody, hcode⟩ : At .waiting (x.code t) := hstage ▸ h.stage t
  rw [World.advance, hcode] at hst
  obtain ⟨owner, howner, rfl⟩ := Option.map_eq_some_iff.mp hst
  obtain ⟨hfree, howner⟩ := Option.ite_none_right_eq_some.mp howner
  obtain rfl := Option.some.inj howner
  show Matched s x _ t (milestone _ (Function.update x.code t _ t) (x.log t) (x.log t))
  rw [Function.update_self, milestone_unnoted, hcode]
  have hstep : s.step (.take t) = some ((s.goto t .entering).setOwner (some t)) := by
    rw [FirstUse.step, if_pos ⟨hstage, h.owner.trans hfree⟩]
  refine .step hstep ⟨h.required, ?_, h.goto ⟨body, hbody, rfl⟩⟩ rfl trivial hcode id
  show some t = Function.update x.owner .port (some t) .port
  rw [Function.update_self]

theorem enter_matched (h : Portrays s x) (hstage : s.stage t = .entering)
    (hst : x.advance t = some x') :
    Matched s x x' t (milestone (x.code t) (x'.code t) (x.log t) (x'.log t)) := by
  obtain ⟨body, hbody, hcode⟩ : At .entering (x.code t) := hstage ▸ h.stage t
  rw [World.advance, hcode] at hst
  obtain rfl := Option.some.inj hst
  show Matched s x _ t (milestone _ _ (x.log t) (Function.update x.log t _ t))
  rw [Function.update_self, milestone_called]
  have hstep : s.step (.enter t) = some ((s.goto t .within).reach t .entered) := by
    rw [FirstUse.step, if_pos hstage]
  refine ⟨[.enter t], _, run_cons_eq_some.mpr ⟨_, hstep, rfl⟩,
    ⟨h.required, h.owner, h.goto ⟨body, hbody, rfl⟩⟩, rfl, ?_⟩
  have hat : AtInit x.vars (x.code t) := by
    rw [hcode]
    rfl
  rw [forall_prop_of_true hat, ← h.required]
  exact ⟨fun hrequired => ⟨hrequired, fun _ _ => trivial⟩, And.left⟩

theorem within_matched (h : Portrays s x) (hstage : s.stage t = .within)
    (hst : x.advance t = some x') :
    Matched s x x' t (milestone (x.code t) (x'.code t) (x.log t) (x'.log t)) := by
  obtain ⟨body, hbody, hcode⟩ : At .within (x.code t) := hstage ▸ h.stage t
  have hnot := Inside.not_atInit hbody x.vars
  -- `Init()` is over, or it takes a step of its own
  by_cases hret : ∃ a, body = .ret a
  · obtain ⟨a, rfl⟩ := hret
    rw [World.advance, hcode] at hst
    obtain rfl := Option.some.inj hst
    show Matched s x _ t (milestone _ _ (x.log t) (Function.update x.log t _ t))
    rw [Function.update_self, milestone_returned]
    have hstep : s.step (.complete t) = some ((s.goto t .clearing).reach t .completed) := by
      rw [FirstUse.step, if_pos hstage]
    exact .step hstep ⟨h.required, h.owner, h.goto rfl⟩ rfl trivial hcode hnot
  -- its steps touch neither the flag nor the lock, and note nothing the library counts
  · obtain ⟨q, hq, hcode', hvars, howner, hlog⟩ :=
      hbody.advance (fun a ha => hret ⟨a, ha⟩) hcode hst
    have hstay : Portrays s x' := by
      refine ⟨h.required.trans (hvars _ fun hx => hx.2 rfl).symm, h.owner.trans (howner _ (by simp)).symm,
        fun u => ?_⟩
      have hu := h.goto (t := t) (q := .within) ⟨q, hq, rfl⟩ u
      rw [← hstage, Function.update_eq_self] at hu
      rw [hcode']
      exact hu
    have hnone : milestone (x.code t) (x'.code t) (x.log t) (x'.log t) = none := by
      rcases hlog with hlog | ⟨e, he, hlog⟩
      · rw [hlog, milestone_unnoted, hcode', Function.update_self, isRet_bind]
        rfl
      · rw [hlog, Function.update_self, milestone_uncalled _ _ _ he.1]
    rw [hnone]
    exact .nothing hstay (hcode ▸ hnot)

theorem clear_matched (h : Portrays s x) (hstage : s.stage t = .clearing)
    (hst : x.advance t = some x') :
    Matched s x x' t (milestone (x.code t) (x'.code t) (x.log t) (x'.log t)) := by
  have hcode : At .clearing (x.code t) := hstage ▸ h.stage t
  rw [World.advance, hcode] at hst
  obtain rfl := Option.some.inj hst
  show Matched s x _ t (milestone _ (Function.update x.code t _ t) (x.log t)
    (Function.update x.log t (x.log t) t))
  rw [Function.update_self, Function.update_self, milestone_unnoted]
  have hstep : s.step (.clear t) = some (s.goto t .leaving).clearRequired := by
    rw [FirstUse.step, if_pos hstage]
  refine .step hstep ⟨?_, h.owner, h.goto rfl⟩ rfl trivial hcode id
  show false = Function.update x.vars .initRequired false .initRequired
  rw [Function.update_self]

theorem leave_matched (h : Portrays s x) (hstage : s.stage t = .leaving)
    (hst : x.advance t = some x') :
    Matched s x x' t (milestone (x.code t) (x'.code t) (x.log t) (x'.log t)) := by
  have hcode : At .leaving (x.code t) := hstage ▸ h.stage t
  rw [World.advance, hcode] at hst
  obtain ⟨owner, howner, rfl⟩ := Option.map_eq_some_iff.mp hst
  obtain ⟨-, howner⟩ := Option.ite_none_right_eq_some.mp howner
  obtain rfl := Option.some.inj howner
  show Matched s x _ t (milestone _ (Function.update x.code t _ t) (x.log t) (x.log t))
  rw [Function.update_self, milestone_unnoted, hcode]
  have hstep : s.step (.leave t) =
      some (((s.goto t .away).setOwner none).reach t .returned) := by
    rw [FirstUse.step, if_pos hstage]
  refine .step hstep ⟨h.required, ?_, h.goto rfl⟩ rfl trivial hcode id
  show none = Function.update x.owner .port none .port
  rw [Function.update_self]

/-- Stage by stage: each step of a task is a step of the caller it stands for, or none. -/
theorem advance_matched (h : Portrays s x) (hst : x.advance t = some x') :
    Matched s x x' t (milestone (x.code t) (x'.code t) (x.log t) (x'.log t)) := by
  cases hstage : s.stage t with
  | away =>
      have hcode : At .away (x.code t) := hstage ▸ h.stage t
      rw [World.advance, hcode] at hst
      cases hst
  | testing => exact test_matched h hstage hst
  | waiting => exact take_matched h hstage hst
  | entering => exact enter_matched h hstage hst
  | within => exact within_matched h hstage hst
  | clearing => exact clear_matched h hstage hst
  | leaving => exact leave_matched h hstage hst

/-! ## How often `Init()` is executed

The notes of the tasks count the executions. The equivalence is that of the general pattern, carried over
by the simulation. -/

/-- `s` is what is left of `w` when only the calls of `instance()` are looked at, and the locks are what
locks should be. -/
def Simulates (w : Callers ι) (s : FirstUse ι) : Prop :=
  s.uses = w.uses ∧ ∃ owner, Portrays s (w.tasks.toWorld owner) ∧ Abstracts w.tasks owner ∧
    Sound (discipline True) Idle (w.tasks.toWorld owner)

variable {w w' : Callers ι}

/-- The flag is set, and nobody has called. -/
def nobody : FirstUse ι := ⟨true, none, fun _ => .away, .empty⟩

omit [DecidableEq ι] in
/-- Nobody has called yet. -/
theorem nobody_initial : (nobody : FirstUse ι).Initial := ⟨rfl, rfl, fun _ => rfl, rfl⟩

omit [DecidableEq ι] in
/-- The tasks at the start are callers that have not called. -/
theorem simulates_nobody (h : w.Initial) : Simulates w nobody := by
  obtain ⟨⟨hlocks, hcode, hlog⟩, hrequired, huses⟩ := h
  refine ⟨huses.symm, fun _ => none, ⟨hrequired.symm, rfl, hcode⟩, ⟨hlocks.refines, fun t => ?_⟩, ?_⟩
  · rw [hlocks.2.1 t]
    trivial
  · exact World.Initial.sound ⟨fun _ => rfl, hcode, hlog⟩ rfl

/-- `instance()` keeps the discipline, as it has to for the tasks to be turned into threads. -/
theorem instance_spec : (discipline True).Triple [] (fun g _ => Idle g) initOnFirstUse []
    fun _ g _ => Idle g := by
  apply (initOnFirstUse_spec (c := []) false (by simp)).mono
  · intro g s hidle
    exact (knows_idle_iff g s).mpr hidle
  · intro _ g s hs
    exact hs.callers

/-- The call of `Init()` makes a note. -/
theorem not_atInit_of_log {c c' : Tasks ι Var Val Lock Event} (hst : c.advance t = some c')
    (hlog : c'.log = c.log) : ¬ AtInit c.vars (c.code t) := by
  intro hat
  cases hcode : c.code t with
  | observe f k =>
      rw [Tasks.advance, hcode] at hst
      obtain rfl := Option.some.inj hst
      have hlength := congrArg List.length (congrFun hlog t)
      simp at hlength
  | ret _ | load _ _ | store _ _ _ | lock _ _ | unlock _ _ | pause _ | loop _ _ =>
      rw [hcode] at hat
      exact hat

omit [DecidableEq ι] in
/-- Inside `lock()` and `unlock()` no call gets on. -/
theorem milestoneOf_stutter {c c' : Tasks ι Var Val Lock Event} {owner owner' : Lock → Option ι}
    (hsame : c'.toWorld owner' = c.toWorld owner) : milestoneOf c c' t = none := by
  have hcode : c'.code = c.code := congrArg World.code hsame
  have hlog : c'.log = c.log := congrArg World.log hsame
  rw [milestoneOf, hcode, hlog, milestone_unnoted, Bool.and_not_self]
  rfl

/-- A task that calls `instance()` is a caller that calls. -/
theorem start_portrays (h : Portrays s x) (hst : worldStep (fun _ : Unit => initOnFirstUse) volatile x
    (.start t ()) = some x') :
    s.step (.call t) = some (s.goto t .testing) ∧ Portrays (s.goto t .testing) x' := by
  simp only [worldStep] at hst
  split at hst
  · rename_i hcode
    obtain rfl := Option.some.inj hst
    have hstage : s.stage t = .away := (hcode ▸ h.stage t).away
    refine ⟨?_, h.required, h.owner, h.goto rfl⟩
    rw [FirstUse.step, if_pos hstage]
  · cases hst

/-- The hardware has nothing to do with it. -/
theorem device_portrays (h : Portrays s x) {y : Var} {v : Val y}
    (hst : worldStep (fun _ : Unit => initOnFirstUse) volatile x (.device y v) = some x') :
    Portrays s x' := by
  obtain ⟨hy, hst⟩ := Option.ite_none_right_eq_some.mp hst
  obtain rfl := Option.some.inj hst
  refine ⟨?_, h.owner, h.stage⟩
  show s.required = Function.update x.vars y v .initRequired
  rw [Function.update_of_ne]
  · exact h.required
  · rintro rfl
    cases hy

/-- Every step of the tasks is some steps of the callers. -/
theorem useStep_simulates (w : Callers ι) (a : Action ι Unit Val) (w' : Callers ι) (s : FirstUse ι)
    (h : Simulates w s) (hst : useStep w a = some w') :
    ∃ es s', run FirstUse.step s es = some s' ∧ Simulates w' s' ∧
      (StillRequired w a ↔ Along FirstUse.step FirstUse.StillRequired s es) := by
  obtain ⟨huses, owner, hs, habs, hsound⟩ := h
  obtain ⟨c, htasks, rfl⟩ := Option.map_eq_some_iff.mp hst
  obtain ⟨owner', hworld, hnext⟩ := tasksStep_sound (fun _ => instance_spec)
    (fun x hx => volatile_shared True hx) habs hsound htasks
  cases a with
  -- a call begins, or the task waits for a lock
  | start t u =>
      rcases hworld with hsame | hworld
      · exact ⟨[], s, rfl, ⟨huses, owner', hsame ▸ hs, hnext⟩, iff_of_true trivial trivial⟩
      · obtain ⟨hstep, hs'⟩ := start_portrays hs hworld
        exact ⟨[.call t], _, run_cons_eq_some.mpr ⟨_, hstep, rfl⟩, ⟨huses, owner', hs', hnext⟩,
          iff_of_true trivial ⟨trivial, fun _ _ => trivial⟩⟩
  -- the hardware stores
  | device y v =>
      rcases hworld with hsame | hworld
      · exact ⟨[], s, rfl, ⟨huses, owner', hsame ▸ hs, hnext⟩, iff_of_true trivial trivial⟩
      · exact ⟨[], s, rfl, ⟨huses, owner', device_portrays hs hworld, hnext⟩,
          iff_of_true trivial trivial⟩
  -- a task goes on
  | advance t =>
      have hmatched : Matched s (w.tasks.toWorld owner) (c.toWorld owner') t
          (milestoneOf w.tasks c t) := by
        rcases hworld with hsame | hworld
        · rw [milestoneOf_stutter hsame]
          exact .nothing (hsame ▸ hs) (not_atInit_of_log htasks (congrArg World.log hsame))
        · exact advance_matched hs hworld
      obtain ⟨es, s', hrun, hs', huses', hok⟩ := hmatched
      refine ⟨es, s', hrun, ⟨?_, owner', hs', hnext⟩, hok⟩
      rw [huses', huses]
      rfl

/-- **The initialisation of the port controller.** In a run of whatever tasks that call `instance()`,
`Init()` is executed once and before any call returns just when every call that comes to it finds
`bInitRequired` still set. -/
theorem initialised_once_iff {as : List (Action ι Unit Val)} (hw : w.Initial)
    (hrun : run useStep w as = some w') : Along useStep StillRequired w as ↔ w'.uses.Once := by
  obtain ⟨es, s', hes, ⟨huses, -⟩, halong⟩ :=
    run_simulates_along useStep_simulates (simulates_nobody hw) hrun
  rw [halong, FirstUse.along_stillRequired_iff nobody_initial hes, huses]

/-! ### Two tasks

The run in which both have tested the flag before one of them has cleared it. -/

instance AtInit.decidable (s : Store Val) : ∀ p : Code Unit, Decidable (AtInit s p)
  | .observe f _ => inferInstanceAs (Decidable (f s = .called .port))
  | .ret _ | .load _ _ | .store _ _ _ | .lock _ _ | .unlock _ _ | .pause _ | .loop _ _ =>
      isFalse id

instance (w : Callers ι) : ∀ a : Action ι Unit Val, Decidable (StillRequired w a)
  | .advance t => inferInstanceAs (Decidable
      (AtInit w.tasks.vars (w.tasks.code t) → w.tasks.vars .initRequired = true))
  | .start _ _ | .device _ _ => isTrue trivial

end

/-- Two tasks on a board whose controller is yet to be initialised. -/
def uninitialised : Callers Bool :=
  ⟨{ idleTasks with vars := Function.update atRest .initRequired true }, .empty⟩

/-- No task has called `instance()`. -/
theorem uninitialised_initial : uninitialised.Initial :=
  ⟨idleTasks_initial, rfl, rfl⟩

/-- `n` steps of the task `t`. -/
def advances (t : Bool) (n : Nat) : List (Action Bool Unit Val) := List.replicate n (.advance t)

/-- The task `false` has tested `bInitRequired`. It takes the lock, executes `Init()`, where the slave
acknowledges each byte, and returns. -/
def initialise : List (Action Bool Unit Val) :=
  advances false 53 ++ .device .twsr (0x08 : Byte) :: advances false 7 ++
    .device .twsr (0x18 : Byte) :: advances false 11 ++ .device .twsr (0x28 : Byte) :: advances false 16 ++
      .device .twcr (0x45 : Byte) :: advances false 21

/-- The task `true` tests `bInitRequired` when the task `false` has returned. -/
def inTurn : List (Action Bool Unit Val) :=
  .start false () :: .start true () :: .advance false :: (initialise ++ [.advance true])

/-- Two tasks one after the other: the second finds the flag cleared. -/
theorem initialised_once_iff_inTurn :
    ∃ w, run useStep uninitialised inTurn = some w ∧ w.uses = ⟨[false], [false], [false, true]⟩ ∧
      Along useStep StillRequired uninitialised inTurn ∧ w.uses.Once := by
  have hrun : (run useStep uninitialised inTurn).map (fun w => w.uses) =
      some ⟨[false], [false], [false, true]⟩ := by decide +kernel
  have hstill : Along useStep StillRequired uninitialised inTurn := by decide +kernel
  obtain ⟨w, hw, huses⟩ := Option.map_eq_some_iff.mp hrun
  exact ⟨w, hw, huses, hstill, (initialised_once_iff uninitialised_initial hw).mp hstill⟩

/-- The task `true` tests `bInitRequired` before the task `false` takes the lock. -/
def atOnce : List (Action Bool Unit Val) :=
  .start false () :: .start true () :: .advance false :: .advance true ::
    (initialise ++ advances true 4)

/-- Then it enters `Init()` when the other one is through with it. -/
theorem initialised_twice :
    uninitialised.Initial ∧ ∃ w, run useStep uninitialised atOnce = some w ∧ ¬ w.uses.Once := by
  have hrun : (run useStep uninitialised atOnce).map (fun w => w.uses) =
      some ⟨[false, true], [false], [false]⟩ := by decide +kernel
  obtain ⟨w, hw, huses⟩ := Option.map_eq_some_iff.mp hrun
  refine ⟨uninitialised_initial, w, hw, ?_⟩
  rw [huses]
  decide

end SmartblocksOs.Board
