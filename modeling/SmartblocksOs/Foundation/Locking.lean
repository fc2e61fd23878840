/-
# SmartblocksOs.Foundation.Locking -- any number of tasks that keep a discipline

Tasks run programs of `SmartblocksOs.Foundation.Program` over shared variables and locks, any task
may take the next step, and devices may change the variables that stand for their registers. When
every operation a task may start keeps the discipline, then in every reachable world each task is
where the logic says it is (`Sound`). Three things follow, whatever the operations are: only allowed
notes are made, a task between two operations holds no lock, and no tasks wait for each other in a
cycle.

The proof is rely and guarantee. Each task has an assertion that is `Stable` under what the others may do,
and each step of a task stays within what it guarantees to the others. The discipline gives both: a
variable that is guarded by a lock is stored by its holder only, so that what the holder knows of it
cannot be upset.
-/
import SmartblocksOs.Foundation.Footprint
import SmartblocksOs.Foundation.Mutex
import Mathlib.Logic.Relation

namespace SmartblocksOs.Foundation

variable {ι Op X : Type} {V : X → Type} {L E : Type}

/-! ## The tasks and their steps

Any task may take the next step: the scheduler is not modelled here, so that what is shown holds for all
schedulers. -/

/-- The program after its next action, and what that leaves of the variables and of the log, for the
actions that concern no lock. -/
def Prog.act [DecidableEq X] :
    Prog X V L E Unit → Store V → List E → Option (Prog X V L E Unit × Store V × List E)
  | .load x k, s, g => some (k (s x), s, g)
  | .store x v k, s, g => some (k, Function.update s x v, g)
  | .pause k, s, g => some (k, s, g)
  | .observe f k, s, g => some (k, s, g ++ [f s])
  | .loop body k, s, g => some (Prog.again body k, s, g)
  | .ret _, _, _ | .lock _ _, _, _ | .unlock _ _, _, _ => none

/-- An action makes one note at most. -/
theorem Prog.act_log [DecidableEq X] {p p' : Prog X V L E Unit} {s s' : Store V} {g g' : List E}
    (h : p.act s g = some (p', s', g')) : g' = g ∨ ∃ e, g' = g ++ [e] := by
  cases p with
  | load x k | store x v k | pause k | loop body k =>
      cases h
      exact Or.inl rfl
  | observe f k =>
      cases h
      exact Or.inr ⟨f s, rfl⟩
  | ret _ | lock _ _ | unlock _ _ => cases h

/-- The tasks, between any two actions: the variables, who owns which lock, and for each task what it has
left to do and what it has noted. -/
structure World (ι X : Type) (V : X → Type) (L E : Type) where
  vars : Store V
  owner : L → Option ι
  code : ι → Prog X V L E Unit
  log : ι → List E

/-- What can happen next. -/
inductive Action (ι Op : Type) {X : Type} (V : X → Type) where
  /-- Task `t`, between two operations, starts another one. -/
  | start (t : ι) (op : Op)
  /-- Task `t` takes the next action of the operation it is in. -/
  | advance (t : ι)
  /-- The register of a device changes. -/
  | device (x : X) (v : V x)

namespace World

variable [DecidableEq ι] [DecidableEq X] [DecidableEq L]

/-- Task `t` has `p` left to do. -/
def goto (w : World ι X V L E) (t : ι) (p : Prog X V L E Unit) : World ι X V L E :=
  { w with code := Function.update w.code t p }

/-- The next action of task `t`. -/
def advance (w : World ι X V L E) (t : ι) : Option (World ι X V L E) :=
  match w.code t with
  | .lock l k =>
      (mutexStep w.owner (.acquire t l)).map fun owner => { w.goto t k with owner := owner }
  | .unlock l k =>
      (mutexStep w.owner (.release t l)).map fun owner => { w.goto t k with owner := owner }
  | p =>
      (p.act w.vars (w.log t)).map fun r =>
        { w.goto t r.1 with vars := r.2.1, log := Function.update w.log t r.2.2 }

end World

/-- One step of the system of tasks that run the operations `body`. -/
def worldStep [DecidableEq ι] [DecidableEq X] [DecidableEq L] (body : Op → Prog X V L E Unit)
    (volatile : X → Bool) (w : World ι X V L E) : Action ι Op V → Option (World ι X V L E)
  | .start t op =>
      match w.code t with
      | .ret _ => some (w.goto t (body op))
      | _ => none
  | .advance t => w.advance t
  | .device x v => if volatile x then some { w with vars := Function.update w.vars x v } else none

/-! ## What a step leaves alone

A task acts on its own program and its own log; what it shares with the others are variables and owners.
-/

/-- A loop with more behind it. -/
theorem Prog.again_bind {α β : Type} (body : Prog X V L E Bool) (k : Prog X V L E α)
    (f : α → Prog X V L E β) : (Prog.again body k).bind f = Prog.again body (k.bind f) := by
  rw [Prog.again, Prog.again, Prog.bind_bind]
  congr 1
  funext b
  cases b with
  | true => rfl
  | false => rfl

/-- A step of a task that is in a program with footprint `F`, whatever it goes on with. -/
theorem Prog.Leaves.advance {F : Footprint X L E} {α : Type} {p : Prog X V L E α} [DecidableEq ι]
    [DecidableEq X] [DecidableEq L] {w w' : World ι X V L E} {t : ι} {f : α → Prog X V L E Unit}
    (hp : p.Leaves F) (hret : ∀ a, p ≠ .ret a) (hcode : w.code t = p.bind f)
    (hst : w.advance t = some w') :
    ∃ q : Prog X V L E α, q.Leaves F ∧ w'.code = Function.update w.code t (q.bind f) ∧
      (∀ x ∉ F.stores, w'.vars x = w.vars x) ∧ (∀ l ∉ F.locks, w'.owner l = w.owner l) ∧
      (w'.log = w.log ∨ ∃ e ∈ F.notes, w'.log = Function.update w.log t (w.log t ++ [e])) := by
  have hsame : w.log = Function.update w.log t (w.log t) := (Function.update_eq_self t w.log).symm
  rw [World.advance, hcode] at hst
  cases p with
  | ret a => exact absurd rfl (hret a)
  | load y k =>
      obtain rfl := Option.some.inj hst
      exact ⟨k (w.vars y), hp.2 _, rfl, fun _ _ => rfl, fun _ _ => rfl, Or.inl hsame.symm⟩
  | store y v k =>
      obtain rfl := Option.some.inj hst
      refine ⟨k, hp.2, rfl, fun x hx => Function.update_of_ne ?_ v w.vars, fun _ _ => rfl, Or.inl hsame.symm⟩
      rintro rfl
      exact hx hp.1
  -- a lock that the footprint allows
  | lock r k | unlock r k =>
      obtain ⟨owner, howner, rfl⟩ := Option.map_eq_some_iff.mp hst
      obtain ⟨-, howner⟩ := Option.ite_none_right_eq_some.mp howner
      obtain rfl := Option.some.inj howner
      refine ⟨k, hp.2, rfl, fun _ _ => rfl, fun l hl => Function.update_of_ne ?_ _ w.owner, Or.inl rfl⟩
      rintro rfl
      exact hl hp.1
  | pause k =>
      obtain rfl := Option.some.inj hst
      exact ⟨k, hp, rfl, fun _ _ => rfl, fun _ _ => rfl, Or.inl hsame.symm⟩
  | observe g k =>
      obtain rfl := Option.some.inj hst
      exact ⟨k, hp.2, rfl, fun _ _ => rfl, fun _ _ => rfl, Or.inr ⟨g w.vars, hp.1 w.vars, rfl⟩⟩
  -- a loop is unfolded by one round, which is within the footprint of the loop
  | loop body k =>
      obtain rfl := Option.some.inj hst
      refine ⟨Prog.again body k, hp.1.again hp.2, ?_, fun _ _ => rfl, fun _ _ => rfl, Or.inl hsame.symm⟩
      rw [Prog.again_bind]
      rfl

/-! ## What one task guarantees to the others

As long as a lock is not its own, a task changes none of the variables that the lock guards; others it
changes as `may` allows. -/

/-- Every note of the log was allowed where it was made. -/
def Allowed (allow : List E → E → Prop) (g : List E) : Prop :=
  ∀ g₁ e g₂, g = g₁ ++ e :: g₂ → allow g₁ e

/-- Nothing has been noted. -/
theorem Allowed.nil (allow : List E → E → Prop) : Allowed allow [] := by
  intro g₁ e g₂ h
  exact absurd h (by simp)

theorem Allowed.left {allow : List E → E → Prop} {g g' : List E} (h : Allowed allow (g ++ g')) :
    Allowed allow g := by
  rintro g₁ e g₂ rfl
  exact h g₁ e (g₂ ++ g') (by rw [List.append_assoc, List.cons_append])

/-- A log to which an allowed note is added. -/
theorem Allowed.concat {allow : List E → E → Prop} {g : List E} {e : E} (h : Allowed allow g)
    (he : allow g e) : Allowed allow (g ++ [e]) := by
  intro g₁ e₁ g₂ heq
  rcases List.eq_nil_or_concat g₂ with rfl | ⟨g₃, e₃, rfl⟩
  · obtain ⟨rfl, hcons⟩ := List.append_inj' heq rfl
    obtain rfl : e = e₁ := (List.cons.inj hcons).1
    exact he
  · rw [List.concat_eq_append, ← List.cons_append, ← List.append_assoc] at heq
    exact h g₁ e₁ g₃ (List.append_inj' heq rfl).1

namespace Discipline

variable (D : Discipline X V L E)

/-- What a task that holds the locks `held` does to the variables. -/
def Guarantee (held : List L) (s s' : Store V) : Prop :=
  ∀ x, D.may x (s x) (s' x) ∧ (s' x ≠ s x → ∀ l, D.guard x = some l → l ∈ held)

variable {D}

/-- What one task guarantees, the others rely on, as no lock is held twice. -/
theorem Guarantee.rely {held held' : List L} {s s' : Store V} (h : D.Guarantee held s s')
    (hdisj : ∀ l ∈ held', l ∉ held) : D.Rely held' s s' := by
  intro x
  refine ⟨(h x).1, fun l hl hmem => ?_⟩
  by_contra hne
  exact hdisj l hmem ((h x).2 hne l hl)

theorem Guarantee.refl (held : List L) (s : Store V) : D.Guarantee held s s :=
  fun x => ⟨D.may_refl x (s x), fun hne => absurd rfl hne⟩

variable [DecidableEq X] [DecidableEq L]

/-- The actions that concern no lock keep the discipline and their place in the logic. -/
theorem wp_act {p p' : Prog X V L E Unit} {s s' : Store V} {g g' : List E}
    {Q : Unit → List L → Assn V E} {held : List L} (hact : p.act s g = some (p', s', g'))
    (hwp : D.wp p Q held g s) (hg : Allowed D.allow g) :
    D.wp p' Q held g' s' ∧ D.Guarantee held s s' ∧ Allowed D.allow g' := by
  cases p with
  | ret a => simp [Prog.act] at hact
  | lock l k => simp [Prog.act] at hact
  | unlock l k => simp [Prog.act] at hact
  | load x k =>
      simp only [Prog.act, Option.some.injEq, Prod.mk.injEq] at hact
      obtain ⟨rfl, rfl, rfl⟩ := hact
      exact ⟨hwp s (Rely.refl D held s), Guarantee.refl held s, hg⟩
  | pause k =>
      simp only [Prog.act, Option.some.injEq, Prod.mk.injEq] at hact
      obtain ⟨rfl, rfl, rfl⟩ := hact
      exact ⟨hwp s (Rely.refl D held s), Guarantee.refl held s, hg⟩
  | loop body k =>
      simp only [Prog.act, Option.some.injEq, Prod.mk.injEq] at hact
      obtain ⟨rfl, rfl, rfl⟩ := hact
      exact ⟨wp_again hwp, Guarantee.refl held s, hg⟩
  | observe f k =>
      simp only [Prog.act, Option.some.injEq, Prod.mk.injEq] at hact
      obtain ⟨rfl, rfl, rfl⟩ := hact
      obtain ⟨hallow, hk⟩ := hwp s (Rely.refl D held s)
      exact ⟨hk, Guarantee.refl held s, hg.concat hallow⟩
  -- what the task guarantees: the variable is protected by a lock it holds, and changes as it may
  | store x v k =>
      simp only [Prog.act, Option.some.injEq, Prod.mk.injEq] at hact
      obtain ⟨rfl, rfl, rfl⟩ := hact
      obtain ⟨hguard, hk⟩ := hwp
      obtain ⟨hmay, hk⟩ := hk s (Rely.refl D held s)
      refine ⟨hk, fun y => ?_, hg⟩
      by_cases hy : y = x
      · subst hy
        rw [Function.update_self]
        exact ⟨hmay, fun _ => hguard⟩
      · rw [Function.update_of_ne hy]
        exact ⟨D.may_refl y (s y), fun hne => absurd rfl hne⟩

end Discipline

/-! ## Soundness

A world is sound when the assertion of every task holds of it. At the start this is so since nobody has
done anything. -/

section

variable [DecidableEq X] [DecidableEq L]

/-- Task `t` holds exactly the locks `held`, and is where the logic says it is. -/
structure TaskOk (D : Discipline X V L E) (Idle : List E → Prop) (w : World ι X V L E) (t : ι)
    (held : List L) : Prop where
  nodup : held.Nodup
  owns : ∀ l, l ∈ held ↔ w.owner l = some t
  wp : D.wp (w.code t) (fun _ held g _ => held = [] ∧ Idle g) held (w.log t) w.vars
  allowed : Allowed D.allow (w.log t)

/-- Every task is where its proof says it is. -/
def Sound (D : Discipline X V L E) (Idle : List E → Prop) (w : World ι X V L E) : Prop :=
  ∀ t, ∃ held, TaskOk D Idle w t held

/-- No task has started an operation yet. -/
def World.Initial (w : World ι X V L E) : Prop :=
  (∀ l, w.owner l = none) ∧ (∀ t, w.code t = .ret ()) ∧ ∀ t, w.log t = []

variable {D : Discipline X V L E} {Idle : List E → Prop} {w w' : World ι X V L E}

/-- At the start nobody holds anything and nothing is left to do. -/
theorem World.Initial.sound (h : w.Initial) (hidle : Idle []) : Sound D Idle w := by
  obtain ⟨howner, hcode, hlog⟩ := h
  intro t
  refine ⟨[], List.nodup_nil, fun l => ?_, ?_, ?_⟩
  · rw [howner l]
    simp
  · rw [hcode t, hlog t]
    exact ⟨rfl, hidle⟩
  · rw [hlog t]
    exact Allowed.nil D.allow

/-- A step leaves a task where it is when it changes neither the task's program nor its log nor its
locks, and the variables only as the task relies on. -/
theorem TaskOk.frame {t : ι} {held : List L} (h : TaskOk D Idle w t held)
    (hcode : w'.code t = w.code t) (hlog : w'.log t = w.log t)
    (howner : ∀ l, w'.owner l = some t ↔ w.owner l = some t)
    (hrely : D.Rely held w.vars w'.vars) : TaskOk D Idle w' t held := by
  refine ⟨h.nodup, fun l => (h.owns l).trans (howner l).symm, ?_, ?_⟩
  · rw [hcode, hlog]
    exact Discipline.wp_rely (fun _ _ _ _ _ _ hq => hq) h.wp hrely
  · rw [hlog]
    exact h.allowed

/-- A task that releases a lock holds it. -/
theorem Sound.owner_of_unlock (h : Sound D Idle w) {t : ι} {l : L} {k : Prog X V L E Unit}
    (hcode : w.code t = .unlock l k) : w.owner l = some t := by
  obtain ⟨held, ht⟩ := h t
  have hwp := ht.wp
  rw [hcode] at hwp
  exact (ht.owns l).mp hwp.1

/-! ## What soundness gives

The order of the locks excludes cycles: a task that waits wants a lock above all it holds, so that along a
chain of waiting tasks the locks wanted rise. -/

/-- In a sound world every task has noted only what it was allowed to note. -/
theorem Sound.allowed (h : Sound D Idle w) (t : ι) : Allowed D.allow (w.log t) := by
  obtain ⟨held, ht⟩ := h t
  exact ht.allowed

/-- A task between two operations holds no lock. -/
theorem Sound.released (h : Sound D Idle w) {t : ι} {a : Unit} (hcode : w.code t = .ret a) (l : L) :
    w.owner l ≠ some t := by
  obtain ⟨held, ht⟩ := h t
  have hwp := ht.wp
  rw [hcode] at hwp
  intro howner
  have hl := (ht.owns l).mpr howner
  rw [hwp.1] at hl
  exact absurd hl List.not_mem_nil

/-- A task waits for a lock above those it holds. -/
theorem Sound.rank_lt (h : Sound D Idle w) {t : ι} {l r : L} {k : Prog X V L E Unit}
    (hcode : w.code t = .lock l k) (hr : w.owner r = some t) : D.rank r < D.rank l := by
  obtain ⟨held, ht⟩ := h t
  have hwp := ht.wp
  rw [hcode] at hwp
  exact hwp.1 r ((ht.owns r).mpr hr)

/-- Task `t` waits for a lock that task `u` holds. -/
def World.WaitsFor (w : World ι X V L E) (t u : ι) : Prop :=
  ∃ l k, w.code t = .lock l k ∧ w.owner l = some u

/-- Along a chain of waiting tasks the locks they wait for ascend. -/
theorem Sound.chain_ascends (h : Sound D Idle w) {t u : ι}
    (hchain : Relation.TransGen w.WaitsFor t u) {l r : L} {k k' : Prog X V L E Unit}
    (hl : w.code t = .lock l k) (hr : w.code u = .lock r k') : D.rank l < D.rank r := by
  induction hchain generalizing r k' with
  | single hwait =>
      obtain ⟨l', k'', hcode, howner⟩ := hwait
      rw [hl] at hcode
      cases hcode
      exact h.rank_lt hr howner
  | tail _ hwait ih =>
      obtain ⟨l', k'', hcode, howner⟩ := hwait
      exact Nat.lt_trans (ih hcode) (h.rank_lt hr howner)

/-- No task waits, through whatever chain, for itself. -/
theorem Sound.not_circular (h : Sound D Idle w) (t : ι) : ¬ Relation.TransGen w.WaitsFor t t := by
  intro hcycle
  obtain ⟨u, ⟨l, k, hcode, -⟩, -⟩ := Relation.TransGen.head'_iff.mp hcycle
  exact Nat.lt_irrefl _ (h.chain_ascends hcycle hcode hcode)

/-! ## Every step keeps the tasks sound

Case by case: an action, a lock taken, a lock released, an operation started, a register that changes. -/

/-- The register of a device changes. -/
theorem Sound.device (h : Sound D Idle w) {x : X} (hguard : D.guard x = none)
    (hmay : ∀ v v', D.may x v v') (v : V x) :
    Sound D Idle { w with vars := Function.update w.vars x v } := by
  intro t
  obtain ⟨held, ht⟩ := h t
  refine ⟨held, ht.frame rfl rfl (fun _ => Iff.rfl) fun y => ?_⟩
  show D.may y (w.vars y) (Function.update w.vars x v y) ∧ _
  by_cases hy : y = x
  · subst hy
    refine ⟨hmay _ _, fun l hl => ?_⟩
    rw [hguard] at hl
    exact absurd hl.symm (Option.some_ne_none l)
  · rw [Function.update_of_ne hy]
    exact ⟨D.may_refl y _, fun _ _ _ => Function.update_of_ne hy v w.vars⟩

variable [DecidableEq ι]

theorem TaskOk.start {p : Prog X V L E Unit}
    (hp : D.Triple [] (fun g _ => Idle g) p [] fun _ g _ => Idle g) {t : ι} {held : List L}
    {a : Unit} (h : TaskOk D Idle w t held) (hcode : w.code t = .ret a) :
    TaskOk D Idle (w.goto t p) t held := by
  have hwp := h.wp
  rw [hcode] at hwp
  obtain ⟨rfl, hidle⟩ := hwp
  refine ⟨h.nodup, h.owns, ?_, h.allowed⟩
  show D.wp (Function.update w.code t p t) _ _ _ _
  rw [Function.update_self]
  exact hp (w.log t) w.vars hidle

/-- The others, at a step that starts an operation. -/
theorem TaskOk.start_of_ne {p : Prog X V L E Unit} {t u : ι} {held : List L}
    (h : TaskOk D Idle w u held) (hne : u ≠ t) : TaskOk D Idle (w.goto t p) u held :=
  h.frame (Function.update_of_ne hne _ _) rfl (fun _ => Iff.rfl) (Discipline.Rely.refl D held _)

/-- An action that concerns no lock. -/
theorem Sound.act (h : Sound D Idle w) {t : ι} {p : Prog X V L E Unit} {s : Store V} {g : List E}
    (hact : (w.code t).act w.vars (w.log t) = some (p, s, g)) :
    Sound D Idle { w.goto t p with vars := s, log := Function.update w.log t g } := by
  obtain ⟨held, ht⟩ := h t
  obtain ⟨hwp, hguar, hallowed⟩ := Discipline.wp_act hact ht.wp ht.allowed
  intro u
  by_cases hu : u = t
  · subst hu
    refine ⟨held, ht.nodup, ht.owns, ?_, ?_⟩
    · show D.wp (Function.update w.code u p u) _ held (Function.update w.log u g u) s
      rw [Function.update_self, Function.update_self]
      exact hwp
    · show Allowed D.allow (Function.update w.log u g u)
      rw [Function.update_self]
      exact hallowed
  · obtain ⟨heldu, hu'⟩ := h u
    refine ⟨heldu, hu'.frame (Function.update_of_ne hu _ _) (Function.update_of_ne hu _ _)
      (fun _ => Iff.rfl) (hguar.rely fun l hl hlt => ?_)⟩
    -- a lock of both tasks would have two owners
    have hown := (hu'.owns l).mp hl
    rw [(ht.owns l).mp hlt, Option.some.injEq] at hown
    exact hu hown.symm

theorem Sound.acquire (h : Sound D Idle w) {t : ι} {l : L} {k : Prog X V L E Unit}
    (hcode : w.code t = .lock l k) (hfree : w.owner l = none) :
    Sound D Idle { w.goto t k with owner := Function.update w.owner l (some t) } := by
  intro u
  obtain ⟨held, hu⟩ := h u
  by_cases hut : u = t
  · subst hut
    have hwp := hu.wp
    rw [hcode] at hwp
    -- a free lock is held by nobody, and by this task neither
    have hl : l ∉ held := by
      intro hl
      rw [hu.owns l, hfree] at hl
      exact Option.some_ne_none u hl.symm
    refine ⟨l :: held, List.nodup_cons.mpr ⟨hl, hu.nodup⟩, fun r => ?_, ?_, hu.allowed⟩
    · show _ ↔ Function.update w.owner l (some u) r = some u
      by_cases hr : r = l
      · subst hr
        simp
      · rw [Function.update_of_ne hr, List.mem_cons, hu.owns r]
        simp [hr]
    · show D.wp (Function.update w.code u k u) _ _ _ _
      rw [Function.update_self]
      exact hwp.2 w.vars (Discipline.Rely.refl D held w.vars)
  · refine ⟨held, hu.frame (Function.update_of_ne hut _ _) rfl (fun r => ?_)
      (Discipline.Rely.refl D held w.vars)⟩
    show Function.update w.owner l (some t) r = some u ↔ _
    by_cases hr : r = l
    · subst hr
      rw [Function.update_self, hfree]
      simp [Ne.symm hut]
    · rw [Function.update_of_ne hr]

theorem Sound.release (h : Sound D Idle w) {t : ι} {l : L} {k : Prog X V L E Unit}
    (hcode : w.code t = .unlock l k) :
    Sound D Idle { w.goto t k with owner := Function.update w.owner l none } := by
  have howner := h.owner_of_unlock hcode
  intro u
  obtain ⟨held, hu⟩ := h u
  -- the task itself has one lock less; for the others nothing has changed that they rely on
  by_cases hut : u = t
  · subst hut
    have hwp := hu.wp
    rw [hcode] at hwp
    refine ⟨held.erase l, hu.nodup.erase l, fun r => ?_, ?_, hu.allowed⟩
    · show _ ↔ Function.update w.owner l none r = some u
      rw [hu.nodup.mem_erase_iff]
      by_cases hr : r = l
      · subst hr
        simp
      · rw [Function.update_of_ne hr, hu.owns r]
        simp [hr]
    · show D.wp (Function.update w.code u k u) _ _ _ _
      rw [Function.update_self]
      exact hwp.2 w.vars (Discipline.Rely.refl D held w.vars)
  · refine ⟨held, hu.frame (Function.update_of_ne hut _ _) rfl (fun r => ?_)
      (Discipline.Rely.refl D held w.vars)⟩
    show Function.update w.owner l none r = some u ↔ _
    by_cases hr : r = l
    · subst hr
      rw [Function.update_self, howner]
      simp [Ne.symm hut]
    · rw [Function.update_of_ne hr]

section

variable {body : Op → Prog X V L E Unit} {volatile : X → Bool}

/-- Every step of tasks whose operations keep the discipline keeps them sound. -/
theorem worldStep_sound
    (hbody : ∀ op, D.Triple [] (fun g _ => Idle g) (body op) [] fun _ g _ => Idle g)
    (hdevice : ∀ x, volatile x = true → D.guard x = none ∧ ∀ v v', D.may x v v')
    {a : Action ι Op V} (h : Sound D Idle w) (hst : worldStep body volatile w a = some w') :
    Sound D Idle w' := by
  cases a with
  | start t op =>
      simp only [worldStep] at hst
      split at hst
      · rename_i hcode
        obtain rfl := Option.some.inj hst
        intro u
        obtain ⟨held, hu⟩ := h u
        by_cases hut : u = t
        · subst hut
          exact ⟨held, hu.start (hbody op) hcode⟩
        · exact ⟨held, hu.start_of_ne hut⟩
      · exact absurd hst (by simp)
  -- the action of a program is a lock taken, a lock released, or one that concerns no lock
  | advance t =>
      simp only [worldStep, World.advance] at hst
      split at hst
      · rename_i l k hcode
        obtain ⟨owner, howner, rfl⟩ := Option.map_eq_some_iff.mp hst
        simp only [mutexStep] at howner
        split at howner
        · rename_i hfree
          obtain rfl := Option.some.inj howner
          exact h.acquire hcode hfree
        · exact absurd howner (by simp)
      · rename_i l k hcode
        rw [mutexStep_release (h.owner_of_unlock hcode), Option.map_some, Option.some.injEq] at hst
        subst hst
        exact h.release hcode
      · obtain ⟨⟨p, s, g⟩, hact, rfl⟩ := Option.map_eq_some_iff.mp hst
        exact h.act hact
  | device x v =>
      simp only [worldStep] at hst
      split at hst
      · rename_i hx
        obtain rfl := Option.some.inj hst
        exact h.device (hdevice x hx).1 (hdevice x hx).2 v
      · exact absurd hst (by simp)

end

end

end SmartblocksOs.Foundation
