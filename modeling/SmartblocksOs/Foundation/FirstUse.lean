/-
# SmartblocksOs.Foundation.FirstUse -- initialisation on first use, behind a flag and a lock

Whoever calls tests a flag. When it is set the caller takes a lock, carries out the initialisation,
clears the flag and releases the lock; when it is not set the call returns at once. The flag is not
tested again under the lock, so a caller may be at the lock with the flag cleared in the meantime.

The lock keeps the initialisations apart, and a call returns behind a completed one only
(`Orderly`). That there is one of them only holds just as long as each caller that comes to it still
finds the flag set (`along_stillRequired_iff`).

Nothing here mentions the operating system; callers are an arbitrary type.

The pattern is a flag tested without the lock, the lock taken, the work done, and the flag cleared, with
no second test behind the lock. The stages of a caller are what a reader of the code can tell its position
from, and the order in which the lock lets the callers through is all that the results depend on.
-/
import SmartblocksOs.Foundation.Runs

namespace SmartblocksOs.Foundation

variable {ι : Type}

/-! ## What has become of the calls -/

/-- What a call can come to. -/
inductive Milestone where
  /-- The caller enters the initialisation. -/
  | entered
  /-- The initialisation is completed. -/
  | completed
  /-- The call returns. -/
  | returned
  deriving DecidableEq, Repr

/-- The callers that have come to each of the milestones, the latest last. -/
structure Uses (ι : Type) where
  entered : List ι
  completed : List ι
  returned : List ι
  deriving DecidableEq, Repr

namespace Uses

/-- Nobody has come to anything. -/
def empty : Uses ι := ⟨[], [], []⟩

/-- `t` comes to the milestone, if it is one. -/
def after (u : Uses ι) (t : ι) : Option Milestone → Uses ι
  | some .entered => { u with entered := u.entered ++ [t] }
  | some .completed => { u with completed := u.completed ++ [t] }
  | some .returned => { u with returned := u.returned ++ [t] }
  | none => u

/-- The initialisation has been entered once at most; and when a call has returned, once, and that
one has been completed. -/
def Once (u : Uses ι) : Prop :=
  u.entered.length ≤ 1 ∧ (u.returned ≠ [] → u.entered.length = 1 ∧ u.completed = u.entered)

instance [DecidableEq ι] (u : Uses ι) : Decidable u.Once :=
  inferInstanceAs (Decidable (_ ∧ _))

/-- No entry is taken back. -/
theorem entered_length_le_after (u : Uses ι) (t : ι) (m : Option Milestone) :
    u.entered.length ≤ (u.after t m).entered.length := by
  cases m with
  | none => exact Nat.le_refl _
  | some m =>
      cases m with
      | entered =>
          show u.entered.length ≤ (u.entered ++ [t]).length
          simp
      | completed | returned => exact Nat.le_refl _

end Uses

/-! ## The callers and their steps -/

/-- Where a caller stands. -/
inductive Stage where
  | away
  /-- At the test of the flag. -/
  | testing
  /-- The flag was set; at the lock. -/
  | waiting
  /-- With the lock, before the initialisation. -/
  | entering
  /-- In the initialisation. -/
  | within
  /-- Behind the initialisation, before the flag is cleared. -/
  | clearing
  /-- Before the lock is released. -/
  | leaving
  deriving DecidableEq, Repr

/-- The caller has the lock. -/
def Stage.Locked : Stage → Prop
  | .away | .testing | .waiting => False
  | .entering | .within | .clearing | .leaving => True

/-- The state of the flag, the lock and the callers. -/
structure FirstUse (ι : Type) where
  /-- The flag. -/
  required : Bool
  /-- Who has the lock. -/
  owner : Option ι
  stage : ι → Stage
  uses : Uses ι

/-- A step of the caller `t`. -/
inductive UseEvent (ι : Type) where
  | call (t : ι)
  | test (t : ι)
  | take (t : ι)
  | enter (t : ι)
  | complete (t : ι)
  | clear (t : ι)
  | leave (t : ι)

namespace FirstUse

/-- Nobody has called yet. -/
def Initial (s : FirstUse ι) : Prop :=
  s.required = true ∧ s.owner = none ∧ (∀ t, s.stage t = .away) ∧ s.uses = .empty

/-- A caller that comes to the initialisation still finds the flag set. -/
def StillRequired (s : FirstUse ι) : UseEvent ι → Prop
  | .enter _ => s.required = true
  | .call _ | .test _ | .take _ | .complete _ | .clear _ | .leave _ => True

section

variable [DecidableEq ι]

/-- The caller `t` stands at `p`. -/
def goto (s : FirstUse ι) (t : ι) (p : Stage) : FirstUse ι :=
  { s with stage := Function.update s.stage t p }

/-- The caller `t` has come to the milestone `m`. -/
def reach (s : FirstUse ι) (t : ι) (m : Milestone) : FirstUse ι :=
  { s with uses := s.uses.after t (some m) }

/-- The lock changes hands. -/
def setOwner (s : FirstUse ι) (owner : Option ι) : FirstUse ι := { s with owner := owner }

/-- The flag is cleared. -/
def clearRequired (s : FirstUse ι) : FirstUse ι := { s with required := false }

/-- The steps of a call. The flag is tested once, before the lock is taken; `enter`, the step behind the
lock, does not look at it. -/
def step (s : FirstUse ι) : UseEvent ι → Option (FirstUse ι)
  | .call t => if s.stage t = .away then some (s.goto t .testing) else none
  | .test t =>
      if s.stage t = .testing then
        if s.required then some (s.goto t .waiting) else some ((s.goto t .away).reach t .returned)
      else none
  | .take t =>
      if s.stage t = .waiting ∧ s.owner = none then
        some ((s.goto t .entering).setOwner (some t))
      else none
  | .enter t =>
      if s.stage t = .entering then some ((s.goto t .within).reach t .entered) else none
  | .complete t =>
      if s.stage t = .within then some ((s.goto t .clearing).reach t .completed) else none
  | .clear t =>
      if s.stage t = .clearing then some (s.goto t .leaving).clearRequired else none
  | .leave t =>
      if s.stage t = .leaving then
        some (((s.goto t .away).setOwner none).reach t .returned)
      else none

end

/-! ## The order the lock makes

Whoever holds the lock is in one of the stages between taking and releasing it. The lists of those that
have entered, completed and cleared differ by this one caller at most. -/

/-- The owner of the lock, when it stands at `p`. -/
def ownerAt (s : FirstUse ι) (p : Stage) : List ι :=
  match s.owner with
  | some t => if s.stage t = p then [t] else []
  | none => []

/-- The owner is at the stage it is at. -/
theorem ownerAt_of_owner {s : FirstUse ι} {t : ι} (h : s.owner = some t) (p : Stage) :
    s.ownerAt p = if s.stage t = p then [t] else [] := by
  rw [ownerAt, h]

/-- Without an owner nobody is. -/
theorem ownerAt_of_free {s : FirstUse ι} (h : s.owner = none) (p : Stage) : s.ownerAt p = [] := by
  rw [ownerAt, h]

/-- Initialisations follow each other: those in `cleared` are over and have cleared the flag, and that
of the owner of the lock may be under way. -/
structure Orderly (s : FirstUse ι) (cleared : List ι) : Prop where
  locked : ∀ t, (s.stage t).Locked ↔ s.owner = some t
  required : s.required = true ↔ cleared = []
  completed : s.uses.completed = cleared ++ s.ownerAt .clearing
  entered : s.uses.entered = s.uses.completed ++ s.ownerAt .within
  returned : s.uses.returned ≠ [] → cleared ≠ []
  leaving : ∀ t, s.stage t = .leaving → cleared ≠ []

namespace Orderly

variable {s : FirstUse ι} {t : ι} {cleared : List ι}

/-- No call has been made. -/
theorem initial (h : s.Initial) : Orderly s [] := by
  obtain ⟨hrequired, howner, hstage, huses⟩ := h
  constructor
  · intro t
    rw [hstage t, howner]
    exact ⟨False.elim, nofun⟩
  · exact ⟨fun _ => rfl, fun _ => hrequired⟩
  · rw [huses, ownerAt_of_free howner]
    rfl
  · rw [huses, ownerAt_of_free howner]
    rfl
  · intro hreturned
    rw [huses] at hreturned
    exact absurd rfl hreturned
  · intro t ht
    rw [hstage t] at ht
    cases ht

variable (h : Orderly s cleared)
include h

/-- A caller in one of these stages holds the lock. -/
theorem owner_of_locked (ht : (s.stage t).Locked) : s.owner = some t := (h.locked t).mp ht

/-- A call that returns behind a completed initialisation. -/
theorem reach (hcleared : cleared ≠ []) : Orderly (s.reach t .returned) cleared :=
  ⟨h.locked, h.required, h.completed, h.entered, fun _ => hcleared, h.leaving⟩

/-- As long as there has been one of them at most, a call that has returned has done so behind it. -/
theorem once (hentered : s.uses.entered.length ≤ 1) : s.uses.Once := by
  refine ⟨hentered, fun hreturned => ?_⟩
  have hpos : 0 < cleared.length := List.length_pos_of_ne_nil (h.returned hreturned)
  have hlength := congrArg List.length h.entered
  rw [h.completed, List.length_append, List.length_append] at hlength
  have hwithin : s.ownerAt .within = [] := List.length_eq_zero_iff.mp (by omega)
  refine ⟨by omega, ?_⟩
  rw [h.entered, hwithin, List.append_nil]

/-- The caller at `t` has the lock, so none is in an initialisation. -/
theorem entered_of_entering (ht : s.stage t = .entering) : s.uses.entered = cleared := by
  have howner := h.owner_of_locked (t := t) (ht ▸ trivial)
  rw [h.entered, h.completed, ownerAt_of_owner howner, ownerAt_of_owner howner, ht]
  simp

end Orderly

variable [DecidableEq ι] {s s' : FirstUse ι} {t : ι} {p : Stage} {cleared : List ι}

/-- A caller without the lock moves past the owner. -/
theorem ownerAt_goto_of_ne (h : s.owner ≠ some t) (p q : Stage) :
    (s.goto t p).ownerAt q = s.ownerAt q := by
  cases howner : s.owner with
  | none => rw [ownerAt_of_free howner, ownerAt_of_free (show (s.goto t p).owner = none from howner)]
  | some u =>
      have hne : u ≠ t := by
        rintro rfl
        exact h howner
      rw [ownerAt_of_owner howner, ownerAt_of_owner (show (s.goto t p).owner = some u from howner)]
      show (if Function.update s.stage t p u = q then [u] else []) = _
      rw [Function.update_of_ne hne]

/-- The owner itself moves. -/
theorem ownerAt_goto_of_owner (h : s.owner = some t) (p q : Stage) :
    (s.goto t p).ownerAt q = if p = q then [t] else [] := by
  rw [ownerAt_of_owner (show (s.goto t p).owner = some t from h)]
  show (if Function.update s.stage t p t = q then [t] else []) = _
  rw [Function.update_self]

/-- A caller that had the lock and has it still, or had it not and has it not. -/
theorem locked_goto (h : ∀ u, (s.stage u).Locked ↔ s.owner = some u)
    (hp : p.Locked ↔ (s.stage t).Locked) (u : ι) :
    ((s.goto t p).stage u).Locked ↔ s.owner = some u := by
  show (Function.update s.stage t p u).Locked ↔ _
  by_cases hu : u = t
  · subst hu
    rw [Function.update_self, hp]
    exact h u
  · rw [Function.update_of_ne hu]
    exact h u

/-- Who leaves has cleared the flag. -/
theorem leaving_goto (h : ∀ u, s.stage u = .leaving → cleared ≠ [])
    (hp : p = .leaving → cleared ≠ []) (u : ι) (hu : (s.goto t p).stage u = .leaving) :
    cleared ≠ [] := by
  replace hu : Function.update s.stage t p u = .leaving := hu
  by_cases hut : u = t
  · subst hut
    rw [Function.update_self] at hu
    exact hp hu
  · rw [Function.update_of_ne hut] at hu
    exact h u hu

namespace Orderly

variable (h : Orderly s cleared)
include h

theorem goto (ht : ¬ (s.stage t).Locked) (hp : ¬ p.Locked) : Orderly (s.goto t p) cleared := by
  have howner : s.owner ≠ some t := fun howner => ht ((h.locked t).mpr howner)
  constructor
  · exact locked_goto h.locked (iff_of_false hp ht)
  · exact h.required
  · rw [ownerAt_goto_of_ne howner]
    exact h.completed
  · rw [ownerAt_goto_of_ne howner]
    exact h.entered
  · exact h.returned
  · apply leaving_goto h.leaving
    rintro rfl
    exact absurd trivial hp

/-- The lock is taken. -/
theorem take (ht : s.stage t = .waiting) (hfree : s.owner = none) :
    Orderly ((s.goto t .entering).setOwner (some t)) cleared := by
  have hat : ∀ {q}, Stage.entering ≠ q →
      ((s.goto t .entering).setOwner (some t)).ownerAt q = s.ownerAt q := by
    intro q hq
    rw [ownerAt_of_free hfree, ownerAt_of_owner (t := t) rfl]
    show (if Function.update s.stage t .entering t = q then [t] else []) = []
    rw [Function.update_self, if_neg hq]
  constructor
  · intro u
    show (Function.update s.stage t .entering u).Locked ↔ some t = some u
    by_cases hu : u = t
    · subst hu
      rw [Function.update_self]
      exact iff_of_true trivial rfl
    · rw [Function.update_of_ne hu, h.locked u, hfree]
      exact iff_of_false nofun fun heq => hu (Option.some.inj heq).symm
  · exact h.required
  · rw [hat (by decide)]
    exact h.completed
  · rw [hat (by decide)]
    exact h.entered
  · exact h.returned
  · exact leaving_goto h.leaving nofun

/-- The work is begun. -/
theorem enter (ht : s.stage t = .entering) :
    Orderly ((s.goto t .within).reach t .entered) cleared := by
  have howner := h.owner_of_locked (t := t) (ht ▸ trivial)
  constructor
  · exact locked_goto h.locked (iff_of_true trivial (ht ▸ trivial))
  · exact h.required
  · show s.uses.completed = cleared ++ (s.goto t .within).ownerAt .clearing
    rw [ownerAt_goto_of_owner howner, h.completed, ownerAt_of_owner howner, ht]
    rfl
  · show s.uses.entered ++ [t] = s.uses.completed ++ (s.goto t .within).ownerAt .within
    rw [ownerAt_goto_of_owner howner, h.entered, ownerAt_of_owner howner, ht]
    simp
  · exact h.returned
  · exact leaving_goto h.leaving nofun

/-- The work is done. -/
theorem complete (ht : s.stage t = .within) :
    Orderly ((s.goto t .clearing).reach t .completed) cleared := by
  have howner := h.owner_of_locked (t := t) (ht ▸ trivial)
  constructor
  · exact locked_goto h.locked (iff_of_true trivial (ht ▸ trivial))
  · exact h.required
  · show s.uses.completed ++ [t] = cleared ++ (s.goto t .clearing).ownerAt .clearing
    rw [ownerAt_goto_of_owner howner, h.completed, ownerAt_of_owner howner, ht]
    simp
  · show s.uses.entered = (s.uses.completed ++ [t]) ++ (s.goto t .clearing).ownerAt .within
    rw [ownerAt_goto_of_owner howner, h.entered, ownerAt_of_owner howner, ht]
    simp
  · exact h.returned
  · exact leaving_goto h.leaving nofun

/-- The flag is cleared. -/
theorem clear (ht : s.stage t = .clearing) :
    Orderly (s.goto t .leaving).clearRequired (cleared ++ [t]) := by
  have howner := h.owner_of_locked (t := t) (ht ▸ trivial)
  have hne : cleared ++ [t] ≠ [] := List.append_ne_nil_of_right_ne_nil cleared (List.cons_ne_nil t [])
  constructor
  · exact locked_goto h.locked (iff_of_true trivial (ht ▸ trivial))
  · exact iff_of_false Bool.false_ne_true hne
  · show s.uses.completed = (cleared ++ [t]) ++ (s.goto t .leaving).ownerAt .clearing
    rw [ownerAt_goto_of_owner howner, h.completed, ownerAt_of_owner howner, ht]
    simp
  · show s.uses.entered = s.uses.completed ++ (s.goto t .leaving).ownerAt .within
    rw [ownerAt_goto_of_owner howner, h.entered, ownerAt_of_owner howner, ht]
    rfl
  · exact fun _ => hne
  · exact fun _ _ => hne

/-- The lock is released, and the call returns. -/
theorem leave (ht : s.stage t = .leaving) :
    Orderly (((s.goto t .away).setOwner none).reach t .returned) cleared := by
  have howner := h.owner_of_locked (t := t) (ht ▸ trivial)
  constructor
  · intro u
    show (Function.update s.stage t .away u).Locked ↔ none = some u
    by_cases hu : u = t
    · subst hu
      rw [Function.update_self]
      exact iff_of_false id nofun
    · rw [Function.update_of_ne hu, h.locked u, howner]
      exact iff_of_false (fun heq => hu (Option.some.inj heq).symm) nofun
  · exact h.required
  · show s.uses.completed = cleared ++ []
    rw [h.completed, ownerAt_of_owner howner, ht]
    rfl
  · show s.uses.entered = s.uses.completed ++ []
    rw [h.entered, ownerAt_of_owner howner, ht]
    rfl
  · exact fun _ => h.leaving t ht
  · exact leaving_goto h.leaving nofun

/-- Every step keeps the initialisations one behind the other. -/
theorem next {e : UseEvent ι} (hst : s.step e = some s') : ∃ cleared', Orderly s' cleared' := by
  cases e with
  | call t =>
      obtain ⟨ht, hs⟩ := Option.ite_none_right_eq_some.mp hst
      obtain rfl := Option.some.inj hs
      exact ⟨cleared, h.goto (ht ▸ id) id⟩
  | test t =>
      obtain ⟨ht, hs⟩ := Option.ite_none_right_eq_some.mp hst
      cases hrequired : s.required with
      | true =>
          rw [hrequired] at hs
          obtain rfl := Option.some.inj hs
          exact ⟨cleared, h.goto (ht ▸ id) id⟩
      -- the flag is down, so that the call is over; somebody has cleared it, and thus completed the work
      | false =>
          rw [hrequired] at hs
          obtain rfl := Option.some.inj hs
          refine ⟨cleared, (h.goto (ht ▸ id) id).reach ?_⟩
          intro hcleared
          rw [h.required.mpr hcleared] at hrequired
          cases hrequired
  -- from here on the order is that of the lock
  | take t =>
      obtain ⟨ht, hs⟩ := Option.ite_none_right_eq_some.mp hst
      obtain rfl := Option.some.inj hs
      exact ⟨cleared, h.take ht.1 ht.2⟩
  | enter t =>
      obtain ⟨ht, hs⟩ := Option.ite_none_right_eq_some.mp hst
      obtain rfl := Option.some.inj hs
      exact ⟨cleared, h.enter ht⟩
  | complete t =>
      obtain ⟨ht, hs⟩ := Option.ite_none_right_eq_some.mp hst
      obtain rfl := Option.some.inj hs
      exact ⟨cleared, h.complete ht⟩
  | clear t =>
      obtain ⟨ht, hs⟩ := Option.ite_none_right_eq_some.mp hst
      obtain rfl := Option.some.inj hs
      exact ⟨cleared ++ [t], h.clear ht⟩
  | leave t =>
      obtain ⟨ht, hs⟩ := Option.ite_none_right_eq_some.mp hst
      obtain rfl := Option.some.inj hs
      exact ⟨cleared, h.leave ht⟩

/-! ## One of them only

The condition is on each step: that a caller that enters finds the flag still set, which the code does not
test. -/

/-- The first one to come to the initialisation finds the flag set, and the next one does not. -/
theorem entered_next {e : UseEvent ι} (hst : s.step e = some s')
    (hentered : s.uses.entered.length ≤ 1) :
    s'.uses.entered.length ≤ 1 ↔ s.StillRequired e := by
  cases e with
  | enter t =>
      obtain ⟨ht, hs⟩ := Option.ite_none_right_eq_some.mp hst
      obtain rfl := Option.some.inj hs
      show (s.uses.entered ++ [t]).length ≤ 1 ↔ s.required = true
      rw [h.entered_of_entering ht, h.required, List.length_append, List.length_singleton]
      constructor
      · intro hle
        exact List.length_eq_zero_iff.mp (by omega)
      · rintro rfl
        exact Nat.le_refl 1
  | call t | take t | complete t | clear t | leave t =>
      obtain ⟨-, hs⟩ := Option.ite_none_right_eq_some.mp hst
      obtain rfl := Option.some.inj hs
      exact iff_of_true hentered trivial
  | test t =>
      obtain ⟨-, hs⟩ := Option.ite_none_right_eq_some.mp hst
      split at hs
      · obtain rfl := Option.some.inj hs
        exact iff_of_true hentered trivial
      · obtain rfl := Option.some.inj hs
        exact iff_of_true hentered trivial

end Orderly

/-- Nothing that has been entered is taken back. -/
theorem step_entered_le {e : UseEvent ι} (hst : s.step e = some s') :
    s.uses.entered.length ≤ s'.uses.entered.length := by
  cases e with
  | enter t =>
      obtain ⟨-, hs⟩ := Option.ite_none_right_eq_some.mp hst
      obtain rfl := Option.some.inj hs
      exact Uses.entered_length_le_after s.uses t (some .entered)
  | call t | take t | complete t | clear t | leave t =>
      obtain ⟨-, hs⟩ := Option.ite_none_right_eq_some.mp hst
      obtain rfl := Option.some.inj hs
      exact Nat.le_refl _
  | test t =>
      obtain ⟨-, hs⟩ := Option.ite_none_right_eq_some.mp hst
      split at hs
      · obtain rfl := Option.some.inj hs
        exact Nat.le_refl _
      · obtain rfl := Option.some.inj hs
        exact Nat.le_refl _

/-- Calls that have entered are not taken back. -/
theorem run_entered_le {es : List (UseEvent ι)} (hrun : run step s es = some s') :
    s.uses.entered.length ≤ s'.uses.entered.length :=
  run_preserves (I := fun r => s.uses.entered.length ≤ r.uses.entered.length)
    (fun _ _ _ hle hst => Nat.le_trans hle (step_entered_le hst)) (Nat.le_refl _) hrun

/-- From an orderly state with one initialisation at most, that is what it stays at just when every
caller that comes to it still finds the flag set. -/
theorem Orderly.along_iff {es : List (UseEvent ι)} (h : Orderly s cleared)
    (hentered : s.uses.entered.length ≤ 1) (hrun : run step s es = some s') :
    Along step StillRequired s es ↔ s'.uses.entered.length ≤ 1 := by
  induction es generalizing s cleared with
  | nil =>
      obtain rfl := Option.some.inj hrun
      exact iff_of_true trivial hentered
  | cons e es ih =>
      obtain ⟨r, hst, hrun⟩ := run_cons_eq_some.mp hrun
      obtain ⟨cleared', hr⟩ := h.next hst
      have hone := h.entered_next hst hentered
      constructor
      · rintro ⟨hstill, hrest⟩
        exact (ih hr (hone.mpr hstill) hrun).mp (hrest r hst)
      · intro hle
        have hr1 : r.uses.entered.length ≤ 1 := Nat.le_trans (run_entered_le hrun) hle
        refine ⟨hone.mp hr1, fun q hq => ?_⟩
        obtain rfl := Option.some.inj (hst.symm.trans hq)
        exact (ih hr hr1 hrun).mpr hle

/-- The condition holds along a run just when the work has been done once in it. -/
theorem along_stillRequired_iff {es : List (UseEvent ι)} (hs : s.Initial) (hrun : run step s es = some s') :
    Along step StillRequired s es ↔ s'.uses.Once := by
  have hnone : s.uses.entered.length ≤ 1 := by
    rw [hs.2.2.2]
    exact Nat.zero_le 1
  rw [(Orderly.initial hs).along_iff hnone hrun]
  obtain ⟨cleared, h⟩ : ∃ cleared, Orderly s' cleared :=
    run_preserves (I := fun r => ∃ cleared, Orderly r cleared) (fun _ _ _ ⟨_, hr⟩ hst => hr.next hst)
      ⟨[], Orderly.initial hs⟩ hrun
  exact ⟨h.once, And.left⟩

end FirstUse

end SmartblocksOs.Foundation
