/-
# SmartblocksOs.Foundation.Runs -- runs of a guarded, executable step function

A system is a function `step : σ → ε → Option σ`: `step s e` is `some t` when the event `e` may
happen in `s` and leads to `t`, and `none` when it may not. A finite run is a list of events. Three
rules are used over and over below: an invariant of one step is an invariant of a run, an invariant
kept only by steps that meet a side condition survives the runs all of whose steps meet it
(`Along`), and a relation that every step of one system carries to a run of another lifts to runs.

Nothing here mentions the operating system; states and events are arbitrary types.
-/
import Mathlib.Data.List.Basic
import Mathlib.Logic.Function.Basic

namespace SmartblocksOs.Foundation

universe u v w x

variable {σ : Type u} {ε : Type v}

/-! ## Runs and reachable states

A list of events is a schedule: the order in which things happen is chosen from outside, and quantifying
over lists is quantifying over all interleavings. -/

/-- Replay the events `es` from `s`; `none` when one of them is not possible where it stands. -/
def run (step : σ → ε → Option σ) (s : σ) (es : List ε) : Option σ :=
  es.foldlM step s

/-- Where an element stands in a list that grows at its end: last, or in the list as it was. -/
theorem concat_eq_append_cons {l pre post : List ε} {x y : ε} :
    l ++ [x] = pre ++ y :: post ↔
      (post = [] ∧ l = pre ∧ x = y) ∨ ∃ post', post = post' ++ [x] ∧ l = pre ++ y :: post' := by
  constructor
  · intro h
    rcases List.eq_nil_or_concat post with rfl | ⟨post', z, rfl⟩
    · obtain ⟨hl, hx⟩ := List.append_inj' h rfl
      exact Or.inl ⟨rfl, hl, (List.cons.inj hx).1⟩
    · rw [List.concat_eq_append, ← List.cons_append, ← List.append_assoc] at h
      obtain ⟨hl, hx⟩ := List.append_inj' h rfl
      obtain rfl : x = z := (List.cons.inj hx).1
      exact Or.inr ⟨post', List.concat_eq_append, hl⟩
  · rintro (⟨rfl, rfl, rfl⟩ | ⟨post', rfl, rfl⟩)
    · rfl
    · rw [← List.cons_append, ← List.append_assoc]

variable {step : σ → ε → Option σ}

@[simp]
theorem run_nil (s : σ) : run step s [] = some s := rfl

/-- The first step, and the run from where it leads. -/
theorem run_cons (s : σ) (e : ε) (es : List ε) :
    run step s (e :: es) = (step s e).bind fun t => run step t es := rfl

theorem run_append (s : σ) (es fs : List ε) :
    run step s (es ++ fs) = (run step s es).bind fun t => run step t fs := by
  simp only [run, List.foldlM_append]
  rfl

/-- The last event of a run, taken off. -/
theorem run_concat_eq_some {s t : σ} {es : List ε} {e : ε} :
    run step s (es ++ [e]) = some t ↔ ∃ m, run step s es = some m ∧ step m e = some t := by
  rw [run_append, Option.bind_eq_some_iff]
  refine exists_congr fun m => and_congr_right fun _ => ?_
  rw [run_cons, Option.bind_eq_some_iff]
  simp

/-- A run that does not get stuck, at its first step. -/
theorem run_cons_eq_some {s t : σ} {e : ε} {es : List ε} :
    run step s (e :: es) = some t ↔ ∃ m, step s e = some m ∧ run step m es = some t := by
  rw [run_cons, Option.bind_eq_some_iff]

/-- A state some run from an initial state ends in. -/
def Reachable (init : σ → Prop) (step : σ → ε → Option σ) (s : σ) : Prop :=
  ∃ s₀ es, init s₀ ∧ run step s₀ es = some s

variable {init : σ → Prop}

/-- An initial state is reached by it. -/
theorem Reachable.start {s : σ} (h : init s) : Reachable init step s :=
  ⟨s, [], h, rfl⟩

/-- What a run from a reachable state comes to is reachable. -/
theorem Reachable.run {s t : σ} {es : List ε} (h : Reachable init step s)
    (hrun : run step s es = some t) : Reachable init step t := by
  obtain ⟨s₀, fs, h₀, hs⟩ := h
  refine ⟨s₀, fs ++ es, h₀, ?_⟩
  rw [run_append, hs]
  exact hrun

theorem Reachable.next {s t : σ} {e : ε} (h : Reachable init step s) (hst : step s e = some t) :
    Reachable init step t :=
  h.run (show SmartblocksOs.Foundation.run step s [e] = some t by rw [run_cons, hst]; rfl)

/-! ## Invariants

The induction over runs that every module uses, and its form for reachable states. -/

/-- What every step keeps, every run keeps. -/
theorem run_preserves {I : σ → Prop} (hI : ∀ s e t, I s → step s e = some t → I t) :
    ∀ {es : List ε} {s t : σ}, I s → run step s es = some t → I t
  | [], s, t, hs, h => by
      obtain rfl : s = t := Option.some.inj h
      exact hs
  | e :: es, s, t, hs, h => by
      obtain ⟨m, hm, hrest⟩ := run_cons_eq_some.mp h
      exact run_preserves hI (hI s e m hs hm) hrest

/-- An invariant that holds initially and is kept by every step holds in every reachable state. -/
theorem Reachable.invariant {I : σ → Prop} (h₀ : ∀ s, init s → I s)
    (hI : ∀ s e t, I s → step s e = some t → I t) {s : σ} (h : Reachable init step s) : I s := by
  obtain ⟨s₀, es, hs₀, hrun⟩ := h
  exact run_preserves hI (h₀ s₀ hs₀) hrun

/-! ## Runs whose steps all meet a side condition

For properties that fail on some runs: `Along` speaks of the state before each step, so that a condition
on states and events becomes one on runs. -/

/-- Every event of the run is taken in a state that satisfies `ok`. -/
def Along (step : σ → ε → Option σ) (ok : σ → ε → Prop) : σ → List ε → Prop
  | _, [] => True
  | s, e :: es => ok s e ∧ ∀ t, step s e = some t → Along step ok t es

instance Along.decidable (step : σ → ε → Option σ) (ok : σ → ε → Prop)
    [∀ s e, Decidable (ok s e)] : ∀ s es, Decidable (Along step ok s es)
  | _, [] => isTrue trivial
  | s, e :: es =>
      have : Decidable (∀ t, step s e = some t → Along step ok t es) :=
        match hst : step s e with
        | none => isTrue (by simp)
        | some t =>
            have := Along.decidable step ok t es
            decidable_of_iff (Along step ok t es) (by simp)
      inferInstanceAs (Decidable (_ ∧ _))

variable {ok : σ → ε → Prop}

/-- A condition along two runs, one after the other. -/
theorem along_append {s : σ} {es fs : List ε} :
    Along step ok s (es ++ fs) ↔
      Along step ok s es ∧ ∀ t, run step s es = some t → Along step ok t fs := by
  induction es generalizing s with
  | nil => simp [Along]
  | cons e es ih =>
      simp only [List.cons_append, Along]
      constructor
      · rintro ⟨he, hrest⟩
        refine ⟨⟨he, fun t ht => (ih.mp (hrest t ht)).1⟩, fun t ht => ?_⟩
        obtain ⟨m, hm, hrun⟩ := run_cons_eq_some.mp ht
        exact (ih.mp (hrest m hm)).2 t hrun
      · rintro ⟨⟨he, hes⟩, hfs⟩
        refine ⟨he, fun m hm => ih.mpr ⟨hes m hm, fun t ht => hfs t ?_⟩⟩
        exact run_cons_eq_some.mpr ⟨m, hm, ht⟩

theorem along_iff {s : σ} {es : List ε} :
    Along step ok s es ↔
      ∀ before e after t, es = before ++ e :: after → run step s before = some t → ok t e := by
  induction es generalizing s with
  | nil => simp [Along]
  | cons e es ih =>
      simp only [Along]
      constructor
      · rintro ⟨he, hrest⟩ before e' after t heq hrun
        cases before with
        | nil =>
            obtain ⟨rfl, -⟩ := List.cons.inj heq
            obtain rfl := Option.some.inj hrun
            exact he
        | cons b before =>
            obtain ⟨rfl, htail⟩ := List.cons.inj heq
            obtain ⟨m, hm, hrun⟩ := run_cons_eq_some.mp hrun
            exact ih.mp (hrest m hm) before e' after t htail hrun
      · intro h
        refine ⟨h [] e es s rfl rfl, fun m hm => ih.mpr fun before e' after t heq hrun => ?_⟩
        apply h (e :: before) e' after t (by rw [heq, List.cons_append])
        exact run_cons_eq_some.mpr ⟨m, hm, hrun⟩

/-- An invariant kept by the steps that meet `ok` survives a run whose steps all do. -/
theorem run_preserves_along {I : σ → Prop}
    (hI : ∀ s e t, I s → ok s e → step s e = some t → I t) :
    ∀ {es : List ε} {s t : σ}, I s → Along step ok s es → run step s es = some t → I t
  | [], s, t, hs, _, h => by
      obtain rfl : s = t := Option.some.inj h
      exact hs
  | e :: es, s, t, hs, hok, h => by
      obtain ⟨m, hm, hrest⟩ := run_cons_eq_some.mp h
      exact run_preserves_along hI (hI s e m hs hok.1 hm) (hok.2 m hm) hrest

theorem Along.and {ok' : σ → ε → Prop} :
    ∀ {es : List ε} {s : σ}, Along step ok s es → Along step ok' s es →
      Along step (fun s e => ok s e ∧ ok' s e) s es
  | [], _, _, _ => trivial
  | _ :: _, _, h, h' => ⟨⟨h.1, h'.1⟩, fun t ht => Along.and (h.2 t ht) (h'.2 t ht)⟩

/-- A side condition may be weakened at the states an invariant allows. -/
theorem Along.mono {ok' : σ → ε → Prop} {I : σ → Prop}
    (hI : ∀ s e t, I s → step s e = some t → I t) (hok : ∀ s e, I s → ok s e → ok' s e) :
    ∀ {es : List ε} {s : σ}, I s → Along step ok s es → Along step ok' s es
  | [], _, _, _ => trivial
  | e :: _, s, hs, h =>
      ⟨hok s e hs h.1, fun t ht => Along.mono hI hok (hI s e t hs ht) (h.2 t ht)⟩

/-! ## Simulation

A step of the one system may be matched by any number of steps of the other. -/

variable {τ : Type w} {δ : Type x} {astep : τ → δ → Option τ}

/-- When every step of the concrete system is matched by a run of the abstract one that ends in a
related state, so is every run. -/
theorem run_simulates {R : σ → τ → Prop}
    (hsim : ∀ s e t a, R s a → step s e = some t → ∃ ds b, run astep a ds = some b ∧ R t b) :
    ∀ {es : List ε} {s t : σ} {a : τ}, R s a → run step s es = some t →
      ∃ ds b, run astep a ds = some b ∧ R t b
  | [], s, t, a, hs, h => by
      obtain rfl : s = t := Option.some.inj h
      exact ⟨[], a, rfl, hs⟩
  | e :: es, s, t, a, hs, h => by
      obtain ⟨m, hm, hrest⟩ := run_cons_eq_some.mp h
      obtain ⟨ds, b, hds, hb⟩ := hsim s e m a hs hm
      obtain ⟨fs, c, hfs, hc⟩ := run_simulates hsim hb hrest
      refine ⟨ds ++ fs, c, ?_, hc⟩
      rw [run_append, hds]
      exact hfs

/-- The same for side conditions, when every step meets its own just when the run that matches it does. -/
theorem run_simulates_along {R : σ → τ → Prop} {aok : τ → δ → Prop}
    (hsim : ∀ s e t a, R s a → step s e = some t → ∃ ds b, run astep a ds = some b ∧ R t b ∧
      (ok s e ↔ Along astep aok a ds)) :
    ∀ {es : List ε} {s t : σ} {a : τ}, R s a → run step s es = some t →
      ∃ ds b, run astep a ds = some b ∧ R t b ∧ (Along step ok s es ↔ Along astep aok a ds)
  | [], s, t, a, hs, h => by
      obtain rfl : s = t := Option.some.inj h
      exact ⟨[], a, rfl, hs, Iff.rfl⟩
  | e :: es, s, t, a, hs, h => by
      obtain ⟨m, hm, hrest⟩ := run_cons_eq_some.mp h
      obtain ⟨ds, b, hds, hb, hok⟩ := hsim s e m a hs hm
      obtain ⟨fs, c, hfs, hc, halong⟩ := run_simulates_along hsim hb hrest
      refine ⟨ds ++ fs, c, ?_, hc, ?_⟩
      · rw [run_append, hds]
        exact hfs
      · rw [along_append, Along, hok, hm, hds]
        simp only [Option.some.injEq, forall_eq']
        rw [halong]

end SmartblocksOs.Foundation
