/-
# SmartblocksOs.Foundation.Rotation -- a pointer that goes round, and first fit

A pointer stands at one of `n` places, and at a switch goes on to the first place behind it, round the
circle, that is eligible (`FirstFit`). Seen from a place `i` that stays eligible, it comes closer to `i`
at every switch that does not select `i` (`Before`), so it selects no other place twice before it has
selected `i`. That is so also when places are added behind the last one in between.
-/
import SmartblocksOs.Foundation.Runs
import Mathlib.Data.List.Induction
import Mathlib.Data.Int.Order.Basic

namespace SmartblocksOs.Foundation

/-! ## The order of a round -/

/-- In the round that ends with `i` the place `x` comes before `y`. How many places there are does not
matter. -/
def Before (i x y : Int) : Prop := (i < x ∧ y ≤ i) ∨ (x < y ∧ (i < x ↔ i < y))

/-- The order of examination, seen from `i`, is transitive. -/
theorem Before.trans {i x y z : Int} (h : Before i x y) (h' : Before i y z) : Before i x z := by
  unfold Before at *
  omega

theorem Before.irrefl (i x : Int) : ¬ Before i x x := by
  unfold Before
  omega

/-- `next` is the first place behind `current` for which `p` holds, of the `n` places looked at one
after the other and round the circle. -/
def FirstFit (p : Int → Prop) (n current next : Int) : Prop :=
  ∃ k : Nat, 1 ≤ k ∧ next = (current + k) % n ∧ ∀ l : Nat, 1 ≤ l → l < k → ¬ p ((current + l) % n)

/-- First fit does not go past a place for which `p` holds. -/
theorem FirstFit.before {p : Int → Prop} {n current next i : Int} (h : FirstFit p n current next)
    (hcurrent : 0 ≤ current ∧ current < n) (hi : 0 ≤ i ∧ i < n) (hp : p i) (hne : next ≠ i)
    (hfrom : current ≠ i) : Before i current next := by
  obtain ⟨k, hk, rfl, hskip⟩ := h
  -- the distance from `current` to `i`
  obtain ⟨m, hm, hmod⟩ : ∃ m : Nat, ((current < i ∧ m = i - current) ∨
      (i < current ∧ m = i - current + n)) ∧ 1 ≤ m ∧ (current + m) % n = i := by
    rcases lt_or_gt_of_ne hfrom with hlt | hgt
    · refine ⟨(i - current).toNat, by omega, by omega, ?_⟩
      rw [show current + ((i - current).toNat : Int) = i by omega, Int.emod_eq_of_lt hi.1 hi.2]
    · refine ⟨(i - current + n).toNat, by omega, by omega, ?_⟩
      rw [show current + ((i - current + n).toNat : Int) = i + n by omega, Int.add_emod_right,
        Int.emod_eq_of_lt hi.1 hi.2]
  have hkm : k < m := by
    by_contra hge
    rcases Nat.eq_or_lt_of_le (Nat.le_of_not_lt hge) with rfl | hlt
    · exact hne hmod.2
    · exact hskip m hmod.1 hlt (by rw [hmod.2]; exact hp)
  by_cases hwrap : current + k < n
  · rw [Int.emod_eq_of_lt (by omega) hwrap]
    unfold Before
    omega
  · have heq : (current + k) % n = current + k - n := by
      rw [← Int.sub_emod_right, Int.emod_eq_of_lt (by omega) (by omega)]
    rw [heq]
    unfold Before
    omega

/-! ## Runs of a rotation -/

universe u v

variable {σ : Type u} {ε : Type v}

/-- A system with a pointer. -/
structure Rotation (σ : Type u) (ε : Type v) where
  current : σ → Int
  /-- The place is eligible, as the last switch has found it. -/
  Eligible : σ → Int → Prop
  /-- The events that set the pointer. -/
  Switches : ε → Prop

namespace Rotation

variable (R : Rotation σ ε)

/-- When two switches of a run select `j`, and another place `i` is eligible at every switch after the
first of them up to the second, then a switch strictly between them selects `i`. -/
def NoOvertaking (init : σ → Prop) (step : σ → ε → Option σ) : Prop :=
  ∀ (s s₁ s₂ t : σ) (e₁ e₂ : ε) (between : List ε) (i j : Int), Reachable init step s →
    R.Switches e₁ → step s e₁ = some s₁ → R.current s₁ = j →
    run step s₁ between = some s₂ →
    R.Switches e₂ → step s₂ e₂ = some t → R.current t = j →
    0 ≤ j → i ≠ j →
    (∀ es e fs u, between ++ [e₂] = es ++ e :: fs → R.Switches e →
      run step s₁ (es ++ [e]) = some u → R.Eligible u i) →
    ∃ es e fs u, between = es ++ e :: fs ∧ R.Switches e ∧ run step s₁ (es ++ [e]) = some u ∧
      R.current u = i

/-- The pointer goes on by first fit, among `count` places. -/
structure Walks (step : σ → ε → Option σ) (count : σ → Int) (good : σ → Prop) : Prop where
  range : ∀ s, good s → -1 ≤ R.current s ∧ R.current s < count s
  eligible : ∀ s i, good s → R.Eligible s i → 0 ≤ i ∧ i < count s
  keeps : ∀ s e t, good s → step s e = some t → good t
  stay : ∀ s e t, good s → step s e = some t → ¬ R.Switches e →
    R.current t = R.current s ∧ count s ≤ count t
  switch : ∀ s e t, good s → step s e = some t → R.Switches e →
    count t = count s ∧ ((∀ i, ¬ R.Eligible t i) ∨
      FirstFit (R.Eligible t) (count t) (R.current s) (R.current t))

variable {R}
variable {step : σ → ε → Option σ} {count : σ → Int} {good : σ → Prop}

/-- A switch at which `i` is eligible brings the pointer closer to `i`, or to `i` itself. -/
theorem Walks.closer (h : R.Walks step count good) {s t : σ} {e : ε} {i : Int} (hs : good s)
    (hst : step s e = some t) (he : R.Switches e) (hi : R.Eligible t i) (hpos : 0 ≤ R.current s)
    (hfrom : R.current s ≠ i) (hne : R.current t ≠ i) : Before i (R.current s) (R.current t) := by
  obtain ⟨hcount, hnone | hfirst⟩ := h.switch s e t hs hst he
  · exact absurd hi (hnone i)
  · refine hfirst.before ⟨hpos, ?_⟩ (h.eligible t i (h.keeps s e t hs hst) hi) hi hne hfrom
    rw [hcount]
    exact (h.range s hs).2

/-- As long as `i` is eligible and not selected, the pointer stays at `j` or goes on towards `i`. -/
theorem Walks.run_closer (h : R.Walks step count good) {i j : Int} (hj : 0 ≤ j) (hij : i ≠ j) :
    ∀ {es : List ε} {s t : σ}, good s → R.current s = j → run step s es = some t →
      (∀ fs e gs u, es = fs ++ e :: gs → R.Switches e → run step s (fs ++ [e]) = some u →
        R.Eligible u i ∧ R.current u ≠ i) →
      good t ∧ R.current t ≠ i ∧ 0 ≤ R.current t ∧ (R.current t = j ∨ Before i j (R.current t)) := by
  intro es
  -- on the run, from its end: the last step is a switch, or it is not
  induction es using List.reverseRecOn with
  | nil =>
      rintro s t hs hcur hrun -
      obtain rfl := Option.some.inj hrun
      exact ⟨hs, by rw [hcur]; exact hij.symm, by rw [hcur]; exact hj, Or.inl hcur⟩
  | append_singleton es e ih =>
      intro s t hs hcur hrun hall
      obtain ⟨m, hm, hst⟩ := run_concat_eq_some.mp hrun
      obtain ⟨hgood, hne, hpos, hat⟩ := ih hs hcur hm fun fs e' gs u heq hsw hu =>
        hall fs e' (gs ++ [e]) u (by rw [heq, List.append_assoc, List.cons_append]) hsw hu
      have hgood' := h.keeps m e t hgood hst
      by_cases hsw : R.Switches e
      -- a switch that does not choose `i` comes closer to it
      · obtain ⟨helig, hne'⟩ := hall es e [] t rfl hsw hrun
        have hbefore := h.closer hgood hst hsw helig hpos hne hne'
        refine ⟨hgood', hne', ?_, Or.inr ?_⟩
        · obtain ⟨hcount, hnone | ⟨k, -, hnext, -⟩⟩ := h.switch m e t hgood hst hsw
          · exact absurd helig (hnone i)
          · rw [hnext]
            have := h.eligible t i hgood' helig
            exact Int.emod_nonneg _ (by omega)
        · rcases hat with hsame | hgone
          · rw [hsame] at hbefore
            exact hbefore
          · exact hgone.trans hbefore
      -- between the switches nobody else is chosen
      · have hstay := (h.stay m e t hgood hst hsw).1
        rw [hstay]
        exact ⟨hgood', hne, hpos, hat⟩

/-- First fit overtakes nobody. -/
theorem Walks.noOvertaking (h : R.Walks step count good) {init : σ → Prop}
    (hinit : ∀ s, init s → good s) : R.NoOvertaking init step := by
  intro s s₁ s₂ t e₁ e₂ between i j hs he₁ hst₁ hj₁ hrun he₂ hst₂ hj₂ hj hij helig
  by_contra hnone
  have hgood₁ : good s₁ := h.keeps s e₁ s₁ (hs.invariant hinit h.keeps) hst₁
  obtain ⟨hgood₂, hne, hpos, hat⟩ := h.run_closer hj hij hgood₁ hj₁ hrun
    fun fs e gs u heq hsw hu => ⟨helig fs e (gs ++ [e₂]) u (by rw [heq, List.append_assoc,
      List.cons_append]) hsw hu, fun hcur => hnone ⟨fs, e, gs, u, heq, hsw, hu, hcur⟩⟩
  have hi : R.Eligible t i :=
    helig between e₂ [] t rfl he₂ (run_concat_eq_some.mpr ⟨s₂, hrun, hst₂⟩)
  have hbefore := h.closer hgood₂ hst₂ he₂ hi hpos hne (by rw [hj₂]; exact hij.symm)
  rw [hj₂] at hbefore
  rcases hat with hsame | hgone
  · rw [hsame] at hbefore
    exact Before.irrefl i j hbefore
  · exact Before.irrefl i j (hgone.trans hbefore)

end Rotation

end SmartblocksOs.Foundation
