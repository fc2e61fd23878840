/-
# SmartblocksOs.Foundation.ReadModifyWrite -- updates of the fields of shared words

A word holds several fields, and is read and written as a whole. To set one field a party reads the
word, changes the field in its copy, and writes the copy back; between the two the other parties may do
the same. So a party writes the other fields back as well, as they were when it read them.

An update is `Current` when it writes back what the other fields still are. In a run the fields are kept
in every state, each with its own update and no other, just when all updates are current when they are
written (`along_current_iff`). Words, fields and parties are arbitrary types.
-/
import SmartblocksOs.Foundation.Runs

namespace SmartblocksOs.Foundation

variable {C W F M ι : Type}

/-- Fields in words: the field `f` is in the word `cell f`, which holds others too. -/
structure Fields (C W F M : Type) where
  cell : F → C
  get : W → F → M
  put : W → F → M → W
  get_put_self : ∀ w f m, get (put w f m) f = m
  get_put_of_ne : ∀ w f m f', f' ≠ f → cell f' = cell f → get (put w f m) f' = get w f'

/-- Where an update stands. -/
inductive UpdatePc (W : Type) where
  | start
  /-- The word has been read. -/
  | holding (w : W)
  | finished

/-- The words, and the updates of the parties `ι`. -/
structure Shared (C W ι : Type) where
  word : C → W
  pc : ι → UpdatePc W

/-- One update for each party. -/
structure Updates (C W F M ι : Type) extends Fields C W F M where
  field : ι → F
  value : ι → M

namespace Updates

variable (A : Updates C W F M ι)

/-- What the field `f` holds. -/
def holds (word : C → W) (f : F) : M := A.get (word (A.cell f)) f

section

variable [DecidableEq C] [DecidableEq ι]

/-- Party `i` reads its word, or writes it back. -/
def step (s : Shared C W ι) (i : ι) : Option (Shared C W ι) :=
  match s.pc i with
  | .start =>
      some { s with pc := Function.update s.pc i (.holding (s.word (A.cell (A.field i)))) }
  | .holding w =>
      some
        { word := Function.update s.word (A.cell (A.field i)) (A.put w (A.field i) (A.value i))
          pc := Function.update s.pc i .finished }
  | .finished => none

end

/-- When `i` writes its word back, the other fields in it are as `i` has read them. -/
def Current (s : Shared C W ι) (i : ι) : Prop :=
  ∀ w, s.pc i = .holding w → ∀ f, f ≠ A.field i → A.cell f = A.cell (A.field i) →
    A.holds s.word f = A.get w f

/-- Every update that is through has set its field, and every other field is as it was before. -/
structure Kept (before : C → W) (s : Shared C W ι) : Prop where
  updated : ∀ i, s.pc i = .finished → A.holds s.word (A.field i) = A.value i
  others : ∀ f, (∀ i, s.pc i = .finished → A.field i ≠ f) → A.holds s.word f = A.holds before f

variable {A}
variable {s t : Shared C W ι} {i : ι}

/-- Before anyone has begun, the word is what it is. -/
theorem Kept.start (h : ∀ i, s.pc i = .start) : A.Kept s.word s := by
  refine ⟨fun i hi => ?_, fun f _ => rfl⟩
  rw [h i] at hi
  exact absurd hi (by simp)

variable [DecidableEq C] [DecidableEq ι]

/-- What a step does: a read touches no word, a write one field and the rest of its word. -/
theorem step_cases (h : A.step s i = some t) :
    (s.pc i = .start ∧ t.word = s.word ∧ ∀ j, t.pc j = .finished ↔ s.pc j = .finished) ∨
      ∃ w, s.pc i = .holding w ∧ (∀ j, t.pc j = .finished ↔ j = i ∨ s.pc j = .finished) ∧
        A.holds t.word (A.field i) = A.value i ∧
        ∀ f, f ≠ A.field i → A.holds t.word f =
          if A.cell f = A.cell (A.field i) then A.get w f else A.holds s.word f := by
  unfold step at h
  split at h
  -- the word is read: nothing has changed for anybody
  · rename_i hpc
    obtain rfl := Option.some.inj h
    refine Or.inl ⟨hpc, rfl, fun j => ?_⟩
    by_cases hj : j = i
    · subst hj
      simp [hpc]
    · simp [hj]
  -- the word is written back, with the fields of its cell as they were read
  · rename_i w hpc
    obtain rfl := Option.some.inj h
    refine Or.inr ⟨w, hpc, fun j => ?_, ?_, fun f hf => ?_⟩
    · by_cases hj : j = i
      · simp [hj]
      · simp [hj]
    · simp only [holds, Function.update_self, A.get_put_self]
    · by_cases hcell : A.cell f = A.cell (A.field i)
      · simp only [holds, hcell, Function.update_self, if_true]
        exact A.get_put_of_ne _ _ _ _ hf hcell
      · simp only [holds, Function.update_of_ne hcell, if_neg hcell]
  · exact absurd h (by simp)

/-- A step that is current keeps the fields. -/
theorem Kept.step {before : C → W} (hinj : Function.Injective A.field) (hs : A.Kept before s)
    (hcurrent : A.Current s i) (hst : A.step s i = some t) : A.Kept before t := by
  rcases step_cases hst with ⟨-, hword, hpc⟩ | ⟨w, hheld, hpc, hself, hother⟩
  · refine ⟨fun j hj => ?_, fun f hf => ?_⟩
    · rw [hword]
      exact hs.updated j ((hpc j).mp hj)
    · rw [hword]
      exact hs.others f fun j hj => hf j ((hpc j).mpr hj)
  · -- the other fields of the word are written back as they are
    have hsame : ∀ f, f ≠ A.field i → A.holds t.word f = A.holds s.word f := by
      intro f hf
      rw [hother f hf]
      split
      · rename_i hcell
        exact (hcurrent w hheld f hf hcell).symm
      · rfl
    refine ⟨fun j hj => ?_, fun f hf => ?_⟩
    · by_cases hji : j = i
      · rw [hji, hself]
      · rw [hsame _ fun heq => hji (hinj heq)]
        exact hs.updated j (((hpc j).mp hj).resolve_left hji)
    · rw [hsame f (Ne.symm (hf i ((hpc i).mpr (Or.inl rfl))))]
      exact hs.others f fun j hj => hf j ((hpc j).mpr (Or.inr hj))

/-- A step that keeps the fields is current. -/
theorem Kept.current {before : C → W} (hs : A.Kept before s) (ht : A.Kept before t)
    (hst : A.step s i = some t) : A.Current s i := by
  rcases step_cases hst with ⟨hstart, -, -⟩ | ⟨w, hheld, hpc, -, hother⟩
  · intro w hw
    rw [hstart] at hw
    exact absurd hw (by simp)
  · intro w' hw' f hf hcell
    obtain rfl := UpdatePc.holding.inj (hheld.symm.trans hw')
    have hsame : A.holds t.word f = A.holds s.word f := by
      by_cases hthrough : ∃ j, s.pc j = .finished ∧ A.field j = f
      · obtain ⟨j, hj, rfl⟩ := hthrough
        rw [hs.updated j hj, ht.updated j ((hpc j).mpr (Or.inr hj))]
      · have hnone : ∀ j, s.pc j = .finished → A.field j ≠ f :=
          fun j hj heq => hthrough ⟨j, hj, heq⟩
        rw [hs.others f hnone, ht.others f]
        intro j hj
        rcases (hpc j).mp hj with rfl | hj
        · exact Ne.symm hf
        · exact hnone j hj
    rw [← hsame, hother f hf, if_pos hcell]

/-- An update that no other one interrupts is current. -/
theorem along_alone (hpc : s.pc i = .start) : Along A.step A.Current s [i, i] := by
  refine ⟨fun w hw => absurd (hpc.symm.trans hw) (by simp), fun t ht => ⟨fun w hw f _ hcell => ?_,
    fun _ _ => trivial⟩⟩
  simp only [step, hpc, Option.some.injEq] at ht
  subst ht
  obtain rfl : s.word (A.cell (A.field i)) = w := by
    simpa only [Function.update_self, UpdatePc.holding.injEq] using hw
  simp only [holds, hcell]

/-- Whatever the order of the steps: all updates are current when they are written just when the fields
are kept in every state of the run. -/
theorem along_current_iff (hinj : Function.Injective A.field) {es : List ι}
    (hstart : ∀ i, s.pc i = .start) (hrun : run A.step s es = some t) :
    Along A.step A.Current s es ↔
      ∀ fs gs u, es = fs ++ gs → run A.step s fs = some u → A.Kept s.word u := by
  constructor
  · rintro halong fs gs u rfl hu
    exact run_preserves_along (fun _ _ _ hs hok hst => hs.step hinj hok hst) (Kept.start hstart)
      (along_append.mp halong).1 hu
  · intro hkept
    apply along_iff.mpr
    intro fs i gs u heq hu
    subst heq
    obtain ⟨v, hv, -⟩ : ∃ v, A.step u i = some v ∧ run A.step v gs = some t := by
      rw [run_append, hu] at hrun
      exact run_cons_eq_some.mp hrun
    refine (hkept fs (i :: gs) u rfl hu).current ?_ hv
    exact hkept (fs ++ [i]) gs v (by rw [List.append_assoc]; rfl)
      (run_concat_eq_some.mpr ⟨u, hu, hv⟩)

end Updates

end SmartblocksOs.Foundation
