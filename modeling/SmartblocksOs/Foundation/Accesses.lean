/-
# SmartblocksOs.Foundation.Accesses -- the variables that a run accesses

Next to what a run of a program comes to stands what it accesses on the way (`accesses`): every variable
that it loads or stores, also in a run that does not end. `Touches` says that some run gets as far as an
access of `x`, and `Safe` that all accesses are of variables that may be accessed and that the results are
as said. Each comes with one rule for each construct, and a loop has an invariant. Where every access is
`ok`, what is left of `Safe` is partial correctness (`Ensures`).

`accesses` is computed along the run, so that it is defined for runs that do not end as well; `Safe` is
its weakest precondition, with a clause for each action, and the rules below have the shape of those for
`Total`. Safety is about every access, and `Touches` about one: a run touches a variable as soon as it
gets there, whatever happens afterwards.
-/
import SmartblocksOs.Foundation.Execution

namespace SmartblocksOs.Foundation

variable {X : Type} {V : X → Type} {L E D α β : Type}

/-! ## Accesses

The list is in the order of the accesses and says nothing of values. A run that is cut off for lack of
fuel has accessed what it has accessed, so that more fuel only adds to the list. -/

/-- What is accessed in at most `fuel` rounds; `seen` is what one round accesses. -/
def roundAccesses {M : Type} (round : M → Option (Bool × M)) (seen : M → List X) :
    Nat → M → List X
  | 0, _ => []
  | fuel + 1, m =>
      seen m ++ (round m).elim [] fun r => if r.1 then roundAccesses round seen fuel r.2 else []

/-- With more fuel, and rounds that get further, a loop accesses no less. -/
theorem roundAccesses_mono {M : Type} {round round' : M → Option (Bool × M)} {seen seen' : M → List X}
    (hround : ∀ m r, round m = some r → round' m = some r) (hseen : ∀ m, seen m ⊆ seen' m) :
    ∀ {fuel fuel' : Nat} (m : M), fuel ≤ fuel' →
      roundAccesses round seen fuel m ⊆ roundAccesses round' seen' fuel' m
  | 0, _, _, _ => List.nil_subset _
  | fuel + 1, fuel' + 1, m, hle => by
      unfold roundAccesses
      cases hr : round m with
      | none => exact fun x hx => List.mem_append_left _ (hseen m (by simpa using hx))
      | some r =>
          rw [hround m r hr]
          obtain ⟨more, n⟩ := r
          cases more with
          | false => exact fun x hx => List.mem_append_left _ (hseen m (by simpa using hx))
          | true =>
              intro x hx
              rcases List.mem_append.mp hx with hx | hx
              · exact List.mem_append_left _ (hseen m hx)
              · apply List.mem_append_right
                exact roundAccesses_mono hround hseen n (Nat.le_of_succ_le_succ hle) hx

namespace Prog

variable [DecidableEq X]

/-- The variables that a run loads or stores, one after the other. -/
def accesses (react : Reaction V D) (fuel : Nat) {α : Type} :
    Prog X V L E α → Machine V E D → List X
  | .ret _, _ => []
  | .load x k, m => x :: accesses react fuel (k (m.vars x)) m
  | .store x v k, m => x :: accesses react fuel k (m.store react x v)
  | .lock _ k, m | .unlock _ k, m | .pause k, m => accesses react fuel k m
  | .observe f k, m => accesses react fuel k { m with log := m.log ++ [f m.vars] }
  | .loop body k, m =>
      roundAccesses (exec react fuel body) (accesses react fuel body) fuel m ++
        (repeatRounds (exec react fuel body) fuel m).elim [] (accesses react fuel k)

variable {react : Reaction V D}

/-- The accesses of a composition: those of the first part, and of the rest from where it returns. -/
theorem accesses_bind (fuel : Nat) (p : Prog X V L E α) (f : α → Prog X V L E β) (m : Machine V E D) :
    accesses react fuel (p.bind f) m = accesses react fuel p m ++
      (exec react fuel p m).elim [] fun r => accesses react fuel (f r.1) r.2 := by
  induction p generalizing m with
  | ret a => rfl
  | load x k ih => exact congrArg (x :: ·) (ih _ f m)
  | store x v k ih => exact congrArg (x :: ·) (ih f _)
  | lock l k ih => exact ih f m
  | unlock l k ih => exact ih f m
  | pause k ih => exact ih f m
  | observe g k ih => exact ih f _
  | loop body k _ ihk =>
      simp only [Prog.bind, accesses, exec, List.append_assoc]
      congr 1
      cases repeatRounds (exec react fuel body) fuel m with
      | none => rfl
      | some n => exact ihk f n

/-- With more fuel nothing is left out. -/
theorem accesses_mono {fuel fuel' : Nat} (hle : fuel ≤ fuel') (p : Prog X V L E α)
    (m : Machine V E D) : accesses react fuel p m ⊆ accesses react fuel' p m := by
  induction p generalizing m with
  | ret a => exact List.nil_subset _
  | load x k ih => exact List.cons_subset_cons x (ih _ m)
  | store x v k ih => exact List.cons_subset_cons x (ih _)
  | lock l k ih => exact ih m
  | unlock l k ih => exact ih m
  | pause k ih => exact ih m
  | observe g k ih => exact ih _
  | loop body k ihbody ihk =>
      intro x hx
      rcases List.mem_append.mp hx with hx | hx
      · apply List.mem_append_left
        exact roundAccesses_mono (fun _ _ => exec_mono hle) ihbody m hle hx
      · apply List.mem_append_right
        cases hr : repeatRounds (exec react fuel body) fuel m with
        | none =>
            rw [hr] at hx
            exact absurd hx List.not_mem_nil
        | some n =>
            rw [hr] at hx
            rw [repeatRounds_mono (fun _ _ => exec_mono hle) hle hr]
            exact ihk n hx

/-- What the first of two programs accesses is accessed. -/
theorem accesses_bind_left {fuel : Nat} {p : Prog X V L E α} {f : α → Prog X V L E β}
    {m : Machine V E D} {x : X} (hx : x ∈ accesses react fuel p m) :
    x ∈ accesses react fuel (p >>= f) m := by
  show x ∈ accesses react fuel (p.bind f) m
  rw [accesses_bind]
  exact List.mem_append_left _ hx

/-- The accesses of the second program, on the machine that the first one has left. -/
theorem accesses_bind_right {fuel : Nat} {p : Prog X V L E α} {f : α → Prog X V L E β}
    {m m' : Machine V E D} {a : α} {x : X} (hexec : exec react fuel p m = some (a, m'))
    (hx : x ∈ accesses react fuel (f a) m') : x ∈ accesses react fuel (p >>= f) m := by
  show x ∈ accesses react fuel (p.bind f) m
  rw [accesses_bind, hexec]
  exact List.mem_append_right _ hx

end Prog

/-! ## Safety

The rules are equations wherever they can be, so that `simp only` walks along a program. -/

section

variable [DecidableEq X] {react : Reaction V D}

/-- Every run accesses variables only that are `ok`, and `Q` holds when it returns. -/
def Safe (react : Reaction V D) (ok : X → Prop) (p : Prog X V L E α) (m : Machine V E D)
    (Q : α → Machine V E D → Prop) : Prop :=
  ∀ fuel, (∀ x ∈ p.accesses react fuel m, ok x) ∧
    ∀ a m', p.exec react fuel m = some (a, m') → Q a m'

namespace Safe

variable {ok : X → Prop} {p : Prog X V L E α} {m : Machine V E D} {Q Q' : α → Machine V E D → Prop}

/-- Less may be said of the end. -/
theorem mono (h : Safe react ok p m Q) (hQ : ∀ a m', Q a m' → Q' a m') : Safe react ok p m Q' :=
  fun fuel => ⟨(h fuel).1, fun a m' hexec => hQ a m' ((h fuel).2 a m' hexec)⟩

theorem total (h : Safe react ok p m Q) (ht : Total react p m Q') :
    Safe react ok p m fun a m' => Q a m' ∧ Q' a m' :=
  fun fuel => ⟨(h fuel).1, fun a m' hexec => ⟨(h fuel).2 a m' hexec, ht.of_exec hexec⟩⟩

/-- The end of the first program is the start of the second. -/
theorem bind {f : α → Prog X V L E β} {R : β → Machine V E D → Prop}
    (h : Safe react ok p m fun a m' => Safe react ok (f a) m' R) : Safe react ok (p >>= f) m R := by
  intro fuel
  obtain ⟨hp, hf⟩ := h fuel
  constructor
  · intro x hx
    replace hx : x ∈ (p.bind f).accesses react fuel m := hx
    rw [Prog.accesses_bind] at hx
    rcases List.mem_append.mp hx with hx | hx
    · exact hp x hx
    · cases hexec : p.exec react fuel m with
      | none =>
          rw [hexec] at hx
          exact absurd hx List.not_mem_nil
      | some r =>
          rw [hexec] at hx
          exact (hf r.1 r.2 hexec fuel).1 x hx
  · intro b m'' hexec
    obtain ⟨a, m', ha, hb⟩ := Prog.exec_bind_eq_some hexec
    exact (hf a m' ha fuel).2 b m'' hb

/-- The same with a fact stated in between. -/
theorem seq {f : α → Prog X V L E β} {R : β → Machine V E D → Prop} (h : Safe react ok p m Q)
    (hf : ∀ a m', Q a m' → Safe react ok (f a) m' R) : Safe react ok (p >>= f) m R :=
  bind (h.mono hf)

/-! The rules as equations. A load and a store have to be allowed, and the other actions access nothing.
-/

@[simp] theorem bind_iff {f : α → Prog X V L E β} {R : β → Machine V E D → Prop} :
    Safe react ok (p >>= f) m R ↔ Safe react ok p m fun a m' => Safe react ok (f a) m' R := by
  refine ⟨fun h fuel => ⟨fun x hx => (h fuel).1 x (Prog.accesses_bind_left hx), ?_⟩, bind⟩
  intro a m' hexec fuel'
  -- enough fuel for both
  have hle := Nat.le_max_left fuel fuel'
  have hle' := Nat.le_max_right fuel fuel'
  have hboth := Prog.exec_mono hle hexec
  constructor
  · intro x hx
    apply (h (max fuel fuel')).1
    exact Prog.accesses_bind_right hboth (Prog.accesses_mono hle' (f a) m' hx)
  · intro b m'' hexec'
    apply (h (max fuel fuel')).2
    apply (Prog.exec_bind _ p f m).trans
    rw [hboth]
    exact Prog.exec_mono hle' hexec'

@[simp] theorem pure_iff {a : α} : Safe react ok (pure a : Prog X V L E α) m Q ↔ Q a m := by
  constructor
  · exact fun h => (h 0).2 a m rfl
  · intro h fuel
    refine ⟨fun x hx => absurd hx List.not_mem_nil, fun b m' hexec => ?_⟩
    obtain ⟨rfl, rfl⟩ := Prod.mk.inj (Option.some.inj hexec)
    exact h

@[simp] theorem read_iff {x : X} {Q : V x → Machine V E D → Prop} :
    Safe react ok (Prog.read (L := L) x) m Q ↔ ok x ∧ Q (m.vars x) m := by
  constructor
  · exact fun h => ⟨(h 0).1 x List.mem_cons_self, (h 0).2 _ m rfl⟩
  · rintro ⟨hx, hQ⟩ fuel
    refine ⟨fun y hy => ?_, fun b m' hexec => ?_⟩
    · obtain rfl := List.mem_singleton.mp hy
      exact hx
    · obtain ⟨rfl, rfl⟩ := Prod.mk.inj (Option.some.inj hexec)
      exact hQ

@[simp] theorem write_iff {x : X} {v : V x} {Q : Unit → Machine V E D → Prop} :
    Safe react ok (Prog.write (L := L) x v) m Q ↔ ok x ∧ Q () (m.store react x v) := by
  constructor
  · exact fun h => ⟨(h 0).1 x List.mem_cons_self, (h 0).2 _ _ rfl⟩
  · rintro ⟨hx, hQ⟩ fuel
    refine ⟨fun y hy => ?_, fun b m' hexec => ?_⟩
    · obtain rfl := List.mem_singleton.mp hy
      exact hx
    · obtain ⟨rfl, rfl⟩ := Prod.mk.inj (Option.some.inj hexec)
      exact hQ

@[simp] theorem acquire_iff {l : L} {Q : Unit → Machine V E D → Prop} :
    Safe react ok (Prog.acquire l) m Q ↔ Q () m :=
  pure_iff (L := L)

@[simp] theorem release_iff {l : L} {Q : Unit → Machine V E D → Prop} :
    Safe react ok (Prog.release l) m Q ↔ Q () m :=
  pure_iff (L := L)

@[simp] theorem switch_iff {Q : Unit → Machine V E D → Prop} :
    Safe react ok (Prog.switch (L := L)) m Q ↔ Q () m :=
  pure_iff (L := L)

@[simp] theorem note_iff {f : Store V → E} {Q : Unit → Machine V E D → Prop} :
    Safe react ok (Prog.note (L := L) f) m Q ↔ Q () { m with log := m.log ++ [f m.vars] } :=
  pure_iff (L := L) (m := { m with log := m.log ++ [f m.vars] })

/-- A loop over a list, with `I` for its invariant. -/
theorem forM {γ : Type} {f : γ → Prog X V L E PUnit} {xs : List γ} {I : Machine V E D → Prop}
    (h : ∀ a ∈ xs, ∀ m, I m → Safe react ok (f a) m fun _ m' => I m') (hm : I m) :
    Safe react ok (xs.forM f) m fun _ m' => I m' := by
  induction xs generalizing m with
  | nil => exact pure_iff.mpr hm
  | cons a xs ih =>
      apply seq (f := fun _ => xs.forM f) (h a List.mem_cons_self m hm)
      intro _ m' hm'
      exact ih (fun b hb => h b (List.mem_cons_of_mem a hb)) hm'

/-- The rule of the loop, with `I` for its invariant. -/
theorem repeatWhile {body : Prog X V L E Bool} {I : Machine V E D → Prop}
    {Q : Unit → Machine V E D → Prop}
    (hbody : ∀ m, I m → Safe react ok body m fun more m' => if more then I m' else Q () m')
    (hm : I m) : Safe react ok (Prog.repeatWhile body) m Q := by
  intro fuel
  -- by induction on the rounds there is fuel for
  have hrounds : ∀ rounds m, I m →
      (∀ x ∈ roundAccesses (body.exec react fuel) (body.accesses react fuel) rounds m, ok x) ∧
        ∀ n, repeatRounds (body.exec react fuel) rounds m = some n → Q () n := by
    intro rounds
    induction rounds with
    | zero =>
        intro m _
        refine ⟨fun x hx => absurd hx List.not_mem_nil, fun n hn => ?_⟩
        cases hn
    | succ rounds ih =>
        intro m hm
        obtain ⟨haccesses, hresult⟩ := hbody m hm fuel
        unfold roundAccesses repeatRounds
        cases hround : body.exec react fuel m with
        | none =>
            refine ⟨fun x hx => haccesses x (by simpa using hx), fun n hn => ?_⟩
            cases hn
        | some r =>
            obtain ⟨more, n⟩ := r
            have hnext := hresult more n hround
            cases more with
            | false =>
                refine ⟨fun x hx => haccesses x (by simpa using hx), fun n' hn => ?_⟩
                obtain rfl := Option.some.inj hn
                exact hnext
            | true =>
                obtain ⟨hrest, hend⟩ := ih n hnext
                refine ⟨fun x hx => ?_, hend⟩
                rcases List.mem_append.mp hx with hx | hx
                · exact haccesses x hx
                · exact hrest x hx
  obtain ⟨haccesses, hresult⟩ := hrounds fuel m hm
  constructor
  · intro x hx
    rcases List.mem_append.mp hx with hx | hx
    · exact haccesses x hx
    · cases hr : repeatRounds (body.exec react fuel) fuel m with
      | none =>
          rw [hr] at hx
          exact absurd hx List.not_mem_nil
      | some n =>
          rw [hr] at hx
          exact absurd hx List.not_mem_nil
  · intro u m' hexec
    obtain ⟨n, hn, hret⟩ := Option.bind_eq_some_iff.mp hexec
    obtain ⟨-, rfl⟩ := Prod.mk.inj (Option.some.inj hret)
    exact hresult n hn

end Safe

/-! ### Runs that may or may not end -/

/-- Whenever the program returns, `Q` holds. -/
abbrev Ensures (react : Reaction V D) (p : Prog X V L E α) (m : Machine V E D)
    (Q : α → Machine V E D → Prop) : Prop :=
  Safe react (fun _ => True) p m Q

/-- What is ensured holds of every execution that returns. -/
theorem Ensures.of_exec {p : Prog X V L E α} {m : Machine V E D} {Q : α → Machine V E D → Prop}
    (h : Ensures react p m Q) {fuel : Nat} {a : α} {m' : Machine V E D}
    (hexec : p.exec react fuel m = some (a, m')) : Q a m' :=
  (h fuel).2 a m' hexec

/-- What is known of a program that returns in any case. -/
theorem Total.ensures {p : Prog X V L E α} {m : Machine V E D} {Q : α → Machine V E D → Prop}
    (h : Total react p m Q) : Ensures react p m Q :=
  fun _ => ⟨fun _ _ => trivial, fun _ _ hexec => h.of_exec hexec⟩

/-- It notes only what its footprint says. -/
theorem Prog.Leaves.ensures_notes {F : Footprint X L E} {p : Prog X V L E α} (h : p.Leaves F)
    (m : Machine V E D) :
    Ensures react p m fun _ m' => ∃ notes, m'.log = m.log ++ notes ∧ ∀ e ∈ notes, e ∈ F.notes := by
  refine fun fuel => ⟨fun _ _ => trivial, fun a m' hexec => ?_⟩
  -- the device may react as it likes, so nothing is said of the variables
  have hall : p.Leaves ⟨F.loads, Set.univ, F.locks, F.notes⟩ :=
    h.mono ⟨subset_rfl, Set.subset_univ _, subset_rfl, subset_rfl⟩
  exact (hall.exec (fun _ _ _ y hy => absurd (Set.mem_univ y) hy) hexec).log

/-! ### Programs of which every path is safe -/

/-- What a program may do that accesses variables in `S` only. -/
abbrev Footprint.among (S : Set X) : Footprint X L E := ⟨S, S, Set.univ, Set.univ⟩

namespace Prog.Leaves

variable {S : Set X} {p : Prog X V L E α}

/-- A program that keeps to `S` accesses nothing outside. -/
theorem mem {fuel : Nat} (h : p.Leaves (.among S)) (m : Machine V E D) :
    ∀ x ∈ p.accesses react fuel m, x ∈ S := by
  induction p generalizing m with
  | ret a => exact fun x hx => absurd hx List.not_mem_nil
  | load x k ih => exact List.forall_mem_cons.mpr ⟨h.1, ih _ (h.2 _) m⟩
  | store x v k ih => exact List.forall_mem_cons.mpr ⟨h.1, ih h.2 _⟩
  | lock l k ih => exact ih h.2 m
  | unlock l k ih => exact ih h.2 m
  | pause k ih => exact ih h m
  | observe g k ih => exact ih h.2 _
  | loop body k ihbody ihk =>
      -- the rounds of a loop: each has the accesses of its body, and goes on only if the body says so
      have hrounds : ∀ rounds m,
          ∀ x ∈ roundAccesses (body.exec react fuel) (body.accesses react fuel) rounds m, x ∈ S := by
        intro rounds
        induction rounds with
        | zero => exact fun m x hx => absurd hx List.not_mem_nil
        | succ rounds ih =>
            intro m x hx
            rcases List.mem_append.mp hx with hx | hx
            · exact ihbody h.1 m x hx
            · rcases hr : body.exec react fuel m with - | ⟨_ | _, n⟩
              all_goals
                rw [hr] at hx
              · exact absurd hx List.not_mem_nil
              · exact absurd hx List.not_mem_nil
              · exact ih n x hx
      intro x hx
      rcases List.mem_append.mp hx with hx | hx
      · exact hrounds fuel m x hx
      · cases hr : repeatRounds (body.exec react fuel) fuel m with
        | none =>
            rw [hr] at hx
            exact absurd hx List.not_mem_nil
        | some n =>
            rw [hr] at hx
            exact ihk h.2 n x hx

/-- So it is safe wherever `S` is allowed. -/
theorem stays {m : Machine V E D} (h : p.Leaves (.among S)) :
    Safe react (· ∈ S) p m fun _ _ => True :=
  fun _ => ⟨h.mem m, fun _ _ _ => trivial⟩

/-- Then what is known of its results is all there is to know. -/
theorem safe {m : Machine V E D} {Q : α → Machine V E D → Prop} (h : p.Leaves (.among S))
    (ht : Total react p m Q) : Safe react (· ∈ S) p m Q :=
  (h.stays.total ht).mono fun _ _ hQ => hQ.2

end Prog.Leaves

/-! ## Accesses that do happen

A run that ends may be followed until the program at hand has been reached. -/

/-- A run gets as far as an access of `x`. -/
def Touches (react : Reaction V D) (p : Prog X V L E α) (m : Machine V E D) (x : X) : Prop :=
  ∃ fuel, x ∈ p.accesses react fuel m

/-- What a safe program touches is allowed. -/
theorem Safe.ok_of_touches {ok : X → Prop} {p : Prog X V L E α} {m : Machine V E D}
    {Q : α → Machine V E D → Prop} (h : Safe react ok p m Q) {x : X} (hx : Touches react p m x) :
    ok x := by
  obtain ⟨fuel, hx⟩ := hx
  exact (h fuel).1 x hx

namespace Touches

variable {p : Prog X V L E α} {m : Machine V E D} {x : X}

/-- A store touches its variable. -/
theorem write (v : V x) : Touches react (Prog.write x v : Prog X V L E Unit) m x :=
  ⟨0, List.mem_cons_self⟩

/-- What the first program touches is touched. -/
theorem left {f : α → Prog X V L E β} (h : Touches react p m x) : Touches react (p >>= f) m x := by
  obtain ⟨fuel, hx⟩ := h
  exact ⟨fuel, Prog.accesses_bind_left hx⟩

/-- What the second program touches is, if the first one ends. -/
theorem bind {f : α → Prog X V L E β} (h : Total react p m fun a m' => Touches react (f a) m' x) :
    Touches react (p >>= f) m x := by
  obtain ⟨fuel, a, m', hexec, fuel', hx⟩ := h
  refine ⟨max fuel fuel', ?_⟩
  apply Prog.accesses_bind_right (Prog.exec_mono (Nat.le_max_left fuel fuel') hexec)
  exact Prog.accesses_mono (Nat.le_max_right fuel fuel') (f a) m' hx

/-- The same with a fact stated in between. -/
theorem seq {f : α → Prog X V L E β} {Q : α → Machine V E D → Prop} (h : Total react p m Q)
    (hf : ∀ a m', Q a m' → Touches react (f a) m' x) : Touches react (p >>= f) m x :=
  bind (h.mono hf)

/-- In the first round of a loop. -/
theorem round {body : Prog X V L E Bool} (h : Touches react body m x) :
    Touches react (Prog.repeatWhile body) m x := by
  obtain ⟨fuel, hx⟩ := h
  refine ⟨fuel + 1, List.mem_append_left _ (List.mem_append_left _ ?_)⟩
  exact Prog.accesses_mono (Nat.le_succ fuel) body m hx

/-- In a later round. -/
theorem again {body : Prog X V L E Bool}
    (h : Total react body m fun more m' => more = true ∧ Touches react (Prog.repeatWhile body) m' x) :
    Touches react (Prog.repeatWhile body) m x := by
  obtain ⟨fuel, more, m', hexec, rfl, fuel', hx⟩ := h
  -- the access is in the rounds, as nothing follows them
  have hrounds : x ∈ roundAccesses (body.exec react fuel') (body.accesses react fuel') fuel' m' := by
    rcases List.mem_append.mp hx with hx | hx
    · exact hx
    · cases hr : repeatRounds (body.exec react fuel') fuel' m' with
      | none =>
          rw [hr] at hx
          exact absurd hx List.not_mem_nil
      | some n =>
          rw [hr] at hx
          exact absurd hx List.not_mem_nil
  refine ⟨max fuel fuel' + 1, List.mem_append_left _ (List.mem_append_right _ ?_)⟩
  rw [Prog.exec_mono (Nat.le_succ_of_le (Nat.le_max_left fuel fuel')) hexec]
  apply roundAccesses_mono (fun _ _ => Prog.exec_mono (by omega)) (fun n => ?_) m'
    (Nat.le_max_right fuel fuel') hrounds
  exact Prog.accesses_mono (by omega) body n

end Touches

end

end SmartblocksOs.Foundation
