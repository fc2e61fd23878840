/-
# SmartblocksOs.Foundation.Execution -- one task alone with a device

A program of `SmartblocksOs.Foundation.Program` is run from its first action to its last with no other
task in between, next to a device: each store may make the device react, which may in turn change
variables (`Reaction`). `exec` is the run, with fuel for the loops; it can be evaluated. `Total` is what
proofs go by: with enough fuel the program returns, and its result is as said. What is not in the footprint
of a program and no reaction changes stays as it is (`Prog.Leaves.exec`).

One program has the machine to itself here: a lock is taken at once, and a switch comes back at once. What
a store does outside the memory is a parameter, `react`. Runs are computed with fuel for the loops, and
`Total` says that enough of it gives a result; since more fuel never changes a result, the rules can take
the maximum wherever two programs meet.
-/
import SmartblocksOs.Foundation.Footprint

namespace SmartblocksOs.Foundation

variable {X : Type} {V : X → Type} {L E D α β : Type}

/-! ## Machines

Two updates are told apart: `set` stores a variable and nothing else, `store` also lets the device react.
A proof about a concrete device turns the second into the first wherever the device does not care. -/

/-- The variables, the device, and what the task has noted. -/
structure Machine {X : Type} (V : X → Type) (E D : Type) where
  vars : Store V
  device : D
  log : List E

/-- What the device does when a variable has been stored. -/
abbrev Reaction {X : Type} (V : X → Type) (D : Type) := X → Store V × D → Store V × D

namespace Machine

variable [DecidableEq X]

/-- A store to which the device does not react. -/
def set (m : Machine V E D) (x : X) (v : V x) : Machine V E D :=
  { m with vars := Function.update m.vars x v }

/-- A store to `x`: the variable is written, and the device reacts to it. -/
def store (react : Reaction V D) (m : Machine V E D) (x : X) (v : V x) : Machine V E D :=
  let s := react x (Function.update m.vars x v, m.device)
  { m with vars := s.1, device := s.2 }

@[simp] theorem set_vars_self (m : Machine V E D) (x : X) (v : V x) : (m.set x v).vars x = v :=
  Function.update_self ..

@[simp] theorem set_device (m : Machine V E D) (x : X) (v : V x) : (m.set x v).device = m.device := rfl

@[simp] theorem set_log (m : Machine V E D) (x : X) (v : V x) : (m.set x v).log = m.log := rfl

theorem set_vars_of_ne (m : Machine V E D) {x y : X} (h : y ≠ x) (v : V x) :
    (m.set x v).vars y = m.vars y :=
  Function.update_of_ne h ..

/-- A variable that the device does not react to is just written. -/
theorem store_eq_set {react : Reaction V D} {x : X} (h : ∀ s, react x s = s) (m : Machine V E D)
    (v : V x) : m.store react x v = m.set x v := by
  simp only [store, h, set]

end Machine

/-! ## Runs

The fuel bounds the rounds of each loop and is handed down to inner loops. It does not bound anything
else, since a program without loops is a finite tree. -/

/-- `round` again and again, at most `fuel` times, until it returns `false`. -/
def repeatRounds {M : Type} (round : M → Option (Bool × M)) : Nat → M → Option M
  | 0, _ => none
  | fuel + 1, m => do
      let (more, m) ← round m
      if more then repeatRounds round fuel m else some m

/-- With more fuel, and rounds that get further, a loop comes to the same end. -/
theorem repeatRounds_mono {M : Type} {round round' : M → Option (Bool × M)}
    (hround : ∀ m r, round m = some r → round' m = some r) :
    ∀ {fuel fuel' : Nat} {m m' : M}, fuel ≤ fuel' → repeatRounds round fuel m = some m' →
      repeatRounds round' fuel' m = some m'
  | fuel + 1, fuel' + 1, m, m', hle, h => by
      obtain ⟨⟨more, n⟩, hn, h⟩ := Option.bind_eq_some_iff.mp h
      refine Option.bind_eq_some_iff.mpr ⟨_, hround m _ hn, ?_⟩
      cases more with
      | true => exact repeatRounds_mono hround (Nat.le_of_succ_le_succ hle) h
      | false => exact h

namespace Prog

variable [DecidableEq X]

/-- The run of a program, with fuel for the rounds of its loops. The task is alone, so it gets every
lock at once. -/
def exec (react : Reaction V D) (fuel : Nat) {α : Type} :
    Prog X V L E α → Machine V E D → Option (α × Machine V E D)
  | .ret a, m => some (a, m)
  | .load x k, m => exec react fuel (k (m.vars x)) m
  | .store x v k, m => exec react fuel k (m.store react x v)
  | .lock _ k, m | .unlock _ k, m | .pause k, m => exec react fuel k m
  | .observe f k, m => exec react fuel k { m with log := m.log ++ [f m.vars] }
  | .loop body k, m => (repeatRounds (exec react fuel body) fuel m).bind (exec react fuel k)

variable {react : Reaction V D}

/-- An execution of a composition is one of the first part followed by one of the rest. -/
theorem exec_bind (fuel : Nat) (p : Prog X V L E α) (f : α → Prog X V L E β) (m : Machine V E D) :
    exec react fuel (p.bind f) m =
      (exec react fuel p m).bind fun r => exec react fuel (f r.1) r.2 := by
  induction p generalizing m with
  | ret a => rfl
  | load x k ih => exact ih _ f m
  | store x v k ih => exact ih f _
  | lock l k ih => exact ih f m
  | unlock l k ih => exact ih f m
  | pause k ih => exact ih f m
  | observe g k ih => exact ih f _
  | loop body k _ ihk =>
      simp only [Prog.bind, exec]
      cases repeatRounds (exec react fuel body) fuel m with
      | none => rfl
      | some n => exact ihk f n

/-- More fuel does not change the result. -/
theorem exec_mono {fuel fuel' : Nat} (hle : fuel ≤ fuel') {p : Prog X V L E α} {m : Machine V E D}
    {r : α × Machine V E D} (h : exec react fuel p m = some r) : exec react fuel' p m = some r := by
  induction p generalizing m with
  | ret a => exact h
  | load x k ih => exact ih _ h
  | store x v k ih => exact ih h
  | lock l k ih => exact ih h
  | unlock l k ih => exact ih h
  | pause k ih => exact ih h
  | observe g k ih => exact ih h
  | loop body k ihbody ihk =>
      obtain ⟨n, hn, h⟩ := Option.bind_eq_some_iff.mp h
      refine Option.bind_eq_some_iff.mpr ⟨n, ?_, ihk h⟩
      exact repeatRounds_mono (fun _ _ hround => ihbody hround) hle hn

/-- A run of two programs, one after the other, taken apart. -/
theorem exec_bind_eq_some {fuel : Nat} {p : Prog X V L E α} {f : α → Prog X V L E β}
    {m m'' : Machine V E D} {b : β} (h : exec react fuel (p >>= f) m = some (b, m'')) :
    ∃ a m', exec react fuel p m = some (a, m') ∧ exec react fuel (f a) m' = some (b, m'') := by
  obtain ⟨⟨a, m'⟩, ha, hb⟩ := Option.bind_eq_some_iff.mp ((exec_bind fuel p f m).symm.trans h)
  exact ⟨a, m', ha, hb⟩

/-- A program that returns does so with one result, however much fuel there is. -/
theorem exec_unique {fuel fuel' : Nat} {p : Prog X V L E α} {m : Machine V E D}
    {r r' : α × Machine V E D} (h : exec react fuel p m = some r)
    (h' : exec react fuel' p m = some r') : r = r' :=
  Option.some.inj ((exec_mono (Nat.le_max_left fuel fuel') h).symm.trans
    (exec_mono (Nat.le_max_right fuel fuel') h'))

end Prog

/-! ## Total correctness

Weakest preconditions: each action has an equation, and a loop has a rule for the round that leaves it. -/

section

variable [DecidableEq X] {react : Reaction V D}

/-- With enough fuel the program returns, and then `Q` holds. -/
def Total (react : Reaction V D) (p : Prog X V L E α) (m : Machine V E D)
    (Q : α → Machine V E D → Prop) : Prop :=
  ∃ fuel a m', Prog.exec react fuel p m = some (a, m') ∧ Q a m'

namespace Total

variable {p : Prog X V L E α} {m : Machine V E D} {Q Q' : α → Machine V E D → Prop}

/-- Less may be said of the result. -/
theorem mono (h : Total react p m Q) (hQ : ∀ a m', Q a m' → Q' a m') : Total react p m Q' := by
  obtain ⟨fuel, a, m', hexec, ha⟩ := h
  exact ⟨fuel, a, m', hexec, hQ a m' ha⟩

/-- What is proved of a run is so of every run. -/
theorem of_exec (h : Total react p m Q) {fuel : Nat} {a : α} {m' : Machine V E D}
    (hexec : Prog.exec react fuel p m = some (a, m')) : Q a m' := by
  obtain ⟨fuel', a', m'', hexec', hQ⟩ := h
  obtain ⟨rfl, rfl⟩ := Prod.mk.inj (Prog.exec_unique hexec' hexec)
  exact hQ

/-- The result of a run can be named. -/
theorem exists_eq (h : Total react p m Q) :
    ∃ a m', Q a m' ∧ Total react p m fun b n => b = a ∧ n = m' := by
  obtain ⟨fuel, a, m', hexec, hQ⟩ := h
  exact ⟨a, m', hQ, fuel, a, m', hexec, rfl, rfl⟩

/-- It decides what is so of every run. -/
theorem exists_iff (h : Total react p m Q) :
    ∃ a m', Q a m' ∧ ∀ R, Total react p m R ↔ R a m' := by
  obtain ⟨fuel, a, m', hexec, hQ⟩ := h
  exact ⟨a, m', hQ, fun R => ⟨fun hR => hR.of_exec hexec, fun hR => ⟨fuel, a, m', hexec, hR⟩⟩⟩

/-- The two runs are the same one, since the execution is a function. -/
theorem and {R : α → Machine V E D → Prop} (h : Total react p m Q) (h' : Total react p m R) :
    Total react p m fun a m' => Q a m' ∧ R a m' := by
  obtain ⟨fuel, a, m', hexec, hQ⟩ := h
  exact ⟨fuel, a, m', hexec, hQ, h'.of_exec hexec⟩

/-- The rule of composition. The fuel that the two parts need is added up. -/
theorem bind {f : α → Prog X V L E β} {R : β → Machine V E D → Prop}
    (h : Total react p m fun a m' => Total react (f a) m' R) : Total react (p >>= f) m R := by
  obtain ⟨fuel, a, m', hexec, fuel', b, m'', hexec', hR⟩ := h
  refine ⟨max fuel fuel', b, m'', ?_, hR⟩
  apply (Prog.exec_bind _ p f m).trans
  rw [Prog.exec_mono (Nat.le_max_left fuel fuel') hexec]
  exact Prog.exec_mono (Nat.le_max_right fuel fuel') hexec'

/-- One program after the other, with a fact stated in between. -/
theorem seq {f : α → Prog X V L E β} {Q : α → Machine V E D → Prop}
    {R : β → Machine V E D → Prop} (h : Total react p m Q)
    (hf : ∀ a m', Q a m' → Total react (f a) m' R) : Total react (p >>= f) m R :=
  bind (h.mono hf)

/-! The equations of the actions. One program alone finds every lock free, and a switch comes back to it.
-/

@[simp] theorem pure_iff {a : α} : Total react (pure a : Prog X V L E α) m Q ↔ Q a m := by
  constructor
  · exact fun h => h.of_exec (show Prog.exec react 0 (pure a : Prog X V L E α) m = some (a, m) from rfl)
  · exact fun h => ⟨0, a, m, rfl, h⟩

@[simp] theorem read_iff {x : X} {Q : V x → Machine V E D → Prop} :
    Total react (Prog.read (L := L) x) m Q ↔ Q (m.vars x) m :=
  pure_iff (L := L)

@[simp] theorem write_iff {x : X} {v : V x} {Q : Unit → Machine V E D → Prop} :
    Total react (Prog.write (L := L) x v) m Q ↔ Q () (m.store react x v) :=
  pure_iff (L := L) (m := m.store react x v)

@[simp] theorem acquire_iff {l : L} {Q : Unit → Machine V E D → Prop} :
    Total react (Prog.acquire l) m Q ↔ Q () m :=
  pure_iff (L := L)

@[simp] theorem release_iff {l : L} {Q : Unit → Machine V E D → Prop} :
    Total react (Prog.release l) m Q ↔ Q () m :=
  pure_iff (L := L)

@[simp] theorem switch_iff {Q : Unit → Machine V E D → Prop} :
    Total react (Prog.switch (L := L)) m Q ↔ Q () m :=
  pure_iff (L := L)

@[simp] theorem note_iff {f : Store V → E} {Q : Unit → Machine V E D → Prop} :
    Total react (Prog.note (L := L) f) m Q ↔ Q () { m with log := m.log ++ [f m.vars] } :=
  pure_iff (L := L) (m := { m with log := m.log ++ [f m.vars] })

@[simp] theorem bind_iff {f : α → Prog X V L E β} {R : β → Machine V E D → Prop} :
    Total react (p >>= f) m R ↔ Total react p m fun a m' => Total react (f a) m' R := by
  refine ⟨?_, bind⟩
  rintro ⟨fuel, b, m'', hexec, hR⟩
  obtain ⟨a, m', ha, hb⟩ := Prog.exec_bind_eq_some hexec
  exact ⟨fuel, a, m', ha, fuel, b, m'', hb, hR⟩

/-- A loop over a list, with `I` for its invariant. -/
theorem forM {γ : Type} {f : γ → Prog X V L E PUnit} {xs : List γ} {I : Machine V E D → Prop}
    (h : ∀ a ∈ xs, ∀ m, I m → Total react (f a) m fun _ m' => I m') (hm : I m) :
    Total react (xs.forM f) m fun _ m' => I m' := by
  induction xs generalizing m with
  | nil => exact pure_iff.mpr hm
  | cons a xs ih =>
      apply seq (f := fun _ => xs.forM f) (h a List.mem_cons_self m hm)
      intro _ m' hm'
      exact ih (fun b hb => h b (List.mem_cons_of_mem a hb)) hm'

theorem repeatWhile {body : Prog X V L E Bool} {Q : Unit → Machine V E D → Prop}
    (h : Total react body m fun more m' =>
      if more then Total react (Prog.repeatWhile body) m' Q else Q () m') :
    Total react (Prog.repeatWhile body) m Q := by
  obtain ⟨fuel, more, m', hexec, h⟩ := h
  cases more with
  | false =>
      refine ⟨fuel + 1, (), m', ?_, h⟩
      have hround := Prog.exec_mono (Nat.le_succ fuel) hexec
      simp only [Prog.repeatWhile, Prog.exec, repeatRounds, hround]
      rfl
  | true =>
      obtain ⟨fuel', u, m'', hrest, hQ⟩ := h
      refine ⟨max fuel fuel' + 1, u, m'', ?_, hQ⟩
      obtain ⟨n, hn, hret⟩ := Option.bind_eq_some_iff.mp hrest
      have hround := Prog.exec_mono (Nat.le_succ_of_le (Nat.le_max_left fuel fuel')) hexec
      have hrounds : repeatRounds (Prog.exec react (max fuel fuel' + 1) body) (max fuel fuel') m' = some n :=
        repeatRounds_mono (fun _ _ h => Prog.exec_mono (by omega) h) (Nat.le_max_right fuel fuel') hn
      simp only [Prog.repeatWhile, Prog.exec, repeatRounds, hround]
      exact Option.bind_eq_some_iff.mpr ⟨n, hrounds, hret⟩

/-- A loop of which every round asks for another one does not return. -/
theorem repeatWhile_stuck {body : Prog X V L E Bool} {I : Machine V E D → Prop}
    {Q : Unit → Machine V E D → Prop}
    (hbody : ∀ m, I m → Total react body m fun more m' => more = true ∧ I m') (hm : I m) :
    ¬ Total react (Prog.repeatWhile body) m Q := by
  rintro ⟨fuel, _, m', hexec, -⟩
  -- by induction on the rounds there is fuel for
  have hrounds : ∀ rounds m, I m → repeatRounds (Prog.exec react fuel body) rounds m = none := by
    intro rounds
    induction rounds with
    | zero => exact fun _ _ => rfl
    | succ rounds ih =>
        intro m hm
        unfold repeatRounds
        cases hround : Prog.exec react fuel body m with
        | none => rfl
        | some r =>
            obtain ⟨hmore, hr⟩ := (hbody m hm).of_exec hround
            simp only [Option.bind_eq_bind, Option.bind_some, hmore, if_true]
            exact ih r.2 hr
  obtain ⟨n, hn, -⟩ := Option.bind_eq_some_iff.mp hexec
  rw [hrounds fuel m hm] at hn
  exact Option.some_ne_none n hn.symm

end Total

end

/-! ## What stays as it is

A frame rule that needs no proof about the program: its footprint has been computed from its text. -/

/-- From `m` to `m'` only variables have changed that the footprint stores, and only events been noted that
it notes. -/
structure Machine.Within (F : Footprint X L E) (m m' : Machine V E D) : Prop where
  vars : ∀ x, x ∉ F.stores → m'.vars x = m.vars x
  log : ∃ notes, m'.log = m.log ++ notes ∧ ∀ e ∈ notes, e ∈ F.notes

section

variable {F : Footprint X L E}

theorem Machine.Within.refl (m : Machine V E D) : m.Within F m :=
  ⟨fun _ _ => rfl, [], (List.append_nil _).symm, by simp⟩

theorem Machine.Within.trans {m m' m'' : Machine V E D} (h : m.Within F m') (h' : m'.Within F m'') :
    m.Within F m'' := by
  obtain ⟨notes, hlog, hall⟩ := h.log
  obtain ⟨notes', hlog', hall'⟩ := h'.log
  refine ⟨fun x hx => (h'.vars x hx).trans (h.vars x hx), notes ++ notes', ?_, ?_⟩
  · rw [hlog', hlog, List.append_assoc]
  · intro e he
    rcases List.mem_append.mp he with he | he
    · exact hall e he
    · exact hall' e he

variable [DecidableEq X] {react : Reaction V D}

/-- A run changes no more than the footprint of its program says, provided the device does not either. -/
theorem Prog.Leaves.exec {p : Prog X V L E α} (h : p.Leaves F)
    (hreact : ∀ x ∈ F.stores, ∀ s, ∀ y ∉ F.stores, (react x s).1 y = s.1 y) {fuel : Nat} :
    ∀ {m m' : Machine V E D} {a : α}, Prog.exec react fuel p m = some (a, m') → m.Within F m' := by
  induction p with
  | ret a =>
      intro m m' a' hexec
      obtain ⟨-, rfl⟩ := Prod.mk.inj (Option.some.inj hexec)
      exact .refl m
  | load x k ih => exact fun hexec => ih _ (h.2 _) hexec
  | store x v k ih =>
      intro m m' a hexec
      have hstore : m.Within F (m.store react x v) := by
        refine ⟨fun y hy => ?_, [], (List.append_nil _).symm, by simp⟩
        apply (hreact x h.1 (Function.update m.vars x v, m.device) y hy).trans
        refine Function.update_of_ne ?_ v m.vars
        rintro rfl
        exact hy h.1
      exact hstore.trans (ih h.2 (m := m.store react x v) hexec)
  | lock l k ih => exact fun hexec => ih h.2 hexec
  | unlock l k ih => exact fun hexec => ih h.2 hexec
  | pause k ih => exact fun hexec => ih h hexec
  | observe g k ih =>
      intro m m' a hexec
      have hnote : m.Within F { m with log := m.log ++ [g m.vars] } :=
        ⟨fun _ _ => rfl, [g m.vars], rfl, by simpa using h.1 m.vars⟩
      exact hnote.trans (ih h.2 (m := { m with log := m.log ++ [g m.vars] }) hexec)
  | loop body k ihbody ihk =>
      intro m m' a hexec
      obtain ⟨n, hn, hexec⟩ := Option.bind_eq_some_iff.mp hexec
      refine Machine.Within.trans ?_ (ihk h.2 hexec)
      clear hexec
      -- by induction on the rounds
      suffices hrounds : ∀ rounds (m : Machine V E D),
          repeatRounds (Prog.exec react fuel body) rounds m = some n → m.Within F n from
        hrounds fuel m hn
      intro rounds
      induction rounds with
      | zero => exact fun m hm => absurd hm (by simp [repeatRounds])
      | succ rounds ih =>
          intro m hm
          obtain ⟨⟨more, o⟩, ho, hm⟩ := Option.bind_eq_some_iff.mp hm
          have hround := ihbody h.1 ho
          cases more with
          | true => exact hround.trans (ih o hm)
          | false =>
              obtain rfl := Option.some.inj hm
              exact hround

/-- The same, next to what else is known of a run. -/
theorem Total.leaves {p : Prog X V L E α} {m : Machine V E D} {Q : α → Machine V E D → Prop}
    (hp : Total react p m Q) (h : p.Leaves F)
    (hreact : ∀ x ∈ F.stores, ∀ s, ∀ y ∉ F.stores, (react x s).1 y = s.1 y) :
    Total react p m fun a m' => Q a m' ∧ m.Within F m' := by
  obtain ⟨fuel, a, m', hexec, hQ⟩ := hp
  exact ⟨fuel, a, m', hexec, hQ, h.exec hreact hexec⟩

end

/-! ## Machines in step

Two machines may run the same program with different devices behind them, where one device shows part of
the other. -/

/-- Two machines that differ in their devices only. -/
structure InStep {D' : Type} [DecidableEq X] (react : Reaction V D) (react' : Reaction V D')
    (S : Set X) (R : Machine V E D → Machine V E D' → Prop) : Prop where
  vars : ∀ {m m'}, R m m' → m'.vars = m.vars
  store : ∀ {m m' x} (v : V x), x ∈ S → R m m' → R (m.store react x v) (m'.store react' x v)
  note : ∀ {m m'} (e : E), R m m' →
    R { m with log := m.log ++ [e] } { m' with log := m'.log ++ [e] }

/-- A program runs on both alike. -/
theorem InStep.exec {D' : Type} [DecidableEq X] {react : Reaction V D} {react' : Reaction V D'}
    {F : Footprint X L E} {R : Machine V E D → Machine V E D' → Prop}
    (hR : InStep react react' F.stores R) {p : Prog X V L E α} (hp : p.Leaves F) {fuel : Nat} :
    ∀ {m n : Machine V E D} {m' : Machine V E D'} {a : α}, R m m' →
      Prog.exec react fuel p m = some (a, n) →
        ∃ n', Prog.exec react' fuel p m' = some (a, n') ∧ R n n' := by
  induction p with
  | ret a =>
      intro m n m' b hm hexec
      obtain ⟨rfl, rfl⟩ := Prod.mk.inj (Option.some.inj hexec)
      exact ⟨m', rfl, hm⟩
  | load x k ih =>
      intro m n m' b hm hexec
      show ∃ n', Prog.exec react' fuel (k (m'.vars x)) m' = some (b, n') ∧ R n n'
      rw [hR.vars hm]
      exact ih _ (hp.2 _) hm hexec
  | store x v k ih => exact fun hm hexec => ih hp.2 (hR.store v hp.1 hm) hexec
  | lock l k ih => exact fun hm hexec => ih hp.2 hm hexec
  | unlock l k ih => exact fun hm hexec => ih hp.2 hm hexec
  | pause k ih => exact fun hm hexec => ih hp hm hexec
  | observe f k ih =>
      intro m n m' b hm hexec
      have hnote : f m'.vars = f m.vars := by rw [hR.vars hm]
      show ∃ n', Prog.exec react' fuel k { m' with log := m'.log ++ [f m'.vars] } = some (b, n') ∧ R n n'
      rw [hnote]
      exact ih hp.2 (hR.note _ hm) hexec
  | loop body k ihbody ihk =>
      intro m n m' b hm hexec
      obtain ⟨o, ho, hexec⟩ := Option.bind_eq_some_iff.mp hexec
      -- by induction on the rounds
      have hrounds : ∀ rounds (m : Machine V E D) (m' : Machine V E D'), R m m' →
          repeatRounds (Prog.exec react fuel body) rounds m = some o →
            ∃ o', repeatRounds (Prog.exec react' fuel body) rounds m' = some o' ∧ R o o' := by
        intro rounds
        induction rounds with
        | zero => exact fun m m' _ h => absurd h (by simp [repeatRounds])
        | succ rounds ih =>
            intro m m' hm h
            obtain ⟨⟨more, r⟩, hr, h⟩ := Option.bind_eq_some_iff.mp h
            obtain ⟨r', hr', hrel⟩ := ihbody hp.1 hm hr
            cases more with
            | true =>
                obtain ⟨o', ho', hrel'⟩ := ih r r' hrel h
                exact ⟨o', Option.bind_eq_some_iff.mpr ⟨_, hr', ho'⟩, hrel'⟩
            | false =>
                obtain rfl := Option.some.inj h
                exact ⟨r', Option.bind_eq_some_iff.mpr ⟨_, hr', rfl⟩, hrel⟩
      obtain ⟨o', ho', hrel⟩ := hrounds fuel m m' hm ho
      obtain ⟨n', hn', hrel'⟩ := ihk hp.2 hrel hexec
      exact ⟨n', Option.bind_eq_some_iff.mpr ⟨o', ho', hn'⟩, hrel'⟩

/-- What is known of a run on one is known of the run on the other. -/
theorem InStep.total {D' : Type} [DecidableEq X] {react : Reaction V D} {react' : Reaction V D'}
    {F : Footprint X L E} {R : Machine V E D → Machine V E D' → Prop}
    (hR : InStep react react' F.stores R) {p : Prog X V L E α} (hp : p.Leaves F) {m : Machine V E D}
    {m' : Machine V E D'} {Q : α → Machine V E D → Prop} (hm : R m m') (h : Total react p m Q) :
    Total react' p m' fun a n' => ∃ n, Q a n ∧ R n n' := by
  obtain ⟨fuel, a, n, hexec, hQ⟩ := h
  obtain ⟨n', hexec', hrel⟩ := hR.exec hp hm hexec
  exact ⟨fuel, a, n', hexec', n, hQ, hrel⟩

end SmartblocksOs.Foundation
