/-
# SmartblocksOs.Foundation.Program -- programs of a preemptible task, and a logic for them

A task is a tree of atomic actions (`Prog`): it loads and stores shared variables one at a time,
takes and releases locks, and may note what it sees in a log of its own. Between any two of its
actions other tasks may act. A `Discipline` says which lock guards which variable, in which order
locks are taken and what may be noted; a task that keeps it can rely on the variables whose locks it
holds (`Rely`), and nothing else.

`wp` is the weakest precondition of a program under that interference, `Triple` the form in which it
is used, and the rules below are what proofs about programs go by. That the logic is sound for any
number of tasks is the subject of `SmartblocksOs.Foundation.Locking`.
-/
import Mathlib.Data.List.Basic
import Mathlib.Logic.Function.Basic

namespace SmartblocksOs.Foundation

/-! ## Programs

The tree branches at loads, over all values of the type of the variable. Loops are a constructor of their
own, so that a program with loops is a finite object whose run may be infinite. -/

/-- The values of all shared variables; variable `x` has type `V x`. -/
abbrev Store {X : Type} (V : X → Type) := ∀ x, V x

/-- A program over variables `X` with values `V`, locks `L` and notes `E`. -/
inductive Prog (X : Type) (V : X → Type) (L E : Type) : Type → Type 1
  | ret {α : Type} (a : α) : Prog X V L E α
  | load {α : Type} (x : X) (k : V x → Prog X V L E α) : Prog X V L E α
  | store {α : Type} (x : X) (v : V x) (k : Prog X V L E α) : Prog X V L E α
  | lock {α : Type} (l : L) (k : Prog X V L E α) : Prog X V L E α
  | unlock {α : Type} (l : L) (k : Prog X V L E α) : Prog X V L E α
  /-- Nothing happens, but others may act: a voluntary switch or a delay. -/
  | pause {α : Type} (k : Prog X V L E α) : Prog X V L E α
  /-- A note in the log of the task, which may depend on the variables. -/
  | observe {α : Type} (f : Store V → E) (k : Prog X V L E α) : Prog X V L E α
  /-- `body` again and again, until it returns `false`. -/
  | loop {α : Type} (body : Prog X V L E Bool) (k : Prog X V L E α) : Prog X V L E α

namespace Prog

variable {X : Type} {V : X → Type} {L E : Type} {α β : Type}

/-- What is done with the result comes at every end of the program. -/
protected def bind {α β : Type} :
    Prog X V L E α → (α → Prog X V L E β) → Prog X V L E β
  | .ret a, f => f a
  | .load x k, f => .load x fun v => (k v).bind f
  | .store x v k, f => .store x v (k.bind f)
  | .lock l k, f => .lock l (k.bind f)
  | .unlock l k, f => .unlock l (k.bind f)
  | .pause k, f => .pause (k.bind f)
  | .observe g k, f => .observe g (k.bind f)
  | .loop body k, f => .loop body (k.bind f)

instance : Monad (Prog X V L E) where
  pure := .ret
  bind := .bind

/-- To return the result changes nothing. -/
theorem bind_ret (p : Prog X V L E α) : p.bind .ret = p := by
  induction p with
  | ret a => rfl
  | load x k ih => exact congrArg (Prog.load x) (funext ih)
  | store x v k ih => exact congrArg (Prog.store x v) ih
  | lock l k ih => exact congrArg (Prog.lock l) ih
  | unlock l k ih => exact congrArg (Prog.unlock l) ih
  | pause k ih => exact congrArg Prog.pause ih
  | observe g k ih => exact congrArg (Prog.observe g) ih
  | loop body k _ ihk => exact congrArg (Prog.loop body) ihk

/-- Composition is associative. -/
theorem bind_bind {γ : Type} (p : Prog X V L E α) (f : α → Prog X V L E β) (h : β → Prog X V L E γ) :
    (p.bind f).bind h = p.bind fun a => (f a).bind h := by
  induction p with
  | ret a => rfl
  | load x k ih => exact congrArg (Prog.load x) (funext fun v => ih v f)
  | store x v k ih => exact congrArg (Prog.store x v) (ih f)
  | lock l k ih => exact congrArg (Prog.lock l) (ih f)
  | unlock l k ih => exact congrArg (Prog.unlock l) (ih f)
  | pause k ih => exact congrArg Prog.pause (ih f)
  | observe g k ih => exact congrArg (Prog.observe g) (ih f)
  | loop body k _ ihk => exact congrArg (Prog.loop body) (ihk f)

instance : LawfulMonad (Prog X V L E) :=
  LawfulMonad.mk' _ bind_ret (fun _ _ => rfl) bind_bind

/-- One more round of a loop, or what follows it. -/
def again (body : Prog X V L E Bool) (k : Prog X V L E α) : Prog X V L E α :=
  body.bind fun b => if b then .loop body k else k

/-! The actions as programs of their own, to be put together with `do`. -/

/-- The value of `x`. -/
def read (x : X) : Prog X V L E (V x) := .load x .ret

/-- `v` is stored in `x`. -/
def write (x : X) (v : V x) : Prog X V L E Unit := .store x v (.ret ())

/-- The lock `l` is taken. -/
def acquire (l : L) : Prog X V L E Unit := .lock l (.ret ())

/-- The lock `l` is given back. -/
def release (l : L) : Prog X V L E Unit := .unlock l (.ret ())

/-- The others may run here. -/
def switch : Prog X V L E Unit := .pause (.ret ())

/-- What `f` makes of the variables is written into the log of the task. -/
def note (f : Store V → E) : Prog X V L E Unit := .observe f (.ret ())

/-- `body` again and again, until it says no. -/
def repeatWhile (body : Prog X V L E Bool) : Prog X V L E Unit := .loop body (.ret ())

end Prog

/-! ## The discipline, and what it lets a task rely on

`Rely` is everything that may happen between two actions of a task: variables guarded by the locks it
holds stay as they are, and all the others may become anything. -/

/-- The rules that the tasks agree on. They say nothing about what the tasks do, only what they may rely
on from each other. -/
structure Discipline (X : Type) (V : X → Type) (L E : Type) where
  /-- Locks are taken in ascending order. -/
  rank : L → Nat
  /-- A variable with a lock is stored only by the task that holds it. -/
  guard : X → Option L
  /-- What a store may do to the value of a variable, whoever stores. -/
  may : ∀ x, V x → V x → Prop
  may_refl : ∀ x v, may x v v
  may_trans : ∀ x u v w, may x u v → may x v w → may x u w
  /-- What may be noted after the notes in a log. -/
  allow : List E → E → Prop

/-- What a task knows of its log and of the shared variables. -/
abbrev Assn {X : Type} (V : X → Type) (E : Type) := List E → Store V → Prop

namespace Discipline

variable {X : Type} {V : X → Type} {L E : Type} (D : Discipline X V L E)

/-- What the others may do to the variables while a task holds the locks `held`. -/
def Rely (held : List L) (s s' : Store V) : Prop :=
  ∀ x, D.may x (s x) (s' x) ∧ ∀ l, D.guard x = some l → l ∈ held → s' x = s x

theorem Rely.refl (held : List L) (s : Store V) : D.Rely held s s :=
  fun x => ⟨D.may_refl x (s x), fun _ _ _ => rfl⟩

variable {D}

theorem Rely.trans {held : List L} {s s' s'' : Store V} (h : D.Rely held s s')
    (h' : D.Rely held s' s'') : D.Rely held s s'' :=
  fun x => ⟨D.may_trans x _ _ _ (h x).1 (h' x).1,
    fun l hl hmem => ((h' x).2 l hl hmem).trans ((h x).2 l hl hmem)⟩

/-- What is guarded by a lock that is held does not change. -/
theorem Rely.eq {held : List L} {s s' : Store V} (h : D.Rely held s s') {x : X} {l : L}
    (hx : D.guard x = some l) (hl : l ∈ held) : s' x = s x :=
  (h x).2 l hx hl

variable (D)

/-- The others leave `P` as it is while the locks `held` are held. -/
def Stable (held : List L) (P : Assn V E) : Prop :=
  ∀ g s s', D.Rely held s s' → P g s → P g s'

variable {D} in
/-- Two stable assertions together. -/
theorem Stable.and {held : List L} {P Q : Assn V E} (hP : D.Stable held P)
    (hQ : D.Stable held Q) : D.Stable held fun g s => P g s ∧ Q g s :=
  fun g s s' hrely h => ⟨hP g s s' hrely h.1, hQ g s s' hrely h.2⟩

/-- What is said of the log alone. -/
theorem Stable.log (held : List L) (P : List E → Prop) : D.Stable held fun g _ => P g :=
  fun _ _ _ _ h => h

/-! ## Weakest preconditions

By recursion on the program. At every action the condition is closed under interference first, so that it
can be used whatever the others have done. -/

variable [DecidableEq X] [DecidableEq L]

/-- From the locks `held`, the log `g` and the variables `s`, every run of the program keeps the
discipline whatever the others do, and `Q` holds when it returns. -/
def wp {α : Type} : Prog X V L E α → (α → List L → Assn V E) → List L → Assn V E
  | .ret a, Q, held, g, s => Q a held g s
  | .load x k, Q, held, g, s => ∀ s', D.Rely held s s' → wp (k (s' x)) Q held g s'
  | .store x v k, Q, held, g, s =>
      (∀ l, D.guard x = some l → l ∈ held) ∧
        ∀ s', D.Rely held s s' → D.may x (s' x) v ∧ wp k Q held g (Function.update s' x v)
  | .lock l k, Q, held, g, s =>
      (∀ r ∈ held, D.rank r < D.rank l) ∧ ∀ s', D.Rely held s s' → wp k Q (l :: held) g s'
  | .unlock l k, Q, held, g, s =>
      l ∈ held ∧ ∀ s', D.Rely held s s' → wp k Q (held.erase l) g s'
  | .pause k, Q, held, g, s => ∀ s', D.Rely held s s' → wp k Q held g s'
  | .observe f k, Q, held, g, s =>
      ∀ s', D.Rely held s s' → D.allow g (f s') ∧ wp k Q held (g ++ [f s']) s'
  | .loop body k, Q, held, g, s =>
      ∃ I : List L → Assn V E, I held g s ∧ (∀ held, D.Stable held (I held)) ∧
        ∀ held g s, I held g s →
          wp body (fun b held g s => if b then I held g s else wp k Q held g s) held g s

variable {D} {α β : Type}

/-- Less may be said of the end. -/
theorem wp_mono {p : Prog X V L E α} {Q Q' : α → List L → Assn V E}
    (hQ : ∀ a held g s, Q a held g s → Q' a held g s) {held : List L} {g : List E} {s : Store V}
    (h : D.wp p Q held g s) : D.wp p Q' held g s := by
  induction p generalizing held g s with
  | ret a => exact hQ a held g s h
  | load x k ih => exact fun s' hs => ih (s' x) hQ (h s' hs)
  | store x v k ih => exact ⟨h.1, fun s' hs => ⟨(h.2 s' hs).1, ih hQ (h.2 s' hs).2⟩⟩
  | lock l k ih => exact ⟨h.1, fun s' hs => ih hQ (h.2 s' hs)⟩
  | unlock l k ih => exact ⟨h.1, fun s' hs => ih hQ (h.2 s' hs)⟩
  | pause k ih => exact fun s' hs => ih hQ (h s' hs)
  | observe f k ih => exact fun s' hs => ⟨(h s' hs).1, ih hQ (h s' hs).2⟩
  | loop body k ihbody ihk =>
      obtain ⟨I, hI, hstable, hbody⟩ := h
      refine ⟨I, hI, hstable, fun held g s hs => ihbody ?_ (hbody held g s hs)⟩
      intro b held g s hb
      cases b with
      | true => exact hb
      | false => exact ihk hQ hb

/-- The weakest precondition of a composition, taken apart. By induction on the first part. -/
theorem wp_bind {p : Prog X V L E α} {f : α → Prog X V L E β} {Q : β → List L → Assn V E}
    {held : List L} {g : List E} {s : Store V}
    (h : D.wp p (fun a => D.wp (f a) Q) held g s) : D.wp (p.bind f) Q held g s := by
  induction p generalizing held g s with
  | ret a => exact h
  | load x k ih => exact fun s' hs => ih (s' x) (h s' hs)
  | store x v k ih => exact ⟨h.1, fun s' hs => ⟨(h.2 s' hs).1, ih (h.2 s' hs).2⟩⟩
  | lock l k ih => exact ⟨h.1, fun s' hs => ih (h.2 s' hs)⟩
  | unlock l k ih => exact ⟨h.1, fun s' hs => ih (h.2 s' hs)⟩
  | pause k ih => exact fun s' hs => ih (h s' hs)
  | observe f k ih => exact fun s' hs => ⟨(h s' hs).1, ih (h s' hs).2⟩
  | loop body k _ ihk =>
      obtain ⟨I, hI, hstable, hbody⟩ := h
      refine ⟨I, hI, hstable, fun held g s hs => wp_mono ?_ (hbody held g s hs)⟩
      intro b held g s hb
      cases b with
      | true => exact hb
      | false => exact ihk hb

/-- The others cannot break a precondition, when they cannot break the postcondition. -/
theorem wp_rely {p : Prog X V L E α} {Q : α → List L → Assn V E}
    (hQ : ∀ a held, D.Stable held (Q a held)) {held : List L} {g : List E} {s s' : Store V}
    (h : D.wp p Q held g s) (hs : D.Rely held s s') : D.wp p Q held g s' := by
  cases p with
  | ret a => exact hQ a held g s s' hs h
  | load x k => exact fun s'' hs' => h s'' (hs.trans hs')
  | store x v k => exact ⟨h.1, fun s'' hs' => h.2 s'' (hs.trans hs')⟩
  | lock l k => exact ⟨h.1, fun s'' hs' => h.2 s'' (hs.trans hs')⟩
  | unlock l k => exact ⟨h.1, fun s'' hs' => h.2 s'' (hs.trans hs')⟩
  | pause k => exact fun s'' hs' => h s'' (hs.trans hs')
  | observe f k => exact fun s'' hs' => h s'' (hs.trans hs')
  | loop body k =>
      obtain ⟨I, hI, hstable, hbody⟩ := h
      exact ⟨I, hstable held g s s' hs hI, hstable, hbody⟩

theorem wp_again {body : Prog X V L E Bool} {k : Prog X V L E α} {Q : α → List L → Assn V E}
    {held : List L} {g : List E} {s : Store V} (h : D.wp (.loop body k) Q held g s) :
    D.wp (Prog.again body k) Q held g s := by
  obtain ⟨I, hI, hstable, hbody⟩ := h
  refine wp_bind (wp_mono ?_ (hbody held g s hI))
  intro b held g s hb
  cases b with
  | true => exact ⟨I, hb, hstable, hbody⟩
  | false => exact hb

/-! ## Triples

The rules in the form in which the proofs use them: an assertion before, a program, an assertion after,
and the locks held at both ends. -/

variable (D) in
/-- Run with the locks `held` where `P` holds, the program returns with the locks `held'` where `Q`
holds. -/
def Triple (held : List L) (P : Assn V E) (p : Prog X V L E α) (held' : List L)
    (Q : α → Assn V E) : Prop :=
  ∀ g s, P g s → D.wp p (fun a held g s => held = held' ∧ Q a g s) held g s

namespace Triple

variable {held held' held'' : List L} {P P' : Assn V E}

theorem pure {a : α} {Q : α → Assn V E} (h : ∀ g s, P g s → Q a g s) :
    D.Triple held P (Pure.pure a) held Q :=
  fun g s hP => ⟨rfl, h g s hP⟩

theorem bind {p : Prog X V L E α} {f : α → Prog X V L E β} {R : α → Assn V E} {Q : β → Assn V E}
    (hp : D.Triple held P p held' R) (hf : ∀ a, D.Triple held' (R a) (f a) held'' Q) :
    D.Triple held P (p >>= f) held'' Q := by
  intro g s hP
  refine wp_bind (wp_mono ?_ (hp g s hP))
  rintro a _ g s ⟨rfl, hR⟩
  exact hf a g s hR

/-- `bind`, where the second program does not look at the result of the first. -/
theorem seq {p : Prog X V L E α} {f : α → Prog X V L E β} {R : Assn V E} {Q : β → Assn V E}
    (hp : D.Triple held P p held' fun _ => R) (hf : ∀ a, D.Triple held' R (f a) held'' Q) :
    D.Triple held P (p >>= f) held'' Q :=
  hp.bind hf

theorem mono {p : Prog X V L E α} {Q Q' : α → Assn V E} (hp : D.Triple held P p held' Q)
    (hP : ∀ g s, P' g s → P g s) (hQ : ∀ a g s, Q a g s → Q' a g s) :
    D.Triple held P' p held' Q' :=
  fun g s h => wp_mono (fun a _ g s hq => ⟨hq.1, hQ a g s hq.2⟩) (hp g s (hP g s h))

theorem pre {p : Prog X V L E α} {Q : α → Assn V E} (hp : D.Triple held P p held' Q)
    (hP : ∀ g s, P' g s → P g s) : D.Triple held P' p held' Q :=
  hp.mono hP fun _ _ _ => id

theorem post {p : Prog X V L E α} {Q Q' : α → Assn V E} (hp : D.Triple held P p held' Q)
    (hQ : ∀ a g s, Q a g s → Q' a g s) : D.Triple held P p held' Q' :=
  hp.mono (fun _ _ => id) hQ

/-- A value that the log determines may be named. -/
theorem name {γ : Type} (f : List E → γ) {p : Prog X V L E α} {Q : α → Assn V E}
    (h : ∀ c, D.Triple held (fun g s => P g s ∧ f g = c) p held' Q) : D.Triple held P p held' Q :=
  fun g s hP => h (f g) g s ⟨hP, rfl⟩

/-- A fact that the precondition gives and that names no state may be used throughout. -/
theorem fact {c : Prop} {p : Prog X V L E α} {Q : α → Assn V E} (hc : ∀ g s, P g s → c)
    (h : c → D.Triple held P p held' Q) : D.Triple held P p held' Q :=
  fun g s hP => h (hc g s hP) g s hP

theorem ite {c : Prop} [Decidable c] {p q : Prog X V L E α} {Q : α → Assn V E}
    (hp : c → D.Triple held P p held' Q) (hq : ¬ c → D.Triple held P q held' Q) :
    D.Triple held P (if c then p else q) held' Q := by
  by_cases hc : c
  · rw [if_pos hc]
    exact hp hc
  · rw [if_neg hc]
    exact hq hc

variable (hP : D.Stable held P)
include hP

theorem read {x : X} {Q : V x → Assn V E} (h : ∀ g s, P g s → Q (s x) g s) :
    D.Triple held P (Prog.read x) held Q :=
  fun g s hs s' hrely => ⟨rfl, h g s' (hP g s s' hrely hs)⟩

/-- A load whose result is known. -/
theorem readKnown {x : X} {v : V x} {f : V x → Prog X V L E β} {Q : β → Assn V E}
    (hx : ∀ g s, P g s → s x = v) (hf : D.Triple held P (f v) held' Q) :
    D.Triple held P (Prog.read x >>= f) held' Q := by
  intro g s hs s' hrely
  have hs' := hP g s s' hrely hs
  show D.wp (f (s' x)) _ held g s'
  rw [hx g s' hs']
  exact hf g s' hs'

/-- A guarded variable is stored only under its lock, and any variable only as its rule allows. -/
theorem write {x : X} {v : V x} {Q : Assn V E} (hx : ∀ l, D.guard x = some l → l ∈ held)
    (h : ∀ g s, P g s → D.may x (s x) v ∧ Q g (Function.update s x v)) :
    D.Triple held P (Prog.write x v) held fun _ => Q := by
  intro g s hs
  refine ⟨hx, fun s' hrely => ?_⟩
  obtain ⟨hmay, hQ⟩ := h g s' (hP g s s' hrely hs)
  exact ⟨hmay, rfl, hQ⟩

/-- A lock is taken only above those that are held, so no circle of waiting tasks can arise. -/
theorem acquire {l : L} (h : ∀ r ∈ held, D.rank r < D.rank l) :
    D.Triple held P (Prog.acquire l) (l :: held) fun _ => P :=
  fun g s hs => ⟨h, fun s' hrely => ⟨rfl, hP g s s' hrely hs⟩⟩

theorem switch : D.Triple held P Prog.switch held fun _ => P :=
  fun g s hs s' hrely => ⟨rfl, hP g s s' hrely hs⟩

theorem note {f : Store V → E} {Q : Assn V E}
    (h : ∀ g s, P g s → D.allow g (f s) ∧ Q (g ++ [f s]) s) :
    D.Triple held P (Prog.note f) held fun _ => Q := by
  intro g s hs s' hrely
  obtain ⟨hallow, hQ⟩ := h g s' (hP g s s' hrely hs)
  exact ⟨hallow, rfl, hQ⟩

/-- The rule of the loop, with `P` for its invariant. -/
theorem repeatWhile {body : Prog X V L E Bool} {Q : Assn V E}
    (h : D.Triple held P body held fun b => if b then P else Q) :
    D.Triple held P (Prog.repeatWhile body) held fun _ => Q := by
  intro g s hs
  refine ⟨fun held₁ g s => held₁ = held ∧ P g s, ⟨rfl, hs⟩, ?_, ?_⟩
  · rintro held₁ g s s' hrely ⟨rfl, hs⟩
    exact ⟨rfl, hP g s s' hrely hs⟩
  · rintro _ g s ⟨rfl, hs⟩
    refine wp_mono ?_ (h g s hs)
    rintro b held₁ g s ⟨rfl, hb⟩
    cases b with
    | true => exact ⟨rfl, hb⟩
    | false => exact ⟨rfl, hb⟩

omit hP in
/-- What is still known after a lock is given back has to be known of what the others may now change. -/
theorem release {l : L} (hP : D.Stable (l :: held) P) :
    D.Triple (l :: held) P (Prog.release l) held fun _ => P :=
  fun g s hs => ⟨List.mem_cons_self, fun s' hrely =>
    ⟨List.erase_cons_head l held, hP g s s' hrely hs⟩⟩

omit hP in
/-- A loop over a list, with `P` for its invariant. -/
theorem forM {γ : Type} {f : γ → Prog X V L E PUnit} {xs : List γ}
    (h : ∀ a ∈ xs, D.Triple held P (f a) held fun _ => P) :
    D.Triple held P (xs.forM f) held fun _ => P := by
  induction xs with
  | nil => exact pure fun _ _ => id
  | cons a xs ih =>
      show D.Triple held P (f a >>= fun _ => xs.forM f) held fun _ => P
      exact (h a List.mem_cons_self).seq fun _ => ih fun b hb => h b (List.mem_cons_of_mem a hb)

omit hP in
/-- A loop over a list that carries a value; `I j` holds before round `j`. -/
theorem foldlM {γ : Type} {f : β → γ → Prog X V L E β} {xs : List γ} {b : β} {I : Nat → Assn V E}
    (i : Nat) (h : ∀ j b, j < i + xs.length → ∀ a ∈ xs,
      D.Triple held (I j) (f b a) held fun _ => I (j + 1)) :
    D.Triple held (I i) (xs.foldlM f b) held fun _ => I (i + xs.length) := by
  induction xs generalizing i b with
  | nil => exact pure fun _ _ => id
  | cons a xs ih =>
      have hlen : i + (a :: xs).length = i + 1 + xs.length := by
        rw [List.length_cons]
        omega
      rw [List.foldlM_cons, hlen]
      refine (h i b (by omega) a List.mem_cons_self).seq fun b => ih (i + 1) fun j b hj d hd => ?_
      exact h j b (by omega) d (List.mem_cons_of_mem a hd)

end Triple

end Discipline

end SmartblocksOs.Foundation
