/-
# SmartblocksOs.Foundation.LockInvariants -- what a lock keeps

The discipline of `SmartblocksOs.Foundation.Program` says who may store a variable, and nothing about its
value. But the variables that a lock guards often belong together: the task that takes the lock finds them
in order, and puts them in order again before it releases it. `Invariants` says what holds of them while
the lock is free and what holds of them at any time, and how the value of a variable may change. A logic
like that of the discipline, on top of it, tells that a program keeps all this (`Invariants.Triple`);
programs that do not touch the variables need no proof of their own, as what the discipline says of them
can be lifted (`Triple.lift`). That the invariants hold in every world that tasks can reach is
`Kept.worldStep`, and that no step changes a variable in another way `Kept.may_worldStep`.

The discipline of `SmartblocksOs.Foundation.Program` says which variables a step may touch; an invariant
says what their values are while nobody has the lock. A task that takes the lock finds the invariant, may
break it, and has to restore it before it releases the lock. Besides, `may` bounds every step of
everybody, which is what a task without the lock can rely on.
-/
import SmartblocksOs.Foundation.Locking

namespace SmartblocksOs.Foundation

variable {ι Op X : Type} {V : X → Type} {L E α β : Type}

/-! ## Invariants, and what they let a task rely on

A task with the lock may rely on nobody else storing what the invariant is about. A task without it may
rely on `may`, and on what holds always. -/

/-- Invariants for the locks of a discipline `D`: each lock comes with one that holds while it is free,
and one that holds always. -/
structure Invariants (D : Discipline X V L E) where
  /-- The variables that the invariants speak of. -/
  about : X → Bool
  /-- What holds while the lock is free. -/
  free : L → Store V → Prop
  /-- What holds whether it is free or not. -/
  always : L → Store V → Prop
  /-- What a store may do to the value of a variable. -/
  may : ∀ x, V x → V x → Prop
  /-- What may be noted. -/
  allow : E → Prop
  free_always : ∀ l s, free l s → always l s
  /-- The invariants of a lock speak of variables that it guards. -/
  free_congr : ∀ l s s', (∀ x, about x = true → D.guard x = some l → s' x = s x) → free l s → free l s'
  always_congr : ∀ l s s', (∀ x, about x = true → D.guard x = some l → s' x = s x) →
    always l s → always l s'
  may_refl : ∀ x v, may x v v
  may_trans : ∀ x u v w, may x u v → may x v w → may x u w
  may_other : ∀ x v w, about x = false → may x v w

namespace Invariants

variable {D : Discipline X V L E} (I : Invariants D)

/-- What a program does that leaves the invariants alone and takes and releases locks in `T` only. -/
abbrev aside (T : L → Prop) : Footprint X L E :=
  ⟨Set.univ, {x | I.about x = false}, {l | T l}, {e | I.allow e}⟩

/-- What the others may do to the variables while a task holds the locks `held`. -/
def Rely (held : List L) (s s' : Store V) : Prop :=
  D.Rely held s s' ∧ ∀ x, I.may x (s x) (s' x)

theorem Rely.refl (held : List L) (s : Store V) : I.Rely held s s :=
  ⟨Discipline.Rely.refl D held s, fun x => I.may_refl x (s x)⟩

variable {I}

theorem Rely.trans {held : List L} {s s' s'' : Store V} (h : I.Rely held s s')
    (h' : I.Rely held s' s'') : I.Rely held s s'' :=
  ⟨h.1.trans h'.1, fun x => I.may_trans x _ _ _ (h.2 x) (h'.2 x)⟩

/-- With fewer locks there is less to rely on. -/
theorem Rely.mono {held held' : List L} {s s' : Store V} (h : I.Rely held s s')
    (hle : ∀ l ∈ held', l ∈ held) : I.Rely held' s s' :=
  ⟨fun x => ⟨(h.1 x).1, fun l hl hmem => (h.1 x).2 l hl (hle l hmem)⟩, h.2⟩

/-- The variables of a lock that is held are in order as long as the task leaves them alone. -/
theorem Rely.free {held : List L} {s s' : Store V} (h : I.Rely held s s') {l : L} (hl : l ∈ held)
    (hs : I.free l s) : I.free l s' :=
  I.free_congr l s s' (fun _ _ hx => h.1.eq hx hl) hs

variable (I)

/-- `P` is not falsified by the others. -/
def Stable (held : List L) (P : Assn V E) : Prop :=
  ∀ g s s', I.Rely held s s' → P g s → P g s'

variable {I} in
/-- Two stable assertions are stable together. -/
theorem Stable.and {held : List L} {P Q : Assn V E} (hP : I.Stable held P) (hQ : I.Stable held Q) :
    I.Stable held fun g s => P g s ∧ Q g s :=
  fun g s s' hrely h => ⟨hP g s s' hrely h.1, hQ g s s' hrely h.2⟩

/-- What the discipline leaves as it is. -/
theorem Stable.of_discipline {held : List L} {P : Assn V E} (h : D.Stable held P) : I.Stable held P :=
  fun g s s' hrely => h g s s' hrely.1

/-! ## Weakest preconditions

The clauses are those of the discipline, with the invariant gained at a lock and owed at an unlock. -/

variable [DecidableEq X] [DecidableEq L]

/-- From the locks `held`, the log `g` and the variables `s`, every run of the program keeps the
invariants whatever the others do, and `Q` holds when it returns. -/
def wp {α : Type} : Prog X V L E α → (α → List L → Assn V E) → List L → Assn V E
  | .ret a, Q, held, g, s => Q a held g s
  | .load x k, Q, held, g, s => ∀ s', I.Rely held s s' → wp (k (s' x)) Q held g s'
  | .store x v k, Q, held, g, s =>
      ∀ s', I.Rely held s s' →
        (I.about x = true → I.may x (s' x) v ∧
          ∀ l, D.guard x = some l → I.always l (Function.update s' x v)) ∧
        wp k Q held g (Function.update s' x v)
  | .lock l k, Q, held, g, s => ∀ s', I.Rely held s s' → I.free l s' → wp k Q (l :: held) g s'
  | .unlock l k, Q, held, g, s =>
      ∀ s', I.Rely held s s' → I.free l s' ∧ wp k Q (held.erase l) g s'
  | .pause k, Q, held, g, s => ∀ s', I.Rely held s s' → wp k Q held g s'
  | .observe f k, Q, held, g, s =>
      ∀ s', I.Rely held s s' → I.allow (f s') ∧ wp k Q held (g ++ [f s']) s'
  | .loop body k, Q, held, g, s =>
      ∃ J : List L → Assn V E, J held g s ∧ (∀ held, I.Stable held (J held)) ∧
        ∀ held g s, J held g s →
          wp body (fun b held g s => if b then J held g s else wp k Q held g s) held g s

variable {I}

/-- Less may be said of the end. -/
theorem wp_mono {p : Prog X V L E α} {Q Q' : α → List L → Assn V E}
    (hQ : ∀ a held g s, Q a held g s → Q' a held g s) {held : List L} {g : List E} {s : Store V}
    (h : I.wp p Q held g s) : I.wp p Q' held g s := by
  induction p generalizing held g s with
  | ret a => exact hQ a held g s h
  | load x k ih => exact fun s' hs => ih (s' x) hQ (h s' hs)
  | store x v k ih => exact fun s' hs => ⟨(h s' hs).1, ih hQ (h s' hs).2⟩
  | lock l k ih => exact fun s' hs hfree => ih hQ (h s' hs hfree)
  | unlock l k ih => exact fun s' hs => ⟨(h s' hs).1, ih hQ (h s' hs).2⟩
  | pause k ih => exact fun s' hs => ih hQ (h s' hs)
  | observe f k ih => exact fun s' hs => ⟨(h s' hs).1, ih hQ (h s' hs).2⟩
  | loop body k ihbody ihk =>
      obtain ⟨J, hJ, hstable, hbody⟩ := h
      refine ⟨J, hJ, hstable, fun held g s hs => ihbody ?_ (hbody held g s hs)⟩
      intro b held g s hb
      cases b with
      | true => exact hb
      | false => exact ihk hQ hb

/-- The end of the first program is the start of the second. -/
theorem wp_bind {p : Prog X V L E α} {f : α → Prog X V L E β} {Q : β → List L → Assn V E}
    {held : List L} {g : List E} {s : Store V} (h : I.wp p (fun a => I.wp (f a) Q) held g s) :
    I.wp (p.bind f) Q held g s := by
  induction p generalizing held g s with
  | ret a => exact h
  | load x k ih => exact fun s' hs => ih (s' x) (h s' hs)
  | store x v k ih => exact fun s' hs => ⟨(h s' hs).1, ih (h s' hs).2⟩
  | lock l k ih => exact fun s' hs hfree => ih (h s' hs hfree)
  | unlock l k ih => exact fun s' hs => ⟨(h s' hs).1, ih (h s' hs).2⟩
  | pause k ih => exact fun s' hs => ih (h s' hs)
  | observe f k ih => exact fun s' hs => ⟨(h s' hs).1, ih (h s' hs).2⟩
  | loop body k _ ihk =>
      obtain ⟨J, hJ, hstable, hbody⟩ := h
      refine ⟨J, hJ, hstable, fun held g s hs => wp_mono ?_ (hbody held g s hs)⟩
      intro b held g s hb
      cases b with
      | true => exact hb
      | false => exact ihk hb

/-- The others cannot break a precondition, when they cannot break the postcondition. -/
theorem wp_rely {p : Prog X V L E α} {Q : α → List L → Assn V E}
    (hQ : ∀ a held, I.Stable held (Q a held)) {held : List L} {g : List E} {s s' : Store V}
    (h : I.wp p Q held g s) (hs : I.Rely held s s') : I.wp p Q held g s' := by
  cases p with
  | ret a => exact hQ a held g s s' hs h
  | load x k => exact fun s'' hs' => h s'' (hs.trans hs')
  | store x v k => exact fun s'' hs' => h s'' (hs.trans hs')
  | lock l k => exact fun s'' hs' => h s'' (hs.trans hs')
  | unlock l k => exact fun s'' hs' => h s'' (hs.trans hs')
  | pause k => exact fun s'' hs' => h s'' (hs.trans hs')
  | observe f k => exact fun s'' hs' => h s'' (hs.trans hs')
  | loop body k =>
      obtain ⟨J, hJ, hstable, hbody⟩ := h
      exact ⟨J, hstable held g s s' hs hJ, hstable, hbody⟩

theorem wp_again {body : Prog X V L E Bool} {k : Prog X V L E α} {Q : α → List L → Assn V E}
    {held : List L} {g : List E} {s : Store V} (h : I.wp (.loop body k) Q held g s) :
    I.wp (Prog.again body k) Q held g s := by
  obtain ⟨J, hJ, hstable, hbody⟩ := h
  refine wp_bind (wp_mono ?_ (hbody held g s hJ))
  intro b held g s hb
  cases b with
  | true => exact ⟨J, hb, hstable, hbody⟩
  | false => exact hb

/-! ## Lifting

A program that stays aside of the invariants needs no proof of its own: what is known of the discipline
carries over, and every fact that it cannot touch is framed. -/

/-- A program holds the locks in `K` all the time and leaves their variables alone, so that `F` stays
true; what else it takes it finds in order and leaves in order. -/
structure Framed (I : Invariants D) (T : L → Prop) (K : List L) (F : Store V → Prop) (held : List L)
    (s : Store V) : Prop where
  nodup : held.Nodup
  kept : ∀ l ∈ K, l ∈ held ∧ ¬ T l
  fact : F s
  free : ∀ l ∈ held, T l → I.free l s

/-- The others leave `F` as it is while the locks in `K` are held, and it speaks of nothing but the
variables of the invariants. -/
structure Frames (I : Invariants D) (K : List L) (F : Store V → Prop) : Prop where
  stable : ∀ s s', I.Rely K s s' → F s → F s'
  about : ∀ s s', (∀ x, I.about x = true → s' x = s x) → F s → F s'

section

variable {T : L → Prop} {K : List L} {F : Store V → Prop} {held : List L} {s s' : Store V}

omit [DecidableEq X] [DecidableEq L] in
/-- What is framed survives the steps of the others. -/
theorem Framed.rely (h : Framed I T K F held s) (hF : Frames I K F) (hrely : I.Rely held s s') :
    Framed I T K F held s' :=
  ⟨h.nodup, h.kept, hF.stable s s' (hrely.mono fun l hl => (h.kept l hl).1) h.fact,
    fun l hl hT => hrely.free hl (h.free l hl hT)⟩

omit [DecidableEq L] in
/-- What is framed survives the stores of the program itself. -/
theorem Framed.store (h : Framed I T K F held s) (hF : Frames I K F) {x : X} (hx : I.about x = false)
    (v : V x) : Framed I T K F held (Function.update s x v) := by
  have hkept : ∀ y, I.about y = true → Function.update s x v y = s y := by
    intro y hy
    apply Function.update_of_ne
    rintro rfl
    exact Bool.false_ne_true (hx.symm.trans hy)
  refine ⟨h.nodup, h.kept, hF.about _ _ hkept h.fact, fun l hl hT => ?_⟩
  exact I.free_congr l s _ (fun y hy _ => hkept y hy) (h.free l hl hT)

omit [DecidableEq X] [DecidableEq L] in
/-- A lock that is taken is found in order. -/
theorem Framed.lock (h : Framed I T K F held s) {l : L} (hl : l ∉ held) (hfree : I.free l s) :
    Framed I T K F (l :: held) s := by
  refine ⟨List.nodup_cons.mpr ⟨hl, h.nodup⟩, fun r hr => ?_, h.fact, fun r hr hT => ?_⟩
  · exact ⟨List.mem_cons_of_mem l (h.kept r hr).1, (h.kept r hr).2⟩
  · rcases List.mem_cons.mp hr with rfl | hr
    · exact hfree
    · exact h.free r hr hT

omit [DecidableEq X] in
/-- A lock that is given back is none of those in `K`. -/
theorem Framed.unlock (h : Framed I T K F held s) {l : L} (hl : T l) :
    Framed I T K F (held.erase l) s := by
  refine ⟨h.nodup.erase l, fun r hr => ?_, h.fact, fun r hr hT => ?_⟩
  · obtain ⟨hmem, hT⟩ := h.kept r hr
    refine ⟨h.nodup.mem_erase_iff.mpr ⟨?_, hmem⟩, hT⟩
    rintro rfl
    exact hT hl
  · exact h.free r (List.mem_of_mem_erase hr) hT

/-- A program that keeps the discipline and does not store the variables of the invariants keeps them. -/
theorem wp_lift {p : Prog X V L E α} {Q : α → List L → Assn V E} {g : List E}
    (hp : D.wp p Q held g s) (hc : p.Leaves (I.aside T)) (hF : Frames I K F)
    (hs : Framed I T K F held s) :
    I.wp p (fun a held g s => Q a held g s ∧ Framed I T K F held s) held g s := by
  induction p generalizing held g s with
  | ret a => exact ⟨hp, hs⟩
  | load x k ih => exact fun s' hrely => ih (s' x) (hp s' hrely.1) (hc.2 _) (hs.rely hF hrely)
  | store x v k ih =>
      intro s' hrely
      refine ⟨fun habout => absurd (hc.1.symm.trans habout) Bool.false_ne_true, ?_⟩
      exact ih (hp.2 s' hrely.1).2 hc.2 ((hs.rely hF hrely).store hF hc.1 v)
  | lock l k ih =>
      intro s' hrely hfree
      -- locks are taken in ascending order, so it is not held yet
      have hl : l ∉ held := fun hl => Nat.lt_irrefl _ (hp.1 l hl)
      exact ih (hp.2 s' hrely.1) hc.2 ((hs.rely hF hrely).lock hl hfree)
  | unlock l k ih =>
      intro s' hrely
      have hs' := hs.rely hF hrely
      exact ⟨hs'.free l hp.1 hc.1, ih (hp.2 s' hrely.1) hc.2 (hs'.unlock hc.1)⟩
  | pause k ih => exact fun s' hrely => ih (hp s' hrely.1) hc (hs.rely hF hrely)
  | observe f k ih =>
      intro s' hrely
      exact ⟨hc.1 s', ih (hp s' hrely.1).2 hc.2 (hs.rely hF hrely)⟩
  | loop body k ihbody ihk =>
      obtain ⟨J, hJ, hstable, hbody⟩ := hp
      refine ⟨fun held g s => J held g s ∧ Framed I T K F held s, ⟨hJ, hs⟩, ?_, ?_⟩
      · intro held g s s' hrely h
        exact ⟨hstable held g s s' hrely.1 h.1, h.2.rely hF hrely⟩
      · intro held g s h
        refine wp_mono ?_ (ihbody (hbody held g s h.1) hc.1 h.2)
        rintro b held g s ⟨hb, hs⟩
        cases b with
        | true => exact ⟨hb, hs⟩
        | false => exact ihk hb hc.2 hs

end

/-! ## Triples

The rules are those of the discipline, with the same names, so that a proof of the one can be read as a
proof of the other. -/

variable (I) in
/-- From `P` the program, run with the locks `held`, comes to `Q` with the locks `held'`, whatever the
others do within their rules. -/
def Triple (held : List L) (P : Assn V E) (p : Prog X V L E α) (held' : List L)
    (Q : α → Assn V E) : Prop :=
  ∀ g s, P g s → I.wp p (fun a held g s => held = held' ∧ Q a g s) held g s

namespace Triple

variable {held held' held'' : List L} {P P' : Assn V E}

theorem pure {a : α} {Q : α → Assn V E} (h : ∀ g s, P g s → Q a g s) :
    I.Triple held P (Pure.pure a) held Q :=
  fun g s hP => ⟨rfl, h g s hP⟩

theorem bind {p : Prog X V L E α} {f : α → Prog X V L E β} {R : α → Assn V E} {Q : β → Assn V E}
    (hp : I.Triple held P p held' R) (hf : ∀ a, I.Triple held' (R a) (f a) held'' Q) :
    I.Triple held P (p >>= f) held'' Q := by
  intro g s hP
  refine wp_bind (wp_mono ?_ (hp g s hP))
  rintro a _ g s ⟨rfl, hR⟩
  exact hf a g s hR

/-- `bind`, where the second program does not look at the result of the first. -/
theorem seq {p : Prog X V L E α} {f : α → Prog X V L E β} {R : Assn V E} {Q : β → Assn V E}
    (hp : I.Triple held P p held' fun _ => R) (hf : ∀ a, I.Triple held' R (f a) held'' Q) :
    I.Triple held P (p >>= f) held'' Q :=
  hp.bind hf

theorem mono {p : Prog X V L E α} {Q Q' : α → Assn V E} (hp : I.Triple held P p held' Q)
    (hP : ∀ g s, P' g s → P g s) (hQ : ∀ a g s, Q a g s → Q' a g s) :
    I.Triple held P' p held' Q' :=
  fun g s h => wp_mono (fun a _ g s hq => ⟨hq.1, hQ a g s hq.2⟩) (hp g s (hP g s h))

theorem pre {p : Prog X V L E α} {Q : α → Assn V E} (hp : I.Triple held P p held' Q)
    (hP : ∀ g s, P' g s → P g s) : I.Triple held P' p held' Q :=
  hp.mono hP fun _ _ _ => id

theorem post {p : Prog X V L E α} {Q Q' : α → Assn V E} (hp : I.Triple held P p held' Q)
    (hQ : ∀ a g s, Q a g s → Q' a g s) : I.Triple held P p held' Q' :=
  hp.mono (fun _ _ => id) hQ

/-- A fact that the precondition gives and that names no state may be used throughout. -/
theorem fact {c : Prop} {p : Prog X V L E α} {Q : α → Assn V E} (hc : ∀ g s, P g s → c)
    (h : c → I.Triple held P p held' Q) : I.Triple held P p held' Q :=
  fun g s hP => h (hc g s hP) g s hP

/-- What the precondition only says to exist may be named. -/
theorem exists_pre {γ : Type} {P : γ → Assn V E} {p : Prog X V L E α} {Q : α → Assn V E}
    (h : ∀ c, I.Triple held (P c) p held' Q) : I.Triple held (fun g s => ∃ c, P c g s) p held' Q :=
  fun g s ⟨c, hP⟩ => h c g s hP

theorem ite {c : Prop} [Decidable c] {p q : Prog X V L E α} {Q : α → Assn V E}
    (hp : c → I.Triple held P p held' Q) (hq : ¬ c → I.Triple held P q held' Q) :
    I.Triple held P (if c then p else q) held' Q := by
  by_cases hc : c
  · rw [if_pos hc]
    exact hp hc
  · rw [if_neg hc]
    exact hq hc

/-- What the discipline says of a program that leaves the variables of the invariants alone. -/
theorem lift {p : Prog X V L E α} {Q : α → Assn V E} (T : L → Prop) (K : List L) {F : Store V → Prop}
    (hp : D.Triple held P p held' Q) (hc : p.Leaves (I.aside T))
    (hF : Frames I K F) (hnodup : held.Nodup) (hK : ∀ l ∈ K, l ∈ held ∧ ¬ T l) :
    I.Triple held (fun g s => (P g s ∧ F s) ∧ ∀ l ∈ held, T l → I.free l s) p held'
      fun a g s => (Q a g s ∧ F s) ∧ ∀ l ∈ held', T l → I.free l s := by
  rintro g s ⟨⟨hP, hs⟩, hfree⟩
  refine wp_mono ?_ (wp_lift (hp g s hP) hc hF ⟨hnodup, hK, hs, hfree⟩)
  rintro a _ g s ⟨⟨rfl, hQ⟩, hframed⟩
  exact ⟨rfl, ⟨hQ, hframed.fact⟩, hframed.free⟩

/-- A program that leaves the variables of the invariants and the locks alone. -/
theorem frame {p : Prog X V L E α} {F : Store V → Prop}
    (hc : p.Leaves (I.aside fun _ => False)) (hF : Frames I held F) :
    I.Triple held (fun _ s => F s) p held fun _ _ s => F s := by
  intro g s hs
  induction p generalizing g s with
  | ret a => exact ⟨rfl, hs⟩
  | load x k ih => exact fun s' hrely => ih (s' x) (hc.2 _) g s' (hF.stable s s' hrely hs)
  -- a program that stays aside stores to none of the variables the invariants are about
  | store x v k ih =>
      intro s' hrely
      refine ⟨fun habout => absurd (hc.1.symm.trans habout) Bool.false_ne_true, ?_⟩
      refine ih hc.2 g _ (hF.about s' _ (fun y hy => Function.update_of_ne ?_ v s') (hF.stable s s' hrely hs))
      rintro rfl
      exact Bool.false_ne_true (hc.1.symm.trans hy)
  | lock l k => exact hc.1.elim
  | unlock l k => exact hc.1.elim
  | pause k ih => exact fun s' hrely => ih hc g s' (hF.stable s s' hrely hs)
  | observe f k ih => exact fun s' hrely => ⟨hc.1 s', ih hc.2 _ s' (hF.stable s s' hrely hs)⟩
  -- the fact itself is the invariant of the loop
  | loop body k ihbody ihk =>
      refine ⟨fun held' _ s => held' = held ∧ F s, ⟨rfl, hs⟩, ?_, ?_⟩
      · rintro held' g s s' hrely ⟨rfl, hs⟩
        exact ⟨rfl, hF.stable s s' hrely hs⟩
      · rintro held' g s ⟨rfl, hs⟩
        refine wp_mono ?_ (ihbody hc.1 g s hs)
        rintro b held' g s ⟨rfl, hs⟩
        cases b with
        | true => exact ⟨rfl, hs⟩
        | false => exact ihk hc.2 g s hs

variable (hP : I.Stable held P)
include hP

theorem read {x : X} {Q : V x → Assn V E} (h : ∀ g s, P g s → Q (s x) g s) :
    I.Triple held P (Prog.read x) held Q :=
  fun g s hs s' hrely => ⟨rfl, h g s' (hP g s s' hrely hs)⟩

/-- A load whose result is known. -/
theorem readKnown {x : X} {v : V x} {f : V x → Prog X V L E β} {Q : β → Assn V E}
    (hx : ∀ g s, P g s → s x = v) (hf : I.Triple held P (f v) held' Q) :
    I.Triple held P (Prog.read x >>= f) held' Q := by
  intro g s hs s' hrely
  have hs' := hP g s s' hrely hs
  show I.wp (f (s' x)) _ held g s'
  rw [hx g s' hs']
  exact hf g s' hs'

/-- A store to a variable that the invariants speak of has to respect them; all others are free. -/
theorem write {x : X} {v : V x} {Q : Assn V E}
    (h : ∀ g s, P g s → (I.about x = true → I.may x (s x) v ∧
      ∀ l, D.guard x = some l → I.always l (Function.update s x v)) ∧ Q g (Function.update s x v)) :
    I.Triple held P (Prog.write x v) held fun _ => Q := by
  intro g s hs s' hrely
  obtain ⟨habout, hQ⟩ := h g s' (hP g s s' hrely hs)
  exact ⟨habout, rfl, hQ⟩

/-- What a free lock promises is known once the lock is taken. -/
theorem acquire {l : L} : I.Triple held P (Prog.acquire l) (l :: held) fun _ g s => P g s ∧ I.free l s :=
  fun g s hs s' hrely hfree => ⟨rfl, hP g s s' hrely hs, hfree⟩

theorem switch : I.Triple held P Prog.switch held fun _ => P :=
  fun g s hs s' hrely => ⟨rfl, hP g s s' hrely hs⟩

/-- A loop, by an invariant that holds before every round. -/
theorem repeatWhile {body : Prog X V L E Bool} {Q : Assn V E}
    (h : I.Triple held P body held fun b => if b then P else Q) :
    I.Triple held P (Prog.repeatWhile body) held fun _ => Q := by
  intro g s hs
  refine ⟨fun held₁ g s => held₁ = held ∧ P g s, ⟨rfl, hs⟩, ?_, ?_⟩
  · rintro held₁ g s s' hrely ⟨rfl, hs⟩
    exact ⟨rfl, hP g s s' hrely hs⟩
  · rintro _ g s ⟨rfl, hs⟩
    refine wp_mono ?_ (h g s hs)
    rintro b held₁ g s ⟨rfl, hb⟩
    cases b with
    | true => exact ⟨rfl, hb⟩
    | false => exact ⟨rfl, hb⟩

/-- A loop whose body keeps the precondition. -/
theorem repeatKeeping {body : Prog X V L E Bool} (h : I.Triple held P body held fun _ => P) :
    I.Triple held P (Prog.repeatWhile body) held fun _ => P := by
  refine repeatWhile hP (h.post fun b g s hs => ?_)
  cases b with
  | true => exact hs
  | false => exact hs

omit hP in
/-- A lock is given back only in a state in which its invariant holds. -/
theorem release {l : L} (hP : I.Stable (l :: held) P) (hfree : ∀ g s, P g s → I.free l s) :
    I.Triple (l :: held) P (Prog.release l) held fun _ => P := by
  intro g s hs s' hrely
  have hs' := hP g s s' hrely hs
  exact ⟨hfree g s' hs', List.erase_cons_head l held, hs'⟩

omit hP in
/-- A loop over a list, with `P` for its invariant. -/
theorem forM {γ : Type} {f : γ → Prog X V L E PUnit} {xs : List γ}
    (h : ∀ a ∈ xs, I.Triple held P (f a) held fun _ => P) :
    I.Triple held P (xs.forM f) held fun _ => P := by
  induction xs with
  | nil => exact pure fun _ _ => id
  | cons a xs ih =>
      show I.Triple held P (f a >>= fun _ => xs.forM f) held fun _ => P
      exact (h a List.mem_cons_self).seq fun _ => ih fun b hb => h b (List.mem_cons_of_mem a hb)

end Triple

/-! ## Soundness

The invariants of the locks that are free, with the assertion of each task, are kept by every step of the
world. -/

/-- Task `t` holds exactly the locks `held`, and is where the logic says it is. -/
structure TaskKept (I : Invariants D) (w : World ι X V L E) (t : ι) (held : List L) : Prop where
  nodup : held.Nodup
  owns : ∀ l, l ∈ held ↔ w.owner l = some t
  wp : I.wp (w.code t) (fun _ held _ _ => held = []) held (w.log t) w.vars

/-- The invariants hold in the world `w`, and every task has a proof that it will keep them. -/
structure Kept (I : Invariants D) (w : World ι X V L E) : Prop where
  free : ∀ l, w.owner l = none → I.free l w.vars
  always : ∀ l, I.always l w.vars
  allowed : ∀ t, ∀ e ∈ w.log t, I.allow e
  tasks : ∀ t, ∃ held, TaskKept I w t held

variable {w w' : World ι X V L E}

/-- When no lock is taken, the invariants of the free locks are all there is to show. -/
theorem Kept.initial (h : w.Initial) (hfree : ∀ l, I.free l w.vars) : I.Kept w := by
  obtain ⟨howner, hcode, hlog⟩ := h
  refine ⟨fun l _ => hfree l, fun l => I.free_always l _ (hfree l), fun t e he => ?_, fun t => ?_⟩
  · rw [hlog t] at he
    exact absurd he List.not_mem_nil
  · refine ⟨[], List.nodup_nil, fun l => ?_, ?_⟩
    · rw [howner l]
      simp
    · rw [hcode t]
      rfl

/-- A step leaves a task where it is when it changes neither the task's program nor its log nor its
locks, and the variables only as the task relies on. -/
theorem TaskKept.frame {t : ι} {held : List L} (h : TaskKept I w t held)
    (hcode : w'.code t = w.code t) (hlog : w'.log t = w.log t)
    (howner : ∀ l, w'.owner l = some t ↔ w.owner l = some t)
    (hrely : I.Rely held w.vars w'.vars) : TaskKept I w' t held := by
  refine ⟨h.nodup, fun l => (h.owns l).trans (howner l).symm, ?_⟩
  rw [hcode, hlog]
  exact wp_rely (fun _ _ _ _ _ _ hq => hq) h.wp hrely

/-- The actions that concern no lock. -/
theorem wp_act {p p' : Prog X V L E Unit} {s s' : Store V} {g g' : List E}
    {Q : Unit → List L → Assn V E} {held : List L} (hact : p.act s g = some (p', s', g'))
    (hwp : I.wp p Q held g s) :
    I.wp p' Q held g' s' ∧ (∀ x, I.may x (s x) (s' x)) ∧ (∀ l, I.always l s → I.always l s') ∧
      ∀ e ∈ g', e ∈ g ∨ I.allow e := by
  have hrefl := Rely.refl I held s
  cases p with
  | ret a => cases hact
  | lock l k => cases hact
  | unlock l k => cases hact
  | load x k =>
      cases hact
      exact ⟨hwp s hrefl, hrefl.2, fun _ => id, fun _ => Or.inl⟩
  | pause k =>
      cases hact
      exact ⟨hwp s hrefl, hrefl.2, fun _ => id, fun _ => Or.inl⟩
  | loop body k =>
      cases hact
      exact ⟨wp_again hwp, hrefl.2, fun _ => id, fun _ => Or.inl⟩
  | observe f k =>
      cases hact
      obtain ⟨hallow, hk⟩ := hwp s hrefl
      refine ⟨hk, hrefl.2, fun _ => id, fun e he => ?_⟩
      rcases List.mem_append.mp he with he | he
      · exact Or.inl he
      · obtain rfl := List.mem_singleton.mp he
        exact Or.inr hallow
  -- the only action that may break something: its variable, or a fact about it
  | store x v k =>
      cases hact
      obtain ⟨habout, hk⟩ := hwp s hrefl
      refine ⟨hk, fun y => ?_, fun l hl => ?_, fun _ => Or.inl⟩
      · by_cases hy : y = x
        · subst hy
          rw [Function.update_self]
          cases hspoken : I.about y with
          | false => exact I.may_other y _ _ hspoken
          | true => exact (habout hspoken).1
        · rw [Function.update_of_ne hy]
          exact I.may_refl y _
      · by_cases hx : I.about x = true ∧ D.guard x = some l
        · exact (habout hx.1).2 l hx.2
        · refine I.always_congr l s _ (fun y hy hguard => Function.update_of_ne ?_ v s) hl
          rintro rfl
          exact hx ⟨hy, hguard⟩

variable {Idle : List E → Prop}

theorem Kept.act [DecidableEq ι] (h : I.Kept w) (hs : Sound D Idle w) {t : ι} {p : Prog X V L E Unit}
    {s : Store V} {g : List E} (hact : (w.code t).act w.vars (w.log t) = some (p, s, g)) :
    I.Kept { w.goto t p with vars := s, log := Function.update w.log t g } := by
  obtain ⟨held, ht⟩ := h.tasks t
  obtain ⟨heldD, hD⟩ := hs t
  obtain ⟨hwp, hmay, halways, hnotes⟩ := wp_act hact ht.wp
  obtain ⟨-, hguar, -⟩ := Discipline.wp_act hact hD.wp hD.allowed
  refine ⟨fun l hl => ?_, fun l => halways l (h.always l), fun u e he => ?_, fun u => ?_⟩
  · -- whoever stores a variable of the lock holds it
    refine I.free_congr l w.vars s (fun x _ hx => ?_) (h.free l hl)
    by_contra hne
    have hown := (hD.owns l).mp ((hguar x).2 hne l hx)
    exact Option.some_ne_none t (hown.symm.trans hl)
  · replace he : e ∈ Function.update w.log t g u := he
    by_cases hu : u = t
    · subst hu
      rw [Function.update_self] at he
      rcases hnotes e he with he | he
      · exact h.allowed u e he
      · exact he
    · rw [Function.update_of_ne hu] at he
      exact h.allowed u e he
  -- the task that has moved has its next assertion; the others rely on the step
  · by_cases hu : u = t
    · subst hu
      refine ⟨held, ht.nodup, ht.owns, ?_⟩
      show I.wp (Function.update w.code u p u) _ held (Function.update w.log u g u) s
      rw [Function.update_self, Function.update_self]
      exact hwp
    · obtain ⟨heldu, hku⟩ := h.tasks u
      refine ⟨heldu, hku.frame (Function.update_of_ne hu _ _) (Function.update_of_ne hu _ _)
        (fun _ => Iff.rfl) ⟨hguar.rely fun l hl hlt => ?_, hmay⟩⟩
      have hown := (hku.owns l).mp hl
      rw [(hD.owns l).mp hlt, Option.some.injEq] at hown
      exact hu hown.symm

theorem Kept.acquire [DecidableEq ι] (h : I.Kept w) {t : ι} {l : L} {k : Prog X V L E Unit}
    (hcode : w.code t = .lock l k) (hfree : w.owner l = none) :
    I.Kept { w.goto t k with owner := Function.update w.owner l (some t) } := by
  refine ⟨fun r hr => ?_, h.always, h.allowed, fun u => ?_⟩
  · replace hr : Function.update w.owner l (some t) r = none := hr
    apply h.free r
    by_cases hrl : r = l
    · subst hrl
      exact hfree
    · rwa [Function.update_of_ne hrl] at hr
  · obtain ⟨held, hu⟩ := h.tasks u
    by_cases hut : u = t
    · subst hut
      have hwp := hu.wp
      rw [hcode] at hwp
      have hl : l ∉ held := by
        intro hl
        rw [hu.owns l, hfree] at hl
        exact Option.some_ne_none u hl.symm
      refine ⟨l :: held, List.nodup_cons.mpr ⟨hl, hu.nodup⟩, fun r => ?_, ?_⟩
      · show _ ↔ Function.update w.owner l (some u) r = some u
        by_cases hr : r = l
        · subst hr
          simp
        · rw [Function.update_of_ne hr, List.mem_cons, hu.owns r]
          simp [hr]
      -- the invariant of the lock goes to the task
      · show I.wp (Function.update w.code u k u) _ _ _ _
        rw [Function.update_self]
        exact hwp w.vars (Rely.refl I held w.vars) (h.free l hfree)
    · refine ⟨held, hu.frame (Function.update_of_ne hut _ _) rfl (fun r => ?_)
        (Rely.refl I held w.vars)⟩
      show Function.update w.owner l (some t) r = some u ↔ _
      by_cases hr : r = l
      · subst hr
        rw [Function.update_self, hfree]
        simp [Ne.symm hut]
      · rw [Function.update_of_ne hr]

theorem Kept.release [DecidableEq ι] (h : I.Kept w) {t : ι} {l : L} {k : Prog X V L E Unit}
    (hcode : w.code t = .unlock l k) (howner : w.owner l = some t) :
    I.Kept { w.goto t k with owner := Function.update w.owner l none } := by
  obtain ⟨held, ht⟩ := h.tasks t
  have hwp := ht.wp
  rw [hcode] at hwp
  -- what is owed at an unlock: the invariant of the lock holds again
  obtain ⟨hfree, hk⟩ := hwp w.vars (Rely.refl I held w.vars)
  refine ⟨fun r hr => ?_, h.always, h.allowed, fun u => ?_⟩
  · replace hr : Function.update w.owner l none r = none := hr
    by_cases hrl : r = l
    · subst hrl
      exact hfree
    · rw [Function.update_of_ne hrl] at hr
      exact h.free r hr
  -- for the task itself the lock leaves `held`; the others are framed
  · by_cases hut : u = t
    · subst hut
      refine ⟨held.erase l, ht.nodup.erase l, fun r => ?_, ?_⟩
      · show _ ↔ Function.update w.owner l none r = some u
        rw [ht.nodup.mem_erase_iff]
        by_cases hr : r = l
        · subst hr
          simp
        · rw [Function.update_of_ne hr, ht.owns r]
          simp [hr]
      · show I.wp (Function.update w.code u k u) _ _ _ _
        rw [Function.update_self]
        exact hk
    · obtain ⟨heldu, hu⟩ := h.tasks u
      refine ⟨heldu, hu.frame (Function.update_of_ne hut _ _) rfl (fun r => ?_)
        (Rely.refl I heldu w.vars)⟩
      show Function.update w.owner l none r = some u ↔ _
      by_cases hr : r = l
      · subst hr
        rw [Function.update_self, howner]
        simp [Ne.symm hut]
      · rw [Function.update_of_ne hr]

theorem Kept.start [DecidableEq ι] (h : I.Kept w) (hs : Sound D Idle w) {p : Prog X V L E Unit}
    (hp : I.Triple [] (fun g _ => Idle g) p [] fun _ _ _ => True) {t : ι} {a : Unit}
    (hcode : w.code t = .ret a) : I.Kept (w.goto t p) := by
  refine ⟨h.free, h.always, h.allowed, fun u => ?_⟩
  obtain ⟨held, hu⟩ := h.tasks u
  by_cases hut : u = t
  · subst hut
    obtain ⟨heldD, hD⟩ := hs u
    have hidle := hD.wp
    have hwp := hu.wp
    rw [hcode] at hidle hwp
    obtain rfl : held = [] := hwp
    refine ⟨[], hu.nodup, hu.owns, ?_⟩
    show I.wp (Function.update w.code u p u) _ _ _ _
    rw [Function.update_self]
    exact wp_mono (fun _ _ _ _ hq => hq.1) (hp (w.log u) w.vars hidle.2)
  · exact ⟨held, hu.frame (Function.update_of_ne hut _ _) rfl (fun _ => Iff.rfl)
      (Rely.refl I held w.vars)⟩

/-- The register of a device changes, of which the invariants do not speak. -/
theorem Kept.device (h : I.Kept w) {x : X} (hguard : D.guard x = none)
    (hmay : ∀ v v', D.may x v v') (habout : I.about x = false) (v : V x) :
    I.Kept { w with vars := Function.update w.vars x v } := by
  -- the invariants do not speak of what the hardware stores to
  have hkept : ∀ l y, I.about y = true → D.guard y = some l →
      Function.update w.vars x v y = w.vars y := by
    intro l y hy _
    apply Function.update_of_ne
    rintro rfl
    exact Bool.false_ne_true (habout.symm.trans hy)
  refine ⟨fun l hl => I.free_congr l _ _ (hkept l) (h.free l hl),
    fun l => I.always_congr l _ _ (hkept l) (h.always l), h.allowed, fun t => ?_⟩
  obtain ⟨held, ht⟩ := h.tasks t
  refine ⟨held, ht.frame rfl rfl (fun _ => Iff.rfl) ⟨fun y => ?_, fun y => ?_⟩⟩
  · show D.may y (w.vars y) (Function.update w.vars x v y) ∧ _
    by_cases hy : y = x
    · subst hy
      refine ⟨hmay _ _, fun l hl => ?_⟩
      rw [hguard] at hl
      exact absurd hl.symm (Option.some_ne_none l)
    · rw [Function.update_of_ne hy]
      exact ⟨D.may_refl y _, fun _ _ _ => Function.update_of_ne hy v w.vars⟩
  · show I.may y (w.vars y) (Function.update w.vars x v y)
    by_cases hy : y = x
    · subst hy
      exact I.may_other y _ _ habout
    · rw [Function.update_of_ne hy]
      exact I.may_refl y _

section

variable [DecidableEq ι] {body : Op → Prog X V L E Unit} {volatile : X → Bool} {a : Action ι Op V}

/-- Every step of tasks whose operations keep the discipline and the invariants keeps them. -/
theorem Kept.worldStep
    (hbody : ∀ op, I.Triple [] (fun g _ => Idle g) (body op) [] fun _ _ _ => True)
    (hdevice : ∀ x, volatile x = true → D.guard x = none ∧ ∀ v v', D.may x v v')
    (habout : ∀ x, volatile x = true → I.about x = false) (hs : Sound D Idle w) (h : I.Kept w)
    (hst : SmartblocksOs.Foundation.worldStep body volatile w a = some w') : I.Kept w' := by
  cases a with
  | start t op =>
      simp only [SmartblocksOs.Foundation.worldStep] at hst
      split at hst
      · rename_i hcode
        obtain rfl := Option.some.inj hst
        exact h.start hs (hbody op) hcode
      · cases hst
  | advance t =>
      simp only [SmartblocksOs.Foundation.worldStep, World.advance] at hst
      -- a lock, an unlock, or an action that concerns neither
      split at hst
      · rename_i l k hcode
        obtain ⟨owner, howner, rfl⟩ := Option.map_eq_some_iff.mp hst
        obtain ⟨hfree, howner⟩ := Option.ite_none_right_eq_some.mp howner
        obtain rfl := Option.some.inj howner
        exact h.acquire hcode hfree
      · rename_i l k hcode
        have howner := hs.owner_of_unlock hcode
        rw [mutexStep_release howner, Option.map_some, Option.some.injEq] at hst
        subst hst
        exact h.release hcode howner
      · obtain ⟨⟨p, s, g⟩, hact, rfl⟩ := Option.map_eq_some_iff.mp hst
        exact h.act hs hact
  | device x v =>
      simp only [SmartblocksOs.Foundation.worldStep] at hst
      split at hst
      · rename_i hx
        obtain rfl := Option.some.inj hst
        exact h.device (hdevice x hx).1 (hdevice x hx).2 (habout x hx) v
      · cases hst

/-- No step changes a variable in a way that is ruled out. -/
theorem Kept.may_worldStep (habout : ∀ x, volatile x = true → I.about x = false) (h : I.Kept w)
    (hst : SmartblocksOs.Foundation.worldStep body volatile w a = some w') (x : X) :
    I.may x (w.vars x) (w'.vars x) := by
  cases a with
  | start t op =>
      simp only [SmartblocksOs.Foundation.worldStep] at hst
      split at hst
      · obtain rfl := Option.some.inj hst
        exact I.may_refl x _
      · cases hst
  | advance t =>
      simp only [SmartblocksOs.Foundation.worldStep, World.advance] at hst
      split at hst
      · obtain ⟨owner, -, rfl⟩ := Option.map_eq_some_iff.mp hst
        exact I.may_refl x _
      · obtain ⟨owner, -, rfl⟩ := Option.map_eq_some_iff.mp hst
        exact I.may_refl x _
      -- only this case stores anything, as far as its precondition allows
      · obtain ⟨⟨p, s, g⟩, hact, rfl⟩ := Option.map_eq_some_iff.mp hst
        obtain ⟨held, ht⟩ := h.tasks t
        exact (wp_act hact ht.wp).2.1 x
  | device y v =>
      simp only [SmartblocksOs.Foundation.worldStep] at hst
      split at hst
      · rename_i hy
        obtain rfl := Option.some.inj hst
        by_cases hxy : x = y
        · subst hxy
          exact I.may_other x _ _ (habout x hy)
        · show I.may x (w.vars x) (Function.update w.vars y v x)
          rw [Function.update_of_ne hxy]
          exact I.may_refl x _
      · cases hst

end

end Invariants

end SmartblocksOs.Foundation
