/-
# SmartblocksOs.Foundation.Typestate -- calls under a lock, next to a device

Tasks share a controller and the device it drives. They call the functions of the controller while they
hold a lock, in some order that the controller asks for; and a call is many actions, between which the
others act. A `Typestate` says in which phase a task may take which lock, store which variable and make
which call, and `Follows` that a program keeps to it. The phases are read off the text of a program, the
values it loads are anything.

What a call does is known from its run alone, next to the device (`Total`). A `Custody` says what holds
while nobody has the lock, and what holds between two calls of the task that has it, in each phase. If
every call, run alone, leads from what holds in its first phase to what holds in its last, then this is so
in every interleaving of the tasks too, as the others leave the controller alone (`Phased.wiredStep`): a
call that has been begun is always one that would end as it should, were it left alone (`Busy`).

The difficulty is that a call, though it is under the lock, is not a step. Between two of its actions
other tasks move, registers that are not the controller's change, and the variables that other locks
protect are stored. `Total` knows nothing of all that, and the interleaving knows nothing of `Total`.
`Busy` is where they meet: it keeps, for the task that has the lock, a machine of its own that agrees with
the world on all that the controller owns, and the total correctness of what is left of the call on that
machine. An action of the task is taken on both, and one of another task on the world alone.
-/
import SmartblocksOs.Foundation.Locking
import SmartblocksOs.Foundation.Execution

namespace SmartblocksOs.Foundation

variable {ι Op X : Type} {V : X → Type} {L E D Φ α β : Type}

/-! ## Programs that call and programs that are called

A call is a program that touches the controller's variables and no lock. Nothing else is asked of it here;
what it does is the business of the custody. -/

/-- The program loads and stores variables in `Q` only, and takes and releases no lock. -/
abbrev Prog.Local (Q : X → Bool) {α : Type} (p : Prog X V L E α) : Prop :=
  p.Leaves ⟨{x | Q x = true}, {x | Q x = true}, ∅, Set.univ⟩

/-- Such a program is at an action that concerns no lock. -/
theorem Prog.Local.exists_act [DecidableEq X] {Q : X → Bool} {p : Prog X V L E α} (h : p.Local Q)
    (hret : ∀ a, p ≠ .ret a) (f : α → Prog X V L E Unit) (s : Store V) (g : List E) :
    ∃ r, (p.bind f).act s g = some r := by
  cases p with
  | ret a => exact absurd rfl (hret a)
  | lock l k | unlock l k => exact h.1.elim
  | load x k | store x v k | pause k | observe e k | loop body k => exact ⟨_, rfl⟩

/-- A round of a loop is taken out of its run. -/
theorem Total.again [DecidableEq X] {react : Reaction V D} {body : Prog X V L E Bool}
    {k : Prog X V L E α} {m : Machine V E D} {R : α → Machine V E D → Prop}
    (h : Total react (.loop body k) m R) : Total react (Prog.again body k) m R := by
  obtain ⟨fuel, a, m', hexec, hR⟩ := h
  obtain ⟨n, hn, hk⟩ := Option.bind_eq_some_iff.mp hexec
  cases fuel with
  | zero => exact absurd hn (by simp [repeatRounds])
  | succ fuel =>
      obtain ⟨⟨more, m₁⟩, hbody, hn⟩ := Option.bind_eq_some_iff.mp hn
      refine Total.bind (f := fun more => if more then .loop body k else k) ⟨fuel + 1, more, m₁, hbody, ?_⟩
      cases more with
      | false =>
          obtain rfl := Option.some.inj hn
          exact ⟨fuel + 1, a, m', hk, hR⟩
      | true =>
          refine ⟨fuel + 1, a, m', ?_, hR⟩
          have hrounds := repeatRounds_mono (fun _ _ hround => hround) (Nat.le_succ fuel) hn
          exact Option.bind_eq_some_iff.mpr ⟨n, hrounds, hk⟩

/-! ## Typestates

`Follows` is a type system: it goes over the text of a program, and for a load it wants a derivation for
every value that may come. A loop has to end its body in the phase in which it began it. The rules for
composition and for loops over lists are derived, so that the derivation for a program has the shape of
its text. -/

/-- The phases of a task: what it may do in each, and the phase that it is in then. -/
structure Typestate (X : Type) (V : X → Type) (L E Φ : Type) where
  /-- The phase of a task between two operations. -/
  start : Φ
  holds : Φ → L → Prop
  lock : L → Φ → Option Φ
  unlock : L → Φ → Option Φ
  store : ∀ x, V x → Φ → Option Φ
  /-- The calls that may be made in a phase, with the phase in which they end. -/
  call : Φ → (β : Type) → Prog X V L E β → Φ → Prop
  /-- The phases of a task in a call. -/
  calling : Φ → Prop
  /-- The variables that calls load and store. No other action stores them. -/
  touched : X → Bool
  start_holds : ∀ l, ¬ holds start l
  lock_holds : ∀ {l φ φ'}, lock l φ = some φ' → ∀ r, holds φ' r ↔ r = l ∨ holds φ r
  unlock_holds : ∀ {l φ φ'}, unlock l φ = some φ' → holds φ l ∧ ∀ r, holds φ' r ↔ r ≠ l ∧ holds φ r
  store_holds : ∀ {x v φ φ'}, store x v φ = some φ' → ∀ r, holds φ' r ↔ holds φ r
  store_touched : ∀ {x v φ φ'}, store x v φ = some φ' → touched x = false
  call_holds : ∀ {φ β c φ'}, call φ β c φ' → ∀ r, holds φ' r ↔ holds φ r
  call_calling : ∀ {φ β c φ'}, call φ β c φ' → calling φ'
  call_local : ∀ {φ β c φ'}, call φ β c φ' → c.Local touched
  call_ne_ret : ∀ {φ β c φ'}, call φ β c φ' → ∀ b, c ≠ .ret b

namespace Typestate

/-- In phase `φ` the program keeps to the typestate, and it ends in phase `ψ`. A lock that the task holds
already it would wait for in vain, so nothing that follows is ever done. -/
inductive Follows (T : Typestate X V L E Φ) : {α : Type} → Φ → Prog X V L E α → Φ → Prop
  | ret {α : Type} {φ : Φ} (a : α) : Follows T φ (.ret a) φ
  | load {α : Type} {φ ψ : Φ} {x : X} {k : V x → Prog X V L E α} :
      (∀ v, Follows T φ (k v) ψ) → Follows T φ (.load x k) ψ
  | store {α : Type} {φ φ' ψ : Φ} {x : X} {v : V x} {k : Prog X V L E α} :
      T.store x v φ = some φ' → Follows T φ' k ψ → Follows T φ (.store x v k) ψ
  | lock {α : Type} {φ φ' ψ : Φ} {l : L} {k : Prog X V L E α} :
      T.lock l φ = some φ' → Follows T φ' k ψ → Follows T φ (.lock l k) ψ
  | wait {α : Type} {φ ψ : Φ} {l : L} {k : Prog X V L E α} : T.holds φ l → Follows T φ (.lock l k) ψ
  | unlock {α : Type} {φ φ' ψ : Φ} {l : L} {k : Prog X V L E α} :
      T.unlock l φ = some φ' → Follows T φ' k ψ → Follows T φ (.unlock l k) ψ
  | pause {α : Type} {φ ψ : Φ} {k : Prog X V L E α} : Follows T φ k ψ → Follows T φ (.pause k) ψ
  | observe {α : Type} {φ ψ : Φ} {f : Store V → E} {k : Prog X V L E α} :
      Follows T φ k ψ → Follows T φ (.observe f k) ψ
  | loop {α : Type} {φ ψ : Φ} {body : Prog X V L E Bool} {k : Prog X V L E α} :
      Follows T φ body φ → Follows T φ k ψ → Follows T φ (.loop body k) ψ
  | call {α β : Type} {φ φ' ψ : Φ} {c : Prog X V L E β} {k : β → Prog X V L E α} :
      T.call φ β c φ' → (∀ b, Follows T φ' (k b) ψ) → Follows T φ (c.bind k) ψ

namespace Follows

variable {T : Typestate X V L E Φ} {φ φ' ψ χ : Φ} {p : Prog X V L E α}

/-- The phase in which the first part ends is the one in which the rest begins. -/
theorem bind {f : α → Prog X V L E β} (hp : T.Follows φ p ψ) (hf : ∀ a, T.Follows ψ (f a) χ) :
    T.Follows φ (p >>= f) χ := by
  induction hp with
  | ret a => exact hf a
  | load _ ih => exact .load fun v => ih v hf
  | store hx _ ih => exact .store hx (ih hf)
  | lock hl _ ih => exact .lock hl (ih hf)
  | wait hl => exact .wait hl
  | unlock hl _ ih => exact .unlock hl (ih hf)
  | pause _ ih => exact .pause (ih hf)
  | observe _ ih => exact .observe (ih hf)
  | loop hbody _ _ ih => exact .loop hbody (ih hf)
  | call hc _ ih =>
      show T.Follows _ (Prog.bind (Prog.bind _ _) f) χ
      rw [Prog.bind_bind]
      exact .call hc fun b => ih b hf

/-- Both branches lead to one phase. -/
theorem ite {c : Prop} [Decidable c] {q : Prog X V L E α} (hp : T.Follows φ p ψ)
    (hq : T.Follows φ q ψ) : T.Follows φ (if c then p else q) ψ := by
  split
  · exact hp
  · exact hq

theorem forM {γ : Type} {f : γ → Prog X V L E PUnit} (h : ∀ c, T.Follows φ (f c) φ) (cs : List γ) :
    T.Follows φ (cs.forM f) φ := by
  induction cs with
  | nil => exact .ret _
  | cons c cs ih => exact (h c).bind fun _ => ih

theorem foldlM {γ : Type} {f : β → γ → Prog X V L E β} (h : ∀ b c, T.Follows φ (f b c) φ)
    (cs : List γ) (b : β) : T.Follows φ (cs.foldlM f b) φ := by
  induction cs generalizing b with
  | nil => exact .ret _
  | cons c cs ih =>
      rw [List.foldlM_cons]
      exact (h b c).bind ih

/-- A loop that ends each round in the phase in which it began it. -/
theorem repeatWhile {body : Prog X V L E Bool} (h : T.Follows φ body φ) :
    T.Follows φ (Prog.repeatWhile body) φ :=
  .loop h (.ret _)

/-- One more round of a loop. -/
theorem again {body : Prog X V L E Bool} (hbody : T.Follows φ body φ) (hp : T.Follows φ p ψ) :
    T.Follows φ (Prog.again body p) ψ :=
  hbody.bind fun _ => ite (.loop hbody hp) hp

theorem of_call {c : Prog X V L E α} (h : T.call φ α c φ') : T.Follows φ c φ' := by
  rw [← Prog.bind_ret c]
  exact .call h fun b => .ret b

/-! A program at an action that concerns a lock, or at its end, is not in a call. -/

section

variable [DecidableEq X] {q : Prog X V L E Unit}

/-- A program that has ended or is at a lock is not at a call. -/
theorem not_call (hact : ∀ s g, q.act s g = none) {c : Prog X V L E β} {k : β → Prog X V L E Unit}
    (hq : q = c.bind k) (hc : T.call φ β c φ') (s : Store V) : False := by
  obtain ⟨r, hr⟩ := (T.call_local hc).exists_act (T.call_ne_ret hc) k s []
  rw [← hq, hact] at hr
  exact Option.some_ne_none r hr.symm

/-- A program that has ended is in the phase it was to end in. -/
theorem eq_of_ret (h : T.Follows φ (.ret ()) ψ) (s : Store V) : φ = ψ := by
  generalize hq : (Prog.ret () : Prog X V L E Unit) = q at h
  cases h with
  | ret a => rfl
  | call hc => exact (not_call (fun _ _ => rfl) hq hc s).elim
  | load | store | lock | wait | unlock | pause | observe | loop => cases hq

/-- To take a lock that is not held moves on the phase. -/
theorem of_lock {l : L} {k : Prog X V L E Unit} (h : T.Follows φ (.lock l k) ψ) (hl : ¬ T.holds φ l)
    (s : Store V) : ∃ φ', T.lock l φ = some φ' ∧ T.Follows φ' k ψ := by
  generalize hq : Prog.lock l k = q at h
  cases h with
  | lock hlock hk =>
      cases hq
      exact ⟨_, hlock, hk⟩
  | wait hwait =>
      cases hq
      exact absurd hwait hl
  | call hc => exact (not_call (fun _ _ => rfl) hq hc s).elim
  | ret | load | store | unlock | pause | observe | loop => cases hq

theorem of_unlock {l : L} {k : Prog X V L E Unit} (h : T.Follows φ (.unlock l k) ψ) (s : Store V) :
    ∃ φ', T.unlock l φ = some φ' ∧ T.Follows φ' k ψ := by
  generalize hq : Prog.unlock l k = q at h
  cases h with
  | unlock hunlock hk =>
      cases hq
      exact ⟨_, hunlock, hk⟩
  | call hc => exact (not_call (fun _ _ => rfl) hq hc s).elim
  | ret | load | store | lock | wait | pause | observe | loop => cases hq

end

end Follows

end Typestate

/-! ## Custodies

The fields are what the user of this module has to prove, for one controller. The first group says which
variables are the controller's and that the device has no business with others; the second that what is
said of them depends on nothing else; the third that every call, store and lock leads from one phase to
the next. -/

/-- What the device makes of the next action of a program. -/
def Prog.reacted (react : Reaction V D) : Prog X V L E α → Store V × D → Store V × D
  | .store x _ _, s => react x s
  | _, s => s

/-- What holds of the controller and of the device. -/
structure Custody [DecidableEq X] (T : Typestate X V L E Φ) (D : Type) where
  react : Reaction V D
  /-- The lock of the controller. -/
  master : L
  /-- The variables that only the task with the lock stores. -/
  owned : X → Bool
  /-- What holds while nobody has the lock. -/
  free : Store V → D → Prop
  /-- What holds between two calls of the task that has it. -/
  between : Φ → Store V → D → Prop
  owned_of_touched : ∀ {x}, T.touched x = true → owned x = true
  react_other : ∀ {x}, T.touched x = false → ∀ s, react x s = s
  react_congr : ∀ x s s' d, (∀ y, owned y = true → s' y = s y) →
    (∀ y, owned y = true → (react x (s', d)).1 y = (react x (s, d)).1 y) ∧
      (react x (s', d)).2 = (react x (s, d)).2
  free_congr : ∀ {s s' d}, (∀ x, owned x = true → s' x = s x) → free s d → free s' d
  between_congr : ∀ {φ s s' d}, (∀ x, owned x = true → s' x = s x) → between φ s d → between φ s' d
  call_holds : ∀ {φ β c φ'}, T.call φ β c φ' → T.holds φ master
  call_between : ∀ {φ β c φ'}, T.call φ β c φ' → ∀ m : Machine V E D, between φ m.vars m.device →
    Total react c m fun _ m' => between φ' m'.vars m'.device
  store_owned : ∀ {x v φ φ'}, T.store x v φ = some φ' → owned x = true → T.holds φ master
  store_between : ∀ {x v φ φ' s d}, T.store x v φ = some φ' → T.holds φ master → between φ s d →
    between φ' (Function.update s x v) d
  take : ∀ {φ φ' s d}, T.lock master φ = some φ' → free s d → between φ' s d
  lock_between : ∀ {l φ φ' s d}, T.lock l φ = some φ' → T.holds φ master → between φ s d →
    between φ' s d
  unlock_between : ∀ {l φ φ' s d}, T.unlock l φ = some φ' → l ≠ master → T.holds φ master →
    between φ s d → between φ' s d
  give : ∀ {φ φ' s d}, T.unlock master φ = some φ' → between φ s d → free s d

namespace Custody

variable [DecidableEq X] {T : Typestate X V L E Φ} (C : Custody T D)

/-! ## Where a task is

Outside the lock only the text of the program matters, and inside it what there is between two calls or
what the present call will leave. -/

/-- The task has the lock. It is between two calls, or in a call which, if it went on alone, would end as
it should: `q` is what is left of the call, and `m` a machine that tells no difference. -/
def Busy (φ : Φ) (p : Prog X V L E Unit) (s : Store V) (d : D) : Prop :=
  ∃ (β : Type) (q : Prog X V L E β) (k : β → Prog X V L E Unit) (m : Machine V E D),
    p = q.bind k ∧ q.Local T.touched ∧ (∀ b, T.Follows φ (k b) T.start) ∧
      ((∃ b, q = .ret b) ∨ T.calling φ) ∧ (∀ x, C.owned x = true → m.vars x = s x) ∧ m.device = d ∧
        Total C.react q m fun _ m' => C.between φ m'.vars m'.device

/-- The task is in phase `φ` at the program `p`. -/
structure TaskAt (φ : Φ) (p : Prog X V L E Unit) (s : Store V) (d : D) : Prop where
  busy : T.holds φ C.master → C.Busy φ p s d
  idle : ¬ T.holds φ C.master → T.Follows φ p T.start

variable {C} {φ ψ : Φ} {p p' : Prog X V L E Unit} {s s' : Store V} {d d' : D}

/-- A task that is between two calls. -/
theorem busy_of_between (hp : T.Follows φ p T.start) (hs : C.between φ s d) : C.Busy φ p s d :=
  ⟨Unit, .ret (), fun _ => p, ⟨s, d, []⟩, rfl, trivial, fun _ => hp, Or.inl ⟨(), rfl⟩, fun _ _ => rfl, rfl,
    Total.pure_iff.mpr hs⟩

/-- A task between two calls. -/
theorem taskAt_of_follows (hp : T.Follows φ p T.start) (hs : T.holds φ C.master → C.between φ s d) :
    C.TaskAt φ p s d :=
  ⟨fun hheld => busy_of_between hp (hs hheld), fun _ => hp⟩

/-- What is not the controller's may change. -/
theorem Busy.congr (h : C.Busy φ p s d) (hs : ∀ x, C.owned x = true → s' x = s x) :
    C.Busy φ p s' d := by
  obtain ⟨β, q, k, m, hp, hq, hk, hcalling, hvars, hdevice, htotal⟩ := h
  exact ⟨β, q, k, m, hp, hq, hk, hcalling, fun x hx => (hvars x hx).trans (hs x hx).symm, hdevice, htotal⟩

/-- A call that has come to its end. -/
theorem between_of_ret {β : Type} {b : β} {m : Machine V E D}
    (hvars : ∀ x, C.owned x = true → m.vars x = s x) (hdevice : m.device = d)
    (h : Total C.react (.ret b : Prog X V L E β) m fun _ m' => C.between φ m'.vars m'.device) :
    C.between φ s d := by
  have hm : C.between φ m.vars m.device := Total.pure_iff.mp h
  rw [hdevice] at hm
  exact C.between_congr (fun x hx => (hvars x hx).symm) hm

/-- At a lock, or at its end, a task is between two calls. -/
theorem Busy.settled (h : C.Busy φ p s d) (hact : ∀ s g, p.act s g = none) :
    T.Follows φ p T.start ∧ C.between φ s d := by
  obtain ⟨β, q, k, m, rfl, hq, hk, -, hvars, hdevice, htotal⟩ := h
  cases hret : q with
  | ret b =>
      subst hret
      exact ⟨hk b, between_of_ret hvars hdevice htotal⟩
  | load | store | lock | unlock | pause | observe | loop =>
      obtain ⟨r, hr⟩ := hq.exists_act (by simp [hret]) k s []
      rw [hact] at hr
      exact absurd hr.symm (Option.some_ne_none r)

/-- A task that has ended or is at a lock is between two calls. -/
theorem TaskAt.settled (h : C.TaskAt φ p s d) (hact : ∀ s g, p.act s g = none) :
    T.Follows φ p T.start ∧ (T.holds φ C.master → C.between φ s d) := by
  by_cases hheld : T.holds φ C.master
  · obtain ⟨hp, hs⟩ := (h.busy hheld).settled hact
    exact ⟨hp, fun _ => hs⟩
  · exact ⟨h.idle hheld, fun h' => absurd h' hheld⟩

/-! ## The actions that concern no lock

An action is one of a call or one between two calls. In the first case `Total` is taken one action
further, in the second the typestate is. -/

theorem Busy.act_call {β : Type} {q : Prog X V L E β} {k : β → Prog X V L E Unit} {m : Machine V E D}
    {g g' : List E} (hq : q.Local T.touched) (hret : ∀ b, q ≠ .ret b)
    (hk : ∀ b, T.Follows φ (k b) T.start) (hcalling : T.calling φ)
    (hvars : ∀ x, C.owned x = true → m.vars x = s x) (hdevice : m.device = d)
    (htotal : Total C.react q m fun _ m' => C.between φ m'.vars m'.device)
    (hact : (q.bind k).act s g = some (p', s', g')) :
    C.Busy φ p' ((q.bind k).reacted C.react (s', d)).1 ((q.bind k).reacted C.react (s', d)).2 := by
  subst hdevice
  cases q with
  | ret b => exact absurd rfl (hret b)
  | lock l k' => exact hq.1.elim
  | unlock l k' => exact hq.1.elim
  -- the variable is one of the custody, so that the value read is the one of the run alone
  | load x k' =>
      cases hact
      have hx : m.vars x = s x := hvars x (C.owned_of_touched hq.1)
      refine ⟨β, k' (s x), k, m, rfl, hq.2 _, hk, Or.inr hcalling, hvars, rfl, ?_⟩
      rw [← hx]
      exact htotal
  -- the store and what the device makes of it happen on both sides
  | store x v k' =>
      cases hact
      have hupdate : ∀ y, C.owned y = true →
          Function.update m.vars x v y = Function.update s x v y := by
        intro y hy
        by_cases hyx : y = x
        · subst hyx
          rw [Function.update_self, Function.update_self]
        · rw [Function.update_of_ne hyx, Function.update_of_ne hyx]
          exact hvars y hy
      obtain ⟨hreacted, hreacted'⟩ := C.react_congr x _ _ m.device hupdate
      exact ⟨β, k', k, m.store C.react x v, rfl, hq.2, hk, Or.inr hcalling, hreacted, hreacted', htotal⟩
  | pause k' =>
      cases hact
      exact ⟨β, k', k, m, rfl, hq, hk, Or.inr hcalling, hvars, rfl, htotal⟩
  | observe f k' =>
      cases hact
      exact ⟨β, k', k, { m with log := m.log ++ [f m.vars] }, rfl, hq.2, hk, Or.inr hcalling, hvars, rfl, htotal⟩
  | loop body k' =>
      cases hact
      refine ⟨β, .again body k', k, m, ?_, hq.1.again hq.2, hk, Or.inr hcalling, hvars, rfl, htotal.again⟩
      exact (Prog.again_bind body k' k).symm

/-- The action of a program that is between two calls. -/
theorem act_follows {g g' : List E} (hp : T.Follows φ p T.start)
    (hs : T.holds φ C.master → C.between φ s d) (hact : p.act s g = some (p', s', g')) :
    ∃ φ', C.TaskAt φ' p' (p.reacted C.react (s', d)).1 (p.reacted C.react (s', d)).2 ∧
      ∀ r, T.holds φ' r ↔ T.holds φ r := by
  generalize hstart : T.start = ψ at hp
  cases hp with
  | ret | lock | wait | unlock => cases hact
  | load hk =>
      cases hact
      subst hstart
      exact ⟨φ, taskAt_of_follows (hk _) hs, fun _ => Iff.rfl⟩
  | pause hk | observe hk =>
      cases hact
      subst hstart
      exact ⟨φ, taskAt_of_follows hk hs, fun _ => Iff.rfl⟩
  | loop hbody hk =>
      cases hact
      subst hstart
      exact ⟨φ, taskAt_of_follows (hbody.again hk) hs, fun _ => Iff.rfl⟩
  | @store _ _ φ' _ x v k hx hk =>
      cases hact
      subst hstart
      refine ⟨φ', ?_, T.store_holds hx⟩
      -- the device does not react to it
      rw [Prog.reacted, C.react_other (T.store_touched hx)]
      refine taskAt_of_follows hk fun hheld => ?_
      have hheld' := (T.store_holds hx _).mp hheld
      exact C.store_between hx hheld' (hs hheld')
  | @call _ β _ φ' _ c k hc hk =>
      subst hstart
      refine ⟨φ', ⟨fun _ => ?_, fun hidle => ?_⟩, T.call_holds hc⟩
      · refine Busy.act_call (T.call_local hc) (T.call_ne_ret hc) hk (T.call_calling hc)
          (m := ⟨s, d, g⟩) (fun _ _ => rfl) rfl ?_ hact
        exact C.call_between hc ⟨s, d, g⟩ (hs (C.call_holds hc))
      · exact absurd ((T.call_holds hc _).mpr (C.call_holds hc)) hidle

theorem TaskAt.act {g g' : List E} (h : C.TaskAt φ p s d) (hact : p.act s g = some (p', s', g')) :
    ∃ φ', C.TaskAt φ' p' (p.reacted C.react (s', d)).1 (p.reacted C.react (s', d)).2 ∧
      ∀ r, T.holds φ' r ↔ T.holds φ r := by
  by_cases hheld : T.holds φ C.master
  · obtain ⟨β, q, k, m, rfl, hq, hk, hcalling, hvars, hdevice, htotal⟩ := h.busy hheld
    rcases hcalling with ⟨b, rfl⟩ | hcalling
    · exact act_follows (hk b) (fun _ => between_of_ret hvars hdevice htotal) hact
    · cases hret : q with
      | ret b =>
          subst hret
          exact act_follows (hk b) (fun _ => between_of_ret hvars hdevice htotal) hact
      | load | store | lock | unlock | pause | observe | loop =>
          refine ⟨φ, ⟨fun _ => ?_, fun hidle => absurd hheld hidle⟩, fun _ => Iff.rfl⟩
          rw [← hret]
          exact Busy.act_call hq (by simp [hret]) hk hcalling hvars hdevice htotal hact
  · exact act_follows (h.idle hheld) (fun h' => absurd h' hheld) hact

/-- A task without the lock leaves the controller and the device alone. -/
theorem act_apart {g g' : List E} (hp : T.Follows φ p T.start) (hidle : ¬ T.holds φ C.master)
    (hact : p.act s g = some (p', s', g')) :
    (∀ x, C.owned x = true → (p.reacted C.react (s', d)).1 x = s x) ∧
      (p.reacted C.react (s', d)).2 = d := by
  generalize hstart : T.start = ψ at hp
  cases hp with
  | ret | lock | wait | unlock => cases hact
  | load | pause | observe | loop =>
      cases hact
      exact ⟨fun _ _ => rfl, rfl⟩
  | @store _ _ φ' _ x v k hx hk =>
      cases hact
      rw [Prog.reacted, C.react_other (T.store_touched hx)]
      refine ⟨fun y hy => Function.update_of_ne ?_ v s, rfl⟩
      rintro rfl
      exact hidle (C.store_owned hx hy)
  | call hc hk => exact absurd (C.call_holds hc) hidle

/-- What there will be when the task has come to the end of its call: it is as it should be, and whatever
holds of all that a call does leads there from what is now. -/
theorem Busy.completes (h : C.Busy φ p s d) (le : Store V × D → Store V × D → Prop)
    (hrefl : ∀ r, le r r) (htrans : ∀ r r' r'', le r r' → le r' r'' → le r r'')
    (hreact : ∀ x v s d, T.touched x = true → le (s, d) (C.react x (Function.update s x v, d))) :
    ∃ s₁ s' d', (∀ x, C.owned x = true → s₁ x = s x) ∧ C.between φ s' d' ∧ le (s₁, d) (s', d') := by
  obtain ⟨β, q, k, m, -, hq, -, -, hvars, rfl, htotal⟩ := h
  -- the run is followed next to itself
  have hstep : InStep C.react C.react {x | T.touched x = true}
      (fun n n' : Machine V E D => n' = n ∧ le (m.vars, m.device) (n.vars, n.device)) := by
    refine ⟨fun h => by rw [h.1], @fun n n' x v hx h => ?_, fun e h => ?_⟩
    · obtain ⟨rfl, hle⟩ := h
      exact ⟨rfl, htrans _ _ _ hle (hreact x v n'.vars n'.device hx)⟩
    · obtain ⟨rfl, hle⟩ := h
      exact ⟨rfl, hle⟩
  obtain ⟨-, -, m', -, n, hbetween, rfl, hle⟩ := hstep.total hq ⟨rfl, hrefl _⟩ htotal
  exact ⟨m.vars, m'.vars, m'.device, hvars, hbetween, hle⟩

/-- In a phase without calls everything is as it should be now. -/
theorem Busy.between (h : C.Busy φ p s d) (hcalling : ¬ T.calling φ) : C.between φ s d := by
  obtain ⟨β, q, k, m, -, -, -, hret, hvars, hdevice, htotal⟩ := h
  obtain ⟨b, rfl⟩ := hret.resolve_right hcalling
  exact between_of_ret hvars hdevice htotal

/-! ## All tasks

One step lemma for each kind of step; the run lemma is an induction over these. -/

variable (C) in
/-- Each task is in its phase, and the controller is in order while nobody has it. -/
structure Phased (w : World ι X V L E) (d : D) (phase : ι → Φ) : Prop where
  owner : ∀ l t, w.owner l = some t ↔ T.holds (phase t) l
  free : w.owner C.master = none → C.free w.vars d
  tasks : ∀ t, C.TaskAt (phase t) (w.code t) w.vars d

/-- The next step of a task, and what the device makes of it. -/
def advanceWired [DecidableEq ι] [DecidableEq L] (react : Reaction V D) (w : World ι X V L E) (d : D)
    (t : ι) : Option (World ι X V L E × D) :=
  (w.advance t).map fun w' =>
    let r := (w.code t).reacted react (w'.vars, d)
    ({ w' with vars := r.1 }, r.2)

section

variable {w w' : World ι X V L E} {phase : ι → Φ}

/-- At the start every task is in the phase of the start. -/
theorem Phased.initial (h : w.Initial) (hfree : C.free w.vars d) :
    C.Phased w d fun _ => T.start := by
  obtain ⟨howner, hcode, -⟩ := h
  refine ⟨fun l t => ?_, fun _ => hfree, fun t => ?_⟩
  · rw [howner l]
    exact iff_of_false (Option.some_ne_none t).symm (T.start_holds l)
  · rw [hcode t]
    exact taskAt_of_follows (.ret ()) fun h => absurd h (T.start_holds _)

/-- Two tasks do not have the same lock. -/
theorem Phased.unique (h : C.Phased w d phase) {t u : ι} {l : L} (ht : T.holds (phase t) l)
    (hu : T.holds (phase u) l) : t = u :=
  Option.some.inj (((h.owner l t).mpr ht).symm.trans ((h.owner l u).mpr hu))

/-- Something that is not the controller's changes. -/
theorem Phased.congr (h : C.Phased w d phase) (hs : ∀ x, C.owned x = true → s' x = w.vars x) :
    C.Phased { w with vars := s' } d phase := by
  refine ⟨h.owner, fun hfree => C.free_congr hs (h.free hfree), fun t => ⟨fun hheld => ?_, ?_⟩⟩
  · exact ((h.tasks t).busy hheld).congr hs
  · exact (h.tasks t).idle

variable [DecidableEq ι]

/-- Task `t` moves on, and the others stay where they are. -/
theorem Phased.move (h : C.Phased w d phase) {t : ι} {φ : Φ} {g : ι → List E}
    (howns : ∀ r, T.holds φ r ↔ T.holds (phase t) r) (ht : C.TaskAt φ p s d')
    (hapart : ¬ T.holds (phase t) C.master → (∀ x, C.owned x = true → s x = w.vars x) ∧ d' = d) :
    C.Phased { w.goto t p with vars := s, log := g } d' (Function.update phase t φ) := by
  refine ⟨fun l u => ?_, fun hfree => ?_, fun u => ?_⟩
  · refine (h.owner l u).trans ?_
    by_cases hu : u = t
    · subst hu
      rw [Function.update_self]
      exact (howns l).symm
    · rw [Function.update_of_ne hu]
  -- while the master is free the task has not touched what is in custody
  · have hidle : ¬ T.holds (phase t) C.master := by
      intro hheld
      have hown := (h.owner C.master t).mpr hheld
      exact Option.some_ne_none t (hown.symm.trans hfree)
    obtain ⟨hs, rfl⟩ := hapart hidle
    exact C.free_congr hs (h.free hfree)
  · show C.TaskAt _ (Function.update w.code t p u) s d'
    by_cases hu : u = t
    · subst hu
      rw [Function.update_self, Function.update_self]
      exact ht
    · rw [Function.update_of_ne hu, Function.update_of_ne hu]
      -- whoever holds the master is another task, which the step has left alone
      refine ⟨fun hheld => ?_, (h.tasks u).idle⟩
      obtain ⟨hs, rfl⟩ := hapart fun hheld' => hu (h.unique hheld hheld')
      exact ((h.tasks u).busy hheld).congr hs

theorem Phased.lock [DecidableEq L] (h : C.Phased w d phase) {t : ι} {l : L} {k : Prog X V L E Unit}
    (hcode : w.code t = .lock l k) (hfree : w.owner l = none) :
    ∃ φ, C.Phased { w.goto t k with owner := Function.update w.owner l (some t) } d
      (Function.update phase t φ) := by
  have hl : ∀ u, ¬ T.holds (phase u) l := by
    intro u hu
    have hown := (h.owner l u).mpr hu
    exact Option.some_ne_none u (hown.symm.trans hfree)
  have hat := h.tasks t
  rw [hcode] at hat
  obtain ⟨hfollows, hbetween⟩ := hat.settled fun _ _ => rfl
  obtain ⟨φ, hlock, hk⟩ := hfollows.of_lock (hl t) w.vars
  have howns := T.lock_holds hlock
  refine ⟨φ, fun r u => ?_, fun hnone => ?_, fun u => ?_⟩
  · show Function.update w.owner l (some t) r = some u ↔ _
    by_cases hu : u = t
    · subst hu
      rw [Function.update_self, howns]
      by_cases hr : r = l
      · subst hr
        simp
      · rw [Function.update_of_ne hr, h.owner]
        simp [hr]
    · rw [Function.update_of_ne hu, ← h.owner]
      by_cases hr : r = l
      · subst hr
        rw [Function.update_self, hfree]
        simp [Ne.symm hu]
      · rw [Function.update_of_ne hr]
  -- the state in custody is with the task that has taken the master
  · apply h.free
    replace hnone : Function.update w.owner l (some t) C.master = none := hnone
    by_cases hmaster : C.master = l
    · rw [hmaster, Function.update_self] at hnone
      exact absurd hnone (Option.some_ne_none t)
    · rwa [Function.update_of_ne hmaster] at hnone
  · show C.TaskAt _ (Function.update w.code t k u) w.vars d
    by_cases hu : u = t
    · subst hu
      rw [Function.update_self, Function.update_self]
      refine taskAt_of_follows hk fun hheld => ?_
      by_cases hmaster : l = C.master
      · subst hmaster
        exact C.take hlock (h.free hfree)
      · have hheld' := ((howns _).mp hheld).resolve_left (Ne.symm hmaster)
        exact C.lock_between hlock hheld' (hbetween hheld')
    · rw [Function.update_of_ne hu, Function.update_of_ne hu]
      exact h.tasks u

theorem Phased.unlock [DecidableEq L] (h : C.Phased w d phase) {t : ι} {l : L} {k : Prog X V L E Unit}
    (hcode : w.code t = .unlock l k) :
    w.owner l = some t ∧ ∃ φ, C.Phased { w.goto t k with owner := Function.update w.owner l none } d
      (Function.update phase t φ) := by
  have hat := h.tasks t
  rw [hcode] at hat
  obtain ⟨hfollows, hbetween⟩ := hat.settled fun _ _ => rfl
  obtain ⟨φ, hunlock, hk⟩ := hfollows.of_unlock w.vars
  obtain ⟨hheld, howns⟩ := T.unlock_holds hunlock
  have howner := (h.owner l t).mpr hheld
  refine ⟨howner, φ, fun r u => ?_, fun hnone => ?_, fun u => ?_⟩
  · show Function.update w.owner l none r = some u ↔ _
    by_cases hu : u = t
    · subst hu
      rw [Function.update_self, howns]
      by_cases hr : r = l
      · subst hr
        simp
      · rw [Function.update_of_ne hr, h.owner]
        simp [hr]
    · rw [Function.update_of_ne hu, ← h.owner]
      by_cases hr : r = l
      · subst hr
        rw [Function.update_self, howner]
        simp [Ne.symm hu]
      · rw [Function.update_of_ne hr]
  · replace hnone : Function.update w.owner l none C.master = none := hnone
    by_cases hmaster : C.master = l
    -- the master is released, and with it what was in custody
    · subst hmaster
      exact C.give hunlock (hbetween hheld)
    · rw [Function.update_of_ne hmaster] at hnone
      exact h.free hnone
  · show C.TaskAt _ (Function.update w.code t k u) w.vars d
    by_cases hu : u = t
    · subst hu
      rw [Function.update_self, Function.update_self]
      refine taskAt_of_follows hk fun hmaster => ?_
      obtain ⟨hne, hmaster⟩ := (howns _).mp hmaster
      exact C.unlock_between hunlock (Ne.symm hne) hmaster (hbetween hmaster)
    · rw [Function.update_of_ne hu, Function.update_of_ne hu]
      exact h.tasks u

/-- Whatever task takes the next step, each is in a phase again. -/
theorem Phased.advance [DecidableEq L] (h : C.Phased w d phase) {t : ι}
    (hst : advanceWired C.react w d t = some (w', d')) : ∃ phase', C.Phased w' d' phase' := by
  obtain ⟨w₁, hw₁, heq⟩ := Option.map_eq_some_iff.mp hst
  obtain ⟨rfl, rfl⟩ := Prod.mk.inj heq
  rw [World.advance] at hw₁
  cases hcode : w.code t with
  -- by the kind of the action
  | lock l k =>
      rw [hcode] at hw₁
      obtain ⟨owner, howner, rfl⟩ := Option.map_eq_some_iff.mp hw₁
      obtain ⟨hfree, howner⟩ := Option.ite_none_right_eq_some.mp howner
      obtain rfl := Option.some.inj howner
      obtain ⟨φ, hphased⟩ := h.lock hcode hfree
      exact ⟨_, hphased⟩
  | unlock l k =>
      rw [hcode] at hw₁
      obtain ⟨owner, howner, rfl⟩ := Option.map_eq_some_iff.mp hw₁
      obtain ⟨-, howner⟩ := Option.ite_none_right_eq_some.mp howner
      obtain rfl := Option.some.inj howner
      obtain ⟨-, φ, hphased⟩ := h.unlock hcode
      exact ⟨_, hphased⟩
  | ret _ | load _ _ | store _ _ _ | pause _ | observe _ _ | loop _ _ =>
      rw [hcode] at hw₁
      obtain ⟨⟨p, s, g⟩, hact, rfl⟩ := Option.map_eq_some_iff.mp hw₁
      have hat := h.tasks t
      rw [hcode] at hat
      obtain ⟨φ, hnext, howns⟩ := hat.act hact
      exact ⟨_, h.move howns hnext fun hidle => act_apart (hat.idle hidle) hidle hact⟩

theorem Phased.start (h : C.Phased w d phase) {t : ι} {a : Unit} (hcode : w.code t = .ret a)
    (hp : T.Follows T.start p T.start) : C.Phased (w.goto t p) d phase := by
  have hat := h.tasks t
  rw [hcode] at hat
  have hstart : phase t = T.start := (hat.settled fun _ _ => rfl).1.eq_of_ret w.vars
  refine ⟨h.owner, h.free, fun u => ?_⟩
  show C.TaskAt _ (Function.update w.code t p u) w.vars d
  by_cases hu : u = t
  · subst hu
    rw [Function.update_self, hstart]
    exact taskAt_of_follows hp fun hheld => absurd hheld (T.start_holds _)
  · rw [Function.update_of_ne hu]
    exact h.tasks u

end

end Custody

end SmartblocksOs.Foundation
