/-
# SmartblocksOs.Foundation.Bounds -- arrays whose accesses are checked

An array is a function from indices to elements. A program that may fail (`OptionT`) can check each access
to it against the size, and fail where an access would fall outside. Programs, elements and the size are
arbitrary. A copy into the array or out of it goes element by element; it succeeds just when all of it
falls inside (`copyIn_eq`, `copyOut_eq`).
-/
import Mathlib.Data.List.Monad
import Mathlib.Logic.Function.Basic

namespace SmartblocksOs.Foundation.Bounds

universe v

variable {m : Type → Type v} [Monad m] {β : Type} (size : Nat)

/-- Element `i` of the array, or failure when `i` is outside. -/
def readAt (a : Nat → β) (i : Nat) : OptionT m β := if i < size then pure (a i) else failure

/-- The array with `b` at `i`, or failure when `i` is outside. -/
def writeAt (a : Nat → β) (i : Nat) (b : β) : OptionT m (Nat → β) :=
  if i < size then pure (Function.update a i b) else failure

theorem readAt_of_lt {size i : Nat} (a : Nat → β) (hi : i < size) : readAt size a i = (pure (a i) : OptionT m β) :=
  if_pos hi

theorem writeAt_of_lt {size i : Nat} (a : Nat → β) (b : β) (hi : i < size) :
    writeAt size a i b = (pure (Function.update a i b) : OptionT m (Nat → β)) :=
  if_pos hi

/-- `n` elements from `src` go into the array, from `start` on. -/
def copyIn (a : Nat → β) (start : Nat) (src : Nat → β) (n : Nat) : OptionT m (Nat → β) :=
  (List.range n).foldlM (fun a k => writeAt size a (start + k) (src k)) a

/-- `n` elements of the array, from `start` on, go to `dst`. -/
def copyOut (dst a : Nat → β) (start n : Nat) : OptionT m (Nat → β) :=
  (List.range n).foldlM (fun dst k => do
    let b ← readAt size a (start + k)
    pure (Function.update dst k b)) dst

/-- The array after such a copy. -/
def patched (a : Nat → β) (start : Nat) (src : Nat → β) (n : Nat) : Nat → β :=
  fun i => if start ≤ i ∧ i < start + n then src (i - start) else a i

theorem patched_zero (a : Nat → β) (start : Nat) (src : Nat → β) : patched a start src 0 = a := by
  funext i
  exact if_neg (by omega)

theorem patched_succ (a : Nat → β) (start : Nat) (src : Nat → β) (n : Nat) :
    patched a start src (n + 1) = Function.update (patched a start src n) (start + n) (src n) := by
  funext i
  by_cases hi : i = start + n
  · subst hi
    rw [Function.update_self]
    unfold patched
    rw [if_pos (by omega), Nat.add_sub_cancel_left]
  · rw [Function.update_of_ne hi]
    unfold patched
    exact if_congr (by omega) rfl rfl

section

variable [LawfulMonad m]

/-- A loop over `0`, .., `n - 1`, the last round apart. -/
theorem foldlM_range_succ {σ : Type} (f : σ → Nat → OptionT m σ) (s : σ) (n : Nat) :
    (List.range (n + 1)).foldlM f s = (do let s ← (List.range n).foldlM f s; f s n) := by
  rw [List.range_succ, List.foldlM_append]
  simp

variable {size}

/-- A copy into the array succeeds just when it is empty or ends inside, and then has the effect of all
its stores at once. By induction on its length: only the last store can be the one that fails. -/
theorem copyIn_eq (a : Nat → β) (start : Nat) (src : Nat → β) (n : Nat) :
    (copyIn size a start src n : OptionT m (Nat → β)) =
      if n = 0 ∨ start + n ≤ size then pure (patched a start src n) else failure := by
  induction n with
  | zero =>
      rw [if_pos (Or.inl rfl), patched_zero]
      rfl
  | succ n ih =>
      have hsucc : (copyIn size a start src (n + 1) : OptionT m (Nat → β)) =
          (do let a ← copyIn size a start src n; writeAt size a (start + n) (src n)) :=
        foldlM_range_succ _ a n
      rw [hsucc, ih]
      by_cases hn : n = 0 ∨ start + n ≤ size
      · rw [if_pos hn, pure_bind, patched_succ]
        exact if_congr (by omega) rfl rfl
      · rw [if_neg hn, if_neg (by omega), failure_bind]

/-- The same for a copy out of the array; what it fills is not bounded. -/
theorem copyOut_eq (dst a : Nat → β) (start n : Nat) :
    (copyOut size dst a start n : OptionT m (Nat → β)) =
      if n = 0 ∨ start + n ≤ size then pure (patched dst 0 (fun i => a (i + start)) n) else failure := by
  induction n with
  | zero =>
      rw [if_pos (Or.inl rfl), patched_zero]
      rfl
  | succ n ih =>
      have hsucc : (copyOut size dst a start (n + 1) : OptionT m (Nat → β)) = (do
          let dst ← copyOut size dst a start n
          let b ← readAt size a (start + n)
          pure (Function.update dst n b)) :=
        foldlM_range_succ _ dst n
      rw [hsucc, ih]
      by_cases hn : n = 0 ∨ start + n ≤ size
      · rw [if_pos hn, pure_bind, patched_succ, Nat.zero_add]
        by_cases hlast : start + n < size
        · rw [readAt_of_lt a hlast, pure_bind, if_pos (by omega), Nat.add_comm start n]
        · rw [readAt, if_neg hlast, failure_bind, if_neg (by omega)]
      · rw [if_neg hn, if_neg (by omega), failure_bind]

/-- Rounds that do not fail. -/
theorem foldlM_lift {σ ι : Type} {f : σ → ι → OptionT m σ} {g : σ → ι → m σ} {is : List ι}
    (h : ∀ i ∈ is, ∀ s, f s i = OptionT.lift (g s i)) (s : σ) :
    is.foldlM f s = OptionT.lift (is.foldlM g s) := by
  induction is generalizing s with
  | nil => exact (OptionT.lift_pure s).symm
  | cons i is ih =>
      rw [List.foldlM_cons, List.foldlM_cons, OptionT.lift_bind, h i List.mem_cons_self]
      apply bind_congr
      intro s'
      exact ih (fun j hj => h j (List.mem_cons_of_mem i hj)) s'

end

end SmartblocksOs.Foundation.Bounds
