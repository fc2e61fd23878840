/-
# SmartblocksOs.Foundation.Ring -- ring buffers with one free cell

A ring of `n` cells holds at most `n - 1` elements: `head` is the cell the next element goes to, `tail`
the cell of the oldest one, and `head = tail` means empty. `RingHolds` says which list a ring holds. An
element is added in two steps, the store to the cell and the step of `head`, and removed by the step
of `tail`; each keeps the ring in order, so producer and consumer need not exclude each other.
-/
import Mathlib.Logic.Function.Basic
import Mathlib.Data.Nat.ModEq
import Mathlib.Tactic.Ring

namespace SmartblocksOs.Foundation

universe u

variable {α : Type u} {n : Nat}

/-! ## Cyclic indices -/

/-- The successor of a cell, counted from the tail or from the head. -/
theorem cyclic_succ (t k : Nat) : ((t + 1) % n + k) % n = (t + (k + 1)) % n := by
  rw [Nat.mod_add_mod]
  congr 1
  ring

/-- Two distances below `n` lead from one cell to different cells. -/
theorem cyclic_inj {t i j : Nat} (hi : i < n) (hj : j < n) (h : (t + i) % n = (t + j) % n) :
    i = j := by
  have hmod : i ≡ j [MOD n] := Nat.ModEq.add_left_cancel' t h
  rwa [Nat.ModEq, Nat.mod_eq_of_lt hi, Nat.mod_eq_of_lt hj] at hmod

/-- The number of cells from `t` on to `h`, as it is computed without negative numbers. -/
theorem cyclic_distance {t d : Nat} (ht : t < n) (hd : d < n) : (n + (t + d) % n - t) % n = d := by
  have hn : 0 < n := by omega
  by_cases hwrap : t + d < n
  · rw [Nat.mod_eq_of_lt hwrap, show n + (t + d) - t = n + d by omega, Nat.add_mod_left,
      Nat.mod_eq_of_lt hd]
  · have hmod : (t + d) % n = t + d - n := by
      rw [Nat.mod_eq_sub_mod (by omega), Nat.mod_eq_of_lt (by omega)]
    rw [hmod, show n + (t + d - n) - t = d by omega, Nat.mod_eq_of_lt hd]

/-! ## What a ring holds -/

/-- The ring holds the elements `xs`, the oldest first. -/
structure RingHolds (n : Nat) (cells : Nat → α) (head tail : Nat) (xs : List α) : Prop where
  tail_lt : tail < n
  length_lt : xs.length < n
  head_eq : head = (tail + xs.length) % n
  cell : ∀ k a, xs[k]? = some a → cells ((tail + k) % n) = a

namespace RingHolds

variable {cells : Nat → α} {head tail : Nat} {xs : List α} {a : α}

/-- An empty ring. -/
theorem nil (hn : 0 < n) (cells : Nat → α) : RingHolds n cells 0 0 [] :=
  ⟨hn, hn, by simp, by simp⟩

/-- A ring has at least one cell. -/
theorem pos (h : RingHolds n cells head tail xs) : 0 < n := Nat.zero_lt_of_lt h.tail_lt

theorem head_lt (h : RingHolds n cells head tail xs) : head < n := by
  rw [h.head_eq]
  exact Nat.mod_lt _ h.pos

/-- The distance from `tail` to `head` is the number of elements. -/
theorem distance (h : RingHolds n cells head tail xs) : (n + head - tail) % n = xs.length := by
  rw [h.head_eq]
  exact cyclic_distance h.tail_lt h.length_lt

/-- Head and tail meet in an empty ring only: a full one leaves a cell unused. -/
theorem empty_iff (h : RingHolds n cells head tail xs) : head = tail ↔ xs = [] := by
  constructor
  · intro heq
    have hlen := h.distance
    rw [heq, Nat.add_sub_cancel, Nat.mod_self] at hlen
    exact List.eq_nil_of_length_eq_zero hlen.symm
  · rintro rfl
    rw [h.head_eq, List.length_nil, Nat.add_zero, Nat.mod_eq_of_lt h.tail_lt]

/-- No room is left exactly when `head` cannot step without meeting `tail`. -/
theorem full_iff (h : RingHolds n cells head tail xs) :
    (head + 1) % n = tail ↔ xs.length + 1 = n := by
  have hnext : (head + 1) % n = (tail + (xs.length + 1)) % n := by
    rw [h.head_eq, Nat.mod_add_mod, Nat.add_assoc]
  rw [hnext]
  constructor
  · intro heq
    by_contra hne
    have hlt : xs.length + 1 < n := Nat.lt_of_le_of_ne h.length_lt hne
    have hzero : (tail + (xs.length + 1)) % n = (tail + 0) % n := by
      rw [heq, Nat.add_zero, Nat.mod_eq_of_lt h.tail_lt]
    exact absurd (cyclic_inj hlt h.pos hzero) (Nat.succ_ne_zero _)
  · intro heq
    rw [heq, Nat.add_mod_right, Nat.mod_eq_of_lt h.tail_lt]

/-- The cell at `head` holds no element. -/
theorem ne_head (h : RingHolds n cells head tail xs) {k : Nat} (hk : k < xs.length) :
    (tail + k) % n ≠ head := by
  rw [h.head_eq]
  intro heq
  have := cyclic_inj (Nat.lt_trans hk h.length_lt) h.length_lt heq
  omega

/-- A store to the cell at `head` changes nothing that is held. -/
theorem store (h : RingHolds n cells head tail xs) (a : α) :
    RingHolds n (Function.update cells head a) head tail xs := by
  refine ⟨h.tail_lt, h.length_lt, h.head_eq, fun k b hb => ?_⟩
  have hk : k < xs.length := (List.getElem?_eq_some_iff.mp hb).1
  rw [Function.update_of_ne (h.ne_head hk)]
  exact h.cell k b hb

/-- When `head` steps, the ring holds what was stored at `head`. -/
theorem publish (h : RingHolds n cells head tail xs) (hroom : xs.length + 1 < n)
    (ha : cells head = a) : RingHolds n cells ((head + 1) % n) tail (xs ++ [a]) := by
  refine ⟨h.tail_lt, by simpa using hroom, ?_, fun k b hb => ?_⟩
  · rw [List.length_append, List.length_singleton, h.head_eq, Nat.mod_add_mod, Nat.add_assoc]
  · rw [List.getElem?_append] at hb
    split at hb
    · exact h.cell k b hb
    · obtain rfl : k = xs.length := by
        have := (List.getElem?_eq_some_iff.mp hb).1
        rw [List.length_singleton] at this
        omega
      rw [Nat.sub_self, List.getElem?_cons_zero, Option.some.injEq] at hb
      rw [← h.head_eq, ha, hb]

/-- The cell at `tail` is the oldest element. -/
theorem oldest {xs : List α} (h : RingHolds n cells head tail (a :: xs)) : cells tail = a := by
  have hcell := h.cell 0 a rfl
  rwa [Nat.add_zero, Nat.mod_eq_of_lt h.tail_lt] at hcell

/-- When `tail` steps, the oldest element is gone. -/
theorem drop {xs : List α} (h : RingHolds n cells head tail (a :: xs)) :
    RingHolds n cells head ((tail + 1) % n) xs := by
  have hlen := h.length_lt
  rw [List.length_cons] at hlen
  refine ⟨Nat.mod_lt _ h.pos, by omega, ?_, fun k b hb => ?_⟩
  · rw [cyclic_succ, h.head_eq, List.length_cons]
  · rw [cyclic_succ]
    exact h.cell (k + 1) b hb

/-- A ring that holds something holds its oldest element. -/
theorem exists_oldest (h : RingHolds n cells head tail xs) (hne : head ≠ tail) :
    ∃ ys, xs = cells tail :: ys := by
  cases xs with
  | nil => exact absurd (h.empty_iff.mpr rfl) hne
  | cons b ys => exact ⟨ys, by rw [h.oldest]⟩

end RingHolds

end SmartblocksOs.Foundation
