/-
# SmartblocksOs.Foundation.Stack -- stacks that grow downwards, in a modular address space

Memory is a function on `w`-bit addresses, and addresses wrap. The position of a cell on a stack is
therefore not its address but its `depth` below the base of the stack, and a stack region is given
by a base and a size. Storing a list of values by a sequence of pushes is `pushAll`; a list of
assignments in program order is `writeAll`. For both the facts a client needs are what they store
and what they leave alone.

Nothing here mentions the operating system.
-/
import Mathlib.Data.BitVec
import Mathlib.Logic.Function.Basic

namespace SmartblocksOs.Foundation

universe u

variable {w : Nat} {β : Type u}

/-! ## Depth below a base

Subtraction modulo the size of the address space turns the wrap-around into an ordinary order, as long as
a region is smaller than the memory. -/

/-- How far the cell `a` lies below `base`. -/
def depth (base a : BitVec w) : Nat := (base - a).toNat

/-- The base itself. -/
@[simp]
theorem depth_self (base : BitVec w) : depth base base = 0 := by
  simp [depth]

/-- No address is deeper than the memory is long. -/
theorem depth_lt (base a : BitVec w) : depth base a < 2 ^ w := (base - a).isLt

/-- Going `k` cells down adds `k` to the depth, as long as the address space does not wrap. -/
theorem depth_sub {base a : BitVec w} {k : Nat} (h : depth base a + k < 2 ^ w) :
    depth base (a - BitVec.ofNat w k) = depth base a + k := by
  have hsub : base - (a - BitVec.ofNat w k) = (base - a) + BitVec.ofNat w k := by
    rw [sub_sub_eq_add_sub, add_sub_right_comm]
  unfold depth at h ⊢
  rw [hsub, BitVec.toNat_add, BitVec.toNat_ofNat, Nat.mod_eq_of_lt (by omega : k < 2 ^ w),
    Nat.mod_eq_of_lt h]

/-- Two cells the same number of steps below `sp` are the same cell. -/
theorem sub_ofNat_inj {sp : BitVec w} {i j : Nat} (hi : i < 2 ^ w) (hj : j < 2 ^ w) :
    sp - BitVec.ofNat w i = sp - BitVec.ofNat w j ↔ i = j := by
  rw [sub_right_inj, BitVec.toNat_eq, BitVec.toNat_ofNat, BitVec.toNat_ofNat,
    Nat.mod_eq_of_lt hi, Nat.mod_eq_of_lt hj]

/-- One step down, and `i` more. -/
theorem sub_one_sub_ofNat (sp : BitVec w) (i : Nat) :
    sp - 1 - BitVec.ofNat w i = sp - BitVec.ofNat w (i + 1) := by
  rw [BitVec.ofNat_add, sub_sub, add_comm]
  rfl

/-! ## Pushes

Pushes from the base on write the list of values downwards. -/

/-- Store `xs` at `sp`, `sp - 1`, and so on: what pushing them one by one leaves in memory. -/
def pushAll (mem : BitVec w → β) (sp : BitVec w) : List β → BitVec w → β
  | [] => mem
  | x :: xs => pushAll (Function.update mem sp x) (sp - 1) xs

/-- Pushes leave alone what they do not reach. -/
theorem pushAll_of_forall_ne {mem : BitVec w → β} {sp a : BitVec w} {xs : List β}
    (h : ∀ i < xs.length, a ≠ sp - BitVec.ofNat w i) : pushAll mem sp xs a = mem a := by
  induction xs generalizing mem sp with
  | nil => rfl
  | cons x xs ih =>
      rw [pushAll, ih, Function.update_of_ne]
      · simpa using h 0 (by simp)
      · intro i hi
        rw [sub_one_sub_ofNat]
        exact h (i + 1) (by simpa using hi)

/-- Element `i` is found `i` bytes below the first one, as long as the pushes do not meet their own tail. -/
theorem pushAll_getElem {mem : BitVec w → β} {sp : BitVec w} {xs : List β}
    (hlen : xs.length ≤ 2 ^ w) {i : Nat} (hi : i < xs.length) :
    pushAll mem sp xs (sp - BitVec.ofNat w i) = xs[i] := by
  induction xs generalizing mem sp i with
  | nil => simp at hi
  | cons x xs ih =>
      simp only [List.length_cons] at hlen hi
      cases i with
      | zero =>
          -- the later pushes go below the first one, which is at `sp`
          have hbelow : ∀ j < xs.length, sp - BitVec.ofNat w 0 ≠ sp - 1 - BitVec.ofNat w j := by
            intro j hj
            rw [sub_one_sub_ofNat, Ne, sub_ofNat_inj (by omega) (by omega)]
            omega
          rw [pushAll, pushAll_of_forall_ne hbelow]
          simp
      | succ i =>
          rw [pushAll, ← sub_one_sub_ofNat, ih (by omega) (by omega)]
          rfl

/-! ## Assignments in program order

A later assignment to the same address wins, so that the list cannot be reordered in general. -/

/-- Carry out the assignments one after the other. -/
def writeAll (mem : BitVec w → β) : List (BitVec w × β) → BitVec w → β
  | [] => mem
  | (a, x) :: ws => writeAll (Function.update mem a x) ws

@[simp]
theorem writeAll_nil (mem : BitVec w → β) : writeAll mem [] = mem := rfl

theorem writeAll_cons (mem : BitVec w → β) (a : BitVec w) (x : β) (ws : List (BitVec w × β)) :
    writeAll mem ((a, x) :: ws) = writeAll (Function.update mem a x) ws := rfl

/-- The one list of stores after the other. -/
theorem writeAll_append (mem : BitVec w → β) (ws vs : List (BitVec w × β)) :
    writeAll mem (ws ++ vs) = writeAll (writeAll mem ws) vs := by
  induction ws generalizing mem with
  | nil => rfl
  | cons e ws ih => exact ih _

/-- The value a cell ends up with depends on its own old value and the assignments only. -/
theorem writeAll_congr {mem mem' : BitVec w → β} {a : BitVec w} (h : mem a = mem' a)
    (ws : List (BitVec w × β)) : writeAll mem ws a = writeAll mem' ws a := by
  induction ws generalizing mem mem' with
  | nil => exact h
  | cons e ws ih =>
      apply ih
      by_cases ha : a = e.1
      · simp [ha]
      · simp [ha, h]

/-- Stores leave all other addresses alone. -/
theorem writeAll_of_forall_ne {mem : BitVec w → β} {a : BitVec w} {ws : List (BitVec w × β)}
    (h : ∀ e ∈ ws, e.1 ≠ a) : writeAll mem ws a = mem a := by
  induction ws generalizing mem with
  | nil => rfl
  | cons e ws ih =>
      obtain ⟨he, hws⟩ := List.forall_mem_cons.mp h
      rw [writeAll, ih hws, Function.update_of_ne he.symm]

/-- An old value that is to be overwritten does not matter. -/
theorem writeAll_update_of_mem (mem : BitVec w → β) {a : BitVec w} (x : β)
    {ws : List (BitVec w × β)} (h : a ∈ ws.map Prod.fst) :
    writeAll (Function.update mem a x) ws a = writeAll mem ws a := by
  induction ws generalizing mem with
  | nil => exact absurd h List.not_mem_nil
  | cons e ws ih =>
      by_cases ha : a = e.1
      · subst ha
        rw [writeAll, writeAll, Function.update_idem]
      · have hws : a ∈ ws.map Prod.fst := (List.mem_cons.mp h).resolve_left ha
        rw [writeAll, writeAll, Function.update_comm ha]
        exact ih _ hws

/-- Storing one value into the `n` cells from `start` on. -/
theorem writeAll_fill (mem : BitVec w → β) (start : BitVec w) (x : β) {n : Nat} (hn : n ≤ 2 ^ w) :
    writeAll mem ((List.range n).map fun i => (start + BitVec.ofNat w i, x)) =
      fun a => if (a - start).toNat < n then x else mem a := by
  induction n with
  | zero => simp
  | succ n ih =>
      rw [List.range_succ, List.map_append, writeAll_append, ih (by omega)]
      funext a
      have hiff : a = start + BitVec.ofNat w n ↔ (a - start).toNat = n := by
        rw [← sub_eq_iff_eq_add', BitVec.toNat_eq, BitVec.toNat_ofNat, Nat.mod_eq_of_lt (by omega)]
      simp only [List.map_cons, List.map_nil, writeAll_cons, writeAll_nil, Function.update_apply, hiff]
      by_cases heq : (a - start).toNat = n
      · rw [if_pos heq, if_pos (by omega)]
      · rw [if_neg heq]
        exact if_congr (by omega) rfl rfl

end SmartblocksOs.Foundation
