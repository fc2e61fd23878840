/-
# SmartblocksOs.Context.Cpu -- the processor, and the two macros of `context.h`

The part of the AVR processor a context switch depends on: a push stores at `SP` and then decrements
it, a pop increments and then loads, and a call or an interrupt pushes the return address low byte
first. `saveContext` and `restoreContext` are the macros of `context.h`, instruction by instruction,
with `tempSp` for their argument. Each has one lemma that says what it does to the stack
(`saveContext_frame`, `restoreContext_frame`); nothing later executes an instruction again.
-/
import SmartblocksOs.System.Creation

namespace SmartblocksOs.Context

open SmartblocksOs.Foundation SmartblocksOs.System

/-! ## Bytes and words

A word on the stack is two bytes, and putting them together again gives the word. -/

/-- The pointer with the given bytes. -/
def word (high low : Byte) : Addr := high ++ low

/-- A word is put together from its bytes. -/
@[simp]
theorem word_highByte_lowByte (x : BitVec 16) : word (highByte x) (lowByte x) = x :=
  highByte_append_lowByte x

@[simp]
theorem lowByte_word (high low : Byte) : lowByte (word high low) = low :=
  lowByte_append high low

@[simp]
theorem highByte_word (high low : Byte) : highByte (word high low) = high :=
  highByte_append high low

/-! ## The processor

The state is registers, status register, stack pointer, program counter and memory; interrupts are the bit
`I` of the status register. -/

/-- The registers of the processor, and the RAM and globals it works on. `pc` is where the code that
is running goes on. -/
structure Machine where
  globals : Globals
  r : Reg → Byte
  sreg : Byte
  sp : Addr
  pc : Addr

/-- The instructions of the macros and of the code around them. `sts` and `lds` are those that
address the two bytes of `tempSp`. -/
inductive Instr where
  | push (k : Reg)
  | pop (k : Reg)
  | inSreg (k : Reg)
  | outSreg (k : Reg)
  | inSpl (k : Reg)
  | inSph (k : Reg)
  | outSpl (k : Reg)
  | outSph (k : Reg)
  | stsLow (k : Reg)
  | stsHigh (k : Reg)
  | ldsLow (k : Reg)
  | ldsHigh (k : Reg)
  | cli
  | sei
  /-- A call whose return address is `returnTo`, and the entry into an interrupt handler. -/
  | call (returnTo : Addr)
  | ret
  | reti

namespace Machine

/-- The memory, which the globals of `system.cpp` share with the stacks. -/
def ram (m : Machine) : Ram := m.globals.ram

/-- The byte `x` in register `k`. -/
def setReg (m : Machine) (k : Reg) (x : Byte) : Machine :=
  { m with r := Function.update m.r k x }

/-- The global `temp_sp`, which `SAVE_CONTEXT` stores and `RESTORE_CONTEXT` loads. -/
def setTempSp (m : Machine) (a : Addr) : Machine :=
  { m with globals := { m.globals with tempSp := a } }

/-- A push: the byte goes where `SP` points, and `SP` goes down. -/
def pushByte (m : Machine) (x : Byte) : Machine :=
  { m with
    globals := { m.globals with ram := Function.update m.globals.ram m.sp x }
    sp := m.sp - 1 }

/-- The return address is popped high byte first. -/
def popPc (m : Machine) : Machine :=
  { m with pc := word (m.ram (m.sp + 1)) (m.ram (m.sp + 2)), sp := m.sp + 2 }

/-- The I bit of `SREG` is bit 7. -/
def clearI (m : Machine) : Machine := { m with sreg := m.sreg &&& 0x7F }

/-- The `I` bit of `SREG` is set. -/
def setI (m : Machine) : Machine := { m with sreg := m.sreg ||| 0x80 }

/-- What one instruction does. Only the instructions of `context.h` are here. -/
def exec (m : Machine) : Instr → Machine
  | .push k => m.pushByte (m.r k)
  | .pop k => { m.setReg k (m.ram (m.sp + 1)) with sp := m.sp + 1 }
  | .inSreg k => m.setReg k m.sreg
  | .outSreg k => { m with sreg := m.r k }
  | .inSpl k => m.setReg k (lowByte m.sp)
  | .inSph k => m.setReg k (highByte m.sp)
  | .outSpl k => { m with sp := word (highByte m.sp) (m.r k) }
  | .outSph k => { m with sp := word (m.r k) (lowByte m.sp) }
  | .stsLow k => m.setTempSp (word (highByte m.globals.tempSp) (m.r k))
  | .stsHigh k => m.setTempSp (word (m.r k) (lowByte m.globals.tempSp))
  | .ldsLow k => m.setReg k (lowByte m.globals.tempSp)
  | .ldsHigh k => m.setReg k (highByte m.globals.tempSp)
  | .cli => m.clearI
  | .sei => m.setI
  | .call returnTo => (m.pushByte (lowByte returnTo)).pushByte (highByte returnTo)
  | .ret => m.popPc
  | .reti => m.popPc.setI

/-- The instructions one after the other. -/
def execAll (m : Machine) (is : List Instr) : Machine := is.foldl exec m

end Machine

open Instr

/-- `SAVE_CONTEXT(tempSp)`. -/
def saveContext : List Instr :=
  [ push 0, inSreg 0, cli, push 0, push 1, push 2, push 3, push 4, push 5, push 6, push 7, push 8,
    push 9, push 10, push 11, push 12, push 13, push 14, push 15, push 16, push 17, push 18, push
    19, push 20, push 21, push 22, push 23, push 24, push 25, push 26, push 27, push 28, push 29,
    push 30, push 31, inSpl 0, stsLow 0, inSph 0, stsHigh 0 ]

/-- `RESTORE_CONTEXT(tempSp)`. -/
def restoreContext : List Instr :=
  [ ldsLow 30, ldsHigh 31, outSpl 30, outSph 31, pop 31, pop 30, pop 29, pop 28, pop 27, pop 26,
    pop 25, pop 24, pop 23, pop 22, pop 21, pop 20, pop 19, pop 18, pop 17, pop 16, pop 15, pop
    14, pop 13, pop 12, pop 11, pop 10, pop 9, pop 8, pop 7, pop 6, pop 5, pop 4, pop 3, pop 2,
    pop 1, pop 0, outSreg 0, pop 0 ]

/-! ## Blocks of pushes and pops

Thirty-one registers are pushed in a row. The block is one operation on the stack, with one lemma for all.
-/

variable {m : Machine}

/-- The one list of instructions after the other. -/
theorem execAll_append (is js : List Instr) : m.execAll (is ++ js) = (m.execAll is).execAll js :=
  List.foldl_append

/-- What none of the instructions changes. -/
theorem execAll_globals {is : List Instr}
    (his : ∀ i ∈ is, ∀ n : Machine, (n.exec i).globals = n.globals) :
    (m.execAll is).globals = m.globals := by
  induction is generalizing m with
  | nil => rfl
  | cons i is ih =>
      have hrest := ih (m := m.exec i) fun j hj => his j (List.mem_cons_of_mem i hj)
      exact hrest.trans (his i List.mem_cons_self m)

/-- A list of pushes lays the registers down one below the other, the first one at the top. -/
theorem execAll_push (ks : List Reg) :
    m.execAll (ks.map push) =
      { m with
        globals := { m.globals with ram := pushAll m.globals.ram m.sp (ks.map m.r) }
        sp := m.sp - BitVec.ofNat 16 ks.length } := by
  induction ks generalizing m with
  | nil => simp [Machine.execAll, pushAll]
  | cons k ks ih =>
      rw [List.map_cons, Machine.execAll, List.foldl_cons]
      apply (ih (m := m.exec (push k))).trans
      simp only [Machine.exec, Machine.pushByte, sub_one_sub_ofNat, List.length_cons, List.map_cons,
        pushAll]

/-- A list of pops takes back what lies above `SP`. The registers are different ones, so each of them is
popped once. -/
theorem execAll_pop (ks : List Reg) (hks : ks.Nodup) :
    m.execAll (ks.map pop) =
      { m with
        r := fun k => if k ∈ ks then m.ram (m.sp + 1 + BitVec.ofNat 16 (ks.idxOf k)) else m.r k
        sp := m.sp + BitVec.ofNat 16 ks.length } := by
  induction ks generalizing m with
  | nil => simp [Machine.execAll]
  | cons j ks ih =>
      obtain ⟨hj, hks⟩ := List.nodup_cons.mp hks
      rw [List.map_cons, Machine.execAll, List.foldl_cons]
      apply (ih (m := m.exec (pop j)) hks).trans
      simp only [Machine.exec, Machine.setReg, Machine.ram, List.length_cons, Machine.mk.injEq,
        true_and, and_true]
      refine ⟨funext fun k => ?_, ?_⟩
      -- register `j` is popped first and by none of the other pops
      · by_cases hk : k = j
        · subst hk
          simp [hj]
        · have hidx : (j :: ks).idxOf k = ks.idxOf k + 1 := List.idxOf_cons_ne _ (Ne.symm hk)
          have hsucc : m.sp + 1 + 1 + BitVec.ofNat 16 (ks.idxOf k) =
              m.sp + 1 + BitVec.ofNat 16 (ks.idxOf k + 1) := by
            rw [BitVec.ofNat_add, add_comm (BitVec.ofNat 16 _), ← add_assoc]
            rfl
          rw [hidx, hsucc, Function.update_of_ne hk]
          exact if_congr (by simp [hk]) rfl rfl
      · rw [BitVec.ofNat_add, add_comm (BitVec.ofNat 16 _), ← add_assoc]
        rfl

/-! ## What the macros do

`SAVE_CONTEXT` followed by `RESTORE_CONTEXT` of what it has saved is the identity on all that the macros
save. -/

/-- The registers `SAVE_CONTEXT` pushes after `r0` and `SREG`, in that order. -/
def pushOrder : List Reg :=
  [1, 2, 3, 4, 5, 6, 7, 8, 9, 10, 11, 12, 13, 14, 15, 16, 17, 18, 19, 20, 21, 22, 23, 24, 25, 26, 27,
    28, 29, 30, 31]

/-- `r0` is pushed apart, since `SREG` goes through it. -/
theorem zero_notMem_pushOrder : (0 : Reg) ∉ pushOrder := by decide

/-- `rk` is the `k`-th register to be pushed, from `r1` on. -/
theorem pushOrder_getElem (k : Reg) (hk : k ≠ 0) : pushOrder[(k : Nat) - 1]? = some k := by
  revert k
  decide

/-- All registers but `r0` are popped. -/
theorem mem_pushOrder_reverse (k : Reg) : k ∈ pushOrder.reverse ↔ k ≠ 0 := by
  revert k
  decide

/-- They are popped in the opposite order. -/
theorem idxOf_pushOrder_reverse (k : Reg) (hk : k ≠ 0) :
    pushOrder.reverse.idxOf k = 31 - (k : Nat) := by
  revert k
  decide

/-- The stack pointer of a context whose frame starts at `top`. -/
def frameSp (top : Addr) : Addr := top - BitVec.ofNat 16 frameSize

/-- The bytes a suspension pushes. -/
def frameBytes (returnTo : Addr) (sreg : Byte) (r : Reg → Byte) : List Byte :=
  lowByte returnTo :: highByte returnTo :: r 0 :: sreg :: pushOrder.map r

/-- What is pushed on the way into a switch is a frame. -/
theorem frameAt_pushAll (ram : Ram) (sp returnTo : Addr) (sreg : Byte) (r : Reg → Byte) :
    FrameAt (pushAll ram sp (frameBytes returnTo sreg r)) sp returnTo sreg r := by
  have hget : ∀ i x, (frameBytes returnTo sreg r)[i]? = some x →
      pushAll ram sp (frameBytes returnTo sreg r) (sp - BitVec.ofNat 16 i) = x := by
    intro i x hx
    obtain ⟨hi, rfl⟩ := List.getElem?_eq_some_iff.mp hx
    exact pushAll_getElem (by simp [frameBytes, pushOrder]) hi
  refine ⟨by simpa using hget 0 _ rfl, hget 1 _ rfl, hget 2 _ rfl, hget 3 _ rfl, fun k hk => ?_⟩
  apply hget (3 + k) _
  have hpos : 3 + (k : Nat) = (k - 1) + 4 := by
    have := Fin.pos_iff_ne_zero.mpr hk
    omega
  rw [hpos]
  simp [frameBytes, pushOrder_getElem k hk]

/-- A call, `cli` and `SAVE_CONTEXT` push the frame, and put the stack pointer below it into
`tempSp`. -/
theorem saveContext_globals (m : Machine) (returnTo : Addr) :
    (m.execAll ([call returnTo, cli] ++ saveContext)).globals =
      { m.globals with
        ram := pushAll m.globals.ram m.sp (frameBytes returnTo (m.sreg &&& 0x7F) m.r)
        tempSp := frameSp m.sp } := by
  have hsplit : [call returnTo, cli] ++ saveContext =
      [call returnTo, cli, push 0, inSreg 0, cli, push 0] ++
        (pushOrder.map push ++ [inSpl 0, stsLow 0, inSph 0, stsHigh 0]) := rfl
  have hregs : pushOrder.map (Function.update m.r 0 (m.sreg &&& 0x7F)) = pushOrder.map m.r := by
    refine List.map_congr_left fun k hk => Function.update_of_ne ?_ _ _
    rintro rfl
    exact zero_notMem_pushOrder hk
  have hsp : m.sp - 1 - 1 - 1 - 1 - BitVec.ofNat 16 pushOrder.length = frameSp m.sp := by
    simp only [sub_sub, frameSp]
    rfl
  rw [hsplit, execAll_append, execAll_append, execAll_push]
  simp only [Machine.execAll, List.foldl_cons, List.foldl_nil, Machine.exec, Machine.pushByte,
    Machine.setReg, Machine.setTempSp, Machine.clearI, Function.update_self, hregs, hsp,
    lowByte_word, word_highByte_lowByte, frameBytes, pushAll]

/-- `RESTORE_CONTEXT`, with the frame to restore named by `tempSp`, leaves the return address for the
instruction that follows. -/
theorem restoreContext_eq {top pc : Addr} {sreg : Byte} {r : Reg → Byte}
    (hsp : m.globals.tempSp = frameSp top) (h : FrameAt m.globals.ram top pc sreg r) :
    m.execAll restoreContext = { m with r := r, sreg := sreg, sp := top - 2 } := by
  -- the stack pointer is loaded through r30 and r31, which are popped with the others afterwards
  have hsplit : restoreContext = [ldsLow 30, ldsHigh 31, outSpl 30, outSph 31] ++
      (pushOrder.reverse.map pop ++ [pop 0, outSreg 0, pop 0]) := rfl
  have hhead : m.execAll [ldsLow 30, ldsHigh 31, outSpl 30, outSph 31] =
      { m with
        r := Function.update (Function.update m.r 30 (lowByte m.globals.tempSp)) 31
          (highByte m.globals.tempSp)
        sp := frameSp top } := by
    simp only [Machine.execAll, List.foldl_cons, List.foldl_nil, Machine.exec, Machine.setReg,
      Function.update_self, Function.update_of_ne (show (30 : Reg) ≠ 31 by decide), lowByte_word,
      word_highByte_lowByte, hsp]
  -- where a register is on the stack
  have hpop : ∀ k : Reg, k ≠ 0 → frameSp top + 1 + BitVec.ofNat 16 (31 - (k : Nat)) =
      top - BitVec.ofNat 16 (3 + k) := by
    intro k _
    have hlt := k.isLt
    simp only [frameSp, frameSize]
    bv_omega
  have hsp4 : frameSp top + BitVec.ofNat 16 pushOrder.reverse.length = top - 4 := by
    rw [frameSp, sub_add]
    rfl
  rw [hsplit, execAll_append, execAll_append, hhead, execAll_pop _ (by decide)]
  simp only [Machine.execAll, List.foldl_cons, List.foldl_nil, Machine.exec, Machine.setReg,
    Machine.ram, hsp4]
  -- the status register and r0 are the last two bytes of the frame
  rw [show (top - 4 + 1 : Addr) = top - 3 by rw [sub_add]; rfl,
    show (top - 3 + 1 : Addr) = top - 2 by rw [sub_add]; rfl, h.status, h.reg0]
  simp only [Machine.mk.injEq, true_and, and_true, Function.update_self]
  funext k
  by_cases hk : k = 0
  · rw [hk, Function.update_self]
  · rw [Function.update_of_ne hk, Function.update_of_ne hk, if_pos ((mem_pushOrder_reverse k).mpr hk),
      idxOf_pushOrder_reverse k hk, hpop k hk, h.reg k hk]

/-- `RESTORE_CONTEXT` and the return store nothing in RAM and change no global, whatever is on the
stack. -/
theorem restoreContext_globals (m : Machine) {tail : List Instr}
    (htail : tail = [sei, ret] ∨ tail = [reti]) :
    (m.execAll (restoreContext ++ tail)).globals = m.globals := by
  have hlast : ∀ i ∈ tail, i = sei ∨ i = ret ∨ i = reti := by
    rcases htail with rfl | rfl
    · simp
    · simp
  apply execAll_globals
  intro i hi n
  cases i with
  | push k | stsLow k | stsHigh k | call returnTo =>
      rcases List.mem_append.mp hi with hrestore | htail
      · simp [restoreContext] at hrestore
      · simpa using hlast _ htail
  | pop k | inSreg k | outSreg k | inSpl k | inSph k | outSpl k | outSph k | ldsLow k | ldsHigh k
  | cli | sei | ret | reti => rfl

/-- The two ways a context is resumed end in the same state: the registers, `SREG` and the return
address are those of the frame, the frame is off the stack, and interrupts are enabled. -/
theorem resume_eq {top pc : Addr} {sreg : Byte} {r : Reg → Byte} {tail : List Instr}
    (htail : tail = [sei, ret] ∨ tail = [reti]) (hsp : m.globals.tempSp = frameSp top)
    (h : FrameAt m.globals.ram top pc sreg r) :
    m.execAll (restoreContext ++ tail) =
      { globals := m.globals, r := r, sreg := sreg ||| 0x80, sp := top, pc := pc } := by
  have hhigh : m.globals.ram (top - 2 + 1) = highByte pc := by
    rw [show (top - 2 + 1 : Addr) = top - 1 by rw [sub_add]; rfl, h.pcHigh]
  rw [execAll_append, restoreContext_eq hsp h]
  rcases htail with rfl | rfl <;>
    simp only [Machine.execAll, List.foldl_cons, List.foldl_nil, Machine.exec, Machine.setI,
      Machine.popPc, Machine.ram, hhigh, sub_add_cancel, h.pcLow, word_highByte_lowByte]

end SmartblocksOs.Context
