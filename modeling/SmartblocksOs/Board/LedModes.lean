/-
# SmartblocksOs.Board.LedModes -- concurrent `SetMode` calls

`SetMode` reads a register of the LED driver in one locked section and writes it back in another
(`setMode_eq`). Four LEDs share a register, so between the sections another task may set the mode of one
of the others, and lose it when the first one writes back (`setMode_loses_update`). The modes are kept
just as long as a call writes back what the other LEDs of the register still are (`setMode_kept_iff`).
-/
import SmartblocksOs.Foundation.ReadModifyWrite
import SmartblocksOs.Board.LedController
import Mathlib.Data.Fin.VecNotation

namespace SmartblocksOs.Board

open SmartblocksOs.Foundation SmartblocksOs.System

namespace CLEDController

open CTWController CPortController

/-! ## The two sections of `SetMode`

Between them the value read is a local variable, and nobody knows that it is going to be written back. -/

/-- The register responsible for LED `led`. -/
def ledoutAddr (led : Byte) : Byte := ledout0 + led / 4

/-- The target bits of the register cleared and set. -/
def withMode (registerVal led : Byte) (mode : EMode) : Byte :=
  registerVal &&& ~~~(pca963xLedoutxMask <<< (led % 4 * 2)) ||| (mode.code <<< (led % 4 * 2))

/-- The first section: a register is read. -/
def readRegister (port : EPort) (registerAddr : Byte) : Code Byte := do
  onInstance (acquire .port)
  onInstance (selectPort port)
  acquire .tw
  beginTransmission pca963xDevAddr
  let _ ← writeByte registerAddr
  let _ ← endTransmission false
  let _ ← readFrom pca963xDevAddr 1 true
  let registerVal ← readByte
  release .tw
  onInstance (release .port)
  return registerVal

/-- The second one: it is written back. -/
def writeRegister (port : EPort) (registerAddr registerVal : Byte) : Code Unit := do
  onInstance (acquire .port)
  onInstance (selectPort port)
  acquire .tw
  beginTransmission pca963xDevAddr
  let _ ← writeByte registerAddr
  let _ ← writeByte registerVal
  let _ ← endTransmission true
  release .tw
  onInstance (release .port)

/-- `SetMode` is a read and a write, with nothing held between them. -/
theorem setMode_eq (port : EPort) (led : Byte) (mode : EMode) :
    setMode port led mode =
      calledFor (.led port) (do
        let registerVal ← readRegister port (ledoutAddr led)
        writeRegister port (ledoutAddr led) (withMode registerVal led mode)) := by
  simp only [setMode, readRegister, writeRegister, bind_assoc, pure_bind]
  rfl

/-! ## The modes of the LEDs, as fields of the registers

Two bits for each LED. A field can be replaced without changing the others. -/

/-- The mode that two bits of a register stand for. -/
def EMode.ofBits (high low : Bool) : EMode :=
  match high, low with
  | false, false => .off
  | false, true => .on
  | true, false => .pwm
  | true, true => .blink

/-- The mode of LED `led`, in its register. -/
def modeOf (registerVal led : Byte) : EMode :=
  .ofBits (registerVal.getLsbD ((led % 4 * 2).toNat + 1)) (registerVal.getLsbD (led % 4 * 2).toNat)

/-- The four places of an LED in its register. -/
theorem place_cases (led : Byte) : led % 4 = 0 ∨ led % 4 = 1 ∨ led % 4 = 2 ∨ led % 4 = 3 := by
  have hlt : (led % 4).toNat < 4 := by
    rw [BitVec.toNat_umod]
    exact Nat.mod_lt _ (by decide)
  generalize led % 4 = place at hlt ⊢
  bv_omega

/-- The LED that is named has the mode given. -/
theorem modeOf_withMode (registerVal led : Byte) (mode : EMode) :
    modeOf (withMode registerVal led mode) led = mode := by
  unfold modeOf withMode
  rcases place_cases led with h | h | h | h <;> rw [h] <;> cases mode <;>
    simp [pca963xLedoutxMask, EMode.code, EMode.ofBits]

/-- The other LEDs of the register keep their modes. -/
theorem modeOf_withMode_of_ne (registerVal led : Byte) (mode : EMode) {other : Byte}
    (hne : other ≠ led) (haddr : ledoutAddr other = ledoutAddr led) :
    modeOf (withMode registerVal led mode) other = modeOf registerVal other := by
  have hplace : other % 4 ≠ led % 4 := by
    intro heq
    refine hne (BitVec.eq_of_toNat_eq ?_)
    have hdiv := congrArg BitVec.toNat (add_left_cancel haddr)
    have hmod := congrArg BitVec.toNat heq
    simp only [BitVec.toNat_udiv, BitVec.toNat_umod] at hdiv hmod
    have h4 : (4 : Byte).toNat = 4 := rfl
    rw [h4] at hdiv hmod
    omega
  unfold modeOf withMode
  rcases place_cases led with h | h | h | h <;> rcases place_cases other with h' | h' | h' | h' <;>
    first
    | exact absurd (h'.trans h.symm) hplace
    | rw [h, h']
      cases mode <;> simp [pca963xLedoutxMask, EMode.code]

/-- The LEDs of a face, in its registers. -/
def ledFields : Fields Byte Byte Byte EMode where
  cell := ledoutAddr
  get := modeOf
  put := withMode
  get_put_self := modeOf_withMode
  get_put_of_ne registerVal led mode _ := modeOf_withMode_of_ne registerVal led mode

/-! ## Concurrent calls for one face

An instance of the general pattern of a read, a modification and a write that are not one step. -/

section

variable {ι : Type}

/-- A call `SetMode(p, led i, mode i)` for each `i`, each in a task of its own. The two sections of a call
are its two steps, on the registers by their addresses. -/
def setModeCalls (led : ι → Byte) (mode : ι → EMode) : Updates Byte Byte Byte EMode ι :=
  { ledFields with field := led, value := mode }

/-- The mode of an LED of the face. -/
def ledMode (ledout : Byte → Byte) (led : Byte) : EMode := modeOf (ledout (ledoutAddr led)) led

/-- Every named LED has the mode it was to get, and every other one that it had `before`. -/
def ModesSet (led : ι → Byte) (mode : ι → EMode) (before ledout : Byte → Byte) : Prop :=
  (∀ i, ledMode ledout (led i) = mode i) ∧
    ∀ l, (∀ i, led i ≠ l) → ledMode ledout l = ledMode before l

variable {led : ι → Byte} {mode : ι → EMode} {before : Byte → Byte} {s : Shared Byte Byte ι}

/-- When all calls are through, the fields that are kept are the modes that were to be set. -/
theorem modesSet_of_kept (h : (setModeCalls led mode).Kept before s) (hall : ∀ i, s.pc i = .finished) :
    ModesSet led mode before s.word :=
  ⟨fun i => h.updated i (hall i), fun l hl => h.others l fun i _ => hl i⟩

variable [DecidableEq ι]

/-- **`SetMode` calls of several tasks.** A call disturbs no other one as long as the other LEDs of its
register still have, when it writes, the modes it has read. In a run in which it is always so, and in no
other one, every state has the modes of the calls that are through and no other change; and when all
calls are through their modes are set. -/
theorem setMode_kept_iff (led : ι → Byte) (mode : ι → EMode) (hled : Function.Injective led)
    {s t : Shared Byte Byte ι} {es : List ι} (hstart : ∀ i, s.pc i = .start)
    (hrun : run (setModeCalls led mode).step s es = some t) :
    (Along (setModeCalls led mode).step (setModeCalls led mode).Current s es ↔
      ∀ fs gs u, es = fs ++ gs → run (setModeCalls led mode).step s fs = some u →
        (setModeCalls led mode).Kept s.word u) ∧
      (Along (setModeCalls led mode).step (setModeCalls led mode).Current s es →
        (∀ i, t.pc i = .finished) → ModesSet led mode s.word t.word) := by
  have hiff := Updates.along_current_iff (A := setModeCalls led mode) hled hstart hrun
  refine ⟨hiff, fun halong => modesSet_of_kept ?_⟩
  exact hiff.mp halong es [] t (by simp) hrun

end

/-- A face whose LEDs are all off, before the calls `SetMode(p, 0, ON)` and `SetMode(p, 1, BLINK)`. -/
def allOff : Shared Byte Byte (Fin 2) := ⟨fun _ => 0, fun _ => .start⟩

/-- `SetMode` for LED `0` and for LED `1`, whose modes are in one register. -/
def twoCalls : Updates Byte Byte Byte EMode (Fin 2) := setModeCalls ![0, 1] ![.on, .blink]

/-- The one call after the other. -/
theorem setMode_kept_in_turn :
    ∃ t, run twoCalls.step allOff [0, 0, 1, 1] = some t ∧ (∀ i, t.pc i = .finished) ∧
      ModesSet ![0, 1] ![.on, .blink] allOff.word t.word := by
  have hthrough : ∀ i, ((run twoCalls.step allOff [0, 0, 1, 1]).map fun t => t.pc i) =
      some .finished := Fin.forall_fin_two.mpr ⟨rfl, rfl⟩
  obtain ⟨t, hrun, -⟩ := Option.map_eq_some_iff.mp (hthrough 0)
  have hpc : ∀ i, t.pc i = .finished := fun i => by
    have := hthrough i
    rwa [hrun, Option.map_some, Option.some.injEq] at this
  refine ⟨t, hrun, hpc, (setMode_kept_iff ![0, 1] ![.on, .blink] (by decide) (fun _ => rfl) hrun).2 ?_ hpc⟩
  have hfirst : Along twoCalls.step twoCalls.Current allOff [0, 0] := Updates.along_alone rfl
  refine along_append.mpr ⟨hfirst, fun u hu => Updates.along_alone ?_⟩
  obtain rfl := Option.some.inj hu
  rfl

/-- The calls for LEDs `0` and `1` both read register `LEDOUT0` before either has written it: the mode of
LED `0` is lost. -/
theorem setMode_loses_update :
    ¬ ∀ (led : Fin 2 → Byte) (mode : Fin 2 → EMode) (s t : Shared Byte Byte (Fin 2)) (es : List (Fin 2)),
      Function.Injective led → (∀ i, led i < 16) → (∀ i, s.pc i = .start) →
      run (setModeCalls led mode).step s es = some t → (∀ i, t.pc i = .finished) →
      ModesSet led mode s.word t.word := by
  intro hall
  have hset := hall ![0, 1] ![.on, .blink] allOff _ [0, 1, 0, 1] (by decide) (by decide)
    (fun _ => rfl) rfl (Fin.forall_fin_two.mpr ⟨rfl, rfl⟩)
  exact absurd (hset.1 0) (by decide)

end CLEDController

end SmartblocksOs.Board
