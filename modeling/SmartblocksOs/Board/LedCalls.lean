/-
# SmartblocksOs.Board.LedCalls -- the LEDs of a face as a map

The LED driver of a face is a file of registers: two bits of a LEDOUT register for the mode of each LED,
and a PWM register for its brightness. The operations of `CLEDController` write registers, and read them
to write them back (`Drives`); to their caller they set modes and brightnesses of LEDs. Here the face is
the map that the caller sees (`Face`), and the registers decode to it: after any sequence of calls each
LED is as the last call says that names it (`ledCalls_refine`).

The multiplexer is at the face in every transaction with its driver, so the driver sees all of them.

Three layers meet here. The code of an operation is a chain of transactions on the bus (`Drives`). The
transactions are accesses to a file of registers, for a driver that answers for its registers as the
PCA9634 does. And an access is an assignment to one LED of the map that the registers decode to. The bits
are dealt with once, in `decode_mode` and `decode_brightness`; above them only the names of LEDs are left,
and calls that name different ones can be swapped.
-/
import SmartblocksOs.Foundation.RegisterFile
import SmartblocksOs.Board.FailedReads
import Mathlib.Tactic.FinCases

namespace SmartblocksOs.Board

open SmartblocksOs.Foundation SmartblocksOs.System SmartblocksOs.Foundation.TwoWire

open CTWController CPortController RegisterFile

namespace CLEDController

/-! ## What the operations do to the bus

Each operation makes its accesses one after the other, under locks of its own for each of them. -/

/-- The code makes these accesses to the registers of the LED driver. -/
def Drives (code : Code Unit) (accesses : List Access) : Prop :=
  ∀ held m, Ready held m → Returns code m fun _ m' =>
    (∃ held, Ready held m') ∧ m'.vars .initRequired = false ∧
      m'.device = Access.busAll (slaw pca963xDevAddr) (slar pca963xDevAddr) 0xFF accesses (afterInstance m)

section

variable {code : Code Unit} {accesses accesses' : List Access} {port : EPort}

/-- A port controller that is initialised sends nothing. -/
theorem afterInstance_of_init {m : TwMachine} (hinit : m.vars .initRequired = false) :
    afterInstance m = m.device := by
  unfold afterInstance
  rw [if_neg (by rw [hinit]; exact Bool.false_ne_true)]

/-- The notes of the call are no traffic. -/
theorem Drives.calledFor (h : Drives code accesses) : Drives (calledFor (.led port) code) accesses := by
  intro held m hready
  apply calledFor_total
  apply (h held _ (hready.noted (.called (.led port)))).mono
  rintro - m' ⟨⟨held', hready'⟩, hinit, hdevice⟩
  exact ⟨⟨held', hready'.noted .returned⟩, hinit, hdevice⟩

theorem Drives.seq {next : Code Unit} (h : Drives code accesses) (h' : Drives next accesses') :
    Drives (do code; next) (accesses ++ accesses') := by
  intro held m hready
  apply Total.seq (h held m hready)
  rintro - m' ⟨⟨held', hready'⟩, hinit, hdevice⟩
  apply (h' held' m' hready').mono
  rintro - m'' ⟨hready'', hinit', hdevice'⟩
  refine ⟨hready'', hinit', ?_⟩
  rw [hdevice', afterInstance_of_init hinit, hdevice, Access.busAll_append]

/-- `SetMode` reads a register and writes it back with two bits changed. -/
theorem setMode_drives (led : Byte) (mode : EMode) :
    Drives (setMode port led mode) [.modify (ledoutAddr led) (withMode · led mode)] := by
  intro held m hready
  apply (setMode_atHand port led mode hready).mono
  intro _ m' h
  exact ⟨h.ready, h.init, h.device⟩

theorem writeRegister_drives (addr v : Byte) : Drives (writeRegister port addr v) [.write addr v] := by
  intro held m hready
  apply Total.bind
  apply Total.seq (initOnFirstUse_total hready)
  intro _ m₁ h₁
  apply Total.acquire_iff.mpr
  apply (writeSelected_total port pca963xDevAddr addr v h₁).mono
  intro _ m' h
  exact ⟨h.ready, h.init, h.device⟩

/-- `SetBrightness` is one transaction, which writes a register. -/
theorem setBrightness_drives (led val : Byte) :
    Drives (setBrightness port led val) [.write (pwm0 + led) val] :=
  (writeRegister_drives (pwm0 + led) val).calledFor

/-- `SetColor` writes three PWM registers of a pack, one after the other. -/
theorem setColor_drives (ledPack red green blue : Byte) :
    Drives (setColor port ledPack red green blue)
      [.write (pwm0 + (ledPack * rgbLedsPerFace + rgbRedOffset)) red,
        .write (pwm0 + (ledPack * rgbLedsPerFace + rgbGreenOffset)) green,
        .write (pwm0 + (ledPack * rgbLedsPerFace + rgbBlueOffset)) blue] := by
  apply Drives.calledFor
  apply Drives.seq (setBrightness_drives _ red)
  exact (setBrightness_drives _ green).seq (setBrightness_drives _ blue)

end

/-! ## The map

What a caller thinks of: a mode and a brightness for each of the LEDs. -/

/-- What a face shows: each of its LEDs has a mode and a brightness. -/
structure Face where
  mode : Fin 16 → EMode
  brightness : Fin 16 → Byte

/-- One LED is named, with its mode or with its brightness. -/
inductive Assignment where
  | mode (led : Fin 16) (mode : EMode)
  | brightness (led : Fin 16) (val : Byte)
  deriving DecidableEq, Repr

/-- The calls for a face, for LEDs and packs that there are. -/
inductive LedCall where
  | setMode (led : Fin 16) (mode : EMode)
  | setBrightness (led : Fin 16) (val : Byte)
  | setColor (ledPack : Fin 4) (red green blue : Byte)
  | setAllModesOnFace (mode : EMode)
  | setAllColorsOnFace (red green blue : Byte)
  deriving DecidableEq, Repr

/-- The number of an LED, or of a pack. -/
def number {n : Nat} (i : Fin n) : Byte := BitVec.ofNat 8 i

/-- What a colour is for the LED at this place of a pack. The fourth has none. -/
def channel (red green blue : Byte) : Nat → Option Byte
  | 0 => some red
  | 1 => some green
  | 2 => some blue
  | _ => none

namespace LedCall

/-- The function of `CLEDController` that the call is a call of. -/
def code (port : EPort) : LedCall → Code Unit
  | setMode led mode => CLEDController.setMode port (number led) mode
  | setBrightness led val => CLEDController.setBrightness port (number led) val
  | setColor ledPack red green blue => CLEDController.setColor port (number ledPack) red green blue
  | setAllModesOnFace mode => CLEDController.setAllModesOnFace port mode
  | setAllColorsOnFace red green blue => CLEDController.setAllColorsOnFace port red green blue

/-- The mode that the call gives to an LED, if it names it. -/
def mode? (i : Fin 16) : LedCall → Option EMode
  | setMode led mode => if led = i then some mode else none
  | setAllModesOnFace mode => some (if i.val % 4 = 3 then .off else mode)
  | setBrightness _ _ | setColor _ _ _ _ | setAllColorsOnFace _ _ _ => none

/-- The brightness that the call gives to LED `i`. -/
def brightness? (i : Fin 16) : LedCall → Option Byte
  | setBrightness led val => if led = i then some val else none
  | setColor ledPack red green blue =>
      if i.val / 4 = ledPack.val then channel red green blue (i.val % 4) else none
  | setAllColorsOnFace red green blue => channel red green blue (i.val % 4)
  | setMode _ _ | setAllModesOnFace _ => none

/-- The call sets something of LED `i`. -/
def Names (c : LedCall) (i : Fin 16) : Prop := (c.mode? i).isSome ∨ (c.brightness? i).isSome

/-- No LED is named by both. -/
def Apart (c c' : LedCall) : Prop := ∀ i, ¬ (c.Names i ∧ c'.Names i)

end LedCall

/-- What the last call gives that names the LED, and `before` when none does. -/
def lastNamed {C α : Type} (given : C → Option α) (calls : List C) (before : α) : α :=
  ((calls.filterMap given).getLast?).getD before

/-- The face after these calls. -/
def Face.after (face : Face) (calls : List LedCall) : Face where
  mode i := lastNamed (·.mode? i) calls (face.mode i)
  brightness i := lastNamed (·.brightness? i) calls (face.brightness i)

/-- What the registers of the driver stand for. -/
def decode (registers : Byte → Byte) : Face where
  mode i := ledMode registers (number i)
  brightness i := registers (pwm0 + number i)

/-- The registers that stand for something of an LED. -/
def LedRegister (addr : Byte) : Prop :=
  ∃ i : Fin 16, addr = ledoutAddr (number i) ∨ addr = pwm0 + number i

/-! ### The last that is named -/

section

variable {C α : Type} (given : C → Option α) (before : α)

/-- The last assignment counts. -/
theorem lastNamed_cons (c : C) (calls : List C) :
    lastNamed given (c :: calls) before = lastNamed given calls ((given c).getD before) := by
  unfold lastNamed
  cases h : given c with
  | none => rw [List.filterMap_cons_none h, Option.getD_none]
  | some a => rw [List.filterMap_cons_some h, List.getLast?_cons, Option.getD_some, Option.getD_some]

/-- The assignments of two lists, one list after the other. -/
theorem lastNamed_append (calls calls' : List C) :
    lastNamed given (calls ++ calls') before = lastNamed given calls' (lastNamed given calls before) := by
  induction calls generalizing before with
  | nil => rfl
  | cons c calls ih => rw [List.cons_append, lastNamed_cons, ih, lastNamed_cons]

/-- Calls of which only one names the LED may be exchanged. -/
theorem lastNamed_swap {c c' : C} (h : ¬ ((given c).isSome ∧ (given c').isSome)) (calls calls' : List C) :
    lastNamed given (calls ++ c' :: c :: calls') before =
      lastNamed given (calls ++ c :: c' :: calls') before := by
  simp only [lastNamed_append, lastNamed_cons]
  cases hc : given c with
  | none => rfl
  | some a =>
      cases hc' : given c' with
      | none => rfl
      | some a' => exact absurd ⟨by rw [hc]; rfl, by rw [hc']; rfl⟩ h

theorem lastNamed_flatMap {A : Type} {part : A → Option α} {parts : C → List A}
    (h : ∀ c before, lastNamed part (parts c) before = (given c).getD before) (calls : List C) :
    lastNamed part (calls.flatMap parts) before = lastNamed given calls before := by
  induction calls generalizing before with
  | nil => rfl
  | cons c calls ih => rw [List.flatMap_cons, lastNamed_append, ih, h, lastNamed_cons]

end

/-- Calls that name different LEDs can be swapped. -/
theorem Face.after_swap {c c' : LedCall} (h : c.Apart c') (face : Face) (calls calls' : List LedCall) :
    face.after (calls ++ c' :: c :: calls') = face.after (calls ++ c :: c' :: calls') := by
  unfold after
  congr 1
  · funext i
    exact lastNamed_swap _ _ (fun hboth => h i ⟨Or.inl hboth.1, Or.inl hboth.2⟩) calls calls'
  · funext i
    exact lastNamed_swap _ _ (fun hboth => h i ⟨Or.inr hboth.1, Or.inr hboth.2⟩) calls calls'

/-! ## The calls, LED by LED

A call is a list of assignments, in the order in which the code makes them. -/

namespace Assignment

def mode? (i : Fin 16) : Assignment → Option EMode
  | mode led setting => if led = i then some setting else none
  | brightness _ _ => none

/-- The brightness that is assigned to LED `i`. -/
def brightness? (i : Fin 16) : Assignment → Option Byte
  | mode _ _ => none
  | brightness led val => if led = i then some val else none

/-- The access that is made for it. -/
def access : Assignment → Access
  | mode led setting => .modify (ledoutAddr (number led)) (withMode · (number led) setting)
  | brightness led val => .write (pwm0 + number led) val

/-- A LEDOUT register is no PWM register. -/
theorem ledoutAddr_ne_pwm (i j : Fin 16) : ledoutAddr (number i) ≠ pwm0 + number j := by
  have hledout : ∀ i : Fin 16, 0x12 ≤ ledoutAddr (number i) := by decide
  have hpwm : ∀ j : Fin 16, pwm0 + number j < 0x12 := by decide
  intro heq
  have hle := hledout i
  have hlt := hpwm j
  rw [heq] at hle
  bv_omega

/-- The numbers of two LEDs are different. -/
theorem number_injective : Function.Injective (number : Fin 16 → Byte) := by
  intro i j h
  apply Fin.ext
  have hnat := congrArg BitVec.toNat h
  unfold number at hnat
  rwa [BitVec.toNat_ofNat, BitVec.toNat_ofNat, Nat.mod_eq_of_lt (by omega),
    Nat.mod_eq_of_lt (by omega)] at hnat

/-- After an assignment an LED has the mode that is given, or the one it had. -/
theorem decode_mode (a : Assignment) (registers : Byte → Byte) (i : Fin 16) :
    (decode (a.access.store registers)).mode i = (a.mode? i).getD ((decode registers).mode i) := by
  cases a with
  | mode led setting =>
      show ledMode (Function.update registers (ledoutAddr (number led)) _) (number i) = _
      unfold ledMode
      by_cases hled : led = i
      · subst hled
        rw [Function.update_self, modeOf_withMode]
        simp [mode?]
      · have hne : number i ≠ number led := fun h => hled (number_injective h).symm
        have hnone : (Assignment.mode led setting).mode? i = none := if_neg hled
        rw [hnone, Option.getD_none]
        by_cases haddr : ledoutAddr (number i) = ledoutAddr (number led)
        · rw [haddr, Function.update_self, modeOf_withMode_of_ne _ _ _ hne haddr, ← haddr]
          rfl
        · rw [Function.update_of_ne haddr]
          rfl
  | brightness led val =>
      show modeOf (Function.update registers (pwm0 + number led) val (ledoutAddr (number i))) _ = _
      rw [Function.update_of_ne (ledoutAddr_ne_pwm i led)]
      rfl

/-- After an assignment an LED has the brightness that is given, or the one it had. -/
theorem decode_brightness (a : Assignment) (registers : Byte → Byte) (i : Fin 16) :
    (decode (a.access.store registers)).brightness i =
      (a.brightness? i).getD ((decode registers).brightness i) := by
  cases a with
  | mode led setting =>
      show Function.update registers (ledoutAddr (number led)) _ (pwm0 + number i) = _
      rw [Function.update_of_ne (ledoutAddr_ne_pwm led i).symm]
      rfl
  | brightness led val =>
      show Function.update registers (pwm0 + number led) val (pwm0 + number i) = _
      by_cases hled : led = i
      · subst hled
        rw [Function.update_self]
        simp [brightness?]
      · have hne : pwm0 + number i ≠ pwm0 + number led :=
          fun h => hled (number_injective (add_left_cancel h)).symm
        have hnone : (Assignment.brightness led val).brightness? i = none := if_neg hled
        rw [Function.update_of_ne hne, hnone]
        rfl

/-- Other registers are left as they are. -/
theorem store_of_not (a : Assignment) (registers : Byte → Byte) {addr : Byte} (h : ¬ LedRegister addr) :
    a.access.store registers addr = registers addr := by
  cases a with
  | mode led setting => exact Function.update_of_ne (fun heq => h ⟨led, Or.inl heq⟩) _ _
  | brightness led val => exact Function.update_of_ne (fun heq => h ⟨led, Or.inr heq⟩) _ _

/-- What a list of assignments makes of the registers. -/
theorem decode_storeAll (assignments : List Assignment) (registers : Byte → Byte) (i : Fin 16) :
    (decode (Access.storeAll (assignments.map access) registers)).mode i =
        lastNamed (·.mode? i) assignments ((decode registers).mode i) ∧
      (decode (Access.storeAll (assignments.map access) registers)).brightness i =
        lastNamed (·.brightness? i) assignments ((decode registers).brightness i) := by
  induction assignments generalizing registers with
  | nil => exact ⟨rfl, rfl⟩
  | cons a assignments ih =>
      rw [lastNamed_cons, lastNamed_cons, ← decode_mode, ← decode_brightness]
      exact ih (a.access.store registers)

/-- A register that is not for LEDs is left alone. -/
theorem storeAll_of_not (assignments : List Assignment) (registers : Byte → Byte) {addr : Byte}
    (h : ¬ LedRegister addr) :
    Access.storeAll (assignments.map access) registers addr = registers addr := by
  induction assignments generalizing registers with
  | nil => rfl
  | cons a assignments ih => exact (ih (a.access.store registers)).trans (store_of_not a registers h)

end Assignment

/-! ### The registers that decode to a face

Two LEDs share no PWM register, and the ones that share a LEDOUT register have different bits of it. -/

/-- A register is known by its four modes. -/
theorem register_ext {v v' : Byte} (h : ∀ k : Fin 4, modeOf v (number k) = modeOf v' (number k)) :
    v = v' := by
  have hbits : ∀ high low high' low', EMode.ofBits high low = EMode.ofBits high' low' →
      high = high' ∧ low = low' := by
    decide
  have h0 := hbits _ _ _ _ (h 0)
  have h1 := hbits _ _ _ _ (h 1)
  have h2 := hbits _ _ _ _ (h 2)
  have h3 := hbits _ _ _ _ (h 3)
  apply BitVec.eq_of_getLsbD_eq
  intro i hi
  match i, hi with
  | 0, _ => exact h0.2
  | 1, _ => exact h0.1
  | 2, _ => exact h1.2
  | 3, _ => exact h1.1
  | 4, _ => exact h2.2
  | 5, _ => exact h2.1
  | 6, _ => exact h3.2
  | 7, _ => exact h3.1

/-- Which two bits of the register are the mode depends on the number of the LED modulo 4. -/
theorem modeOf_place (v led : Byte) : modeOf v (led % 4) = modeOf v led := by
  unfold modeOf
  rcases place_cases led with h | h | h | h
  · rw [h]; rfl
  · rw [h]; rfl
  · rw [h]; rfl
  · rw [h]; rfl

/-- The registers are known by the face and by those that stand for nothing of it. -/
theorem registers_ext {registers registers' : Byte → Byte} (hface : decode registers = decode registers')
    (hothers : ∀ addr, ¬ LedRegister addr → registers addr = registers' addr) :
    registers = registers' := by
  have hmode (i : Fin 16) : ledMode registers (number i) = ledMode registers' (number i) :=
    congrFun (congrArg Face.mode hface) i
  funext addr
  by_cases hled : LedRegister addr
  · obtain ⟨i, rfl | rfl⟩ := hled
    · apply register_ext
      intro k
      have hplace : ∀ (i : Fin 16) (k : Fin 4), ∃ j : Fin 16,
          ledoutAddr (number j) = ledoutAddr (number i) ∧ number j % 4 = number k := by
        decide
      obtain ⟨j, haddr, hk⟩ := hplace i k
      rw [← hk, modeOf_place, modeOf_place, ← haddr]
      exact hmode j
    · exact congrFun (congrArg Face.brightness hface) i
  · exact hothers addr hled

/-! ## The calls make these assignments -/

/-- The LED at place `k` of a pack. -/
def ledAt (ledPack k : Fin 4) : Fin 16 := ⟨ledPack.val * 4 + k.val, by omega⟩

/-- The three channels of a pack. -/
def colour (red green blue : Byte) (ledPack : Fin 4) : List Assignment :=
  [.brightness (ledAt ledPack 0) red, .brightness (ledAt ledPack 1) green,
    .brightness (ledAt ledPack 2) blue]

/-- What `SetAllModesOnFace` assigns in one pack: the fourth LED of a pack is not connected, and is turned
off. -/
def packMode (mode : EMode) (ledPack : Fin 4) : List Assignment :=
  [.mode (ledAt ledPack 0) mode, .mode (ledAt ledPack 1) mode, .mode (ledAt ledPack 2) mode,
    .mode (ledAt ledPack 3) .off]

namespace LedCall

/-- What the call assigns, in its order. -/
def assignments : LedCall → List Assignment
  | setMode led mode => [.mode led mode]
  | setBrightness led val => [.brightness led val]
  | setColor ledPack red green blue => colour red green blue ledPack
  | setAllModesOnFace mode => (List.finRange 4).flatMap (packMode mode)
  | setAllColorsOnFace red green blue => (List.finRange 4).flatMap (colour red green blue)

/-- To an LED the call gives what it assigns to it last. -/
theorem assignments_mode (c : LedCall) (i : Fin 16) (before : EMode) :
    lastNamed (·.mode? i) c.assignments before = (c.mode? i).getD before := by
  cases c with
  | setMode led mode => rw [assignments, lastNamed_cons]; rfl
  | setBrightness led val => rfl
  | setColor ledPack red green blue => rfl
  | setAllModesOnFace mode => fin_cases i <;> rfl
  | setAllColorsOnFace red green blue => rfl

/-- The brightness after a call is the one it gives, where it gives one. -/
theorem assignments_brightness (c : LedCall) (i : Fin 16) (before : Byte) :
    lastNamed (·.brightness? i) c.assignments before = (c.brightness? i).getD before := by
  cases c with
  | setMode led mode => rfl
  | setBrightness led val => rw [assignments, lastNamed_cons]; rfl
  | setColor ledPack red green blue => fin_cases ledPack <;> fin_cases i <;> rfl
  | setAllModesOnFace mode => rfl
  | setAllColorsOnFace red green blue => fin_cases i <;> rfl

end LedCall

/-- So the registers decode to what the calls make of the face. -/
theorem decode_calls (calls : List LedCall) (registers : Byte → Byte) :
    decode (Access.storeAll ((calls.flatMap LedCall.assignments).map Assignment.access) registers) =
      (decode registers).after calls := by
  have hdecode := Assignment.decode_storeAll (calls.flatMap LedCall.assignments) registers
  unfold Face.after
  refine congrArg₂ Face.mk (funext fun i => ?_) (funext fun i => ?_)
  · exact (hdecode i).1.trans (lastNamed_flatMap _ _ (LedCall.assignments_mode · i) calls)
  · exact (hdecode i).2.trans (lastNamed_flatMap _ _ (LedCall.assignments_brightness · i) calls)

/-! ## The operations refine the map

The three layers are put together, and the order of the calls is compared. -/

section

variable {port : EPort}

theorem Drives.forM {ι : Type} {body : ι → Code Unit} {parts : ι → List Access}
    (h : ∀ i, Drives (body i) (parts i)) (i : ι) (is : List ι) :
    Drives ((i :: is).forM body) ((i :: is).flatMap parts) := by
  induction is generalizing i with
  | nil =>
      show Drives (body i >>= pure) (parts i ++ [])
      rw [bind_pure, List.append_nil]
      exact h i
  | cons j is ih => exact (h i).seq (ih j)

/-- A call makes the accesses of its assignments. -/
theorem LedCall.code_drives (c : LedCall) : Drives (c.code port) (c.assignments.map Assignment.access) := by
  cases c with
  | setMode led mode => exact setMode_drives (number led) mode
  | setBrightness led val => exact setBrightness_drives (number led) val
  | setColor ledPack red green blue =>
      -- the number of an LED of a pack, computed in bytes as in the source
      have hplace : ∀ ledPack k : Fin 4,
          number ledPack * rgbLedsPerFace + number k = number (ledAt ledPack k) := by
        decide
      have h : Drives (CLEDController.setColor port (number ledPack) red green blue) _ :=
        setColor_drives (number ledPack) red green blue
      rw [show rgbRedOffset = number (0 : Fin 4) from rfl, hplace,
        show rgbGreenOffset = number (1 : Fin 4) from rfl, hplace,
        show rgbBlueOffset = number (2 : Fin 4) from rfl, hplace] at h
      exact h
  | setAllModesOnFace mode =>
      have hmode (led : Byte) (mode : EMode) : Drives (CLEDController.setMode port led mode)
          [.modify (ledoutAddr led) (withMode · led mode)] := setMode_drives led mode
      -- one pack: the fourth LED of it is not connected, and is set to off
      have hpack (ledIdx : Byte) := (hmode (ledIdx * rgbLedsPerFace + rgbRedOffset) mode).seq
        ((hmode (ledIdx * rgbLedsPerFace + rgbGreenOffset) mode).seq
          ((hmode (ledIdx * rgbLedsPerFace + rgbBlueOffset) mode).seq
            (hmode (ledIdx * rgbLedsPerFace + rgbUnusedOffset) .off)))
      exact (Drives.forM hpack 0 [1, 2, 3]).calledFor
  | setAllColorsOnFace red green blue =>
      exact (Drives.forM (fun ledIdx => setColor_drives ledIdx red green blue) 0 [1, 2, 3]).calledFor

/-- Whatever the state of rest it starts from, the code changes the registers of the driver by `g`. -/
def Effects (code : Code Unit) (g : (Byte → Byte) → Byte → Byte) : Prop :=
  ∀ held m, Ready held m → Returns code m fun _ m' =>
    Changes (slaw pca963xDevAddr) (slar pca963xDevAddr) g m.device m'.device

/-- The initialisation of the port controller is none of the LED driver's business. -/
theorem afterInstance_changes {held : Bool} {m : TwMachine} (hready : Ready held m) :
    (∃ held', (afterInstance m).Between held') ∧
      Changes (slaw pca963xDevAddr) (slar pca963xDevAddr) id m.device (afterInstance m) := by
  unfold afterInstance
  split
  · obtain ⟨-, -, -, hheld⟩ := m.device.transmission_traced hready.bus (slaw pca9554RstAddr)
      [pca9554Config, 0xC0] true
    exact ⟨⟨_, hheld⟩, changes_other (by decide) hready.bus _ _⟩
  · exact ⟨⟨held, hready.bus⟩, Changes.refl _⟩

/-- On a driver that answers for its registers the accesses change the registers. -/
theorem Drives.effects {code : Code Unit} {accesses : List Access} (h : Drives code accesses) :
    Effects code (Access.storeAll accesses) := by
  intro held m hready
  apply (h held m hready).mono
  rintro - m' ⟨-, -, hdevice⟩
  obtain ⟨⟨held', hheld⟩, hchanges⟩ := afterInstance_changes hready
  rw [hdevice]
  exact hchanges.trans (Access.busAll_changes _ _ 0xFF hheld accesses)

/-- The same for any number of calls. -/
theorem LedCall.forM_effects (port : EPort) (calls : List LedCall) :
    Effects (calls.forM (·.code port))
      (Access.storeAll ((calls.flatMap assignments).map Assignment.access)) := by
  cases calls with
  | nil => exact fun held m _ => Total.pure_iff.mpr (Changes.refl m.device)
  | cons c calls =>
      have hcode (c : LedCall) : Drives (c.code port) (c.assignments.map Assignment.access) :=
        c.code_drives
      have h := (Drives.forM hcode c calls).effects
      rwa [← List.map_flatMap] at h

/-- **The LEDs of a face.** After any calls the registers decode to the face after them, in which each LED
has the mode and the brightness that the last call gives that names it; no other register is changed; and
two calls that name different LEDs may be exchanged. -/
theorem ledCalls_refine (port : EPort) (calls : List LedCall) :
    ∃ g, Effects (calls.forM (·.code port)) g ∧
      (∀ registers, decode (g registers) = (decode registers).after calls ∧
        ∀ addr, ¬ LedRegister addr → g registers addr = registers addr) ∧
      ∀ pre c c' post, calls = pre ++ c :: c' :: post → c.Apart c' →
        Effects ((pre ++ c' :: c :: post).forM (·.code port)) g := by
  refine ⟨_, LedCall.forM_effects port calls, fun registers => ⟨decode_calls calls registers, ?_⟩, ?_⟩
  · intro addr haddr
    exact Assignment.storeAll_of_not _ registers haddr
  · rintro pre c c' post rfl hapart
    have hsame : Access.storeAll
        (((pre ++ c' :: c :: post).flatMap LedCall.assignments).map Assignment.access) =
        Access.storeAll
          (((pre ++ c :: c' :: post).flatMap LedCall.assignments).map Assignment.access) := by
      funext registers
      apply registers_ext
      · rw [decode_calls, decode_calls, Face.after_swap hapart]
      · intro addr haddr
        rw [Assignment.storeAll_of_not _ registers haddr, Assignment.storeAll_of_not _ registers haddr]
    rw [← hsame]
    exact LedCall.forM_effects port _

end

/-- The board at rest, with a bus on which everything is acknowledged and every byte read is zero. -/
def obliging : TwMachine := ⟨atRest, ⟨.idle, fun _ => ⟨none, true, 0⟩, []⟩, []⟩

/-- Its bus is at rest. -/
theorem obliging_ready : Ready false obliging := ⟨rfl, rfl, rfl⟩

/-- A driver whose registers are all cleared. -/
def blank : RegisterFile := ⟨cleared, 0, false⟩

/-- LED `1` is turned on, and LED `5` gets a brightness. -/
theorem ledCalls_refine_obliging :
    Returns ([LedCall.setMode 1 .on, .setBrightness 5 0x40].forM (·.code .east)) obliging fun _ m' =>
      Served (slaw pca963xDevAddr) (slar pca963xDevAddr) blank m'.device.trace ∧
        decode (after (slaw pca963xDevAddr) (slar pca963xDevAddr) blank m'.device.trace).registers =
          (decode blank.registers).after [.setMode 1 .on, .setBrightness 5 0x40] := by
  let calls : List LedCall := [.setMode 1 .on, .setBrightness 5 0x40]
  obtain ⟨g, heffects, hface, -⟩ := ledCalls_refine .east calls
  have hdrives : Drives (calls.forM (·.code .east)) _ :=
    Drives.forM (fun c : LedCall => c.code_drives) (.setMode 1 .on) [.setBrightness 5 0x40]
  apply ((heffects false obliging obliging_ready).and (hdrives false obliging obliging_ready)).mono
  rintro - m' ⟨⟨events, htrace, hregisters⟩, -, -, hdevice⟩
  have hserved : Served (slaw pca963xDevAddr) (slar pca963xDevAddr) blank m'.device.trace := by
    rw [hdevice]
    decide +kernel
  rw [show obliging.device.trace = [] from rfl, List.nil_append] at htrace
  rw [← htrace] at hregisters
  exact ⟨hserved, by rw [hregisters blank hserved, (hface blank.registers).1]⟩

end CLEDController

end SmartblocksOs.Board
