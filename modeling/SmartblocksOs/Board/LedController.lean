/-
# SmartblocksOs.Board.LedController -- `CLEDController`

Every transaction with the LED driver of a face stands between the same two pairs of lines: the port
controller is locked and the multiplexer turned, the TW controller is locked, and both are unlocked
again. The lines are repeated by hand in the source and here; `openFace_spec` and `closeFace_spec`
are what each repetition does.

The operations are given as the source has them, with every line of every section written out; what a
section does to the knowledge of its task is proved once, for any transaction between the lines. The
specifications at the end ask for nothing but that the caller is in no function for another face, and they
give back a task that holds no lock.
-/
import SmartblocksOs.Board.PortController

namespace SmartblocksOs.Board

open SmartblocksOs.Foundation SmartblocksOs.System

namespace CLEDController

open CTWController CPortController

/-! ## Constants -/

/-- `EMode`. In `PWM` the brightness of an LED is its own, in `BLINK` it blinks with the others. -/
inductive EMode where
  | off | on | pwm | blink
  deriving DecidableEq, Repr

/-- The two bits of a mode in a register `LEDOUT`. -/
def EMode.code : EMode → Byte
  | .off => 0x00
  | .on => 0x01
  | .pwm => 0x02
  | .blink => 0x03

/-- The address at which every driver on the bus resets itself, behind the two bytes below. -/
def pca963xRstAddr : Byte := 0x03

/-- The first byte of the reset. -/
def pca963xRstByte1 : Byte := 0xA5

/-- The second one. -/
def pca963xRstByte2 : Byte := 0x5A

/-- The address of the driver; each face has its own, as the multiplexer selects the face. -/
def pca963xDevAddr : Byte := 0x18

/-- The two bits of an LED in a register `LEDOUT`. -/
def pca963xLedoutxMask : Byte := 0x03

/-- The red LED in a pack of four. -/
def rgbRedOffset : Byte := 0

/-- The green one. -/
def rgbGreenOffset : Byte := 1

/-- The blue one. -/
def rgbBlueOffset : Byte := 2

/-- The one that is not connected, and that `SetAllModesOnFace` turns off. -/
def rgbUnusedOffset : Byte := 3

/-- `RGB_LEDS_PER_FACE`. There are four packs on a face, and four LEDs in each; the source uses it for
both. -/
def rgbLedsPerFace : Byte := 4

/-! `ERegister` -/

/-- `MODE1`, and so on: the registers that are used. -/
def mode1 : Byte := 0x00

/-- `MODE2`. -/
def mode2 : Byte := 0x01

/-- `PWM0`, the brightness of LED `0`; those of the others follow. -/
def pwm0 : Byte := 0x02

/-- `GRPPWM`, the duty cycle of blinking. -/
def grppwm : Byte := 0x12

/-- `GRPFREQ`, its period. -/
def grpfreq : Byte := 0x13

/-- `LEDOUT0`, the modes of the first four LEDs; those of the others follow. -/
def ledout0 : Byte := 0x14

/-- `for(uint8_t i = 0; i < RGB_LEDS_PER_FACE; i++)`, as the list of the values of `i`. -/
def ledsOfFace : List Byte := [0, 1, 2, 3]

/-! ## The operations -/

/-- `SetMode`. The register of four LEDs is read, changed and written back in two transactions, each under
the locks of its own; between them other tasks may change the register. -/
def setMode (port : EPort) (led : Byte) (mode : EMode) : Code Unit := calledFor (.led port) do
  let registerAddr := ledout0 + led / 4
  onInstance (acquire .port)
  onInstance (selectPort port)
  acquire .tw
  beginTransmission pca963xDevAddr
  let _ ← writeByte registerAddr
  let _ ← endTransmission false
  let _ ← readFrom pca963xDevAddr 1 true
  let registerVal ← readByte
  release .tw
  onInstance (release .port)
  let registerVal := registerVal &&& ~~~(pca963xLedoutxMask <<< (led % 4 * 2))
  let registerVal := registerVal ||| (mode.code <<< (led % 4 * 2))
  onInstance (acquire .port)
  onInstance (selectPort port)
  acquire .tw
  beginTransmission pca963xDevAddr
  let _ ← writeByte registerAddr
  let _ ← writeByte registerVal
  let _ ← endTransmission true
  release .tw
  onInstance (release .port)

/-- `SetBrightness`, one transaction. The register of an LED is `PWM0` plus its number, which is not
checked. -/
def setBrightness (port : EPort) (led val : Byte) : Code Unit := calledFor (.led port) do
  let registerAddr := pwm0 + led
  onInstance (acquire .port)
  onInstance (selectPort port)
  acquire .tw
  beginTransmission pca963xDevAddr
  let _ ← writeByte registerAddr
  let _ ← writeByte val
  let _ ← endTransmission true
  release .tw
  onInstance (release .port)

/-- `SetColor`: the brightness of three of the four LEDs of a pack. Each call locks and unlocks on its
own, so that a face may be seen with a part of the new color. -/
def setColor (port : EPort) (ledPack red green blue : Byte) : Code Unit :=
  calledFor (.led port) do
    setBrightness port (ledPack * rgbLedsPerFace + rgbRedOffset) red
    setBrightness port (ledPack * rgbLedsPerFace + rgbGreenOffset) green
    setBrightness port (ledPack * rgbLedsPerFace + rgbBlueOffset) blue

/-- `SetBlinkRate`, two transactions, each under the locks of its own: the period, and then the duty
cycle. -/
def setBlinkRate (port : EPort) (period dutyCycle : Byte) : Code Unit :=
  calledFor (.led port) do
    onInstance (acquire .port)
    onInstance (selectPort port)
    acquire .tw
    beginTransmission pca963xDevAddr
    let _ ← writeByte grpfreq
    let _ ← writeByte period
    let _ ← endTransmission true
    release .tw
    onInstance (release .port)
    onInstance (acquire .port)
    onInstance (selectPort port)
    acquire .tw
    beginTransmission pca963xDevAddr
    let _ ← writeByte grppwm
    let _ ← writeByte dutyCycle
    let _ ← endTransmission true
    release .tw
    onInstance (release .port)

/-- `SetAllColorsOnFace`. -/
def setAllColorsOnFace (port : EPort) (red green blue : Byte) : Code Unit :=
  calledFor (.led port) <| ledsOfFace.forM fun ledIdx => setColor port ledIdx red green blue

/-- `SetAllModesOnFace`. -/
def setAllModesOnFace (port : EPort) (mode : EMode) : Code Unit :=
  calledFor (.led port) <| ledsOfFace.forM fun ledIdx => do
    setMode port (ledIdx * rgbLedsPerFace + rgbRedOffset) mode
    setMode port (ledIdx * rgbLedsPerFace + rgbGreenOffset) mode
    setMode port (ledIdx * rgbLedsPerFace + rgbBlueOffset) mode
    setMode port (ledIdx * rgbLedsPerFace + rgbUnusedOffset) .off

/-- `Init`. The loop at the end counts LEDs, but goes up to the number of packs only. -/
def init (port : EPort) : Code Unit := calledFor (.led port) do
  -- the reset sequence
  onInstance (acquire .port)
  onInstance (selectPort port)
  acquire .tw
  beginTransmission pca963xRstAddr
  let _ ← writeByte pca963xRstByte1
  let _ ← writeByte pca963xRstByte2
  let _ ← endTransmission true
  release .tw
  onInstance (release .port)
  -- wake up the internal oscillator, disable group addressing and auto-increment
  onInstance (acquire .port)
  onInstance (selectPort port)
  acquire .tw
  beginTransmission pca963xDevAddr
  let _ ← writeByte mode1
  let _ ← writeByte 0x00
  let _ ← endTransmission true
  release .tw
  onInstance (release .port)
  -- enable group blinking
  onInstance (acquire .port)
  onInstance (selectPort port)
  acquire .tw
  beginTransmission pca963xDevAddr
  let _ ← writeByte mode2
  let _ ← writeByte 0x25
  let _ ← endTransmission true
  release .tw
  onInstance (release .port)
  setBlinkRate port 0x18 0x80
  -- default all leds to off
  ledsOfFace.forM fun led => do
    setMode port led .off
    setBrightness port led 0x00

end CLEDController

/-! ## What the operations do to what is known

The sections open with what the task knows while idle, gather what is known of the buffers inside, and
forget it when they close. -/

section

variable {c : List Callee} {long : Prop} {held : List Lock} {α : Type} {rest : Code α}
  {Q : α → Assn Val Event} {port : EPort}

open CTWController CPortController

/-- All that is known between the lines, before a transaction. -/
def Know.onFace : Know := ⟨true, false, false, true⟩

/-- Inside another function for the same face. -/
def SameFace (c : List Callee) (port : EPort) : Prop :=
  ∀ p ∈ Transaction.faces c, p = port

/-- A task of `main.cpp` is in no function for a face. -/
theorem SameFace.nil (port : EPort) : SameFace [] port := nofun

/-- A function for the face may call one of the LED or the NFC controller for the same face. -/
theorem SameFace.led (h : SameFace c port) : SameFace (.led port :: c) port := by
  intro p hp
  rcases List.mem_cons.mp hp with rfl | hp
  · rfl
  · exact h p hp

theorem SameFace.nfc (h : SameFace c port) : SameFace (.nfc port :: c) port := h.led

/-- The three lines before a transaction with a face. -/
theorem openFace_spec (hfaces : SameFace c port) (r : Bool)
    (h : (discipline long).Triple [.tw, .port] (Knows c .onFace) rest held Q) :
    (discipline long).Triple [] (Knows c (.idle r)) (do
      onInstance (acquire .port)
      onInstance (selectPort port)
      acquire .tw
      rest) held Q := by
  refine (lockInstance_spec r).seq fun _ => ?_
  refine (onInstance_spec guarded_port rfl
    (selectPort_spec guarded_port (by simp) port hfaces)).seq fun _ => ?_
  exact (acquire_spec guarded_port (by decide)).seq fun _ => h

/-- The port controller is unlocked, and the buffers are forgotten. -/
theorem closePort_spec {k : Know} (hready : k.ready = true) :
    (discipline long).Triple [.port] (Knows c { k with tx := false, rx := false })
      (onInstance (release .port)) [] fun _ => Knows c (.idle true) := by
  have hg : Guarded c [.port] { k with tx := false, rx := false } :=
    ⟨fun _ => Or.inr (by simp), nofun, nofun⟩
  exact forget_spec (unlockInstance_spec hg hready) ⟨nofun, nofun, nofun, fun _ => hready⟩

theorem closeFace_spec {k : Know} (hready : k.ready = true) :
    (discipline long).Triple [.tw, .port] (Knows c k) (do
      release .tw
      onInstance (release .port)) [] fun _ => Knows c (.idle true) :=
  (releaseTw_spec (Guarded.both c [] k)).seq fun _ => closePort_spec hready

theorem closeFaceThen_spec {k : Know} (hready : k.ready = true)
    (h : (discipline long).Triple [] (Knows c (.idle true)) rest held Q) :
    (discipline long).Triple [.tw, .port] (Knows c k) (do
      release .tw
      onInstance (release .port)
      rest) held Q :=
  (releaseTw_spec (Guarded.both c [] k)).seq fun _ => (closePort_spec hready).seq fun _ => h

/-- The transaction that stores `value` in register `register` of a device. -/
theorem writeRegister_spec (address register value : Byte)
    (h : (discipline long).Triple [.tw, .port] (Knows c .onFace) rest held Q) :
    (discipline long).Triple [.tw, .port] (Knows c .onFace) (do
      beginTransmission address
      let _ ← writeByte register
      let _ ← writeByte value
      let _ ← endTransmission true
      rest) held Q := by
  refine (beginTransmission_spec (Guarded.both _ _ _) (by simp) _).seq fun _ => ?_
  refine (writeByte_keeps (Guarded.both _ _ _) (by simp) rfl _).seq fun _ => ?_
  refine (writeByte_keeps (Guarded.both _ _ _) (by simp) rfl _).seq fun _ => ?_
  exact (endTransmission_spec (Guarded.both _ _ _) (by simp) rfl rfl _).seq fun _ => h

theorem calledForFace_spec {f : Callee} (hf : f.face? = some port) {body : Code α} {r r' : Bool}
    (h : (discipline long).Triple [] (Knows (f :: c) (.idle r)) body []
      fun _ => Knows (f :: c) (.idle r')) :
    (discipline long).Triple [] (Knows c (.idle r)) (calledFor f body) []
      fun _ => Knows c (.idle r') := by
  apply calledFor_spec (Guarded.idle c [] r) (j := .idle r')
  · rw [hf]
    exact h
  · exact Guarded.idle _ [] r'

/-- To forget that the controller is initialised. -/
theorem idle_le (r : Bool) : (Know.idle r).Le (.idle true) :=
  ⟨nofun, nofun, nofun, fun _ => rfl⟩

namespace CLEDController

variable (hfaces : SameFace c port) (r : Bool)
include hfaces

/-- Two sections: the value that the first one has read is written back in the second. -/
theorem setMode_spec (led : Byte) (mode : EMode) :
    (discipline long).Triple [] (Knows c (.idle r)) (setMode port led mode) []
      fun _ => Knows c (.idle true) := by
  refine calledForFace_spec rfl (openFace_spec hfaces.led r ?_)
  refine (beginTransmission_spec (Guarded.both _ _ _) (by simp) _).seq fun _ => ?_
  refine (writeByte_keeps (Guarded.both _ _ _) (by simp) rfl _).seq fun _ => ?_
  refine (endTransmission_spec (Guarded.both _ _ _) (by simp) rfl rfl _).seq fun _ => ?_
  refine (readFrom_spec (Guarded.both _ _ _) (by simp) rfl _ _ _).seq fun _ => ?_
  refine (readByte_spec (Guarded.both _ _ _) (by simp) rfl).seq fun _ => ?_
  refine closeFaceThen_spec rfl (openFace_spec hfaces.led true ?_)
  exact writeRegister_spec _ _ _ (closeFace_spec rfl)

/-- One section, with one transmission. -/
theorem setBrightness_spec (led val : Byte) :
    (discipline long).Triple [] (Knows c (.idle r)) (setBrightness port led val) []
      fun _ => Knows c (.idle true) := by
  refine calledForFace_spec rfl (openFace_spec hfaces.led r ?_)
  exact writeRegister_spec _ _ _ (closeFace_spec rfl)

/-- Three calls of `SetBrightness`. -/
theorem setColor_spec (ledPack red green blue : Byte) :
    (discipline long).Triple [] (Knows c (.idle r)) (setColor port ledPack red green blue) []
      fun _ => Knows c (.idle true) := by
  refine calledForFace_spec rfl ((setBrightness_spec hfaces.led r _ _).seq fun _ => ?_)
  refine (setBrightness_spec hfaces.led true _ _).seq fun _ => ?_
  exact setBrightness_spec hfaces.led true _ _

theorem setBlinkRate_spec (period dutyCycle : Byte) :
    (discipline long).Triple [] (Knows c (.idle r)) (setBlinkRate port period dutyCycle) []
      fun _ => Knows c (.idle true) := by
  refine calledForFace_spec rfl (openFace_spec hfaces.led r (writeRegister_spec _ _ _ ?_))
  refine closeFaceThen_spec rfl (openFace_spec hfaces.led true ?_)
  exact writeRegister_spec _ _ _ (closeFace_spec rfl)

/-- A loop over the packs of three LEDs. -/
theorem setAllColorsOnFace_spec (red green blue : Byte) :
    (discipline long).Triple [] (Knows c (.idle r)) (setAllColorsOnFace port red green blue) []
      fun _ => Knows c (.idle true) := by
  refine calledForFace_spec rfl ((setColor_spec hfaces.led r _ _ _ _).seq fun _ => ?_)
  exact Discipline.Triple.forM fun led _ => setColor_spec hfaces.led true led _ _ _

/-- A loop over the packs, with all four LEDs in each of them. -/
theorem setAllModesOnFace_spec (mode : EMode) :
    (discipline long).Triple [] (Knows c (.idle r)) (setAllModesOnFace port mode) []
      fun _ => Knows c (.idle true) := by
  have hled : ∀ led r, (discipline long).Triple [] (Knows (.led port :: c) (.idle r)) (do
      setMode port (led * rgbLedsPerFace + rgbRedOffset) mode
      setMode port (led * rgbLedsPerFace + rgbGreenOffset) mode
      setMode port (led * rgbLedsPerFace + rgbBlueOffset) mode
      setMode port (led * rgbLedsPerFace + rgbUnusedOffset) .off) []
      fun _ => Knows (.led port :: c) (.idle true) := by
    intro led r
    refine (setMode_spec hfaces.led r _ _).seq fun _ => ?_
    refine (setMode_spec hfaces.led true _ _).seq fun _ => ?_
    exact (setMode_spec hfaces.led true _ _).seq fun _ => setMode_spec hfaces.led true _ _
  refine calledForFace_spec rfl ((hled 0 r).seq fun _ => ?_)
  exact Discipline.Triple.forM fun led _ => hled led true

/-- The reset of the driver, three writes and a loop. -/
theorem init_spec :
    (discipline long).Triple [] (Knows c (.idle r)) (init port) []
      fun _ => Knows c (.idle true) := by
  refine calledForFace_spec rfl (openFace_spec hfaces.led r (writeRegister_spec _ _ _ ?_))
  refine closeFaceThen_spec rfl (openFace_spec hfaces.led true (writeRegister_spec _ _ _ ?_))
  refine closeFaceThen_spec rfl (openFace_spec hfaces.led true (writeRegister_spec _ _ _ ?_))
  refine closeFaceThen_spec rfl ((setBlinkRate_spec hfaces.led true _ _).seq fun _ => ?_)
  refine Discipline.Triple.forM fun led _ => (setMode_spec hfaces.led true led _).seq fun _ => ?_
  exact setBrightness_spec hfaces.led true led _

end CLEDController

end

end SmartblocksOs.Board
