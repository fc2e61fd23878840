/-
# SmartblocksOs.Board.LedInit -- what `Init` turns off

`Init` resets the LED driver of a face, configures it, and defaults "all leds to off": in a loop over
`RGB_LEDS_PER_FACE` numbers. But that is the number of packs, and each has four LEDs. So the loop reaches
the LEDs `0` to `3`, and the others are off afterwards just when they were off after the reset
(`init_turns_off_iff`).

The loop is written as in the source, over `RGB_LEDS_PER_FACE` numbers, with `SetMode` and `SetBrightness`
called for each. Everything that `Init` does after the reset is an access to a register, so that what it
leaves behind is computed from the list of these accesses, by the results about the LED calls. The reset
comes before: what registers it leaves is up to the driver, and the theorem takes any.
-/
import SmartblocksOs.Board.LedCalls

namespace SmartblocksOs.Board

open SmartblocksOs.Foundation SmartblocksOs.System SmartblocksOs.Foundation.TwoWire

open CTWController CPortController RegisterFile

namespace CLEDController

/-! ## The transactions of `Init`

A transmission to the reset address, the configuration of the driver, and the loop. -/

/-- The transaction that resets the driver. -/
def resetDriver (port : EPort) : Code Unit := do
  onInstance (acquire .port)
  onInstance (selectPort port)
  acquire .tw
  beginTransmission pca963xRstAddr
  let _ ← writeByte pca963xRstByte1
  let _ ← writeByte pca963xRstByte2
  let _ ← endTransmission true
  release .tw
  onInstance (release .port)

/-- The loop of `Init`. -/
def turnOff (port : EPort) : Code Unit := ledsOfFace.forM fun led => do
  setMode port led .off
  setBrightness port led 0x00

/-- `SetBlinkRate` is two writes of a register. -/
theorem setBlinkRate_eq (port : EPort) (period dutyCycle : Byte) :
    setBlinkRate port period dutyCycle = calledFor (.led port) (do
      writeRegister port grpfreq period
      writeRegister port grppwm dutyCycle) := by
  simp only [setBlinkRate, writeRegister, bind_assoc]

/-- `Init` is a reset, the configuration, and the loop that turns LEDs off. -/
theorem init_eq (port : EPort) :
    init port = calledFor (.led port) (do
      resetDriver port
      writeRegister port mode1 0x00
      writeRegister port mode2 0x25
      setBlinkRate port 0x18 0x80
      turnOff port) := by
  simp only [init, resetDriver, turnOff, writeRegister, bind_assoc]

/-- The bus after the reset. -/
def resetBus (m : TwMachine) : Hardware :=
  ((afterInstance m).transmission (slaw pca963xRstAddr) [pca963xRstByte1, pca963xRstByte2] true).2

/-- The reset is one transmission to the reset address of the driver, whatever comes back. -/
theorem resetDriver_total {held : Bool} {m : TwMachine} (port : EPort) (hready : Ready held m) :
    Returns (resetDriver port) m fun _ m' =>
      (∃ held, Ready held m') ∧ m'.vars .initRequired = false ∧ m'.device = resetBus m := by
  apply Total.bind
  apply Total.seq (initOnFirstUse_total hready)
  intro _ m₁ h₁
  apply Total.acquire_iff.mpr
  apply (writeSelected_total port pca963xRstAddr pca963xRstByte1 pca963xRstByte2 h₁).mono
  intro _ m' h
  exact ⟨h.ready, h.init, h.device⟩

/-- The accesses that configure the driver. -/
def configuration : List Access :=
  [.write mode1 0x00, .write mode2 0x25, .write grpfreq 0x18, .write grppwm 0x80]

/-- The LEDs that the loop turns off. -/
def turnedOff : List Assignment :=
  [0, 1, 2, 3].flatMap fun led => [.mode led .off, .brightness led 0x00]

/-- After the reset, all is accesses to registers. -/
theorem configure_drives (port : EPort) :
    Drives (do
      writeRegister port mode1 0x00
      writeRegister port mode2 0x25
      setBlinkRate port 0x18 0x80
      turnOff port) (configuration ++ turnedOff.map Assignment.access) := by
  have hwrite (addr v : Byte) : Drives (writeRegister port addr v) [.write addr v] :=
    writeRegister_drives addr v
  have hblink : Drives (setBlinkRate port 0x18 0x80) [.write grpfreq 0x18, .write grppwm 0x80] := by
    rw [setBlinkRate_eq]
    exact ((hwrite grpfreq 0x18).seq (hwrite grppwm 0x80)).calledFor
  have hled (led : Byte) : Drives (do setMode port led .off; setBrightness port led 0x00) _ :=
    (setMode_drives led .off).seq (setBrightness_drives led 0x00)
  have hloop : Drives (turnOff port) (turnedOff.map Assignment.access) := Drives.forM hled 0 [1, 2, 3]
  exact (hwrite mode1 0x00).seq ((hwrite mode2 0x25).seq (hblink.seq hloop))

theorem init_total {held : Bool} {m : TwMachine} (port : EPort) (hready : Ready held m) :
    Returns (init port) m fun _ m' =>
      m'.device = Access.busAll (slaw pca963xDevAddr) (slar pca963xDevAddr) 0xFF
        (configuration ++ turnedOff.map Assignment.access) (resetBus m) := by
  rw [init_eq]
  apply calledFor_total
  apply Total.seq (resetDriver_total port (hready.noted (.called (.led port))))
  rintro - m₁ ⟨⟨held₁, hready₁⟩, hinit, hdevice⟩
  apply (configure_drives port held₁ m₁ hready₁).mono
  rintro - m₂ ⟨-, -, hdevice'⟩
  rw [afterInstance_of_init hinit, hdevice] at hdevice'
  exact hdevice'

/-! ## What becomes of the LEDs

Four LEDs share a register, two bits each, so that turning off LEDs `0` to `3` clears the first of the
four registers of modes and leaves the other three. -/

/-- LED `i` is off. -/
def IsOff (registers : Byte → Byte) (i : Fin 16) : Prop :=
  (decode registers).mode i = .off ∧ (decode registers).brightness i = 0

instance (registers : Byte → Byte) (i : Fin 16) : Decidable (IsOff registers i) :=
  inferInstanceAs (Decidable (_ ∧ _))

/-- The configuration is none of the LEDs' business. -/
theorem decode_configuration (registers : Byte → Byte) :
    decode (Access.storeAll configuration registers) = decode registers := by
  have hledout : ∀ i : Fin 16, ledoutAddr (number i) ∉ [mode1, mode2, grpfreq, grppwm] := by decide
  have hpwm : ∀ i : Fin 16, pwm0 + number i ∉ [mode1, mode2, grpfreq, grppwm] := by decide
  have hkept (addr : Byte) (h : addr ∉ [mode1, mode2, grpfreq, grppwm]) :
      Access.storeAll configuration registers addr = registers addr := by
    simp only [List.mem_cons, List.not_mem_nil, or_false, not_or] at h
    obtain ⟨h1, h2, hfreq, hgrp⟩ := h
    show Function.update (Function.update (Function.update (Function.update registers mode1 _)
      mode2 _) grpfreq _) grppwm _ addr = _
    rw [Function.update_of_ne hgrp, Function.update_of_ne hfreq, Function.update_of_ne h2,
      Function.update_of_ne h1]
  refine congrArg₂ Face.mk (funext fun i => ?_) (funext fun i => ?_)
  · exact congrArg (modeOf · (number i)) (hkept _ (hledout i))
  · exact hkept _ (hpwm i)

/-- Of the sixteen LEDs the loop turns off the first four. -/
theorem isOff_configured (registers : Byte → Byte) (i : Fin 16) :
    IsOff (Access.storeAll (configuration ++ turnedOff.map Assignment.access) registers) i ↔
      i.val < 4 ∨ IsOff registers i := by
  have hmode (before : EMode) :
      lastNamed (·.mode? i) turnedOff before = if i.val < 4 then .off else before := by
    fin_cases i <;> rfl
  have hbrightness (before : Byte) :
      lastNamed (·.brightness? i) turnedOff before = if i.val < 4 then 0 else before := by
    fin_cases i <;> rfl
  obtain ⟨hm, hb⟩ := Assignment.decode_storeAll turnedOff (Access.storeAll configuration registers) i
  unfold IsOff
  rw [Access.storeAll_append, hm, hb, decode_configuration, hmode, hbrightness]
  split
  · rename_i hlt
    exact iff_of_true ⟨rfl, rfl⟩ (Or.inl hlt)
  · rename_i hge
    exact (or_iff_right hge).symm

/-- **What `Init` turns off.** When all transactions after the reset succeed, every LED of the face is off
just when the LEDs from the fifth on were off after the reset. -/
theorem init_turns_off_iff (port : EPort) {held : Bool} {m : TwMachine} (hready : Ready held m) :
    Returns (init port) m fun _ m' =>
      ∃ events, m'.device.trace = (resetBus m).trace ++ events ∧
        ∀ f, Served (slaw pca963xDevAddr) (slar pca963xDevAddr) f events →
          ((∀ i, IsOff (after (slaw pca963xDevAddr) (slar pca963xDevAddr) f events).registers i) ↔
            ∀ i : Fin 16, 4 ≤ i.val → IsOff f.registers i) := by
  apply (init_total port hready).mono
  intro _ m' hdevice
  obtain ⟨⟨held', hheld⟩, -⟩ := afterInstance_changes hready
  obtain ⟨-, -, -, hreset⟩ := (afterInstance m).transmission_traced hheld (slaw pca963xRstAddr)
    [pca963xRstByte1, pca963xRstByte2] true
  obtain ⟨events, htrace, hregisters⟩ := Access.busAll_changes (slaw pca963xDevAddr)
    (slar pca963xDevAddr) 0xFF hreset (configuration ++ turnedOff.map Assignment.access)
  refine ⟨events, hdevice ▸ htrace, fun f hserved => ?_⟩
  rw [hregisters f hserved]
  refine forall_congr' fun i => (isOff_configured f.registers i).trans ?_
  rw [← Nat.not_lt]
  exact Decidable.or_iff_not_imp_left

/-- The board at rest, with a bus on which everything is acknowledged but the reset. -/
def unreset : TwMachine := ⟨atRest, ⟨.idle, fun i => ⟨none, i ≠ 1, 0⟩, []⟩, []⟩

/-- Its bus is at rest. -/
theorem unreset_ready : Ready false unreset := ⟨rfl, rfl, rfl⟩

/-- A driver with nothing but LED `4` on. -/
def fifthOn : RegisterFile := ⟨⟨Function.update (fun _ => 0) 0x15 0x01, .deaf⟩, 0, false⟩

/-- On that bus the configuration of that driver is served throughout, and LED `4` stays on. -/
theorem unreset_serves_fifthOn :
    Returns (init .east) unreset fun _ m' =>
      ∃ events, m'.device.trace = (resetBus unreset).trace ++ events ∧
        Served (slaw pca963xDevAddr) (slar pca963xDevAddr) fifthOn events ∧
        ¬ IsOff (after (slaw pca963xDevAddr) (slar pca963xDevAddr) fifthOn events).registers 4 := by
  apply (init_total .east unreset_ready).mono
  intro _ m' hdevice
  -- the events keep a name of their own until the kernel evaluates them
  obtain ⟨events, hevents⟩ : ∃ events, events = (Access.busAll (slaw pca963xDevAddr)
      (slar pca963xDevAddr) 0xFF (configuration ++ turnedOff.map Assignment.access)
        (resetBus unreset)).trace.drop (resetBus unreset).trace.length := ⟨_, rfl⟩
  have htrace : m'.device.trace = (resetBus unreset).trace ++ events := by
    rw [hdevice, hevents]
    decide +kernel
  have hserved : Served (slaw pca963xDevAddr) (slar pca963xDevAddr) fifthOn events := by
    rw [hevents]
    decide +kernel
  have hon : ¬ IsOff (after (slaw pca963xDevAddr) (slar pca963xDevAddr) fifthOn events).registers 4 := by
    rw [hevents]
    decide +kernel
  exact ⟨events, htrace, hserved, hon⟩

/-- The reset is not acknowledged and the driver serves the rest: whether all LEDs are off then is a
matter of the LEDs from 4 on. -/
theorem init_turns_off_iff_unreset :
    Returns (init .east) unreset fun _ m' =>
      ∃ events, m'.device.trace = (resetBus unreset).trace ++ events ∧
        Served (slaw pca963xDevAddr) (slar pca963xDevAddr) fifthOn events ∧
        ((∀ i, IsOff (after (slaw pca963xDevAddr) (slar pca963xDevAddr) fifthOn events).registers i) ↔
          ∀ i : Fin 16, 4 ≤ i.val → IsOff fifthOn.registers i) := by
  apply (unreset_serves_fifthOn.and (init_turns_off_iff .east unreset_ready)).mono
  rintro _ m' ⟨⟨events, htrace, hserved, -⟩, events', htrace', hiff⟩
  -- both speak of what follows the reset in one trace
  have hevents : events' = events := List.append_cancel_left (htrace'.symm.trans htrace)
  rw [hevents] at hiff
  exact ⟨events, htrace, hserved, hiff fifthOn hserved⟩

/-- It stays on. -/
theorem init_leaves_on :
    ¬ ∀ (port : EPort) (held : Bool) (m : TwMachine), Ready held m →
      Returns (init port) m fun _ m' =>
        ∀ events f, m'.device.trace = (resetBus m).trace ++ events →
          Served (slaw pca963xDevAddr) (slar pca963xDevAddr) f events →
          ∀ i, IsOff (after (slaw pca963xDevAddr) (slar pca963xDevAddr) f events).registers i := by
  intro hall
  obtain ⟨-, m', ⟨hoff, events, htrace, hserved, hon⟩, -⟩ :=
    ((hall .east false unreset unreset_ready).and unreset_serves_fifthOn).exists_iff
  exact hon (hoff events fifthOn htrace hserved 4)

end CLEDController

end SmartblocksOs.Board
