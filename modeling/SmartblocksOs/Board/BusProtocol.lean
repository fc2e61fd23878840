/-
# SmartblocksOs.Board.BusProtocol -- every operation keeps to the protocol

The functions of the controllers and of `main.cpp`, from the first line to the last, in the phases of
`SmartblocksOs.Board.Phases`: whatever they read, they call `CTWController` under its lock, end what they
have begun on the bus before they release it, and turn the multiplexer only before that and after.

Each theorem has the form of the function that it is about, so that a reader can hold the two next to each
other: `bind` for a line that follows another, `ite` for a test, `forM` for a loop over a list, and an
induction where the source counts attempts. What is read from the bus or from memory does not matter, so
the rest of a function is taken for every value that it may continue with.

`Leads` is about the phase before and the phase after; `Abides` is the case in which both are the same,
with no controller locked. Every function of the board that a task may call on its own is of that kind,
and therefore so is every composition of them, down to the loops of `main.cpp`. Only the parts of a
transaction need `Leads`: the three lines that open one, what is done with the bus in between, and the two
lines that close it.
-/
import SmartblocksOs.Board.Phases

namespace SmartblocksOs.Board

open SmartblocksOs.Foundation SmartblocksOs.System SmartblocksOs.Resource

/-! ## Programs that keep to it

The closure of `Abides` under the constructs of the language. The state of the UART is universally
quantified inside `Abides`, because the functions of the controllers are called by tasks that hold it and
by tasks that do not. -/

/-- The program is begun with no controller, whether the UART is locked or not, and ends so. -/
def Abides (face : Bool) {α : Type} (p : Code α) : Prop :=
  ∀ uart, Leads face ⟨uart, false, .free⟩ p ⟨uart, false, .free⟩

section

variable {face : Bool} {α β : Type}

namespace Abides

theorem pure (a : α) : Abides face (pure a) := fun _ => pure_leads a

/-- One part after the other. -/
theorem bind {p : Code α} {f : α → Code β} (hp : Abides face p) (hf : ∀ a, Abides face (f a)) :
    Abides face (p >>= f) :=
  fun uart => (hp uart).bind fun a => hf a uart

/-- Both branches. -/
theorem ite {c : Prop} [Decidable c] {p q : Code α} (hp : Abides face p) (hq : Abides face q) :
    Abides face (if c then p else q) :=
  fun uart => .ite (hp uart) (hq uart)

theorem forM {f : α → Code PUnit} (h : ∀ a, Abides face (f a)) (xs : List α) : Abides face (xs.forM f) :=
  fun uart => .forM (fun a => h a uart) xs

theorem load (x : Var) : Abides face (load x) := fun _ => load_leads x

theorem sleep (n : Nat) : Abides face (sleep n) := fun _ => sleep_leads n

/-- What is noted around a function does not concern the bus. -/
theorem calledFor {f : Callee} {body : Code α} (h : Abides face body) :
    Abides face (calledFor f body) :=
  fun uart => calledFor_leads (h uart)

end Abides

open CTWController CPortController

/-- A method, behind the initialisation that it may need first. -/
theorem onInstance_abides {method : Code α} (h : Abides face method) : Abides face (onInstance method) :=
  fun uart => onInstance_leads (h uart)

/-! ## The LED controller

All transactions of the LED controller send two bytes, except for the read in `SetMode`, where the bus is
kept between the register number and the value. -/

variable {uart : Bool} {ψ : Phase} {rest : Code α}

/-- The three lines before a transaction with a face: the two locks are taken in their order. -/
theorem openFace_leads (port : EPort) (h : Leads face ⟨uart, true, .taken⟩ rest ψ) :
    Leads face ⟨uart, false, .free⟩ (do
      onInstance (acquire .port)
      onInstance (selectPort port)
      acquire .tw
      rest) ψ :=
  lockInstance_leads.bind fun _ => (onInstance_leads (selectPort_leads port)).bind fun _ =>
    (acquire_leads rfl).bind fun _ => h

theorem closeFace_leads :
    Leads face ⟨uart, true, .taken⟩ (do
      release .tw
      onInstance (release .port)) ⟨uart, false, .free⟩ :=
  (release_leads rfl).bind fun _ => unlockInstance_leads

/-- The two lines behind a transaction, and then the rest. -/
theorem closeFaceThen_leads (h : Leads face ⟨uart, false, .free⟩ rest ψ) :
    Leads face ⟨uart, true, .taken⟩ (do
      release .tw
      onInstance (release .port)
      rest) ψ :=
  (release_leads rfl).bind fun _ => unlockInstance_leads.bind fun _ => h

/-- A byte is queued for a face, or read from what it has sent. -/
theorem face_calling : Phase.Calling face ⟨uart, true, .taken⟩ := taken_calling fun _ => rfl

namespace CLEDController

/-- Two transactions: the first keeps the bus between its two halves, the second is a transmission. -/
theorem setMode_abides (port : EPort) (led : Byte) (mode : EMode) :
    Abides face (setMode port led mode) := by
  refine .calledFor fun _ => openFace_leads port ?_
  refine readRegister_leads (fun _ => rfl) _ _ (by decide) fun _ => ?_
  refine (readByte_leads face_calling).bind fun _ => closeFaceThen_leads (openFace_leads port ?_)
  exact writeRegister_leads (fun _ => rfl) _ _ _ closeFace_leads

theorem setBrightness_abides (port : EPort) (led val : Byte) : Abides face (setBrightness port led val) :=
  .calledFor fun _ => openFace_leads port (writeRegister_leads (fun _ => rfl) _ _ _ closeFace_leads)

theorem setColor_abides (port : EPort) (ledPack red green blue : Byte) :
    Abides face (setColor port ledPack red green blue) :=
  .calledFor <| (setBrightness_abides _ _ _).bind fun _ => (setBrightness_abides _ _ _).bind fun _ =>
    setBrightness_abides _ _ _

theorem setBlinkRate_abides (port : EPort) (period dutyCycle : Byte) :
    Abides face (setBlinkRate port period dutyCycle) := by
  refine .calledFor fun _ => openFace_leads port (writeRegister_leads (fun _ => rfl) _ _ _ ?_)
  exact closeFaceThen_leads (openFace_leads port (writeRegister_leads (fun _ => rfl) _ _ _ closeFace_leads))

/-- The calls for the face, one after the other. -/
theorem setAllColorsOnFace_abides (port : EPort) (red green blue : Byte) :
    Abides face (setAllColorsOnFace port red green blue) :=
  .calledFor (.forM (fun _ => setColor_abides _ _ _ _ _) _)

theorem setAllModesOnFace_abides (port : EPort) (mode : EMode) : Abides face (setAllModesOnFace port mode) :=
  .calledFor <| .forM (fun _ => (setMode_abides _ _ _).bind fun _ => (setMode_abides _ _ _).bind fun _ =>
    (setMode_abides _ _ _).bind fun _ => setMode_abides _ _ _) _

/-- The reset, two registers, the blink rate, and then the loop over the LEDs. -/
theorem init_abides (port : EPort) : Abides face (init port) := by
  refine .calledFor fun uart => openFace_leads port (writeRegister_leads (fun _ => rfl) _ _ _ ?_)
  refine closeFaceThen_leads (openFace_leads port (writeRegister_leads (fun _ => rfl) _ _ _ ?_))
  refine closeFaceThen_leads (openFace_leads port (writeRegister_leads (fun _ => rfl) _ _ _ ?_))
  refine closeFaceThen_leads (Abides.bind (setBlinkRate_abides _ _ _) (fun _ => .forM (fun _ => ?_) _) uart)
  exact (setMode_abides _ _ _).bind fun _ => setBrightness_abides _ _ _

end CLEDController

/-! ## The NFC controller

A reply is asked for by `Read(address, len + 2)`: the status comes in front of it, and the last byte is
never taken. The sum is a byte, so that the length must not be 254: with 0 as the length `CTWController`
would go on beyond its buffers. The lengths in the source are constants that satisfy this. -/

namespace CNFCController

/-- A byte is queued, and tried again, with the bus held. -/
theorem queueByte_leads (b : Byte) : Leads face ⟨uart, true, .taken⟩ (queueByte b) ⟨uart, true, .taken⟩ :=
  .repeatWhile <| (writeByte_leads face_calling b).bind fun _ => .ite (pure_leads _) <|
    (note_leads _).bind fun _ => (sleep_leads 1).bind fun _ => pure_leads _

/-- The frame is one transmission, however long it takes to queue its bytes. -/
theorem writeCmd_abides (port : EPort) (cmd : Buffer) (len : Byte) : Abides face (writeCmd port cmd len) := by
  refine .calledFor ((Abides.sleep 2).bind fun _ uart => openFace_leads port ?_)
  refine (beginTransmission_leads face_calling _).bind fun _ => ?_
  refine (writeByte_leads face_calling _).bind fun _ => (writeByte_leads face_calling _).bind fun _ => ?_
  refine (writeByte_leads face_calling _).bind fun _ => (writeByte_leads face_calling _).bind fun _ => ?_
  refine (writeByte_leads face_calling _).bind fun _ => (writeByte_leads face_calling _).bind fun _ => ?_
  refine (Typestate.Follows.foldlM (fun _ i => ?_) _ _).bind fun _ => ?_
  · exact (queueByte_leads (cmd i)).bind fun _ => pure_leads _
  refine (writeByte_leads face_calling _).bind fun _ => (writeByte_leads face_calling _).bind fun _ => ?_
  refine (endTransmission_leads face_calling).bind fun _ => ?_
  exact closeFaceThen_leads (sleep_leads 100)

/-- `len + 2` bytes are asked for. -/
theorem readDtFrom_abides (port : EPort) {len : Byte} (hlen : len + 2 ≠ 0) (attempts : Nat) (status : Byte)
    (buf : Buffer) : Abides face (readDtFrom port len attempts status buf) := by
  induction attempts generalizing status buf with
  | zero => exact Abides.pure _
  | succ attempts ih =>
      intro uart
      refine openFace_leads port ((readFrom_leads face_calling _ hlen).bind fun _ => ?_)
      refine (readByte_leads face_calling).bind fun status => .ite ?_ ?_
      · refine (Typestate.Follows.foldlM (fun _ i => ?_) _ _).bind fun _ => ?_
        · exact (readByte_leads face_calling).bind fun _ => pure_leads _
        · exact closeFaceThen_leads (pure_leads _)
      · refine (Typestate.Follows.forM (fun _ => ?_) _).bind fun _ => ?_
        · exact (readByte_leads face_calling).bind fun _ => pure_leads _
        · exact closeFaceThen_leads ((sleep_leads 10).bind fun _ => ih _ _ uart)

/-- Each poll is one reception. -/
theorem readDt_abides (port : EPort) (buf : Buffer) {len : Byte} (hlen : len + 2 ≠ 0) :
    Abides face (readDt port buf len) :=
  .calledFor (readDtFrom_abides _ hlen _ _ _)

/-- The frame, and then the poll for the acknowledge. -/
theorem writeCmdCheckAck_abides (port : EPort) (cmd : Buffer) (len : Byte) :
    Abides face (writeCmdCheckAck port cmd len) :=
  (writeCmd_abides _ _ _).bind fun _ => (readDt_abides _ _ (by decide)).bind fun _ => Abides.pure _

/-- A command, its acknowledge, and its reply. -/
theorem command_abides (port : EPort) (cmd : Buffer) (len : Byte) {reply : Byte} (hreply : reply + 2 ≠ 0)
    {rest : Bool × Buffer → Code α} {other : Code α} (hrest : ∀ x, Abides face (rest x))
    (hother : Abides face other) : Abides face (do
      if ← writeCmdCheckAck port cmd len then do
        let x ← readDt port cmd reply
        rest x
      else other) :=
  (writeCmdCheckAck_abides _ _ _).bind fun _ => Abides.ite ((readDt_abides _ _ hreply).bind hrest) hother

/-- A command and its answer. The functions that follow differ in the bytes, the lengths and the checks,
none of which the protocol knows of. -/
theorem hasExternalField_abides (port : EPort) (io : Buffer) : Abides face (hasExternalField port io) :=
  .calledFor (command_abides _ _ _ (by decide) (fun _ => Abides.pure _) (Abides.pure _))

theorem powerDown_abides (port : EPort) (io : Buffer) : Abides face (powerDown port io) :=
  .calledFor (command_abides _ _ _ (by decide) (fun _ => Abides.pure _) (Abides.pure _))

theorem probe_abides (port : EPort) (io : Buffer) : Abides face (probe port io) :=
  .calledFor (command_abides _ _ _ (by decide) (fun _ => Abides.pure _) (Abides.pure _))

theorem configureSAM_abides (port : EPort) (mode : ESAMMode) (timeout : Byte) (useIrq : Bool)
    (io : Buffer) : Abides face (configureSAM port mode timeout useIrq io) :=
  .calledFor (command_abides _ _ _ (by decide) (fun _ => Abides.pure _) (Abides.pure _))

theorem p2pInitiatorInit_abides (port : EPort) (io : Buffer) : Abides face (p2pInitiatorInit port io) :=
  .calledFor (command_abides _ _ _ (by decide) (fun _ => Abides.pure _) (Abides.pure _))

theorem p2pTargetInit_abides (port : EPort) (io : Buffer) : Abides face (p2pTargetInit port io) :=
  .calledFor (command_abides _ _ _ (by decide) (fun _ => Abides.pure _) (Abides.pure _))

theorem p2pInitiatorTxRx_abides (port : EPort) (tx : Buffer) (txLen : Byte) (rx : Buffer) (rxLen : Byte)
    (io : Buffer) : Abides face (p2pInitiatorTxRx port tx txLen rx rxLen io) :=
  .calledFor (command_abides _ _ _ (by decide)
    (fun _ => Abides.ite (Abides.pure _) (Abides.pure _)) (Abides.pure _))

/-- Two commands, one after the other. -/
theorem p2pTargetTxRx_abides (port : EPort) (tx : Buffer) (txLen : Byte) (rx : Buffer) (rxLen : Byte)
    (io : Buffer) : Abides face (p2pTargetTxRx port tx txLen rx rxLen io) := by
  refine .calledFor (command_abides _ _ _ (by decide) (fun _ => Abides.ite ?_ (Abides.pure _)) (Abides.pure _))
  exact command_abides _ _ _ (by decide) (fun _ => Abides.ite (Abides.pure _) (Abides.pure _)) (Abides.pure _)

/-- `Send` is three commands. -/
theorem send_abides (port : EPort) (msg : Buffer) (len : Byte) (io : Buffer) :
    Abides face (send port msg len io) := by
  refine .calledFor ((p2pInitiatorInit_abides _ _).bind fun _ => ?_)
  refine (Abides.ite (p2pInitiatorTxRx_abides _ _ _ _ _ _) (Abides.pure _)).bind fun _ => ?_
  refine (Abides.sleep 50).bind fun _ => (powerDown_abides _ _).bind fun _ => ?_
  exact (Abides.sleep 100).bind fun _ => Abides.pure _

theorem receive_abides (port : EPort) (msg : Buffer) (len : Byte) (io : Buffer) :
    Abides face (receive port msg len io) := by
  refine .calledFor ((p2pTargetInit_abides _ _).bind fun _ => ?_)
  refine (Abides.ite (p2pTargetTxRx_abides _ _ _ _ _ _) (Abides.pure _)).bind fun _ => ?_
  refine (Abides.sleep 60).bind fun _ => (powerDown_abides _ _).bind fun _ => ?_
  exact (Abides.sleep 100).bind fun _ => Abides.pure _

/-- The wake-up is three commands, each sent only if the one before it was answered. -/
theorem wakeUp_abides (port : EPort) (io : Buffer) : Abides face (wakeUp port io) :=
  (probe_abides _ _).bind fun _ => Abides.ite
    ((configureSAM_abides _ _ _ _ _).bind fun _ => Abides.ite (powerDown_abides _ _) (Abides.pure _))
    (Abides.pure _)

/-- By induction on the attempts that are left. -/
theorem initFrom_abides (port : EPort) (attempts : Nat) (io : Buffer) :
    Abides face (initFrom port attempts io) := by
  induction attempts generalizing io with
  | zero => exact Abides.pure _
  | succ attempts ih =>
      refine (wakeUp_abides _ _).bind fun _ => Abides.ite (Abides.pure _) ?_
      exact (Abides.sleep 100).bind fun _ => ih _

theorem init_abides (port : EPort) (io : Buffer) : Abides face (init port io) :=
  .calledFor (initFrom_abides _ 3 _)

end CNFCController

/-! ## The tasks of `main.cpp`

The tasks take the lock of the UART around what they print, and never while they hold another lock. They
are the top of the argument: below them everything has been shown for any caller. -/

namespace Main

variable {φ : Phase}

theorem print_leads (text : String) : Leads face φ (print text) φ :=
  (Typestate.Follows.repeatWhile (load_leads _)).bind fun _ => (load_leads _).bind fun _ => store_leads rfl

/-- A task that holds the UART already would wait for it in vain. -/
theorem lockUart_abides (h : Leads face ⟨true, false, .free⟩ rest ⟨false, false, .free⟩) :
    Abides face (do
      acquire .uart
      rest) := by
  intro uart
  cases uart with
  | true => exact .wait rfl
  | false => exact (acquire_leads rfl).bind fun _ => h

/-- A text printed under the lock of the UART. -/
theorem printLocked_abides (text : String) (h : Abides face rest) : Abides face (do
    acquire .uart
    print text
    release .uart
    rest) :=
  lockUart_abides ((print_leads text).bind fun _ => (release_leads rfl).bind fun _ => h false)

theorem log_abides (msg1 : String) {msg2 : Code String} (h : Abides face msg2) :
    Abides face (log msg1 msg2) := by
  refine lockUart_abides ((load_leads _).bind fun _ => (print_leads _).bind fun _ => ?_)
  refine (print_leads _).bind fun _ => (h true).bind fun _ => (print_leads _).bind fun _ => ?_
  exact release_leads rfl

/-- The list of ports is in memory. -/
theorem addConnectedPort_leads (port : EPort) (n i : Nat) : Leads face φ (addConnectedPort port n i) φ := by
  induction n generalizing i with
  | zero => exact pure_leads _
  | succ n ih => exact (load_leads _).bind fun _ => .ite (store_leads rfl) (ih _)

/-- The ports are tested with the clock line driven, which the bus must be idle for. -/
theorem initPortController_abides : Abides face initPortController := by
  intro uart
  have hselect : Leads face ⟨uart, true, .free⟩ (onInstance (selectPort .nullport)) ⟨uart, true, .free⟩ :=
    onInstance_leads (selectPort_leads _)
  refine lockInstance_leads.bind fun _ => hselect.bind fun _ => (sleep_leads 10).bind fun _ => ?_
  refine (Typestate.Follows.forM (fun port => ?_) _).bind fun _ => hselect.bind fun _ => ?_
  · exact (onInstance_leads (isPortConnected_leads port)).bind fun _ =>
      .ite (addConnectedPort_leads port 6 0) (pure_leads _)
  refine unlockInstance_leads.bind fun _ => lockUart_abides ?_ uart
  refine (print_leads _).bind fun _ => (Typestate.Follows.forM (fun i => ?_) _).bind fun _ => ?_
  · refine (load_leads _).bind fun _ => .ite ((load_leads _).bind fun _ => ?_) (pure_leads _)
    exact (onInstance_leads (pure_leads _)).bind fun _ => print_leads _
  exact (print_leads _).bind fun _ => (release_leads rfl).bind fun _ => sleep_leads 0

theorem initLEDs_abides : Abides face initLEDs := by
  refine (Abides.forM (fun i => ?_) _).bind fun _ => (log_abides _ (Abides.pure _)).bind fun _ => ?_
  · refine (Abides.load _).bind fun _ => Abides.ite ((Abides.load _).bind fun _ => ?_) (Abides.pure _)
    refine (CLEDController.init_abides _).bind fun _ => (Abides.load _).bind fun _ => ?_
    refine (CLEDController.setAllModesOnFace_abides _ _).bind fun _ => (Abides.load _).bind fun _ => ?_
    exact CLEDController.setAllColorsOnFace_abides _ _ _ _
  · exact (Abides.sleep 10).bind fun _ => Abides.sleep 0

theorem setFaceColor_abides (color val : Byte) (port : EPort) :
    Abides face (setFaceColor color val port) := by
  refine Abides.bind ?_ fun _ => Abides.sleep 1
  split
  · exact CLEDController.setAllColorsOnFace_abides _ _ _ _
  · exact CLEDController.setAllColorsOnFace_abides _ _ _ _
  · exact CLEDController.setAllColorsOnFace_abides _ _ _ _
  · exact CLEDController.setAllColorsOnFace_abides _ _ _ _
  · exact Abides.pure _

/-- Two ramps of such calls. -/
theorem variateLEDsOnPort_abides (port : EPort) : Abides face (variateLEDsOnPort port) :=
  (Abides.forM (fun _ => setFaceColor_abides _ _ _) _).bind fun _ =>
    (Abides.forM (fun _ => setFaceColor_abides _ _ _) _).bind fun _ =>
      (CLEDController.setAllColorsOnFace_abides _ _ _ _).bind fun _ => Abides.sleep 1000

/-- The accelerometer is on no face. -/
theorem testAccelerometer_abides : Abides false testAccelerometer := by
  intro uart
  refine (acquire_leads rfl).bind fun _ => readRegister_leads id _ _ (by decide) fun _ => ?_
  refine (Typestate.Follows.foldlM (fun _ _ => ?_) _ _).bind fun _ => (release_leads rfl).bind fun _ => ?_
  · exact (readByte_leads (taken_calling id)).bind fun _ => pure_leads _
  refine lockUart_abides ((load_leads _).bind fun _ => (print_leads _).bind fun _ => ?_) uart
  refine (Typestate.Follows.repeatWhile (load_leads _)).bind fun _ => (release_leads rfl).bind fun _ => ?_
  exact sleep_leads 1000

theorem dummy5_abides : Abides face dummy5 :=
  lockUart_abides <| (load_leads _).bind fun _ => (print_leads _).bind fun _ =>
    (release_leads rfl).bind fun _ => sleep_leads 1000

/-- The reset line is released, and the PN532 woken, for one port after the other. -/
theorem initNFC_abides (io : Nat → Buffer) : Abides face (initNFC io) := by
  refine (Abides.forM (fun i => ?_) _).bind fun _ => (log_abides _ (Abides.pure _)).bind fun _ => ?_
  · refine (Abides.load _).bind fun _ => Abides.ite (fun uart => ?_) (Abides.pure _)
    refine lockInstance_leads.bind fun _ => (load_leads _).bind fun _ => ?_
    refine (onInstance_leads (selectPort_leads _)).bind fun _ => (load_leads _).bind fun _ => ?_
    refine (onInstance_leads (updateOutput_leads (fun _ => rfl) _)).bind fun _ => ?_
    refine unlockInstance_leads.bind fun _ => Abides.bind (Abides.load _) (fun _ => ?_) uart
    apply (CNFCController.init_abides _ _).bind
    rintro ⟨success, _⟩
    refine Abides.ite ((Abides.load _).bind fun _ => ?_) (Abides.pure _)
    exact CLEDController.setAllColorsOnFace_abides _ _ _ _
  · exact (Abides.sleep 10).bind fun _ => Abides.sleep 0

/-- A message is sent to one port after the other. -/
theorem nfcTransmit_abides (io : Nat → Buffer) : Abides face (nfcTransmit io) := by
  refine (log_abides _ (Abides.pure _)).bind fun _ => Abides.forM (fun i => ?_) _
  refine (Abides.load _).bind fun _ => Abides.ite ((Abides.load _).bind fun _ => ?_) (Abides.pure _)
  refine (CNFCController.send_abides _ _ _ _).bind fun ⟨success, _⟩ uart => ?_
  refine lockInstance_leads.bind fun _ => (load_leads _).bind fun _ => ?_
  refine (onInstance_leads (selectPort_leads _)).bind fun _ => ?_
  refine (onInstance_leads (clearInterrupts_leads _)).bind fun _ => unlockInstance_leads.bind fun _ => ?_
  exact (load_leads _).bind fun _ =>
    .ite (setFaceColor_abides _ _ _ uart) (setFaceColor_abides _ _ _ uart)

/-- What is done for a port whose interrupt is set. -/
theorem reactOn_abides (irqs : Byte) (io inbound : Nat → Buffer) (i : Nat) :
    Abides face (reactOn irqs io inbound i) := by
  refine (Abides.load _).bind fun _ => Abides.ite ?_ (Abides.pure _)
  refine (CNFCController.receive_abides _ _ _ _).bind fun ⟨received, message, _⟩ => ?_
  refine Abides.ite ((setFaceColor_abides _ _ _).bind fun _ => ?_) (Abides.pure _)
  refine (log_abides _ (onInstance_abides (Abides.pure _))).bind fun _ => lockUart_abides ?_
  exact (print_leads _).bind fun _ => release_leads rfl

/-- The interrupts are taken under the lock of the controller; the ports come behind it. -/
theorem nfcReact_abides (io inbound : Nat → Buffer) : Abides face (nfcReact io inbound) := by
  intro uart
  refine lockInstance_leads.bind fun _ => (onInstance_leads synchronizeInterrupts_leads).bind fun _ => ?_
  refine (onInstance_leads hasInterrupts_leads).bind fun some => .ite ?_ unlockInstance_leads
  refine (onInstance_leads (load_leads _)).bind fun irqs => ?_
  refine (onInstance_leads (clearInterrupts_leads _)).bind fun _ => unlockInstance_leads.bind fun _ => ?_
  exact printLocked_abides _ (Abides.forM (fun i => reactOn_abides _ _ _ _) _) uart

end Main

end

/-! ## Every operation

Three operations use the bus without the lock of the port controller: the two that write the port
register, and the measurement, which speaks to a device on the board itself. For the protocol of a face
they are set apart by `OnFaces`. -/

/-- The operation makes its transactions under the lock of the port controller. -/
def Operation.OnFaces : Operation → Prop
  | .enablePort _ | .disablePort _ | .testAccelerometer => False
  | _ => True

/-- Every operation begins and ends without a lock and with the bus idle. -/
theorem Operation.body_leads {face : Bool} (op : Operation) (hop : face = true → op.OnFaces) :
    Leads face ⟨false, false, .free⟩ op.body ⟨false, false, .free⟩ := by
  have hdrop : ∀ {α : Type} {p : Code α}, Abides face p → Abides face (dropResult p) :=
    fun h => h.bind fun _ => Abides.pure _
  -- three operations are on the bus without the lock of the port controller, and `face` is false for them
  have hface : ¬ op.OnFaces → face = false := fun h => Bool.eq_false_iff.mpr fun htrue => h (hop htrue)
  suffices habides : Abides face op.body from habides false
  cases op with
  | ledInit port => exact CLEDController.init_abides _
  | setMode port led mode => exact CLEDController.setMode_abides _ _ _
  | setBrightness port led val => exact CLEDController.setBrightness_abides _ _ _
  | setColor port ledPack red green blue => exact CLEDController.setColor_abides _ _ _ _ _
  | setBlinkRate port period dutyCycle => exact CLEDController.setBlinkRate_abides _ _ _
  | setAllColorsOnFace port red green blue => exact CLEDController.setAllColorsOnFace_abides _ _ _ _
  | setAllModesOnFace port mode => exact CLEDController.setAllModesOnFace_abides _ _
  | nfcInit port io => exact hdrop (CNFCController.init_abides _ _)
  | send port msg len io => exact hdrop (CNFCController.send_abides _ _ _ _)
  | receive port msg len io => exact hdrop (CNFCController.receive_abides _ _ _ _)
  | hasExternalField port io => exact hdrop (CNFCController.hasExternalField_abides _ _)
  | powerDown port io => exact hdrop (CNFCController.powerDown_abides _ _)
  | probe port io => exact hdrop (CNFCController.probe_abides _ _)
  | configureSAM port mode timeout useIrq io =>
      exact hdrop (CNFCController.configureSAM_abides _ _ _ _ _)
  | p2pInitiatorInit port io => exact hdrop (CNFCController.p2pInitiatorInit_abides _ _)
  | p2pTargetInit port io => exact hdrop (CNFCController.p2pTargetInit_abides _ _)
  | p2pInitiatorTxRx port tx txLen rx rxLen io =>
      exact hdrop (CNFCController.p2pInitiatorTxRx_abides _ _ _ _ _ _)
  | p2pTargetTxRx port tx txLen rx rxLen io =>
      exact hdrop (CNFCController.p2pTargetTxRx_abides _ _ _ _ _ _)
  | enablePort port | disablePort port =>
      obtain rfl := hface id
      exact fun uart => CPortController.onInstance_leads (CPortController.updateOutput_leads id _)
  | serviceRoutine => exact fun uart => store_leads rfl
  | initPortController => exact Main.initPortController_abides
  | initLEDs => exact Main.initLEDs_abides
  | setFaceColor color val port => exact Main.setFaceColor_abides _ _ _
  | variateLEDsOnPort port => exact Main.variateLEDsOnPort_abides _
  | testAccelerometer =>
      obtain rfl := hface id
      exact Main.testAccelerometer_abides
  | dummy5 => exact Main.dummy5_abides
  | initNFC io => exact Main.initNFC_abides _
  | nfcTransmit io => exact Main.nfcTransmit_abides _
  | nfcReact io inbound => exact Main.nfcReact_abides _ _
  | log msg1 msg2 => exact Main.log_abides _ (Abides.pure _)

end SmartblocksOs.Board
