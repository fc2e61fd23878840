/-
# SmartblocksOs.Board.Frames -- what the controllers leave alone

What has been printed and the list of the connected ports belong to `main.cpp`: no function of a
controller stores them, none takes the lock of the UART, and a function that is called for a face
calls only functions for that face (`Framed`).

Nothing here is about values. A `Footprint` bounds what a program may read, store, lock and note; a
function has the union of the footprints of what it calls, and two bounds for the whole board are enough
for the properties that need a frame: `framePrint` for any function of a controller, and the smaller
`commandPrint` for those that send a command and receive nothing.

For most functions the theorem is a line that has the shape of the body: a bind is a `bind`, a loop an
induction on its count. What makes it more than bookkeeping is what the bound leaves out. A function
within `framePrint port` does not store to the list of ports nor to what has been printed, does not take
the UART, and notes no call for a face other than `port`; three different results of other modules rest on
one of these each.
-/
import SmartblocksOs.Foundation.LockInvariants
import SmartblocksOs.Board.Footprints
import SmartblocksOs.Board.Operations

namespace SmartblocksOs.Board

open SmartblocksOs.Foundation SmartblocksOs.System SmartblocksOs.Resource

/-- A controller at work for the face `port`, or for none. -/
abbrev framePrint (port : EPort) : Footprint Var Lock Event :=
  ⟨Set.univ, {x | ofControllers x = true}, {l | l ≠ .uart}, {e | ∀ p, e.face? = some p → p = port}⟩

/-- The same, while nothing is received. -/
abbrev commandPrint (port : EPort) : Footprint Var Lock Event :=
  ⟨Set.univ, {x | ofControllers x = true}, {l | l ≠ .uart},
    {e | (∀ p, e.face? = some p → p = port) ∧ e.outgoing = true}⟩

/-- The program is one of the controllers, at work for the face `port` or for none. -/
abbrev Framed (port : EPort) {α : Type} (p : Code α) : Prop := p.Leaves (framePrint port)

section

variable {port : EPort} {α : Type}

/-- A command is at work for the face. -/
theorem commandPrint_le (port : EPort) : commandPrint port ≤ framePrint port :=
  ⟨subset_rfl, subset_rfl, subset_rfl, fun _ he => he.1⟩

/-- The initialisation names no face and receives nothing. -/
theorem instancePrint_le_command (port : EPort) : instancePrint ≤ commandPrint port := by
  refine ⟨subset_rfl, subset_rfl, by simp [Set.insert_subset_iff], fun e he => ⟨fun p hp => ?_, he.2⟩⟩
  rw [he.1] at hp
  cases hp

/-- The first use of the port controller is bounded as the rest of the controllers. -/
theorem instancePrint_le (port : EPort) : instancePrint ≤ framePrint port :=
  (instancePrint_le_command port).trans (commandPrint_le port)

theorem sendPrint_le_command (port : EPort) : sendPrint ≤ commandPrint port :=
  (sendPrint_le_init.trans initPrint_le).trans (instancePrint_le_command port)

/-- What the methods of `CTWController` note names no face. -/
theorem OnBus.framed {p : Code α} (h : OnBus p) : Framed port p := by
  refine h.mono ⟨Set.subset_univ _, fun x => ofControllers_of_bus, Set.empty_subset _, fun e he p hp => ?_⟩
  rw [Event.face?_of_uncalled he] at hp
  cases hp

/-- A function that is called for the face notes that face. -/
theorem calledFor_framed {f : Callee} (hf : f.face? = some port) {body : Code α} (h : Framed port body) :
    Framed port (calledFor f body) :=
  calledFor_leaves (fun _ hp => Option.some.inj (hp.symm.trans hf))
    (fun _ hp => absurd hp (by simp [Event.face?])) h

/-- A function that is called for no face notes none. -/
theorem calledForNone_framed {body : Code α} (h : Framed port body) :
    Framed port (calledFor .port body) :=
  calledFor_leaves (fun _ hp => absurd hp (by simp [Event.face?, Callee.face?]))
    (fun _ hp => absurd hp (by simp [Event.face?])) h

end

/-! ## `CPortController`

The functions of the port controller are called for no face: what they note is a call of the port
controller and transactions with the two expanders of the board. -/

namespace CPortController

open CTWController

variable {port : EPort} {α : Type}

theorem selectPort_framed (target : EPort) : Framed port (selectPort target) :=
  (selectPort_leaves target).mono
    ⟨Set.subset_univ _, by simp [ofControllers], Set.empty_subset _, Set.empty_subset _⟩

theorem onInstance_framed {method : Code α} (h : Framed port method) : Framed port (onInstance method) :=
  onInstance_leaves (instancePrint_le port) h

theorem acquireInstance_framed : Framed port (onInstance (acquire .port)) :=
  onInstance_framed (.acquire (by simp))

theorem releaseInstance_framed : Framed port (onInstance (release .port)) :=
  onInstance_framed (.release (by simp))

theorem synchronizeInterrupts_framed : Framed port synchronizeInterrupts := by
  apply calledForNone_framed
  refine .bind (.read trivial) fun _ => .ite (.bind (.acquire (by simp)) fun _ => ?_) (.ret _)
  refine .bind (beginTransmission_onBus _).framed fun _ => .bind (writeByte_onBus _).framed fun _ => ?_
  refine .bind (endTransmission_onBus _).framed fun _ => .bind (readFrom_onBus _ _ _).framed fun _ => ?_
  refine .bind (.write rfl _) fun _ => .bind readByte_onBus.framed fun _ => ?_
  refine .bind (.release (by simp)) fun _ => .bind (.read trivial) fun _ => .bind (.read trivial) fun _ => ?_
  exact .bind (.write rfl _) fun _ => .write rfl _

theorem clearInterrupts_framed (clearMask : Byte) : Framed port (clearInterrupts clearMask) :=
  .bind (.read trivial) fun _ => .write rfl _

theorem hasInterrupts_framed : Framed port hasInterrupts :=
  .bind (.read trivial) fun _ => .ret _

/-- Two tenures of the bus, with the locks around them. -/
theorem updateOutput_framed (change : Byte → Byte) : Framed port (updateOutput change) := by
  apply calledForNone_framed
  refine .bind (.acquire (by simp)) fun _ => .bind (beginTransmission_onBus _).framed fun _ => ?_
  refine .bind (writeByte_onBus _).framed fun _ => .bind (endTransmission_onBus _).framed fun _ => ?_
  refine .bind (readFrom_onBus _ _ _).framed fun _ => .bind readByte_onBus.framed fun _ => ?_
  -- the changed byte is written back
  refine .bind (.release (by simp)) fun _ => .bind (.acquire (by simp)) fun _ => ?_
  refine .bind (beginTransmission_onBus _).framed fun _ => .bind (writeByte_onBus _).framed fun _ => ?_
  refine .bind (writeByte_onBus _).framed fun _ => .bind (endTransmission_onBus _).framed fun _ => ?_
  exact .release (by simp)

theorem isPortConnected_framed (target : EPort) : Framed port (isPortConnected target) := by
  refine .bind (selectPort_framed _) fun _ => .bind .switch fun _ => ?_
  refine .bind (.read trivial) fun _ => .bind (.write rfl _) fun _ => .bind (.read trivial) fun _ => ?_
  refine .bind (.write rfl _) fun _ => .bind (.read trivial) fun _ => .bind (.write rfl _) fun _ => ?_
  refine .bind (.read trivial) fun _ => .bind (.write rfl _) fun _ => .bind .switch fun _ => ?_
  exact .bind (.read trivial) fun _ => .ret _

end CPortController

/-! ## `CLEDController`

Every function of the LED controller is called with the face it is for, and hands that face on. -/

section

open CTWController CPortController

variable {port : EPort} {α : Type}

/-- The lines around a transaction with the face `port`. -/
theorem openFace_framed {rest : Code α} (h : Framed port rest) :
    Framed port (do
      onInstance (acquire .port)
      onInstance (selectPort port)
      acquire .tw
      rest) :=
  openFace_leaves (instancePrint_le port) port h

/-- The two lines after a transaction with a face. -/
theorem closeFace_framed : Framed port (do
      release .tw
      onInstance (release .port)) :=
  closeFace_leaves (instancePrint_le port)

theorem closeFaceThen_framed {rest : Code α} (h : Framed port rest) :
    Framed port (do
      release .tw
      onInstance (release .port)
      rest) :=
  closeFaceThen_leaves (instancePrint_le port) h

/-- The transaction that stores `value` in register `register` of a device. -/
theorem writeRegister_framed (address register value : Byte) {rest : Code α} (h : Framed port rest) :
    Framed port (do
      beginTransmission address
      let _ ← writeByte register
      let _ ← writeByte value
      let _ ← endTransmission true
      rest) :=
  .bind (beginTransmission_onBus _).framed fun _ => .bind (writeByte_onBus _).framed fun _ =>
    .bind (writeByte_onBus _).framed fun _ => .bind (endTransmission_onBus _).framed fun _ => h

end

namespace CLEDController

open CTWController CPortController

variable {port : EPort}

theorem setMode_framed (led : Byte) (mode : EMode) : Framed port (setMode port led mode) := by
  refine calledFor_framed rfl (openFace_framed (.bind (beginTransmission_onBus _).framed fun _ => ?_))
  refine .bind (writeByte_onBus _).framed fun _ => .bind (endTransmission_onBus _).framed fun _ => ?_
  refine .bind (readFrom_onBus _ _ _).framed fun _ => .bind readByte_onBus.framed fun _ => ?_
  exact closeFaceThen_framed (openFace_framed (writeRegister_framed _ _ _ closeFace_framed))

theorem setBrightness_framed (led val : Byte) : Framed port (setBrightness port led val) :=
  calledFor_framed rfl (openFace_framed (writeRegister_framed _ _ _ closeFace_framed))

theorem setColor_framed (ledPack red green blue : Byte) :
    Framed port (setColor port ledPack red green blue) :=
  calledFor_framed rfl (.bind (setBrightness_framed _ _) fun _ => .bind (setBrightness_framed _ _) fun _ =>
    setBrightness_framed _ _)

theorem setBlinkRate_framed (period dutyCycle : Byte) : Framed port (setBlinkRate port period dutyCycle) :=
  calledFor_framed rfl <| openFace_framed <| writeRegister_framed _ _ _ <| closeFaceThen_framed <|
    openFace_framed (writeRegister_framed _ _ _ closeFace_framed)

theorem setAllColorsOnFace_framed (red green blue : Byte) :
    Framed port (setAllColorsOnFace port red green blue) :=
  calledFor_framed rfl (.forM (fun _ => setColor_framed _ _ _ _) _)

theorem setAllModesOnFace_framed (mode : EMode) : Framed port (setAllModesOnFace port mode) :=
  calledFor_framed rfl (.forM (fun _ => .bind (setMode_framed _ _) fun _ =>
    .bind (setMode_framed _ _) fun _ => .bind (setMode_framed _ _) fun _ => setMode_framed _ _) _)

theorem init_framed : Framed port (init port) := by
  refine calledFor_framed rfl (openFace_framed (writeRegister_framed _ _ _ (closeFaceThen_framed ?_)))
  refine openFace_framed (writeRegister_framed _ _ _ (closeFaceThen_framed ?_))
  refine openFace_framed (writeRegister_framed _ _ _ (closeFaceThen_framed ?_))
  refine .bind (setBlinkRate_framed _ _) fun _ => .forM (fun _ => ?_) _
  exact .bind (setMode_framed _ _) fun _ => setBrightness_framed _ _

end CLEDController

/-! ## `CNFCController`

The two exchanges with the PN532 come first, a command sent and an answer polled for. The twelve functions
over them add nothing but calls and returns. -/

namespace CNFCController

open CTWController CPortController

variable {port : EPort} {α : Type}

theorem queueByte_leaves (b : Byte) : (queueByte b).Leaves queuePrint :=
  .repeatWhile <| .bind (writeByte_leaves b) fun _ => .ite (.ret _) <|
    .bind (.note fun _ => ⟨rfl, rfl⟩) fun _ => .bind .switch fun _ => .ret _

/-- Nothing is received while a command is sent. -/
theorem writeCmd_leaves (port : EPort) (cmd : Buffer) (len : Byte) :
    (writeCmd port cmd len).Leaves (commandPrint port) := by
  have hsend := sendPrint_le_command port
  have hbegin : ∀ address, (beginTransmission address).Leaves (commandPrint port) :=
    fun address => (beginTransmission_queues address).mono (queuePrint_le.trans hsend)
  have hwrite : ∀ b, (writeByte b).Leaves (commandPrint port) :=
    fun b => (writeByte_leaves b).mono (queuePrint_le.trans hsend)
  have hqueue : ∀ b, (queueByte b).Leaves (commandPrint port) :=
    fun b => (queueByte_leaves b).mono (queuePrint_le.trans hsend)
  have hend := (endTransmission_leaves true).mono hsend
  have hcalled : Event.called (.nfc port) ∈ (commandPrint port).notes :=
    ⟨fun _ hp => (Option.some.inj hp).symm, rfl⟩
  have hreturned : Event.returned ∈ (commandPrint port).notes :=
    ⟨fun _ hp => absurd hp (by simp [Event.face?]), rfl⟩
  apply calledFor_leaves hcalled hreturned
  refine .bind .switch fun _ => openFace_leaves (instancePrint_le_command port) port ?_
  refine .bind (hbegin _) fun _ => .bind (hwrite _) fun _ => .bind (hwrite _) fun _ => ?_
  refine .bind (hwrite _) fun _ => .bind (hwrite _) fun _ => .bind (hwrite _) fun _ => ?_
  refine .bind (hwrite _) fun _ => .bind (.foldlM (fun _ i => ?_) _ _) fun _ => ?_
  · exact .bind (hqueue (cmd i)) fun _ => .ret _
  refine .bind (hwrite _) fun _ => .bind (hwrite _) fun _ => .bind hend fun _ => ?_
  exact closeFaceThen_leaves (instancePrint_le_command port) .switch

/-- A command is one transmission to the face. -/
theorem writeCmd_framed (cmd : Buffer) (len : Byte) : Framed port (writeCmd port cmd len) :=
  (writeCmd_leaves port cmd len).mono (commandPrint_le port)

/-- By induction on the polls that are left. -/
theorem readDtFrom_framed (len : Byte) (attempts : Nat) (status : Byte) (buf : Buffer) :
    Framed port (readDtFrom port len attempts status buf) := by
  induction attempts generalizing status buf with
  | zero => exact .ret _
  | succ attempts ih =>
      apply openFace_framed
      refine .bind (readFrom_onBus _ _ _).framed fun _ => .bind readByte_onBus.framed fun _ => .ite ?_ ?_
      · refine .bind (.foldlM (fun _ i => ?_) _ _) fun _ => closeFaceThen_framed (.ret _)
        exact .bind readByte_onBus.framed fun _ => .ret _
      · refine .bind (.forM (fun _ => ?_) _) fun _ => closeFaceThen_framed (.bind .switch fun _ => ih _ _)
        exact .bind readByte_onBus.framed fun _ => .ret _

theorem readDt_framed (buf : Buffer) (len : Byte) : Framed port (readDt port buf len) :=
  calledFor_framed rfl (readDtFrom_framed _ _ _ _)

theorem writeCmdCheckAck_framed (cmd : Buffer) (len : Byte) :
    Framed port (writeCmdCheckAck port cmd len) :=
  .bind (writeCmd_framed _ _) fun _ => .bind (readDt_framed _ _) fun _ => .ret _

theorem command_framed (cmd : Buffer) (len reply : Byte) {rest : Bool × Buffer → Code α} {other : Code α}
    (hrest : ∀ x, Framed port (rest x)) (hother : Framed port other) :
    Framed port (do
      if ← writeCmdCheckAck port cmd len then do
        let x ← readDt port cmd reply
        rest x
      else other) :=
  .bind (writeCmdCheckAck_framed _ _) fun _ => .ite ((readDt_framed _ _).bind hrest) hother

theorem hasExternalField_framed (io : Buffer) : Framed port (hasExternalField port io) :=
  calledFor_framed rfl (command_framed _ _ _ (fun _ => .ret _) (.ret _))

theorem powerDown_framed (io : Buffer) : Framed port (powerDown port io) :=
  calledFor_framed rfl (command_framed _ _ _ (fun _ => .ret _) (.ret _))

theorem probe_framed (io : Buffer) : Framed port (probe port io) :=
  calledFor_framed rfl (command_framed _ _ _ (fun _ => .ret _) (.ret _))

theorem configureSAM_framed (mode : ESAMMode) (timeout : Byte) (useIrq : Bool) (io : Buffer) :
    Framed port (configureSAM port mode timeout useIrq io) :=
  calledFor_framed rfl (command_framed _ _ _ (fun _ => .ret _) (.ret _))

theorem p2pInitiatorInit_framed (io : Buffer) : Framed port (p2pInitiatorInit port io) :=
  calledFor_framed rfl (command_framed _ _ _ (fun _ => .ret _) (.ret _))

theorem p2pTargetInit_framed (io : Buffer) : Framed port (p2pTargetInit port io) :=
  calledFor_framed rfl (command_framed _ _ _ (fun _ => .ret _) (.ret _))

theorem p2pInitiatorTxRx_framed (tx : Buffer) (txLen : Byte) (rx : Buffer) (rxLen : Byte) (io : Buffer) :
    Framed port (p2pInitiatorTxRx port tx txLen rx rxLen io) :=
  calledFor_framed rfl (command_framed _ _ _ (fun _ => .ite (.ret _) (.ret _)) (.ret _))

theorem p2pTargetTxRx_framed (tx : Buffer) (txLen : Byte) (rx : Buffer) (rxLen : Byte) (io : Buffer) :
    Framed port (p2pTargetTxRx port tx txLen rx rxLen io) := by
  refine calledFor_framed rfl (command_framed _ _ _ (fun _ => .ite ?_ (.ret _)) (.ret _))
  exact command_framed _ _ _ (fun _ => .ite (.ret _) (.ret _)) (.ret _)

theorem send_framed (msg : Buffer) (len : Byte) (io : Buffer) : Framed port (send port msg len io) := by
  refine calledFor_framed rfl (.bind (p2pInitiatorInit_framed _) fun _ => ?_)
  refine .bind (.ite (p2pInitiatorTxRx_framed _ _ _ _ _) (.ret _)) fun _ => ?_
  refine .bind .switch fun _ => .bind (powerDown_framed _) fun _ => ?_
  exact .bind .switch fun _ => .ret _

theorem receive_framed (msg : Buffer) (len : Byte) (io : Buffer) :
    Framed port (receive port msg len io) := by
  refine calledFor_framed rfl (.bind (p2pTargetInit_framed _) fun _ => ?_)
  refine .bind (.ite (p2pTargetTxRx_framed _ _ _ _ _) (.ret _)) fun _ => ?_
  refine .bind .switch fun _ => .bind (powerDown_framed _) fun _ => ?_
  exact .bind .switch fun _ => .ret _

theorem wakeUp_framed (io : Buffer) : Framed port (wakeUp port io) :=
  .bind (probe_framed _) fun _ => .ite
    (.bind (configureSAM_framed _ _ _ _) fun _ => .ite (powerDown_framed _) (.ret _))
    (.ret _)

/-- By induction on the attempts that are left. -/
theorem initFrom_framed (attempts : Nat) (io : Buffer) : Framed port (initFrom port attempts io) := by
  induction attempts generalizing io with
  | zero => exact .ret _
  | succ attempts ih =>
      refine .bind (wakeUp_framed _) fun _ => .ite (.ret _) ?_
      exact .bind .switch fun _ => ih _

theorem init_framed (io : Buffer) : Framed port (init port io) :=
  calledFor_framed rfl (initFrom_framed 3 io)

end CNFCController

/-! ## Operations

What the modules about whole runs share. -/

/-- What the discipline says of an operation, in terms of the log alone. -/
theorem Operation.body_idle {long : Prop} (op : Operation) (hfits : long ∨ op.CommandsFit) :
    (discipline long).Triple [] (fun g _ => Idle g) op.body [] fun _ g _ => Idle g :=
  (op.body_spec hfits).mono (fun g s hidle => (knows_idle_iff g s).mpr hidle)
    fun _ g s hs => (knows_idle_iff g s).mp hs

/-- One task starts an operation and takes `n` steps. -/
def alone {Op : Type} (op : Op) (n : Nat) : List (Action Bool Op Val) :=
  .start false op :: List.replicate n (.advance false)

end SmartblocksOs.Board
