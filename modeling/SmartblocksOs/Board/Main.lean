/-
# SmartblocksOs.Board.Main -- the tasks of `main.cpp`

The operations that `main.cpp` starts as tasks or runs in a loop. Where the body of a task is a
`while(true)`, one round of it is the operation, and the task runs it again and again. The list
`m_peConnectedPorts` is read anew at each use of a reference to it. What is printed is kept as a list
of texts; how the bytes get to the line is not followed here.

The notes of an operation and its locks are those of the functions it calls; what is its own is the list
of ports and the texts it prints. A list entry is read where the source reads it: `for(EPort&
eConnectedPort : m_peConnectedPorts)` binds a reference, so that the test against `NULLPORT` and each call
in the loop read it again.
-/
import SmartblocksOs.Board.NfcController

namespace SmartblocksOs.Board

open SmartblocksOs.Foundation SmartblocksOs.System
open Prog (repeatWhile)

namespace Main

open CTWController CPortController

/-! ## Printing

The bytes of a text wait for room in the ring buffer of the UART. `%u` and `%i` take two bytes of their
argument on the AVR. -/

/-- `printf`, whose bytes wait for room in the ring buffer. The text is added to what has been printed by
a load and a store, so that a task that does not have the lock could print in between. -/
def print (text : String) : Code Unit := do
  repeatWhile (load .uartFull)
  let printed ← load .printed
  store .printed (printed ++ [text])

/-- `%i` of an `int`, which has 16 bits on the AVR, in two's complement. -/
def percentI (n : BitVec 16) : String := toString n.toInt

/-- `%u` where the argument is an `unsigned long`: an `unsigned` has 16 bits, and they are its lower
half. -/
def percentU (n : BitVec 32) : String := toString (n.setWidth 16).toNat

/-- `CHUARTController::Flush`, which waits until the last byte is on the line. -/
def flush : Code Unit := repeatWhile (load .uartBusy)

/-- The macro `LOG`; its second message is computed between the calls of `fprintf`, with the lock of the
UART held. -/
def log (msg1 : String) (msg2 : Code String) : Code Unit := do
  acquire .uart
  let milliseconds ← load .milliseconds
  print ("[" ++ percentU milliseconds ++ "]\t")
  print msg1
  let text ← msg2
  print (text ++ "\r\n")
  release .uart

/-- `System::exit_task`, after which the task runs no more. -/
def exitTask : Code Unit := Prog.switch

/-! ## Ports

`InitPortController` fills the list of the connected ports once; nothing removes an entry. -/

/-- `m_peAllPorts`. -/
def allPorts : List EPort := [.north, .east, .south, .west, .top, .bottom]

/-- The indices of `m_peConnectedPorts`. -/
def portIndices : List Nat := List.range 6

/-- `port` replaces the first `NULLPORT` among the `n` entries from `i` on; when there is none it is
dropped. -/
def addConnectedPort (port : EPort) : Nat → Nat → Code Unit
  | 0, _ => pure ()
  | n + 1, i => do
      let connected ← load (.connectedPorts i)
      if connected = .nullport then store (.connectedPorts i) port
      else addConnectedPort port n (i + 1)

/-- `InitPortController`: looks for the ports that are connected, lists them, and prints their names. The
port controller stays locked during the search, in which the multiplexer is turned to one port after the
other. -/
def initPortController : Code Unit := do
  onInstance (acquire .port)
  onInstance (selectPort .nullport)
  sleep 10
  allPorts.forM fun port => do
    let connected ← onInstance (isPortConnected port)
    if connected then addConnectedPort port 6 0 else pure ()
  onInstance (selectPort .nullport)
  onInstance (release .port)
  acquire .uart
  print "Connected Ports: "
  portIndices.forM fun i => do
    let port ← load (.connectedPorts i)
    if port ≠ .nullport then do
      let port ← load (.connectedPorts i)
      let name ← onInstance (pure (getPortString port))
      print (name ++ " ")
    else pure ()
  print "\r\n"
  release .uart
  exitTask

/-! ## LEDs

The tasks that show something on the faces. -/

/-- `InitLEDs`. Each use of an entry of the list reads it anew. -/
def initLEDs : Code Unit := do
  portIndices.forM fun i => do
    let port ← load (.connectedPorts i)
    if port ≠ .nullport then do
      let port ← load (.connectedPorts i)
      CLEDController.init port
      let port ← load (.connectedPorts i)
      CLEDController.setAllModesOnFace port .pwm
      let port ← load (.connectedPorts i)
      CLEDController.setAllColorsOnFace port 0x01 0x01 0x00
    else pure ()
  log "LED ok" (pure "")
  sleep 10
  exitTask

/-- `RED`. -/
def red : Byte := 0

/-- `GREEN`. -/
def green : Byte := 1

/-- `setFaceColor`. The `switch` on the color has no default, so that other values change nothing. -/
def setFaceColor (color val : Byte) (port : EPort) : Code Unit := do
  (match color.toNat with
    | 0 => CLEDController.setAllColorsOnFace port val 0x00 0x00
    | 1 => CLEDController.setAllColorsOnFace port 0x00 val 0x00
    | 2 => CLEDController.setAllColorsOnFace port 0x00 0x00 val
    | 3 => CLEDController.setAllColorsOnFace port val val val
    | _ => pure ())
  sleep 1

/-- One round of `VariateLEDsOnPort`: the brightness goes up and down in steps of one, and every step is a
call for the whole face. -/
def variateLEDsOnPort (port : EPort) : Code Unit := do
  let color := port.code % 4
  (List.range 0x30).forM fun i => setFaceColor color (BitVec.ofNat 8 i) port
  (List.range 0x30).forM fun i => setFaceColor color (BitVec.ofNat 8 (0x30 - i)) port
  CLEDController.setAllColorsOnFace port 0x01 0x01 0x02
  sleep 1000

/-! ## Accelerometer and uptime

The sum in the conversion of the temperature is one of 16-bit integers. -/

/-- `MPU6050_ADDR`. -/
def mpu6050Addr : Byte := 0x68

/-- `ACCEL_XOUT_H`, the first of the eight registers that are read. -/
def accelXoutH : Byte := 0x3B

/-- `int16_t((punMPU6050Res[i] << 8) | punMPU6050Res[i + 1])`: two registers, the high byte first. -/
def reading (res : List Byte) (i : Nat) : BitVec 16 := res.getD i 0 ++ res.getD (i + 1) 0

/-- The temperature, `(reading + 12412) / 340`, which is computed in an `int` and so in 16 bits. -/
def temperature (res : List Byte) : BitVec 16 := (reading res 6 + 12412).sdiv 340

/-- One round of `TestAccelerometer`. The eight registers from `ACCEL_XOUT_H` on are read in one
reception, under the TW lock alone, since the accelerometer is not behind the multiplexer. -/
def testAccelerometer : Code Unit := do
  acquire .tw
  beginTransmission mpu6050Addr
  let _ ← writeByte accelXoutH
  let _ ← endTransmission false
  let _ ← readFrom mpu6050Addr 8 true
  let res ← (List.range 8).foldlM (fun (res : List Byte) _ => do
    let b ← readByte
    pure (res ++ [b])) []
  release .tw
  acquire .uart
  let milliseconds ← load .milliseconds
  print ("Acc[x] = " ++ percentI (reading res 0) ++ "\tAcc[y] = " ++ percentI (reading res 2)
    ++ "\tAcc[z] = " ++ percentI (reading res 4) ++ "\tTemp = " ++ percentI (temperature res)
    ++ "\tTime = " ++ percentU milliseconds ++ "\r\n")
  flush
  release .uart
  sleep 1000

/-- One round of `dummy5`, which prints the uptime once a second. -/
def dummy5 : Code Unit := do
  acquire .uart
  let milliseconds ← load .milliseconds
  print ("Uptime = " ++ percentU milliseconds ++ "\r\n")
  release .uart
  sleep 1000

/-! ## NFC

Each round of the loops has a `CNFCController` of its own; `io i` is what its buffer holds. -/

/-- `InitNFC`. `io` is what the buffer of each controller holds before. -/
def initNFC (io : Nat → Buffer) : Code Unit := do
  portIndices.forM fun i => do
    let port ← load (.connectedPorts i)
    if port ≠ .nullport then do
      onInstance (acquire .port)
      let port ← load (.connectedPorts i)
      onInstance (selectPort port)
      let port ← load (.connectedPorts i)
      onInstance (enablePort port)
      onInstance (release .port)
      let port ← load (.connectedPorts i)
      let (success, _) ← CNFCController.init port (io i)
      if success then do
        let port ← load (.connectedPorts i)
        CLEDController.setAllColorsOnFace port 0x01 0x01 0x02
      else pure ()
    else pure ()
  log "NFC ok" (pure "")
  sleep 10
  exitTask

/-- `punOutboundBuffer`, the letters `TM`. -/
def outboundMessage : Buffer := assign (fun _ => 0) [0x54, 0x4D]

/-- `NFCTransmit`. After each message the bits of all ports are cleared in the interrupt vector, and the
color of the face tells whether the message has been answered. -/
def nfcTransmit (io : Nat → Buffer) : Code Unit := do
  log "send msg TM" (pure "")
  portIndices.forM fun i => do
    let port ← load (.connectedPorts i)
    if port ≠ .nullport then do
      let port ← load (.connectedPorts i)
      let (success, _) ← CNFCController.send port outboundMessage 2 (io i)
      onInstance (acquire .port)
      let port ← load (.connectedPorts i)
      onInstance (selectPort port)
      onInstance (clearInterrupts 0xFF)
      onInstance (release .port)
      let port ← load (.connectedPorts i)
      if success then setFaceColor green 0x04 port else setFaceColor red 0x04 port
    else pure ()

/-- What `NFCReact` does for the entry `i` of the list of ports. -/
def reactOn (irqs : Byte) (io inbound : Nat → Buffer) (i : Nat) : Code Unit := do
  let port ← load (.connectedPorts i)
  if port ≠ .nullport ∧ (irqs >>> port.code) &&& 0x01 ≠ 0 then do
    let (received, message, _) ← CNFCController.receive port (inbound i) 2 (io i)
    if received then do
      setFaceColor green 0x04 port
      log "msg on " (onInstance (pure (getPortString port)))
      acquire .uart
      print ("(msg is " ++ String.ofList [Char.ofNat (message 0).toNat, Char.ofNat (message 1).toNat]
        ++ ")\r\n")
      release .uart
    else pure ()
  else pure ()

/-- `NFCReact`. What the interrupts say is taken once, and then each port is asked for. -/
def nfcReact (io inbound : Nat → Buffer) : Code Unit := do
  onInstance (acquire .port)
  onInstance synchronizeInterrupts
  if ← onInstance hasInterrupts then do
    let irqs ← onInstance getInterrupts
    onInstance (clearInterrupts irqs)
    onInstance (release .port)
    acquire .uart
    print ("irq " ++ toString irqs.toNat ++ "\r\n")
    release .uart
    portIndices.forM fun i => reactOn irqs io inbound i
  else onInstance (release .port)

/-! ## What the operations do to what is known

An operation starts with no lock and ends with none. In between it knows what the functions of the
controllers leave it, which none of the tasks makes use of. -/

section

variable {c : List Callee} {k : Know} {long : Prop} {held : List Lock} {α : Type}

/-- Printing waits for the UART and stores the text. -/
theorem print_spec (hg : Guarded c held k) (huart : .uart ∈ held) (text : String) :
    (discipline long).Triple held (Knows c k) (print text) held fun _ => Knows c k := by
  refine (repeatWhile_spec hg (load_spec hg _)).seq fun _ => ?_
  exact (load_spec hg _).seq fun _ => store_spec hg _ rfl rfl huart

/-- The clock is read and the line printed under the lock; `msg2` is evaluated there too. -/
theorem log_spec (r : Bool) (msg1 : String) {msg2 : Code String}
    (h : (discipline long).Triple [.uart] (Knows c (.idle r)) msg2 [.uart]
      fun _ => Knows c (.idle r)) :
    (discipline long).Triple [] (Knows c (.idle r)) (log msg1 msg2) []
      fun _ => Knows c (.idle r) := by
  have hg := Guarded.idle c [.uart] r
  refine (acquire_spec (Guarded.idle c [] r) (by simp)).seq fun _ => (load_spec hg _).seq fun _ => ?_
  refine (print_spec hg (by simp) _).seq fun _ => (print_spec hg (by simp) _).seq fun _ => ?_
  exact h.seq fun _ => (print_spec hg (by simp) _).seq fun _ => release_spec hg

/-- A method that touches nothing, called while text is being printed. -/
theorem onInstance_pure_spec (r : Bool) (a : α) :
    (discipline long).Triple [.uart] (Knows c (.idle r)) (onInstance (pure a)) [.uart]
      fun _ => Knows c (.idle r) :=
  (initOnFirstUse_spec r (by decide)).seq fun _ => .pure fun _ _ hs => hs.forget (idle_le r)

/-- A text printed under the lock of the UART. -/
theorem printLocked_spec {rest : Code α} {Q : α → Assn Val Event} (r : Bool) (text : String)
    (h : (discipline long).Triple [] (Knows c (.idle r)) rest held Q) :
    (discipline long).Triple [] (Knows c (.idle r)) (do
      acquire .uart
      print text
      release .uart
      rest) held Q := by
  have hg := Guarded.idle c [.uart] r
  refine (acquire_spec (Guarded.idle c [] r) (by simp)).seq fun _ => ?_
  exact (print_spec hg (by simp) _).seq fun _ => (release_spec hg).seq fun _ => h

/-- The list is searched for a free entry and stored to, with the port controller locked. -/
theorem addConnectedPort_spec (hg : Guarded c held k) (hport : .port ∈ held) (port : EPort)
    (n i : Nat) :
    (discipline long).Triple held (Knows c k) (addConnectedPort port n i) held
      fun _ => Knows c k := by
  induction n generalizing i with
  | zero => exact .pure fun _ _ => id
  | succ n ih =>
      refine (load_spec hg _).seq fun _ => .ite (fun _ => ?_) fun _ => ih (i + 1)
      exact store_spec hg _ rfl rfl hport

end

section

variable {long : Prop} (r : Bool)

/-- The ports are tested with the port controller locked, and the list is printed afterwards. -/
theorem initPortController_spec :
    (discipline long).Triple [] (Knows [] (.idle r)) initPortController []
      fun _ => Knows [] (.idle r) := by
  have hport := Guarded.idle [] [.port] true
  have huart := Guarded.idle [] [.uart] true
  refine (lockInstance_spec r).seq fun _ => ?_
  refine (onInstance_spec hport rfl (selectPort_forgets hport (by simp) _)).seq fun _ => ?_
  refine (sleep_spec hport 10).seq fun _ => ?_
  -- every port is tested, and those that answer are put into the list
  refine (Discipline.Triple.forM fun port _ => ?_).seq fun _ => ?_
  · apply (onInstance_spec hport rfl (isPortConnected_spec true port)).seq
    intro connected
    refine .ite (fun _ => ?_) fun _ => .pure fun _ _ => id
    exact addConnectedPort_spec hport (by simp) port 6 0
  refine (onInstance_spec hport rfl (selectPort_forgets hport (by simp) _)).seq fun _ => ?_
  refine (unlockInstance_spec hport rfl).seq fun _ => ?_
  refine (acquire_spec (Guarded.idle [] [] true) (by simp)).seq fun _ => ?_
  refine (print_spec huart (by simp) _).seq fun _ => ?_
  refine (Discipline.Triple.forM fun i _ => ?_).seq fun _ => ?_
  -- the names of the ports found are printed
  · refine (load_spec huart _).seq fun port => .ite (fun _ => ?_) fun _ => .pure fun _ _ => id
    refine (load_spec huart _).seq fun port => (onInstance_pure_spec true _).seq fun name => ?_
    exact print_spec huart (by simp) _
  refine (print_spec huart (by simp) _).seq fun _ => (release_spec huart).seq fun _ => ?_
  exact forget_spec (switch_spec (Guarded.idle [] [] true)) (idle_le r)

theorem initLEDs_spec :
    (discipline long).Triple [] (Knows [] (.idle r)) initLEDs [] fun _ => Knows [] (.idle r) := by
  have hg := Guarded.idle [] [] r
  refine (Discipline.Triple.forM fun i _ => ?_).seq fun _ => ?_
  · refine (load_spec hg _).seq fun port => .ite (fun _ => ?_) fun _ => .pure fun _ _ => id
    apply (load_spec hg _).seq
    intro port
    refine (forget_spec (CLEDController.init_spec (SameFace.nil port) r) (idle_le r)).seq fun _ => ?_
    apply (load_spec hg _).seq
    intro port
    refine (forget_spec (CLEDController.setAllModesOnFace_spec (SameFace.nil port) r _)
      (idle_le r)).seq fun _ => ?_
    apply (load_spec hg _).seq
    intro port
    exact forget_spec (CLEDController.setAllColorsOnFace_spec (SameFace.nil port) r _ _ _) (idle_le r)
  refine (log_spec r _ (.pure fun _ _ => id)).seq fun _ => ?_
  exact (sleep_spec hg 10).seq fun _ => switch_spec hg

/-- One of the four colors, or none of them. -/
theorem setFaceColor_spec (color val : Byte) (port : EPort) :
    (discipline long).Triple [] (Knows [] (.idle r)) (setFaceColor color val port) []
      fun _ => Knows [] (.idle r) := by
  have hcolors : ∀ red green blue, (discipline long).Triple [] (Knows [] (.idle r))
      (CLEDController.setAllColorsOnFace port red green blue) [] fun _ => Knows [] (.idle r) :=
    fun red green blue => forget_spec
      (CLEDController.setAllColorsOnFace_spec (SameFace.nil port) r red green blue) (idle_le r)
  refine Discipline.Triple.seq (R := Knows [] (.idle r)) ?_ fun _ => sleep_spec (Guarded.idle [] [] r) 1
  split
  · exact hcolors _ _ _
  · exact hcolors _ _ _
  · exact hcolors _ _ _
  · exact hcolors _ _ _
  · exact .pure fun _ _ => id

/-- Two ramps, up and down, and a dim color at the end. -/
theorem variateLEDsOnPort_spec (port : EPort) :
    (discipline long).Triple [] (Knows [] (.idle r)) (variateLEDsOnPort port) []
      fun _ => Knows [] (.idle r) := by
  refine (Discipline.Triple.forM fun i _ => setFaceColor_spec r _ _ port).seq fun _ => ?_
  refine (Discipline.Triple.forM fun i _ => setFaceColor_spec r _ _ port).seq fun _ => ?_
  refine (forget_spec (CLEDController.setAllColorsOnFace_spec (SameFace.nil port) r _ _ _)
    (idle_le r)).seq fun _ => ?_
  exact sleep_spec (Guarded.idle [] [] r) 1000

/-- `TestAccelerometer` is called for no face, so its transactions need no port. -/
theorem testAccelerometer_spec :
    (discipline long).Triple [] (Knows [] (.idle r)) testAccelerometer []
      fun _ => Knows [] (.idle r) := by
  have hg := Guarded.idle [] [] r
  have huart := Guarded.idle [] [.uart] r
  have hin : ∀ k, Guarded [] [.tw] k :=
    fun k => ⟨fun _ => Or.inl rfl, fun _ => by simp, fun _ => by simp⟩
  refine (acquire_spec hg (by simp)).seq fun _ => ?_
  refine Discipline.Triple.pre (P := Knows [] ⟨true, false, false, r⟩) ?_ fun g s hs =>
    ⟨hs.callers, fun _ => nofun, nofun, nofun, hs.ready⟩
  -- the accelerometer is on the board, so that no face has to be selected
  refine (beginTransmission_spec (hin _) (by simp) _).seq fun _ => ?_
  refine (writeByte_keeps (hin _) (by simp) rfl _).seq fun _ => ?_
  refine (endTransmission_spec (hin _) (by simp) rfl rfl _).seq fun _ => ?_
  refine (readFrom_spec (hin _) (by simp) rfl _ _ _).seq fun _ => ?_
  refine (Discipline.Triple.foldlM (I := fun _ => Knows [] ⟨true, false, true, r⟩) 0
    fun _ res _ i _ => ?_).seq fun res => ?_
  · exact (readByte_spec (hin _) (by simp) rfl).seq fun b => .pure fun _ _ => id
  refine (forget_spec (k := .idle r) (releaseTw_spec (hin _)) ⟨nofun, nofun, nofun, id⟩).seq
    fun _ => ?_
  refine (acquire_spec hg (by simp)).seq fun _ => (load_spec huart _).seq fun _ => ?_
  refine (print_spec huart (by simp) _).seq fun _ => ?_
  refine (repeatWhile_spec huart (load_spec huart _)).seq fun _ => ?_
  exact (release_spec huart).seq fun _ => sleep_spec hg 1000

theorem dummy5_spec :
    (discipline long).Triple [] (Knows [] (.idle r)) dummy5 [] fun _ => Knows [] (.idle r) := by
  have hg := Guarded.idle [] [] r
  have huart := Guarded.idle [] [.uart] r
  refine (acquire_spec hg (by simp)).seq fun _ => (load_spec huart _).seq fun _ => ?_
  refine (print_spec huart (by simp) _).seq fun _ => (release_spec huart).seq fun _ => ?_
  exact sleep_spec hg 1000

/-- The entry is read anew before each of the calls, with the port controller locked or without. -/
theorem initNFC_spec (io : Nat → Buffer) :
    (discipline long).Triple [] (Knows [] (.idle r)) (initNFC io) []
      fun _ => Knows [] (.idle r) := by
  have hg := Guarded.idle [] [] r
  have hport := Guarded.idle [] [.port] true
  refine (Discipline.Triple.forM fun i _ => ?_).seq fun _ => ?_
  · refine (load_spec hg _).seq fun port => .ite (fun _ => ?_) fun _ => .pure fun _ _ => id
    -- the reset line is released under the lock of the port controller
    refine (lockInstance_spec r).seq fun _ => (load_spec hport _).seq fun port => ?_
    refine (onInstance_spec hport rfl (selectPort_forgets hport (by simp) _)).seq fun _ => ?_
    apply (load_spec hport _).seq
    intro port
    refine (onInstance_spec hport rfl (updateOutput_spec true (by decide) _)).seq fun _ => ?_
    refine (forget_spec (unlockInstance_spec hport rfl) (idle_le r)).seq fun _ => ?_
    apply (load_spec hg _).seq
    intro port
    -- and the PN532 is woken without it
    apply (CNFCController.init_spec (SameFace.nil port) r (io i)).seq
    rintro ⟨success, _⟩
    refine .ite (fun _ => ?_) fun _ => .pure fun _ _ => id
    apply (load_spec hg _).seq
    intro port
    exact forget_spec (CLEDController.setAllColorsOnFace_spec (SameFace.nil port) r _ _ _) (idle_le r)
  refine (log_spec r _ (.pure fun _ _ => id)).seq fun _ => ?_
  exact (sleep_spec hg 10).seq fun _ => switch_spec hg

/-- The face is colored by what `Send` has returned. -/
theorem nfcTransmit_spec (io : Nat → Buffer) :
    (discipline long).Triple [] (Knows [] (.idle r)) (nfcTransmit io) []
      fun _ => Knows [] (.idle r) := by
  have hg := Guarded.idle [] [] r
  have hport := Guarded.idle [] [.port] true
  refine (log_spec r _ (.pure fun _ _ => id)).seq fun _ => Discipline.Triple.forM fun i _ => ?_
  refine (load_spec hg _).seq fun port => .ite (fun _ => ?_) fun _ => .pure fun _ _ => id
  apply (load_spec hg _).seq
  intro port
  -- the message has two bytes
  refine (CNFCController.send_spec (SameFace.nil port) r _ _ _ (Or.inr (by decide))).seq
    fun ⟨success, _⟩ => ?_
  refine (lockInstance_spec r).seq fun _ => (load_spec hport _).seq fun port => ?_
  refine (onInstance_spec hport rfl (selectPort_forgets hport (by simp) _)).seq fun _ => ?_
  refine (onInstance_spec hport rfl (clearInterrupts_spec hport (by simp) _)).seq fun _ => ?_
  refine (forget_spec (unlockInstance_spec hport rfl) (idle_le r)).seq fun _ => ?_
  refine (load_spec hg _).seq fun port => .ite (fun _ => ?_) fun _ => ?_
  · exact setFaceColor_spec r _ _ port
  · exact setFaceColor_spec r _ _ port

/-- One round of the loop: what the neighbour at this face has sent is received and printed. -/
theorem reactOn_spec (irqs : Byte) (io inbound : Nat → Buffer) (i : Nat) :
    (discipline long).Triple [] (Knows [] (.idle r)) (reactOn irqs io inbound i) []
      fun _ => Knows [] (.idle r) := by
  have hg := Guarded.idle [] [] r
  refine (load_spec hg _).seq fun port => .ite (fun _ => ?_) fun _ => .pure fun _ _ => id
  refine (CNFCController.receive_spec (SameFace.nil port) r _ _ _).seq
    fun ⟨received, message, _⟩ => ?_
  refine .ite (fun _ => ?_) fun _ => .pure fun _ _ => id
  refine (setFaceColor_spec r _ _ port).seq fun _ => ?_
  refine (log_spec r _ (onInstance_pure_spec r _)).seq fun _ => ?_
  have huart := Guarded.idle [] [.uart] r
  refine (acquire_spec hg (by simp)).seq fun _ => ?_
  exact (print_spec huart (by simp) _).seq fun _ => release_spec huart

/-- Both branches of `NFCReact` release the port controller. -/
theorem nfcReact_spec (io inbound : Nat → Buffer) :
    (discipline long).Triple [] (Knows [] (.idle r)) (nfcReact io inbound) []
      fun _ => Knows [] (.idle r) := by
  have hport := Guarded.idle [] [.port] true
  refine (lockInstance_spec r).seq fun _ => ?_
  refine (onInstance_spec hport rfl (synchronizeInterrupts_spec true)).seq fun _ => ?_
  refine Discipline.Triple.seq (R := Knows [] (.idle true)) (onInstance_spec hport rfl
    ((load_spec hport _).seq fun _ => .pure fun _ _ => id)) fun some => .ite (fun _ => ?_) fun _ => ?_
  · apply (onInstance_spec hport rfl (load_spec hport _)).seq
    intro irqs
    refine (onInstance_spec hport rfl (clearInterrupts_spec hport (by simp) _)).seq fun _ => ?_
    refine (forget_spec (unlockInstance_spec hport rfl) (idle_le r)).seq fun _ => ?_
    exact printLocked_spec r _ (Discipline.Triple.forM fun i _ => reactOn_spec r irqs io inbound i)
  · exact forget_spec (unlockInstance_spec hport rfl) (idle_le r)

end

end Main

end SmartblocksOs.Board
