/-
# SmartblocksOs.Board.Operations -- any number of tasks at work on the board

A task runs one operation after the other: those of the two controllers with whatever arguments, and
those of `main.cpp`. `ServiceRoutine` is an operation too; the hardware calls it, which is to say that
it may run at any time. The tasks are preempted between any two loads and stores, and `lock()` and
`unlock()` are those of `SmartblocksOs.Resource.Lock`.

Every operation keeps the discipline (`Operation.body_spec`). Hence the transactions with a face reach
that face (`face_transactions_undisturbed`), and no task waits for itself (`resources_not_circular`).
-/
import SmartblocksOs.Board.Main
import SmartblocksOs.Resource.Tasks

namespace SmartblocksOs.Board

open SmartblocksOs.Foundation SmartblocksOs.System SmartblocksOs.Resource

open CNFCController (Fits)

/-! ## The operations

One constructor for each function that a task may call on its own, with all its arguments and the contents
of the local buffers that the source leaves uninitialised. -/

/-- What a task may run: the functions of the controllers, and the tasks of `main.cpp`. -/
inductive Operation where
  -- `CLEDController`
  | ledInit (port : EPort)
  | setMode (port : EPort) (led : Byte) (mode : CLEDController.EMode)
  | setBrightness (port : EPort) (led val : Byte)
  | setColor (port : EPort) (ledPack red green blue : Byte)
  | setBlinkRate (port : EPort) (period dutyCycle : Byte)
  | setAllColorsOnFace (port : EPort) (red green blue : Byte)
  | setAllModesOnFace (port : EPort) (mode : CLEDController.EMode)
  -- `CNFCController`
  | nfcInit (port : EPort) (io : Buffer)
  | send (port : EPort) (msg : Buffer) (len : Byte) (io : Buffer)
  | receive (port : EPort) (msg : Buffer) (len : Byte) (io : Buffer)
  | hasExternalField (port : EPort) (io : Buffer)
  | powerDown (port : EPort) (io : Buffer)
  | probe (port : EPort) (io : Buffer)
  | configureSAM (port : EPort) (mode : CNFCController.ESAMMode) (timeout : Byte) (useIrq : Bool)
      (io : Buffer)
  | p2pInitiatorInit (port : EPort) (io : Buffer)
  | p2pTargetInit (port : EPort) (io : Buffer)
  | p2pInitiatorTxRx (port : EPort) (tx : Buffer) (txLen : Byte) (rx : Buffer) (rxLen : Byte)
      (io : Buffer)
  | p2pTargetTxRx (port : EPort) (tx : Buffer) (txLen : Byte) (rx : Buffer) (rxLen : Byte)
      (io : Buffer)
  -- `CPortController`
  | enablePort (port : EPort)
  | disablePort (port : EPort)
  | serviceRoutine
  -- `main.cpp`
  | initPortController
  | initLEDs
  | setFaceColor (color val : Byte) (port : EPort)
  | variateLEDsOnPort (port : EPort)
  | testAccelerometer
  | dummy5
  | initNFC (io : Nat → Buffer)
  | nfcTransmit (io : Nat → Buffer)
  | nfcReact (io inbound : Nat → Buffer)
  | log (msg1 msg2 : String)

/-- The result of an operation is dropped. -/
def dropResult {α : Type} (p : Code α) : Code Unit := do
  let _ ← p
  pure ()

namespace Operation

/-- The code of an operation. -/
def body : Operation → Code Unit
  | ledInit port => CLEDController.init port
  | setMode port led mode => CLEDController.setMode port led mode
  | setBrightness port led val => CLEDController.setBrightness port led val
  | setColor port ledPack red green blue => CLEDController.setColor port ledPack red green blue
  | setBlinkRate port period dutyCycle => CLEDController.setBlinkRate port period dutyCycle
  | setAllColorsOnFace port red green blue =>
      CLEDController.setAllColorsOnFace port red green blue
  | setAllModesOnFace port mode => CLEDController.setAllModesOnFace port mode
  | nfcInit port io => dropResult (CNFCController.init port io)
  | send port msg len io => dropResult (CNFCController.send port msg len io)
  | receive port msg len io => dropResult (CNFCController.receive port msg len io)
  | hasExternalField port io => dropResult (CNFCController.hasExternalField port io)
  | powerDown port io => dropResult (CNFCController.powerDown port io)
  | probe port io => dropResult (CNFCController.probe port io)
  | configureSAM port mode timeout useIrq io =>
      dropResult (CNFCController.configureSAM port mode timeout useIrq io)
  | p2pInitiatorInit port io => dropResult (CNFCController.p2pInitiatorInit port io)
  | p2pTargetInit port io => dropResult (CNFCController.p2pTargetInit port io)
  | p2pInitiatorTxRx port tx txLen rx rxLen io =>
      dropResult (CNFCController.p2pInitiatorTxRx port tx txLen rx rxLen io)
  | p2pTargetTxRx port tx txLen rx rxLen io =>
      dropResult (CNFCController.p2pTargetTxRx port tx txLen rx rxLen io)
  | enablePort port => CPortController.onInstance (CPortController.enablePort port)
  | disablePort port => CPortController.onInstance (CPortController.disablePort port)
  | serviceRoutine => CPortController.serviceRoutine
  | initPortController => Main.initPortController
  | initLEDs => Main.initLEDs
  | setFaceColor color val port => Main.setFaceColor color val port
  | variateLEDsOnPort port => Main.variateLEDsOnPort port
  | testAccelerometer => Main.testAccelerometer
  | dummy5 => Main.dummy5
  | initNFC io => Main.initNFC io
  | nfcTransmit io => Main.nfcTransmit io
  | nfcReact io inbound => Main.nfcReact io inbound
  | log msg1 msg2 => Main.log msg1 (pure msg2)

/-- The commands of the operation fit in the transmit buffer. Those whose length does not depend on
an argument do. -/
def CommandsFit : Operation → Prop
  | send _ _ len _ => Fits (len + 2)
  | p2pInitiatorTxRx _ _ txLen _ _ _ => Fits (txLen + 2)
  | p2pTargetTxRx _ _ txLen _ _ _ => Fits (txLen + 1)
  | _ => True

/-- What a function returns is not the business of the task. -/
theorem dropResult_spec {α : Type} {long : Prop} {p : Code α} {k : Know}
    (h : (discipline long).Triple [] (Knows [] k) p [] fun _ => Knows [] k) :
    (discipline long).Triple [] (Knows [] k) (dropResult p) [] fun _ => Knows [] k :=
  h.seq fun _ => .pure fun _ _ => id

/-- Every operation keeps the discipline, and a task that has run it is where it was before. -/
theorem body_spec {long : Prop} (op : Operation) (hfits : long ∨ op.CommandsFit) :
    (discipline long).Triple [] (Knows [] (.idle false)) op.body []
      fun _ => Knows [] (.idle false) := by
  have hg : Guarded [] [] (.idle false) := Guarded.idle [] [] false
  -- the port controller may have been initialised on the way, which is forgotten
  have hled : ∀ {p : Code Unit}, ((discipline long).Triple [] (Knows [] (.idle false)) p []
      fun _ => Knows [] (.idle true)) → (discipline long).Triple [] (Knows [] (.idle false)) p []
      fun _ => Knows [] (.idle false) := fun h => forget_spec h (idle_le false)
  cases op with
  | ledInit port => exact hled (CLEDController.init_spec (SameFace.nil port) false)
  | setMode port led mode => exact hled (CLEDController.setMode_spec (SameFace.nil port) false _ _)
  | setBrightness port led val =>
      exact hled (CLEDController.setBrightness_spec (SameFace.nil port) false _ _)
  | setColor port ledPack red green blue =>
      exact hled (CLEDController.setColor_spec (SameFace.nil port) false _ _ _ _)
  | setBlinkRate port period dutyCycle =>
      exact hled (CLEDController.setBlinkRate_spec (SameFace.nil port) false _ _)
  | setAllColorsOnFace port red green blue =>
      exact hled (CLEDController.setAllColorsOnFace_spec (SameFace.nil port) false _ _ _)
  | setAllModesOnFace port mode =>
      exact hled (CLEDController.setAllModesOnFace_spec (SameFace.nil port) false _)
  | nfcInit port io => exact dropResult_spec (CNFCController.init_spec (SameFace.nil port) false _)
  | send port msg len io =>
      exact dropResult_spec (CNFCController.send_spec (SameFace.nil port) false _ _ _ hfits)
  | receive port msg len io =>
      exact dropResult_spec (CNFCController.receive_spec (SameFace.nil port) false _ _ _)
  | hasExternalField port io =>
      exact dropResult_spec (CNFCController.hasExternalField_spec (SameFace.nil port) false _)
  | powerDown port io =>
      exact dropResult_spec (CNFCController.powerDown_spec (SameFace.nil port) false _)
  | probe port io => exact dropResult_spec (CNFCController.probe_spec (SameFace.nil port) false _)
  | configureSAM port mode timeout useIrq io =>
      exact dropResult_spec (CNFCController.configureSAM_spec (SameFace.nil port) false _ _ _ _)
  | p2pInitiatorInit port io =>
      exact dropResult_spec (CNFCController.p2pInitiatorInit_spec (SameFace.nil port) false _)
  | p2pTargetInit port io =>
      exact dropResult_spec (CNFCController.p2pTargetInit_spec (SameFace.nil port) false _)
  | p2pInitiatorTxRx port tx txLen rx rxLen io =>
      exact dropResult_spec
        (CNFCController.p2pInitiatorTxRx_spec (SameFace.nil port) false _ _ _ _ _ hfits)
  | p2pTargetTxRx port tx txLen rx rxLen io =>
      exact dropResult_spec
        (CNFCController.p2pTargetTxRx_spec (SameFace.nil port) false _ _ _ _ _ hfits)
  | enablePort port | disablePort port =>
      refine hled ((CPortController.initOnFirstUse_spec false (by simp)).seq fun _ => ?_)
      exact CPortController.updateOutput_spec true (by simp) _
  | serviceRoutine => exact storeShared_spec hg _ rfl rfl
  | initPortController => exact Main.initPortController_spec false
  | initLEDs => exact Main.initLEDs_spec false
  | setFaceColor color val port => exact Main.setFaceColor_spec false color val port
  | variateLEDsOnPort port => exact Main.variateLEDsOnPort_spec false port
  | testAccelerometer => exact Main.testAccelerometer_spec false
  | dummy5 => exact Main.dummy5_spec false
  | initNFC io => exact Main.initNFC_spec false io
  | nfcTransmit io => exact Main.nfcTransmit_spec false io
  | nfcReact io inbound => exact Main.nfcReact_spec false io inbound
  | log msg1 msg2 => exact Main.log_spec false msg1 (.pure fun _ _ => id)

end Operation

/-! ## Every reachable state of the board

The bodies are programs over the variables of the board; that they keep the discipline has been shown
function by function, and is collected here. -/

section

variable {ι Op : Type} [DecidableEq ι] {c : Tasks ι Var Val Lock Event}

/-- A task between two operations is in no function. -/
def Idle (g : List Event) : Prop := (transaction g).callers = []

/-- Between its operations a task knows only that it is idle. -/
theorem knows_idle_iff (g : List Event) (s : Store Val) : Knows [] (.idle false) g s ↔ Idle g := by
  constructor
  · intro h
    exact h.callers
  · intro h
    exact ⟨h, nofun, nofun, nofun, nofun⟩

/-- Tasks that run operations whose commands fit, or whatever operations when commands may be
`long`. -/
theorem board_sound (long : Prop) (operation : Op → Operation)
    (hfits : ∀ op, long ∨ (operation op).CommandsFit)
    (h : Reachable Tasks.Initial (tasksStep (fun op => (operation op).body) volatile) c) :
    ∃ owner, Abstracts c owner ∧ Sound (discipline long) Idle (c.toWorld owner) := by
  refine Tasks.reachable_sound (fun op => ?_) (fun x hx => volatile_shared long hx) rfl
    (fun _ => id) h
  refine (Operation.body_spec (operation op) (hfits op)).mono ?_ ?_
  · intro g s hidle
    exact (knows_idle_iff g s).mpr hidle
  · intro _ g s hs
    exact (knows_idle_iff g s).mp hs

/-- Where an event saw the multiplexer: at `EndTransmission`, at `Read(address, n)`, and whenever the
handler is about to run. -/
def Event.select? : Event → Option Byte
  | .endTransmission select _ | .request select | .handler select => some select
  | _ => none

end

/-! ### Runs with two tasks

Two tasks are enough for an example of a task that waits, and the runs are short enough to be evaluated.
-/

/-- An initialised board at rest. -/
def atRest : Store Val
  | .transmitting | .sendStop | .inRepStart | .synchronizeRequired | .initRequired | .uartFull
  | .uartBusy => false
  | .connectedPorts _ => .nullport
  | .milliseconds => (0 : BitVec 32)
  | .printed => []
  | .portc | .ddrc | .pinc | .eicra | .eimsk | .twsr | .twdr | .twcr | .rxBuffer _ | .rxBufferIndex
  | .rxBufferLength | .txAddress | .txBuffer _ | .txBufferIndex | .txBufferLength | .state | .slarw
  | .error | .masterBuffer _ | .masterBufferIndex | .masterBufferLength | .interrupts
  | .lastRegisterState => (0 : Byte)

/-- Two tasks that run nothing yet. -/
def idleTasks : Tasks Bool Var Val Lock Event :=
  ⟨atRest, ⟨false, fun _ => false, fun _ => .outside, fun _ _ => false⟩, fun _ => .ret (),
    fun _ => []⟩

/-- No task has done anything yet. -/
theorem idleTasks_initial : idleTasks.Initial :=
  ⟨⟨fun _ => rfl, fun _ => rfl, fun _ _ => rfl⟩, fun _ => rfl, fun _ => rfl⟩

/-- The two tasks start an operation each and then take `n` steps each, in turns. -/
def inTurns {Op : Type} (op op' : Op) (n : Nat) : List (Action Bool Op Val) :=
  .start false op :: .start true op' :: (List.replicate n [.advance false, .advance true]).flatten

/-! ## Transactions and resources

The two results for any tasks: what the log of a task says of its transactions, and that no chain of
waiting tasks closes. -/

section

variable {ι : Type} [DecidableEq ι] {c : Tasks ι Var Val Lock Event}

/-- Whatever the tasks do: at every event of a transaction that an operation called for the face `p`
has started, the multiplexer is at `p`; what `EndTransmission` sends are the bytes queued by its task
since `BeginTransmission`; and what `Read()` returns is the next of the bytes that the last request of
its task has brought. -/
theorem face_transactions_undisturbed
    (h : Reachable Tasks.Initial (tasksStep Operation.body volatile) c) (t : ι)
    (before after : List Event) (e : Event) (hlog : c.log t = before ++ e :: after) :
    (∀ p select, p ∈ Transaction.faces (transaction before).callers → e.select? = some select →
      select = p.code) ∧
    (∀ select bytes, e = .endTransmission select bytes → bytes = (transaction before).queued) ∧
      ∀ b, e = .taken b → b = (transaction before).pending.headD 0xFF := by
  obtain ⟨owner, habs, hs⟩ := board_sound True id (fun _ => Or.inl trivial) h
  -- every note was allowed when it was made
  have hallow : allow True before e := hs.allowed t before e after hlog
  refine ⟨fun p select hp hselect => ?_, ?_, ?_⟩
  · cases e with
    | endTransmission select' bytes =>
        obtain rfl := Option.some.inj hselect
        exact hallow.1 p hp
    | request select' | handler select' =>
        obtain rfl := Option.some.inj hselect
        exact hallow p hp
    | called _ | returned | beginTransmission | accepted _ | refused | received _ | taken _ =>
        exact absurd hselect.symm (Option.some_ne_none select)
  · rintro select bytes rfl
    exact hallow.2
  · rintro b rfl
    exact hallow

/-- A task sends two bytes to the face `EAST` while another one wants to turn the multiplexer to
`SOUTH`. -/
theorem face_transactions_undisturbed_contended :
    ∃ c before, run (tasksStep Operation.body volatile) idleTasks
        (inTurns (.setBrightness .east 0 0x10) (.setBrightness .south 1 0x07) 48) = some c ∧
      c.log false = before ++ [.endTransmission 1 [0x02, 0x10]] ∧ 1 = EPort.east.code ∧
        [0x02, 0x10] = (transaction before).queued := by
  have hrun : (run (tasksStep Operation.body volatile) idleTasks
      (inTurns (.setBrightness .east 0 0x10) (.setBrightness .south 1 0x07) 48)).map
      (fun c => c.log false) = some [.called (.led .east), .beginTransmission, .accepted 0x02,
        .accepted 0x10, .endTransmission 1 [0x02, 0x10]] := by decide +kernel
  obtain ⟨c, hc, hlog⟩ := Option.map_eq_some_iff.mp hrun
  obtain ⟨hface, hsent, -⟩ := face_transactions_undisturbed ⟨_, _, idleTasks_initial, hc⟩ false
    [.called (.led .east), .beginTransmission, .accepted 0x02, .accepted 0x10] []
    (.endTransmission 1 [0x02, 0x10]) hlog
  exact ⟨c, _, hc, hlog, hface .east 1 (by decide) rfl, hsent 1 _ rfl⟩

/-- No chain of tasks, each spinning in `lock()` on a resource that the next one has taken, comes back
to where it started; a task that has returned from its operation has released all it took; and no task
is held up in `write_cmd` by a full buffer. -/
theorem resources_not_circular
    (h : Reachable Tasks.Initial
      (tasksStep (fun op : {op : Operation // op.CommandsFit} => op.1.body) volatile) c) :
    (∀ t, ¬ Relation.TransGen c.WaitsFor t t) ∧
      (∀ t l, c.code t = .ret () → ¬ Taken c.locks t l) ∧ ∀ t, .refused ∉ c.log t := by
  obtain ⟨owner, habs, hs⟩ := board_sound False Subtype.val (fun op => Or.inr op.2) h
  refine ⟨habs.not_circular hs, fun t l hcode => habs.released hs hcode l, fun t hmem => ?_⟩
  obtain ⟨before, after, hlog⟩ := List.append_of_mem hmem
  exact hs.allowed t before _ after hlog

/-- One task spins on the port controller, which the other one has locked. -/
theorem resources_not_circular_contended :
    ∃ c, run (tasksStep (fun op : {op : Operation // op.CommandsFit} => op.1.body) volatile)
        idleTasks (inTurns ⟨.setBrightness .east 0 0x10, trivial⟩
          ⟨.setBrightness .south 1 0x07, trivial⟩ 9) = some c ∧
      c.WaitsFor true false ∧ ¬ Relation.TransGen c.WaitsFor true true := by
  have hrun : (run (tasksStep (fun op : {op : Operation // op.CommandsFit} => op.1.body) volatile)
      idleTasks (inTurns ⟨.setBrightness .east 0 0x10, trivial⟩
        ⟨.setBrightness .south 1 0x07, trivial⟩ 9)).map
      (fun c => (c.locks.phase true, c.locks.holds false .port)) =
        some (.yield .port, true) := by decide +kernel
  obtain ⟨c, hc, hlocks⟩ := Option.map_eq_some_iff.mp hrun
  obtain ⟨hphase, hholds⟩ := Prod.mk.inj hlocks
  refine ⟨c, hc, ⟨.port, Or.inr (Or.inr hphase), Or.inl hholds⟩, ?_⟩
  exact (resources_not_circular ⟨_, _, idleTasks_initial, hc⟩).1 true

end

end SmartblocksOs.Board
