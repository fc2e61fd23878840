/-
# SmartblocksOs.Board.Footprints -- what the functions of the controllers do at all

Which variables the functions of `CTWController` and of `CPortController::instance()` load and store, and
what they note, without regard to what they are for. Each function is gone through once here, for as small
a footprint as is of use. That a function keeps its transaction going, leaves the lock of another
controller alone, or stays within the buffers is read off these footprints elsewhere.
-/
import SmartblocksOs.Foundation.Footprint
import SmartblocksOs.Board.PortController

namespace SmartblocksOs.Board

open SmartblocksOs.Foundation SmartblocksOs.System

/-! ## Variables and notes

The sets that the footprints are made of: which variables belong to a transaction, which to the handler,
and which notes they make. -/

/-- The variables of `CTWController` and the registers of its hardware. -/
def ofBus (x : Var) : Bool :=
  match x with
  | .twsr | .twdr | .twcr => true
  | x => guard x == some .tw

/-- The variables that a transaction changes once it has been set up, and the registers. -/
def ofTransaction : Var → Bool
  | .state | .inRepStart | .error | .masterBuffer _ | .masterBufferIndex | .twsr | .twdr | .twcr => true
  | _ => false

theorem ofBus_of_transaction {x : Var} (hx : ofTransaction x = true) : ofBus x = true := by
  cases x with
  | state | inRepStart | error | masterBuffer _ | masterBufferIndex | twsr | twdr | twcr => rfl
  | _ => exact absurd hx (by simp [ofTransaction])

/-- The notes of a transaction under way. -/
def IsHandler (e : Event) : Prop := ∃ select, e = .handler select

/-- No controller function is entered or left. -/
def Event.uncalled : Event → Bool
  | .called _ | .returned => false
  | .beginTransmission | .accepted _ | .refused | .endTransmission _ _ | .request _ | .handler _
  | .received _ | .taken _ => true

/-- Nothing is received, and nothing that was received is taken. -/
def Event.outgoing : Event → Bool
  | .received _ | .taken _ => false
  | .called _ | .returned | .beginTransmission | .accepted _ | .refused | .endTransmission _ _
  | .request _ | .handler _ => true

/-- The variables that a function of the controllers may store: what has been printed and the list of the
connected ports belong to `main.cpp`. -/
def ofControllers : Var → Bool
  | .printed | .connectedPorts _ => false
  | _ => true

theorem ofControllers_of_bus {x : Var} (hx : ofBus x = true) : ofControllers x = true := by
  cases x with
  | printed | connectedPorts _ => exact absurd hx (by simp [ofBus, guard])
  | _ => rfl

/-- The face for which a function is entered. -/
def Event.face? : Event → Option EPort
  | .called f => f.face?
  | _ => none

/-- Only an entry names a face. -/
theorem Event.face?_of_uncalled {e : Event} (he : e.uncalled = true) : e.face? = none := by
  cases e with
  | called p => cases he
  | _ => rfl

/-! ## Footprints

One for each purpose. Those of the functions that call each other are ordered by inclusion, so that a
function needs to be gone through for the smallest only. -/

/-- A method of `CTWController`: it keeps to the variables of the controller and takes no lock. -/
abbrev busPrint : Footprint Var Lock Event :=
  ⟨{x | ofBus x = true}, {x | ofBus x = true}, ∅, {e | e.uncalled = true}⟩

/-- A method that sends. -/
abbrev sendPrint : Footprint Var Lock Event :=
  ⟨{x | ofBus x = true}, {x | ofBus x = true}, ∅, {e | e.uncalled = true ∧ e.outgoing = true}⟩

/-- A transaction under way. -/
abbrev transactionPrint : Footprint Var Lock Event :=
  ⟨{x | ofBus x = true}, {x | ofTransaction x = true}, ∅, {e | IsHandler e}⟩

/-- The variables of the bytes that are to be sent. -/
def ofQueue : Var → Bool
  | .transmitting | .txAddress | .txBuffer _ | .txBufferIndex | .txBufferLength => true
  | _ => false

/-- Bytes are queued. -/
abbrev queuePrint : Footprint Var Lock Event :=
  ⟨{x | ofQueue x = true}, {x | ofQueue x = true}, ∅, {e | e.uncalled = true ∧ e.outgoing = true}⟩

/-- What `CPortController::Init()` does between its lines: it is called for no face. -/
abbrev initPrint : Footprint Var Lock Event :=
  ⟨Set.univ, {x | ofControllers x = true ∧ x ≠ .initRequired}, {.tw},
    {e | e.uncalled = true ∧ e.outgoing = true}⟩

/-- What `CPortController::instance()` does. -/
abbrev instancePrint : Footprint Var Lock Event :=
  ⟨Set.univ, {x | ofControllers x = true}, {.port, .tw}, {e | e.face? = none ∧ e.outgoing = true}⟩

/-- A transmission is within what any function of `CTWController` may do. -/
theorem sendPrint_le : sendPrint ≤ busPrint :=
  ⟨subset_rfl, subset_rfl, subset_rfl, fun _ he => he.1⟩

/-- What the handler does is part of a transmission. -/
theorem transactionPrint_le : transactionPrint ≤ sendPrint := by
  refine ⟨subset_rfl, fun x => ofBus_of_transaction, subset_rfl, ?_⟩
  rintro _ ⟨select, rfl⟩
  exact ⟨rfl, rfl⟩

/-- Queueing bytes is part of a transmission. -/
theorem queuePrint_le : queuePrint ≤ sendPrint := by
  have hqueue : ∀ x, ofQueue x = true → ofBus x = true := by
    intro x hx
    cases x with
    | transmitting | txAddress | txBuffer _ | txBufferIndex | txBufferLength => rfl
    | _ => exact absurd hx (by simp [ofQueue])
  exact ⟨hqueue, hqueue, subset_rfl, subset_rfl⟩

/-- The initialisation of the port controller makes one transmission. -/
theorem sendPrint_le_init : sendPrint ≤ initPrint := by
  refine ⟨Set.subset_univ _, fun x hx => ⟨ofControllers_of_bus hx, ?_⟩, Set.empty_subset _, subset_rfl⟩
  rintro rfl
  exact absurd hx (by decide)

/-- The first use of the port controller may be the one that initialises it. -/
theorem initPrint_le : initPrint ≤ instancePrint :=
  ⟨subset_rfl, fun _ hx => hx.1, by simp, fun _ he => ⟨Event.face?_of_uncalled he.1, he.2⟩⟩

/-- The program is one of the controller's methods. -/
abbrev OnBus {α : Type} (p : Code α) : Prop := p.Leaves busPrint

/-! ## `CTWController` -/

namespace CTWController

/-! ### The handler

It runs inside the wait of its caller, so that its footprint is part of that of every transaction. -/

/-- The functions of `CTWController`, each with the variables it reads and those it stores. -/
theorem stop_leaves : stop.Leaves ⟨{.twcr}, {.twcr, .state}, ∅, ∅⟩ :=
  .bind (.write (by simp) _) fun _ =>
    .bind (.repeatWhile (.bind (.read rfl) fun _ => .ret _)) fun _ => .write (by simp) _

/-- It reads whether a STOP was asked for. -/
theorem stopOrKeepBus_leaves :
    stopOrKeepBus.Leaves ⟨{.sendStop, .twcr}, {.inRepStart, .twcr, .state}, ∅, ∅⟩ := by
  apply Prog.Leaves.bind (.read (by simp))
  intro sendStop
  apply Prog.Leaves.ite
  · exact stop_leaves.mono (by simp)
  · exact .bind (.write (by simp) _) fun _ => .bind (.write (by simp) _) fun _ => .write (by simp) _

/-- The byte goes from the register to the master buffer. -/
theorem storeReceived_leaves :
    storeReceived.Leaves
      ⟨{.masterBufferIndex, .twdr}, insert .masterBufferIndex (Set.range .masterBuffer), ∅, ∅⟩ :=
  .bind (.read (by simp)) fun _ => .bind (.write (by simp) _) fun _ =>
    .bind (.read (by simp)) fun _ => .write (by simp) _

/-- The index is compared with the length. -/
theorem acknowledge_leaves :
    acknowledge.Leaves ⟨{.masterBufferIndex, .masterBufferLength}, {.twcr}, ∅, ∅⟩ :=
  .bind (.read (by simp)) fun _ => .bind (.read (by simp)) fun _ => .ite (.write rfl _) (.write rfl _)

/-- The handler loads the byte where the index is, so all that is known of it is that it is in the buffer.
-/
theorem sendNext_leaves : sendNext.Leaves transactionPrint := by
  refine .bind (.read rfl) fun _ => .bind (.read rfl) fun _ => .ite ?_ ?_
  · exact .bind (.read rfl) fun _ => .bind (.write rfl _) fun _ => .bind (.read rfl) fun _ =>
      .bind (.write rfl _) fun _ => .write rfl _
  · exact stopOrKeepBus_leaves.mono (by simp [Set.insert_subset_iff, ofBus, guard, ofTransaction])

/-- The handler goes by the status of the hardware. -/
theorem twiVect_leaves : twiVect.Leaves transactionPrint := by
  have hstop : stop.Leaves transactionPrint :=
    stop_leaves.mono (by simp [Set.insert_subset_iff, ofBus, ofTransaction])
  have hstopOrKeepBus : stopOrKeepBus.Leaves transactionPrint :=
    stopOrKeepBus_leaves.mono (by simp [Set.insert_subset_iff, ofBus, guard, ofTransaction])
  have hstoreReceived : storeReceived.Leaves transactionPrint :=
    storeReceived_leaves.mono
      (by simp [Set.insert_subset_iff, Set.range_subset_iff, ofBus, guard, ofTransaction])
  have hacknowledge : acknowledge.Leaves transactionPrint :=
    acknowledge_leaves.mono (by simp [Set.insert_subset_iff, ofBus, guard, ofTransaction])
  apply Prog.Leaves.bind (.read rfl)
  intro twsr
  cases twStatus twsr with
  | start | repStart => exact .bind (.read rfl) fun _ => .bind (.write rfl _) fun _ => .write rfl _
  | mtSlaAck | mtDataAck => exact sendNext_leaves
  | mtSlaNack | mtDataNack | busError => exact .bind (.write rfl _) fun _ => hstop
  | arbLost => exact .bind (.write rfl _) fun _ => .bind (.write rfl _) fun _ => .write rfl _
  | mrDataAck => exact .bind hstoreReceived fun _ => hacknowledge
  | mrSlaAck => exact hacknowledge
  | mrDataNack => exact .bind hstoreReceived fun _ => hstopOrKeepBus
  | mrSlaNack => exact hstop
  | other => exact .ret _

/-! ### A transaction -/

theorem awaitReady_leaves : awaitReady.Leaves ⟨{.state}, ∅, ∅, ∅⟩ :=
  .repeatWhile (.bind (.read rfl) fun _ => .ret _)

/-- The address is on the bus if a START was sent ahead. -/
theorem startTransaction_leaves :
    startTransaction.Leaves ⟨{.inRepStart, .slarw}, {.inRepStart, .twdr, .twcr}, ∅, ∅⟩ :=
  .bind (.read (by simp)) fun _ => .ite
    (.bind (.write (by simp) _) fun _ => .bind (.read (by simp)) fun _ =>
      .bind (.write (by simp) _) fun _ => .write (by simp) _)
    (.write (by simp) _)

/-- The handler is run from the loop of its caller. -/
theorem awaitTransaction_leaves (busy : Byte) : (awaitTransaction busy).Leaves transactionPrint :=
  .repeatWhile <| .bind (.read rfl) fun _ => .ite
    (.bind (.note fun _ => ⟨_, rfl⟩) fun _ => .bind twiVect_leaves fun _ => .ret _)
    (.ret _)

/-- The start of a transaction, and the wait for its end. -/
def carryOut (busy : Byte) : Code Unit := do
  startTransaction
  awaitTransaction busy

/-- The transaction from its start to the end of the wait. -/
theorem carryOut_leaves (busy : Byte) : (carryOut busy).Leaves transactionPrint := by
  have hstart : startTransaction.Leaves transactionPrint :=
    startTransaction_leaves.mono (by simp [Set.insert_subset_iff, ofBus, guard, ofTransaction])
  exact .bind hstart fun _ => awaitTransaction_leaves busy

/-! ### Sending

The copies between the buffers go by an index. What they touch is bounded by the number of bytes, which
the bounds of the buffers will need. -/

/-- The queue is emptied. -/
theorem beginTransmission_leaves (address : Byte) :
    (beginTransmission address).Leaves ⟨∅, {.transmitting, .txAddress, .txBufferIndex, .txBufferLength}, ∅,
      {e | e.uncalled = true ∧ e.outgoing = true}⟩ :=
  .bind (.write (by simp) _) fun _ => .bind (.write (by simp) _) fun _ => .bind (.write (by simp) _) fun _ =>
    .bind (.write (by simp) _) fun _ => .note fun _ => ⟨rfl, rfl⟩

theorem beginTransmission_queues (address : Byte) : (beginTransmission address).Leaves queuePrint :=
  (beginTransmission_leaves address).mono (by simp [Set.insert_subset_iff, ofQueue])

theorem writeByte_leaves (data : Byte) : (writeByte data).Leaves queuePrint :=
  .bind (.read rfl) fun _ => .ite (.ret _) <|
    .bind (.read rfl) fun _ => .bind (.write rfl _) fun _ => .bind (.read rfl) fun _ =>
      .bind (.write rfl _) fun _ => .bind (.read rfl) fun _ => .bind (.write rfl _) fun _ =>
        .bind (.note fun _ => ⟨rfl, rfl⟩) fun _ => .ret _

/-- The copy goes over the first `n` bytes behind `i` of the one buffer and of the other. -/
theorem copyToMaster_leaves (n i : Nat) :
    (copyToMaster n i).Leaves
      ⟨Var.txBuffer '' Set.Iio (i + n), Var.masterBuffer '' Set.Iio (i + n), ∅, ∅⟩ := by
  induction n generalizing i with
  | zero => exact .ret _
  | succ n ih =>
      have hi : i ∈ Set.Iio (i + (n + 1)) := Nat.lt_add_of_pos_right (Nat.succ_pos n)
      have hrest := ih (i + 1)
      rw [Nat.add_assoc, Nat.add_comm 1 n] at hrest
      exact .bind (.read (Set.mem_image_of_mem _ hi)) fun _ =>
        .bind (.write (Set.mem_image_of_mem _ hi) _) fun _ => .bind hrest fun _ => .ret _

/-- `EndTransmission` queues nothing itself. -/
theorem endTransmission_leaves (sendStop : Bool) : (endTransmission sendStop).Leaves sendPrint := by
  have hready : awaitReady.Leaves sendPrint := awaitReady_leaves.mono (by simp [ofBus, guard])
  have hcopy : ∀ n, (copyToMaster n 0).Leaves sendPrint := by
    intro n
    apply (copyToMaster_leaves n 0).mono
    simp [Set.subset_def, ofBus, guard]
  have hstart : startTransaction.Leaves sendPrint :=
    startTransaction_leaves.mono (by simp [Set.insert_subset_iff, ofBus, guard])
  have hawait := (awaitTransaction_leaves twStateMtx).mono transactionPrint_le
  refine .bind (.read rfl) fun _ => .ite (.ret _) (.bind hready fun _ => ?_)
  refine .bind (.write rfl _) fun _ => .bind (.write rfl _) fun _ => .bind (.write rfl _) fun _ => ?_
  refine .bind (.write rfl _) fun _ => .bind (.read rfl) fun _ => .bind (.write rfl _) fun _ => ?_
  refine .bind (hcopy _) fun _ => .bind (.note fun _ => ⟨rfl, rfl⟩) fun _ => .bind (.read rfl) fun _ => ?_
  refine .bind (.write rfl _) fun _ => .bind hstart fun _ => .bind hawait fun _ => ?_
  refine .bind (.write rfl _) fun _ => .bind (.write rfl _) fun _ => .bind (.write rfl _) fun _ => ?_
  exact .bind (.read rfl) fun _ => .ite (.ret _) (.ite (.ret _) (.ite (.ret _) (.ret _)))

/-! ### Receiving -/

/-- So does the copy in the other direction. -/
theorem copyFromMaster_leaves (n i : Nat) :
    (copyFromMaster n i).Leaves
      ⟨Var.masterBuffer '' Set.Iio (i + n), Var.rxBuffer '' Set.Iio (i + n), ∅, ∅⟩ := by
  induction n generalizing i with
  | zero => exact .ret _
  | succ n ih =>
      have hi : i ∈ Set.Iio (i + (n + 1)) := Nat.lt_add_of_pos_right (Nat.succ_pos n)
      have hrest := ih (i + 1)
      rw [Nat.add_assoc, Nat.add_comm 1 n] at hrest
      exact .bind (.read (Set.mem_image_of_mem _ hi)) fun _ =>
        .bind (.write (Set.mem_image_of_mem _ hi) _) fun _ => .bind hrest fun _ => .ret _

theorem receivedLength_leaves (length : Byte) :
    (receivedLength length).Leaves ⟨{.masterBufferIndex}, ∅, ∅, ∅⟩ :=
  .bind (.read rfl) fun _ => .ite (.read rfl) (.ret _)

/-- `Read(address, n)` up to the end of its transaction. -/
def awaitReception (address length : Byte) (sendStop : Bool) : Code Unit := do
  note fun s => .request (s .portc &&& portCtrlMask)
  awaitReady
  store .state twStateMrx
  store .sendStop sendStop
  store .error twBusNoError
  store .masterBufferIndex 0
  store .masterBufferLength (length - 1)
  store .slarw (twRead ||| address <<< 1)
  startTransaction
  awaitTransaction twStateMrx

/-- `Read` in two parts: the transaction, and what is done with what it has brought. -/
theorem readFrom_eq (address length : Byte) (sendStop : Bool) :
    readFrom address length sendStop = (do
      let length := if twBufferLength < length.toNat then BitVec.ofNat 8 twBufferLength else length
      awaitReception address length sendStop
      let length ← receivedLength length
      let bytes ← copyFromMaster length.toNat 0
      store .rxBufferIndex 0
      store .rxBufferLength length
      note fun _ => .received bytes
      pure length) := by
  simp only [readFrom, awaitReception, bind_assoc]

/-- Nothing that has been received is noted before the transaction is over. -/
theorem awaitReception_leaves (address length : Byte) (sendStop : Bool) :
    (awaitReception address length sendStop).Leaves sendPrint := by
  have hready : awaitReady.Leaves sendPrint := awaitReady_leaves.mono (by simp [ofBus, guard])
  have hstart : startTransaction.Leaves sendPrint :=
    startTransaction_leaves.mono (by simp [Set.insert_subset_iff, ofBus, guard])
  have hawait := (awaitTransaction_leaves twStateMrx).mono transactionPrint_le
  refine .bind (.note fun _ => ⟨rfl, rfl⟩) fun _ => .bind hready fun _ => ?_
  refine .bind (.write rfl _) fun _ => .bind (.write rfl _) fun _ => .bind (.write rfl _) fun _ => ?_
  refine .bind (.write rfl _) fun _ => .bind (.write rfl _) fun _ => .bind (.write rfl _) fun _ => ?_
  exact .bind hstart fun _ => hawait

/-- `Read` keeps to the bus. -/
theorem readFrom_onBus (address length : Byte) (sendStop : Bool) :
    OnBus (readFrom address length sendStop) := by
  have hawait : ∀ length, OnBus (awaitReception address length sendStop) :=
    fun length => (awaitReception_leaves address length sendStop).mono sendPrint_le
  have hlength : ∀ length, OnBus (receivedLength length) :=
    fun length => (receivedLength_leaves length).mono (by simp [ofBus, guard])
  have hcopy : ∀ n, OnBus (copyFromMaster n 0) := by
    intro n
    apply (copyFromMaster_leaves n 0).mono
    simp [Set.subset_def, ofBus, guard]
  rw [readFrom_eq]
  refine .bind (hawait _) fun _ => .bind (hlength _) fun _ => .bind (hcopy _) fun _ => ?_
  exact .bind (.write rfl _) fun _ => .bind (.write rfl _) fun _ => .bind (.note fun _ => rfl) fun _ => .ret _

/-- `Read()` moves the index of the receive buffer, and no other variable. -/
theorem readByte_leaves :
    readByte.Leaves ⟨{x | ofBus x = true}, {.rxBufferIndex}, ∅, Set.range Event.taken⟩ :=
  .bind (.read rfl) fun _ => .bind (.read rfl) fun _ => .ite
    (.bind (.read rfl) fun _ => .bind (.write rfl _) fun _ => .bind (.note fun _ => ⟨_, rfl⟩) fun _ => .ret _)
    (.bind (.note fun _ => ⟨_, rfl⟩) fun _ => .ret _)

theorem available_leaves : available.Leaves ⟨{.rxBufferLength, .rxBufferIndex}, ∅, ∅, ∅⟩ :=
  .bind (.read (by simp)) fun _ => .bind (.read (by simp)) fun _ => .ret _

/-! ### The methods, as others see them

Whoever is not concerned with the buffers sees one footprint for all methods. -/

theorem beginTransmission_onBus (address : Byte) : OnBus (beginTransmission address) :=
  (beginTransmission_queues address).mono (queuePrint_le.trans sendPrint_le)

theorem writeByte_onBus (data : Byte) : OnBus (writeByte data) :=
  (writeByte_leaves data).mono (queuePrint_le.trans sendPrint_le)

theorem endTransmission_onBus (sendStop : Bool) : OnBus (endTransmission sendStop) :=
  (endTransmission_leaves sendStop).mono sendPrint_le

theorem readByte_onBus : OnBus readByte :=
  readByte_leaves.mono ⟨subset_rfl, by simp [ofBus, guard], subset_rfl, Set.range_subset_iff.mpr fun _ => rfl⟩

end CTWController

/-! ## `CPortController`

The controller is initialised on its first use, by whichever function happens to come first; so the
transaction of `Init()` is in the footprint of each of them. -/

section

variable {α : Type} {F : Footprint Var Lock Event}

/-- A function that notes its entry and its return. -/
theorem calledFor_leaves {f : Callee} {body : Code α} (hcalled : .called f ∈ F.notes)
    (hreturned : .returned ∈ F.notes) (h : body.Leaves F) : (calledFor f body).Leaves F :=
  .bind (.note fun _ => hcalled) fun _ => .bind h fun _ => .bind (.note fun _ => hreturned) fun _ => .ret _

end

namespace CPortController

open CTWController

variable {α : Type} {F : Footprint Var Lock Event}

theorem selectPort_leaves (target : EPort) : (selectPort target).Leaves ⟨{.portc}, {.portc}, ∅, ∅⟩ :=
  .bind (.read rfl) fun _ => .bind (.write rfl _) fun _ => .bind (.read rfl) fun _ => .write rfl _

/-- The multiplexer belongs to the port controller. -/
theorem selectPort_onInstance (target : EPort) : (selectPort target).Leaves instancePrint :=
  (selectPort_leaves target).mono ⟨Set.subset_univ _, by simp [ofControllers], by simp, by simp⟩

/-- `Init()` is called for no face. -/
theorem init_eq_calledFor : ∃ body : Code Unit, body.Leaves initPrint ∧ init = calledFor .port body := by
  refine ⟨_, ?_, rfl⟩
  have hselect := (selectPort_leaves .nullport).mono
    (show _ ≤ initPrint from ⟨Set.subset_univ _, by simp [ofControllers], by simp, by simp⟩)
  have hbegin : ∀ address, (beginTransmission address).Leaves initPrint :=
    fun address => (beginTransmission_queues address).mono (queuePrint_le.trans sendPrint_le_init)
  have hwrite : ∀ data, (writeByte data).Leaves initPrint :=
    fun data => (writeByte_leaves data).mono (queuePrint_le.trans sendPrint_le_init)
  have hend := (endTransmission_leaves true).mono sendPrint_le_init
  have hstore : ∀ {x : Var} (v : Val x), ofControllers x = true → x ≠ .initRequired →
      (store x v).Leaves initPrint := fun v hx hne => Prog.Leaves.write (And.intro hx hne) v
  refine .bind hselect fun _ => .bind (.acquire rfl) fun _ => .bind (hbegin _) fun _ => ?_
  refine .bind (hwrite _) fun _ => .bind (hwrite _) fun _ => .bind hend fun _ => ?_
  refine .bind (.release rfl) fun _ => .bind (.read trivial) fun _ => ?_
  refine .bind (hstore _ rfl (by simp)) fun _ => .bind (.read trivial) fun _ => ?_
  refine .bind (hstore _ rfl (by simp)) fun _ => .bind (.read trivial) fun _ => ?_
  exact hstore _ rfl (by simp)

/-- `Init` sends one command to the expander and sets up the interrupt. -/
theorem init_leaves : init.Leaves instancePrint := by
  obtain ⟨body, hbody, heq⟩ := init_eq_calledFor
  rw [heq]
  exact calledFor_leaves ⟨rfl, rfl⟩ ⟨rfl, rfl⟩ (hbody.mono initPrint_le)

/-- `CPortController::instance()`. -/
theorem initOnFirstUse_leaves : initOnFirstUse.Leaves instancePrint :=
  .bind (.read trivial) fun _ => .ite
    (.bind (.acquire (by simp)) fun _ => .bind init_leaves fun _ => .bind (.write rfl _) fun _ =>
      .release (by simp))
    (.ret _)

/-- A method, behind the initialisation that it may need first. -/
theorem onInstance_leaves (hF : instancePrint ≤ F) {method : Code α} (h : method.Leaves F) :
    (onInstance method).Leaves F :=
  .bind (initOnFirstUse_leaves.mono hF) fun _ => h

/-! ### The lines around a transaction with a face

The same five lines stand around every transaction of the LED and the NFC controller. -/

/-- The three lines before a transaction with a face. -/
theorem openFace_leaves (hF : instancePrint ≤ F) (port : EPort) {rest : Code α} (h : rest.Leaves F) :
    (do
      onInstance (acquire .port)
      onInstance (selectPort port)
      acquire .tw
      rest).Leaves F := by
  refine .bind (onInstance_leaves hF (.acquire (hF.2.2.1 (by simp)))) fun _ => ?_
  refine .bind (onInstance_leaves hF ((selectPort_onInstance port).mono hF)) fun _ => ?_
  exact .bind (.acquire (hF.2.2.1 (by simp))) fun _ => h

theorem closeFace_leaves (hF : instancePrint ≤ F) :
    (do
      release .tw
      onInstance (release .port) : Code Unit).Leaves F :=
  .bind (.release (hF.2.2.1 (by simp))) fun _ =>
    onInstance_leaves hF (.release (hF.2.2.1 (by simp)))

theorem closeFaceThen_leaves (hF : instancePrint ≤ F) {rest : Code α} (h : rest.Leaves F) :
    (do
      release .tw
      onInstance (release .port)
      rest).Leaves F :=
  .bind (.release (hF.2.2.1 (by simp))) fun _ =>
    .bind (onInstance_leaves hF (.release (hF.2.2.1 (by simp)))) fun _ => h

end CPortController

end SmartblocksOs.Board
