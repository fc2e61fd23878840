/-
# SmartblocksOs.Board.TwController -- `CTWController` and the TWI handler

A transaction is started by its caller and carried out by the handler while the caller waits. The
handler runs for no other task, so its steps are taken where the caller waits for them; what the bus
answers is in the status register, which may hold anything. The notes `handler` let a reader see that
the multiplexer stays where it is until the transaction is over.

The public functions are the C++ ones line by line: the buffers are variables with an index, the lengths
are bytes that wrap, and a busy wait is a `repeatWhile`. Two loops of the source, the copies between the
buffers, are recursive functions that also return the bytes they have copied, for the notes. Behind the
definitions stand the specifications in terms of the discipline of the board: what a task knows of the two
buffers before a call and after it, with the other tasks taking steps in between.
-/
import SmartblocksOs.Board.State

namespace SmartblocksOs.Board

open SmartblocksOs.Foundation SmartblocksOs.System
open Prog (repeatWhile)

/-! ## Constants of `tw_controller.h` and of the AVR

The bits of `TWCR` are commands to the hardware when they are written; which combinations of them the code
writes can be seen in the handler below. -/

/-- `TW_BUFFER_LENGTH`. -/
def twBufferLength : Nat := 64

/-- `TW_STATE_READY`: no transaction is going on. -/
def twStateReady : Byte := 0

/-- `TW_STATE_MRX`: bytes are received. -/
def twStateMrx : Byte := 1

/-- `TW_STATE_MTX`: bytes are sent. -/
def twStateMtx : Byte := 2

/-- `TW_BUS_NO_ERROR`. -/
def twBusNoError : Byte := 0xFF

/-- The bits of `TWCR`. Writing a one to `TWINT` lets the hardware go on. -/
def twint : Byte := 0x80

/-- `TWEA`: the next byte that is received is acknowledged. -/
def twea : Byte := 0x40

/-- `TWSTA`: a START is sent. -/
def twsta : Byte := 0x20

/-- `TWSTO`: a STOP is sent. -/
def twsto : Byte := 0x10

/-- `TWEN`: the hardware is enabled. -/
def twen : Byte := 0x04

/-- `TWIE`: so is its interrupt. -/
def twie : Byte := 0x01

/-- The last bit of an address: the slave sends. -/
def twRead : Byte := 1

/-- The slave receives. -/
def twWrite : Byte := 0

/-- `TW_STATUS`, as far as the handler tells its values apart. -/
inductive TwStatus where
  | start | repStart | mtSlaAck | mtDataAck | mtSlaNack | mtDataNack | arbLost
  | mrDataAck | mrSlaAck | mrDataNack | mrSlaNack | busError | other
  deriving DecidableEq, Repr

/-- What the status register says; its last three bits are none of it. -/
def twStatus (twsr : Byte) : TwStatus :=
  match (twsr &&& 0xF8).toNat with
  | 0x08 => .start
  | 0x10 => .repStart
  | 0x18 => .mtSlaAck
  | 0x28 => .mtDataAck
  | 0x20 => .mtSlaNack
  | 0x30 => .mtDataNack
  | 0x38 => .arbLost
  | 0x50 => .mrDataAck
  | 0x40 => .mrSlaAck
  | 0x58 => .mrDataNack
  | 0x48 => .mrSlaNack
  | 0x00 => .busError
  | _ => .other

namespace CTWController

/-! ## `ISR(TWI_vect)`

The cases of the `switch` that share their code are functions of their own here. Each case ends with a
command to the hardware, or with the end of the transaction. -/

/-- The stop condition at the end of a transaction. The bit `TWSTO` is cleared by the hardware when the
STOP has been sent, which is waited for before `unState` is set to READY. -/
def stop : Code Unit := do
  store .twcr (twen ||| twie ||| twea ||| twint ||| twsto)
  repeatWhile do
    let twcr ← load .twcr
    pure (twcr &&& twsto != 0)
  store .state twStateReady

/-- The end of a transaction that is to be followed by a repeated start: the START is sent ahead, with the
interrupt disabled, so that the handler is not entered for it. -/
def keepBus : Code Unit := do
  store .inRepStart true
  store .twcr (twint ||| twsta ||| twen)
  store .state twStateReady

/-- The end of a transaction in which all has gone well, after the last byte sent or received. Which of
the two it is has been decided by the caller. -/
def stopOrKeepBus : Code Unit := do
  if ← load .sendStop then stop else keepBus

/-- The byte that has been received goes to the buffer, at the index before the increment, as in
`[unMasterBufferIndex++]`. -/
def storeReceived : Code Unit := do
  let i ← load .masterBufferIndex
  store .masterBufferIndex (i + 1)
  let twdr ← load .twdr
  store (.masterBuffer i.toNat) twdr

/-- The byte to come is acknowledged unless it is the last one, which is the one whose index is
`unMasterBufferLength`. -/
def acknowledge : Code Unit := do
  let i ← load .masterBufferIndex
  let n ← load .masterBufferLength
  if i < n then store .twcr (twen ||| twie ||| twint ||| twea)
  else store .twcr (twen ||| twie ||| twint)

/-- The next byte of the buffer is sent, if there is one. The index is loaded twice, for the comparison
and for the increment. -/
def sendNext : Code Unit := do
  let i ← load .masterBufferIndex
  let n ← load .masterBufferLength
  if i < n then do
    let i ← load .masterBufferIndex
    store .masterBufferIndex (i + 1)
    let b ← load (.masterBuffer i.toNat)
    store .twdr b
    store .twcr (twen ||| twie ||| twint ||| twea)
  else stopOrKeepBus

/-- `ISR(TWI_vect)`. It runs once for each thing that the hardware has done, and dispatches on the status.
The statuses of slave mode are no cases of the source, and what is left over does nothing. -/
def twiVect : Code Unit := do
  let twsr ← load .twsr
  match twStatus twsr with
  | .start | .repStart => do
      let slarw ← load .slarw
      store .twdr slarw
      store .twcr (twen ||| twie ||| twint ||| twea)
  | .mtSlaAck | .mtDataAck => sendNext
  | .mtSlaNack => do
      store .error 0x20
      stop
  | .mtDataNack => do
      store .error 0x30
      stop
  | .arbLost => do
      store .error 0x38
      store .twcr (twen ||| twie ||| twea ||| twint)
      store .state twStateReady
  | .mrDataAck => do
      storeReceived
      acknowledge
  | .mrSlaAck => acknowledge
  | .mrDataNack => do
      storeReceived
      stopOrKeepBus
  | .mrSlaNack => stop
  | .busError => do
      store .error 0x00
      stop
  | .other => pure ()

/-! ## The methods

`EndTransmission` and `Read(address, n)` wait for the handler in a loop on `unState`. In the model the
handler is called from that loop, once in each round: it interrupts whichever task is current, but there
is something to do for it only while a transaction is going on, and then a caller waits for it. -/

/-- `while(unState != TW_STATE_READY)`, at the beginning of a transaction. No transaction is going on
then, as the caller has the lock, so that the loop is left at once. -/
def awaitReady : Code Unit :=
  repeatWhile do
    let state ← load .state
    pure (state != twStateReady)

/-- `while(unState == busy)`, with the handler's runs. In each round the handler runs once and then the
state is tested. -/
def awaitTransaction (busy : Byte) : Code Unit :=
  repeatWhile do
    let state ← load .state
    if state = busy then do
      note fun s => .handler (s .portc &&& portCtrlMask)
      twiVect
      pure true
    else pure false

/-- The start of a transaction. A START that has been sent ahead is not sent again: the address goes out
at once, and `bInRepStart` is cleared. -/
def startTransaction : Code Unit := do
  if ← load .inRepStart then do
    store .inRepStart false
    let slarw ← load .slarw
    store .twdr slarw
    store .twcr (twint ||| twea ||| twen ||| twie)
  else
    store .twcr (twint ||| twea ||| twen ||| twie ||| twsta)

/-- `BeginTransmission`: what may be in the transmit buffer is forgotten, and the address is kept for
`EndTransmission`. -/
def beginTransmission (address : Byte) : Code Unit := do
  store .transmitting true
  store .txAddress address
  store .txBufferIndex 0
  store .txBufferLength 0
  note fun _ => .beginTransmission

/-- `Write(un_data)`. It returns 1 if the byte has been queued and 0 if the buffer is full. The length is
set to the index, so that the two agree from `BeginTransmission` on. -/
def writeByte (data : Byte) : Code Byte := do
  let length ← load .txBufferLength
  if twBufferLength ≤ length.toNat then pure 0
  else do
    let i ← load .txBufferIndex
    store (.txBuffer i.toNat) data
    let i ← load .txBufferIndex
    store .txBufferIndex (i + 1)
    let i ← load .txBufferIndex
    store .txBufferLength i
    note fun _ => .accepted data
    pure 1

/-- `Write(pun_data, un_quantity)`. It returns the quantity, whether all bytes have been queued or not. -/
def writeBytes (data : Nat → Byte) (quantity : Byte) : Code Byte := do
  (List.range quantity.toNat).forM fun i => do
    let _ ← writeByte (data i)
    pure ()
  pure quantity

/-- The copy of the transmit buffer to the master buffer, from index `i` on with `n` bytes to go; the
bytes copied. -/
def copyToMaster : Nat → Nat → Code (List Byte)
  | 0, _ => pure []
  | n + 1, i => do
      let b ← load (.txBuffer i)
      store (.masterBuffer i) b
      let bytes ← copyToMaster n (i + 1)
      pure (b :: bytes)

/-- `EndTransmission`: what is in the transmit buffer goes to the handler's buffer, and the task waits
until the handler has sent it. The result tells how that has ended: 0 is success, 2 an address and 3 a
byte that was not acknowledged, 4 anything else. -/
def endTransmission (sendStop : Bool) : Code Byte := do
  let length ← load .txBufferLength
  if twBufferLength < length.toNat then pure 1
  else do
    awaitReady
    store .state twStateMtx
    store .sendStop sendStop
    store .error twBusNoError
    store .masterBufferIndex 0
    let length ← load .txBufferLength
    store .masterBufferLength length
    let bytes ← copyToMaster length.toNat 0
    note fun s => .endTransmission (s .portc &&& portCtrlMask) bytes
    let address ← load .txAddress
    store .slarw (twWrite ||| address <<< 1)
    startTransaction
    awaitTransaction twStateMtx
    store .txBufferIndex 0
    store .txBufferLength 0
    store .transmitting false
    let error ← load .error
    if error = twBusNoError then pure 0
    else if error = 0x20 then pure 2
    else if error = 0x30 then pure 3
    else pure 4

/-- The copy of the master buffer to the receive buffer, from index `i` on with `n` bytes to go; the
bytes copied. -/
def copyFromMaster : Nat → Nat → Code (List Byte)
  | 0, _ => pure []
  | n + 1, i => do
      let b ← load (.masterBuffer i)
      store (.rxBuffer i) b
      let bytes ← copyFromMaster n (i + 1)
      pure (b :: bytes)

/-- `if (unMasterBufferIndex < un_length) un_length = unMasterBufferIndex`. The index is loaded twice. -/
def receivedLength (length : Byte) : Code Byte := do
  let received ← load .masterBufferIndex
  if received < length then load .masterBufferIndex else pure length

/-- `Read(un_address, un_length, b_send_stop)`. The length is cut down to the size of the buffer, the
handler fills the master buffer, and what it has received is copied to the receive buffer. The result is
the number of bytes received. -/
def readFrom (address length : Byte) (sendStop : Bool) : Code Byte := do
  -- the check that the data will fit always passes after this
  let length := if twBufferLength < length.toNat then BitVec.ofNat 8 twBufferLength else length
  note fun s => .request (s .portc &&& portCtrlMask)
  awaitReady
  store .state twStateMrx
  store .sendStop sendStop
  store .error twBusNoError
  store .masterBufferIndex 0
  store .masterBufferLength (length - 1)
  store .slarw (twRead ||| address <<< 1)
  startTransaction
  awaitTransaction twStateMrx
  let length ← receivedLength length
  let bytes ← copyFromMaster length.toNat 0
  store .rxBufferIndex 0
  store .rxBufferLength length
  note fun _ => .received bytes
  pure length

/-- `Read()`. It returns the next byte received, and `0xFF` when there is none; there is no way to tell
the two apart from the result. -/
def readByte : Code Byte := do
  let i ← load .rxBufferIndex
  let n ← load .rxBufferLength
  if i < n then do
    let value ← load (.rxBuffer i.toNat)
    store .rxBufferIndex (i + 1)
    note fun _ => .taken value
    pure value
  else do
    note fun _ => .taken 0xFF
    pure 0xFF

/-- `Peek()`, which is `Read()` without the step of the index. -/
def peek : Code Byte := do
  let i ← load .rxBufferIndex
  let n ← load .rxBufferLength
  if i < n then load (.rxBuffer i.toNat) else pure 0xFF

/-- `Available()`. The lengths are promoted to `int` before they are subtracted, so that nothing wraps. -/
def available : Code Bool := do
  let n ← load .rxBufferLength
  let i ← load .rxBufferIndex
  pure (decide ((n.toNat : Int) - i.toNat > 0))

/-! ## What the methods do to what is known

`Knows` is what the notes of a task say of the buffers. A method that touches neither of them keeps it;
queueing, sending and receiving change it as their notes do. -/

section

variable {c : List Callee} {k : Know} {long : Prop} {held : List Lock}
  (hg : Guarded c held k) (htw : .tw ∈ held)
include hg htw

/-- The functions of the handler touch the registers, the flags of the transaction and the master buffer,
none of which the caller knows anything of. -/
theorem stop_spec : (discipline long).Triple held (Knows c k) stop held fun _ => Knows c k := by
  refine (storeShared_spec hg _ rfl rfl).seq fun _ => ?_
  refine (repeatWhile_spec hg ?_).seq fun _ => store_spec hg _ rfl rfl htw
  exact (load_spec hg _).seq fun _ => .pure fun _ _ => id

theorem stopOrKeepBus_spec :
    (discipline long).Triple held (Knows c k) stopOrKeepBus held fun _ => Knows c k := by
  refine (load_spec hg _).seq fun b => .ite (fun _ => stop_spec hg htw) fun _ => ?_
  refine (store_spec hg _ rfl rfl htw).seq fun _ => ?_
  exact (storeShared_spec hg _ rfl rfl).seq fun _ => store_spec hg _ rfl rfl htw

theorem storeReceived_spec :
    (discipline long).Triple held (Knows c k) storeReceived held fun _ => Knows c k := by
  refine (load_spec hg _).seq fun i => (store_spec hg _ rfl rfl htw).seq fun _ => ?_
  exact (load_spec hg _).seq fun b => store_spec hg _ rfl rfl htw

omit htw in
theorem acknowledge_spec :
    (discipline long).Triple held (Knows c k) acknowledge held fun _ => Knows c k := by
  refine (load_spec hg _).seq fun i => (load_spec hg _).seq fun n => ?_
  exact .ite (fun _ => storeShared_spec hg _ rfl rfl) fun _ => storeShared_spec hg _ rfl rfl

theorem sendNext_spec :
    (discipline long).Triple held (Knows c k) sendNext held fun _ => Knows c k := by
  refine (load_spec hg _).seq fun i => (load_spec hg _).seq fun n => ?_
  refine .ite (fun _ => ?_) fun _ => stopOrKeepBus_spec hg htw
  refine (load_spec hg _).seq fun i => (store_spec hg _ rfl rfl htw).seq fun _ => ?_
  refine (load_spec hg _).seq fun b => (storeShared_spec hg _ rfl rfl).seq fun _ => ?_
  exact storeShared_spec hg _ rfl rfl

/-- The handler leaves the multiplexer and the buffers of the caller alone. -/
theorem twiVect_spec :
    (discipline long).Triple held (Knows c k) twiVect held fun _ => Knows c k := by
  apply (load_spec hg _).seq
  intro twsr
  cases twStatus twsr with
  | start | repStart =>
      refine (load_spec hg _).seq fun b => (storeShared_spec hg _ rfl rfl).seq fun _ => ?_
      exact storeShared_spec hg _ rfl rfl
  | mtSlaAck | mtDataAck => exact sendNext_spec hg htw
  | mtSlaNack | mtDataNack | busError =>
      exact (store_spec hg _ rfl rfl htw).seq fun _ => stop_spec hg htw
  | arbLost =>
      refine (store_spec hg _ rfl rfl htw).seq fun _ => ?_
      exact (storeShared_spec hg _ rfl rfl).seq fun _ => store_spec hg _ rfl rfl htw
  | mrDataAck => exact (storeReceived_spec hg htw).seq fun _ => acknowledge_spec hg
  | mrSlaAck => exact acknowledge_spec hg
  | mrDataNack => exact (storeReceived_spec hg htw).seq fun _ => stopOrKeepBus_spec hg htw
  | mrSlaNack => exact stop_spec hg htw
  | other => exact .pure fun _ _ => id

omit htw in
theorem awaitReady_spec :
    (discipline long).Triple held (Knows c k) awaitReady held fun _ => Knows c k :=
  repeatWhile_spec hg ((load_spec hg _).seq fun _ => .pure fun _ _ => id)

theorem startTransaction_spec :
    (discipline long).Triple held (Knows c k) startTransaction held fun _ => Knows c k := by
  refine (load_spec hg _).seq fun b => .ite (fun _ => ?_) fun _ => storeShared_spec hg _ rfl rfl
  refine (store_spec hg _ rfl rfl htw).seq fun _ => (load_spec hg _).seq fun b => ?_
  exact (storeShared_spec hg _ rfl rfl).seq fun _ => storeShared_spec hg _ rfl rfl

omit htw in
/-- A note that changes nothing in the transaction. -/
theorem note_spec {f : Store Val → Event} (hf : ∀ x s, Transaction.next x (f s) = x)
    (hallow : ∀ g s, Knows c k g s → allow long g (f s)) :
    (discipline long).Triple held (Knows c k) (note f) held fun _ => Knows c k := by
  refine Discipline.Triple.note hg.stable fun g s hs => ⟨hallow g s hs, ?_⟩
  have hx : transaction (g ++ [f s]) = transaction g := by rw [transaction_concat, hf]
  exact ⟨by rw [hx]; exact hs.callers, hs.face, by rw [hx]; exact hs.tx, by rw [hx]; exact hs.rx,
    hs.ready⟩

variable (hface : k.face = true)
include hface

omit htw in
theorem noteSelect_spec {f : Byte → Event} (hf : ∀ x b, Transaction.next x (f b) = x)
    (hallow : ∀ g b, AtFaces (transaction g).callers b → allow long g (f b)) :
    (discipline long).Triple held (Knows c k) (note fun s => f (s .portc &&& portCtrlMask)) held
      fun _ => Knows c k := by
  refine note_spec hg (fun x s => hf x _) fun g s hs => hallow g _ ?_
  rw [hs.callers]
  exact hs.face hface

/-- While the caller waits, the handler runs for it with the multiplexer where the caller has turned it. -/
theorem awaitTransaction_spec (busy : Byte) :
    (discipline long).Triple held (Knows c k) (awaitTransaction busy) held fun _ => Knows c k := by
  refine repeatWhile_spec hg ((load_spec hg _).seq fun state => ?_)
  refine .ite (fun _ => ?_) fun _ => .pure fun _ _ => id
  refine (noteSelect_spec (f := .handler) hg hface (fun _ _ => rfl) fun _ _ h => h).seq fun _ => ?_
  exact (twiVect_spec hg htw).seq fun _ => .pure fun _ _ => id

end

/-! ### The transmit buffer

What has been queued is in the buffer, as long as the lock is held: no other task may store there. -/

section

variable {c : List Callee} {k : Know} {long : Prop} {held : List Lock}
  (hg : Guarded c held k) (htw : .tw ∈ held)
include hg htw

/-- After `BeginTransmission` nothing is queued. -/
theorem beginTransmission_empties (address : Byte) :
    (discipline long).Triple held (Knows c k) (beginTransmission address) held
      fun _ g s => Knows c { k with tx := true } g s ∧ (transaction g).queued = [] := by
  have hg' : Guarded c held { k with tx := false } := ⟨hg.face, nofun, hg.rx⟩
  refine (store_spec hg _ rfl rfl htw).seq fun _ => (store_spec hg _ rfl rfl htw).seq fun _ => ?_
  -- from here on the indices are being reset
  have hindex : OfTw fun s => s .txBufferIndex = (0 : Byte) := OfTw.eq rfl _
  have hlength : OfTw fun s => s .txBufferLength = (0 : Byte) := OfTw.eq rfl _
  refine Discipline.Triple.pre (P := fun g s => Knows c { k with tx := false } g s ∧ True) ?_
    fun g s hs => ⟨hs.forget ⟨id, nofun, id, id⟩, trivial⟩
  refine (storeWith_spec (G := fun _ s => s .txBufferIndex = (0 : Byte)) hg'
    (Discipline.Stable.log _ held fun _ => True) _ rfl rfl htw fun g s _ => ?_).seq fun _ => ?_
  · exact Function.update_self ..
  refine (storeWith_spec
    (G := fun _ s => s .txBufferIndex = (0 : Byte) ∧ s .txBufferLength = (0 : Byte)) hg'
    (hindex.stable htw) _ rfl rfl htw fun g s hs => ?_).seq fun _ => ?_
  · exact ⟨(Function.update_of_ne (by simp) _ _).trans hs, Function.update_self ..⟩
  apply Discipline.Triple.note (hg'.stable.and ((hindex.and hlength).stable htw))
  rintro g s ⟨hs, hzero⟩
  have hqueue : Queue s [] :=
    ⟨Nat.zero_le _, hzero.2, hzero.1.trans hzero.2.symm, Spells.nil _⟩
  refine ⟨trivial, .noted hs.callers hs.face (fun _ => hqueue) hs.rx hs.ready, ?_⟩
  rw [transaction_concat]
  rfl

/-- A transmission is begun: from now on the queue is known, and it is empty. -/
theorem beginTransmission_spec (address : Byte) :
    (discipline long).Triple held (Knows c k) (beginTransmission address) held
      fun _ => Knows c { k with tx := true } :=
  (beginTransmission_empties hg htw address).post fun _ _ _ hs => hs.1

/-- `Write` accepts a byte as long as fewer than 64 are queued, and puts it behind them. -/
theorem writeByte_spec (htx : k.tx = true) (data : Byte) (n : Nat) :
    (discipline long).Triple held
      (fun g s => Knows c k g s ∧ (transaction g).queued.length ≤ n) (writeByte data) held
      (fun r g s => Knows c k g s ∧ (transaction g).queued.length ≤ n + 1 ∧ (n < 64 → r = 1)) := by
  have hg' : Guarded c held { k with tx := false } := ⟨hg.face, nofun, hg.rx⟩
  apply Discipline.Triple.name (fun g => (transaction g).queued)
  intro q
  refine Discipline.Triple.fact (c := q.length ≤ n ∧ q.length ≤ 64) ?_ fun ⟨hn, hq⟩ => ?_
  · rintro g s ⟨⟨hs, hn⟩, rfl⟩
    exact ⟨hn, (hs.tx htx).length_le⟩
  have hlog : (discipline long).Stable held fun g _ => (transaction g).queued = q :=
    Discipline.Stable.log _ held _
  refine Discipline.Triple.pre (P := fun g s => Knows c k g s ∧ (transaction g).queued = q) ?_
    fun g s hs => ⟨hs.1.1, hs.2⟩
  refine Discipline.Triple.readKnown (v := BitVec.ofNat 8 q.length) (hg.stable.and hlog) ?_ ?_
  · rintro g s ⟨hs, rfl⟩
    exact (hs.tx htx).length
  refine .ite (fun hfull => .pure ?_) fun hfree => ?_
  · rintro g s ⟨hs, rfl⟩
    refine ⟨hs, Nat.le_succ_of_le hn, fun hlt => ?_⟩
    rw [BitVec.toNat_ofNat, twBufferLength] at hfull
    omega
  have hlt : q.length < 64 := by
    rw [BitVec.toNat_ofNat, twBufferLength] at hfree
    omega
  have hi : (BitVec.ofNat 8 q.length).toNat = q.length := by
    rw [BitVec.toNat_ofNat]
    omega
  refine Discipline.Triple.readKnown (v := BitVec.ofNat 8 q.length) (hg.stable.and hlog) ?_ ?_
  · rintro g s ⟨hs, rfl⟩
    exact (hs.tx htx).index.trans (hs.tx htx).length
  -- from here on the buffer is ahead of the log
  refine Discipline.Triple.pre (P := fun g s => Knows c { k with tx := false } g s ∧
    ((transaction g).queued = q ∧ Queue s q)) ?_ ?_
  swap
  · rintro g s ⟨hs, rfl⟩
    exact ⟨hs.forget ⟨id, nofun, id, id⟩, rfl, hs.tx htx⟩
  rw [hi]
  have hdata : OfTw fun s => s (.txBuffer q.length) = data := OfTw.eq rfl _
  refine (storeWith_spec
    (G := fun g s => (transaction g).queued = q ∧ Queue s q ∧ s (.txBuffer q.length) = data) hg'
    (hlog.and ((OfTw.queue q).stable htw)) _ rfl rfl htw ?_).seq fun _ => ?_
  · rintro g s ⟨hlog, hs⟩
    exact ⟨hlog, hs.storeBehind data, Function.update_self ..⟩
  refine Discipline.Triple.readKnown (v := BitVec.ofNat 8 q.length)
    (hg'.stable.and (hlog.and (((OfTw.queue q).and hdata).stable htw))) ?_ ?_
  · rintro g s ⟨-, -, hs, -⟩
    exact hs.index.trans hs.length
  have hindex : OfTw fun s => s .txBufferIndex = BitVec.ofNat 8 (q.length + 1) := OfTw.eq rfl _
  refine (storeWith_spec
    (G := fun g s => (transaction g).queued = q ∧ TxBytes s (q ++ [data]) ∧
      s .txBufferIndex = BitVec.ofNat 8 (q.length + 1)) hg'
    (hlog.and (((OfTw.queue q).and hdata).stable htw)) _ rfl rfl htw ?_).seq fun _ => ?_
  · rintro g s ⟨hlog, hs, hdata⟩
    refine ⟨hlog, (Spells.concat hs.bytes hdata).congr fun i _ => ?_, ?_⟩
    · exact Function.update_of_ne (by simp) _ _
    · exact (Function.update_self ..).trans (BitVec.ofNat_add ..).symm
  refine Discipline.Triple.readKnown (v := BitVec.ofNat 8 (q.length + 1))
    (hg'.stable.and (hlog.and (((OfTw.txBytes _).and hindex).stable htw))) ?_ ?_
  · rintro g s ⟨-, -, -, hs⟩
    exact hs
  refine (storeWith_spec
    (G := fun g s => (transaction g).queued = q ∧ Queue s (q ++ [data])) hg'
    (hlog.and (((OfTw.txBytes _).and hindex).stable htw)) _ rfl rfl htw ?_).seq fun _ => ?_
  · rintro g s ⟨hlog, hbytes, hindex⟩
    exact ⟨hlog, .storeLength hlt hbytes hindex⟩
  refine (Discipline.Triple.note (Q := fun g s => Knows c k g s ∧
    (transaction g).queued.length ≤ n + 1)
    (hg'.stable.and (hlog.and ((OfTw.queue _).stable htw))) ?_).seq fun _ => ?_
  · rintro g s ⟨hs, rfl, hqueue⟩
    refine ⟨trivial, .noted hs.callers hs.face (fun _ => hqueue) hs.rx hs.ready, ?_⟩
    rw [transaction_concat]
    simp only [Transaction.next, List.length_append, List.length_singleton]
    omega
  · exact .pure fun g s hs => ⟨hs.1, hs.2, fun _ => rfl⟩

/-- The bytes copied are those queued. -/
theorem copyToMaster_spec (htx : k.tx = true) (q : List Byte) (n i : Nat) (hi : i + n = q.length) :
    (discipline long).Triple held (fun g s => Knows c k g s ∧ (transaction g).queued = q)
      (copyToMaster n i) held
      fun bytes g s => (Knows c k g s ∧ (transaction g).queued = q) ∧ bytes = q.drop i := by
  have hlog : (discipline long).Stable held fun g _ => (transaction g).queued = q :=
    Discipline.Stable.log _ held _
  induction n generalizing i with
  | zero =>
      refine .pure fun g s hs => ⟨hs, ?_⟩
      rw [List.drop_of_length_le (by omega)]
  | succ n ih =>
      have hlt : i < q.length := by omega
      refine Discipline.Triple.readKnown (v := q[i]) (hg.stable.and hlog) ?_ ?_
      · rintro g s ⟨hs, rfl⟩
        exact (hs.tx htx).bytes i _ (List.getElem?_eq_getElem hlt)
      refine (storeLog_spec hg _ _ rfl rfl htw).seq fun _ => ?_
      refine (ih (i + 1) (by omega)).bind fun bytes => .pure ?_
      rintro g s ⟨hs, rfl⟩
      exact ⟨hs, (List.drop_eq_getElem_cons hlt).symm⟩

/-- `EndTransmission` takes from the transmit buffer what was queued, with the multiplexer at the
faces of the callers. -/
theorem endTransmission_spec (hface : k.face = true) (htx : k.tx = true) (sendStop : Bool) :
    (discipline long).Triple held (Knows c k) (endTransmission sendStop) held
      fun _ => Knows c { k with tx := false } := by
  have hg' : Guarded c held { k with tx := false } := ⟨hg.face, nofun, hg.rx⟩
  refine (load_spec hg _).seq fun _ => .ite (fun _ => .pure fun g s hs => ?_) fun _ => ?_
  · exact hs.forget ⟨id, nofun, id, id⟩
  refine (awaitReady_spec hg).seq fun _ => (store_spec hg _ rfl rfl htw).seq fun _ => ?_
  refine (store_spec hg _ rfl rfl htw).seq fun _ => (store_spec hg _ rfl rfl htw).seq fun _ => ?_
  refine (store_spec hg _ rfl rfl htw).seq fun _ => ?_
  -- The bytes queued are named: what is copied is compared with them.
  apply Discipline.Triple.name (fun g => (transaction g).queued)
  intro q
  have hlog : (discipline long).Stable held fun g _ => (transaction g).queued = q :=
    Discipline.Stable.log _ held _
  refine Discipline.Triple.fact (c := q.length ≤ 64) ?_ fun hq => ?_
  · rintro g s ⟨hs, rfl⟩
    exact (hs.tx htx).length_le
  refine Discipline.Triple.readKnown (v := BitVec.ofNat 8 q.length) (hg.stable.and hlog) ?_ ?_
  · rintro g s ⟨hs, rfl⟩
    exact (hs.tx htx).length
  refine (storeLog_spec hg _ _ rfl rfl htw).seq fun _ => ?_
  have hn : (BitVec.ofNat 8 q.length).toNat = q.length := by
    rw [BitVec.toNat_ofNat]
    omega
  rw [hn]
  -- the copy hands over exactly these
  apply (copyToMaster_spec hg htw htx q q.length 0 (Nat.zero_add _)).bind
  intro bytes
  refine (Discipline.Triple.note (Q := Knows c { k with tx := false })
    ((hg.stable.and hlog).and (Discipline.Stable.log _ held _)) ?_).seq fun _ => ?_
  · rintro g s ⟨⟨hs, rfl⟩, rfl⟩
    refine ⟨⟨?_, rfl⟩, .noted hs.callers hs.face nofun hs.rx hs.ready⟩
    rw [hs.callers]
    exact hs.face hface
  -- from here on the queue is gone
  refine (load_spec hg' _).seq fun address => (store_spec hg' _ rfl rfl htw).seq fun _ => ?_
  refine (startTransaction_spec hg' htw).seq fun _ => ?_
  refine (awaitTransaction_spec hg' htw hface _).seq fun _ => ?_
  refine (store_spec hg' _ rfl rfl htw).seq fun _ => (store_spec hg' _ rfl rfl htw).seq fun _ => ?_
  refine (store_spec hg' _ rfl rfl htw).seq fun _ => (load_spec hg' _).seq fun error => ?_
  refine .ite (fun _ => .pure fun _ _ => id) fun _ => ?_
  refine .ite (fun _ => .pure fun _ _ => id) fun _ => ?_
  exact .ite (fun _ => .pure fun _ _ => id) fun _ => .pure fun _ _ => id

/-! ### The receive buffer

`Read(address, n)` forgets what was left unread and knows the new bytes when it has copied all of them. -/

/-- The bytes copied stand in the receive buffer behind those copied before. -/
theorem copyFromMaster_spec (hrx : k.rx = false) (n i : Nat) (pre : List Byte)
    (hi : pre.length = i) :
    (discipline long).Triple held (fun g s => Knows c k g s ∧ RxBytes s 0 pre)
      (copyFromMaster n i) held
      fun bytes g s => Knows c k g s ∧ RxBytes s 0 (pre ++ bytes) ∧ bytes.length = n := by
  -- On the bytes that are left; `pre` are the ones in the receive buffer already.
  induction n generalizing i pre with
  | zero =>
      refine .pure fun g s hs => ⟨hs.1, ?_, rfl⟩
      rw [List.append_nil]
      exact hs.2
  | succ n ih =>
      have hstable : (discipline long).Stable held fun _ s => RxBytes s 0 pre :=
        (OfTw.rxBytes 0 pre).stable htw
      refine (Discipline.Triple.read (Q := fun _ g s => Knows c k g s ∧ RxBytes s 0 pre)
        (hg.stable.and hstable) fun _ _ => id).bind fun b => ?_
      refine (storeWith_spec (x := .rxBuffer i) (G := fun _ s => RxBytes s 0 (pre ++ [b])) hg
        hstable _ hrx rfl htw fun g s hs => ?_).seq fun _ => ?_
      · apply Spells.concat
        · refine Spells.congr hs fun j hj => Function.update_of_ne ?_ _ _
          simp only [ne_eq, Var.rxBuffer.injEq]
          omega
        · rw [Nat.zero_add, hi]
          exact Function.update_self ..
      refine (ih (i + 1) (pre ++ [b]) (by simp [hi])).bind fun bytes => .pure ?_
      rintro g s ⟨hs, hbytes, hlen⟩
      refine ⟨hs, ?_, by simp [hlen]⟩
      rw [List.append_assoc] at hbytes
      exact hbytes

/-- What is returned fits into the buffer, whatever the hardware has left in the index. -/
theorem receivedLength_spec (n : Byte) (hn : n.toNat ≤ 64) :
    (discipline long).Triple held (Knows c k) (receivedLength n) held
      fun m g s => Knows c k g s ∧ m.toNat ≤ 64 := by
  refine (Discipline.Triple.read (Q := fun v g s => Knows c k g s ∧ s .masterBufferIndex = v)
    hg.stable fun _ _ hs => ⟨hs, rfl⟩).bind fun received => ?_
  have hreceived : OfTw fun s => s .masterBufferIndex = received := OfTw.eq rfl _
  refine .ite (fun hlt => ?_) fun _ => .pure fun _ _ hs => ⟨hs.1, hn⟩
  -- the second load gives what the first one gave
  apply Discipline.Triple.read (hg.stable.and (hreceived.stable htw))
  rintro g s ⟨hs, rfl⟩
  exact ⟨hs, Nat.le_trans (Nat.le_of_lt hlt) hn⟩

/-- `Read(address, n)` starts with the multiplexer at the faces of the callers, and leaves what it
has received in the receive buffer. -/
theorem readFrom_spec (hface : k.face = true) (address length : Byte) (sendStop : Bool) :
    (discipline long).Triple held (Knows c k) (readFrom address length sendStop) held
      fun _ => Knows c { k with rx := true } := by
  have hg' : Guarded c held { k with rx := false } := ⟨hg.face, hg.tx, nofun⟩
  unfold readFrom
  generalize hlen : (if twBufferLength < length.toNat then BitVec.ofNat 8 twBufferLength
    else length) = n
  -- `un_length` has been clamped
  have hn : n.toNat ≤ 64 := by
    rw [← hlen]
    split
    · exact Nat.le_refl 64
    · rename_i h
      exact Nat.le_of_not_lt h
  refine (noteSelect_spec (f := .request) hg hface (fun _ _ => rfl) fun _ _ h => h).seq fun _ => ?_
  refine (awaitReady_spec hg).seq fun _ => (store_spec hg _ rfl rfl htw).seq fun _ => ?_
  refine (store_spec hg _ rfl rfl htw).seq fun _ => (store_spec hg _ rfl rfl htw).seq fun _ => ?_
  refine (store_spec hg _ rfl rfl htw).seq fun _ => (store_spec hg _ rfl rfl htw).seq fun _ => ?_
  refine (store_spec hg _ rfl rfl htw).seq fun _ => (startTransaction_spec hg htw).seq fun _ => ?_
  refine (awaitTransaction_spec hg htw hface _).seq fun _ => ?_
  -- what has come is copied, and its number is within the buffer
  apply (receivedLength_spec hg htw n hn).bind
  intro m
  apply Discipline.Triple.fact (fun _ _ hs => hs.2)
  intro hm
  refine ((copyFromMaster_spec (c := c) hg' htw rfl m.toNat 0 [] rfl).pre fun g s hs => ?_).bind
    fun bytes => ?_
  · exact ⟨hs.1.forget ⟨id, id, nofun, id⟩, Spells.nil _⟩
  rw [List.nil_append]
  apply Discipline.Triple.fact (fun _ _ hs => hs.2.2)
  intro hbytes
  have hindex : OfTw fun s => s .rxBufferIndex = (0 : Byte) := OfTw.eq rfl _
  have hstable := OfTw.rxBytes 0 bytes
  refine Discipline.Triple.pre (P := fun g s => Knows c { k with rx := false } g s ∧
    RxBytes s 0 bytes) ?_ fun g s hs => ⟨hs.1, hs.2.1⟩
  refine (storeWith_spec
    (G := fun _ s => RxBytes s 0 bytes ∧ s .rxBufferIndex = (0 : Byte)) hg' (hstable.stable htw)
    _ rfl rfl htw fun g s hs => ?_).seq fun _ => ?_
  · exact ⟨Spells.congr hs fun i _ => Function.update_of_ne (by simp) _ _,
      Function.update_self ..⟩
  -- with the index at 0 and the length set, these bytes are the unread ones
  refine (storeWith_spec (G := fun _ s => Unread s bytes) hg' ((hstable.and hindex).stable htw)
    _ rfl rfl htw ?_).seq fun _ => ?_
  · rintro g s ⟨hs, hzero⟩
    have hzero' : Function.update s .rxBufferLength m .rxBufferIndex = (0 : Byte) :=
      (Function.update_of_ne (by simp) _ _).trans hzero
    refine ⟨hbytes ▸ hm, ?_, ?_⟩
    · rw [hzero', Function.update_self, hbytes]
      exact (Nat.zero_add _).symm
    · rw [hzero']
      exact Spells.congr hs fun i _ => Function.update_of_ne (by simp) _ _
  refine (Discipline.Triple.note (Q := Knows c { k with rx := true })
    (hg'.stable.and ((OfTw.unread bytes).stable htw)) ?_).seq fun _ => .pure fun _ _ => id
  rintro g s ⟨hs, hunread⟩
  exact ⟨trivial, .noted hs.callers hs.face hs.tx (fun _ => hunread) hs.ready⟩

/-- `Read()` returns the next of the bytes received. -/
theorem readByte_spec (hrx : k.rx = true) :
    (discipline long).Triple held (Knows c k) readByte held fun _ => Knows c k := by
  have hg' : Guarded c held { k with rx := false } := ⟨hg.face, hg.tx, nofun⟩
  apply Discipline.Triple.name (fun g => (transaction g).pending)
  intro r
  have hlog : (discipline long).Stable held fun g _ => (transaction g).pending = r :=
    Discipline.Stable.log _ held _
  refine Discipline.Triple.pre (P := fun g s => Knows c { k with rx := false } g s ∧
    ((transaction g).pending = r ∧ Unread s r)) ?_ ?_
  swap
  · rintro g s ⟨hs, rfl⟩
    exact ⟨hs.forget ⟨id, id, nofun, id⟩, rfl, hs.rx hrx⟩
  -- the note `taken` brings the log up to the buffer again
  have htaken : ∀ b r', (∀ g, (transaction g).pending = r →
        b = (transaction g).pending.headD 0xFF ∧ (transaction g).pending.tail = r') →
      (discipline long).Triple held (fun g s => Knows c { k with rx := false } g s ∧
        ((transaction g).pending = r ∧ Unread s r')) (note fun _ => .taken b) held
        fun _ => Knows c k := by
    intro b r' hb
    apply Discipline.Triple.note (hg'.stable.and (hlog.and ((OfTw.unread r').stable htw)))
    rintro g s ⟨hs, hpending, hunread⟩
    refine ⟨(hb g hpending).1, .noted hs.callers hs.face hs.tx (fun _ => ?_) hs.ready⟩
    show Unread s (transaction g).pending.tail
    rw [(hb g hpending).2]
    exact hunread
  refine (Discipline.Triple.read (Q := fun i g s => Knows c { k with rx := false } g s ∧
    ((transaction g).pending = r ∧ Unread s r ∧ s .rxBufferIndex = i))
    (hg'.stable.and (hlog.and ((OfTw.unread r).stable htw))) ?_).bind fun i => ?_
  · rintro g s ⟨hs, hlog, hunread⟩
    exact ⟨hs, hlog, hunread, rfl⟩
  have hindex : OfTw fun s => s .rxBufferIndex = i := OfTw.eq rfl _
  have hstable : (discipline long).Stable held fun g s => (transaction g).pending = r ∧
      Unread s r ∧ s .rxBufferIndex = i :=
    hlog.and (((OfTw.unread r).and hindex).stable htw)
  refine (Discipline.Triple.read (Q := fun (n : Byte) g s => (Knows c { k with rx := false } g s ∧
    ((transaction g).pending = r ∧ Unread s r ∧ s .rxBufferIndex = i)) ∧
      n.toNat = i.toNat + r.length) (hg'.stable.and hstable) ?_).bind fun n => ?_
  · rintro g s ⟨hs, hlog, hunread, rfl⟩
    exact ⟨⟨hs, hlog, hunread, rfl⟩, hunread.length⟩
  apply Discipline.Triple.fact (fun _ _ hs => hs.2)
  intro hn
  refine Discipline.Triple.pre (P := fun g s => Knows c { k with rx := false } g s ∧
    ((transaction g).pending = r ∧ Unread s r ∧ s .rxBufferIndex = i)) ?_ fun _ _ hs => hs.1
  refine .ite (fun hlt => ?_) fun hge => ?_
  · cases r with
    | nil =>
        rw [BitVec.lt_def] at hlt
        simp only [List.length_nil] at hn
        omega
    | cons b r' =>
        refine Discipline.Triple.readKnown (v := b) (hg'.stable.and hstable) ?_ ?_
        · rintro g s ⟨-, -, hunread, rfl⟩
          exact hunread.bytes 0 b rfl
        refine (storeWith_spec
          (G := fun g s => (transaction g).pending = b :: r' ∧ Unread s r') hg' hstable _ rfl rfl
          htw ?_).seq fun _ => ?_
        · rintro g s ⟨hlog, hunread, rfl⟩
          exact ⟨hlog, hunread.storeIndex⟩
        refine (htaken b r' fun g hpending => ?_).seq fun _ => .pure fun _ _ => id
        rw [hpending]
        exact ⟨rfl, rfl⟩
  · have hr : r = [] := by
      rw [BitVec.lt_def] at hge
      exact List.eq_nil_of_length_eq_zero (by omega)
    subst hr
    refine ((htaken 0xFF [] fun g hpending => ?_).pre fun g s hs => ?_).seq fun _ =>
      .pure fun _ _ => id
    · rw [hpending]
      exact ⟨rfl, rfl⟩
    · exact ⟨hs.1, hs.2.1, hs.2.2.1⟩

end

end CTWController

end SmartblocksOs.Board
