/-
# SmartblocksOs.Board.NfcController -- `CNFCController`

A command is queued byte by byte with both locks held, and each poll for an answer takes them anew.
When the transmit buffer is full `Write` refuses a byte and `write_cmd` tries it again and again,
with nobody to empty the buffer; a command that fits is never refused a byte (`writeCmd_spec`).

`m_punIOBuffer` belongs to an object of the class and is passed along; its size is not checked here.

The twelve functions above `write_cmd` and `read_dt` differ in the bytes they send, the number of bytes
they ask for and the check they make, and are written out one by one as in the source. For the discipline
they are all alike: they lock nothing themselves, and each exchange below them is in sections of its own
(`command_spec`).
-/
import SmartblocksOs.Board.LedController

namespace SmartblocksOs.Board

open SmartblocksOs.Foundation SmartblocksOs.System
open Prog (repeatWhile)

/-- An array of bytes that the caller hands over. -/
abbrev Buffer := Nat → Byte

/-- `memcpy(dst + start, src, n)`. -/
def memcpy (dst : Buffer) (start : Nat) (src : Buffer) (n : Nat) : Buffer :=
  fun i => if start ≤ i ∧ i < start + n then src (i - start) else dst i

/-- `dst[0] = bytes[0]; dst[1] = bytes[1]; ..`. -/
def assign (dst : Buffer) (bytes : List Byte) : Buffer := fun i => bytes.getD i (dst i)

/-- `strncmp(a, b, n) == 0`, from index `i` on. -/
def strncmpEq (a b : Buffer) : Nat → Nat → Bool
  | 0, _ => true
  | n + 1, i => a i == b i && (a i == 0 || strncmpEq a b n (i + 1))

namespace CNFCController

open CTWController CPortController

/-! ## Constants

The bytes of the protocol of the PN532, under the names they have in `nfc_controller.h`. -/

/-- `PN532_PREAMBLE`, with which a frame begins, and which is also its first start code. -/
def pn532Preamble : Byte := 0x00

/-- `PN532_STARTCODE2`. -/
def pn532Startcode2 : Byte := 0xFF

/-- `PN532_POSTAMBLE`, with which a frame ends. -/
def pn532Postamble : Byte := 0x00

/-- `PN532_I2C_ADDRESS`. -/
def pn532I2cAddress : Byte := 0x48 >>> 1

/-- `PN532_I2C_BUSY`, the status byte of a PN532 that has nothing to send yet. -/
def pn532I2cBusy : Byte := 0x00

/-- `PN532_I2C_READY`, that of one that has. -/
def pn532I2cReady : Byte := 0x01

/-- `PN532_HOSTTOPN532`, the direction of a command. -/
def pn532HostToPn532 : Byte := 0xD4

/-- `PN532_PN532TOHOST`, the direction of a reply. -/
def pn532Pn532ToHost : Byte := 0xD5

/-- `NFC_FRAME_DIRECTION_INDEX`. The indices count from behind the status byte. -/
def nfcFrameDirectionIndex : Nat := 5

/-- `NFC_FRAME_ID_INDEX`, where a reply has the code of its command plus one. -/
def nfcFrameIdIndex : Nat := 6

/-- `NFC_FRAME_STATUS_INDEX`. -/
def nfcFrameStatusIndex : Nat := 7

/-- The members of `ECommand` in use. -/
inductive ECommand where
  | getFirmwareVersion | getGeneralStatus | samConfiguration | powerDown | inJumpForDep
  | inDataExchange | tgInitAsTarget | tgGetData | tgSetData
  deriving DecidableEq, Repr

/-- The byte that stands for a command. -/
def ECommand.code : ECommand → Byte
  | .getFirmwareVersion => 0x02
  | .getGeneralStatus => 0x04
  | .samConfiguration => 0x14
  | .powerDown => 0x16
  | .inJumpForDep => 0x56
  | .inDataExchange => 0x40
  | .tgInitAsTarget => 0x8C
  | .tgGetData => 0x86
  | .tgSetData => 0x8E

/-- `ESAMMode`. -/
inductive ESAMMode where
  | normal | virtualCard | wiredCard | dualCard
  deriving DecidableEq, Repr

/-- The byte that stands for it. -/
def ESAMMode.code : ESAMMode → Byte
  | .normal => 0x01
  | .virtualCard => 0x02
  | .wiredCard => 0x03
  | .dualCard => 0x04

/-- `ack`, the frame with which a PN532 acknowledges a command. -/
def ack : List Byte := [0x00, 0x00, 0xFF, 0x00, 0xFF, 0x00]

/-- `nfcVersion`, which `Probe` compares a reply with. -/
def nfcVersion : Buffer := assign (fun _ => 0) [0x00, 0xFF, 0x06, 0xFA, 0xD5, 0x03]

/-- `default_response`, of length `default_response_len`. -/
def defaultResponse : Buffer := fun _ => 0x54

/-- The length of the answer that `Send` waits for. -/
def defaultResponseLen : Byte := 1

/-! ## Frames

`write_cmd`, `read_ack` and `read_dt`, with the locks as they stand in the source: taken for each
transaction and released behind it. The pause for a byte that is refused is inside, with both locks held.
-/

/-- One round of the loop over the command in `write_cmd`, with the rounds that a refused byte adds: `i--`
and the `i++` that follows it come to the same byte again. Both locks are held during the `sleep(1)`. -/
def queueByte (b : Byte) : Code Unit :=
  repeatWhile do
    let accepted ← writeByte b
    if accepted ≠ 0 then pure false
    else do
      note fun _ => .refused
      sleep 1
      pure true

/-- `write_cmd`: the frame around `cmd`, in one transaction. A byte that the transmit buffer refuses is
tried again until it is taken (`queueByte`); the bytes around the command are not tried again. `len` is
incremented in place, and counts the direction byte from there on. -/
def writeCmd (port : EPort) (cmd : Buffer) (len : Byte) : Code Unit := calledFor (.nfc port) do
  let len := len + 1
  sleep 2
  onInstance (acquire .port)
  onInstance (selectPort port)
  acquire .tw
  beginTransmission pn532I2cAddress
  let checksum := pn532Preamble + pn532Preamble + pn532Startcode2
  let _ ← writeByte pn532Preamble
  let _ ← writeByte pn532Preamble
  let _ ← writeByte pn532Startcode2
  let _ ← writeByte len
  let _ ← writeByte (~~~len + 1)
  let _ ← writeByte pn532HostToPn532
  let checksum := checksum + pn532HostToPn532
  -- `i < len-1` compares integers, so a `len` of 0 makes no round
  let checksum ← (List.range (len.toNat - 1)).foldlM (fun checksum i => do
    queueByte (cmd i)
    pure (checksum + cmd i)) checksum
  let _ ← writeByte (~~~checksum)
  let _ ← writeByte pn532Postamble
  let _ ← endTransmission true
  release .tw
  onInstance (release .port)
  sleep 100

/-- `read_dt`, with `attempts` left and the status byte of the last one. Each attempt is a transaction of
its own. The bytes are taken from the receive buffer in either case, into `buf` only when the PN532 was
ready. -/
def readDtFrom (port : EPort) (len : Byte) : Nat → Byte → Buffer → Code (Bool × Buffer)
  | 0, status, buf => pure (status == pn532I2cReady, buf)
  | attempts + 1, _, buf => do
      onInstance (acquire .port)
      onInstance (selectPort port)
      acquire .tw
      let _ ← readFrom pn532I2cAddress (len + 2) true
      let status ← readByte
      if status = pn532I2cReady then do
        let buf ← (List.range len.toNat).foldlM (fun (buf : Buffer) i => do
          let b ← readByte
          pure (Function.update buf i b)) buf
        release .tw
        onInstance (release .port)
        pure (true, buf)
      else do
        (List.range len.toNat).forM fun _ => do
          let _ ← readByte
          pure ()
        release .tw
        onInstance (release .port)
        sleep 10
        readDtFrom port len attempts status buf

/-- `read_dt`: up to 25 polls, with a pause of 10 ms behind each that was not answered. It returns whether
one of them was, and the buffer. -/
def readDt (port : EPort) (buf : Buffer) (len : Byte) : Code (Bool × Buffer) :=
  calledFor (.nfc port) <| readDtFrom port len 25 pn532I2cBusy buf

/-- `read_ack`, which reads into a buffer of its own, of six zeros, and compares all six bytes. What
`read_dt` returns is dropped. -/
def readAck (port : EPort) : Code Bool := do
  let (_, ackBuf) ← readDt port (fun _ => 0) 6
  pure ((List.range 6).map ackBuf == ack)

/-- `write_cmd_check_ack`. Between the two parts the locks are free, and another task may send a command
to the same PN532. -/
def writeCmdCheckAck (port : EPort) (cmd : Buffer) (len : Byte) : Code Bool := do
  writeCmd port cmd len
  readAck port

/-! ## Commands

The calls of the class. What they leave in `m_punIOBuffer` is part of their result, since the next call on
the same object starts with it. -/

/-- The direction that every reply but one is checked for: `m_punIOBuffer[5] == PN532_PN532TOHOST`. -/
def isFromPn532 (io : Buffer) : Bool := io nfcFrameDirectionIndex == pn532Pn532ToHost

/-- `m_punIOBuffer[NFC_FRAME_ID_INDEX] - 1 == command`, a comparison of integers, so that a reply code of
0 is -1 and equals no command. -/
def isReplyTo (io : Buffer) (command : ECommand) : Bool :=
  (io nfcFrameIdIndex).toNat == command.code.toNat + 1

/-- `HasExternalField`. The second byte behind the reply code tells whether there is a field. -/
def hasExternalField (port : EPort) (io : Buffer) : Code (Bool × Buffer) :=
  calledFor (.nfc port) do
    let io := assign io [ECommand.getGeneralStatus.code]
    if ← writeCmdCheckAck port io 1 then do
      let (_, io) ← readDt port io 10
      pure (isFromPn532 io && isReplyTo io .getGeneralStatus && io (nfcFrameIdIndex + 2) == 0x01, io)
    else pure (false, io)

/-- `PowerDown`. The command asks for a wake-up on an external field and on I2C, with an interrupt; of the
status the lower six bits are checked. -/
def powerDown (port : EPort) (io : Buffer) : Code (Bool × Buffer) := calledFor (.nfc port) do
  let io := assign io [ECommand.powerDown.code, 0x88, 0x01]
  if ← writeCmdCheckAck port io 3 then do
    let (_, io) ← readDt port io 8
    pure (isFromPn532 io && isReplyTo io .powerDown && io nfcFrameStatusIndex &&& 0x3F == 0x00, io)
  else pure (false, io)

/-- `Probe`. The version is compared by `strncmp`, which takes the bytes for a string. -/
def probe (port : EPort) (io : Buffer) : Code (Bool × Buffer) := calledFor (.nfc port) do
  let io := assign io [ECommand.getFirmwareVersion.code]
  if ← writeCmdCheckAck port io 1 then do
    let (_, io) ← readDt port io 12
    pure (isFromPn532 io && isReplyTo io .getFirmwareVersion && strncmpEq io nfcVersion 6 0, io)
  else pure (false, io)

/-- `ConfigureSAM`, the one function that does not check the direction of the reply. -/
def configureSAM (port : EPort) (mode : ESAMMode) (timeout : Byte) (useIrq : Bool) (io : Buffer) :
    Code (Bool × Buffer) :=
  calledFor (.nfc port) do
    let io := assign io
      [ECommand.samConfiguration.code, mode.code, timeout, if useIrq then 1 else 0]
    if ← writeCmdCheckAck port io 4 then do
      let (_, io) ← readDt port io 8
      pure (isReplyTo io .samConfiguration, io)
    else pure (false, io)

/-- `P2PInitiatorInit`. The command asks for the active mode. The reply is checked for its direction, its
code and its status, which is the byte behind the code. -/
def p2pInitiatorInit (port : EPort) (io : Buffer) : Code (Bool × Buffer) :=
  calledFor (.nfc port) do
    let io := assign io
      [ECommand.inJumpForDep.code, 0x01, 0x02, 0x01, 0x00, 0xFF, 0xFF, 0x00, 0x00]
    if ← writeCmdCheckAck port io 9 then do
      let (_, io) ← readDt port io 25
      pure (isFromPn532 io && isReplyTo io .inJumpForDep && io (nfcFrameIdIndex + 1) == 0, io)
    else pure (false, io)

/-- `P2PTargetInit`. The command has the parameters of the target, 38 bytes in all. The status of the
reply is not checked. -/
def p2pTargetInit (port : EPort) (io : Buffer) : Code (Bool × Buffer) :=
  calledFor (.nfc port) do
    let io := assign io
      [ECommand.tgInitAsTarget.code, 0x00, 0x04, 0x00, 0x12, 0x34, 0x56, 0x40, 0x01, 0xFE, 0xA2,
        0xA3, 0xA4, 0xA5, 0xA6, 0xA7, 0xC0, 0xC1, 0xC2, 0xC3, 0xC4, 0xC5, 0xC6, 0xC7, 0xFF, 0xFF,
        0xAA, 0x99, 0x88, 0x77, 0x66, 0x55, 0x44, 0x33, 0x22, 0x11, 0x00, 0x00]
    if ← writeCmdCheckAck port io 38 then do
      let (_, io) ← readDt port io 24
      pure (isFromPn532 io && isReplyTo io .tgInitAsTarget, io)
    else pure (false, io)

/-- The count of data bytes that a reply hands out: `(unRxDataLength > un_rx_buffer_len) ?
un_rx_buffer_len : unRxDataLength`. -/
def rxCount (io : Buffer) (rxLen : Byte) : Byte :=
  let rxDataLength := io 3 - 3
  if rxLen < rxDataLength then rxLen else rxDataLength

/-- `P2PInitiatorTxRx`. The results are the count returned, the buffer for the data received, and
`m_punIOBuffer`. What `read_dt` returns is dropped: the checks are made on whatever the buffer holds. -/
def p2pInitiatorTxRx (port : EPort) (tx : Buffer) (txLen : Byte) (rx : Buffer) (rxLen : Byte)
    (io : Buffer) : Code (Byte × Buffer × Buffer) :=
  calledFor (.nfc port) do
    let io := assign io [ECommand.inDataExchange.code, 0x01]
    let io := memcpy io 2 tx txLen.toNat
    if ← writeCmdCheckAck port io (txLen + 2) then do
      let (_, io) ← readDt port io 60
      if isFromPn532 io && isReplyTo io .inDataExchange && io (nfcFrameIdIndex + 1) == 0 then
        pure (rxCount io rxLen, memcpy rx 0 (fun i => io (i + 8)) (rxCount io rxLen).toNat, io)
      else pure (0, rx, io)
    else pure (0, rx, io)

/-- `P2PTargetTxRx`: gets data from the initiator, and hands `tx` to it with a second command. The count
of the first one is returned behind the second. -/
def p2pTargetTxRx (port : EPort) (tx : Buffer) (txLen : Byte) (rx : Buffer) (rxLen : Byte)
    (io : Buffer) : Code (Byte × Buffer × Buffer) :=
  calledFor (.nfc port) do
    let io := assign io [ECommand.tgGetData.code]
    if ← writeCmdCheckAck port io 1 then do
      let (_, io) ← readDt port io 60
      if isFromPn532 io && isReplyTo io .tgGetData && io (nfcFrameIdIndex + 1) == 0 then do
        let count := rxCount io rxLen
        let rx := memcpy rx 0 (fun i => io (i + 8)) count.toNat
        let io := assign io [ECommand.tgSetData.code]
        let io := memcpy io 1 tx txLen.toNat
        if ← writeCmdCheckAck port io (txLen + 1) then do
          let (_, io) ← readDt port io 26
          if isFromPn532 io && isReplyTo io .tgSetData && io (nfcFrameIdIndex + 1) == 0 then
            pure (count, rx, io)
          else pure (0, rx, io)
        else pure (0, rx, io)
      else pure (0, rx, io)
    else pure (0, rx, io)

/-! ## Exchanges

The functions that make several of these calls, one after the other, on the same object. -/

/-- `Send`. The answer that counts as success is one byte, the default response of the target; the PN532
is powered down whether it has come or not. -/
def send (port : EPort) (msg : Buffer) (len : Byte) (io : Buffer) : Code (Bool × Buffer) :=
  calledFor (.nfc port) do
    let (ready, io) ← p2pInitiatorInit port io
    let (count, inbound, io) ←
      (if ready then p2pInitiatorTxRx port msg len (fun _ => 0) defaultResponseLen io
      else pure (0, fun _ => 0, io))
    sleep 50
    let (_, io) ← powerDown port io
    sleep 100
    pure (count == defaultResponseLen && inbound 0 == defaultResponse 0, io)

/-- `Receive`, which answers with the default response. It returns whether something was received, the
message, and `m_punIOBuffer`. -/
def receive (port : EPort) (msg : Buffer) (len : Byte) (io : Buffer) :
    Code (Bool × Buffer × Buffer) :=
  calledFor (.nfc port) do
    let (ready, io) ← p2pTargetInit port io
    let (count, msg, io) ←
      (if ready then p2pTargetTxRx port defaultResponse defaultResponseLen msg len io
      else pure (0, msg, io))
    sleep 60
    let (_, io) ← powerDown port io
    sleep 100
    pure (0 < count, msg, io)

/-- The three steps that `Init` attempts, one round of its loop. Each is made only when the one before it
has succeeded. -/
def wakeUp (port : EPort) (io : Buffer) : Code (Bool × Buffer) := do
  let (probed, io) ← probe port io
  if probed then do
    let (configured, io) ← configureSAM port .normal 20 false io
    if configured then powerDown port io
    else pure (false, io)
  else pure (false, io)

/-- `Init`, with `attempts` left. -/
def initFrom (port : EPort) : Nat → Buffer → Code (Bool × Buffer)
  | 0, io => pure (false, io)
  | attempts + 1, io => do
      let (success, io) ← wakeUp port io
      if success then pure (true, io)
      else do
        sleep 100
        initFrom port attempts io

/-- `Init`: the PN532 is woken up with up to four tries. -/
def init (port : EPort) (io : Buffer) : Code (Bool × Buffer) :=
  calledFor (.nfc port) <| initFrom port 3 io

/-! ## What the operations do to what is known

Between its transactions an operation knows nothing: another task may have spoken to the same PN532 in
between. Only the length of a command matters here, for `write_cmd` would wait forever with both locks
held if it did not fit. -/

section

variable {c : List Callee} {k : Know} {long : Prop} {port : EPort}

/-- Commands may be long, or at most `n` bytes are queued. -/
def Short (long : Prop) (n : Nat) (g : List Event) : Prop :=
  long ∨ (transaction g).queued.length ≤ n

/-- `Write`, with the number of bytes queued, which only short commands need. -/
theorem writeByte_short (htx : k.tx = true) (data : Byte) (n : Nat) :
    (discipline long).Triple [.tw, .port] (fun g s => Knows c k g s ∧ Short long n g)
      (writeByte data) [.tw, .port]
      fun r g s => (Knows c k g s ∧ Short long (n + 1) g) ∧ (long ∨ (n < 64 → r = 1)) := by
  have hg : Guarded c [.tw, .port] k := Guarded.both c [] k
  rintro g s ⟨hs, hlong | hn⟩
  · refine Discipline.wp_mono ?_ (writeByte_keeps hg (by simp) htx data g s hs)
    rintro r held g s ⟨rfl, hs⟩
    exact ⟨rfl, ⟨hs, Or.inl hlong⟩, Or.inl hlong⟩
  · refine Discipline.wp_mono ?_ (writeByte_spec hg (by simp) htx data n g s ⟨hs, hn⟩)
    rintro r held g s ⟨rfl, hs, hn', hr⟩
    exact ⟨rfl, ⟨hs, Or.inr hn'⟩, Or.inr hr⟩

/-- A byte that fits is not refused. -/
theorem queueByte_spec (htx : k.tx = true) (b : Byte) (n : Nat) (hfits : long ∨ n < 64) :
    (discipline long).Triple [.tw, .port] (fun g s => Knows c k g s ∧ Short long n g)
      (queueByte b) [.tw, .port] fun _ g s => Knows c k g s ∧ Short long (n + 1) g := by
  have hg : Guarded c [.tw, .port] k := Guarded.both c [] k
  have hstable := hg.stable.and (Discipline.Stable.log (discipline long) [.tw, .port] (Short long n))
  apply Discipline.Triple.repeatWhile hstable
  refine (writeByte_short htx b n).bind fun r => .ite (fun hr => ?_) fun hr => ?_
  · exact .pure fun _ _ hs => hs.1
  -- the byte was refused
  refine Discipline.Triple.fact (c := long) ?_ fun hlong => ?_
  · rintro g s ⟨-, hlong | hr'⟩
    · exact hlong
    · rcases hfits with hlong | hn
      · exact hlong
      · exact absurd (hr' hn) (fun h => hr (h ▸ by decide))
  refine Discipline.Triple.pre (P := Knows c k) ?_ fun _ _ hs => hs.1.1
  refine (note_spec (f := fun _ => .refused) hg (fun _ _ => rfl) fun _ _ _ => hlong).seq fun _ => ?_
  refine (sleep_spec hg 1).seq fun _ => .pure fun g s hs => ?_
  exact ⟨hs, Or.inl hlong⟩

/-- A command of `len` bytes fits in the transmit buffer with the bytes around it. -/
def Fits (len : Byte) : Prop := len.toNat + 8 ≤ twBufferLength

instance (len : Byte) : Decidable (Fits len) := inferInstanceAs (Decidable (_ ≤ _))

variable (hfaces : SameFace c port) (r : Bool)
include hfaces

/-- A command that fits is sent as it was queued and is never refused a byte. -/
theorem writeCmd_spec (cmd : Buffer) (len : Byte) (hfits : long ∨ Fits len) :
    (discipline long).Triple [] (Knows c (.idle r)) (writeCmd port cmd len) []
      fun _ => Knows c (.idle r) := by
  -- the bytes queued before the one at hand are fewer than the buffer holds
  have hlen : ∀ j, j < 6 + (List.range ((len + 1).toNat - 1)).length → long ∨ j < 64 := by
    intro j hj
    apply hfits.imp_right
    intro h
    have hsucc : (len + 1).toNat ≤ len.toNat + 1 := by
      rw [BitVec.toNat_add]
      exact Nat.mod_le _ _
    rw [List.length_range] at hj
    unfold Fits twBufferLength at h
    omega
  refine calledForFace_spec rfl ((sleep_spec (Guarded.idle _ _ r) 2).seq fun _ => ?_)
  apply openFace_spec hfaces.nfc r
  refine (beginTransmission_empties (Guarded.both _ _ _) (by simp) _).seq fun _ => ?_
  refine Discipline.Triple.pre (P := fun g s =>
    Knows (.nfc port :: c) ⟨true, true, false, true⟩ g s ∧ Short long 0 g) ?_ ?_
  swap
  · rintro g s ⟨hs, hempty⟩
    exact ⟨hs, Or.inr (by rw [hempty]; exact Nat.le_refl 0)⟩
  have hbyte : ∀ b n, (discipline long).Triple [.tw, .port]
      (fun g s => Knows (.nfc port :: c) ⟨true, true, false, true⟩ g s ∧ Short long n g)
      (writeByte b) [.tw, .port] fun _ g s =>
        Knows (.nfc port :: c) ⟨true, true, false, true⟩ g s ∧ Short long (n + 1) g :=
    fun b n => (writeByte_short rfl b n).post fun _ _ _ hs => hs.1
  -- the header: six bytes, the first of them with nothing queued
  refine (hbyte _ 0).seq fun _ => (hbyte _ 1).seq fun _ => (hbyte _ 2).seq fun _ => ?_
  refine (hbyte _ 3).seq fun _ => (hbyte _ 4).seq fun _ => (hbyte _ 5).seq fun _ => ?_
  -- the command itself, where a byte that is refused would be tried again
  refine (Discipline.Triple.foldlM (I := fun n g s =>
    Knows (.nfc port :: c) ⟨true, true, false, true⟩ g s ∧ Short long n g) 6
    fun j checksum hj i _ => ?_).seq fun checksum => ?_
  · exact (queueByte_spec rfl (cmd i) j (hlen j hj)).seq fun _ => .pure fun _ _ => id
  refine (hbyte _ _).seq fun _ => (hbyte _ _).seq fun _ => ?_
  refine Discipline.Triple.pre (P := Knows (.nfc port :: c) ⟨true, true, false, true⟩) ?_
    fun _ _ hs => hs.1
  refine (endTransmission_spec (Guarded.both _ _ _) (by simp) rfl rfl _).seq fun _ => ?_
  apply closeFaceThen_spec rfl
  exact forget_spec (sleep_spec (Guarded.idle _ _ true) 100) (idle_le r)

/-- One poll after the other takes both locks and releases them. -/
theorem readDtFrom_spec (len : Byte) (attempts : Nat) (status : Byte) (buf : Buffer) :
    (discipline long).Triple [] (Knows c (.idle r)) (readDtFrom port len attempts status buf) []
      fun _ => Knows c (.idle r) := by
  induction attempts generalizing status buf with
  | zero => exact .pure fun _ _ => id
  | succ attempts ih =>
      have hread : (discipline long).Triple [.tw, .port] (Knows c ⟨true, false, true, true⟩) readByte
          [.tw, .port] fun _ => Knows c ⟨true, false, true, true⟩ :=
        readByte_spec (Guarded.both _ _ _) (by simp) rfl
      apply openFace_spec hfaces r
      refine (readFrom_spec (Guarded.both _ _ _) (by simp) rfl _ _ _).seq fun _ => ?_
      refine hread.seq fun status => .ite (fun _ => ?_) fun _ => ?_
      · refine (Discipline.Triple.foldlM (I := fun _ => Knows c ⟨true, false, true, true⟩) 0
          fun _ buf _ i _ => ?_).seq fun buf => ?_
        · exact hread.seq fun b => .pure fun _ _ => id
        · exact closeFaceThen_spec rfl (.pure fun _ _ hs => hs.forget (idle_le r))
      · refine (Discipline.Triple.forM fun i _ => ?_).seq fun _ => ?_
        · exact hread.seq fun b => .pure fun _ _ => id
        refine closeFaceThen_spec rfl ((sleep_spec (Guarded.idle _ _ true) 10).seq fun _ => ?_)
        exact (ih status buf).pre fun _ _ hs => hs.forget (idle_le r)

/-- Each poll is a section of its own. -/
theorem readDt_spec (buf : Buffer) (len : Byte) :
    (discipline long).Triple [] (Knows c (.idle r)) (readDt port buf len) []
      fun _ => Knows c (.idle r) :=
  calledForFace_spec rfl (readDtFrom_spec hfaces.nfc r len 25 pn532I2cBusy buf)

/-- The command, and the poll for its acknowledge. -/
theorem writeCmdCheckAck_spec (cmd : Buffer) (len : Byte) (hfits : long ∨ Fits len) :
    (discipline long).Triple [] (Knows c (.idle r)) (writeCmdCheckAck port cmd len) []
      fun _ => Knows c (.idle r) := by
  refine (writeCmd_spec hfaces r cmd len hfits).seq fun _ => ?_
  exact (readDt_spec hfaces r _ _).seq fun _ => .pure fun _ _ => id

/-- A command, its acknowledge, and its reply. -/
theorem command_spec {α : Type} (cmd : Buffer) (len reply : Byte) (hfits : long ∨ Fits len)
    {rest : Bool × Buffer → Code α} {other : Code α}
    (hrest : ∀ x, (discipline long).Triple [] (Knows c (.idle r)) (rest x) []
      fun _ => Knows c (.idle r))
    (hother : (discipline long).Triple [] (Knows c (.idle r)) other [] fun _ => Knows c (.idle r)) :
    (discipline long).Triple [] (Knows c (.idle r)) (do
      if ← writeCmdCheckAck port cmd len then do
        let x ← readDt port cmd reply
        rest x
      else other) [] fun _ => Knows c (.idle r) := by
  refine (writeCmdCheckAck_spec hfaces r cmd len hfits).seq fun _ => .ite (fun _ => ?_) fun _ => ?_
  · exact (readDt_spec hfaces r cmd reply).seq hrest
  · exact hother

/-- A fixed command, which fits into the transmit buffer, and its reply. So are the five that follow,
whatever their arguments are. -/
theorem hasExternalField_spec (io : Buffer) :
    (discipline long).Triple [] (Knows c (.idle r)) (hasExternalField port io) []
      fun _ => Knows c (.idle r) :=
  calledForFace_spec rfl (command_spec hfaces.nfc r _ _ _ (Or.inr (by decide))
    (fun _ => .pure fun _ _ => id) (.pure fun _ _ => id))

theorem powerDown_spec (io : Buffer) :
    (discipline long).Triple [] (Knows c (.idle r)) (powerDown port io) []
      fun _ => Knows c (.idle r) :=
  calledForFace_spec rfl (command_spec hfaces.nfc r _ _ _ (Or.inr (by decide))
    (fun _ => .pure fun _ _ => id) (.pure fun _ _ => id))

theorem probe_spec (io : Buffer) :
    (discipline long).Triple [] (Knows c (.idle r)) (probe port io) []
      fun _ => Knows c (.idle r) :=
  calledForFace_spec rfl (command_spec hfaces.nfc r _ _ _ (Or.inr (by decide))
    (fun _ => .pure fun _ _ => id) (.pure fun _ _ => id))

theorem configureSAM_spec (mode : ESAMMode) (timeout : Byte) (useIrq : Bool) (io : Buffer) :
    (discipline long).Triple [] (Knows c (.idle r)) (configureSAM port mode timeout useIrq io) []
      fun _ => Knows c (.idle r) :=
  calledForFace_spec rfl (command_spec hfaces.nfc r _ _ _ (Or.inr (by decide))
    (fun _ => .pure fun _ _ => id) (.pure fun _ _ => id))

theorem p2pInitiatorInit_spec (io : Buffer) :
    (discipline long).Triple [] (Knows c (.idle r)) (p2pInitiatorInit port io) []
      fun _ => Knows c (.idle r) :=
  calledForFace_spec rfl (command_spec hfaces.nfc r _ _ _ (Or.inr (by decide))
    (fun _ => .pure fun _ _ => id) (.pure fun _ _ => id))

theorem p2pTargetInit_spec (io : Buffer) :
    (discipline long).Triple [] (Knows c (.idle r)) (p2pTargetInit port io) []
      fun _ => Knows c (.idle r) :=
  calledForFace_spec rfl (command_spec hfaces.nfc r _ _ _ (Or.inr (by decide))
    (fun _ => .pure fun _ _ => id) (.pure fun _ _ => id))

/-- Here the payload of the caller makes the length. -/
theorem p2pInitiatorTxRx_spec (tx : Buffer) (txLen : Byte) (rx : Buffer) (rxLen : Byte) (io : Buffer)
    (hfits : long ∨ Fits (txLen + 2)) :
    (discipline long).Triple [] (Knows c (.idle r)) (p2pInitiatorTxRx port tx txLen rx rxLen io) []
      fun _ => Knows c (.idle r) := by
  refine calledForFace_spec rfl (command_spec hfaces.nfc r _ _ _ hfits (fun _ => ?_)
    (.pure fun _ _ => id))
  exact .ite (fun _ => .pure fun _ _ => id) fun _ => .pure fun _ _ => id

/-- So it does here, in the second of two exchanges. -/
theorem p2pTargetTxRx_spec (tx : Buffer) (txLen : Byte) (rx : Buffer) (rxLen : Byte) (io : Buffer)
    (hfits : long ∨ Fits (txLen + 1)) :
    (discipline long).Triple [] (Knows c (.idle r)) (p2pTargetTxRx port tx txLen rx rxLen io) []
      fun _ => Knows c (.idle r) := by
  refine calledForFace_spec rfl (command_spec hfaces.nfc r _ _ _ (Or.inr (by decide)) (fun _ => ?_)
    (.pure fun _ _ => id))
  refine .ite (fun _ => ?_) fun _ => .pure fun _ _ => id
  refine command_spec hfaces.nfc r _ _ _ hfits (fun _ => ?_) (.pure fun _ _ => id)
  exact .ite (fun _ => .pure fun _ _ => id) fun _ => .pure fun _ _ => id

/-- A session as initiator: it ends with the PN532 asleep. -/
theorem send_spec (msg : Buffer) (len : Byte) (io : Buffer) (hfits : long ∨ Fits (len + 2)) :
    (discipline long).Triple [] (Knows c (.idle r)) (send port msg len io) []
      fun _ => Knows c (.idle r) := by
  have hg := Guarded.idle (.nfc port :: c) [] r
  refine calledForFace_spec rfl ((p2pInitiatorInit_spec hfaces.nfc r io).seq fun ⟨ready, io⟩ => ?_)
  refine Discipline.Triple.seq (R := Knows (.nfc port :: c) (.idle r)) (.ite (fun _ => ?_)
    fun _ => .pure fun _ _ => id) fun ⟨count, inbound, io⟩ => ?_
  · exact p2pInitiatorTxRx_spec hfaces.nfc r _ _ _ _ _ hfits
  refine (sleep_spec hg 50).seq fun _ => (powerDown_spec hfaces.nfc r io).seq fun ⟨_, io⟩ => ?_
  exact (sleep_spec hg 100).seq fun _ => .pure fun _ _ => id

/-- A session as target, whose answer is one byte. -/
theorem receive_spec (msg : Buffer) (len : Byte) (io : Buffer) :
    (discipline long).Triple [] (Knows c (.idle r)) (receive port msg len io) []
      fun _ => Knows c (.idle r) := by
  have hg := Guarded.idle (.nfc port :: c) [] r
  refine calledForFace_spec rfl ((p2pTargetInit_spec hfaces.nfc r io).seq fun ⟨ready, io⟩ => ?_)
  refine Discipline.Triple.seq (R := Knows (.nfc port :: c) (.idle r)) (.ite (fun _ => ?_)
    fun _ => .pure fun _ _ => id) fun ⟨count, msg, io⟩ => ?_
  · exact p2pTargetTxRx_spec hfaces.nfc r _ _ _ _ _ (Or.inr (by decide))
  refine (sleep_spec hg 60).seq fun _ => (powerDown_spec hfaces.nfc r io).seq fun ⟨_, io⟩ => ?_
  exact (sleep_spec hg 100).seq fun _ => .pure fun _ _ => id

theorem wakeUp_spec (io : Buffer) :
    (discipline long).Triple [] (Knows c (.idle r)) (wakeUp port io) []
      fun _ => Knows c (.idle r) := by
  apply (probe_spec hfaces r io).seq
  rintro ⟨probed, io⟩
  refine .ite (fun _ => ?_) fun _ => .pure fun _ _ => id
  apply (configureSAM_spec hfaces r .normal 20 false io).seq
  rintro ⟨configured, io⟩
  exact .ite (fun _ => powerDown_spec hfaces r io) fun _ => .pure fun _ _ => id

/-- By induction on the attempts that are left. -/
theorem initFrom_spec (attempts : Nat) (io : Buffer) :
    (discipline long).Triple [] (Knows c (.idle r)) (initFrom port attempts io) []
      fun _ => Knows c (.idle r) := by
  induction attempts generalizing io with
  | zero => exact .pure fun _ _ => id
  | succ attempts ih =>
      apply (wakeUp_spec hfaces r io).seq
      rintro ⟨success, io⟩
      refine .ite (fun _ => .pure fun _ _ => id) fun _ => ?_
      exact (sleep_spec (Guarded.idle c [] r) 100).seq fun _ => ih io

theorem init_spec (io : Buffer) :
    (discipline long).Triple [] (Knows c (.idle r)) (init port io) []
      fun _ => Knows c (.idle r) :=
  calledForFace_spec rfl (initFrom_spec hfaces.nfc r 3 io)

end

end CNFCController

end SmartblocksOs.Board
