/-
# SmartblocksOs.Board.NfcCalls -- the calls of `CNFCController` and the replies they read

Eight calls exchange something with the PN532. Each prepares `m_punIOBuffer`, sends it as a command,
waits for the acknowledge, has `read_dt` put the reply in the same buffer, and goes by what it finds
there; `P2PTargetTxRx` does so twice. `NfcCall.traced` is such a call that also says what `read_dt` has
read. Without that it is the call as it is in the source (`traced_eq`).
-/
import SmartblocksOs.Board.NfcController

namespace SmartblocksOs.Board

open SmartblocksOs.Foundation SmartblocksOs.System

namespace CNFCController

open CTWController CPortController

/-! ## Exchanges

An exchange is the part of a call that talks to the PN532, and returns the bytes it has read. -/

/-- What `read_dt` has put in the buffer, if it returned `true`. -/
abbrev Reply := Option (List Byte)

/-- `read_dt`, together with what it has read. -/
def readReply (port : EPort) (io : Buffer) (len : Byte) : Code (Reply × Buffer) := do
  let (success, io) ← readDt port io len
  pure (if success then some ((List.range len.toNat).map io) else none, io)

/-- A command and its reply, which is not read unless the command is acknowledged. -/
def exchange (port : EPort) (io : Buffer) (len replyLen : Byte) : Code (Option Reply × Buffer) := do
  if ← writeCmdCheckAck port io len then do
    let (reply, io) ← readReply port io replyLen
    pure (some reply, io)
  else pure (none, io)

/-- What a call returns, `true` being 1, what it hands out, and what is in `m_punIOBuffer` after it;
moreover what each `read_dt` for a reply has read. -/
structure Outcome where
  count : Byte
  rx : Buffer
  io : Buffer
  replies : List Reply

/-- A call with its arguments; `rx` is what the caller's buffer holds. -/
inductive NfcCall where
  | hasExternalField
  | powerDown
  | probe
  | configureSAM (mode : ESAMMode) (timeout : Byte) (useIrq : Bool)
  | p2pInitiatorInit
  | p2pTargetInit
  | p2pInitiatorTxRx (tx : Buffer) (txLen : Byte) (rx : Buffer) (rxLen : Byte)
  | p2pTargetTxRx (tx : Buffer) (txLen : Byte) (rx : Buffer) (rxLen : Byte)

/-- The second command of `P2PTargetTxRx`. -/
def setData (io tx : Buffer) (txLen : Byte) : Buffer :=
  memcpy (assign io [ECommand.tgSetData.code]) 1 tx txLen.toNat

/-- The checks on the reply to it. -/
def acceptsSetData (io : Buffer) : Bool :=
  isFromPn532 io && isReplyTo io .tgSetData && io (nfcFrameIdIndex + 1) == 0

namespace NfcCall

/-! ## What the calls have in common

A call is given by its command, the length of its reply, the checks it makes and what it hands out. -/

/-- The buffer when the (first) command is sent. -/
def prepared (io : Buffer) : NfcCall → Buffer
  | hasExternalField => assign io [ECommand.getGeneralStatus.code]
  | powerDown => assign io [ECommand.powerDown.code, 0x88, 0x01]
  | probe => assign io [ECommand.getFirmwareVersion.code]
  | configureSAM mode timeout useIrq =>
      assign io [ECommand.samConfiguration.code, mode.code, timeout, if useIrq then 1 else 0]
  | p2pInitiatorInit =>
      assign io [ECommand.inJumpForDep.code, 0x01, 0x02, 0x01, 0x00, 0xFF, 0xFF, 0x00, 0x00]
  | p2pTargetInit =>
      assign io [ECommand.tgInitAsTarget.code, 0x00, 0x04, 0x00, 0x12, 0x34, 0x56, 0x40, 0x01, 0xFE,
        0xA2, 0xA3, 0xA4, 0xA5, 0xA6, 0xA7, 0xC0, 0xC1, 0xC2, 0xC3, 0xC4, 0xC5, 0xC6, 0xC7, 0xFF, 0xFF,
        0xAA, 0x99, 0x88, 0x77, 0x66, 0x55, 0x44, 0x33, 0x22, 0x11, 0x00, 0x00]
  | p2pInitiatorTxRx tx txLen _ _ =>
      memcpy (assign io [ECommand.inDataExchange.code, 0x01]) 2 tx txLen.toNat
  | p2pTargetTxRx _ _ _ _ => assign io [ECommand.tgGetData.code]

/-- How many bytes the command has. -/
def len : NfcCall → Byte
  | hasExternalField => 1
  | powerDown => 3
  | probe => 1
  | configureSAM _ _ _ => 4
  | p2pInitiatorInit => 9
  | p2pTargetInit => 38
  | p2pInitiatorTxRx _ txLen _ _ => txLen + 2
  | p2pTargetTxRx _ _ _ _ => 1

/-- How many bytes are asked for as the reply to it. -/
def replyLen : NfcCall → Byte
  | hasExternalField => 10
  | powerDown => 8
  | probe => 12
  | configureSAM _ _ _ => 8
  | p2pInitiatorInit => 25
  | p2pTargetInit => 24
  | p2pInitiatorTxRx _ _ _ _ | p2pTargetTxRx _ _ _ _ => 60

/-- The checks on the (first) reply. -/
def accepts (io : Buffer) : NfcCall → Bool
  | hasExternalField =>
      isFromPn532 io && isReplyTo io .getGeneralStatus && io (nfcFrameIdIndex + 2) == 0x01
  | powerDown => isFromPn532 io && isReplyTo io .powerDown && io nfcFrameStatusIndex &&& 0x3F == 0x00
  | probe => isFromPn532 io && isReplyTo io .getFirmwareVersion && strncmpEq io nfcVersion 6 0
  | configureSAM _ _ _ => isReplyTo io .samConfiguration
  | p2pInitiatorInit => isFromPn532 io && isReplyTo io .inJumpForDep && io (nfcFrameIdIndex + 1) == 0
  | p2pTargetInit => isFromPn532 io && isReplyTo io .tgInitAsTarget
  | p2pInitiatorTxRx _ _ _ _ =>
      isFromPn532 io && isReplyTo io .inDataExchange && io (nfcFrameIdIndex + 1) == 0
  | p2pTargetTxRx _ _ _ _ =>
      isFromPn532 io && isReplyTo io .tgGetData && io (nfcFrameIdIndex + 1) == 0

/-- What is returned when the reply is accepted. -/
def count (io : Buffer) : NfcCall → Byte
  | p2pInitiatorTxRx _ _ _ rxLen | p2pTargetTxRx _ _ _ rxLen => rxCount io rxLen
  | _ => 1

/-- What the caller's buffer holds; most calls have none. -/
def rx : NfcCall → Buffer
  | p2pInitiatorTxRx _ _ rx _ | p2pTargetTxRx _ _ rx _ => rx
  | _ => fun _ => 0

/-- What it holds when the reply is accepted. -/
def handOut (io : Buffer) : NfcCall → Buffer
  | p2pInitiatorTxRx _ _ rx rxLen | p2pTargetTxRx _ _ rx rxLen =>
      memcpy rx 0 (fun i => io (i + 8)) (rxCount io rxLen).toNat
  | _ => fun _ => 0

/-- What is left to do when the (first) reply is accepted. -/
def conclude (port : EPort) (reply : Reply) (io : Buffer) : NfcCall → Code Outcome
  | p2pTargetTxRx tx txLen rx rxLen => do
      let c := p2pTargetTxRx tx txLen rx rxLen
      let (reply', io') ← exchange port (setData io tx txLen) (txLen + 1) 26
      if reply'.isSome && acceptsSetData io' then
        pure ⟨c.count io, c.handOut io, io', reply :: reply'.toList⟩
      else pure ⟨0, c.handOut io, io', reply :: reply'.toList⟩
  | c => pure ⟨c.count io, c.handOut io, io, [reply]⟩

/-- The call as the source has it, with the replies that it reads kept. -/
def traced (port : EPort) (io : Buffer) (c : NfcCall) : Code Outcome := calledFor (.nfc port) do
  let (reply, io) ← exchange port (c.prepared io) c.len c.replyLen
  match reply with
  | none => pure ⟨0, c.rx, io, []⟩
  | some reply => if c.accepts io then c.conclude port reply io else pure ⟨0, c.rx, io, [reply]⟩

/-! ## The calls as they are in the source

The reader may compare each of them with the source; that the common form is the same function is an
equation. -/

/-- A call that returns `true` or `false`. -/
def asCount (p : Code (Bool × Buffer)) : Code (Byte × Buffer × Buffer) := do
  let (success, io) ← p
  pure (if success then 1 else 0, fun _ => 0, io)

/-- The function of `CNFCController` that the call is a call of. -/
def code (port : EPort) (io : Buffer) : NfcCall → Code (Byte × Buffer × Buffer)
  | hasExternalField => asCount (CNFCController.hasExternalField port io)
  | powerDown => asCount (CNFCController.powerDown port io)
  | probe => asCount (CNFCController.probe port io)
  | configureSAM mode timeout useIrq =>
      asCount (CNFCController.configureSAM port mode timeout useIrq io)
  | p2pInitiatorInit => asCount (CNFCController.p2pInitiatorInit port io)
  | p2pTargetInit => asCount (CNFCController.p2pTargetInit port io)
  | p2pInitiatorTxRx tx txLen rx rxLen => CNFCController.p2pInitiatorTxRx port tx txLen rx rxLen io
  | p2pTargetTxRx tx txLen rx rxLen => CNFCController.p2pTargetTxRx port tx txLen rx rxLen io

/-- An exchange as it is in the source, where the result of `read_dt` is dropped. -/
theorem exchange_bind {α : Type} (port : EPort) (io : Buffer) (len replyLen : Byte)
    (rest : Option Reply × Buffer → Code α) (rest' : Buffer → Code α)
    (hrest : ∀ reply io, rest (some reply, io) = rest' io) :
    exchange port io len replyLen >>= rest = (do
      if ← writeCmdCheckAck port io len then do
        let (_, io) ← readDt port io replyLen
        rest' io
      else rest (none, io)) := by
  simp only [exchange, readReply, bind_assoc]
  apply bind_congr
  intro acked
  cases acked with
  | false => rfl
  | true =>
      simp only [if_true, bind_assoc, pure_bind]
      exact bind_congr fun r => hrest _ _

/-- What is done with the result does not matter to the notes. -/
theorem calledFor_bind {α β : Type} (p : Callee) (body : Code α) (f : α → β) :
    (do
      let a ← calledFor p body
      pure (f a)) = calledFor p (do
        let a ← body
        pure (f a)) := by
  simp only [calledFor, bind_assoc, pure_bind]

/-- A call that does not hand anything out, as it is in the source. -/
theorem traced_asCount (port : EPort) (io : Buffer) (c : NfcCall)
    (hconclude : ∀ reply io, c.conclude port reply io = pure ⟨1, fun _ => 0, io, [reply]⟩)
    (hrx : c.rx = fun _ => 0) :
    (do
      let o ← c.traced port io
      pure (o.count, o.rx, o.io)) = asCount (calledFor (.nfc port) do
        if ← writeCmdCheckAck port (c.prepared io) c.len then do
          let (_, io) ← readDt port (c.prepared io) c.replyLen
          pure (c.accepts io, io)
        else pure (false, c.prepared io)) := by
  unfold traced asCount
  rw [calledFor_bind, calledFor_bind, bind_assoc, hrx]
  refine congrArg (calledFor _) ((exchange_bind port _ _ _ _
    (fun io => pure (if c.accepts io then 1 else 0, fun _ => 0, io)) fun reply io => ?_).trans ?_)
  -- a reply has been read, or at least waited for
  · simp only [hconclude]
    cases c.accepts io with
    | true => rfl
    | false => rfl
  -- the acknowledge is missing, and the call is over
  · rw [bind_assoc]
    apply bind_congr
    intro acked
    cases acked with
    | true => simp only [if_true, bind_assoc, pure_bind]
    | false => rfl

/-- Without the replies, the traced call is the function of the source: the first six return a truth value
and the others a count. -/
theorem traced_eq (port : EPort) (io : Buffer) (c : NfcCall) :
    (do
      let o ← c.traced port io
      pure (o.count, o.rx, o.io)) = c.code port io := by
  cases c with
  | hasExternalField => exact traced_asCount port io .hasExternalField (fun _ _ => rfl) rfl
  | powerDown => exact traced_asCount port io .powerDown (fun _ _ => rfl) rfl
  | probe => exact traced_asCount port io .probe (fun _ _ => rfl) rfl
  | configureSAM mode timeout useIrq =>
      exact traced_asCount port io (.configureSAM mode timeout useIrq) (fun _ _ => rfl) rfl
  | p2pInitiatorInit => exact traced_asCount port io .p2pInitiatorInit (fun _ _ => rfl) rfl
  | p2pTargetInit => exact traced_asCount port io .p2pTargetInit (fun _ _ => rfl) rfl
  -- one exchange, and the data of its reply
  | p2pInitiatorTxRx tx txLen rx rxLen =>
      let c : NfcCall := .p2pInitiatorTxRx tx txLen rx rxLen
      unfold traced
      rw [calledFor_bind, bind_assoc]
      refine congrArg (calledFor _) (exchange_bind port _ _ _ _ (fun io =>
        if c.accepts io then pure (c.count io, c.handOut io, io) else pure (0, rx, io)) fun reply io => ?_)
      exact apply_ite (· >>= _) ..
  -- the data comes with the reply to `TgGetData`, and `TgSetData` follows in the same buffer
  | p2pTargetTxRx tx txLen rx rxLen =>
      let c : NfcCall := .p2pTargetTxRx tx txLen rx rxLen
      unfold traced
      rw [calledFor_bind, bind_assoc]
      let finish (io io' : Buffer) : Code (Byte × Buffer × Buffer) :=
        if acceptsSetData io' then pure (c.count io, c.handOut io, io') else pure (0, c.handOut io, io')
      refine congrArg (calledFor _) (exchange_bind port _ _ _ _ (fun io => if c.accepts io then do
        if ← writeCmdCheckAck port (setData io tx txLen) (txLen + 1) then do
          let (_, io') ← readDt port (setData io tx txLen) 26
          finish io io'
        else pure (0, c.handOut io, setData io tx txLen)
      else pure (0, rx, io)) fun reply io => ?_)
      refine (apply_ite (· >>= _) ..).trans (if_congr Iff.rfl ?_ rfl)
      unfold conclude
      rw [bind_assoc]
      apply exchange_bind port _ _ _ _ (finish io)
      intro reply' io'
      exact apply_ite (· >>= _) ..

end NfcCall

end CNFCController

end SmartblocksOs.Board
