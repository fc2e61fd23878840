/-
# SmartblocksOs.Board.NfcBuffer -- the accesses to `m_punIOBuffer`

`P2PInitiatorTxRx` and `P2PTargetTxRx` put the caller's data into `m_punIOBuffer` and take the data of the
reply out of it; the lengths are the caller's and that of the reply, and neither is compared to the size of
the buffer. Here are the two calls with every access to it checked. They are the calls of
`SmartblocksOs.Board.NfcController` as long as no check fails, and for which lengths none does is
`txRx_stays_inside_iff`.

An access with an index that is out of range ends the checked call with `none`; nothing else distinguishes
it from the call itself. Where the lengths are such that no check can fail the two are equal, and where
they are not a PN532 is given whose reply makes the call go there.

The checked calls are a second rendering of the same functions, and need a reason to be believed.
`TxRx.checked_guards` is that reason: a checked call that gets to its end has done step by step what the
call does, with the same result and the same notes, since each check is an extra test and nothing else. So
`StaysInside` of the checked call is a statement about the call: none of its accesses to the buffer is out
of range.

`Inside` has a second disjunct for `P2PInitiatorTxRx` only. When the command is too long for the queue of
`CTWController`, `write_cmd` tries the same byte again and again and never returns, so that no reply is
ever copied. For `P2PTargetTxRx` this does not help, because it polls for its data first and copies them
before it sends anything of the caller's.
-/
import SmartblocksOs.Foundation.Bounds
import SmartblocksOs.Foundation.Transmissions
import SmartblocksOs.Board.NfcChecks
import Mathlib.Data.List.GetD

namespace SmartblocksOs.Board

open SmartblocksOs.Foundation SmartblocksOs.System SmartblocksOs.Foundation.TwoWire

namespace CNFCController

open CTWController CPortController Bounds

/-! ## The accesses, checked

`Buffer` is a function on all indices, so that the model of the call itself does not notice an index that
is too large. Here each access goes through `readAt` or `writeAt` of `SmartblocksOs.Foundation.Bounds`,
which fail outside the 64 bytes of `m_punIOBuffer`; the bodies are otherwise those of
`SmartblocksOs.Board.NfcController`, line by line. -/

/-- Code that ends where it would access `m_punIOBuffer` outside its bounds. -/
abbrev Checked := OptionT Code

/-- `m_punIOBuffer[i]`. -/
def ioRead (io : Buffer) (i : Nat) : Checked Byte := readAt nfcCmdBufLen io i

/-- `m_punIOBuffer[i] = b`. -/
def ioWrite (io : Buffer) (i : Nat) (b : Byte) : Checked Buffer := writeAt nfcCmdBufLen io i b

/-- `memcpy(m_punIOBuffer + start, src, n)`. -/
def memcpyTo (io : Buffer) (start : Nat) (src : Buffer) (n : Nat) : Checked Buffer :=
  copyIn nfcCmdBufLen io start src n

/-- `memcpy(dst, m_punIOBuffer + start, n)`. -/
def memcpyFrom (dst io : Buffer) (start n : Nat) : Checked Buffer := copyOut nfcCmdBufLen dst io start n

/-- `m_punIOBuffer[0] = bytes[0]; m_punIOBuffer[1] = bytes[1]; ..`. -/
def ioAssign (io : Buffer) (bytes : List Byte) : Checked Buffer :=
  copyIn nfcCmdBufLen io 0 (fun i => bytes.getD i 0) bytes.length

/-- `body` as the body of the function `f`; a failure inside ends it. -/
def checkedCalledFor {α : Type} (f : Callee) (body : Checked α) : Checked α :=
  .mk (calledFor f body.run)

/-- `write_cmd` on `m_punIOBuffer`. -/
def checkedWriteCmd (port : EPort) (cmd : Buffer) (len : Byte) : Checked Unit :=
  checkedCalledFor (.nfc port) do
    let len := len + 1
    OptionT.lift do
      sleep 2
      onInstance (acquire .port)
      onInstance (selectPort port)
      acquire .tw
      beginTransmission pn532I2cAddress
      let _ ← writeByte pn532Preamble
      let _ ← writeByte pn532Preamble
      let _ ← writeByte pn532Startcode2
      let _ ← writeByte len
      let _ ← writeByte (~~~len + 1)
      let _ ← writeByte pn532HostToPn532
    let checksum := pn532Preamble + pn532Preamble + pn532Startcode2
    let checksum := checksum + pn532HostToPn532
    let checksum ← (List.range (len.toNat - 1)).foldlM (fun checksum i => do
      let b ← ioRead cmd i
      OptionT.lift (queueByte b)
      pure (checksum + b)) checksum
    OptionT.lift do
      let _ ← writeByte (~~~checksum)
      let _ ← writeByte pn532Postamble
      let _ ← endTransmission true
      release .tw
      onInstance (release .port)
      sleep 100

/-- `read_dt` into `m_punIOBuffer`, with `attempts` left. -/
def checkedReadDtFrom (port : EPort) (len : Byte) : Nat → Byte → Buffer → Checked (Bool × Buffer)
  | 0, status, buf => pure (status == pn532I2cReady, buf)
  | attempts + 1, _, buf => do
      let status ← OptionT.lift do
        onInstance (acquire .port)
        onInstance (selectPort port)
        acquire .tw
        let _ ← readFrom pn532I2cAddress (len + 2) true
        readByte
      if status = pn532I2cReady then do
        let buf ← (List.range len.toNat).foldlM (fun (buf : Buffer) i => do
          let b ← OptionT.lift readByte
          ioWrite buf i b) buf
        OptionT.lift do
          release .tw
          onInstance (release .port)
        pure (true, buf)
      else do
        OptionT.lift do
          (List.range len.toNat).forM fun _ => do
            let _ ← readByte
            pure ()
          release .tw
          onInstance (release .port)
          sleep 10
        checkedReadDtFrom port len attempts status buf

/-- `read_dt`, with every access to `buf` checked. -/
def checkedReadDt (port : EPort) (buf : Buffer) (len : Byte) : Checked (Bool × Buffer) :=
  checkedCalledFor (.nfc port) (checkedReadDtFrom port len 25 pn532I2cBusy buf)

/-- The acknowledge is read into a buffer of its own. -/
def checkedWriteCmdCheckAck (port : EPort) (cmd : Buffer) (len : Byte) : Checked Bool := do
  checkedWriteCmd port cmd len
  OptionT.lift (readAck port)

/-- The three comparisons with the reply to `command`. -/
def checkedIsReply (io : Buffer) (command : ECommand) : Checked Bool := do
  let direction ← ioRead io nfcFrameDirectionIndex
  let id ← ioRead io nfcFrameIdIndex
  let status ← ioRead io (nfcFrameIdIndex + 1)
  pure (direction == pn532Pn532ToHost && id.toNat == command.code.toNat + 1 && status == 0)

/-- The count of data bytes that a reply hands out. -/
def checkedRxCount (io : Buffer) (rxLen : Byte) : Checked Byte := do
  let length ← ioRead io 3
  let rxDataLength := length - 3
  pure (if rxLen < rxDataLength then rxLen else rxDataLength)

/-- `P2PInitiatorTxRx`, with every access to `m_punIOBuffer` checked. -/
def checkedInitiatorTxRx (port : EPort) (tx : Buffer) (txLen : Byte) (rx : Buffer) (rxLen : Byte)
    (io : Buffer) : Checked (Byte × Buffer × Buffer) :=
  checkedCalledFor (.nfc port) do
    let io ← ioAssign io [ECommand.inDataExchange.code, 0x01]
    let io ← memcpyTo io 2 tx txLen.toNat
    if ← checkedWriteCmdCheckAck port io (txLen + 2) then do
      let (_, io) ← checkedReadDt port io 60
      if ← checkedIsReply io .inDataExchange then do
        let count ← checkedRxCount io rxLen
        let rx ← memcpyFrom rx io 8 count.toNat
        pure (count, rx, io)
      else pure (0, rx, io)
    else pure (0, rx, io)

/-- `P2PTargetTxRx`, with every access to `m_punIOBuffer` checked. -/
def checkedTargetTxRx (port : EPort) (tx : Buffer) (txLen : Byte) (rx : Buffer) (rxLen : Byte)
    (io : Buffer) : Checked (Byte × Buffer × Buffer) :=
  checkedCalledFor (.nfc port) do
    let io ← ioAssign io [ECommand.tgGetData.code]
    if ← checkedWriteCmdCheckAck port io 1 then do
      let (_, io) ← checkedReadDt port io 60
      if ← checkedIsReply io .tgGetData then do
        let count ← checkedRxCount io rxLen
        let rx ← memcpyFrom rx io 8 count.toNat
        let io ← ioAssign io [ECommand.tgSetData.code]
        let io ← memcpyTo io 1 tx txLen.toNat
        if ← checkedWriteCmdCheckAck port io (txLen + 1) then do
          let (_, io) ← checkedReadDt port io 26
          if ← checkedIsReply io .tgSetData then pure (count, rx, io)
          else pure (0, rx, io)
        else pure (0, rx, io)
      else pure (0, rx, io)
    else pure (0, rx, io)

/-! ## Where no check fails

One equation for each function: with lengths that fit, the checked function is the function itself,
lifted. An equation can be rewritten with, so that the caller's equation follows from those of the
functions it calls. -/

/-- Calls and returns access nothing. -/
theorem checkedCalledFor_lift {α : Type} (f : Callee) (body : Code α) :
    checkedCalledFor f (OptionT.lift body) = OptionT.lift (calledFor f body) := by
  apply OptionT.ext
  simp [checkedCalledFor, calledFor]

/-- An assignment of fixed bytes stays inside. -/
theorem ioAssign_eq (io : Buffer) {bytes : List Byte} (hlen : bytes.length ≤ nfcCmdBufLen) :
    ioAssign io bytes = pure (assign io bytes) := by
  unfold ioAssign
  rw [copyIn_eq, if_pos (Or.inr (by omega))]
  congr 1
  funext i
  unfold patched assign
  by_cases hi : i < bytes.length
  · rw [if_pos (by omega), Nat.sub_zero]
    exact (List.getD_eq_getElem _ _ hi).trans (List.getD_eq_getElem _ _ hi).symm
  · rw [if_neg (by omega), List.getD_eq_default _ _ (by omega)]

/-- Copying into the buffer stays inside just when the last byte does. -/
theorem memcpyTo_eq (io : Buffer) (start : Nat) (src : Buffer) (n : Nat) :
    memcpyTo io start src n =
      if n = 0 ∨ start + n ≤ nfcCmdBufLen then pure (memcpy io start src n) else failure :=
  copyIn_eq io start src n

/-- Copying out of the buffer stays inside just when the last byte does. -/
theorem memcpyFrom_eq (dst io : Buffer) (start n : Nat) :
    memcpyFrom dst io start n =
      if n = 0 ∨ start + n ≤ nfcCmdBufLen then pure (memcpy dst 0 (fun i => io (i + start)) n)
      else failure :=
  copyOut_eq dst io start n

/-- The checks of a reply look at fixed places, which are inside. -/
theorem checkedIsReply_eq (io : Buffer) (command : ECommand) :
    checkedIsReply io command =
      pure (isFromPn532 io && isReplyTo io command && io (nfcFrameIdIndex + 1) == 0) := rfl

theorem checkedRxCount_eq (io : Buffer) (rxLen : Byte) : checkedRxCount io rxLen = pure (rxCount io rxLen) := rfl

/-- The loop of `write_cmd` goes no further than the command. -/
theorem checkedWriteCmd_eq (port : EPort) (cmd : Buffer) {len : Byte} (hlen : rounds len ≤ nfcCmdBufLen) :
    checkedWriteCmd port cmd len = OptionT.lift (writeCmd port cmd len) := by
  unfold checkedWriteCmd writeCmd
  rw [← checkedCalledFor_lift]
  have hloop (checksum : Byte) : (List.range ((len + 1).toNat - 1)).foldlM (fun checksum i => do
        let b ← ioRead cmd i
        OptionT.lift (queueByte b)
        pure (checksum + b)) checksum =
      OptionT.lift ((List.range ((len + 1).toNat - 1)).foldlM (fun checksum i => do
        queueByte (cmd i)
        pure (checksum + cmd i)) checksum) := by
    refine foldlM_lift (fun i hi checksum => ?_) checksum
    have hi : i < nfcCmdBufLen := (List.mem_range.mp hi).trans_le hlen
    rw [ioRead, readAt_of_lt cmd hi, pure_bind, OptionT.lift_bind, OptionT.lift_pure]
  simp only [hloop, OptionT.lift_bind, OptionT.lift_pure, bind_assoc, pure_bind]

/-- `read_dt` stores as many bytes as it is asked for. -/
theorem checkedReadDtFrom_eq (port : EPort) {len : Byte} (hlen : len.toNat ≤ nfcCmdBufLen) (attempts : Nat)
    (status : Byte) (buf : Buffer) :
    checkedReadDtFrom port len attempts status buf =
      OptionT.lift (readDtFrom port len attempts status buf) := by
  induction attempts generalizing status buf with
  | zero => exact (OptionT.lift_pure _).symm
  | succ attempts ih =>
      have hloop (buf : Buffer) : (List.range len.toNat).foldlM (fun (buf : Buffer) i => do
            let b ← OptionT.lift readByte
            ioWrite buf i b) buf =
          OptionT.lift ((List.range len.toNat).foldlM (fun (buf : Buffer) i => do
            let b ← readByte
            pure (Function.update buf i b)) buf) := by
        refine foldlM_lift (fun i hi buf => ?_) buf
        have hi : i < nfcCmdBufLen := (List.mem_range.mp hi).trans_le hlen
        simp only [ioWrite, writeAt_of_lt _ _ hi, OptionT.lift_bind, OptionT.lift_pure]
      unfold checkedReadDtFrom readDtFrom
      simp only [hloop, ih, OptionT.lift_bind, bind_assoc]
      refine bind_congr fun _ => bind_congr fun _ => bind_congr fun _ => bind_congr fun _ =>
        bind_congr fun status => ?_
      split
      · simp only [OptionT.lift_bind, OptionT.lift_pure]
      · simp only [OptionT.lift_bind]

/-- With a length that is within the buffer `read_dt` stays inside. -/
theorem checkedReadDt_eq (port : EPort) (buf : Buffer) {len : Byte} (hlen : len.toNat ≤ nfcCmdBufLen) :
    checkedReadDt port buf len = OptionT.lift (readDt port buf len) := by
  unfold checkedReadDt readDt
  rw [checkedReadDtFrom_eq port hlen, checkedCalledFor_lift]

/-- The command is read up to its length. -/
theorem checkedWriteCmdCheckAck_eq (port : EPort) (cmd : Buffer) {len : Byte}
    (hlen : rounds len ≤ nfcCmdBufLen) :
    checkedWriteCmdCheckAck port cmd len = OptionT.lift (writeCmdCheckAck port cmd len) := by
  unfold checkedWriteCmdCheckAck writeCmdCheckAck
  rw [checkedWriteCmd_eq port cmd hlen, OptionT.lift_bind]

/-! ## The two calls

The two calls that take a payload and hand out data. All other accesses to the buffer are at fixed places.
-/

/-- The calls with a payload. -/
inductive TxRx where
  | initiator
  | target
  deriving DecidableEq, Repr

namespace TxRx

/-- The function as the source has it. -/
def code (port : EPort) (tx : Buffer) (txLen : Byte) (rx : Buffer) (rxLen : Byte) (io : Buffer) :
    TxRx → Code (Byte × Buffer × Buffer)
  | initiator => p2pInitiatorTxRx port tx txLen rx rxLen io
  | target => p2pTargetTxRx port tx txLen rx rxLen io

/-- The function with its accesses checked. -/
def checked (port : EPort) (tx : Buffer) (txLen : Byte) (rx : Buffer) (rxLen : Byte) (io : Buffer) :
    TxRx → Checked (Byte × Buffer × Buffer)
  | initiator => checkedInitiatorTxRx port tx txLen rx rxLen io
  | target => checkedTargetTxRx port tx txLen rx rxLen io

/-- The payload and the data that may be handed out fall inside the buffer; or the payload does and is so
long that `write_cmd` is not left. -/
def Inside (txLen rxLen : Byte) : TxRx → Prop
  | initiator => 2 + txLen.toNat ≤ nfcCmdBufLen ∧
      (8 + rxLen.toNat ≤ nfcCmdBufLen ∨ twBufferLength < 6 + (2 + txLen.toNat))
  | target => 1 + txLen.toNat ≤ nfcCmdBufLen ∧ 8 + rxLen.toNat ≤ nfcCmdBufLen

instance (txLen rxLen : Byte) : ∀ c : TxRx, Decidable (c.Inside txLen rxLen)
  | initiator => inferInstanceAs (Decidable (_ ∧ _))
  | target => inferInstanceAs (Decidable (_ ∧ _))

end TxRx

/-! ### The checked calls are the calls

`Guards p q`: `p` does what `q` does, as far as it gets. The rules follow the text of the calls. -/

/-- Where no check of `p` fails, it does what `q` does. -/
def Guards {α : Type} (p : Checked α) (q : Code α) : Prop :=
  ∀ fuel m a m', Prog.exec twiReact fuel p.run m = some (some a, m') →
    Prog.exec twiReact fuel q m = some (a, m')

section

variable {α β : Type} {p : Checked α} {q : Code α}

/-! The rules for `Guards` follow the text of the calls. -/

theorem Guards.lift (q : Code α) : Guards (OptionT.lift q) q := by
  intro fuel m a m' h
  rw [OptionT.run_lift] at h
  obtain ⟨b, m₁, hexec, h⟩ := Prog.exec_bind_eq_some h
  obtain ⟨hb, rfl⟩ := Prod.mk.inj (Option.some.inj h)
  obtain rfl := Option.some.inj hb
  exact hexec

theorem Guards.pure (a : α) : Guards (Pure.pure a) (Pure.pure a) := by
  rw [← OptionT.lift_pure]
  exact Guards.lift _

/-- A check that fails. -/
theorem Guards.failure (q : Code α) : Guards failure q := by
  intro fuel m a m' h
  exact absurd (Prod.mk.inj (Option.some.inj h)).1 (by simp)

theorem Guards.bind {f : α → Checked β} {g : α → Code β} (h : Guards p q) (hf : ∀ a, Guards (f a) (g a)) :
    Guards (p >>= f) (q >>= g) := by
  intro fuel m b m' hexec
  rw [OptionT.run_bind] at hexec
  obtain ⟨r, m₁, hp, hexec⟩ := Prog.exec_bind_eq_some hexec
  apply (Prog.exec_bind fuel q g m).trans
  cases r with
  | none => exact absurd (Prod.mk.inj (Option.some.inj hexec)).1 (by simp)
  | some a =>
      rw [h fuel m a m₁ hp]
      exact hf a fuel m₁ b m' hexec

theorem Guards.calledFor (callee : Callee) (h : Guards p q) :
    Guards (checkedCalledFor callee p) (calledFor callee q) := by
  intro fuel m a m' hexec
  obtain ⟨_, m₁, hcalled, hexec⟩ := Prog.exec_bind_eq_some hexec
  obtain ⟨r, m₂, hbody, hexec⟩ := Prog.exec_bind_eq_some hexec
  obtain ⟨_, m₃, hreturned, hexec⟩ := Prog.exec_bind_eq_some hexec
  obtain ⟨rfl, rfl⟩ := Prod.mk.inj (Option.some.inj hexec)
  have hq : Prog.exec twiReact fuel (q >>= fun result => do
      Prog.note fun _ => Event.returned
      Pure.pure result) m₁ = some (a, m₃) := by
    apply (Prog.exec_bind fuel q _ m₁).trans
    rw [h fuel m₁ a m₂ hbody]
    apply (Prog.exec_bind fuel _ _ m₂).trans
    rw [hreturned]
    rfl
  apply (Prog.exec_bind fuel _ _ m).trans
  rw [hcalled]
  exact hq

theorem Guards.ite {b : Prop} [Decidable b] {p' : Checked α} {q' : Code α} (h : Guards p q)
    (h' : Guards p' q') : Guards (if b then p else p') (if b then q else q') := by
  split
  · exact h
  · exact h'

theorem Guards.foldlM {σ ι : Type} {f : σ → ι → Checked σ} {g : σ → ι → Code σ}
    (h : ∀ s i, Guards (f s i) (g s i)) (is : List ι) (s : σ) : Guards (is.foldlM f s) (is.foldlM g s) := by
  induction is generalizing s with
  | nil => exact Guards.pure s
  | cons i is ih =>
      rw [List.foldlM_cons, List.foldlM_cons]
      exact (h s i).bind ih

/-- A copy into the buffer or out of it. -/
theorem Guards.memcpyTo {io : Buffer} {start : Nat} {src : Buffer} {n : Nat} {f : Buffer → Checked α}
    (h : Guards (f (memcpy io start src n)) q) : Guards (memcpyTo io start src n >>= f) q := by
  rw [memcpyTo_eq]
  split
  · rwa [pure_bind]
  · rw [failure_bind]
    exact Guards.failure q

theorem Guards.memcpyFrom {dst io : Buffer} {start n : Nat} {f : Buffer → Checked α}
    (h : Guards (f (memcpy dst 0 (fun i => io (i + start)) n)) q) :
    Guards (memcpyFrom dst io start n >>= f) q := by
  rw [memcpyFrom_eq]
  split
  · rwa [pure_bind]
  · rw [failure_bind]
    exact Guards.failure q

theorem Guards.ioRead {io : Buffer} {i : Nat} {f : Byte → Checked α} (h : Guards (f (io i)) q) :
    Guards (ioRead io i >>= f) q := by
  unfold CNFCController.ioRead readAt
  split
  · rwa [pure_bind]
  · rw [failure_bind]
    exact Guards.failure q

end

/-- The bytes of the command are accessed one by one. -/
theorem checkedWriteCmdCheckAck_guards (port : EPort) (cmd : Buffer) (len : Byte) :
    Guards (checkedWriteCmdCheckAck port cmd len) (writeCmdCheckAck port cmd len) := by
  have hloop (checksum : Byte) : Guards ((List.range ((len + 1).toNat - 1)).foldlM (fun checksum i => do
        let b ← ioRead cmd i
        OptionT.lift (queueByte b)
        pure (checksum + b)) checksum)
      ((List.range ((len + 1).toNat - 1)).foldlM (fun checksum i => do
        queueByte (cmd i)
        pure (checksum + cmd i)) checksum) := by
    refine Guards.foldlM (fun checksum i => Guards.ioRead ?_) _ checksum
    exact (Guards.lift _).bind fun _ => Guards.pure _
  refine Guards.bind (Guards.calledFor _ ?_) fun _ => Guards.lift _
  simp only [OptionT.lift_bind, OptionT.lift_pure, bind_assoc, pure_bind]
  -- up to the loop there is nothing to check
  iterate 11 refine (Guards.lift _).bind fun _ => ?_
  apply (hloop _).bind
  intro checksum
  simp only [← OptionT.lift_bind]
  exact Guards.lift _

/-- **A checked call whose checks all pass is the call.** -/
theorem TxRx.checked_guards (c : TxRx) (port : EPort) (tx : Buffer) (txLen : Byte) (rx : Buffer) (rxLen : Byte)
    (io : Buffer) : Guards (c.checked port tx txLen rx rxLen io) (c.code port tx txLen rx rxLen io) := by
  have hgetData : (60 : Byte).toNat ≤ nfcCmdBufLen := by decide
  have hsetData : (26 : Byte).toNat ≤ nfcCmdBufLen := by decide
  cases c with
  -- one exchange
  | initiator =>
      apply Guards.calledFor _
      rw [ioAssign_eq io (by decide), pure_bind]
      refine Guards.memcpyTo ((checkedWriteCmdCheckAck_guards port _ _).bind fun acked => ?_)
      refine Guards.ite ?_ (Guards.pure _)
      rw [checkedReadDt_eq port _ hgetData]
      apply (Guards.lift _).bind
      rintro ⟨_, io⟩
      dsimp only
      rw [checkedIsReply_eq, pure_bind]
      refine Guards.ite ?_ (Guards.pure _)
      rw [checkedRxCount_eq, pure_bind]
      exact Guards.memcpyFrom (Guards.pure _)
  -- two exchanges, the second with the payload
  | target =>
      apply Guards.calledFor _
      rw [ioAssign_eq io (by decide), pure_bind]
      apply (checkedWriteCmdCheckAck_guards port _ _).bind
      intro acked
      refine Guards.ite ?_ (Guards.pure _)
      rw [checkedReadDt_eq port _ hgetData]
      apply (Guards.lift _).bind
      rintro ⟨_, io⟩
      dsimp only
      rw [checkedIsReply_eq, pure_bind]
      refine Guards.ite ?_ (Guards.pure _)
      rw [checkedRxCount_eq, pure_bind]
      apply Guards.memcpyFrom
      rw [ioAssign_eq _ (by decide), pure_bind]
      refine Guards.memcpyTo ((checkedWriteCmdCheckAck_guards port _ _).bind fun acked' => ?_)
      refine Guards.ite ?_ (Guards.pure _)
      rw [checkedReadDt_eq port _ hsetData]
      apply (Guards.lift _).bind
      rintro ⟨_, io⟩
      dsimp only
      rw [checkedIsReply_eq, pure_bind]
      exact Guards.ite (Guards.pure _) (Guards.pure _)

/-- Whatever the bus answers, no access falls outside `m_punIOBuffer`. -/
def StaysInside {α : Type} (p : Checked α) : Prop :=
  ∀ held m, Ready held m → ∀ fuel r m', Prog.exec twiReact fuel p.run m = some (r, m') → r.isSome

/-! ### What is handed out

The count of bytes is the smaller one of what the caller has room for and what the reply announces in its
length byte. Only the former is under the caller's control, and the latter may be up to 255. -/

/-- No more is handed out than was asked for. -/
theorem rxCount_le (io : Buffer) (rxLen : Byte) : (rxCount io rxLen).toNat ≤ rxLen.toNat := by
  unfold rxCount
  dsimp only
  split
  · exact Nat.le_refl _
  · rename_i h
    exact Nat.le_of_not_lt h

/-- With room behind the header for all that was asked for, the copy stays inside. -/
theorem memcpyFrom_of_rxLen (rx io : Buffer) {rxLen : Byte} (hlen : 8 + rxLen.toNat ≤ nfcCmdBufLen) :
    memcpyFrom rx io 8 (rxCount io rxLen).toNat =
      pure (memcpy rx 0 (fun i => io (i + 8)) (rxCount io rxLen).toNat) := by
  have hle := rxCount_le io rxLen
  rw [memcpyFrom_eq, if_pos (Or.inr (by omega))]

/-- The loop of `write_cmd` makes one round for a byte of the command. -/
theorem rounds_le {len : Byte} {n : Nat} (h : len.toNat ≤ n) : rounds len ≤ n := by
  unfold rounds
  have := BitVec.toNat_add len 1
  have hone : (1 : Byte).toNat = 1 := rfl
  omega

/-- With room for everything the checked call is the call. -/
theorem checkedInitiatorTxRx_eq (port : EPort) (tx : Buffer) {txLen : Byte} (rx : Buffer) {rxLen : Byte}
    (io : Buffer) (htx : 2 + txLen.toNat ≤ nfcCmdBufLen) (hrx : 8 + rxLen.toNat ≤ nfcCmdBufLen) :
    checkedInitiatorTxRx port tx txLen rx rxLen io =
      OptionT.lift (p2pInitiatorTxRx port tx txLen rx rxLen io) := by
  have hlen : rounds (txLen + 2) ≤ nfcCmdBufLen := rounds_le (by bv_omega)
  unfold checkedInitiatorTxRx p2pInitiatorTxRx
  rw [← checkedCalledFor_lift, ioAssign_eq io (by decide), pure_bind, memcpyTo_eq, if_pos (Or.inr htx),
    pure_bind, checkedWriteCmdCheckAck_eq port _ hlen, OptionT.lift_bind]
  refine congrArg (checkedCalledFor _) (bind_congr fun acked => ?_)
  cases acked with
  | false => exact (OptionT.lift_pure _).symm
  | true =>
      simp only [if_true, checkedReadDt_eq port _ (show (60 : Byte).toNat ≤ nfcCmdBufLen by decide),
        checkedIsReply_eq, checkedRxCount_eq, memcpyFrom_of_rxLen rx _ hrx, OptionT.lift_bind, pure_bind]
      apply bind_congr
      intro r
      split
      · exact (OptionT.lift_pure _).symm
      · exact (OptionT.lift_pure _).symm

/-- With lengths that fit, every check of `P2PTargetTxRx` succeeds. -/
theorem checkedTargetTxRx_eq (port : EPort) (tx : Buffer) {txLen : Byte} (rx : Buffer) {rxLen : Byte}
    (io : Buffer) (htx : 1 + txLen.toNat ≤ nfcCmdBufLen) (hrx : 8 + rxLen.toNat ≤ nfcCmdBufLen) :
    checkedTargetTxRx port tx txLen rx rxLen io =
      OptionT.lift (p2pTargetTxRx port tx txLen rx rxLen io) := by
  have hone : rounds 1 ≤ nfcCmdBufLen := by decide
  have hlen : rounds (txLen + 1) ≤ nfcCmdBufLen := rounds_le (by bv_omega)
  have hgetData : (60 : Byte).toNat ≤ nfcCmdBufLen := by decide
  have hsetData : (26 : Byte).toNat ≤ nfcCmdBufLen := by decide
  unfold checkedTargetTxRx p2pTargetTxRx
  rw [← checkedCalledFor_lift, ioAssign_eq io (by decide), pure_bind,
    checkedWriteCmdCheckAck_eq port _ hone, OptionT.lift_bind]
  refine congrArg (checkedCalledFor _) (bind_congr fun acked => ?_)
  cases acked with
  | false => exact (OptionT.lift_pure _).symm
  | true =>
      -- every checked access is the access itself, by the bounds above
      simp only [if_true, checkedReadDt_eq port _ hgetData, checkedReadDt_eq port _ hsetData,
        checkedIsReply_eq, checkedRxCount_eq, memcpyFrom_of_rxLen rx _ hrx, memcpyTo_eq,
        if_pos (Or.inr htx), checkedWriteCmdCheckAck_eq port _ hlen,
        ioAssign_eq _ (show [ECommand.tgSetData.code].length ≤ nfcCmdBufLen by decide),
        OptionT.lift_bind, pure_bind]
      apply bind_congr
      intro r
      split
      · rw [OptionT.lift_bind]
        apply bind_congr
        intro acked'
        cases acked' with
        | false => exact (OptionT.lift_pure _).symm
        | true =>
            simp only [if_true, OptionT.lift_bind]
            apply bind_congr
            intro r'
            split
            · exact (OptionT.lift_pure _).symm
            · exact (OptionT.lift_pure _).symm
      · exact (OptionT.lift_pure _).symm

/-- A program without checked accesses stays inside. -/
theorem StaysInside.of_lift {α : Type} (p : Code α) : StaysInside (OptionT.lift p : Checked α) := by
  intro held m hready fuel r m' hexec
  rw [OptionT.run_lift] at hexec
  obtain ⟨a, m₁, -, hexec⟩ := Prog.exec_bind_eq_some hexec
  obtain ⟨rfl, -⟩ := Prod.mk.inj (Option.some.inj hexec)
  rfl

/-- A payload that `write_cmd` never gets through is not followed by anything. -/
theorem initiator_stuck (port : EPort) (tx : Buffer) {txLen : Byte} (rx : Buffer) (rxLen : Byte)
    (io : Buffer) (htx : 2 + txLen.toNat ≤ nfcCmdBufLen) (hlong : twBufferLength < 6 + (2 + txLen.toNat)) :
    StaysInside (checkedInitiatorTxRx port tx txLen rx rxLen io) := by
  intro held m hready fuel r m' hexec
  have hlen : rounds (txLen + 2) ≤ nfcCmdBufLen := rounds_le (by bv_omega)
  have hrounds : 58 < rounds (txLen + 2) := by
    unfold rounds
    unfold nfcCmdBufLen at htx
    unfold twBufferLength at hlong
    bv_omega
  unfold checkedInitiatorTxRx at hexec
  rw [ioAssign_eq io (by decide), pure_bind, memcpyTo_eq, if_pos (Or.inr htx), pure_bind,
    checkedWriteCmdCheckAck_eq port _ hlen] at hexec
  obtain ⟨_, m₁, hcalled, hexec⟩ := Prog.exec_bind_eq_some hexec
  obtain ⟨-, rfl⟩ := Prod.mk.inj (Option.some.inj hcalled)
  obtain ⟨_, m₂, hexec, -⟩ := Prog.exec_bind_eq_some hexec
  rw [OptionT.run_bind_lift] at hexec
  obtain ⟨_, m₃, hexec, -⟩ := Prog.exec_bind_eq_some hexec
  obtain ⟨_, m₄, hexec, -⟩ := Prog.exec_bind_eq_some hexec
  have hreturns : Returns (writeCmd port _ (txLen + 2)) _ fun _ _ => True := ⟨fuel, _, m₄, hexec, trivial⟩
  exact absurd hreturns (writeCmd_stuck port _ hrounds (hready.noted (.called (.nfc port))))

/-! ### Where a check fails

The PN532 announces more data than the buffer holds. It has to be one that answers at all: for some
payloads `write_cmd` does not come to an end, and then no reply is ever looked at. -/

/-- A run that ends in `none` does not. -/
theorem StaysInside.not_of_returns {α : Type} {p : Checked α} {held : Bool} {m : TwMachine}
    (hready : Ready held m) (h : Returns p.run m fun r _ => r = none) : ¬ StaysInside p := by
  intro hinside
  obtain ⟨fuel, r, m', hexec, rfl⟩ := h
  exact absurd (hinside held m hready fuel none m' hexec) (by simp)

/-- A reply to `command` that announces 252 bytes of data. -/
def longReply (command : ECommand) : List Byte :=
  [0x00, 0x00, 0xFF, 0xFF, 0x01, 0xD5, command.code + 1, 0x00] ++ List.replicate 52 0x00

/-- The bus after the command, with the acknowledge and the reply to come. -/
def answering (reply : List Byte) (trace : List BusEvent) : Hardware :=
  let sent : List Byte := [0x00, 0x00, 0x01] ++ ack ++ [0x00, 0x00, 0x00, 0x01] ++ reply
  ⟨.idle, fun i => ⟨none, true, sent.getD i 0⟩, trace⟩

/-- The answers that go with the command. -/
def commandAnswers (len : Byte) : Nat := min 64 (rounds len + 8) + 2

/-- A command is sent to a PN532 that acknowledges and replies. -/
theorem replying_command (cmd : Buffer) (len : Byte) (reply : List Byte) :
    ∃ trace, ((replying (commandAnswers len) reply).device.transmission (slaw pn532I2cAddress)
      (queuedFrame cmd len) true).2 = answering reply trace := by
  obtain ⟨trace, htrace⟩ := Hardware.transmission_obliging (h := (replying (commandAnswers len) reply).device)
    rfl (fun _ => ⟨rfl, rfl⟩) (slaw pn532I2cAddress) (queuedFrame cmd len)
  have hlength : (queuedFrame cmd len).length = min 64 (rounds len + 8) := by
    simp [queuedFrame, header]
    omega
  refine ⟨trace, ?_⟩
  rw [htrace, hlength]
  unfold answering replying commandAnswers
  simp only [Hardware.mk.injEq, true_and, and_true]
  funext i
  rw [Nat.add_assoc, Nat.add_sub_cancel]

/-- The acknowledge is right, and the reply is read. -/
theorem answering_polls (command : ECommand) (trace : List BusEvent) :
    (polls 6 25 (answering (longReply command) trace)).1.any acknowledges = true ∧
      (polls 60 25 (polls 6 25 (answering (longReply command) trace)).2).1 =
        some (longReply command ++ [0x00]) := by
  constructor
  · rfl
  · rfl

/-- The board at rest, before a command of `len` bytes. -/
def longReplying (len : Byte) (command : ECommand) : TwMachine :=
  replying (commandAnswers len) (longReply command)

/-- Its bus is at rest. -/
theorem longReplying_ready (len : Byte) (command : ECommand) : Ready false (longReplying len command) :=
  ⟨rfl, rfl, rfl⟩

/-- A reply that is accepted and announces 252 bytes of data. -/
def AnnouncesMuch (io : Buffer) (command : ECommand) : Prop :=
  (isFromPn532 io && isReplyTo io command && io (nfcFrameIdIndex + 1) == 0) = true ∧ io 3 = 0xFF

/-- The reply passes the checks and announces 252 bytes. -/
theorem announcesMuch_longReply (buf : Buffer) (command : ECommand) :
    AnnouncesMuch (overwrite buf 60 (longReply command ++ [0x00])) command := by
  refine ⟨?_, rfl⟩
  have hid : (command.code + 1).toNat = command.code.toNat + 1 := by
    cases command <;> rfl
  show (true && ((command.code + 1).toNat == command.code.toNat + 1) && true) = true
  rw [hid, beq_self_eq_true]
  rfl

/-- The exchange comes to such a reply. -/
theorem longReplying_total (port : EPort) (cmd : Buffer) {len : Byte} (hrounds : rounds len ≤ 58)
    (command : ECommand) :
    Returns (writeCmdCheckAck port cmd len)
      { longReplying len command with log := (longReplying len command).log ++ [.called (.nfc port)] }
      fun acked m => acked = true ∧
        Returns (readDt port cmd 60) m fun r _ => AnnouncesMuch r.2 command := by
  obtain ⟨trace, htrace⟩ := replying_command cmd len (longReply command)
  obtain ⟨hacked, hreply⟩ := answering_polls command trace
  refine Total.seq (writeCmd_queued port cmd hrounds
    ((longReplying_ready len command).noted (.called (.nfc port)))) ?_
  rintro _ m₁ ⟨h₁, -⟩
  have hbus : ((afterInstance { longReplying len command with
      log := (longReplying len command).log ++ [.called (.nfc port)] }).transmission
        (slaw pn532I2cAddress) (queuedFrame cmd len) true).2 = answering (longReply command) trace := htrace
  rw [hbus] at h₁
  apply (readAck_total port h₁).mono
  rintro acked m₂ ⟨⟨l, h₂⟩, rfl⟩
  refine ⟨hacked, (readDt_total port (by decide) cmd h₂).mono ?_⟩
  rintro r m₃ ⟨-, rfl⟩
  rw [hreply]
  exact announcesMuch_longReply cmd command

/-- As much is handed out as there is room for, or 252 bytes. -/
theorem AnnouncesMuch.count {io : Buffer} {command : ECommand} (h : AnnouncesMuch io command) (rxLen : Byte) :
    (rxCount io rxLen).toNat = min rxLen.toNat 252 := by
  unfold rxCount
  rw [h.2]
  simp only [BitVec.lt_def, apply_ite BitVec.toNat]
  have hlength : ((0xFF : Byte) - 3).toNat = 252 := rfl
  rw [hlength]
  split
  · omega
  · omega

/-- With a buffer that is too small for what is asked for, the copy out of it leaves it. -/
theorem initiator_overruns (port : EPort) (tx : Buffer) {txLen : Byte} (rx : Buffer) {rxLen : Byte}
    (io : Buffer) (hshort : 6 + (2 + txLen.toNat) ≤ twBufferLength) (hrx : nfcCmdBufLen < 8 + rxLen.toNat) :
    ¬ StaysInside (checkedInitiatorTxRx port tx txLen rx rxLen io) := by
  have hle : (txLen + 2).toNat ≤ txLen.toNat + 2 := by bv_omega
  have hrounds : rounds (txLen + 2) ≤ 58 := by
    unfold twBufferLength at hshort
    exact rounds_le (by omega)
  have htx : 2 + txLen.toNat ≤ nfcCmdBufLen := by
    unfold twBufferLength at hshort
    unfold nfcCmdBufLen
    omega
  have hlen : rounds (txLen + 2) ≤ nfcCmdBufLen := rounds_le (by bv_omega)
  apply StaysInside.not_of_returns (longReplying_ready (txLen + 2) .inDataExchange)
  unfold checkedInitiatorTxRx
  rw [ioAssign_eq io (by decide), pure_bind, memcpyTo_eq, if_pos (Or.inr htx), pure_bind,
    checkedWriteCmdCheckAck_eq port _ hlen]
  apply calledFor_total
  rw [OptionT.run_bind_lift]
  -- the command is acknowledged,
  apply Total.seq (longReplying_total port _ hrounds .inDataExchange)
  rintro _ m ⟨rfl, hread⟩
  rw [if_pos rfl, checkedReadDt_eq port _ (by decide), OptionT.run_bind_lift]
  apply Total.seq hread
  -- and the reply announces 252 bytes of data
  rintro ⟨_, io'⟩ m' hmuch
  have hcount : (rxCount io' rxLen).toNat = min rxLen.toNat 252 := hmuch.count rxLen
  have hover : ¬ ((rxCount io' rxLen).toNat = 0 ∨ 8 + (rxCount io' rxLen).toNat ≤ nfcCmdBufLen) := by
    rw [hcount]
    unfold nfcCmdBufLen at hrx ⊢
    omega
  dsimp only
  rw [checkedIsReply_eq, pure_bind, if_pos hmuch.1, checkedRxCount_eq, pure_bind, memcpyFrom_eq,
    if_neg hover, failure_bind]
  exact Total.pure_iff.mpr rfl

/-- A payload that does not fit is copied all the same. -/
theorem initiator_overflows (port : EPort) (tx : Buffer) {txLen : Byte} (rx : Buffer) (rxLen : Byte)
    (io : Buffer) (htx : nfcCmdBufLen < 2 + txLen.toNat) :
    ¬ StaysInside (checkedInitiatorTxRx port tx txLen rx rxLen io) := by
  apply StaysInside.not_of_returns acknowledged_ready
  unfold checkedInitiatorTxRx
  have hzero : ¬ (txLen.toNat = 0 ∨ 2 + txLen.toNat ≤ nfcCmdBufLen) := by
    unfold nfcCmdBufLen at htx ⊢
    omega
  rw [ioAssign_eq io (by decide), pure_bind, memcpyTo_eq, if_neg hzero, failure_bind]
  exact calledFor_total (Total.pure_iff.mpr rfl)

/-- The same of `P2PTargetTxRx`, whose own payload may be too long as well. -/
theorem target_overruns (port : EPort) (tx : Buffer) {txLen : Byte} (rx : Buffer) {rxLen : Byte}
    (io : Buffer) (hover : nfcCmdBufLen < 1 + txLen.toNat ∨ nfcCmdBufLen < 8 + rxLen.toNat) :
    ¬ StaysInside (checkedTargetTxRx port tx txLen rx rxLen io) := by
  apply StaysInside.not_of_returns (longReplying_ready 1 .tgGetData)
  unfold checkedTargetTxRx
  rw [ioAssign_eq io (by decide), pure_bind, checkedWriteCmdCheckAck_eq port _ (by decide)]
  apply calledFor_total
  rw [OptionT.run_bind_lift]
  apply Total.seq (longReplying_total port _ (by decide) .tgGetData)
  rintro _ m ⟨rfl, hread⟩
  rw [if_pos rfl, checkedReadDt_eq port _ (by decide), OptionT.run_bind_lift]
  apply Total.seq hread
  rintro ⟨_, io'⟩ m' hmuch
  have hcount : (rxCount io' rxLen).toNat = min rxLen.toNat 252 := hmuch.count rxLen
  dsimp only
  rw [checkedIsReply_eq, pure_bind, if_pos hmuch.1, checkedRxCount_eq, pure_bind, memcpyFrom_eq]
  -- the data of the reply is copied first
  by_cases hrx : (rxCount io' rxLen).toNat = 0 ∨ 8 + (rxCount io' rxLen).toNat ≤ nfcCmdBufLen
  · have htx : ¬ (txLen.toNat = 0 ∨ 1 + txLen.toNat ≤ nfcCmdBufLen) := by
      rw [hcount] at hrx
      unfold nfcCmdBufLen at hover hrx ⊢
      omega
    rw [if_pos hrx, pure_bind, ioAssign_eq _ (by decide), pure_bind, memcpyTo_eq, if_neg htx, failure_bind]
    exact Total.pure_iff.mpr rfl
  · rw [if_neg hrx, failure_bind]
    exact Total.pure_iff.mpr rfl

/-- **The accesses to `m_punIOBuffer`.** They fall inside it, for whatever payload and replies, if and
only if the lengths are such that everything fits in, or that the command is never sent. -/
theorem txRx_stays_inside_iff (c : TxRx) (port : EPort) (tx : Buffer) (txLen : Byte) (rx : Buffer)
    (rxLen : Byte) (io : Buffer) :
    StaysInside (c.checked port tx txLen rx rxLen io) ↔ c.Inside txLen rxLen := by
  cases c with
  | initiator =>
      constructor
      · intro h
        by_contra hnot
        -- the payload fits, and then the reply has to, unless the command is stuck; or the payload does
        -- not fit
        by_cases htx : 2 + txLen.toNat ≤ nfcCmdBufLen
        · have hboth := not_or.mp fun hor => hnot ⟨htx, hor⟩
          exact initiator_overruns port tx rx io (Nat.le_of_not_lt hboth.2) (Nat.lt_of_not_le hboth.1) h
        · exact initiator_overflows port tx rx rxLen io (Nat.lt_of_not_le htx) h
      · rintro ⟨htx, hrx | hlong⟩
        · show StaysInside (checkedInitiatorTxRx port tx txLen rx rxLen io)
          rw [checkedInitiatorTxRx_eq port tx rx io htx hrx]
          exact StaysInside.of_lift _
        · exact initiator_stuck port tx rx rxLen io htx hlong
  | target =>
      constructor
      · intro h
        by_contra hnot
        refine target_overruns port tx rx io ?_ h
        by_cases htx : 1 + txLen.toNat ≤ nfcCmdBufLen
        · exact Or.inr (Nat.lt_of_not_le fun hrx => hnot ⟨htx, hrx⟩)
        · exact Or.inl (Nat.lt_of_not_le htx)
      · rintro ⟨htx, hrx⟩
        show StaysInside (checkedTargetTxRx port tx txLen rx rxLen io)
        rw [checkedTargetTxRx_eq port tx rx io htx hrx]
        exact StaysInside.of_lift _

/-- The last byte of a payload of 63 bytes goes to index 64. -/
theorem txRx_leaves_buffer :
    ¬ ∀ (c : TxRx) (port : EPort) (tx : Buffer) (txLen : Byte) (rx : Buffer) (rxLen : Byte) (io : Buffer),
      StaysInside (c.checked port tx txLen rx rxLen io) := by
  intro hall
  exact initiator_overflows .north (fun _ => 0x54) (fun _ => 0) 1 (fun _ => 0) (by decide)
    (hall .initiator .north (fun _ => 0x54) 63 (fun _ => 0) 1 fun _ => 0)

end CNFCController

end SmartblocksOs.Board
