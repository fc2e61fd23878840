/-
# SmartblocksOs.Board.NfcFrames -- the frames of commands

`write_cmd` sends a command to the PN532 in a frame with its length and a checksum. It adds the
checksum up from the first byte of the frame, increments the length in place, and complements where the
PN532 wants the negative; for a command that fits in the transmit buffer all that comes to the same
(`commandFrame_eq`), and the frame is handed over whole (`writeCmd_total`). A longer one is cut short, or
its loop is not left at all (`writeCmd_stuck`).

The three oddities of the code are taken apart one by one: the loop over `len + 1`, which wraps for 255;
the checksum that is added up from the preamble on, whose sum of -1 makes up for the complement that
stands where the negative is wanted; and the loop around `Write`, which never ends once the buffer is
full. The decoder `unframe` is written from the format alone, and takes the frame back to the command.
-/
import SmartblocksOs.Foundation.Frame
import SmartblocksOs.Board.Operations
import SmartblocksOs.Board.TwSections

namespace SmartblocksOs.Board

open SmartblocksOs.Foundation SmartblocksOs.System SmartblocksOs.Foundation.TwoWire

open CTWController CPortController

namespace CNFCController

/-! ## Frames

The format first, as a function of the command: preamble, length, complement of the length, direction,
command, checksum, postamble. -/

/-- What stands before the length of a frame. -/
def frameStart : List Byte := [pn532Preamble, pn532Preamble, pn532Startcode2]

/-- What stands behind its checksum. -/
def frameStop : List Byte := [pn532Postamble]

/-- The frame of a command, as the PN532 expects it. -/
def commandFrame (cmd : List Byte) : List Byte := frame frameStart frameStop (pn532HostToPn532 :: cmd)

/-- The command that `cmd` and `len` stand for. -/
def commandBytes (cmd : Buffer) (len : Byte) : List Byte := (List.range len.toNat).map cmd

/-- A command has as many bytes as it is said to have. -/
theorem length_commandBytes (cmd : Buffer) (len : Byte) : (commandBytes cmd len).length = len.toNat := by
  simp [commandBytes]

/-- The checksum starts from the start of the frame, which makes up for the complement. -/
theorem checksum_eq (sum : Byte) :
    ~~~(pn532Preamble + pn532Preamble + pn532Startcode2 + pn532HostToPn532 + sum) =
      -(pn532HostToPn532 + sum) := by
  unfold pn532Preamble pn532Startcode2 pn532HostToPn532
  bv_omega

/-- The length checksum, as the code computes it, is the negative. -/
theorem complement_eq (x : Byte) : ~~~x + 1 = -x := by bv_omega

/-- The frame, as `write_cmd` computes it. -/
theorem commandFrame_eq (cmd : Buffer) (len : Byte) :
    commandFrame (commandBytes cmd len) =
      [pn532Preamble, pn532Preamble, pn532Startcode2, len + 1, ~~~(len + 1) + 1, pn532HostToPn532] ++
        commandBytes cmd len ++ [~~~(pn532Preamble + pn532Preamble + pn532Startcode2 +
          pn532HostToPn532 + (commandBytes cmd len).sum), pn532Postamble] := by
  have hlength : BitVec.ofNat 8 (pn532HostToPn532 :: commandBytes cmd len).length = len + 1 := by
    rw [List.length_cons, length_commandBytes, BitVec.ofNat_add, BitVec.ofNat_toNat, BitVec.setWidth_eq]
    rfl
  unfold commandFrame frame
  rw [hlength, checksum_eq, complement_eq, List.sum_cons]
  simp [frameStart, frameStop]

/-! ## Transmission

A command is handed over as a whole when its frame fits in the queue of 64 bytes, which are eight bytes
around the command. -/

section

variable {address : Byte} {q : List Byte} {held : Bool} {h : Hardware} {l : List Traffic}
  {m m' : TwMachine}

/-- A byte that fits is queued in the first round. -/
theorem queueByte_total (b : Byte) (hroom : q.length < 64) (hm : Queueing address q held h l m m') :
    Returns (queueByte b) m' fun _ m'' => Queueing address (q ++ [b]) held h l m m'' := by
  refine Total.repeatWhile (Total.seq (write_worked b hroom hm) ?_)
  rintro r m'' ⟨rfl, hm''⟩
  exact Total.pure_iff.mpr hm''

/-- The loop over the command, with `is` still to come. -/
theorem queueCommand_total (cmd : Buffer) (is : List Nat) (checksum : Byte)
    (hroom : q.length + is.length ≤ 64) (hm : Queueing address q held h l m m') :
    Returns (is.foldlM (fun checksum i => do
      queueByte (cmd i)
      pure (checksum + cmd i)) checksum) m' fun checksum' m'' =>
        checksum' = checksum + (is.map cmd).sum ∧ Queueing address (q ++ is.map cmd) held h l m m'' := by
  induction is generalizing q checksum m' with
  | nil => exact Total.pure_iff.mpr ⟨by simp, by simpa using hm⟩
  | cons i is ih =>
      rw [List.length_cons] at hroom
      have hround : Returns (do
          queueByte (cmd i)
          pure (checksum + cmd i)) m' fun checksum₁ m₁ =>
            checksum₁ = checksum + cmd i ∧ Queueing address (q ++ [cmd i]) held h l m m₁ :=
        Total.seq (queueByte_total (cmd i) (by omega) hm) fun _ m₁ h₁ => Total.pure_iff.mpr ⟨rfl, h₁⟩
      rw [List.foldlM_cons]
      apply Total.seq hround
      rintro _ m₁ ⟨rfl, h₁⟩
      apply (ih _ (by rw [List.length_append, List.length_singleton]; omega) h₁).mono
      rintro checksum' m'' ⟨rfl, h₂⟩
      refine ⟨by rw [List.map_cons, List.sum_cons, add_assoc], ?_⟩
      rwa [List.append_assoc] at h₂

/-- With the buffer full a byte is tried for ever: nobody empties it. -/
theorem queueByte_stuck {Q : Unit → TwMachine → Prop} (b : Byte) (hfull : ¬ q.length < 64)
    (hm : Queueing address q held h l m m') : ¬ Returns (queueByte b) m' Q := by
  refine Total.repeatWhile_stuck (I := fun m'' => Queueing address q held h l m m'') ?_ hm
  intro m₁ h₁
  apply Total.seq (write_refused b hfull h₁)
  rintro _ m₂ ⟨rfl, h₂⟩
  refine Total.bind (Total.note_iff.mpr (Total.bind (Total.switch_iff.mpr (Total.pure_iff.mpr ?_))))
  exact ⟨rfl, h₂.toWorked.note rfl, h₂.queue, h₂.address⟩

/-- So the loop over a command that does not fit is not left. -/
theorem queueCommand_stuck {Q : Byte → TwMachine → Prop} (cmd : Buffer) (is : List Nat) (checksum : Byte)
    (hroom : q.length ≤ 64) (hlong : 64 < q.length + is.length)
    (hm : Queueing address q held h l m m') :
    ¬ Returns (is.foldlM (fun checksum i => do
      queueByte (cmd i)
      pure (checksum + cmd i)) checksum) m' Q := by
  induction is generalizing q checksum m' with
  | nil => exact absurd hlong (Nat.not_lt.mpr hroom)
  | cons i is ih =>
      rw [List.length_cons] at hlong
      rw [List.foldlM_cons]
      intro hreturns
      simp only [Total.bind_iff, Total.pure_iff] at hreturns
      by_cases hmore : q.length < 64
      · obtain ⟨_, m₁, h₁, hiff⟩ := (queueByte_total (cmd i) hmore hm).exists_iff
        rw [hiff] at hreturns
        refine ih _ ?_ ?_ h₁ hreturns
        · rw [List.length_append, List.length_singleton]
          omega
        · rw [List.length_append, List.length_singleton]
          omega
      · exact queueByte_stuck (cmd i) hmore hm hreturns

end

/-! ### The parts of `write_cmd`

The body is cut where the source has its loop; the parts are shown to do their share of the frame. -/

/-- The bytes before the command. -/
def header (len : Byte) : List Byte :=
  [pn532Preamble, pn532Preamble, pn532Startcode2, len + 1, ~~~(len + 1) + 1, pn532HostToPn532]

/-- The checksum before the command. -/
def headerSum : Byte := pn532Preamble + pn532Preamble + pn532Startcode2 + pn532HostToPn532

/-- The rounds that the loop over the command has to make; for a length of 255 the length of the frame is
0. -/
def rounds (len : Byte) : Nat := (len + 1).toNat - 1

/-- `write_cmd` from the loop on. -/
def writeCommand (cmd : Buffer) (len : Byte) : Code Unit := do
  let checksum ← (List.range (rounds len)).foldlM (fun checksum i => do
    queueByte (cmd i)
    pure (checksum + cmd i)) headerSum
  let _ ← writeByte (~~~checksum)
  let _ ← writeByte pn532Postamble
  let _ ← endTransmission true
  release .tw
  onInstance (release .port)
  sleep 100

/-- Up to the loop `write_cmd` does not depend on the command. -/
theorem writeCmd_header {held : Bool} {m : TwMachine} (port : EPort) (cmd : Buffer) (len : Byte)
    (hready : Ready held m) :
    ∃ held₁ m₁ m₂, AtHand (afterInstance m) (instanceTraffic m) m m₁ ∧
      Queueing pn532I2cAddress (header len) held₁ m₁.device [] m₁ m₂ ∧
      ∀ Q, Returns (writeCmd port cmd len) m Q ↔
        Returns (writeCommand cmd len) m₂ fun a m' => Q a { m' with log := m'.log ++ [.returned] } := by
  -- the lines before the frame,
  obtain ⟨_, n₁, h₁, hinit⟩ :=
    (initOnFirstUse_total (hready.noted (.called (.nfc port)))).exists_iff
  obtain ⟨_, n₂, h₂, hagain⟩ := (h₁.onInstance (selectPort_total port)).exists_iff
  have hsame := h₁.same h₂
  obtain ⟨held₁, hready₁⟩ := hsame.ready
  -- and the six bytes of the header, which always fit
  have hqueued : Returns (do
      beginTransmission pn532I2cAddress
      let _ ← writeByte pn532Preamble
      let _ ← writeByte pn532Preamble
      let _ ← writeByte pn532Startcode2
      let _ ← writeByte (len + 1)
      let _ ← writeByte (~~~(len + 1) + 1)
      writeByte pn532HostToPn532) n₂ fun _ m' =>
        Queueing pn532I2cAddress (header len) held₁ n₂.device [] n₂ m' := by
    apply Total.seq (begin_worked pn532I2cAddress (Worked.refl hready₁))
    intro _ m₃ h₃
    apply Total.seq (write_worked pn532Preamble (by decide) h₃)
    rintro _ m₄ ⟨-, h₄⟩
    apply Total.seq (write_worked pn532Preamble (by simp) h₄)
    rintro _ m₅ ⟨-, h₅⟩
    apply Total.seq (write_worked pn532Startcode2 (by simp) h₅)
    rintro _ m₆ ⟨-, h₆⟩
    apply Total.seq (write_worked (len + 1) (by simp) h₆)
    rintro _ m₇ ⟨-, h₇⟩
    apply Total.seq (write_worked (~~~(len + 1) + 1) (by simp) h₇)
    rintro _ m₈ ⟨-, h₈⟩
    exact (write_worked pn532HostToPn532 (by simp) h₈).mono fun _ _ hr => hr.2
  obtain ⟨_, m₂, h₃, hheader⟩ := hqueued.exists_iff
  refine ⟨held₁, n₂, m₂, hsame.noted rfl, h₃, fun Q => ?_⟩
  have hinstance : ∀ R, Returns (onInstance (acquire .port))
      { m with log := m.log ++ [.called (.nfc port)] } R ↔ R () n₁ := by
    intro R
    rw [← hinit fun _ m' => R () m']
    exact Total.bind_iff.trans (by simp only [Total.acquire_iff])
  refine Iff.trans ?_ (hheader fun _ m' =>
    Returns (writeCommand cmd len) m' fun a m' => Q a { m' with log := m'.log ++ [.returned] })
  simp only [writeCmd, calledFor, writeCommand, rounds, headerSum, sleep, Total.bind_iff, Total.note_iff,
    Total.switch_iff, hinstance, hagain, Total.acquire_iff, Total.pure_iff]

/-- From `m` to `m'` the PN532 has been sent `bytes`, after what `CPortController::instance()` sends. -/
structure Transmitted (bytes : List Byte) (m m' : TwMachine) : Prop where
  traffic : traffic m'.log = traffic m.log ++ (instanceTraffic m ++ [.sent bytes])
  device : m'.device = ((afterInstance m).transmission (slaw pn532I2cAddress) bytes true).2

/-- What `write_cmd` queues, as far as there is room. -/
def queuedFrame (cmd : Buffer) (len : Byte) : List Byte :=
  let body := (List.range (rounds len)).map cmd
  (header len ++ body ++ [~~~(headerSum + body.sum), pn532Postamble]).take 64

/-- After the loop: what there is room for is sent. -/
theorem writeCommand_total {held : Bool} {h : Hardware} {l : List Traffic} {m m₁ m₂ : TwMachine}
    (cmd : Buffer) {len : Byte} (hfits : rounds len ≤ 58) (h₁ : AtHand h l m m₁)
    (h₂ : Queueing pn532I2cAddress (header len) held m₁.device [] m₁ m₂) :
    Returns (writeCommand cmd len) m₂ fun _ m' =>
      AtHand (h.transmission (slaw pn532I2cAddress) (queuedFrame cmd len) true).2
        (l ++ [.sent (queuedFrame cmd len)]) m m' ∧ m'.vars .txAddress = pn532I2cAddress := by
  apply Total.seq (queueCommand_total cmd (List.range (rounds len)) headerSum (by simp [header]; omega) h₂)
  rintro checksum m₃ ⟨rfl, h₃⟩
  rw [← List.take_of_length_le (i := 64) (l := header len ++ _) (by simp [header]; omega)] at h₃
  apply Total.seq (write_take _ h₃)
  intro _ m₄ h₄
  apply Total.seq (write_take pn532Postamble h₄)
  intro _ m₅ h₅
  rw [List.append_assoc] at h₅
  apply Total.seq (end_worked true h₅)
  rintro _ m₆ ⟨h₆, haddress⟩
  refine Total.bind (Total.release_iff.mpr (Total.bind ?_))
  have h₇ := h₁.worked h₆
  refine h₇.onInstance (Total.release_iff.mpr (Total.switch_iff.mpr ⟨?_, haddress⟩))
  rw [h₁.device] at h₇
  exact h₇

/-- What is queued when the loop ends. -/
theorem writeCmd_queued {held : Bool} {m : TwMachine} (port : EPort) (cmd : Buffer) {len : Byte}
    (hfits : rounds len ≤ 58) (hready : Ready held m) :
    Returns (writeCmd port cmd len) m fun _ m' =>
      AtHand ((afterInstance m).transmission (slaw pn532I2cAddress) (queuedFrame cmd len) true).2
        (instanceTraffic m ++ [.sent (queuedFrame cmd len)]) m m' ∧
      m'.vars .txAddress = pn532I2cAddress := by
  obtain ⟨held₁, m₁, m₂, h₁, h₂, hiff⟩ := writeCmd_header port cmd len hready
  refine (hiff _).mpr ((writeCommand_total cmd hfits h₁ h₂).mono ?_)
  rintro _ m' ⟨hat, haddress⟩
  exact ⟨hat.note rfl, haddress⟩

/-- Otherwise the loop does not end, with both locks held. -/
theorem writeCmd_stuck {held : Bool} {m : TwMachine} {Q : Unit → TwMachine → Prop} (port : EPort)
    (cmd : Buffer) {len : Byte} (hlong : 58 < rounds len) (hready : Ready held m) :
    ¬ Returns (writeCmd port cmd len) m Q := by
  obtain ⟨held₁, m₁, m₂, h₁, h₂, hiff⟩ := writeCmd_header port cmd len hready
  rw [hiff]
  intro hreturns
  refine queueCommand_stuck cmd _ headerSum ?_ ?_ h₂ (Total.bind_iff.mp hreturns)
  · simp [header]
  · simp [header]
    omega

/-- For a command that fits it is the frame. -/
theorem queuedFrame_eq (cmd : Buffer) {len : Byte} (hlen : Fits len) :
    queuedFrame cmd len = commandFrame (commandBytes cmd len) := by
  unfold Fits twBufferLength at hlen
  have hrounds : rounds len = len.toNat := by
    unfold rounds
    bv_omega
  unfold queuedFrame
  rw [commandFrame_eq, hrounds, List.take_of_length_le (by simp [header]; omega)]
  rfl

/-- The PN532 is sent the frame of the command, after what `CPortController::instance()` sends. -/
theorem writeCmd_total {held : Bool} {m : TwMachine} (port : EPort) (cmd : Buffer) (len : Byte)
    (hlen : Fits len) (hready : Ready held m) :
    Returns (writeCmd port cmd len) m fun _ m' =>
      AtHand ((afterInstance m).transmission (slaw pn532I2cAddress)
          (commandFrame (commandBytes cmd len)) true).2
        (instanceTraffic m ++ [.sent (commandFrame (commandBytes cmd len))]) m m' ∧
      m'.vars .txAddress = pn532I2cAddress := by
  have hrounds : rounds len ≤ 58 := by
    unfold Fits twBufferLength at hlen
    unfold rounds
    bv_omega
  rw [← queuedFrame_eq cmd hlen]
  exact writeCmd_queued port cmd hrounds hready

/-- The receiver of a frame finds both checksums right, and the command in it. -/
theorem unframe_commandFrame {cmd : List Byte} (hlen : cmd.length + 8 ≤ twBufferLength) :
    unframe frameStart frameStop (commandFrame cmd) = some (pn532HostToPn532 :: cmd) := by
  unfold twBufferLength at hlen
  exact unframe_frame (by rw [List.length_cons]; omega)

/-- A frame tells which command it was made for. -/
theorem commandFrame_inj {cmd cmd' : List Byte} (hlen : cmd.length + 8 ≤ twBufferLength)
    (hlen' : cmd'.length + 8 ≤ twBufferLength) (h : commandFrame cmd = commandFrame cmd') : cmd = cmd' := by
  unfold twBufferLength at hlen hlen'
  have hframes := frame_inj (by rw [List.length_cons]; omega) (by rw [List.length_cons]; omega) h
  exact (List.cons.inj hframes).2

/-- **The frame of a command.** What is handed to `EndTransmission` for the PN532 is `00 00 FF LEN LCS D4
cmd DCS 00`, with both checksums right; the command can be read out of it, and of no other frame. -/
theorem writeCmd_frame {held : Bool} {m : TwMachine} (port : EPort) (cmd : Buffer) (len : Byte)
    (hlen : len.toNat + 8 ≤ twBufferLength) (hready : Ready held m) :
    (Returns (writeCmd port cmd len) m fun _ m' =>
      traffic m'.log =
        traffic m.log ++ (instanceTraffic m ++ [.sent (commandFrame (commandBytes cmd len))]) ∧
      m'.vars .txAddress = pn532I2cAddress ∧
      m'.device = ((afterInstance m).transmission (slaw pn532I2cAddress)
        (commandFrame (commandBytes cmd len)) true).2) ∧
    (∃ lcs dcs : Byte, commandFrame (commandBytes cmd len) =
        [0x00, 0x00, 0xFF, len + 1, lcs, 0xD4] ++ commandBytes cmd len ++ [dcs, 0x00] ∧
      len + 1 + lcs = 0 ∧ 0xD4 + (commandBytes cmd len).sum + dcs = 0) ∧
    unframe frameStart frameStop (commandFrame (commandBytes cmd len)) =
      some (0xD4 :: commandBytes cmd len) ∧
    ∀ cmd' : List Byte, cmd'.length + 8 ≤ twBufferLength →
      commandFrame cmd' = commandFrame (commandBytes cmd len) → cmd' = commandBytes cmd len := by
  have hbytes : (commandBytes cmd len).length + 8 ≤ twBufferLength := by rwa [length_commandBytes]
  refine ⟨?_, ⟨_, _, commandFrame_eq cmd len, ?_, ?_⟩, unframe_commandFrame hbytes, fun cmd' hlen' h =>
    commandFrame_inj hlen' hbytes h⟩
  · apply (writeCmd_total port cmd len hlen hready).mono
    rintro _ m' ⟨hat, haddress⟩
    exact ⟨hat.log, haddress, hat.device⟩
  -- the length and its checksum add up to 0,
  · rw [complement_eq]
    exact add_neg_cancel _
  -- and so do the bytes with theirs
  · rw [checksum_eq]
    exact add_neg_cancel _

/-- The board at rest, with slaves that acknowledge everything. -/
def acknowledged : TwMachine := ⟨atRest, ⟨.idle, fun _ => ⟨none, true, 0⟩, []⟩, []⟩

/-- Its bus is at rest. -/
theorem acknowledged_ready : Ready false acknowledged := ⟨rfl, rfl, rfl⟩

/-- The command of `PowerDown`. -/
def sleepCommand : Buffer := assign (fun _ => 0) [0x16, 0x88, 0x01]

/-- It is sent. -/
theorem writeCmd_frame_sleepCommand :
    (Returns (writeCmd .north sleepCommand 3) acknowledged fun _ m' =>
      traffic m'.log = traffic acknowledged.log ++
        (instanceTraffic acknowledged ++ [.sent (commandFrame (commandBytes sleepCommand 3))]) ∧
      m'.vars .txAddress = pn532I2cAddress ∧
      m'.device = ((afterInstance acknowledged).transmission (slaw pn532I2cAddress)
        (commandFrame (commandBytes sleepCommand 3)) true).2) ∧
    (∃ lcs dcs : Byte, commandFrame (commandBytes sleepCommand 3) =
        [0x00, 0x00, 0xFF, 3 + 1, lcs, 0xD4] ++ commandBytes sleepCommand 3 ++ [dcs, 0x00] ∧
      3 + 1 + lcs = 0 ∧ 0xD4 + (commandBytes sleepCommand 3).sum + dcs = 0) ∧
    unframe frameStart frameStop (commandFrame (commandBytes sleepCommand 3)) =
      some (0xD4 :: commandBytes sleepCommand 3) ∧
    ∀ cmd' : List Byte, cmd'.length + 8 ≤ twBufferLength →
      commandFrame cmd' = commandFrame (commandBytes sleepCommand 3) →
        cmd' = commandBytes sleepCommand 3 :=
  writeCmd_frame .north sleepCommand 3 (by decide) acknowledged_ready

/-! ### Commands of any length

Up to 56 bytes the frame is whole; for 57 and 58 the command is queued, and what comes behind it is cut
off; from 59 on the loop does not end, with the exception of 255, where the length wraps to 0 and no byte
of the command is sent. -/

/-- A complete frame for `payload`: `len` counts the bytes `D4 payload`, and both checksums are right. -/
def CompleteFrame (payload bytes : List Byte) : Prop :=
  ∃ len lcs dcs : Byte,
    bytes = [pn532Preamble, pn532Preamble, pn532Startcode2, len, lcs, pn532HostToPn532] ++ payload ++
      [dcs, pn532Postamble] ∧
    len.toNat = payload.length + 1 ∧ len + lcs = 0 ∧ pn532HostToPn532 + payload.sum + dcs = 0

/-- A complete frame is not longer than the buffer, and its length byte has not become 0. -/
theorem room_of_complete {cmd : Buffer} {len : Byte}
    (h : CompleteFrame (commandBytes cmd len) (queuedFrame cmd len)) : len.toNat + 8 ≤ twBufferLength := by
  obtain ⟨len', lcs, dcs, hbytes, hlen, -⟩ := h
  have hsize := congrArg List.length hbytes
  have hcount := congrArg (fun bytes => bytes[3]?) hbytes
  simp only [queuedFrame, header, List.length_take, List.length_append, List.length_cons,
    List.length_nil, List.length_map, List.length_range, length_commandBytes] at hsize
  simp only [queuedFrame, header, List.getElem?_take_of_lt (show 3 < 64 by decide)] at hcount
  obtain rfl : len + 1 = len' := by simpa using hcount
  rw [length_commandBytes] at hlen
  unfold rounds at hsize
  unfold twBufferLength
  omega

/-- The frame of a command that fits is complete. -/
theorem commandFrame_complete (cmd : Buffer) {len : Byte} (hlen : Fits len) :
    CompleteFrame (commandBytes cmd len) (commandFrame (commandBytes cmd len)) := by
  refine ⟨_, _, _, commandFrame_eq cmd len, ?_, ?_, ?_⟩
  · unfold Fits twBufferLength at hlen
    rw [length_commandBytes]
    bv_omega
  · rw [complement_eq]
    exact add_neg_cancel _
  · rw [checksum_eq]
    exact add_neg_cancel _

/-- **Which commands `write_cmd` copes with.** It returns, and what it has sent is a complete frame, if
and only if the frame is not longer than the transmit buffer. -/
theorem writeCmd_complete_iff {held : Bool} {m : TwMachine} (port : EPort) (cmd : Buffer) (len : Byte)
    (hready : Ready held m) :
    (Returns (writeCmd port cmd len) m fun _ m' => ∃ bytes, Transmitted bytes m m' ∧
      (bytes ≠ [] → CompleteFrame (commandBytes cmd len) bytes)) ↔ len.toNat + 8 ≤ twBufferLength := by
  constructor
  · intro hreturns
    by_cases hrounds : rounds len ≤ 58
    · obtain ⟨_, m', ⟨⟨bytes, hsent, hcomplete⟩, hat, -⟩, -⟩ :=
        (hreturns.and (writeCmd_queued port cmd hrounds hready)).exists_iff
      have hbytes : bytes = queuedFrame cmd len := by
        have htraffic := hsent.traffic.symm.trans hat.log
        simpa using List.append_cancel_left htraffic
      subst hbytes
      refine room_of_complete (hcomplete ?_)
      simp [queuedFrame, header]
    · exact absurd hreturns (writeCmd_stuck port cmd (by omega) hready)
  · intro hlen
    apply (writeCmd_total port cmd len hlen hready).mono
    rintro _ m' ⟨hat, -⟩
    exact ⟨_, ⟨hat.log, hat.device⟩, fun _ => commandFrame_complete cmd hlen⟩

/-- The command of `PowerDown` is one of them. -/
theorem writeCmd_complete_iff_sleepCommand :
    (Returns (writeCmd .north sleepCommand 3) acknowledged fun _ m' =>
      ∃ bytes, Transmitted bytes acknowledged m' ∧
        (bytes ≠ [] → CompleteFrame (commandBytes sleepCommand 3) bytes)) ↔
      (3 : Byte).toNat + 8 ≤ twBufferLength :=
  writeCmd_complete_iff .north sleepCommand 3 acknowledged_ready

/-- A payload of 100 bytes is tried for ever. -/
theorem writeCmd_not_complete :
    ¬ ∀ (port : EPort) (cmd : Buffer) (len : Byte) (held : Bool) (m : TwMachine), Ready held m →
      Returns (writeCmd port cmd len) m fun _ m' => ∃ bytes, Transmitted bytes m m' ∧
        (bytes ≠ [] → CompleteFrame (commandBytes cmd len) bytes) := by
  intro hall
  have hlong : 58 < rounds 100 := by decide
  exact writeCmd_stuck .north sleepCommand hlong acknowledged_ready
    (hall .north sleepCommand 100 false acknowledged acknowledged_ready)

end CNFCController

end SmartblocksOs.Board
