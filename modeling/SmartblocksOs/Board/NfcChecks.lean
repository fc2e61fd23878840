/-
# SmartblocksOs.Board.NfcChecks -- what the calls make of a reply

`P2PInitiatorTxRx` and `P2PTargetTxRx` take the length of the data from the length byte of the reply, less
the three bytes before the data, and clamp it to the capacity of the caller's buffer. The subtraction is
one of bytes: for a length below 3 it wraps, and then only the capacity limits what is handed out
(`rxCount_eq_iff`). They do not look at how much of the reply has been received either: behind its end, or
behind the 60 bytes that `read_dt` is asked for, the buffer holds other things (`handOut_measured_iff`).

`Probe` compares the reply to the header it expects with `strncmp`, from the preamble on; the preamble is
0, and that is where `strncmp` stops (`probe_accepts_iff`).
-/
import Mathlib.Tactic.IntervalCases
import SmartblocksOs.Board.NfcReplies

namespace SmartblocksOs.Board

open SmartblocksOs.Foundation SmartblocksOs.System SmartblocksOs.Foundation.TwoWire

namespace CNFCController

/-- The size of `m_punIOBuffer`. -/
def nfcCmdBufLen : Nat := 64

/-- How many bytes of data a frame with the length byte `len` announces. -/
def announced (len : Byte) : Nat := len.toNat - 3

/-- The byte subtraction is right from 3 on, or where nothing is asked for. -/
theorem rxCount_eq_iff (io : Buffer) (n : Byte) :
    (rxCount io n).toNat = min n.toNat (announced (io 3)) ↔ 3 ≤ (io 3).toNat ∨ n = 0 := by
  have hlength := (io 3).isLt
  have hn := n.isLt
  have hzero : n = 0 ↔ n.toNat = 0 := by
    rw [← BitVec.toNat_inj]
    rfl
  have hsub : (io 3 - 3).toNat = if 3 ≤ (io 3).toNat then (io 3).toNat - 3
      else (io 3).toNat + 253 := by
    split
    · bv_omega
    · bv_omega
  simp only [rxCount, announced, hzero, BitVec.lt_def, apply_ite BitVec.toNat, hsub]
  split_ifs <;> omega

/-! ## Replies, as they are received and as they are read

The same reply in three forms: the bytes that came over the bus, the bytes in the buffer with fillers for
those missing, and the fields that the calls look at. -/

/-- Bytes behind those asked for are not stored. -/
theorem overwrite_take (buf : Buffer) (n : Nat) (bytes : List Byte) :
    overwrite buf n (bytes.take n) = overwrite buf n bytes := by
  funext i
  unfold overwrite
  split
  · rename_i hi
    rw [List.getD_eq_getElem?_getD, List.getD_eq_getElem?_getD, List.getElem?_take_of_lt hi]
  · rfl

/-- To write the bytes that have been received once more changes nothing. -/
theorem assign_overwrite (buf : Buffer) (n : Nat) (bytes : List Byte) :
    assign (overwrite buf n bytes) (bytes.take n) = overwrite buf n bytes := by
  funext i
  by_cases hi : i < (bytes.take n).length
  · exact assign_of_getElem? (NfcCall.overwrite_of_lt _ hi)
  · exact assign_of_le (Nat.le_of_not_lt hi)

namespace NfcCall

variable {port : EPort} {c : NfcCall}

/-- A reply is no longer than what was asked for. -/
theorem received_take (heard : List (List Byte)) (c : NfcCall) :
    (c.received heard).take c.replyLen.toNat = c.received heard := by
  rw [received, List.take_take, min_self]

/-- What `read_dt` has read for the first reply is what has been received, filled up with `0xFF`. -/
theorem traced_reply (io : Buffer) (c : NfcCall) :
    Hears (c.traced port io) fun o heard => ∀ bytes, o.replies.head? = some (some bytes) →
      bytes = (List.range c.replyLen.toNat).map
        (overwrite (c.prepared io) c.replyLen.toNat (c.received heard)) := by
  apply Hears.calledFor
  refine (exchange_hears _ _ _).seq fun r heard hex => ?_
  obtain ⟨reply, frame⟩ := r
  -- the first reply is the first in any case
  have hconclude : ∀ reply, Hears (c.conclude port reply frame) fun o _ => o.replies.head? = some reply := by
    intro reply
    cases c with
    | p2pTargetTxRx tx txLen rx rxLen =>
        exact (exchange_hears _ _ _).seq fun r' _ _ => .ite (fun _ => .pure rfl) fun _ => .pure rfl
    | _ => exact .pure rfl
  cases hex with
  | refused _ => exact .pure fun bytes hbytes => absurd hbytes (by simp)
  | unread hack =>
      refine .ite (fun _ => (hconclude none).mono fun o heard' ho bytes hbytes => ?_) fun _ => .pure ?_
      · exact absurd (ho.symm.trans hbytes) (by simp)
      · exact fun bytes hbytes => absurd hbytes (by simp)
  | replied followed hack =>
      refine .ite (fun _ => (hconclude _).mono fun o heard' ho bytes hbytes => ?_) fun _ => .pure ?_
      · rw [received_replied, overwrite_take]
        exact (Option.some.inj (Option.some.inj (ho.symm.trans hbytes))).symm
      · intro bytes hbytes
        rw [received_replied, overwrite_take]
        exact (Option.some.inj (Option.some.inj hbytes)).symm

/-! ## The length of the data

The length byte counts the direction, the code of the reply and the data with its status. -/

/-- `P2PTargetTxRx` has had its own command replied to as well. -/
def OwnAccepted (o : Outcome) : NfcCall → Prop
  | p2pTargetTxRx _ _ _ _ => o.replies.length = 2 ∧ acceptsSetData o.io = true
  | _ => True

/-- A reply has been read, and what has been received of it passes the checks. -/
structure Accepted (heard : List (List Byte)) (o : Outcome) (c : NfcCall) : Prop where
  read : ∃ bytes, o.replies.head? = some (some bytes)
  accepts : ∀ io, c.accepts (assign io (c.received heard)) = true
  own : c.OwnAccepted o

/-- The length byte of a frame. -/
def lengthByte (frame : List Byte) : Byte := frame.getD 3 0

/-- As many bytes of data are handed out as `frame` announces and the caller has room for, they are those
of the frame in their order, and nothing else in the caller's buffer is overwritten. -/
structure Measured (frame : List Byte) (o : Outcome) (c : NfcCall) : Prop where
  count : o.count.toNat = min c.rxLen.toNat (announced (lengthByte frame))
  data : ∀ i < o.count.toNat, frame[8 + i]? = some (o.rx i)
  behind : ∀ i, o.count.toNat ≤ i → o.rx i = c.rx i

/-- What an accepted reply comes to. -/
theorem conclude_outcome (hc : c.HandsOut) (reply : Reply) (io : Buffer) :
    Hears (c.conclude port reply io) fun o _ => c.OwnAccepted o →
      o.replies.head? = some reply ∧ o.count = rxCount io c.rxLen ∧
        o.rx = memcpy c.rx 0 (fun i => io (i + 8)) o.count.toNat := by
  cases c with
  | p2pInitiatorTxRx tx txLen rx rxLen => exact .pure fun _ => ⟨rfl, rfl, rfl⟩
  | p2pTargetTxRx tx txLen rx rxLen =>
      refine (exchange_hears _ _ _).seq fun r _ _ => ?_
      obtain ⟨reply', io'⟩ := r
      refine .ite (fun _ => .pure fun _ => ⟨rfl, rfl, rfl⟩) fun hrefused => .pure fun hown => ?_
      obtain ⟨htwo, haccepts⟩ := hown
      cases reply' with
      | none => exact absurd htwo (by simp)
      | some reply' => exact absurd haccepts (by simpa using hrefused)
  | _ => exact absurd hc id

/-- The status is checked, and it is the byte before the data. -/
theorem eight_le_length (hc : c.HandsOut) {buf : Buffer} {followed : List Byte}
    (h : c.accepts (overwrite buf c.replyLen.toNat followed) = true) :
    8 ≤ (followed.take c.replyLen.toNat).length := by
  have hstatus : overwrite buf c.replyLen.toNat followed 7 = 0x00 := by
    cases c with
    | p2pInitiatorTxRx tx txLen rx rxLen | p2pTargetTxRx tx txLen rx rxLen =>
        exact beq_iff_eq.mp (Bool.and_eq_true_iff.mp h).2
    | _ => exact absurd hc id
  have h7 := overwrite_received buf followed c.seven_lt_replyLen (by rw [hstatus]; decide)
  exact (List.getElem?_eq_some_iff.mp h7).1

/-- The bytes that are handed out have been received if they come before the end of the reply. -/
theorem data_iff (rx : Buffer) {io : Buffer} {frame : List Byte} {n : Nat} (hlength : 8 ≤ frame.length)
    (hframe : ∀ i < frame.length, frame[i]? = some (io i)) :
    (∀ i < n, frame[8 + i]? = some (memcpy rx 0 (fun i => io (i + 8)) n i)) ↔ 8 + n ≤ frame.length := by
  constructor
  · intro hdata
    by_contra hlt
    obtain ⟨k, rfl⟩ := Nat.exists_eq_add_one.mpr (show 0 < n by omega)
    have hlast := (List.getElem?_eq_some_iff.mp (hdata k (Nat.lt_succ_self k))).1
    omega
  · intro hle i hi
    rw [memcpy_of_lt (Nat.zero_le i) (by omega), Nat.sub_zero, Nat.add_comm i 8]
    exact hframe (8 + i) (by omega)

/-- What a call hands out, where it has accepted a reply: the count is right, and the data has been
received, just when the length byte is, and the reply was long enough for the data it announces. -/
theorem traced_measured (hc : c.HandsOut) (io : Buffer) :
    Hears (c.traced port io) fun o heard => c.Accepted heard o →
      (c.Measured (c.received heard) o ↔
        (3 ≤ (lengthByte (c.received heard)).toNat ∨ c.rxLen = 0) ∧
          8 + min c.rxLen.toNat (announced (lengthByte (c.received heard))) ≤ (c.received heard).length) := by
  apply Hears.calledFor
  refine (exchange_hears _ _ _).seq fun r heard hex => ?_
  obtain ⟨reply, frame⟩ := r
  cases hex with
  -- without a reply nothing is accepted
  | refused _ => exact .pure fun haccepted => absurd haccepted.read (by simp)
  | unread hack =>
      refine .ite (fun _ => (conclude_outcome hc none _).mono fun o heard' ho haccepted => ?_) fun _ => .pure ?_
      · obtain ⟨bytes, hread⟩ := haccepted.read
        exact absurd ((ho haccepted.own).1.symm.trans hread) (by simp)
      · exact fun haccepted => absurd haccepted.read (by simp)
  | replied followed hack =>
      refine .ite (fun haccepts => (conclude_outcome hc _ _).mono fun o heard' ho haccepted => ?_)
        fun hrefused => .pure fun haccepted => ?_
      · obtain ⟨-, hcount, hrx⟩ := ho haccepted.own
        have hlength := eight_le_length hc haccepts
        have hbyte : lengthByte (followed.take c.replyLen.toNat) =
            overwrite (c.prepared io) c.replyLen.toNat followed 3 := by
          rw [lengthByte, List.getD_eq_getElem?_getD, overwrite_of_lt (c.prepared io) (by omega)]
          rfl
        rw [received_replied, hbyte, ← rxCount_eq_iff, ← hcount]
        -- the data handed out is a piece of the buffer: it has been received just as far as the reply
        -- reaches
        have hdata := data_iff c.rx (n := o.count.toNat) hlength
          fun i hi => overwrite_of_lt (c.prepared io) hi
        constructor
        · rintro ⟨hright, hdata', -⟩
          rw [hbyte] at hright
          rw [hrx] at hdata'
          rw [← hright]
          exact ⟨rfl, hdata.mp hdata'⟩
        · rintro ⟨hright, hle⟩
          rw [← hright] at hle
          refine ⟨by rw [hbyte]; exact hright, ?_, fun i hi => ?_⟩
          · rw [hrx]
            exact hdata.mpr hle
          · rw [hrx]
            exact memcpy_of_le (by omega)
      -- the check has failed on the buffer, so that it cannot succeed on the reply in that buffer
      · have haccepts := haccepted.accepts (overwrite (c.prepared io) c.replyLen.toNat followed)
        rw [List.append_nil] at haccepts
        replace haccepts : c.accepts (assign (overwrite (c.prepared io) c.replyLen.toNat followed)
          (followed.take c.replyLen.toNat)) = true := haccepts
        rw [assign_overwrite] at haccepts
        exact absurd haccepts hrefused

/-- **How much is handed out.** When a reply and, for `P2PTargetTxRx`, the one to its own command have
been accepted, the data is measured right if and only if the length byte is at least 3, or there is no room
for any data, and the reply has been received to the end of the data that there is room for. -/
theorem handOut_measured_iff {fuel : Nat} {m m' : TwMachine} {io : Buffer} {o : Outcome}
    {heard : List (List Byte)} (hc : c.HandsOut)
    (hexec : Prog.exec twiReact fuel (c.traced port io) m = some (o, m'))
    (hheard : answers m'.log = answers m.log ++ heard) (haccepted : c.Accepted heard o) :
    c.Measured (c.received heard) o ↔
      (3 ≤ (lengthByte (c.received heard)).toNat ∨ c.rxLen = 0) ∧
        8 + min c.rxLen.toNat (announced (lengthByte (c.received heard))) ≤ (c.received heard).length := by
  obtain ⟨heard', hheard', hmeasured⟩ := (traced_measured hc io).exec hexec
  obtain rfl : heard' = heard := List.append_cancel_left (hheard'.symm.trans hheard)
  exact hmeasured haccepted

end NfcCall

/-- A PN532 that acknowledges all it is sent. The command ends with the `n`-th thing on the bus; then come
the acknowledge and `reply`. -/
def replying (n : Nat) (reply : List Byte) : TwMachine :=
  let sent : List Byte := [0x00, 0x00, 0x01] ++ ack ++ [0x00, 0x00, 0x00, 0x01] ++ reply
  ⟨atRest, ⟨.idle, fun i => ⟨none, true, sent.getD (i - n) 0⟩, []⟩, []⟩

/-- What comes of a call with one exchange. -/
def replied (c : NfcCall) (n : Nat) (reply : List Byte) : Outcome :=
  let r := exchanged (replying n reply).device (c.prepared fun _ => 0) c.len c.replyLen
  c.concluded (r.1, r.2.1)

/-- A call with a PN532 that acknowledges and replies, run to its end. -/
theorem replied_exec {c : NfcCall} (n : Nat) (reply : List Byte) (hlen : Fits c.len)
    (hone : ∀ port reply io, c.conclude port reply io = pure ⟨c.count io, c.handOut io, io, [reply]⟩) :
    ∃ fuel m', Prog.exec twiReact fuel (c.traced .north fun _ => 0) (replying n reply) =
      some (replied c n reply, m') := by
  have hm : AtHand (replying n reply).device [] (replying n reply) (replying n reply) :=
    ⟨⟨false, rfl, rfl, rfl⟩, rfl, rfl, rfl⟩
  obtain ⟨fuel, o, m', hexec, -, ho⟩ := NfcCall.traced_total .north (fun _ => 0) hlen (hone .north) hm
  obtain rfl : o = replied c n reply := ho
  exact ⟨fuel, m', hexec⟩

/-- `P2PInitiatorTxRx` without a payload, for one byte in return. -/
def fetch : NfcCall := .p2pInitiatorTxRx (fun _ => 0) 0 (fun _ => 0) 1

/-- A reply to it with the length byte `len`. -/
def dataReply (len : Byte) : List Byte :=
  [0x00, 0x00, 0xFF, len, -len, 0xD5, 0x41, 0x00, 0x54] ++ List.replicate 51 0x00

/-- Then what is received of it passes the checks. -/
theorem fetch_accepted {len : Byte} {m m' : TwMachine} {fuel : Nat}
    (hexec : Prog.exec twiReact fuel (fetch.traced .north fun _ => 0) m =
      some (replied fetch 12 (dataReply len), m'))
    (hreply : (replied fetch 12 (dataReply len)).replies = [some (dataReply len)])
    (haccepts : fetch.accepts (assign (fun _ => 0) (dataReply len)) = true) (hlen : len ≠ 0xFF) :
    ∃ heard, answers m'.log = answers m.log ++ heard ∧
      fetch.Accepted heard (replied fetch 12 (dataReply len)) ∧
      NfcCall.lengthByte (fetch.received heard) = len := by
  obtain ⟨heard, hheard, hread⟩ := (NfcCall.traced_reply (fun _ => 0) fetch).exec hexec
  replace hread := hread (dataReply len) (by rw [hreply]; rfl)
  -- the buffer is the reply, with 0 behind it
  have hsame : ∀ i < 60, overwrite (fetch.prepared fun _ => 0) 60 (fetch.received heard) i =
      assign (fun _ => 0) (dataReply len) i := by
    intro i hi
    rw [assign, List.getD_eq_getElem?_getD, hread]
    simp [fetch, NfcCall.replyLen, hi]
  have hchecked : fetch.accepts (overwrite (fetch.prepared fun _ => 0) 60 (fetch.received heard)) = true :=
    NfcCall.accepts_congr (fun i hi _ => hsame i hi) haccepts
  refine ⟨heard, hheard, ⟨⟨_, by rw [hreply]; rfl⟩, fun io => ?_, trivial⟩, ?_⟩
  · have h := (NfcCall.accepts_received (c := fetch) hchecked io).1
    rwa [NfcCall.received_take] at h
  · have hthree := hsame 3 (by decide)
    have h := overwrite_received (fetch.prepared fun _ => 0) (fetch.received heard)
      (show 3 < 60 by decide) (by rw [hthree]; exact hlen)
    rw [hthree] at h
    have htake : (fetch.received heard).take 60 = fetch.received heard := NfcCall.received_take heard fetch
    rw [htake] at h
    rw [NfcCall.lengthByte, List.getD_eq_getElem?_getD, h]
    rfl

/-- One byte is announced, and one is handed out. -/
theorem handOut_measured_iff_one : (replied fetch 12 (dataReply 4)).count = 1 ∧
    ∃ heard, fetch.Accepted heard (replied fetch 12 (dataReply 4)) ∧
      (fetch.Measured (fetch.received heard) (replied fetch 12 (dataReply 4)) ↔
        (3 ≤ (NfcCall.lengthByte (fetch.received heard)).toNat ∨ fetch.rxLen = 0) ∧
          8 + min fetch.rxLen.toNat (announced (NfcCall.lengthByte (fetch.received heard))) ≤
            (fetch.received heard).length) := by
  obtain ⟨fuel, m', hexec⟩ := replied_exec (c := fetch) 12 (dataReply 4) (by decide) fun _ _ _ => rfl
  obtain ⟨heard, hheard, haccepted, -⟩ :=
    fetch_accepted hexec (by decide +kernel) (by decide) (by decide)
  exact ⟨by decide +kernel, heard, haccepted,
    NfcCall.handOut_measured_iff trivial hexec hheard haccepted⟩

/-- None is announced, and yet one is handed out. -/
theorem handOut_not_measured :
    ¬ ∀ (fuel : Nat) (m m' : TwMachine) (port : EPort) (io : Buffer) (c : NfcCall) (o : Outcome)
      (heard : List (List Byte)), c.HandsOut →
      Prog.exec twiReact fuel (c.traced port io) m = some (o, m') →
      answers m'.log = answers m.log ++ heard → c.Accepted heard o → 8 + c.rxLen.toNat ≤ nfcCmdBufLen →
        c.Measured (c.received heard) o := by
  intro hall
  obtain ⟨fuel, m', hexec⟩ := replied_exec (c := fetch) 12 (dataReply 2) (by decide) fun _ _ _ => rfl
  have hcount : (replied fetch 12 (dataReply 2)).count = 1 := by decide +kernel
  obtain ⟨heard, hheard, haccepted, hlen⟩ :=
    fetch_accepted hexec (by decide +kernel) (by decide) (by decide)
  have hmeasured := hall fuel _ m' .north _ fetch _ heard trivial hexec hheard haccepted (by decide)
  have hnone := hmeasured.count
  rw [hlen, hcount] at hnone
  exact absurd hnone (by decide)

/-! ## The header of the reply to `Probe`

Six bytes are named in the comparison and one is compared. -/

/-- What `Probe` goes by: of the header only the last two bytes are looked at. -/
theorem probe_accepts_iff (io : Buffer) :
    NfcCall.probe.accepts io = true ↔ io 0 = 0x00 ∧ io 5 = 0xD5 ∧ io 6 = 0x03 := by
  have hid : (io 6).toNat = ECommand.getFirmwareVersion.code.toNat + 1 ↔ io 6 = 0x03 := by
    rw [← BitVec.toNat_inj]
    rfl
  simp only [NfcCall.accepts, isFromPn532, isReplyTo, strncmpEq_nfcVersion, nfcFrameDirectionIndex,
    nfcFrameIdIndex, pn532Pn532ToHost, Bool.and_eq_true, beq_iff_eq, hid]
  tauto

/-- A reply that passes although the bytes before `D5 03` are others than `00 FF 06 FA`. -/
def Mistakable (bytes : List Byte) : Prop :=
  bytes[0]? = some 0x00 ∧ bytes[5]? = some 0xD5 ∧ bytes[6]? = some 0x03 ∧
    ¬ (bytes[1]? = some 0x00 ∧ bytes[2]? = some 0xFF ∧ bytes[3]? = some 0x06 ∧ bytes[4]? = some 0xFA)

/-- The header of the firmware version reply, byte by byte. -/
theorem header_iff (frame : Buffer) : (∀ i < 6, frame (1 + i) = nfcVersion i) ↔
    (frame 1 = 0x00 ∧ frame 2 = 0xFF ∧ frame 3 = 0x06 ∧ frame 4 = 0xFA) ∧ frame 5 = 0xD5 ∧ frame 6 = 0x03 := by
  constructor
  · exact fun h => ⟨⟨h 0 (by decide), h 1 (by decide), h 2 (by decide), h 3 (by decide)⟩,
      h 4 (by decide), h 5 (by decide)⟩
  · rintro ⟨⟨h₁, h₂, h₃, h₄⟩, h₅, h₆⟩ i hi
    interval_cases i
    · exact h₁
    · exact h₂
    · exact h₃
    · exact h₄
    · exact h₅
    · exact h₆

/-- The reply that `Probe` accepts with a wrong header. -/
theorem mistakable_iff (frame : Buffer) : Mistakable ((List.range 12).map frame) ↔
    NfcCall.probe.accepts frame = true ∧ ¬ ∀ i < 6, frame (1 + i) = nfcVersion i := by
  rw [probe_accepts_iff, header_iff]
  simp only [Mistakable, List.getElem?_map, List.getElem?_range (show 0 < 12 by decide),
    List.getElem?_range (show 1 < 12 by decide), List.getElem?_range (show 2 < 12 by decide),
    List.getElem?_range (show 3 < 12 by decide), List.getElem?_range (show 4 < 12 by decide),
    List.getElem?_range (show 5 < 12 by decide), List.getElem?_range (show 6 < 12 by decide),
    Option.map_some, Option.some.injEq]
  tauto

/-- A reply that passes has the expected header, unless the bytes read for it can be mistaken. -/
theorem probe_replied_iff {io frame : Buffer} {reply : Reply} {heard : List (List Byte)}
    (hex : Exchanged (NfcCall.probe.prepared io) NfcCall.probe.replyLen heard (some reply, frame)) :
    (NfcCall.probe.accepts frame = true → ∀ i < 6, frame (1 + i) = nfcVersion i) ↔
      ∀ bytes, [reply] = [some bytes] → ¬ Mistakable bytes := by
  cases hex with
  | unread hack =>
      -- the command is still in the buffer, and it does not begin with the preamble
      refine iff_of_true (fun haccepts => ?_) fun bytes hbytes => absurd hbytes (by simp)
      exact absurd ((probe_accepts_iff _).mp haccepts).1 (by simp [NfcCall.prepared, assign, ECommand.code])
  | replied followed hack =>
      have hmistakable := mistakable_iff (overwrite (NfcCall.probe.prepared io) 12 followed)
      constructor
      · intro hheader bytes heq hmistaken
        obtain rfl := Option.some.inj (List.singleton_injective heq)
        obtain ⟨haccepts, hother⟩ := hmistakable.mp hmistaken
        exact hother (hheader haccepts)
      · intro hnot haccepts
        by_contra hother
        exact hnot _ rfl (hmistakable.mpr ⟨haccepts, hother⟩)

/-- **What `Probe` checks.** It returns `true` for the expected header only, if and only if the reply read
is not such a one. -/
theorem probe_header_iff {fuel : Nat} {m m' : TwMachine} {port : EPort} {io : Buffer} {o : Outcome}
    (hexec : Prog.exec twiReact fuel (NfcCall.probe.traced port io) m = some (o, m')) :
    (o.count ≠ 0 → ∀ i < 6, o.io (1 + i) = nfcVersion i) ↔
      ∀ bytes, o.replies = [some bytes] → ¬ Mistakable bytes := by
  have hheader : Hears (NfcCall.probe.traced port io) fun o _ =>
      (o.count ≠ 0 → ∀ i < 6, o.io (1 + i) = nfcVersion i) ↔
        ∀ bytes, o.replies = [some bytes] → ¬ Mistakable bytes := by
    apply Hears.calledFor
    refine (exchange_hears _ _ _).seq fun r heard hex => ?_
    obtain ⟨reply, frame⟩ := r
    cases reply with
    | none => exact .pure (iff_of_true (fun hcount => absurd rfl hcount) fun _ h => absurd h (by simp))
    | some reply =>
        refine .ite (fun haccepts => .pure ?_) fun hrefused => .pure ?_
        · refine (imp_iff_right (show (1 : Byte) ≠ 0 by decide)).trans ?_
          rw [← probe_replied_iff hex, imp_iff_right haccepts]
        · refine iff_of_true (fun hcount => absurd rfl hcount) ?_
          exact (probe_replied_iff hex).mp fun haccepts => absurd haccepts hrefused
  obtain ⟨-, -, h⟩ := hheader.exec hexec
  exact h

/-- The reply of a working PN532, with its version. -/
def versionReply : List Byte := [0x00, 0x00, 0xFF, 0x06, 0xFA, 0xD5, 0x03, 0x32, 0x01, 0x06, 0x07, 0xE8]

/-- A reply of another length. -/
def otherReply : List Byte := [0x00, 0x00, 0xFF, 0x02, 0xFE, 0xD5, 0x03, 0x28, 0x00, 0x00, 0x00, 0x00]

/-- A working PN532 is recognised. -/
theorem probe_header_iff_version : (replied .probe 11 versionReply).count = 1 ∧
    (((replied .probe 11 versionReply).count ≠ 0 →
        ∀ i < 6, (replied .probe 11 versionReply).io (1 + i) = nfcVersion i) ↔
      ∀ bytes, (replied .probe 11 versionReply).replies = [some bytes] → ¬ Mistakable bytes) := by
  obtain ⟨fuel, m', hexec⟩ := replied_exec (c := .probe) 11 versionReply (by decide) fun _ _ _ => rfl
  exact ⟨by decide +kernel, probe_header_iff hexec⟩

/-- So is a reply that announces two bytes only. -/
theorem probe_other_header :
    ¬ ∀ (fuel : Nat) (m m' : TwMachine) (port : EPort) (io : Buffer) (o : Outcome),
      Prog.exec twiReact fuel (NfcCall.probe.traced port io) m = some (o, m') →
        o.count ≠ 0 → ∀ i < 6, o.io (1 + i) = nfcVersion i := by
  intro hall
  obtain ⟨fuel, m', hexec⟩ := replied_exec (c := .probe) 11 otherReply (by decide) fun _ _ _ => rfl
  have hcount : (replied .probe 11 otherReply).count ≠ 0 := by decide +kernel
  have hlength : (replied .probe 11 otherReply).io 3 ≠ nfcVersion 2 := by decide +kernel
  exact hlength (hall fuel _ m' .north _ _ hexec hcount 2 (by decide))

end CNFCController

end SmartblocksOs.Board
