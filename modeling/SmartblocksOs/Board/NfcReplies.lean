/-
# SmartblocksOs.Board.NfcReplies -- whether success is read from a reply

The calls of `CNFCController` do not look at what `read_dt` returns for a reply, and `read_dt` does not
look at how many bytes have come. When the PN532 stays busy the buffer holds what it held before, which is
the command, what an earlier call has left behind it, or the caller's own payload; when a poll is cut off
it is filled up with `0xFF`. No check asks for `0xFF`, so what a check has passed has been received
(`accepts_received`). The data is not checked, and has to have come as a whole (`Whole`). A call whose
buffer would not pass the checks by itself is not misled (`Safe`), and in every session of such calls
success comes from replies that have been received (`session_honest`).
-/
import SmartblocksOs.Board.NfcAnswers

namespace SmartblocksOs.Board

open SmartblocksOs.Foundation SmartblocksOs.System SmartblocksOs.Foundation.TwoWire

namespace CNFCController

open CTWController CPortController

/-! ## The checks

What each call compares before it reports success: the direction byte, the code of the reply, and for some
a status byte. `Probe` compares strings, and stops at the first zero. -/

/-- The comparison with the version stops at the preamble. -/
theorem strncmpEq_nfcVersion (io : Buffer) : strncmpEq io nfcVersion 6 0 = (io 0 == 0x00) := by
  have hpreamble : nfcVersion 0 = 0x00 := rfl
  rw [strncmpEq, hpreamble]
  generalize (io 0 == 0x00) = same
  cases same with
  | false => rfl
  | true => rfl

theorem assign_of_le {dst : Buffer} {bytes : List Byte} {i : Nat} (h : bytes.length ≤ i) :
    assign dst bytes i = dst i := by
  unfold assign
  rw [List.getD_eq_getElem?_getD, List.getElem?_eq_none h]
  rfl

theorem assign_of_getElem? {dst : Buffer} {bytes : List Byte} {i : Nat} {b : Byte} (h : bytes[i]? = some b) :
    assign dst bytes i = b := by
  unfold assign
  rw [List.getD_eq_getElem?_getD, h]
  rfl

theorem memcpy_of_lt {dst src : Buffer} {start n i : Nat} (hle : start ≤ i) (hlt : i < start + n) :
    memcpy dst start src n i = src (i - start) :=
  if_pos ⟨hle, hlt⟩

theorem memcpy_of_le {dst src : Buffer} {start n i : Nat} (hle : start + n ≤ i) :
    memcpy dst start src n i = dst i :=
  if_neg fun h => Nat.not_lt.mpr hle h.2

/-! ### No check asks for the filler

If a byte of the reply has not come, the buffer holds `0xFF` in its place. All checks that are made
compare with something else, so that a reply cut off before the bytes compared is never accepted. -/

section

variable {io io' : Buffer} {i : Nat}

/-- A comparison with a byte that is not the filler succeeds on the reply if it does on the buffer. -/
theorem beq_received {b : Byte} (hb : b ≠ 0xFF) (hsame : io i ≠ 0xFF → io' i = io i)
    (h : (io i == b) = true) : (io' i == b) = true := by
  have hi : io i = b := beq_iff_eq.mp h
  rw [hsame (hi ▸ hb)]
  exact h

/-- The direction is such a byte. -/
theorem isFromPn532_received (hsame : io 5 ≠ 0xFF → io' 5 = io 5) (h : isFromPn532 io = true) :
    isFromPn532 io' = true :=
  beq_received (by decide) hsame h

/-- The answer to a command has a code of its own. -/
theorem ne_filler_of_isReplyTo {command : ECommand} (h : isReplyTo io command = true) : io 6 ≠ 0xFF := by
  intro hfiller
  have hid : (io 6).toNat = command.code.toNat + 1 := beq_iff_eq.mp h
  rw [hfiller] at hid
  cases command <;> exact absurd hid (by decide)

theorem isReplyTo_received {command : ECommand} (hsame : io 6 ≠ 0xFF → io' 6 = io 6)
    (h : isReplyTo io command = true) : isReplyTo io' command = true := by
  have hid : io' nfcFrameIdIndex = io nfcFrameIdIndex := hsame (ne_filler_of_isReplyTo h)
  unfold isReplyTo
  rw [hid]
  exact h

/-- The reply to `TgSetData` is judged by three bytes of it, whatever else is in the buffer. -/
theorem acceptsSetData_congr (hsame : ∀ i < 26, io i ≠ 0xFF → io' i = io i)
    (h : acceptsSetData io = true) : acceptsSetData io' = true := by
  simp only [acceptsSetData, Bool.and_eq_true] at h ⊢
  obtain ⟨⟨hfrom, hid⟩, hstatus⟩ := h
  refine ⟨⟨isFromPn532_received (hsame 5 (by decide)) hfrom, isReplyTo_received (hsame 6 (by decide)) hid⟩, ?_⟩
  exact beq_received (by decide) (hsame 7 (by decide)) hstatus

namespace NfcCall

/-- Every call asks for the bytes it checks. -/
theorem seven_lt_replyLen (c : NfcCall) : 7 < c.replyLen.toNat := by
  cases c <;> simp [replyLen]

/-- Every call checks the command that is replied to. -/
theorem ne_filler_of_accepts {c : NfcCall} (h : c.accepts io = true) : io 6 ≠ 0xFF := by
  cases c with
  | configureSAM mode timeout useIrq => exact ne_filler_of_isReplyTo h
  | p2pTargetInit => exact ne_filler_of_isReplyTo (Bool.and_eq_true_iff.mp h).2
  | _ => exact ne_filler_of_isReplyTo (Bool.and_eq_true_iff.mp (Bool.and_eq_true_iff.mp h).1).2

/-- The checks look at no more than the reply, and at nothing that may be the filler. -/
theorem accepts_congr {c : NfcCall} (hsame : ∀ i < c.replyLen.toNat, io i ≠ 0xFF → io' i = io i)
    (h : c.accepts io = true) : c.accepts io' = true := by
  have h7 := c.seven_lt_replyLen
  have hid : ∀ {command : ECommand}, isReplyTo io command = true → isReplyTo io' command = true :=
    isReplyTo_received (hsame 6 (by omega))
  have hfrom : isFromPn532 io = true → isFromPn532 io' = true :=
    isFromPn532_received (hsame 5 (by omega))
  cases c with
  | configureSAM mode timeout useIrq => exact hid h
  | p2pTargetInit =>
      simp only [accepts, Bool.and_eq_true] at h ⊢
      exact ⟨hfrom h.1, hid h.2⟩
  | hasExternalField =>
      simp only [accepts, Bool.and_eq_true] at h ⊢
      exact ⟨⟨hfrom h.1.1, hid h.1.2⟩, beq_received (by decide) (hsame 8 (by decide)) h.2⟩
  | powerDown =>
      simp only [accepts, Bool.and_eq_true] at h ⊢
      refine ⟨⟨hfrom h.1.1, hid h.1.2⟩, ?_⟩
      -- the filler has bits of the status set
      have hstatus : io nfcFrameStatusIndex ≠ 0xFF := by
        intro hfiller
        have h0 := h.2
        rw [hfiller] at h0
        exact absurd h0 (by decide)
      rw [hsame nfcFrameStatusIndex (by decide) hstatus]
      exact h.2
  | probe =>
      simp only [accepts, strncmpEq_nfcVersion, Bool.and_eq_true] at h ⊢
      exact ⟨⟨hfrom h.1.1, hid h.1.2⟩, beq_received (by decide) (hsame 0 (by decide)) h.2⟩
  | p2pInitiatorInit | p2pInitiatorTxRx _ _ _ _ | p2pTargetTxRx _ _ _ _ =>
      simp only [accepts, Bool.and_eq_true] at h ⊢
      exact ⟨⟨hfrom h.1.1, hid h.1.2⟩, beq_received (by decide) (hsame 7 h7) h.2⟩

/-- The count depends on the length byte. -/
theorem count_congr (c : NfcCall) (h : io 3 = io' 3) : c.count io = c.count io' := by
  cases c <;> simp [count, rxCount, h]

end NfcCall

end

/-- What has been received stands in the buffer, whatever it is written over. -/
theorem assign_received {buf io : Buffer} {n i : Nat} {followed : List Byte} (hi : i < n)
    (hne : overwrite buf n followed i ≠ 0xFF) :
    assign io (followed.take n) i = overwrite buf n followed i :=
  assign_of_getElem? (overwrite_received _ _ hi hne)

namespace NfcCall

variable {c : NfcCall} {buf : Buffer} {followed : List Byte}

/-- A reply that passes the checks passes them by what has been received of it, and so does its length. -/
theorem accepts_received (h : c.accepts (overwrite buf c.replyLen.toNat followed) = true) (io : Buffer) :
    c.accepts (assign io (followed.take c.replyLen.toNat)) = true ∧
      c.count (assign io (followed.take c.replyLen.toNat)) =
        c.count (overwrite buf c.replyLen.toNat followed) := by
  refine ⟨accepts_congr (fun i hi => assign_received hi) h, c.count_congr ?_⟩
  have h7 := c.seven_lt_replyLen
  have h6 := overwrite_received _ _ (by omega) (ne_filler_of_accepts h)
  have hlength : 6 < (followed.take c.replyLen.toNat).length := (List.getElem?_eq_some_iff.mp h6).1
  rw [List.length_take] at hlength
  have h3 : 3 < c.replyLen.toNat := by omega
  have hin : 3 < followed.length := by omega
  rw [assign_of_getElem? (b := followed[3]) (by rw [List.getElem?_take_of_lt h3, List.getElem?_eq_getElem hin])]
  simp [overwrite, h3, hin]

/-! ## Calls that are not misled

A call is misled when the bytes it checks have been in the buffer before. That depends on what it puts
there itself: the command and, for the calls with a payload, the payload. -/

/-- How much the caller's buffer holds. -/
def rxLen : NfcCall → Byte
  | p2pInitiatorTxRx _ _ _ rxLen | p2pTargetTxRx _ _ _ rxLen => rxLen
  | _ => 0

/-- The calls that hand data out. -/
def HandsOut : NfcCall → Prop
  | p2pInitiatorTxRx _ _ _ _ | p2pTargetTxRx _ _ _ _ => True
  | _ => False

/-- The payload of `P2PTargetTxRx`, as part of a command, looks like the reply to that command. -/
def Misleading : NfcCall → Prop
  | p2pTargetTxRx tx txLen _ _ =>
      6 ≤ txLen.toNat ∧ tx 4 = pn532Pn532ToHost ∧ tx 5 = 0x8F ∧ (7 ≤ txLen.toNat → tx 6 = 0)
  | _ => False

/-- With a buffer `io` that has not been overwritten by a reply, the call does not report success, and its
payload is not taken for a reply. -/
structure Safe (io : Buffer) (c : NfcCall) : Prop where
  rejected : c.accepts (c.prepared io) = true → c.count (c.prepared io) = 0
  payload : c.rxLen ≠ 0 → ¬ c.Misleading

/-- What `read_dt` can hand over of the reply among the answers in `heard`: the first one is to the command. -/
def received (heard : List (List Byte)) (c : NfcCall) : List Byte :=
  (heard.getD 1 []).take c.replyLen.toNat

/-- The reply is the second answer of an exchange. -/
theorem received_replied (acknowledge followed : List Byte) (heard : List (List Byte)) (c : NfcCall) :
    c.received ([acknowledge, followed] ++ heard) = followed.take c.replyLen.toNat :=
  rfl

/-- The poll that has brought the reply was not cut off before the end of the data that is handed out. -/
def Whole (heard : List (List Byte)) (c : NfcCall) : Prop :=
  c.HandsOut → (∀ io, c.accepts (assign io (c.received heard)) = true) →
    8 + (c.count (assign (fun _ => 0) (c.received heard))).toNat ≤ (c.received heard).length

/-- What is reported comes from replies that have been received after the commands had been acknowledged:
`heard` are the answers in the call, and what was in the buffer before does not matter. -/
structure Backed (heard : List (List Byte)) (o : Outcome) (c : NfcCall) : Prop where
  read : ∀ reply ∈ o.replies, reply.isSome = true
  acknowledged : ∃ acknowledge, heard[0]? = some acknowledge ∧ acknowledge.take 6 = ack
  replied : (heard[1]?).isSome = true
  checked : ∀ io, c.accepts (assign io (c.received heard)) = true ∧
    c.count (assign io (c.received heard)) = o.count
  data : c.HandsOut → ∀ i < o.count.toNat, (c.received heard)[8 + i]? = some (o.rx i)
  second : o.replies.length = 2 → ∃ acknowledge followed, heard[2]? = some acknowledge ∧
    acknowledge.take 6 = ack ∧ heard[3]? = some followed ∧
      ∀ io, acceptsSetData (assign io (followed.take 26)) = true

/-- `true`, or a count other than zero, is not reported for nothing. -/
def Honest (heard : List (List Byte)) (o : Outcome) (c : NfcCall) : Prop := o.count ≠ 0 → c.Backed heard o

/-- No more is handed out than was asked for. -/
theorem rxCount_le (io : Buffer) (n : Byte) : (rxCount io n).toNat ≤ n.toNat := by
  unfold rxCount
  dsimp only
  split
  · exact Nat.le_refl _
  · rename_i hle
    exact Nat.le_of_not_lt hle

/-- What is handed out is the reply from index 8 on. -/
theorem handOut_eq {io : Buffer} (hc : c.HandsOut) {i : Nat} (hi : i < (c.count io).toNat) :
    c.handOut io i = io (8 + i) := by
  cases c with
  | p2pInitiatorTxRx tx txLen rx rxLen | p2pTargetTxRx tx txLen rx rxLen =>
      have hcopied : memcpy rx 0 (fun i => io (i + 8)) (rxCount io rxLen).toNat i = io (i - 0 + 8) :=
        memcpy_of_lt (Nat.zero_le i) (by rw [Nat.zero_add]; exact hi)
      rw [Nat.sub_zero, Nat.add_comm] at hcopied
      exact hcopied
  | _ => exact absurd hc id

/-- A byte of the reply is in the buffer. -/
theorem overwrite_of_lt (buf : Buffer) {n i : Nat} (hi : i < (followed.take n).length) :
    (followed.take n)[i]? = some (overwrite buf n followed i) := by
  have hlength := hi
  rw [List.length_take] at hlength
  have hin : i < followed.length := by omega
  rw [List.getElem?_take_of_lt (by omega), List.getElem?_eq_getElem hin, overwrite, if_pos (by omega)]
  simp [hin]

/-- What is left of an accepted reply behind the payload is not taken for the reply to the payload. -/
theorem setData_rejected {io tx : Buffer} {txLen : Byte} {rx : Buffer} {rxLen : Byte}
    (haccepts : (p2pTargetTxRx tx txLen rx rxLen).accepts io = true)
    (hpayload : ¬ (p2pTargetTxRx tx txLen rx rxLen).Misleading) :
    acceptsSetData (setData io tx txLen) = false := by
  rw [Bool.eq_false_iff]
  intro htaken
  unfold accepts isFromPn532 isReplyTo nfcFrameDirectionIndex nfcFrameIdIndex at haccepts
  unfold acceptsSetData isFromPn532 isReplyTo nfcFrameDirectionIndex nfcFrameIdIndex at htaken
  simp only [Bool.and_eq_true, beq_iff_eq] at haccepts htaken
  obtain ⟨⟨hfrom, hid⟩, hstatus⟩ := htaken
  have hbehind : ∀ i, 1 + txLen.toNat ≤ i → i ≠ 0 → setData io tx txLen i = io i := by
    intro i hi hne
    exact (memcpy_of_le hi).trans (assign_of_le (by rw [List.length_singleton]; omega))
  have hinside : ∀ i, 1 ≤ i → i < 1 + txLen.toNat → setData io tx txLen i = tx (i - 1) :=
    fun i hle hlt => memcpy_of_lt hle hlt
  -- The payload reaches the bytes that are checked, and would have to look like a reply; or it does not,
  -- and the old reply to `TgGetData` is still there.
  by_cases hlong : 6 ≤ txLen.toNat
  · refine hpayload ⟨hlong, ?_, BitVec.eq_of_toNat_eq ?_, fun hlonger => ?_⟩
    · rw [hinside 5 (by omega) (by omega)] at hfrom
      exact hfrom
    · rw [hinside 6 (by omega) (by omega)] at hid
      exact hid
    · rw [hinside 7 (by omega) (by omega)] at hstatus
      exact hstatus
  · rw [hbehind 6 (by omega) (by omega), haccepts.1.2] at hid
    exact absurd hid (by decide)

/-! ## One call

Success of a call is a fact about what it has received, which is noted along the way; the theorem is
proved for each call from its exchange. -/

section

variable {port : EPort}

/-- A reply that passes the checks in a safe call has been received. -/
theorem accepted_replied {io io' : Buffer} {reply : Reply} {heard : List (List Byte)} (hsafe : c.Safe io)
    (hex : Exchanged (c.prepared io) c.replyLen heard (some reply, io')) (haccepts : c.accepts io' = true)
    (hcount : c.count io' ≠ 0) :
    ∃ acknowledge followed, heard = [acknowledge, followed] ∧ acknowledge.take 6 = ack ∧
      reply.isSome = true ∧ io' = overwrite (c.prepared io) c.replyLen.toNat followed := by
  cases hex with
  | unread hack => exact absurd (hsafe.rejected haccepts) hcount
  | replied followed hack => exact ⟨_, followed, rfl, hack, rfl, rfl⟩

/-- So has one to the second command, unless the payload looks like it. -/
theorem second_replied {tx : Buffer} {txLen : Byte} {rx : Buffer} {rxLen : Byte} {io io' : Buffer}
    {reply : Reply} {heard : List (List Byte)} (hpayload : ¬ (p2pTargetTxRx tx txLen rx rxLen).Misleading)
    (haccepts : (p2pTargetTxRx tx txLen rx rxLen).accepts io = true)
    (hex : Exchanged (setData io tx txLen) 26 heard (some reply, io'))
    (haccepts' : acceptsSetData io' = true) :
    ∃ acknowledge followed, heard = [acknowledge, followed] ∧ acknowledge.take 6 = ack ∧
      reply.isSome = true ∧ io' = overwrite (setData io tx txLen) 26 followed := by
  cases hex with
  | unread hack =>
      rw [setData_rejected haccepts hpayload] at haccepts'
      exact absurd haccepts' Bool.false_ne_true
  | replied followed hack => exact ⟨_, followed, rfl, hack, rfl, rfl⟩

/-- Something can be handed out only where it was asked for. -/
theorem rxLen_ne_zero {io : Buffer} {n : Byte} (h : rxCount io n ≠ 0) : n ≠ 0 := by
  rintro rfl
  have hle := rxCount_le io 0
  exact h (BitVec.eq_of_toNat_eq (Nat.le_zero.mp hle))

/-- The data of an accepted reply, as far as it has been received. -/
theorem data_received (hc : c.HandsOut)
    (hwhole : 8 + (c.count (overwrite buf c.replyLen.toNat followed)).toNat ≤
      (followed.take c.replyLen.toNat).length) :
    ∀ i < (c.count (overwrite buf c.replyLen.toNat followed)).toNat,
      (followed.take c.replyLen.toNat)[8 + i]? = some (c.handOut (overwrite buf c.replyLen.toNat followed) i) := by
  intro i hi
  rw [handOut_eq hc hi]
  exact overwrite_of_lt _ (by omega)

/-- What a call goes on to do when the reply is accepted; `heard` are the answers so far. -/
theorem conclude_hears {io io' : Buffer} {reply : Reply} {heard : List (List Byte)}
    (hex : Exchanged (c.prepared io) c.replyLen heard (some reply, io')) (haccepts : c.accepts io' = true) :
    Hears (c.conclude port reply io') fun o heard' =>
      c.Safe io → c.Whole (heard ++ heard') → c.Honest (heard ++ heard') o := by
  -- what there is to say of the first reply
  have hfirst : ∀ (heard' : List (List Byte)) (o : Outcome), o.count = c.count io' → o.rx = c.handOut io' →
      (∀ reply' ∈ o.replies, reply' = reply ∨ reply'.isSome = true) → c.count io' ≠ 0 → c.Safe io →
      c.Whole (heard ++ heard') →
      (o.replies.length = 2 → ∃ acknowledge followed, heard' = [acknowledge, followed] ∧
        acknowledge.take 6 = ack ∧ ∀ io, acceptsSetData (assign io (followed.take 26)) = true) →
      c.Backed (heard ++ heard') o := by
    intro heard' o hocount horx hreplies hcount hsafe hwhole hsecond
    obtain ⟨acknowledge, followed, rfl, hack, hsome, rfl⟩ := accepted_replied hsafe hex haccepts hcount
    have hreceived := received_replied acknowledge followed heard' c
    have hchecked := accepts_received haccepts
    unfold Whole at hwhole
    rw [hreceived] at hwhole
    refine ⟨fun reply' h => ?_, ⟨acknowledge, rfl, hack⟩, rfl, ?_, fun hc => ?_, fun htwo => ?_⟩
    · rcases hreplies reply' h with rfl | h
      · exact hsome
      · exact h
    · rw [hreceived, hocount]
      exact hchecked
    · have hle := hwhole hc fun io => (hchecked io).1
      rw [(hchecked _).2] at hle
      rw [hreceived, hocount, horx]
      exact data_received hc hle
    · obtain ⟨acknowledge', followed', rfl, hack', haccepts'⟩ := hsecond htwo
      exact ⟨acknowledge', followed', rfl, hack', rfl, haccepts'⟩
  cases c with
  | p2pTargetTxRx tx txLen rx rxLen =>
      refine (exchange_hears _ _ _).seq fun r heard' hex' => ?_
      obtain ⟨reply', io''⟩ := r
      refine .ite (fun haccepts' => .pure fun hsafe hwhole hcount => ?_) fun _ => .pure fun _ _ hcount => ?_
      · rw [Bool.and_eq_true, Option.isSome_iff_exists] at haccepts'
        obtain ⟨⟨second, rfl⟩, haccepts'⟩ := haccepts'
        obtain ⟨acknowledge', followed', rfl, hack', hsome', rfl⟩ :=
          second_replied (hsafe.payload (rxLen_ne_zero hcount)) haccepts hex' haccepts'
        rw [List.append_nil] at hwhole ⊢
        refine hfirst _ _ rfl rfl (fun reply' h => ?_) hcount hsafe hwhole fun _ => ?_
        · rcases List.mem_cons.mp h with rfl | h
          · exact Or.inl rfl
          · obtain rfl : reply' = second := by simpa using h
            exact Or.inr hsome'
        · exact ⟨acknowledge', followed', rfl, hack', fun io =>
            acceptsSetData_congr (fun i hi => assign_received hi) haccepts'⟩
      · exact absurd rfl hcount
  | _ =>
      refine .pure fun hsafe hwhole hcount => hfirst _ _ rfl rfl (fun reply' h => ?_) hcount hsafe hwhole ?_
      · exact Or.inl (List.mem_singleton.mp h)
      · exact fun htwo => absurd htwo (by simp)

/-- A safe call is honest when its reply comes as a whole. -/
theorem traced_hears (io : Buffer) (c : NfcCall) :
    Hears (c.traced port io) fun o heard => c.Safe io → c.Whole heard → c.Honest heard o := by
  apply Hears.calledFor
  refine (exchange_hears _ _ _).seq fun r heard hex => ?_
  obtain ⟨reply, io'⟩ := r
  cases reply with
  | none => exact .pure fun _ _ hcount => absurd rfl hcount
  | some reply =>
      exact .ite (conclude_hears hex) fun _ => .pure fun _ _ hcount => absurd rfl hcount

end

end NfcCall

/-! ## Sessions

The calls of a session share one buffer, so that a call starts with what the one before has left. -/

/-- A call, what `m_punIOBuffer` held before it, what has come of it, and the answers received in it. -/
structure Record where
  call : NfcCall
  before : Buffer
  outcome : Outcome
  heard : List (List Byte)

/-- Calls on one object, one after the other, with what `m_punIOBuffer` holds before and after them.
Between them the board does whatever it does: each finds it in a state of its own. -/
inductive Session : Buffer → List Record → Buffer → Prop where
  | nil (io : Buffer) : Session io [] io
  | cons {io io' : Buffer} {records : List Record} {port : EPort} {c : NfcCall} {m m' : TwMachine}
      {fuel : Nat} {o : Outcome} {heard : List (List Byte)} :
      Prog.exec twiReact fuel (c.traced port io) m = some (o, m') →
      answers m'.log = answers m.log ++ heard →
      Session o.io records io' → Session io (⟨c, io, o, heard⟩ :: records) io'

/-- One session after the other, with the same buffer. -/
theorem Session.append {io io' io'' : Buffer} {records records' : List Record}
    (h : Session io records io') (h' : Session io' records' io'') :
    Session io (records ++ records') io'' := by
  induction h with
  | nil _ => exact h'
  | cons hexec hlog _ ih => exact .cons hexec hlog (ih h')

/-! ### The calls that make several

`Init`, `Send` and `Receive` are composed of the others and hand the buffer from one to the next. -/

section

variable {fuel : Nat} {m m' : TwMachine} {port : EPort} {io io' : Buffer}

/-- A call as it is in the source makes a session of one. -/
theorem code_session {c : NfcCall} {count : Byte} {rx : Buffer}
    (h : Prog.exec twiReact fuel (c.code port io) m = some ((count, rx, io'), m')) :
    ∃ o heard, Session io [⟨c, io, o, heard⟩] io' ∧ o.count = count ∧ o.rx = rx := by
  rw [← NfcCall.traced_eq] at h
  obtain ⟨o, m₁, hexec, hret⟩ := Prog.exec_bind_eq_some h
  obtain ⟨hresult, rfl⟩ := Prod.mk.inj (Option.some.inj hret)
  simp only [Prod.mk.injEq] at hresult
  obtain ⟨rfl, rfl, rfl⟩ := hresult
  obtain ⟨heard, hlog, -⟩ := (NfcCall.traced_hears io c).exec hexec
  exact ⟨o, heard, .cons hexec hlog (.nil _), rfl, rfl⟩

/-- The same for a call that returns `true` or `false`. -/
theorem asCount_session {c : NfcCall} {p : Code (Bool × Buffer)} {success : Bool}
    (hp : c.code port io = NfcCall.asCount p)
    (h : Prog.exec twiReact fuel p m = some ((success, io'), m')) :
    ∃ o heard, Session io [⟨c, io, o, heard⟩] io' ∧ (o.count ≠ 0 ↔ success = true) := by
  have hcode : Prog.exec twiReact fuel (c.code port io) m =
      some ((if success then 1 else 0, fun _ => 0, io'), m') := by
    rw [hp]
    apply (Prog.exec_bind fuel p _ m).trans
    rw [h]
    rfl
  obtain ⟨o, heard, hsession, hcount, -⟩ := code_session hcode
  refine ⟨o, heard, hsession, ?_⟩
  rw [hcount]
  cases success with
  | true => simp
  | false => simp

/-- A run of a call that is noted has a run of its body in it. -/
theorem calledFor_exec {α : Type} {p : Callee} {body : Code α} {a : α}
    (h : Prog.exec twiReact fuel (calledFor p body) m = some (a, m')) :
    ∃ m₁ m₂, Prog.exec twiReact fuel body m₁ = some (a, m₂) := by
  obtain ⟨-, m₁, -, h⟩ := Prog.exec_bind_eq_some h
  obtain ⟨b, m₂, hbody, h⟩ := Prog.exec_bind_eq_some h
  obtain ⟨-, m₃, -, h⟩ := Prog.exec_bind_eq_some h
  obtain ⟨rfl, -⟩ := Prod.mk.inj (Option.some.inj h)
  exact ⟨m₁, m₂, hbody⟩

/-- Two calls and perhaps one between them. -/
theorem session_of_calls (ready : Bool) {a b c : NfcCall} {io₁ io₂ : Buffer}
    (hfirst : ∃ o heard, Session io [⟨a, io, o, heard⟩] io₁)
    (hnext : if ready then ∃ o heard, Session io₁ [⟨b, io₁, o, heard⟩] io₂ else io₂ = io₁)
    (hlast : ∃ o heard, Session io₂ [⟨c, io₂, o, heard⟩] io') :
    ∃ records, Session io records io' ∧
      (records.map Record.call = [a, b, c] ∨ records.map Record.call = [a, c]) := by
  obtain ⟨o₁, heard₁, hsession₁⟩ := hfirst
  obtain ⟨o₃, heard₃, hsession₃⟩ := hlast
  cases ready with
  | true =>
      obtain ⟨o₂, heard₂, hsession₂⟩ := hnext
      exact ⟨_, hsession₁.append (hsession₂.append hsession₃), Or.inl rfl⟩
  | false =>
      obtain rfl : io₂ = io₁ := hnext
      exact ⟨_, hsession₁.append hsession₃, Or.inr rfl⟩

/-- `Send` is a session of up to three calls. -/
theorem send_session {msg : Buffer} {len : Byte} {success : Bool}
    (h : Prog.exec twiReact fuel (send port msg len io) m = some ((success, io'), m')) :
    ∃ records, Session io records io' ∧ (records.map Record.call =
      [.p2pInitiatorInit, .p2pInitiatorTxRx msg len (fun _ => 0) defaultResponseLen, .powerDown] ∨
      records.map Record.call = [.p2pInitiatorInit, .powerDown]) := by
  obtain ⟨m₁, m₂, h⟩ := calledFor_exec h
  obtain ⟨⟨ready, io₁⟩, m₃, hinit, h⟩ := Prog.exec_bind_eq_some h
  obtain ⟨⟨count, inbound, io₂⟩, m₄, htxrx, h⟩ := Prog.exec_bind_eq_some h
  obtain ⟨-, m₅, -, h⟩ := Prog.exec_bind_eq_some h
  obtain ⟨⟨down, io₃⟩, m₆, hdown, h⟩ := Prog.exec_bind_eq_some h
  obtain ⟨-, m₇, -, h⟩ := Prog.exec_bind_eq_some h
  obtain ⟨hresult, -⟩ := Prod.mk.inj (Option.some.inj h)
  obtain ⟨-, rfl⟩ := Prod.mk.inj hresult
  obtain ⟨o₁, heard₁, hsession₁, -⟩ := asCount_session (c := .p2pInitiatorInit) rfl hinit
  obtain ⟨o₃, heard₃, hsession₃, -⟩ := asCount_session (c := .powerDown) rfl hdown
  refine session_of_calls ready ⟨o₁, heard₁, hsession₁⟩ ?_ ⟨o₃, heard₃, hsession₃⟩
  -- without a target in reach no message is sent
  cases ready with
  | true =>
      obtain ⟨o₂, heard₂, hsession₂, -⟩ :=
        code_session (c := .p2pInitiatorTxRx msg len (fun _ => 0) defaultResponseLen) htxrx
      exact ⟨o₂, heard₂, hsession₂⟩
  | false =>
      obtain ⟨hresult, -⟩ := Prod.mk.inj (Option.some.inj htxrx)
      exact (congrArg (fun r => r.2.2) hresult).symm

/-- So is `Receive`. -/
theorem receive_session {msg msg' : Buffer} {len : Byte} {received : Bool}
    (h : Prog.exec twiReact fuel (receive port msg len io) m = some ((received, msg', io'), m')) :
    ∃ records, Session io records io' ∧ (records.map Record.call =
      [.p2pTargetInit, .p2pTargetTxRx defaultResponse defaultResponseLen msg len, .powerDown] ∨
      records.map Record.call = [.p2pTargetInit, .powerDown]) := by
  obtain ⟨m₁, m₂, h⟩ := calledFor_exec h
  obtain ⟨⟨ready, io₁⟩, m₃, hinit, h⟩ := Prog.exec_bind_eq_some h
  obtain ⟨⟨count, inbound, io₂⟩, m₄, htxrx, h⟩ := Prog.exec_bind_eq_some h
  obtain ⟨-, m₅, -, h⟩ := Prog.exec_bind_eq_some h
  obtain ⟨⟨down, io₃⟩, m₆, hdown, h⟩ := Prog.exec_bind_eq_some h
  obtain ⟨-, m₇, -, h⟩ := Prog.exec_bind_eq_some h
  obtain ⟨hresult, -⟩ := Prod.mk.inj (Option.some.inj h)
  simp only [Prod.mk.injEq] at hresult
  obtain ⟨-, -, rfl⟩ := hresult
  obtain ⟨o₁, heard₁, hsession₁, -⟩ := asCount_session (c := .p2pTargetInit) rfl hinit
  obtain ⟨o₃, heard₃, hsession₃, -⟩ := asCount_session (c := .powerDown) rfl hdown
  refine session_of_calls ready ⟨o₁, heard₁, hsession₁⟩ ?_ ⟨o₃, heard₃, hsession₃⟩
  -- without an initiator nothing is received
  cases ready with
  | true =>
      obtain ⟨o₂, heard₂, hsession₂, -⟩ :=
        code_session (c := .p2pTargetTxRx defaultResponse defaultResponseLen msg len) htxrx
      exact ⟨o₂, heard₂, hsession₂⟩
  | false =>
      obtain ⟨hresult, -⟩ := Prod.mk.inj (Option.some.inj htxrx)
      exact (congrArg (fun r => r.2.2) hresult).symm

/-- The calls that `Init` makes. -/
def initCalls : List NfcCall := [.probe, .configureSAM .normal 20 false, .powerDown]

/-- Up to three calls: it ends with the first that does not succeed. -/
theorem wakeUp_session {success : Bool}
    (h : Prog.exec twiReact fuel (wakeUp port io) m = some ((success, io'), m')) :
    ∃ records, Session io records io' ∧ records.map Record.call <+: initCalls := by
  obtain ⟨⟨probed, io₁⟩, m₁, hprobe, h⟩ := Prog.exec_bind_eq_some h
  obtain ⟨o₁, heard₁, hsession₁, -⟩ := asCount_session (c := .probe) rfl hprobe
  cases probed with
  | false =>
      obtain ⟨hresult, -⟩ := Prod.mk.inj (Option.some.inj h)
      obtain ⟨-, rfl⟩ := Prod.mk.inj hresult
      exact ⟨_, hsession₁, ⟨_, rfl⟩⟩
  | true =>
      obtain ⟨⟨configured, io₂⟩, m₂, hconfigure, h⟩ := Prog.exec_bind_eq_some h
      obtain ⟨o₂, heard₂, hsession₂, -⟩ :=
        asCount_session (c := .configureSAM .normal 20 false) rfl hconfigure
      cases configured with
      | false =>
          obtain ⟨hresult, -⟩ := Prod.mk.inj (Option.some.inj h)
          obtain ⟨-, rfl⟩ := Prod.mk.inj hresult
          exact ⟨_, hsession₁.append hsession₂, ⟨_, rfl⟩⟩
      | true =>
          obtain ⟨o₃, heard₃, hsession₃, -⟩ := asCount_session (c := .powerDown) rfl h
          exact ⟨_, hsession₁.append (hsession₂.append hsession₃), ⟨_, rfl⟩⟩

theorem initFrom_session {success : Bool} (attempts : Nat)
    (h : Prog.exec twiReact fuel (initFrom port attempts io) m = some ((success, io'), m')) :
    ∃ records, Session io records io' ∧ ∀ r ∈ records, r.call ∈ initCalls := by
  -- on the attempts that are left
  induction attempts generalizing io m with
  | zero =>
      obtain ⟨hresult, -⟩ := Prod.mk.inj (Option.some.inj h)
      obtain ⟨-, rfl⟩ := Prod.mk.inj hresult
      exact ⟨[], .nil io, nofun⟩
  | succ attempts ih =>
      obtain ⟨⟨awake, io₁⟩, m₃, hawake, h⟩ := Prog.exec_bind_eq_some h
      obtain ⟨records, hsession, hprefix⟩ := wakeUp_session hawake
      have hcalls : ∀ r ∈ records, r.call ∈ initCalls :=
        fun r hr => hprefix.subset (List.mem_map_of_mem hr)
      cases awake with
      | true =>
          obtain ⟨hresult, -⟩ := Prod.mk.inj (Option.some.inj h)
          obtain ⟨-, rfl⟩ := Prod.mk.inj hresult
          exact ⟨records, hsession, hcalls⟩
      | false =>
          obtain ⟨-, m₄, -, h⟩ := Prog.exec_bind_eq_some h
          obtain ⟨records', hsession', hcalls'⟩ := ih h
          refine ⟨records ++ records', hsession.append hsession', fun r hr => ?_⟩
          rcases List.mem_append.mp hr with hr | hr
          · exact hcalls r hr
          · exact hcalls' r hr

/-- `Init` is a session of the calls it makes, up to three times. -/
theorem init_session {success : Bool}
    (h : Prog.exec twiReact fuel (init port io) m = some ((success, io'), m')) :
    ∃ records, Session io records io' ∧ ∀ r ∈ records, r.call ∈ initCalls := by
  obtain ⟨m₁, m₂, h⟩ := calledFor_exec h
  exact initFrom_session 3 h

end

/-- **No success from stale data.** In a session of safe calls whose data comes as a whole, each call that
reports success has received all that it goes by. -/
theorem session_honest {io io' : Buffer} {records : List Record} (h : Session io records io')
    (hsafe : ∀ r ∈ records, r.call.Safe r.before ∧ r.call.Whole r.heard) :
    ∀ r ∈ records, r.call.Honest r.heard r.outcome := by
  induction h with
  | nil _ => exact fun r hr => absurd hr List.not_mem_nil
  | cons hexec hlog _ ih =>
      rename_i io _ records port c m m' fuel o heard _
      intro r hr
      rcases List.mem_cons.mp hr with rfl | hr
      · obtain ⟨heard', hlog', honest⟩ := (NfcCall.traced_hears io c).exec hexec
        obtain rfl : heard' = heard := List.append_cancel_left (hlog'.symm.trans hlog)
        obtain ⟨hcall, hwhole⟩ := hsafe _ List.mem_cons_self
        exact honest hcall hwhole
      · exact ih (fun r hr => hsafe r (List.mem_cons_of_mem _ hr)) r hr

/-! ### A reply that stays out -/

/-- A slave that takes the command of `PowerDown`, acknowledges it and replies; what it is asked after
the first `n` things on the bus it refuses. -/
def sleepy (n : Nat) : TwMachine :=
  let sent : List Byte := [0x01, 0x00, 0x00, 0xFF, 0x00, 0xFF, 0x00, 0x00, 0x00, 0x00, 0x01, 0x00, 0x00,
    0xFF, 0x03, 0xFD, 0xD5, 0x17, 0x00, 0x00]
  ⟨atRest, ⟨.idle, fun i => ⟨none, i < n, sent.getD (i - 15) 0⟩, []⟩, []⟩

/-- What an earlier `PowerDown` has left in the buffer. -/
def slept : Buffer := assign (fun _ => 0) [0x00, 0x00, 0xFF, 0x03, 0xFD, 0xD5, 0x17, 0x00]

/-- Nothing has been done with it. -/
theorem sleepy_atHand (n : Nat) : AtHand (sleepy n).device [] (sleepy n) (sleepy n) :=
  ⟨⟨false, rfl, rfl, rfl⟩, rfl, rfl, rfl⟩

/-- What comes of a call of `PowerDown`. -/
def fallAsleep (n : Nat) (io : Buffer) : Outcome :=
  let r := exchanged (sleepy n).device (NfcCall.powerDown.prepared io) 3 8
  NfcCall.powerDown.concluded (r.1, r.2.1)

/-- A session of one call, in which the PN532 never answers. -/
theorem powerDown_session (n : Nat) (io : Buffer) :
    ∃ heard io', Session io [⟨.powerDown, io, fallAsleep n io, heard⟩] io' := by
  obtain ⟨fuel, o, m', hexec, -, ho⟩ := NfcCall.traced_total .north io (c := .powerDown) (by decide)
    (fun _ _ => rfl) (sleepy_atHand n)
  obtain ⟨heard, hlog, -⟩ := (NfcCall.traced_hears io .powerDown).exec hexec
  obtain rfl : o = fallAsleep n io := ho
  exact ⟨heard, _, .cons hexec hlog (.nil _)⟩

/-- The PN532 falls asleep and says so. -/
theorem session_honest_asleep :
    (fallAsleep 35 fun _ => 0).count = 1 ∧ ∃ heard io',
      Session (fun _ => 0) [⟨.powerDown, fun _ => 0, fallAsleep 35 fun _ => 0, heard⟩] io' ∧
      NfcCall.powerDown.Honest heard (fallAsleep 35 fun _ => 0) := by
  have hsafe : NfcCall.powerDown.Safe fun _ => 0 := ⟨fun haccepts => absurd haccepts (by decide), fun _ => id⟩
  obtain ⟨heard, io', h⟩ := powerDown_session 35 fun _ => 0
  refine ⟨by decide +kernel, heard, io', h, session_honest h (fun r hr => ?_) _ List.mem_cons_self⟩
  obtain rfl := List.mem_singleton.mp hr
  exact ⟨hsafe, fun hc => absurd hc id⟩

/-- Where it does not say so, `PowerDown` goes by what an earlier one has left. -/
theorem session_not_honest :
    ¬ ∀ (io : Buffer) (records : List Record) (io' : Buffer), Session io records io' →
      ∀ r ∈ records, r.call.Honest r.heard r.outcome := by
  intro hall
  obtain ⟨heard, io', h⟩ := powerDown_session 23 slept
  have hcount : (fallAsleep 23 slept).count ≠ 0 := by decide +kernel
  have hunread : none ∈ (fallAsleep 23 slept).replies := by decide +kernel
  exact absurd ((hall slept _ io' h _ List.mem_cons_self hcount).read none hunread) Bool.false_ne_true

end CNFCController

end SmartblocksOs.Board
