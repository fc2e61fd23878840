/-
# SmartblocksOs.Board.TwBounds -- the indices into the buffers of `CTWController`

The three buffers have `TW_BUFFER_LENGTH` bytes each. None of the methods compares its index to that, nor
does the handler: they rely on the lengths, which are bounded where they are set, and on an index that stays
below its length (`Indexed` in the handler). For a length of 0 the last index is `0 - 1`, which is 255. So
the accesses are within bounds just when no `Read(address, 0)` is among the calls (`buffers_in_range_iff`).

`Indexed` is the invariant of the handler. It depends on the status that is reported, since the status
decides which branch of the handler runs next and with it what is done to the index: a byte that will be
stored needs room, a byte that will be sent needs a length that is within the buffer. Other modules know
that the calls return and what they leave; here the same functions are followed once more, access by
access (`StaysIn`), and the two are put together by `Safe.total`.

For a length that is not 0 the argument is about lengths. `Write` refuses a byte when the queue is full,
`Read` clamps what it is asked for to the size of the buffer, and the copies go up to these lengths. What
remains is the master buffer inside the handler, where the index moves with what the bus reports:
`Indexed` relates it to the length, for each status in a different way.

For a length of 0 it is shown that the end of the buffer is crossed in fact, and not only that the proof
fails: against a slave that acknowledges and sends as long as it is asked (`Obliging`), the handler comes
to `masterBuffer[64]` after 64 bytes (`overrunning_touches`), because the last index it waits for is 255.
-/
import SmartblocksOs.Foundation.Accesses
import SmartblocksOs.Foundation.Receptions
import SmartblocksOs.Board.BusTraces

namespace SmartblocksOs.Board

open SmartblocksOs.Foundation SmartblocksOs.System SmartblocksOs.Foundation.TwoWire

/-- The variable is not an element of a buffer behind its end. -/
def InRange : Var → Prop
  | .txBuffer i | .rxBuffer i | .masterBuffer i => i < twBufferLength
  | _ => True

namespace CTWController

/-- Every run of `p` on `m` stays within the buffers, and `Q` holds when it returns. -/
abbrev StaysIn {α : Type} (p : Code α) (m : TwMachine) (Q : α → TwMachine → Prop) : Prop :=
  Safe twiReact InRange p m Q

/-! ## Code whose indices do not depend on the state

Much of the controller accesses no buffer, or one at an index that is an argument. Its footprint, which
has been computed once in `SmartblocksOs.Board.Footprints`, decides the question without a look at the
state. -/

/-- What is within the buffers. -/
abbrev inRange : Footprint Var Lock Event := .among {x | InRange x}

/-- The functions of the handler that touch no buffer stay inside whatever the indices are. -/
theorem stop_inRange : stop.Leaves inRange := stop_leaves.mono (by simp [Set.insert_subset_iff, InRange])

theorem stopOrKeepBus_inRange : stopOrKeepBus.Leaves inRange :=
  stopOrKeepBus_leaves.mono (by simp [Set.insert_subset_iff, InRange])

theorem acknowledge_inRange : acknowledge.Leaves inRange :=
  acknowledge_leaves.mono (by simp [Set.insert_subset_iff, InRange])

theorem awaitReady_inRange : awaitReady.Leaves inRange := awaitReady_leaves.mono (by simp [InRange])

/-- The start of a transaction touches the registers and two flags only. -/
theorem startTransaction_inRange : startTransaction.Leaves inRange :=
  startTransaction_leaves.mono (by simp [Set.insert_subset_iff, InRange])

/-- The queue is emptied, without a look at the buffer. -/
theorem beginTransmission_inRange (address : Byte) : (beginTransmission address).Leaves inRange :=
  (beginTransmission_leaves address).mono (by simp [Set.insert_subset_iff, InRange])

theorem available_inRange : available.Leaves inRange :=
  available_leaves.mono (by simp [Set.insert_subset_iff, InRange])

theorem receivedLength_inRange (length : Byte) : (receivedLength length).Leaves inRange :=
  (receivedLength_leaves length).mono (by simp [InRange])

/-- The loop copies as many bytes as it is told to: it stays inside when these fit. -/
theorem copyToMaster_inRange {n i : Nat} (hle : i + n ≤ 64) : (copyToMaster n i).Leaves inRange := by
  apply (copyToMaster_leaves n i).mono
  simp only [Footprint.mk_le, Set.image_subset_iff, Set.empty_subset, and_true]
  constructor
  · exact fun j hj => (Set.mem_Iio.mp hj).trans_le hle
  · exact fun j hj => (Set.mem_Iio.mp hj).trans_le hle

theorem copyFromMaster_inRange {n i : Nat} (hle : i + n ≤ 64) : (copyFromMaster n i).Leaves inRange := by
  apply (copyFromMaster_leaves n i).mono
  simp only [Footprint.mk_le, Set.image_subset_iff, Set.empty_subset, and_true]
  constructor
  · exact fun j hj => (Set.mem_Iio.mp hj).trans_le hle
  · exact fun j hj => (Set.mem_Iio.mp hj).trans_le hle

/-! ## The handler

The handler is entered in the loop that waits for the end of the transaction, and a status is reported by
the hardware as an answer to what the handler has asked for before. So the invariant has to hold again
whenever the handler leaves the transaction going on; if it has ended it, nothing is required any more. -/

/-- What the handler may rely on, after the hardware has reported `status`. -/
def Expects (m : TwMachine) : TwStatus → Prop
  | .start | .repStart => m.device.phase = .started ∧ ((m.vars .slarw).getLsbD 0 = true →
      m.vars .masterBufferIndex ≤ m.vars .masterBufferLength ∧ (m.vars .masterBufferLength).toNat < 64)
  | .mtSlaAck | .mtDataAck => m.device.phase = .transmitting
  | .mrSlaAck => m.device.phase = .receiving ∧
      m.vars .masterBufferIndex ≤ m.vars .masterBufferLength ∧ (m.vars .masterBufferLength).toNat < 64
  | .mrDataAck => m.device.phase = .receiving ∧
      m.vars .masterBufferIndex < m.vars .masterBufferLength ∧ (m.vars .masterBufferLength).toNat < 64
  | .mrDataNack => (m.vars .masterBufferIndex).toNat < 64
  | _ => True

/-- The master buffer is as long as the array at most, and the index is where it may be. -/
structure Indexed (m : TwMachine) : Prop where
  length_le : (m.vars .masterBufferLength).toNat ≤ 64
  expects : Expects m (twStatus (m.vars .twsr))

/-- After a report of the hardware. -/
theorem expects_reported {m : TwMachine} {ack nack : Byte} {status status' : TwStatus} {r : Report}
    (hack : twStatus ack = status) (hnack : twStatus nack = status')
    (h : ∀ acked, r = .done acked → Expects m (if acked then status else status')) :
    Expects m (twStatus (statusCode ack nack r)) := by
  rcases r with (_ | _) | c
  · rw [statusCode, hnack]
    exact h false rfl
  · rw [statusCode, hack]
    exact h true rfl
  · rw [twStatus_cut]
    cases c with
    | arbLost => exact trivial
    | busError => exact trivial

theorem indexed_addressed {m : TwMachine} {slarw : Byte} (v : Byte)
    (hle : (m.vars .masterBufferLength).toNat ≤ 64)
    (hread : slarw.getLsbD 0 = true → m.vars .masterBufferIndex ≤ m.vars .masterBufferLength ∧
      (m.vars .masterBufferLength).toNat < 64) : Indexed (addressed m slarw v) := by
  have hvars : ∀ {x}, guard x = some .tw → (addressed m slarw v).vars x = m.vars x :=
    addressed_vars m slarw v
  refine ⟨by rw [hvars rfl]; exact hle, ?_⟩
  simp only [addressed, Machine.set_vars_self]
  have hphase : ∀ acked, (m.device.address slarw).1 = .done acked →
      (addressed m slarw v).device.phase = if slarw.getLsbD 0 then .receiving else .transmitting :=
    fun acked hdone => Hardware.address_done (Prod.ext hdone rfl)
  cases hbit : slarw.getLsbD 0 with
  -- A reception: an acknowledge makes the slave send, and there is room for its bytes.
  | true =>
      apply expects_reported (show twStatus 0x40 = .mrSlaAck by decide)
        (show twStatus 0x48 = .mrSlaNack by decide)
      intro acked hdone
      cases acked with
      | true =>
          have hp := hphase true hdone
          rw [hbit] at hp
          refine ⟨hp, ?_⟩
          exact hread hbit
      | false => exact trivial
  -- A transmission: nothing is stored.
  | false =>
      apply expects_reported (show twStatus 0x18 = .mtSlaAck by decide)
        (show twStatus 0x20 = .mtSlaNack by decide)
      intro acked hdone
      cases acked with
      | true =>
          have hp := hphase true hdone
          rw [hbit] at hp
          exact hp
      | false => exact trivial

theorem indexed_byteSent {m : TwMachine} (b : Byte) (hle : (m.vars .masterBufferLength).toNat ≤ 64)
    (hphase : m.device.phase = .transmitting) : Indexed (byteSent m b) := by
  have hlength : (byteSent m b).vars .masterBufferLength = m.vars .masterBufferLength := by
    simp [byteSent, Machine.set_vars_of_ne]
  refine ⟨by rw [hlength]; exact hle, ?_⟩
  simp only [byteSent, Machine.set_vars_self]
  apply expects_reported (show twStatus 0x28 = .mtDataAck by decide)
    (show twStatus 0x30 = .mtDataNack by decide)
  intro acked hdone
  cases acked with
  | true => exact (Hardware.send_done (Prod.ext hdone rfl)).trans hphase
  | false => exact trivial

theorem indexed_byteReceived {m : TwMachine} {n : Nat} (v : Byte) (hphase : m.device.phase = .receiving)
    (hlength : (m.vars .masterBufferLength).toNat = (m.vars .masterBufferIndex).toNat + n)
    (hsmall : (m.vars .masterBufferLength).toNat < 64) : Indexed (byteReceived m v (0 < n)) := by
  have hvars : ∀ {x}, guard x = some .tw → (byteReceived m v (0 < n)).vars x = m.vars x :=
    byteReceived_vars m v (0 < n)
  refine ⟨by rw [hvars rfl]; omega, ?_⟩
  have hstatus : (byteReceived m v (0 < n)).vars .twsr =
      statusCode 0x50 0x58 (m.device.receive (0 < n)).2.1 := by
    simp only [byteReceived, Machine.set_vars_self]
  rw [hstatus]
  apply expects_reported (show twStatus 0x50 = .mrDataAck by decide)
    (show twStatus 0x58 = .mrDataNack by decide)
  intro acked hdone
  obtain ⟨rfl, hphase'⟩ := Hardware.receive_done (Prod.ext rfl (Prod.ext hdone rfl))
  by_cases hn : 0 < n
  -- another byte is to follow, so that the index is below the length
  · rw [decide_eq_true hn] at hphase' ⊢
    refine ⟨hphase'.trans hphase, ?_, ?_⟩
    · rw [← decide_eq_true hn, hvars rfl, hvars rfl, BitVec.lt_def]
      omega
    · rw [← decide_eq_true hn, hvars rfl]
      exact hsmall
  -- the last one: the index has reached the length, which is below 64
  · rw [decide_eq_false hn]
    show ((byteReceived m v false).vars .masterBufferIndex).toNat < 64
    rw [← decide_eq_false hn, hvars rfl]
    omega

section

variable {m : TwMachine} {busy : Byte} (hbusy : busy ≠ twStateReady)
include hbusy

/-- When a transaction is over, nothing is to be expected any more. -/
theorem indexed_of_ready {m' : TwMachine} (hready : m'.vars .state = twStateReady) :
    m'.vars .state = busy → Indexed m' :=
  fun hstate => absurd (hstate.symm.trans hready) hbusy

/-- After a STOP the transaction is over: nothing is left to be shown of the index. -/
theorem stop_stays : StaysIn stop m fun _ m' => m'.vars .state = busy → Indexed m' :=
  stop_inRange.safe (stop_total (indexed_of_ready hbusy (stopped_state m)))

/-- The same when the bus is kept. -/
theorem stopOrKeepBus_stays :
    StaysIn stopOrKeepBus m fun _ m' => m'.vars .state = busy → Indexed m' := by
  apply stopOrKeepBus_inRange.safe
  apply stopOrKeepBus_total
  apply indexed_of_ready hbusy
  split
  · exact stopped_state m
  · exact busKept_state m

/-- A byte is sent only while the index is below the length. -/
theorem sendNext_stays (hle : (m.vars .masterBufferLength).toNat ≤ 64)
    (hphase : m.device.phase = .transmitting) :
    StaysIn sendNext m fun _ m' => m'.vars .state = busy → Indexed m' := by
  unfold sendNext
  simp only [Safe.bind_iff, Safe.read_iff]
  refine ⟨trivial, trivial, ?_⟩
  by_cases hmore : m.vars .masterBufferIndex < m.vars .masterBufferLength
  · have hsent := sendNext_total (Q := fun _ m' => m'.vars .state = busy → Indexed m') hmore rfl hphase
      fun _ => indexed_byteSent _ hle hphase
    unfold sendNext at hsent
    simp only [Total.bind_iff, Total.read_iff, if_pos hmore, Total.write_iff] at hsent
    rw [if_pos hmore]
    simp only [Safe.bind_iff, Safe.read_iff, Safe.write_iff]
    refine ⟨trivial, trivial, ?_, trivial, trivial, hsent⟩
    rw [BitVec.lt_def] at hmore
    exact hmore.trans_le hle
  · rw [if_neg hmore]
    exact stopOrKeepBus_stays hbusy

omit hbusy in
/-- A byte received is stored inside when the index is below 64. -/
theorem storeReceived_stays {Q : Unit → TwMachine → Prop} (hindex : (m.vars .masterBufferIndex).toNat < 64)
    (h : Q () (byteStored m)) : StaysIn storeReceived m Q := by
  have hstored := storeReceived_total h
  unfold storeReceived at hstored ⊢
  simp only [Total.bind_iff, Total.read_iff, Total.write_iff] at hstored
  simp only [Safe.bind_iff, Safe.read_iff, Safe.write_iff]
  exact ⟨trivial, trivial, trivial, hindex, hstored⟩

/-- The handler accesses the master buffer where it may, and can go on after it. -/
theorem twiVect_stays (hm : Indexed m) :
    StaysIn twiVect m fun _ m' => m'.vars .state = busy → Indexed m' := by
  have hexpects := hm.expects
  unfold twiVect
  refine Safe.bind (Safe.read_iff.mpr ⟨trivial, ?_⟩)
  cases hstatus : twStatus (m.vars .twsr) with
  -- no buffer is touched; what the slave reports is settled by the setup
  | start | repStart =>
      rw [hstatus] at hexpects
      obtain ⟨hphase, hread⟩ := hexpects
      have hgo : GoesOn (twen ||| twie ||| twint ||| twea) := ⟨by decide, by decide, by decide⟩
      simp only [Safe.bind_iff, Safe.read_iff, Safe.write_iff, store_of_ne _ (x := .twdr) (by simp)]
      rw [store_addressed hgo hphase]
      exact ⟨trivial, trivial, trivial, fun _ => indexed_addressed _ hm.length_le hread⟩
  | mtSlaAck | mtDataAck =>
      rw [hstatus] at hexpects
      exact sendNext_stays hbusy hm.length_le hexpects
  | mtSlaNack | mtDataNack | busError =>
      exact Safe.bind (Safe.write_iff.mpr ⟨trivial, stop_stays hbusy⟩)
  | arbLost =>
      simp only [Safe.bind_iff, Safe.write_iff]
      refine ⟨trivial, trivial, trivial, indexed_of_ready hbusy ?_⟩
      rw [store_of_ne _ (x := .state) (by simp)]
      exact Machine.set_vars_self ..
  -- The byte is stored where there is room for it, and the next one is asked for with the index one
  -- further.
  | mrDataAck =>
      rw [hstatus] at hexpects
      obtain ⟨hphase, hmore, hsmall⟩ := hexpects
      rw [BitVec.lt_def] at hmore
      apply Safe.bind
      apply storeReceived_stays (by omega)
      have hindex := byteStored_index (m := m) rfl (by omega : (m.vars .masterBufferIndex).toNat < 64)
      have hlength := byteStored_vars m (x := .masterBufferLength) (by simp) (by simp)
      obtain ⟨n, hn⟩ := Nat.exists_eq_add_of_le (Nat.succ_le_of_lt hmore)
      apply acknowledge_inRange.safe
      have hcount : ((byteStored m).vars .masterBufferLength).toNat =
          ((byteStored m).vars .masterBufferIndex).toNat + n := by
        rw [hlength, hindex]
        exact hn
      apply acknowledge_total (m := byteStored m) hphase hcount
      intro v _
      exact indexed_byteReceived v hphase hcount (by rw [hlength]; exact hsmall)
  -- the first byte is asked for
  | mrSlaAck =>
      rw [hstatus] at hexpects
      obtain ⟨hphase, hle, hsmall⟩ := hexpects
      rw [BitVec.le_def] at hle
      obtain ⟨n, hn⟩ := Nat.exists_eq_add_of_le hle
      apply acknowledge_inRange.safe
      apply acknowledge_total hphase hn
      intro v _
      exact indexed_byteReceived v hphase hn hsmall
  | mrDataNack =>
      rw [hstatus] at hexpects
      apply Safe.bind
      apply storeReceived_stays hexpects
      exact stopOrKeepBus_stays hbusy
  | mrSlaNack => exact stop_stays hbusy
  | other => exact Safe.pure_iff.mpr fun _ => hm

/-- So does the wait for the end of a transaction, as long as it takes. -/
theorem awaitTransaction_stays (hm : Indexed m) :
    StaysIn (awaitTransaction busy) m fun _ _ => True := by
  refine Safe.repeatWhile (I := fun m => m.vars .state = busy → Indexed m) ?_ fun _ => hm
  intro m hm
  refine Safe.bind (Safe.read_iff.mpr ⟨trivial, ?_⟩)
  by_cases hstate : m.vars .state = busy
  · rw [if_pos hstate]
    simp only [Safe.bind_iff, Safe.note_iff, Safe.pure_iff]
    have hnoted := hm hstate
    exact twiVect_stays hbusy ⟨hnoted.length_le, hnoted.expects⟩
  · rw [if_neg hstate]
    exact Safe.pure_iff.mpr trivial

end

/-! ## The methods

Each public method brings about what the handler needs (`startTransaction_stays`), or stays within a
buffer by the length that it compares its index with. -/

section

variable {held : Bool} {m : TwMachine}

theorem indexed_started {m : TwMachine} (v : Byte) (hphase : m.device.phase = .idle)
    (hle : (m.vars .masterBufferLength).toNat ≤ 64)
    (hread : (m.vars .slarw).getLsbD 0 = true →
      m.vars .masterBufferIndex ≤ m.vars .masterBufferLength ∧ (m.vars .masterBufferLength).toNat < 64) :
    Indexed (started m v) := by
  have hvars : ∀ {x}, guard x = some .tw → (started m v).vars x = m.vars x := started_vars m v
  refine ⟨by rw [hvars rfl]; exact hle, ?_⟩
  simp only [started, Machine.set_vars_self, if_pos hphase]
  apply expects_reported (show twStatus 0x08 = .start by decide) (show twStatus 0 = .busError by decide)
  intro acked hdone
  obtain ⟨rfl, hstarted⟩ := Hardware.start_done (Prod.ext hdone rfl)
  exact ⟨hstarted, hread⟩

/-- The first event of a transaction finds the indices as they have been set up. -/
theorem startTransaction_stays (hheld : m.device.Between held) (hrep : m.vars .inRepStart = held)
    (hle : (m.vars .masterBufferLength).toNat ≤ 64)
    (hread : (m.vars .slarw).getLsbD 0 = true →
      m.vars .masterBufferIndex ≤ m.vars .masterBufferLength ∧ (m.vars .masterBufferLength).toNat < 64) :
    StaysIn startTransaction m fun _ m' => Indexed m' := by
  apply startTransaction_inRange.safe
  cases held with
  | true =>
      apply startTransaction_readdressed hheld hrep
      exact indexed_addressed (m := m.set .inRepStart false) _ hle hread
  | false =>
      apply startTransaction_started hrep
      exact indexed_started _ hheld hle hread

/-- `Write` looks at the number of bytes queued first. -/
theorem writeByte_stays {q : List Byte} (data : Byte) (hq : Queue m.vars q) :
    StaysIn (writeByte data) m fun _ _ => True := by
  have hlength := hq.toNat_length
  have hindex := hq.index
  unfold writeByte
  simp only [Safe.bind_iff, Safe.read_iff]
  refine ⟨trivial, ?_⟩
  split
  · exact Safe.pure_iff.mpr trivial
  · rename_i hroom
    have hin : (m.vars .txBufferIndex).toNat < twBufferLength := by
      rw [hindex]
      omega
    simp only [Safe.bind_iff, Safe.read_iff, Safe.write_iff, Safe.note_iff, Safe.pure_iff]
    exact ⟨trivial, hin, trivial, trivial, trivial, trivial, trivial⟩

/-- `Read` stays below the number of bytes received. -/
theorem readByte_stays (hle : (m.vars .rxBufferLength).toNat ≤ 64) :
    StaysIn readByte m fun _ _ => True := by
  unfold readByte
  simp only [Safe.bind_iff, Safe.read_iff]
  refine ⟨trivial, trivial, ?_⟩
  split
  · rename_i hmore
    rw [BitVec.lt_def] at hmore
    simp only [Safe.bind_iff, Safe.read_iff, Safe.write_iff, Safe.note_iff, Safe.pure_iff]
    exact ⟨hmore.trans_le hle, trivial, trivial⟩
  · simp only [Safe.bind_iff, Safe.note_iff, Safe.pure_iff]

theorem peek_stays (hle : (m.vars .rxBufferLength).toNat ≤ 64) : StaysIn peek m fun _ _ => True := by
  unfold peek
  simp only [Safe.bind_iff, Safe.read_iff]
  refine ⟨trivial, trivial, ?_⟩
  split
  · rename_i hmore
    rw [BitVec.lt_def] at hmore
    exact Safe.read_iff.mpr ⟨hmore.trans_le hle, trivial⟩
  · exact Safe.pure_iff.mpr trivial

/-- `EndTransmission` copies and sends what is queued, which is not more than there is room for. -/
theorem endTransmission_stays {q : List Byte} (sendStop : Bool) (hready : Ready held m)
    (hqueue : Queue m.vars q) : StaysIn (endTransmission sendStop) m fun _ _ => True := by
  have hlength := hqueue.toNat_length
  have hle := hqueue.length_le
  unfold endTransmission
  simp only [Safe.bind_iff, Safe.read_iff]
  rw [if_neg (by rw [hlength, twBufferLength]; omega)]
  simp only [Safe.bind_iff]
  refine ⟨trivial, awaitReady_inRange.safe (awaitReady_total hready.state ?_)⟩
  simp only [Safe.write_iff, store_of_ne, ne_eq, reduceCtorEq, not_false_eq_true, Safe.read_iff, InRange,
    true_and]
  rw [← setup, setup_txBufferLength, hlength]
  -- the copy
  apply (copyToMaster_inRange (i := 0) (by omega)).safe
  refine (copyToMaster_total (q := q) q.length 0 (Nat.zero_add _) ?_ (Spells.nil _)).mono ?_
  · apply hqueue.bytes.congr
    intro i _
    rw [Machine.set_vars_of_ne _ (by simp), setup_vars m sendStop rfl]
  rintro bytes m₂ ⟨-, hmaster, hsame⟩
  simp only [Safe.note_iff]
  have hloaded := loaded_of_copied (twWrite ||| m₂.vars .txAddress <<< 1) hlength hmaster hsame
    (.endTransmission (m₂.vars .portc &&& portCtrlMask) bytes)
  -- the transaction
  have hprepared := hloaded.prepared
  have hbound := hprepared.length
  refine (startTransaction_stays (hloaded.device ▸ hready.bus)
    (hloaded.inRepStart.trans hready.inRepStart) (by omega) fun hread => ?_).mono fun _ m₃ hm₃ => ?_
  · rw [hprepared.slarw, slarw_write] at hread
    exact absurd hread Bool.false_ne_true
  refine (awaitTransaction_stays (by decide) hm₃).mono fun _ m₄ _ => ?_
  split
  · exact Safe.pure_iff.mpr trivial
  split
  · exact Safe.pure_iff.mpr trivial
  split
  · exact Safe.pure_iff.mpr trivial
  · exact Safe.pure_iff.mpr trivial

/-- `Read(address, n)` receives and copies as much as there is room for, when `n` is not 0. -/
theorem readFrom_stays (address : Byte) {length : Byte} (sendStop : Bool) (hready : Ready held m)
    (hlength : length ≠ 0) :
    StaysIn (readFrom address length sendStop) m fun _ m' => (m'.vars .rxBufferLength).toNat ≤ 64 := by
  have hclamp := clamp_toNat length
  have hpos : length.toNat ≠ 0 := fun h => hlength (BitVec.eq_of_toNat_eq h)
  unfold readFrom
  rw [← clamp]
  generalize clamp length = count at hclamp ⊢
  obtain ⟨n, hn⟩ : ∃ n, count.toNat = n + 1 := Nat.exists_eq_add_one.mpr (by omega)
  simp only [Safe.bind_iff, Safe.note_iff]
  refine awaitReady_inRange.safe (awaitReady_total hready.state ?_)
  simp only [Safe.write_iff, store_of_ne, ne_eq, reduceCtorEq, not_false_eq_true, InRange, true_and]
  rw [← requestSetup]
  have hrequested := requestSetup_requested m (twRead ||| address <<< 1) sendStop hn (by omega)
  have hbound := hrequested.length
  -- the transaction
  refine (startTransaction_stays
    (m := requestSetup m (twRead ||| address <<< 1) count sendStop) hready.bus
    ((requestSetup_inRepStart m _ count sendStop).trans hready.inRepStart) (by omega) fun _ => ?_).mono
    fun _ m₃ hm₃ => ?_
  · rw [hrequested.index, BitVec.le_def]
    exact ⟨Nat.zero_le _, by omega⟩
  refine (awaitTransaction_stays (by decide) hm₃).mono fun _ m₄ _ => ?_
  -- the copy
  have hreceived : Returns (receivedLength count) m₄ fun v m' => v.toNat ≤ 64 ∧ m' = m₄ :=
    (receivedLength_bounded m₄ count).mono fun _ _ h => ⟨h.1.trans (by omega), h.2⟩
  refine ((receivedLength_inRange count).safe hreceived).mono fun received m₅ h₅ => ?_
  refine (copyFromMaster_inRange (i := 0) (by omega)).stays.mono fun bytes m₆ _ => ?_
  simp only [Safe.pure_iff, Machine.set_vars_self]
  exact h₅.1

end

/-! ## `Read(address, 0)`

`0 - 1` is 255 as a byte. The clamp before it compares with the size of the buffer only, so that a length
of 0 passes, and the handler acknowledges one byte after the other. -/

section

variable {m : TwMachine}

/-- The handler runs once, and then accesses `x`. -/
theorem await_touches {busy : Byte} {x : Var} (hbusy : m.vars .state = busy)
    (h : ∀ log, Returns twiVect { m with log := log } fun _ m' =>
      Touches twiReact (awaitTransaction busy) m' x) : Touches twiReact (awaitTransaction busy) m x := by
  apply Touches.again
  simp only [Total.bind_iff, Total.read_iff, if_pos hbusy, Total.note_iff, Total.pure_iff, true_and]
  exact h _

/-- Of 256 bytes the one with index `i` has arrived and been acknowledged. -/
structure Overrunning (i : Nat) (m : TwMachine) : Prop where
  state : m.vars .state = twStateMrx
  index : (m.vars .masterBufferIndex).toNat = i
  length : (m.vars .masterBufferLength).toNat = 255
  status : twStatus (m.vars .twsr) = .mrDataAck
  phase : m.device.phase = .receiving
  obliging : m.device.Obliging

/-- The handler acknowledges, and there is another byte. -/
theorem acknowledge_overruns {i : Nat} (hstate : m.vars .state = twStateMrx)
    (hindex : (m.vars .masterBufferIndex).toNat = i) (hi : i < 255)
    (hlength : (m.vars .masterBufferLength).toNat = 255) (hphase : m.device.phase = .receiving)
    (hobliging : m.device.Obliging) : Returns acknowledge m fun _ m' => Overrunning i m' := by
  have hmore : 0 < 255 - i := by omega
  apply acknowledge_total (n := 255 - i) hphase (by omega)
  intro v
  have hvars : ∀ {x}, guard x = some .tw → (byteReceived m v (0 < 255 - i)).vars x = m.vars x :=
    byteReceived_vars m v (0 < 255 - i)
  have hreceive := hobliging.receive true
  refine ⟨by rw [hvars rfl, hstate], by rw [hvars rfl, hindex], by rw [hvars rfl, hlength], ?_, ?_, ?_⟩
  · simp only [byteReceived, Machine.set_vars_self, decide_eq_true hmore, hreceive]
    exact (show twStatus 0x50 = _ by decide)
  · simp only [byteReceived, decide_eq_true hmore, hreceive]
    exact hphase
  · simp only [byteReceived, decide_eq_true hmore, hreceive]
    exact hobliging.next _ _

/-- So the bytes go on up to the end of the buffer, and over it. -/
theorem overrunning_touches (k : Nat) : ∀ {i : Nat} {m : TwMachine}, i + k = 64 → Overrunning i m →
    Touches twiReact (awaitTransaction twStateMrx) m (.masterBuffer 64) := by
  -- On the number of bytes that still fit: every one of them is acknowledged, and the slave sends another.
  induction k with
  -- The buffer is full. The next byte goes to index 64.
  | zero =>
      intro i m hi hm
      obtain rfl : i = 64 := hi
      apply Touches.round
      refine Touches.bind (Total.read_iff.mpr ?_)
      rw [if_pos hm.state]
      refine Touches.bind (Total.note_iff.mpr (Touches.left ?_))
      refine Touches.bind (Total.read_iff.mpr ?_)
      simp only [hm.status]
      refine Touches.left (Touches.bind (Total.read_iff.mpr ?_))
      refine Touches.bind (Total.write_iff.mpr (Touches.bind (Total.read_iff.mpr ?_)))
      rw [show (m.vars .masterBufferIndex).toNat = 64 from hm.index]
      exact Touches.write _
  | succ k ih =>
      intro i m hi hm
      apply await_touches hm.state
      intro log
      unfold twiVect
      simp only [Total.bind_iff, Total.read_iff, hm.status]
      apply storeReceived_total
      have hindex := byteStored_index (m := { m with log := log }) hm.index (by omega)
      have hvars : ∀ {x}, x ≠ .masterBufferIndex → (∀ i, x ≠ .masterBuffer i) →
          (byteStored { m with log := log }).vars x = m.vars x := byteStored_vars _
      refine (acknowledge_overruns ?_ hindex (by omega) ?_ hm.phase hm.obliging).mono fun _ m' => ?_
      · rw [hvars (by simp) (by simp), hm.state]
      · rw [hvars (by simp) (by simp), hm.length]
      · exact ih (by omega)

/-- The slave has answered to its address. -/
theorem called_touches (hstate : m.vars .state = twStateMrx) (hindex : m.vars .masterBufferIndex = 0)
    (hlength : (m.vars .masterBufferLength).toNat = 255) (hstatus : twStatus (m.vars .twsr) = .mrSlaAck)
    (hphase : m.device.phase = .receiving) (hobliging : m.device.Obliging) :
    Touches twiReact (awaitTransaction twStateMrx) m (.masterBuffer 64) := by
  apply await_touches hstate
  intro log
  unfold twiVect
  simp only [Total.bind_iff, Total.read_iff, hstatus]
  have hzero : (m.vars .masterBufferIndex).toNat = 0 := by
    rw [hindex]
    rfl
  exact (acknowledge_overruns (m := { m with log := log }) hstate hzero (by decide) hlength hphase
    hobliging).mono fun _ _ => overrunning_touches 64 rfl

/-- The address is sent, and the slave answers. -/
theorem addressed_touches {slarw : Byte} (v : Byte) (hstate : m.vars .state = twStateMrx)
    (hindex : m.vars .masterBufferIndex = 0) (hlength : (m.vars .masterBufferLength).toNat = 255)
    (hread : slarw.getLsbD 0 = true) (hobliging : m.device.Obliging) :
    Touches twiReact (awaitTransaction twStateMrx) (addressed m slarw v) (.masterBuffer 64) := by
  have hvars : ∀ {x}, guard x = some .tw → (addressed m slarw v).vars x = m.vars x :=
    addressed_vars m slarw v
  have haddress := Hardware.address_obliging hobliging slarw
  rw [hread] at haddress
  apply called_touches
  · rw [hvars rfl, hstate]
  · rw [hvars rfl, hindex]
  · rw [hvars rfl, hlength]
  · simp only [addressed, Machine.set_vars_self, haddress, hread, if_true]
    exact (show twStatus 0x40 = _ by decide)
  · simp only [addressed, haddress]
    rfl
  · simp only [addressed, haddress]
    exact hobliging.next _ _

/-- When the START is through, the handler sends the address. -/
theorem startTransaction_touches {held : Bool} {k : Unit → Code Byte} (hheld : m.device.Between held)
    (hrep : m.vars .inRepStart = held) (hstate : m.vars .state = twStateMrx)
    (hindex : m.vars .masterBufferIndex = 0) (hlength : (m.vars .masterBufferLength).toNat = 255)
    (hread : (m.vars .slarw).getLsbD 0 = true) (hobliging : m.device.Obliging) :
    Touches twiReact (do
      startTransaction
      awaitTransaction twStateMrx
      k ()) m (.masterBuffer 64) := by
  apply Touches.bind
  cases held with
  -- the bus is kept, so that the address is sent at once
  | true =>
      apply startTransaction_readdressed hheld hrep
      exact Touches.left (addressed_touches (m := m.set .inRepStart false) _ hstate hindex hlength
        hread hobliging)
  -- A START first: the address is sent by the handler.
  | false =>
      have hvars : ∀ {v x}, guard x = some .tw → (started m v).vars x = m.vars x :=
        fun {v _} => started_vars m v
      apply startTransaction_started hrep
      have hstart := Hardware.start_obliging hheld hobliging
      refine Touches.left (await_touches ((hvars rfl).trans hstate) fun log => ?_)
      have hstatus : twStatus ((started m (twint ||| twea ||| twen ||| twie ||| twsta)).vars .twsr) =
          .start := by
        simp only [started, Machine.set_vars_self, hstart, if_pos (show m.device.phase = .idle from hheld)]
        exact (show twStatus 0x08 = _ by decide)
      have hgo : GoesOn (twen ||| twie ||| twint ||| twea) := ⟨by decide, by decide, by decide⟩
      unfold twiVect
      simp only [Total.bind_iff, Total.read_iff, hstatus, Total.write_iff,
        store_of_ne _ (x := .twdr) (by simp)]
      generalize twint ||| twea ||| twen ||| twie ||| twsta = v at hstatus ⊢
      have hphase : (started m v).device.phase = .started := by
        simp only [started, hstart]
        rfl
      have hkept : ∀ {x}, guard x = some .tw →
          ({ started m v with log := log } : TwMachine).vars x = m.vars x := started_vars m v
      rw [store_addressed (m := { started m v with log := log }) hgo hphase, hvars rfl]
      have hobliging' : (started m v).device.Obliging := hobliging.start
      apply addressed_touches (m := { started m v with log := log }) _ ((hkept rfl).trans hstate)
        ((hkept rfl).trans hindex) ?_ hread hobliging'
      rw [hkept rfl, hlength]

/-- `Read(address, 0)` asks for 256 bytes. -/
theorem readFrom_zero_touches {held : Bool} (address : Byte) (sendStop : Bool) (hready : Ready held m)
    (hobliging : m.device.Obliging) :
    Touches twiReact (readFrom address 0 sendStop) m (.masterBuffer 64) := by
  unfold readFrom
  rw [← clamp]
  refine Touches.bind (Total.note_iff.mpr (Touches.bind (awaitReady_total hready.state ?_)))
  refine Touches.bind (Total.write_iff.mpr (Touches.bind (Total.write_iff.mpr ?_)))
  refine Touches.bind (Total.write_iff.mpr (Touches.bind (Total.write_iff.mpr ?_)))
  refine Touches.bind (Total.write_iff.mpr (Touches.bind (Total.write_iff.mpr ?_)))
  simp only [store_of_ne, ne_eq, reduceCtorEq, not_false_eq_true]
  rw [← requestSetup]
  apply startTransaction_touches (k := fun _ => _)
    (m := requestSetup m (twRead ||| address <<< 1) (clamp 0) sendStop) hready.bus
    ((requestSetup_inRepStart m _ _ sendStop).trans hready.inRepStart) ?_ ?_ ?_ ?_ hobliging
  · simp [requestSetup, Machine.set_vars_of_ne]
  · simp [requestSetup, Machine.set_vars_of_ne]
  · rw [requestSetup, Machine.set_vars_of_ne _ (by simp), Machine.set_vars_self]
    rfl
  · rw [requestSetup, Machine.set_vars_self]
    exact slarw_read address

end

end CTWController

/-! ## Any sequence of calls

The methods are public, so that they may be called in any order, with any arguments, from the construction
on. `PublicCall` has one constructor for each, the overload of `Write` for several bytes included. -/

/-- A public method of `CTWController`. -/
inductive PublicCall where
  | call (c : TwCall)
  | writeBytes (data : Nat → Byte) (quantity : Byte)
  | peek
  | available

namespace PublicCall

/-- The method that the call is a call of; what it returns is not looked at. -/
def code : PublicCall → Code Unit
  | call c => c.code
  | writeBytes data quantity => do
      let _ ← CTWController.writeBytes data quantity
      pure ()
  | peek => do
      let _ ← CTWController.peek
      pure ()
  | available => do
      let _ ← CTWController.available
      pure ()

/-- It is not `Read(address, 0)`. -/
def Asks : PublicCall → Prop
  | call c => c.Asks
  | _ => True

end PublicCall

open CTWController

/-- The controller between two calls, with what has been received in the receive buffer. -/
structure Settled (held : Bool) (txAddress : Byte) (m : TwMachine) : Prop
    extends BetweenCalls held txAddress m where
  rx : (m.vars .rxBufferLength).toNat ≤ 64

/-- A call that asks for at least one byte stays inside, from a controller between two calls. -/
theorem TwCall.code_stays {held : Bool} {txAddress : Byte} {m : TwMachine} {c : TwCall}
    (hm : Settled held txAddress m) (hc : c.Asks) :
    StaysIn c.code m fun _ m' => ∃ held' txAddress', Settled held' txAddress' m' := by
  obtain ⟨q, hq⟩ := hm.queue
  obtain ⟨bytes, hu⟩ := hm.unread
  have hrx := hm.rx
  -- What a call leaves is known already; only the number of bytes received has to be followed.
  suffices hcode : StaysIn c.code m fun _ m' => (m'.vars .rxBufferLength).toNat ≤ 64 by
    apply (hcode.total (TwCall.code_total hm.toBetweenCalls hc)).mono
    rintro _ m' ⟨hrx', trace, held', -, -, hm'⟩
    exact ⟨held', _, hm', hrx'⟩
  cases c with
  | beginTransmission address =>
      apply (beginTransmission_inRange address).safe
      apply (beginTransmission_total address).mono
      intro _ m' h
      rw [h.vars .rxBufferLength rfl]
      exact hrx
  | write data =>
      apply Safe.seq ((writeByte_stays data hq).total (writeByte_total data hq))
      rintro r m' ⟨-, h⟩
      apply Safe.pure_iff.mpr
      split at h
      · rw [h.2.vars .rxBufferLength rfl]
        exact hrx
      · rw [h.2]
        exact hrx
  | endTransmission sendStop =>
      apply Safe.seq ((endTransmission_stays sendStop hm.ready hq).total
        (endTransmission_total sendStop hm.ready hq))
      rintro r m' ⟨-, h⟩
      apply Safe.pure_iff.mpr
      rw [h.vars .rxBufferLength rfl]
      exact hrx
  | readFrom address length sendStop =>
      exact Safe.seq (readFrom_stays address sendStop hm.ready hc) fun _ _ hrx' => Safe.pure_iff.mpr hrx'
  | read =>
      apply Safe.seq ((readByte_stays hrx).total (readByte_total hu))
      rintro r m' ⟨-, -, -, hvars, -, -⟩
      apply Safe.pure_iff.mpr
      rw [hvars .rxBufferLength (by simp)]
      exact hrx

/-- The same with the functions that the board does not use. -/
theorem PublicCall.code_stays {m : TwMachine} {c : PublicCall}
    (hm : ∃ held txAddress, Settled held txAddress m) (hc : c.Asks) :
    StaysIn c.code m fun _ m' => ∃ held' txAddress', Settled held' txAddress' m' := by
  obtain ⟨held, txAddress, hm⟩ := hm
  obtain ⟨bytes, hu⟩ := hm.unread
  cases c with
  | call c => exact TwCall.code_stays hm hc
  -- a loop over `Write(byte)`
  | writeBytes data quantity =>
      have hwrite : ∀ i, ∀ m : TwMachine, (∃ held txAddress, Settled held txAddress m) →
          StaysIn (TwCall.write (data i)).code m fun _ m' => ∃ held txAddress, Settled held txAddress m' := by
        rintro i m ⟨held, txAddress, hm⟩
        exact TwCall.code_stays hm trivial
      have hwrites : StaysIn ((List.range quantity.toNat).forM fun i => (TwCall.write (data i)).code) m
          fun _ m' => ∃ held txAddress, Settled held txAddress m' :=
        Safe.forM (fun i _ => hwrite i) ⟨held, txAddress, hm⟩
      refine Safe.bind (Safe.seq hwrites fun _ m' hm' => ?_)
      exact Safe.pure_iff.mpr (Safe.pure_iff.mpr hm')
  | peek =>
      apply Safe.seq ((peek_stays hm.rx).total (peek_total hu))
      rintro r m' ⟨-, -, rfl⟩
      exact Safe.pure_iff.mpr ⟨held, txAddress, hm⟩
  | available =>
      apply Safe.seq (available_inRange.safe (available_total hu))
      rintro r m' ⟨-, rfl⟩
      exact Safe.pure_iff.mpr ⟨held, txAddress, hm⟩

/-- From its construction on, the controller stays within its buffers, whatever the slaves do. -/
theorem buffers_in_range {m : TwMachine} (hbus : m.device.phase = .idle) {calls : List PublicCall}
    (hcalls : ∀ c ∈ calls, c.Asks) :
    StaysIn (construct >>= fun _ => calls.forM PublicCall.code) m fun _ m' =>
      ∃ held txAddress, Settled held txAddress m' := by
  have hconstruct : construct.Leaves inRange := by
    have hstore : ∀ {x : Var} (v : Val x), InRange x → (store x v).Leaves inRange :=
      fun v hx => Prog.Leaves.write hx v
    refine .bind (hstore _ trivial) fun _ => .bind (hstore _ trivial) fun _ => ?_
    refine .bind (hstore _ trivial) fun _ => .bind (hstore _ trivial) fun _ => ?_
    refine .bind (hstore _ trivial) fun _ => .bind (hstore _ trivial) fun _ => ?_
    refine .bind (hstore _ trivial) fun _ => .bind (hstore _ trivial) fun _ => ?_
    refine .bind (hstore _ trivial) fun _ => .bind (.read trivial) fun _ => ?_
    exact .bind (hstore _ trivial) fun _ => hstore _ trivial
  -- the constructor empties the buffers, and the calls go on from there
  have hempty : Returns construct m fun _ m' => m'.vars .rxBufferLength = (0 : Byte) := by
    unfold construct
    simp only [Total.bind_iff, Total.write_iff, Total.read_iff, store_of_ne, ne_eq, reduceCtorEq,
      not_false_eq_true, store_quiet (v := twen ||| twie ||| twea) (by decide)]
    simp [Machine.set_vars_of_ne]
  apply Safe.seq (hconstruct.safe ((construct_total hbus).and hempty))
  rintro _ m₁ ⟨⟨hready, hqueue, haddress, hunread, -, -⟩, hrx⟩
  apply Safe.forM (fun c hc m hm => PublicCall.code_stays hm (hcalls c hc))
  refine ⟨false, 0, ⟨hready, ⟨_, hqueue⟩, ⟨_, hunread⟩, haddress⟩, ?_⟩
  rw [hrx]
  exact Nat.zero_le _

/-! ### Slaves that go on as long as the master asks -/

/-- A slave that keeps sending goes on doing so after any such call. -/
theorem TwCall.obliging_total {held : Bool} {txAddress : Byte} {m : TwMachine} {c : TwCall}
    (hm : BetweenCalls held txAddress m) (hobliging : m.device.Obliging) (hc : c.Asks) :
    Returns c.code m fun _ m' => m'.device.Obliging := by
  obtain ⟨q, hq⟩ := hm.queue
  obtain ⟨bytes, hu⟩ := hm.unread
  cases c with
  | beginTransmission address =>
      apply (beginTransmission_total address).mono
      intro _ m' h
      rw [h.device]
      exact hobliging
  | write data =>
      refine Total.seq (writeByte_total data hq) fun r m' h => Total.pure_iff.mpr ?_
      split at h
      · rw [h.2.device]
        exact hobliging
      · rw [h.2]
        exact hobliging
  | endTransmission sendStop =>
      refine Total.seq (endTransmission_total sendStop hm.ready hq) fun r m' h => Total.pure_iff.mpr ?_
      rw [h.device]
      exact hobliging.transmission _ _ _
  | readFrom address length sendStop =>
      apply Total.seq (readFrom_total address sendStop hm.ready hc)
      rintro received m' ⟨bytes', ending, h', hreception, h⟩
      apply Total.pure_iff.mpr
      -- the bytes taken from the slave are a prefix of what it would send
      have hleft := hobliging.reception (twRead ||| address <<< 1) (min length.toNat 64) sendStop
      rw [hreception] at hleft
      rw [h.device]
      exact hleft
  | read =>
      apply Total.seq (readByte_total hu)
      rintro r m' ⟨-, -, -, hdevice, -⟩
      apply Total.pure_iff.mpr
      rw [hdevice]
      exact hobliging

/-- Between two calls, with slaves that go on as long as they are asked. -/
def WellServed (m : TwMachine) : Prop :=
  (∃ held txAddress, BetweenCalls held txAddress m) ∧ m.device.Obliging

/-- What is known of a controller with an obliging slave is known again after a call. -/
theorem TwCall.served_total {m : TwMachine} {c : TwCall} (hm : WellServed m) (hc : c.Asks) :
    Returns c.code m fun _ m' => WellServed m' := by
  obtain ⟨⟨held, txAddress, hm⟩, hobliging⟩ := hm
  apply ((TwCall.code_total hm hc).and (TwCall.obliging_total hm hobliging hc)).mono
  rintro _ m' ⟨⟨trace, held', -, -, hm'⟩, hobliging'⟩
  exact ⟨⟨held', _, hm'⟩, hobliging'⟩

theorem PublicCall.served_total {m : TwMachine} {c : PublicCall} (hm : WellServed m) (hc : c.Asks) :
    Returns c.code m fun _ m' => WellServed m' := by
  cases c with
  | call c => exact TwCall.served_total hm hc
  | writeBytes data quantity =>
      have hwrites : Returns ((List.range quantity.toNat).forM fun i => (TwCall.write (data i)).code) m
          fun _ m' => WellServed m' :=
        Total.forM (fun i _ m hm => TwCall.served_total hm trivial) hm
      refine Total.bind (Total.seq hwrites fun _ m' hm' => ?_)
      exact Total.pure_iff.mpr (Total.pure_iff.mpr hm')
  | peek =>
      obtain ⟨held, txAddress, hbetween⟩ := hm.1
      obtain ⟨bytes, hu⟩ := hbetween.unread
      apply Total.seq (peek_total hu)
      rintro r m' ⟨-, rfl⟩
      exact Total.pure_iff.mpr hm
  | available =>
      obtain ⟨held, txAddress, hbetween⟩ := hm.1
      obtain ⟨bytes, hu⟩ := hbetween.unread
      apply Total.seq (available_total hu)
      rintro r m' ⟨-, rfl⟩
      exact Total.pure_iff.mpr hm

/-- The first `Read(address, 0)` goes over the end of the master buffer. -/
theorem publicCalls_touch {calls : List PublicCall} {m : TwMachine} (hm : WellServed m)
    (hzero : ∃ c ∈ calls, ¬ c.Asks) :
    Touches twiReact (calls.forM PublicCall.code) m (.masterBuffer 64) := by
  induction calls generalizing m with
  | nil =>
      obtain ⟨c, hc, -⟩ := hzero
      exact absurd hc List.not_mem_nil
  | cons c calls ih =>
      show Touches twiReact (c.code >>= fun _ => calls.forM PublicCall.code) m _
      by_cases hc : c.Asks
      -- this call is well behaved, and the one that is not comes later
      · apply Touches.seq (PublicCall.served_total hm hc)
        intro _ m' hm'
        apply ih hm'
        obtain ⟨c', hc', hnot⟩ := hzero
        rcases List.mem_cons.mp hc' with rfl | hc'
        · exact absurd hc hnot
        · exact ⟨c', hc', hnot⟩
      -- this is the one: a `Read` of length 0
      · apply Touches.left
        cases c with
        | call c =>
            cases c with
            | readFrom address length sendStop =>
                obtain rfl : length = 0 := not_not.mp hc
                obtain ⟨⟨held, txAddress, hbetween⟩, hobliging⟩ := hm
                exact Touches.left (readFrom_zero_touches address sendStop hbetween.ready hobliging)
            | _ => exact absurd trivial hc
        | _ => exact absurd trivial hc

/-- From the constructor on: with an obliging slave, one call that asks for nothing is enough. -/
theorem calls_touch {m : TwMachine} (hbus : m.device.phase = .idle) (hslave : m.device.Obliging)
    (calls : List PublicCall) (hzero : ∃ c ∈ calls, ¬ c.Asks) :
    Touches twiReact (construct >>= fun _ => calls.forM PublicCall.code) m (.masterBuffer 64) := by
  apply Touches.seq (construct_total hbus)
  rintro _ m₁ ⟨hready, hqueue, haddress, hunread, hdevice, -⟩
  apply publicCalls_touch _ hzero
  refine ⟨⟨false, 0, hready, ⟨_, hqueue⟩, ⟨_, hunread⟩, haddress⟩, ?_⟩
  rw [hdevice]
  exact hslave

/-- **The indices into the buffers.** Whatever is called from the construction of the controller on, and for
slaves that supply and accept bytes as long as the master asks, all accesses to the three buffers are below
`TW_BUFFER_LENGTH` just when nobody reads 0 bytes. -/
theorem buffers_in_range_iff {m : TwMachine} (hbus : m.device.phase = .idle)
    (hslave : m.device.Obliging) (calls : List PublicCall) :
    (∀ x, Touches twiReact (construct >>= fun _ => calls.forM PublicCall.code) m x → InRange x) ↔
      ∀ c ∈ calls, c.Asks := by
  constructor
  · intro hin
    by_contra hzero
    have hover : InRange (.masterBuffer 64) := hin _ (calls_touch hbus hslave calls (by simpa using hzero))
    exact absurd hover (Nat.lt_irrefl 64)
  · intro hcalls x hx
    exact (buffers_in_range hbus hcalls).ok_of_touches hx

/-- A slave that sends zeros and takes everything. -/
def generous : TwMachine := ⟨atRest, ⟨.idle, fun _ => ⟨none, true, 0⟩, []⟩, []⟩

/-- It answers and sends without end. -/
theorem generous_obliging : generous.device.Obliging := fun _ => ⟨rfl, rfl⟩

theorem buffers_in_range_iff_generous :
    (∀ x, Touches twiReact (construct >>= fun _ =>
        [PublicCall.call (.beginTransmission 0x20), .writeBytes (fun _ => 7) 200,
          .call (.endTransmission false), .call (.readFrom 0x20 255 true), .peek].forM PublicCall.code)
        generous x → InRange x) ↔
      ∀ c ∈ [PublicCall.call (.beginTransmission 0x20), .writeBytes (fun _ => 7) 200,
        .call (.endTransmission false), .call (.readFrom 0x20 255 true), .peek], c.Asks :=
  buffers_in_range_iff rfl generous_obliging _

/-- `Read(0x20, 0)` from it stores behind the end of the master buffer. -/
theorem buffers_not_in_range :
    ¬ ∀ m : TwMachine, m.device.phase = .idle → m.device.Obliging → ∀ calls : List PublicCall, ∀ x,
      Touches twiReact (construct >>= fun _ => calls.forM PublicCall.code) m x → InRange x := by
  intro hall
  have htouch := calls_touch rfl generous_obliging [.call (.readFrom 0x20 0 true)]
    ⟨_, List.mem_cons_self, fun hasks => hasks rfl⟩
  have hover : InRange (.masterBuffer 64) := hall generous rfl generous_obliging _ _ htouch
  exact absurd hover (Nat.lt_irrefl 64)

end SmartblocksOs.Board
