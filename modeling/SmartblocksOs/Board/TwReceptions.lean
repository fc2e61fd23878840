/-
# SmartblocksOs.Board.TwReceptions -- a reception, and the calls that hand it out

`Read(address, n)` receives at most `TW_BUFFER_LENGTH` bytes and returns how many there were; after it
`Read()` hands them out one by one, in the order in which the slave has sent them, and `0xFF` when there are
none left, which `Available` tells (`reception_delivered`).
-/
import SmartblocksOs.Foundation.Receptions
import SmartblocksOs.Board.Operations
import SmartblocksOs.Board.TwSections

namespace SmartblocksOs.Board

open SmartblocksOs.Foundation SmartblocksOs.System SmartblocksOs.Foundation.TwoWire

namespace CTWController

/-! ## The reader -/

/-- A call between two receptions. -/
inductive ReaderCall where
  | available | read | peek
  deriving DecidableEq, Repr

/-- What such a call returns. -/
inductive ReaderAnswer where
  | remain (more : Bool)
  | byte (b : Byte)
  deriving DecidableEq, Repr

/-- The method that the call is a call of. -/
def ReaderCall.body : ReaderCall → Code ReaderAnswer
  | .available => do
      let more ← CTWController.available
      pure (.remain more)
  | .read => do
      let b ← readByte
      pure (.byte b)
  | .peek => do
      let b ← CTWController.peek
      pure (.byte b)

/-- What a call returns, when `taken` of the `bytes` have been read. -/
def ReaderCall.answer (bytes : List Byte) (taken : Nat) : ReaderCall → ReaderAnswer
  | .available => .remain (decide (taken < bytes.length))
  | .read | .peek => .byte (bytes.getD taken 0xFF)

/-- The calls one after the other, with what they return. -/
def readerCalls : List ReaderCall → Code (List ReaderAnswer)
  | [] => pure []
  | call :: calls => do
      let answer ← call.body
      let answers ← readerCalls calls
      pure (answer :: answers)

/-- A reception, and calls after it. -/
def reception (address length : Byte) (sendStop : Bool) (calls : List ReaderCall) :
    Code (Byte × List ReaderAnswer) := do
  let count ← readFrom address length sendStop
  let answers ← readerCalls calls
  pure (count, answers)

section

variable {m : TwMachine} {bytes : List Byte}

/-- Reading past the last byte gives 0xFF. -/
theorem headD_drop (bytes : List Byte) (taken : Nat) :
    (bytes.drop taken).headD 0xFF = bytes.getD taken 0xFF := by
  rw [List.headD_eq_head?_getD, List.head?_drop, List.getD_eq_getElem?_getD]

/-- One call: what it returns, and what is left. -/
theorem ReaderCall.body_total (call : ReaderCall) {taken : Nat} (hu : Unread m.vars (bytes.drop taken)) :
    Returns call.body m fun answer m' => answer = call.answer bytes taken ∧
      Unread m'.vars (bytes.drop (taken + [call].count .read)) ∧ m'.device = m.device ∧
      m'.vars .state = m.vars .state := by
  cases call with
  -- whether anything is left is all it tells
  | available =>
      apply Total.seq (available_total hu)
      rintro _ m' ⟨rfl, rfl⟩
      refine Total.pure_iff.mpr ⟨?_, hu, rfl, rfl⟩
      show ReaderAnswer.remain _ = .remain _
      rw [ReaderAnswer.remain.injEq, decide_eq_decide, ne_eq, List.drop_eq_nil_iff, Nat.not_le]
  -- one byte is taken
  | read =>
      apply Total.seq (readByte_total hu)
      rintro _ m' ⟨rfl, hunread, hvars, hdevice, -⟩
      refine Total.pure_iff.mpr ⟨?_, ?_, hdevice, hvars _ (by simp)⟩
      · show ReaderAnswer.byte _ = .byte _
        rw [headD_drop]
      · rw [List.tail_drop] at hunread
        exact hunread
  -- the byte is looked at and stays
  | peek =>
      apply Total.seq (peek_total hu)
      rintro _ m' ⟨rfl, rfl⟩
      refine Total.pure_iff.mpr ⟨?_, hu, rfl, rfl⟩
      show ReaderAnswer.byte _ = .byte _
      rw [headD_drop]

theorem readerCalls_total (calls : List ReaderCall) {taken : Nat} (hu : Unread m.vars (bytes.drop taken)) :
    Returns (readerCalls calls) m fun answers m' =>
      answers = calls.mapIdx (fun p call => call.answer bytes (taken + (calls.take p).count .read)) ∧
      m'.device = m.device ∧ m'.vars .state = m.vars .state := by
  induction calls generalizing taken m with
  | nil => exact Total.pure_iff.mpr ⟨rfl, rfl, rfl⟩
  | cons call calls ih =>
      apply Total.seq (call.body_total hu)
      rintro _ m₁ ⟨rfl, hu₁, hdevice₁, hstate₁⟩
      apply Total.seq (ih hu₁)
      rintro _ m₂ ⟨rfl, hdevice₂, hstate₂⟩
      refine Total.pure_iff.mpr ⟨?_, hdevice₂.trans hdevice₁, hstate₂.trans hstate₁⟩
      rw [List.mapIdx_cons]
      congr 1
      apply List.mapIdx_eq_mapIdx_iff.mpr
      intro p hp
      have hcount : ((call :: calls).take (p + 1)).count .read =
          [call].count .read + (calls.take p).count .read := by
        show ([call] ++ calls.take p).count .read = _
        rw [List.count_append]
      rw [hcount, Nat.add_assoc]

end

/-- **What a reception delivers.** All but the last of `min(n, TW_BUFFER_LENGTH)` bytes are acknowledged;
what is returned is the number of bytes that came before the reception was over or cut; and the calls after
it find these bytes in the order of the slave, and then `0xFF`. -/
theorem reception_delivered {held : Bool} {m : TwMachine} (address : Byte) {length : Byte}
    (sendStop : Bool) (calls : List ReaderCall) (hready : Ready held m) (hlength : length ≠ 0) :
    Returns (reception address length sendStop calls) m fun r m' =>
      ∃ bytes events, m'.device.trace = m.device.trace ++ events ∧
        receivedOnBus events = acknowledged (min length.toNat twBufferLength) bytes ∧
        bytes = (List.range bytes.length).map
          (fun i => (m.device.answers (Hardware.headAnswers held + i)).data) ∧
        ((∀ e ∈ events, ¬ e.IsCut) → bytes.length = min length.toNat twBufferLength) ∧
        ((∃ e ∈ events, e.IsCut) → bytes.length < min length.toNat twBufferLength) ∧
        r.1.toNat = bytes.length ∧
        r.2 = calls.mapIdx (fun p call => call.answer bytes ((calls.take p).count .read)) ∧
        m'.vars .state = twStateReady := by
  have hpos : 0 < min length.toNat 64 := by
    have : length.toNat ≠ 0 := fun h => hlength (BitVec.eq_of_toNat_eq h)
    omega
  apply Total.seq (readFrom_total address sendStop hready hlength)
  rintro count m₁ ⟨bytes, ending, h, hreception, hreceived⟩
  have hunread : Unread m₁.vars (bytes.drop 0) := hreceived.unread
  apply Total.seq (readerCalls_total calls hunread)
  rintro answers m₂ ⟨hanswers, hdevice, hstate⟩
  -- what the bus hardware says of this reception
  obtain ⟨events, htrace, hbrought⟩ :=
    Hardware.reception_told hready.bus (slar address) (min length.toNat 64) sendStop
  have hdata := Hardware.reception_data hready.bus (slar address) (min length.toNat 64) sendStop
  unfold slar at htrace hbrought hdata
  rw [hreception] at htrace hbrought hdata
  refine Total.pure_iff.mpr ⟨bytes, events, ?_, hbrought.received, hdata, hbrought.complete,
    hbrought.short hpos, hreceived.length, ?_, hstate.trans hreceived.ready.state⟩
  · rw [hdevice, hreceived.device]
    exact htrace
  · simp only [hanswers, Nat.zero_add]

/-- A slave that sends `0, 1, 2, ..`, and the bus fails after three bytes. -/
def counting : TwMachine :=
  ⟨atRest, ⟨.idle, fun i => ⟨if i = 5 then some .busError else none, true, BitVec.ofNat 8 (i - 2)⟩, []⟩, []⟩

/-- Its bus is at rest. -/
theorem counting_ready : Ready false counting := ⟨rfl, rfl, rfl⟩

/-- Ten bytes of it. -/
theorem reception_delivered_counting :
    let calls : List ReaderCall := [.read, .available, .read, .peek, .read, .available, .read]
    (10 : Byte) ≠ 0 ∧ Returns (reception 0x20 10 true calls) counting fun r m' =>
      ∃ bytes events, m'.device.trace = counting.device.trace ++ events ∧
        receivedOnBus events = acknowledged 10 bytes ∧ r.1.toNat = bytes.length ∧
        r.2 = calls.mapIdx (fun p call => call.answer bytes ((calls.take p).count .read)) := by
  intro calls
  refine ⟨by decide, ?_⟩
  apply (reception_delivered 0x20 true calls counting_ready (by decide : (10 : Byte) ≠ 0)).mono
  rintro r m' ⟨bytes, events, htrace, hreceived, -, -, -, hcount, hanswers, -⟩
  exact ⟨bytes, events, htrace, hreceived, hcount, hanswers⟩

end CTWController

end SmartblocksOs.Board
