/-
# SmartblocksOs.Uart.Transmit -- the transmit ring, between `Write` and `USART_UDRE_vect`

`Write` puts a byte in the ring and enables the data register interrupt; `ISR(USART_UDRE_vect)` takes
bytes out and disables itself when there is none. The handler runs between any two loads and stores
of `Write` while `UDRIE0` is set, also between the load and the store of `UCSR0B |= _BV(UDRIE0)`. No
byte is lost or sent twice, and whenever `Write` has returned the bytes that are left will be asked
for (`transmit_fifo`).

The state has the transmitter behind `UDR0` too: the shift register, and `TXC0`, which `Flush` waits
for. They are the subject of `SmartblocksOs.Uart.Completion`.
-/
import SmartblocksOs.Foundation.Runs
import SmartblocksOs.Uart.RingBuffer

namespace SmartblocksOs.Uart

open SmartblocksOs.Foundation SmartblocksOs.System

/-! ## Registers

The bits of `UCSR0A` and `UCSR0B` that the code uses. -/

/-- `UDRIE0`, in `UCSR0B`. -/
def udrie0 : Nat := 5

/-- `TXC0`, in `UCSR0A`. -/
def txc0 : Nat := 6

/-- `_BV(bit)`. -/
def bv (bit : Nat) : Byte := 1 <<< bit

/-- `reg & _BV(bit)`, as a condition. -/
def isSet (reg : Byte) (bit : Nat) : Bool := reg.getLsbD bit

/-- A store of `v` to `UCSR0A`: of the bits 7 to 2 none is written, `TXC0` is cleared by writing a one to
it, and `U2X0` and `MPCM0` take the values written. -/
def writeUcsra (ucsra v : Byte) : Byte :=
  (ucsra &&& 0xBC) ||| (v &&& 0x03) ||| (ucsra &&& ~~~v &&& bv txc0)

theorem isSet_or_bv (v : Byte) : isSet (v ||| bv udrie0) udrie0 = true := by
  simp [isSet, bv, udrie0]

theorem isSet_or_txc0 (v : Byte) : isSet (v ||| bv txc0) txc0 = true := by
  simp [isSet, bv, txc0]

/-- To write a one to `TXC0` clears it. -/
theorem isSet_writeUcsra (ucsra v : Byte) : isSet (writeUcsra ucsra (v ||| bv txc0)) txc0 = false := by
  simp [isSet, writeUcsra, bv, txc0]

/-! ## The writer, the handler and the transmitter

Three parties that move in turn: the task in `Write` or `Flush`, the handler of the data register
interrupt, and the hardware that shifts a byte out. -/

/-- Where the writer stands: before a load or store of the call it is in. -/
inductive Writer where
  | idle
  -- `i = (head + 1) % SERIAL_BUFFER_SIZE` and `while (i == tail)`, in `Write`
  | index (c : Byte)
  | wait (c : Byte) (i : Word)
  -- `buffer[head] = c` and `head = i`
  | slot (c : Byte) (i : Word)
  | put (c : Byte) (i head : Word)
  | publish (c : Byte) (i : Word)
  -- `UCSR0B |= _BV(UDRIE0)`
  | loadUcsrb
  | storeUcsrb (ucsrb : Byte)
  -- `transmitting = true` and `UCSR0A |= _BV(TXC0)`
  | setTransmitting
  | loadUcsra
  | storeUcsra (ucsra : Byte)
  -- `while (transmitting && !(UCSR0A & _BV(TXC0)))` and `transmitting = false`, in `Flush`
  | flushTest
  | flushPoll
  | clearTransmitting
  deriving DecidableEq

/-- The transmit buffer, the registers and the shift register of the unit, the one task that writes, and
what has gone in and come out. -/
structure Transmitter where
  tx : SRingBuffer
  ucsra : Byte
  ucsrb : Byte
  transmitting : Bool
  /-- `UDR0` holds a byte that is yet to go to the shift register. -/
  udrFull : Bool
  /-- A byte is being shifted out. -/
  shifting : Bool
  writer : Writer
  /-- The bytes that `Write` has been called with. -/
  written : List Byte
  /-- The bytes stored to `UDR0`. -/
  sent : List Byte

/-- What can happen: the writer calls or takes a step, the handler runs, or the unit moves a byte on. -/
inductive TransmitEvent where
  | write (c : Byte)
  | flush
  /-- The next load or store of the writer. -/
  | advance
  /-- `USART_UDRE_vect` runs. -/
  | udreVect
  /-- The byte in `UDR0` goes to the idle shift register. -/
  | load
  /-- The last bit of the byte in the shift register has been sent. -/
  | shiftedOut
  deriving DecidableEq

namespace Transmitter

/-- `ISR(USART_UDRE_vect)`. -/
def udreVect (s : Transmitter) : Transmitter :=
  if s.tx.head = s.tx.tail then { s with ucsrb := s.ucsrb &&& ~~~bv udrie0 }
  else
    let c := s.tx.buffer s.tx.tail.toNat
    { s with
      tx := { s.tx with tail := nextIndex s.tx.tail }
      udrFull := true
      sent := s.sent ++ [c] }

/-- When `UDR0` holds another byte it is the next one, and otherwise `TXC0` is set. -/
def shiftedOut (s : Transmitter) : Transmitter :=
  if s.udrFull then { s with udrFull := false }
  else { s with shifting := false, ucsra := s.ucsra ||| bv txc0 }

/-- The writer goes on with `writer`. -/
def goto (s : Transmitter) (writer : Writer) : Transmitter := { s with writer := writer }

/-- The next load or store of the writer. While the ring is full it comes back to `wait`. -/
def advance (s : Transmitter) : Option Transmitter :=
  match s.writer with
  | .idle => none
  | .index c => some (s.goto (.wait c (nextIndex s.tx.head)))
  | .wait c i => if i = s.tx.tail then some s else some (s.goto (.slot c i))
  | .slot c i => some (s.goto (.put c i s.tx.head))
  | .put c i head => some { s.goto (.publish c i) with tx := s.tx.put head c }
  | .publish _ i => some { s.goto .loadUcsrb with tx := { s.tx with head := i } }
  | .loadUcsrb => some (s.goto (.storeUcsrb s.ucsrb))
  | .storeUcsrb ucsrb => some { s.goto .setTransmitting with ucsrb := ucsrb ||| bv udrie0 }
  | .setTransmitting => some { s.goto .loadUcsra with transmitting := true }
  | .loadUcsra => some (s.goto (.storeUcsra s.ucsra))
  | .storeUcsra ucsra =>
      some { s.goto .idle with ucsra := writeUcsra s.ucsra (ucsra ||| bv txc0) }
  | .flushTest => some (s.goto (if s.transmitting then .flushPoll else .clearTransmitting))
  | .flushPoll => some (s.goto (if isSet s.ucsra txc0 then .clearTransmitting else .flushTest))
  | .clearTransmitting => some { s.goto .idle with transmitting := false }

end Transmitter

/-- The handler is enabled exactly while `UDRIE0` is set; that `UDR0` must be empty too is not asked of
it. -/
def transmitStep (s : Transmitter) : TransmitEvent → Option Transmitter
  | .write c =>
      if s.writer = .idle then some { s.goto (.index c) with written := s.written ++ [c] } else none
  | .flush => if s.writer = .idle then some (s.goto .flushTest) else none
  | .advance => s.advance
  | .udreVect => if isSet s.ucsrb udrie0 then some s.udreVect else none
  | .load =>
      if s.udrFull ∧ ¬ s.shifting then some { s with udrFull := false, shifting := true } else none
  | .shiftedOut => if s.shifting then some s.shiftedOut else none

/-- After `Begin`. -/
def Transmitter.Initial (s : Transmitter) : Prop :=
  s.tx.head = 0 ∧ s.tx.tail = 0 ∧ s.transmitting = false ∧ s.udrFull = false ∧
    s.shifting = false ∧ s.writer = .idle ∧ s.written = [] ∧ s.sent = []

namespace Writer

/-- A `Write` is in progress. -/
def InWrite : Writer → Prop
  | idle | flushTest | flushPoll | clearTransmitting => False
  | _ => True

instance (w : Writer) : Decidable w.InWrite := by
  cases w <;> first | exact isTrue trivial | exact isFalse id

/-- The byte of the `Write` in progress, as long as it is not in the ring. -/
def byte? : Writer → Option Byte
  | index c | wait c _ | slot c _ | put c _ _ | publish c _ => some c
  | _ => none

/-- Between `head = i` and the end of `UCSR0B |= _BV(UDRIE0)`. -/
def Enabling : Writer → Prop
  | loadUcsrb | storeUcsrb _ => True
  | _ => False

/-- A writer that is not in `Write` holds no byte. -/
theorem byte?_of_not_inWrite {w : Writer} (h : ¬ w.InWrite) : w.byte? = none := by
  cases w with
  | idle | flushTest | flushPoll | clearTransmitting => rfl
  | _ => exact absurd trivial h

theorem not_enabling_of_not_inWrite {w : Writer} (h : ¬ w.InWrite) : ¬ w.Enabling := by
  cases w with
  | idle | flushTest | flushPoll | clearTransmitting => exact id
  | _ => exact absurd trivial h

end Writer

/-! ## The invariant

The bytes between `tail` and `head` are those written and not yet handed over. The clause about `UDRIE0`
says that when it is clear the ring is empty or the writer is about to set it. -/

/-- What the writer has loaded still is what it says, and the room that it found is still there. -/
def WriterOk (s : Transmitter) (xs : List Byte) : Prop :=
  match s.writer with
  | .wait _ i => i = nextIndex s.tx.head
  | .slot _ i => i = nextIndex s.tx.head ∧ xs.length < 63
  | .put _ i head => i = nextIndex s.tx.head ∧ xs.length < 63 ∧ head = s.tx.head
  | .publish c i =>
      i = nextIndex s.tx.head ∧ xs.length < 63 ∧ s.tx.buffer s.tx.head.toNat = c
  | _ => True

/-- The ring holds the bytes `xs`: those written and not yet sent. -/
structure Transmitter.Ok (s : Transmitter) (xs : List Byte) : Prop where
  written : s.written = s.sent ++ xs ++ s.writer.byte?.toList
  ring : s.tx.Holds xs
  writer : WriterOk s xs
  enabled : ¬ s.writer.Enabling → xs ≠ [] → isSet s.ucsrb udrie0 = true

/-- Fewer bytes in the ring do not disturb the writer. -/
theorem WriterOk.fewer {s t : Transmitter} {xs ys : List Byte} (h : WriterOk s xs)
    (hwriter : t.writer = s.writer) (hhead : t.tx.head = s.tx.head)
    (hbuffer : t.tx.buffer = s.tx.buffer) (hlen : ys.length ≤ xs.length) : WriterOk t ys := by
  rw [WriterOk] at h ⊢
  rw [hwriter, hhead, hbuffer]
  cases hpc : s.writer with
  | slot c i =>
      rw [hpc] at h
      exact ⟨h.1, Nat.lt_of_le_of_lt hlen h.2⟩
  | put c i head =>
      rw [hpc] at h
      exact ⟨h.1, Nat.lt_of_le_of_lt hlen h.2.1, h.2.2⟩
  | publish c i =>
      rw [hpc] at h
      exact ⟨h.1, Nat.lt_of_le_of_lt hlen h.2.1, h.2.2⟩
  | _ =>
      rw [hpc] at h
      exact h

namespace Transmitter

variable {s t : Transmitter} {xs : List Byte}

/-- An empty ring, and a writer that is idle. -/
theorem Initial.ok (h : s.Initial) : s.Ok [] := by
  obtain ⟨hhead, htail, -, -, -, hwriter, hwritten, hsent⟩ := h
  refine ⟨?_, ?_, ?_, fun _ hne => absurd rfl hne⟩
  · rw [hwritten, hsent, hwriter]
    rfl
  · rw [SRingBuffer.Holds, hhead, htail]
    exact RingHolds.nil (by omega) _
  · rw [WriterOk, hwriter]
    trivial

/-- The writer moves on, and `UDRIE0` is as it was. -/
theorem Ok.goto (h : s.Ok xs) {writer : Writer} (hbyte : writer.byte? = s.writer.byte?)
    (hwriter : WriterOk (s.goto writer) xs) (henabling : writer.Enabling ↔ s.writer.Enabling) :
    (s.goto writer).Ok xs := by
  refine ⟨?_, h.ring, hwriter, fun hnot => h.enabled (mt henabling.mpr hnot)⟩
  show s.written = s.sent ++ xs ++ writer.byte?.toList
  rw [hbyte]
  exact h.written

/-- The handler takes the oldest byte, or finds none. -/
theorem Ok.udreVect (h : s.Ok xs) (hset : isSet s.ucsrb udrie0 = true) : ∃ ys, s.udreVect.Ok ys := by
  unfold Transmitter.udreVect
  split
  · rename_i hempty
    obtain rfl := h.ring.empty_iff.mp hempty
    exact ⟨[], h.written, h.ring, h.writer, fun _ hne => absurd rfl hne⟩
  · rename_i hne
    obtain ⟨ys, rfl⟩ := h.ring.exists_oldest hne
    refine ⟨ys, ?_, h.ring.drop, ?_, fun _ _ => hset⟩
    · show s.written = s.sent ++ [_] ++ ys ++ s.writer.byte?.toList
      rw [h.written]
      simp
    · exact h.writer.fewer rfl rfl rfl (Nat.le_succ _)

/-- The steps of the transmitter behind `UDR0`. -/
theorem Ok.hardware (h : s.Ok xs) (hwriter : t.writer = s.writer) (htx : t.tx = s.tx)
    (hucsrb : t.ucsrb = s.ucsrb) (hwritten : t.written = s.written) (hsent : t.sent = s.sent) :
    t.Ok xs := by
  refine ⟨?_, ?_, ?_, ?_⟩
  · rw [hwritten, hsent, hwriter]
    exact h.written
  · rw [htx]
    exact h.ring
  · exact h.writer.fewer hwriter (by rw [htx]) (by rw [htx]) (Nat.le_refl _)
  · rw [hwriter, hucsrb]
    exact h.enabled

/-- The steps of the writer. The head is moved on behind the store of the byte, and the handler is enabled
behind that. -/
theorem Ok.advance (h : s.Ok xs) (hst : s.advance = some t) : ∃ ys, t.Ok ys := by
  have hwriter := h.writer
  have hwritten := h.written
  have henabled := h.enabled
  rw [WriterOk] at hwriter
  unfold Transmitter.advance at hst
  cases hpc : s.writer with
  | idle => simp [hpc] at hst
  | index c =>
      simp only [hpc, Option.some.injEq] at hst
      subst hst
      exact ⟨xs, h.goto (by rw [hpc]; rfl) rfl (by rw [hpc]; rfl)⟩
  -- the ring is full, or there is room for the byte
  | wait c i =>
      simp only [hpc] at hst hwriter
      subst hwriter
      split at hst
      · obtain rfl := Option.some.inj hst
        exact ⟨xs, h⟩
      · rename_i hroom
        obtain rfl := Option.some.inj hst
        have hlen : xs.length < 63 := by
          have := h.ring.length_lt
          have := mt h.ring.full_iff.mpr hroom
          omega
        exact ⟨xs, h.goto (by rw [hpc]; rfl) ⟨rfl, hlen⟩ (by rw [hpc]; rfl)⟩
  | slot c i =>
      simp only [hpc, Option.some.injEq] at hst hwriter
      subst hst
      exact ⟨xs, h.goto (by rw [hpc]; rfl) ⟨hwriter.1, hwriter.2, rfl⟩ (by rw [hpc]; rfl)⟩
  -- the byte is in its slot, and not yet part of what the ring holds
  | put c i head =>
      simp only [hpc, Option.some.injEq] at hst hwriter
      subst hst
      obtain ⟨hi, hlen, rfl⟩ := hwriter
      rw [hpc] at hwritten henabled
      refine ⟨xs, hwritten, h.ring.put c, ⟨hi, hlen, Function.update_self ..⟩, fun _ hne => ?_⟩
      exact henabled id hne
  -- now it is
  | publish c i =>
      simp only [hpc, Option.some.injEq] at hst hwriter
      subst hst
      obtain ⟨rfl, hlen, hcell⟩ := hwriter
      rw [hpc] at hwritten
      have hring := h.ring.publish hlen
      rw [hcell] at hring
      refine ⟨xs ++ [c], ?_, hring, trivial, fun hnot => absurd trivial hnot⟩
      show s.written = s.sent ++ (xs ++ [c]) ++ []
      rw [hwritten, List.append_nil, List.append_assoc]
      rfl
  | loadUcsrb =>
      simp only [hpc, Option.some.injEq] at hst
      subst hst
      exact ⟨xs, h.goto (by rw [hpc]; rfl) trivial (by rw [hpc]; rfl)⟩
  -- the interrupt is enabled for it, whatever the value was that is written back
  | storeUcsrb ucsrb =>
      simp only [hpc, Option.some.injEq] at hst
      subst hst
      rw [hpc] at hwritten
      exact ⟨xs, hwritten, h.ring, trivial, fun _ _ => isSet_or_bv ucsrb⟩
  | setTransmitting | storeUcsra ucsra | clearTransmitting =>
      simp only [hpc, Option.some.injEq] at hst
      subst hst
      rw [hpc] at hwritten henabled
      exact ⟨xs, hwritten, h.ring, trivial, fun _ hne => henabled id hne⟩
  | loadUcsra =>
      simp only [hpc, Option.some.injEq] at hst
      subst hst
      exact ⟨xs, h.goto (by rw [hpc]; rfl) trivial (by rw [hpc]; rfl)⟩
  | flushTest | flushPoll =>
      simp only [hpc, Option.some.injEq] at hst
      subst hst
      refine ⟨xs, ?_⟩
      split
      · exact h.goto (by rw [hpc]; rfl) trivial (by rw [hpc]; rfl)
      · exact h.goto (by rw [hpc]; rfl) trivial (by rw [hpc]; rfl)

end Transmitter

theorem transmitStep_ok {s t : Transmitter} {e : TransmitEvent} (h : ∃ xs, s.Ok xs)
    (hst : transmitStep s e = some t) : ∃ xs, t.Ok xs := by
  obtain ⟨xs, hs⟩ := h
  cases e with
  | write c =>
      simp only [transmitStep] at hst
      split at hst
      · rename_i hidle
        obtain rfl := Option.some.inj hst
        refine ⟨xs, ?_, hs.ring, trivial, fun _ => hs.enabled (by rw [hidle]; exact id)⟩
        show s.written ++ [c] = s.sent ++ xs ++ [c]
        rw [hs.written, hidle]
        simp [Writer.byte?]
      · exact absurd hst (by simp)
  | flush =>
      simp only [transmitStep] at hst
      split at hst
      · rename_i hidle
        obtain rfl := Option.some.inj hst
        exact ⟨xs, hs.goto (by rw [hidle]; rfl) trivial (by rw [hidle]; rfl)⟩
      · exact absurd hst (by simp)
  | advance => exact hs.advance hst
  | udreVect =>
      simp only [transmitStep] at hst
      split at hst
      · rename_i hset
        obtain rfl := Option.some.inj hst
        exact hs.udreVect hset
      · exact absurd hst (by simp)
  -- what the hardware does with a byte it has been given
  | load =>
      simp only [transmitStep] at hst
      split at hst
      · obtain rfl := Option.some.inj hst
        exact ⟨xs, hs.hardware rfl rfl rfl rfl rfl⟩
      · exact absurd hst (by simp)
  | shiftedOut =>
      simp only [transmitStep, Transmitter.shiftedOut] at hst
      split at hst
      · obtain rfl := Option.some.inj hst
        refine ⟨xs, ?_⟩
        split
        · exact hs.hardware rfl rfl rfl rfl rfl
        · exact hs.hardware rfl rfl rfl rfl rfl
      · exact absurd hst (by simp)

theorem Transmitter.reachable_ok {s : Transmitter} (h : Reachable Transmitter.Initial transmitStep s) :
    ∃ xs, s.Ok xs :=
  h.invariant (fun _ h₀ => ⟨[], h₀.ok⟩) fun _ _ _ => transmitStep_ok

/-! ## The transmit ring is a queue

What the unit has been handed is a prefix of what has been written, and the rest is in the ring. -/

/-- The number of bytes in the ring. -/
def SRingBuffer.count (b : SRingBuffer) : Nat := (64 + b.head.toNat - b.tail.toNat) % 64

/-- A store to the ring goes to the cell at `head`. -/
theorem Transmitter.Ok.store_at_head {s t : Transmitter} {xs : List Byte} {e : TransmitEvent}
    (h : s.Ok xs) (hst : transmitStep s e = some t) {j : Nat} (hj : j ≠ s.tx.head.toNat) :
    t.tx.buffer j = s.tx.buffer j := by
  cases e with
  | write c | flush | load =>
      simp only [transmitStep] at hst
      split at hst
      · obtain rfl := Option.some.inj hst
        rfl
      · exact absurd hst (by simp)
  | udreVect =>
      simp only [transmitStep, Transmitter.udreVect] at hst
      split at hst
      · obtain rfl := Option.some.inj hst
        split <;> rfl
      · exact absurd hst (by simp)
  | shiftedOut =>
      simp only [transmitStep, Transmitter.shiftedOut] at hst
      split at hst
      · obtain rfl := Option.some.inj hst
        split <;> rfl
      · exact absurd hst (by simp)
  | advance =>
      have hwriter := h.writer
      rw [WriterOk] at hwriter
      simp only [transmitStep, Transmitter.advance] at hst
      cases hpc : s.writer with
      | idle => simp [hpc] at hst
      | wait c i =>
          simp only [hpc] at hst
          split at hst
          · obtain rfl := Option.some.inj hst
            rfl
          · obtain rfl := Option.some.inj hst
            rfl
      -- the only store to the buffer
      | put c i head =>
          simp only [hpc, Option.some.injEq] at hst hwriter
          subst hst
          obtain ⟨-, -, rfl⟩ := hwriter
          exact Function.update_of_ne hj c s.tx.buffer
      | _ =>
          simp only [hpc, Option.some.injEq] at hst
          subst hst
          rfl

/-- **The transmit ring is a lossless queue that never stalls.** Wherever the handler runs between the
loads and stores of `Write`: the bytes stored to `UDR0` are the first of those written; no step changes
a cell of the ring whose byte is still to be sent; when no `Write` is in progress the bytes sent and
those in the ring are all that were written, and if there are any in the ring the handler is enabled;
and it is enabled while `Write` waits for room. -/
theorem transmit_fifo {s : Transmitter} (h : Reachable Transmitter.Initial transmitStep s) :
    s.sent <+: s.written ∧
      (∀ e t, transmitStep s e = some t → ∀ k < s.tx.count,
        t.tx.buffer ((s.tx.tail.toNat + k) % 64) = s.tx.buffer ((s.tx.tail.toNat + k) % 64)) ∧
      (¬ s.writer.InWrite → (∃ xs, s.tx.Holds xs ∧ s.written = s.sent ++ xs) ∧
        (s.tx.head ≠ s.tx.tail → isSet s.ucsrb udrie0 = true)) ∧
      ∀ c, s.writer = .wait c s.tx.tail → isSet s.ucsrb udrie0 = true := by
  obtain ⟨xs, hs⟩ := Transmitter.reachable_ok h
  have hcount : s.tx.count = xs.length := RingHolds.distance hs.ring
  refine ⟨⟨xs ++ s.writer.byte?.toList, ?_⟩, fun e t hst k hk => ?_, fun hout => ⟨?_, fun hne => ?_⟩,
    fun c hwait => ?_⟩
  · rw [hs.written, List.append_assoc]
  · rw [hcount] at hk
    exact hs.store_at_head hst (RingHolds.ne_head hs.ring hk)
  · refine ⟨xs, hs.ring, ?_⟩
    rw [hs.written, Writer.byte?_of_not_inWrite hout, Option.toList_none, List.append_nil]
  · exact hs.enabled (Writer.not_enabling_of_not_inWrite hout) (mt hs.ring.empty_iff.mpr hne)
  · have hwriter := hs.writer
    rw [WriterOk, hwait] at hwriter
    have hfull := hs.ring.full_iff.mp hwriter.symm
    apply hs.enabled (by rw [hwait]; exact id)
    rintro rfl
    exact absurd hfull (by simp)

/-- The handler finds the ring empty between the load and the store of `UCSR0B`, and disables itself;
`Write` enables it again. -/
theorem transmit_fifo_interleaved :
    ∃ s, run transmitStep ⟨⟨fun _ => 0, 0, 0⟩, 0, 0x98, false, false, false, .idle, [], []⟩
        [.write 0x54, .advance, .advance, .advance, .advance, .advance, .advance, .advance,
          .udreVect, .load, .advance, .advance, .advance, .write 0x4D, .advance, .advance, .advance,
          .advance, .advance, .advance, .udreVect, .udreVect, .advance, .advance, .advance,
          .advance] = some s ∧ s.sent = [0x54, 0x4D] ∧ s.sent <+: s.written := by
  have hrun : (run transmitStep ⟨⟨fun _ => 0, 0, 0⟩, 0, 0x98, false, false, false, .idle, [], []⟩
      [.write 0x54, .advance, .advance, .advance, .advance, .advance, .advance, .advance,
        .udreVect, .load, .advance, .advance, .advance, .write 0x4D, .advance, .advance, .advance,
        .advance, .advance, .advance, .udreVect, .udreVect, .advance, .advance, .advance,
        .advance]).map Transmitter.sent = some [0x54, 0x4D] := by decide
  obtain ⟨s, hs, hsent⟩ := Option.map_eq_some_iff.mp hrun
  exact ⟨s, hs, hsent, (transmit_fifo ⟨_, _, ⟨rfl, rfl, rfl, rfl, rfl, rfl, rfl, rfl⟩, hs⟩).1⟩

end SmartblocksOs.Uart
