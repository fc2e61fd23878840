/-
# SmartblocksOs.Uart.RingBuffer -- `CHUARTController::SRingBuffer`

The two ring buffers between `CHUARTController` and its interrupt handlers, with the index arithmetic
of the source in sixteen bits, and what the lists of `SmartblocksOs.Foundation.Ring` say about it.
-/
import SmartblocksOs.Foundation.Ring
import SmartblocksOs.System.Globals

namespace SmartblocksOs.Uart

open SmartblocksOs.Foundation SmartblocksOs.System

/-- `unsigned int`. -/
abbrev Word := BitVec 16

/-- `SERIAL_BUFFER_SIZE`. -/
def serialBufferSize : Word := 64

/-- `SRingBuffer`. -/
structure SRingBuffer where
  buffer : Nat → Byte
  head : Word
  tail : Word

/-- `(i + 1) % SERIAL_BUFFER_SIZE`. -/
def nextIndex (i : Word) : Word := (i + 1) % serialBufferSize

/-- The index of the next cell; it comes round at the end. -/
theorem nextIndex_toNat (i : Word) : (nextIndex i).toNat = (i.toNat + 1) % 64 := by
  unfold nextIndex serialBufferSize
  rw [BitVec.toNat_umod, BitVec.toNat_add]
  show (i.toNat + 1) % 2 ^ 16 % 64 = (i.toNat + 1) % 64
  omega

namespace SRingBuffer

/-- `buffer[i] = c`. -/
def put (b : SRingBuffer) (i : Word) (c : Byte) : SRingBuffer :=
  { b with buffer := Function.update b.buffer i.toNat c }

/-- The ring holds the bytes `xs`. -/
def Holds (b : SRingBuffer) (xs : List Byte) : Prop :=
  RingHolds 64 b.buffer b.head.toNat b.tail.toNat xs

namespace Holds

variable {b : SRingBuffer} {xs : List Byte}

theorem head_lt (h : b.Holds xs) : b.head.toNat < 64 := RingHolds.head_lt h

theorem tail_lt (h : b.Holds xs) : b.tail.toNat < 64 := RingHolds.tail_lt h

theorem length_lt (h : b.Holds xs) : xs.length < 64 := RingHolds.length_lt h

/-- `m_unHead == m_unTail`. -/
theorem empty_iff (h : b.Holds xs) : b.head = b.tail ↔ xs = [] := by
  rw [← BitVec.toNat_inj]
  exact RingHolds.empty_iff h

/-- The next index of the head is the tail just when `SERIAL_BUFFER_SIZE - 1` bytes are pending. -/
theorem full_iff (h : b.Holds xs) : nextIndex b.head = b.tail ↔ xs.length = 63 := by
  rw [← BitVec.toNat_inj, nextIndex_toNat, RingHolds.full_iff h]
  omega

/-- A byte in the cell at the head is not in the buffer yet. -/
theorem put (h : b.Holds xs) (c : Byte) : (b.put b.head c).Holds xs := RingHolds.store h c

/-- It is when the head is moved on. -/
theorem publish (h : b.Holds xs) (hroom : xs.length < 63) :
    { b with head := nextIndex b.head }.Holds (xs ++ [b.buffer b.head.toNat]) := by
  have hstep := RingHolds.publish h (by omega) rfl
  rw [← nextIndex_toNat] at hstep
  exact hstep

/-- The cell at the tail has the oldest byte. -/
theorem exists_oldest (h : b.Holds xs) (hne : b.head ≠ b.tail) :
    ∃ ys, xs = b.buffer b.tail.toNat :: ys :=
  RingHolds.exists_oldest h fun heq => hne (BitVec.eq_of_toNat_eq heq)

/-- And it is out of the buffer when the tail is moved on. -/
theorem drop {c : Byte} (h : b.Holds (c :: xs)) : { b with tail := nextIndex b.tail }.Holds xs := by
  have hstep := RingHolds.drop h
  rw [← nextIndex_toNat] at hstep
  exact hstep

end Holds

end SRingBuffer

end SmartblocksOs.Uart
