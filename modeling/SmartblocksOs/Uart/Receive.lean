/-
# SmartblocksOs.Uart.Receive -- the receive ring, between `USART_RX_vect` and its reader

`ISR(USART_RX_vect)` runs between any two loads and stores of `Available`, `Peek` and `Read`. It stores
a byte before it steps `head`, and `Read` takes a byte before it steps `tail`, so neither sees a byte
that is not there or misses one that is (`receive_fifo`). To say the latter, what a call returns is
recorded together with the bytes that were in the buffer when it was called: while it runs bytes come in
at the other end only, so these stay the oldest ones.

`head` and `tail` are two bytes each, and an access to one of them two accesses to memory. As both stay
below 64 the upper byte is always zero, and the value read is the one before or the one after.
-/
import SmartblocksOs.Foundation.Runs
import SmartblocksOs.Uart.RingBuffer

namespace SmartblocksOs.Uart

open SmartblocksOs.Foundation SmartblocksOs.System

/-! ## The reader and the handler

The reader is a state machine with one state for each load or store of `Available`, `Peek` and `Read`; the
handler runs as a whole, with interrupts disabled. -/

/-- Where the reader stands: before a load or store of the call it is in. -/
inductive Reader where
  | idle
  -- `SERIAL_BUFFER_SIZE + head - tail`, in `Available`
  | availableHead
  | availableTail (head : Word)
  -- `if (head == tail)` and `return buffer[tail]`, in `Peek`
  | peekHead
  | peekTail (head : Word)
  | peekIndex
  | peekByte (tail : Word)
  -- `if (head == tail)`, `c = buffer[tail]` and `tail = (tail + 1) % SERIAL_BUFFER_SIZE`, in `Read`
  | readHead
  | readTail (head : Word)
  | readIndex
  | readByte (tail : Word)
  | readAdvance (c : Byte)
  | readStore (c : Byte) (tail : Word)
  deriving DecidableEq

/-- What a call has returned. Of a `Read` also whether it found the buffer not empty, and of both `Peek`
and `Read` the bytes that were `pending` when the call began. -/
inductive Returned where
  | available (n : Int)
  | peek (pending : List Byte) (r : Int)
  | read (pending : List Byte) (found : Bool) (c : Byte)
  deriving DecidableEq

namespace Returned

/-- The byte of a `Read` that found the buffer not empty. -/
def byte? : Returned → Option Byte
  | read _ true c => some c
  | _ => none

/-- It was a call of `Read`. -/
def IsRead : Returned → Prop
  | read _ _ _ => True
  | _ => False

end Returned

/-- The bytes that calls of `Read` have taken out of the buffer. -/
def taken (returned : List Returned) : List Byte := returned.filterMap Returned.byte?

/-- The receive buffer, the one task that reads it, and what has gone in and come out. -/
structure Receiver where
  rx : SRingBuffer
  reader : Reader
  /-- The bytes that were in the buffer when the call began that the reader is in. -/
  pending : List Byte
  /-- The bytes the handler has stored. -/
  stored : List Byte
  /-- What the calls have returned. -/
  returned : List Returned

/-- What can happen: the handler runs, or the reader calls, or takes a step. -/
inductive ReceiveEvent where
  /-- `USART_RX_vect` runs, with the byte in `UDR0` and the bit `UPE0`. -/
  | rxVect (udr : Byte) (upe : Bool)
  | available
  | peek
  | read
  /-- The next load or store of the reader. -/
  | advance
  deriving DecidableEq

/-- `(int)(SERIAL_BUFFER_SIZE + head - tail) % SERIAL_BUFFER_SIZE`. -/
def availableCount (head tail : Word) : Int :=
  (serialBufferSize + head - tail).toInt.tmod serialBufferSize.toInt

namespace Receiver

/-- `ISR(USART_RX_vect)`. -/
def rxVect (s : Receiver) (udr : Byte) (upe : Bool) : Receiver :=
  if !upe then
    let i := nextIndex s.rx.head
    if i ≠ s.rx.tail then
      { s with
        rx := { s.rx.put s.rx.head udr with head := i }
        stored := s.stored ++ [udr] }
    else s
  else s

/-- The bytes in the buffer: those the handler has stored and no `Read` has taken out. -/
def left (s : Receiver) : List Byte := s.stored.drop (taken s.returned).length

/-- The call returns `r`. -/
def give (s : Receiver) (r : Returned) : Receiver :=
  { s with reader := .idle, returned := s.returned ++ [r] }

/-- The reader goes on with `reader`. -/
def goto (s : Receiver) (reader : Reader) : Receiver := { s with reader := reader }

/-- The next load or store of the reader. -/
def advance (s : Receiver) : Option Receiver :=
  match s.reader with
  | .idle => none
  | .availableHead => some (s.goto (.availableTail s.rx.head))
  | .availableTail head => some (s.give (.available (availableCount head s.rx.tail)))
  | .peekHead => some (s.goto (.peekTail s.rx.head))
  | .peekTail head =>
      if head = s.rx.tail then some (s.give (.peek s.pending (-1))) else some (s.goto .peekIndex)
  | .peekIndex => some (s.goto (.peekByte s.rx.tail))
  | .peekByte tail => some (s.give (.peek s.pending (s.rx.buffer tail.toNat).toNat))
  | .readHead => some (s.goto (.readTail s.rx.head))
  | .readTail head =>
      if head = s.rx.tail then some (s.give (.read s.pending false (-1))) else some (s.goto .readIndex)
  | .readIndex => some (s.goto (.readByte s.rx.tail))
  | .readByte tail => some (s.goto (.readAdvance (s.rx.buffer tail.toNat)))
  | .readAdvance c => some (s.goto (.readStore c s.rx.tail))
  | .readStore c tail =>
      some { s.give (.read s.pending true c) with rx := { s.rx with tail := nextIndex tail } }

/-- The first step of a call is at `reader`. -/
def enter (s : Receiver) (reader : Reader) : Receiver :=
  { s with reader := reader, pending := s.left }

/-- A call begins. -/
def call (s : Receiver) (reader : Reader) : Option Receiver :=
  if s.reader = .idle then some (s.enter reader) else none

end Receiver

/-- The handler may run between any two accesses of the reader. -/
def receiveStep (s : Receiver) : ReceiveEvent → Option Receiver
  | .rxVect udr upe => some (s.rxVect udr upe)
  | .available => s.call .availableHead
  | .peek => s.call .peekHead
  | .read => s.call .readHead
  | .advance => s.advance

/-- Nothing received and nothing called yet. -/
def Receiver.Initial (s : Receiver) : Prop :=
  s.rx.head = 0 ∧ s.rx.tail = 0 ∧ s.reader = .idle ∧ s.stored = [] ∧ s.returned = []

/-! ## What is asked of the calls

The history of the calls, and the properties of it that make the ring a queue. -/

/-- A `Peek` or `Read` that is called when bytes are in the buffer returns the oldest of them. -/
def Returned.FindsOldest : Returned → Prop
  | available _ => True
  | peek pending r => ∀ b ∈ pending.head?, r = b.toNat
  | read pending found c => ∀ b ∈ pending.head?, found = true ∧ c = b

/-- A `Peek` that is called when the buffer is not empty, or that finds a byte which has come in since,
returns the byte that the next `Read` returns. -/
def PeeksAhead (returned : List Returned) : Prop :=
  ∀ before pending (r : Int) between pending' found c after,
    returned = before ++ .peek pending r :: (between ++ .read pending' found c :: after) →
      pending ≠ [] ∨ r ≠ -1 → (∀ x ∈ between, ¬ x.IsRead) → found = true ∧ r = c.toNat

/-! ## The invariant

The cells from `tail` up to `head` hold the bytes stored and not taken, in their order. For each place of
the reader there is a clause for the local values that it has loaded, which are still those of the ring
since nobody else moves `tail`. -/

/-- What a `Peek` found, if no `Read` has followed it, is the oldest byte in the buffer. -/
def PeekedOldest (returned : List Returned) (xs : List Byte) : Prop :=
  ∀ before pending (r : Int) after, returned = before ++ .peek pending r :: after →
    pending ≠ [] ∨ r ≠ -1 → (∀ x ∈ after, ¬ x.IsRead) → ∃ c, xs.head? = some c ∧ r = c.toNat

/-- What the reader has loaded still is what it says. The buffer may hold more bytes than `head` said when
it was loaded. -/
def ReaderOk (s : Receiver) (xs : List Byte) : Prop :=
  match s.reader with
  | .idle | .availableHead | .availableTail _ | .peekHead | .readHead => True
  | .peekTail head | .readTail head =>
      ∃ m ≤ xs.length, head.toNat = (s.rx.tail.toNat + m) % 64 ∧
        (m = 0 → PeekedOldest s.returned []) ∧ s.pending.length ≤ m
  | .peekIndex | .readIndex => xs ≠ []
  | .peekByte tail | .readByte tail => tail = s.rx.tail ∧ xs ≠ []
  | .readAdvance c => xs.head? = some c
  | .readStore c tail => tail = s.rx.tail ∧ xs.head? = some c

/-- The buffer holds the bytes `xs`: those stored and not yet taken. -/
structure Receiver.Ok (s : Receiver) (xs : List Byte) : Prop where
  stored : s.stored = taken s.returned ++ xs
  ring : s.rx.Holds xs
  reader : ReaderOk s xs
  /-- What was in the buffer when the call began is in it still. -/
  begun : s.reader ≠ .idle → s.pending <+: xs
  peeked : PeekedOldest s.returned xs
  peeks : PeeksAhead s.returned
  finds : ∀ x ∈ s.returned, x.FindsOldest

theorem PeekedOldest.nil (xs : List Byte) : PeekedOldest [] xs := by
  intro before pending r after h
  exact absurd h (by simp)

/-- An empty ring, and a reader that is idle. -/
theorem Receiver.Initial.ok {s : Receiver} (h : s.Initial) : s.Ok [] := by
  obtain ⟨hhead, htail, hreader, hstored, hreturned⟩ := h
  refine ⟨?_, ?_, ?_, fun hne => absurd hreader hne, ?_, ?_, ?_⟩
  · rw [hstored, hreturned]
    rfl
  · rw [SRingBuffer.Holds, hhead, htail]
    exact RingHolds.nil (by omega) _
  · rw [ReaderOk, hreader]
    trivial
  · rw [hreturned]
    exact PeekedOldest.nil []
  · intro before pending r between pending' found c after h
    rw [hreturned] at h
    exact absurd h (by simp)
  · rw [hreturned]
    simp

/-! ### The history of the calls

How each of the properties is kept when one more call returns. -/

theorem PeekedOldest.append {rs : List Returned} {xs : List Byte} (h : PeekedOldest rs xs)
    (ys : List Byte) : PeekedOldest rs (xs ++ ys) := by
  intro before pending r after heq hr hafter
  obtain ⟨c, hc, hrc⟩ := h before pending r after heq hr hafter
  refine ⟨c, ?_, hrc⟩
  rw [List.head?_append, hc, Option.some_or]

theorem PeekedOldest.concat {rs : List Returned} {xs : List Byte} (h : PeekedOldest rs xs)
    {x : Returned} (hx : ∀ pending r, x = .peek pending r → pending ≠ [] ∨ r ≠ -1 →
      ∃ c, xs.head? = some c ∧ r = (c.toNat : Int)) :
    PeekedOldest (rs ++ [x]) xs := by
  intro before pending r after heq hr hafter
  rcases concat_eq_append_cons.mp heq with ⟨-, -, hxr⟩ | ⟨after', rfl, hrs⟩
  · exact hx pending r hxr hr
  · exact h before pending r after' hrs hr fun y hy => hafter y (List.mem_append_left _ hy)

/-- A `Read` puts an end to what was peeked at. -/
theorem PeekedOldest.read (rs : List Returned) (pending : List Byte) (found : Bool) (c : Byte)
    (xs : List Byte) : PeekedOldest (rs ++ [.read pending found c]) xs := by
  intro before pending' r after heq hr hafter
  rcases concat_eq_append_cons.mp heq with ⟨-, -, hxr⟩ | ⟨after', rfl, -⟩
  · exact absurd hxr (by simp)
  · exact absurd trivial (hafter (.read pending found c) (by simp))

/-- A call that is not a `Read` does not change what the next `Read` has to return. -/
theorem PeeksAhead.concat {rs : List Returned} (h : PeeksAhead rs) {x : Returned}
    (hx : ¬ x.IsRead) : PeeksAhead (rs ++ [x]) := by
  intro before pending r between pending' found c after heq hr hbetween
  rw [← List.cons_append, ← List.append_assoc] at heq
  rcases concat_eq_append_cons.mp heq with ⟨-, -, rfl⟩ | ⟨after', -, hrs⟩
  · exact absurd trivial hx
  · refine h before pending r between pending' found c after' ?_ hr hbetween
    rw [hrs, List.append_assoc, List.cons_append]

/-- A `Read` returns what was peeked at. -/
theorem PeeksAhead.read {rs : List Returned} (h : PeeksAhead rs) {xs : List Byte}
    (hpeeked : PeekedOldest rs xs) {pending : List Byte} {found : Bool} {c : Byte}
    (hc : ∀ b, xs.head? = some b → found = true ∧ b = c) :
    PeeksAhead (rs ++ [.read pending found c]) := by
  intro before pending' r between pending'' found' c' after heq hr hbetween
  rw [← List.cons_append, ← List.append_assoc] at heq
  rcases concat_eq_append_cons.mp heq with ⟨-, hrs, hx⟩ | ⟨after', -, hrs⟩
  · obtain ⟨rfl, rfl, rfl⟩ := Returned.read.inj hx
    obtain ⟨b, hb, hrb⟩ := hpeeked before pending' r between hrs hr hbetween
    obtain ⟨hfound, rfl⟩ := hc b hb
    exact ⟨hfound, hrb⟩
  · refine h before pending' r between pending'' found' c' after' ?_ hr hbetween
    rw [hrs, List.append_assoc, List.cons_append]

theorem taken_concat (rs : List Returned) (x : Returned) :
    taken (rs ++ [x]) = taken rs ++ (x.byte?).toList := by
  unfold taken
  rw [List.filterMap_append]
  cases h : x.byte? with
  | none => simp [h]
  | some c => simp [h]

/-! ### The steps

The handler adds a byte at the head or declines to; a step of the reader loads, stores or returns. -/

namespace Receiver

variable {s t : Receiver} {xs : List Byte}

theorem Ok.goto (h : s.Ok xs) {reader : Reader} (hbusy : s.reader ≠ .idle)
    (hreader : ReaderOk (s.goto reader) xs) : (s.goto reader).Ok xs :=
  ⟨h.stored, h.ring, hreader, fun _ => h.begun hbusy, h.peeked, h.peeks, h.finds⟩

/-- What is left is what the invariant says. -/
theorem Ok.left_eq (h : s.Ok xs) : s.left = xs := by
  rw [Receiver.left, h.stored, List.drop_left]

theorem Ok.enter (h : s.Ok xs) {reader : Reader} (hreader : ReaderOk (s.enter reader) xs) :
    (s.enter reader).Ok xs :=
  ⟨h.stored, h.ring, hreader, fun _ => h.left_eq.symm ▸ List.prefix_rfl, h.peeked, h.peeks, h.finds⟩

/-- The oldest byte when the call began is the oldest one now. -/
theorem Ok.oldest (h : s.Ok xs) (hbusy : s.reader ≠ .idle) {b : Byte} (hb : s.pending.head? = some b) :
    xs.head? = some b := by
  obtain ⟨ys, hys⟩ := h.begun hbusy
  rw [← hys, List.head?_append, hb, Option.some_or]

theorem finds_concat {rs : List Returned} (h : ∀ x ∈ rs, x.FindsOldest) {r : Returned}
    (hr : r.FindsOldest) : ∀ x ∈ rs ++ [r], x.FindsOldest := by
  intro x hx
  rcases List.mem_append.mp hx with hx | hx
  · exact h x hx
  · exact List.mem_singleton.mp hx ▸ hr

/-- A call other than `Read` returns. -/
theorem Ok.give (h : s.Ok xs) {r : Returned} (hr : ¬ r.IsRead) (hbyte : r.byte? = none)
    (hpeek : ∀ pending n, r = .peek pending n → pending ≠ [] ∨ n ≠ -1 →
      ∃ c, xs.head? = some c ∧ n = (c.toNat : Int)) (hfinds : r.FindsOldest) :
    (s.give r).Ok xs := by
  refine ⟨?_, h.ring, trivial, fun hne => absurd rfl hne, h.peeked.concat hpeek, h.peeks.concat hr,
    finds_concat h.finds hfinds⟩
  show s.stored = taken (s.returned ++ [r]) ++ xs
  rw [taken_concat, hbyte, Option.toList_none, List.append_nil]
  exact h.stored

/-- A `head` loaded earlier still tells whether the buffer was empty then, and if it was not, it is not
empty now. -/
theorem Ok.loaded (h : s.Ok xs) {head : Word}
    (hhead : ∃ m ≤ xs.length, head.toNat = (s.rx.tail.toNat + m) % 64 ∧
      (m = 0 → PeekedOldest s.returned []) ∧ s.pending.length ≤ m) :
    (head = s.rx.tail → PeekedOldest s.returned [] ∧ s.pending = []) ∧
      (head ≠ s.rx.tail → xs ≠ []) := by
  obtain ⟨m, hm, heq, hzero, hpending⟩ := hhead
  have hlt := h.ring.tail_lt
  have hlen := h.ring.length_lt
  constructor
  · rintro rfl
    obtain rfl : m = 0 := by
      apply cyclic_inj (t := s.rx.tail.toNat) (by omega) (by omega) (n := 64)
      rw [← heq, Nat.add_zero, Nat.mod_eq_of_lt hlt]
    exact ⟨hzero rfl, List.eq_nil_of_length_eq_zero (by omega)⟩
  · rintro hne rfl
    obtain rfl : m = 0 := by simpa using hm
    refine hne (BitVec.eq_of_toNat_eq ?_)
    rw [heq, Nat.add_zero, Nat.mod_eq_of_lt hlt]

theorem Ok.load (h : s.Ok xs) (hbusy : s.reader ≠ .idle) :
    ∃ m ≤ xs.length, s.rx.head.toNat = (s.rx.tail.toNat + m) % 64 ∧
      (m = 0 → PeekedOldest s.returned []) ∧ s.pending.length ≤ m := by
  refine ⟨xs.length, Nat.le_refl _, h.ring.head_eq, fun hzero => ?_, (h.begun hbusy).length_le⟩
  obtain rfl := List.eq_nil_of_length_eq_zero hzero
  exact h.peeked

/-- A byte that is added at the other end does not disturb the reader. -/
theorem Ok.reader_append (h : s.Ok xs) (c : Byte) (hreader : t.reader = s.reader)
    (htail : t.rx.tail = s.rx.tail) (hreturned : t.returned = s.returned)
    (hpending : t.pending = s.pending) : ReaderOk t (xs ++ [c]) := by
  have hs := h.reader
  rw [ReaderOk] at hs ⊢
  rw [hreader, htail, hreturned, hpending]
  cases hpc : s.reader with
  | idle | availableHead | availableTail head | peekHead | readHead => trivial
  | peekTail head | readTail head =>
      rw [hpc] at hs
      obtain ⟨m, hm, hhead, hzero⟩ := hs
      exact ⟨m, by rw [List.length_append]; omega, hhead, hzero⟩
  | peekIndex | readIndex => simp
  | peekByte tail | readByte tail =>
      rw [hpc] at hs
      exact ⟨hs.1, by simp⟩
  | readAdvance c' =>
      rw [hpc] at hs
      show (xs ++ [c]).head? = some c'
      rw [List.head?_append, show xs.head? = some c' from hs, Option.some_or]
  | readStore c' tail =>
      rw [hpc] at hs
      refine ⟨hs.1, ?_⟩
      rw [List.head?_append, hs.2, Option.some_or]

/-- The handler stores the byte when it has come without a parity error and there is room. -/
theorem rxVect_eq (s : Receiver) (udr : Byte) (upe : Bool) :
    s.rxVect udr upe =
      if upe = false ∧ nextIndex s.rx.head ≠ s.rx.tail then
        { s with
          rx := { s.rx.put s.rx.head udr with head := nextIndex s.rx.head }
          stored := s.stored ++ [udr] }
      else s := by
  unfold Receiver.rxVect
  cases upe with
  | false => simp
  | true => simp

/-- The handler stores a byte, or declines to. -/
theorem Ok.rxVect (h : s.Ok xs) (udr : Byte) (upe : Bool) : ∃ ys, (s.rxVect udr upe).Ok ys := by
  rw [rxVect_eq]
  split
  · rename_i hstore
    have hlen : xs.length < 63 := by
      have := h.ring.length_lt
      have := mt h.ring.full_iff.mpr hstore.2
      omega
    have hring := (h.ring.put udr).publish hlen
    have hcell : (s.rx.put s.rx.head udr).buffer (s.rx.put s.rx.head udr).head.toNat = udr :=
      Function.update_self ..
    rw [hcell] at hring
    refine ⟨xs ++ [udr], ?_, hring, h.reader_append udr rfl rfl rfl rfl,
      fun hbusy => (h.begun hbusy).trans (List.prefix_append _ _), h.peeked.append [udr], h.peeks, h.finds⟩
    show s.stored ++ [udr] = taken s.returned ++ (xs ++ [udr])
    rw [h.stored, List.append_assoc]
  · exact ⟨xs, h⟩

/-- The last step of a `Read` that found a byte. -/
theorem Ok.take {c : Byte} {ys : List Byte} (h : s.Ok (c :: ys)) (hbusy : s.reader ≠ .idle) :
    { s.give (.read s.pending true c) with rx := { s.rx with tail := nextIndex s.rx.tail } }.Ok ys := by
  have hfinds : Returned.FindsOldest (.read s.pending true c) :=
    fun b hb => ⟨rfl, Option.some.inj (h.oldest hbusy hb)⟩
  refine ⟨?_, h.ring.drop, trivial, fun hne => absurd rfl hne, PeekedOldest.read _ _ _ _ _, ?_,
    finds_concat h.finds hfinds⟩
  · show s.stored = taken (s.returned ++ [.read s.pending true c]) ++ ys
    rw [taken_concat, h.stored, List.append_assoc]
    rfl
  · refine h.peeks.read h.peeked fun b hb => ⟨rfl, ?_⟩
    exact (Option.some.inj hb).symm

/-- A `Read` that found the buffer empty. -/
theorem Ok.miss (h : s.Ok xs) (hnone : PeekedOldest s.returned []) (hpending : s.pending = []) :
    (s.give (.read s.pending false (-1))).Ok xs := by
  have hfinds : Returned.FindsOldest (.read s.pending false (-1)) := by
    rw [hpending]
    exact fun b hb => absurd hb (by simp)
  refine ⟨?_, h.ring, trivial, fun hne => absurd rfl hne, PeekedOldest.read _ _ _ _ _,
    h.peeks.read hnone ?_, finds_concat h.finds hfinds⟩
  · show s.stored = taken (s.returned ++ [.read s.pending false (-1)]) ++ xs
    rw [taken_concat]
    simpa [Returned.byte?] using h.stored
  · intro b hb
    exact absurd hb (by simp)

/-- The byte at `tail`, when there is one. -/
theorem Ok.byte_at_tail (h : s.Ok xs) (hne : xs ≠ []) :
    xs.head? = some (s.rx.buffer s.rx.tail.toNat) := by
  obtain ⟨ys, hys⟩ := h.ring.exists_oldest (mt h.ring.empty_iff.mp hne)
  rw [hys]
  rfl

/-- The steps of the reader. The tail is moved on behind the load of the byte, so the handler cannot have
overwritten it. -/
theorem Ok.advance (h : s.Ok xs) (hst : s.advance = some t) : ∃ ys, t.Ok ys := by
  have hreader := h.reader
  rw [ReaderOk] at hreader
  unfold Receiver.advance at hst
  have hbusy : s.reader ≠ .idle := by
    intro hidle
    simp [hidle] at hst
  cases hpc : s.reader with
  | idle => exact absurd hpc hbusy
  | availableHead =>
      simp only [hpc, Option.some.injEq] at hst
      subst hst
      exact ⟨xs, h.goto hbusy trivial⟩
  -- asking takes nothing
  | availableTail head =>
      simp only [hpc, Option.some.injEq] at hst
      subst hst
      exact ⟨xs, h.give id rfl (by simp) trivial⟩
  | peekHead | readHead =>
      simp only [hpc, Option.some.injEq] at hst
      subst hst
      exact ⟨xs, h.goto hbusy (h.load hbusy)⟩
  -- the head was read before: if it is the tail, nothing was pending when it was
  | peekTail head =>
      simp only [hpc] at hst hreader
      split at hst
      · rename_i heq
        obtain ⟨-, hpending⟩ := (h.loaded hreader).1 heq
        obtain rfl := Option.some.inj hst
        refine ⟨xs, h.give id rfl (fun pending n hn hne => ?_) ?_⟩
        · obtain ⟨rfl, rfl⟩ := Returned.peek.inj hn
          exact absurd hne (by simp [hpending])
        · rw [hpending]
          exact fun b hb => absurd hb (by simp)
      · rename_i hne
        obtain rfl := Option.some.inj hst
        exact ⟨xs, h.goto hbusy ((h.loaded hreader).2 hne)⟩
  -- the same for `Read`
  | readTail head =>
      simp only [hpc] at hst hreader
      split at hst
      · rename_i heq
        obtain rfl := Option.some.inj hst
        obtain ⟨hnone, hpending⟩ := (h.loaded hreader).1 heq
        exact ⟨xs, h.miss hnone hpending⟩
      · rename_i hne
        obtain rfl := Option.some.inj hst
        exact ⟨xs, h.goto hbusy ((h.loaded hreader).2 hne)⟩
  | peekIndex | readIndex =>
      simp only [hpc, Option.some.injEq] at hst hreader
      subst hst
      exact ⟨xs, h.goto hbusy ⟨rfl, hreader⟩⟩
  | peekByte tail =>
      simp only [hpc, Option.some.injEq] at hst hreader
      subst hst
      obtain ⟨rfl, hne⟩ := hreader
      have holdest := h.byte_at_tail hne
      refine ⟨xs, h.give id rfl (fun pending n hn _ => ⟨_, holdest, ?_⟩) fun b hb => ?_⟩
      · exact (Returned.peek.inj hn).2.symm
      · rw [Option.some.inj (holdest.symm.trans (h.oldest hbusy hb))]
  -- the slot at the tail is not overwritten, whatever arrives meanwhile
  | readByte tail =>
      simp only [hpc, Option.some.injEq] at hst hreader
      subst hst
      obtain ⟨rfl, hne⟩ := hreader
      exact ⟨xs, h.goto hbusy (h.byte_at_tail hne)⟩
  | readAdvance c =>
      simp only [hpc, Option.some.injEq] at hst hreader
      subst hst
      exact ⟨xs, h.goto hbusy ⟨rfl, hreader⟩⟩
  -- the byte is taken
  | readStore c tail =>
      simp only [hpc, Option.some.injEq] at hst hreader
      subst hst
      obtain ⟨rfl, hhead⟩ := hreader
      obtain ⟨ys, rfl⟩ := List.head?_eq_some_iff.mp hhead
      exact ⟨ys, h.take hbusy⟩

theorem Ok.call (h : s.Ok xs) (reader : Reader) (hreader : ReaderOk (s.enter reader) xs)
    (hst : s.call reader = some t) : t.Ok xs := by
  unfold Receiver.call at hst
  split at hst
  · obtain rfl := Option.some.inj hst
    exact h.enter hreader
  · exact absurd hst (by simp)

end Receiver

theorem receiveStep_ok {s t : Receiver} {e : ReceiveEvent} (h : ∃ xs, s.Ok xs)
    (hst : receiveStep s e = some t) : ∃ xs, t.Ok xs := by
  obtain ⟨xs, hs⟩ := h
  cases e with
  | rxVect udr upe =>
      obtain rfl := Option.some.inj hst
      exact hs.rxVect udr upe
  | available => exact ⟨xs, hs.call .availableHead trivial hst⟩
  | peek => exact ⟨xs, hs.call .peekHead trivial hst⟩
  | read => exact ⟨xs, hs.call .readHead trivial hst⟩
  | advance => exact hs.advance hst

theorem Receiver.reachable_ok {s : Receiver} (h : Reachable Receiver.Initial receiveStep s) :
    ∃ xs, s.Ok xs :=
  h.invariant (fun _ h₀ => ⟨[], h₀.ok⟩) fun _ _ _ => receiveStep_ok

/-! ## The receive ring is a queue

The bytes returned by `Read` are a prefix of the bytes stored, no byte is made up, and a byte that is
there when a call begins is found by it. -/

/-- The unsigned subtraction of `Available`, on indices in range. -/
theorem availableCount_eq {b : SRingBuffer} {xs : List Byte} (h : b.Holds xs) :
    availableCount b.head b.tail = xs.length := by
  have hhead := h.head_lt
  have htail := h.tail_lt
  have hdist := RingHolds.distance h
  have hnat : (serialBufferSize + b.head - b.tail).toNat = 64 + b.head.toNat - b.tail.toNat := by
    rw [BitVec.toNat_sub, BitVec.toNat_add]
    show (2 ^ 16 - b.tail.toNat + (64 + b.head.toNat) % 2 ^ 16) % 2 ^ 16 = _
    omega
  have hint : (serialBufferSize + b.head - b.tail).toInt =
      ((64 + b.head.toNat - b.tail.toNat : Nat) : Int) := by
    rw [BitVec.toInt_eq_toNat_of_lt (by omega), hnat]
  unfold availableCount
  rw [hint, show serialBufferSize.toInt = ((64 : Nat) : Int) from rfl, ← Int.ofNat_tmod, hdist]

/-- **The receive ring is a lossless queue.** Whatever bytes come in between the loads and stores of the
reader: the indices stay in range; the bytes that calls of `Read` have returned are the first of those
the handler has stored; `Available`, called now and not interrupted, returns how many are left; a `Peek`
or `Read` that is called when bytes are left returns the oldest of them, and what `Peek` finds is what
the next `Read` returns; and the handler declines to store a byte without parity error only when 63
bytes are left. -/
theorem receive_fifo {s : Receiver} (h : Reachable Receiver.Initial receiveStep s) :
    (s.rx.head.toNat < 64 ∧ s.rx.tail.toNat < 64) ∧ taken s.returned <+: s.stored ∧
      (s.reader = .idle → ∃ t, run receiveStep s [.available, .advance, .advance] = some t ∧
        t.returned =
          s.returned ++ [.available (s.stored.length - (taken s.returned).length : Nat)]) ∧
      ((∀ x ∈ s.returned, x.FindsOldest) ∧ PeeksAhead s.returned) ∧
      ∀ udr, (s.rxVect udr false).stored = s.stored ++ [udr] ∨
        (s.rxVect udr false = s ∧ s.stored.length - (taken s.returned).length = 64 - 1) := by
  obtain ⟨xs, hs⟩ := Receiver.reachable_ok h
  have hleft : s.stored.length - (taken s.returned).length = xs.length := by
    rw [hs.stored, List.length_append]
    omega
  refine ⟨⟨hs.ring.head_lt, hs.ring.tail_lt⟩, ⟨xs, hs.stored.symm⟩, fun hidle => ?_,
    ⟨hs.finds, hs.peeks⟩, fun udr => ?_⟩
  · refine ⟨((s.enter .availableHead).goto (.availableTail s.rx.head)).give
      (.available (availableCount s.rx.head s.rx.tail)), ?_, ?_⟩
    · simp only [run_cons, receiveStep, Receiver.call, if_pos hidle]
      rfl
    · rw [hleft, ← availableCount_eq hs.ring]
      rfl
  · rw [Receiver.rxVect_eq, hleft]
    by_cases hfull : nextIndex s.rx.head = s.rx.tail
    · exact Or.inr ⟨if_neg fun hstore => hstore.2 hfull, hs.ring.full_iff.mp hfull⟩
    · rw [if_pos ⟨rfl, hfull⟩]
      exact Or.inl rfl

/-- A `Peek`, a byte that comes in the middle of the `Read` after it, and a `Read` of that one. -/
theorem receive_fifo_interleaved :
    ∃ s, run receiveStep ⟨⟨fun _ => 0, 0, 0⟩, .idle, [], [], []⟩
        [.rxVect 0x74 false, .peek, .advance, .advance, .advance, .advance, .read, .advance,
          .rxVect 0x75 false, .advance, .advance, .advance, .advance, .advance, .rxVect 0x76 true,
          .read, .advance, .advance, .advance, .advance, .advance, .advance] = some s ∧
      s.returned = [.peek [0x74] 0x74, .read [0x74] true 0x74, .read [0x75] true 0x75] ∧
      taken s.returned <+: s.stored ∧ ∀ x ∈ s.returned, x.FindsOldest := by
  have hrun : (run receiveStep ⟨⟨fun _ => 0, 0, 0⟩, .idle, [], [], []⟩
      [.rxVect 0x74 false, .peek, .advance, .advance, .advance, .advance, .read, .advance,
        .rxVect 0x75 false, .advance, .advance, .advance, .advance, .advance, .rxVect 0x76 true,
        .read, .advance, .advance, .advance, .advance, .advance, .advance]).map
      Receiver.returned = some [.peek [0x74] 0x74, .read [0x74] true 0x74, .read [0x75] true 0x75] := by
    decide
  obtain ⟨s, hs, hreturned⟩ := Option.map_eq_some_iff.mp hrun
  obtain ⟨-, hprefix, -, ⟨hfinds, -⟩, -⟩ := receive_fifo ⟨_, _, ⟨rfl, rfl, rfl, rfl, rfl⟩, hs⟩
  exact ⟨s, hs, hreturned, hprefix, hfinds⟩

end SmartblocksOs.Uart
