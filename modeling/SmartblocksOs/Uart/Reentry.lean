/-
# SmartblocksOs.Uart.Reentry -- how often `USART_RX_vect` runs

The receive interrupt stays pending until the byte that has raised it has been read from `UDR0`. With a
parity error the handler reads it to no other end; but a byte for which the ring has no room it leaves
where it is, and so it is called again as soon as it returns (`rxVect_reenters`). As long as the ring is
read in time there is one run for each byte (`once_iff`).
-/
import SmartblocksOs.Uart.Receive

namespace SmartblocksOs.Uart

open SmartblocksOs.Foundation SmartblocksOs.System

/-! ## The receiver with its interrupt -/

/-- `ISR(USART_RX_vect)`, with how often it reads `UDR0`. -/
def Receiver.rxVectReads (s : Receiver) (udr : Byte) (upe : Bool) : Receiver × Nat :=
  if !upe then
    let i := nextIndex s.rx.head
    if i ≠ s.rx.tail then
      ({ s with
        rx := { s.rx.put s.rx.head udr with head := i }
        stored := s.stored ++ [udr] }, 1)
    else (s, 0)
  else (s, 1)

/-- The handler does the same whether its reads are counted or not. -/
theorem Receiver.rxVectReads_fst (s : Receiver) (udr : Byte) (upe : Bool) :
    (s.rxVectReads udr upe).1 = s.rxVect udr upe := by
  unfold rxVectReads rxVect
  cases upe with
  | false =>
      simp only [Bool.not_false, if_true]
      split <;> rfl
  | true => rfl

/-- The only byte that is not read is one without parity error that the ring has no room for. -/
theorem Receiver.rxVectReads_snd (s : Receiver) (udr : Byte) (upe : Bool) :
    (s.rxVectReads udr upe).2 = if upe = false ∧ nextIndex s.rx.head = s.rx.tail then 0 else 1 := by
  unfold rxVectReads
  cases upe with
  | false =>
      simp only [Bool.not_false, if_true, true_and]
      split
      · rfl
      · rename_i hfull
        exact (if_pos (not_not.mp hfull)).symm
  | true => rfl

/-- The receiver with the bytes that wait in the unit, and a count of how each was fetched. -/
structure ReceiveUnit where
  receiver : Receiver
  /-- The bytes received and not yet read from `UDR0`, each with its bit `UPE0`. -/
  waiting : List (Byte × Bool)
  /-- How many bytes have been received. -/
  received : Nat
  /-- How often each run of the handler has read `UDR0`. -/
  reads : List Nat

/-- What can happen to the unit and to the reader. -/
inductive UnitEvent where
  /-- A byte has been received. -/
  | arrive (udr : Byte) (upe : Bool)
  /-- `USART_RX_vect` runs, which it does only while a byte is waiting. -/
  | rxVect
  /-- A call of the reader, or its next load or store. -/
  | available
  | peek
  | read
  | advance
  deriving DecidableEq

namespace ReceiveUnit

/-- The reader makes a step. -/
def reader (s : ReceiveUnit) (e : ReceiveEvent) : Option ReceiveUnit :=
  (receiveStep s.receiver e).map fun receiver => { s with receiver }

/-- The handler runs for the byte `udr`. -/
def handle (s : ReceiveUnit) (udr : Byte) (upe : Bool) : ReceiveUnit :=
  let (receiver, n) := s.receiver.rxVectReads udr upe
  { s with receiver, waiting := s.waiting.drop n, reads := s.reads ++ [n] }

end ReceiveUnit

/-- A byte stays in the unit until `UDR0` is read, and as long as one waits the handler runs again. -/
def unitStep (s : ReceiveUnit) : UnitEvent → Option ReceiveUnit
  | .arrive udr upe =>
      some { s with waiting := s.waiting ++ [(udr, upe)], received := s.received + 1 }
  | .rxVect => s.waiting.head?.map fun byte => s.handle byte.1 byte.2
  | .available => s.reader .available
  | .peek => s.reader .peek
  | .read => s.reader .read
  | .advance => s.reader .advance

/-- Nothing has been received yet. The ring may be in any state, and the reader in the middle of a call. -/
def ReceiveUnit.Fresh (s : ReceiveUnit) : Prop := s.waiting = [] ∧ s.received = 0 ∧ s.reads = []

/-! ## One run for each byte -/

/-- Each run of the handler has read `UDR0` once, so every byte received has had its run or waits for it. -/
structure ReceiveUnit.Once (s : ReceiveUnit) : Prop where
  reads : ∀ n ∈ s.reads, n = 1
  count : s.reads.length + s.waiting.length = s.received

/-- When the handler runs for a byte without parity error the ring is not full. -/
def HasRoom (s : ReceiveUnit) (e : UnitEvent) : Prop :=
  e = .rxVect → ∀ udr, s.waiting.head? = some (udr, false) →
    nextIndex s.receiver.rx.head ≠ s.receiver.rx.tail

/-- A fresh unit has fetched nothing. -/
theorem ReceiveUnit.Fresh.once {s : ReceiveUnit} (h : s.Fresh) : s.Once := by
  obtain ⟨hwaiting, hreceived, hreads⟩ := h
  constructor
  · rw [hreads]
    exact fun n hn => absurd hn (by simp)
  · rw [hreads, hwaiting, hreceived]
    rfl

/-- A step of the reader is no run of the handler. -/
theorem ReceiveUnit.reader_same {s t : ReceiveUnit} {e : ReceiveEvent} (hst : s.reader e = some t) :
    t.waiting = s.waiting ∧ t.received = s.received ∧ t.reads = s.reads := by
  obtain ⟨receiver, -, rfl⟩ := Option.map_eq_some_iff.mp hst
  exact ⟨rfl, rfl, rfl⟩

/-- With room for the byte the handler reads it. -/
theorem unitStep_once {s t : ReceiveUnit} {e : UnitEvent} (h : s.Once) (hroom : HasRoom s e)
    (hst : unitStep s e = some t) : t.Once := by
  cases e with
  | arrive udr upe =>
      obtain rfl := Option.some.inj hst
      refine ⟨h.reads, ?_⟩
      rw [List.length_append, ← Nat.add_assoc, h.count]
      rfl
  | rxVect =>
      obtain ⟨⟨udr, upe⟩, hhead, rfl⟩ := Option.map_eq_some_iff.mp hst
      obtain ⟨rest, hwaiting⟩ := List.head?_eq_some_iff.mp hhead
      -- the only way past the read of `UDR0` is the early return for a full ring
      have hone : (s.receiver.rxVectReads udr upe).2 = 1 := by
        rw [Receiver.rxVectReads_snd, if_neg]
        rintro ⟨rfl, hfull⟩
        exact hroom rfl udr hhead hfull
      refine ⟨fun n hn => ?_, ?_⟩
      · rcases List.mem_append.mp hn with hn | hn
        · exact h.reads n hn
        · exact (List.mem_singleton.mp hn).trans hone
      · have hcount := h.count
        simp only [ReceiveUnit.handle, hone, hwaiting, List.drop_one, List.tail_cons, List.length_append,
          List.length_cons, List.length_nil] at hcount ⊢
        omega
  | available | peek | read | advance =>
      obtain ⟨hwaiting, hreceived, hreads⟩ := ReceiveUnit.reader_same hst
      exact ⟨hreads ▸ h.reads, by rw [hreads, hwaiting, hreceived, h.count]⟩

/-- Without it the handler leaves it where it is. -/
theorem unitStep_misses {s t : ReceiveUnit} {e : UnitEvent} (hroom : ¬ HasRoom s e)
    (hst : unitStep s e = some t) : 0 ∈ t.reads := by
  simp only [HasRoom, Classical.not_imp, not_forall, ne_eq, not_not] at hroom
  obtain ⟨rfl, udr, hhead, hfull⟩ := hroom
  obtain ⟨byte, hbyte, rfl⟩ := Option.map_eq_some_iff.mp hst
  obtain rfl : byte = (udr, false) := Option.some.inj (hbyte.symm.trans hhead)
  have hzero : (s.receiver.rxVectReads udr false).2 = 0 := by
    rw [Receiver.rxVectReads_snd, if_pos ⟨rfl, hfull⟩]
  simp [ReceiveUnit.handle, hzero]

/-- What has been read is not forgotten. -/
theorem unitStep_reads {s t : ReceiveUnit} {e : UnitEvent} (hst : unitStep s e = some t) :
    s.reads <+: t.reads := by
  cases e with
  | arrive udr upe =>
      obtain rfl := Option.some.inj hst
      exact List.prefix_rfl
  | rxVect =>
      obtain ⟨byte, -, rfl⟩ := Option.map_eq_some_iff.mp hst
      exact List.prefix_append _ _
  | available | peek | read | advance =>
      rw [(ReceiveUnit.reader_same hst).2.2]

/-- A run with room for every byte, or with a byte that has been left where it was. -/
theorem run_once_or {s s₀ : ReceiveUnit} {es : List UnitEvent} (h₀ : s₀.Fresh)
    (h : run unitStep s₀ es = some s) :
    s.Once ∧ Along unitStep HasRoom s₀ es ∨ 0 ∈ s.reads ∧ ¬ Along unitStep HasRoom s₀ es := by
  -- by induction on the events, the last one taken off
  induction es using List.reverseRecOn generalizing s with
  | nil =>
      obtain rfl := Option.some.inj h
      exact Or.inl ⟨h₀.once, trivial⟩
  | append_singleton es e ih =>
      obtain ⟨m, hm, hst⟩ := run_concat_eq_some.mp h
      rw [along_append]
      rcases ih hm with ⟨honce, halong⟩ | ⟨hmissed, halong⟩
      · by_cases hroom : HasRoom m e
        · refine Or.inl ⟨unitStep_once honce hroom hst, halong, fun t ht => ?_⟩
          obtain rfl := Option.some.inj (hm.symm.trans ht)
          exact ⟨hroom, fun _ _ => trivial⟩
        · exact Or.inr ⟨unitStep_misses hroom hst, fun h => hroom (h.2 m hm).1⟩
      · exact Or.inr ⟨(unitStep_reads hst).subset hmissed, fun h => halong h.1⟩

/-- **One run for each byte.** From whatever state of the ring, whatever the reader does: each run of the
handler so far has read `UDR0` once, and there have been as many as bytes that are not waiting any more,
if and only if there was room for each byte without parity error when the handler ran for it. -/
theorem once_iff {s s₀ : ReceiveUnit} {es : List UnitEvent} (h₀ : s₀.Fresh)
    (h : run unitStep s₀ es = some s) :
    (∀ n ∈ s.reads, n = 1) ∧ s.reads.length + s.waiting.length = s.received ↔
      Along unitStep HasRoom s₀ es := by
  rcases run_once_or h₀ h with ⟨honce, halong⟩ | ⟨hmissed, halong⟩
  · exact iff_of_true ⟨honce.reads, honce.count⟩ halong
  · exact iff_of_false (fun hright => absurd (hright.1 0 hmissed) (by decide)) halong

/-- With the ring full and nobody to read it, the handler runs again and again for the same byte. -/
theorem rxVect_reenters {s : ReceiveUnit} {udr : Byte} (hwaiting : s.waiting.head? = some (udr, false))
    (hfull : nextIndex s.receiver.rx.head = s.receiver.rx.tail) (n : Nat) :
    run unitStep s (List.replicate n .rxVect) = some { s with reads := s.reads ++ List.replicate n 0 } := by
  have hleft : s.receiver.rxVectReads udr false = (s.receiver, 0) := by
    unfold Receiver.rxVectReads
    simp only [Bool.not_false, if_true, if_neg (not_not.mpr hfull)]
  have hrun : ∀ reads, unitStep { s with reads } .rxVect = some { s with reads := reads ++ [0] } := by
    intro reads
    simp only [unitStep, hwaiting, Option.map_some, ReceiveUnit.handle, hleft, List.drop_zero]
  suffices hall : ∀ reads, run unitStep { s with reads } (List.replicate n .rxVect) =
      some { s with reads := reads ++ List.replicate n 0 } from hall s.reads
  induction n with
  | zero =>
      intro reads
      rw [List.replicate_zero, List.replicate_zero, List.append_nil]
      rfl
  | succ n ih =>
      intro reads
      rw [List.replicate_succ, run_cons, hrun, Option.bind_some, ih, List.replicate_succ,
        List.append_assoc]
      rfl

/-- A receiver whose ring is full, but for `free` bytes. -/
def filled (free : Word) : ReceiveUnit :=
  ⟨⟨⟨fun _ => 0, 63 - free, 0⟩, .idle, [], [], []⟩, [], 0, []⟩

/-- One byte takes the last place; one with a parity error is thrown away. -/
theorem once_iff_filled : ∃ s, run unitStep (filled 1)
      [.arrive 0x74 false, .rxVect, .arrive 0x75 true, .rxVect] = some s ∧ s.reads = [1, 1] ∧
    ((∀ n ∈ s.reads, n = 1) ∧ s.reads.length + s.waiting.length = s.received ↔
      Along unitStep HasRoom (filled 1) [.arrive 0x74 false, .rxVect, .arrive 0x75 true, .rxVect]) := by
  have hrun : (run unitStep (filled 1) [.arrive 0x74 false, .rxVect, .arrive 0x75 true, .rxVect]).map
      ReceiveUnit.reads = some [1, 1] := by decide
  obtain ⟨s, hs, hreads⟩ := Option.map_eq_some_iff.mp hrun
  exact ⟨s, hs, hreads, once_iff ⟨rfl, rfl, rfl⟩ hs⟩

/-- A byte for which there is no place left is not read. -/
theorem not_once_filled :
    ¬ ∀ (s s₀ : ReceiveUnit) (es : List UnitEvent), s₀.Fresh → run unitStep s₀ es = some s →
      (∀ n ∈ s.reads, n = 1) ∧ s.reads.length + s.waiting.length = s.received := by
  intro hall
  have hrun : (run unitStep (filled 0) [.arrive 0x74 false, .rxVect]).map ReceiveUnit.reads =
      some [0] := by decide
  obtain ⟨s, hs, hreads⟩ := Option.map_eq_some_iff.mp hrun
  have honce := (hall s (filled 0) _ ⟨rfl, rfl, rfl⟩ hs).1
  rw [hreads] at honce
  exact absurd (honce 0 (List.mem_singleton_self 0)) (by decide)

end SmartblocksOs.Uart
