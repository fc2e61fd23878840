/-
# SmartblocksOs.Foundation.TwoWire -- a master on a two-wire bus

The hardware of a bus master does one thing at a time: it sends a START, an address or a byte, receives a
byte, or sends a STOP. How the slave answers, and whether arbitration is lost or the bus fails, is in
`answers`, one for each thing it does. What has been on the bus is in `trace`.

`transmission` and `reception` are the two transactions a master makes of this. A transaction that is not
to end with a STOP ends with a repeated START, and the next one then goes on without a START of its own.
So the traces of transactions one after the other are well formed (`Transactions`): that is
`transmission_traced` and `reception_traced`.
-/
import Mathlib.Data.List.Basic
import Mathlib.Tactic.Common

namespace SmartblocksOs.Foundation.TwoWire

/-! ## The hardware

An answer is consumed by each thing the master does, so that a sequence of answers is an environment: a
slave, other masters, and the noise on the line. -/

/-- Why a transaction may be cut off. -/
inductive Cut where
  | arbLost | busError
  deriving DecidableEq, Repr

/-- What can be on the bus. -/
inductive BusEvent where
  | start
  | repStart
  /-- A slave address with the read/write bit. -/
  | address (slarw : BitVec 8) (acked : Bool)
  | sent (b : BitVec 8) (acked : Bool)
  | received (b : BitVec 8) (acked : Bool)
  | stop
  | cut (c : Cut)
  deriving DecidableEq, Repr

/-- What happens when the master does something. -/
structure Answer where
  cut : Option Cut
  /-- The slave acknowledges. -/
  ack : Bool
  /-- What the slave sends. -/
  data : BitVec 8

/-- What the master is doing. -/
inductive Phase where
  /-- The bus is not held. -/
  | idle
  /-- A START or a repeated START has been sent. -/
  | started
  | transmitting
  | receiving
  deriving DecidableEq, Repr

/-- The hardware of the master: what it is doing, how it is going to be answered, and what has been on the
bus so far. -/
structure Hardware where
  phase : Phase
  answers : Nat → Answer
  trace : List BusEvent

/-- How the master has fared. -/
inductive Report where
  | done (acked : Bool)
  | cut (c : Cut)
  deriving DecidableEq, Repr

/-- How a transaction ends. -/
inductive Ending where
  | done
  | addressNack
  | dataNack
  | cut (c : Cut)
  deriving DecidableEq, Repr

namespace Hardware

/-- `e` is on the bus, and the next answer is the one after this. -/
def next (h : Hardware) (phase : Phase) (e : BusEvent) : Hardware :=
  ⟨phase, fun i => h.answers (i + 1), h.trace ++ [e]⟩

/-- A START, or a repeated START where the bus is held, which always succeeds. -/
def start (h : Hardware) : Report × Hardware :=
  if h.phase = .idle then
    match (h.answers 0).cut with
    | some c => (.cut c, h.next .idle (.cut c))
    | none => (.done true, h.next .started .start)
  else (.done true, { h with phase := .started, trace := h.trace ++ [.repStart] })

/-- The address of a slave, with the direction in bit `0`. -/
def address (h : Hardware) (slarw : BitVec 8) : Report × Hardware :=
  match (h.answers 0).cut with
  | some c => (.cut c, h.next .idle (.cut c))
  | none =>
      (.done (h.answers 0).ack,
        h.next (if slarw.getLsbD 0 then .receiving else .transmitting)
          (.address slarw (h.answers 0).ack))

/-- A byte of data. -/
def send (h : Hardware) (b : BitVec 8) : Report × Hardware :=
  match (h.answers 0).cut with
  | some c => (.cut c, h.next .idle (.cut c))
  | none => (.done (h.answers 0).ack, h.next h.phase (.sent b (h.answers 0).ack))

/-- The byte received, which the master acknowledges or not, and how it has fared. -/
def receive (h : Hardware) (acked : Bool) : BitVec 8 × Report × Hardware :=
  match (h.answers 0).cut with
  | some c => ((h.answers 0).data, .cut c, h.next .idle (.cut c))
  | none => ((h.answers 0).data, .done acked, h.next h.phase (.received (h.answers 0).data acked))

/-- A STOP, which releases the bus. After an error it is not sent. -/
def stop (h : Hardware) : Hardware :=
  if h.phase = .idle then h else { h with phase := .idle, trace := h.trace ++ [.stop] }

/-! A transaction that is cut off releases the bus; what gets through keeps it. -/

/-- A START that is cut off. -/
theorem start_cut {h h' : Hardware} {c : Cut} (heq : h.start = (.cut c, h')) : h'.phase = .idle := by
  unfold start at heq
  split at heq
  · split at heq
    · obtain ⟨-, rfl⟩ := Prod.mk.inj heq
      rfl
    · exact absurd (Prod.mk.inj heq).1 (by simp)
  · exact absurd (Prod.mk.inj heq).1 (by simp)

/-- A START that got through is on the bus. -/
theorem start_done {h h' : Hardware} {acked : Bool} (heq : h.start = (.done acked, h')) :
    acked = true ∧ h'.phase = .started := by
  unfold start at heq
  split at heq
  · split at heq
    · exact absurd (Prod.mk.inj heq).1 (by simp)
    · obtain ⟨hacked, rfl⟩ := Prod.mk.inj heq
      exact ⟨(Report.done.inj hacked).symm, rfl⟩
  · obtain ⟨hacked, rfl⟩ := Prod.mk.inj heq
    exact ⟨(Report.done.inj hacked).symm, rfl⟩

/-- What is cut off has released the bus. -/
theorem address_cut {h h' : Hardware} {slarw : BitVec 8} {c : Cut}
    (heq : h.address slarw = (.cut c, h')) : h'.phase = .idle := by
  unfold address at heq
  split at heq
  · obtain ⟨-, rfl⟩ := Prod.mk.inj heq
    rfl
  · exact absurd (Prod.mk.inj heq).1 (by simp)

/-- After an address it is bit `0` that says who sends. -/
theorem address_done {h h' : Hardware} {slarw : BitVec 8} {acked : Bool}
    (heq : h.address slarw = (.done acked, h')) :
    h'.phase = if slarw.getLsbD 0 then .receiving else .transmitting := by
  unfold address at heq
  split at heq
  · exact absurd (Prod.mk.inj heq).1 (by simp)
  · obtain ⟨-, rfl⟩ := Prod.mk.inj heq
    rfl

theorem send_cut {h h' : Hardware} {b : BitVec 8} {c : Cut} (heq : h.send b = (.cut c, h')) :
    h'.phase = .idle := by
  unfold send at heq
  split at heq
  · obtain ⟨-, rfl⟩ := Prod.mk.inj heq
    rfl
  · exact absurd (Prod.mk.inj heq).1 (by simp)

/-- A byte that is sent leaves the transaction as it is. -/
theorem send_done {h h' : Hardware} {b : BitVec 8} {acked : Bool}
    (heq : h.send b = (.done acked, h')) : h'.phase = h.phase := by
  unfold send at heq
  split at heq
  · exact absurd (Prod.mk.inj heq).1 (by simp)
  · obtain ⟨-, rfl⟩ := Prod.mk.inj heq
    rfl

theorem receive_cut {h h' : Hardware} {acked : Bool} {b : BitVec 8} {c : Cut}
    (heq : h.receive acked = (b, .cut c, h')) : h'.phase = .idle := by
  unfold receive at heq
  split at heq
  · obtain ⟨-, heq⟩ := Prod.mk.inj heq
    obtain ⟨-, rfl⟩ := Prod.mk.inj heq
    rfl
  · exact absurd (Prod.mk.inj (Prod.mk.inj heq).2).1 (by simp)

/-- A byte that has come was acknowledged as it was to be. -/
theorem receive_done {h h' : Hardware} {acked acked' : Bool} {b : BitVec 8}
    (heq : h.receive acked = (b, .done acked', h')) : acked' = acked ∧ h'.phase = h.phase := by
  unfold receive at heq
  split at heq
  · exact absurd (Prod.mk.inj (Prod.mk.inj heq).2).1 (by simp)
  · obtain ⟨-, heq⟩ := Prod.mk.inj heq
    obtain ⟨hacked, rfl⟩ := Prod.mk.inj heq
    exact ⟨(Report.done.inj hacked).symm, rfl⟩

/-! What has been on the bus stays in the trace. -/

/-- The steps of the bus add to the trace. -/
theorem start_prefix (h : Hardware) : h.trace <+: h.start.2.trace := by
  unfold start
  split
  · split
    · exact List.prefix_append ..
    · exact List.prefix_append ..
  · exact List.prefix_append ..

theorem address_prefix (h : Hardware) (slarw : BitVec 8) : h.trace <+: (h.address slarw).2.trace := by
  unfold address
  split
  · exact List.prefix_append ..
  · exact List.prefix_append ..

theorem send_prefix (h : Hardware) (b : BitVec 8) : h.trace <+: (h.send b).2.trace := by
  unfold send
  split
  · exact List.prefix_append ..
  · exact List.prefix_append ..

theorem receive_prefix (h : Hardware) (acked : Bool) : h.trace <+: (h.receive acked).2.2.trace := by
  unfold receive
  split
  · exact List.prefix_append ..
  · exact List.prefix_append ..

theorem stop_prefix (h : Hardware) : h.trace <+: h.stop.trace := by
  unfold stop
  split
  · exact List.prefix_rfl
  · exact List.prefix_append ..

/-! ## Transactions

What a master makes of the single steps. The ending says how far it got. -/

/-- A START, unless the bus is held: then a repeated START has been sent. -/
def seize (h : Hardware) : Report × Hardware :=
  if h.phase = .idle then h.start else (.done true, h)

/-- A STOP, or a repeated START for the next transaction. -/
def close (h : Hardware) (sendStop : Bool) : Hardware :=
  if sendStop then h.stop else h.start.2

/-- Bytes are sent until the slave refuses one. -/
def sendBytes (h : Hardware) : List (BitVec 8) → Ending × Hardware
  | [] => (.done, h)
  | b :: bytes =>
      match h.send b with
      | (.done true, h) => h.sendBytes bytes
      | (.done false, h) => (.dataNack, h)
      | (.cut c, h) => (.cut c, h)

/-- `n` bytes are received; all but the last are acknowledged. -/
def receiveBytes (h : Hardware) : Nat → List (BitVec 8) × Ending × Hardware
  | 0 => ([], .done, h)
  | n + 1 =>
      match h.receive (0 < n) with
      | (b, .done _, h) =>
          let (bytes, ending, h) := h.receiveBytes n
          (b :: bytes, ending, h)
      | (_, .cut c, h) => ([], .cut c, h)

/-- A reception ends with the first byte that is cut off; that byte is lost. -/
theorem receiveBytes_cut {h h' : Hardware} {n : Nat} {b : BitVec 8} {c : Cut}
    (heq : h.receive (0 < n) = (b, .cut c, h')) : h.receiveBytes (n + 1) = ([], .cut c, h') := by
  unfold receiveBytes
  rw [heq]

/-- A byte that gets through comes before those that follow it. -/
theorem receiveBytes_done {h h' : Hardware} {n : Nat} {b : BitVec 8} {acked : Bool}
    (heq : h.receive (0 < n) = (b, .done acked, h')) :
    h.receiveBytes (n + 1) = (b :: (h'.receiveBytes n).1, (h'.receiveBytes n).2) := by
  rw [receiveBytes, heq]

/-- How a transaction that ends so leaves the bus. -/
def finish (h : Hardware) (sendStop : Bool) : Ending → Hardware
  | .done => h.close sendStop
  | .addressNack | .dataNack | .cut _ => h.stop

/-- The head of a transaction: a START and the address. -/
def call (h : Hardware) (slarw : BitVec 8) : Report × Hardware :=
  match h.seize with
  | (.done _, h) => h.address slarw
  | (.cut c, h) => (.cut c, h)

/-- A transmission up to its end. -/
def transmit (h : Hardware) (slarw : BitVec 8) (bytes : List (BitVec 8)) : Ending × Hardware :=
  match h.call slarw with
  | (.done true, h) => h.sendBytes bytes
  | (.done false, h) => (.addressNack, h)
  | (.cut c, h) => (.cut c, h)

/-- A reception up to its end. -/
def fetch (h : Hardware) (slarw : BitVec 8) (n : Nat) : List (BitVec 8) × Ending × Hardware :=
  match h.call slarw with
  | (.done true, h) => h.receiveBytes n
  | (.done false, h) => ([], .addressNack, h)
  | (.cut c, h) => ([], .cut c, h)

/-- A transmission: the bytes, and what ends the transaction. It ends with a STOP unless it is to keep the
bus and all has gone well. -/
def transmission (h : Hardware) (slarw : BitVec 8) (bytes : List (BitVec 8)) (sendStop : Bool) :
    Ending × Hardware :=
  let (ending, h) := h.transmit slarw bytes
  (ending, h.finish sendStop ending)

/-- A reception of `n` bytes, ended in the same way. -/
def reception (h : Hardware) (slarw : BitVec 8) (n : Nat) (sendStop : Bool) :
    List (BitVec 8) × Ending × Hardware :=
  let (bytes, ending, h) := h.fetch slarw n
  (bytes, ending, h.finish sendStop ending)

end Hardware

namespace Hardware

/-- No more bytes are received than were asked for. -/
theorem receiveBytes_length_le (h : Hardware) (n : Nat) : (h.receiveBytes n).1.length ≤ n := by
  induction n generalizing h with
  | zero => exact Nat.le_refl 0
  | succ n ih =>
      rcases hreceive : h.receive (0 < n) with ⟨b, acked | c, h'⟩
      · rw [receiveBytes_done hreceive]
        exact Nat.succ_le_succ (ih h')
      · rw [receiveBytes_cut hreceive]
        exact Nat.zero_le _

/-- No more than `n` bytes are fetched. -/
theorem fetch_length_le (h : Hardware) (slarw : BitVec 8) (n : Nat) :
    (h.fetch slarw n).1.length ≤ n := by
  unfold fetch
  split
  · exact receiveBytes_length_le _ n
  · exact Nat.zero_le n
  · exact Nat.zero_le n

end Hardware

/-! ## Well-formed traces

A grammar for what may be on the bus: transactions that begin with a START or behind a repeated one, and
that end with a STOP, with a repeated START, or cut off. -/

/-- A byte in one direction or the other. -/
def BusEvent.IsData : BusEvent → Prop
  | .sent _ _ | .received _ _ => True
  | _ => False

/-- The slave has refused a byte. -/
def Nacked (data : List BusEvent) : Prop := ∃ b, .sent b false ∈ data

/-- The START that a transaction sends itself: none, when it goes on after a repeated START. -/
def opening (held : Bool) : List BusEvent := if held then [] else [.start]

/-- The events of one transaction with the slave at `slarw`. The bus may be held before, and afterwards,
by a repeated START. -/
inductive Transaction (slarw : BitVec 8) (sendStop : Bool) : Bool → List BusEvent → Bool → Prop
  | stopped {held acked : Bool} {data : List BusEvent} :
      (∀ e ∈ data, e.IsData) → (acked = false → data = []) →
      sendStop = true ∨ acked = false ∨ Nacked data →
      Transaction slarw sendStop held
        (opening held ++ .address slarw acked :: data ++ [.stop]) false
  | kept {held : Bool} {data : List BusEvent} :
      (∀ e ∈ data, e.IsData) → sendStop = false → ¬ Nacked data →
      Transaction slarw sendStop held
        (opening held ++ .address slarw true :: data ++ [.repStart]) true
  | cut {held : Bool} {data pre : List BusEvent} (c : Cut) :
      (∀ e ∈ data, e.IsData) → pre <+: opening held ++ .address slarw true :: data →
      Transaction slarw sendStop held (pre ++ [.cut c]) false

/-- Transactions one after the other, of which the slaves and the stop flags are given. -/
inductive Transactions : Bool → List (BitVec 8 × Bool) → List BusEvent → Bool → Prop
  | nil (held : Bool) : Transactions held [] [] held
  | cons {held held' held'' : Bool} {slarw : BitVec 8} {sendStop : Bool}
      {transfers : List (BitVec 8 × Bool)} {events trace : List BusEvent} :
      Transaction slarw sendStop held events held' → Transactions held' transfers trace held'' →
      Transactions held ((slarw, sendStop) :: transfers) (events ++ trace) held''

/-- The bus is held afterwards when the last of a transaction is a repeated START. -/
theorem Transaction.held_iff {slarw : BitVec 8} {sendStop held held' : Bool} {events : List BusEvent}
    (h : Transaction slarw sendStop held events held') :
    held' = true ↔ events.getLast? = some .repStart := by
  cases h with
  | stopped | kept | cut => simp [List.getLast?_cons]

/-- A transaction that is to end with a STOP does not keep the bus. -/
theorem Transaction.sendStop_eq_false {slarw : BitVec 8} {sendStop held : Bool} {events : List BusEvent}
    (h : Transaction slarw sendStop held events true) : sendStop = false := by
  cases h with
  | kept _ hstop _ => exact hstop

/-- Something is on the bus in every transaction. -/
theorem Transaction.ne_nil {slarw : BitVec 8} {sendStop held held' : Bool} {events : List BusEvent}
    (h : Transaction slarw sendStop held events held') : events ≠ [] := by
  cases h with
  | stopped | kept | cut => simp

namespace Transactions

/-- The transactions of one trace after those of another, where the second begins as the first ends. -/
theorem append {held held' held'' : Bool} {transfers transfers' : List (BitVec 8 × Bool)}
    {trace trace' : List BusEvent} (h : Transactions held transfers trace held')
    (h' : Transactions held' transfers' trace' held'') :
    Transactions held (transfers ++ transfers') (trace ++ trace') held'' := by
  induction h with
  | nil => exact h'
  | cons hone _ ih =>
      rw [List.append_assoc]
      exact .cons hone (ih h')

/-- So it is after any number of transactions, from a bus that is not held. -/
theorem held_iff {held held' : Bool} {transfers : List (BitVec 8 × Bool)} {trace : List BusEvent}
    (h : Transactions held transfers trace held') :
    held' = true ↔ trace.getLast? = some .repStart ∨ trace = [] ∧ held = true := by
  induction h with
  | nil => simp
  | @cons held held' held'' slarw sendStop transfers events trace hone hrest ih =>
      have hne := hone.ne_nil
      by_cases htrace : trace = []
      · subst htrace
        simp [ih, hone.held_iff, hne]
      · rw [ih, List.getLast?_append_of_ne_nil _ htrace]
        simp [htrace]

end Transactions

namespace Hardware

/-- No transaction is under way, and the bus is held by a repeated START or not at all. -/
def Between (held : Bool) (h : Hardware) : Prop :=
  h.phase = if held then .started else .idle

/-- What bytes that go over the bus leave behind. -/
def Passed (h : Hardware) (data : List BusEvent) (h' : Hardware) : Ending → Prop
  | .done => h'.phase = h.phase ∧ h'.trace = h.trace ++ data ∧ ¬ Nacked data
  | .addressNack => False
  | .dataNack => h'.phase = h.phase ∧ h'.trace = h.trace ++ data ∧ Nacked data
  | .cut c => h'.phase = .idle ∧ h'.trace = h.trace ++ data ++ [.cut c]

/-- One more byte before them. -/
theorem Passed.next {h h' : Hardware} {data : List BusEvent} {ending : Ending} {e : BusEvent}
    (he : ∀ b, e ≠ .sent b false) (hrest : (h.next h.phase e).Passed data h' ending) :
    h.Passed (e :: data) h' ending := by
  have hnacked : Nacked (e :: data) ↔ Nacked data := by
    apply exists_congr
    intro b
    rw [List.mem_cons, or_iff_right (he b).symm]
  have htrace : ∀ l, (h.next h.phase e).trace ++ l = h.trace ++ e :: l := fun l => by
    simp only [Hardware.next, List.append_assoc, List.cons_append, List.nil_append]
  cases ending with
  | done =>
      obtain ⟨hp, ht, hn⟩ := hrest
      exact ⟨hp, ht.trans (htrace data), hnacked.not.mpr hn⟩
  | addressNack => exact hrest
  | dataNack =>
      obtain ⟨hp, ht, hn⟩ := hrest
      exact ⟨hp, ht.trans (htrace data), hnacked.mpr hn⟩
  | cut c =>
      obtain ⟨hp, ht⟩ := hrest
      exact ⟨hp, by rw [ht, htrace]⟩

/-- The bytes of a transmission are data: the framing is not their business. -/
theorem sendBytes_passed (bytes : List (BitVec 8)) (h : Hardware) :
    ∃ data, (∀ e ∈ data, e.IsData) ∧
      h.Passed data (h.sendBytes bytes).2 (h.sendBytes bytes).1 := by
  induction bytes generalizing h with
  | nil => exact ⟨[], by simp, rfl, by simp [sendBytes], by simp [Nacked]⟩
  | cons b bytes ih =>
      unfold sendBytes send
      cases hcut : (h.answers 0).cut with
      | some c => exact ⟨[], by simp, rfl, by simp [next]⟩
      | none =>
          cases hack : (h.answers 0).ack with
          | false => exact ⟨[.sent b false], by simp [BusEvent.IsData], rfl, rfl, b, by simp⟩
          | true =>
              obtain ⟨data, hdata, hpassed⟩ := ih (h.next h.phase (.sent b true))
              refine ⟨.sent b true :: data, ?_, hpassed.next (by simp)⟩
              intro e he
              rcases List.mem_cons.mp he with rfl | he
              · trivial
              · exact hdata e he

/-- So are those of a reception. -/
theorem receiveBytes_passed (n : Nat) (h : Hardware) :
    ∃ data, (∀ e ∈ data, e.IsData) ∧
      h.Passed data (h.receiveBytes n).2.2 (h.receiveBytes n).2.1 := by
  induction n generalizing h with
  | zero => exact ⟨[], by simp, rfl, by simp [receiveBytes], by simp [Nacked]⟩
  | succ n ih =>
      unfold receiveBytes receive
      cases hcut : (h.answers 0).cut with
      | some c => exact ⟨[], by simp, rfl, by simp [next]⟩
      | none =>
          let e : BusEvent := .received (h.answers 0).data (decide (0 < n))
          obtain ⟨data, hdata, hpassed⟩ := ih (h.next h.phase e)
          refine ⟨e :: data, ?_, hpassed.next (by simp [e])⟩
          intro e' he
          rcases List.mem_cons.mp he with rfl | he
          · trivial
          · exact hdata e' he

/-- Whether the transaction that ends so keeps the bus. -/
def keeps (sendStop : Bool) : Ending → Bool
  | .done => !sendStop
  | .addressNack | .dataNack | .cut _ => false

/-- The head of a transaction, and what has passed before its end. -/
theorem call_traced {held : Bool} {h : Hardware} (hheld : h.Between held) (slarw : BitVec 8) :
    match h.call slarw with
    | (.done acked, h') =>
        h'.phase ≠ .idle ∧ h'.trace = h.trace ++ (opening held ++ [.address slarw acked])
    | (.cut c, h') =>
        h'.phase = .idle ∧ ∃ pre, pre <+: opening held ∧ h'.trace = h.trace ++ (pre ++ [.cut c]) := by
  -- the address, behind whatever has opened the bus
  have haddress : ∀ h₁ : Hardware, h₁.trace = h.trace ++ opening held →
      match h₁.address slarw with
      | (.done acked, h') =>
          h'.phase ≠ .idle ∧ h'.trace = h.trace ++ (opening held ++ [.address slarw acked])
      | (.cut c, h') =>
          h'.phase = .idle ∧ ∃ pre, pre <+: opening held ∧ h'.trace = h.trace ++ (pre ++ [.cut c]) := by
    intro h₁ htrace
    unfold address
    cases (h₁.answers 0).cut with
    | some c =>
        exact ⟨rfl, opening held, List.prefix_rfl, by simp only [next, htrace, List.append_assoc]⟩
    | none =>
        refine ⟨?_, by simp only [next, htrace, List.append_assoc]⟩
        simp only [next]
        split <;> simp
  unfold call seize
  cases held with
  -- the START has been sent ahead
  | true =>
      have hphase : h.phase = .started := hheld
      rw [if_neg (by rw [hphase]; simp)]
      exact haddress h (by simp [opening])
  -- the START comes first, and may be lost to another master
  | false =>
      have hphase : h.phase = .idle := hheld
      rw [if_pos hphase]
      unfold start
      rw [if_pos hphase]
      cases (h.answers 0).cut with
      | some c => exact ⟨rfl, [], List.nil_prefix, by simp [next]⟩
      | none => exact haddress _ rfl

/-- What a transaction has sent, and then its end. -/
theorem Passed.transaction {held sendStop : Bool} {h h' : Hardware} {slarw : BitVec 8}
    {trace data : List BusEvent} {ending : Ending}
    (htrace : h.trace = trace ++ (opening held ++ [.address slarw true])) (hphase : h.phase ≠ .idle)
    (hdata : ∀ e ∈ data, e.IsData) (hpassed : h.Passed data h' ending) :
    ∃ events, (h'.finish sendStop ending).trace = trace ++ events ∧
      Transaction slarw sendStop held events (keeps sendStop ending) ∧
      (h'.finish sendStop ending).Between (keeps sendStop ending) := by
  -- a transaction with a STOP at its end
  have hstop : ∀ {h₁ : Hardware}, h₁.phase = h.phase →
      h₁.trace = h.trace ++ data → h₁.stop.trace = trace ++
        (opening held ++ .address slarw true :: data ++ [.stop]) ∧ h₁.stop.Between false := by
    intro h₁ hp ht
    unfold stop
    rw [if_neg (by rw [hp]; exact hphase)]
    refine ⟨?_, rfl⟩
    simp only [ht, htrace, List.append_assoc, List.cons_append, List.nil_append]
  cases ending with
  | done =>
      obtain ⟨hp, ht, hn⟩ := hpassed
      cases sendStop with
      | true =>
          obtain ⟨htr, hb⟩ := hstop hp ht
          exact ⟨_, htr, .stopped hdata (by simp) (Or.inl rfl), hb⟩
      | false =>
          refine ⟨_, ?_, .kept hdata rfl hn, ?_⟩
          · simp only [finish, close, start, if_neg (show ¬ h'.phase = .idle by rw [hp]; exact hphase),
              Bool.false_eq_true, if_false, ht, htrace, List.append_assoc, List.cons_append,
              List.nil_append]
          · simp only [finish, close, start, if_neg (show ¬ h'.phase = .idle by rw [hp]; exact hphase),
              Bool.false_eq_true, if_false]
            rfl
  | addressNack => exact hpassed.elim
  -- a byte that is refused ends the transaction with a STOP, whatever was asked for
  | dataNack =>
      obtain ⟨hp, ht, hn⟩ := hpassed
      obtain ⟨htr, hb⟩ := hstop hp ht
      exact ⟨_, htr, .stopped hdata (by simp) (Or.inr (Or.inr hn)), hb⟩
  -- what is cut off has released the bus by itself
  | cut c =>
      obtain ⟨hp, ht⟩ := hpassed
      refine ⟨_, ?_, .cut c hdata List.prefix_rfl, ?_⟩
      · simp only [finish, stop, if_pos hp, ht, htrace, List.append_assoc, List.cons_append,
          List.nil_append]
      · simp only [finish, stop, if_pos hp]
        exact hp

/-- A transaction whose head has not got through. -/
theorem call_failed {held sendStop : Bool} {h h' : Hardware} (hheld : h.Between held)
    {slarw : BitVec 8} {ending : Ending}
    (hcall : h.call slarw = (.done false, h') ∧ ending = .addressNack ∨
      ∃ c, h.call slarw = (.cut c, h') ∧ ending = .cut c) :
    ∃ events, (h'.finish sendStop ending).trace = h.trace ++ events ∧
      Transaction slarw sendStop held events false ∧ (h'.finish sendStop ending).Between false := by
  have htraced := call_traced hheld slarw
  rcases hcall with ⟨hcall, rfl⟩ | ⟨c, hcall, rfl⟩
  · rw [hcall] at htraced
    obtain ⟨hphase, htrace⟩ := htraced
    have hstopped : Transaction slarw sendStop held
        (opening held ++ .address slarw false :: [] ++ [.stop]) false :=
      .stopped (by simp) (fun _ => rfl) (Or.inr (Or.inl rfl))
    refine ⟨_, ?_, hstopped, ?_⟩
    · simp only [finish, stop, if_neg hphase, htrace, List.append_assoc]
    · simp only [finish, stop, if_neg hphase]
      rfl
  · rw [hcall] at htraced
    obtain ⟨hphase, pre, hpre, htrace⟩ := htraced
    have hcut : Transaction slarw sendStop held (pre ++ [.cut c]) false :=
      @Transaction.cut slarw sendStop held [] pre c (by simp) (hpre.trans (List.prefix_append _ _))
    refine ⟨pre ++ [.cut c], ?_, hcut, ?_⟩
    · simp only [finish, stop, if_pos hphase, htrace]
    · simp only [finish, stop, if_pos hphase]
      exact hphase

/-- A transmission leaves a well-formed trace. -/
theorem transmission_traced {held : Bool} {h : Hardware} (hheld : h.Between held)
    (slarw : BitVec 8) (bytes : List (BitVec 8)) (sendStop : Bool) :
    ∃ events, (h.transmission slarw bytes sendStop).2.trace = h.trace ++ events ∧
      Transaction slarw sendStop held events (keeps sendStop (h.transmission slarw bytes sendStop).1) ∧
      (h.transmission slarw bytes sendStop).2.Between
        (keeps sendStop (h.transmission slarw bytes sendStop).1) := by
  have htraced := call_traced hheld slarw
  unfold transmission transmit
  rcases hcall : h.call slarw with ⟨_ | c, h'⟩
  · rename_i acked
    cases acked with
    | true =>
        rw [hcall] at htraced
        obtain ⟨data, hdata, hpassed⟩ := sendBytes_passed bytes h'
        exact hpassed.transaction htraced.2 htraced.1 hdata
    | false => exact call_failed hheld (Or.inl ⟨hcall, rfl⟩)
  · exact call_failed hheld (Or.inr ⟨c, hcall, rfl⟩)

theorem reception_traced {held : Bool} {h : Hardware} (hheld : h.Between held)
    (slarw : BitVec 8) (n : Nat) (sendStop : Bool) :
    ∃ events, (h.reception slarw n sendStop).2.2.trace = h.trace ++ events ∧
      Transaction slarw sendStop held events (keeps sendStop (h.reception slarw n sendStop).2.1) ∧
      (h.reception slarw n sendStop).2.2.Between
        (keeps sendStop (h.reception slarw n sendStop).2.1) := by
  have htraced := call_traced hheld slarw
  unfold reception fetch
  rcases hcall : h.call slarw with ⟨_ | c, h'⟩
  · rename_i acked
    cases acked with
    | true =>
        rw [hcall] at htraced
        obtain ⟨data, hdata, hpassed⟩ := receiveBytes_passed n h'
        exact hpassed.transaction htraced.2 htraced.1 hdata
    | false => exact call_failed hheld (Or.inl ⟨hcall, rfl⟩)
  · exact call_failed hheld (Or.inr ⟨c, hcall, rfl⟩)

end Hardware

end SmartblocksOs.Foundation.TwoWire
