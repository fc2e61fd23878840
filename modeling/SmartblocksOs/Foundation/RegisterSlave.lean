/-
# SmartblocksOs.Foundation.RegisterSlave -- a slave with registers

A slave on the bus of `SmartblocksOs.Foundation.TwoWire` follows what it sees there. The first byte that
it acknowledges after its own address selects a register, and further bytes are written to that register.
What a transmission does to the registers is determined by how many of its bytes the slave takes
(`seen_transmission`); transactions with others, and receptions, leave them as they are.
-/
import SmartblocksOs.Foundation.TwoWire
import Mathlib.Logic.Function.Basic

namespace SmartblocksOs.Foundation.TwoWire

/-! ## The slave -/

/-- What the slave takes the next byte for. -/
inductive Listening where
  | deaf
  /-- It selects a register. -/
  | pointer
  /-- It is written to the register. -/
  | register (addr : BitVec 8)
  deriving DecidableEq, Repr

/-- The registers, and what the slave takes the next byte for. -/
structure RegisterSlave where
  registers : BitVec 8 → BitVec 8
  listening : Listening

namespace RegisterSlave

/-- The slave acknowledges `b`. -/
def accept (r : RegisterSlave) (b : BitVec 8) : RegisterSlave :=
  match r.listening with
  | .deaf => r
  | .pointer => { r with listening := .register b }
  | .register addr => { r with registers := Function.update r.registers addr b }

/-- What the slave that answers to `slaw` makes of an event on the bus. -/
def step (slaw : BitVec 8) (r : RegisterSlave) : BusEvent → RegisterSlave
  | .address a acked => { r with listening := if a = slaw ∧ acked then .pointer else .deaf }
  | .sent b true => r.accept b
  | .sent _ false | .received _ _ => r
  | .start | .repStart | .stop | .cut _ => { r with listening := .deaf }

/-- The slave, which was `r` at first, after everything that has been on the bus. -/
def seen (slaw : BitVec 8) (r : RegisterSlave) (h : Hardware) : RegisterSlave :=
  h.trace.foldl (step slaw) r

end RegisterSlave

namespace Hardware

/-- How many of the next `n` bytes are acknowledged, before one is not. -/
def taken (answers : Nat → Answer) : Nat → Nat
  | 0 => 0
  | n + 1 =>
      if (answers 0).cut = none ∧ (answers 0).ack then taken (fun i => answers (i + 1)) n + 1 else 0

/-- How many of the `n` bytes of a transmission reach the slave. -/
def delivered (h : Hardware) (slarw : BitVec 8) (n : Nat) : Nat :=
  match h.call slarw with
  | (.done true, h) => taken h.answers n
  | _ => 0

end Hardware

/-! ## What it sees -/

namespace RegisterSlave

variable (slaw : BitVec 8) (r : RegisterSlave) (h : Hardware)

/-- A slave that has not been addressed takes nothing. -/
theorem accept_deaf (hdeaf : r.listening = .deaf) (b : BitVec 8) : r.accept b = r := by
  unfold accept
  rw [hdeaf]

/-- However many bytes there are. -/
theorem foldl_accept_deaf (hdeaf : r.listening = .deaf) (bytes : List (BitVec 8)) :
    bytes.foldl accept r = r := by
  induction bytes with
  | nil => rfl
  | cons b bytes ih => rw [List.foldl_cons, accept_deaf r hdeaf, ih]

/-- What is on the bus is seen at once. -/
theorem seen_next (phase : Phase) (e : BusEvent) :
    seen slaw r (h.next phase e) = step slaw (seen slaw r h) e := by
  simp [seen, Hardware.next]

/-- A START changes no register, and neither does a STOP. -/
theorem seen_start_registers : (seen slaw r h.start.2).registers = (seen slaw r h).registers := by
  unfold Hardware.start
  split
  · split
    · rw [seen_next]
      rfl
    · rw [seen_next]
      rfl
  · simp [seen, step]

theorem seen_stop_registers : (seen slaw r h.stop).registers = (seen slaw r h).registers := by
  unfold Hardware.stop
  split
  · rfl
  · simp [seen, step]

/-- Nothing is written at the end of a transaction. -/
theorem seen_finish_registers (sendStop : Bool) (ending : Ending) :
    (seen slaw r (h.finish sendStop ending)).registers = (seen slaw r h).registers := by
  cases ending with
  | done =>
      cases sendStop with
      | true => exact seen_stop_registers slaw r h
      | false => exact seen_start_registers slaw r h
  | addressNack | dataNack | cut _ => exact seen_stop_registers slaw r h

/-- After the head of a transaction the slave listens when it has been called and has answered. -/
theorem seen_call (slarw : BitVec 8) :
    (seen slaw r (h.call slarw).2).registers = (seen slaw r h).registers ∧
      (seen slaw r (h.call slarw).2).listening =
        if slarw = slaw ∧ (h.call slarw).1 = .done true then .pointer else .deaf := by
  -- the address decides who listens
  have haddress : ∀ h₁ : Hardware, (seen slaw r h₁).registers = (seen slaw r h).registers →
      (seen slaw r (h₁.address slarw).2).registers = (seen slaw r h).registers ∧
        (seen slaw r (h₁.address slarw).2).listening =
          if slarw = slaw ∧ (h₁.address slarw).1 = .done true then .pointer else .deaf := by
    intro h₁ hregisters
    unfold Hardware.address
    split
    · rw [seen_next]
      exact ⟨hregisters, by simp [step]⟩
    · rw [seen_next]
      exact ⟨hregisters, by simp [step]⟩
  unfold Hardware.call Hardware.seize
  -- with a START before it or without
  by_cases hidle : h.phase = .idle
  · rw [if_pos hidle]
    unfold Hardware.start
    rw [if_pos hidle]
    cases (h.answers 0).cut with
    | some c =>
        simp only
        rw [seen_next]
        exact ⟨rfl, by simp [step]⟩
    | none =>
        apply haddress _
        rw [seen_next]
        rfl
  · rw [if_neg hidle]
    exact haddress h rfl

/-- The bytes sent are accepted, as far as the slave takes them. -/
theorem seen_sendBytes_registers (bytes : List (BitVec 8)) :
    (seen slaw r (h.sendBytes bytes).2).registers =
      ((bytes.take (Hardware.taken h.answers bytes.length)).foldl accept (seen slaw r h)).registers := by
  induction bytes generalizing h with
  | nil => rfl
  | cons b bytes ih =>
      unfold Hardware.sendBytes Hardware.send
      cases hcut : (h.answers 0).cut with
      | some c =>
          simp [Hardware.taken, hcut, seen_next, step]
      | none =>
          cases hack : (h.answers 0).ack with
          | false => simp [Hardware.taken, hcut, hack, seen_next, step]
          | true =>
              have hrest := ih (h.next h.phase (.sent b true))
              rw [seen_next] at hrest
              simp only [Hardware.taken, hcut, hack, List.length_cons, and_self, if_true,
                List.take_succ_cons, List.foldl_cons]
              exact hrest

/-- No byte that is received changes a register. -/
theorem seen_receiveBytes_registers (n : Nat) :
    (seen slaw r (h.receiveBytes n).2.2).registers = (seen slaw r h).registers := by
  induction n generalizing h with
  | zero => rfl
  | succ n ih =>
      unfold Hardware.receiveBytes Hardware.receive
      cases (h.answers 0).cut with
      | some c =>
          simp only
          rw [seen_next]
          rfl
      | none =>
          simp only
          rw [ih, seen_next]
          rfl

/-- A transmission to the slave writes the bytes that reach it. -/
theorem seen_transmission (bytes : List (BitVec 8)) (sendStop : Bool) :
    (seen slaw r (h.transmission slaw bytes sendStop).2).registers =
      ((bytes.take (h.delivered slaw bytes.length)).foldl accept
        ⟨(seen slaw r h).registers, .pointer⟩).registers := by
  obtain ⟨hregisters, hlistening⟩ := seen_call slaw r h slaw
  unfold Hardware.transmission Hardware.transmit Hardware.delivered
  rcases hcall : h.call slaw with ⟨(_ | _) | c, h'⟩
  · rw [hcall] at hregisters
    simp only [seen_finish_registers, hregisters, List.take_zero, List.foldl_nil]
  · rw [hcall] at hregisters hlistening
    simp only [seen_finish_registers, seen_sendBytes_registers]
    have hseen : seen slaw r h' = ⟨(seen slaw r h).registers, .pointer⟩ := by
      rw [← hregisters, ← show (seen slaw r h').listening = .pointer from hlistening.trans (by simp)]
    rw [hseen]
  · rw [hcall] at hregisters
    simp only [seen_finish_registers, hregisters, List.take_zero, List.foldl_nil]

/-- A transmission to another slave writes nothing. -/
theorem seen_transmission_of_ne {slarw : BitVec 8} (hne : slarw ≠ slaw) (bytes : List (BitVec 8))
    (sendStop : Bool) :
    (seen slaw r (h.transmission slarw bytes sendStop).2).registers = (seen slaw r h).registers := by
  obtain ⟨hregisters, hlistening⟩ := seen_call slaw r h slarw
  rw [if_neg (fun h => hne h.1)] at hlistening
  unfold Hardware.transmission Hardware.transmit
  rcases hcall : h.call slarw with ⟨(_ | _) | c, h'⟩
  · rw [hcall] at hregisters
    simp only [seen_finish_registers, hregisters]
  · rw [hcall] at hregisters hlistening
    simp only [seen_finish_registers, seen_sendBytes_registers, foldl_accept_deaf _ hlistening,
      hregisters]
  · rw [hcall] at hregisters
    simp only [seen_finish_registers, hregisters]

theorem seen_reception (slarw : BitVec 8) (n : Nat) (sendStop : Bool) :
    (seen slaw r (h.reception slarw n sendStop).2.2).registers = (seen slaw r h).registers := by
  obtain ⟨hregisters, -⟩ := seen_call slaw r h slarw
  unfold Hardware.reception Hardware.fetch
  rcases hcall : h.call slarw with ⟨(_ | _) | c, h'⟩
  · rw [hcall] at hregisters
    simp only [seen_finish_registers, hregisters]
  · rw [hcall] at hregisters
    simp only [seen_finish_registers, seen_receiveBytes_registers, hregisters]
  · rw [hcall] at hregisters
    simp only [seen_finish_registers, hregisters]

/-- A register is selected, and nothing is written. -/
theorem seen_select (addr : BitVec 8) (sendStop : Bool) :
    (seen slaw r (h.transmission slaw [addr] sendStop).2).registers = (seen slaw r h).registers := by
  rw [seen_transmission]
  rcases h.delivered slaw [addr].length with _ | _ | n <;> rfl

/-- A register is written, when both bytes reach the slave. -/
theorem seen_write (addr v : BitVec 8) (sendStop : Bool) :
    (seen slaw r (h.transmission slaw [addr, v] sendStop).2).registers =
      if h.delivered slaw 2 < 2 then (seen slaw r h).registers
      else Function.update (seen slaw r h).registers addr v := by
  rw [seen_transmission, List.length_cons, List.length_singleton]
  rcases h.delivered slaw 2 with _ | _ | n
  · rfl
  · rfl
  · rw [if_neg (by omega), List.take_of_length_le (by simp)]
    rfl

end RegisterSlave

end SmartblocksOs.Foundation.TwoWire
