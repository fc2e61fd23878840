/-
# SmartblocksOs.Board.TwTransmissions -- a transmission from `BeginTransmission` on

However many bytes are handed to `Write`, the first `TW_BUFFER_LENGTH` of them are queued, and
`EndTransmission` sends these and no others (`transmission_total`). What it returns tells how that went
(`transmission_reported`).
-/
import SmartblocksOs.Foundation.Transmissions
import SmartblocksOs.Board.Operations
import SmartblocksOs.Board.TwSections

namespace SmartblocksOs.Board

open SmartblocksOs.Foundation SmartblocksOs.System SmartblocksOs.Foundation.TwoWire

namespace CTWController

/-- `Write` for one byte after the other, and what it returns. -/
def writeAll : List Byte → Code (List Byte)
  | [] => pure []
  | b :: bytes => do
      let r ← writeByte b
      let rs ← writeAll bytes
      pure (r :: rs)

/-- A transmission: what `Write` returns, and what `EndTransmission` does. -/
def transmission (address : Byte) (bytes : List Byte) (sendStop : Bool) : Code (List Byte × Byte) := do
  beginTransmission address
  let accepted ← writeAll bytes
  let code ← endTransmission sendStop
  pure (accepted, code)

section

variable {held : Bool} {h : Hardware} {l : List Traffic} {m m' : TwMachine} {address : Byte}
  {q : List Byte}

/-- `Write`, with what it returns. -/
theorem write_answered (b : Byte) (hm : Queueing address (q.take 64) held h l m m') :
    Returns (writeByte b) m' fun r m'' => r = (if q.length < 64 then 1 else 0) ∧
      Queueing address ((q ++ [b]).take 64) held h l m m'' := by
  have hanswer : Returns (writeByte b) m' fun r _ => r = if q.length < 64 then 1 else 0 := by
    apply (writeByte_total b hm.queue).mono
    intro r m'' hr
    by_cases hroom : q.length < 64
    · rw [if_pos (by simp; omega)] at hr
      rw [if_pos hroom]
      exact hr.1
    · rw [if_neg (by simp; omega)] at hr
      rw [if_neg hroom]
      exact hr.1
  exact hanswer.and (write_take b hm)

/-- The first 64 bytes are taken, the others are not. -/
theorem writeAll_total (bytes : List Byte) (hm : Queueing address (q.take 64) held h l m m') :
    Returns (writeAll bytes) m' fun rs m'' =>
      rs = (List.range' q.length bytes.length).map (fun i => if i < 64 then 1 else 0) ∧
      Queueing address ((q ++ bytes).take 64) held h l m m'' := by
  induction bytes generalizing q m' with
  | nil => exact Total.pure_iff.mpr ⟨rfl, by simpa using hm⟩
  | cons b bytes ih =>
      apply Total.seq (write_answered b hm)
      rintro _ m₁ ⟨rfl, h₁⟩
      apply Total.seq (ih h₁)
      rintro _ m₂ ⟨rfl, h₂⟩
      refine Total.pure_iff.mpr ⟨?_, by simpa using h₂⟩
      simp [List.range'_succ]

end

/-- What a transmission does: `EndTransmission` sends the bytes that `Write` has taken. -/
theorem transmission_total {held : Bool} {m : TwMachine} (address : Byte) (bytes : List Byte)
    (sendStop : Bool) (hready : Ready held m) :
    Returns (transmission address bytes sendStop) m fun r m' =>
      r.1 = (List.range bytes.length).map (fun i => if i < 64 then 1 else 0) ∧
      r.2 = resultCode (m.device.transmission (slaw address) (bytes.take 64) sendStop).1 ∧
      m'.device = (m.device.transmission (slaw address) (bytes.take 64) sendStop).2 ∧
      Queue m'.vars [] ∧ m'.vars .state = twStateReady := by
  apply Total.seq (begin_worked address (Worked.refl hready))
  intro _ m₁ h₁
  apply Total.seq (writeAll_total (q := []) bytes h₁)
  rintro accepted m₂ ⟨haccepted, h₂⟩
  apply Total.seq (endTransmission_total sendStop h₂.ready h₂.queue)
  intro code m₃ h₃
  rw [List.nil_append, h₂.address] at h₃
  have hcode := h₃.code
  have hdevice := h₃.device
  rw [h₂.device] at hcode hdevice
  rw [List.range_eq_range']
  exact Total.pure_iff.mpr ⟨haccepted, hcode, hdevice, h₃.queue, h₃.ready.state⟩

/-- A transmission of `accepted`, with what it returns and what there has been on the bus. -/
structure Reported (address : Byte) (accepted : List Byte) (code : Byte) (events : List BusEvent) :
    Prop where
  sent : (∃ pre, pre <+: accepted ∧ sentOnBus events = slaw address :: pre) ∨
    sentOnBus events = [] ∧ ∃ c, .cut c ∈ events
  zero : code = 0 ↔ ackedOnBus events = slaw address :: accepted
  two : code = 2 ↔ .address (slaw address) false ∈ events
  three : code = 3 ↔ ∃ b, .sent b false ∈ events
  four : code = 0 ∨ code = 2 ∨ code = 3 ∨ code = 4

/-- The result tells how the transmission has ended. -/
theorem resultCode_reported {address : Byte} {accepted : List Byte} {ending : Ending}
    {events : List BusEvent} (h : Told (slaw address) accepted ending events) :
    Reported address accepted (resultCode ending) events := by
  refine ⟨h.sent, Iff.trans ?_ h.done, Iff.trans ?_ h.addressNack, Iff.trans ?_ h.dataNack, ?_⟩ <;>
    cases ending <;> simp [resultCode]

/-- **What a transmission does and reports.** `Write` takes the first `TW_BUFFER_LENGTH` bytes; the address
and a prefix of them go over the bus, unless the transaction is cut off before the address is through; and
the result is as what has been acknowledged. Afterwards the controller is at rest with an empty queue. -/
theorem transmission_reported {held : Bool} {m : TwMachine} (address : Byte) (bytes : List Byte)
    (sendStop : Bool) (hready : Ready held m) :
    Returns (transmission address bytes sendStop) m fun r m' =>
      r.1 = (List.range bytes.length).map (fun i => if i < twBufferLength then 1 else 0) ∧
      (∃ events, m'.device.trace = m.device.trace ++ events ∧
        Reported address (bytes.take twBufferLength) r.2 events) ∧
      Queue m'.vars [] ∧ m'.vars .state = twStateReady := by
  apply (transmission_total address bytes sendStop hready).mono
  rintro ⟨rs, code⟩ m' ⟨hrs, rfl, hdevice, hqueue, hstate⟩
  obtain ⟨events, htrace, htold⟩ :=
    m.device.transmission_told hready.bus (slaw address) (bytes.take 64) sendStop
  exact ⟨hrs, ⟨events, by rw [hdevice, htrace], resultCode_reported htold⟩, hqueue, hstate⟩

/-- A slave that takes one byte and refuses the next. -/
def choosy : TwMachine := ⟨atRest, ⟨.idle, fun i => ⟨none, i < 3, 0⟩, []⟩, []⟩

/-- Its bus is at rest. -/
theorem choosy_ready : Ready false choosy := ⟨rfl, rfl, rfl⟩

/-- Three bytes for it. -/
theorem transmission_reported_choosy :
    Returns (transmission 0x20 [1, 2, 3] true) choosy fun r m' =>
      r.1 = (List.range 3).map (fun i => if i < twBufferLength then 1 else 0) ∧
      (∃ events, m'.device.trace = choosy.device.trace ++ events ∧
        Reported 0x20 ([1, 2, 3].take twBufferLength) r.2 events) ∧
      Queue m'.vars [] ∧ m'.vars .state = twStateReady :=
  transmission_reported 0x20 [1, 2, 3] true choosy_ready

/-- With a bus error in place of the START not even the address gets onto the bus. -/
theorem transmission_not_called :
    ¬ ∀ (held : Bool) (m : TwMachine) (address : Byte) (bytes : List Byte) (sendStop : Bool),
      Ready held m → Returns (transmission address bytes sendStop) m fun _ m' =>
        ∃ events, m'.device.trace = m.device.trace ++ events ∧
          ∃ pre, pre <+: bytes.take twBufferLength ∧ sentOnBus events = slaw address :: pre := by
  intro hall
  let broken : TwMachine := ⟨atRest, ⟨.idle, fun _ => ⟨some .busError, true, 0⟩, []⟩, []⟩
  have hready : Ready false broken := ⟨rfl, rfl, rfl⟩
  obtain ⟨_, m', ⟨⟨events, htrace, pre, -, hsent⟩, -, -, hdevice, -⟩, -⟩ :=
    ((hall false broken 0x20 [1] true hready).and
      (transmission_total 0x20 [1] true hready)).exists_iff
  have hevents : events = [.cut .busError] := by
    rw [hdevice] at htrace
    exact htrace.symm
  rw [hevents] at hsent
  exact List.cons_ne_nil _ _ hsent.symm

end CTWController

end SmartblocksOs.Board
