/-
# SmartblocksOs.Board.BusTraces -- what the controller leaves on the bus

Any sequence of calls of `CTWController` is a sequence of transactions on the bus, one for each
`EndTransmission` and each `Read(address, n)`, with the slave and the stop flag of the call
(`transfers`). Its trace is well formed, and between the calls the controller is ready and knows whether
it has kept the bus (`trace_wellFormed`).

A function call leaves between nothing and one transaction on the bus. Queueing and reading leave nothing;
`EndTransmission` and `Read(address, n)` leave one each, also where it was cut short. The run lemma puts
these one behind the other, with the repeated START where the call before has kept the bus.
-/
import SmartblocksOs.Board.Operations
import SmartblocksOs.Board.TwCalls

namespace SmartblocksOs.Board

open SmartblocksOs.Foundation SmartblocksOs.System SmartblocksOs.Foundation.TwoWire

/-! ## Calls -/

/-- A call of `CTWController`. -/
inductive TwCall where
  | beginTransmission (address : Byte)
  | write (data : Byte)
  | endTransmission (sendStop : Bool)
  | readFrom (address length : Byte) (sendStop : Bool)
  | read
  deriving DecidableEq, Repr

namespace TwCall

/-- The method that the call is a call of; what it returns is not looked at. -/
def code : TwCall → Code Unit
  | beginTransmission address => CTWController.beginTransmission address
  | write data => do
      let _ ← CTWController.writeByte data
      pure ()
  | endTransmission sendStop => do
      let _ ← CTWController.endTransmission sendStop
      pure ()
  | readFrom address length sendStop => do
      let _ ← CTWController.readFrom address length sendStop
      pure ()
  | read => do
      let _ ← CTWController.readByte
      pure ()

/-- At least one byte is asked for. -/
def Asks : TwCall → Prop
  | readFrom _ length _ => length ≠ 0
  | _ => True

/-- `m_unTxAddress` after the call. -/
def address (txAddress : Byte) : TwCall → Byte
  | beginTransmission address => address
  | _ => txAddress

/-- The transaction that the call is to make: the address with the direction, and the stop flag. -/
def transfer (txAddress : Byte) : TwCall → Option (Byte × Bool)
  | endTransmission sendStop => some (twWrite ||| txAddress <<< 1, sendStop)
  | readFrom address _ sendStop => some (twRead ||| address <<< 1, sendStop)
  | _ => none

end TwCall

/-- The transactions that the calls are to make. -/
def transfers (txAddress : Byte) : List TwCall → List (Byte × Bool)
  | [] => []
  | c :: calls => (c.transfer txAddress).toList ++ transfers (c.address txAddress) calls

/-! ## What is so between the calls -/

open CTWController

/-- The controller between two calls. -/
structure BetweenCalls (held : Bool) (txAddress : Byte) (m : TwMachine) : Prop where
  ready : Ready held m
  queue : ∃ q, Queue m.vars q
  unread : ∃ bytes, Unread m.vars bytes
  address : m.vars .txAddress = txAddress

/-- A call makes its transaction, if it is to make one, and leaves the controller between two calls. -/
theorem TwCall.code_total {held : Bool} {txAddress : Byte} {m : TwMachine} {c : TwCall}
    (hm : BetweenCalls held txAddress m) (hc : c.Asks) :
    Returns c.code m fun _ m' => ∃ trace held',
      m'.device.trace = m.device.trace ++ trace ∧
      Transactions held (c.transfer txAddress).toList trace held' ∧
      BetweenCalls held' (c.address txAddress) m' := by
  obtain ⟨q, hq⟩ := hm.queue
  obtain ⟨bytes, hu⟩ := hm.unread
  cases c with
  | beginTransmission address =>
      apply (beginTransmission_total address).mono
      intro _ m' h
      refine ⟨[], held, by rw [h.device, List.append_nil], .nil held, h.ready hm.ready, ⟨_, h.queue⟩,
        ⟨bytes, hu.congr (h.vars _ rfl) (h.vars _ rfl) fun _ => h.vars _ rfl⟩, h.address⟩
  | write data =>
      refine Total.seq (writeByte_total data hq) fun r m' h => Total.pure_iff.mpr ?_
      split at h
      -- there was room for the byte
      · obtain ⟨-, h⟩ := h
        refine ⟨[], held, by rw [h.device, List.append_nil], .nil held, h.ready hm.ready, ⟨_, h.queue⟩,
          ⟨bytes, hu.congr (h.vars _ rfl) (h.vars _ rfl) fun _ => h.vars _ rfl⟩, ?_⟩
        exact h.address.trans hm.address
      -- the buffer was full, and the call has done nothing
      · obtain ⟨-, rfl⟩ := h
        exact ⟨[], held, (List.append_nil _).symm, .nil held, hm⟩
  | endTransmission sendStop =>
      refine Total.seq (endTransmission_total sendStop hm.ready hq) fun code m' h => Total.pure_iff.mpr ?_
      -- one transmission, as long as the slave has let it be
      obtain ⟨events, htrace, htransaction, -⟩ := Hardware.transmission_traced hm.ready.bus
        (twWrite ||| m.vars .txAddress <<< 1) q sendStop
      rw [hm.address] at h htrace htransaction
      refine ⟨events, _, by rw [h.device, htrace], ?_, h.ready, ⟨_, h.queue⟩,
        ⟨bytes, hu.congr (h.vars _ rfl) (h.vars _ rfl) fun _ => h.vars _ rfl⟩, ?_⟩
      · rw [← List.append_nil events]
        exact .cons htransaction (.nil _)
      · exact (h.vars _ rfl).trans hm.address
  | readFrom address length sendStop =>
      apply Total.seq (readFrom_total address sendStop hm.ready hc)
      rintro received m' ⟨bytes', ending, h', hreception, h⟩
      apply Total.pure_iff.mpr
      -- one reception
      obtain ⟨events, htrace, htransaction, -⟩ := Hardware.reception_traced hm.ready.bus
        (twRead ||| address <<< 1) (min length.toNat 64) sendStop
      rw [hreception] at htrace htransaction
      refine ⟨events, _, by rw [h.device, htrace], ?_, h.ready,
        ⟨q, hq.congr (h.vars _ rfl) (h.vars _ rfl) fun _ => h.vars _ rfl⟩, ⟨_, h.unread⟩, ?_⟩
      · rw [← List.append_nil events]
        exact .cons htransaction (.nil _)
      · exact (h.vars _ rfl).trans hm.address
  | read =>
      apply Total.seq (readByte_total hu)
      rintro r m' ⟨-, hu', hvars, hdevice, -⟩
      refine Total.pure_iff.mpr ⟨[], held, by rw [hdevice, List.append_nil], .nil held, ?_, ⟨q, ?_⟩,
        ⟨_, hu'⟩, ?_⟩
      · exact hm.ready.congr (hvars _ (by simp)) (hvars _ (by simp)) hdevice
      · exact hq.congr (hvars _ (by simp)) (hvars _ (by simp)) fun _ => hvars _ (by simp)
      · exact (hvars _ (by simp)).trans hm.address

theorem calls_total {held : Bool} {txAddress : Byte} {m : TwMachine} {calls : List TwCall}
    (hm : BetweenCalls held txAddress m) (hcalls : ∀ c ∈ calls, c.Asks) :
    Returns (calls.forM TwCall.code) m fun _ m' => ∃ trace held' txAddress',
      m'.device.trace = m.device.trace ++ trace ∧
      Transactions held (transfers txAddress calls) trace held' ∧
      BetweenCalls held' txAddress' m' := by
  induction calls generalizing held txAddress m with
  | nil =>
      exact Total.pure_iff.mpr ⟨[], held, txAddress, (List.append_nil _).symm, .nil held, hm⟩
  | cons c calls ih =>
      obtain ⟨hc, hcalls⟩ := List.forall_mem_cons.mp hcalls
      apply Total.seq (f := fun _ => calls.forM TwCall.code) (TwCall.code_total hm hc)
      rintro - m₁ ⟨trace₁, held₁, htrace₁, htransactions₁, hm₁⟩
      apply (ih hm₁ hcalls).mono
      rintro - m₂ ⟨trace₂, held₂, txAddress₂, htrace₂, htransactions₂, hm₂⟩
      refine ⟨trace₁ ++ trace₂, held₂, txAddress₂, ?_, htransactions₁.append htransactions₂, hm₂⟩
      rw [htrace₂, htrace₁, List.append_assoc]

/-- From its construction on, whatever is called and however the slaves answer, the controller leaves
a well-formed trace on the bus, with the transactions that were called for. After the calls it is ready,
and it takes the bus to be held exactly when the last thing on it was a repeated START. -/
theorem trace_wellFormed {m : TwMachine} (hbus : m.device.phase = .idle) (htrace : m.device.trace = [])
    (calls : List TwCall) (hcalls : ∀ c ∈ calls, c.Asks) :
    Returns (construct >>= fun _ => calls.forM TwCall.code) m fun _ m' =>
      Transactions false (transfers 0 calls) m'.device.trace (m'.vars .inRepStart) ∧
      m'.vars .state = twStateReady ∧
      (m'.vars .inRepStart = true ↔ m'.device.trace.getLast? = some .repStart) := by
  apply Total.seq (construct_total hbus)
  rintro - m₁ ⟨hready, hqueue, haddress, hunread, hdevice, -⟩
  apply (calls_total ⟨hready, ⟨_, hqueue⟩, ⟨_, hunread⟩, haddress⟩ hcalls).mono
  rintro - m₂ ⟨trace, held, txAddress, htrace₂, htransactions, hm₂⟩
  rw [hdevice, htrace, List.nil_append] at htrace₂
  have hheld := hm₂.ready.inRepStart
  rw [htrace₂, hheld]
  refine ⟨htransactions, hm₂.ready.state, ?_⟩
  rw [htransactions.held_iff]
  simp

/-- A read that keeps the bus, and then a write to another slave, which refuses it. -/
theorem trace_wellFormed_read_write : ∃ m : TwMachine, m.device.phase = .idle ∧ m.device.trace = [] ∧
    Returns (construct >>= fun _ => [TwCall.readFrom 0x20 1 false, .beginTransmission 0x18, .write 5,
        .endTransmission true].forM TwCall.code) m fun _ m' =>
      Transactions false [(0x41, false), (0x30, true)] m'.device.trace (m'.vars .inRepStart) ∧
      m'.vars .state = twStateReady ∧
      (m'.vars .inRepStart = true ↔ m'.device.trace.getLast? = some .repStart) := by
  let answers : Nat → Answer := fun i => ⟨none, i < 3, 7⟩
  refine ⟨⟨atRest, ⟨.idle, answers, []⟩, []⟩, rfl, rfl, ?_⟩
  exact trace_wellFormed rfl rfl _ (by simp [TwCall.Asks])

end SmartblocksOs.Board
