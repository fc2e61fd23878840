/-
# SmartblocksOs.Board.TwMachine -- `CTWController` with its hardware

The methods of `CTWController` and the TWI handler, run next to the bus hardware of
`SmartblocksOs.Foundation.TwoWire`. The hardware acts when the code clears `TWINT` by a store to `TWCR`; it
is through with that, and has put its status into `TWSR`, before the next instruction.

Here are the steps of the handler that both directions have in common: the START and the address, and the
ends of a transaction.

A store to `TWCR` is the one access that has an effect outside the memory: `twiReact` gives the command to
the bus hardware and leaves the status it reports in `TWSR`. The lemmas on `store` below say which command
each of the values means that the code stores there, and the rest of the development never looks at the
bits again.
-/
import SmartblocksOs.Foundation.Execution
import SmartblocksOs.Foundation.TwoWire
import SmartblocksOs.Board.Footprints

namespace SmartblocksOs.Board

open SmartblocksOs.Foundation SmartblocksOs.System SmartblocksOs.Foundation.TwoWire

/-! ## The registers of the hardware

Status codes go into `TWSR` with the prescaler bits beside them, which the handler masks. A report of the
bus hardware determines the code together with what was being done. -/

/-- The status code of a report, which is `ack` or `nack` when it is not the end of the transaction. -/
def statusCode (ack nack : Byte) : Report → Byte
  | .done true => ack
  | .done false => nack
  | .cut .arbLost => 0x38
  | .cut .busError => 0x00

/-- What the hardware does when `TWCR` has been stored. -/
def twiReact : Reaction Val Hardware
  | .twcr, (s, h) =>
      let twcr : Byte := s .twcr
      if twcr &&& twint = 0 then (s, h)
      else if twcr &&& twsto ≠ 0 then (Function.update s .twcr (twcr &&& ~~~twsto), h.stop)
      else if twcr &&& twsta ≠ 0 then
        let (r, h') := h.start
        (Function.update s .twsr (statusCode (if h.phase = .idle then 0x08 else 0x10) 0 r), h')
      else
        match h.phase with
        | .idle => (s, h)
        | .started =>
            let (r, h') := h.address (s .twdr)
            let read := (s .twdr).getLsbD 0
            (Function.update s .twsr
              (statusCode (if read then 0x40 else 0x18) (if read then 0x48 else 0x20) r), h')
        | .transmitting =>
            let (r, h') := h.send (s .twdr)
            (Function.update s .twsr (statusCode 0x28 0x30 r), h')
        | .receiving =>
            let (b, r, h') := h.receive (twcr &&& twea ≠ 0)
            (Function.update (Function.update s .twdr b) .twsr (statusCode 0x50 0x58 r), h')
  | _, st => st

/-- The machine the controller runs on. -/
abbrev TwMachine := Machine Val Event Hardware

/-- `p` returns on the machine `m`, and then `Q` holds. -/
abbrev Returns {α : Type} (p : Code α) (m : TwMachine) (Q : α → TwMachine → Prop) : Prop :=
  Total twiReact p m Q

section

variable (m : TwMachine)

/-- A store to any other variable is a store to the memory. -/
theorem store_of_ne {x : Var} (hx : x ≠ .twcr) (v : Val x) : m.store twiReact x v = m.set x v := by
  refine Machine.store_eq_set (fun s => ?_) m v
  unfold twiReact
  split
  · exact absurd rfl hx
  · rfl

/-- With `TWSTO` the hardware sends a STOP, and clears the bit. -/
theorem store_stop :
    m.store twiReact .twcr (twen ||| twie ||| twea ||| twint ||| twsto) =
      { m.set .twcr (twen ||| twie ||| twea ||| twint) with device := m.device.stop } := by
  simp only [Machine.store, Machine.set, twiReact, Function.update_self, Function.update_idem]
  rfl

/-- The machine once a START has been sent, to which `TWCR` has been set to `v`. -/
def started (v : Byte) : TwMachine :=
  { (m.set .twcr v).set .twsr
      (statusCode (if m.device.phase = .idle then 0x08 else 0x10) 0 m.device.start.1) with
    device := m.device.start.2 }

/-- With `TWSTA` it sends a START. -/
theorem store_start {v : Byte} (hint : v &&& twint ≠ 0) (hsto : v &&& twsto = 0)
    (hsta : v &&& twsta ≠ 0) : m.store twiReact .twcr v = started m v := by
  simp only [Machine.store, Machine.set, started, twiReact, Function.update_self, if_neg hint, hsto,
    ne_eq, not_true_eq_false, if_false, hsta, not_false_eq_true, if_true]

/-- The registers are no variables of the controller. -/
theorem ne_of_guard {x y : Var} (hx : guard x = some .tw) (hy : guard y = none) : x ≠ y := by
  rintro rfl
  rw [hx] at hy
  exact Option.some_ne_none _ hy

/-- The variables of the controller are not touched by the hardware. -/
theorem started_vars (v : Byte) {x : Var} (hx : guard x = some .tw) :
    (started m v).vars x = m.vars x := by
  simp only [started]
  rw [Machine.set_vars_of_ne _ (ne_of_guard hx rfl), Machine.set_vars_of_ne _ (ne_of_guard hx rfl)]

/-- With neither it goes on. -/
structure GoesOn (v : Byte) : Prop where
  int : v &&& twint ≠ 0
  sto : v &&& twsto = 0
  sta : v &&& twsta = 0

/-- With a START on the bus, what `TWDR` holds is sent as the address. -/
theorem store_address {v : Byte} (hv : GoesOn v) (hphase : m.device.phase = .started) :
    m.store twiReact .twcr v =
      { (m.set .twcr v).set .twsr
          (statusCode (if (m.vars .twdr).getLsbD 0 then 0x40 else 0x18)
            (if (m.vars .twdr).getLsbD 0 then 0x48 else 0x20) (m.device.address (m.vars .twdr)).1) with
        device := (m.device.address (m.vars .twdr)).2 } := by
  have htwdr : Function.update m.vars .twcr v .twdr = m.vars .twdr := Function.update_of_ne (by simp) ..
  simp only [Machine.store, Machine.set, twiReact, Function.update_self, if_neg hv.int, hv.sto, ne_eq,
    not_true_eq_false, if_false, hv.sta, hphase, htwdr]

/-- With a slave that listens, what `TWDR` holds is sent as the next byte. -/
theorem store_send {v : Byte} (hv : GoesOn v) (hphase : m.device.phase = .transmitting) :
    m.store twiReact .twcr v =
      { (m.set .twcr v).set .twsr (statusCode 0x28 0x30 (m.device.send (m.vars .twdr)).1) with
        device := (m.device.send (m.vars .twdr)).2 } := by
  have htwdr : Function.update m.vars .twcr v .twdr = m.vars .twdr := Function.update_of_ne (by simp) ..
  simp only [Machine.store, Machine.set, twiReact, Function.update_self, if_neg hv.int, hv.sto, ne_eq,
    not_true_eq_false, if_false, hv.sta, hphase, htwdr]

/-- From a slave that sends, the next byte comes to `TWDR`, acknowledged if `TWEA` is set. -/
theorem store_receive {v : Byte} (hv : GoesOn v) (hphase : m.device.phase = .receiving) :
    m.store twiReact .twcr v =
      { ((m.set .twcr v).set .twdr (m.device.receive (v &&& twea ≠ 0)).1).set .twsr
          (statusCode 0x50 0x58 (m.device.receive (v &&& twea ≠ 0)).2.1) with
        device := (m.device.receive (v &&& twea ≠ 0)).2.2 } := by
  simp only [Machine.store, Machine.set, twiReact, Function.update_self, if_neg hv.int, hv.sto, ne_eq,
    not_true_eq_false, if_false, hv.sta, hphase]

/-- A bus that is not held stays as it is. -/
theorem store_idle {v : Byte} (hv : GoesOn v) (hphase : m.device.phase = .idle) :
    m.store twiReact .twcr v = m.set .twcr v := by
  simp only [Machine.store, Machine.set, twiReact, Function.update_self, if_neg hv.int, hv.sto, ne_eq,
    not_true_eq_false, if_false, hv.sta, hphase]

end

/-! ## The handler

One equation for each status: what the machine is after the handler has run. -/

namespace CTWController

/-- The machine after the handler has sent a STOP. -/
def stopped (m : TwMachine) : TwMachine :=
  ({ m.set .twcr (twen ||| twie ||| twea ||| twint) with device := m.device.stop } : TwMachine).set
    .state twStateReady

/-- The machine after the handler has asked for a repeated START. -/
def busKept (m : TwMachine) : TwMachine :=
  (started (m.set .inRepStart true) (twint ||| twsta ||| twen)).set .state twStateReady

/-- The machine after arbitration has been lost. -/
def released (m : TwMachine) : TwMachine :=
  (m.set .twcr (twen ||| twie ||| twea ||| twint)).set .state twStateReady

section

variable (m : TwMachine)

/-- After the STOP the controller is ready. -/
@[simp] theorem stopped_state : (stopped m).vars .state = twStateReady := Machine.set_vars_self ..

/-- The STOP is what the bus sees. -/
@[simp] theorem stopped_device : (stopped m).device = m.device.stop := rfl

theorem stopped_vars {x : Var} (hx : guard x = some .tw) (hne : x ≠ .state) :
    (stopped m).vars x = m.vars x :=
  (Machine.set_vars_of_ne _ hne _).trans (Machine.set_vars_of_ne m (ne_of_guard hx rfl) _)

@[simp] theorem busKept_state : (busKept m).vars .state = twStateReady := Machine.set_vars_self ..

@[simp] theorem busKept_device : (busKept m).device = m.device.start.2 := rfl

@[simp] theorem busKept_inRepStart : (busKept m).vars .inRepStart = true :=
  ((Machine.set_vars_of_ne _ (by simp) _).trans (started_vars _ _ rfl)).trans (Machine.set_vars_self ..)

/-- A START sent ahead changes `unState` and `bInRepStart` alone. -/
theorem busKept_vars {x : Var} (hx : guard x = some .tw) (hne : x ≠ .state) (hrep : x ≠ .inRepStart) :
    (busKept m).vars x = m.vars x :=
  ((Machine.set_vars_of_ne _ hne _).trans (started_vars _ _ hx)).trans (Machine.set_vars_of_ne m hrep _)

@[simp] theorem released_state : (released m).vars .state = twStateReady := Machine.set_vars_self ..

@[simp] theorem released_device : (released m).device = m.device := rfl

/-- A bus that is given up changes `unState` alone. -/
theorem released_vars {x : Var} (hx : guard x = some .tw) (hne : x ≠ .state) :
    (released m).vars x = m.vars x :=
  (Machine.set_vars_of_ne _ hne _).trans (Machine.set_vars_of_ne m (ne_of_guard hx rfl) _)

end

section

variable {m : TwMachine} {Q : Unit → TwMachine → Prop}

/-- The STOP is on the bus at once in the model: the loop in `Stop()` ends at its first turn. -/
theorem stop_total (h : Q () (stopped m)) : Returns stop m Q := by
  unfold stop
  simp only [Total.bind_iff, Total.write_iff, store_stop]
  apply Total.repeatWhile
  simp only [Total.bind_iff, Total.read_iff, Total.pure_iff, Machine.set_vars_self]
  rw [store_of_ne _ (x := .state) (by simp)]
  exact h

/-- `bInRepStart = true`, the START, and the state. -/
theorem keepBus_total (h : Q () (busKept m)) : Returns keepBus m Q := by
  unfold keepBus
  simp only [Total.bind_iff, Total.write_iff, store_of_ne m (x := .inRepStart) (by simp)]
  rw [store_start _ (by decide) (by decide) (by decide), store_of_ne _ (x := .state) (by simp)]
  exact h

/-- The end of a transaction that has got through. -/
theorem stopOrKeepBus_total
    (h : Q () (if m.vars .sendStop then stopped m else busKept m)) : Returns stopOrKeepBus m Q := by
  unfold stopOrKeepBus
  simp only [Total.bind_iff, Total.read_iff]
  split
  · rename_i hstop
    rw [if_pos hstop] at h
    exact stop_total h
  · rename_i hstop
    rw [if_neg hstop] at h
    exact keepBus_total h

/-- What the handler does after a status that ends the transaction. -/
theorem twiVect_failed {e : Byte} {status : TwStatus} (hstatus : twStatus (m.vars .twsr) = status)
    (he : status = .mtSlaNack ∧ e = 0x20 ∨ status = .mtDataNack ∧ e = 0x30 ∨
      status = .busError ∧ e = 0x00)
    (h : Q () (stopped (m.set .error e))) : Returns twiVect m Q := by
  unfold twiVect
  simp only [Total.bind_iff, Total.read_iff, hstatus]
  rcases he with ⟨rfl, rfl⟩ | ⟨rfl, rfl⟩ | ⟨rfl, rfl⟩ <;>
    simp only [Total.bind_iff, Total.write_iff, store_of_ne m (x := .error) (by simp)] <;>
    exact stop_total h

/-- Lost arbitration is noted as the error 0x38, and the bus is given up. -/
theorem twiVect_arbLost (hstatus : twStatus (m.vars .twsr) = .arbLost) (hphase : m.device.phase = .idle)
    (h : Q () (released (m.set .error 0x38))) : Returns twiVect m Q := by
  unfold twiVect
  have hidle := store_idle (m.set .error 0x38) (v := twen ||| twie ||| twea ||| twint)
    ⟨by decide, by decide, by decide⟩ hphase
  simp only [Total.bind_iff, Total.read_iff, hstatus, Total.write_iff,
    store_of_ne m (x := .error) (by simp), hidle]
  rw [store_of_ne _ (x := .state) (by simp)]
  exact h

/-- A slave that does not answer to a read ends the transaction with a STOP. -/
theorem twiVect_mrSlaNack (hstatus : twStatus (m.vars .twsr) = .mrSlaNack) (h : Q () (stopped m)) :
    Returns twiVect m Q := by
  unfold twiVect
  simp only [Total.bind_iff, Total.read_iff, hstatus]
  exact stop_total h

/-! ## The wait for the transaction

The loop around the handler, unrolled by one round or left. -/

/-- A transaction that is over is not waited for. -/
theorem await_over {busy : Byte} (hover : m.vars .state ≠ busy) (h : Q () m) :
    Returns (awaitTransaction busy) m Q := by
  apply Total.repeatWhile
  simp only [Total.bind_iff, Total.read_iff, if_neg hover, Total.pure_iff]
  exact h

theorem await_round {busy : Byte} (hbusy : m.vars .state = busy)
    (h : ∀ log, Returns twiVect { m with log := log } fun _ m' => Returns (awaitTransaction busy) m' Q) :
    Returns (awaitTransaction busy) m Q := by
  apply Total.repeatWhile
  simp only [Total.bind_iff, Total.read_iff, if_pos hbusy, Total.note_iff, Total.pure_iff]
  exact h _

end

/-! ## The end of a transaction that has failed

Refused or cut off, the transaction is over in the same round, with the error that tells which. -/

/-- `unError` after a transmission that has ended so. -/
def errorCode : Ending → Byte
  | .done => twBusNoError
  | .addressNack => 0x20
  | .dataNack => 0x30
  | .cut .arbLost => 0x38
  | .cut .busError => 0x00

/-- The status that tells the handler of an end that is not a success. -/
def failedStatus : Ending → TwStatus
  | .done => .mtDataAck
  | .addressNack => .mtSlaNack
  | .dataNack => .mtDataNack
  | .cut .arbLost => .arbLost
  | .cut .busError => .busError

/-- A status that reports a cut is one of the two for it. -/
theorem twStatus_cut {ack nack : Byte} (c : Cut) :
    twStatus (statusCode ack nack (.cut c)) = failedStatus (.cut c) := by
  cases c with
  | arbLost => exact (show twStatus 0x38 = _ by decide)
  | busError => exact (show twStatus 0x00 = _ by decide)

/-- After such a status the handler ends the transaction, and changes nothing else. -/
theorem await_failed {m : TwMachine} {Q : Unit → TwMachine → Prop} {busy : Byte} {ending : Ending}
    (sendStop : Bool) (hdone : ending ≠ .done) (hbusy : twStateReady ≠ busy)
    (hstate : m.vars .state = busy) (hstatus : twStatus (m.vars .twsr) = failedStatus ending)
    (hphase : ∀ c, ending = .cut c → m.device.phase = .idle)
    (h : ∀ m' : TwMachine, m'.vars .state = twStateReady → m'.vars .error = errorCode ending →
      m'.device = m.device.finish sendStop ending →
      (∀ x, guard x = some .tw → x ≠ .state → x ≠ .error → m'.vars x = m.vars x) → Q () m') :
    Returns (awaitTransaction busy) m Q := by
  -- three of the four ways to fail store their error and send a STOP
  have hfailed : ∀ e, errorCode ending = e → (failedStatus ending = .mtSlaNack ∧ e = 0x20 ∨
      failedStatus ending = .mtDataNack ∧ e = 0x30 ∨ failedStatus ending = .busError ∧ e = 0x00) →
      m.device.finish sendStop ending = m.device.stop → Returns (awaitTransaction busy) m Q := by
    intro e he hcase hfinish
    refine await_round hstate fun log => twiVect_failed hstatus hcase (await_over ?_ (h _ ?_ ?_ ?_ ?_))
    · rw [stopped_state]
      exact hbusy
    · exact stopped_state _
    · rw [stopped_vars _ rfl (by simp), Machine.set_vars_self, he]
    · exact hfinish.symm
    · intro x hx hne herror
      rw [stopped_vars _ hx hne, Machine.set_vars_of_ne _ herror]
  cases ending with
  | done => exact absurd rfl hdone
  | addressNack => exact hfailed 0x20 rfl (Or.inl ⟨rfl, rfl⟩) rfl
  | dataNack => exact hfailed 0x30 rfl (Or.inr (Or.inl ⟨rfl, rfl⟩)) rfl
  | cut c =>
      cases c with
      | busError => exact hfailed 0x00 rfl (Or.inr (Or.inr ⟨rfl, rfl⟩)) rfl
      -- the fourth leaves the bus to the other master
      | arbLost =>
          have hidle := hphase .arbLost rfl
          refine await_round hstate fun log =>
            twiVect_arbLost hstatus hidle (await_over ?_ (h _ ?_ ?_ ?_ ?_))
          · rw [released_state]
            exact hbusy
          · exact released_state _
          · rw [released_vars _ rfl (by simp), Machine.set_vars_self]
            rfl
          · exact (if_pos hidle).symm
          · intro x hx hne herror
            rw [released_vars _ hx hne, Machine.set_vars_of_ne _ herror]

/-! ## The start of a transaction

A START of its own is an event on the bus, for which the handler is entered; after a repeated START that
has been sent ahead the address is sent by the caller itself. -/

/-- The machine once the address `slarw` has been sent, to which `TWCR` has been set to `v`. -/
def addressed (m : TwMachine) (slarw v : Byte) : TwMachine :=
  { ((m.set .twdr slarw).set .twcr v).set .twsr
      (statusCode (if slarw.getLsbD 0 then 0x40 else 0x18) (if slarw.getLsbD 0 then 0x48 else 0x20)
        (m.device.address slarw).1) with
    device := (m.device.address slarw).2 }

/-- The address on its way changes the registers only. -/
theorem addressed_vars (m : TwMachine) (slarw v : Byte) {x : Var} (hx : guard x = some .tw) :
    (addressed m slarw v).vars x = m.vars x := by
  simp only [addressed]
  rw [Machine.set_vars_of_ne _ (ne_of_guard hx rfl), Machine.set_vars_of_ne _ (ne_of_guard hx rfl),
    Machine.set_vars_of_ne _ (ne_of_guard hx rfl)]

/-- The store to `TWCR` behind a START sends what `TWDR` holds as the address. -/
theorem store_addressed {m : TwMachine} {slarw v : Byte} (hv : GoesOn v)
    (hphase : m.device.phase = .started) :
    (m.set .twdr slarw).store twiReact .twcr v = addressed m slarw v := by
  rw [store_address (m.set .twdr slarw) hv hphase, Machine.set_vars_self]
  rfl

/-- After a START the handler sends the address. -/
theorem await_started {m : TwMachine} {Q : Unit → TwMachine → Prop} {busy : Byte}
    (hbusy : m.vars .state = busy) (hstatus : twStatus (m.vars .twsr) = .start)
    (hphase : m.device.phase = .started)
    (h : ∀ log, Returns (awaitTransaction busy)
      (addressed { m with log := log } (m.vars .slarw) (twen ||| twie ||| twint ||| twea)) Q) :
    Returns (awaitTransaction busy) m Q := by
  apply await_round hbusy
  intro log
  have hgo : GoesOn (twen ||| twie ||| twint ||| twea) := ⟨by decide, by decide, by decide⟩
  have hsent : ({ m with log := log } : TwMachine).device.phase = .started := hphase
  unfold twiVect
  simp only [Total.bind_iff, Total.read_iff, hstatus, Total.write_iff,
    store_of_ne _ (x := .twdr) (by simp)]
  rw [store_addressed hgo hsent]
  exact h log

/-- The handler is called, as no START could be sent. -/
structure Unstarted (m : TwMachine) (c : Cut) (m' : TwMachine) : Prop where
  vars : ∀ x, guard x = some .tw → x ≠ .inRepStart → m'.vars x = m.vars x
  inRepStart : m'.vars .inRepStart = false
  call : m.device.call (m.vars .slarw) = (.cut c, m'.device)
  idle : m'.device.phase = .idle
  status : twStatus (m'.vars .twsr) = failedStatus (.cut c)

/-- The handler is called, as the address has been sent on the bus `h`. -/
structure Started (m : TwMachine) (h : Hardware) (m' : TwMachine) : Prop where
  vars : ∀ x, guard x = some .tw → x ≠ .inRepStart → m'.vars x = m.vars x
  inRepStart : m'.vars .inRepStart = false
  call : m.device.call (m.vars .slarw) = h.address (m.vars .slarw)
  device : m'.device = (h.address (m.vars .slarw)).2
  status : m'.vars .twsr = statusCode (if (m.vars .slarw).getLsbD 0 then 0x40 else 0x18)
    (if (m.vars .slarw).getLsbD 0 then 0x48 else 0x20) (h.address (m.vars .slarw)).1

section

variable {m : TwMachine} {Q : Unit → TwMachine → Prop} {busy : Byte}

/-- After a repeated START. -/
theorem startTransaction_readdressed {P : Unit → TwMachine → Prop} (hphase : m.device.phase = .started)
    (hrep : m.vars .inRepStart = true)
    (h : P () (addressed (m.set .inRepStart false) (m.vars .slarw) (twint ||| twea ||| twen ||| twie))) :
    Returns startTransaction m P := by
  have hgo : GoesOn (twint ||| twea ||| twen ||| twie) := ⟨by decide, by decide, by decide⟩
  have hphase' : (m.set .inRepStart false).device.phase = .started := hphase
  have hslarw : (m.set .inRepStart false).vars .slarw = m.vars .slarw :=
    Machine.set_vars_of_ne _ (by simp) _
  unfold startTransaction
  simp only [Total.bind_iff, Total.read_iff]
  rw [if_pos hrep]
  simp only [Total.bind_iff, Total.read_iff, Total.write_iff,
    store_of_ne _ (x := .inRepStart) (by simp), store_of_ne _ (x := .twdr) (by simp)]
  rw [hslarw, store_addressed hgo hphase']
  exact h

theorem startTransaction_started {P : Unit → TwMachine → Prop} (hrep : m.vars .inRepStart = false)
    (h : P () (started m (twint ||| twea ||| twen ||| twie ||| twsta))) :
    Returns startTransaction m P := by
  unfold startTransaction
  simp only [Total.bind_iff, Total.read_iff]
  rw [if_neg (by rw [hrep]; exact Bool.false_ne_true), Total.write_iff,
    store_start m (by decide) (by decide) (by decide)]
  exact h

/-- After a repeated START, the call sends the address. -/
theorem startTransaction_repeated (hphase : m.device.phase = .started)
    (hrep : m.vars .inRepStart = true)
    (haddress : ∀ m', Started m m.device m' → Returns (awaitTransaction busy) m' Q) :
    Returns startTransaction m fun _ m' => Returns (awaitTransaction busy) m' Q := by
  apply startTransaction_readdressed hphase hrep
  refine haddress _ ⟨fun x hx hne => ?_, ?_, ?_, rfl, ?_⟩
  · rw [addressed_vars _ _ _ hx, Machine.set_vars_of_ne _ hne]
  · rw [addressed_vars _ _ _ rfl, Machine.set_vars_self]
  · simp only [Hardware.call, Hardware.seize, hphase, reduceCtorEq, if_false]
  · simp only [addressed, Machine.set_vars_self, Machine.set_device]

/-- Else the call sends a START, and the handler the address. -/
theorem startTransaction_fresh (hphase : m.device.phase = .idle)
    (hrep : m.vars .inRepStart = false) (hbusy : m.vars .state = busy)
    (hcut : ∀ m' c, Unstarted m c m' → Returns (awaitTransaction busy) m' Q)
    (haddress : ∀ m' h, Started m h m' → Returns (awaitTransaction busy) m' Q) :
    Returns startTransaction m fun _ m' => Returns (awaitTransaction busy) m' Q := by
  apply startTransaction_started hrep
  generalize twint ||| twea ||| twen ||| twie ||| twsta = v
  have hslarw := started_vars m v (x := .slarw) rfl
  have hrep' := (started_vars m v (x := .inRepStart) rfl).trans hrep
  have hbusy' := (started_vars m v (x := .state) rfl).trans hbusy
  rcases hstart : m.device.start with ⟨acked | c, h'⟩
  -- The START is on the bus: the first turn of the loop sends the address.
  · obtain ⟨rfl, hstarted⟩ := Hardware.start_done hstart
    have hcall : m.device.call (m.vars .slarw) = h'.address (m.vars .slarw) := by
      unfold Hardware.call Hardware.seize
      rw [if_pos hphase, hstart]
    have hdevice : (started m v).device = h' := by simp [started, hstart]
    refine await_started hbusy' ?_ (by rw [hdevice, hstarted]) fun log => ?_
    · simp only [started, Machine.set_vars_self, hstart, if_pos hphase]
      exact (show twStatus 0x08 = _ by decide)
    · rw [hslarw]
      refine haddress _ h' ⟨fun x hx _ => ?_, ?_, hcall, ?_, ?_⟩
      · rw [addressed_vars _ _ _ hx]
        exact started_vars m v hx
      · rw [addressed_vars _ _ _ rfl]
        exact hrep'
      · simp only [addressed, hdevice]
      · simp only [addressed, Machine.set_vars_self, hdevice]
  -- another master has been faster
  · have hcall : m.device.call (m.vars .slarw) = (.cut c, h') := by
      unfold Hardware.call Hardware.seize
      rw [if_pos hphase, hstart]
    have hdevice : (started m v).device = h' := by simp [started, hstart]
    refine hcut (started m v) c ⟨fun x hx _ => started_vars m v hx, hrep', ?_, ?_, ?_⟩
    · rw [hcall, hdevice]
    · rw [hdevice]
      exact Hardware.start_cut hstart
    · simp only [started, Machine.set_vars_self, hstart]
      exact twStatus_cut c

/-- The start of a transaction, on a bus that is at rest and on one that is kept: either the address is on
the bus, or the START was lost. -/
theorem startTransaction_total {held : Bool} (hheld : m.device.Between held)
    (hrep : m.vars .inRepStart = held) (hbusy : m.vars .state = busy)
    (hcut : ∀ m' c, Unstarted m c m' → Returns (awaitTransaction busy) m' Q)
    (haddress : ∀ m' h, Started m h m' → Returns (awaitTransaction busy) m' Q) :
    Returns startTransaction m fun _ m' => Returns (awaitTransaction busy) m' Q := by
  cases held with
  | true => exact startTransaction_repeated hheld hrep fun m' => haddress m' m.device
  | false => exact startTransaction_fresh hheld hrep hbusy hcut haddress

end

/-! ## What a transaction leaves alone

The queue, the receive buffer and everything outside the controller. -/

theorem ne_of_set {S : Var → Bool} {x y : Var} (hx : S x = false) (hy : S y = true) : x ≠ y := by
  rintro rfl
  rw [hx] at hy
  exact Bool.false_ne_true hy

/-- The hardware changes its own registers only. -/
theorem twiReact_vars (x : Var) (s : Store Val × Hardware) {y : Var} (hy : ofTransaction y = false) :
    (twiReact x s).1 y = s.1 y := by
  have hne : ∀ {z}, ofTransaction z = true → y ≠ z := ne_of_set hy
  unfold twiReact
  split
  · simp only
    split
    · rfl
    · split
      · exact Function.update_of_ne (hne rfl) ..
      · split
        · exact Function.update_of_ne (hne rfl) ..
        · split
          · rfl
          · exact Function.update_of_ne (hne rfl) ..
          · exact Function.update_of_ne (hne rfl) ..
          · exact (Function.update_of_ne (hne rfl) ..).trans (Function.update_of_ne (hne rfl) ..)
  · rfl

/-- What else is known of a transaction that is carried out. -/
theorem carryOut_within {busy : Byte} {m : TwMachine} {Q : Unit → TwMachine → Prop}
    (h : Returns (carryOut busy) m Q) :
    Returns (carryOut busy) m fun u m' => Q u m' ∧ m.Within transactionPrint m' :=
  h.leaves (carryOut_leaves busy) fun x _ s _ hy => twiReact_vars x s (Bool.eq_false_iff.mpr hy)

end CTWController

end SmartblocksOs.Board
