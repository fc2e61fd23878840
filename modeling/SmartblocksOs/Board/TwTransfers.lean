/-
# SmartblocksOs.Board.TwTransfers -- transmissions and receptions by the TWI handler

What the handler does from the start of a transaction to its end: it sends what is in the master buffer,
or stores there what it receives, and this is a `transmit` or a `fetch` of the bus hardware
(`transmit_total`, `fetch_total`).

The handler runs once for every event on the bus, and the loop in which the caller waits is what runs it
in the model: one turn of the loop, one status, one call of the handler. The assertions `Sending` and
`Receiving` say where in the master buffer the handler is; what is left of the bytes is what the induction
is on, and each turn is compared with one step of the bus hardware.

Both directions have the same shape. The caller has stored what is wanted (`Prepared`, `Requested`),
writes START into `TWCR` and waits; the handler is entered with a status for each thing that happens on
the bus. Four endings have to be told apart: all bytes through, address refused, data byte refused, and
cut off by a lost arbitration or a bus error. What the caller finds afterwards (`Sent`, `Fetched`) names
the ending, and `m_un_state` is READY in every one of them: that is why the loop ends.

The bus hardware of `SmartblocksOs.Foundation.TwoWire` is the specification here. It knows nothing of
buffers, indices or the status register; the theorems say that the handler, byte by byte, does what that
machine does with the list of bytes as a whole.
-/
import SmartblocksOs.Board.TwMachine

namespace SmartblocksOs.Board

open SmartblocksOs.Foundation SmartblocksOs.System SmartblocksOs.Foundation.TwoWire

namespace CTWController

/-! ## A transmission

The induction is on the bytes that are left in the master buffer. A byte is sent when the previous one has
been acknowledged, so that on entry to the handler the index is the number of bytes the slave has taken;
after the last one the handler ends the transmission by a STOP, or keeps the bus for a repeated START. -/

/-- What the caller finds after a transmission. -/
structure Sent (sendStop : Bool) (r : Ending × Hardware) (m : TwMachine) : Prop where
  state : m.vars .state = twStateReady
  device : m.device = r.2.finish sendStop r.1
  inRepStart : m.vars .inRepStart = Hardware.keeps sendStop r.1
  error : m.vars .error = errorCode r.1

/-- The address and the bytes before `rest` have been acknowledged. -/
structure Sending (rest : List Byte) (sendStop : Bool) (m : TwMachine) : Prop where
  state : m.vars .state = twStateMtx
  sendStop : m.vars .sendStop = sendStop
  inRepStart : m.vars .inRepStart = false
  error : m.vars .error = twBusNoError
  length : (m.vars .masterBufferIndex).toNat + rest.length = (m.vars .masterBufferLength).toNat
  bytes : Spells (fun i => m.vars (.masterBuffer ((m.vars .masterBufferIndex).toNat + i))) rest
  status : twStatus (m.vars .twsr) = .mtSlaAck ∨ twStatus (m.vars .twsr) = .mtDataAck
  phase : m.device.phase = .transmitting

/-- A transmission that the slave or another master has ended. -/
theorem await_unsent {m : TwMachine} {sendStop : Bool} {ending : Ending} (hdone : ending ≠ .done)
    (hstate : m.vars .state = twStateMtx) (hrep : m.vars .inRepStart = false)
    (hstatus : twStatus (m.vars .twsr) = failedStatus ending)
    (hphase : ∀ c, ending = .cut c → m.device.phase = .idle) :
    Returns (awaitTransaction twStateMtx) m fun _ m' => Sent sendStop (ending, m.device) m' := by
  refine await_failed sendStop hdone (by decide) hstate hstatus hphase
    fun m' hready herror hdevice hvars => ?_
  refine ⟨hready, hdevice, ?_, herror⟩
  rw [hvars _ rfl (by simp) (by simp), hrep]
  cases ending with
  | done => exact absurd rfl hdone
  | addressNack | dataNack | cut _ => rfl

/-- The machine after the handler has sent `b`, the next byte. -/
def byteSent (m : TwMachine) (b : Byte) : TwMachine :=
  { (((m.set .masterBufferIndex (m.vars .masterBufferIndex + 1)).set .twdr b).set .twcr
      (twen ||| twie ||| twint ||| twea)).set .twsr (statusCode 0x28 0x30 (m.device.send b).1) with
    device := (m.device.send b).2 }

theorem byteSent_index (m : TwMachine) (b : Byte) :
    (byteSent m b).vars .masterBufferIndex = m.vars .masterBufferIndex + 1 := by
  simp [byteSent, Machine.set_vars_of_ne]

theorem byteSent_buffer (m : TwMachine) (b : Byte) (i : Nat) :
    (byteSent m b).vars (.masterBuffer i) = m.vars (.masterBuffer i) := by
  simp [byteSent, Machine.set_vars_of_ne]

/-- While bytes are left the handler puts the next one on the bus. -/
theorem sendNext_total {m : TwMachine} {Q : Unit → TwMachine → Prop} {b : Byte}
    (hmore : m.vars .masterBufferIndex < m.vars .masterBufferLength)
    (hb : m.vars (.masterBuffer (m.vars .masterBufferIndex).toNat) = b)
    (hphase : m.device.phase = .transmitting) (h : Q () (byteSent m b)) : Returns sendNext m Q := by
  unfold sendNext
  have hbuffer : (m.set .masterBufferIndex (m.vars .masterBufferIndex + 1)).vars
      (.masterBuffer (m.vars .masterBufferIndex).toNat) = b := by
    rw [Machine.set_vars_of_ne _ (by simp), hb]
  simp only [Total.bind_iff, Total.read_iff, if_pos hmore, Total.write_iff,
    store_of_ne _ (x := .masterBufferIndex) (by simp), store_of_ne _ (x := .twdr) (by simp), hbuffer]
  rw [store_send ((m.set .masterBufferIndex (m.vars .masterBufferIndex + 1)).set .twdr b)
    ⟨by decide, by decide, by decide⟩ hphase]
  rw [Machine.set_vars_self]
  exact h

/-- The index of a byte that is not the last one does not wrap. -/
theorem toNat_succ_of_lt {i n : Byte} (h : i < n) : (i + 1).toNat = i.toNat + 1 := by
  have hlt := n.isLt
  rw [BitVec.lt_def] at h
  rw [BitVec.toNat_add]
  exact Nat.mod_eq_of_lt (by simp; omega)

/-- After an acknowledge the handler goes on with the next byte. -/
theorem await_acked {m : TwMachine} {Q : Unit → TwMachine → Prop}
    (hstate : m.vars .state = twStateMtx)
    (hstatus : twStatus (m.vars .twsr) = .mtSlaAck ∨ twStatus (m.vars .twsr) = .mtDataAck)
    (h : ∀ log, Returns sendNext { m with log := log } fun _ m' =>
      Returns (awaitTransaction twStateMtx) m' Q) :
    Returns (awaitTransaction twStateMtx) m Q := by
  apply await_round hstate
  intro log
  unfold twiVect
  simp only [Total.bind_iff, Total.read_iff]
  rcases hstatus with hstatus | hstatus
  · rw [hstatus]
    exact h log
  · rw [hstatus]
    exact h log

/-- While bytes are left the index is below the length. -/
theorem Sending.more {b : Byte} {rest : List Byte} {sendStop : Bool} {m : TwMachine}
    (h : Sending (b :: rest) sendStop m) : m.vars .masterBufferIndex < m.vars .masterBufferLength := by
  have hlength := h.length
  rw [List.length_cons] at hlength
  rw [BitVec.lt_def]
  omega

/-- The slave has taken the next byte. -/
theorem Sending.next {b : Byte} {rest : List Byte} {sendStop : Bool} {m : TwMachine} {h' : Hardware}
    (h : Sending (b :: rest) sendStop m) (log : List Event)
    (hsend : m.device.send b = (.done true, h')) :
    Sending rest sendStop (byteSent { m with log := log } b) := by
  have hlength := h.length
  rw [List.length_cons] at hlength
  have hsucc := toNat_succ_of_lt h.more
  refine ⟨?_, ?_, ?_, ?_, ?_, ?_, ?_, ?_⟩
  · simp [byteSent, Machine.set_vars_of_ne, h.state]
  · simp [byteSent, Machine.set_vars_of_ne, h.sendStop]
  · simp [byteSent, Machine.set_vars_of_ne, h.inRepStart]
  · simp [byteSent, Machine.set_vars_of_ne, h.error]
  -- one byte less is to be sent
  · have hn : (byteSent { m with log := log } b).vars .masterBufferLength =
        m.vars .masterBufferLength := by simp [byteSent, Machine.set_vars_of_ne]
    rw [byteSent_index, hsucc, hn]
    omega
  -- the bytes that are left begin one place further on
  · intro i d hd
    have hindex : ((byteSent { m with log := log } b).vars .masterBufferIndex).toNat + i =
        (m.vars .masterBufferIndex).toNat + (i + 1) := by
      rw [byteSent_index, hsucc]
      omega
    beta_reduce
    rw [hindex, byteSent_buffer]
    exact h.bytes (i + 1) d hd
  · simp only [byteSent, Machine.set_vars_self, hsend]
    exact Or.inr (by decide)
  · have hdevice : (byteSent { m with log := log } b).device = h' := by simp [byteSent, hsend]
    rw [hdevice, Hardware.send_done hsend, h.phase]

/-- The handler sends the bytes that are left, as far as the slave takes them, and ends the
transmission. -/
theorem await_sent {sendStop : Bool} (rest : List Byte) {m : TwMachine} (h : Sending rest sendStop m) :
    Returns (awaitTransaction twStateMtx) m fun _ m' => Sent sendStop (m.device.sendBytes rest) m' := by
  -- by induction on the bytes that are left
  induction rest generalizing m with
  | nil =>
      have hlast : ¬ m.vars .masterBufferIndex < m.vars .masterBufferLength := by
        have := h.length
        rw [List.length_nil] at this
        rw [BitVec.lt_def]
        omega
      apply await_acked h.state h.status
      intro log
      unfold sendNext
      simp only [Total.bind_iff, Total.read_iff, if_neg hlast]
      refine stopOrKeepBus_total (await_over ?_ ?_)
      · split <;> simp [twStateReady, twStateMtx]
      · simp only [h.sendStop, Hardware.sendBytes]
        cases sendStop with
        | true =>
            refine ⟨stopped_state _, rfl, ?_, ?_⟩
            · exact (stopped_vars _ rfl (by simp)).trans h.inRepStart
            · exact (stopped_vars _ rfl (by simp)).trans h.error
        | false =>
            refine ⟨busKept_state _, rfl, busKept_inRepStart _, ?_⟩
            exact (busKept_vars _ rfl (by simp) (by simp)).trans h.error
  | cons b rest ih =>
      refine await_acked h.state h.status fun log =>
        sendNext_total h.more (h.bytes 0 b rfl) h.phase ?_
      rw [Hardware.sendBytes]
      -- what the slave makes of `b`
      rcases hsend : m.device.send b with ⟨acked | c, h'⟩
      · cases acked with
        | true =>
            have hdevice : (byteSent { m with log := log } b).device = h' := by simp [byteSent, hsend]
            rw [← hdevice]
            exact ih (h.next log hsend)
        | false =>
            have hdevice : (byteSent { m with log := log } b).device = h' := by simp [byteSent, hsend]
            simp only [← hdevice]
            refine await_unsent (by simp) ?_ ?_ ?_ fun c hc => absurd hc (by simp)
            · simp [byteSent, Machine.set_vars_of_ne, h.state]
            · simp [byteSent, Machine.set_vars_of_ne, h.inRepStart]
            · simp only [byteSent, Machine.set_vars_self, hsend]
              decide
      · have hdevice : (byteSent { m with log := log } b).device = h' := by simp [byteSent, hsend]
        simp only [← hdevice]
        refine await_unsent (by simp) ?_ ?_ ?_ fun c' _ => ?_
        · simp [byteSent, Machine.set_vars_of_ne, h.state]
        · simp [byteSent, Machine.set_vars_of_ne, h.inRepStart]
        · simp only [byteSent, Machine.set_vars_self, hsend]
          exact twStatus_cut c
        · rw [hdevice]
          exact Hardware.send_cut hsend

/-- Everything is set up for a transmission of `bytes`. -/
structure Prepared (slarw : Byte) (bytes : List Byte) (sendStop : Bool) (m : TwMachine) : Prop where
  state : m.vars .state = twStateMtx
  slarw : m.vars .slarw = slarw
  sendStop : m.vars .sendStop = sendStop
  error : m.vars .error = twBusNoError
  index : m.vars .masterBufferIndex = 0
  length : (m.vars .masterBufferLength).toNat = bytes.length
  bytes : Spells (fun i => m.vars (.masterBuffer i)) bytes

/-- The setup is not about the registers, nor about the repeated start. -/
theorem Prepared.congr {slarw : Byte} {bytes : List Byte} {sendStop : Bool} {m m' : TwMachine}
    (h : Prepared slarw bytes sendStop m)
    (heq : ∀ x, guard x = some .tw → x ≠ .inRepStart → m'.vars x = m.vars x) :
    Prepared slarw bytes sendStop m' := by
  refine ⟨?_, ?_, ?_, ?_, ?_, ?_, h.bytes.congr fun i _ => heq _ rfl (by simp)⟩
  · rw [heq _ rfl (by simp), h.state]
  · rw [heq _ rfl (by simp), h.slarw]
  · rw [heq _ rfl (by simp), h.sendStop]
  · rw [heq _ rfl (by simp), h.error]
  · rw [heq _ rfl (by simp), h.index]
  · rw [heq _ rfl (by simp), h.length]

theorem await_addressed {slarw : Byte} {bytes : List Byte} {sendStop : Bool} {m : TwMachine}
    {h : Hardware} (hm : Prepared slarw bytes sendStop m) (hrep : m.vars .inRepStart = false)
    (hwrite : slarw.getLsbD 0 = false) (hdevice : m.device = (h.address slarw).2)
    (hstatus : m.vars .twsr = statusCode 0x18 0x20 (h.address slarw).1) :
    Returns (awaitTransaction twStateMtx) m fun _ m' => Sent sendStop
      (match h.address slarw with
        | (.done true, h) => h.sendBytes bytes
        | (.done false, h) => (.addressNack, h)
        | (.cut c, h) => (.cut c, h)) m' := by
  rcases haddress : h.address slarw with ⟨acked | c, h'⟩
  · rw [haddress] at hdevice hstatus
    subst hdevice
    cases acked with
    -- the slave is there, and nothing of the buffer has been sent yet
    | true =>
        refine await_sent bytes ⟨hm.state, hm.sendStop, hrep, hm.error, ?_, ?_, ?_, ?_⟩
        · rw [hm.index, hm.length]
          exact Nat.zero_add _
        · intro i d hd
          have hindex : (m.vars .masterBufferIndex).toNat + i = i := by
            rw [hm.index]
            exact Nat.zero_add i
          beta_reduce
          rw [hindex]
          exact hm.bytes i d hd
        · rw [hstatus]
          exact Or.inl (show twStatus 0x18 = _ by decide)
        · rw [Hardware.address_done haddress, hwrite]
          rfl
    -- nobody answers to the address
    | false =>
        refine await_unsent (by simp) hm.state hrep ?_ fun c hc => absurd hc (by simp)
        rw [hstatus]
        exact (show twStatus 0x20 = _ by decide)
  -- the bus is lost before the address has been answered
  · rw [haddress] at hdevice hstatus
    subst hdevice
    refine await_unsent (by simp) hm.state hrep ?_ fun _ _ => Hardware.address_cut haddress
    rw [hstatus]
    exact twStatus_cut c

/-- The transmission of what has been prepared. -/
theorem transmit_total {slarw : Byte} {bytes : List Byte} {sendStop held : Bool} {m : TwMachine}
    (hm : Prepared slarw bytes sendStop m) (hwrite : slarw.getLsbD 0 = false)
    (hheld : m.device.Between held) (hrep : m.vars .inRepStart = held) :
    Returns (carryOut twStateMtx) m fun _ m' => Sent sendStop (m.device.transmit slarw bytes) m' := by
  refine Total.bind (startTransaction_total hheld hrep hm.state ?_ ?_)
  · rintro m' c ⟨heq, hrep', hcall, hphase, hstatus⟩
    have hm' := hm.congr heq
    rw [hm.slarw] at hcall
    unfold Hardware.transmit
    rw [hcall]
    exact await_unsent (by simp) hm'.state hrep' hstatus fun _ _ => hphase
  · rintro m' h ⟨heq, hrep', hcall, hdevice, hstatus⟩
    rw [hm.slarw, hwrite] at hstatus
    rw [hm.slarw] at hcall hdevice
    unfold Hardware.transmit
    rw [hcall]
    exact await_addressed (hm.congr heq) hrep' hwrite hdevice hstatus

/-! ## A reception

Here `masterBufferLength` is the index of the last byte and not the number of bytes, because the handler
has to know one byte in advance that it must not acknowledge any more. The induction is on the number of
bytes that come after the one on its way; a byte that arrives is stored before the next one is asked for.
-/

/-- What the caller finds after a reception. -/
structure Fetched (sendStop : Bool) (r : List Byte × Ending × Hardware) (m : TwMachine) : Prop where
  state : m.vars .state = twStateReady
  device : m.device = r.2.2.finish sendStop r.2.1
  inRepStart : m.vars .inRepStart = Hardware.keeps sendStop r.2.1
  index : (m.vars .masterBufferIndex).toNat = r.1.length
  bytes : Spells (fun i => m.vars (.masterBuffer i)) r.1

/-- The machine after one more byte has been received. -/
def byteReceived (m : TwMachine) (v : Byte) (acked : Bool) : TwMachine :=
  { ((m.set .twcr v).set .twdr (m.device.receive acked).1).set .twsr
      (statusCode 0x50 0x58 (m.device.receive acked).2.1) with
    device := (m.device.receive acked).2.2 }

/-- A byte on its way changes the registers only. -/
theorem byteReceived_vars (m : TwMachine) (v : Byte) (acked : Bool) {x : Var} (hx : guard x = some .tw) :
    (byteReceived m v acked).vars x = m.vars x := by
  simp only [byteReceived]
  rw [Machine.set_vars_of_ne _ (ne_of_guard hx rfl), Machine.set_vars_of_ne _ (ne_of_guard hx rfl),
    Machine.set_vars_of_ne _ (ne_of_guard hx rfl)]

/-- The handler asks for the next byte, which it acknowledges when it is not the last. -/
theorem acknowledge_total {m : TwMachine} {Q : Unit → TwMachine → Prop} {n : Nat}
    (hphase : m.device.phase = .receiving)
    (hlength : (m.vars .masterBufferLength).toNat = (m.vars .masterBufferIndex).toNat + n)
    (h : ∀ v, Q () (byteReceived m v (0 < n))) : Returns acknowledge m Q := by
  unfold acknowledge
  simp only [Total.bind_iff, Total.read_iff]
  by_cases hn : 0 < n
  · have hmore : m.vars .masterBufferIndex < m.vars .masterBufferLength := by
      rw [BitVec.lt_def]
      omega
    rw [if_pos hmore, Total.write_iff, store_receive m ⟨by decide, by decide, by decide⟩ hphase]
    have := h (twen ||| twie ||| twint ||| twea)
    rw [decide_eq_true hn] at this
    exact this
  · have hlast : ¬ m.vars .masterBufferIndex < m.vars .masterBufferLength := by
      rw [BitVec.lt_def]
      omega
    rw [if_neg hlast, Total.write_iff, store_receive m ⟨by decide, by decide, by decide⟩ hphase]
    have := h (twen ||| twie ||| twint)
    rw [decide_eq_false hn] at this
    exact this

/-- The machine after the byte received has been stored. -/
def byteStored (m : TwMachine) : TwMachine :=
  (m.set .masterBufferIndex (m.vars .masterBufferIndex + 1)).set
    (.masterBuffer (m.vars .masterBufferIndex).toNat) (m.vars .twdr)

/-- A byte that is stored changes the buffer and the index only. -/
theorem byteStored_vars (m : TwMachine) {x : Var} (hindex : x ≠ .masterBufferIndex)
    (hbuffer : ∀ i, x ≠ .masterBuffer i) : (byteStored m).vars x = m.vars x :=
  (Machine.set_vars_of_ne _ (hbuffer _) _).trans (Machine.set_vars_of_ne m hindex _)

/-- The handler takes the byte from `TWDR` to the master buffer. -/
theorem storeReceived_total {m : TwMachine} {Q : Unit → TwMachine → Prop}
    (h : Q () (byteStored m)) : Returns storeReceived m Q := by
  unfold storeReceived
  simp only [Total.bind_iff, Total.read_iff, Total.write_iff, store_of_ne, ne_eq, reduceCtorEq,
    not_false_eq_true]
  have htwdr : (m.set .masterBufferIndex (m.vars .masterBufferIndex + 1)).vars .twdr = m.vars .twdr :=
    Machine.set_vars_of_ne m (by simp) _
  rw [htwdr]
  exact h

/-- The index goes on by one, since there was room for the byte. -/
theorem byteStored_index {m : TwMachine} {n : Nat} (hindex : (m.vars .masterBufferIndex).toNat = n)
    (hn : n < 64) : ((byteStored m).vars .masterBufferIndex).toNat = n + 1 := by
  have hset : (byteStored m).vars .masterBufferIndex = m.vars .masterBufferIndex + 1 :=
    (Machine.set_vars_of_ne _ (by simp) _).trans (Machine.set_vars_self ..)
  rw [hset, BitVec.toNat_add, hindex]
  exact Nat.mod_eq_of_lt (by simp; omega)

/-- The byte is behind those received before. -/
theorem byteStored_bytes {m : TwMachine} {got : List Byte}
    (hindex : (m.vars .masterBufferIndex).toNat = got.length)
    (hbytes : Spells (fun i => m.vars (.masterBuffer i)) got) :
    Spells (fun i => (byteStored m).vars (.masterBuffer i)) (got ++ [m.vars .twdr]) := by
  refine Spells.concat (hbytes.congr fun i hi => ?_) ?_
  · unfold byteStored
    rw [hindex, Machine.set_vars_of_ne _ (by simp; omega)]
    exact Machine.set_vars_of_ne m (by simp) _
  · unfold byteStored
    rw [hindex]
    exact Machine.set_vars_self ..

/-- The bytes `got` have been stored, and after the next one there are `n` more to come. -/
structure Receiving (got : List Byte) (n : Nat) (sendStop : Bool) (m : TwMachine) : Prop where
  state : m.vars .state = twStateMrx
  sendStop : m.vars .sendStop = sendStop
  inRepStart : m.vars .inRepStart = false
  index : (m.vars .masterBufferIndex).toNat = got.length
  length : (m.vars .masterBufferLength).toNat = got.length + n
  small : got.length + n < 64
  bytes : Spells (fun i => m.vars (.masterBuffer i)) got

/-- The assertion is about the variables of the controller, not about the registers. -/
theorem Receiving.congr {got : List Byte} {n : Nat} {sendStop : Bool} {m m' : TwMachine}
    (h : Receiving got n sendStop m) (heq : ∀ x, guard x = some .tw → m'.vars x = m.vars x) :
    Receiving got n sendStop m' := by
  refine ⟨?_, ?_, ?_, ?_, ?_, h.small, h.bytes.congr fun i _ => heq _ rfl⟩
  · rw [heq _ rfl, h.state]
  · rw [heq _ rfl, h.sendStop]
  · rw [heq _ rfl, h.inRepStart]
  · rw [heq _ rfl, h.index]
  · rw [heq _ rfl, h.length]

/-- One byte more has been received, and one less is expected. -/
theorem Receiving.stored {got : List Byte} {n : Nat} {sendStop : Bool} {m : TwMachine}
    (h : Receiving got (n + 1) sendStop m) :
    Receiving (got ++ [m.vars .twdr]) n sendStop (byteStored m) := by
  have hsmall := h.small
  have hlength : (got ++ [m.vars .twdr]).length = got.length + 1 := by simp
  refine ⟨?_, ?_, ?_, ?_, ?_, by rw [hlength]; omega, byteStored_bytes h.index h.bytes⟩
  · exact (byteStored_vars m (by simp) (by simp)).trans h.state
  · exact (byteStored_vars m (by simp) (by simp)).trans h.sendStop
  · exact (byteStored_vars m (by simp) (by simp)).trans h.inRepStart
  · rw [hlength]
    exact byteStored_index h.index (by omega)
  · rw [byteStored_vars m (by simp) (by simp), h.length, hlength]
    omega

/-- The reception is cut off. -/
theorem await_undelivered {got : List Byte} {n : Nat} {sendStop : Bool} {m : TwMachine}
    (hm : Receiving got n sendStop m) {ack nack : Byte} {c : Cut}
    (hstatus : m.vars .twsr = statusCode ack nack (.cut c)) (hphase : m.device.phase = .idle) :
    Returns (awaitTransaction twStateMrx) m fun _ m' =>
      Fetched sendStop (got, .cut c, m.device) m' := by
  refine await_failed sendStop (show Ending.cut c ≠ .done by simp) (by decide) hm.state ?_ (fun _ _ => hphase)
    fun m' hready _ hdevice hvars => ⟨hready, hdevice, ?_, ?_, ?_⟩
  · rw [hstatus]
    exact twStatus_cut c
  · exact (hvars _ rfl (by simp) (by simp)).trans hm.inRepStart
  · rw [hvars _ rfl (by simp) (by simp)]
    exact hm.index
  · exact hm.bytes.congr fun i _ => hvars _ rfl (by simp) (by simp)

theorem await_last {got : List Byte} {sendStop : Bool} {m : TwMachine}
    (hm : Receiving got 0 sendStop m) (hnack : twStatus (m.vars .twsr) = .mrDataNack) :
    Returns (awaitTransaction twStateMrx) m fun _ m' =>
      Fetched sendStop (got ++ [m.vars .twdr], .done, m.device) m' := by
  apply await_round hm.state
  intro log
  unfold twiVect
  simp only [Total.bind_iff, Total.read_iff, hnack]
  refine storeReceived_total (stopOrKeepBus_total (await_over ?_ ?_))
  · split <;> simp [twStateReady, twStateMrx]
  have hindex := byteStored_index (m := { m with log := log }) hm.index (by have := hm.small; omega)
  have hbytes := byteStored_bytes (m := { m with log := log }) hm.index hm.bytes
  have hkept : ∀ x, x ≠ .masterBufferIndex → (∀ i, x ≠ .masterBuffer i) →
      (byteStored { m with log := log }).vars x = m.vars x :=
    fun x => byteStored_vars { m with log := log }
  -- The byte is in the buffer. What follows depends on `bSendStop`, as after a transmission.
  rw [hkept _ (by simp) (by simp), hm.sendStop]
  cases sendStop with
  | true =>
      refine ⟨stopped_state _, rfl, ?_, ?_, ?_⟩
      · exact (stopped_vars _ rfl (by simp)).trans ((hkept _ (by simp) (by simp)).trans hm.inRepStart)
      · apply (congrArg BitVec.toNat (stopped_vars _ rfl (by simp))).trans
        rw [hindex, List.length_append, List.length_singleton]
      · exact hbytes.congr fun i _ => stopped_vars _ rfl (by simp)
  | false =>
      refine ⟨busKept_state _, rfl, busKept_inRepStart _, ?_, ?_⟩
      · apply (congrArg BitVec.toNat (busKept_vars _ rfl (by simp) (by simp))).trans
        rw [hindex, List.length_append, List.length_singleton]
      · exact hbytes.congr fun i _ => busKept_vars _ rfl (by simp) (by simp)

/-- A byte is on its way, and `n` more are to come: the handler stores them as they arrive, and ends the
reception. -/
theorem await_received {sendStop : Bool} (n : Nat) {got : List Byte} {m : TwMachine} {h : Hardware}
    (hm : Receiving got n sendStop m) (hphase : h.phase = .receiving)
    (hdevice : m.device = (h.receive (0 < n)).2.2) (htwdr : m.vars .twdr = (h.receive (0 < n)).1)
    (hstatus : m.vars .twsr = statusCode 0x50 0x58 (h.receive (0 < n)).2.1) :
    Returns (awaitTransaction twStateMrx) m fun _ m' =>
      Fetched sendStop (got ++ (h.receiveBytes (n + 1)).1, (h.receiveBytes (n + 1)).2) m' := by
  -- On the number of bytes that are to come behind the one that has just been clocked in; the last byte is
  -- the one that is not acknowledged.
  -- by induction on the bytes behind the one on its way
  induction n generalizing got m h with
  | zero =>
      rcases hreceive : h.receive (0 < 0) with ⟨b, acked | c, h'⟩
      · rw [hreceive] at hdevice htwdr hstatus
        obtain ⟨rfl, -⟩ := Hardware.receive_done hreceive
        obtain rfl : m.device = h' := hdevice
        obtain rfl : m.vars .twdr = b := htwdr
        rw [Hardware.receiveBytes_done hreceive]
        apply await_last hm
        rw [hstatus]
        exact (show twStatus 0x58 = _ by decide)
      -- the bus is lost while the last byte comes in
      · rw [hreceive] at hdevice hstatus
        obtain rfl : m.device = h' := hdevice
        rw [Hardware.receiveBytes_cut hreceive, List.append_nil]
        exact await_undelivered hm hstatus (Hardware.receive_cut hreceive)
  | succ n ih =>
      rcases hreceive : h.receive (0 < n + 1) with ⟨b, acked | c, h'⟩
      -- The byte has come and was acknowledged: the handler stores it and asks for the next one.
      · rw [hreceive] at hdevice htwdr hstatus
        obtain ⟨hacked, hphase'⟩ := Hardware.receive_done hreceive
        rw [decide_eq_true (Nat.succ_pos n)] at hacked
        subst hacked
        apply await_round hm.state
        intro log
        unfold twiVect
        have hack : twStatus (m.vars .twsr) = .mrDataAck := by
          rw [hstatus]
          exact (show twStatus 0x50 = _ by decide)
        simp only [Total.bind_iff, Total.read_iff, hack]
        have hstored := Receiving.stored (m := { m with log := log }) (hm.congr fun _ _ => rfl)
        have hdevice' : (byteStored { m with log := log }).device = h' := hdevice
        rw [hphase] at hphase'
        refine storeReceived_total (acknowledge_total (n := n) (hdevice' ▸ hphase') ?_ fun v => ?_)
        · rw [hstored.length, hstored.index]
        have hnext := ih (hstored.congr fun x hx => byteReceived_vars _ v (0 < n) hx) hphase' ?_ ?_ ?_
        · rw [Hardware.receiveBytes_done hreceive]
          rw [show ({ m with log := log } : TwMachine).vars .twdr = b from htwdr, List.append_assoc] at hnext
          exact hnext
        · rw [← hdevice']
          rfl
        · simp only [byteReceived, hdevice']
          rw [Machine.set_vars_of_ne _ (by simp), Machine.set_vars_self]
        · simp only [byteReceived, hdevice', Machine.set_vars_self]
      · rw [hreceive] at hdevice hstatus
        obtain rfl : m.device = h' := hdevice
        rw [Hardware.receiveBytes_cut hreceive, List.append_nil]
        exact await_undelivered hm hstatus (Hardware.receive_cut hreceive)

/-- Everything is set up for a reception of one byte and `n` more. -/
structure Requested (slarw : Byte) (n : Nat) (sendStop : Bool) (m : TwMachine) : Prop where
  state : m.vars .state = twStateMrx
  slarw : m.vars .slarw = slarw
  sendStop : m.vars .sendStop = sendStop
  index : m.vars .masterBufferIndex = 0
  length : (m.vars .masterBufferLength).toNat = n
  small : n < 64

/-- The setup of a reception is not about the registers, nor about the repeated start. -/
theorem Requested.congr {slarw : Byte} {n : Nat} {sendStop : Bool} {m m' : TwMachine}
    (h : Requested slarw n sendStop m)
    (heq : ∀ x, guard x = some .tw → x ≠ .inRepStart → m'.vars x = m.vars x) :
    Requested slarw n sendStop m' := by
  refine ⟨?_, ?_, ?_, ?_, ?_, h.small⟩
  · rw [heq _ rfl (by simp), h.state]
  · rw [heq _ rfl (by simp), h.slarw]
  · rw [heq _ rfl (by simp), h.sendStop]
  · rw [heq _ rfl (by simp), h.index]
  · rw [heq _ rfl (by simp), h.length]

/-- Before the address is acknowledged nothing has been received. -/
theorem Requested.receiving {slarw : Byte} {n : Nat} {sendStop : Bool} {m : TwMachine}
    (h : Requested slarw n sendStop m) (hrep : m.vars .inRepStart = false) :
    Receiving [] n sendStop m :=
  ⟨h.state, h.sendStop, hrep, by rw [h.index]; rfl, by rw [h.length]; exact (Nat.zero_add n).symm,
    by simpa using h.small, Spells.nil _⟩

theorem await_answered {slarw : Byte} {n : Nat} {sendStop : Bool} {m : TwMachine} {h : Hardware}
    (hm : Requested slarw n sendStop m) (hrep : m.vars .inRepStart = false)
    (hread : slarw.getLsbD 0 = true) (hdevice : m.device = (h.address slarw).2)
    (hstatus : m.vars .twsr = statusCode 0x40 0x48 (h.address slarw).1) :
    Returns (awaitTransaction twStateMrx) m fun _ m' => Fetched sendStop
      (match h.address slarw with
        | (.done true, h) => h.receiveBytes (n + 1)
        | (.done false, h) => ([], .addressNack, h)
        | (.cut c, h) => ([], .cut c, h)) m' := by
  have hreceiving := hm.receiving hrep
  rcases haddress : h.address slarw with ⟨acked | c, h'⟩
  · rw [haddress] at hdevice hstatus
    obtain rfl : m.device = h' := hdevice
    cases acked with
    -- The slave is there. Whether its first byte will be acknowledged is decided now, before it comes.
    | true =>
        have hphase : m.device.phase = .receiving := by
          rw [Hardware.address_done haddress, hread]
          rfl
        apply await_round hm.state
        intro log
        unfold twiVect
        have hack : twStatus (m.vars .twsr) = .mrSlaAck := by
          rw [hstatus]
          exact (show twStatus 0x40 = _ by decide)
        simp only [Total.bind_iff, Total.read_iff, hack]
        refine acknowledge_total (n := n) hphase ?_ fun v => ?_
        · simp only [hm.length, hm.index]
          exact (Nat.zero_add n).symm
        · refine @await_received sendStop n [] _ _
            (hreceiving.congr fun x hx => byteReceived_vars { m with log := log } v (0 < n) hx) hphase rfl ?_ ?_
          · simp only [byteReceived]
            rw [Machine.set_vars_of_ne _ (by simp), Machine.set_vars_self]
          · simp only [byteReceived, Machine.set_vars_self]
    -- Nobody answers: `TW_MR_SLA_NACK` ends the transaction without an error.
    | false =>
        refine await_round hm.state fun log => twiVect_mrSlaNack ?_ (await_over ?_ ?_)
        · simp only [hstatus]
          exact (show twStatus 0x48 = _ by decide)
        · rw [stopped_state]
          decide
        · refine ⟨stopped_state _, rfl, ?_, ?_, Spells.nil _⟩
          · exact (stopped_vars _ rfl (by simp)).trans hrep
          · apply (congrArg BitVec.toNat (stopped_vars _ rfl (by simp))).trans
            exact hreceiving.index
  · rw [haddress] at hdevice hstatus
    obtain rfl : m.device = h' := hdevice
    exact await_undelivered hreceiving hstatus (Hardware.address_cut haddress)

/-- The reception of what has been asked for. -/
theorem fetch_total {slarw : Byte} {n : Nat} {sendStop held : Bool} {m : TwMachine}
    (hm : Requested slarw n sendStop m) (hread : slarw.getLsbD 0 = true)
    (hheld : m.device.Between held) (hrep : m.vars .inRepStart = held) :
    Returns (carryOut twStateMrx) m fun _ m' =>
      Fetched sendStop (m.device.fetch slarw (n + 1)) m' := by
  refine Total.bind (startTransaction_total hheld hrep hm.state ?_ ?_)
  -- the START did not come through
  · rintro m' c ⟨heq, hrep', hcall, hphase, hstatus⟩
    have hm' := hm.congr heq
    rw [hm.slarw] at hcall
    unfold Hardware.fetch
    rw [hcall]
    refine await_failed sendStop (show Ending.cut c ≠ .done by simp) (by decide) hm'.state hstatus
      (fun _ _ => hphase) fun m'' hready _ hdevice hvars => ⟨hready, hdevice, ?_, ?_, Spells.nil _⟩
    · exact (hvars _ rfl (by simp) (by simp)).trans hrep'
    · rw [hvars _ rfl (by simp) (by simp), hm'.index]
      rfl
  -- the address has been sent
  · rintro m' h ⟨heq, hrep', hcall, hdevice, hstatus⟩
    rw [hm.slarw, hread] at hstatus
    rw [hm.slarw] at hcall hdevice
    unfold Hardware.fetch
    rw [hcall]
    exact await_answered (hm.congr heq) hrep' hread hdevice hstatus

end CTWController

end SmartblocksOs.Board
