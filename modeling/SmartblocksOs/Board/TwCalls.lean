/-
# SmartblocksOs.Board.TwCalls -- the methods of `CTWController`

`EndTransmission` is a `transmission` and `Read(address, n)` a `reception` of the bus hardware, and in
between `Write` fills the transmit buffer and `Read()` empties the receive buffer. These lemmas
(`endTransmission_total`, `readFrom_total`) are what the callers of the controller go by.

Each public function is described by a structure that lists everything it does: the result, the state of
the bus, the buffers, the notes it adds, and which variables it leaves alone. The specifications are
total: they say that the function returns.

The structures are used like contracts. `Transmitted` and `Received` speak of the bus hardware before and
after, by its own functions `transmission` and `reception`, and of the variables only as far as a caller
can see them: the queue is empty after a transmission, and the bytes received are `Unread`. `Queued` is
the contract of `BeginTransmission` and `Write`, which do not touch the bus. A caller that chains several
calls composes these structures and never looks into the controller again.

What a call leaves alone is stated by a set of variables: `ofTransmission`, `ofReception` and `ofQueue`
are the variables that may change, and all others keep their values. The sets contain what the handler
stores as well, since it runs inside the call.
-/
import SmartblocksOs.Board.TwTransfers

namespace SmartblocksOs.Board

open SmartblocksOs.Foundation SmartblocksOs.System SmartblocksOs.Foundation.TwoWire

namespace CTWController

/-- The constructor, less the bit rate, which nothing depends on. -/
def construct : Code Unit := do
  store .rxBufferIndex 0
  store .rxBufferLength 0
  store .txAddress 0
  store .txBufferIndex 0
  store .txBufferLength 0
  store .transmitting false
  store .state twStateReady
  store .sendStop true
  store .inRepStart false
  let twsr ← load .twsr
  store .twsr (twsr &&& 0xFC)
  store .twcr (twen ||| twie ||| twea)

/-- No call is under way, and the bus is kept from the last transaction or not. -/
structure Ready (held : Bool) (m : TwMachine) : Prop where
  state : m.vars .state = twStateReady
  inRepStart : m.vars .inRepStart = held
  bus : m.device.Between held

/-- Whether the controller is ready can be told from three of its parts. -/
theorem Ready.congr {held : Bool} {m m' : TwMachine} (h : Ready held m)
    (hstate : m'.vars .state = m.vars .state) (hrep : m'.vars .inRepStart = m.vars .inRepStart)
    (hdevice : m'.device = m.device) : Ready held m' :=
  ⟨hstate.trans h.state, hrep.trans h.inRepStart, hdevice ▸ h.bus⟩

theorem Ready.noted {held : Bool} {m : TwMachine} (h : Ready held m) (e : Event) :
    Ready held { m with log := m.log ++ [e] } :=
  ⟨h.state, h.inRepStart, h.bus⟩

/-- A store to `TWCR` that leaves `TWINT` alone. -/
theorem store_quiet {v : Byte} (hv : v &&& twint = 0) (m : TwMachine) :
    m.store twiReact .twcr v = m.set .twcr v := by
  simp only [Machine.store, Machine.set, twiReact, Function.update_self, if_pos hv]

/-- The constructor leaves a controller that is ready, with empty buffers. -/
theorem construct_total {m : TwMachine} (hbus : m.device.phase = .idle) :
    Returns construct m fun _ m' => Ready false m' ∧ Queue m'.vars [] ∧
      m'.vars .txAddress = (0 : Byte) ∧ Unread m'.vars [] ∧ m'.device = m.device ∧ m'.log = m.log := by
  unfold construct
  simp only [Total.bind_iff, Total.write_iff, Total.read_iff, store_of_ne, ne_eq, reduceCtorEq,
    not_false_eq_true, store_quiet (v := twen ||| twie ||| twea) (by decide)]
  refine ⟨⟨?_, ?_, hbus⟩, ⟨Nat.zero_le _, ?_, ?_, Spells.nil _⟩, ?_, ⟨Nat.zero_le _, ?_, Spells.nil _⟩,
    rfl, rfl⟩
  all_goals simp [Machine.set_vars_of_ne]

/-- Nobody waits for a controller that is ready. -/
theorem awaitReady_total {m : TwMachine} {Q : Unit → TwMachine → Prop}
    (hstate : m.vars .state = twStateReady) (h : Q () m) : Returns awaitReady m Q := by
  apply Total.repeatWhile
  simp only [Total.bind_iff, Total.read_iff, Total.pure_iff, hstate, bne_self_eq_false]
  exact h

/-- Only variables in `S` have changed, and neither the bus nor the notes. -/
structure SameBut (S : Var → Prop) (m m' : TwMachine) : Prop where
  vars : ∀ x, ¬ S x → m'.vars x = m.vars x
  device : m'.device = m.device
  log : m'.log = m.log

theorem SameBut.refl (S : Var → Prop) (m : TwMachine) : SameBut S m m := ⟨fun _ _ => rfl, rfl, rfl⟩

/-- What a chain of steps changes is within what each of them may change. -/
theorem SameBut.trans {S : Var → Prop} {m m' m'' : TwMachine} (h : SameBut S m m')
    (h' : SameBut S m' m'') : SameBut S m m'' :=
  ⟨fun x hx => (h'.vars x hx).trans (h.vars x hx), h'.device.trans h.device, h'.log.trans h.log⟩

theorem SameBut.set {S : Var → Prop} {x : Var} (hx : S x) (m : TwMachine) (v : Val x) :
    SameBut S m (m.set x v) := by
  refine ⟨fun y hy => Machine.set_vars_of_ne m ?_ v, rfl, rfl⟩
  rintro rfl
  exact hy hx

/-- The bytes that are to be sent come to the master buffer. -/
theorem copyToMaster_total {q : List Byte} (n i : Nat) (hi : i + n = q.length) {m : TwMachine}
    (htx : TxBytes m.vars q) (hdone : Spells (fun j => m.vars (.masterBuffer j)) (q.take i)) :
    Returns (copyToMaster n i) m fun bytes m' => bytes = q.drop i ∧
      Spells (fun j => m'.vars (.masterBuffer j)) q ∧ SameBut (∃ j, · = .masterBuffer j) m m' := by
  -- On the bytes that are left to copy; the first `i` are in the master buffer already.
  induction n generalizing i m with
  | zero =>
      refine Total.pure_iff.mpr ⟨?_, ?_, .refl _ m⟩
      · exact (List.drop_of_length_le (by omega)).symm
      · rwa [List.take_of_length_le (by omega)] at hdone
  | succ n ih =>
      have hlt : i < q.length := by omega
      have hb : m.vars (.txBuffer i) = q[i] := htx i _ (List.getElem?_eq_getElem hlt)
      have hcopied : SameBut (∃ j, · = .masterBuffer j) m (m.set (.masterBuffer i) q[i]) :=
        .set ⟨i, rfl⟩ m _
      unfold copyToMaster
      simp only [Total.bind_iff, Total.read_iff, Total.write_iff, hb,
        store_of_ne m (x := .masterBuffer i) (by simp), Total.pure_iff]
      refine (ih (i + 1) (by omega) ?_ ?_).mono ?_
      · exact htx.congr fun j _ => hcopied.vars _ (by simp)
      · apply hdone.take_succ hlt
        · intro j hj
          exact Machine.set_vars_of_ne m (by simp; omega) _
        · exact Machine.set_vars_self ..
      · rintro bytes m' ⟨rfl, hmaster, hsame⟩
        exact ⟨(List.drop_eq_getElem_cons hlt).symm, hmaster, hcopied.trans hsame⟩

/-- What `EndTransmission` returns after a transmission that has ended so. -/
def resultCode : Ending → Byte
  | .done => 0
  | .addressNack => 2
  | .dataNack => 3
  | .cut _ => 4

/-- The four branches at the end of `EndTransmission` turn the error into the result. -/
theorem result_of_error {m : TwMachine} {Q : Byte → TwMachine → Prop} {ending : Ending}
    (h : Q (resultCode ending) m) :
    Returns (if errorCode ending = twBusNoError then pure 0
      else if errorCode ending = 0x20 then pure 2
      else if errorCode ending = 0x30 then pure 3
      else pure 4) m Q := by
  rcases ending with _ | _ | _ | _ | _ <;>
    exact Total.pure_iff.mpr h

/-- The variables of `EndTransmission`. -/
def ofTransmission : Var → Bool
  | .sendStop | .slarw | .masterBufferLength | .txBufferIndex | .txBufferLength | .transmitting => true
  | x => ofTransaction x

/-- What the handler changes is part of it. -/
theorem ofTransmission_of_transaction {x : Var} (hx : ofTransaction x = true) :
    ofTransmission x = true := by
  cases x <;> first | exact hx | rfl

/-- What `EndTransmission` has done: `q` has been sent to `address`. -/
structure Transmitted (address : Byte) (q : List Byte) (sendStop : Bool) (m m' : TwMachine)
    (code : Byte) : Prop where
  code : code = resultCode (m.device.transmission (twWrite ||| address <<< 1) q sendStop).1
  device : m'.device = (m.device.transmission (twWrite ||| address <<< 1) q sendStop).2
  ready : Ready (Hardware.keeps sendStop
    (m.device.transmission (twWrite ||| address <<< 1) q sendStop).1) m'
  queue : Queue m'.vars []
  vars : ∀ x, ofTransmission x = false → m'.vars x = m.vars x
  log : ∃ notes, (∀ e ∈ notes, IsHandler e) ∧
    m'.log = m.log ++ .endTransmission (m.vars .portc &&& portCtrlMask) q :: notes

/-- The last bit of the address byte says that the master sends. -/
theorem slarw_write (address : Byte) : (twWrite ||| address <<< 1).getLsbD 0 = false := by
  simp [twWrite]

/-- The variables that `EndTransmission` sets first. -/
def setup (m : TwMachine) (sendStop : Bool) : TwMachine :=
  (((m.set .state twStateMtx).set .sendStop sendStop).set .error twBusNoError).set .masterBufferIndex 0

/-- Nothing outside the transmission is set. -/
theorem setup_vars (m : TwMachine) (sendStop : Bool) {x : Var} (hx : ofTransmission x = false) :
    (setup m sendStop).vars x = m.vars x := by
  have hne : ∀ {z}, ofTransmission z = true → x ≠ z := ne_of_set hx
  rw [setup, Machine.set_vars_of_ne _ (hne rfl), Machine.set_vars_of_ne _ (hne rfl),
    Machine.set_vars_of_ne _ (hne rfl), Machine.set_vars_of_ne _ (hne rfl)]

/-- The number of bytes queued is still there when the copy is made. -/
theorem setup_txBufferLength (m : TwMachine) (sendStop : Bool) :
    (setup m sendStop).vars .txBufferLength = m.vars .txBufferLength := by
  simp [setup, Machine.set_vars_of_ne]

/-- The machine `m'` is ready to send `q` with `slarw`, and is `m` otherwise. -/
structure Loaded (slarw : Byte) (q : List Byte) (sendStop : Bool) (m m' : TwMachine) : Prop where
  prepared : Prepared slarw q sendStop m'
  inRepStart : m'.vars .inRepStart = m.vars .inRepStart
  device : m'.device = m.device
  vars : ∀ x, ofTransmission x = false → m'.vars x = m.vars x

/-- After the copy to the master buffer. -/
theorem loaded_of_copied (slarw : Byte) {m m' : TwMachine} {length : Byte} {q : List Byte}
    {sendStop : Bool} (hlength : length.toNat = q.length)
    (hmaster : Spells (fun j => m'.vars (.masterBuffer j)) q)
    (hsame : SameBut (∃ j, · = .masterBuffer j)
      ((setup m sendStop).set .masterBufferLength length) m') (e : Event) :
    Loaded slarw q sendStop m
      (({ m' with log := m'.log ++ [e] } : TwMachine).set .slarw slarw) := by
  -- what the copy and the last two stores leave as it was set up
  have hset : ∀ x, (∀ j, x ≠ .masterBuffer j) → x ≠ .masterBufferLength → x ≠ .slarw →
      (({ m' with log := m'.log ++ [e] } : TwMachine).set .slarw slarw).vars x =
        (setup m sendStop).vars x := by
    intro x hx hne hslarw
    rw [Machine.set_vars_of_ne _ hslarw]
    exact (hsame.vars x (by simpa using hx)).trans (Machine.set_vars_of_ne _ hne _)
  refine ⟨⟨?_, Machine.set_vars_self .., ?_, ?_, ?_, ?_, ?_⟩, ?_, hsame.device, fun x hx => ?_⟩
  · rw [hset _ (by simp) (by simp) (by simp)]
    simp [setup, Machine.set_vars_of_ne]
  · rw [hset _ (by simp) (by simp) (by simp)]
    simp [setup, Machine.set_vars_of_ne]
  · rw [hset _ (by simp) (by simp) (by simp)]
    simp [setup, Machine.set_vars_of_ne]
  · rw [hset _ (by simp) (by simp) (by simp)]
    simp [setup]
  · rw [Machine.set_vars_of_ne _ (by simp)]
    apply (congrArg BitVec.toNat (hsame.vars .masterBufferLength (by simp))).trans
    rw [Machine.set_vars_self, hlength]
  · exact hmaster.congr fun j _ => Machine.set_vars_of_ne _ (by simp) _
  · rw [hset _ (by simp) (by simp) (by simp)]
    simp [setup, Machine.set_vars_of_ne]
  · have hne : ∀ {z}, ofTransmission z = true → x ≠ z := ne_of_set hx
    rw [hset x (fun j => hne rfl) (hne rfl) (hne rfl)]
    exact setup_vars m sendStop hx

/-- What follows the transmission. -/
theorem transmitted_of_sent {held : Bool} {m m₃ m₅ : TwMachine} {address : Byte} {q : List Byte}
    {sendStop : Bool} (hbus : m.device.Between held)
    (hloaded : Loaded (twWrite ||| address <<< 1) q sendStop m m₃)
    (hlog : m₃.log = m.log ++ [.endTransmission (m.vars .portc &&& portCtrlMask) q])
    (hsent : Sent sendStop (m.device.transmit (twWrite ||| address <<< 1) q) m₅)
    (hwithin : m₃.Within transactionPrint m₅) :
    Transmitted address q sendStop m
      (((m₅.set .txBufferIndex 0).set .txBufferLength 0).set .transmitting false)
      (resultCode (m.device.transmit (twWrite ||| address <<< 1) q).1) := by
  have hbusAfter := Hardware.transmission_traced hbus (twWrite ||| address <<< 1) q sendStop
  refine ⟨rfl, hsent.device, ⟨?_, ?_, ?_⟩, ?_, fun x hx => ?_, ?_⟩
  · simp [Machine.set_vars_of_ne, hsent.state]
  · simp [Machine.set_vars_of_ne, hsent.inRepStart, Hardware.transmission]
  -- the bus is as the transmission has left it
  · obtain ⟨_, -, -, hbetween⟩ := hbusAfter
    simp only [Machine.set_device, hsent.device]
    exact hbetween
  -- the queue has been emptied
  · refine ⟨Nat.zero_le _, ?_, ?_, Spells.nil _⟩
    · simp [Machine.set_vars_of_ne]
    · simp [Machine.set_vars_of_ne]
  · have hne : ∀ {z}, ofTransmission z = true → x ≠ z := ne_of_set hx
    rw [Machine.set_vars_of_ne _ (hne rfl), Machine.set_vars_of_ne _ (hne rfl),
      Machine.set_vars_of_ne _ (hne rfl), hwithin.vars x fun h => hne (ofTransmission_of_transaction h) rfl]
    exact hloaded.vars x hx
  -- the handler has left its own notes only
  · obtain ⟨notes, hnoted, hnotes⟩ := hwithin.log
    refine ⟨notes, hnotes, ?_⟩
    simp only [Machine.set_log, hnoted, hlog, List.append_assoc, List.cons_append, List.nil_append]

/-- `EndTransmission` on a bus that is at rest or kept: it sends what is queued, and returns how that has
ended. -/
theorem endTransmission_total {held : Bool} {q : List Byte} {m : TwMachine} (sendStop : Bool)
    (hready : Ready held m) (hqueue : Queue m.vars q) :
    Returns (endTransmission sendStop) m fun code m' =>
      Transmitted (m.vars .txAddress) q sendStop m m' code := by
  have hlength := hqueue.toNat_length
  have hle := hqueue.length_le
  unfold endTransmission
  simp only [Total.bind_iff, Total.read_iff]
  rw [if_neg (by rw [hlength, twBufferLength]; omega)]
  simp only [Total.bind_iff]
  apply awaitReady_total hready.state
  simp only [Total.write_iff, store_of_ne, ne_eq, reduceCtorEq, not_false_eq_true, Total.read_iff]
  rw [← setup, setup_txBufferLength, hlength]
  -- the copy
  refine (copyToMaster_total (q := q) q.length 0 (Nat.zero_add _) ?_ (Spells.nil _)).mono ?_
  · apply hqueue.bytes.congr
    intro i _
    rw [Machine.set_vars_of_ne _ (by simp), setup_vars m sendStop rfl]
  rintro bytes m₂ ⟨hbytes, hmaster, hsame⟩
  have hkept : ∀ x, (∀ j, x ≠ .masterBuffer j) → ofTransmission x = false → m₂.vars x = m.vars x := by
    intro x hx hof
    have hne : x ≠ .masterBufferLength := ne_of_set hof rfl
    rw [hsame.vars x (by simpa using hx), Machine.set_vars_of_ne _ hne, setup_vars m sendStop hof]
  simp only [Total.note_iff, hbytes, List.drop_zero, hkept .portc (by simp) rfl,
    hkept .txAddress (by simp) rfl]
  have hloaded := loaded_of_copied (twWrite ||| m.vars .txAddress <<< 1) hlength hmaster hsame
    (.endTransmission (m.vars .portc &&& portCtrlMask) q)
  have hlog : m₂.log = m.log := hsame.log
  rw [hlog] at hloaded ⊢
  generalize hm₃ : ({ m₂ with log := m.log ++ [.endTransmission (m.vars .portc &&& portCtrlMask)
    q] } : TwMachine).set .slarw (twWrite ||| m.vars .txAddress <<< 1) = m₃ at hloaded ⊢
  -- the transaction
  have hcarry := carryOut_within (transmit_total hloaded.prepared (slarw_write _)
    (hloaded.device ▸ hready.bus) (hloaded.inRepStart.trans hready.inRepStart))
  refine (Total.bind_iff.mp hcarry).mono fun _ m₄ h => h.mono ?_
  rintro - m₅ ⟨hsent, hwithin⟩
  rw [hloaded.device] at hsent
  have herror : (((m₅.set .txBufferIndex 0).set .txBufferLength 0).set .transmitting false).vars .error =
      errorCode (m.device.transmit (twWrite ||| m.vars .txAddress <<< 1) q).1 := by
    simp [Machine.set_vars_of_ne, hsent.error]
  rw [herror]
  apply result_of_error
  exact transmitted_of_sent hready.bus hloaded (hm₃ ▸ rfl) hsent hwithin

/-- The bytes received come to the receive buffer. -/
theorem copyFromMaster_total {bytes : List Byte} (n i : Nat) (hi : i + n = bytes.length)
    {m : TwMachine} (hmaster : Spells (fun j => m.vars (.masterBuffer j)) bytes)
    (hdone : Spells (fun j => m.vars (.rxBuffer j)) (bytes.take i)) :
    Returns (copyFromMaster n i) m fun copied m' => copied = bytes.drop i ∧
      Spells (fun j => m'.vars (.rxBuffer j)) bytes ∧ SameBut (∃ j, · = .rxBuffer j) m m' := by
  -- as for the other copy
  induction n generalizing i m with
  | zero =>
      refine Total.pure_iff.mpr ⟨?_, ?_, .refl _ m⟩
      · exact (List.drop_of_length_le (by omega)).symm
      · rwa [List.take_of_length_le (by omega)] at hdone
  | succ n ih =>
      have hlt : i < bytes.length := by omega
      have hb : m.vars (.masterBuffer i) = bytes[i] := hmaster i _ (List.getElem?_eq_getElem hlt)
      have hcopied : SameBut (∃ j, · = .rxBuffer j) m (m.set (.rxBuffer i) bytes[i]) :=
        .set ⟨i, rfl⟩ m _
      unfold copyFromMaster
      simp only [Total.bind_iff, Total.read_iff, Total.write_iff, hb,
        store_of_ne m (x := .rxBuffer i) (by simp), Total.pure_iff]
      refine (ih (i + 1) (by omega) ?_ ?_).mono ?_
      · exact hmaster.congr fun j _ => hcopied.vars _ (by simp)
      · apply hdone.take_succ hlt
        · intro j hj
          exact Machine.set_vars_of_ne m (by simp; omega) _
        · exact Machine.set_vars_self ..
      · rintro copied m' ⟨rfl, hrx, hsame⟩
        exact ⟨(List.drop_eq_getElem_cons hlt).symm, hrx, hcopied.trans hsame⟩

/-- The variables of `Read(address, n)`. -/
def ofReception : Var → Bool
  | .sendStop | .slarw | .masterBufferLength | .rxBuffer _ | .rxBufferIndex | .rxBufferLength => true
  | x => ofTransaction x

/-- What the handler changes is part of it. -/
theorem ofReception_of_transaction {x : Var} (hx : ofTransaction x = true) : ofReception x = true := by
  cases x <;> first | exact hx | rfl

/-- What `Read(address, n)` has done: `bytes` have been received. -/
structure Received (bytes : List Byte) (ending : Ending) (h : Hardware) (sendStop : Bool)
    (m m' : TwMachine) (length : Byte) : Prop where
  length : length.toNat = bytes.length
  device : m'.device = h
  ready : Ready (Hardware.keeps sendStop ending) m'
  unread : Unread m'.vars bytes
  vars : ∀ x, ofReception x = false → m'.vars x = m.vars x
  log : ∃ notes, (∀ e ∈ notes, IsHandler e) ∧
    m'.log = m.log ++ .request (m.vars .portc &&& portCtrlMask) :: notes ++ [.received bytes]

/-- The last bit of the address byte says that the master receives. -/
theorem slarw_read (address : Byte) : (twRead ||| address <<< 1).getLsbD 0 = true := by
  simp [twRead]

/-- `un_length`, once it has been clamped. -/
def clamp (length : Byte) : Byte :=
  if twBufferLength < length.toNat then BitVec.ofNat 8 twBufferLength else length

/-- A request is cut down to the size of the buffer. -/
theorem clamp_toNat (length : Byte) : (clamp length).toNat = min length.toNat 64 := by
  unfold clamp twBufferLength
  split
  · rw [BitVec.toNat_ofNat]
    omega
  · omega

/-- The caller learns how many bytes have come, which is never more than it asked for. -/
theorem receivedLength_total {m : TwMachine} {length : Byte} {n : Nat}
    {Q : Byte → TwMachine → Prop} (hindex : (m.vars .masterBufferIndex).toNat = n)
    (hn : n ≤ length.toNat) (h : ∀ v : Byte, v.toNat = n → Q v m) :
    Returns (receivedLength length) m Q := by
  unfold receivedLength
  simp only [Total.bind_iff, Total.read_iff]
  split
  · exact Total.read_iff.mpr (h _ hindex)
  · rename_i hge
    rw [BitVec.lt_def] at hge
    exact Total.pure_iff.mpr (h _ (by omega))

theorem receivedLength_bounded (m : TwMachine) (length : Byte) :
    Returns (receivedLength length) m fun v m' => v.toNat ≤ length.toNat ∧ m' = m := by
  unfold receivedLength
  simp only [Total.bind_iff, Total.read_iff]
  split
  · rename_i hless
    rw [BitVec.lt_def] at hless
    exact Total.read_iff.mpr ⟨hless.le, rfl⟩
  · exact Total.pure_iff.mpr ⟨le_rfl, rfl⟩

/-- The bytes received are read from the first one on. -/
theorem unread_of_start {s : Store Val} {bytes : List Byte} (hle : bytes.length ≤ 64)
    (hlength : (s .rxBufferLength).toNat = bytes.length) (hindex : s .rxBufferIndex = (0 : Byte))
    (hbytes : Spells (fun i => s (.rxBuffer i)) bytes) : Unread s bytes := by
  refine ⟨hle, ?_, fun i b hb => ?_⟩
  · rw [hlength, hindex]
    exact (Nat.zero_add _).symm
  · have hi : (s .rxBufferIndex).toNat + i = i := by
      rw [hindex]
      exact Nat.zero_add i
    beta_reduce
    rw [hi]
    exact hbytes i b hb

/-- The variables that `Read(address, n)` sets first, for `count` bytes. -/
def requestSetup (m : TwMachine) (slarw count : Byte) (sendStop : Bool) : TwMachine :=
  ((((((({ m with log := m.log ++ [.request (m.vars .portc &&& portCtrlMask)] } : TwMachine).set
    .state twStateMrx).set .sendStop sendStop).set .error twBusNoError).set .masterBufferIndex 0).set
    .masterBufferLength (count - 1)).set .slarw slarw)

/-- Nothing outside the reception is set. -/
theorem requestSetup_vars (m : TwMachine) (slarw count : Byte) (sendStop : Bool) {x : Var}
    (hx : ofReception x = false) : (requestSetup m slarw count sendStop).vars x = m.vars x := by
  have hne : ∀ {z}, ofReception z = true → x ≠ z := ne_of_set hx
  rw [requestSetup, Machine.set_vars_of_ne _ (hne rfl), Machine.set_vars_of_ne _ (hne rfl),
    Machine.set_vars_of_ne _ (hne rfl), Machine.set_vars_of_ne _ (hne rfl),
    Machine.set_vars_of_ne _ (hne rfl), Machine.set_vars_of_ne _ (hne rfl)]

/-- `masterBufferLength` is the index of the last byte: one less than the number that is asked for. -/
theorem requestSetup_requested (m : TwMachine) (slarw : Byte) {count : Byte} (sendStop : Bool) {n : Nat}
    (hcount : count.toNat = n + 1) (hn : n < 64) :
    Requested slarw n sendStop (requestSetup m slarw count sendStop) := by
  have hlast : (count - 1).toNat = n := by
    rw [BitVec.toNat_sub, hcount]
    simp
    omega
  refine ⟨?_, ?_, ?_, ?_, ?_, hn⟩
  · simp [requestSetup, Machine.set_vars_of_ne]
  · simp [requestSetup]
  · simp [requestSetup, Machine.set_vars_of_ne]
  · simp [requestSetup, Machine.set_vars_of_ne]
  · rw [requestSetup, Machine.set_vars_of_ne _ (by simp), Machine.set_vars_self]
    exact hlast

/-- Whether the bus is kept is still known when the START is due. -/
theorem requestSetup_inRepStart (m : TwMachine) (slarw count : Byte) (sendStop : Bool) :
    (requestSetup m slarw count sendStop).vars .inRepStart = m.vars .inRepStart := by
  simp [requestSetup, Machine.set_vars_of_ne]

/-- What follows the reception and the copy to the receive buffer. -/
theorem received_of_fetched {m m₃ m₄ : TwMachine} {slarw count received : Byte} {bytes : List Byte}
    {ending : Ending} {h : Hardware} {sendStop : Bool}
    (hfetched : Fetched sendStop (bytes, ending, h) m₃)
    (hbus : (h.finish sendStop ending).Between (Hardware.keeps sendStop ending))
    (hwithin : (requestSetup m slarw count sendStop).Within transactionPrint m₃)
    (hle : bytes.length ≤ 64) (hreceived : received.toNat = bytes.length)
    (hrx : Spells (fun j => m₄.vars (.rxBuffer j)) bytes)
    (hsame : SameBut (∃ j, · = .rxBuffer j) m₃ m₄) :
    Received bytes ending (h.finish sendStop ending) sendStop m
      { (m₄.set .rxBufferIndex 0).set .rxBufferLength received with
        log := ((m₄.set .rxBufferIndex 0).set .rxBufferLength received).log ++ [.received bytes] }
      received := by
  refine ⟨hreceived, ?_, ⟨?_, ?_, ?_⟩, ?_, fun x hx => ?_, ?_⟩
  · exact hsame.device.trans hfetched.device
  · simp [Machine.set_vars_of_ne, hsame.vars, hfetched.state]
  · simp [Machine.set_vars_of_ne, hsame.vars, hfetched.inRepStart]
  · simp only [Machine.set_device, hsame.device, hfetched.device]
    exact hbus
  -- the bytes are in the receive buffer, to be read from its start
  · refine unread_of_start hle ?_ ?_ (hrx.congr fun i _ => ?_)
    · simp [hreceived]
    · simp [Machine.set_vars_of_ne]
    · simp [Machine.set_vars_of_ne]
  · have hne : ∀ {z}, ofReception z = true → x ≠ z := ne_of_set hx
    simp only
    rw [Machine.set_vars_of_ne _ (hne rfl), Machine.set_vars_of_ne _ (hne rfl),
      hsame.vars x (by rintro ⟨j, rfl⟩; exact hne rfl rfl),
      hwithin.vars x fun h => hne (ofReception_of_transaction h) rfl]
    exact requestSetup_vars m slarw count sendStop hx
  -- the request, what the handler has noted, and the bytes
  · obtain ⟨notes, hlog, hnotes⟩ := hwithin.log
    refine ⟨notes, hnotes, ?_⟩
    simp only [Machine.set_log, hsame.log, hlog, requestSetup, List.append_assoc, List.cons_append,
      List.nil_append]

/-- `Read(address, n)` is a reception. -/
theorem readFrom_total {held : Bool} {m : TwMachine} (address : Byte) {length : Byte} (sendStop : Bool)
    (hready : Ready held m) (hlength : length ≠ 0) :
    Returns (readFrom address length sendStop) m fun received m' =>
      ∃ bytes ending h, m.device.reception (twRead ||| address <<< 1) (min length.toNat 64) sendStop =
        (bytes, ending, h) ∧ Received bytes ending h sendStop m m' received := by
  have hclamp := clamp_toNat length
  have hpos : length.toNat ≠ 0 := fun h => hlength (BitVec.eq_of_toNat_eq h)
  unfold readFrom
  rw [← clamp]
  generalize clamp length = count at hclamp ⊢
  obtain ⟨n, hn⟩ : ∃ n, min length.toNat 64 = n + 1 := Nat.exists_eq_add_one.mpr (by omega)
  rw [hn] at hclamp ⊢
  simp only [Total.bind_iff, Total.note_iff]
  refine awaitReady_total hready.state ?_
  simp only [Total.write_iff, store_of_ne, ne_eq, reduceCtorEq, not_false_eq_true]
  rw [← requestSetup]
  -- the transaction
  have hcarry := carryOut_within (fetch_total
    (requestSetup_requested m (twRead ||| address <<< 1) sendStop hclamp (by omega)) (slarw_read _)
    hready.bus ((requestSetup_inRepStart m _ count sendStop).trans hready.inRepStart))
  refine (Total.bind_iff.mp hcarry).mono fun _ m₂ h => h.mono ?_
  rintro - m₃ ⟨hfetched, hwithin⟩
  replace hfetched : Fetched sendStop (m.device.fetch (twRead ||| address <<< 1) (n + 1)) m₃ := hfetched
  have hle := Hardware.fetch_length_le m.device (twRead ||| address <<< 1) (n + 1)
  apply receivedLength_total hfetched.index (by omega)
  intro received hreceived
  have hbusAfter := Hardware.reception_traced hready.bus (twRead ||| address <<< 1) (n + 1) sendStop
  obtain ⟨bytes, ending, h, hfetch⟩ : ∃ bytes ending h,
      m.device.fetch (twRead ||| address <<< 1) (n + 1) = (bytes, ending, h) := ⟨_, _, _, rfl⟩
  have hreception : m.device.reception (twRead ||| address <<< 1) (n + 1) sendStop =
      (bytes, ending, h.finish sendStop ending) := by
    unfold Hardware.reception
    rw [hfetch]
  rw [hreception] at hbusAfter ⊢
  rw [hfetch] at hfetched hreceived hle
  obtain ⟨_, -, -, hbetween⟩ := hbusAfter
  -- the copy
  rw [hreceived]
  apply (copyFromMaster_total bytes.length 0 (Nat.zero_add _) hfetched.bytes (Spells.nil _)).mono
  rintro copied m₄ ⟨hcopied, hrx, hsame⟩
  rw [List.drop_zero] at hcopied
  rw [hcopied]
  apply Total.pure_iff.mpr
  refine ⟨bytes, ending, _, rfl, ?_⟩
  exact received_of_fetched hfetched hbetween hwithin (hle.trans (by omega)) hreceived hrx hsame

/-- Now `q` is queued for `address`; nothing else has happened. -/
structure Queued (address : Byte) (q : List Byte) (notes : List Event) (m m' : TwMachine) : Prop where
  address : m'.vars .txAddress = address
  queue : Queue m'.vars q
  vars : ∀ x, ofQueue x = false → m'.vars x = m.vars x
  device : m'.device = m.device
  log : m'.log = m.log ++ notes

/-- Queueing has nothing to do with the bus. -/
theorem Queued.ready {address : Byte} {q : List Byte} {notes : List Event} {m m' : TwMachine}
    {held : Bool} (h : Queued address q notes m m') (hm : Ready held m) : Ready held m' :=
  hm.congr (h.vars _ rfl) (h.vars _ rfl) h.device

/-- `BeginTransmission` drops whatever is queued. -/
theorem beginTransmission_total {m : TwMachine} (address : Byte) :
    Returns (beginTransmission address) m fun _ m' =>
      Queued address [] [.beginTransmission] m m' := by
  unfold beginTransmission
  simp only [Total.bind_iff, Total.write_iff, store_of_ne, ne_eq, reduceCtorEq, not_false_eq_true,
    Total.note_iff]
  refine ⟨?_, ⟨Nat.zero_le _, ?_, ?_, Spells.nil _⟩, fun x hx => ?_, rfl, rfl⟩
  · simp [Machine.set_vars_of_ne]
  · simp
  · simp [Machine.set_vars_of_ne]
  · have hne : ∀ {z}, ofQueue z = true → x ≠ z := ne_of_set hx
    simp only
    rw [Machine.set_vars_of_ne _ (hne rfl), Machine.set_vars_of_ne _ (hne rfl),
      Machine.set_vars_of_ne _ (hne rfl), Machine.set_vars_of_ne _ (hne rfl)]

/-- `Write` takes a byte as long as there is room for it. -/
theorem writeByte_total {m : TwMachine} {q : List Byte} (data : Byte) (hq : Queue m.vars q) :
    Returns (writeByte data) m fun r m' =>
      if q.length < 64 then r = 1 ∧ Queued (m.vars .txAddress) (q ++ [data]) [.accepted data] m m'
      else r = 0 ∧ m' = m := by
  have hlength := hq.toNat_length
  have hindex := hq.index
  unfold writeByte
  simp only [Total.bind_iff, Total.read_iff]
  by_cases hroom : q.length < 64
  · rw [if_neg (by rw [hlength, twBufferLength]; omega)]
    simp only [Total.bind_iff, Total.read_iff, Total.write_iff,
      store_of_ne _ (x := .txBuffer _) (by simp), store_of_ne _ (x := .txBufferIndex) (by simp),
      store_of_ne _ (x := .txBufferLength) (by simp), Total.note_iff]
    apply Total.pure_iff.mpr
    rw [if_pos hroom]
    refine ⟨rfl, ?_, ⟨?_, ?_, ?_, ?_⟩, fun x hx => ?_, rfl, rfl⟩
    · simp [Machine.set_vars_of_ne]
    · rw [List.length_append]
      exact hroom
    -- the length follows the index, which has gone on by one
    · have hset : m.vars .txBufferLength + 1 = BitVec.ofNat 8 (q ++ [data]).length := by
        rw [hq.length, List.length_append]
        exact (BitVec.ofNat_add ..).symm
      rw [← hset, ← hindex]
      simp [Machine.set_vars_of_ne]
    · simp [Machine.set_vars_of_ne]
    -- the bytes before are not overwritten, and the new one is behind them
    · refine Spells.concat (hq.bytes.congr fun i hi => ?_) ?_
      · have hne : i ≠ (m.vars .txBufferIndex).toNat := by
          rw [hindex, hlength]
          omega
        simp [Machine.set_vars_of_ne, hne]
      · have heq : (m.vars .txBufferIndex).toNat = q.length := by rw [hindex, hlength]
        rw [← heq]
        simp [Machine.set_vars_of_ne]
    · have hne : ∀ {z}, ofQueue z = true → x ≠ z := ne_of_set hx
      simp only
      rw [Machine.set_vars_of_ne _ (hne rfl), Machine.set_vars_of_ne _ (hne rfl),
        Machine.set_vars_of_ne _ (hne rfl)]
  -- the buffer is full: nothing is stored and 0 is returned
  · rw [if_pos (by rw [hlength, twBufferLength]; omega)]
    apply Total.pure_iff.mpr
    rw [if_neg hroom]
    exact ⟨rfl, rfl⟩

/-- `Read()` hands out the bytes received, and then `0xFF`. -/
theorem readByte_total {m : TwMachine} {bytes : List Byte} (hu : Unread m.vars bytes) :
    Returns readByte m fun r m' => r = bytes.headD 0xFF ∧ Unread m'.vars bytes.tail ∧
      (∀ x, x ≠ .rxBufferIndex → m'.vars x = m.vars x) ∧ m'.device = m.device ∧
      m'.log = m.log ++ [.taken r] := by
  have hlength := hu.length
  unfold readByte
  simp only [Total.bind_iff, Total.read_iff]
  cases bytes with
  -- nothing is left to read: the result stays 0xFF
  | nil =>
      rw [if_neg (by rw [BitVec.lt_def, hlength]; simp), Total.bind_iff, Total.note_iff, Total.pure_iff]
      exact ⟨rfl, hu, fun _ _ => rfl, rfl, rfl⟩
  | cons b bytes =>
      have hmore : m.vars .rxBufferIndex < m.vars .rxBufferLength := by
        rw [BitVec.lt_def, hlength, List.length_cons]
        omega
      have hsucc := toNat_succ_of_lt hmore
      have hb : m.vars (.rxBuffer (m.vars .rxBufferIndex).toNat) = b := hu.bytes 0 b rfl
      rw [if_pos hmore]
      simp only [Total.bind_iff, Total.read_iff, Total.write_iff,
        store_of_ne _ (x := .rxBufferIndex) (by simp), Total.note_iff, hb]
      apply Total.pure_iff.mpr
      refine ⟨rfl, ⟨?_, ?_, fun i d hd => ?_⟩, fun x hx => Machine.set_vars_of_ne m hx _, rfl, rfl⟩
      · exact (Nat.le_succ _).trans hu.length_le
      · simp only [Machine.set_vars_self, hsucc, List.tail_cons]
        rw [Machine.set_vars_of_ne _ (by simp), hlength, List.length_cons]
        omega
      -- the bytes that are left begin one place further on
      · have hi : ((m.set .rxBufferIndex (m.vars .rxBufferIndex + 1)).vars .rxBufferIndex).toNat + i =
            (m.vars .rxBufferIndex).toNat + (i + 1) := by
          rw [Machine.set_vars_self, hsucc]
          omega
        beta_reduce
        rw [hi, Machine.set_vars_of_ne _ (by simp)]
        exact hu.bytes (i + 1) d hd

/-- `Peek()` returns the same byte, and leaves it there. -/
theorem peek_total {m : TwMachine} {bytes : List Byte} (hu : Unread m.vars bytes) :
    Returns peek m fun r m' => r = bytes.headD 0xFF ∧ m' = m := by
  have hlength := hu.length
  unfold peek
  simp only [Total.bind_iff, Total.read_iff]
  cases bytes with
  | nil =>
      rw [if_neg (by rw [BitVec.lt_def, hlength]; simp), Total.pure_iff]
      exact ⟨rfl, rfl⟩
  | cons b bytes =>
      have hb : m.vars (.rxBuffer (m.vars .rxBufferIndex).toNat) = b := hu.bytes 0 b rfl
      rw [if_pos (by rw [BitVec.lt_def, hlength]; simp), Total.read_iff]
      exact ⟨hb, rfl⟩

/-- `Available()` tells whether there are bytes left. -/
theorem available_total {m : TwMachine} {bytes : List Byte} (hu : Unread m.vars bytes) :
    Returns available m fun r m' => r = decide (bytes ≠ []) ∧ m' = m := by
  have hlength := hu.length
  unfold available
  simp only [Total.bind_iff, Total.read_iff]
  refine Total.pure_iff.mpr ⟨?_, rfl⟩
  rw [hlength, decide_eq_decide, ← List.length_pos_iff]
  push_cast
  omega

end CTWController

end SmartblocksOs.Board
