/-
# SmartblocksOs.Board.TwSections -- what the callers of `CTWController` do with it

Between the lock and the unlock of the controller its callers queue bytes, send them, ask for bytes and
take them. The lemmas here say what each of these does to the bus and to the notes of the task
(`Worked`), and what the lines around them do: the call of `CPortController::instance()`, which
initialises the port controller once, and the turn of the multiplexer (`AtHand`).

`Worked held h l m m'` is all that a caller has to carry along: the bus is in state `h`, the traffic `l`
has been noted since, and of the variables only those of the controller have changed. Each call of the
controller appends to `h` and `l`. Since a caller of several transactions composes these by name, the
proofs about the LED and the NFC controller never look into `CTWController`.
-/
import SmartblocksOs.Board.PortController
import SmartblocksOs.Board.TwCalls

namespace SmartblocksOs.Board

open SmartblocksOs.Foundation SmartblocksOs.System SmartblocksOs.Foundation.TwoWire

open CTWController CPortController

/-! ## Addresses, variables and notes

The address byte of a slave for each direction, and the part of the notes that is traffic on the bus. -/

/-- The address of a slave with the direction. -/
def slaw (address : Byte) : Byte := twWrite ||| address <<< 1

/-- The address of a slave that is to send. -/
def slar (address : Byte) : Byte := twRead ||| address <<< 1

/-- The variables of the controller, and the registers of the hardware. -/
def ofTw : Var → Bool
  | .twsr | .twdr | .twcr | .rxBuffer _ | .rxBufferIndex | .rxBufferLength | .txAddress | .txBuffer _
  | .txBufferIndex | .txBufferLength | .transmitting | .state | .slarw | .sendStop | .inRepStart
  | .error | .masterBuffer _ | .masterBufferIndex | .masterBufferLength => true
  | _ => false

/-- The variables of the controller are those of its functions. -/
theorem of_ofTw {x : Var} (hx : ofTw x = false) :
    ofQueue x = false ∧ ofTransmission x = false ∧ ofReception x = false ∧ x ≠ .rxBufferIndex := by
  revert hx
  cases x <;> simp [ofTw, ofQueue, ofTransmission, ofReception, ofTransaction]

/-- What has been handed to `EndTransmission`, and what has been received. -/
inductive Traffic where
  | sent (bytes : List Byte)
  | received (bytes : List Byte)
  deriving DecidableEq, Repr

/-- A note of what has been sent or received. -/
def Event.traffic? : Event → Option Traffic
  | .endTransmission _ bytes => some (.sent bytes)
  | .received bytes => some (.received bytes)
  | _ => none

/-- What has been sent and received, according to the notes. -/
def traffic (notes : List Event) : List Traffic := notes.filterMap Event.traffic?

theorem traffic_nil : traffic [] = [] := rfl

theorem traffic_append (notes notes' : List Event) :
    traffic (notes ++ notes') = traffic notes ++ traffic notes' :=
  List.filterMap_append ..

theorem traffic_cons (e : Event) (notes : List Event) :
    traffic (e :: notes) = e.traffic?.toList ++ traffic notes := by
  unfold traffic
  cases he : e.traffic? <;> simp [he]

/-- The handler adds nothing to the traffic of its caller. -/
theorem traffic_handlers {notes : List Event} (h : ∀ e ∈ notes, IsHandler e) : traffic notes = [] := by
  apply List.filterMap_eq_nil_iff.mpr
  intro e he
  obtain ⟨select, rfl⟩ := h e he
  rfl

/-! ## Inside the lock

What `CTWController` does for a caller that has locked it, method by method. -/

/-- The controller has been at work: the bus is as in `h`, and `l` is what there has been on it. -/
structure Worked (held : Bool) (h : Hardware) (l : List Traffic) (m m' : TwMachine) : Prop where
  ready : Ready held m'
  device : m'.device = h
  vars : ∀ x, ofTw x = false → m'.vars x = m.vars x
  log : traffic m'.log = traffic m.log ++ l

/-- Moreover `q` is queued for `address`. -/
structure Queueing (address : Byte) (q : List Byte) (held : Bool) (h : Hardware) (l : List Traffic)
    (m m' : TwMachine) : Prop extends Worked held h l m m' where
  queue : Queue m'.vars q
  address : m'.vars .txAddress = address

/-- Nothing has been done yet. -/
theorem Worked.refl {held : Bool} {m : TwMachine} (h : Ready held m) : Worked held m.device [] m m :=
  ⟨h, rfl, fun _ _ => rfl, (List.append_nil _).symm⟩

section

variable {held : Bool} {h : Hardware} {l : List Traffic} {m m' : TwMachine}

theorem Worked.note {e : Event} (he : e.traffic? = none) (hm : Worked held h l m m') :
    Worked held h l m { m' with log := m'.log ++ [e] } :=
  ⟨hm.ready.noted e, hm.device, hm.vars,
    by simp [traffic_append, hm.log, traffic_cons, he, traffic_nil]⟩

/-- A note that is no traffic may come first. -/
theorem Worked.noted {e : Event} (he : e.traffic? = none)
    (hm : Worked held h l { m with log := m.log ++ [e] } m') : Worked held h l m m' :=
  ⟨hm.ready, hm.device, hm.vars, by simp [hm.log, traffic_append, traffic_cons, he, traffic_nil]⟩

/-- Queueing leaves the bus and the traffic as they were. -/
theorem Worked.queued {address : Byte} {q : List Byte} {notes : List Event} {m'' : TwMachine}
    (hm : Worked held h l m m') (hq : Queued address q notes m' m'') (hnotes : traffic notes = []) :
    Queueing address q held h l m m'' :=
  ⟨⟨hq.ready hm.ready, hq.device.trans hm.device,
    fun x hx => (hq.vars x (of_ofTw hx).1).trans (hm.vars x hx),
    by rw [hq.log, traffic_append, hnotes, hm.log, List.append_nil]⟩, hq.queue, hq.address⟩

/-- `BeginTransmission(address)`. -/
theorem begin_worked (address : Byte) (hm : Worked held h l m m') :
    Returns (beginTransmission address) m' fun _ m'' => Queueing address [] held h l m m'' :=
  (beginTransmission_total address).mono fun _ _ hq => hm.queued hq rfl

/-- `Write(b)`, with room in the buffer. -/
theorem write_worked {address : Byte} {q : List Byte} (b : Byte) (hroom : q.length < 64)
    (hm : Queueing address q held h l m m') :
    Returns (writeByte b) m' fun r m'' => r = 1 ∧ Queueing address (q ++ [b]) held h l m m'' := by
  apply (writeByte_total b hm.queue).mono
  intro r m'' hr
  rw [if_pos hroom, hm.address] at hr
  exact ⟨hr.1, hm.toWorked.queued hr.2 rfl⟩

/-- A byte for which there is no room is refused. -/
theorem write_refused {address : Byte} {q : List Byte} (b : Byte) (hfull : ¬ q.length < 64) (hm : Queueing address q held h l m m') :
    Returns (writeByte b) m' fun r m'' => r = 0 ∧ Queueing address q held h l m m'' := by
  apply (writeByte_total b hm.queue).mono
  intro r m'' hr
  rw [if_neg hfull] at hr
  obtain ⟨hzero, rfl⟩ := hr
  exact ⟨hzero, hm⟩

/-- `Write`, whether there is room or not. -/
theorem write_take {address : Byte} {q : List Byte} (b : Byte) (hm : Queueing address (q.take 64) held h l m m') :
    Returns (writeByte b) m' fun _ m'' => Queueing address ((q ++ [b]).take 64) held h l m m'' := by
  by_cases hroom : q.length < 64
  · rw [List.take_of_length_le hroom.le] at hm
    rw [List.take_of_length_le (by rw [List.length_append]; exact hroom)]
    exact (write_worked b hroom hm).mono fun _ _ hr => hr.2
  · rw [List.take_append_of_le_length (by omega)]
    exact (write_refused b (by simp; omega) hm).mono fun _ _ hr => hr.2

/-- `EndTransmission(stop)` puts the bytes queued on the bus, as one transmission. -/
theorem end_worked {address : Byte} {q : List Byte} (sendStop : Bool)
    (hm : Queueing address q held h l m m') :
    Returns (endTransmission sendStop) m' fun _ m'' =>
      Worked (Hardware.keeps sendStop (h.transmission (slaw address) q sendStop).1)
        (h.transmission (slaw address) q sendStop).2 (l ++ [.sent q]) m m'' ∧
      m''.vars .txAddress = address := by
  apply (endTransmission_total sendStop hm.ready hm.queue).mono
  intro _ m'' ht
  rw [hm.address] at ht
  obtain ⟨notes, hnotes, hlog⟩ := ht.log
  refine ⟨⟨?_, ?_, fun x hx => ?_, ?_⟩, (ht.vars _ rfl).trans hm.address⟩
  · have hready := ht.ready
    rw [hm.device] at hready
    exact hready
  · have hdevice := ht.device
    rw [hm.device] at hdevice
    exact hdevice
  · exact (ht.vars x (of_ofTw hx).2.1).trans (hm.vars x hx)
  · rw [hlog, traffic_append, hm.log, traffic_cons, traffic_handlers hnotes]
    simp [Event.traffic?]

/-- With a STOP the bus is not kept. -/
theorem keeps_stop (ending : Ending) : Hardware.keeps true ending = false := by
  cases ending <;> rfl

/-- `Read(address, length, true)` takes one reception from the bus, and what has come is there to be read.
-/
theorem read_worked (address : Byte) {length : Byte} (hlength : length ≠ 0)
    (hm : Worked held h l m m') :
    Returns (readFrom address length true) m' fun _ m'' =>
      Worked false (h.reception (slar address) (min length.toNat 64) true).2.2
        (l ++ [.received (h.reception (slar address) (min length.toNat 64) true).1]) m m'' ∧
      Unread m''.vars (h.reception (slar address) (min length.toNat 64) true).1 := by
  apply (readFrom_total address true hm.ready hlength).mono
  rintro _ m'' ⟨bytes, ending, h', hreception, ht⟩
  rw [hm.device] at hreception
  change h.reception (slar address) _ _ = _ at hreception
  obtain ⟨notes, hnotes, hlog⟩ := ht.log
  rw [hreception]
  refine ⟨⟨?_, ht.device, fun x hx => ?_, ?_⟩, ht.unread⟩
  · have hready := ht.ready
    rwa [keeps_stop] at hready
  · exact (ht.vars x (of_ofTw hx).2.2.1).trans (hm.vars x hx)
  · rw [hlog, traffic_append, traffic_append, hm.log, traffic_cons, traffic_handlers hnotes]
    simp [traffic_cons, traffic_nil, Event.traffic?]

/-- The byte received is taken, or the filler if there is none. -/
theorem take_worked {bytes : List Byte} (hm : Worked held h l m m') (hu : Unread m'.vars bytes) :
    Returns readByte m' fun b m'' =>
      b = bytes.headD 0xFF ∧ Worked held h l m m'' ∧ Unread m''.vars bytes.tail := by
  apply (readByte_total hu).mono
  intro b m''
  rintro ⟨hb, hu', hvars, hdevice, hlog⟩
  refine ⟨hb, ⟨hm.ready.congr (hvars _ (by simp)) (hvars _ (by simp)) hdevice, hdevice.trans hm.device,
    fun x hx => ?_, ?_⟩, hu'⟩
  · exact (hvars x (of_ofTw hx).2.2.2).trans (hm.vars x hx)
  · rw [hlog, traffic_append, hm.log, traffic_cons]
    simp [Event.traffic?, traffic_nil]

end

/-! ## Registers of a slave

The two patterns in which the board uses the bus for its LED drivers and port expanders: a register number
and a value are sent, or a register number is sent and a value asked for with the bus kept in between. -/

/-- What is received when register `addr` is asked for, and what has become of the bus. -/
def readBack (h : Hardware) (address addr : Byte) : List Byte × Ending × Hardware :=
  (h.transmission (slaw address) [addr] false).2.reception (slar address) 1 true

section

variable {held : Bool} {h : Hardware} {l : List Traffic} {m m' : TwMachine}

/-- Register `addr` is asked for. -/
theorem request_worked {α : Type} {Q : α → TwMachine → Prop} {k : Byte → Code α}
    (address addr : Byte) (hm : Worked held h l m m')
    (hk : ∀ length m'', Worked false (readBack h address addr).2.2
        (l ++ [.sent [addr], .received (readBack h address addr).1]) m m'' →
      Unread m''.vars (readBack h address addr).1 → Returns (k length) m'' Q) :
    Returns (do
      beginTransmission address
      let _ ← writeByte addr
      let _ ← endTransmission false
      let length ← readFrom address 1 true
      k length) m' Q := by
  apply Total.seq (begin_worked address hm)
  intro _ m₁ h₁
  apply Total.seq (write_worked addr (by decide) h₁)
  rintro _ m₂ ⟨-, h₂⟩
  apply Total.seq (end_worked false h₂)
  rintro _ m₃ ⟨h₃, -⟩
  apply Total.seq (read_worked address (by decide) h₃)
  rintro length m₄ ⟨h₄, hu⟩
  rw [List.append_assoc] at h₄
  exact hk length m₄ h₄ hu

/-- Register `addr` is written. -/
theorem update_worked {Q : Unit → TwMachine → Prop} {k : Code Unit} (address addr v : Byte)
    (hm : Worked held h l m m')
    (hk : ∀ m'', Worked false (h.transmission (slaw address) [addr, v] true).2
      (l ++ [.sent [addr, v]]) m m'' → Returns k m'' Q) :
    Returns (do
      beginTransmission address
      let _ ← writeByte addr
      let _ ← writeByte v
      let _ ← endTransmission true
      k) m' Q := by
  apply Total.seq (begin_worked address hm)
  intro _ m₁ h₁
  apply Total.seq (write_worked addr (by decide) h₁)
  rintro _ m₂ ⟨-, h₂⟩
  apply Total.seq (write_worked v (by simp) h₂)
  rintro _ m₃ ⟨-, h₃⟩
  apply Total.seq (end_worked true h₃)
  rintro _ m₄ ⟨h₄, -⟩
  rw [keeps_stop] at h₄
  exact hk m₄ h₄

end

/-! ## Around the lock

The lines before and after. The first use of the port controller brings a transaction of its own, so that
the traffic of an operation may begin with that. -/

theorem calledFor_total {α : Type} {f : Callee} {body : Code α} {m : TwMachine}
    {Q : α → TwMachine → Prop}
    (h : Returns body { m with log := m.log ++ [.called f] } fun a m' =>
      Q a { m' with log := m'.log ++ [.returned] }) : Returns (calledFor f body) m Q := by
  unfold calledFor
  simp only [Total.bind_iff, Total.note_iff, Total.pure_iff]
  exact h

/-- The multiplexer is turned by a store to `PORTC`. -/
theorem selectPort_total {m : TwMachine} (target : EPort) :
    Returns (selectPort target) m fun _ m' => SameBut (· = .portc) m m' := by
  unfold selectPort
  simp only [Total.bind_iff, Total.read_iff, Total.write_iff, store_of_ne _ (x := .portc) (by simp)]
  exact (SameBut.set (S := (· = .portc)) rfl m _).trans (SameBut.set (S := (· = .portc)) rfl _ _)

/-- The port controller is initialised, the bus is as in `h`, and `l` is what there has been on it. -/
structure AtHand (h : Hardware) (l : List Traffic) (m m' : TwMachine) : Prop where
  ready : ∃ held, Ready held m'
  device : m'.device = h
  init : m'.vars .initRequired = false
  log : traffic m'.log = traffic m.log ++ l

section

variable {h : Hardware} {l : List Traffic} {m m' : TwMachine}

/-- The controller at work between two such lines. -/
theorem AtHand.worked {held : Bool} {h' : Hardware} {l' : List Traffic} {m'' : TwMachine}
    (hm : AtHand h l m m') (hm' : Worked held h' l' m' m'') : AtHand h' (l ++ l') m m'' :=
  ⟨⟨held, hm'.ready⟩, hm'.device, (hm'.vars _ rfl).trans hm.init,
    by rw [hm'.log, hm.log, List.append_assoc]⟩

/-- Turning the multiplexer is none of the traffic. -/
theorem AtHand.same {m'' : TwMachine} (hm : AtHand h l m m') (hsame : SameBut (· = .portc) m' m'') :
    AtHand h l m m'' := by
  obtain ⟨held, hready⟩ := hm.ready
  exact ⟨⟨held, hready.congr (hsame.vars _ (by simp)) (hsame.vars _ (by simp)) hsame.device⟩,
    hsame.device.trans hm.device, (hsame.vars _ (by simp)).trans hm.init,
    by rw [hsame.log, hm.log]⟩

theorem AtHand.note {e : Event} (he : e.traffic? = none) (hm : AtHand h l m m') :
    AtHand h l m { m' with log := m'.log ++ [e] } := by
  obtain ⟨held, hready⟩ := hm.ready
  exact ⟨⟨held, hready.noted e⟩, hm.device, hm.init,
    by simp [traffic_append, hm.log, traffic_cons, he, traffic_nil]⟩

theorem AtHand.noted {e : Event} (he : e.traffic? = none)
    (hm : AtHand h l { m with log := m.log ++ [e] } m') : AtHand h l m m' :=
  ⟨hm.ready, hm.device, hm.init, by simp [hm.log, traffic_append, traffic_cons, he, traffic_nil]⟩

/-- Once it is initialised, the port controller is simply at hand. -/
theorem AtHand.onInstance {α : Type} {method : Code α} {Q : α → TwMachine → Prop}
    (hm : AtHand h l m m') (hmethod : Returns method m' Q) : Returns (onInstance method) m' Q := by
  refine Total.bind (Total.bind (Total.read_iff.mpr ?_))
  rw [if_neg (by rw [hm.init]; exact Bool.false_ne_true)]
  exact Total.pure_iff.mpr hmethod

end

/-- The bus after `CPortController::instance()`. -/
def afterInstance (m : TwMachine) : Hardware :=
  if m.vars .initRequired then
    (m.device.transmission (slaw pca9554RstAddr) [pca9554Config, 0xC0] true).2
  else m.device

/-- What it sends. -/
def instanceTraffic (m : TwMachine) : List Traffic :=
  if m.vars .initRequired then [.sent [pca9554Config, 0xC0]] else []

/-- `CPortController::instance()` sends the configuration once, when the port controller is first used. -/
theorem initOnFirstUse_total {held : Bool} {m : TwMachine} (hready : Ready held m) :
    Returns initOnFirstUse m fun _ m' => AtHand (afterInstance m) (instanceTraffic m) m m' := by
  unfold initOnFirstUse afterInstance instanceTraffic
  refine Total.bind (Total.read_iff.mpr ?_)
  cases hinit : m.vars .initRequired with
  | false => exact Total.pure_iff.mpr ⟨⟨held, hready⟩, rfl, hinit, (List.append_nil _).symm⟩
  | true =>
      refine Total.bind (Total.acquire_iff.mpr (Total.bind (calledFor_total ?_)))
      apply Total.seq (selectPort_total _)
      intro _ m₁ h₁
      refine Total.bind (Total.acquire_iff.mpr ?_)
      have hready₁ : Ready held m₁ :=
        (hready.noted (.called .port)).congr (h₁.vars _ (by simp)) (h₁.vars _ (by simp)) h₁.device
      apply update_worked pca9554RstAddr pca9554Config 0xC0 (Worked.refl hready₁)
      intro m₂ h₂
      simp only [Total.bind_iff, Total.release_iff, Total.read_iff, Total.write_iff, store_of_ne, ne_eq,
        reduceCtorEq, not_false_eq_true]
      refine ⟨⟨false, ?_⟩, ?_, ?_, ?_⟩
      · exact h₂.ready.congr (by simp [Machine.set_vars_of_ne]) (by simp [Machine.set_vars_of_ne]) rfl
      · simp [h₂.device, h₁.device]
      · simp
      · simp [traffic_append, h₂.log, h₁.log, traffic_cons, traffic_nil, Event.traffic?]

end SmartblocksOs.Board
