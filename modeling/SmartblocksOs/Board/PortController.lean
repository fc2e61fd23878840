/-
# SmartblocksOs.Board.PortController -- `CPortController`

`CPortController::instance()` initialises the controller on first use, under the controller's own
lock and with the multiplexer turned to no port. It is called before every method, also where the
caller holds the lock already; it then finds `bInitRequired` cleared (`onInstance_spec`), as the
caller has been through it before it took the lock.

`SelectPort` makes two stores to `PORTC`: the bits of the multiplexer are cleared and then set, so that
between the two no port is selected. The rest of the port may be changed by an interrupt or another task
only where it is shared, which `PORTC` is not: it belongs to the lock of the port controller.
-/
import SmartblocksOs.Board.TwController
import SmartblocksOs.Port.Interrupt

namespace SmartblocksOs.Board

open SmartblocksOs.Foundation SmartblocksOs.System

/-- `System::sleep`: the others run, for however long. The argument has no meaning here, as all orders of
the steps of the tasks are considered anyway. -/
def sleep (_milliseconds : Nat) : Code Unit := Prog.switch

/-- `body`, as the body of the function `f`: the notes before and after it bracket what is done on behalf
of `f`. -/
def calledFor {α : Type} (f : Callee) (body : Code α) : Code α := do
  note fun _ => .called f
  let result ← body
  note fun _ => .returned
  pure result

/-! ## Constants of `port_controller.h` -/

/-- `PCA9554_RST_ADDR`: the expander with the reset lines of the faces. -/
def pca9554RstAddr : Byte := 0x20

/-- `PCA9554_IRQ_ADDR`: the one with their interrupt lines. -/
def pca9554IrqAddr : Byte := 0x21

/-- `EPCA9554Register`: the register of the levels at the lines. -/
def pca9554Input : Byte := 0x00

/-- The register of the outputs. -/
def pca9554Output : Byte := 0x01

/-- The register that says which lines are inputs. -/
def pca9554Config : Byte := 0x03

/-- `EXT_INT0_SENSE_MASK`, the bits of `EICRA` for `INT0`. -/
def extInt0SenseMask : Byte := 0x03

/-- `EXT_INT0_FALLING_EDGE`: `INT0` is at falling edges. -/
def extInt0FallingEdge : Byte := 0x02

/-- `EXT_INT0_ENABLE`, the bit of `EIMSK` for it. -/
def extInt0Enable : Byte := 0x01

/-- `PORTC_TWCLK_MASK`, the clock line of the bus. -/
def portcTwclkMask : Byte := 0x20

namespace CPortController

open CTWController

/-! ## The methods -/

/-- `SelectPort`: the four lines of the multiplexer, in two stores, each with a load of its own. In
between it is at `NORTH`, whose code is 0. -/
def selectPort (target : EPort) : Code Unit := do
  let portc ← load .portc
  store .portc (portc &&& ~~~portCtrlMask)
  let portc ← load .portc
  store .portc (portc ||| (target.code &&& portCtrlMask))

/-- `Init`. It leaves the multiplexer at no port, makes the reset lines outputs in one transaction, and
enables `INT0` for falling edges. -/
def init : Code Unit := calledFor .port do
  selectPort .nullport
  acquire .tw
  beginTransmission pca9554RstAddr
  let _ ← writeByte pca9554Config
  let _ ← writeByte 0xC0
  let _ ← endTransmission true
  release .tw
  let eicra ← load .eicra
  store .eicra (eicra &&& ~~~extInt0SenseMask)
  let eicra ← load .eicra
  store .eicra (eicra ||| extInt0FallingEdge)
  let eimsk ← load .eimsk
  store .eimsk (eimsk ||| extInt0Enable)

/-- The lazy initialisation in `CPortController::instance()`. The flag is tested before the lock is taken
and not again behind it. -/
def initOnFirstUse : Code Unit := do
  if ← load .initRequired then do
    acquire .port
    init
    store .initRequired false
    release .port
  else pure ()

/-- `CPortController::instance().method`. Every method is called in this way, `lock()` and `unlock()`
included. -/
def onInstance {α : Type} (method : Code α) : Code α := do
  initOnFirstUse
  method

/-- `CPortInterrupt::ServiceRoutine`, which only asks for the lines to be sampled. -/
def serviceRoutine : Code Unit := store .synchronizeRequired true

/-- `SynchronizeInterrupts`. The lines that fell since the last sample are added to the interrupts. What
`Read()` returns is taken for the sample, whether anything has been received or not. -/
def synchronizeInterrupts : Code Unit := calledFor .port do
  if ← load .synchronizeRequired then do
    acquire .tw
    beginTransmission pca9554IrqAddr
    let _ ← writeByte pca9554Input
    let _ ← endTransmission false
    let _ ← readFrom pca9554IrqAddr 1 true
    store .synchronizeRequired false
    let registerState ← readByte
    release .tw
    let interrupts ← load .interrupts
    let lastRegisterState ← load .lastRegisterState
    store .interrupts (interrupts ||| Port.fallingEdges registerState lastRegisterState)
    store .lastRegisterState registerState
  else pure ()

/-- `ClearInterrupts`. -/
def clearInterrupts (clearMask : Byte) : Code Unit := do
  let interrupts ← load .interrupts
  store .interrupts (interrupts &&& ~~~clearMask)

/-- `HasInterrupts`. -/
def hasInterrupts : Code Bool := do
  let interrupts ← load .interrupts
  pure (interrupts != 0x00)

/-- `GetInterrupts`. -/
def getInterrupts : Code Byte := load .interrupts

/-- What `EnablePort` and `DisablePort` have in common: the output register of the reset lines is
read, changed and written back. -/
def updateOutput (change : Byte → Byte) : Code Unit := calledFor .port do
  acquire .tw
  beginTransmission pca9554RstAddr
  let _ ← writeByte pca9554Output
  let _ ← endTransmission false
  let _ ← readFrom pca9554RstAddr 1 true
  let portState ← readByte
  release .tw
  acquire .tw
  beginTransmission pca9554RstAddr
  let _ ← writeByte pca9554Output
  let _ ← writeByte (change portState)
  let _ ← endTransmission true
  release .tw

/-- `EnablePort`. -/
def enablePort (target : EPort) : Code Unit :=
  updateOutput fun portState => portState ||| ((1 : Byte) <<< target.code)

/-- `DisablePort`. -/
def disablePort (target : EPort) : Code Unit :=
  updateOutput fun portState => portState &&& ~~~((1 : Byte) <<< target.code)

/-- `IsPortConnected`: the clock line of the face is pulled low for a moment, and is looked at when it is
let go. -/
def isPortConnected (target : EPort) : Code Bool := do
  selectPort target
  sleep 10
  let portc ← load .portc
  store .portc (portc &&& ~~~portcTwclkMask)
  let ddrc ← load .ddrc
  store .ddrc (ddrc ||| portcTwclkMask)
  let ddrc ← load .ddrc
  store .ddrc (ddrc &&& ~~~portcTwclkMask)
  let portc ← load .portc
  store .portc (portc ||| portcTwclkMask)
  sleep 10
  let pinc ← load .pinc
  pure (pinc &&& portcTwclkMask != 0)

/-- `GetPortString`. -/
def getPortString : EPort → String
  | .north => "NORTH"
  | .east => "EAST"
  | .south => "SOUTH"
  | .west => "WEST"
  | .top => "TOP"
  | .bottom => "BOTTOM"
  | .nullport => "INVALID"

end CPortController

/-! ## What the methods do to what is known

A method is called with the port controller locked. What it adds to the knowledge of its task is where the
multiplexer is. -/

section

variable {c : List Callee} {k j : Know} {long : Prop} {held held' : List Lock} {α : Type}

/-- Nothing is known of what others may change. -/
theorem sleep_spec (hg : Guarded c held k) (n : Nat) :
    (discipline long).Triple held (Knows c k) (sleep n) held fun _ => Knows c k :=
  switch_spec hg

/-- Inside a call for no face, any position of the multiplexer is the right one. -/
theorem calledFor_spec {f : Callee} {body : Code α} (hg : Guarded c held k)
    (hbody : (discipline long).Triple held (Knows (f :: c) { k with face := f.face?.isNone }) body held'
      fun _ => Knows (f :: c) j) (hg' : Guarded (f :: c) held' j) :
    (discipline long).Triple held (Knows c k) (calledFor f body) held'
      fun _ => Knows c { j with face := false } := by
  refine (Discipline.Triple.note (f := fun _ => .called f)
    (Q := Knows (f :: c) { k with face := f.face?.isNone }) hg.stable
    fun g s hs => ⟨trivial, ?_⟩).seq fun _ => hbody.seq fun result => ?_
  · refine .noted ?_ (fun hp q hq => ?_) hs.tx hs.rx hs.ready
    · rw [← hs.callers]
      rfl
    · cases f with
      | port => exact absurd hq List.not_mem_nil
      | led p | nfc p => exact absurd hp Bool.false_ne_true
  · refine (Discipline.Triple.note (f := fun _ => .returned)
      (Q := Knows c { j with face := false }) hg'.stable
      fun g s hs => ⟨trivial, .noted ?_ nofun hs.tx hs.rx hs.ready⟩).seq fun _ => .pure fun _ _ => id
    show (transaction g).callers.tail = c
    rw [hs.callers]
    rfl

/-- The buffers are forgotten with the lock. -/
theorem releaseTw_spec (hg : Guarded c (.tw :: held) k) :
    (discipline long).Triple (.tw :: held) (Knows c k) (release .tw) held
      fun _ => Knows c { k with tx := false, rx := false } :=
  forget_spec (release_spec hg) ⟨id, nofun, nofun, id⟩

/-- Where the multiplexer is, is forgotten with its lock. -/
theorem releasePort_spec (hg : Guarded c (.port :: held) k) :
    (discipline long).Triple (.port :: held) (Knows c k) (release .port) held
      fun _ => Knows c { k with face := false } :=
  forget_spec (release_spec hg) ⟨nofun, id, id, id⟩

namespace CTWController

/-- `Write`, where it does not matter how many bytes are queued. -/
theorem writeByte_keeps (hg : Guarded c held k) (htw : .tw ∈ held) (htx : k.tx = true)
    (data : Byte) :
    (discipline long).Triple held (Knows c k) (writeByte data) held fun _ => Knows c k :=
  fun g s hs => Discipline.wp_mono (fun _ _ _ _ h => ⟨h.1, h.2.1⟩)
    (writeByte_spec hg htw htx data (transaction g).queued.length g s ⟨hs, Nat.le_refl _⟩)

end CTWController

namespace CPortController

open CTWController

/-- Bits that have been cleared are 0. -/
theorem and_not_mask_and (x m : Byte) : (x &&& ~~~m) &&& m = 0 := by
  ext i
  simp

/-- The multiplexer is where it was turned to. -/
theorem selectPort_spec (hg : Guarded c held k) (hport : .port ∈ held) (target : EPort)
    (hfaces : ∀ p ∈ Transaction.faces c, p = target) :
    (discipline long).Triple held (Knows c k) (selectPort target) held
      fun _ => Knows c { k with face := true } := by
  have hg' : Guarded c held { k with face := false } := ⟨nofun, hg.tx, hg.rx⟩
  have hclear : (discipline long).Stable held
      fun (_ : List Event) s => s .portc &&& portCtrlMask = (0 : Byte) := by
    intro g s s' hrely hs
    rw [hrely.eq (x := .portc) rfl hport]
    exact hs
  apply (load_spec hg _).seq
  intro portc
  refine Discipline.Triple.pre (P := fun g s => Knows c { k with face := false } g s ∧ True) ?_
    fun g s hs => ⟨hs.forget ⟨nofun, id, id, id⟩, trivial⟩
  refine (storeWith_spec (G := fun _ s => s .portc &&& portCtrlMask = (0 : Byte)) hg'
    (Discipline.Stable.log _ held fun _ => True) _ rfl rfl hport fun g s _ => ?_).seq fun _ => ?_
  -- after the first store no port is selected
  · rw [Function.update_self]
    exact and_not_mask_and portc portCtrlMask
  refine (Discipline.Triple.read (Q := fun v g s => (Knows c { k with face := false } g s ∧
    s .portc &&& portCtrlMask = (0 : Byte)) ∧ v &&& portCtrlMask = (0 : Byte))
    (hg'.stable.and hclear) fun _ _ hs => ⟨hs, hs.2⟩).bind fun portc => ?_
  apply Discipline.Triple.fact (fun _ _ hs => hs.2)
  intro hzero
  refine Discipline.Triple.mono (storeWith_spec
    (G := fun _ s => s .portc &&& portCtrlMask = target.code) hg' hclear _ rfl rfl hport
    fun g s _ => ?_) (fun _ _ hs => hs.1) fun _ g s hs => ?_
  -- after the second it is the target, as the bits were 0
  · rw [Function.update_self]
    show (portc ||| (target.code &&& portCtrlMask)) &&& portCtrlMask = target.code
    rw [BitVec.and_or_distrib_right, show portc &&& portCtrlMask = 0#8 from hzero, BitVec.zero_or, EPort.code_and_mask,
      EPort.code_and_mask]
  · refine ⟨hs.1.callers, fun _ p hp => ?_, hs.1.tx, hs.1.rx, hs.1.ready⟩
    rw [hs.2, hfaces p hp]

/-- `SelectPort` for another port than that of the callers. -/
theorem selectPort_forgets (hg : Guarded c held k) (hport : .port ∈ held) (target : EPort) :
    (discipline long).Triple held (Knows c k) (selectPort target) held
      fun _ => Knows c { k with face := false } := by
  have hg' : Guarded c held { k with face := false } := ⟨nofun, hg.tx, hg.rx⟩
  refine (forget_spec (k := { k with face := false }) (load_spec hg _) ⟨nofun, id, id, id⟩).seq
    fun portc => (store_spec hg' _ rfl rfl hport).seq fun _ => ?_
  exact (load_spec hg' _).seq fun portc => store_spec hg' _ rfl rfl hport

/-- `Init` turns the multiplexer to no port, and writes the configuration register of the expander. -/
theorem init_spec (r : Bool) (hrank : ∀ l ∈ held, l.rank < Lock.port.rank) :
    (discipline long).Triple (.port :: held) (Knows c (.idle r)) init (.port :: held)
      fun _ => Knows c (.idle r) := by
  have hport : Guarded (.port :: c) (.port :: held) ⟨true, false, false, r⟩ :=
    ⟨fun _ => Or.inl rfl, nofun, nofun⟩
  have htw : ∀ l ∈ .port :: held, l.rank < Lock.tw.rank := by
    intro l hl
    rcases List.mem_cons.mp hl with rfl | hl
    · decide
    · exact Nat.lt_trans (hrank l hl) (by decide)
  refine calledFor_spec (j := ⟨true, false, false, r⟩) (Guarded.idle c _ r) ?_ hport
  refine (selectPort_spec hport (by simp) _ nofun).seq fun _ => (acquire_spec hport htw).seq fun _ => ?_
  refine (beginTransmission_spec (Guarded.both _ _ _) (by simp) _).seq fun _ => ?_
  refine (writeByte_keeps (Guarded.both _ _ _) (by simp) rfl _).seq fun _ => ?_
  refine (writeByte_keeps (Guarded.both _ _ _) (by simp) rfl _).seq fun _ => ?_
  refine (endTransmission_spec (Guarded.both _ _ _) (by simp) rfl rfl _).seq fun _ => ?_
  refine (releaseTw_spec (Guarded.both _ _ _)).seq fun _ => ?_
  refine (load_spec hport _).seq fun _ => (store_spec hport _ rfl rfl (by simp)).seq fun _ => ?_
  refine (load_spec hport _).seq fun _ => (store_spec hport _ rfl rfl (by simp)).seq fun _ => ?_
  exact (load_spec hport _).seq fun _ => store_spec hport _ rfl rfl (by simp)

theorem clearInitRequired_spec (hg : Guarded c held k) (hport : .port ∈ held) :
    (discipline long).Triple held (Knows c k) (store .initRequired false) held
      fun _ => Knows c { k with ready := true } := by
  refine Discipline.Triple.write hg.stable ?_ fun g s hs => ⟨fun _ => rfl, hs.callers, ?_, ?_, ?_, ?_⟩
  · intro l hl
    obtain rfl : Lock.port = l := Option.some.inj hl
    exact hport
  · intro hk
    rw [Function.update_of_ne (by simp)]
    exact hs.face hk
  · intro hk
    have hne : ∀ x, x ≠ .initRequired → Function.update s .initRequired false x = s x :=
      fun x hx => Function.update_of_ne hx false s
    exact (hs.tx hk).congr (hne _ (by simp)) (hne _ (by simp)) fun i => hne _ (by simp)
  · intro hk
    have hne : ∀ x, x ≠ .initRequired → Function.update s .initRequired false x = s x :=
      fun x hx => Function.update_of_ne hx false s
    exact (hs.rx hk).congr (hne _ (by simp)) (hne _ (by simp)) fun i => hne _ (by simp)
  · intro _
    exact Function.update_self ..

/-- The first use in an operation, which may find the controller initialised or not. -/
theorem initOnFirstUse_spec (r : Bool) (hrank : ∀ l ∈ held, l.rank < Lock.port.rank) :
    (discipline long).Triple held (Knows c (.idle r)) initOnFirstUse held
      fun _ => Knows c (.idle true) := by
  refine (Discipline.Triple.read (Q := fun required g s => Knows c (.idle r) g s ∧
    s .initRequired = required) (Guarded.idle c held r).stable fun _ _ hs => ⟨hs, rfl⟩).bind
    fun required => ?_
  refine .ite (fun _ => ?_) fun hrequired => .pure ?_
  · refine Discipline.Triple.pre (P := Knows c (.idle r)) ?_ fun _ _ hs => hs.1
    refine (acquire_spec (Guarded.idle c held r) hrank).seq fun _ => ?_
    refine (init_spec r hrank).seq fun _ => ?_
    refine (clearInitRequired_spec (Guarded.idle c _ r) (by simp)).seq fun _ => ?_
    exact release_spec (Guarded.idle c _ true)
  · rintro g s ⟨hs, rfl⟩
    exact ⟨hs.callers, nofun, nofun, nofun, fun _ => Bool.eq_false_iff.mpr hrequired⟩

/-- Any later use, also by a task that holds the lock of the controller. -/
theorem onInstance_spec {P : α → Assn Val Event} {method : Code α} (hg : Guarded c held k)
    (hready : k.ready = true) (h : (discipline long).Triple held (Knows c k) method held' P) :
    (discipline long).Triple held (Knows c k) (onInstance method) held' P := by
  refine Discipline.Triple.seq (R := Knows c k) ?_ fun _ => h
  apply Discipline.Triple.readKnown (v := false) hg.stable (fun g s hs => hs.ready hready)
  exact .pure fun _ _ => id

/-- `CPortController::instance().lock()`, at the start of an operation. -/
theorem lockInstance_spec (r : Bool) :
    (discipline long).Triple [] (Knows c (.idle r)) (onInstance (acquire .port)) [.port]
      fun _ => Knows c (.idle true) :=
  (initOnFirstUse_spec r (by simp)).seq fun _ => acquire_spec (Guarded.idle c _ true) (by simp)

theorem unlockInstance_spec (hg : Guarded c [.port] k) (hready : k.ready = true) :
    (discipline long).Triple [.port] (Knows c k) (onInstance (release .port)) []
      fun _ => Knows c { k with face := false } :=
  onInstance_spec hg hready (releasePort_spec hg)

/-- Under the lock of the port controller it may be known where the multiplexer is. -/
theorem guarded_port {f r : Bool} : Guarded c [.port] ⟨f, false, false, r⟩ :=
  ⟨fun _ => Or.inr (by simp), nofun, nofun⟩

/-- A load and a store of `m_unInterrupts`. -/
theorem clearInterrupts_spec (hg : Guarded c held k) (hport : .port ∈ held) (clearMask : Byte) :
    (discipline long).Triple held (Knows c k) (clearInterrupts clearMask) held
      fun _ => Knows c k :=
  (load_spec hg _).seq fun _ => store_spec hg _ rfl rfl hport

/-- The expander is on the board, so that no face has to be selected for it. -/
theorem synchronizeInterrupts_spec (r : Bool) :
    (discipline long).Triple [.port] (Knows c (.idle r)) synchronizeInterrupts [.port]
      fun _ => Knows c (.idle r) := by
  have hport : Guarded (.port :: c) [.port] ⟨true, false, false, r⟩ := guarded_port
  refine calledFor_spec (j := ⟨true, false, false, r⟩) (Guarded.idle c _ r) ?_ hport
  refine (load_spec hport _).seq fun _ => .ite (fun _ => ?_) fun _ => .pure fun _ _ => id
  refine (acquire_spec hport (by decide)).seq fun _ => ?_
  refine (beginTransmission_spec (Guarded.both _ _ _) (by simp) _).seq fun _ => ?_
  refine (writeByte_keeps (Guarded.both _ _ _) (by simp) rfl _).seq fun _ => ?_
  refine (endTransmission_spec (Guarded.both _ _ _) (by simp) rfl rfl _).seq fun _ => ?_
  refine (readFrom_spec (Guarded.both _ _ _) (by simp) rfl _ _ _).seq fun _ => ?_
  refine (storeShared_spec (Guarded.both _ _ _) _ rfl rfl).seq fun _ => ?_
  refine (readByte_spec (Guarded.both _ _ _) (by simp) rfl).seq fun _ => ?_
  refine (releaseTw_spec (Guarded.both _ _ _)).seq fun _ => ?_
  refine (load_spec hport _).seq fun _ => (load_spec hport _).seq fun _ => ?_
  exact (store_spec hport _ rfl rfl (by simp)).seq fun _ => store_spec hport _ rfl rfl (by simp)

/-- `EnablePort` and `DisablePort`, with the lock of the port controller held or not. -/
theorem updateOutput_spec (r : Bool) (htw : ∀ l ∈ held, l.rank < Lock.tw.rank)
    (change : Byte → Byte) :
    (discipline long).Triple held (Knows c (.idle r)) (updateOutput change) held
      fun _ => Knows c (.idle r) := by
  have hout : Guarded (.port :: c) held ⟨true, false, false, r⟩ := ⟨fun _ => Or.inl rfl, nofun, nofun⟩
  have hin : ∀ k, Guarded (.port :: c) (.tw :: held) k :=
    fun k => ⟨fun _ => Or.inl rfl, fun _ => by simp, fun _ => by simp⟩
  refine calledFor_spec (j := ⟨true, false, false, r⟩) (Guarded.idle c _ r) ?_ hout
  refine (acquire_spec hout htw).seq fun _ => ?_
  refine (beginTransmission_spec (hin _) (by simp) _).seq fun _ => ?_
  refine (writeByte_keeps (hin _) (by simp) rfl _).seq fun _ => ?_
  refine (endTransmission_spec (hin _) (by simp) rfl rfl _).seq fun _ => ?_
  refine (readFrom_spec (hin _) (by simp) rfl _ _ _).seq fun _ => ?_
  refine (readByte_spec (hin _) (by simp) rfl).seq fun _ => (releaseTw_spec (hin _)).seq fun _ => ?_
  refine (acquire_spec hout htw).seq fun _ => ?_
  refine (beginTransmission_spec (hin _) (by simp) _).seq fun _ => ?_
  refine (writeByte_keeps (hin _) (by simp) rfl _).seq fun _ => ?_
  refine (writeByte_keeps (hin _) (by simp) rfl _).seq fun _ => ?_
  exact (endTransmission_spec (hin _) (by simp) rfl rfl _).seq fun _ => releaseTw_spec (hin _)

/-- The port is selected, its clock line pulled low and released, and its pin sampled. -/
theorem isPortConnected_spec (r : Bool) (target : EPort) :
    (discipline long).Triple [.port] (Knows c (.idle r)) (isPortConnected target) [.port]
      fun _ => Knows c (.idle r) := by
  have hg : Guarded c [.port] (.idle r) := Guarded.idle c _ r
  refine (selectPort_forgets hg (by simp) target).seq fun _ => (sleep_spec hg 10).seq fun _ => ?_
  refine (load_spec hg _).seq fun _ => (store_spec hg _ rfl rfl (by simp)).seq fun _ => ?_
  refine (load_spec hg _).seq fun _ => (store_spec hg _ rfl rfl (by simp)).seq fun _ => ?_
  refine (load_spec hg _).seq fun _ => (store_spec hg _ rfl rfl (by simp)).seq fun _ => ?_
  refine (load_spec hg _).seq fun _ => (store_spec hg _ rfl rfl (by simp)).seq fun _ => ?_
  exact (sleep_spec hg 10).seq fun _ => (load_spec hg _).seq fun _ => .pure fun _ _ => id

end CPortController

end

end SmartblocksOs.Board
