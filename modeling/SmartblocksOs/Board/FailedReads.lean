/-
# SmartblocksOs.Board.FailedReads -- reads that receive nothing

`Read(address, n)` returns how many bytes it has received, and `Read()` returns `0xFF` when there are none
left. `SetMode`, `EnablePort`, `DisablePort` and `SynchronizeInterrupts` ask for one byte and do not look
at the count, so when nothing is received they go on with `0xFF`. What they must preserve is then
preserved exactly when it looks like `0xFF` anyway, or when the write-back does not reach the slave either
(`failedRead_preserves_iff`).

The result is an equivalence, for a call in which nothing is received. On the one side is what the call
must preserve: the modes of the other LEDs, the reset lines of the other ports, the interrupts not yet
reported. On the other side is a condition on the board before the call: either the register already has
the value that the filler `0xFF` stands for in the part concerned, or the write-back is not taken by the
slave. `SynchronizeInterrupts` writes nothing to a slave, but keeps what it has read, and so loses an edge
in the same way.

The slave is modelled by what it takes and acknowledges (`RegisterSlave`), because whether the write-back
reaches it depends on the bus and not on the function.
-/
import SmartblocksOs.Foundation.RegisterSlave
import SmartblocksOs.Board.LedModes
import SmartblocksOs.Board.Operations
import SmartblocksOs.Board.TwSections

namespace SmartblocksOs.Board

open SmartblocksOs.Foundation SmartblocksOs.System SmartblocksOs.Foundation.TwoWire

open CTWController CPortController CLEDController RegisterSlave

/-! ## The calls

The four functions, each with what it has received and what it sends afterwards. The value sent is a
function of the first byte received, or of `0xFF` when there is none. -/

/-- What a reception has brought. -/
def Traffic.received? : Traffic → Option (List Byte)
  | .sent _ => none
  | .received bytes => some bytes

/-- The receptions that have been noted. -/
def receptions (notes : List Event) : List (List Byte) := (traffic notes).filterMap Traffic.received?

/-- The receptions are part of what has been sent and received. -/
theorem receptions_of_traffic {notes notes' : List Event} {l : List Traffic}
    (h : traffic notes' = traffic notes ++ l) :
    receptions notes' = receptions notes ++ l.filterMap Traffic.received? := by
  unfold receptions
  rw [h, List.filterMap_append]

/-- What is written back to the output register of the reset lines. -/
theorem updateOutput_total {held : Bool} {m : TwMachine} (change : Byte → Byte) (hready : Ready held m) :
    Returns (updateOutput change) m fun _ m' =>
      m'.device = ((readBack m.device pca9554RstAddr pca9554Output).2.2.transmission
        (slaw pca9554RstAddr) [pca9554Output,
          change ((readBack m.device pca9554RstAddr pca9554Output).1.headD 0xFF)] true).2 ∧
      receptions m'.log = receptions m.log ++ [(readBack m.device pca9554RstAddr pca9554Output).1] := by
  refine calledFor_total (Total.bind (Total.acquire_iff.mpr ?_))
  refine request_worked pca9554RstAddr pca9554Output (Worked.refl (hready.noted (.called .port)))
    fun length m₁ h₁ hu => ?_
  apply Total.seq (take_worked h₁ hu)
  rintro b m₂ ⟨rfl, h₂, -⟩
  refine Total.bind (Total.release_iff.mpr (Total.bind (Total.acquire_iff.mpr ?_)))
  refine update_worked pca9554RstAddr pca9554Output _ h₂ fun m₃ h₃ => Total.release_iff.mpr ?_
  have h₄ := (h₃.noted rfl).note (e := .returned) rfl
  exact ⟨h₄.device, receptions_of_traffic h₄.log⟩

/-- What has been read is compared with what was read last. -/
theorem synchronizeInterrupts_total {held : Bool} {m : TwMachine} (hready : Ready held m) :
    Returns synchronizeInterrupts m fun _ m' =>
      if m.vars .synchronizeRequired then
        receptions m'.log =
          receptions m.log ++ [(readBack m.device pca9554IrqAddr pca9554Input).1] ∧
        m'.vars .interrupts = m.vars .interrupts ||| Port.fallingEdges
          ((readBack m.device pca9554IrqAddr pca9554Input).1.headD 0xFF) (m.vars .lastRegisterState) ∧
        m'.vars .lastRegisterState = (readBack m.device pca9554IrqAddr pca9554Input).1.headD 0xFF
      else receptions m'.log = receptions m.log ∧ m'.vars .interrupts = m.vars .interrupts ∧
        m'.vars .lastRegisterState = m.vars .lastRegisterState := by
  refine calledFor_total (Total.bind (Total.read_iff.mpr ?_))
  cases hrequired : m.vars .synchronizeRequired with
  -- no interrupt has been reported since the last call: the expander is not asked
  | false =>
      apply Total.pure_iff.mpr
      have h₁ := ((Worked.refl (hready.noted (.called .port))).noted rfl).note (e := .returned) rfl
      exact ⟨(receptions_of_traffic h₁.log).trans (List.append_nil _), rfl, rfl⟩
  -- The input register is asked for. With an empty reception `Read()` hands out 0xFF, which is taken for
  -- the sample.
  | true =>
      refine Total.bind (Total.acquire_iff.mpr ?_)
      refine request_worked pca9554IrqAddr pca9554Input (Worked.refl (hready.noted (.called .port)))
        fun length m₁ h₁ hu => ?_
      refine Total.bind (Total.write_iff.mpr ?_)
      rw [store_of_ne _ (by simp)]
      have hu₁ : Unread (m₁.set .synchronizeRequired false).vars
          (readBack m.device pca9554IrqAddr pca9554Input).1 :=
        hu.congr (Machine.set_vars_of_ne _ (by simp) _) (Machine.set_vars_of_ne _ (by simp) _)
          fun _ => Machine.set_vars_of_ne _ (by simp) _
      apply Total.seq (readByte_total hu₁)
      rintro b m₂ ⟨rfl, -, hvars, -, hlog⟩
      refine Total.bind (Total.release_iff.mpr (Total.bind (Total.read_iff.mpr
        (Total.bind (Total.read_iff.mpr (Total.bind (Total.write_iff.mpr (Total.write_iff.mpr ?_))))))))
      -- neither the transaction nor the flag touches what the function computes with
      have hkept : ∀ x, ofTw x = false → x ≠ .synchronizeRequired → m₂.vars x = m.vars x := by
        intro x hx hne
        rw [hvars x (of_ofTw hx).2.2.2, Machine.set_vars_of_ne _ hne]
        exact h₁.vars x hx
      rw [store_of_ne m₂ (x := .interrupts) (by simp), store_of_ne _ (x := .lastRegisterState) (by simp),
        hkept .interrupts rfl (by simp), hkept .lastRegisterState rfl (by simp), if_pos rfl]
      refine ⟨?_, ?_, ?_⟩
      · refine receptions_of_traffic (l := [.sent [pca9554Input],
          .received (readBack m.device pca9554IrqAddr pca9554Input).1]) ?_
        have hlog₁ := (h₁.noted rfl).log
        simp [hlog, hlog₁, traffic_append, traffic_cons, traffic_nil, Event.traffic?]
      · simp [Machine.set_vars_of_ne]
      · simp

/-- What a register of a driver is read as, and what is on the bus for it. Without a byte received it is
the filler. -/
theorem readRegister_total {held : Bool} {m : TwMachine} (port : EPort) (addr : Byte)
    (hready : Ready held m) :
    Returns (readRegister port addr) m fun b m' =>
      b = (readBack (afterInstance m) pca963xDevAddr addr).1.headD 0xFF ∧
      AtHand (readBack (afterInstance m) pca963xDevAddr addr).2.2 (instanceTraffic m ++
        [.sent [addr], .received (readBack (afterInstance m) pca963xDevAddr addr).1]) m m' := by
  refine Total.bind (Total.seq (initOnFirstUse_total hready) fun _ m₁ h₁ => Total.acquire_iff.mpr ?_)
  apply Total.seq (h₁.onInstance (selectPort_total port))
  intro _ m₂ hsame
  have h₂ := h₁.same hsame
  obtain ⟨held₂, hready₂⟩ := h₂.ready
  refine Total.bind (Total.acquire_iff.mpr ?_)
  apply request_worked pca963xDevAddr addr (Worked.refl hready₂)
  intro length m₃ h₃ hu
  rw [h₂.device] at h₃ hu
  apply Total.seq (take_worked h₃ hu)
  rintro b m₄ ⟨hb, h₄, -⟩
  refine Total.bind (Total.release_iff.mpr (Total.bind ?_))
  have hend := h₂.worked h₄
  exact hend.onInstance (Total.release_iff.mpr (Total.pure_iff.mpr ⟨hb, hend⟩))

/-- The port controller is locked: the multiplexer is turned and the register written. -/
theorem writeSelected_total {h : Hardware} {l : List Traffic} {m m' : TwMachine}
    (port : EPort) (address addr v : Byte) (hm : AtHand h l m m') :
    Returns (do
      onInstance (selectPort port)
      acquire .tw
      beginTransmission address
      let _ ← writeByte addr
      let _ ← writeByte v
      let _ ← endTransmission true
      release .tw
      onInstance (release .port)) m' fun _ m'' =>
        AtHand (h.transmission (slaw address) [addr, v] true).2 (l ++ [.sent [addr, v]]) m m'' := by
  apply Total.seq (hm.onInstance (selectPort_total port))
  intro _ m₁ hsame
  have h₁ := hm.same hsame
  obtain ⟨held, hready⟩ := h₁.ready
  refine Total.bind (Total.acquire_iff.mpr ?_)
  refine update_worked address addr v (Worked.refl hready) fun m₂ h₂ =>
    Total.bind (Total.release_iff.mpr ?_)
  rw [h₁.device] at h₂
  have hend := h₁.worked h₂
  exact hend.onInstance (Total.release_iff.mpr hend)

/-- What is written back to the register of the LED, and what there is on the bus. -/
theorem setMode_atHand {held : Bool} {m : TwMachine} (port : EPort) (led : Byte) (mode : EMode)
    (hready : Ready held m) :
    Returns (setMode port led mode) m fun _ m' =>
      AtHand ((readBack (afterInstance m) pca963xDevAddr (ledoutAddr led)).2.2.transmission
          (slaw pca963xDevAddr) [ledoutAddr led, withMode
            ((readBack (afterInstance m) pca963xDevAddr (ledoutAddr led)).1.headD 0xFF) led mode] true).2
        (instanceTraffic m ++ [.sent [ledoutAddr led],
            .received (readBack (afterInstance m) pca963xDevAddr (ledoutAddr led)).1] ++
          [.sent [ledoutAddr led, withMode
            ((readBack (afterInstance m) pca963xDevAddr (ledoutAddr led)).1.headD 0xFF) led mode]]) m m' := by
  rw [setMode_eq]
  apply calledFor_total
  apply Total.seq (readRegister_total port (ledoutAddr led) (hready.noted (.called (.led port))))
  rintro b m₁ ⟨rfl, h₁⟩
  refine Total.bind (h₁.onInstance (Total.acquire_iff.mpr ?_))
  apply (writeSelected_total port pca963xDevAddr (ledoutAddr led) _ h₁).mono
  intro _ m₂ h₂
  exact (h₂.noted rfl).note (e := .returned) rfl

/-- What `SetMode` sends in the end, and what it has received before. -/
theorem setMode_total {held : Bool} {m : TwMachine} (port : EPort) (led : Byte) (mode : EMode)
    (hready : Ready held m) :
    Returns (setMode port led mode) m fun _ m' =>
      m'.device = ((readBack (afterInstance m) pca963xDevAddr (ledoutAddr led)).2.2.transmission
        (slaw pca963xDevAddr) [ledoutAddr led, withMode
          ((readBack (afterInstance m) pca963xDevAddr (ledoutAddr led)).1.headD 0xFF) led mode] true).2 ∧
      receptions m'.log =
        receptions m.log ++ [(readBack (afterInstance m) pca963xDevAddr (ledoutAddr led)).1] := by
  refine (setMode_atHand port led mode hready).mono fun _ m' h => ⟨h.device, ?_⟩
  rw [receptions_of_traffic h.log]
  unfold instanceTraffic
  split
  · rfl
  · rfl

/-! ## What must be preserved

Each of the four reads a register of one slave. What it is about to change is a part of that register, and
the rest is to stay. -/

/-- The calls that read a register to change it, or to see how it has changed. -/
inductive ReadingCall where
  | setMode (port : EPort) (led : Byte) (mode : EMode)
  | enablePort (target : EPort)
  | disablePort (target : EPort)
  | synchronizeInterrupts
  deriving DecidableEq, Repr

/-- The reset line of port `p`. -/
def portBit (registers : Byte → Byte) (p : EPort) : Bool :=
  (registers pca9554Output).getLsbD p.code.toNat

namespace ReadingCall

/-- The function that makes the read. -/
def code : ReadingCall → Code Unit
  | setMode port led mode => CLEDController.setMode port led mode
  | enablePort target => CPortController.enablePort target
  | disablePort target => CPortController.disablePort target
  | synchronizeInterrupts => CPortController.synchronizeInterrupts

/-- The slave that is read, and its register. -/
def address : ReadingCall → Byte
  | setMode _ _ _ => pca963xDevAddr
  | enablePort _ | disablePort _ => pca9554RstAddr
  | synchronizeInterrupts => pca9554IrqAddr

/-- The register that it reads. -/
def addr : ReadingCall → Byte
  | setMode _ led _ => ledoutAddr led
  | enablePort _ | disablePort _ => pca9554Output
  | synchronizeInterrupts => pca9554Input

/-- What the call must preserve of the registers of the slave and of the variables. -/
def Preserves (registers registers' : Byte → Byte) (s s' : Store Val) : ReadingCall → Prop
  | setMode _ led _ => ∀ l, l ≠ led → ledMode registers' l = ledMode registers l
  | enablePort target | disablePort target =>
      ∀ p, p ≠ target → p ≠ .nullport → portBit registers' p = portBit registers p
  | synchronizeInterrupts =>
      s' .interrupts = s .interrupts ∧ s' .lastRegisterState = s .lastRegisterState

/-- The bus when the register is asked for. -/
def bus (m : TwMachine) : ReadingCall → Hardware
  | setMode _ _ _ => afterInstance m
  | _ => m.device

/-- A write-back of two bytes would reach the slave. -/
def Delivered (m : TwMachine) (c : ReadingCall) : Prop :=
  2 ≤ (readBack (c.bus m) c.address c.addr).2.2.delivered (slaw c.address) 2

/-- When `0xFF` does as well as what was not received. -/
def Harmless (m : TwMachine) (registers : Byte → Byte) : ReadingCall → Prop
  | setMode port led mode => Delivered m (setMode port led mode) →
      ∀ l, l ≠ led → ledoutAddr l = ledoutAddr led → ledMode registers l = .blink
  | enablePort target => Delivered m (enablePort target) →
      ∀ p, p ≠ target → p ≠ .nullport → portBit registers p = true
  | disablePort target => Delivered m (disablePort target) →
      ∀ p, p ≠ target → p ≠ .nullport → portBit registers p = true
  | synchronizeInterrupts => m.vars .lastRegisterState = (0xFF : Byte)

end ReadingCall

/-! ### The filler -/

/-- A filler shows every LED blinking. -/
theorem modeOf_filler (l : Byte) : modeOf 0xFF l = .blink := by
  unfold modeOf
  rcases place_cases l with h | h | h | h <;> rw [h] <;> rfl

/-- The other LEDs of the register are left blinking. -/
theorem ledMode_filler (registers : Byte → Byte) (led : Byte) (mode : EMode) :
    (∀ l, l ≠ led → ledMode (Function.update registers (ledoutAddr led) (withMode 0xFF led mode)) l =
        ledMode registers l) ↔
      ∀ l, l ≠ led → ledoutAddr l = ledoutAddr led → ledMode registers l = .blink := by
  apply forall₂_congr
  intro l hl
  unfold ledMode
  by_cases haddr : ledoutAddr l = ledoutAddr led
  · rw [haddr, Function.update_self, modeOf_withMode_of_ne _ _ _ hl haddr, modeOf_filler]
    simp [eq_comm]
  · rw [Function.update_of_ne haddr]
    simp [haddr]

/-- The other ports are left enabled. -/
theorem portBit_filler (registers : Byte → Byte) {target : EPort} {v : Byte}
    (hv : ∀ p : EPort, p ≠ target → p ≠ .nullport → v.getLsbD p.code.toNat = true) :
    (∀ p, p ≠ target → p ≠ .nullport →
        portBit (Function.update registers pca9554Output v) p = portBit registers p) ↔
      ∀ p, p ≠ target → p ≠ .nullport → portBit registers p = true := by
  refine forall₂_congr fun p hp => forall_congr' fun hnull => ?_
  unfold portBit
  rw [Function.update_self, hv p hp hnull, eq_comm]

/-- A filler shows every line set; to set one more changes nothing. -/
theorem enable_filler (target p : EPort) (hnull : p ≠ .nullport) :
    (0xFF ||| ((1 : Byte) <<< target.code)).getLsbD p.code.toNat = true := by
  cases p <;> cases target <;> first | rfl | exact absurd rfl hnull

/-- To clear one leaves the others set. -/
theorem disable_filler (target p : EPort) (hp : p ≠ target) (hnull : p ≠ .nullport) :
    (0xFF &&& ~~~((1 : Byte) <<< target.code)).getLsbD p.code.toNat = true := by
  cases p <;> cases target <;> first | rfl | exact absurd rfl hnull | exact absurd rfl hp

/-- The registers after a failed read and the write-back. -/
theorem seen_writeBack (r : RegisterSlave) (h : Hardware) (address addr v : Byte) :
    (seen (slaw address) r ((readBack h address addr).2.2.transmission (slaw address) [addr, v] true).2).registers =
      if 2 ≤ (readBack h address addr).2.2.delivered (slaw address) 2 then
        Function.update (seen (slaw address) r h).registers addr v
      else (seen (slaw address) r h).registers := by
  have hread : (seen (slaw address) r (readBack h address addr).2.2).registers =
      (seen (slaw address) r h).registers :=
    (seen_reception ..).trans (seen_select ..)
  rw [seen_write, hread]
  split
  · rw [if_neg (by omega)]
  · rw [if_pos (by omega)]

/-- The initialisation of the port controller is none of the LED driver's business. -/
theorem seen_afterInstance (r : RegisterSlave) (m : TwMachine) :
    (seen (slaw pca963xDevAddr) r (afterInstance m)).registers =
      (seen (slaw pca963xDevAddr) r m.device).registers := by
  unfold afterInstance
  split
  · exact seen_transmission_of_ne _ _ _ (by decide) _ _
  · rfl

/-- When the read of the outputs brings nothing, the other lines stay as they are just when they were set
already, or the write does not get through either. -/
theorem updateOutput_preserves_iff {held : Bool} {m : TwMachine} (r : RegisterSlave) (target : EPort)
    (change : Byte → Byte) (hready : Ready held m)
    (hchange : ∀ p : EPort, p ≠ target → p ≠ .nullport → (change 0xFF).getLsbD p.code.toNat = true) :
    Returns (updateOutput change) m fun _ m' => receptions m'.log = receptions m.log ++ [[]] →
      ((∀ p, p ≠ target → p ≠ .nullport →
          portBit (seen (slaw pca9554RstAddr) r m'.device).registers p =
            portBit (seen (slaw pca9554RstAddr) r m.device).registers p) ↔
        (2 ≤ (readBack m.device pca9554RstAddr pca9554Output).2.2.delivered (slaw pca9554RstAddr) 2 →
          ∀ p, p ≠ target → p ≠ .nullport →
            portBit (seen (slaw pca9554RstAddr) r m.device).registers p = true)) := by
  apply (updateOutput_total change hready).mono
  rintro - m' ⟨hdevice, hlog⟩ hnone
  have hbytes : (readBack m.device pca9554RstAddr pca9554Output).1 = [] := by
    rw [hnone] at hlog
    simpa using hlog.symm
  rw [hdevice, hbytes, seen_writeBack]
  split
  · rename_i hdelivered
    rw [List.headD_nil, portBit_filler _ hchange]
    exact (imp_iff_right hdelivered).symm
  · rename_i hdelivered
    exact iff_of_true (fun _ _ _ => rfl) fun h => absurd h hdelivered

/-- When the read of the modes brings nothing, the other LEDs of the register keep their modes just when
they were blinking already, or the write does not get through. -/
theorem setMode_preserves_iff {held : Bool} {m : TwMachine} (r : RegisterSlave) (port : EPort)
    (led : Byte) (mode : EMode) (hready : Ready held m) :
    Returns (setMode port led mode) m fun _ m' => receptions m'.log = receptions m.log ++ [[]] →
      ((∀ l, l ≠ led → ledMode (seen (slaw pca963xDevAddr) r m'.device).registers l =
          ledMode (seen (slaw pca963xDevAddr) r m.device).registers l) ↔
        (2 ≤ (readBack (afterInstance m) pca963xDevAddr (ledoutAddr led)).2.2.delivered
            (slaw pca963xDevAddr) 2 →
          ∀ l, l ≠ led → ledoutAddr l = ledoutAddr led →
            ledMode (seen (slaw pca963xDevAddr) r m.device).registers l = .blink)) := by
  apply (setMode_total port led mode hready).mono
  rintro - m' ⟨hdevice, hlog⟩ hnone
  have hbytes : (readBack (afterInstance m) pca963xDevAddr (ledoutAddr led)).1 = [] := by
    rw [hnone] at hlog
    simpa using hlog.symm
  rw [hdevice, hbytes, seen_writeBack, seen_afterInstance]
  split
  · rename_i hdelivered
    rw [List.headD_nil, ledMode_filler]
    exact (imp_iff_right hdelivered).symm
  · rename_i hdelivered
    exact iff_of_true (fun _ _ => rfl) fun h => absurd h hdelivered

/-- When the read of the inputs brings nothing, no interrupt is lost or raised just when the last sample
was the filler too. -/
theorem synchronizeInterrupts_preserves_iff {held : Bool} {m : TwMachine} (hready : Ready held m) :
    Returns synchronizeInterrupts m fun _ m' => receptions m'.log = receptions m.log ++ [[]] →
      (m'.vars .interrupts = m.vars .interrupts ∧
          m'.vars .lastRegisterState = m.vars .lastRegisterState ↔
        m.vars .lastRegisterState = (0xFF : Byte)) := by
  apply (synchronizeInterrupts_total hready).mono
  intro _ m' h hnone
  cases hrequired : m.vars .synchronizeRequired with
  | false =>
      rw [hrequired, if_neg Bool.false_ne_true, hnone] at h
      exact absurd h.1 (by simp)
  | true =>
      rw [hrequired, if_pos rfl] at h
      obtain ⟨hlog, hinterrupts, hlast⟩ := h
      have hbytes : (readBack m.device pca9554IrqAddr pca9554Input).1 = [] := by
        rw [hnone] at hlog
        simpa using hlog.symm
      rw [hbytes, List.headD_nil] at hinterrupts hlast
      rw [hinterrupts, hlast, Port.fallingEdges_allHigh]
      simp [eq_comm]

/-- **A read that receives nothing.** What the call must preserve is preserved just when `0xFF` does no
harm: when the write-back does not reach the slave, or when the bits to be preserved are all set. -/
theorem failedRead_preserves_iff (c : ReadingCall) {held : Bool} {m : TwMachine} (r : RegisterSlave)
    (hready : Ready held m) :
    Returns c.code m fun _ m' => receptions m'.log = receptions m.log ++ [[]] →
      (c.Preserves (seen (slaw c.address) r m.device).registers
          (seen (slaw c.address) r m'.device).registers m.vars m'.vars ↔
        c.Harmless m (seen (slaw c.address) r m.device).registers) := by
  cases c with
  | setMode port led mode => exact setMode_preserves_iff r port led mode hready
  | enablePort target =>
      exact updateOutput_preserves_iff r target _ hready fun p _ hnull => enable_filler target p hnull
  | disablePort target =>
      exact updateOutput_preserves_iff r target _ hready fun p hp hnull => disable_filler target p hp hnull
  | synchronizeInterrupts => exact synchronizeInterrupts_preserves_iff hready

/-- The board at rest, with a slave that acknowledges everything but the address of the read. -/
def refusing : TwMachine := ⟨atRest, ⟨.idle, fun i => ⟨none, i ≠ 3, 0⟩, []⟩, []⟩

/-- Its bus is at rest. -/
theorem refusing_ready : Ready false refusing := ⟨rfl, rfl, rfl⟩

/-- The slave with all its registers cleared: no port is enabled. -/
def cleared : RegisterSlave := ⟨fun _ => 0, .deaf⟩

/-- What `EnablePort` makes of the output register. -/
def enableNorth (portState : Byte) : Byte := portState ||| ((1 : Byte) <<< EPort.north.code)

/-- The read of `EnablePort` is refused. -/
theorem refusing_receives_nothing :
    Returns (ReadingCall.enablePort .north).code refusing fun _ m' =>
      receptions m'.log = receptions refusing.log ++ [[]] :=
  (updateOutput_total enableNorth refusing_ready).mono fun _ _ h => h.2

/-- A call of `EnablePort` in which the read is refused. -/
theorem failedRead_preserves_iff_refusing :
    Returns (ReadingCall.enablePort .north).code refusing fun _ m' =>
      receptions m'.log = receptions refusing.log ++ [[]] ∧
      ((ReadingCall.enablePort .north).Preserves
          (seen (slaw pca9554RstAddr) cleared refusing.device).registers
          (seen (slaw pca9554RstAddr) cleared m'.device).registers refusing.vars m'.vars ↔
        (ReadingCall.enablePort .north).Harmless refusing
          (seen (slaw pca9554RstAddr) cleared refusing.device).registers) := by
  have hiff := failedRead_preserves_iff (.enablePort .north) cleared refusing_ready
  exact (refusing_receives_nothing.and hiff).mono fun _ _ h => ⟨h.1, h.2 h.1⟩

/-- It enables every port. -/
theorem failedRead_changes_others :
    ¬ ∀ (c : ReadingCall) (held : Bool) (m : TwMachine) (r : RegisterSlave), Ready held m →
      Returns c.code m fun _ m' => receptions m'.log = receptions m.log ++ [[]] →
        c.Preserves (seen (slaw c.address) r m.device).registers
          (seen (slaw c.address) r m'.device).registers m.vars m'.vars := by
  intro hall
  have hpreserves := hall (.enablePort .north) false refusing cleared refusing_ready
  have hiff := updateOutput_preserves_iff cleared .north enableNorth refusing_ready
    fun p _ hnull => enable_filler .north p hnull
  obtain ⟨-, m', ⟨hpreserves, hiff, hlog⟩, -⟩ :=
    (hpreserves.and (hiff.and refusing_receives_nothing)).exists_eq
  have hharmless := (hiff hlog).mp (hpreserves hlog) (by decide) .east (by simp) (by simp)
  exact absurd hharmless (by decide)

end SmartblocksOs.Board
