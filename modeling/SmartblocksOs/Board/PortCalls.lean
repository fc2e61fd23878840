/-
# SmartblocksOs.Board.PortCalls -- the enabled ports as a set

The reset line of each face is a bit of the output register of a port expander. `EnablePort` and
`DisablePort` read the register to write it back with one bit changed; to their caller they put a port
into the set of the enabled ports, or take it out. After any sequence of calls the register holds the set
that the calls have made (`portCalls_refine`). The first call initialises the port controller, which
writes another register of the same expander, and `NULLPORT` has no line.

The chain from the code to the set has the same three layers as that of the LEDs: `updateOutput` is a read
and a write of a register on the bus, the two are one access to a file of registers, and the access puts
one bit into the set of the ports or takes it out. The two lines of the register that belong to no port
keep what they are.
-/
import SmartblocksOs.Board.LedCalls

namespace SmartblocksOs.Board

open SmartblocksOs.Foundation SmartblocksOs.System SmartblocksOs.Foundation.TwoWire

open CTWController RegisterFile

namespace CPortController

/-! ## The calls

What a list of calls is to make of the set of enabled ports, without bus and registers. -/

/-- `CPortController::instance().EnablePort` and `DisablePort`. -/
inductive PortCall where
  | enable (target : EPort)
  | disable (target : EPort)
  deriving DecidableEq, Repr

namespace PortCall

/-- The function of `CPortController` that the call is a call of. -/
def code : PortCall → Code Unit
  | enable target => onInstance (enablePort target)
  | disable target => onInstance (disablePort target)

/-- What is written back for the state that has been read. -/
def change : PortCall → Byte → Byte
  | enable target, portState => portState ||| ((1 : Byte) <<< target.code)
  | disable target, portState => portState &&& ~~~((1 : Byte) <<< target.code)

/-- The ports that are enabled after the call. -/
def apply : PortCall → Set Port → Set Port
  | enable target, ports => {p | p.1 = target ∨ p ∈ ports}
  | disable target, ports => {p | p ∈ ports ∧ p.1 ≠ target}

/-- The two functions differ in how they change the value. -/
theorem code_eq (c : PortCall) : c.code = onInstance (updateOutput c.change) := by
  cases c with
  | enable target => rfl
  | disable target => rfl

/-- The access that the call makes to the registers of the expander. -/
def access (c : PortCall) : Access := .modify pca9554Output c.change

end PortCall

/-- The ports whose reset line is high. -/
def enabled (registers : Byte → Byte) : Set Port := {p | portBit registers p.1 = true}

/-- The lines of the expander that belong to no port. -/
def spareLines : Byte := 0xC0

/-! ## One register

The bit of a port is that of its code. Six of the eight bits belong to ports. -/

/-- The bit of a port is not that of another one. -/
theorem getLsbD_line (p : Port) (target : EPort) :
    ((1 : Byte) <<< target.code).getLsbD p.1.code.toNat = decide (p.1 = target) := by
  obtain ⟨p, hp⟩ := p
  show ((1 : Byte) <<< target.code).getLsbD p.code.toNat = decide (p = target)
  cases p with
  | nullport => exact absurd rfl hp
  | _ => clear hp; cases target <;> decide

theorem line_lt (p : Port) : p.1.code.toNat < 8 := by
  obtain ⟨p, hp⟩ := p
  show p.code.toNat < 8
  cases p with
  | nullport => exact absurd rfl hp
  | _ => clear hp; decide

/-- The bit of a port is none of the two spare ones. -/
theorem line_and_spareLines (target : EPort) : ((1 : Byte) <<< target.code) &&& spareLines = 0 := by
  cases target <;> rfl

namespace PortCall

variable (c : PortCall) (registers : Byte → Byte)

/-- One call changes the set as it says. -/
theorem enabled_store : enabled (c.access.store registers) = c.apply (enabled registers) := by
  ext p
  show (Function.update registers pca9554Output (c.change (registers pca9554Output))
    pca9554Output).getLsbD p.1.code.toNat = true ↔ _
  rw [Function.update_self]
  cases c with
  | enable target =>
      show (registers pca9554Output ||| _).getLsbD _ = true ↔ p.1 = target ∨ portBit registers p.1 = true
      rw [BitVec.getLsbD_or, getLsbD_line, Bool.or_eq_true, decide_eq_true_eq]
      exact or_comm
  | disable target =>
      show (registers pca9554Output &&& _).getLsbD _ = true ↔ portBit registers p.1 = true ∧ p.1 ≠ target
      rw [BitVec.getLsbD_and, BitVec.getLsbD_not, getLsbD_line, Bool.and_eq_true]
      simp [line_lt p, portBit]

/-- One call leaves the spare lines alone. -/
theorem spareLines_store :
    c.access.store registers pca9554Output &&& spareLines = registers pca9554Output &&& spareLines := by
  show Function.update registers pca9554Output (c.change (registers pca9554Output)) pca9554Output
    &&& spareLines = _
  rw [Function.update_self]
  cases c with
  | enable target =>
      show (_ ||| _) &&& spareLines = _
      rw [BitVec.and_or_distrib_right, line_and_spareLines]
      exact BitVec.or_zero
  | disable target =>
      have hline := line_and_spareLines target
      show (_ &&& ~~~_) &&& spareLines = _
      ext i hi
      have hbit := congrArg (fun b : Byte => b[i]) hline
      simp only [BitVec.getElem_and, BitVec.getElem_not] at hbit ⊢
      grind

theorem store_of_ne {addr : Byte} (haddr : addr ≠ pca9554Output) :
    c.access.store registers addr = registers addr :=
  Function.update_of_ne haddr _ _

end PortCall

/-! ## Any number of calls

By induction on the list of calls, each of which is one access. -/

section

variable (calls : List PortCall) (registers : Byte → Byte)

/-- Any number of calls change the set as they say. -/
theorem enabled_storeAll :
    enabled (Access.storeAll (calls.map PortCall.access) registers) =
      calls.foldl (fun ports c => c.apply ports) (enabled registers) := by
  induction calls generalizing registers with
  | nil => rfl
  | cons c calls ih =>
      rw [List.foldl_cons, ← c.enabled_store]
      exact ih (c.access.store registers)

theorem spareLines_storeAll :
    Access.storeAll (calls.map PortCall.access) registers pca9554Output &&& spareLines =
      registers pca9554Output &&& spareLines := by
  induction calls generalizing registers with
  | nil => rfl
  | cons c calls ih => exact (ih (c.access.store registers)).trans (c.spareLines_store registers)

theorem storeAll_of_ne {addr : Byte} (haddr : addr ≠ pca9554Output) :
    Access.storeAll (calls.map PortCall.access) registers addr = registers addr := by
  induction calls generalizing registers with
  | nil => rfl
  | cons c calls ih => exact (ih (c.access.store registers)).trans (c.store_of_ne registers haddr)

end

/-! ## The code of the calls

The functions of the source make these accesses on the bus, behind the initialisation of the port
controller. -/

section

variable {held : Bool} {m : TwMachine}

/-- The output register is read and written back; the controller does nothing else on the bus. -/
theorem updateOutput_worked (change : Byte → Byte) (hready : Ready held m) :
    Returns (updateOutput change) m fun _ m' => Worked false
      ((Access.modify pca9554Output change).bus (slaw pca9554RstAddr) (slar pca9554RstAddr) 0xFF m.device)
      ([.sent [pca9554Output], .received (readBack m.device pca9554RstAddr pca9554Output).1] ++
        [.sent [pca9554Output,
          change ((readBack m.device pca9554RstAddr pca9554Output).1.headD 0xFF)]]) m m' := by
  refine calledFor_total (Total.bind (Total.acquire_iff.mpr ?_))
  refine request_worked pca9554RstAddr pca9554Output (Worked.refl (hready.noted (.called .port)))
    fun length m₁ h₁ hu => ?_
  apply Total.seq (take_worked h₁ hu)
  rintro b m₂ ⟨rfl, h₂, -⟩
  refine Total.bind (Total.release_iff.mpr (Total.bind (Total.acquire_iff.mpr ?_)))
  refine update_worked pca9554RstAddr pca9554Output _ h₂ fun m₃ h₃ => Total.release_iff.mpr ?_
  exact (h₃.noted rfl).note (e := .returned) rfl

/-- What `CPortController::instance()` makes of the registers of the expander. -/
def configured (required : Bool) (registers : Byte → Byte) : Byte → Byte :=
  if required then Function.update registers pca9554Config 0xC0 else registers

/-- The first use writes the configuration register. -/
theorem afterInstance_configured (hready : Ready held m) :
    (∃ held', (afterInstance m).Between held') ∧ Changes (slaw pca9554RstAddr) (slar pca9554RstAddr)
      (configured (m.vars .initRequired)) m.device (afterInstance m) := by
  unfold afterInstance configured
  cases hrequired : m.vars .initRequired with
  | false => exact ⟨⟨held, hready.bus⟩, Changes.refl m.device⟩
  | true =>
      obtain ⟨-, -, -, hheld⟩ := m.device.transmission_traced hready.bus (slaw pca9554RstAddr)
        [pca9554Config, 0xC0] true
      exact ⟨⟨_, hheld⟩, Access.changes_write hready.bus pca9554Config 0xC0⟩

/-- From the board at rest to the board at rest, the code changes the registers of the expander by `g`. -/
def Turns (code : Code Unit) (required : Bool) (g : (Byte → Byte) → Byte → Byte) : Prop :=
  ∀ held m, Ready held m → m.vars .initRequired = required → Returns code m fun _ m' =>
    Ready false m' ∧ m'.vars .initRequired = false ∧
      Changes (slaw pca9554RstAddr) (slar pca9554RstAddr) g m.device m'.device

/-- A call turns the registers into those after its access, with the configuration before it where it is
due. -/
theorem PortCall.code_turns (c : PortCall) (required : Bool) :
    Turns c.code required (c.access.store ∘ configured required) := by
  rintro held m hready rfl
  rw [code_eq]
  unfold onInstance
  apply Total.seq (initOnFirstUse_total hready)
  intro _ m₁ h₁
  obtain ⟨held₁, hready₁⟩ := h₁.ready
  apply (updateOutput_worked c.change hready₁).mono
  intro _ m₂ h₂
  obtain ⟨⟨held', hheld⟩, hchanges⟩ := afterInstance_configured hready
  refine ⟨h₂.ready, (h₂.vars _ rfl).trans h₁.init, ?_⟩
  rw [h₂.device, h₁.device]
  exact hchanges.trans (Access.bus_changes _ _ 0xFF hheld c.access)

/-- The controller is initialised by the first of the calls. -/
theorem forM_turns (c : PortCall) (calls : List PortCall) (required : Bool) :
    Turns ((c :: calls).forM PortCall.code) required
      (Access.storeAll ((c :: calls).map PortCall.access) ∘ configured required) := by
  induction calls generalizing c required with
  | nil =>
      show Turns (c.code >>= pure) required (c.access.store ∘ configured required)
      rw [bind_pure]
      exact c.code_turns required
  | cons c' calls ih =>
      intro held m hready hrequired
      apply Total.seq (c.code_turns required held m hready hrequired)
      rintro _ m' ⟨hready', hinit, hchanges⟩
      apply (ih c' false false m' hready' hinit).mono
      rintro _ m'' ⟨hready'', hinit', hchanges'⟩
      exact ⟨hready'', hinit', hchanges.trans hchanges'⟩

end

/-- **The enabled ports.** After any calls the output register holds the set of ports that the calls make
of the set it held; its two spare lines and the other registers are as they were, except that the first
call for a controller that is not initialised makes the reset lines outputs. -/
theorem portCalls_refine (c : PortCall) (calls : List PortCall) (required : Bool) :
    ∃ g, Turns ((c :: calls).forM PortCall.code) required g ∧ ∀ registers,
      enabled (g registers) = (c :: calls).foldl (fun ports c => c.apply ports) (enabled registers) ∧
        g registers pca9554Output &&& spareLines = registers pca9554Output &&& spareLines ∧
        g registers pca9554Config = (if required then 0xC0 else registers pca9554Config) ∧
        ∀ addr, addr ≠ pca9554Output → addr ≠ pca9554Config → g registers addr = registers addr := by
  refine ⟨_, forM_turns c calls required, fun registers => ?_⟩
  -- the configuration is one register, and not the one with the lines
  have hother (addr : Byte) (haddr : addr ≠ pca9554Config) :
      configured required registers addr = registers addr := by
    unfold configured
    split
    · exact Function.update_of_ne haddr _ _
    · rfl
  have houtput : configured required registers pca9554Output = registers pca9554Output :=
    hother pca9554Output (by decide)
  refine ⟨?_, ?_, ?_, fun addr haddr haddr' => ?_⟩
  · have hsame : enabled (configured required registers) = enabled registers := by
      unfold enabled portBit
      rw [houtput]
    rw [← hsame]
    exact enabled_storeAll (c :: calls) _
  · rw [← houtput]
    exact spareLines_storeAll (c :: calls) _
  · refine (storeAll_of_ne (c :: calls) _ (by decide)).trans ?_
    unfold configured
    split
    · exact Function.update_self ..
    · rfl
  · exact (storeAll_of_ne (c :: calls) _ haddr).trans (hother addr haddr')

/-- The board before its first call, with the bus of `obliging`. -/
def unconfigured : TwMachine :=
  { CLEDController.obliging with vars := Function.update atRest .initRequired true }

/-- Its bus is at rest. -/
theorem unconfigured_ready : Ready false unconfigured := ⟨rfl, rfl, rfl⟩

/-- The first calls, to an expander whose registers are all cleared. -/
theorem portCalls_refine_unconfigured :
    Returns ([PortCall.disable .east, .enable .nullport, .enable .north].forM PortCall.code) unconfigured
      fun _ m' =>
        Served (slaw pca9554RstAddr) (slar pca9554RstAddr) CLEDController.blank m'.device.trace ∧
          enabled (after (slaw pca9554RstAddr) (slar pca9554RstAddr) CLEDController.blank
            m'.device.trace).registers =
              [PortCall.disable .east, .enable .nullport, .enable .north].foldl
                (fun ports c => c.apply ports) (enabled CLEDController.blank.registers) := by
  obtain ⟨g, hturns, hregisters⟩ :=
    portCalls_refine (.disable .east) [.enable .nullport, .enable .north] true
  obtain ⟨fuel, a, m', hexec, -, -, events, htrace, hchanges⟩ :=
    hturns false unconfigured unconfigured_ready rfl
  -- that the expander has answered for its registers is found by running the code
  have hserved : ((Prog.exec twiReact 20
      ([PortCall.disable .east, .enable .nullport, .enable .north].forM PortCall.code) unconfigured).map
        fun r => decide (Served (slaw pca9554RstAddr) (slar pca9554RstAddr) CLEDController.blank
          r.2.device.trace)) = some true := by
    decide +kernel
  obtain ⟨r, hr, hr'⟩ := Option.map_eq_some_iff.mp hserved
  obtain rfl : r = (a, m') := Prog.exec_unique hr hexec
  have hserved' := of_decide_eq_true hr'
  have htrace' : m'.device.trace = events := htrace
  refine ⟨fuel, a, m', hexec, hserved', ?_⟩
  rw [htrace', hchanges _ (htrace' ▸ hserved'), (hregisters _).1]

end CPortController

end SmartblocksOs.Board
