/-
# SmartblocksOs.Port.Interrupt -- the interrupt line of the port expander

The PCA9554 pulls `INT` low while its inputs differ from the value last read, a falling edge is
latched until `CPortInterrupt::ServiceRoutine` runs, and `SynchronizeInterrupts` reads the inputs in
the middle of its own steps. It clears `bSynchronizeRequired` after the read, so a change that falls
between the two sets the flag in vain: `INT` is low already and makes no further edge. When `INT` is still
high, or its edge is still waiting, nothing is lost (`no_port_interrupt_lost`).
-/
import SmartblocksOs.Foundation.Runs
import SmartblocksOs.System.Globals

namespace SmartblocksOs.Port

open SmartblocksOs.Foundation SmartblocksOs.System

/-! ## The expander, the handler and `SynchronizeInterrupts` -/

/-- Where `SynchronizeInterrupts` stands. -/
inductive SyncPc where
  | idle
  /-- At `if(bSynchronizeRequired)`. -/
  | test
  /-- At the I2C transaction, which ends with the read of the inputs. -/
  | transaction
  /-- At `bSynchronizeRequired = false`. -/
  | clearFlag
  /-- At `unRegisterState = Read()`. -/
  | readByte
  /-- At the update of `m_unInterrupts`. -/
  | append (registerState : Byte)
  /-- At the update of `m_unLastRegisterState`. -/
  | store (registerState : Byte)
  deriving DecidableEq

/-- The expander, and the members of `CPortController`. -/
structure State where
  /-- The inputs of the PCA9554, and the value it was last read as. -/
  inputs : Byte
  lastRead : Byte
  /-- A falling edge of `INT` has been latched, and its `ServiceRoutine` has yet to run. -/
  edge : Bool
  /-- The byte the I2C read has left in the receive buffer. -/
  received : Byte
  synchronizeRequired : Bool
  interrupts : Byte
  lastRegisterState : Byte
  pc : SyncPc

/-- What can happen to the expander and to the controller. -/
inductive Event where
  /-- The inputs change to `inputs`. -/
  | change (inputs : Byte)
  | serviceRoutine
  /-- `SynchronizeInterrupts` is called. -/
  | call
  /-- The next step of `SynchronizeInterrupts`. -/
  | advance
  deriving DecidableEq

/-- The bits that went from high to low. -/
def fallingEdges (registerState lastRegisterState : Byte) : Byte :=
  (registerState ^^^ lastRegisterState) &&& ~~~registerState

/-- The bits that were set and are not any more. -/
theorem fallingEdges_getLsbD (registerState lastRegisterState : Byte) (b : Nat) :
    (fallingEdges registerState lastRegisterState).getLsbD b = true ↔
      lastRegisterState.getLsbD b = true ∧ registerState.getLsbD b = false := by
  unfold fallingEdges
  rw [BitVec.getLsbD_and, BitVec.getLsbD_xor, BitVec.getLsbD_not]
  by_cases hb : b < 8
  · cases lastRegisterState.getLsbD b <;> cases registerState.getLsbD b <;> simp [hb]
  · rw [BitVec.getLsbD_of_ge lastRegisterState b (by omega)]
    simp [hb]

/-- No bit falls in a sample of `0xFF`. -/
theorem fallingEdges_allHigh (lastRegisterState : Byte) : fallingEdges 0xFF lastRegisterState = 0 := by
  unfold fallingEdges
  rw [show ~~~(0xFF : Byte) = 0 from rfl]
  exact BitVec.and_zero

namespace State

/-- `INT` is low. -/
def IntLow (s : State) : Prop := s.inputs ≠ s.lastRead

instance (s : State) : Decidable s.IntLow :=
  inferInstanceAs (Decidable (_ ≠ _))

/-- The inputs change; `INT` falls when it was high and is now low. -/
def change (s : State) (inputs : Byte) : State :=
  { s with inputs := inputs, edge := s.edge || decide (¬ s.IntLow ∧ inputs ≠ s.lastRead) }

/-- The next step of `SynchronizeInterrupts`. The transaction is one step here: only its last part,
the read of the inputs, depends on them. It always samples them: a read that the expander refuses, after
which `Read()` returns the filler `0xFF`, is left out here. `SmartblocksOs.Port.InterruptVector` has it
among its steps (`advance t none`), and `SmartblocksOs.Board.FailedReads` says what it does to the
controller. -/
def advance (s : State) : Option State :=
  match s.pc with
  | .idle => none
  | .test => some { s with pc := if s.synchronizeRequired then .transaction else .idle }
  | .transaction =>
      some { s with received := s.inputs, lastRead := s.inputs, pc := .clearFlag }
  | .clearFlag => some { s with synchronizeRequired := false, pc := .readByte }
  | .readByte => some { s with pc := .append s.received }
  | .append x =>
      some { s with
        interrupts := s.interrupts ||| fallingEdges x s.lastRegisterState
        pc := .store x }
  | .store x => some { s with lastRegisterState := x, pc := .idle }

end State

/-- The steps of expander and controller. The service routine runs when an edge has been latched, and at
any point of `SynchronizeInterrupts`. -/
def portStep (s : State) : Event → Option State
  | .change inputs => some (s.change inputs)
  | .serviceRoutine =>
      if s.edge then some { s with edge := false, synchronizeRequired := true } else none
  | .call => if s.pc = .idle then some { s with pc := .test } else none
  | .advance => s.advance

/-- After the constructor: `bSynchronizeRequired` is set, whatever the expander was last read as. -/
def Initial (s : State) : Prop := s.pc = .idle ∧ s.synchronizeRequired = true

/-! ## When nothing is lost -/

/-- With no `SynchronizeInterrupts` in progress and the handler run for every falling edge so far, a
difference between the inputs and `m_unLastRegisterState` is announced by `bSynchronizeRequired`. -/
def Announced (s : State) : Prop :=
  s.pc = .idle → s.edge = false → s.inputs ≠ s.lastRegisterState → s.synchronizeRequired = true

/-- When the flag is cleared `INT` is still high, or the handler has yet to run for the edge by which
it fell. -/
def ClearsInTime (s : State) (e : Event) : Prop :=
  e = .advance → s.pc = .clearFlag → ¬ s.IntLow ∨ s.edge = true

instance (s : State) (e : Event) : Decidable (ClearsInTime s e) :=
  inferInstanceAs (Decidable (_ → _ → _))

/-- A low `INT` will be noticed: the flag is set, or the handler will set it. -/
def Noticed (s : State) : Prop :=
  s.synchronizeRequired = true ∨ s.edge = true ∨ ¬ s.IntLow

/-- What holds between two steps of `SynchronizeInterrupts`. -/
def SyncOk (s : State) : Prop :=
  match s.pc with
  | .idle | .test => s.synchronizeRequired = true ∨ (Noticed s ∧ s.lastRead = s.lastRegisterState)
  | .transaction => s.synchronizeRequired = true
  | .clearFlag => s.lastRead = s.received
  | .readByte => Noticed s ∧ s.lastRead = s.received
  | .append x | .store x => Noticed s ∧ s.lastRead = x

/-- Before anything has been sampled. -/
theorem Initial.syncOk {s : State} (h : Initial s) : SyncOk s := by
  rw [SyncOk, h.1]
  exact Or.inl h.2

theorem SyncOk.announced {s : State} (h : SyncOk s) : Announced s := by
  intro hpc hedge hne
  rw [SyncOk, hpc] at h
  rcases h with hreq | ⟨hreq | hedge' | hhigh, hlast⟩
  · exact hreq
  · exact hreq
  · rw [hedge] at hedge'
    exact absurd hedge' Bool.false_ne_true
  · exact absurd ((not_not.mp hhigh).trans hlast) hne

/-- What happens to the inputs while no step is taken is noticed. -/
theorem Noticed.change {s : State} (h : Noticed s) (inputs : Byte) : Noticed (s.change inputs) := by
  rcases h with hreq | hedge | hhigh
  · exact Or.inl hreq
  · refine Or.inr (Or.inl ?_)
    show (s.edge || _) = true
    rw [hedge, Bool.true_or]
  · by_cases hne : inputs = s.lastRead
    · exact Or.inr (Or.inr (not_not.mpr hne))
    · refine Or.inr (Or.inl ?_)
      show (s.edge || decide _) = true
      rw [decide_eq_true ⟨hhigh, hne⟩, Bool.or_true]

/-- A change of the inputs that nobody has been told of makes `INT` fall. -/
theorem SyncOk.change {s : State} (h : SyncOk s) (inputs : Byte) : SyncOk (s.change inputs) := by
  have hpc : (s.change inputs).pc = s.pc := rfl
  rw [SyncOk] at h ⊢
  rw [hpc]
  cases hs : s.pc with
  | idle | test =>
      rw [hs] at h
      exact h.imp_right fun hn => ⟨hn.1.change inputs, hn.2⟩
  | transaction | clearFlag =>
      rw [hs] at h
      exact h
  | readByte | append x | store x =>
      rw [hs] at h
      exact ⟨h.1.change inputs, h.2⟩

/-- The service routine passes an edge on to the flag. -/
theorem SyncOk.serviceRoutine {s : State} (h : SyncOk s) :
    SyncOk { s with edge := false, synchronizeRequired := true } := by
  rw [SyncOk] at h ⊢
  cases hs : s.pc with
  | idle | test => exact Or.inl rfl
  | transaction => rfl
  | clearFlag =>
      rw [hs] at h
      exact h
  | readByte | append x | store x =>
      rw [hs] at h
      exact ⟨Or.inl rfl, h.2⟩

/-- The steps of `SynchronizeInterrupts`. The flag is cleared behind the sample, so the inputs may have
changed in between; that is what `ClearsInTime` excludes. -/
theorem SyncOk.advance {s t : State} (h : SyncOk s) (hok : ClearsInTime s .advance)
    (hs : s.advance = some t) : SyncOk t := by
  rw [SyncOk] at h
  cases hpc : s.pc with
  | idle => simp [State.advance, hpc] at hs
  | test =>
      simp only [State.advance, hpc, Option.some.injEq] at h hs
      subst hs
      by_cases hreq : s.synchronizeRequired = true
      · rw [if_pos hreq]
        exact hreq
      · rw [if_neg hreq]
        exact Or.inr (h.resolve_left hreq)
  -- the sample is taken
  | transaction =>
      simp only [State.advance, hpc, Option.some.injEq] at hs
      subst hs
      exact rfl
  -- Here an edge may be lost: what has come since the sample has to be seen by the next call, which the
  -- condition asks for.
  | clearFlag =>
      simp only [State.advance, hpc, Option.some.injEq] at h hs
      subst hs
      refine ⟨?_, h⟩
      rcases hok rfl hpc with hhigh | hedge
      · exact Or.inr (Or.inr hhigh)
      · exact Or.inr (Or.inl hedge)
  | readByte =>
      simp only [State.advance, hpc, Option.some.injEq] at h hs
      subst hs
      exact h
  | append x =>
      simp only [State.advance, hpc, Option.some.injEq] at h hs
      subst hs
      exact h
  | store x =>
      simp only [State.advance, hpc, Option.some.injEq] at h hs
      subst hs
      exact Or.inr h

/-- Every step that clears in time keeps the invariant. -/
theorem step_syncOk {s t : State} {e : Event} (h : SyncOk s) (hok : ClearsInTime s e)
    (hs : portStep s e = some t) : SyncOk t := by
  cases e with
  | change inputs =>
      obtain rfl := Option.some.inj hs
      exact h.change inputs
  | serviceRoutine =>
      simp only [portStep] at hs
      split at hs
      · obtain rfl := Option.some.inj hs
        exact h.serviceRoutine
      · exact absurd hs (by simp)
  | call =>
      simp only [portStep] at hs
      split at hs
      · rename_i hpc
        obtain rfl := Option.some.inj hs
        rw [SyncOk, hpc] at h
        exact h
      · exact absurd hs (by simp)
  | advance => exact h.advance hok hs

/-- **No port interrupt is lost, as long as the flag is cleared in time.** In every run in which `INT`
is still high whenever `bSynchronizeRequired` is cleared, or the handler has yet to run for its edge,
a change of the inputs is announced in every state reached. -/
theorem no_port_interrupt_lost {s t : State} {es : List Event} (hs : Initial s)
    (hok : Along portStep ClearsInTime s es) (hrun : run portStep s es = some t) : Announced t :=
  (run_preserves_along (fun _ _ _ h hc hst => step_syncOk h hc hst) hs.syncOk hok hrun).announced

/-- What the constructor leaves, with all inputs high. -/
def powerOn : State := ⟨0xFF, 0xFF, false, 0, true, 0, 0xFF, .idle⟩

/-- An edge that falls before the transaction samples the inputs, and one that is still waiting when
the flag is cleared. -/
theorem no_port_interrupt_lost_sampled :
    ∃ t, run portStep powerOn
        [.change 0xFE, .call, .advance, .serviceRoutine, .advance, .change 0xFC, .advance,
          .serviceRoutine, .advance, .advance, .advance] = some t ∧ Announced t := by
  have hrun : (run portStep powerOn
      [.change 0xFE, .call, .advance, .serviceRoutine, .advance, .change 0xFC, .advance,
        .serviceRoutine, .advance, .advance, .advance]).isSome = true := by decide
  obtain ⟨t, ht⟩ := Option.isSome_iff_exists.mp hrun
  exact ⟨t, ht, no_port_interrupt_lost ⟨rfl, rfl⟩ (by decide) ht⟩

/-- The change falls between the read of the inputs and `bSynchronizeRequired = false`, and its
handler runs there too: `INT` stays low, and nothing sets the flag again. -/
theorem port_interrupt_lost :
    ∃ t, run portStep powerOn
        [.call, .advance, .advance, .change 0xFE, .serviceRoutine, .advance, .advance, .advance,
          .advance] = some t ∧ ¬ Announced t := by
  refine ⟨_, rfl, ?_⟩
  intro h
  exact absurd (h rfl rfl (by decide)) (by decide)

end SmartblocksOs.Port
