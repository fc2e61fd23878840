/-
# SmartblocksOs.Board.InterruptVector -- the code behind `SmartblocksOs.Port.InterruptVector`

Run by a task that holds the lock of the port controller, `SynchronizeInterrupts`, `ClearInterrupts` and
the take of `NFCReact` go through the accesses of `SmartblocksOs.Port.vectorStep`, one by one: what they
leave in `m_unInterrupts` and `m_unLastRegisterState` is what the accesses leave there (`Accesses`).

The two variables are protected by the lock of the port controller, so that nothing else happens to them
while one of these functions runs; what may happen between the accesses is that the flag is set by the
interrupt, which the accesses of the model leave open.
-/
import SmartblocksOs.Port.InterruptVector
import SmartblocksOs.Board.FailedReads

namespace SmartblocksOs.Board

open SmartblocksOs.Foundation SmartblocksOs.System

open CTWController CPortController Port

/-- `GetInterrupts`, and `ClearInterrupts` of what it has returned. -/
def takeInterrupts : Code Byte := do
  let irqs ← getInterrupts
  clearInterrupts irqs
  pure irqs

section

variable {ι : Type} [DecidableEq ι] {held : Bool} {m : TwMachine}

/-- The members of the port controller, for task `t` inside the lock. -/
def vectorOf (t : ι) (history : List Entry) (m : TwMachine) : Vector ι :=
  ⟨m.vars .interrupts, m.vars .lastRegisterState, m.vars .synchronizeRequired, some (t, .between), history⟩

/-- From `m` to `m'` task `t` has made the accesses of `op`, and they have left the entries `l`. -/
def Accesses (t : ι) (op : VectorOp) (l : List Entry) (m m' : TwMachine) : Prop :=
  ∀ history, ∃ es, (∀ e ∈ es, ∃ received, e = .advance t received) ∧ ∃ s,
    run vectorStep (vectorOf t history m) (.call t op :: es) = some s ∧
      s.holder = some (t, .between) ∧ s.history = history ++ l ∧
      s.interrupts = m'.vars .interrupts ∧ s.lastRegisterState = m'.vars .lastRegisterState

/-- What one transaction of `SynchronizeInterrupts` samples. -/
def sampledNow (m : TwMachine) : Option Byte :=
  (readBack m.device pca9554IrqAddr pca9554Input).1.head?

/-- An access by the task that has the vector. -/
theorem step_advance (t : ι) (i l : Byte) (required : Bool) (pc : VectorPc) (history : List Entry)
    (received : Option Byte) :
    vectorStep ⟨i, l, required, some (t, pc), history⟩ (.advance t received) =
      (⟨i, l, required, some (t, pc), history⟩ : Vector ι).access t received pc := by
  simp only [vectorStep, Option.bind_eq_bind, Option.bind_some, if_true]

theorem step_call (t : ι) (i l : Byte) (required : Bool) (history : List Entry) (op : VectorOp) :
    vectorStep ⟨i, l, required, some (t, .between), history⟩ (.call t op) =
      some (⟨i, l, required, some (t, op.start), history⟩ : Vector ι) := by
  simp only [vectorStep, if_true]

/-- The accesses of `op`, `n` of them, where each transaction receives the same. -/
theorem accesses_of_run {t : ι} {op : VectorOp} {l : List Entry} {m m' : TwMachine} (n : Nat)
    (received : Option Byte)
    (h : ∀ history, ∃ required, run vectorStep (vectorOf t history m)
      (.call t op :: List.replicate n (.advance t received)) =
        some ⟨m'.vars .interrupts, m'.vars .lastRegisterState, required, some (t, .between), history ++ l⟩) :
    Accesses t op l m m' := by
  intro history
  obtain ⟨required, hrun⟩ := h history
  refine ⟨_, fun e he => ?_, _, hrun, rfl, rfl, rfl, rfl⟩
  exact ⟨received, List.eq_of_mem_replicate he⟩

/-- The expander is asked only if it has reported something; the sample is then compared with the last
one. -/
theorem synchronizeInterrupts_accesses (t : ι) (hready : Ready held m) :
    Returns synchronizeInterrupts m fun _ m' => Accesses t .synchronizeInterrupts
      (if m.vars .synchronizeRequired then ((sampledNow m).map Entry.sampled).toList else []) m m' := by
  apply (synchronizeInterrupts_total hready).mono
  intro _ m' h
  cases hrequired : m.vars .synchronizeRequired with
  | false =>
      rw [hrequired, if_neg Bool.false_ne_true] at h
      obtain ⟨-, hinterrupts, hlast⟩ := h
      refine accesses_of_run 1 none fun history => ⟨false, ?_⟩
      simp only [vectorOf, hrequired, run_cons, step_call, VectorOp.start, List.replicate, step_advance,
        Vector.access, Option.bind_some, run_nil, hinterrupts, hlast, List.append_nil,
        if_neg Bool.false_ne_true]
  | true =>
      rw [hrequired, if_pos rfl] at h
      obtain ⟨-, hinterrupts, hlast⟩ := h
      refine accesses_of_run 8 (sampledNow m) fun history => ⟨false, ?_⟩
      simp only [vectorOf, hrequired, run_cons, step_call, VectorOp.start, List.replicate, step_advance,
        Vector.access, Option.bind_some, run_nil, hinterrupts, hlast, if_true, sampledNow,
        List.headD_eq_head?_getD]

theorem clearInterrupts_accesses (t : ι) (mask : Byte) :
    Returns (clearInterrupts mask) m fun _ m' =>
      Accesses t (.clearInterrupts mask) [.cleared mask] m m' := by
  refine Total.bind (Total.read_iff.mpr (Total.write_iff.mpr ?_))
  rw [store_of_ne _ (by simp)]
  refine accesses_of_run 2 none fun history => ⟨m.vars .synchronizeRequired, ?_⟩
  simp only [vectorOf, run_cons, step_call, VectorOp.start, List.replicate, step_advance, Vector.access,
    Option.bind_some, run_nil, Machine.set_vars_self]
  rw [Machine.set_vars_of_ne _ (by simp)]
  rfl

theorem takeInterrupts_accesses (t : ι) :
    Returns takeInterrupts m fun irqs m' => Accesses t .takeInterrupts [.taken irqs] m m' := by
  refine Total.bind (Total.read_iff.mpr (Total.bind (Total.bind (Total.read_iff.mpr
    (Total.write_iff.mpr (Total.pure_iff.mpr ?_))))))
  rw [store_of_ne _ (by simp)]
  refine accesses_of_run 3 none fun history => ⟨m.vars .synchronizeRequired, ?_⟩
  simp only [vectorOf, run_cons, step_call, VectorOp.start, List.replicate, step_advance, Vector.access,
    Option.bind_some, run_nil, Machine.set_vars_self]
  rw [Machine.set_vars_of_ne _ (by simp)]
  rfl

end

end SmartblocksOs.Board
