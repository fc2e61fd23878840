/-
# SmartblocksOs.Port.InterruptVector -- `m_unInterrupts` against the history of samples and clears

`SynchronizeInterrupts`, `ClearInterrupts` and the pair `GetInterrupts`, `ClearInterrupts` of `NFCReact` are
run by any number of tasks, each under the lock of the port controller and with other tasks between any
two of its accesses. What has been sampled, cleared and taken is kept as a history. `m_unInterrupts` has
the bits that fell in some sample and have not been cleared since (`interrupts_recorded_once`).

`SynchronizeInterrupts` does not look at how many bytes it has received, and goes on with `0xFF` when
there are none. That is harmless when the last sample was `0xFF` as well; otherwise the bits that were
low seem to fall once more (`fall_recorded_twice`).
-/
import SmartblocksOs.Foundation.Latch
import SmartblocksOs.Port.Interrupt

namespace SmartblocksOs.Port

open SmartblocksOs.Foundation SmartblocksOs.System

/-! ## Samples, clears and takes

The history is a list of what has happened to the vector, in the order of the stores. `pending` computes
from it what the vector should hold. -/

/-- What has been done with the interrupts, one entry for each sample, clear and take. -/
inductive Entry where
  /-- A byte has been read from the expander. -/
  | sampled (registerState : Byte)
  /-- `ClearInterrupts(mask)`. -/
  | cleared (mask : Byte)
  /-- `GetInterrupts` has returned `value`, and `ClearInterrupts(value)` has cleared it. -/
  | taken (value : Byte)
  deriving DecidableEq, Repr

namespace Entry

/-- The byte that was sampled. -/
def sample? : Entry → Option Byte
  | sampled registerState => some registerState
  | cleared _ | taken _ => none

/-- What the entry clears. -/
def mask : Entry → Byte
  | sampled _ => 0
  | cleared mask => mask
  | taken value => value

end Entry

/-- The sample before the next one; the first is compared with `0xFF`. -/
def lastSample (history : List Entry) : Byte := (history.filterMap Entry.sample?).getLastD 0xFF

/-- Bit `b` falls: it was set in the sample before, and is clear in this one. -/
def fallsIn (history : List Entry) (registerState : Byte) (b : Nat) : Prop :=
  (lastSample history).getLsbD b = true ∧ registerState.getLsbD b = false

/-- The interrupts, raised by the falls of the bits. -/
def interruptLatch : Latch Entry Nat where
  raises history e b :=
    match e with
    | .sampled registerState => fallsIn history registerState b
    | .cleared _ | .taken _ => False
  clears e b := e.mask.getLsbD b = true

/-- `value` has the interrupts that are pending. -/
def Shows (value : Byte) (history : List Entry) : Prop :=
  ∀ b, value.getLsbD b = true ↔ interruptLatch.Pending history b

@[simp]
theorem lastSample_sampled (history : List Entry) (registerState : Byte) :
    lastSample (history ++ [.sampled registerState]) = registerState := by
  simp [lastSample, Entry.sample?]

/-- Clears and takes are no samples. -/
theorem lastSample_concat {e : Entry} (he : e.sample? = none) (history : List Entry) :
    lastSample (history ++ [e]) = lastSample history := by
  simp [lastSample, he]

/-- After a sample the bits that fell are shown too. -/
theorem Shows.sampled {value : Byte} {history : List Entry} (h : Shows value history)
    (registerState : Byte) :
    Shows (value ||| fallingEdges registerState (lastSample history))
      (history ++ [.sampled registerState]) := by
  intro b
  rw [BitVec.getLsbD_or, Bool.or_eq_true, fallingEdges_getLsbD, h b, Latch.pending_concat, or_comm]
  refine or_congr Iff.rfl (iff_self_and.mpr fun _ => ?_)
  show ¬ (0 : Byte).getLsbD b = true
  simp

/-- After `ClearInterrupts` what is in the mask is not shown. -/
theorem Shows.cleared {value : Byte} {history : List Entry} (h : Shows value history) {e : Entry}
    (he : e.sample? = none) : Shows (value &&& ~~~e.mask) (history ++ [e]) := by
  intro b
  have hraises : ¬ interruptLatch.raises history e b := by
    cases e with
    | sampled _ => exact absurd he (by simp [Entry.sample?])
    | cleared _ | taken _ => exact id
  rw [BitVec.getLsbD_and, Bool.and_eq_true, h b, BitVec.getLsbD_not, Latch.pending_concat,
    or_iff_right hraises]
  apply and_congr_right
  intro hpending
  have hb : b < 8 := BitVec.lt_of_getLsbD ((h b).mpr hpending)
  show _ ↔ ¬ e.mask.getLsbD b = true
  simp [hb]

/-- At first nothing is pending. -/
theorem shows_nil : Shows 0 [] := by
  intro b
  exact iff_of_false (by simp) Latch.not_pending_nil

/-! ## The operations, access by access

Each operation is a sequence of loads and stores under the lock, and other tasks may move in between. -/

/-- The operations on `m_unInterrupts`, which are called with the lock held. -/
inductive VectorOp where
  | synchronizeInterrupts
  | clearInterrupts (mask : Byte)
  /-- `GetInterrupts`, and `ClearInterrupts` of what it has returned. -/
  | takeInterrupts
  deriving DecidableEq, Repr

/-- Where the task stands that holds the lock. -/
inductive VectorPc where
  /-- Between two operations. -/
  | between
  /-- At `if(bSynchronizeRequired)`. -/
  | test
  /-- At the I2C transaction. -/
  | transaction
  /-- At `bSynchronizeRequired = false`, with what has been received. -/
  | clearFlag (received : Option Byte)
  /-- At `unRegisterState = Read()`. -/
  | readByte (received : Option Byte)
  /-- At the load of `m_unLastRegisterState`. -/
  | compare (registerState : Byte)
  /-- At the load of `m_unInterrupts`. -/
  | append (registerState edges : Byte)
  /-- At the store of `m_unInterrupts`. -/
  | appended (registerState value : Byte)
  /-- At the store of `m_unLastRegisterState`. -/
  | remember (registerState : Byte)
  /-- At `GetInterrupts`. -/
  | fetch
  /-- At the load of `m_unInterrupts` in `ClearInterrupts`. -/
  | clear (e : Entry)
  /-- At its store. -/
  | cleared (e : Entry) (value : Byte)
  deriving DecidableEq, Repr

/-- The members of `CPortController`, and what has happened to them. -/
structure Vector (ι : Type) where
  interrupts : Byte
  lastRegisterState : Byte
  synchronizeRequired : Bool
  /-- The task that holds the lock, and where it stands. -/
  holder : Option (ι × VectorPc)
  history : List Entry

/-- What can happen: the tasks under the lock of the controller, and the service routine. -/
inductive VectorEvent (ι : Type) where
  | lock (t : ι)
  | unlock (t : ι)
  | call (t : ι) (op : VectorOp)
  /-- The next access of task `t`. If it is the transaction, `received` is the byte it receives. -/
  | advance (t : ι) (received : Option Byte)
  /-- `CPortInterrupt::ServiceRoutine`. -/
  | serviceRoutine
  deriving DecidableEq, Repr

/-- Where an operation begins. -/
def VectorOp.start : VectorOp → VectorPc
  | synchronizeInterrupts => .test
  | clearInterrupts mask => .clear (.cleared mask)
  | takeInterrupts => .fetch

section

variable {ι : Type}

/-- The next access of the operation that the holder of the lock is in. -/
def Vector.access (s : Vector ι) (t : ι) (received : Option Byte) : VectorPc → Option (Vector ι)
  | .between => none
  | .test =>
      some { s with holder := some (t, if s.synchronizeRequired then .transaction else .between) }
  | .transaction =>
      some { s with
        history := s.history ++ (received.map Entry.sampled).toList
        holder := some (t, .clearFlag received) }
  | .clearFlag received =>
      some { s with synchronizeRequired := false, holder := some (t, .readByte received) }
  | .readByte received => some { s with holder := some (t, .compare (received.getD 0xFF)) }
  | .compare registerState =>
      some { s with
        holder := some (t, .append registerState (fallingEdges registerState s.lastRegisterState)) }
  | .append registerState edges =>
      some { s with holder := some (t, .appended registerState (s.interrupts ||| edges)) }
  | .appended registerState value =>
      some { s with interrupts := value, holder := some (t, .remember registerState) }
  | .remember registerState =>
      some { s with lastRegisterState := registerState, holder := some (t, .between) }
  | .fetch => some { s with holder := some (t, .clear (.taken s.interrupts)) }
  | .clear e => some { s with holder := some (t, .cleared e s.interrupts) }
  | .cleared e value =>
      some { s with
        interrupts := value &&& ~~~e.mask
        history := s.history ++ [e]
        holder := some (t, .between) }

variable [DecidableEq ι]

/-- The steps of any number of tasks. A task may stop anywhere, and the service routine needs no lock. -/
def vectorStep (s : Vector ι) : VectorEvent ι → Option (Vector ι)
  | .lock t => if s.holder = none then some { s with holder := some (t, .between) } else none
  | .unlock t => if s.holder = some (t, .between) then some { s with holder := none } else none
  | .call t op =>
      if s.holder = some (t, .between) then some { s with holder := some (t, op.start) } else none
  | .advance t received => do
      let (holder, pc) ← s.holder
      if holder = t then s.access t received pc else none
  | .serviceRoutine => some { s with synchronizeRequired := true }

/-- What the constructor leaves. -/
def Vector.Initial (s : Vector ι) : Prop :=
  s.interrupts = 0 ∧ s.lastRegisterState = 0xFF ∧ s.holder = none ∧ s.history = []

/-- A transaction that receives nothing finds `m_unLastRegisterState` at `0xFF`. -/
def ReadsOrHigh (s : Vector ι) : VectorEvent ι → Prop
  | .advance t none => s.holder = some (t, .transaction) → s.lastRegisterState = 0xFF
  | .advance _ (some _) | .lock _ | .unlock _ | .call _ _ | .serviceRoutine => True

instance (s : Vector ι) : ∀ e, Decidable (ReadsOrHigh s e)
  | .advance t none => inferInstanceAs (Decidable (s.holder = some (t, .transaction) → _))
  | .advance _ (some _) | .lock _ | .unlock _ | .call _ _ | .serviceRoutine => isTrue trivial

end

/-! ## The invariant

While the lock is free the vector is what the history says. The task with the lock has loaded it and has
not stored it yet, and nobody else stores it meanwhile. -/

section

variable {ι : Type} {s : Vector ι}

/-- Between two operations. -/
def Vector.Settled (s : Vector ι) : Prop :=
  Shows s.interrupts s.history ∧ s.lastRegisterState = lastSample s.history

/-- In `SynchronizeInterrupts`, from the transaction on: when the edges of `registerState` have been
appended, the vector will be right. -/
def Vector.Appending (s : Vector ι) (registerState : Byte) : Prop :=
  Shows (s.interrupts ||| fallingEdges registerState s.lastRegisterState) s.history ∧
    registerState = lastSample s.history

/-- What is about to be cleared is no sample, and if it is a take, has been read just now. -/
def Vector.Clearing (s : Vector ι) : Entry → Prop
  | .sampled _ => False
  | .cleared _ => True
  | .taken value => value = s.interrupts

/-- What holds where the holder of the lock stands. -/
def Vector.AccessOk (s : Vector ι) : VectorPc → Prop
  | .between | .test | .transaction | .fetch => s.Settled
  | .clearFlag received | .readByte received => s.Appending (received.getD 0xFF)
  | .compare registerState => s.Appending registerState
  | .append registerState edges =>
      Shows (s.interrupts ||| edges) s.history ∧ registerState = lastSample s.history
  | .appended registerState value => Shows value s.history ∧ registerState = lastSample s.history
  | .remember registerState =>
      Shows s.interrupts s.history ∧ registerState = lastSample s.history
  | .clear e => s.Settled ∧ s.Clearing e
  | .cleared e value => s.Settled ∧ s.Clearing e ∧ value = s.interrupts

/-- Every take has returned what was pending. -/
def TakesShown (history : List Entry) : Prop :=
  ∀ before value after, history = before ++ .taken value :: after → Shows value before

/-- The invariant: while nobody has the lock what is shown is what is pending, and the holder is where its
operation is; and everything taken so far was right. -/
structure Vector.Ok (s : Vector ι) : Prop where
  free : s.holder = none → s.Settled
  held : ∀ t pc, s.holder = some (t, pc) → s.AccessOk pc
  takes : TakesShown s.history

/-- A controller that has just been constructed shows nothing, and nothing is pending. -/
theorem Vector.Initial.ok (h : s.Initial) : s.Ok := by
  obtain ⟨hinterrupts, hlast, hholder, hhistory⟩ := h
  refine ⟨fun _ => ⟨?_, ?_⟩, fun t pc hheld => ?_, fun before value after heq => ?_⟩
  · rw [hinterrupts, hhistory]
    exact shows_nil
  · rw [hlast, hhistory]
    rfl
  · rw [hholder] at hheld
    exact absurd hheld.symm (Option.some_ne_none _)
  · rw [hhistory] at heq
    exact absurd heq (by simp)

/-- A take is right when what it returned was shown. -/
theorem TakesShown.concat {history : List Entry} (h : TakesShown history) {e : Entry}
    (he : ∀ value, e = .taken value → Shows value history) : TakesShown (history ++ [e]) := by
  intro before value after heq
  rcases concat_eq_append_cons.mp heq with ⟨-, rfl, hlast⟩ | ⟨after', -, hhistory⟩
  · exact he value hlast
  · exact h before value after' hhistory

/-- The access leaves the task somewhere where it may be. -/
theorem Vector.Ok.of_held {s' : Vector ι} {t : ι} {pc : VectorPc} (hheld : s'.holder = some (t, pc))
    (hok : s'.AccessOk pc) (htakes : TakesShown s'.history) : s'.Ok := by
  refine ⟨fun hfree => ?_, fun t' pc' hheld' => ?_, htakes⟩
  · rw [hheld] at hfree
    exact absurd hfree (Option.some_ne_none _)
  · obtain ⟨rfl, rfl⟩ := Prod.mk.inj (Option.some.inj (hheld.symm.trans hheld'))
    exact hok

theorem Vector.Ok.access {s' : Vector ι} {t : ι} {pc : VectorPc} {received : Option Byte} (h : s.Ok)
    (hheld : s.holder = some (t, pc))
    (hread : pc = .transaction → received = none → s.lastRegisterState = 0xFF)
    (hst : s.access t received pc = some s') : s'.Ok := by
  have hok := h.held t pc hheld
  cases pc with
  | between => exact absurd hst (by simp [Vector.access])
  | test =>
      obtain rfl := Option.some.inj hst
      refine .of_held rfl ?_ h.takes
      split
      · exact hok
      · exact hok
  | transaction =>
      obtain rfl := Option.some.inj hst
      cases received with
      | none =>
          -- nothing has been sampled, and `0xFF` makes no edge
          have hhistory : s.history ++ (none.map Entry.sampled).toList = s.history :=
            List.append_nil s.history
          refine .of_held rfl ⟨?_, ?_⟩ ?_
          · show Shows (s.interrupts ||| fallingEdges 0xFF s.lastRegisterState) _
            rw [fallingEdges_allHigh, hhistory]
            show Shows (s.interrupts ||| 0#8) s.history
            rw [BitVec.or_zero]
            exact hok.1
          · show 0xFF = lastSample _
            rw [hhistory, ← hok.2, hread rfl rfl]
          · show TakesShown _
            rw [hhistory]
            exact h.takes
      | some registerState =>
          have hshows := hok.1.sampled registerState
          rw [← hok.2] at hshows
          exact .of_held rfl ⟨hshows, (lastSample_sampled s.history registerState).symm⟩
            (h.takes.concat nofun)
  | clearFlag _ | readByte _ | compare _ | append _ _ | appended _ _ | remember _ =>
      obtain rfl := Option.some.inj hst
      exact .of_held rfl hok h.takes
  | fetch =>
      obtain rfl := Option.some.inj hst
      exact .of_held rfl ⟨hok, rfl⟩ h.takes
  | clear e =>
      obtain rfl := Option.some.inj hst
      exact .of_held rfl ⟨hok.1, hok.2, rfl⟩ h.takes
  | cleared e value =>
      obtain rfl := Option.some.inj hst
      obtain ⟨hsettled, hclearing, rfl⟩ := hok
      have hsample : e.sample? = none := by
        cases e with
        | sampled _ => exact hclearing.elim
        | cleared _ | taken _ => rfl
      refine .of_held rfl ⟨hsettled.1.cleared hsample, ?_⟩ (h.takes.concat ?_)
      · exact hsettled.2.trans (lastSample_concat hsample s.history).symm
      · rintro value rfl
        rw [show value = s.interrupts from hclearing]
        exact hsettled.1

variable [DecidableEq ι]

/-- Every step keeps the invariant. A read that receives nothing is harmless only when the last sample was
`0xFF` already. -/
theorem vectorStep_ok {s' : Vector ι} {e : VectorEvent ι} (h : s.Ok) (hread : ReadsOrHigh s e)
    (hst : vectorStep s e = some s') : s'.Ok := by
  cases e with
  | lock t =>
      simp only [vectorStep] at hst
      split at hst
      -- the lock was free, and with it the vector at rest
      · rename_i hfree
        obtain rfl := Option.some.inj hst
        exact .of_held rfl (h.free hfree) h.takes
      · exact absurd hst (by simp)
  | unlock t =>
      simp only [vectorStep] at hst
      split at hst
      · rename_i hheld
        obtain rfl := Option.some.inj hst
        exact ⟨fun _ => h.held t .between hheld, nofun, h.takes⟩
      · exact absurd hst (by simp)
  | call t op =>
      simp only [vectorStep] at hst
      split at hst
      · rename_i hheld
        obtain rfl := Option.some.inj hst
        have hsettled : s.Settled := h.held t .between hheld
        refine .of_held rfl ?_ h.takes
        cases op with
        | synchronizeInterrupts | takeInterrupts => exact hsettled
        | clearInterrupts mask => exact ⟨hsettled, trivial⟩
      · exact absurd hst (by simp)
  -- an access, by the task that has the lock
  | advance t received =>
      obtain ⟨⟨t', pc⟩, hheld, hst⟩ := Option.bind_eq_some_iff.mp hst
      replace hst : (if t' = t then s.access t received pc else none) = some s' := hst
      split at hst
      · rename_i ht
        subst ht
        refine h.access hheld ?_ hst
        rintro rfl rfl
        exact hread hheld
      · exact absurd hst (by simp)
  -- the interrupt sets the flag, which is not part of the vector
  | serviceRoutine =>
      obtain rfl := Option.some.inj hst
      exact ⟨h.free, h.held, h.takes⟩

/-! ## Every fall is recorded once

A fall counts from the sample before it, so that it is in one sample only. -/

/-- No operation is in progress. -/
def Vector.AtRest (s : Vector ι) : Prop := ∀ t pc, s.holder = some (t, pc) → pc = .between

/-- What `m_unInterrupts` and the takes have to do with the history. -/
structure Vector.RecordedOnce (s : Vector ι) : Prop where
  recorded : s.AtRest → Shows s.interrupts s.history
  /-- Two takes return the same bit only if it has fallen again in between. -/
  atMostOnce : ∀ before value mid value' after b,
    s.history = before ++ .taken value :: (mid ++ .taken value' :: after) →
    value.getLsbD b = true → value'.getLsbD b = true →
      ∃ mid₁ registerState mid₂, mid = mid₁ ++ .sampled registerState :: mid₂ ∧
        fallsIn (before ++ .taken value :: mid₁) registerState b
  /-- A bit that has fallen is returned by the next take, unless it is cleared before. -/
  nextTake : ∀ before registerState mid value after b,
    s.history = before ++ .sampled registerState :: (mid ++ .taken value :: after) →
    fallsIn before registerState b → (∀ e ∈ mid, e.mask.getLsbD b = false) →
      value.getLsbD b = true

/-- A take leaves nothing of what it returns. -/
theorem not_pending_taken {history : List Entry} {value : Byte} {b : Nat}
    (hb : value.getLsbD b = true) :
    ¬ interruptLatch.Pending (history ++ [.taken value]) b := by
  rw [Latch.pending_concat]
  rintro (hraised | ⟨-, hkept⟩)
  · exact hraised
  · exact hkept hb

/-- An interrupt is raised by a sample in which its bit falls. -/
theorem raises_iff {history : List Entry} {e : Entry} {b : Nat} :
    interruptLatch.raises history e b ↔
      ∃ registerState, e = .sampled registerState ∧ fallsIn history registerState b := by
  cases e with
  | sampled registerState =>
      constructor
      · intro h
        exact ⟨registerState, rfl, h⟩
      · rintro ⟨_, heq, h⟩
        obtain rfl := Entry.sampled.inj heq
        exact h
  | cleared mask | taken value =>
      constructor
      · intro h
        exact h.elim
      · rintro ⟨_, heq, -⟩
        exact Entry.noConfusion heq

omit [DecidableEq ι] in
/-- In every state that the invariant holds of, each fall has been recorded once. -/
theorem Vector.Ok.recordedOnce (h : s.Ok) : s.RecordedOnce where
  recorded := by
    intro hrest
    rcases hheld : s.holder with _ | ⟨t, pc⟩
    · exact (h.free hheld).1
    · have hok := h.held t pc hheld
      rw [hrest t pc hheld] at hok
      exact hok.1
  atMostOnce := by
    intro before value mid value' after b hhistory hb hb'
    -- the second take has the bit, so that it was raised after the first one had cleared it
    have hsplit : before ++ .taken value :: (mid ++ .taken value' :: after) =
        ((before ++ [.taken value]) ++ mid) ++ .taken value' :: after := by simp
    have hshows := h.takes _ _ _ (hhistory.trans hsplit)
    have hpending := (hshows b).mp hb'
    obtain ⟨mid₁, e, mid₂, hmid, hraised⟩ := hpending.raised (not_pending_taken hb)
    obtain ⟨registerState, rfl, hfalls⟩ := raises_iff.mp hraised
    rw [List.append_assoc] at hfalls
    exact ⟨mid₁, registerState, mid₂, hmid, hfalls⟩
  nextTake := by
    intro before registerState mid value after b hhistory hfalls hkept
    -- the bit was raised and not cleared, so that the next take has it
    have hsplit : before ++ .sampled registerState :: (mid ++ .taken value :: after) =
        (before ++ .sampled registerState :: mid) ++ .taken value :: after := by simp
    have hshows := h.takes _ _ _ (hhistory.trans hsplit)
    apply (hshows b).mpr
    apply Latch.pending_of_raises
    · exact raises_iff.mpr ⟨registerState, rfl, hfalls⟩
    · intro e he hclear
      have hnot := hkept e he
      rw [show e.mask.getLsbD b = true from hclear] at hnot
      exact Bool.noConfusion hnot

/-- **The interrupt vector.** In every run in which no transaction of `SynchronizeInterrupts` comes back
empty while `m_unLastRegisterState` is not `0xFF`, the vector has, whenever no operation is in progress, the
bits that fell in some sample and have not been cleared since; so each fall is returned by at most one
take, and by the next one if nothing clears it before. -/
theorem interrupts_recorded_once {s t : Vector ι} {es : List (VectorEvent ι)} (hs : s.Initial)
    (hok : Along vectorStep ReadsOrHigh s es) (hrun : run vectorStep s es = some t) :
    t.RecordedOnce :=
  (run_preserves_along (fun _ _ _ h hread hst => vectorStep_ok h hread hst) hs.ok hok hrun).recordedOnce

/-- After the constructor, for two tasks. -/
def vectorStart : Vector Bool := ⟨0, 0xFF, true, none, []⟩

/-- Task `t` synchronises under the lock, and its transaction receives `received`. -/
def synchronizes (t : Bool) (received : Option Byte) : List (VectorEvent Bool) :=
  .lock t :: .call t .synchronizeInterrupts :: List.replicate 8 (.advance t received) ++ [.unlock t]

/-- The task `t` takes the lock, `GetInterrupts` and `ClearInterrupts`, and gives the lock back. -/
def takes (t : Bool) : List (VectorEvent Bool) :=
  .lock t :: .call t .takeInterrupts :: List.replicate 3 (.advance t none) ++ [.unlock t]

/-- One task sees bit `0` fall, the other one takes it. -/
theorem interrupts_recorded_once_taken :
    ∃ t, run vectorStep vectorStart (synchronizes false (some 0xFE) ++ takes true) = some t ∧
      t.history = [.sampled 0xFE, .taken 0x01] ∧ t.RecordedOnce := by
  have htrace : (run vectorStep vectorStart (synchronizes false (some 0xFE) ++ takes true)).map
      (fun t => t.history) = some [.sampled 0xFE, .taken 0x01] := by decide
  obtain ⟨t, ht, hhistory⟩ := Option.map_eq_some_iff.mp htrace
  exact ⟨t, ht, hhistory, interrupts_recorded_once ⟨rfl, rfl, rfl, rfl⟩ (by decide) ht⟩

/-- Bit `0` falls and is taken; then a transaction receives nothing, and the next one sees bit `0` low
as before: it is recorded again, although it has been low in both samples. -/
theorem fall_recorded_twice :
    ¬ ∀ (s t : Vector Bool) (es : List (VectorEvent Bool)), s.Initial →
      run vectorStep s es = some t → t.RecordedOnce := by
  intro hall
  let es : List (VectorEvent Bool) := synchronizes false (some 0xFE) ++ takes false ++
    .serviceRoutine :: synchronizes false none ++ .serviceRoutine :: synchronizes false (some 0xFE)
  have htrace : (run vectorStep vectorStart es).map
      (fun t => (t.interrupts, t.holder, t.history)) =
        some (0x01, none, [.sampled 0xFE, .taken 0x01, .sampled 0xFE]) := by decide
  obtain ⟨t, ht, hend⟩ := Option.map_eq_some_iff.mp htrace
  obtain ⟨hinterrupts, hend⟩ := Prod.mk.inj hend
  obtain ⟨hholder, hhistory⟩ := Prod.mk.inj hend
  have hrest : t.AtRest := by
    intro t' pc hheld
    rw [hholder] at hheld
    exact absurd hheld.symm (Option.some_ne_none _)
  have hshows := (hall vectorStart t es ⟨rfl, rfl, rfl, rfl⟩ ht).recorded hrest 0
  rw [hinterrupts, hhistory] at hshows
  have hlast : interruptLatch.Pending ([.sampled 0xFE, .taken 0x01] ++ [.sampled 0xFE]) 0 :=
    hshows.mp rfl
  -- the last sample is no fall, and before it the bit has been taken
  rcases Latch.pending_concat.mp hlast with hraised | ⟨hpending, -⟩
  · obtain ⟨registerState, heq, hfalls, -⟩ := raises_iff.mp hraised
    exact absurd hfalls (by decide)
  · exact (not_pending_taken rfl : ¬ interruptLatch.Pending ([.sampled 0xFE] ++ [.taken 0x01]) 0) hpending

end

end SmartblocksOs.Port
