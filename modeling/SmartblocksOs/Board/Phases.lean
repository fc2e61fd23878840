/-
# SmartblocksOs.Board.Phases -- what a task may do with the bus

Nothing in `CTWController` keeps its methods from being called without its lock, a transaction from being
left unfinished, or the multiplexer from being turned in the middle of one; nothing in `CPortController`
keeps `IsPortConnected` from pulling at the clock line while the bus is in use. The functions of the board
follow a protocol that is nowhere written down. It is the typestate `phases`: the methods are called under
the lock of the controller, which is released with the bus, and the multiplexer is turned, and the clock
line driven, by a task that holds the port controller and not the TW controller.

A transaction with a face is made under the lock of the port controller as well. Only `TestAccelerometer`,
and `EnablePort` and `DisablePort` where they are called by themselves, do without it; `phases true` is the
protocol of the others.

The protocol is a partial function on phases, one for each kind of step. A step that it does not allow has
no next phase; that a program `Leads` from one phase to another says that it gets stuck at none, by
whatever values it reads. Below are the inversion lemmas of the protocol (what a step that is allowed must
have been) and its rules for the statements of the language.
-/
import SmartblocksOs.Foundation.Typestate
import SmartblocksOs.Board.Footprints
import SmartblocksOs.Board.Operations

namespace SmartblocksOs.Board

open SmartblocksOs.Foundation SmartblocksOs.System SmartblocksOs.Resource

/-! ## The phases -/

/-- What a task has got of the bus. -/
inductive Bus where
  /-- Nothing. -/
  | free
  /-- It drives the clock line itself. -/
  | driven
  /-- The TW controller. -/
  | taken
  /-- And a START may have been sent ahead. -/
  | kept
  deriving DecidableEq, Repr

/-- Where a task stands in its use of the locks and of the bus. -/
structure Phase where
  uart : Bool
  port : Bool
  bus : Bus
  deriving DecidableEq, Repr

namespace Phase

/-- The phase has the lock. -/
def holds (φ : Phase) : Lock → Prop
  | .uart => φ.uart = true
  | .port => φ.port = true
  | .tw => φ.bus = .taken ∨ φ.bus = .kept

/-- The phase behind the taking of a lock. The lock of the bus comes last. -/
def lock : Lock → Phase → Option Phase
  | .uart, φ => some { φ with uart := true }
  | .port, φ => if φ.bus = .free then some { φ with port := true } else none
  | .tw, φ => if φ.bus = .free then some { φ with bus := .taken } else none

/-- The phase behind the giving back of a lock. The bus is not given back while it is kept for another
transaction. -/
def unlock : Lock → Phase → Option Phase
  | .uart, φ => if φ.uart then some { φ with uart := false } else none
  | .port, φ => if φ.port = true ∧ φ.bus = .free then some { φ with port := false } else none
  | .tw, φ => if φ.bus = .taken then some { φ with bus := .free } else none

end Phase

/-- No other code stores the variables of the controller. -/
def Phase.store : ∀ x, Val x → Phase → Option Phase
  | .portc, _, φ => if φ.port = true ∧ φ.bus = .free then some φ else none
  | .ddrc, ddrc, φ =>
      if φ.port = true ∧ (φ.bus = .free ∨ φ.bus = .driven) then
        some { φ with bus := if ddrc &&& portcTwclkMask = 0 then .free else .driven }
      else none
  | x, _, φ => if ofBus x then none else some φ

/-- A method of `CTWController` may be called. -/
structure Phase.Calling (face : Bool) (φ : Phase) : Prop where
  tw : φ.holds .tw
  port : face = true → φ.port = true

/-- The calls, with the phases in which they are made and end. -/
inductive Calls (face : Bool) : Phase → (β : Type) → Code β → Phase → Prop
  | beginTransmission {φ : Phase} (address : Byte) :
      φ.Calling face → Calls face φ Unit (CTWController.beginTransmission address) φ
  | writeByte {φ : Phase} (data : Byte) :
      φ.Calling face → Calls face φ Byte (CTWController.writeByte data) φ
  | readByte {φ : Phase} : φ.Calling face → Calls face φ Byte CTWController.readByte φ
  | endTransmission {φ : Phase} (sendStop : Bool) :
      φ.Calling face → Calls face φ Byte (CTWController.endTransmission sendStop)
        { φ with bus := if sendStop then .taken else .kept }
  | readFrom {φ : Phase} (address : Byte) {length : Byte} (sendStop : Bool) :
      φ.Calling face → length ≠ 0 → Calls face φ Byte (CTWController.readFrom address length sendStop)
        { φ with bus := if sendStop then .taken else .kept }

/-! ## The typestate -/

section

variable {face : Bool} {φ φ' : Phase}

/-- A lock is held after it has been taken. -/
theorem Phase.lock_holds {l : Lock} (h : Phase.lock l φ = some φ') (r : Lock) :
    φ'.holds r ↔ r = l ∨ φ.holds r := by
  cases l with
  | uart =>
      obtain rfl := Option.some.inj h
      cases r with
      | uart | port | tw => simp [Phase.holds]
  | port =>
      obtain ⟨-, h⟩ := Option.ite_none_right_eq_some.mp h
      obtain rfl := Option.some.inj h
      cases r with
      | uart | port | tw => simp [Phase.holds]
  | tw =>
      obtain ⟨-, h⟩ := Option.ite_none_right_eq_some.mp h
      obtain rfl := Option.some.inj h
      cases r with
      | uart | port | tw => simp [Phase.holds]

/-- A lock that is released was held, and is held no more. -/
theorem Phase.unlock_holds {l : Lock} (h : Phase.unlock l φ = some φ') :
    φ.holds l ∧ ∀ r, φ'.holds r ↔ r ≠ l ∧ φ.holds r := by
  cases l with
  | uart =>
      obtain ⟨huart, h⟩ := Option.ite_none_right_eq_some.mp h
      obtain rfl := Option.some.inj h
      refine ⟨huart, fun r => ?_⟩
      cases r with
      | uart | port | tw => simp [Phase.holds]
  | port =>
      obtain ⟨⟨hport, -⟩, h⟩ := Option.ite_none_right_eq_some.mp h
      obtain rfl := Option.some.inj h
      refine ⟨hport, fun r => ?_⟩
      cases r with
      | uart | port | tw => simp [Phase.holds]
  | tw =>
      obtain ⟨htaken, h⟩ := Option.ite_none_right_eq_some.mp h
      obtain rfl := Option.some.inj h
      refine ⟨Or.inl htaken, fun r => ?_⟩
      cases r with
      | uart | port | tw => simp [Phase.holds]

/-- The multiplexer is turned by a task that has locked the port controller and does not have the bus. -/
theorem Phase.store_portc {v : Byte} (h : Phase.store .portc v φ = some φ') :
    φ' = φ ∧ φ.port = true ∧ φ.bus = .free := by
  obtain ⟨⟨hport, hbus⟩, h⟩ := Option.ite_none_right_eq_some.mp h
  exact ⟨(Option.some.inj h).symm, hport, hbus⟩

/-- The clock line is driven, or let go, by such a task. -/
theorem Phase.store_ddrc {v : Byte} (h : Phase.store .ddrc v φ = some φ') :
    φ' = { φ with bus := if v &&& portcTwclkMask = 0 then .free else .driven } ∧ φ.port = true ∧
      (φ.bus = .free ∨ φ.bus = .driven) := by
  obtain ⟨⟨hport, hbus⟩, h⟩ := Option.ite_none_right_eq_some.mp h
  exact ⟨(Option.some.inj h).symm, hport, hbus⟩

/-- The other variables do not tell the phase. -/
theorem Phase.store_other {x : Var} {v : Val x} (hportc : x ≠ .portc) (hddrc : x ≠ .ddrc)
    (h : Phase.store x v φ = some φ') : φ' = φ ∧ ofBus x = false := by
  have hother : Phase.store x v φ = if ofBus x then none else some φ := by
    cases x with
    | portc => exact absurd rfl hportc
    | ddrc => exact absurd rfl hddrc
    | _ => rfl
  rw [hother] at h
  obtain ⟨hx, h⟩ := Option.ite_none_left_eq_some.mp h
  exact ⟨(Option.some.inj h).symm, Bool.eq_false_iff.mpr hx⟩

/-- No task stores to the variables of the bus outside the methods of the controller. -/
theorem Phase.store_touched {x : Var} {v : Val x} (h : Phase.store x v φ = some φ') :
    ofBus x = false := by
  by_cases hportc : x = .portc
  · rw [hportc]
    rfl
  by_cases hddrc : x = .ddrc
  · rw [hddrc]
    rfl
  exact (Phase.store_other hportc hddrc h).2

/-- A store takes no lock. -/
theorem Phase.store_holds {x : Var} {v : Val x} (h : Phase.store x v φ = some φ') (r : Lock) :
    φ'.holds r ↔ φ.holds r := by
  by_cases hportc : x = .portc
  · subst hportc
    rw [(Phase.store_portc h).1]
  by_cases hddrc : x = .ddrc
  · subst hddrc
    obtain ⟨rfl, -, hbus⟩ := Phase.store_ddrc h
    cases r with
    | uart | port => exact Iff.rfl
    | tw =>
        -- it is not held before, and not afterwards
        rcases hbus with hbus | hbus <;> simp only [Phase.holds, hbus] <;> split <;> simp
  rw [(Phase.store_other hportc hddrc h).1]

/-! What becomes of the bus. -/

/-- The bus goes with the lock of the TW controller. -/
theorem Phase.lock_bus {l : Lock} (h : Phase.lock l φ = some φ') :
    φ'.bus = φ.bus ∨ φ.bus = .free ∧ φ'.bus = .taken := by
  cases l with
  | uart =>
      obtain rfl := Option.some.inj h
      exact Or.inl rfl
  | port =>
      obtain ⟨-, h⟩ := Option.ite_none_right_eq_some.mp h
      obtain rfl := Option.some.inj h
      exact Or.inl rfl
  | tw =>
      obtain ⟨hfree, h⟩ := Option.ite_none_right_eq_some.mp h
      obtain rfl := Option.some.inj h
      exact Or.inr ⟨hfree, rfl⟩

/-- The lock of the TW controller is not released while the bus is kept. -/
theorem Phase.unlock_bus {l : Lock} (h : Phase.unlock l φ = some φ') :
    φ'.bus = φ.bus ∨ φ.bus = .taken ∧ φ'.bus = .free := by
  cases l with
  | uart | port =>
      obtain ⟨-, h⟩ := Option.ite_none_right_eq_some.mp h
      obtain rfl := Option.some.inj h
      exact Or.inl rfl
  | tw =>
      obtain ⟨htaken, h⟩ := Option.ite_none_right_eq_some.mp h
      obtain rfl := Option.some.inj h
      exact Or.inr ⟨htaken, rfl⟩

/-- A store to a line is made with the bus free. -/
theorem Phase.store_bus {x : Var} {v : Val x} (h : Phase.store x v φ = some φ') :
    φ'.bus = φ.bus ∨ φ.bus = .free ∨ φ.bus = .driven := by
  by_cases hportc : x = .portc
  · subst hportc
    exact Or.inr (Or.inl (Phase.store_portc h).2.2)
  by_cases hddrc : x = .ddrc
  · subst hddrc
    exact Or.inr (Phase.store_ddrc h).2.2
  rw [(Phase.store_other hportc hddrc h).1]
  exact Or.inl rfl

variable {β : Type} {c : Code β}

/-- The caller holds the locks that a call needs. -/
theorem Calls.calling (h : Calls face φ β c φ') : φ.Calling face := by
  cases h with
  | beginTransmission _ h | writeByte _ h | readByte h | endTransmission _ h | readFrom _ _ h _ => exact h

theorem Calls.calling_after (h : Calls face φ β c φ') : φ'.Calling face := by
  cases h with
  | beginTransmission _ h | writeByte _ h | readByte h => exact h
  | endTransmission sendStop h | readFrom _ sendStop h _ =>
      refine ⟨?_, h.port⟩
      cases sendStop with
      | true => exact Or.inl rfl
      | false => exact Or.inr rfl

/-- A call takes no lock and releases none. -/
theorem Calls.holds (h : Calls face φ β c φ') (r : Lock) : φ'.holds r ↔ φ.holds r := by
  have htw : φ'.holds .tw ↔ φ.holds .tw := iff_of_true h.calling_after.tw h.calling.tw
  cases r with
  | tw => exact htw
  | uart | port =>
      cases h with
      | beginTransmission | writeByte | readByte | endTransmission | readFrom => exact Iff.rfl

/-- The calls keep to the controller. -/
theorem Calls.onBus (h : Calls face φ β c φ') : OnBus c := by
  cases h with
  | beginTransmission => exact CTWController.beginTransmission_onBus _
  | writeByte => exact CTWController.writeByte_onBus _
  | readByte => exact CTWController.readByte_onBus
  | endTransmission => exact CTWController.endTransmission_onBus _
  | readFrom => exact CTWController.readFrom_onBus _ _ _

theorem Calls.ne_ret (h : Calls face φ β c φ') (b : β) : c ≠ .ret b := by
  cases h with
  | beginTransmission | writeByte | readByte | endTransmission | readFrom => exact nofun

end

/-- The protocol, with or without the port controller at each call. -/
def phases (face : Bool) : Typestate Var Val Lock Event Phase where
  start := ⟨false, false, .free⟩
  holds := Phase.holds
  lock := Phase.lock
  unlock := Phase.unlock
  store := Phase.store
  call := Calls face
  calling := Phase.Calling face
  touched := ofBus
  start_holds l := by
    cases l with
    | uart | port | tw => simp [Phase.holds]
  lock_holds := Phase.lock_holds
  unlock_holds := Phase.unlock_holds
  store_holds := Phase.store_holds
  store_touched := Phase.store_touched
  call_holds := Calls.holds
  call_calling := Calls.calling_after
  call_local h := h.onBus.mono ⟨subset_rfl, subset_rfl, subset_rfl, Set.subset_univ _⟩
  call_ne_ret := Calls.ne_ret

/-- In phase `φ` the program keeps to the protocol, and it ends in phase `ψ`. -/
abbrev Leads (face : Bool) {α : Type} (φ : Phase) (p : Code α) (ψ : Phase) : Prop :=
  (phases face).Follows φ p ψ

section

variable {face : Bool} {φ ψ χ : Phase} {α β : Type}

/-! The rules for the statements. -/

theorem pure_leads (a : α) : Leads face φ (pure a) φ := .ret a

theorem load_leads (x : Var) : Leads face φ (load x) φ := .load fun v => .ret v

/-- A store has to be allowed where it is made. -/
theorem store_leads {x : Var} {v : Val x} (h : Phase.store x v φ = some ψ) : Leads face φ (store x v) ψ :=
  .store h (.ret ())

theorem acquire_leads {l : Lock} (h : Phase.lock l φ = some ψ) : Leads face φ (acquire l) ψ :=
  .lock h (.ret ())

theorem release_leads {l : Lock} (h : Phase.unlock l φ = some ψ) : Leads face φ (release l) ψ :=
  .unlock h (.ret ())

theorem note_leads (f : Store Val → Event) : Leads face φ (note f) φ := .observe (.ret ())

theorem sleep_leads (n : Nat) : Leads face φ (sleep n) φ := .pause (.ret ())

/-- Calls and returns are noted only. -/
theorem calledFor_leads {f : Callee} {body : Code α} (h : Leads face φ body ψ) :
    Leads face φ (calledFor f body) ψ :=
  (note_leads _).bind fun _ => h.bind fun _ => (note_leads _).bind fun _ => pure_leads _

/-! ### Under the TW controller

The methods of `CTWController` are atomic here: each of them is one call, which takes a phase with the
lock to a phase with the lock. -/

open CTWController

theorem beginTransmission_leads (h : φ.Calling face) (address : Byte) :
    Leads face φ (beginTransmission address) φ :=
  .of_call (Calls.beginTransmission address h)

theorem writeByte_leads (h : φ.Calling face) (data : Byte) : Leads face φ (writeByte data) φ :=
  .of_call (Calls.writeByte data h)

theorem readByte_leads (h : φ.Calling face) : Leads face φ readByte φ := .of_call (Calls.readByte h)

/-- A transaction that ends with a STOP. -/
theorem endTransmission_leads (h : φ.Calling face) :
    Leads face φ (endTransmission true) { φ with bus := .taken } :=
  .of_call (Calls.endTransmission true h)

/-- A reception ends the tenure of the bus, also one that was kept. -/
theorem readFrom_leads (h : φ.Calling face) (address : Byte) {length : Byte} (hlength : length ≠ 0) :
    Leads face φ (readFrom address length true) { φ with bus := .taken } :=
  .of_call (Calls.readFrom address true h hlength)

variable {uart port : Bool}

/-- With the lock taken the methods may be called. -/
theorem taken_calling (hface : face = true → port = true) : Phase.Calling face ⟨uart, port, .taken⟩ :=
  ⟨Or.inl rfl, hface⟩

/-- They may be called while the bus is kept, too. -/
theorem kept_calling (hface : face = true → port = true) : Phase.Calling face ⟨uart, port, .kept⟩ :=
  ⟨Or.inr rfl, hface⟩

/-- The transaction that stores `value` in register `register` of a device: one call sends it, with a
STOP. -/
theorem writeRegister_leads {rest : Code α} (hface : face = true → port = true)
    (address register value : Byte) (h : Leads face ⟨uart, port, .taken⟩ rest ψ) :
    Leads face ⟨uart, port, .taken⟩ (do
      beginTransmission address
      let _ ← writeByte register
      let _ ← writeByte value
      let _ ← endTransmission true
      rest) ψ := by
  have hcall : Phase.Calling face ⟨uart, port, .taken⟩ := taken_calling hface
  refine (beginTransmission_leads hcall address).bind fun _ => (writeByte_leads hcall register).bind fun _ => ?_
  exact (writeByte_leads hcall value).bind fun _ => (endTransmission_leads hcall).bind fun _ => h

/-- The two calls that ask for the value of a register: between them the bus is kept. -/
theorem readRegister_leads {f : Byte → Code α} (hface : face = true → port = true)
    (address register : Byte) {length : Byte} (hlength : length ≠ 0)
    (h : ∀ n, Leads face ⟨uart, port, .taken⟩ (f n) ψ) :
    Leads face ⟨uart, port, .taken⟩ (do
      beginTransmission address
      let _ ← writeByte register
      let _ ← endTransmission false
      let n ← readFrom address length true
      f n) ψ := by
  have hcall : Phase.Calling face ⟨uart, port, .taken⟩ := taken_calling hface
  refine (beginTransmission_leads hcall address).bind fun _ => (writeByte_leads hcall register).bind fun _ => ?_
  have hkept : Leads face ⟨uart, port, .taken⟩ (endTransmission false) ⟨uart, port, .kept⟩ :=
    .of_call (Calls.endTransmission false hcall)
  exact hkept.bind fun _ => (readFrom_leads (kept_calling hface) address hlength).bind h

/-! ### The port controller

`SelectPort` and `IsPortConnected` touch the lines themselves, with the port controller locked and the bus
free. -/

namespace CPortController

/-- Both stores to `PORTC` are made under the lock of the port controller. -/
theorem selectPort_leads (target : EPort) :
    Leads face ⟨uart, true, .free⟩ (selectPort target) ⟨uart, true, .free⟩ :=
  (load_leads _).bind fun _ => (store_leads rfl).bind fun _ => (load_leads _).bind fun _ => store_leads rfl

theorem init_leads : Leads face ⟨uart, true, .free⟩ init ⟨uart, true, .free⟩ := by
  refine calledFor_leads ((selectPort_leads _).bind fun _ => (acquire_leads rfl).bind fun _ => ?_)
  refine writeRegister_leads (fun _ => rfl) _ _ _ ((release_leads rfl).bind fun _ => ?_)
  refine (load_leads _).bind fun _ => (store_leads rfl).bind fun _ => (load_leads _).bind fun _ => ?_
  exact (store_leads rfl).bind fun _ => (load_leads _).bind fun _ => store_leads rfl

/-- A task that holds the lock of the controller would wait for it in vain. -/
theorem initOnFirstUse_leads : Leads face ⟨uart, port, .free⟩ initOnFirstUse ⟨uart, port, .free⟩ := by
  refine (load_leads _).bind fun _ => .ite ?_ (pure_leads _)
  cases port with
  | true => exact .wait rfl
  | false =>
      refine (acquire_leads rfl).bind fun _ => init_leads.bind fun _ => ?_
      exact (store_leads rfl).bind fun _ => release_leads rfl

/-- The first use initialises the port controller, which locks the bus and releases it. -/
theorem onInstance_leads {method : Code α} (h : Leads face ⟨uart, port, .free⟩ method ψ) :
    Leads face ⟨uart, port, .free⟩ (onInstance method) ψ :=
  initOnFirstUse_leads.bind fun _ => h

theorem lockInstance_leads :
    Leads face ⟨uart, false, .free⟩ (onInstance (acquire .port)) ⟨uart, true, .free⟩ :=
  onInstance_leads (acquire_leads rfl)

theorem unlockInstance_leads :
    Leads face ⟨uart, true, .free⟩ (onInstance (release .port)) ⟨uart, false, .free⟩ :=
  onInstance_leads (release_leads rfl)

theorem synchronizeInterrupts_leads :
    Leads face ⟨uart, true, .free⟩ synchronizeInterrupts ⟨uart, true, .free⟩ := by
  refine calledFor_leads ((load_leads _).bind fun _ => .ite ?_ (pure_leads _))
  refine (acquire_leads rfl).bind fun _ => readRegister_leads (fun _ => rfl) _ _ (by decide) fun _ => ?_
  refine (store_leads rfl).bind fun _ => (readByte_leads (taken_calling fun _ => rfl)).bind fun _ => ?_
  refine (release_leads rfl).bind fun _ => (load_leads _).bind fun _ => (load_leads _).bind fun _ => ?_
  exact (store_leads rfl).bind fun _ => store_leads rfl

theorem clearInterrupts_leads (clearMask : Byte) : Leads face φ (clearInterrupts clearMask) φ :=
  (load_leads _).bind fun _ => store_leads rfl

theorem hasInterrupts_leads : Leads face φ hasInterrupts φ := (load_leads _).bind fun _ => pure_leads _

/-- One tenure to read the output register and one to write it, the lock free between them. -/
theorem updateOutput_leads (hface : face = true → port = true) (change : Byte → Byte) :
    Leads face ⟨uart, port, .free⟩ (updateOutput change) ⟨uart, port, .free⟩ := by
  refine calledFor_leads ((acquire_leads rfl).bind fun _ => ?_)
  refine readRegister_leads hface _ _ (by decide) fun _ => ?_
  refine (readByte_leads (taken_calling hface)).bind fun _ => (release_leads rfl).bind fun _ => ?_
  exact (acquire_leads rfl).bind fun _ => writeRegister_leads hface _ _ _ (release_leads rfl)

theorem driveClock_leads (ddrc : Byte) :
    Leads face ⟨uart, true, .free⟩ (store .ddrc (ddrc ||| portcTwclkMask)) ⟨uart, true, .driven⟩ := by
  have hdriven : (ddrc ||| portcTwclkMask) &&& portcTwclkMask ≠ 0 := by
    rw [BitVec.and_or_distrib_right, BitVec.and_self]
    intro h
    have hbit := congrArg (BitVec.getLsbD · 5) h
    simp [portcTwclkMask] at hbit
  have hstore : Phase.store .ddrc (ddrc ||| portcTwclkMask) ⟨uart, true, .free⟩ = some ⟨uart, true,
      if (ddrc ||| portcTwclkMask) &&& portcTwclkMask = 0 then .free else .driven⟩ := rfl
  rw [if_neg hdriven] at hstore
  exact store_leads hstore

theorem releaseClock_leads (ddrc : Byte) :
    Leads face ⟨uart, true, .driven⟩ (store .ddrc (ddrc &&& ~~~portcTwclkMask)) ⟨uart, true, .free⟩ := by
  have hstore : Phase.store .ddrc (ddrc &&& ~~~portcTwclkMask) ⟨uart, true, .driven⟩ = some ⟨uart, true,
      if (ddrc &&& ~~~portcTwclkMask) &&& portcTwclkMask = 0 then .free else .driven⟩ := rfl
  rw [if_pos (and_not_mask_and ddrc portcTwclkMask)] at hstore
  exact store_leads hstore

/-- The clock line is driven after the multiplexer has been turned, and let go before `PORTC` is stored to
again. -/
theorem isPortConnected_leads (target : EPort) :
    Leads face ⟨uart, true, .free⟩ (isPortConnected target) ⟨uart, true, .free⟩ := by
  refine (selectPort_leads target).bind fun _ => (sleep_leads 10).bind fun _ => ?_
  refine (load_leads _).bind fun _ => (store_leads rfl).bind fun _ => ?_
  refine (load_leads _).bind fun _ => (driveClock_leads _).bind fun _ => ?_
  refine (load_leads _).bind fun _ => (releaseClock_leads _).bind fun _ => ?_
  refine (load_leads _).bind fun _ => (store_leads rfl).bind fun _ => ?_
  exact (sleep_leads 10).bind fun _ => (load_leads _).bind fun _ => pure_leads _

end CPortController

end

end SmartblocksOs.Board
