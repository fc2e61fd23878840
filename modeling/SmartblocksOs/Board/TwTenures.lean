/-
# SmartblocksOs.Board.TwTenures -- the bus is released before the TW controller is unlocked

`EndTransmission(false)` sends a START ahead and keeps the bus for the transaction that follows. Nothing
in `CTWController` keeps track of whether a tenure of the bus has been ended with a STOP; a task that
unlocked the controller while `bInRepStart` is set would leave it to the next one. The operations of the
board never do: whatever the bus answers, while no task has taken the TW controller no transaction is
going on and no START has been sent ahead.

The argument is one assertion carried through the program text. Outside a transaction a program that has
taken the TW controller knows `Quiet kept`; between the store of `unState` and the end of the busy wait it
knows `Underway busy sendStop`, which the interrupt handler keeps whichever status it reads; and
`awaitTransaction` turns the second back into the first. Each public function of `CTWController` gets one
such triple, the two patterns in which the board calls them (a register written, a register asked for) get
one each, and every other function is a composition of these: it is `Tenured`, which says that it may be
called with any locks taken and leaves the bus as it has to be left wherever it unlocks the controller.

What has to be shown of the handler is small, because only three variables matter: `unState`, `bSendStop`
and `bInRepStart`. The first is set back to READY in every branch that ends the transaction, the third
only in the branch of `stopOrKeepBus` that sends START in place of STOP, and that branch is taken only if
`bSendStop` is not set. No assumption is made about `TWSR`: the handler may be entered with any status at
any time.

The invariant holds while the lock is free and says nothing while it is taken. That is why `bus_released`
speaks of states in which no task has taken the TW controller. What a task sees when it takes the lock is
the same fact, by `acquireTw_keeps`.
-/
import SmartblocksOs.Board.Frames
import SmartblocksOs.Resource.Invariants

namespace SmartblocksOs.Board

open SmartblocksOs.Foundation SmartblocksOs.System SmartblocksOs.Resource

/-! ## The invariant -/

/-- No transaction is going on, and the bus is kept only if `kept`. -/
structure Quiet (kept : Bool) (s : Store Val) : Prop where
  ready : s .state = twStateReady
  kept : s .inRepStart = true → kept = true

/-- A transaction is going on that is to end with a STOP or without, or it is over. -/
structure Underway (busy : Byte) (sendStop : Bool) (s : Store Val) : Prop where
  state : s .state = busy ∨ s .state = twStateReady
  ending : s .sendStop = sendStop
  kept : s .inRepStart = true → sendStop = false

/-- `unState = TW_STATE_READY`. -/
theorem Underway.over {busy : Byte} {sendStop : Bool} {s : Store Val} (h : Underway busy sendStop s) :
    Underway busy sendStop (Function.update s .state twStateReady) := by
  refine ⟨Or.inr (Function.update_self ..), ?_, ?_⟩
  · rw [Function.update_of_ne (by simp)]
    exact h.ending
  · rw [Function.update_of_ne (by simp)]
    exact h.kept

/-- The variables that say so. -/
def ofTenure : Var → Bool
  | .state | .sendStop | .inRepStart => true
  | _ => false

/-- A fact about these variables. -/
def OfTenure (F : Store Val → Prop) : Prop :=
  ∀ s s', (∀ x, ofTenure x = true → s' x = s x) → F s → F s'

/-- `Quiet` speaks of the variables of the transaction only. -/
theorem ofTenure_quiet (kept : Bool) : OfTenure (Quiet kept) := by
  rintro s s' hs ⟨hready, hkept⟩
  refine ⟨(hs .state rfl).trans hready, fun h => hkept ?_⟩
  rw [← hs .inRepStart rfl]
  exact h

theorem ofTenure_underway (busy : Byte) (sendStop : Bool) : OfTenure (Underway busy sendStop) := by
  rintro s s' hs ⟨hstate, hsendStop, hkept⟩
  refine ⟨?_, (hs .sendStop rfl).trans hsendStop, fun h => hkept ?_⟩
  · rw [hs .state rfl]
    exact hstate
  · rw [← hs .inRepStart rfl]
    exact h

/-- While the lock of the bus is free, the bus is quiet and not kept. -/
def tenures : Invariants (discipline True) where
  about := ofTenure
  free
    | .tw, s => Quiet false s
    | .uart, _ | .port, _ => True
  always _ _ := True
  may _ _ _ := True
  allow _ := True
  free_always _ _ _ := trivial
  free_congr := by
    intro l s s' hs h
    cases l with
    | tw =>
        refine ofTenure_quiet false s s' (fun x hx => hs x hx ?_) h
        cases x with
        | state | sendStop | inRepStart => rfl
        | _ => exact absurd hx (by simp [ofTenure])
    | uart => trivial
    | port => trivial
  always_congr _ _ _ _ _ := trivial
  may_refl _ _ := trivial
  may_trans _ _ _ _ _ _ := trivial
  may_other _ _ _ _ := trivial

section

variable {held : List Lock} {F : Store Val → Prop} {α : Type}

/-- With the TW controller locked nobody else stores to these variables, so that a fact about them
outlives the steps of the other tasks and of every program that leaves them alone. -/
theorem OfTenure.frames (hF : OfTenure F) (htw : .tw ∈ held) : tenures.Frames held F := by
  refine ⟨fun s s' hrely => hF s s' fun x hx => ?_, fun s s' hs => hF s s' hs⟩
  cases x with
  | state => exact hrely.1.eq (x := .state) rfl htw
  | sendStop => exact hrely.1.eq (x := .sendStop) rfl htw
  | inRepStart => exact hrely.1.eq (x := .inRepStart) rfl htw
  | _ => exact absurd hx (by simp [ofTenure])

/-- The first half of it, as the rules for single steps ask for it. -/
theorem OfTenure.held_stable (hF : OfTenure F) (htw : .tw ∈ held) :
    tenures.Stable held fun _ s => F s :=
  fun _ s s' hrely hs => (hF.frames htw).stable s s' hrely hs

/-- What leaves the state of the transaction and all locks alone. -/
abbrev asidePrint : Footprint Var Lock Event :=
  tenures.aside fun _ => False

/-- The program has nothing to do with the bus. -/
abbrev Aside (p : Code α) : Prop := p.Leaves asidePrint

/-- A program that stays aside keeps what is known of the transaction. -/
theorem Aside.keeps {p : Code α} (h : Aside p) (hF : OfTenure F) (htw : .tw ∈ held) :
    tenures.Triple held (fun _ s => F s) p held fun _ _ s => F s :=
  Invariants.Triple.frame h (hF.frames htw)

end

/-! ## `CTWController`

The bottom of the argument: what the handler and the two functions that call for a transaction do to
`unState`, `bSendStop` and `bInRepStart`. Everything between their stores to these three stays aside. -/

namespace CTWController

/-! What the functions that neither start nor end a transaction leave alone. -/

/-- Queueing a byte is such a program. -/
theorem queuePrint_le_aside : queuePrint ≤ asidePrint := by
  refine ⟨Set.subset_univ _, fun x hx => ?_, by simp, fun _ _ => trivial⟩
  cases x with
  | state | sendStop | inRepStart => cases hx
  | _ => rfl

theorem storeReceived_aside : Aside storeReceived :=
  storeReceived_leaves.mono ⟨Set.subset_univ _,
    by simp [Set.insert_subset_iff, Set.range_subset_iff, tenures, ofTenure], by simp, by simp⟩

theorem acknowledge_aside : Aside acknowledge :=
  acknowledge_leaves.mono ⟨Set.subset_univ _, by simp [tenures, ofTenure], by simp, by simp⟩

theorem awaitReady_aside : Aside awaitReady :=
  awaitReady_leaves.mono ⟨Set.subset_univ _, by simp, by simp, by simp⟩

theorem beginTransmission_aside (address : Byte) : Aside (beginTransmission address) :=
  (beginTransmission_queues address).mono queuePrint_le_aside

theorem writeByte_aside (data : Byte) : Aside (writeByte data) :=
  (writeByte_leaves data).mono queuePrint_le_aside

theorem copyToMaster_aside (n i : Nat) : Aside (copyToMaster n i) :=
  (copyToMaster_leaves n i).mono
    ⟨Set.subset_univ _, by simp [Set.subset_def, tenures, ofTenure], by simp, by simp⟩

theorem copyFromMaster_aside (n i : Nat) : Aside (copyFromMaster n i) :=
  (copyFromMaster_leaves n i).mono
    ⟨Set.subset_univ _, by simp [Set.subset_def, tenures, ofTenure], by simp, by simp⟩

theorem receivedLength_aside (length : Byte) : Aside (receivedLength length) :=
  (receivedLength_leaves length).mono ⟨Set.subset_univ _, by simp, by simp, by simp⟩

theorem readByte_aside : Aside readByte :=
  readByte_leaves.mono ⟨Set.subset_univ _, by simp [tenures, ofTenure], by simp, fun _ _ => trivial⟩

section

variable {held : List Lock} {busy : Byte} {sendStop : Bool} (htw : .tw ∈ held)
include htw

/-- A store to a variable of the transaction. -/
theorem storeTenure_keeps {F G : Store Val → Prop} (hF : OfTenure F) (x : Var) (v : Val x)
    (h : ∀ s, F s → G (Function.update s x v)) :
    tenures.Triple held (fun _ s => F s) (store x v) held fun _ _ s => G s :=
  Invariants.Triple.write (hF.held_stable htw) fun _ s hs =>
    ⟨fun _ => ⟨trivial, fun _ _ => trivial⟩, h s hs⟩

/-- `Stop()` waits until the STOP is on the bus, and the transaction is over. -/
theorem stop_keeps :
    tenures.Triple held (fun _ s => Underway busy sendStop s) stop held
      fun _ _ s => Underway busy sendStop s := by
  have hF := ofTenure_underway busy sendStop
  refine (Aside.keeps (.write rfl _) hF htw).seq fun _ => ?_
  refine (Aside.keeps (.repeatWhile (.bind (.read trivial) fun _ => .ret _)) hF htw).seq fun _ => ?_
  exact storeTenure_keeps htw hF .state _ fun _ hs => hs.over

/-- Where the handler may keep the bus it reads `bSendStop`: `bInRepStart` is set only if no STOP was
asked for. -/
theorem stopOrKeepBus_keeps :
    tenures.Triple held (fun _ s => Underway busy sendStop s) stopOrKeepBus held
      fun _ _ s => Underway busy sendStop s := by
  have hF := ofTenure_underway busy sendStop
  refine Invariants.Triple.readKnown (v := sendStop) (hF.held_stable htw) (fun _ _ hs => hs.ending) ?_
  refine .ite (fun _ => stop_keeps htw) fun hsendStop => ?_
  refine (storeTenure_keeps (G := Underway busy sendStop) htw hF .inRepStart true fun s hs =>
    ⟨?_, ?_, fun _ => Bool.eq_false_iff.mpr hsendStop⟩).seq fun _ => ?_
  · rw [Function.update_of_ne (by simp)]
    exact hs.state
  · rw [Function.update_of_ne (by simp)]
    exact hs.ending
  refine (Aside.keeps (.write rfl _) hF htw).seq fun _ => ?_
  exact storeTenure_keeps htw hF .state _ fun _ hs => hs.over

/-- The next byte of the buffer is sent, or the transaction ends. -/
theorem sendNext_keeps :
    tenures.Triple held (fun _ s => Underway busy sendStop s) sendNext held
      fun _ _ s => Underway busy sendStop s := by
  have hF := ofTenure_underway busy sendStop
  refine (Aside.keeps (.read trivial) hF htw).seq fun _ => (Aside.keeps (.read trivial) hF htw).seq fun _ => ?_
  refine .ite (fun _ => ?_) fun _ => stopOrKeepBus_keeps htw
  refine (Aside.keeps (.read trivial) hF htw).seq fun _ => (Aside.keeps (.write rfl _) hF htw).seq fun _ => ?_
  refine (Aside.keeps (.read trivial) hF htw).seq fun _ => (Aside.keeps (.write rfl _) hF htw).seq fun _ => ?_
  exact Aside.keeps (.write rfl _) hF htw

/-- Whatever the status is, the handler leaves the transaction underway or ends it as it was to end. -/
theorem twiVect_keeps :
    tenures.Triple held (fun _ s => Underway busy sendStop s) twiVect held
      fun _ _ s => Underway busy sendStop s := by
  have hF := ofTenure_underway busy sendStop
  apply (Aside.keeps (.read trivial) hF htw).seq
  intro twsr
  cases twStatus twsr with
  -- the address and the direction are put on the bus
  | start | repStart =>
      exact Aside.keeps (.bind (.read trivial) fun _ => .bind (.write rfl _) fun _ => .write rfl _) hF htw
  | mtSlaAck | mtDataAck => exact sendNext_keeps htw
  -- the error is noted first; which one does not matter here
  | mtSlaNack | mtDataNack | busError =>
      exact (Aside.keeps (.write rfl _) hF htw).seq fun _ => stop_keeps htw
  -- the bus has been lost to another master: no STOP is sent, and `unState` is reset in the handler
  | arbLost =>
      refine (Aside.keeps (.write rfl _) hF htw).seq fun _ => (Aside.keeps (.write rfl _) hF htw).seq ?_
      exact fun _ => storeTenure_keeps htw hF .state _ fun _ hs => hs.over
  | mrDataAck => exact Aside.keeps (.bind storeReceived_aside fun _ => acknowledge_aside) hF htw
  | mrSlaAck => exact acknowledge_aside.keeps hF htw
  -- the last byte has been received
  | mrDataNack => exact (storeReceived_aside.keeps hF htw).seq fun _ => stopOrKeepBus_keeps htw
  | mrSlaNack => exact stop_keeps htw
  | other => exact .pure fun _ _ => id

/-- When the transaction is over the bus is kept only if it was to be. -/
theorem awaitTransaction_keeps :
    tenures.Triple held (fun _ s => Underway busy sendStop s) (awaitTransaction busy) held
      fun _ _ s => Quiet (!sendStop) s := by
  have hF := ofTenure_underway busy sendStop
  -- The loop reads `unState` anew at every turn. What it has read when it leaves is kept in the assertion.
  refine Invariants.Triple.repeatWhile (hF.held_stable htw) ?_
  refine (Invariants.Triple.read (Q := fun state _ s => Underway busy sendStop s ∧ s .state = state)
    (hF.held_stable htw) fun _ _ hs => ⟨hs, rfl⟩).bind fun state => .ite (fun _ => ?_) fun hstate => ?_
  · refine Invariants.Triple.pre (P := fun _ s => Underway busy sendStop s) ?_ fun _ _ hs => hs.1
    refine (Aside.keeps (.note fun _ => trivial) hF htw).seq fun _ => (twiVect_keeps htw).seq fun _ => ?_
    exact .pure fun _ _ => id
  · refine .pure ?_
    rintro _ s ⟨hs, rfl⟩
    refine ⟨hs.state.resolve_left hstate, fun h => ?_⟩
    rw [hs.kept h]
    rfl

/-- The transaction has been set up. -/
theorem startTransaction_keeps :
    tenures.Triple held (fun _ s => s .state = busy ∧ s .sendStop = sendStop) startTransaction held
      fun _ _ s => Underway busy sendStop s := by
  have hset : OfTenure fun s => s .state = busy ∧ s .sendStop = sendStop :=
    fun s s' hs h => ⟨(hs .state rfl).trans h.1, (hs .sendStop rfl).trans h.2⟩
  have hF := ofTenure_underway busy sendStop
  refine (Invariants.Triple.read (Q := fun kept _ s => (s .state = busy ∧ s .sendStop = sendStop) ∧
    s .inRepStart = kept) (hset.held_stable htw) fun _ _ hs => ⟨hs, rfl⟩).bind fun kept => ?_
  have hkept : OfTenure fun s => (s .state = busy ∧ s .sendStop = sendStop) ∧ s .inRepStart = kept :=
    fun s s' hs h => ⟨hset s s' hs h.1, (hs .inRepStart rfl).trans h.2⟩
  -- the bus is kept from before, or a START is due; either way `inRepStart` is not set afterwards
  refine .ite (fun _ => ?_) fun hnot => ?_
  · refine (storeTenure_keeps (G := Underway busy sendStop) htw hkept .inRepStart false fun s hs =>
      ⟨Or.inl ?_, ?_, fun h => ?_⟩).seq fun _ => ?_
    · rw [Function.update_of_ne (by simp)]
      exact hs.1.1
    · rw [Function.update_of_ne (by simp)]
      exact hs.1.2
    · rw [Function.update_self] at h
      cases h
    refine (Aside.keeps (.read trivial) hF htw).seq fun _ => (Aside.keeps (.write rfl _) hF htw).seq fun _ => ?_
    exact Aside.keeps (.write rfl _) hF htw
  · refine (Aside.keeps (.write rfl _) hF htw).pre ?_
    rintro _ s ⟨⟨hstate, hending⟩, rfl⟩
    exact ⟨Or.inl hstate, hending, fun h => absurd h hnot⟩

/-- Which variables of the transaction are set, from a controller that is at rest. -/
theorem setup_keeps {k : Bool} {α : Type} {Q : α → Assn Val Event} {rest : Code α} (busy : Byte)
    (sendStop : Bool)
    (h : tenures.Triple held (fun _ s => s .state = busy ∧ s .sendStop = sendStop) rest held Q) :
    tenures.Triple held (fun _ s => Quiet k s) (do
      awaitReady
      store .state busy
      store .sendStop sendStop
      rest) held Q := by
  have hstate : OfTenure fun s => s .state = busy := fun s s' hs h => (hs .state rfl).trans h
  refine (awaitReady_aside.keeps (ofTenure_quiet k) htw).seq fun _ => ?_
  refine (storeTenure_keeps (G := fun s => s .state = busy) htw (ofTenure_quiet k) .state busy
    fun s _ => Function.update_self ..).seq fun _ => ?_
  refine (storeTenure_keeps (G := fun s => s .state = busy ∧ s .sendStop = sendStop) htw hstate
    .sendStop sendStop fun s hs => ⟨?_, Function.update_self ..⟩).seq fun _ => h
  rw [Function.update_of_ne (by simp)]
  exact hs

/-- `EndTransmission` called on a bus that is not kept: with nothing queued it returns at once; otherwise
the bus is kept afterwards only if the caller has asked for that. -/
theorem endTransmission_keeps (sendStop : Bool) :
    tenures.Triple held (fun _ s => Quiet false s) (endTransmission sendStop) held
      fun _ _ s => Quiet (!sendStop) s := by
  have hset : OfTenure fun s => s .state = twStateMtx ∧ s .sendStop = sendStop :=
    fun s s' hs h => ⟨(hs .state rfl).trans h.1, (hs .sendStop rfl).trans h.2⟩
  have hend := ofTenure_quiet (!sendStop)
  refine (Aside.keeps (.read trivial) (ofTenure_quiet false) htw).seq fun length => .ite (fun _ => ?_) fun _ => ?_
  · exact .pure fun _ _ hs => ⟨hs.ready, fun h => absurd (hs.kept h) Bool.false_ne_true⟩
  refine setup_keeps htw twStateMtx sendStop ?_
  refine (Aside.keeps (.write rfl _) hset htw).seq fun _ => (Aside.keeps (.write rfl _) hset htw).seq fun _ => ?_
  refine (Aside.keeps (.read trivial) hset htw).seq fun _ => (Aside.keeps (.write rfl _) hset htw).seq fun _ => ?_
  refine ((copyToMaster_aside _ _).keeps hset htw).seq fun _ => ?_
  refine (Aside.keeps (.note fun _ => trivial) hset htw).seq fun _ => (Aside.keeps (.read trivial) hset htw).seq fun _ => ?_
  refine (Aside.keeps (.write rfl _) hset htw).seq fun _ => (startTransaction_keeps htw).seq fun _ => ?_
  refine (awaitTransaction_keeps htw).seq fun _ => ?_
  refine (Aside.keeps (.write rfl _) hend htw).seq fun _ => (Aside.keeps (.write rfl _) hend htw).seq fun _ => ?_
  refine (Aside.keeps (.write rfl _) hend htw).seq fun _ => Aside.keeps ?_ hend htw
  exact .bind (.read trivial) fun _ => .ite (.ret _) (.ite (.ret _) (.ite (.ret _) (.ret _)))

/-- `Read` may also be called on a bus that is kept: a START has been sent ahead then, and the transaction
begins with the address. -/
theorem readFrom_keeps {k : Bool} (address length : Byte) (sendStop : Bool) :
    tenures.Triple held (fun _ s => Quiet k s) (readFrom address length sendStop) held
      fun _ _ s => Quiet (!sendStop) s := by
  have hset : OfTenure fun s => s .state = twStateMrx ∧ s .sendStop = sendStop :=
    fun s s' hs h => ⟨(hs .state rfl).trans h.1, (hs .sendStop rfl).trans h.2⟩
  have hend := ofTenure_quiet (!sendStop)
  refine (Aside.keeps (.note fun _ => trivial) (ofTenure_quiet k) htw).seq fun _ => ?_
  refine setup_keeps htw twStateMrx sendStop ?_
  refine (Aside.keeps (.write rfl _) hset htw).seq fun _ => (Aside.keeps (.write rfl _) hset htw).seq fun _ => ?_
  refine (Aside.keeps (.write rfl _) hset htw).seq fun _ => (Aside.keeps (.write rfl _) hset htw).seq fun _ => ?_
  refine (startTransaction_keeps htw).seq fun _ => (awaitTransaction_keeps htw).seq fun _ => ?_
  refine ((receivedLength_aside _).keeps hend htw).seq fun _ => ?_
  refine ((copyFromMaster_aside _ _).keeps hend htw).seq fun _ => ?_
  refine (Aside.keeps (.write rfl _) hend htw).seq fun _ => (Aside.keeps (.write rfl _) hend htw).seq fun _ => ?_
  exact Aside.keeps (.bind (.note fun _ => trivial) fun _ => .ret _) hend htw

end

end CTWController

/-! ## Programs that end every tenure they begin

From here on nothing is known of the variables before or after. `Tenured` is closed under the constructs
of the language, so that the theorem about a function is put together as its body is. -/

/-- Whatever locks are held already. -/
def Tenured {α : Type} (p : Code α) : Prop :=
  ∀ held, tenures.Triple held (fun _ _ => True) p held fun _ _ _ => True

section

variable {α β : Type}

/-- Nothing is assumed of the variables. -/
theorem true_stable (held : List Lock) : tenures.Stable held fun _ _ => True := fun _ _ _ _ => id

namespace Tenured

theorem pure (a : α) : Tenured (pure a) := fun _ => .pure fun _ _ => id

theorem bind {p : Code α} {f : α → Code β} (hp : Tenured p) (hf : ∀ a, Tenured (f a)) :
    Tenured (p >>= f) :=
  fun held => (hp held).seq fun a => hf a held

theorem ite {c : Prop} [Decidable c] {p q : Code α} (hp : Tenured p) (hq : Tenured q) :
    Tenured (if c then p else q) :=
  fun held => .ite (fun _ => hp held) fun _ => hq held

theorem forM {f : α → Code PUnit} (h : ∀ a, Tenured (f a)) (xs : List α) : Tenured (xs.forM f) :=
  fun held => Invariants.Triple.forM fun a _ => h a held

theorem load (x : Var) : Tenured (load x) :=
  fun held => Invariants.Triple.read (true_stable held) fun _ _ _ => trivial

theorem store (x : Var) (v : Val x) : Tenured (store x v) :=
  fun held => Invariants.Triple.write (true_stable held) fun _ _ _ =>
    ⟨fun _ => ⟨trivial, fun _ _ => trivial⟩, trivial⟩

theorem sleep (n : Nat) : Tenured (sleep n) := fun held => Invariants.Triple.switch (true_stable held)

theorem repeatWhile {body : Code Bool} (h : Tenured body) : Tenured (Prog.repeatWhile body) :=
  fun held => Invariants.Triple.repeatKeeping (true_stable held) (h held)

theorem calledFor {f : Callee} {body : Code α} (h : Tenured body) : Tenured (calledFor f body) := by
  intro held
  have hnote : ∀ f : Store Val → Event, tenures.Triple held (fun _ _ => True) (note f) held
      fun _ _ _ => True := fun _ => Invariants.Triple.frame (F := fun _ => True) (.note fun _ => trivial)
        ⟨fun _ _ _ => id, fun _ _ _ => id⟩
  exact (hnote _).seq fun _ => (h held).seq fun _ => (hnote _).seq fun _ => .pure fun _ _ => id

end Tenured

/-! ### Under a lock

Between `acquire` and `release` of the TW controller a program is not `Tenured` step by step: it is quiet
at both ends only. These rules take a block between the two as a whole. -/

variable {held held' : List Lock} {rest : Code α} {f : Byte → Code α} {Q : α → Assn Val Event}

/-- Under the TW controller, which is found at rest. -/
theorem acquireTw_keeps (h : tenures.Triple (.tw :: held) (fun _ s => Quiet false s) rest held' Q) :
    tenures.Triple held (fun _ _ => True) (do
      acquire .tw
      rest) held' Q :=
  ((Invariants.Triple.acquire (true_stable held)).post fun _ _ _ hs => hs.2).seq fun _ => h

/-- The TW controller may be unlocked when the bus is quiet and not kept. -/
theorem releaseTw_keeps :
    tenures.Triple (.tw :: held) (fun _ s => Quiet false s) (release .tw) held fun _ _ _ => True :=
  (Invariants.Triple.release ((ofTenure_quiet false).held_stable List.mem_cons_self)
    fun _ _ => id).post fun _ _ _ _ => trivial

theorem lock_keeps (l : Lock) :
    tenures.Triple held (fun _ _ => True) (acquire l) (l :: held) fun _ _ _ => True :=
  (Invariants.Triple.acquire (true_stable held)).post fun _ _ _ _ => trivial

/-- The other locks protect nothing of the bus. -/
theorem unlock_keeps {l : Lock} (hl : l ≠ .tw) :
    tenures.Triple (l :: held) (fun _ _ => True) (release l) held fun _ _ _ => True := by
  refine Invariants.Triple.release (true_stable _) fun _ _ _ => ?_
  cases l with
  | uart | port => trivial
  | tw => exact absurd rfl hl

open CTWController

/-- Queueing a byte or taking one leaves a quiet bus quiet. -/
theorem asideTw_keeps {p : Code β} (h : Aside p) :
    tenures.Triple (.tw :: held) (fun _ s => Quiet false s) p (.tw :: held)
      fun _ _ s => Quiet false s :=
  h.keeps (ofTenure_quiet false) List.mem_cons_self

/-- The transaction that stores `value` in register `register` of a device: its only tenure ends with a
STOP. -/
theorem writeRegister_keeps (address register value : Byte)
    (h : tenures.Triple (.tw :: held) (fun _ s => Quiet false s) rest held' Q) :
    tenures.Triple (.tw :: held) (fun _ s => Quiet false s) (do
      beginTransmission address
      let _ ← writeByte register
      let _ ← writeByte value
      let _ ← endTransmission true
      rest) held' Q :=
  (asideTw_keeps (beginTransmission_aside address)).seq fun _ =>
    (asideTw_keeps (writeByte_aside register)).seq fun _ => (asideTw_keeps (writeByte_aside value)).seq
      fun _ => (endTransmission_keeps List.mem_cons_self true).seq fun _ => h

/-- The two calls that ask for the value of a register: the second one ends the tenure that the first one
has kept. -/
theorem readRegister_keeps (address register length : Byte)
    (h : ∀ n, tenures.Triple (.tw :: held) (fun _ s => Quiet false s) (f n) held' Q) :
    tenures.Triple (.tw :: held) (fun _ s => Quiet false s) (do
      beginTransmission address
      let _ ← writeByte register
      let _ ← endTransmission false
      let n ← readFrom address length true
      f n) held' Q :=
  (asideTw_keeps (beginTransmission_aside address)).seq fun _ =>
    (asideTw_keeps (writeByte_aside register)).seq fun _ =>
      (endTransmission_keeps List.mem_cons_self false).seq fun _ =>
        (readFrom_keeps List.mem_cons_self address length true).seq h

/-! ### The port controller

`Init` writes the configuration register, `SynchronizeInterrupts` asks for the input register, and
`EnablePort` and `DisablePort` do both, in two tenures with the lock released between them. -/

namespace CPortController

theorem selectPort_tenured (target : EPort) : Tenured (selectPort target) :=
  (Tenured.load _).bind fun _ => (Tenured.store _ _).bind fun _ => (Tenured.load _).bind fun _ =>
    Tenured.store _ _

theorem init_tenured : Tenured init := by
  refine Tenured.calledFor ((selectPort_tenured _).bind fun _ held => ?_)
  refine acquireTw_keeps (writeRegister_keeps _ _ _ (releaseTw_keeps.seq fun _ => ?_))
  refine Tenured.bind (Tenured.load _) (fun _ => (Tenured.store _ _).bind fun _ => ?_) held
  refine (Tenured.load _).bind fun _ => (Tenured.store _ _).bind fun _ => ?_
  exact (Tenured.load _).bind fun _ => Tenured.store _ _

theorem initOnFirstUse_tenured : Tenured initOnFirstUse := by
  refine (Tenured.load _).bind fun _ => Tenured.ite (fun held => ?_) (Tenured.pure _)
  refine (lock_keeps .port).seq fun _ => (init_tenured _).seq fun _ => ?_
  exact (Tenured.store _ _ _).seq fun _ => unlock_keeps (by decide)

theorem onInstance_tenured {method : Code β} (h : Tenured method) : Tenured (onInstance method) :=
  initOnFirstUse_tenured.bind fun _ => h

theorem lockInstance_keeps :
    tenures.Triple held (fun _ _ => True) (onInstance (acquire .port)) (.port :: held) fun _ _ _ => True :=
  (initOnFirstUse_tenured held).seq fun _ => lock_keeps .port

theorem unlockInstance_keeps :
    tenures.Triple (.port :: held) (fun _ _ => True) (onInstance (release .port)) held
      fun _ _ _ => True :=
  (initOnFirstUse_tenured _).seq fun _ => unlock_keeps (by decide)

theorem synchronizeInterrupts_tenured : Tenured synchronizeInterrupts := by
  refine Tenured.calledFor ((Tenured.load _).bind fun _ => Tenured.ite (fun held => ?_) (Tenured.pure _))
  refine acquireTw_keeps (readRegister_keeps _ _ _ fun _ => ?_)
  refine (asideTw_keeps (.write rfl _)).seq fun _ => (asideTw_keeps readByte_aside).seq fun _ => ?_
  refine releaseTw_keeps.seq fun _ => Tenured.bind (Tenured.load _) (fun _ => ?_) held
  exact (Tenured.load _).bind fun _ => (Tenured.store _ _).bind fun _ => Tenured.store _ _

theorem clearInterrupts_tenured (clearMask : Byte) : Tenured (clearInterrupts clearMask) :=
  (Tenured.load _).bind fun _ => Tenured.store _ _

theorem hasInterrupts_tenured : Tenured hasInterrupts := (Tenured.load _).bind fun _ => Tenured.pure _

theorem updateOutput_tenured (change : Byte → Byte) : Tenured (updateOutput change) := by
  refine Tenured.calledFor fun held => acquireTw_keeps (readRegister_keeps _ _ _ fun _ => ?_)
  refine (asideTw_keeps readByte_aside).seq fun _ => releaseTw_keeps.seq fun _ => ?_
  exact acquireTw_keeps (writeRegister_keeps _ _ _ releaseTw_keeps)

theorem isPortConnected_tenured (target : EPort) : Tenured (isPortConnected target) := by
  refine (selectPort_tenured _).bind fun _ => (Tenured.sleep _).bind fun _ => ?_
  refine (Tenured.load _).bind fun _ => (Tenured.store _ _).bind fun _ => ?_
  refine (Tenured.load _).bind fun _ => (Tenured.store _ _).bind fun _ => ?_
  refine (Tenured.load _).bind fun _ => (Tenured.store _ _).bind fun _ => ?_
  refine (Tenured.load _).bind fun _ => (Tenured.store _ _).bind fun _ => ?_
  exact (Tenured.sleep _).bind fun _ => (Tenured.load _).bind fun _ => Tenured.pure _

end CPortController

/-! ### The LED controller

Every transaction with a face stands between the same three lines and the same two; `SetMode` has two such
blocks, `Init` three of its own. -/

open CPortController

/-- The three lines before a transaction with a face: behind them the bus is quiet. -/
theorem openFace_keeps (port : EPort)
    (h : tenures.Triple (.tw :: .port :: held) (fun _ s => Quiet false s) rest held' Q) :
    tenures.Triple held (fun _ _ => True) (do
      onInstance (acquire .port)
      onInstance (selectPort port)
      acquire .tw
      rest) held' Q :=
  lockInstance_keeps.seq fun _ => (onInstance_tenured (selectPort_tenured port) _).seq fun _ =>
    acquireTw_keeps h

theorem closeFace_keeps :
    tenures.Triple (.tw :: .port :: held) (fun _ s => Quiet false s) (do
      release .tw
      onInstance (release .port)) held fun _ _ _ => True :=
  releaseTw_keeps.seq fun _ => unlockInstance_keeps

theorem closeFaceThen_keeps (h : tenures.Triple held (fun _ _ => True) rest held' Q) :
    tenures.Triple (.tw :: .port :: held) (fun _ s => Quiet false s) (do
      release .tw
      onInstance (release .port)
      rest) held' Q :=
  releaseTw_keeps.seq fun _ => unlockInstance_keeps.seq fun _ => h

namespace CLEDController

theorem setMode_tenured (port : EPort) (led : Byte) (mode : EMode) : Tenured (setMode port led mode) := by
  refine Tenured.calledFor fun held => openFace_keeps port (readRegister_keeps _ _ _ fun _ => ?_)
  refine (asideTw_keeps readByte_aside).seq fun _ => closeFaceThen_keeps (openFace_keeps port ?_)
  exact writeRegister_keeps _ _ _ closeFace_keeps

theorem setBrightness_tenured (port : EPort) (led val : Byte) : Tenured (setBrightness port led val) :=
  Tenured.calledFor fun _ => openFace_keeps port (writeRegister_keeps _ _ _ closeFace_keeps)

theorem setColor_tenured (port : EPort) (ledPack red green blue : Byte) :
    Tenured (setColor port ledPack red green blue) :=
  Tenured.calledFor <| (setBrightness_tenured _ _ _).bind fun _ => (setBrightness_tenured _ _ _).bind fun _ =>
    setBrightness_tenured _ _ _

theorem setBlinkRate_tenured (port : EPort) (period dutyCycle : Byte) :
    Tenured (setBlinkRate port period dutyCycle) :=
  Tenured.calledFor fun _ => openFace_keeps port <| writeRegister_keeps _ _ _ <| closeFaceThen_keeps <|
    openFace_keeps port (writeRegister_keeps _ _ _ closeFace_keeps)

theorem setAllColorsOnFace_tenured (port : EPort) (red green blue : Byte) :
    Tenured (setAllColorsOnFace port red green blue) :=
  Tenured.calledFor (Tenured.forM (fun _ => setColor_tenured _ _ _ _ _) _)

theorem setAllModesOnFace_tenured (port : EPort) (mode : EMode) : Tenured (setAllModesOnFace port mode) :=
  Tenured.calledFor (Tenured.forM (fun _ => (setMode_tenured _ _ _).bind fun _ =>
    (setMode_tenured _ _ _).bind fun _ => (setMode_tenured _ _ _).bind fun _ => setMode_tenured _ _ _) _)

theorem init_tenured (port : EPort) : Tenured (init port) := by
  refine Tenured.calledFor fun held => openFace_keeps port (writeRegister_keeps _ _ _ ?_)
  refine closeFaceThen_keeps (openFace_keeps port (writeRegister_keeps _ _ _ ?_))
  refine closeFaceThen_keeps (openFace_keeps port (writeRegister_keeps _ _ _ (closeFaceThen_keeps ?_)))
  refine Tenured.bind (setBlinkRate_tenured _ _ _) (fun _ => Tenured.forM (fun _ => ?_) _) held
  exact (setMode_tenured _ _ _).bind fun _ => setBrightness_tenured _ _ _

end CLEDController

/-! ### The NFC controller

A command is one transmission and every poll for an answer is one reception, each under the locks of its
own. The functions above them only choose what comes next. -/

namespace CNFCController

theorem queueByte_aside (b : Byte) : Aside (queueByte b) :=
  (queueByte_leaves b).mono queuePrint_le_aside

theorem writeCmd_tenured (port : EPort) (cmd : Buffer) (len : Byte) : Tenured (writeCmd port cmd len) := by
  refine Tenured.calledFor ((Tenured.sleep 2).bind fun _ held => openFace_keeps port ?_)
  refine (asideTw_keeps (beginTransmission_aside _)).seq fun _ => ?_
  refine (asideTw_keeps (writeByte_aside _)).seq fun _ => (asideTw_keeps (writeByte_aside _)).seq fun _ => ?_
  refine (asideTw_keeps (writeByte_aside _)).seq fun _ => (asideTw_keeps (writeByte_aside _)).seq fun _ => ?_
  refine (asideTw_keeps (writeByte_aside _)).seq fun _ => (asideTw_keeps (writeByte_aside _)).seq fun _ => ?_
  refine (asideTw_keeps (Prog.Leaves.foldlM (fun _ i => ?_) _ _)).seq fun _ => ?_
  · exact .bind (queueByte_aside (cmd i)) fun _ => .ret _
  refine (asideTw_keeps (writeByte_aside _)).seq fun _ => (asideTw_keeps (writeByte_aside _)).seq fun _ => ?_
  refine (endTransmission_keeps List.mem_cons_self true).seq fun _ => ?_
  exact closeFaceThen_keeps (Tenured.sleep 100 held)

theorem readDtFrom_tenured (port : EPort) (len : Byte) (attempts : Nat) (status : Byte) (buf : Buffer) :
    Tenured (readDtFrom port len attempts status buf) := by
  induction attempts generalizing status buf with
  | zero => exact Tenured.pure _
  | succ attempts ih =>
      intro held
      refine openFace_keeps port ((readFrom_keeps List.mem_cons_self _ _ true).seq fun _ => ?_)
      refine (asideTw_keeps readByte_aside).seq fun status => .ite (fun _ => ?_) fun _ => ?_
      · refine (asideTw_keeps (Prog.Leaves.foldlM (fun _ i => ?_) _ _)).seq fun _ => ?_
        · exact .bind readByte_aside fun _ => .ret _
        · exact closeFaceThen_keeps (Tenured.pure _ held)
      · refine (asideTw_keeps (Prog.Leaves.forM (fun _ => ?_) _)).seq fun _ => ?_
        · exact .bind readByte_aside fun _ => .ret _
        · exact closeFaceThen_keeps ((Tenured.sleep 10 held).seq fun _ => ih _ _ held)

theorem readDt_tenured (port : EPort) (buf : Buffer) (len : Byte) : Tenured (readDt port buf len) :=
  Tenured.calledFor (readDtFrom_tenured _ _ _ _ _)

theorem writeCmdCheckAck_tenured (port : EPort) (cmd : Buffer) (len : Byte) :
    Tenured (writeCmdCheckAck port cmd len) :=
  (writeCmd_tenured _ _ _).bind fun _ => (readDt_tenured _ _ _).bind fun _ => Tenured.pure _

/-- A command, its acknowledge, and its reply. -/
theorem command_tenured (port : EPort) (cmd : Buffer) (len reply : Byte) {rest : Bool × Buffer → Code α}
    {other : Code α} (hrest : ∀ x, Tenured (rest x)) (hother : Tenured other) :
    Tenured (do
      if ← writeCmdCheckAck port cmd len then do
        let x ← readDt port cmd reply
        rest x
      else other) :=
  (writeCmdCheckAck_tenured _ _ _).bind fun _ => Tenured.ite ((readDt_tenured _ _ _).bind hrest) hother

theorem hasExternalField_tenured (port : EPort) (io : Buffer) : Tenured (hasExternalField port io) :=
  Tenured.calledFor (command_tenured _ _ _ _ (fun _ => Tenured.pure _) (Tenured.pure _))

theorem powerDown_tenured (port : EPort) (io : Buffer) : Tenured (powerDown port io) :=
  Tenured.calledFor (command_tenured _ _ _ _ (fun _ => Tenured.pure _) (Tenured.pure _))

theorem probe_tenured (port : EPort) (io : Buffer) : Tenured (probe port io) :=
  Tenured.calledFor (command_tenured _ _ _ _ (fun _ => Tenured.pure _) (Tenured.pure _))

theorem configureSAM_tenured (port : EPort) (mode : ESAMMode) (timeout : Byte) (useIrq : Bool)
    (io : Buffer) : Tenured (configureSAM port mode timeout useIrq io) :=
  Tenured.calledFor (command_tenured _ _ _ _ (fun _ => Tenured.pure _) (Tenured.pure _))

theorem p2pInitiatorInit_tenured (port : EPort) (io : Buffer) : Tenured (p2pInitiatorInit port io) :=
  Tenured.calledFor (command_tenured _ _ _ _ (fun _ => Tenured.pure _) (Tenured.pure _))

theorem p2pTargetInit_tenured (port : EPort) (io : Buffer) : Tenured (p2pTargetInit port io) :=
  Tenured.calledFor (command_tenured _ _ _ _ (fun _ => Tenured.pure _) (Tenured.pure _))

theorem p2pInitiatorTxRx_tenured (port : EPort) (tx : Buffer) (txLen : Byte) (rx : Buffer) (rxLen : Byte)
    (io : Buffer) : Tenured (p2pInitiatorTxRx port tx txLen rx rxLen io) :=
  Tenured.calledFor (command_tenured _ _ _ _
    (fun _ => Tenured.ite (Tenured.pure _) (Tenured.pure _)) (Tenured.pure _))

theorem p2pTargetTxRx_tenured (port : EPort) (tx : Buffer) (txLen : Byte) (rx : Buffer) (rxLen : Byte)
    (io : Buffer) : Tenured (p2pTargetTxRx port tx txLen rx rxLen io) := by
  refine Tenured.calledFor (command_tenured _ _ _ _ (fun _ => Tenured.ite ?_ (Tenured.pure _))
    (Tenured.pure _))
  exact command_tenured _ _ _ _ (fun _ => Tenured.ite (Tenured.pure _) (Tenured.pure _)) (Tenured.pure _)

theorem send_tenured (port : EPort) (msg : Buffer) (len : Byte) (io : Buffer) :
    Tenured (send port msg len io) := by
  refine Tenured.calledFor ((p2pInitiatorInit_tenured _ _).bind fun _ => ?_)
  refine (Tenured.ite (p2pInitiatorTxRx_tenured _ _ _ _ _ _) (Tenured.pure _)).bind fun _ => ?_
  refine (Tenured.sleep 50).bind fun _ => (powerDown_tenured _ _).bind fun _ => ?_
  exact (Tenured.sleep 100).bind fun _ => Tenured.pure _

theorem receive_tenured (port : EPort) (msg : Buffer) (len : Byte) (io : Buffer) :
    Tenured (receive port msg len io) := by
  refine Tenured.calledFor ((p2pTargetInit_tenured _ _).bind fun _ => ?_)
  refine (Tenured.ite (p2pTargetTxRx_tenured _ _ _ _ _ _) (Tenured.pure _)).bind fun _ => ?_
  refine (Tenured.sleep 60).bind fun _ => (powerDown_tenured _ _).bind fun _ => ?_
  exact (Tenured.sleep 100).bind fun _ => Tenured.pure _

theorem wakeUp_tenured (port : EPort) (io : Buffer) : Tenured (wakeUp port io) :=
  (probe_tenured _ _).bind fun _ => Tenured.ite
    ((configureSAM_tenured _ _ _ _ _).bind fun _ => Tenured.ite (powerDown_tenured _ _) (Tenured.pure _))
    (Tenured.pure _)

theorem initFrom_tenured (port : EPort) (attempts : Nat) (io : Buffer) :
    Tenured (initFrom port attempts io) := by
  induction attempts generalizing io with
  | zero => exact Tenured.pure _
  | succ attempts ih =>
      refine (wakeUp_tenured _ _).bind fun _ => Tenured.ite (Tenured.pure _) ?_
      exact (Tenured.sleep 100).bind fun _ => ih _

theorem init_tenured (port : EPort) (io : Buffer) : Tenured (init port io) :=
  Tenured.calledFor (initFrom_tenured _ 3 _)

end CNFCController

/-! ### The tasks of `main.cpp`

The texts are printed under the lock of the UART, which has nothing to do with the bus;
`TestAccelerometer` is the one task that speaks to the bus itself. -/

namespace Main

theorem print_tenured (text : String) : Tenured (print text) :=
  (Tenured.repeatWhile (Tenured.load _)).bind fun _ => (Tenured.load _).bind fun _ => Tenured.store _ _

theorem log_tenured (msg1 : String) {msg2 : Code String} (h : Tenured msg2) : Tenured (log msg1 msg2) := by
  intro held
  refine (lock_keeps .uart).seq fun _ => (Tenured.load _ _).seq fun _ => (print_tenured _ _).seq fun _ => ?_
  refine (print_tenured _ _).seq fun _ => (h _).seq fun _ => (print_tenured _ _).seq fun _ => ?_
  exact unlock_keeps (by decide)

/-- A text printed under the lock of the UART. -/
theorem printLocked_tenured (text : String) {rest : Code α} (h : Tenured rest) : Tenured (do
    acquire .uart
    print text
    release .uart
    rest) :=
  fun held => (lock_keeps .uart).seq fun _ => (print_tenured text _).seq fun _ =>
    (unlock_keeps (by decide)).seq fun _ => h held

theorem addConnectedPort_tenured (port : EPort) (n i : Nat) : Tenured (addConnectedPort port n i) := by
  induction n generalizing i with
  | zero => exact Tenured.pure _
  | succ n ih => exact (Tenured.load _).bind fun _ => Tenured.ite (Tenured.store _ _) (ih _)

theorem initPortController_tenured : Tenured initPortController := by
  intro held
  have hselect := onInstance_tenured (selectPort_tenured .nullport)
  refine lockInstance_keeps.seq fun _ => (hselect _).seq fun _ => (Tenured.sleep 10 _).seq fun _ => ?_
  refine (Tenured.forM (fun port => ?_) _ _).seq fun _ => (hselect _).seq fun _ => ?_
  · exact (onInstance_tenured (isPortConnected_tenured port)).bind fun _ =>
      Tenured.ite (addConnectedPort_tenured port 6 0) (Tenured.pure _)
  refine unlockInstance_keeps.seq fun _ => (lock_keeps .uart).seq fun _ => ?_
  refine (print_tenured _ _).seq fun _ => (Tenured.forM (fun i => ?_) _ _).seq fun _ => ?_
  · refine (Tenured.load _).bind fun _ => Tenured.ite ((Tenured.load _).bind fun _ => ?_) (Tenured.pure _)
    exact (onInstance_tenured (Tenured.pure _)).bind fun _ => print_tenured _
  exact (print_tenured _ _).seq fun _ => (unlock_keeps (by decide)).seq fun _ => Tenured.sleep 0 held

theorem initLEDs_tenured : Tenured initLEDs := by
  refine (Tenured.forM (fun i => ?_) _).bind fun _ => (log_tenured _ (Tenured.pure _)).bind fun _ => ?_
  · refine (Tenured.load _).bind fun _ => Tenured.ite ((Tenured.load _).bind fun _ => ?_) (Tenured.pure _)
    refine (CLEDController.init_tenured _).bind fun _ => (Tenured.load _).bind fun _ => ?_
    refine (CLEDController.setAllModesOnFace_tenured _ _).bind fun _ => (Tenured.load _).bind fun _ => ?_
    exact CLEDController.setAllColorsOnFace_tenured _ _ _ _
  · exact (Tenured.sleep 10).bind fun _ => Tenured.sleep 0

theorem setFaceColor_tenured (color val : Byte) (port : EPort) : Tenured (setFaceColor color val port) := by
  refine Tenured.bind ?_ fun _ => Tenured.sleep 1
  split
  · exact CLEDController.setAllColorsOnFace_tenured _ _ _ _
  · exact CLEDController.setAllColorsOnFace_tenured _ _ _ _
  · exact CLEDController.setAllColorsOnFace_tenured _ _ _ _
  · exact CLEDController.setAllColorsOnFace_tenured _ _ _ _
  · exact Tenured.pure _

theorem variateLEDsOnPort_tenured (port : EPort) : Tenured (variateLEDsOnPort port) :=
  (Tenured.forM (fun _ => setFaceColor_tenured _ _ _) _).bind fun _ =>
    (Tenured.forM (fun _ => setFaceColor_tenured _ _ _) _).bind fun _ =>
      (CLEDController.setAllColorsOnFace_tenured _ _ _ _).bind fun _ => Tenured.sleep 1000

theorem testAccelerometer_tenured : Tenured testAccelerometer := by
  intro held
  refine acquireTw_keeps (readRegister_keeps _ _ _ fun _ => ?_)
  refine (asideTw_keeps (Prog.Leaves.foldlM (fun _ _ => ?_) _ _)).seq fun _ => ?_
  · exact .bind readByte_aside fun _ => .ret _
  refine releaseTw_keeps.seq fun _ => (lock_keeps .uart).seq fun _ => (Tenured.load _ _).seq fun _ => ?_
  refine (print_tenured _ _).seq fun _ => (Tenured.repeatWhile (Tenured.load _) _).seq fun _ => ?_
  exact (unlock_keeps (by decide)).seq fun _ => Tenured.sleep 1000 held

theorem dummy5_tenured : Tenured dummy5 :=
  fun held => (lock_keeps .uart).seq fun _ => (Tenured.load _ _).seq fun _ => (print_tenured _ _).seq fun _ =>
    (unlock_keeps (by decide)).seq fun _ => Tenured.sleep 1000 held

theorem initNFC_tenured (io : Nat → Buffer) : Tenured (initNFC io) := by
  refine (Tenured.forM (fun i => ?_) _).bind fun _ => (log_tenured _ (Tenured.pure _)).bind fun _ => ?_
  · refine (Tenured.load _).bind fun _ => Tenured.ite (fun held => ?_) (Tenured.pure _)
    refine lockInstance_keeps.seq fun _ => (Tenured.load _ _).seq fun _ => ?_
    refine (onInstance_tenured (selectPort_tenured _) _).seq fun _ => (Tenured.load _ _).seq fun _ => ?_
    refine (onInstance_tenured (updateOutput_tenured _) _).seq fun _ => unlockInstance_keeps.seq fun _ => ?_
    refine Tenured.bind (Tenured.load _) (fun _ => (CNFCController.init_tenured _ _).bind ?_) held
    rintro ⟨success, _⟩
    refine Tenured.ite ((Tenured.load _).bind fun _ => ?_) (Tenured.pure _)
    exact CLEDController.setAllColorsOnFace_tenured _ _ _ _
  · exact (Tenured.sleep 10).bind fun _ => Tenured.sleep 0

theorem nfcTransmit_tenured (io : Nat → Buffer) : Tenured (nfcTransmit io) := by
  refine (log_tenured _ (Tenured.pure _)).bind fun _ => Tenured.forM (fun i => ?_) _
  refine (Tenured.load _).bind fun _ => Tenured.ite ((Tenured.load _).bind fun _ => ?_) (Tenured.pure _)
  refine (CNFCController.send_tenured _ _ _ _).bind fun ⟨success, _⟩ held => ?_
  refine lockInstance_keeps.seq fun _ => (Tenured.load _ _).seq fun _ => ?_
  refine (onInstance_tenured (selectPort_tenured _) _).seq fun _ => ?_
  refine (onInstance_tenured (clearInterrupts_tenured _) _).seq fun _ => unlockInstance_keeps.seq fun _ => ?_
  exact Tenured.bind (Tenured.load _)
    (fun _ => Tenured.ite (setFaceColor_tenured _ _ _) (setFaceColor_tenured _ _ _)) held

theorem reactOn_tenured (irqs : Byte) (io inbound : Nat → Buffer) (i : Nat) :
    Tenured (reactOn irqs io inbound i) := by
  refine (Tenured.load _).bind fun _ => Tenured.ite ?_ (Tenured.pure _)
  refine (CNFCController.receive_tenured _ _ _ _).bind fun ⟨received, message, _⟩ => ?_
  refine Tenured.ite ((setFaceColor_tenured _ _ _).bind fun _ => ?_) (Tenured.pure _)
  refine (log_tenured _ (onInstance_tenured (Tenured.pure _))).bind fun _ held => ?_
  exact (lock_keeps .uart).seq fun _ => (print_tenured _ _).seq fun _ => unlock_keeps (by decide)

theorem nfcReact_tenured (io inbound : Nat → Buffer) : Tenured (nfcReact io inbound) := by
  intro held
  refine lockInstance_keeps.seq fun _ => ?_
  refine (onInstance_tenured synchronizeInterrupts_tenured _).seq fun _ => ?_
  refine (onInstance_tenured hasInterrupts_tenured _).seq fun some => .ite (fun _ => ?_) fun _ => ?_
  · refine (onInstance_tenured (Tenured.load _) _).seq fun irqs => ?_
    refine (onInstance_tenured (clearInterrupts_tenured _) _).seq fun _ => unlockInstance_keeps.seq fun _ => ?_
    exact printLocked_tenured _ (Tenured.forM (fun i => reactOn_tenured _ _ _ _) _) held
  · exact unlockInstance_keeps

end Main

end

/-! ## Every operation -/

/-- Operation by operation: every one of them ends the tenures it begins. -/
theorem Operation.body_tenured (op : Operation) : Tenured op.body := by
  have hdrop : ∀ {α : Type} {p : Code α}, Tenured p → Tenured (dropResult p) :=
    fun h => h.bind fun _ => Tenured.pure _
  cases op with
  | ledInit port => exact CLEDController.init_tenured _
  | setMode port led mode => exact CLEDController.setMode_tenured _ _ _
  | setBrightness port led val => exact CLEDController.setBrightness_tenured _ _ _
  | setColor port ledPack red green blue => exact CLEDController.setColor_tenured _ _ _ _ _
  | setBlinkRate port period dutyCycle => exact CLEDController.setBlinkRate_tenured _ _ _
  | setAllColorsOnFace port red green blue => exact CLEDController.setAllColorsOnFace_tenured _ _ _ _
  | setAllModesOnFace port mode => exact CLEDController.setAllModesOnFace_tenured _ _
  | nfcInit port io => exact hdrop (CNFCController.init_tenured _ _)
  | send port msg len io => exact hdrop (CNFCController.send_tenured _ _ _ _)
  | receive port msg len io => exact hdrop (CNFCController.receive_tenured _ _ _ _)
  | hasExternalField port io => exact hdrop (CNFCController.hasExternalField_tenured _ _)
  | powerDown port io => exact hdrop (CNFCController.powerDown_tenured _ _)
  | probe port io => exact hdrop (CNFCController.probe_tenured _ _)
  | configureSAM port mode timeout useIrq io =>
      exact hdrop (CNFCController.configureSAM_tenured _ _ _ _ _)
  | p2pInitiatorInit port io => exact hdrop (CNFCController.p2pInitiatorInit_tenured _ _)
  | p2pTargetInit port io => exact hdrop (CNFCController.p2pTargetInit_tenured _ _)
  | p2pInitiatorTxRx port tx txLen rx rxLen io =>
      exact hdrop (CNFCController.p2pInitiatorTxRx_tenured _ _ _ _ _ _)
  | p2pTargetTxRx port tx txLen rx rxLen io =>
      exact hdrop (CNFCController.p2pTargetTxRx_tenured _ _ _ _ _ _)
  | enablePort port | disablePort port =>
      exact CPortController.onInstance_tenured (CPortController.updateOutput_tenured _)
  | serviceRoutine => exact Tenured.store _ _
  | initPortController => exact Main.initPortController_tenured
  | initLEDs => exact Main.initLEDs_tenured
  | setFaceColor color val port => exact Main.setFaceColor_tenured _ _ _
  | variateLEDsOnPort port => exact Main.variateLEDsOnPort_tenured _
  | testAccelerometer => exact Main.testAccelerometer_tenured
  | dummy5 => exact Main.dummy5_tenured
  | initNFC io => exact Main.initNFC_tenured _
  | nfcTransmit io => exact Main.nfcTransmit_tenured _
  | nfcReact io inbound => exact Main.nfcReact_tenured _ _
  | log msg1 msg2 => exact Main.log_tenured _ (Tenured.pure _)

/-! ## Every reachable state

The tasks start with the bus at rest, and `tenures` is kept by every operation; the rest is the run rule
for lock invariants. -/

section

variable {ι : Type} [DecidableEq ι] {c : Tasks ι Var Val Lock Event}

/-- The tasks are about to run, and `CTWController` has been constructed. -/
def Constructed (c : Tasks ι Var Val Lock Event) : Prop :=
  c.Initial ∧ c.vars .state = twStateReady ∧ c.vars .inRepStart = false

/-- The operations of `main.cpp` keep the invariant, and the stores of the hardware do not touch it. -/
theorem tenures_keeping : Tasks.Keeping tenures Idle Operation.body volatile where
  disciplined op := op.body_idle (Or.inl trivial)
  invariant op := (op.body_tenured []).pre fun _ _ _ => trivial
  device _ hx := volatile_shared True hx
  about x hx := by
    cases x with
    | state | sendStop | inRepStart => exact absurd hx (by simp [volatile])
    | _ => rfl

omit [DecidableEq ι] in
/-- It holds when the tasks are about to run. -/
theorem Constructed.keep (h : Constructed c) : c.Initial ∧ ∀ l, tenures.free l c.vars := by
  obtain ⟨hinit, hstate, hkept⟩ := h
  refine ⟨hinit, fun l => ?_⟩
  cases l with
  | tw => exact ⟨hstate, fun h => absurd (hkept.symm.trans h) Bool.false_ne_true⟩
  | uart | port => trivial

/-- Whatever the bus answers: while no task has taken the TW controller, no transaction is going on and no
START has been sent ahead. -/
theorem bus_released (h : Reachable Constructed (tasksStep Operation.body volatile) c)
    (hfree : ∀ t, ¬ Taken c.locks t .tw) :
    c.vars .state = twStateReady ∧ c.vars .inRepStart = false := by
  obtain ⟨owner, habs, hsound, hkept⟩ :=
    Tasks.reachable_keep tenures_keeping rfl (fun _ hc => hc.keep) h
  have hquiet : Quiet false c.vars := hkept.free .tw (habs.owner_eq_none hfree)
  exact ⟨hquiet.ready, Bool.eq_false_iff.mpr fun h => Bool.false_ne_true (hquiet.kept h)⟩

/-- Every byte is acknowledged. -/
def acknowledgedTasks : Tasks Bool Var Val Lock Event :=
  { idleTasks with vars := Function.update atRest .twsr 0x28 }

/-- The controller is as its constructor leaves it. -/
theorem acknowledgedTasks_constructed : Constructed acknowledgedTasks :=
  ⟨idleTasks_initial, rfl, rfl⟩

/-- A register is asked for and the bus is kept; then arbitration is lost. -/
theorem bus_released_lost :
    ∃ c c' : Tasks Bool Var Val Lock Event,
      run (tasksStep Operation.body volatile) acknowledgedTasks (alone (.setMode .east 0 .on) 75) = some c ∧
      c.vars .inRepStart = true ∧
      run (tasksStep Operation.body volatile) c (.device .twsr 0x38 :: List.replicate 36 (.advance false)) =
        some c' ∧ c'.vars .state = twStateReady ∧ c'.vars .inRepStart = false := by
  have hrun : ((run (tasksStep Operation.body volatile) acknowledgedTasks
      (alone (.setMode .east 0 .on) 75)).bind fun c =>
        (run (tasksStep Operation.body volatile) c
          (.device .twsr 0x38 :: List.replicate 36 (.advance false))).map fun c' =>
            (c.vars .inRepStart,
              decide (∀ t : Bool, ¬ (c'.locks.holds t .tw = true ∨ c'.locks.phase t = .clear .tw)))) =
        some (true, true) := by decide +kernel
  obtain ⟨c, hc, hmap⟩ := Option.bind_eq_some_iff.mp hrun
  obtain ⟨c', hc', hstate⟩ := Option.map_eq_some_iff.mp hmap
  obtain ⟨hkept, hfree⟩ := Prod.mk.inj hstate
  replace hfree := of_decide_eq_true hfree
  have hreach : Reachable Constructed (tasksStep Operation.body volatile) c' :=
    Reachable.run ⟨_, _, acknowledgedTasks_constructed, hc⟩ hc'
  exact ⟨c, c', hc, hkept, hc', bus_released hreach hfree⟩

end

end SmartblocksOs.Board
