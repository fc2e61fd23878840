/-
# SmartblocksOs.Foundation.RegisterFile -- a slave that answers for its registers

A `RegisterSlave` tells what a slave makes of what it sees. Here it is also said what it answers: it
acknowledges everything, and a byte that is read from it is what the register holds that was selected
last (`Served`). Of such a slave a transmission writes the registers that it says
(`transmission_served`), and a reception returns the register that was asked for (`reception_served`).

The slave is one of those devices that keep their state in a file of byte registers: the first byte of a
transmission selects a register, a second one is stored there, and a reception sends the register
selected. LED drivers, port expanders and sensors are of this kind. Nothing here depends on what the
registers mean.

A bus may fail at any byte, so that nothing can be said of a transaction without a condition on how it
went. `Served` is that condition, in terms of the events on the bus: the addressed slave has acknowledged
everything, and nothing has been cut off. Under it the transactions of the master compose to operations on
the registers: `Changes` for what happens to them, `Answers` for what the master has learnt as well.
-/
import SmartblocksOs.Foundation.RegisterSlave
import SmartblocksOs.Foundation.Transmissions

namespace SmartblocksOs.Foundation.TwoWire

/-! ## What the slave answers -/

/-- A `RegisterSlave` together with what it answers by. -/
structure RegisterFile extends RegisterSlave where
  /-- The register that was selected last. -/
  selected : BitVec 8
  /-- The slave has been called to send. -/
  reading : Bool

namespace RegisterFile

section

variable (slaw slar : BitVec 8)

/-- What the slave that answers to `slaw` and `slar` makes of an event on the bus. -/
def step (f : RegisterFile) (e : BusEvent) : RegisterFile where
  toRegisterSlave := f.toRegisterSlave.step slaw e
  selected :=
    match e, f.listening with
    | .sent b true, .pointer => b
    | _, _ => f.selected
  reading :=
    match e with
    | .address a acked => decide (a = slar) && acked
    | .received _ _ => f.reading
    | _ => false

/-- The answer is the one that a slave in this state gives. -/
def Serves (f : RegisterFile) : BusEvent → Prop
  | .address _ acked | .sent _ acked => acked = true
  | .received b _ => f.reading = true → b = f.registers f.selected
  | .cut _ => False
  | .start | .repStart | .stop => True

instance (f : RegisterFile) : ∀ e, Decidable (f.Serves e)
  | .address _ acked | .sent _ acked => inferInstanceAs (Decidable (acked = true))
  | .received _ _ => inferInstanceAs (Decidable (_ → _))
  | .cut _ => isFalse id
  | .start | .repStart | .stop => isTrue trivial

/-- The slave after these events. -/
def after (f : RegisterFile) (events : List BusEvent) : RegisterFile :=
  events.foldl (step slaw slar) f

/-- The slave has answered for its registers all the time. -/
def Served : RegisterFile → List BusEvent → Prop
  | _, [] => True
  | f, e :: events => f.Serves e ∧ Served (step slaw slar f e) events

instance Served.decidable : ∀ f events, Decidable (Served slaw slar f events)
  | _, [] => isTrue trivial
  | f, e :: events =>
      have := Served.decidable (step slaw slar f e) events
      inferInstanceAs (Decidable (_ ∧ _))

end

variable {slaw slar : BitVec 8} {f : RegisterFile} {events events' : List BusEvent}

@[simp] theorem after_nil : after slaw slar f [] = f := rfl

theorem after_cons (e : BusEvent) :
    after slaw slar f (e :: events) = after slaw slar (step slaw slar f e) events := rfl

/-- The events one after the other. -/
theorem after_append :
    after slaw slar f (events ++ events') = after slaw slar (after slaw slar f events) events' :=
  List.foldl_append ..

/-- The slave has answered for its registers from beginning to end if it has before and behind any point
in between. -/
theorem served_append : Served slaw slar f (events ++ events') ↔
    Served slaw slar f events ∧ Served slaw slar (after slaw slar f events) events' := by
  induction events generalizing f with
  | nil => simp [Served]
  | cons e events ih =>
      rw [List.cons_append, Served, Served, ih, and_assoc]
      rfl

/-- The slave sees everything that a `RegisterSlave` sees. -/
theorem after_toRegisterSlave : (after slaw slar f events).toRegisterSlave =
    events.foldl (RegisterSlave.step slaw) f.toRegisterSlave := by
  induction events generalizing f with
  | nil => rfl
  | cons e events ih => exact ih

/-! ## Transmissions -/

/-- The registers are the same, and so is the selection. -/
def Same (f f' : RegisterFile) : Prop := f'.registers = f.registers ∧ f'.selected = f.selected

/-- What is the same stays the same. -/
theorem Same.trans {f' f'' : RegisterFile} (h : Same f f') (h' : Same f' f'') : Same f f'' :=
  ⟨h'.1.trans h.1, h'.2.trans h.2⟩

/-- STARTs and STOPs neither select nor write. -/
theorem framing_same (h : Framing events) : Same f (after slaw slar f events) := by
  induction events generalizing f with
  | nil => exact ⟨rfl, rfl⟩
  | cons e events ih =>
      have hstep : Same f (step slaw slar f e) := by
        rcases h e List.mem_cons_self with rfl | rfl | rfl
        · exact ⟨rfl, rfl⟩
        · exact ⟨rfl, rfl⟩
        · exact ⟨rfl, rfl⟩
      exact hstep.trans (ih fun e' he' => h e' (List.mem_cons_of_mem e he'))

/-- The head of a transaction selects nothing. -/
theorem address_same (a : BitVec 8) (acked : Bool) : Same f (step slaw slar f (.address a acked)) :=
  ⟨rfl, rfl⟩

/-- Bytes that are for another slave. -/
theorem taken_deaf {bytes : List (BitVec 8)} (hdeaf : f.listening = .deaf) :
    Same f (after slaw slar f (taken bytes)) := by
  induction bytes generalizing f with
  | nil => exact ⟨rfl, rfl⟩
  | cons b bytes ih =>
      have hslave : (step slaw slar f (.sent b true)).toRegisterSlave = f.toRegisterSlave :=
        RegisterSlave.accept_deaf _ hdeaf b
      have hstep : Same f (step slaw slar f (.sent b true)) := by
        refine ⟨congrArg RegisterSlave.registers hslave, ?_⟩
        simp only [step, hdeaf]
      exact hstep.trans (ih ((congrArg RegisterSlave.listening hslave).trans hdeaf))

/-- What it takes is what a `RegisterSlave` takes. -/
theorem taken_toRegisterSlave {bytes : List (BitVec 8)} :
    (after slaw slar f (taken bytes)).toRegisterSlave =
      bytes.foldl RegisterSlave.accept f.toRegisterSlave := by
  rw [after_toRegisterSlave, taken, List.foldl_map]
  rfl

/-- Once a register is selected it stays so. -/
theorem taken_selected {bytes : List (BitVec 8)} (hlistening : f.listening ≠ .pointer) :
    (after slaw slar f (taken bytes)).selected = f.selected := by
  induction bytes generalizing f with
  | nil => rfl
  | cons b bytes ih =>
      have hnext : (step slaw slar f (.sent b true)).listening ≠ .pointer := by
        show (f.toRegisterSlave.accept b).listening ≠ .pointer
        unfold RegisterSlave.accept
        split
        · exact hlistening
        · exact Listening.noConfusion
        · exact hlistening
      have hstep : (step slaw slar f (.sent b true)).selected = f.selected := by
        cases hl : f.listening with
        | pointer => exact absurd hl hlistening
        | deaf | register addr => simp only [step, hl]
      exact (ih hnext).trans hstep

/-- A transmission that is served goes through. -/
theorem served_sends {slarw : BitVec 8} {bytes : List (BitVec 8)} {ending : Ending}
    (h : Sends slarw bytes ending events) (hserved : Served slaw slar f events) :
    ending = .done ∧ events = .address slarw true :: taken bytes := by
  cases h with
  | refused => exact absurd hserved.1 Bool.false_ne_true
  | cut c => exact hserved.1.elim
  | called hdelivered =>
      cases hdelivered with
      | done => exact ⟨rfl, rfl⟩
      | refused pre post b _ => exact absurd (served_append.mp hserved.2).2.1 Bool.false_ne_true
      | cut pre post b c _ => exact (served_append.mp hserved.2).2.1.elim

/-- After its address the slave takes the first byte for a register, and writes the others to it. -/
theorem called_after (slaw slar : BitVec 8) (f : RegisterFile) (bytes : List (BitVec 8)) :
    (after slaw slar f (.address slaw true :: taken bytes)).registers =
        (bytes.foldl RegisterSlave.accept ⟨f.registers, .pointer⟩).registers ∧
      (after slaw slar f (.address slaw true :: taken bytes)).selected = bytes.headD f.selected := by
  have hslave : (step slaw slar f (.address slaw true)).toRegisterSlave = ⟨f.registers, .pointer⟩ := by
    show (⟨f.registers, if slaw = slaw ∧ true = true then .pointer else .deaf⟩ : RegisterSlave) = _
    rw [if_pos ⟨rfl, rfl⟩]
  have hlistening : (step slaw slar f (.address slaw true)).listening = .pointer :=
    congrArg RegisterSlave.listening hslave
  constructor
  · rw [after_cons, taken_toRegisterSlave, hslave]
  · cases bytes with
    | nil => rfl
    | cons b bytes =>
        show (after slaw slar (step slaw slar (step slaw slar f (.address slaw true)) (.sent b true))
          (taken bytes)).selected = b
        rw [taken_selected]
        · show (match BusEvent.sent b true, (step slaw slar f (.address slaw true)).listening with
            | .sent b true, .pointer => b
            | _, _ => (step slaw slar f (.address slaw true)).selected) = b
          rw [hlistening]
        · show ((step slaw slar f (.address slaw true)).toRegisterSlave.accept b).listening ≠ .pointer
          rw [hslave]
          exact Listening.noConfusion

section

variable {held : Bool} {h : Hardware}

/-- A transmission to the slave, when it is served. -/
theorem transmission_served (slaw slar : BitVec 8) (hheld : h.Between held) (bytes : List (BitVec 8))
    (sendStop : Bool) :
    ∃ events, (h.transmission slaw bytes sendStop).2.trace = h.trace ++ events ∧
      ∀ f, Served slaw slar f events → (h.transmission slaw bytes sendStop).1 = .done ∧
        (after slaw slar f events).registers =
            (bytes.foldl RegisterSlave.accept ⟨f.registers, .pointer⟩).registers ∧
          (after slaw slar f events).selected = bytes.headD f.selected := by
  obtain ⟨pre, events, post, hpre, hpost, hsends, htrace⟩ := h.transmission_sends hheld slaw bytes sendStop
  refine ⟨_, htrace, fun f hserved => ?_⟩
  obtain ⟨hserved, -⟩ := served_append.mp hserved
  obtain ⟨-, hserved⟩ := served_append.mp hserved
  obtain ⟨hending, rfl⟩ := served_sends hsends hserved
  have hbefore : Same f (after slaw slar f pre) := framing_same hpre
  obtain ⟨hregisters, hselected⟩ := called_after slaw slar (after slaw slar f pre) bytes
  have hbehind (f : RegisterFile) : Same f (after slaw slar f post) := framing_same hpost
  rw [after_append, after_append]
  refine ⟨hending, ?_, ?_⟩
  · rw [(hbehind _).1, hregisters, hbefore.1]
  · rw [(hbehind _).2, hselected, hbefore.2]

/-- A transmission to another slave leaves it as it is. -/
theorem transmission_other {slarw : BitVec 8} (hne : slarw ≠ slaw) (hheld : h.Between held)
    (bytes : List (BitVec 8)) (sendStop : Bool) :
    ∃ events, (h.transmission slarw bytes sendStop).2.trace = h.trace ++ events ∧
      ∀ f, Served slaw slar f events → Same f (after slaw slar f events) := by
  obtain ⟨pre, events, post, hpre, hpost, hsends, htrace⟩ := h.transmission_sends hheld slarw bytes sendStop
  refine ⟨_, htrace, fun f hserved => ?_⟩
  obtain ⟨hserved, -⟩ := served_append.mp hserved
  obtain ⟨-, hserved⟩ := served_append.mp hserved
  obtain ⟨-, rfl⟩ := served_sends hsends hserved
  have hbefore : Same f (after slaw slar f pre) := framing_same hpre
  have hbehind (f : RegisterFile) : Same f (after slaw slar f post) := framing_same hpost
  rw [after_append, after_append, after_cons]
  refine (hbefore.trans ?_).trans (hbehind _)
  refine (address_same slarw true).trans (taken_deaf ?_)
  show (if slarw = slaw ∧ true = true then Listening.pointer else .deaf) = .deaf
  rw [if_neg fun h => hne h.1]

/-! ## Receptions -/

/-- Every byte that is read is what the selected register holds. -/
theorem receiveBytes_served (slaw slar : BitVec 8) (n : Nat) (h : Hardware) :
    ∃ events, (h.receiveBytes n).2.2.trace = h.trace ++ events ∧
      ∀ f, f.reading = true → Served slaw slar f events →
        (h.receiveBytes n).1 = List.replicate n (f.registers f.selected) ∧
          Same f (after slaw slar f events) := by
  induction n generalizing h with
  | zero => exact ⟨[], (List.append_nil _).symm, fun f _ _ => ⟨rfl, rfl, rfl⟩⟩
  | succ n ih =>
      unfold Hardware.receiveBytes Hardware.receive
      cases hcut : (h.answers 0).cut with
      | some c => exact ⟨[.cut c], rfl, fun f _ hserved => hserved.1.elim⟩
      | none =>
          let e : BusEvent := .received (h.answers 0).data (decide (0 < n))
          obtain ⟨events, htrace, hrest⟩ := ih (h.next h.phase e)
          refine ⟨e :: events, htrace.trans ?_, fun f hreading hserved => ?_⟩
          · simp only [Hardware.next, List.append_assoc, List.cons_append, List.nil_append]
          · have hsame : Same f (step slaw slar f e) := ⟨rfl, rfl⟩
            obtain ⟨hbytes, hafter⟩ := hrest (step slaw slar f e) hreading hserved.2
            refine ⟨?_, hsame.trans hafter⟩
            show (h.answers 0).data :: ((h.next h.phase e).receiveBytes n).1 = _
            rw [hbytes, hserved.1 hreading]
            rfl

/-- A reception brings the register that was selected last, once for each byte, and changes nothing. -/
theorem reception_served (slaw slar : BitVec 8) (hheld : h.Between held) (n : Nat) (sendStop : Bool) :
    ∃ events, (h.reception slar n sendStop).2.2.trace = h.trace ++ events ∧
      ∀ f, Served slaw slar f events →
        (h.reception slar n sendStop).1 = List.replicate n (f.registers f.selected) ∧
          Same f (after slaw slar f events) := by
  have htraced := Hardware.call_traced hheld slar
  unfold Hardware.reception Hardware.fetch
  rcases hcall : h.call slar with ⟨acked | c, h'⟩
  · rw [hcall] at htraced
    obtain ⟨hphase, htrace⟩ := htraced
    cases acked with
    -- a slave that serves the trace acknowledges its address
    | false =>
        obtain ⟨post, hpost, -⟩ := h'.finish_trace sendStop .addressNack (by simp)
        refine ⟨opening held ++ [.address slar false] ++ post, ?_, fun f hserved => ?_⟩
        · simp only [hpost, htrace, List.append_assoc]
        · obtain ⟨hserved, -⟩ := served_append.mp hserved
          exact absurd (served_append.mp hserved).2.1 Bool.false_ne_true
    -- The address makes the slave send from the register selected; every byte is that register.
    | true =>
        obtain ⟨events, hevents, hserves⟩ := receiveBytes_served slaw slar n h'
        obtain ⟨data, -, hpassed⟩ := Hardware.receiveBytes_passed n h'
        have hdone : (h'.receiveBytes n).2.1 = .done → (h'.receiveBytes n).2.2.phase ≠ .idle := by
          intro hdone
          rw [hdone] at hpassed
          exact hpassed.1 ▸ hphase
        obtain ⟨post, hpost, hframing⟩ := (h'.receiveBytes n).2.2.finish_trace sendStop _ hdone
        refine ⟨opening held ++ [.address slar true] ++ events ++ post, ?_, fun f hserved => ?_⟩
        · simp only [hpost, hevents, htrace, List.append_assoc]
        · obtain ⟨hserved, -⟩ := served_append.mp hserved
          obtain ⟨-, hserved⟩ := served_append.mp hserved
          have hcalled : Same f (after slaw slar f (opening held ++ [.address slar true])) := by
            rw [after_append]
            exact (framing_same (framing_opening held)).trans (address_same slar true)
          have hreading : (after slaw slar f (opening held ++ [.address slar true])).reading = true := by
            rw [after_append]
            show (decide (slar = slar) && true) = true
            simp
          obtain ⟨hbytes, hsame⟩ := hserves _ hreading hserved
          rw [after_append, after_append]
          refine ⟨?_, (hcalled.trans hsame).trans (framing_same hframing)⟩
          show (h'.receiveBytes n).1 = _
          rw [hbytes, hcalled.1, hcalled.2]
  -- a slave that serves the trace is not cut off
  · rw [hcall] at htraced
    obtain ⟨-, pre, -, htrace⟩ := htraced
    obtain ⟨post, hpost, -⟩ := h'.finish_trace sendStop (.cut c) (by simp)
    refine ⟨pre ++ [.cut c] ++ post, ?_, fun f hserved => ?_⟩
    · simp only [hpost, htrace, List.append_assoc]
    · obtain ⟨hserved, -⟩ := served_append.mp hserved
      exact (served_append.mp hserved).2.1.elim

/-! ## What becomes of the registers

The relation is between two states of the bus hardware, for every content of the registers at once. In
this way a sequence of accesses composes by composing functions, and no state of the slave has to be
carried along. -/

/-- Between `h` and `h'` the bus has changed the registers by `g`, whatever they were. -/
def Changes (slaw slar : BitVec 8) (g : (BitVec 8 → BitVec 8) → BitVec 8 → BitVec 8)
    (h h' : Hardware) : Prop :=
  ∃ events, h'.trace = h.trace ++ events ∧
    ∀ f, Served slaw slar f events → (after slaw slar f events).registers = g f.registers

/-- Doing nothing changes nothing. -/
theorem Changes.refl (h : Hardware) : Changes slaw slar id h h :=
  ⟨[], (List.append_nil _).symm, fun _ _ => rfl⟩

theorem Changes.trans {g g' : (BitVec 8 → BitVec 8) → BitVec 8 → BitVec 8} {h h' h'' : Hardware}
    (hc : Changes slaw slar g h h') (hc' : Changes slaw slar g' h' h'') :
    Changes slaw slar (g' ∘ g) h h'' := by
  obtain ⟨events, htrace, hregisters⟩ := hc
  obtain ⟨events', htrace', hregisters'⟩ := hc'
  refine ⟨events ++ events', by rw [htrace', htrace, List.append_assoc], fun f hserved => ?_⟩
  obtain ⟨hserved, hserved'⟩ := served_append.mp hserved
  rw [after_append, hregisters' _ hserved', hregisters f hserved]
  rfl

/-- A transmission to another slave changes no register. -/
theorem changes_other {slarw : BitVec 8} (hne : slarw ≠ slaw) (hheld : h.Between held)
    (bytes : List (BitVec 8)) (sendStop : Bool) :
    Changes slaw slar id h (h.transmission slarw bytes sendStop).2 := by
  obtain ⟨events, htrace, hsame⟩ := transmission_other hne hheld bytes sendStop
  exact ⟨events, htrace, fun f hserved => (hsame f hserved).1⟩

/-- An access to a register: it is written, or read and written back. -/
inductive Access where
  | write (addr v : BitVec 8)
  | modify (addr : BitVec 8) (change : BitVec 8 → BitVec 8)

namespace Access

/-- What is to become of the registers. -/
def store : Access → (BitVec 8 → BitVec 8) → BitVec 8 → BitVec 8
  | write addr v, registers => Function.update registers addr v
  | modify addr change, registers => Function.update registers addr (change (registers addr))

/-- What the master does for it. When it reads nothing it takes the `filler`. -/
def bus (slaw slar filler : BitVec 8) : Access → Hardware → Hardware
  | write addr v, h => (h.transmission slaw [addr, v] true).2
  | modify addr change, h =>
      let read := (h.transmission slaw [addr] false).2.reception slar 1 true
      (read.2.2.transmission slaw [addr, change (read.1.headD filler)] true).2

/-- A transmission of a register number and a value writes that register. -/
theorem changes_write (hheld : h.Between held) (addr v : BitVec 8) :
    Changes slaw slar (store (.write addr v)) h (h.transmission slaw [addr, v] true).2 := by
  obtain ⟨events, htrace, hwritten⟩ := transmission_served slaw slar hheld [addr, v] true
  exact ⟨events, htrace, fun f hserved => (hwritten f hserved).2.1⟩

/-- What is read is what the register holds. -/
theorem changes_modify (hheld : h.Between held) (addr filler : BitVec 8)
    (change : BitVec 8 → BitVec 8) :
    Changes slaw slar (store (.modify addr change)) h (bus slaw slar filler (.modify addr change) h) := by
  let read := (h.transmission slaw [addr] false).2.reception slar 1 true
  obtain ⟨-, -, -, hheld₁⟩ := h.transmission_traced hheld slaw [addr] false
  obtain ⟨-, -, -, hheld₂⟩ := (h.transmission slaw [addr] false).2.reception_traced hheld₁ slar 1 true
  obtain ⟨selects, hselects, hselected⟩ := transmission_served slaw slar hheld [addr] false
  obtain ⟨reads, hreads, hread⟩ := reception_served slaw slar hheld₁ 1 true
  obtain ⟨writes, hwrites, hwritten⟩ := transmission_served slaw slar hheld₂
    [addr, change (read.1.headD filler)] true
  refine ⟨selects ++ reads ++ writes, ?_, fun f hserved => ?_⟩
  · rw [hreads, hselects] at hwrites
    rw [bus, hwrites]
    simp only [List.append_assoc]
  · obtain ⟨hserved, hwrite⟩ := served_append.mp hserved
    obtain ⟨hselect, hserved⟩ := served_append.mp hserved
    obtain ⟨-, hregisters, hselection⟩ := hselected f hselect
    obtain ⟨hbytes, hsame⟩ := hread _ hserved
    obtain ⟨-, hafter, -⟩ := hwritten _ hwrite
    have hvalue : read.1.headD filler = f.registers addr := by
      rw [hbytes, hselection, hregisters]
      rfl
    rw [after_append, hafter, after_append, hsame.1, hregisters, hvalue]
    rfl

/-- After an access the bus is between two transactions again. -/
theorem bus_between (slaw slar filler : BitVec 8) (hheld : h.Between held) (a : Access) :
    ∃ held', (a.bus slaw slar filler h).Between held' := by
  cases a with
  | write addr v =>
      obtain ⟨-, -, -, hheld'⟩ := h.transmission_traced hheld slaw [addr, v] true
      exact ⟨_, hheld'⟩
  | modify addr change =>
      obtain ⟨-, -, -, hheld₁⟩ := h.transmission_traced hheld slaw [addr] false
      obtain ⟨-, -, -, hheld₂⟩ := (h.transmission slaw [addr] false).2.reception_traced hheld₁ slar 1 true
      obtain ⟨-, -, -, hheld'⟩ := Hardware.transmission_traced hheld₂ slaw
        [addr, change (((h.transmission slaw [addr] false).2.reception slar 1 true).1.headD filler)] true
      exact ⟨_, hheld'⟩

/-- An access on the bus changes the registers as it says. -/
theorem bus_changes (slaw slar filler : BitVec 8) (hheld : h.Between held) (a : Access) :
    Changes slaw slar a.store h (a.bus slaw slar filler h) := by
  cases a with
  | write addr v => exact changes_write hheld addr v
  | modify addr change => exact changes_modify hheld addr filler change

/-! ### One access after another

Lists of accesses, as a loop produces them. On both sides the list is folded, so that the proof is an
induction whose step is one access. -/

/-- The stores one after the other; reads change nothing. -/
def storeAll (accesses : List Access) (registers : BitVec 8 → BitVec 8) : BitVec 8 → BitVec 8 :=
  accesses.foldl (fun registers a => a.store registers) registers

/-- The accesses one after the other on the bus. -/
def busAll (slaw slar filler : BitVec 8) (accesses : List Access) (h : Hardware) : Hardware :=
  accesses.foldl (fun h a => a.bus slaw slar filler h) h

/-- The one list after the other. -/
theorem storeAll_append (accesses accesses' : List Access) (registers : BitVec 8 → BitVec 8) :
    storeAll (accesses ++ accesses') registers = storeAll accesses' (storeAll accesses registers) :=
  List.foldl_append ..

/-- The one list after the other, on the bus. -/
theorem busAll_append (filler : BitVec 8) (accesses accesses' : List Access) (h : Hardware) :
    busAll slaw slar filler (accesses ++ accesses') h =
      busAll slaw slar filler accesses' (busAll slaw slar filler accesses h) :=
  List.foldl_append ..

/-- The registers become what the accesses are to make of them. -/
theorem busAll_changes (slaw slar filler : BitVec 8) (hheld : h.Between held)
    (accesses : List Access) :
    Changes slaw slar (storeAll accesses) h (busAll slaw slar filler accesses h) := by
  induction accesses generalizing held h with
  | nil => exact Changes.refl h
  | cons a accesses ih =>
      obtain ⟨held', hheld'⟩ := bus_between slaw slar filler hheld a
      exact (bus_changes slaw slar filler hheld a).trans (ih hheld')

end Access

/-! ## What the master learns

A computation in the state monad of the registers is the specification of a master that also reads: its
result is what the master has got, and its effect what has become of the registers. -/

/-- Between `h` and `h'` the master has learnt `a` and the registers have changed as in the computation
`spec`, whatever they were. -/
def Answers (slaw slar : BitVec 8) {α : Type} (spec : StateM (BitVec 8 → BitVec 8) α) (a : α)
    (h h' : Hardware) : Prop :=
  ∃ events, h'.trace = h.trace ++ events ∧ ∀ f, Served slaw slar f events →
    spec.run f.registers = (a, (after slaw slar f events).registers)

section

variable {α β : Type} {h' h'' : Hardware}

/-- To return a value needs no bus. -/
theorem Answers.pure (a : α) (h : Hardware) : Answers slaw slar (Pure.pure a) a h h :=
  ⟨[], (List.append_nil _).symm, fun _ _ => rfl⟩

/-- Two programs that are answered, one after the other. -/
theorem Answers.bind {spec : StateM (BitVec 8 → BitVec 8) α} {next : α → StateM (BitVec 8 → BitVec 8) β}
    {a : α} {b : β} (ha : Answers slaw slar spec a h h') (hb : Answers slaw slar (next a) b h' h'') :
    Answers slaw slar (spec >>= next) b h h'' := by
  obtain ⟨events, htrace, hspec⟩ := ha
  obtain ⟨events', htrace', hnext⟩ := hb
  refine ⟨events ++ events', by rw [htrace', htrace, List.append_assoc], fun f hserved => ?_⟩
  obtain ⟨hserved, hserved'⟩ := served_append.mp hserved
  rw [StateT.run_bind, hspec f hserved, after_append]
  exact hnext _ hserved'

/-- A register is written. -/
theorem answers_write (hheld : h.Between held) (addr v : BitVec 8) :
    Answers slaw slar (modify fun registers => Function.update registers addr v) ()
      h (h.transmission slaw [addr, v] true).2 := by
  have hchanges : Changes slaw slar (Access.store (.write addr v)) h
      (h.transmission slaw [addr, v] true).2 := Access.changes_write hheld addr v
  obtain ⟨events, htrace, hregisters⟩ := hchanges
  refine ⟨events, htrace, fun f hserved => ?_⟩
  rw [hregisters f hserved]
  rfl

/-- A register is selected and read. When nothing is received the master takes the `filler`. -/
theorem answers_read (hheld : h.Between held) (addr filler : BitVec 8) :
    Answers slaw slar (get >>= fun registers => Pure.pure (registers addr))
      (((h.transmission slaw [addr] false).2.reception slar 1 true).1.headD filler) h
      ((h.transmission slaw [addr] false).2.reception slar 1 true).2.2 := by
  obtain ⟨-, -, -, hheld'⟩ := h.transmission_traced hheld slaw [addr] false
  obtain ⟨selects, hselects, hselected⟩ := transmission_served slaw slar hheld [addr] false
  obtain ⟨reads, hreads, hread⟩ := reception_served slaw slar hheld' 1 true
  refine ⟨selects ++ reads, by rw [hreads, hselects, List.append_assoc], fun f hserved => ?_⟩
  obtain ⟨hselect, hserved⟩ := served_append.mp hserved
  obtain ⟨-, hregisters, hselection⟩ := hselected f hselect
  obtain ⟨hbytes, hsame⟩ := hread _ hserved
  rw [hbytes, hselection, hregisters, after_append, hsame.1, hregisters]
  rfl

end

end

end RegisterFile

end SmartblocksOs.Foundation.TwoWire
