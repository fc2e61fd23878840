/-
# SmartblocksOs.Foundation.Receptions -- what a reception puts on the bus

A master that has asked for `n` bytes receives one after the other, until it has them all or the
transaction is cut off, and acknowledges all but the last of them. So what has been received is what there
has been on the bus, in the order in which the slave has sent it, and it is all of it unless the address was
refused or the transaction cut off (`reception_told`, `reception_data`).
-/
import SmartblocksOs.Foundation.Transmissions

namespace SmartblocksOs.Foundation.TwoWire

/-- The bytes that the master has received, each with its acknowledge. -/
def receivedOnBus (events : List BusEvent) : List (BitVec 8 × Bool) :=
  events.filterMap fun
    | .received b acked => some (b, acked)
    | _ => none

/-- Of `n` bytes all but the last are acknowledged. -/
def acknowledged (n : Nat) (bytes : List (BitVec 8)) : List (BitVec 8 × Bool) :=
  bytes.mapIdx fun i b => (b, decide (i + 1 < n))

/-- The slave is not there, or the transaction ends here for another reason. -/
def BusEvent.IsCut : BusEvent → Prop
  | .address _ acked => acked = false
  | .cut _ => True
  | _ => False

/-- A byte is acknowledged just when there is another one to come. -/
theorem acknowledged_cons (n : Nat) (b : BitVec 8) (bytes : List (BitVec 8)) :
    acknowledged (n + 1) (b :: bytes) = (b, decide (0 < n)) :: acknowledged n bytes := by
  simp [acknowledged]

/-- What is received is received piece by piece. -/
theorem receivedOnBus_append (events events' : List BusEvent) :
    receivedOnBus (events ++ events') = receivedOnBus events ++ receivedOnBus events' :=
  List.filterMap_append ..

/-- STARTs and STOPs bring no bytes. -/
theorem Framing.received {events : List BusEvent} (h : Framing events) : receivedOnBus events = [] := by
  apply List.filterMap_eq_nil_iff.mpr
  intro e he
  rcases h e he with rfl | rfl | rfl
  · rfl
  · rfl
  · rfl

/-- STARTs and STOPs are no cuts. -/
theorem Framing.not_isCut {events : List BusEvent} (h : Framing events) {e : BusEvent}
    (he : e ∈ events) : ¬ e.IsCut := by
  rcases h e he with rfl | rfl | rfl
  · exact id
  · exact id
  · exact id

/-- `bytes`, the first of `n` bytes that are received. -/
def arrivals (n : Nat) (bytes : List (BitVec 8)) : List BusEvent :=
  (acknowledged n bytes).map fun r => .received r.1 r.2

/-- One byte more, which is acknowledged unless it is the last. -/
theorem arrivals_cons (n : Nat) (b : BitVec 8) (bytes : List (BitVec 8)) :
    arrivals (n + 1) (b :: bytes) = .received b (decide (0 < n)) :: arrivals n bytes := by
  rw [arrivals, acknowledged_cons]
  rfl

/-- What arrives is what has been acknowledged on the bus. -/
@[simp] theorem receivedOnBus_arrivals (n : Nat) (bytes : List (BitVec 8)) :
    receivedOnBus (arrivals n bytes) = acknowledged n bytes := by
  simp [receivedOnBus, arrivals, List.filterMap_map]

/-- Bytes that arrive are no cuts. -/
theorem not_isCut_arrivals {n : Nat} {bytes : List (BitVec 8)} {e : BusEvent}
    (he : e ∈ arrivals n bytes) : ¬ e.IsCut := by
  obtain ⟨r, -, rfl⟩ := List.mem_map.mp he
  exact id

/-! ## The bytes

By induction on the number of bytes still to come; the last one is not acknowledged, which tells the slave
to let go of the bus. -/

/-- What `n` bytes leave on the bus that are received until the transaction is cut off. -/
inductive Collected (n : Nat) (bytes : List (BitVec 8)) : Ending → List BusEvent → Prop
  | done : bytes.length = n → Collected n bytes .done (arrivals n bytes)
  | cut (c : Cut) : bytes.length < n → Collected n bytes (.cut c) (arrivals n bytes ++ [.cut c])

/-- One more byte in front; it is not the last one, so it is acknowledged. -/
theorem Collected.cons {n : Nat} {bytes : List (BitVec 8)} {ending : Ending} {events : List BusEvent}
    (b : BitVec 8) (h : Collected n bytes ending events) :
    Collected (n + 1) (b :: bytes) ending (.received b (decide (0 < n)) :: events) := by
  cases h with
  | done hlength =>
      rw [← arrivals_cons]
      exact .done (congrArg (· + 1) hlength)
  | cut c hlength =>
      rw [← List.cons_append, ← arrivals_cons]
      exact .cut c (Nat.succ_lt_succ hlength)

namespace Hardware

/-- Receiving bytes adds their arrivals to the trace, and what cut them off, if anything has. -/
theorem receiveBytes_collected (n : Nat) (h : Hardware) :
    ∃ events, (h.receiveBytes n).2.2.trace = h.trace ++ events ∧
      Collected n (h.receiveBytes n).1 (h.receiveBytes n).2.1 events := by
  induction n generalizing h with
  | zero => exact ⟨[], (List.append_nil _).symm, .done rfl⟩
  | succ n ih =>
      unfold receiveBytes receive
      cases hcut : (h.answers 0).cut with
      | some c => exact ⟨[.cut c], rfl, .cut c (Nat.succ_pos n)⟩
      | none =>
          obtain ⟨events, htrace, hcollected⟩ :=
            ih (h.next h.phase (.received (h.answers 0).data (decide (0 < n))))
          refine ⟨.received (h.answers 0).data (decide (0 < n)) :: events, htrace.trans ?_,
            hcollected.cons _⟩
          simp only [next, List.append_assoc, List.cons_append, List.nil_append]

/-- The byte received is that of the next answer. -/
theorem receive_answers {h h' : Hardware} {acked acked' : Bool} {b : BitVec 8}
    (heq : h.receive acked = (b, .done acked', h')) :
    b = (h.answers 0).data ∧ h'.answers = fun i => h.answers (i + 1) := by
  unfold receive at heq
  split at heq
  · exact absurd (Prod.mk.inj (Prod.mk.inj heq).2).1 (by simp)
  · obtain ⟨hb, heq⟩ := Prod.mk.inj heq
    obtain ⟨-, rfl⟩ := Prod.mk.inj heq
    exact ⟨hb.symm, rfl⟩

/-- The bytes are those that the slave sends. -/
theorem receiveBytes_data (n : Nat) (h : Hardware) :
    (h.receiveBytes n).1 =
      (List.range (h.receiveBytes n).1.length).map fun i => (h.answers i).data := by
  induction n generalizing h with
  | zero => rfl
  | succ n ih =>
      rcases hreceive : h.receive (0 < n) with ⟨b, acked | c, h'⟩
      · rw [receiveBytes_done hreceive, List.length_cons, List.range_succ_eq_map, List.map_cons,
          List.map_map]
        obtain ⟨rfl, hanswers⟩ := receive_answers hreceive
        have hrest := ih h'
        rw [hanswers] at hrest
        exact congrArg _ hrest
      · rw [receiveBytes_cut hreceive]
        rfl

/-! ## The reception

With the address in front. A slave that does not answer to it sends nothing. -/

/-- How many answers the head of a transaction takes. -/
def headAnswers (held : Bool) : Nat := if held then 1 else 2

/-- An address uses up one answer. -/
theorem address_answers {h h' : Hardware} {slarw : BitVec 8} {r : Report}
    (heq : h.address slarw = (r, h')) : h'.answers = fun i => h.answers (i + 1) := by
  unfold address at heq
  split at heq
  · obtain ⟨-, rfl⟩ := Prod.mk.inj heq
    rfl
  · obtain ⟨-, rfl⟩ := Prod.mk.inj heq
    rfl

/-- To call a slave uses up one answer, or two when the bus has to be seized first. -/
theorem call_answers {held acked : Bool} {h h' : Hardware} (hheld : h.Between held)
    {slarw : BitVec 8} (heq : h.call slarw = (.done acked, h')) :
    h'.answers = fun i => h.answers (headAnswers held + i) := by
  unfold call seize at heq
  cases held with
  | true =>
      have hphase : h.phase = .started := hheld
      rw [if_neg (by rw [hphase]; simp)] at heq
      rw [address_answers heq]
      funext i
      exact congrArg h.answers (Nat.add_comm i 1)
  | false =>
      have hphase : h.phase = .idle := hheld
      rw [if_pos hphase] at heq
      unfold start at heq
      rw [if_pos hphase] at heq
      cases hcut : (h.answers 0).cut with
      | some c =>
          rw [hcut] at heq
          exact absurd (Prod.mk.inj heq).1 (by simp)
      | none =>
          rw [hcut] at heq
          rw [address_answers heq]
          funext i
          exact congrArg h.answers (show i + 1 + 1 = 2 + i by omega)

/-- The bytes received are the first that the slave sends. -/
theorem reception_data {held : Bool} {h : Hardware} (hheld : h.Between held) (slar : BitVec 8)
    (n : Nat) (sendStop : Bool) :
    (h.reception slar n sendStop).1 = (List.range (h.reception slar n sendStop).1.length).map
      fun i => (h.answers (headAnswers held + i)).data := by
  show (h.fetch slar n).1 = (List.range (h.fetch slar n).1.length).map _
  unfold fetch
  rcases hcall : h.call slar with ⟨acked | c, h'⟩
  · cases acked with
    | true =>
        have hdata := receiveBytes_data n h'
        rw [call_answers hheld hcall] at hdata
        exact hdata
    | false => rfl
  · rfl

end Hardware

/-- What a reception of `n` bytes from `slar` leaves on the bus, before its end. -/
inductive Fetches (slar : BitVec 8) (n : Nat) :
    List (BitVec 8) → Ending → List BusEvent → Prop
  | refused : Fetches slar n [] .addressNack [.address slar false]
  | cut (c : Cut) : Fetches slar n [] (.cut c) [.cut c]
  | called {bytes : List (BitVec 8)} {ending : Ending} {events : List BusEvent} :
      Collected n bytes ending events → Fetches slar n bytes ending (.address slar true :: events)

/-- A reception leaves what it fetches, between a START and a STOP or a repeated START. -/
theorem Hardware.reception_fetches {held : Bool} {h : Hardware} (hheld : h.Between held)
    (slar : BitVec 8) (n : Nat) (sendStop : Bool) :
    ∃ pre events post, Framing pre ∧ Framing post ∧
      Fetches slar n (h.reception slar n sendStop).1 (h.reception slar n sendStop).2.1 events ∧
      (h.reception slar n sendStop).2.2.trace = h.trace ++ (pre ++ events ++ post) := by
  have htraced := call_traced hheld slar
  unfold reception fetch
  rcases hcall : h.call slar with ⟨acked | c, h'⟩
  · rw [hcall] at htraced
    obtain ⟨hphase, htrace⟩ := htraced
    cases acked with
    -- The slave is there: its bytes follow the address, and the bus is closed behind them.
    | true =>
        obtain ⟨events, hevents, hcollected⟩ := receiveBytes_collected n h'
        obtain ⟨data, -, hpassed⟩ := receiveBytes_passed n h'
        have hdone : (h'.receiveBytes n).2.1 = .done → (h'.receiveBytes n).2.2.phase ≠ .idle := by
          intro hdone
          rw [hdone] at hpassed
          exact hpassed.1 ▸ hphase
        obtain ⟨post, hpost, hframing⟩ := (h'.receiveBytes n).2.2.finish_trace sendStop _ hdone
        refine ⟨opening held, _, post, framing_opening held, hframing, .called hcollected, ?_⟩
        simp only [hpost, hevents, htrace, List.append_assoc, List.cons_append, List.nil_append]
    -- nobody answers
    | false =>
        obtain ⟨post, hpost, hframing⟩ := h'.finish_trace sendStop .addressNack (by simp)
        refine ⟨opening held, _, post, framing_opening held, hframing, .refused, ?_⟩
        simp only [hpost, htrace, List.append_assoc]
  -- the call is cut: part of its opening may be on the bus
  · rw [hcall] at htraced
    obtain ⟨-, pre, hpre, htrace⟩ := htraced
    obtain ⟨post, hpost, hframing⟩ := h'.finish_trace sendStop (.cut c) (by simp)
    refine ⟨pre, _, post, framing_of_prefix (framing_opening held) hpre, hframing, .cut c, ?_⟩
    simp only [hpost, htrace, List.append_assoc]

/-! ## What can be told from the bus

The bytes received, with their acknowledges, are on the bus in the order in which they came; fewer than
asked for means that there is a cut or a refused address as well. -/

/-- What a reception of `n` bytes has brought, told from what there has been on the bus. -/
structure Brought (n : Nat) (bytes : List (BitVec 8)) (events : List BusEvent) : Prop where
  received : receivedOnBus events = acknowledged n bytes
  complete : (∀ e ∈ events, ¬ e.IsCut) → bytes.length = n
  short : 0 < n → (∃ e ∈ events, e.IsCut) → bytes.length < n

/-- A reception that fetches bytes has brought them. -/
theorem Fetches.brought {slar : BitVec 8} {n : Nat} {bytes : List (BitVec 8)} {ending : Ending}
    {events : List BusEvent} (h : Fetches slar n bytes ending events) : Brought n bytes events := by
  cases h with
  | refused => exact ⟨rfl, fun hnone => absurd rfl (hnone _ List.mem_cons_self), fun hn _ => hn⟩
  | cut c => exact ⟨rfl, fun hnone => absurd trivial (hnone _ List.mem_cons_self), fun hn _ => hn⟩
  | called hcollected =>
      cases hcollected with
      | done hlength =>
          refine ⟨receivedOnBus_arrivals n bytes, fun _ => hlength, ?_⟩
          rintro - ⟨e, he, hcut⟩
          rcases List.mem_cons.mp he with rfl | he
          · exact absurd hcut Bool.noConfusion
          · exact absurd hcut (not_isCut_arrivals he)
      | cut c hlength =>
          refine ⟨?_, fun hnone => ?_, fun _ _ => hlength⟩
          · show receivedOnBus (arrivals n bytes ++ [.cut c]) = _
            rw [receivedOnBus_append, receivedOnBus_arrivals]
            exact List.append_nil _
          · exact absurd trivial (hnone (.cut c) (by simp))

theorem Brought.framed {n : Nat} {bytes : List (BitVec 8)} {pre events post : List BusEvent}
    (h : Brought n bytes events) (hpre : Framing pre) (hpost : Framing post) :
    Brought n bytes (pre ++ events ++ post) := by
  refine ⟨?_, fun hnone => h.complete fun e he => hnone e (by simp [he]), ?_⟩
  · rw [receivedOnBus_append, receivedOnBus_append, hpre.received, hpost.received, List.nil_append,
      List.append_nil]
    exact h.received
  · rintro hn ⟨e, he, hcut⟩
    rcases List.mem_append.mp he with he | he
    · rcases List.mem_append.mp he with he | he
      · exact absurd hcut (hpre.not_isCut he)
      · exact h.short hn ⟨e, he, hcut⟩
    · exact absurd hcut (hpost.not_isCut he)

/-- What a reception leaves on the bus tells what it has brought. -/
theorem Hardware.reception_told {held : Bool} {h : Hardware} (hheld : h.Between held)
    (slar : BitVec 8) (n : Nat) (sendStop : Bool) :
    ∃ events, (h.reception slar n sendStop).2.2.trace = h.trace ++ events ∧
      Brought n (h.reception slar n sendStop).1 events := by
  obtain ⟨pre, events, post, hpre, hpost, hfetches, htrace⟩ :=
    h.reception_fetches hheld slar n sendStop
  exact ⟨_, htrace, hfetches.brought.framed hpre hpost⟩

/-! ## A bus on which everything is acknowledged -/

namespace Hardware.Obliging

variable {h : Hardware}

/-- What the bus has seen does not change how the slave answers. -/
theorem next (hh : h.Obliging) (phase : Phase) (e : BusEvent) : (h.next phase e).Obliging :=
  fun i => hh (i + 1)

/-- Nothing is lost with a START. -/
theorem start (hh : h.Obliging) : h.start.2.Obliging := by
  unfold Hardware.start
  split
  · split
    · exact hh.next _ _
    · exact hh.next _ _
  · exact hh

theorem address (hh : h.Obliging) (slarw : BitVec 8) : (h.address slarw).2.Obliging := by
  rw [address_obliging hh]
  exact hh.next _ _

/-- On an obliging bus a byte arrives, and it is acknowledged as the master says. -/
theorem receive (hh : h.Obliging) (acked : Bool) :
    h.receive acked = ((h.answers 0).data, .done acked,
      h.next h.phase (.received (h.answers 0).data acked)) := by
  unfold Hardware.receive
  rw [(hh 0).1]

theorem stop (hh : h.Obliging) : h.stop.Obliging := by
  unfold Hardware.stop
  split
  · exact hh
  · exact hh

theorem finish (hh : h.Obliging) (sendStop : Bool) (ending : Ending) :
    (h.finish sendStop ending).Obliging := by
  cases ending with
  | done =>
      cases sendStop with
      | true => exact hh.stop
      | false => exact hh.start
  | addressNack | dataNack | cut c => exact hh.stop

theorem seize (hh : h.Obliging) : h.seize.2.Obliging := by
  unfold Hardware.seize
  split
  · exact hh.start
  · exact hh

theorem call (hh : h.Obliging) (slarw : BitVec 8) : (h.call slarw).2.Obliging := by
  have hseize := hh.seize
  unfold Hardware.call
  rcases hs : h.seize with ⟨acked | c, h'⟩
  · rw [hs] at hseize
    exact hseize.address slarw
  · rw [hs] at hseize
    exact hseize

theorem sendBytes (hh : h.Obliging) (bytes : List (BitVec 8)) : (h.sendBytes bytes).2.Obliging := by
  obtain ⟨trace, heq⟩ := sendBytes_obliging bytes hh
  rw [heq]
  exact fun i => hh (i + bytes.length)

theorem receiveBytes (hh : h.Obliging) (n : Nat) : (h.receiveBytes n).2.2.Obliging := by
  induction n generalizing h with
  | zero => exact hh
  | succ n ih =>
      rw [receiveBytes_done (hh.receive _)]
      exact ih (hh.next _ _)

/-- After a transmission the bus is as obliging as before. -/
theorem transmission (hh : h.Obliging) (slarw : BitVec 8) (bytes : List (BitVec 8)) (sendStop : Bool) :
    (h.transmission slarw bytes sendStop).2.Obliging := by
  have hcall := hh.call slarw
  unfold Hardware.transmission transmit
  rcases hc : h.call slarw with ⟨(_ | _) | c, h'⟩
  all_goals
    rw [hc] at hcall
  · exact hcall.finish _ _
  · exact (hcall.sendBytes bytes).finish _ _
  · exact hcall.finish _ _

/-- So it is after a reception. -/
theorem reception (hh : h.Obliging) (slarw : BitVec 8) (n : Nat) (sendStop : Bool) :
    (h.reception slarw n sendStop).2.2.Obliging := by
  have hcall := hh.call slarw
  unfold Hardware.reception fetch
  rcases hc : h.call slarw with ⟨(_ | _) | c, h'⟩
  all_goals
    rw [hc] at hcall
  · exact hcall.finish _ _
  · exact (hcall.receiveBytes n).finish _ _
  · exact hcall.finish _ _

end Hardware.Obliging

end SmartblocksOs.Foundation.TwoWire
