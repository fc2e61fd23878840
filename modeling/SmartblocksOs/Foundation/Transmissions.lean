/-
# SmartblocksOs.Foundation.Transmissions -- what a transmission puts on the bus

A master that sends bytes to a slave puts the address on the bus and then the bytes, one after the other,
until one of them is refused, the transaction is cut off, or there are none left. So what gets through is
the address and a prefix of the bytes, unless not even the address does; and how the transmission has ended
can be told from what there has been on the bus (`transmission_told`).

The bus hardware gives the ending of a transmission; a logic analyser on the bus sees events only. `Told`
says that the two are equivalent: success is that the address and all bytes have been acknowledged, an
address that is refused is on the bus as such, and so is a byte that is refused.
-/
import SmartblocksOs.Foundation.TwoWire

namespace SmartblocksOs.Foundation.TwoWire

/-- The addresses and bytes that the master has put on the bus. -/
def sentOnBus (events : List BusEvent) : List (BitVec 8) :=
  events.filterMap fun
    | .address b _ | .sent b _ => some b
    | _ => none

/-- Those that have been acknowledged. -/
def ackedOnBus (events : List BusEvent) : List (BitVec 8) :=
  events.filterMap fun
    | .address b true | .sent b true => some b
    | _ => none

/-- What is sent is sent piece by piece. -/
theorem sentOnBus_append (events events' : List BusEvent) :
    sentOnBus (events ++ events') = sentOnBus events ++ sentOnBus events' :=
  List.filterMap_append ..

theorem ackedOnBus_append (events events' : List BusEvent) :
    ackedOnBus (events ++ events') = ackedOnBus events ++ ackedOnBus events' :=
  List.filterMap_append ..

section

variable (b : BitVec 8) (acked : Bool) (c : Cut) (events : List BusEvent)

/-! The bytes on the bus and those acknowledged, event by event. -/

@[simp] theorem sentOnBus_address :
    sentOnBus (.address b acked :: events) = b :: sentOnBus events := rfl

@[simp] theorem sentOnBus_sent : sentOnBus (.sent b acked :: events) = b :: sentOnBus events := rfl

@[simp] theorem sentOnBus_cut : sentOnBus (.cut c :: events) = sentOnBus events := rfl

@[simp] theorem ackedOnBus_address :
    ackedOnBus (.address b acked :: events) = if acked then b :: ackedOnBus events
      else ackedOnBus events := by
  cases acked <;> rfl

@[simp] theorem ackedOnBus_sent :
    ackedOnBus (.sent b acked :: events) = if acked then b :: ackedOnBus events
      else ackedOnBus events := by
  cases acked <;> rfl

@[simp] theorem ackedOnBus_cut : ackedOnBus (.cut c :: events) = ackedOnBus events := rfl

end

@[simp] theorem sentOnBus_nil : sentOnBus [] = [] := rfl

@[simp] theorem ackedOnBus_nil : ackedOnBus [] = [] := rfl

/-- Bytes that the slave has acknowledged. -/
def taken (bytes : List (BitVec 8)) : List BusEvent := bytes.map (.sent · true)

/-- Bytes that are taken have been sent. -/
@[simp] theorem sentOnBus_taken (bytes : List (BitVec 8)) : sentOnBus (taken bytes) = bytes := by
  simp [sentOnBus, taken, List.filterMap_map]

@[simp] theorem ackedOnBus_taken (bytes : List (BitVec 8)) : ackedOnBus (taken bytes) = bytes := by
  simp [ackedOnBus, taken, List.filterMap_map]

/-- The events of bytes that are all acknowledged. -/
theorem mem_taken {bytes : List (BitVec 8)} {e : BusEvent} :
    e ∈ taken bytes ↔ ∃ b ∈ bytes, .sent b true = e :=
  List.mem_map

/-! ## The bytes

By induction on the bytes: those that the slave takes come first, and the one that is refused, or at which
the transaction is cut off, is the last. -/

/-- What bytes leave on the bus that are sent until one is refused. -/
inductive Delivered (bytes : List (BitVec 8)) : Ending → List BusEvent → Prop
  | done : Delivered bytes .done (taken bytes)
  | refused (pre post : List (BitVec 8)) (b : BitVec 8) :
      bytes = pre ++ b :: post → Delivered bytes .dataNack (taken pre ++ [.sent b false])
  | cut (pre post : List (BitVec 8)) (b : BitVec 8) (c : Cut) :
      bytes = pre ++ b :: post → Delivered bytes (.cut c) (taken pre ++ [.cut c])

/-- One more byte in front, which has been acknowledged. -/
theorem Delivered.cons {bytes : List (BitVec 8)} {ending : Ending} {events : List BusEvent}
    (b : BitVec 8) (h : Delivered bytes ending events) :
    Delivered (b :: bytes) ending (.sent b true :: events) := by
  cases h with
  | done => exact .done
  | refused pre post b' hbytes => exact .refused (b :: pre) post b' (congrArg (b :: ·) hbytes)
  | cut pre post b' c hbytes => exact .cut (b :: pre) post b' c (congrArg (b :: ·) hbytes)

namespace Hardware

/-- Sending bytes adds to the trace those that were taken, and what stopped them, if anything has. -/
theorem sendBytes_delivered (bytes : List (BitVec 8)) (h : Hardware) :
    ∃ events, (h.sendBytes bytes).2.trace = h.trace ++ events ∧
      Delivered bytes (h.sendBytes bytes).1 events := by
  induction bytes generalizing h with
  | nil => exact ⟨[], (List.append_nil _).symm, .done⟩
  | cons b bytes ih =>
      unfold sendBytes send
      cases hcut : (h.answers 0).cut with
      | some c => exact ⟨[.cut c], rfl, .cut [] bytes b c rfl⟩
      | none =>
          cases hack : (h.answers 0).ack with
          | false => exact ⟨[.sent b false], rfl, .refused [] bytes b rfl⟩
          | true =>
              obtain ⟨events, htrace, hdelivered⟩ := ih (h.next h.phase (.sent b true))
              refine ⟨.sent b true :: events, htrace.trans ?_, hdelivered.cons b⟩
              simp only [next, List.append_assoc, List.cons_append, List.nil_append]

end Hardware

/-! ## The transmission

With the address in front and the framing around it. The framing depends on whether the bus was held
before and is kept afterwards; whatever it is, it carries no bytes. -/

/-- What a transmission of `bytes` to `slaw` leaves on the bus, before its end. -/
inductive Sends (slaw : BitVec 8) (bytes : List (BitVec 8)) : Ending → List BusEvent → Prop
  | refused : Sends slaw bytes .addressNack [.address slaw false]
  | cut (c : Cut) : Sends slaw bytes (.cut c) [.cut c]
  | called {ending : Ending} {events : List BusEvent} :
      Delivered bytes ending events → Sends slaw bytes ending (.address slaw true :: events)

/-- A START, a STOP or a repeated START: neither an address nor a byte. -/
def Framing (events : List BusEvent) : Prop := ∀ e ∈ events, e = .start ∨ e = .stop ∨ e = .repStart

/-- STARTs and STOPs send no bytes. -/
theorem Framing.sent {events : List BusEvent} (h : Framing events) : sentOnBus events = [] := by
  apply List.filterMap_eq_nil_iff.mpr
  intro e he
  rcases h e he with rfl | rfl | rfl
  · rfl
  · rfl
  · rfl

theorem Framing.acked {events : List BusEvent} (h : Framing events) : ackedOnBus events = [] := by
  apply List.filterMap_eq_nil_iff.mpr
  intro e he
  rcases h e he with rfl | rfl | rfl
  · rfl
  · rfl
  · rfl

/-- There is nothing else in a framing. -/
theorem Framing.not_mem {events : List BusEvent} (h : Framing events) {e : BusEvent}
    (he : e ≠ .start ∧ e ≠ .stop ∧ e ≠ .repStart) : e ∉ events := by
  intro hmem
  rcases h e hmem with heq | heq | heq
  · exact he.1 heq
  · exact he.2.1 heq
  · exact he.2.2 heq

/-- A transaction opens with nothing but a START, or nothing at all. -/
theorem framing_opening (held : Bool) : Framing (opening held) := by
  cases held <;> simp [Framing, opening]

/-- A beginning of a framing is one. -/
theorem framing_of_prefix {events events' : List BusEvent} (h : Framing events')
    (hbegin : events <+: events') : Framing events :=
  fun e he => h e (hbegin.subset he)

/-- The end of a transaction adds at most a STOP or a repeated START. -/
theorem Hardware.finish_trace (h : Hardware) (sendStop : Bool) (ending : Ending)
    (hdone : ending = .done → h.phase ≠ .idle) :
    ∃ events, (h.finish sendStop ending).trace = h.trace ++ events ∧ Framing events := by
  have hstop : ∃ events, h.stop.trace = h.trace ++ events ∧ Framing events := by
    unfold stop
    split
    · exact ⟨[], (List.append_nil _).symm, by simp [Framing]⟩
    · exact ⟨[.stop], rfl, by simp [Framing]⟩
  cases ending with
  | done =>
      cases sendStop with
      | true => exact hstop
      | false =>
          refine ⟨[.repStart], ?_, by simp [Framing]⟩
          simp only [finish, close, Bool.false_eq_true, if_false, start, if_neg (hdone rfl)]
  | addressNack | dataNack | cut c => exact hstop

/-- A transmission leaves what it sends, between a START and a STOP or a repeated START. -/
theorem Hardware.transmission_sends {held : Bool} {h : Hardware} (hheld : h.Between held)
    (slaw : BitVec 8) (bytes : List (BitVec 8)) (sendStop : Bool) :
    ∃ pre events post, Framing pre ∧ Framing post ∧
      Sends slaw bytes (h.transmission slaw bytes sendStop).1 events ∧
      (h.transmission slaw bytes sendStop).2.trace = h.trace ++ (pre ++ events ++ post) := by
  have htraced := call_traced hheld slaw
  unfold transmission transmit
  rcases hcall : h.call slaw with ⟨acked | c, h'⟩
  · rw [hcall] at htraced
    obtain ⟨hphase, htrace⟩ := htraced
    cases acked with
    -- The slave is there: the bytes follow the address as far as it takes them.
    | true =>
        obtain ⟨events, hevents, hdelivered⟩ := sendBytes_delivered bytes h'
        obtain ⟨data, -, hpassed⟩ := sendBytes_passed bytes h'
        have hdone : (h'.sendBytes bytes).1 = .done → (h'.sendBytes bytes).2.phase ≠ .idle := by
          intro hdone
          rw [hdone] at hpassed
          exact hpassed.1 ▸ hphase
        obtain ⟨post, hpost, hframing⟩ := (h'.sendBytes bytes).2.finish_trace sendStop _ hdone
        refine ⟨opening held, _, post, framing_opening held, hframing, .called hdelivered, ?_⟩
        simp only [hpost, hevents, htrace, List.append_assoc, List.cons_append, List.nil_append]
    -- nobody answers
    | false =>
        obtain ⟨post, hpost, hframing⟩ := h'.finish_trace sendStop .addressNack (by simp)
        refine ⟨opening held, _, post, framing_opening held, hframing, .refused, ?_⟩
        simp only [hpost, htrace, List.append_assoc]
  -- the call is cut: part of its opening may be on the bus
  · rw [hcall] at htraced
    obtain ⟨-, pre, hpre, htrace⟩ := htraced
    obtain ⟨post, hpost, hframing⟩ := h'.finish_trace sendStop (.cut c) (by simp)
    refine ⟨pre, _, post, framing_of_prefix (framing_opening held) hpre, hframing, .cut c, ?_⟩
    simp only [hpost, htrace, List.append_assoc]

/-! ## What can be told from the bus

The framing can be dropped on both sides, so that it is enough to tell the ending from what is in between.
-/

/-- How a transmission of `bytes` has ended, told from what there has been on the bus. -/
structure Told (slaw : BitVec 8) (bytes : List (BitVec 8)) (ending : Ending) (events : List BusEvent) :
    Prop where
  sent : (∃ pre, pre <+: bytes ∧ sentOnBus events = slaw :: pre) ∨
    sentOnBus events = [] ∧ ∃ c, .cut c ∈ events
  done : ending = .done ↔ ackedOnBus events = slaw :: bytes
  addressNack : ending = .addressNack ↔ .address slaw false ∈ events
  dataNack : ending = .dataNack ↔ ∃ b, .sent b false ∈ events

/-- A transmission that sends bytes has told how many of them were taken. -/
theorem Sends.told {slaw : BitVec 8} {bytes : List (BitVec 8)} {ending : Ending}
    {events : List BusEvent} (h : Sends slaw bytes ending events) : Told slaw bytes ending events := by
  cases h with
  | refused => exact ⟨Or.inl ⟨[], List.nil_prefix, rfl⟩, by simp, by simp, by simp⟩
  | cut c => exact ⟨Or.inr ⟨rfl, c, List.mem_cons_self⟩, by simp, by simp, by simp⟩
  | called hdelivered =>
      cases hdelivered with
      | done => exact ⟨Or.inl ⟨bytes, List.prefix_rfl, by simp⟩, by simp, by simp [mem_taken], by simp [mem_taken]⟩
      | refused pre post b hbytes =>
          refine ⟨Or.inl ⟨pre ++ [b], ⟨post, by simp [hbytes]⟩, by simp [sentOnBus_append]⟩, ?_, ?_, ?_⟩
          · simp [ackedOnBus_append, hbytes]
          · simp [mem_taken]
          · simp
      | cut pre post b c hbytes =>
          refine ⟨Or.inl ⟨pre, ⟨b :: post, hbytes.symm⟩, by simp [sentOnBus_append]⟩, ?_, ?_, ?_⟩
          · simp [ackedOnBus_append, hbytes]
          · simp [mem_taken]
          · simp [mem_taken]

theorem Told.framed {slaw : BitVec 8} {bytes : List (BitVec 8)} {ending : Ending}
    {pre events post : List BusEvent} (h : Told slaw bytes ending events) (hpre : Framing pre)
    (hpost : Framing post) : Told slaw bytes ending (pre ++ events ++ post) := by
  have hsent : sentOnBus (pre ++ events ++ post) = sentOnBus events := by
    rw [sentOnBus_append, sentOnBus_append, hpre.sent, hpost.sent, List.nil_append, List.append_nil]
  have hacked : ackedOnBus (pre ++ events ++ post) = ackedOnBus events := by
    rw [ackedOnBus_append, ackedOnBus_append, hpre.acked, hpost.acked, List.nil_append, List.append_nil]
  have hmem : ∀ e : BusEvent, e ≠ .start ∧ e ≠ .stop ∧ e ≠ .repStart →
      (e ∈ pre ++ events ++ post ↔ e ∈ events) := by
    intro e he
    rw [List.mem_append, List.mem_append, or_iff_left (hpost.not_mem he), or_iff_right (hpre.not_mem he)]
  refine ⟨?_, hacked ▸ h.done, h.addressNack.trans (hmem _ (by simp)).symm, ?_⟩
  · rw [hsent]
    exact h.sent.imp_right fun hnone => ⟨hnone.1, hnone.2.imp fun c hc => (hmem _ (by simp)).mpr hc⟩
  · exact h.dataNack.trans (exists_congr fun b => (hmem _ (by simp)).symm)

/-- What a transmission leaves on the bus tells how it has ended. -/
theorem Hardware.transmission_told {held : Bool} {h : Hardware} (hheld : h.Between held)
    (slaw : BitVec 8) (bytes : List (BitVec 8)) (sendStop : Bool) :
    ∃ events, (h.transmission slaw bytes sendStop).2.trace = h.trace ++ events ∧
      Told slaw bytes (h.transmission slaw bytes sendStop).1 events := by
  obtain ⟨pre, events, post, hpre, hpost, hsends, htrace⟩ :=
    h.transmission_sends hheld slaw bytes sendStop
  exact ⟨_, htrace, hsends.told.framed hpre hpost⟩

/-! ## A bus on which everything is acknowledged

The case in which a transmission can be computed: it is done, and has used up one answer for each byte
besides those for the START and the address. -/

/-- Nothing is cut off or refused. -/
def Hardware.Obliging (h : Hardware) : Prop := ∀ i, (h.answers i).cut = none ∧ (h.answers i).ack = true

namespace Hardware

/-- On an obliging bus all bytes get through. -/
theorem sendBytes_obliging (bytes : List (BitVec 8)) {h : Hardware} (hobliging : h.Obliging) :
    ∃ trace, h.sendBytes bytes =
      (.done, ⟨h.phase, fun i => h.answers (i + bytes.length), trace⟩) := by
  induction bytes generalizing h with
  | nil => exact ⟨h.trace, rfl⟩
  | cons b bytes ih =>
      obtain ⟨hcut, hack⟩ := hobliging 0
      obtain ⟨trace, hrest⟩ := ih (h := h.next h.phase (.sent b true)) fun i => hobliging (i + 1)
      refine ⟨trace, ?_⟩
      unfold sendBytes send
      rw [hcut, hack]
      exact hrest

/-- A START gets through. -/
theorem start_obliging {h : Hardware} (hidle : h.phase = .idle) (hobliging : h.Obliging) :
    h.start = (.done true, h.next .started .start) := by
  unfold start
  rw [if_pos hidle, (hobliging 0).1]

/-- An address gets through, and its last bit says who sends from here on. -/
theorem address_obliging {h : Hardware} (hobliging : h.Obliging) (slarw : BitVec 8) :
    h.address slarw = (.done true, h.next (if slarw.getLsbD 0 then .receiving else .transmitting)
      (.address slarw true)) := by
  unfold address
  rw [(hobliging 0).1, (hobliging 0).2]

/-- A transmission takes two answers and one for each byte. -/
theorem transmission_obliging {h : Hardware} (hidle : h.phase = .idle) (hobliging : h.Obliging)
    (slaw : BitVec 8) (bytes : List (BitVec 8)) :
    ∃ trace, h.transmission slaw bytes true =
      (.done, ⟨.idle, fun i => h.answers (i + bytes.length + 2), trace⟩) := by
  let started := h.next .started .start
  let called := started.next (if slaw.getLsbD 0 then .receiving else .transmitting) (.address slaw true)
  have hcall : h.call slaw = (.done true, called) := by
    unfold call seize
    rw [if_pos hidle, start_obliging hidle hobliging]
    exact address_obliging (h := started) (fun i => hobliging (i + 1)) slaw
  obtain ⟨trace, hsend⟩ := sendBytes_obliging bytes (h := called) fun i => hobliging (i + 2)
  have hphase : called.phase ≠ .idle := by
    show (if slaw.getLsbD 0 then Phase.receiving else .transmitting) ≠ .idle
    split
    · exact Phase.noConfusion
    · exact Phase.noConfusion
  refine ⟨trace ++ [.stop], ?_⟩
  unfold transmission transmit
  rw [hcall]
  dsimp only
  rw [hsend]
  show (Ending.done, Hardware.stop _) = _
  unfold stop
  rw [if_neg hphase]
  rfl

end Hardware

end SmartblocksOs.Foundation.TwoWire
