/-
# SmartblocksOs.Board.Faces -- what each face sees of the bus

The multiplexer connects the bus to one face at a time. If it were turned in the middle of a transaction,
the face that is left would wait for a STOP that it never sees, and the next one would be woken by bytes
that mean nothing to it. And if `IsPortConnected` pulled at the clock line in the middle of a transaction,
every slave would count one bit too many. Neither lock alone prevents it: the multiplexer belongs to the
port controller and the transaction to the TW controller. It is the order in which the functions use the
two, which is the protocol `phases true`.

Here the hardware notes where the multiplexer was at each event on the bus (`Multiplexed`).
-/
import SmartblocksOs.Board.WiredBus

namespace SmartblocksOs.Board

open SmartblocksOs.Foundation SmartblocksOs.System SmartblocksOs.Resource
open SmartblocksOs.Foundation.TwoWire (Hardware Transactions BusEvent)

/-! ## The hardware behind the multiplexer

A face is a slave with a view of its own: it sees the events that happen while the multiplexer is turned
to it. -/

/-- The bus together with the multiplexer: each event goes to the face that is selected when it happens. -/
structure Multiplexed where
  bus : Hardware
  /-- The events on the bus, with the position of the multiplexer. -/
  seen : List (Byte × BusEvent)

/-- The position of the multiplexer. -/
def select (s : Store Val) : Byte := s .portc &&& portCtrlMask

/-- Where the multiplexer is depends on `PORTC` only. -/
theorem select_congr {s s' : Store Val} (h : s' .portc = s .portc) : select s' = select s :=
  congrArg (· &&& portCtrlMask) h

namespace Multiplexed

/-- What there is to be seen at the position `p`. -/
def view (f : Multiplexed) (p : Byte) : List BusEvent := (f.seen.filter (·.1 = p)).map Prod.snd

/-- The bus has gone on to `bus`, with the events `new`. -/
def note (f : Multiplexed) (p : Byte) (bus : Hardware) (new : List BusEvent) : Multiplexed :=
  ⟨bus, f.seen ++ new.map (p, ·)⟩

/-- What a face sees is added up, as long as the multiplexer is at it. -/
theorem view_append {f f' : Multiplexed} {p : Byte} {new : List BusEvent}
    (h : f'.seen = f.seen ++ new.map (p, ·)) (q : Byte) :
    f'.view q = f.view q ++ if q = p then new else [] := by
  unfold view
  rw [h, List.filter_append, List.map_append]
  congr 1
  by_cases hq : q = p
  · subst hq
    rw [if_pos rfl, List.filter_eq_self.mpr (by simp), List.map_map]
    exact List.map_id new
  · rw [if_neg hq, List.filter_eq_nil_iff.mpr (by simp [Ne.symm hq]), List.map_nil]

end Multiplexed

/-- What the hardware does when `TWCR` has been stored. -/
def muxReact : Reaction Val Multiplexed
  | x, (s, f) =>
      let r := twiReact x (s, f.bus)
      (r.1, f.note (select s) r.2 (r.2.trace.drop f.bus.trace.length))

/-- What the hardware does is seen at the face that is selected. -/
theorem muxReact_seen (x : Var) (s : Store Val) (f : Multiplexed) :
    ∃ new, (twiReact x (s, f.bus)).2.trace = f.bus.trace ++ new ∧
      (muxReact x (s, f)).2.seen = f.seen ++ new.map (select s, ·) := by
  obtain ⟨new, hnew⟩ := twiReact_prefix x s f.bus
  refine ⟨new, hnew.symm, ?_⟩
  simp only [muxReact, Multiplexed.note, ← hnew, List.drop_left]

/-- The hardware does nothing by itself: a store to `TWCR` starts it. -/
theorem muxReact_of_ne {x : Var} (hx : x ≠ .twcr) (s : Store Val × Multiplexed) : muxReact x s = s := by
  obtain ⟨s, f⟩ := s
  simp only [muxReact, twiReact_of_ne hx, Multiplexed.note, List.drop_length, List.map_nil, List.append_nil]

/-- The multiplexer and the clock line are none of its registers. -/
theorem twiReact_port {x : Var} {y : Var} (hy : ofBus y = false) (s : Store Val × Hardware) :
    (twiReact x s).1 y = s.1 y := by
  refine (twiReact_registers x s y).resolve_right fun h => ?_
  rw [hy] at h
  exact Bool.false_ne_true h.2

/-! ## The calls

Run alone, a call of `CTWController` adds one transaction to what the current face sees, and nothing to
what the others see. -/

/-- The same machine behind the multiplexer, some events later. -/
structure Behind (m : Machine Val Event Multiplexed) (n : TwMachine) (n' : Machine Val Event Multiplexed) :
    Prop where
  vars : n'.vars = n.vars
  log : n'.log = n.log
  bus : n'.device.bus = n.device
  portc : n.vars .portc = m.vars .portc
  ddrc : n.vars .ddrc = m.vars .ddrc
  seen : ∃ new, n.device.trace = m.device.bus.trace ++ new ∧
    n'.device.seen = m.device.seen ++ new.map (select m.vars, ·)

/-- A bus and its view of itself. -/
theorem Behind.refl (m : Machine Val Event Multiplexed) : Behind m ⟨m.vars, m.device.bus, m.log⟩ m :=
  ⟨rfl, rfl, rfl, rfl, rfl, [], (List.append_nil _).symm, (List.append_nil _).symm⟩

/-- Whatever a call stores, the two machines go in step. -/
theorem behind_inStep (m : Machine Val Event Multiplexed) :
    InStep twiReact muxReact (ofBus · = true) (Behind m) := by
  refine ⟨fun h => h.vars, ?_, fun e h => ⟨h.vars, by rw [h.log], h.bus, h.portc, h.ddrc, h.seen⟩⟩
  intro n n' x v hx h
  have hne : ∀ {y}, ofBus y = false → y ≠ x := by
    rintro y hy rfl
    rw [hx] at hy
    cases hy
  have hkept : ∀ {y}, ofBus y = false → (n.store twiReact x v).vars y = n.vars y := fun hy =>
    (twiReact_port hy _).trans (Function.update_of_ne (hne hy) v n.vars)
  -- the same store to the same hardware
  have hsame : (Function.update n'.vars x v, n'.device.bus) = (Function.update n.vars x v, n.device) := by
    rw [h.vars, h.bus]
  refine ⟨?_, h.log, ?_, (hkept rfl).trans h.portc, (hkept rfl).trans h.ddrc, ?_⟩
  · exact congrArg (fun r => (twiReact x r).1) hsame
  · exact congrArg (fun r => (twiReact x r).2) hsame
  -- What the bus has seen of it goes to the face that is selected, which a store to the bus does not
  -- change.
  · obtain ⟨before, htrace, hseen⟩ := h.seen
    obtain ⟨new, hnew, hmux⟩ := muxReact_seen x (Function.update n'.vars x v) n'.device
    have hselect : select (Function.update n'.vars x v) = select m.vars := by
      apply select_congr
      rw [Function.update_of_ne (hne rfl), h.vars, h.portc]
    refine ⟨before ++ new, ?_, ?_⟩
    · rw [hsame, h.bus, htrace, List.append_assoc] at hnew
      exact hnew
    · rw [hseen, hselect, List.append_assoc, ← List.map_append] at hmux
      exact hmux

/-! ## Who has the port controller

Only its holder may turn the multiplexer. The invariant ties the phase of the holder to what the faces
have seen so far. -/

/-- Between two calls: every face has seen whole transactions, of which only the last one at the present
position of the multiplexer may have kept the bus. -/
structure FacesWhole (held : Bool) (s : Store Val) (f : Multiplexed) : Prop where
  poised : Poised held s f.bus
  whole : ∀ p, Whole (held && decide (p = select s)) (f.view p)

/-- The variables that this depends on. -/
def ofFaces (x : Var) : Bool :=
  match x with
  | .portc | .ddrc => true
  | x => ofBus x

/-- The variables of the bus are among those the faces depend on. -/
theorem ofFaces_of_bus {x : Var} (hx : ofBus x = true) : ofFaces x = true := by
  cases x with
  | portc | ddrc => rfl
  | _ => exact hx

/-- What the faces have seen depends on the bus and on the multiplexer. -/
theorem FacesWhole.congr {held : Bool} {s s' : Store Val} {f : Multiplexed} (h : FacesWhole held s f)
    (hs : ∀ x, ofBus x = true → s' x = s x) (hportc : held = true → s' .portc = s .portc) :
    FacesWhole held s' f := by
  refine ⟨h.poised.congr hs, fun p => ?_⟩
  cases held with
  | false => exact h.whole p
  | true =>
      rw [select_congr (hportc rfl)]
      exact h.whole p

/-- The same in each phase of the task that has the port controller, which alone drives the clock line. -/
structure BetweenFaces (φ : Phase) (s : Store Val) (f : Multiplexed) : Prop where
  faces : ∃ held, (held = true → φ.bus = .kept) ∧ FacesWhole held s f
  clock : s .ddrc &&& portcTwclkMask = 0 ↔ φ.bus ≠ .driven

section

variable {φ φ' : Phase} {s s' : Store Val} {f : Multiplexed}

/-- Unless the bus is kept, it is not held. -/
theorem BetweenFaces.released (h : BetweenFaces φ s f) (hkept : φ.bus ≠ .kept) : FacesWhole false s f := by
  obtain ⟨held, hheld, hwhole⟩ := h.faces
  obtain rfl : held = false := Bool.eq_false_iff.mpr fun h => hkept (hheld h)
  exact hwhole

/-- While the bus is free, every face has seen whole transactions. -/
theorem betweenFaces_of_free (hbus : φ.bus = .free) (h : FacesWhole false s f)
    (hclock : s .ddrc &&& portcTwclkMask = 0) : BetweenFaces φ s f :=
  ⟨⟨false, by simp, h⟩, iff_of_true hclock (by simp [hbus])⟩

/-- It is about the bus, not about the other locks. -/
theorem BetweenFaces.mono (h : BetweenFaces φ s f) (hkept : φ.bus = .kept → φ'.bus = .kept)
    (hdriven : φ'.bus = .driven ↔ φ.bus = .driven) : BetweenFaces φ' s f := by
  obtain ⟨held, hheld, hwhole⟩ := h.faces
  exact ⟨⟨held, fun h => hkept (hheld h), hwhole⟩, h.clock.trans (not_congr hdriven).symm⟩

theorem BetweenFaces.congr (h : BetweenFaces φ s f) (hs : ∀ x, ofFaces x = true → s' x = s x) :
    BetweenFaces φ s' f := by
  obtain ⟨held, hheld, hwhole⟩ := h.faces
  refine ⟨⟨held, hheld, hwhole.congr (fun x hx => hs x (ofFaces_of_bus hx)) fun _ => hs .portc rfl⟩, ?_⟩
  rw [hs .ddrc rfl]
  exact h.clock

theorem BetweenFaces.relock (h : BetweenFaces φ s f)
    (hbus : φ'.bus = φ.bus ∨ φ.bus = .free ∧ φ'.bus = .taken ∨ φ.bus = .taken ∧ φ'.bus = .free) :
    BetweenFaces φ' s f := by
  rcases hbus with hbus | ⟨hbus, hbus'⟩ | ⟨hbus, hbus'⟩
  · exact h.mono (fun hkept => hbus.trans hkept) (by rw [hbus])
  · exact h.mono (by simp [hbus]) (by simp [hbus, hbus'])
  · exact h.mono (by simp [hbus]) (by simp [hbus, hbus'])

/-- The task that has the port controller turns the multiplexer, or drives the clock line. -/
theorem BetweenFaces.store {x : Var} {v : Val x} (hst : Phase.store x v φ = some φ')
    (h : BetweenFaces φ s f) : BetweenFaces φ' (Function.update s x v) f := by
  have hx := Phase.store_touched hst
  have hother : ∀ y, ofBus y = true → Function.update s x v y = s y := by
    intro y hy
    refine Function.update_of_ne ?_ v s
    rintro rfl
    rw [hx] at hy
    cases hy
  -- the multiplexer is turned, the clock line is driven, or neither
  by_cases hportc : x = .portc
  · subst hportc
    obtain ⟨rfl, -, hbus⟩ := Phase.store_portc (v := v) hst
    have hfree := h.released (by simp [hbus])
    refine betweenFaces_of_free hbus (hfree.congr hother (by simp)) ?_
    rw [Function.update_of_ne (by simp)]
    exact h.clock.mpr (by simp [hbus])
  by_cases hddrc : x = .ddrc
  · subst hddrc
    obtain ⟨rfl, -, hbus⟩ := Phase.store_ddrc (v := v) hst
    have hfree := h.released (by rcases hbus with hbus | hbus <;> simp [hbus])
    refine ⟨⟨false, by simp, hfree.congr hother (by simp)⟩, ?_⟩
    rw [Function.update_self]
    split
    · exact iff_of_true ‹_› (by simp)
    · exact iff_of_false ‹_› fun h => h rfl
  · rw [(Phase.store_other hportc hddrc hst).1]
    refine h.congr fun y hy => ?_
    cases y with
    | portc => exact Function.update_of_ne (Ne.symm hportc) v s
    | ddrc => exact Function.update_of_ne (Ne.symm hddrc) v s
    | _ => exact hother _ hy

end

/-- A call adds its transaction to what is to be seen at the present position, and nothing elsewhere. -/
theorem Calls.faces {φ φ' : Phase} {β : Type} {c : Code β} (h : Calls true φ β c φ')
    {m : Machine Val Event Multiplexed} (hb : BetweenFaces φ m.vars m.device) :
    Total muxReact c m fun _ m' => BetweenFaces φ' m'.vars m'.device := by
  -- nobody calls the controller while he drives the clock line
  have hbus : ∀ {ψ : Phase}, ψ.Calling true → ψ.bus ≠ .driven := by
    rintro ψ ⟨htw | htw, -⟩ hdriven
    · rw [htw] at hdriven
      cases hdriven
    · rw [htw] at hdriven
      cases hdriven
  obtain ⟨held, hkept, hpoised, hwhole⟩ := hb.faces
  have halone := h.total hkept (m := ⟨m.vars, m.device.bus, m.log⟩) hpoised
  refine ((behind_inStep m).total h.onBus (.refl m) halone).mono ?_
  rintro - m' ⟨n, ⟨transfers, trace, held', htrace, htransactions, hkept', hpoised'⟩, hbehind⟩
  obtain ⟨new, hnew, hseen⟩ := hbehind.seen
  obtain rfl : new = trace := List.append_cancel_left (hnew.symm.trans htrace)
  have hselect : select m'.vars = select m.vars := by
    rw [hbehind.vars, select_congr hbehind.portc]
  refine ⟨⟨held', hkept', ?_, fun p => ?_⟩, ?_⟩
  · rw [hbehind.vars, hbehind.bus]
    exact hpoised'
  -- the transactions of this call belong to the face selected; the others have seen nothing new
  · rw [Multiplexed.view_append hseen, hselect]
    have hview := hwhole p
    by_cases hp : p = select m.vars
    · rw [decide_eq_true hp, Bool.and_true] at hview ⊢
      rw [if_pos hp]
      exact hview.append htransactions
    · rw [decide_eq_false hp, Bool.and_false] at hview ⊢
      rw [if_neg hp, List.append_nil]
      exact hview
  · rw [hbehind.vars, hbehind.ddrc]
    exact iff_of_true (hb.clock.mpr (hbus h.calling)) (hbus h.calling_after)

/-- Under the lock of the port controller. -/
def facesCustody : Custody (phases true) Multiplexed where
  react := muxReact
  master := .port
  owned := ofFaces
  free s f := FacesWhole false s f ∧ s .ddrc &&& portcTwclkMask = 0
  between := BetweenFaces
  owned_of_touched := ofFaces_of_bus
  react_other {x} hx s := by
    apply muxReact_of_ne
    rintro rfl
    cases hx
  react_congr x s s' f hs := by
    have hbus : ∀ y, ofBus y = true → s' y = s y := fun y hy => hs y (ofFaces_of_bus hy)
    obtain ⟨hvars, hdevice⟩ := twiReact_congr x f.bus hbus
    refine ⟨fun y hy => hvars y (hs y hy), ?_⟩
    simp only [muxReact, hdevice, select_congr (hs .portc rfl)]
  free_congr hs h := by
    refine ⟨h.1.congr (fun x hx => hs x (ofFaces_of_bus hx)) (by simp), ?_⟩
    rw [hs .ddrc rfl]
    exact h.2
  between_congr hs h := h.congr hs
  call_holds h := h.calling.port rfl
  call_between h _ hb := h.faces hb
  store_owned {x v φ φ'} h hx := by
    by_cases hportc : x = .portc
    · subst hportc
      exact (Phase.store_portc (v := v) h).2.1
    by_cases hddrc : x = .ddrc
    · subst hddrc
      exact (Phase.store_ddrc (v := v) h).2.1
    -- no other variable of these is stored outside a call
    have hbus : ofBus x = true := by
      cases x with
      | portc => exact absurd rfl hportc
      | ddrc => exact absurd rfl hddrc
      | _ => exact hx
    rw [Phase.store_touched h] at hbus
    cases hbus
  store_between h _ hb := hb.store h
  take {φ φ' s f} h hfree := by
    obtain ⟨hbus, h⟩ := Option.ite_none_right_eq_some.mp h
    obtain rfl := Option.some.inj h
    exact betweenFaces_of_free hbus hfree.1 hfree.2
  lock_between h _ hb := hb.relock ((Phase.lock_bus h).imp_right Or.inl)
  unlock_between h _ _ hb := hb.relock ((Phase.unlock_bus h).imp_right Or.inr)
  give {φ φ' s f} h hb := by
    obtain ⟨⟨-, hbus⟩, -⟩ := Option.ite_none_right_eq_some.mp h
    exact ⟨hb.released (by simp [hbus]), hb.clock.mpr (by simp [hbus])⟩

/-! ## Every reachable state

By the general theorem about tasks wired to a device. -/

section

variable {ι : Type} {c : Tasks ι Var Val Lock Event} {f : Multiplexed}

/-- The board is powered, no face has seen anything yet, and nothing drives the clock line. -/
def PoweredFaces (cf : Tasks ι Var Val Lock Event × Multiplexed) : Prop :=
  Powered (cf.1, cf.2.bus) ∧ cf.2.seen = [] ∧ cf.1.vars .ddrc &&& portcTwclkMask = 0

/-- After power-up no transaction has been seen. -/
theorem PoweredFaces.released (hp : PoweredFaces (c, f)) :
    c.Initial ∧ facesCustody.free c.vars f := by
  obtain ⟨hpowered, hseen, hclock⟩ := hp
  obtain ⟨hinit, hpoised, -⟩ := hpowered.free
  replace hseen : f.seen = [] := hseen
  refine ⟨hinit, ⟨hpoised, fun p => ⟨[], ?_⟩⟩, hclock⟩
  rw [Multiplexed.view, hseen]
  exact .nil false

/-- The operations that go by the port controller. -/
abbrev FaceOperation := {op : Operation // op.OnFaces}

/-- The operations that address faces keep the bus and the multiplexer as the protocol says. -/
theorem facesCustody_wiring :
    Wiring (discipline True) Idle facesCustody (fun op : FaceOperation => op.1.body) ofOthers where
  disciplined op := op.1.body_idle (Or.inl trivial)
  follows op := op.1.body_leads fun _ => op.2
  device _ hx := ofOthers_shared True hx
  apart x hx := by
    cases x with
    | pinc | milliseconds | uartFull | uartBusy => rfl
    | _ => exact absurd hx (by simp [ofOthers])
  registers x s y := (twiReact_registers x (s.1, s.2.bus) y).imp_right fun hy => volatile_shared True hy.1

/-- From one state of the hardware to a later one, while the multiplexer stays where it is. -/
structure Onward (r r' : Store Val × Multiplexed) : Prop where
  portc : r'.1 .portc = r.1 .portc
  ddrc : r'.1 .ddrc = r.1 .ddrc
  seen : ∃ new : List BusEvent, r'.2.seen = r.2.seen ++ new.map (select r.1, ·)

/-- Nothing has happened. -/
theorem Onward.refl (r : Store Val × Multiplexed) : Onward r r :=
  ⟨rfl, rfl, [], (List.append_nil _).symm⟩

/-- What the faces have seen only grows. -/
theorem Onward.trans {r r' r'' : Store Val × Multiplexed} (h : Onward r r') (h' : Onward r' r'') :
    Onward r r'' := by
  obtain ⟨new, hnew⟩ := h.seen
  obtain ⟨new', hnew'⟩ := h'.seen
  refine ⟨h'.portc.trans h.portc, h'.ddrc.trans h.ddrc, new ++ new', ?_⟩
  rw [hnew', hnew, select_congr h.portc, List.append_assoc, ← List.map_append]

/-- A store to the bus goes on with the face selected. -/
theorem Onward.store {x : Var} (hx : ofBus x = true) (v : Val x) (s : Store Val) (f : Multiplexed) :
    Onward (s, f) (muxReact x (Function.update s x v, f)) := by
  have hne : ∀ {y}, ofBus y = false → y ≠ x := by
    rintro y hy rfl
    rw [hx] at hy
    cases hy
  have hkept : ∀ {y}, ofBus y = false → (muxReact x (Function.update s x v, f)).1 y = s y := fun hy =>
    (twiReact_port hy _).trans (Function.update_of_ne (hne hy) v s)
  obtain ⟨new, -, hseen⟩ := muxReact_seen x (Function.update s x v) f
  refine ⟨hkept rfl, hkept rfl, new, ?_⟩
  have hselect : select (Function.update s x v) = select s :=
    select_congr (Function.update_of_ne (hne rfl) v s)
  rw [hseen, hselect]

variable [DecidableEq ι]

/-- Where the task is that has the port controller, if one has it. -/
theorem faces_reachable
    (hreach : Reachable PoweredFaces
      (wiredStep muxReact (fun op : FaceOperation => op.1.body) ofOthers) (c, f)) :
    (FacesWhole false c.vars f ∧ c.vars .ddrc &&& portcTwclkMask = 0) ∨
      ∃ φ s' f', BetweenFaces φ s' f' ∧ Onward (c.vars, f) (s', f') ∧
        (φ.bus = .driven → BetweenFaces φ c.vars f) := by
  obtain ⟨owner, phase, hwired⟩ := reachable_wired facesCustody_wiring rfl
    (fun _ _ hp => PoweredFaces.released hp) hreach
  rcases hwired.free_or_busy with hfree | ⟨t, -, hbusy⟩
  · exact Or.inl hfree
  · -- the call that is under way would end
    obtain ⟨s₁, s', f', hs₁, hbetween, honward⟩ := hbusy.completes Onward .refl (fun _ _ _ => .trans)
      fun x v s f hx => Onward.store hx v s f
    refine Or.inr ⟨phase t, s', f', hbetween, ⟨?_, ?_, ?_⟩, fun hdriven => ?_⟩
    · exact honward.portc.trans (hs₁ .portc rfl)
    · exact honward.ddrc.trans (hs₁ .ddrc rfl)
    · obtain ⟨new, hnew⟩ := honward.seen
      have hselect : select s₁ = select c.vars := select_congr (hs₁ .portc rfl)
      exact ⟨new, hselect ▸ hnew⟩
    · apply hbusy.between
      rintro ⟨htw | htw, -⟩
      · rw [hdriven] at htw
        cases htw
      · rw [hdriven] at htw
        cases htw

/-- Whatever the slaves answer and in whatever order the tasks take their steps: each face sees transactions
that follow each other, and all of them from START to STOP unless the multiplexer is at the face right now. -/
theorem faces_transactions_whole
    (hreach : Reachable PoweredFaces
      (wiredStep muxReact (fun op : FaceOperation => op.1.body) ofOthers) (c, f)) :
    (∀ p, p ≠ select c.vars → Whole false (f.view p)) ∧
      ∃ more held, Whole held (f.view (select c.vars) ++ more) := by
  rcases faces_reachable hreach with ⟨hwhole, -⟩ | ⟨φ, s', f', hbetween, honward, -⟩
  · exact ⟨fun p _ => hwhole.whole p, [], false, (List.append_nil _).symm ▸ hwhole.whole _⟩
  · obtain ⟨held, -, hwhole⟩ := hbetween.faces
    obtain ⟨new, hnew⟩ := honward.seen
    have hselect : select s' = select c.vars := select_congr honward.portc
    constructor
    · intro p hp
      have hview := hwhole.whole p
      rw [Multiplexed.view_append hnew, if_neg hp, List.append_nil, hselect, decide_eq_false hp,
        Bool.and_false] at hview
      exact hview
    · have hview := hwhole.whole (select c.vars)
      rw [Multiplexed.view_append hnew, if_pos rfl] at hview
      exact ⟨new, _, hview⟩

/-- Two tasks on a board whose slaves acknowledge every byte. -/
def poweredFaces : Option (Tasks Bool Var Val Lock Event × Multiplexed) :=
  poweredTasks.map fun ch => (ch.1, ⟨ch.2, []⟩)

/-- The board after its constructors have run. -/
theorem poweredFaces_powered {cf : Tasks Bool Var Val Lock Event × Multiplexed}
    (h : poweredFaces = some cf) : PoweredFaces cf := by
  obtain ⟨⟨c, bus⟩, hch, rfl⟩ := Option.map_eq_some_iff.mp h
  refine ⟨poweredTasks_powered hch, rfl, ?_⟩
  obtain ⟨⟨u, m⟩, hexec, heq⟩ := Option.map_eq_some_iff.mp hch
  obtain ⟨rfl, -⟩ := Prod.mk.inj heq
  -- the constructor leaves the clock line alone
  have hddrc : m.vars .ddrc = atRest .ddrc := by
    have hexec' : (Prog.exec twiReact 0 CTWController.construct ⟨atRest, acknowledging, []⟩).map
        (fun r => r.2.vars .ddrc) = some (atRest .ddrc) := by decide +kernel
    rw [hexec] at hexec'
    exact Option.some.inj hexec'
  show m.vars .ddrc &&& portcTwclkMask = 0
  rw [hddrc]
  decide

/-- One face has been sent a command, and in the middle of the next one the multiplexer is at another
face. -/
theorem faces_transactions_whole_turned :
    ∃ s c f, poweredFaces = some s ∧
      run (wiredStep muxReact (fun op : FaceOperation => op.1.body) ofOthers) s
        (inTurns ⟨.setBlinkRate .east 0x18 0x80, trivial⟩ ⟨.setBrightness .south 1 0x07, trivial⟩ 170) =
          some (c, f) ∧
      select c.vars = EPort.south.code ∧ f.bus.phase = .transmitting ∧
      (f.view EPort.east.code).length = 5 ∧ Whole false (f.view EPort.east.code) ∧
      (f.view EPort.south.code).length = 3 ∧ ∃ more held, Whole held (f.view EPort.south.code ++ more) := by
  have hrun : (poweredFaces.bind fun s =>
      (run (wiredStep muxReact (fun op : FaceOperation => op.1.body) ofOthers) s
        (inTurns ⟨.setBlinkRate .east 0x18 0x80, trivial⟩ ⟨.setBrightness .south 1 0x07, trivial⟩ 170)).map
        fun (c, f) => (select c.vars, f.bus.phase, (f.view EPort.east.code).length,
          (f.view EPort.south.code).length)) = some (2, .transmitting, 5, 3) := by decide +kernel
  obtain ⟨s, hs, hrun⟩ := Option.bind_eq_some_iff.mp hrun
  obtain ⟨⟨c, f⟩, hc, hstate⟩ := Option.map_eq_some_iff.mp hrun
  obtain ⟨hselect, hstate⟩ := Prod.mk.inj hstate
  obtain ⟨hphase, hstate⟩ := Prod.mk.inj hstate
  obtain ⟨heast, hsouth⟩ := Prod.mk.inj hstate
  obtain ⟨hothers, hpresent⟩ := faces_transactions_whole ⟨_, _, poweredFaces_powered hs, hc⟩
  replace hselect : select c.vars = EPort.south.code := hselect
  rw [hselect] at hothers hpresent
  exact ⟨s, c, f, hs, hc, hselect, hphase, heast, hothers _ (by decide), hsouth, hpresent⟩

/-- Whenever the clock line is driven, no transaction is going on. -/
theorem clock_driven_idle
    (hreach : Reachable PoweredFaces
      (wiredStep muxReact (fun op : FaceOperation => op.1.body) ofOthers) (c, f))
    (hdriven : c.vars .ddrc &&& portcTwclkMask ≠ 0) :
    f.bus.phase = .idle ∧ ∀ p, Whole false (f.view p) := by
  rcases faces_reachable hreach with ⟨-, hclock⟩ | ⟨φ, s', f', hbetween, honward, hdrives⟩
  · exact absurd hclock hdriven
  · have hbus : φ.bus = .driven := by
      by_contra hbus
      have hclock := hbetween.clock.mpr hbus
      rw [show s' .ddrc = c.vars .ddrc from honward.ddrc] at hclock
      exact hdriven hclock
    have hwhole := (hdrives hbus).released (by simp [hbus])
    obtain ⟨txAddress, hb⟩ := hwhole.poised
    exact ⟨hb.ready.bus, hwhole.whole⟩

/-- `InitPortController` is started in the middle of a transaction with `EAST`, and waits; then it drives the
clock line of that face. -/
theorem clock_driven_idle_probed :
    ∃ s c f, poweredFaces = some s ∧
      run (wiredStep muxReact (fun op : FaceOperation => op.1.body) ofOthers) s
        (alone ⟨.setBrightness .east 0 0x10, trivial⟩ 60 ++ .start true ⟨.initPortController, trivial⟩ ::
          (List.replicate 44 [.advance false, .advance true]).flatten ++
            List.replicate 33 (.advance true)) = some (c, f) ∧
      c.vars .ddrc &&& portcTwclkMask ≠ 0 ∧ select c.vars = EPort.east.code ∧
      f.bus.phase = .idle ∧ (f.view EPort.east.code).length = 5 ∧ Whole false (f.view EPort.east.code) := by
  have hrun : (poweredFaces.bind fun s =>
      (run (wiredStep muxReact (fun op : FaceOperation => op.1.body) ofOthers) s
        (alone ⟨.setBrightness .east 0 0x10, trivial⟩ 60 ++ .start true ⟨.initPortController, trivial⟩ ::
          (List.replicate 44 [.advance false, .advance true]).flatten ++
            List.replicate 33 (.advance true))).map
        fun (c, f) => (decide (c.vars .ddrc &&& portcTwclkMask ≠ 0), select c.vars,
          (f.view EPort.east.code).length)) = some (true, 1, 5) := by decide +kernel
  obtain ⟨s, hs, hrun⟩ := Option.bind_eq_some_iff.mp hrun
  obtain ⟨⟨c, f⟩, hc, hstate⟩ := Option.map_eq_some_iff.mp hrun
  obtain ⟨hdriven, hstate⟩ := Prod.mk.inj hstate
  obtain ⟨hselect, hlength⟩ := Prod.mk.inj hstate
  replace hdriven := of_decide_eq_true hdriven
  obtain ⟨hphase, hwhole⟩ := clock_driven_idle ⟨_, _, poweredFaces_powered hs, hc⟩ hdriven
  exact ⟨s, c, f, hs, hc, hdriven, hselect, hphase, hlength, hwhole _⟩

-- `TestAccelerometer` does not lock the port controller: the clock line is driven in the middle of its
-- transaction
example : (poweredFaces.bind fun s => (run (wiredStep muxReact Operation.body ofOthers) s
    (inTurns .testAccelerometer .initPortController 52)).map fun (c, f) =>
      (f.bus.phase, decide (c.vars .ddrc &&& portcTwclkMask = 0))) = some (.transmitting, false) := by
  decide +kernel

end

end SmartblocksOs.Board
