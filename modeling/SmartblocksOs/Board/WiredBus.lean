/-
# SmartblocksOs.Board.WiredBus -- all tasks on one bus

The tasks of the board, wired to the hardware of the bus: a store to `TWCR` starts the hardware, which
reports in `TWSR`, whatever the slaves answer and whoever takes the next step. What `CTWController` does
when it is called by one task alone (`TwCall.code_total`) it then does for all of them, as they keep to the
protocol of `SmartblocksOs.Board.Phases`: the bus sees transactions one after the other, each with its
start and its end.

While a call of `CTWController` is under way its steps are interleaved with those of the other tasks, none
of which touches the bus: the call behaves as it would alone. Between two calls, and while nobody has the
lock, the invariant `Between` says what is known of the controller and of the trace. The library's rules
for wired tasks turn the two into a statement about every reachable state.
-/
import SmartblocksOs.Resource.Wired
import SmartblocksOs.Board.BusProtocol
import SmartblocksOs.Board.Frames
import SmartblocksOs.Board.BusTraces

namespace SmartblocksOs.Board

open SmartblocksOs.Foundation SmartblocksOs.System SmartblocksOs.Resource
open SmartblocksOs.Foundation.TwoWire (Hardware Transactions)

/-! ## The hardware

The hardware changes registers of the bus only, and what it does depends on these alone. -/

/-- Nothing but a store to `TWCR` starts the hardware. -/
theorem twiReact_of_ne {x : Var} (hx : x ≠ .twcr) (s : Store Val × Hardware) : twiReact x s = s := by
  unfold twiReact
  split
  · exact absurd rfl hx
  · rfl

/-- It changes its own registers. -/
theorem twiReact_registers (x : Var) (s : Store Val × Hardware) (y : Var) :
    (twiReact x s).1 y = s.1 y ∨ volatile y = true ∧ ofBus y = true := by
  obtain ⟨s, h⟩ := s
  -- the hardware stores to `TWSR` and `TWDR`, and these are volatile
  have hupdate : ∀ (r : Store Val) (z : Var) (v : Val z), r y = s y → volatile z = true ∧ ofBus z = true →
      Function.update r z v y = s y ∨ volatile y = true ∧ ofBus y = true := by
    intro r z v hr hz
    by_cases hy : y = z
    · subst hy
      exact Or.inr hz
    · exact Or.inl ((Function.update_of_ne hy v r).trans hr)
  by_cases hx : x = .twcr
  · subst hx
    simp only [twiReact]
    split
    · exact Or.inl rfl
    · split
      · exact hupdate s _ _ rfl ⟨rfl, rfl⟩
      · split
        · exact hupdate s _ _ rfl ⟨rfl, rfl⟩
        · split
          · exact Or.inl rfl
          · exact hupdate s _ _ rfl ⟨rfl, rfl⟩
          · exact hupdate s _ _ rfl ⟨rfl, rfl⟩
          · rcases hupdate s .twdr (h.receive (s .twcr &&& twea ≠ 0)).1 rfl ⟨rfl, rfl⟩ with hy | hy
            · exact hupdate _ _ _ hy ⟨rfl, rfl⟩
            · exact Or.inr hy
  · rw [twiReact_of_ne hx]
    exact Or.inl rfl

/-- What has been on the bus is not taken back. -/
theorem twiReact_prefix (x : Var) (s : Store Val) (h : Hardware) :
    h.trace <+: (twiReact x (s, h)).2.trace := by
  by_cases hx : x = .twcr
  · subst hx
    simp only [twiReact]
    split
    · exact List.prefix_rfl
    · split
      · exact h.stop_prefix
      · split
        · exact h.start_prefix
        · split
          · exact List.prefix_rfl
          · exact h.address_prefix _
          · exact h.send_prefix _
          · exact h.receive_prefix _
  · rw [twiReact_of_ne hx]

/-- What it does depends on its registers only. -/
theorem twiReact_congr (x : Var) {s s' : Store Val} (h : Hardware)
    (hs : ∀ y, ofBus y = true → s' y = s y) :
    (∀ y, s' y = s y → (twiReact x (s', h)).1 y = (twiReact x (s, h)).1 y) ∧
      (twiReact x (s', h)).2 = (twiReact x (s, h)).2 := by
  -- what it stores is the same on both sides
  have hupdate : ∀ (r r' : Store Val) (z : Var) (v : Val z) (y : Var), r' y = r y →
      Function.update r' z v y = Function.update r z v y := by
    intro r r' z v y hy
    by_cases hyz : y = z
    · subst hyz
      rw [Function.update_self, Function.update_self]
    · rw [Function.update_of_ne hyz, Function.update_of_ne hyz, hy]
  by_cases hx : x = .twcr
  · subst hx
    have htwcr : s' .twcr = s .twcr := hs .twcr rfl
    have htwdr : s' .twdr = s .twdr := hs .twdr rfl
    simp only [twiReact, htwcr, htwdr]
    split
    · exact ⟨fun _ hy => hy, rfl⟩
    · split
      · exact ⟨fun y hy => hupdate _ _ _ _ y hy, rfl⟩
      · split
        · exact ⟨fun y hy => hupdate _ _ _ _ y hy, rfl⟩
        · split
          · exact ⟨fun _ hy => hy, rfl⟩
          · exact ⟨fun y hy => hupdate _ _ _ _ y hy, rfl⟩
          · exact ⟨fun y hy => hupdate _ _ _ _ y hy, rfl⟩
          · exact ⟨fun y hy => hupdate _ _ _ _ y (hupdate _ _ _ _ y hy), rfl⟩
  · rw [twiReact_of_ne hx, twiReact_of_ne hx]
    exact ⟨fun _ hy => hy, rfl⟩

/-! ## The calls

A call by one task that is not disturbed: the trace grows by the transactions of the call. -/

/-- It is about the variables of the controller and the hardware. -/
theorem BetweenCalls.congr {held : Bool} {txAddress : Byte} {m m' : TwMachine}
    (h : BetweenCalls held txAddress m) (hs : ∀ x, guard x = some .tw → m'.vars x = m.vars x)
    (hdevice : m'.device = m.device) : BetweenCalls held txAddress m' := by
  obtain ⟨q, hq⟩ := h.queue
  obtain ⟨bytes, hu⟩ := h.unread
  refine ⟨h.ready.congr (hs _ rfl) (hs _ rfl) hdevice, ⟨q, ?_⟩, ⟨bytes, ?_⟩, (hs _ rfl).trans h.address⟩
  · exact hq.congr (hs _ rfl) (hs _ rfl) fun _ => hs _ rfl
  · exact hu.congr (hs _ rfl) (hs _ rfl) fun _ => hs _ rfl

/-- No call is under way, and the controller knows whether it has kept the bus. -/
def Poised (held : Bool) (s : Store Val) (h : Hardware) : Prop :=
  ∃ txAddress, BetweenCalls held txAddress ⟨s, h, []⟩

/-- The same with the address forgotten. -/
theorem Poised.congr {held : Bool} {s s' : Store Val} {h : Hardware} (hp : Poised held s h)
    (hs : ∀ x, ofBus x = true → s' x = s x) : Poised held s' h := by
  obtain ⟨txAddress, hb⟩ := hp
  refine ⟨txAddress, hb.congr (fun x hx => hs x ?_) rfl⟩
  cases x with
  | twsr | twdr | twcr => rfl
  | _ => exact beq_iff_eq.mpr hx

/-- The bus has seen whole transactions, of which the last may have kept it. -/
def Whole (held : Bool) (trace : List TwoWire.BusEvent) : Prop :=
  ∃ transfers, Transactions false transfers trace held

/-- More whole transactions. -/
theorem Whole.append {held held' : Bool} {transfers : List (BitVec 8 × Bool)}
    {trace trace' : List TwoWire.BusEvent} (h : Whole held trace)
    (h' : Transactions held transfers trace' held') : Whole held' (trace ++ trace') := by
  obtain ⟨before, hbefore⟩ := h
  exact ⟨before ++ transfers, hbefore.append h'⟩

section

variable {face : Bool} {φ φ' : Phase} {β : Type} {c : Code β}

/-- A call that is begun in its phase ends in its phase: it adds a transaction or none. -/
theorem Calls.total (h : Calls face φ β c φ') {held : Bool} (hkept : held = true → φ.bus = .kept)
    {m : TwMachine} (hm : Poised held m.vars m.device) :
    Returns c m fun _ m' => ∃ transfers trace held', m'.device.trace = m.device.trace ++ trace ∧
      Transactions held transfers trace held' ∧ (held' = true → φ'.bus = .kept) ∧
        Poised held' m'.vars m'.device := by
  obtain ⟨txAddress, hm⟩ := hm
  replace hm : BetweenCalls held txAddress m := hm.congr (fun _ _ => rfl) rfl
  have hpoised : ∀ {held' : Bool} {a : Byte} {m' : TwMachine}, BetweenCalls held' a m' →
      Poised held' m'.vars m'.device := fun h => ⟨_, h.congr (fun _ _ => rfl) rfl⟩
  -- a call without a transaction leaves the bus kept or free as it was
  have hsilent : ∀ {trace : List TwoWire.BusEvent} {held' : Bool}, Transactions held [] trace held' →
      held' = true → φ.bus = .kept := by
    intro trace held' h
    cases h with
    | nil => exact hkept
  -- one with a transaction keeps it only where it was asked to
  have hending : ∀ {slarw : Byte} {sendStop : Bool} {trace : List TwoWire.BusEvent} {held' : Bool},
      Transactions held [(slarw, sendStop)] trace held' → held' = true →
        (if sendStop then Bus.taken else Bus.kept) = .kept := by
    rintro slarw sendStop trace held' h rfl
    cases h with
    | cons hone hrest =>
        cases hrest with
        | nil =>
            rw [hone.sendStop_eq_false]
            rfl
  cases h with
  | beginTransmission address =>
      refine (TwCall.code_total (c := .beginTransmission address) hm trivial).mono ?_
      rintro - m' ⟨trace, held', htrace, htransactions, hm'⟩
      exact ⟨_, trace, held', htrace, htransactions, hsilent htransactions, hpoised hm'⟩
  | writeByte data =>
      refine (Total.bind_iff.mp (TwCall.code_total (c := .write data) hm trivial)).mono fun _ m' h => ?_
      obtain ⟨trace, held', htrace, htransactions, hm'⟩ := Total.pure_iff.mp h
      exact ⟨_, trace, held', htrace, htransactions, hsilent htransactions, hpoised hm'⟩
  | readByte =>
      refine (Total.bind_iff.mp (TwCall.code_total (c := .read) hm trivial)).mono fun _ m' h => ?_
      obtain ⟨trace, held', htrace, htransactions, hm'⟩ := Total.pure_iff.mp h
      exact ⟨_, trace, held', htrace, htransactions, hsilent htransactions, hpoised hm'⟩
  | endTransmission sendStop =>
      refine (Total.bind_iff.mp (TwCall.code_total (c := .endTransmission sendStop) hm trivial)).mono ?_
      intro _ m' h
      obtain ⟨trace, held', htrace, htransactions, hm'⟩ := Total.pure_iff.mp h
      exact ⟨_, trace, held', htrace, htransactions, hending htransactions, hpoised hm'⟩
  | readFrom address sendStop _ hlength =>
      refine (Total.bind_iff.mp (TwCall.code_total (c := .readFrom address _ sendStop) hm hlength)).mono ?_
      intro _ m' h
      obtain ⟨trace, held', htrace, htransactions, hm'⟩ := Total.pure_iff.mp h
      exact ⟨_, trace, held', htrace, htransactions, hending htransactions, hpoised hm'⟩

end

/-! ## Who has the controller

The state of the bus belongs to whoever holds the lock of the TW controller, and to nobody while it is
free. -/

/-- The TW controller between two calls, in each phase of the task that has it. -/
def Between (φ : Phase) (s : Store Val) (h : Hardware) : Prop :=
  ∃ held, (held = true → φ.bus = .kept) ∧ Poised held s h ∧ Whole held h.trace

/-- It is about the variables of the bus. -/
theorem Between.congr {φ φ' : Phase} {s s' : Store Val} {h : Hardware} (hb : Between φ s h)
    (hs : ∀ x, ofBus x = true → s' x = s x) (hφ : φ.bus = .kept → φ'.bus = .kept) : Between φ' s' h := by
  obtain ⟨held, hkept, hpoised, hwhole⟩ := hb
  exact ⟨held, fun h => hφ (hkept h), hpoised.congr hs, hwhole⟩

/-- Under the lock of the TW controller: nobody else stores its variables, and the bus is released with
it. -/
def busCustody : Custody (phases false) Hardware where
  react := twiReact
  master := .tw
  owned := ofBus
  free s h := Poised false s h ∧ Whole false h.trace
  between := Between
  owned_of_touched hx := hx
  react_other {x} hx s := by
    apply twiReact_of_ne
    rintro rfl
    cases hx
  react_congr x s s' h hs := by
    obtain ⟨hvars, hdevice⟩ := twiReact_congr x h hs
    exact ⟨fun y hy => hvars y (hs y hy), hdevice⟩
  free_congr hs h := ⟨h.1.congr hs, h.2⟩
  between_congr hs h := h.congr hs id
  call_holds h := h.calling.tw
  call_between h m hb := by
    obtain ⟨held, hkept, hpoised, hwhole⟩ := hb
    refine (h.total hkept hpoised).mono ?_
    rintro - m' ⟨transfers, trace, held', htrace, htransactions, hkept', hpoised'⟩
    refine ⟨held', hkept', hpoised', ?_⟩
    rw [htrace]
    exact hwhole.append htransactions
  store_owned h hx := absurd (Phase.store_touched h) (by simp [hx])
  store_between {x v φ φ' s h} hst _ hb := by
    have hx := Phase.store_touched hst
    refine hb.congr (fun y hy => Function.update_of_ne ?_ v s) fun hkept => ?_
    · rintro rfl
      rw [hx] at hy
      cases hy
    · rcases Phase.store_bus hst with hbus | hbus
      · rw [hbus, hkept]
      · rw [hkept] at hbus
        simp at hbus
  take _ h := ⟨false, nofun, h.1, h.2⟩
  lock_between {l φ φ' s h} hlock _ hb := by
    refine hb.congr (fun _ _ => rfl) fun hkept => ?_
    rcases Phase.lock_bus hlock with hbus | ⟨hbus, -⟩
    · rw [hbus, hkept]
    · rw [hkept] at hbus
      cases hbus
  unlock_between {l φ φ' s h} hunlock _ _ hb := by
    refine hb.congr (fun _ _ => rfl) fun hkept => ?_
    rcases Phase.unlock_bus hunlock with hbus | ⟨hbus, -⟩
    · rw [hbus, hkept]
    · rw [hkept] at hbus
      cases hbus
  give {φ φ' s h} hunlock hb := by
    obtain ⟨held, hkept, hpoised, hwhole⟩ := hb
    obtain ⟨htaken, -⟩ := Option.ite_none_right_eq_some.mp hunlock
    have hheld : held = false := by
      refine Bool.eq_false_iff.mpr fun h => ?_
      have := hkept h
      rw [htaken] at this
      cases this
    subst hheld
    exact ⟨hpoised, hwhole⟩

/-! ## Every reachable state -/

/-- The registers of the other devices, which change by themselves. -/
def ofOthers : Var → Bool
  | .pinc | .milliseconds | .uartFull | .uartBusy => true
  | _ => false

/-- These registers are protected by no lock, and may come to hold any value. -/
theorem ofOthers_shared (long : Prop) {x : Var} (hx : ofOthers x = true) :
    (discipline long).guard x = none ∧ ∀ v w, (discipline long).may x v w := by
  apply volatile_shared
  cases x with
  | pinc | milliseconds | uartFull | uartBusy => rfl
  | _ => exact absurd hx (by simp [ofOthers])

section

variable {ι : Type} {c : Tasks ι Var Val Lock Event} {h : Hardware}

/-- The tasks are about to run; `CTWController` has been constructed, and nothing has been on the bus. -/
def Powered (ch : Tasks ι Var Val Lock Event × Hardware) : Prop :=
  ch.1.Initial ∧ ∃ m : TwMachine, m.device.phase = .idle ∧ m.device.trace = [] ∧
    Returns CTWController.construct m fun _ m' => m'.vars = ch.1.vars ∧ m'.device = ch.2

/-- The bus is at rest and has seen nothing when the tasks start. -/
theorem Powered.free (hp : Powered (c, h)) : c.Initial ∧ Poised false c.vars h ∧ h.trace = [] := by
  obtain ⟨hinit, m, hidle, htrace, hreturns⟩ := hp
  obtain ⟨-, -, m', -, ⟨hready, hqueue, -, hunread, hdevice, -⟩, hvars, hhw⟩ :=
    (CTWController.construct_total hidle).and hreturns
  replace hvars : m'.vars = c.vars := hvars
  replace hhw : m'.device = h := hhw
  refine ⟨hinit, ⟨m'.vars .txAddress, ?_⟩, ?_⟩
  · rw [← hvars, ← hhw]
    exact ⟨hready.congr rfl rfl rfl, ⟨_, hqueue⟩, ⟨_, hunread⟩, rfl⟩
  · rw [← hhw, hdevice, htrace]

/-- At the start nobody has the bus. -/
theorem Powered.released (hp : Powered (c, h)) : c.Initial ∧ busCustody.free c.vars h := by
  obtain ⟨hinit, hpoised, htrace⟩ := hp.free
  refine ⟨hinit, hpoised, [], ?_⟩
  rw [htrace]
  exact .nil false

/-- The tasks of the board keep to the protocol, so that the rules for wired tasks apply. -/
theorem busCustody_wiring :
    Wiring (discipline True) Idle busCustody Operation.body ofOthers where
  disciplined op := op.body_idle (Or.inl trivial)
  follows op := op.body_leads nofun
  device _ hx := ofOthers_shared True hx
  apart x hx := by
    cases x with
    | pinc | milliseconds | uartFull | uartBusy => rfl
    | _ => exact absurd hx (by simp [ofOthers])
  registers x s y := (twiReact_registers x s y).imp_right fun hy => volatile_shared True hy.1

variable [DecidableEq ι]

/-- Whatever the slaves answer and in whatever order the tasks take their steps: what has been on the bus
is the beginning of transactions that follow each other. While no task has taken the TW controller these
are whole, and the bus is idle. -/
theorem wired_transactions_whole
    (hreach : Reachable Powered (wiredStep twiReact Operation.body ofOthers) (c, h)) :
    (∃ more held, Whole held (h.trace ++ more)) ∧
      ((∀ t, ¬ Taken c.locks t .tw) → h.phase = .idle ∧ Whole false h.trace) := by
  obtain ⟨owner, phase, hwired⟩ := reachable_wired busCustody_wiring rfl
    (fun _ _ hp => Powered.released hp) hreach
  constructor
  · rcases hwired.free_or_busy with ⟨-, hwhole⟩ | ⟨t, -, hbusy⟩
    · exact ⟨[], false, (List.append_nil h.trace).symm ▸ hwhole⟩
    · -- the call that is under way would end
      obtain ⟨s₁, s', h', -, ⟨held, -, -, hwhole⟩, hprefix⟩ := hbusy.completes
        (fun r r' => r.2.trace <+: r'.2.trace) (fun _ => List.prefix_rfl)
        (fun _ _ _ => List.IsPrefix.trans) fun x v s d _ => twiReact_prefix x _ d
      obtain ⟨more, hmore⟩ : h.trace <+: h'.trace := hprefix
      rw [← hmore] at hwhole
      exact ⟨more, held, hwhole⟩
  · intro hfree
    obtain ⟨⟨txAddress, hbetween⟩, hwhole⟩ := hwired.free hfree
    exact ⟨hbetween.ready.bus, hwhole⟩

omit [DecidableEq ι] in
theorem powered_of_exec {m m' : TwMachine} {fuel : Nat} (hinit : c.Initial) (hidle : m.device.phase = .idle)
    (htrace : m.device.trace = []) (hexec : Prog.exec twiReact fuel CTWController.construct m = some ((), m')) :
    Powered ({ c with vars := m'.vars }, m'.device) :=
  ⟨⟨hinit.1, hinit.2.1, hinit.2.2⟩, m, hidle, htrace, fuel, (), m', hexec, rfl, rfl⟩

/-- A bus of slaves that acknowledge every byte. -/
def acknowledging : Hardware := ⟨.idle, fun _ => ⟨none, true, 7⟩, []⟩

/-- Two tasks on such a board. -/
def poweredTasks : Option (Tasks Bool Var Val Lock Event × Hardware) :=
  (Prog.exec twiReact 0 CTWController.construct ⟨atRest, acknowledging, []⟩).map fun r =>
    ({ idleTasks with vars := r.2.vars }, r.2.device)

/-- The board after its constructors have run. -/
theorem poweredTasks_powered {ch : Tasks Bool Var Val Lock Event × Hardware} (h : poweredTasks = some ch) :
    Powered ch := by
  obtain ⟨⟨u, m⟩, hexec, rfl⟩ := Option.map_eq_some_iff.mp h
  exact powered_of_exec idleTasks_initial rfl rfl hexec

/-- A task gets at the bus between the two transactions of `EnablePort`, which it finds in the middle of the
first one. -/
theorem wired_transactions_whole_contended :
    ∃ s c h c' h', poweredTasks = some s ∧
      run (wiredStep twiReact Operation.body ofOthers) s
        (inTurns (.setBrightness .east 0 0x10) (.enablePort .south) 60) = some (c, h) ∧
      h.phase = .transmitting ∧ (∃ more held, Whole held (h.trace ++ more)) ∧
      run (wiredStep twiReact Operation.body ofOthers) s
        (inTurns (.setBrightness .east 0 0x10) (.enablePort .south) 206) = some (c', h') ∧
      h'.trace.length = 12 ∧ Whole false h'.trace := by
  have hrun : (poweredTasks.bind fun s =>
      (run (wiredStep twiReact Operation.body ofOthers) s
        (inTurns (.setBrightness .east 0 0x10) (.enablePort .south) 60)).bind fun (_, h) =>
          (run (wiredStep twiReact Operation.body ofOthers) s
            (inTurns (.setBrightness .east 0 0x10) (.enablePort .south) 206)).map fun (c', h') =>
              (h.phase, h'.trace.length,
                decide (∀ t : Bool, ¬ (c'.locks.holds t .tw = true ∨ c'.locks.phase t = .clear .tw)))) =
        some (.transmitting, 12, true) := by decide +kernel
  obtain ⟨s, hs, hrun⟩ := Option.bind_eq_some_iff.mp hrun
  obtain ⟨⟨c, h⟩, hc, hrun⟩ := Option.bind_eq_some_iff.mp hrun
  obtain ⟨⟨c', h'⟩, hc', hstate⟩ := Option.map_eq_some_iff.mp hrun
  obtain ⟨hphase, hstate⟩ := Prod.mk.inj hstate
  obtain ⟨hlength, hfree⟩ := Prod.mk.inj hstate
  replace hfree := of_decide_eq_true hfree
  have hpowered := poweredTasks_powered hs
  refine ⟨s, c, h, c', h', hs, hc, hphase, ?_, hc', hlength, ?_⟩
  · exact (wired_transactions_whole ⟨_, _, hpowered, hc⟩).1
  · exact ((wired_transactions_whole ⟨_, _, hpowered, hc'⟩).2 hfree).2

end

end SmartblocksOs.Board
