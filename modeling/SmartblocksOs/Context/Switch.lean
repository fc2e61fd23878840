/-
# SmartblocksOs.Context.Switch -- context switching is transparent

`do_something_else` and the handler of the timer tick on the processor, macros included. The run of a
program is a list of `Action`s: code of the current context that writes its own stack only, the two
kinds of switch, and the first statements of `sleep` and `exit_task`. Beside the machine a run keeps
a `Snapshot` of every context at its last suspension. The invariant (`Held`) says that the frame on
the stack, the stack pointer in the table and the bytes above agree with the snapshot for all
suspended contexts at once; `switch_transparent` reads the theorem off it.
-/
import SmartblocksOs.Context.Cpu

namespace SmartblocksOs.Context

open SmartblocksOs.Foundation SmartblocksOs.System

/-! ## The two switches on the processor

A voluntary switch is called, so that the return address is on the stack already; the tick interrupts, and
pushes it. Apart from that, and from the countdown, the two do the same. -/

/-- What the compiled C code between the macros leaves behind besides its effect on the globals: it
may use any register, and the stack below the frame. -/
structure Clobber where
  r : Reg → Byte
  sreg : Byte
  writes : List (Addr × Byte)

namespace Machine

/-- A stretch of C code on the globals: it may leave anything in the registers, and what `Clobber` says on
the stack. -/
def runC (m : Machine) (code : Globals → Option Globals) (κ : Clobber) : Option Machine := do
  let g ← code { m.globals with ram := writeAll m.globals.ram κ.writes }
  some { m with globals := g, r := κ.r, sreg := κ.sreg }

/-- `do_something_else`, called with return address `returnTo`. -/
def doSomethingElse (m : Machine) (returnTo : Addr) (κ : Clobber) : Option Machine := do
  let m := m.execAll ([.call returnTo, .cli] ++ saveContext)
  let m ← m.runC Globals.switchTasks κ
  some (m.execAll (restoreContext ++ [.sei, .ret]))

/-- An interrupt pushes the return address and clears the I bit. -/
def interrupt (m : Machine) : Machine := (m.exec (.call m.pc)).clearI

/-- `ISR(TIMER0_COMPA_vect)`. -/
def timer0CompA (m : Machine) (κ : Clobber) : Option Machine := do
  let m := m.interrupt.execAll ([.cli] ++ saveContext)
  let m ← m.runC Globals.tickTasks κ
  some (m.execAll (restoreContext ++ [.reti]))

end Machine

/-- `cli` twice is `cli` once. -/
theorem clearI_clearI (m : Machine) : m.clearI.clearI = m.clearI := by
  simp only [Machine.clearI, BitVec.and_assoc]
  rfl

/-- The tick handler saves the same frame as a call of `do_something_else` at the interrupted
instruction. -/
theorem interrupt_execAll (m : Machine) :
    m.interrupt.execAll ([.cli] ++ saveContext) = m.execAll ([.call m.pc, .cli] ++ saveContext) := by
  have hcli : m.interrupt.execAll [.cli] = m.execAll [.call m.pc, .cli] :=
    clearI_clearI (m.exec (.call m.pc))
  rw [execAll_append, hcli, ← execAll_append]

/-- The stack pointer and the RAM as `SAVE_CONTEXT` and the C code's use of the stack leave them. -/
def suspended (m : Machine) (returnTo : Addr) (κ : Clobber) : Globals.Suspended where
  sp := frameSp m.sp
  ram := writeAll
    (pushAll m.globals.ram m.sp (frameBytes returnTo (m.sreg &&& 0x7F) m.r)) κ.writes

/-- `m'` is what a switch with the given C code makes of `m`: the globals are those the C code leaves,
and when `tempSp` then names a frame, that frame is what the processor goes on with. -/
def SwitchesTo (m : Machine) (code : Globals → Option Globals) (returnTo : Addr) (κ : Clobber)
    (m' : Machine) : Prop :=
  code (saved m.globals (suspended m returnTo κ)) = some m'.globals ∧
    ∀ top pc sreg r, m'.globals.tempSp = frameSp top → FrameAt m'.globals.ram top pc sreg r →
      m' = { globals := m'.globals, r := r, sreg := sreg ||| 0x80, sp := top, pc := pc }

/-- Both switches are a save, the C code, and a restore. -/
theorem switch_spec {m m' : Machine} {code : Globals → Option Globals} {returnTo : Addr}
    {κ : Clobber} {tail : List Instr} (htail : tail = [.sei, .ret] ∨ tail = [.reti])
    (h : (((m.execAll ([.call returnTo, .cli] ++ saveContext)).runC code κ).bind fun m =>
      some (m.execAll (restoreContext ++ tail))) = some m') :
    SwitchesTo m code returnTo κ m' := by
  obtain ⟨n, hn, hm'⟩ := Option.bind_eq_some_iff.mp h
  obtain ⟨g, hg, hn⟩ := Option.bind_eq_some_iff.mp hn
  rw [saveContext_globals] at hg
  obtain rfl := Option.some.inj hn
  obtain rfl := Option.some.inj hm'
  rw [SwitchesTo, restoreContext_globals _ htail]
  exact ⟨hg, fun top pc sreg r hsp hframe => resume_eq htail hsp hframe⟩

/-- When the C code goes through, so does the switch. -/
theorem switch_exists {m : Machine} {code : Globals → Option Globals} {returnTo : Addr}
    {κ : Clobber} {g : Globals} (tail : List Instr)
    (h : code (saved m.globals (suspended m returnTo κ)) = some g) :
    ∃ m', (((m.execAll ([.call returnTo, .cli] ++ saveContext)).runC code κ).bind fun m =>
      some (m.execAll (restoreContext ++ tail))) = some m' := by
  have hcode : ((m.execAll ([.call returnTo, .cli] ++ saveContext)).runC code κ).isSome = true := by
    rw [Machine.runC, saveContext_globals]
    change ((code (saved m.globals (suspended m returnTo κ))).bind _).isSome = true
    rw [h]
    rfl
  obtain ⟨n, hn⟩ := Option.isSome_iff_exists.mp hcode
  exact ⟨_, by rw [hn]; rfl⟩

/-- `do_something_else` saves the context so that it goes on behind the call. -/
theorem doSomethingElse_switchesTo {m m' : Machine} {returnTo : Addr} {κ : Clobber}
    (h : m.doSomethingElse returnTo κ = some m') :
    SwitchesTo m Globals.switchTasks returnTo κ m' :=
  switch_spec (Or.inl rfl) h

/-- The tick saves it so that it goes on where it was interrupted. -/
theorem timer0CompA_switchesTo {m m' : Machine} {κ : Clobber} (h : m.timer0CompA κ = some m') :
    SwitchesTo m Globals.tickTasks m.pc κ m' := by
  rw [Machine.timer0CompA, interrupt_execAll] at h
  exact switch_spec (Or.inr rfl) h

/-! ## Whose stack, and how deep

Addresses are compared by their depth below the top of a stack, since they may wrap at the end of the
address space. -/

/-- Where the stack of a context starts; that of the idle loop is at the top of memory. -/
def stackBase (g : Globals) (c : Int) : Addr := if c = -1 then 0xFFFF else g.top c

/-- There is room for a frame below `sp` on the stack of context `c`. -/
def Room (g : Globals) (c : Int) (sp : Addr) : Prop :=
  (∀ i < frameSize, stackOwner g (sp - BitVec.ofNat 16 i) = c) ∧
    depth (stackBase g c) sp + frameSize ≤ 2 ^ 16

instance (g : Globals) (c : Int) (sp : Addr) : Decidable (Room g c sp) :=
  inferInstanceAs (Decidable (_ ∧ _))

/-- `a` lies on the stack of context `c`, fewer than `n` bytes below `sp`. -/
def Above (g : Globals) (c : Int) (sp : Addr) (n : Nat) (a : Addr) : Prop :=
  stackOwner g a = c ∧ depth (stackBase g c) a < depth (stackBase g c) sp + n

instance (g : Globals) (c : Int) (sp : Addr) (n : Nat) (a : Addr) : Decidable (Above g c sp n a) :=
  inferInstanceAs (Decidable (_ ∧ _))

/-- What is above `n` bytes is above fewer. -/
theorem Above.add {g : Globals} {c : Int} {sp a : Addr} (h : Above g c sp 0 a) (n : Nat) :
    Above g c sp n a :=
  ⟨h.1, Nat.lt_add_right n h.2⟩

/-- A frame that there is room for lies in the stack of its context. -/
theorem Room.above {g : Globals} {c : Int} {sp : Addr} (h : Room g c sp) {i : Nat}
    (hi : i < frameSize) : Above g c sp frameSize (sp - BitVec.ofNat 16 i) := by
  have hle := h.2
  rw [Above, depth_sub (by omega)]
  exact ⟨h.1 i hi, by omega⟩

/-- The pushes of a suspension stay below the bytes above `sp`. -/
theorem Room.pushAll_above {g : Globals} {c : Int} {sp a : Addr} (h : Room g c sp) {xs : List Byte}
    (hxs : xs.length = frameSize) (ram : Ram) (ha : stackOwner g a = c → Above g c sp 0 a) :
    pushAll ram sp xs a = ram a := by
  apply pushAll_of_forall_ne
  intro i hi
  rintro rfl
  have hle := h.2
  have hdepth := (ha (h.1 i (by omega))).2
  rw [depth_sub (by omega)] at hdepth
  omega

/-! ## Runs of the processor

Code of a context may do anything to the registers and to its own stack. The snapshot is taken when a
context is suspended, and is what it has to find again. -/

/-- What can happen between two instructions of the tasks. -/
inductive Action where
  /-- The code of the current context, which may change any register and its own stack. -/
  | work (r : Reg → Byte) (sreg : Byte) (sp pc : Addr) (writes : List (Addr × Byte))
  /-- The first statement of `sleep`. -/
  | setSleepTime (t : Int16)
  /-- The first statement of `exit_task`. -/
  | stopCurrent
  /-- `yield`, and the second statement of `sleep` and `exit_task`. -/
  | doSomethingElse (returnTo : Addr) (κ : Clobber)
  | tick (κ : Clobber)

namespace Action

/-- Code writes the stack of its own context only, a suspension finds room for its frame, and the C
code of a switch stays below that frame. -/
def Enabled (m : Machine) : Action → Prop
  | work _ _ _ _ writes => ∀ e ∈ writes, stackOwner m.globals e.1 = m.globals.currentTask
  | setSleepTime _ | stopCurrent => m.globals.currentTask ≠ -1
  | doSomethingElse _ κ | tick κ =>
      Room m.globals m.globals.currentTask m.sp ∧
        ∀ e ∈ κ.writes, stackOwner m.globals e.1 = m.globals.currentTask ∧
          ¬ Above m.globals m.globals.currentTask m.sp frameSize e.1

instance (m : Machine) : (a : Action) → Decidable (a.Enabled m)
  | work _ _ _ _ writes => List.decidableBAll _ writes
  | setSleepTime _ | stopCurrent => inferInstanceAs (Decidable (m.globals.currentTask ≠ -1))
  | doSomethingElse _ κ | tick κ =>
      have := List.decidableBAll (fun e : Addr × Byte =>
        stackOwner m.globals e.1 = m.globals.currentTask ∧
          ¬ Above m.globals m.globals.currentTask m.sp frameSize e.1) κ.writes
      inferInstanceAs (Decidable (Room m.globals m.globals.currentTask m.sp ∧ _))

/-- The machine after the action; `none` where the C code would leave the array of tasks. -/
def exec (m : Machine) : Action → Option Machine
  | work r sreg sp pc writes =>
      some { globals := { m.globals with ram := writeAll m.globals.ram writes }, r, sreg, sp, pc }
  | setSleepTime t => (m.globals.setSleepTime t).map fun g => { m with globals := g }
  | stopCurrent => m.globals.stopCurrent.map fun g => { m with globals := g }
  | doSomethingElse returnTo κ => m.doSomethingElse returnTo κ
  | tick κ => m.timer0CompA κ

/-- The actions that end with `RESTORE_CONTEXT` of the chosen context. -/
def Switches : Action → Prop
  | doSomethingElse _ _ | tick _ => True
  | work .. | setSleepTime _ | stopCurrent => False

instance : DecidablePred Switches := fun a => by
  cases a <;> unfold Switches <;> infer_instance

end Action

/-- The processor as a context leaves it when it is suspended, with the address it goes on at. -/
structure Snapshot where
  r : Reg → Byte
  sreg : Byte
  sp : Addr
  pc : Addr
  ram : Ram

/-- The machine as a task leaves it that is to go on at `pc`. -/
def Machine.snapshot (m : Machine) (pc : Addr) : Snapshot :=
  { r := m.r, sreg := m.sreg, sp := m.sp, pc := pc, ram := m.globals.ram }

/-- For each context its snapshot at its last suspension; `-1` is the idle loop. -/
abbrev Snapshots := Int → Option Snapshot

/-- Each switch remembers how the context that it takes away was left. -/
def Snapshots.record (last : Snapshots) (m : Machine) : Action → Snapshots
  | .doSomethingElse returnTo _ =>
      Function.update last m.globals.currentTask (some (m.snapshot returnTo))
  | .tick _ => Function.update last m.globals.currentTask (some (m.snapshot m.pc))
  | .work .. | .setSleepTime _ | .stopCurrent => last

/-- One action of the machine, with the snapshots kept beside it. -/
def cpuStep (s : Machine × Snapshots) (a : Action) : Option (Machine × Snapshots) :=
  if a.Enabled s.1 then (a.exec s.1).map fun m => (m, s.2.record s.1 a) else none

/-- When a step is possible, and what it leaves. -/
theorem cpuStep_eq_some {s t : Machine × Snapshots} {a : Action} :
    cpuStep s a = some t ↔ a.Enabled s.1 ∧ a.exec s.1 = some t.1 ∧ t.2 = s.2.record s.1 a := by
  unfold cpuStep
  split
  · rename_i hen
    rw [Option.map_eq_some_iff]
    constructor
    · rintro ⟨m, hm, rfl⟩
      exact ⟨hen, hm, rfl⟩
    · rintro ⟨-, hm, ht⟩
      exact ⟨t.1, hm, by rw [← ht]⟩
  · rename_i hen
    exact iff_of_false (by simp) fun h => hen h.1

/-! ## The frames of all suspended contexts

One clause for each context that is not running, tasks and idle loop alike. -/

/-- The global that holds the stack pointer of context `c`. -/
def savedSp (g : Globals) (c : Int) : Option Addr :=
  if c = -1 then some g.stackTop else (slot? maxTasks c).map fun j => (g.tasks j).sp

/-- The stack pointer that is loaded depends on the table of tasks only. -/
theorem savedSp_congr {g g' : Globals} (hstack : g'.stackTop = g.stackTop)
    (hsp : ∀ j, (g'.tasks j).sp = (g.tasks j).sp) (c : Int) : savedSp g' c = savedSp g c := by
  simp only [savedSp, hstack, hsp]

/-- Context `c`, suspended with snapshot `s`, can be resumed from `g`. -/
structure Held (g : Globals) (c : Int) (s : Snapshot) : Prop where
  sp : savedSp g c = some (frameSp s.sp)
  room : Room g c s.sp
  frame : FrameAt g.ram s.sp s.pc (s.sreg &&& 0x7F) s.r
  above : ∀ a, Above g c s.sp 0 a → g.ram a = s.ram a

section Congr

variable {g g' : Globals}

theorem stackOwner_congr (h : g'.tasksStackTop = g.tasksStackTop) (a : Addr) :
    stackOwner g' a = stackOwner g a := by
  rw [stackOwner, stackOwner, h]

theorem stackBase_congr (h : g'.tasksStackTop = g.tasksStackTop) (c : Int) :
    stackBase g' c = stackBase g c := by
  rw [stackBase, stackBase, Globals.top, Globals.top, h]

theorem above_congr (h : g'.tasksStackTop = g.tasksStackTop) {c : Int} {sp a : Addr} {n : Nat} :
    Above g' c sp n a ↔ Above g c sp n a := by
  rw [Above, Above, stackOwner_congr h, stackBase_congr h]

/-- What holds a suspended context is its saved stack pointer and the bytes down to its frame. -/
theorem Held.congr {c : Int} {s : Snapshot} (h : Held g c s)
    (hsp : savedSp g' c = savedSp g c) (htop : g'.tasksStackTop = g.tasksStackTop)
    (hram : ∀ a, Above g c s.sp frameSize a → g'.ram a = g.ram a) : Held g' c s where
  sp := hsp.trans h.sp
  room := by
    rw [Room, stackBase_congr htop]
    exact ⟨fun i hi => (stackOwner_congr htop _).trans (h.room.1 i hi), h.room.2⟩
  frame := h.frame.congr fun i hi => hram _ (h.room.above hi)
  above a ha := by
    rw [above_congr htop] at ha
    rw [hram a (ha.add _)]
    exact h.above a ha

end Congr

/-! ## What a switch does to them

The context that is suspended gets a frame, the one that is resumed loses its own, and all others are left
alone because their stacks are disjoint. -/

/-- All contexts but the current one can be resumed from their snapshots. -/
def AllHeld (s : Machine × Snapshots) : Prop :=
  TableOk s.1.globals ∧
    ∀ c snap, s.2 c = some snap → c ≠ s.1.globals.currentTask → Held s.1.globals c snap

/-- The globals the switching code starts from: those of `g` after `SAVE_CONTEXT`, perhaps with the
sleep times counted down. -/
structure SavedFrom (g : Globals) (w : Globals.Suspended) (gs : Globals) : Prop where
  tableOk : TableOk gs
  tempSp : gs.tempSp = w.sp
  ram : gs.ram = w.ram
  currentTask : gs.currentTask = g.currentTask
  tasksStackTop : gs.tasksStackTop = g.tasksStackTop
  taskCount : gs.taskCount = g.taskCount
  running : ∀ j, (gs.tasks j).running = (g.tasks j).running
  savedSp : ∀ c, savedSp gs c = savedSp g c

/-- What `do_something_else` saves. -/
theorem savedFrom_saved {g : Globals} (h : TableOk g) (w : Globals.Suspended) :
    SavedFrom g w (saved g w) :=
  ⟨saved_tableOk h w, rfl, rfl, rfl, rfl, rfl, fun _ => rfl, fun _ => rfl⟩

/-- What the tick saves: it also counts the sleepers down, which touches no stack pointer. -/
theorem savedFrom_ticked {g : Globals} (h : TableOk g) (w : Globals.Suspended) :
    SavedFrom g w (ticked g w) := by
  refine ⟨ticked_tableOk h w, rfl, rfl, rfl, rfl, rfl, ticked_running g w,
    savedSp_congr rfl fun j => ?_⟩
  simp only [ticked]
  split <;> simp

/-- A switch files the stack pointer of the suspended context under that context. -/
theorem savedSp_switched {g g' : Globals} (h : TableOk g) (hs : Switched g g') (c : Int) :
    savedSp g' c = if c = g.currentTask then some g.tempSp else savedSp g c := by
  unfold savedSp
  by_cases hidle : c = -1
  · subst hidle
    rw [if_pos rfl, if_pos rfl, hs.stackTop, apply_ite some]
    exact if_congr eq_comm rfl rfl
  · rw [if_neg hidle, if_neg hidle]
    cases hj : slot? maxTasks c with
    | none =>
        rw [if_neg]
        · rfl
        · rintro rfl
          obtain ⟨j, hcur⟩ := h.exists_current hidle
          rw [slot?_eq_some.mpr hcur] at hj
          exact Option.some_ne_none _ hj
    | some j =>
        rw [Option.map_some, Option.map_some, hs.sp j, slot?_eq_some.mp hj, apply_ite some]

/-- After a switch `tempSp` is the stack pointer of the context to resume. -/
theorem savedSp_current {g g' : Globals} (hs : Switched g g') :
    savedSp g' g'.currentTask = some g'.tempSp := by
  unfold savedSp
  rcases hs.selected with ⟨j, hj, -⟩ | ⟨hidle, -⟩
  · rw [if_neg (by omega), slot?_eq_some.mpr hj, Option.map_some, hs.tempSp_task j hj]
  · rw [if_pos hidle, hs.tempSp_idle hidle]

/-- The frames after a switch, that of the context just suspended among them. -/
theorem held_switched {m : Machine} {gs g' : Globals} {last : Snapshots} {returnTo : Addr}
    {κ : Clobber} (hheld : AllHeld (m, last))
    (hroom : Room m.globals m.globals.currentTask m.sp)
    (hbelow : ∀ e ∈ κ.writes, stackOwner m.globals e.1 = m.globals.currentTask ∧
      ¬ Above m.globals m.globals.currentTask m.sp frameSize e.1)
    (hgs : SavedFrom m.globals (suspended m returnTo κ) gs) (hs : Switched gs g') {c : Int}
    {snap : Snapshot}
    (hc : Function.update last m.globals.currentTask (some (m.snapshot returnTo)) c = some snap) :
    Held g' c snap := by
  have htop : g'.tasksStackTop = m.globals.tasksStackTop := hs.tasksStackTop.trans hgs.tasksStackTop
  have hram : g'.ram = (suspended m returnTo κ).ram := hs.ram.trans hgs.ram
  have hsp := savedSp_switched hgs.tableOk hs c
  rw [hgs.currentTask, hgs.tempSp, hgs.savedSp] at hsp
  -- the C code leaves alone what is not on the current stack below the new frame
  have hκ : ∀ a, (stackOwner m.globals a = m.globals.currentTask →
      Above m.globals m.globals.currentTask m.sp frameSize a) →
      g'.ram a = pushAll m.globals.ram m.sp (frameBytes returnTo (m.sreg &&& 0x7F) m.r) a := by
    intro a ha
    rw [hram]
    apply writeAll_of_forall_ne
    intro e he
    rintro rfl
    exact (hbelow e he).2 (ha (hbelow e he).1)
  by_cases hcur : c = m.globals.currentTask
  · subst hcur
    rw [Function.update_self, Option.some.injEq] at hc
    subst hc
    rw [if_pos rfl] at hsp
    refine ⟨hsp, ?_, ?_, fun a ha => ?_⟩
    · rw [Room, stackBase_congr htop]
      exact ⟨fun i hi => (stackOwner_congr htop _).trans (hroom.1 i hi), hroom.2⟩
    · exact (frameAt_pushAll m.globals.ram m.sp returnTo _ m.r).congr fun i hi =>
        hκ _ fun _ => hroom.above hi
    · rw [above_congr htop] at ha
      rw [hκ a fun _ => ha.add _]
      exact hroom.pushAll_above (by simp [frameBytes, frameSize, pushOrder]) _ fun _ => ha
  · rw [Function.update_of_ne hcur] at hc
    rw [if_neg hcur] at hsp
    apply (hheld.2 c snap hc hcur).congr hsp htop
    intro a ha
    -- neither the frame nor the C code touches the stack of another context
    have hother : stackOwner m.globals a ≠ m.globals.currentTask := by
      rw [ha.1]
      exact hcur
    rw [hκ a fun h => absurd h hother]
    exact hroom.pushAll_above (by simp [frameBytes, frameSize, pushOrder]) _ fun h => absurd h hother

/-! ## The step of a run

By cases on the action. Only the two kinds of switch have something to show. -/

/-- What a switch action leads to, said once for both kinds: the new globals come from a switch, and
when the frame of the resumed context is on its stack the processor goes on from it. -/
theorem exec_switch {m m' : Machine} {a : Action} {returnTo : Addr} {κ : Clobber}
    (ha : a = .doSomethingElse returnTo κ ∨ (a = .tick κ ∧ returnTo = m.pc)) (hok : TableOk m.globals)
    (h : a.exec m = some m') :
    ∃ gs, SavedFrom m.globals (suspended m returnTo κ) gs ∧ Switched gs m'.globals ∧
      ∀ top pc sreg r, m'.globals.tempSp = frameSp top → FrameAt m'.globals.ram top pc sreg r →
        m' = { globals := m'.globals, r := r, sreg := sreg ||| 0x80, sp := top, pc := pc } := by
  rcases ha with rfl | ⟨rfl, rfl⟩
  · obtain ⟨hcode, hframe⟩ := doSomethingElse_switchesTo h
    obtain ⟨g', hg', hs⟩ := doSomethingElse_spec hok (suspended m returnTo κ)
    obtain rfl : g' = m'.globals := Option.some.inj (hg'.symm.trans hcode)
    exact ⟨_, savedFrom_saved hok _, hs, hframe⟩
  · obtain ⟨hcode, hframe⟩ := timer0CompA_switchesTo h
    obtain ⟨g', hg', hs⟩ := timer0CompA_spec hok (suspended m m.pc κ)
    obtain rfl : g' = m'.globals := Option.some.inj (hg'.symm.trans hcode)
    exact ⟨_, savedFrom_ticked hok _, hs, hframe⟩

/-- There are two ways to switch. -/
theorem Action.Switches.kind {a : Action} (h : a.Switches) (m : Machine) :
    ∃ returnTo κ, a = .doSomethingElse returnTo κ ∨ (a = .tick κ ∧ returnTo = m.pc) := by
  cases a with
  | doSomethingElse returnTo κ => exact ⟨returnTo, κ, Or.inl rfl⟩
  | tick κ => exact ⟨m.pc, κ, Or.inr ⟨rfl, rfl⟩⟩
  | _ => exact h.elim

/-- What an action does to the task table: only the current slot, and only its stack pointer or its
flags. -/
structure Others (a : Action) (g g' : Globals) : Prop where
  tableOk : TableOk g'
  taskCount : g'.taskCount = g.taskCount
  tasksStackTop : g'.tasksStackTop = g.tasksStackTop
  running : ∀ j : Fin maxTasks, a ≠ .stopCurrent ∨ (j : Int) ≠ g.currentTask →
    (g'.tasks j).running = (g.tasks j).running
  sp : ∀ j : Fin maxTasks, (j : Int) ≠ g.currentTask → (g'.tasks j).sp = (g.tasks j).sp
  currentTask : ¬ a.Switches → g'.currentTask = g.currentTask
  selected : a.Switches → Selected g'

/-- Every action of the machine is of this kind. -/
theorem exec_others {m m' : Machine} {a : Action} (hok : TableOk m.globals)
    (h : a.exec m = some m') : Others a m.globals m'.globals := by
  -- The two switches save the stack pointer of the task that was running and change no other slot.
  have hswitch : a.Switches → Others a m.globals m'.globals := by
    intro ha
    obtain ⟨returnTo, κ, hkind⟩ := ha.kind m
    obtain ⟨gs, hgs, hs, -⟩ := exec_switch hkind hok h
    refine ⟨hs.tableOk hgs.tableOk, hs.taskCount.trans hgs.taskCount,
      hs.tasksStackTop.trans hgs.tasksStackTop, fun j _ => (hs.running j).trans (hgs.running j),
      fun j hj => ?_, fun hne => absurd ha hne, fun _ => hs.selected⟩
    have hsp := hgs.savedSp j
    simp only [savedSp, if_neg (show ¬ (j : Int) = -1 by omega), slot?_coe, Option.map_some,
      Option.some.injEq] at hsp
    rw [hs.sp, hgs.currentTask, if_neg hj, hsp]
  cases a with
  | doSomethingElse returnTo κ => exact hswitch trivial
  | tick κ => exact hswitch trivial
  -- a task at work touches memory and registers only
  | work r sreg sp pc writes =>
      obtain rfl := Option.some.inj h
      exact ⟨hok.congr rfl rfl fun _ => id, rfl, rfl, fun _ _ => rfl, fun _ _ => rfl, fun _ => rfl,
        fun hf => hf.elim⟩
  | setSleepTime t =>
      obtain ⟨g, hg, rfl⟩ := Option.map_eq_some_iff.mp h
      obtain ⟨j, hj, -⟩ := Option.bind_eq_some_iff.mp hg
      have hcur := slot?_eq_some.mp hj
      obtain rfl := Option.some.inj ((setSleepTime_eq hcur t).symm.trans hg)
      exact ⟨asleep_tableOk hok j t, rfl, rfl, fun i _ => asleep_running _ j i t,
        fun i _ => asleep_sp _ j i t, fun _ => rfl, fun hf => hf.elim⟩
  | stopCurrent =>
      obtain ⟨g, hg, rfl⟩ := Option.map_eq_some_iff.mp h
      obtain ⟨j, hj, -⟩ := Option.bind_eq_some_iff.mp hg
      have hcur := slot?_eq_some.mp hj
      obtain rfl := Option.some.inj ((stopCurrent_eq hcur).symm.trans hg)
      refine ⟨stopped_tableOk hok j, rfl, rfl, fun i hi => ?_, fun i _ => stopped_sp _ j i,
        fun _ => rfl, fun hf => hf.elim⟩
      rw [stopped_running, if_neg]
      rintro rfl
      exact (hi.resolve_left fun hne => hne rfl) hcur

/-- After a switch every context with a snapshot is held, the current one included. -/
theorem step_switch_held {s t : Machine × Snapshots} {a : Action} {returnTo : Addr} {κ : Clobber}
    (ha : a = .doSomethingElse returnTo κ ∨ (a = .tick κ ∧ returnTo = s.1.pc)) (hheld : AllHeld s)
    (hs : cpuStep s a = some t) :
    TableOk t.1.globals ∧ ∀ c snap, t.2 c = some snap → Held t.1.globals c snap := by
  obtain ⟨hen, hexec, hlast⟩ := cpuStep_eq_some.mp hs
  obtain ⟨gs, hgs, hsw, -⟩ := exec_switch ha hheld.1 hexec
  refine ⟨hsw.tableOk hgs.tableOk, fun c snap hc => ?_⟩
  rw [hlast] at hc
  rcases ha with rfl | ⟨rfl, rfl⟩ <;> exact held_switched hheld hen.1 hen.2 hgs hsw hc

/-- What has been saved for a context is held until the context is resumed. -/
theorem step_allHeld {s t : Machine × Snapshots} {a : Action} (hheld : AllHeld s)
    (hs : cpuStep s a = some t) : AllHeld t := by
  obtain ⟨hen, hexec, hlast⟩ := cpuStep_eq_some.mp hs
  cases a with
  | doSomethingElse returnTo κ =>
      obtain ⟨hok, hall⟩ := step_switch_held (Or.inl rfl) hheld hs
      exact ⟨hok, fun c snap hc _ => hall c snap hc⟩
  | tick κ =>
      obtain ⟨hok, hall⟩ := step_switch_held (Or.inr ⟨rfl, rfl⟩) hheld hs
      exact ⟨hok, fun c snap hc _ => hall c snap hc⟩
  | work r sreg sp pc writes =>
      obtain ⟨m, last⟩ := s
      obtain ⟨m', last'⟩ := t
      obtain rfl : _ = m' := Option.some.inj hexec
      obtain rfl : last' = last := hlast
      refine ⟨hheld.1.congr rfl rfl fun _ => id, fun c snap hc hne => ?_⟩
      refine (hheld.2 c snap hc hne).congr rfl rfl fun a ha => ?_
      -- its writes are in its own stack, and the frames of the others are in theirs
      apply writeAll_of_forall_ne
      intro e he
      rintro rfl
      exact hne (ha.1.symm.trans (hen e he))
  | setSleepTime time =>
      obtain ⟨j, hj⟩ := hheld.1.exists_current hen
      obtain ⟨m, last⟩ := s
      obtain ⟨m', last'⟩ := t
      obtain rfl : last' = last := hlast
      simp only [Action.exec, setSleepTime_eq hj, Option.map_some, Option.some.injEq] at hexec
      subst hexec
      have hsp : ∀ c, savedSp (asleep m.globals j time) c = savedSp m.globals c :=
        savedSp_congr rfl fun i => asleep_sp _ j i time
      exact ⟨asleep_tableOk hheld.1 j time, fun c snap hc hne =>
        (hheld.2 c snap hc hne).congr (hsp c) rfl fun _ _ => rfl⟩
  | stopCurrent =>
      obtain ⟨j, hj⟩ := hheld.1.exists_current hen
      obtain ⟨m, last⟩ := s
      obtain ⟨m', last'⟩ := t
      obtain rfl : last' = last := hlast
      simp only [Action.exec, stopCurrent_eq hj, Option.map_some, Option.some.injEq] at hexec
      subst hexec
      have hsp : ∀ c, savedSp (stopped m.globals j) c = savedSp m.globals c :=
        savedSp_congr rfl fun i => stopped_sp _ j i
      exact ⟨stopped_tableOk hheld.1 j, fun c snap hc hne =>
        (hheld.2 c snap hc hne).congr (hsp c) rfl fun _ _ => rfl⟩

/-- The processor refines the scheduler: what an action does to the globals is an event of
`SmartblocksOs.System`. -/
theorem cpuStep_refines {s t : Machine × Snapshots} {a : Action}
    (hs : cpuStep s a = some t) : ∃ e, step s.1.globals e = some t.1.globals := by
  obtain ⟨hen, hexec, -⟩ := cpuStep_eq_some.mp hs
  cases a with
  | work r sreg sp pc writes =>
      refine ⟨.work (writeAll s.1.globals.ram writes), ?_⟩
      rw [← Option.some.inj hexec]
      rfl
  | setSleepTime time =>
      obtain ⟨g, hg, ht⟩ := Option.map_eq_some_iff.mp hexec
      refine ⟨.setSleepTime time, ?_⟩
      rw [← ht]
      exact (if_pos (c := s.1.globals.currentTask ≠ -1) hen).trans hg
  | stopCurrent =>
      obtain ⟨g, hg, ht⟩ := Option.map_eq_some_iff.mp hexec
      refine ⟨.stopCurrent, ?_⟩
      rw [← ht]
      exact (if_pos (c := s.1.globals.currentTask ≠ -1) hen).trans hg
  | doSomethingElse returnTo κ =>
      exact ⟨.yield (suspended s.1 returnTo κ), (doSomethingElse_switchesTo hexec).1⟩
  | tick κ =>
      exact ⟨.tick (suspended s.1 s.1.pc κ), (timer0CompA_switchesTo hexec).1⟩

/-- So every state a run of the processor reaches is one a run of the scheduler reaches. -/
theorem run_cpuStep_refines {as : List Action} {s t : Machine × Snapshots}
    (h : Reachable Initial step s.1.globals) (hrun : run cpuStep s as = some t) :
    Reachable Initial step t.1.globals := by
  refine run_preserves (I := fun s : Machine × Snapshots => Reachable Initial step s.1.globals) ?_ h
    hrun
  intro s a t hs hst
  obtain ⟨e, he⟩ := cpuStep_refines hst
  exact hs.next he

/-- No action that may be taken makes the C code go wrong. -/
theorem cpuStep_total {s : Machine × Snapshots} {a : Action} (hok : TableOk s.1.globals)
    (hen : a.Enabled s.1) : ∃ t, cpuStep s a = some t := by
  have hexec : ∃ m, a.exec s.1 = some m := by
    cases a with
    | work r sreg sp pc writes => exact ⟨_, rfl⟩
    | setSleepTime time =>
        obtain ⟨j, hj⟩ := hok.exists_current hen
        exact ⟨_, by rw [Action.exec, setSleepTime_eq hj]; rfl⟩
    | stopCurrent =>
        obtain ⟨j, hj⟩ := hok.exists_current hen
        exact ⟨_, by rw [Action.exec, stopCurrent_eq hj]; rfl⟩
    | doSomethingElse returnTo κ =>
        obtain ⟨g', hg', -⟩ := doSomethingElse_spec hok (suspended s.1 returnTo κ)
        exact switch_exists [.sei, .ret] hg'
    | tick κ =>
        obtain ⟨g', hg', -⟩ := timer0CompA_spec hok (suspended s.1 s.1.pc κ)
        rw [Action.exec, Machine.timer0CompA, interrupt_execAll]
        exact switch_exists [.reti] hg'
  obtain ⟨m, hm⟩ := hexec
  exact ⟨(m, s.2.record s.1 a), cpuStep_eq_some.mpr ⟨hen, hm, rfl⟩⟩

/-! ## Transparency

When a context is resumed, its registers, its status register, its program counter, its stack pointer and
its stack are those of its snapshot. -/

/-- `sei` and `reti` set the same bit. -/
theorem restored_sreg (x : Byte) : x &&& 0x7F ||| 0x80 = x ||| 0x80 := by
  revert x
  decide

/-- What it means that the processor `m` goes on where the context with snapshot `s` was suspended. -/
structure Resumes (m : Machine) (s : Snapshot) : Prop where
  r : m.r = s.r
  /-- `SREG` is as it was, with the I bit set. -/
  sreg : m.sreg = s.sreg ||| 0x80
  sp : m.sp = s.sp
  pc : m.pc = s.pc
  stack : ∀ a, Above m.globals m.globals.currentTask s.sp 0 a → m.globals.ram a = s.ram a

/-- **Context switching is transparent.** Along every run, from any state of the scheduler in which
nothing has been suspended yet: whenever a switch of either kind resumes a context that a switch of
either kind suspended before, the processor goes on with the registers, the stack pointer, the return
address and the stack contents it had then, and with interrupts enabled. -/
theorem switch_transparent {m₀ : Machine} (hok : TableOk m₀.globals) {as : List Action}
    {a : Action} {m : Machine} {last : Snapshots}
    (hrun : run cpuStep (m₀, fun _ => none) (as ++ [a]) = some (m, last)) (ha : a.Switches)
    {s : Snapshot} (hs : last m.globals.currentTask = some s) : Resumes m s := by
  obtain ⟨n, hn, hstep⟩ := run_concat_eq_some.mp hrun
  have hheld : AllHeld n := run_preserves (I := AllHeld) (fun _ _ _ => step_allHeld)
    ⟨hok, fun c snap hc => absurd hc (by simp)⟩ hn
  obtain ⟨returnTo, κ, hkind⟩ := ha.kind n.1
  have hcur := (step_switch_held hkind hheld hstep).2 _ s hs
  obtain ⟨-, hexec, -⟩ := cpuStep_eq_some.mp hstep
  obtain ⟨gs, -, hsw, hframe⟩ := exec_switch hkind hheld.1 hexec
  have htemp : m.globals.tempSp = frameSp s.sp :=
    Option.some.inj ((savedSp_current hsw).symm.trans hcur.sp)
  have hm := hframe _ _ _ _ htemp hcur.frame
  refine ⟨congrArg Machine.r hm, ?_, congrArg Machine.sp hm, congrArg Machine.pc hm, hcur.above⟩
  exact (congrArg Machine.sreg hm).trans (restored_sreg s.sreg)

/-- The tick starts the first task, which yields to the second; the next tick resumes the first. -/
theorem switch_transparent_yield :
    ∃ m₀ m last s, run cpuStep (m₀, fun _ => none)
        ([.tick ⟨fun _ => 0, 0, []⟩, .work (fun _ => 7) 0x83 0x07A0 0x1250 [(0x07A1, 5)],
          .doSomethingElse 0x1254 ⟨fun _ => 1, 0, [(0x0770, 9)]⟩,
          .work (fun _ => 8) 0x80 0x06B0 0x1310 []] ++ [.tick ⟨fun _ => 2, 0, []⟩]) =
          some (m, last) ∧
      last m.globals.currentTask = some s ∧ Resumes m s := by
  let trace : Option (Machine × Snapshots) := do
    let g ← run step (Globals.construct 0x08F0 fun _ => 0)
      [.scheduleTask 0x1200 3, .scheduleTask 0x1300 4]
    run cpuStep ({ globals := g, r := fun _ => 0, sreg := 0x80, sp := 0x08E0, pc := 0x1100 },
      fun _ => none)
      ([.tick ⟨fun _ => 0, 0, []⟩, .work (fun _ => 7) 0x83 0x07A0 0x1250 [(0x07A1, 5)],
        .doSomethingElse 0x1254 ⟨fun _ => 1, 0, [(0x0770, 9)]⟩,
        .work (fun _ => 8) 0x80 0x06B0 0x1310 []] ++ [.tick ⟨fun _ => 2, 0, []⟩])
  have hsome : trace.any (fun s => (s.2 s.1.globals.currentTask).isSome) = true := by decide +kernel
  obtain ⟨⟨m, last⟩, hm, hlast⟩ := (Option.any_eq_true _ _).mp hsome
  obtain ⟨g, hg, hrun⟩ := Option.bind_eq_some_iff.mp hm
  obtain ⟨s, hs⟩ := Option.isSome_iff_exists.mp hlast
  have hok : TableOk g := reachable_tableOk ⟨_, _, initial_construct _ _, hg⟩
  exact ⟨_, m, last, s, hrun, hs, switch_transparent hok hrun trivial hs⟩

end SmartblocksOs.Context
