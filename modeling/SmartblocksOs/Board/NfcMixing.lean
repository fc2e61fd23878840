/-
# SmartblocksOs.Board.NfcMixing -- whose frame an acknowledge and a reply belong to

An exchange with a PN532 is three transactions: `write_cmd` sends the frame, and `read_dt` polls for the
acknowledge and then for the reply. Each transaction has both resources to itself, but they are released
in between, while the task sleeps. What the PN532 answers belongs to the frame it was sent last, so the
tasks are followed here together with the task whose frame that was (`Heard`).

The task whose frame a PN532 has heard last is a history variable: it is computed from the notes of the
tasks and read by no program. An exchange is mixed when, at its acknowledge or its reply, that task is
another one. The condition under which none is mixed is on the callers: a call for a face is made only
while no other task is in a command for it.
-/
import SmartblocksOs.Board.NfcFrames
import SmartblocksOs.Board.Operations
import Mathlib.Data.Fintype.Defs

namespace SmartblocksOs.Board

open SmartblocksOs.Foundation SmartblocksOs.System SmartblocksOs.Resource

open CNFCController (frameStart)

/-! ## The exchange a task has under way

Computed from the notes of the task, one after the other: where its last frame has gone, and whether the
acknowledge and the reply have been read since. -/

/-- A command has sent its frame, and has not yet read the acknowledge and the reply. -/
structure Exchange where
  /-- Where the multiplexer was when the frame was sent. -/
  select : Byte
  /-- How many functions the task is in inside the command. -/
  depth : Nat
  /-- How many of `write_cmd` and the two `read_dt` have returned. -/
  returned : Nat
  deriving DecidableEq, Repr

/-- Where the frame goes that `write_cmd` hands over, called by a command for a face. -/
def frameSent : List Callee → Event → Option Byte
  | .nfc _ :: .nfc _ :: _, .endTransmission select bytes =>
      if frameStart.isPrefixOf bytes then some select else none
  | _, _ => none

/-- What becomes of an exchange. -/
def Exchange.next (x : Exchange) : Event → Option Exchange
  | .called _ => some { x with depth := x.depth + 1 }
  | .returned =>
      match x.depth with
      -- the command itself returns, as there was no acknowledge
      | 0 => none
      | 1 => if x.returned = 2 then none else some { x with depth := 0, returned := x.returned + 1 }
      | depth + 2 => some { x with depth := depth + 1 }
  | _ => some x

/-- The transactions of a task, and its exchange. -/
structure Progress where
  transaction : Transaction
  exchange : Option Exchange
  deriving DecidableEq, Repr

/-- A note of the task. A frame that is sent opens an exchange; everything else belongs to the one that is
open. -/
def Progress.next (x : Progress) (e : Event) : Progress where
  transaction := x.transaction.next e
  exchange :=
    match frameSent x.transaction.callers e with
    | some select => some ⟨select, 1, 0⟩
    | none => x.exchange.bind fun y => y.next e

/-- What a task is doing after the notes `g`. -/
def progress (g : List Event) : Progress := g.foldl Progress.next ⟨⟨[], [], []⟩, none⟩

/-- The exchange that a task has under way after the notes `g`. -/
def underWay (g : List Event) : Option Exchange := (progress g).exchange

/-- The progress of a task includes its transaction. -/
theorem progress_transaction (g : List Event) : (progress g).transaction = transaction g := by
  induction g using List.reverseRecOn with
  | nil => rfl
  | append_singleton g e ih =>
      rw [transaction_concat, ← ih, progress, progress, List.foldl_append]
      rfl

/-- What one note more does to the exchange that is under way. -/
theorem underWay_concat (g : List Event) (e : Event) :
    underWay (g ++ [e]) =
      match frameSent (transaction g).callers e with
      | some select => some ⟨select, 1, 0⟩
      | none => (underWay g).bind fun x => x.next e := by
  rw [← progress_transaction, underWay, progress, List.foldl_append]
  rfl

/-! ### The face of an exchange

The face is that of the multiplexer at the frame, and stays the same up to the reply because the task
selects it again for each poll. -/

instance : Fintype EPort :=
  ⟨{.north, .east, .south, .west, .top, .bottom, .nullport}, by intro p; cases p <;> decide⟩

theorem EPort.code_inj {p q : EPort} (h : p.code = q.code) : p = q := by
  revert h
  cases p <;> cases q <;> decide

/-- The task is in a function of `CNFCController` called for the face `p`. -/
def InCommandFor (g : List Event) (p : EPort) : Prop := .nfc p ∈ (transaction g).callers

instance (g : List Event) (p : EPort) : Decidable (InCommandFor g p) :=
  inferInstanceAs (Decidable (_ ∈ _))

/-- The frame was sent where the command of the exchange was to send it. -/
def Exchange.AtCommand (x : Exchange) (g : List Event) : Prop :=
  ∃ p : EPort, x.select = p.code ∧ ((transaction g).callers.drop x.depth).head? = some (.nfc p)

section

variable {g : List Event} {e : Event} {x y : Exchange} {long : Prop}

/-- An exchange is under way inside a command for its face. -/
theorem Exchange.AtCommand.inCommandFor (h : x.AtCommand g) :
    ∃ p : EPort, x.select = p.code ∧ InCommandFor g p := by
  obtain ⟨p, hselect, hhead⟩ := h
  exact ⟨p, hselect, List.mem_of_mem_drop (List.mem_of_mem_head? hhead)⟩

theorem Exchange.next_select (h : y.next e = some x) : x.select = y.select := by
  cases e with
  | returned =>
      rw [Exchange.next] at h
      split at h
      · cases h
      · split at h
        · cases h
        · obtain rfl := Option.some.inj h
          rfl
      · obtain rfl := Option.some.inj h
        rfl
  | called _ | beginTransmission | accepted _ | refused | endTransmission _ _ | request _ | handler _
  | received _ | taken _ =>
      obtain rfl := Option.some.inj h
      rfl

/-- The functions called in a command, and their returns, are counted. -/
theorem Exchange.AtCommand.next (h : y.AtCommand g) (hnext : y.next e = some x) :
    x.AtCommand (g ++ [e]) := by
  obtain ⟨p, hselect, hhead⟩ := h
  refine ⟨p, (Exchange.next_select hnext).trans hselect, ?_⟩
  rw [transaction_concat]
  cases e with
  | called q =>
      obtain rfl := Option.some.inj hnext
      exact hhead
  -- a return may end the function that has read the acknowledge or the reply
  | returned =>
      show ((transaction g).callers.tail.drop x.depth).head? = some (.nfc p)
      rw [← List.drop_one, List.drop_drop]
      rw [Exchange.next] at hnext
      split at hnext
      · cases hnext
      · rename_i hdepth
        split at hnext
        · cases hnext
        · obtain rfl := Option.some.inj hnext
          rwa [hdepth] at hhead
      · rename_i depth hdepth
        obtain rfl := Option.some.inj hnext
        rw [hdepth] at hhead
        rwa [Nat.add_comm]
  | beginTransmission | accepted _ | refused | endTransmission _ _ | request _ | handler _ | received _
  | taken _ =>
      obtain rfl := Option.some.inj hnext
      exact hhead

/-- A command sends its frame to the face it was called for. -/
theorem frameSent_face {select : Byte} (hallow : allow long g e)
    (h : frameSent (transaction g).callers e = some select) :
    ∃ p callers, (transaction g).callers = .nfc p :: .nfc p :: callers ∧ select = p.code := by
  unfold frameSent at h
  split at h
  · rename_i p q callers select' bytes hcallers
    split at h
    · obtain rfl := Option.some.inj h
      have hp : select' = p.code := hallow.1 p (by rw [hcallers]; simp [Transaction.faces])
      have hq : select' = q.code := hallow.1 q (by rw [hcallers]; simp [Transaction.faces])
      obtain rfl : p = q := EPort.code_inj (hp.symm.trans hq)
      exact ⟨p, callers, hcallers, hp⟩
    · cases h
  · cases h

/-- Sending a frame is neither a call nor a return. -/
theorem frameSent_callers {select : Byte} (h : frameSent (transaction g).callers e = some select) :
    (transaction (g ++ [e])).callers = (transaction g).callers := by
  rw [transaction_concat]
  unfold frameSent at h
  split at h
  · rfl
  · cases h

/-- Whatever the other tasks do, an exchange is one of a command for the face. -/
theorem atCommand_of_allowed (hg : Allowed (allow long) g) (hx : underWay g = some x) :
    x.AtCommand g := by
  induction g using List.reverseRecOn generalizing x with
  | nil => cases hx
  | append_singleton g e ih =>
      rw [underWay_concat] at hx
      split at hx
      · rename_i select hframe
        obtain rfl := Option.some.inj hx
        obtain ⟨p, callers, hcallers, hselect⟩ := frameSent_face (hg g e [] rfl) hframe
        refine ⟨p, hselect, ?_⟩
        rw [frameSent_callers hframe, hcallers]
        rfl
      · obtain ⟨y, hy, hnext⟩ := Option.bind_eq_some_iff.mp hx
        exact (ih hg.left hy).next hnext

end

/-! ## What a PN532 has heard

A frame that is sent to a face is heard by the PN532 of that face and replaces the one heard before. -/

/-- The tasks, and what the PN532s have heard. -/
structure Heard (ι : Type) where
  tasks : Tasks ι Var Val Lock Event
  /-- The task whose frame was the last one sent where the multiplexer selects so. -/
  last : Byte → Option ι

section

variable {ι Op : Type}

/-- Where the frame goes that is sent when the log `g` of a task becomes `g'`. -/
def frameNoted (g g' : List Event) : Option Byte :=
  g'[g.length]?.bind (frameSent (transaction g).callers)

/-- A step of a task after which `tasks` is left: the frame it may have sent is the last one heard at its
face. -/
def Heard.after (w : Heard ι) (tasks : Tasks ι Var Val Lock Event) : Action ι Op Val → Heard ι
  | .advance t =>
      match frameNoted (w.tasks.log t) (tasks.log t) with
      | some select => ⟨tasks, Function.update w.last select (some t)⟩
      | none => ⟨tasks, w.last⟩
  | .start _ _ | .device _ _ => ⟨tasks, w.last⟩

/-- A frame that is noted is the last note. -/
theorem frameNoted_concat (g : List Event) (e : Event) :
    frameNoted g (g ++ [e]) = frameSent (transaction g).callers e := by
  simp [frameNoted]

/-- The history variable is read by no task. -/
@[simp]
theorem Heard.after_tasks (w : Heard ι) (tasks : Tasks ι Var Val Lock Event)
    (a : Action ι Op Val) : (w.after tasks a).tasks = tasks := by
  cases a with
  | advance t =>
      rw [Heard.after]
      split
      · rfl
      · rfl
  | start t op | device x v => rfl

/-- A step that makes no note sends no frame. -/
theorem Heard.after_of_log (w : Heard ι) {tasks : Tasks ι Var Val Lock Event}
    (hlog : tasks.log = w.tasks.log) (a : Action ι Op Val) :
    (w.after tasks a).last = w.last := by
  cases a with
  | advance t => simp [Heard.after, frameNoted, hlog]
  | start t op | device x v => rfl

/-- A step of `t` that makes the note `e`. -/
theorem Heard.after_last (w : Heard ι) {tasks : Tasks ι Var Val Lock Event} {t : ι} {e : Event}
    (hlog : tasks.log t = w.tasks.log t ++ [e]) :
    (w.after tasks (.advance t : Action ι Op Val)).last =
      (frameSent (transaction (w.tasks.log t)).callers e).elim w.last
        fun select => Function.update w.last select (some t) := by
  rw [Heard.after, hlog, frameNoted_concat]
  cases frameSent (transaction (w.tasks.log t)).callers e with
  | none => rfl
  | some select => rfl

variable [DecidableEq ι]

/-- The steps of tasks that run operations of the board. -/
def boardStep (operation : Op → Operation) : Tasks ι Var Val Lock Event → Action ι Op Val →
    Option (Tasks ι Var Val Lock Event) :=
  tasksStep (fun op => (operation op).body) volatile

/-- The same steps, with what the PN532s hear. -/
def listen (operation : Op → Operation) (w : Heard ι) (a : Action ι Op Val) : Option (Heard ι) :=
  (boardStep operation w.tasks a).map fun tasks => w.after tasks a

/-- No task has started an operation yet, and no frame has been sent. -/
def Heard.Initial (w : Heard ι) : Prop := w.tasks.Initial ∧ ∀ select, w.last select = none

/-- Since the task `t` has sent the frame of its exchange, no other task has sent one to the same
PN532. -/
def Heard.Unmixed (w : Heard ι) : Prop :=
  ∀ t x, underWay (w.tasks.log t) = some x → w.last x.select = some t

/-! ## Commands one at a time

The condition is on the calls of `CNFCController` alone: what a task does to the LEDs of the face in the
meantime is none of its business. -/

/-- When the task that takes the step calls a function of `CNFCController` for a face, no other task is in
one for that face. What the tasks do with the LEDs is free. -/
def OneAtATime (operation : Op → Operation) (c : Tasks ι Var Val Lock Event) :
    Action ι Op Val → Prop
  | .advance t => ∀ c' ∈ boardStep operation c (.advance t), ∀ p, InCommandFor (c'.log t) p →
      InCommandFor (c.log t) p ∨ ∀ u, u ≠ t → ¬ InCommandFor (c.log u) p
  | .start _ _ | .device _ _ => True

variable {operation : Op → Operation} {w w' : Heard ι} {a : Action ι Op Val}

/-- What holds as long as commands for one face come one at a time. -/
structure Orderly (operation : Op → Operation) (w : Heard ι) : Prop where
  reachable : Reachable Tasks.Initial (boardStep operation) w.tasks
  alone : ∀ t u p, InCommandFor (w.tasks.log t) p → InCommandFor (w.tasks.log u) p → t = u
  unmixed : w.Unmixed

/-- The notes of a task are those the discipline allows. -/
theorem allowed_of_reachable {c : Tasks ι Var Val Lock Event}
    (h : Reachable Tasks.Initial (boardStep operation) c) (t : ι) : Allowed (allow True) (c.log t) := by
  obtain ⟨owner, -, hs⟩ := board_sound True operation (fun _ => Or.inl trivial) h
  exact hs.allowed t

/-- No exchange is under way at the start. -/
theorem Orderly.initial (h : w.Initial) : Orderly operation w := by
  obtain ⟨htasks, hlast⟩ := h
  refine ⟨.start htasks, fun t u p hp => ?_, fun t x hx => ?_⟩
  · rw [InCommandFor, htasks.2.2 t] at hp
    cases hp
  · rw [htasks.2.2 t] at hx
    cases hx

/-- One command for a face at a time. -/
theorem Orderly.alone_next (h : Orderly operation w) {t : ι} {c' : Tasks ι Var Val Lock Event}
    {e : Event} (hone : OneAtATime operation w.tasks (.advance t : Action ι Op Val))
    (hst : boardStep operation w.tasks (.advance t : Action ι Op Val) = some c')
    (hlog : c'.log = Function.update w.tasks.log t (w.tasks.log t ++ [e])) (u v : ι) (p : EPort)
    (hu : InCommandFor (c'.log u) p) (hv : InCommandFor (c'.log v) p) : u = v := by
  have hother : ∀ {u}, u ≠ t → c'.log u = w.tasks.log u := by
    intro u hne
    rw [hlog, Function.update_of_ne hne]
  -- `t` and another task
  have hmixed : ∀ {u}, u ≠ t → InCommandFor (c'.log t) p → ¬ InCommandFor (c'.log u) p := by
    intro u hne ht hu
    rw [hother hne] at hu
    rcases hone c' hst p ht with hbefore | hnone
    · exact hne (h.alone u t p hu hbefore)
    · exact hnone u hne hu
  by_cases hut : u = t
  · subst hut
    by_contra hne
    exact hmixed (Ne.symm hne) hu hv
  · by_cases hvt : v = t
    · subst hvt
      exact absurd hu (hmixed hut hv)
    · rw [hother hut] at hu
      rw [hother hvt] at hv
      exact h.alone u v p hu hv

/-- A note of `t` that sends a frame makes it the task last heard; another note changes nothing. -/
theorem Orderly.unmixed_next (h : Orderly operation w) {t : ι} {c' : Tasks ι Var Val Lock Event}
    {e : Event} (hallow : allow True (w.tasks.log t) e)
    (hlog : c'.log = Function.update w.tasks.log t (w.tasks.log t ++ [e])) :
    (w.after c' (.advance t : Action ι Op Val)).Unmixed := by
  intro u x hx
  rw [Heard.after_tasks, hlog] at hx
  rw [Heard.after_last w (by rw [hlog, Function.update_self])]
  cases hframe : frameSent (transaction (w.tasks.log t)).callers e with
  | none =>
      show w.last x.select = some u
      by_cases hut : u = t
      · subst hut
        rw [Function.update_self, underWay_concat, hframe] at hx
        obtain ⟨y, hy, hnext⟩ := Option.bind_eq_some_iff.mp hx
        rw [Exchange.next_select hnext]
        exact h.unmixed u y hy
      · rw [Function.update_of_ne hut] at hx
        exact h.unmixed u x hx
  | some select =>
      show Function.update w.last select (some t) x.select = some u
      by_cases hut : u = t
      · subst hut
        rw [Function.update_self, underWay_concat, hframe] at hx
        obtain rfl := Option.some.inj hx
        exact Function.update_self ..
      · rw [Function.update_of_ne hut] at hx
        -- the frame of `t` goes to another face than that of the exchange of `u`
        have hne : x.select ≠ select := by
          intro hsame
          obtain ⟨p, callers, hcallers, hp⟩ := frameSent_face hallow hframe
          obtain ⟨q, hq, hin⟩ :=
            (atCommand_of_allowed (allowed_of_reachable h.reachable u) hx).inCommandFor
          obtain rfl : p = q := EPort.code_inj (hp.symm.trans (hsame.symm.trans hq))
          have hcalled : InCommandFor (w.tasks.log t) p := by
            rw [InCommandFor, hcallers]
            exact List.mem_cons_self
          exact hut (h.alone u t p hin hcalled)
        rw [Function.update_of_ne hne]
        exact h.unmixed u x hx

/-- A step that meets the condition keeps the order. -/
theorem Orderly.next (h : Orderly operation w) (hone : OneAtATime operation w.tasks a)
    (hst : listen operation w a = some w') : Orderly operation w' := by
  obtain ⟨c', hboard, rfl⟩ := Option.map_eq_some_iff.mp hst
  have hreach := h.reachable.next hboard
  rcases tasksStep_log hboard with hlog | ⟨t, e, rfl, hlog⟩
  -- the step has noted nothing
  · constructor
    · rw [Heard.after_tasks]
      exact hreach
    · rw [Heard.after_tasks, hlog]
      exact h.alone
    · intro t x hx
      rw [Heard.after_tasks, hlog] at hx
      rw [Heard.after_of_log w hlog]
      exact h.unmixed t x hx
  -- it has noted `e`, which the discipline allows
  · have hallow : allow True (w.tasks.log t) e := by
      have hall := allowed_of_reachable hreach t
      rw [hlog, Function.update_self] at hall
      exact hall (w.tasks.log t) e [] rfl
    constructor
    · rw [Heard.after_tasks]
      exact hreach
    · rw [Heard.after_tasks]
      exact h.alone_next hone hboard hlog
    · exact h.unmixed_next hallow hlog

/-- As long as a task calls a function of `CNFCController` for a face only when no other task is in one,
exchanges do not mix: since the frame of a command was sent, no other task has sent one to the same PN532,
and what `read_dt` requests it requests of that PN532. -/
theorem exchanges_unmixed (operation : Op → Operation) {w w' : Heard ι} {as : List (Action ι Op Val)}
    (hw : w.Initial)
    (hone : Along (listen operation) (fun w => OneAtATime operation w.tasks) w as)
    (hrun : run (listen operation) w as = some w') :
    w'.Unmixed ∧ ∀ t before select after, w'.tasks.log t = before ++ .request select :: after →
      ∀ x f p callers, underWay before = some x → x.depth = 1 → f.face? = some p →
        (transaction before).callers = f :: callers → select = x.select := by
  have h : Orderly operation w' :=
    run_preserves_along (fun _ _ _ h hone hst => h.next hone hst) (Orderly.initial hw) hone hrun
  refine ⟨h.unmixed, ?_⟩
  intro t before select after hlog x f p callers hx hdepth hf hcallers
  have hall := allowed_of_reachable h.reachable t
  rw [hlog] at hall
  have hfaces : AtFaces (transaction before).callers select := hall before _ after rfl
  obtain ⟨q, hselect, hhead⟩ := atCommand_of_allowed hall.left hx
  rw [hdepth, hcallers] at hhead
  -- the command and the function it has called are for one face
  rw [hselect]
  apply hfaces q
  rw [hcallers]
  cases callers with
  | nil => cases hhead
  | cons command callers =>
      obtain rfl : command = .nfc q := Option.some.inj hhead
      cases f with
      | port => cases hf
      | led p | nfc p => simp [Transaction.faces]

/-! ### Two commands at a time

The second frame is sent while the first task sleeps between its own frame and the poll for its
acknowledge. -/

instance [Fintype ι] (operation : Op → Operation) (c : Tasks ι Var Val Lock Event) :
    ∀ a : Action ι Op Val, Decidable (OneAtATime operation c a)
  | .advance t => inferInstanceAs (Decidable (∀ c' ∈ boardStep operation c (.advance t), ∀ p,
      InCommandFor (c'.log t) p →
        InCommandFor (c.log t) p ∨ ∀ u, u ≠ t → ¬ InCommandFor (c.log u) p))
  | .start _ _ | .device _ _ => isTrue trivial

/-- Two tasks before anything has been sent. -/
def unheard : Heard Bool := ⟨idleTasks, fun _ => none⟩

/-- No PN532 has heard anything. -/
theorem unheard_initial : unheard.Initial := ⟨idleTasks_initial, fun _ => rfl⟩

/-- `n` steps of the task `t`. -/
def steps (t : Bool) (n : Nat) : List (Action Bool Operation Val) := List.replicate n (.advance t)

/-- The handler finds `status`, and the task `false` takes `n` steps. -/
def status (status : Byte) (n : Nat) : List (Action Bool Operation Val) :=
  .device .twsr status :: steps false n

/-- The task `false` sends the frame of `Probe` to the face `EAST`, whose PN532 acknowledges each byte of
it, and comes to the last line of `write_cmd`. Then the task `true` sends the frame of a `Probe` to the
face `port`. -/
def probeTwice (port : EPort) : List (Action Bool Operation Val) :=
  .start false (.probe .east fun _ => 0) :: steps false 128 ++ status 0x08 7 ++ status 0x18 11 ++
    (List.replicate 8 (status 0x28 11)).flatten ++ status 0x28 5 ++
    .device .twcr (0x45 : Byte) :: steps false 14 ++
    .start true (.probe port fun _ => 0) :: steps true 121

/-- Two commands for different faces. -/
theorem exchanges_unmixed_apart :
    ∃ w, run (listen id) unheard (probeTwice .west) = some w ∧
      underWay (w.tasks.log false) = some ⟨EPort.east.code, 1, 0⟩ ∧
        w.last EPort.west.code = some true ∧ w.Unmixed := by
  have hrun : (run (listen id) unheard (probeTwice .west)).map
      (fun w => (underWay (w.tasks.log false), w.last EPort.west.code)) =
        some (some ⟨EPort.east.code, 1, 0⟩, some true) := by decide +kernel
  have hone : Along (listen id) (fun w => OneAtATime id w.tasks) unheard (probeTwice .west) := by
    decide +kernel
  obtain ⟨w, hw, hpair⟩ := Option.map_eq_some_iff.mp hrun
  obtain ⟨hx, hlast⟩ := Prod.mk.inj hpair
  exact ⟨w, hw, hx, hlast, (exchanges_unmixed id unheard_initial hone hw).1⟩

/-- Two commands for one face: while the first task sleeps at the end of `write_cmd`, the second one
sends its frame to the same PN532. -/
theorem exchanges_mixed :
    unheard.Initial ∧ ∃ w, run (listen id) unheard (probeTwice .east) = some w ∧ ¬ w.Unmixed := by
  have hrun : (run (listen id) unheard (probeTwice .east)).map
      (fun w => (underWay (w.tasks.log false), w.last EPort.east.code)) =
        some (some ⟨EPort.east.code, 1, 0⟩, some true) := by decide +kernel
  obtain ⟨w, hw, hpair⟩ := Option.map_eq_some_iff.mp hrun
  obtain ⟨hx, hlast⟩ := Prod.mk.inj hpair
  refine ⟨unheard_initial, w, hw, fun hunmixed => ?_⟩
  have hown := hunmixed false _ hx
  rw [hlast] at hown
  cases hown

end

end SmartblocksOs.Board
