/-
# SmartblocksOs.Board.NfcAnswers -- what the calls of `CNFCController` receive

`Read(address, n)` notes the bytes that have come over the bus. When the first of them says that the PN532
is ready, the others are an answer (`answers`). Here it is said of every run that ends, whatever the
registers and the variables hold at its start and however the bus behaves, which answers it brings and what
the buffers are made of then. `Read()` returns `0xFF` for a byte that has not come, and such a byte is part
of no answer.

The property is partial on purpose: it is about every run that ends, and about the notes of that run, so
that it needs no assumption on the state of the controller. `Hears p Q` says of a program which answers it
brings; its rules follow the constructs of the language, and a program that receives nothing is silent by
its footprint. That the calls do end is shown elsewhere, where the controller is ready.
-/
import SmartblocksOs.Foundation.Accesses
import SmartblocksOs.Board.Frames
import SmartblocksOs.Board.NfcExchanges

namespace SmartblocksOs.Board

open SmartblocksOs.Foundation SmartblocksOs.System

open CTWController CPortController

namespace CNFCController

/-! ## Answers

An answer is what a reception has brought behind a status that says ready. Receptions that are not ready,
or that are cut off before the first byte, bring none. -/

/-- The bytes behind the status, when it says that the PN532 is ready. -/
def answer : Event → Option (List Byte)
  | .received (status :: followed) => if status = pn532I2cReady then some followed else none
  | _ => none

/-- The answers among what a task has noted, the oldest first. -/
def answers (log : List Event) : List (List Byte) := log.filterMap answer

/-- The answers of two runs one after the other. -/
theorem answers_append (log notes : List Event) : answers (log ++ notes) = answers log ++ answers notes :=
  List.filterMap_append

theorem answer_of_outgoing {e : Event} (he : e.outgoing = true) : answer e = none := by
  cases e with
  | received bytes => exact absurd he Bool.false_ne_true
  | _ => rfl

/-! ## Programs and the answers they receive

The rules: what is heard by two programs one after the other is heard in their order. -/

/-- Every run of `p` that ends does so with a result, and answers received in it, of which `Q` holds. -/
def Hears {α : Type} (p : Code α) (Q : α → List (List Byte) → Prop) : Prop :=
  ∀ m, Ensures twiReact p m fun a m' => ∃ heard, answers m'.log = answers m.log ++ heard ∧ Q a heard

namespace Hears

variable {α β : Type} {p : Code α} {Q Q' : α → List (List Byte) → Prop} {R : β → List (List Byte) → Prop}

/-- What a run has heard is in its notes. -/
theorem exec (h : Hears p Q) {fuel : Nat} {m m' : TwMachine} {a : α}
    (hexec : Prog.exec twiReact fuel p m = some (a, m')) :
    ∃ heard, answers m'.log = answers m.log ++ heard ∧ Q a heard :=
  Ensures.of_exec (h m) hexec

theorem mono (h : Hears p Q) (hQ : ∀ a heard, Q a heard → Q' a heard) : Hears p Q' :=
  fun m => (h m).mono fun a _ ⟨heard, hlog, ha⟩ => ⟨heard, hlog, hQ a heard ha⟩

theorem pure {a : α} (h : Q a []) : Hears (pure a : Code α) Q :=
  fun _ => Safe.pure_iff.mpr ⟨[], (List.append_nil _).symm, h⟩

/-- The answers of the second program come after those of the first. -/
theorem seq {f : α → Code β} (h : Hears p Q)
    (hf : ∀ a heard, Q a heard → Hears (f a) fun b heard' => R b (heard ++ heard')) :
    Hears (p >>= f) R := by
  intro m
  refine (h m).seq fun a m₁ h₁ => ?_
  obtain ⟨heard, hlog, ha⟩ := h₁
  apply (hf a heard ha m₁).mono
  rintro b m₂ ⟨heard', hlog', hb⟩
  refine ⟨heard ++ heard', ?_, hb⟩
  rw [hlog', hlog, List.append_assoc]

/-- Either branch. -/
theorem ite {c : Prop} [Decidable c] {q : Code α} (hp : c → Hears p Q) (hq : ¬ c → Hears q Q) :
    Hears (if c then p else q) Q := by
  split
  · exact hp ‹_›
  · exact hq ‹_›

/-- A program that notes no reception brings no answer. -/
theorem silent {F : Footprint Var Lock Event} (hp : p.Leaves F) (hF : ∀ e ∈ F.notes, answer e = none) :
    Hears p fun _ heard => heard = [] := by
  intro m
  apply (hp.ensures_notes m).mono
  rintro _ m' ⟨notes, hlog, hnotes⟩
  have hnone : answers notes = [] := List.filterMap_eq_nil_iff.mpr fun e he => hF e (hnotes e he)
  exact ⟨[], by rw [hlog, answers_append, hnone], rfl⟩

/-- What comes before or after such a program is all there is. -/
theorem after {f : α → Code β} (h : Hears p fun _ heard => heard = []) (hf : ∀ a, Hears (f a) R) :
    Hears (p >>= f) R := by
  refine h.seq fun a heard hheard => ?_
  rw [hheard]
  exact hf a

/-- A note that is no answer. -/
theorem note {f : Store Val → Event} (hf : ∀ s, answer (f s) = none) :
    Hears (note f) fun _ heard => heard = [] :=
  silent (F := ⟨∅, ∅, ∅, {e | answer e = none}⟩) (.note hf) fun _ => id

/-- Calls and returns are no answers. -/
theorem calledFor {f : Callee} (h : Hears p Q) : Hears (calledFor f p) Q := by
  refine (note fun _ => rfl).after fun _ => h.seq fun a heard ha => ?_
  refine (note fun _ => rfl).after fun _ => pure ?_
  rwa [List.append_nil]

/-! ### The port controller

It speaks to other slaves, and receives nothing on behalf of a command. -/

/-- The first use of the port controller receives nothing. -/
theorem onInstance {method : Code α} (h : method.Leaves instancePrint) :
    Hears (onInstance method) fun _ heard => heard = [] :=
  silent (onInstance_leaves le_rfl h) fun _ he => answer_of_outgoing he.2

/-- The three lines before a transaction with a face are silent. -/
theorem openFace {port : EPort} (h : Hears p Q) :
    Hears (do
      CPortController.onInstance (acquire .port)
      CPortController.onInstance (selectPort port)
      acquire .tw
      p) Q := by
  refine (onInstance (.acquire (by simp))).after fun _ => ?_
  refine (onInstance (selectPort_onInstance port)).after fun _ => ?_
  exact (silent (F := ⟨∅, ∅, {.tw}, ∅⟩) (.acquire rfl) (by simp)).after fun _ => h

/-- The two lines after a transaction with a face are silent. -/
theorem closeFaceThen (h : Hears p Q) :
    Hears (do
      release .tw
      CPortController.onInstance (release .port)
      p) Q := by
  refine (silent (F := ⟨∅, ∅, {.tw}, ∅⟩) (.release rfl) (by simp)).after fun _ => ?_
  exact (onInstance (.release (by simp))).after fun _ => h

end Hears

/-! ## `Read`

The bytes that `Read()` hands out after a reception are those noted, and fillers when these are used up.
-/

/-- What has been received can be taken with `Read()`. -/
theorem readFrom_ensures (m : TwMachine) (address length : Byte) (sendStop : Bool) :
    Ensures twiReact (readFrom address length sendStop) m fun _ m' =>
      ∃ bytes, answers m'.log = answers m.log ++ answers [.received bytes] ∧ Unread m'.vars bytes := by
  have hclamp := clamp_toNat length
  rw [readFrom_eq, ← clamp]
  generalize clamp length = count at hclamp ⊢
  have hsilent := Hears.silent (awaitReception_leaves address count sendStop) fun _ he => answer_of_outgoing he.2
  refine (hsilent m).seq fun _ m₁ h₁ => ?_
  obtain ⟨_, hlog, rfl⟩ := h₁
  refine (receivedLength_bounded m₁ count).ensures.seq fun received m₂ h₂ => ?_
  obtain ⟨hreceived, rfl⟩ := h₂
  -- the copy, of whatever is in the master buffer
  obtain ⟨bytes, hbytes⟩ : ∃ bytes, bytes = (List.range received.toNat).map fun i => m₂.vars (.masterBuffer i) :=
    ⟨_, rfl⟩
  have hlength : bytes.length = received.toNat := by simp [hbytes]
  have hmaster : Spells (fun i => m₂.vars (.masterBuffer i)) bytes := by
    intro i b hb
    rw [hbytes, List.getElem?_map, Option.map_eq_some_iff] at hb
    obtain ⟨j, hj, rfl⟩ := hb
    obtain ⟨-, rfl⟩ := List.getElem?_eq_some_iff.mp hj
    rw [List.getElem_range]
  have hcopy := copyFromMaster_total received.toNat 0 ((Nat.zero_add _).trans hlength.symm) hmaster (Spells.nil _)
  refine hcopy.ensures.seq fun copied m₃ h₃ => ?_
  obtain ⟨hcopied, hrx, hsame⟩ := h₃
  simp only [Safe.bind_iff, Safe.write_iff, Safe.note_iff, Safe.pure_iff, true_and,
    store_of_ne _ (x := .rxBufferIndex) (by simp), store_of_ne _ (x := .rxBufferLength) (by simp)]
  refine ⟨bytes, ?_, unread_of_start (by omega) ?_ ?_ (hrx.congr fun i _ => ?_)⟩
  · rw [answers_append, Machine.set_log, Machine.set_log, hsame.log, hlog, List.append_nil, hcopied,
      List.drop_zero]
  · rw [Machine.set_vars_self, hlength]
  · rw [Machine.set_vars_of_ne _ (by simp), Machine.set_vars_self]
  · rw [Machine.set_vars_of_ne _ (by simp), Machine.set_vars_of_ne _ (by simp)]

/-- `Read()` hands out what has been received before. -/
theorem readByte_silent : Hears readByte fun _ heard => heard = [] := by
  apply Hears.silent readByte_leaves
  rintro _ ⟨b, rfl⟩
  rfl

/-! ## `read_dt`

Either no poll has been answered by a PN532 that is ready, and the buffer is untouched, or one has been,
and the bytes that have come with it are in the buffer with fillers behind them. -/

section

variable {port : EPort}

/-- The loop of `read_dt` over the bytes of an answer. -/
theorem readBuffer_ensures {m : TwMachine} {followed : List Byte} (n : Nat) (buf : Buffer)
    (hunread : Unread m.vars followed) :
    Ensures twiReact ((List.range n).foldlM (fun (buf : Buffer) i => do
      let b ← readByte
      pure (Function.update buf i b)) buf) m fun buf' m' =>
        buf' = overwrite buf n followed ∧ answers m'.log = answers m.log := by
  refine (readBuffer_total (I := fun m' => answers m'.log = answers m.log) ?_ n buf rfl hunread).ensures
  intro m' bytes hm' hu
  apply (readByte_total hu).mono
  rintro b m'' ⟨-, -, -, -, hlog⟩
  rw [hlog, answers_append, hm']
  exact List.append_nil _

/-- `read_dt` brings one answer or none. With one it is in the buffer, filled up with `0xFF`; with none
the buffer is as it was. -/
theorem readDtFrom_hears (len : Byte) (attempts : Nat) {status : Byte} (buf : Buffer)
    (hstatus : status ≠ pn532I2cReady) :
    Hears (readDtFrom port len attempts status buf) fun r heard =>
      ∃ reply : Option (List Byte), heard = reply.toList ∧
        r = reply.elim (false, buf) fun bytes => (true, overwrite buf len.toNat bytes) := by
  -- On the polls that are left. The status of the last one was not ready, which is what the result says
  -- when none is left.
  induction attempts generalizing status with
  | zero =>
      refine .pure ⟨none, rfl, ?_⟩
      rw [beq_false_of_ne hstatus]
      rfl
  | succ attempts ih =>
      apply Hears.openFace
      intro m
      refine (readFrom_ensures m _ _ _).seq fun _ m₁ h₁ => ?_
      obtain ⟨bytes, hlog, hunread⟩ := h₁
      refine ((readByte_silent m₁).total (readByte_total hunread)).seq fun status m₂ h₂ => ?_
      obtain ⟨⟨_, hlog₂, rfl⟩, rfl, hunread₂, -⟩ := h₂
      rw [List.append_nil] at hlog₂
      by_cases hready : bytes.headD 0xFF = pn532I2cReady
      -- Ready: the bytes behind the status are the answer, and go into the buffer.
      · obtain ⟨followed, rfl⟩ : ∃ followed, bytes = pn532I2cReady :: followed := by
          cases bytes with
          | nil => exact absurd hready (by decide)
          | cons b followed => exact ⟨followed, congrArg (· :: followed) hready⟩
        rw [if_pos hready]
        refine (readBuffer_ensures len.toNat buf hunread₂).seq fun buf' m₃ h₃ => ?_
        obtain ⟨rfl, hlog₃⟩ := h₃
        have hend : Hears (do
            release .tw
            CPortController.onInstance (release .port)
            pure (true, overwrite buf len.toNat followed)) fun r heard =>
              heard = [] ∧ r = (true, overwrite buf len.toNat followed) :=
          Hears.closeFaceThen (.pure ⟨rfl, rfl⟩)
        apply (hend m₃).mono
        rintro r m₄ ⟨_, hlog₄, rfl, rfl⟩
        refine ⟨[followed], ?_, some followed, rfl, rfl⟩
        rw [hlog₄, hlog₃, hlog₂, hlog, List.append_nil]
        rfl
      -- Not ready, or nothing has come: the rest is read and dropped, and the next poll is made.
      · rw [if_neg hready]
        have hnone : answers [.received bytes] = [] := by
          cases bytes with
          | nil => rfl
          | cons b followed => exact List.filterMap_cons_none (if_neg hready)
        have hrest : Hears (do
            (List.range len.toNat).forM fun _ => do
              let _ ← readByte
              pure ()
            release .tw
            CPortController.onInstance (release .port)
            sleep 10
            readDtFrom port len attempts (bytes.headD 0xFF) buf) fun r heard =>
              ∃ reply : Option (List Byte), heard = reply.toList ∧
                r = reply.elim (false, buf) fun bytes => (true, overwrite buf len.toNat bytes) := by
          have hflush : ((List.range len.toNat).forM fun _ => do
              let _ ← readByte
              pure () : Code PUnit).Leaves _ :=
            .forM (fun _ => .bind readByte_leaves fun _ => .ret _) _
          refine (Hears.silent hflush ?_).after fun _ => .closeFaceThen ?_
          · rintro _ ⟨b, rfl⟩
            rfl
          · exact (Hears.silent (F := ⟨∅, ∅, ∅, ∅⟩) .switch (by simp)).after fun _ => ih hready
        apply (hrest m₂).mono
        rintro r m₃ ⟨heard, hlog₃, hr⟩
        refine ⟨heard, ?_, hr⟩
        rw [hlog₃, hlog₂, hlog, hnone, List.append_nil]

/-- `read_dt` hears one answer at most, and returns whether it has. -/
theorem readDt_hears (buf : Buffer) (len : Byte) :
    Hears (readDt port buf len) fun r heard =>
      ∃ reply : Option (List Byte), heard = reply.toList ∧
        r = reply.elim (false, buf) fun bytes => (true, overwrite buf len.toNat bytes) :=
  (readDtFrom_hears len 25 buf (by decide)).calledFor

/-! ## Exchanges

A command that is acknowledged has received the acknowledge as an answer, and its reply is another one. -/

/-- A command passes for acknowledged only if the acknowledge has been received. -/
theorem writeCmdCheckAck_hears (cmd : Buffer) (len : Byte) :
    Hears (writeCmdCheckAck port cmd len) fun acked heard =>
      acked = true → ∃ acknowledge, heard = [acknowledge] ∧ acknowledge.take 6 = ack := by
  have hcmd := Hears.silent (writeCmd_leaves port cmd len) fun _ he => answer_of_outgoing he.2
  refine hcmd.after fun _ => (readDt_hears _ _).seq ?_
  rintro r heard ⟨reply, rfl, rfl⟩
  refine .pure fun hacked => ?_
  cases reply with
  | none => exact absurd hacked (by decide)
  | some bytes => exact ⟨bytes, rfl, take_of_acknowledges hacked⟩

/-- How an exchange comes out: the answers received in it, the reply as `read_dt` has put it in the buffer,
and the buffer. -/
inductive Exchanged (io : Buffer) (replyLen : Byte) : List (List Byte) → Option Reply × Buffer → Prop
  /-- The command is not acknowledged. -/
  | refused (heard : List (List Byte)) : Exchanged io replyLen heard (none, io)
  /-- It is, but the PN532 stays busy. -/
  | unread {acknowledge : List Byte} :
      acknowledge.take 6 = ack → Exchanged io replyLen [acknowledge] (some none, io)
  | replied {acknowledge : List Byte} (followed : List Byte) : acknowledge.take 6 = ack →
      Exchanged io replyLen [acknowledge, followed]
        (some (some ((List.range replyLen.toNat).map (overwrite io replyLen.toNat followed))),
          overwrite io replyLen.toNat followed)

/-- An exchange: the acknowledge, and if that is in order the reply. -/
theorem exchange_hears (io : Buffer) (len replyLen : Byte) :
    Hears (exchange port io len replyLen) fun r heard => Exchanged io replyLen heard r := by
  refine (writeCmdCheckAck_hears io len).seq fun acked heard hacked => ?_
  cases acked with
  | false => exact .pure (.refused _)
  | true =>
      obtain ⟨acknowledge, rfl, hack⟩ := hacked rfl
      have hread : Hears (readReply port io replyLen) fun r heard =>
          Exchanged io replyLen ([acknowledge] ++ heard) (some r.1, r.2) := by
        refine (readDt_hears io replyLen).seq ?_
        rintro r heard ⟨reply, rfl, rfl⟩
        refine .pure ?_
        cases reply with
        | none => exact .unread hack
        | some followed => exact .replied followed hack
      refine hread.seq fun r heard hr => .pure ?_
      rwa [List.append_nil]

end

end CNFCController

end SmartblocksOs.Board
