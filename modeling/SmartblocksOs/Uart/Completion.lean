/-
# SmartblocksOs.Uart.Completion -- `TXC0`, and whether `Flush` comes to an end

`Flush` waits for `TXC0`, which the transmitter sets when the last byte has been shifted out and which
`Write` clears with its last statement. `Write` enables the data register interrupt before that. When
its task is suspended in between for longer than the byte takes to be sent, `TXC0` is set before it is
cleared and is never set again: `Flush` waits for ever (`flush_hangs`). It is exactly then that it does
(`flush_ends_iff`).
-/
import SmartblocksOs.Uart.Transmit

namespace SmartblocksOs.Uart

open SmartblocksOs.Foundation SmartblocksOs.System

/-! ## When `Flush` ends -/

/-- Something is still to be sent: a byte in the ring, in `UDR0` or in the shift register. -/
def Transmitter.Busy (s : Transmitter) : Prop :=
  s.tx.head ≠ s.tx.tail ∨ s.udrFull = true ∨ s.shifting = true

instance (s : Transmitter) : Decidable s.Busy := inferInstanceAs (Decidable (_ ∨ _ ∨ _))

/-- With no `Write` in progress and nothing left to be sent, `Flush` finds what it waits for. -/
def Transmitter.Flushable (s : Transmitter) : Prop :=
  ¬ s.writer.InWrite → s.transmitting = true → ¬ s.Busy → isSet s.ucsra txc0 = true

instance (s : Transmitter) : Decidable s.Flushable := inferInstanceAs (Decidable (_ → _ → _ → _))

namespace Writer

/-- At the store to `UCSR0A`. -/
def atClear : Writer → Bool
  | storeUcsra _ => true
  | _ => false

/-- Behind `head = i`: the byte of this `Write` is in the ring, or on its way. -/
def Published : Writer → Prop
  | loadUcsrb | storeUcsrb _ | setTransmitting | loadUcsra | storeUcsra _ => True
  | _ => False

/-- Behind `transmitting = true`. -/
def Clearing : Writer → Prop
  | loadUcsra | storeUcsra _ => True
  | _ => False

end Writer

/-- When `Write` clears `TXC0` something is still to be sent. -/
def ClearsWhileBusy (s : Transmitter) (e : TransmitEvent) : Prop :=
  e = .advance → s.writer.atClear = true → s.Busy

instance (s : Transmitter) (e : TransmitEvent) : Decidable (ClearsWhileBusy s e) :=
  inferInstanceAs (Decidable (_ → _ → _))

/-- `TXC0` is set, or will be. -/
def Transmitter.WillComplete (s : Transmitter) : Prop :=
  isSet s.ucsra txc0 = true ∨ s.Busy

/-- What holds between two steps, as long as `TXC0` is cleared in time. -/
structure Transmitter.CompletionOk (s : Transmitter) : Prop where
  waiting : s.transmitting = true ∨ s.writer.Published → s.WillComplete
  transmitting : s.writer.Clearing → s.transmitting = true

namespace Transmitter

variable {s t : Transmitter}

/-- Nothing has been sent, and nobody waits. -/
theorem Initial.completionOk (h : s.Initial) : s.CompletionOk := by
  obtain ⟨-, -, htransmitting, -, -, hwriter, -⟩ := h
  constructor
  · rw [htransmitting, hwriter]
    rintro (hfalse | hfalse)
    · exact absurd hfalse Bool.false_ne_true
    · exact absurd hfalse id
  · rw [hwriter]
    exact fun hfalse => absurd hfalse id

theorem CompletionOk.flushable (h : s.CompletionOk) : s.Flushable :=
  fun _ htransmitting hidle => (h.waiting (Or.inl htransmitting)).resolve_right hidle

/-- The writer moves on, without a store that matters here. -/
theorem CompletionOk.goto (h : s.CompletionOk) {writer : Writer}
    (hpublished : writer.Published → s.writer.Published)
    (hclearing : writer.Clearing → s.transmitting = true) : (s.goto writer).CompletionOk :=
  ⟨fun hw => h.waiting (hw.imp_right hpublished), hclearing⟩

theorem CompletionOk.udreVect (h : s.CompletionOk) : s.udreVect.CompletionOk := by
  unfold Transmitter.udreVect
  split
  · exact ⟨h.waiting, h.transmitting⟩
  · exact ⟨fun _ => Or.inr (Or.inr (Or.inl rfl)), h.transmitting⟩

/-- A byte is out. If it was the last one `TXC0` is set. -/
theorem CompletionOk.shiftedOut (h : s.CompletionOk) (hshifting : s.shifting = true) :
    s.shiftedOut.CompletionOk := by
  unfold Transmitter.shiftedOut
  split
  · exact ⟨fun _ => Or.inr (Or.inr (Or.inr hshifting)), h.transmitting⟩
  · exact ⟨fun _ => Or.inl (isSet_or_txc0 _), h.transmitting⟩

/-- The steps of the writer. `Write` clears `TXC0` at its end, and by then its byte may be out already;
that is what `ClearsWhileBusy` excludes. -/
theorem CompletionOk.advance {xs : List Byte} (h : s.CompletionOk) (hs : s.Ok xs)
    (hok : ClearsWhileBusy s .advance) (hst : s.advance = some t) : t.CompletionOk := by
  have hwriter := hs.writer
  have hwaiting := h.waiting
  have htransmitting := h.transmitting
  rw [WriterOk] at hwriter
  unfold Transmitter.advance at hst
  cases hpc : s.writer with
  | idle => simp [hpc] at hst
  | index c | slot c i =>
      simp only [hpc, Option.some.injEq] at hst
      subst hst
      exact h.goto False.elim False.elim
  | wait c i =>
      simp only [hpc] at hst
      split at hst
      · obtain rfl := Option.some.inj hst
        exact h
      · obtain rfl := Option.some.inj hst
        exact h.goto False.elim False.elim
  | put c i head =>
      simp only [hpc, Option.some.injEq] at hst
      subst hst
      exact ⟨fun hw => hwaiting (hw.imp_right fun hf => absurd hf id), False.elim⟩
  -- the byte is in the ring now, so that a transmission is due
  | publish c i =>
      simp only [hpc, Option.some.injEq] at hst hwriter
      subst hst
      obtain ⟨rfl, hlen, -⟩ := hwriter
      refine ⟨fun _ => Or.inr (Or.inl ?_), False.elim⟩
      show nextIndex s.tx.head ≠ s.tx.tail
      rw [Ne, hs.ring.full_iff]
      omega
  | loadUcsrb =>
      simp only [hpc, Option.some.injEq] at hst
      subst hst
      exact h.goto (fun _ => by rw [hpc]; trivial) False.elim
  | storeUcsrb ucsrb =>
      simp only [hpc, Option.some.injEq] at hst
      subst hst
      exact ⟨fun _ => hwaiting (Or.inr (by rw [hpc]; trivial)), False.elim⟩
  -- from here on `Flush` waits
  | setTransmitting =>
      simp only [hpc, Option.some.injEq] at hst
      subst hst
      exact ⟨fun _ => hwaiting (Or.inr (by rw [hpc]; trivial)), fun _ => rfl⟩
  | loadUcsra =>
      simp only [hpc, Option.some.injEq] at hst
      subst hst
      exact h.goto (fun _ => by rw [hpc]; trivial) fun _ => htransmitting (by rw [hpc]; trivial)
  -- `TXC0` is cleared late: the byte may have been sent already, and its completion with it, which the
  -- condition excludes
  | storeUcsra ucsra =>
      simp only [hpc, Option.some.injEq] at hst
      subst hst
      exact ⟨fun _ => Or.inr (hok rfl (by rw [hpc]; rfl)), False.elim⟩
  | flushTest | flushPoll =>
      simp only [hpc, Option.some.injEq] at hst
      subst hst
      split
      · exact h.goto False.elim False.elim
      · exact h.goto False.elim False.elim
  | clearTransmitting =>
      simp only [hpc, Option.some.injEq] at hst
      subst hst
      refine ⟨?_, False.elim⟩
      rintro (hfalse | hfalse)
      · exact absurd hfalse Bool.false_ne_true
      · exact absurd hfalse id

end Transmitter

/-- Every step keeps the invariant that clears no flag too late. -/
theorem transmitStep_completionOk {s t : Transmitter} {xs : List Byte} {e : TransmitEvent}
    (h : s.CompletionOk) (hs : s.Ok xs) (hok : ClearsWhileBusy s e)
    (hst : transmitStep s e = some t) : t.CompletionOk := by
  cases e with
  | write c =>
      simp only [transmitStep] at hst
      split at hst
      · obtain rfl := Option.some.inj hst
        exact ⟨fun hw => h.waiting (hw.imp_right fun hf => absurd hf id), False.elim⟩
      · exact absurd hst (by simp)
  | flush =>
      simp only [transmitStep] at hst
      split at hst
      · obtain rfl := Option.some.inj hst
        exact h.goto False.elim False.elim
      · exact absurd hst (by simp)
  | advance => exact h.advance hs hok hst
  | udreVect =>
      simp only [transmitStep] at hst
      split at hst
      · obtain rfl := Option.some.inj hst
        exact h.udreVect
      · exact absurd hst (by simp)
  -- the shift register takes the byte, which is then on its way
  | load =>
      simp only [transmitStep] at hst
      split at hst
      · obtain rfl := Option.some.inj hst
        exact ⟨fun _ => Or.inr (Or.inr (Or.inr rfl)), h.transmitting⟩
      · exact absurd hst (by simp)
  | shiftedOut =>
      simp only [transmitStep] at hst
      split at hst
      · rename_i hshifting
        obtain rfl := Option.some.inj hst
        exact h.shiftedOut hshifting
      · exact absurd hst (by simp)

/-- The steps that meet the condition keep the invariant. -/
theorem transmit_completionOk {s t : Transmitter} {es : List TransmitEvent}
    (hs : s.Initial) (hok : Along transmitStep ClearsWhileBusy s es)
    (hrun : run transmitStep s es = some t) : t.CompletionOk ∧ ∃ xs, t.Ok xs := by
  refine run_preserves_along (I := fun t : Transmitter => t.CompletionOk ∧ ∃ xs, t.Ok xs)
    (fun s e t h hc hst => ?_) ⟨hs.completionOk, [], hs.ok⟩ hok hrun
  obtain ⟨hcompletion, xs, hxs⟩ := h
  exact ⟨transmitStep_completionOk hcompletion hxs hc hst, transmitStep_ok ⟨xs, hxs⟩ hst⟩

/-- A `TXC0` that is cleared too late is not set again by itself. -/
theorem not_flushable_of_clear {s t : Transmitter} (h : s.CompletionOk)
    (hclear : s.writer.atClear = true) (hidle : ¬ s.Busy) (hst : transmitStep s .advance = some t) :
    ¬ t.Flushable := by
  cases hpc : s.writer with
  | storeUcsra ucsra =>
      simp only [transmitStep, Transmitter.advance, hpc, Option.some.injEq] at hst
      subst hst
      intro hflush
      have htransmitting := h.transmitting (by rw [hpc]; trivial)
      have hset := hflush id htransmitting hidle
      rw [show isSet _ txc0 = false from isSet_writeUcsra s.ucsra ucsra] at hset
      exact Bool.false_ne_true hset
  | _ =>
      rw [hpc] at hclear
      exact absurd hclear Bool.false_ne_true

/-- **`Flush` comes to an end exactly when `TXC0` is cleared in time.** In every state of a run in which
no `Write` is in progress and nothing is left to be sent `Flush` finds `TXC0` set, if and only if at
every step that clears `TXC0` the byte of that `Write` has not been sent out yet. -/
theorem flush_ends_iff {s t : Transmitter} {es : List TransmitEvent} (hs : s.Initial)
    (hrun : run transmitStep s es = some t) :
    (∀ before after u, es = before ++ after → run transmitStep s before = some u → u.Flushable) ↔
      Along transmitStep ClearsWhileBusy s es := by
  constructor
  · intro hflush
    -- the steps before the first violation keep the invariant; the violation itself shows afterwards
    induction es using List.reverseRecOn generalizing t with
    | nil => trivial
    | append_singleton es e ih =>
        obtain ⟨m, hm, hst⟩ := run_concat_eq_some.mp hrun
        have halong := ih hm fun before after u heq hu =>
          hflush before (after ++ [e]) u (by rw [heq, List.append_assoc]) hu
        refine along_append.mpr ⟨halong, fun u hu => ?_⟩
        obtain rfl := Option.some.inj (hm.symm.trans hu)
        refine ⟨?_, fun _ _ => trivial⟩
        rintro rfl hclear
        by_contra hidle
        apply not_flushable_of_clear (transmit_completionOk hs halong hm).1 hclear hidle hst
        exact hflush _ [] t (List.append_nil _).symm hrun
  · rintro halong before after u rfl hu
    exact (transmit_completionOk hs (along_append.mp halong).1 hu).1.flushable

/-- The registers after `Begin`. -/
def afterBegin : Transmitter :=
  ⟨⟨fun _ => 0, 0, 0⟩, 0x22, 0x98, false, false, false, .idle, [], []⟩

theorem afterBegin_initial : afterBegin.Initial := ⟨rfl, rfl, rfl, rfl, rfl, rfl, rfl, rfl⟩

/-- The handler and the transmitter are slower than `Write`. -/
theorem flush_ends_iff_inTime :
    ∃ t, run transmitStep afterBegin
        [.write 0x54, .advance, .advance, .advance, .advance, .advance, .advance, .advance,
          .udreVect, .advance, .advance, .load, .advance, .shiftedOut, .flush, .advance, .advance] =
          some t ∧ t.Flushable := by
  have hrun : (run transmitStep afterBegin
      [.write 0x54, .advance, .advance, .advance, .advance, .advance, .advance, .advance,
        .udreVect, .advance, .advance, .load, .advance, .shiftedOut, .flush, .advance, .advance]).isSome =
      true := by decide
  obtain ⟨t, ht⟩ := Option.isSome_iff_exists.mp hrun
  exact ⟨t, ht, (flush_ends_iff afterBegin_initial ht).mpr (by decide) _ [] t
    (List.append_nil _).symm ht⟩

/-- The task is suspended before `transmitting = true`, and meanwhile its byte is sent: `Flush` is called
and goes round its loop with `TXC0` cleared and nothing left that would set it. -/
theorem flush_hangs :
    afterBegin.Initial ∧ ∃ t, run transmitStep afterBegin
        [.write 0x54, .advance, .advance, .advance, .advance, .advance, .advance, .advance,
          .udreVect, .load, .shiftedOut, .udreVect, .advance, .advance, .advance, .flush, .advance,
          .advance] = some t ∧ ¬ t.Flushable ∧
      ∀ n, run transmitStep t (List.replicate (2 * n) .advance) = some t := by
  refine ⟨afterBegin_initial, _, rfl, by decide, fun n => ?_⟩
  induction n with
  | zero => rfl
  | succ n ih =>
      rw [show 2 * (n + 1) = 1 + 1 + 2 * n by omega, List.replicate_add, run_append]
      exact ih

end SmartblocksOs.Uart
