/-
# SmartblocksOs.Uart.Commands -- the inputs of `InteractiveMode`

`InteractiveMode` polls the UART: if `Available` says that there are bytes it reads one as its input, and
reads and drops the others as long as there are any. Then it does what the input stands for, and polls
again. Bytes come in between any two loads and stores of all this.

So the bytes that it takes out of the buffer are cut into batches, one for each poll, and the input of a
poll is the first byte of its batch, or zero when the batch is empty (`commands_head_batches`). No `Read`
finds the buffer empty, and no filler is taken for an input.

The console is the only caller of `Available` and `Read`, and this is what makes the poll safe: between
`Available` and `Read` bytes may be added, but none can be taken. The invariant `Polls` records both the
bytes and the place in the loop; what is known of a call while it is going on (`Asking`, `Taking`) has to
survive the receive handler, which adds bytes behind the ones considered.
-/
import SmartblocksOs.Uart.Receive

namespace SmartblocksOs.Uart

open SmartblocksOs.Foundation SmartblocksOs.System

/-! ## The loop

The body of `InteractiveMode` as a state machine over the calls it makes. Each call of the UART controller
is a sequence of loads and stores of its own, those of `SmartblocksOs.Uart.Receive`. -/

/-- What `InteractiveMode` does for an input. -/
inductive Command where
  | nfcTransmit
  | scheduleDummy5
  | scheduleVariateLEDsOnNorth
  | scheduleVariateLEDsOnEast
  | scheduleInitNFC
  | nfcReact
  deriving DecidableEq, Repr

/-- The code of a character. -/
def ascii (c : Char) : Byte := BitVec.ofNat 8 c.toNat

/-- The `switch` of `InteractiveMode`. -/
def Command.ofInput (input : Byte) : Command :=
  if input = ascii 't' then .nfcTransmit
  else if input = ascii 'u' then .scheduleDummy5
  else if input = ascii 'n' then .scheduleVariateLEDsOnNorth
  else if input = ascii 'e' then .scheduleVariateLEDsOnEast
  else if input = ascii 'i' then .scheduleInitNFC
  else .nfcReact

/-- What it does for the bytes of a poll. -/
def Command.ofBatch (batch : List Byte) : Command := .ofInput (batch.headD 0)

/-- Where `InteractiveMode` stands. -/
inductive Loop where
  /-- Before `if (Available())`. -/
  | start
  /-- In it. -/
  | available
  /-- In `unInput = Read()`. -/
  | first
  /-- In `while (Available())`. -/
  | more
  /-- In the `Read()` of its body. -/
  | flush
  /-- Behind the lock. -/
  | command
  deriving DecidableEq

/-- Where the console is: at one of its own steps, in `Available`, or in `Read`. -/
theorem Loop.cases (loop : Loop) : (loop = .start ∨ loop = .command) ∨
    (loop = .available ∨ loop = .more) ∨ loop = .first ∨ loop = .flush := by
  cases loop with
  | start | command => simp
  | available | more => simp
  | first | flush => simp

/-- `InteractiveMode` at work on the receive buffer. -/
structure Console where
  receiver : Receiver
  loop : Loop
  /-- `unInput`. -/
  input : Byte
  /-- What has been done for the inputs so far. -/
  commands : List Command

/-- What can happen: the handler runs, or the console takes a step. -/
inductive ConsoleEvent where
  /-- `USART_RX_vect` runs, with the byte in `UDR0` and the bit `UPE0`. -/
  | rxVect (udr : Byte) (upe : Bool)
  /-- The next step of `InteractiveMode`. -/
  | next
  deriving DecidableEq

namespace Console

/-- A call of the UART controller begins. -/
def call (c : Console) (reader : Reader) (loop : Loop) : Option Console :=
  (c.receiver.call reader).map fun receiver => { c with receiver, loop }

/-- The next step of `InteractiveMode`: one of the call that it is in, or the one that follows what this
has returned. -/
def next (c : Console) : Option Console :=
  if c.receiver.reader = .idle then
    match c.loop, c.receiver.returned.getLast? with
    | .start, _ => { c with input := 0 }.call .availableHead .available
    | .available, some (.available n) =>
        if n ≠ 0 then c.call .readHead .first else some { c with loop := .command }
    | .first, some (.read _ _ b) => { c with input := b }.call .availableHead .more
    | .more, some (.available n) =>
        if n ≠ 0 then c.call .readHead .flush else some { c with loop := .command }
    | .flush, some (.read _ _ _) => c.call .availableHead .more
    | .command, _ => some { c with commands := c.commands ++ [.ofInput c.input], loop := .start }
    | _, _ => none
  else c.receiver.advance.map fun receiver => { c with receiver }

end Console

/-- The handler may run between any two steps of the console. -/
def consoleStep (c : Console) : ConsoleEvent → Option Console
  | .rxVect udr upe => some { c with receiver := c.receiver.rxVect udr upe }
  | .next => c.next

/-- Nothing received, and before the first poll. -/
structure Console.Initial (c : Console) : Prop where
  receiver : c.receiver.Initial
  loop : c.loop = .start
  commands : c.commands = []

/-! ## What is left in the buffer

The console knows from the count alone whether there is a byte, and from `Read` which one. Both are
compared with the list of bytes stored and not yet taken. -/

section

variable {s t : Receiver} {xs ys : List Byte}

/-- Every `Read` has found a byte. -/
def Finds (returned : List Returned) : Prop := ∀ pending b, Returned.read pending false b ∉ returned

/-- Nothing stored and nothing read, so the same bytes are left. -/
theorem Receiver.Ok.same_left (hs : s.Ok xs) (ht : t.Ok ys) (hstored : t.stored = s.stored)
    (htaken : taken t.returned = taken s.returned) : ys = xs := by
  have h := ht.stored
  rw [hstored, htaken, hs.stored] at h
  exact (List.append_cancel_left h).symm

/-- A byte that has been read was the oldest one. -/
theorem Receiver.Ok.one_left (hs : s.Ok xs) (ht : t.Ok ys) (hstored : t.stored = s.stored) {b : Byte}
    (htaken : taken t.returned = taken s.returned ++ [b]) : xs = b :: ys := by
  have h := ht.stored
  rw [hstored, htaken, hs.stored, List.append_assoc] at h
  exact List.append_cancel_left h

/-- What the count that `Available` returns says of `head` when it was loaded. -/
theorem availableCount_ne_zero {head tail : Word} {m : Nat} (hm : m < 64) (htail : tail.toNat < 64)
    (hhead : head.toNat = (tail.toNat + m) % 64) (hne : availableCount head tail ≠ 0) : m ≠ 0 := by
  rintro rfl
  apply hne
  obtain rfl : head = tail := by
    apply BitVec.eq_of_toNat_eq
    rw [hhead, Nat.add_zero, Nat.mod_eq_of_lt htail]
  unfold availableCount
  rw [BitVec.add_sub_cancel]
  rfl

/-! ## The invariant

The bytes taken so far are cut at the polls. `Batch` says for each place in the loop what the last,
unfinished batch is, and `Calling` what is known of the call the loop is in. -/

/-- In a call of `Available`, or behind it. -/
def Asking (s : Receiver) (xs : List Byte) : Reader → Prop
  | .availableHead => True
  | .availableTail head => ∃ m ≤ xs.length, head.toNat = (s.rx.tail.toNat + m) % 64
  | .idle => ∃ n, s.returned.getLast? = some (.available n) ∧ (n ≠ 0 → xs ≠ [])
  | _ => False

/-- In a call of `Read` for which there is a byte, or behind it. -/
def Taking (s : Receiver) (xs : List Byte) : Reader → Prop
  | .readHead => xs ≠ []
  | .readTail head => head ≠ s.rx.tail
  | .readIndex | .readByte _ | .readAdvance _ | .readStore _ _ => True
  | .idle => ∃ pending b, s.returned.getLast? = some (.read pending true b)
  | _ => False

namespace Console

/-- The call in which the loop is. -/
def Calling (c : Console) (xs : List Byte) : Loop → Prop
  | .start | .command => c.receiver.reader = .idle
  | .available | .more => Asking c.receiver xs c.receiver.reader
  | .first | .flush => Taking c.receiver xs c.receiver.reader

/-- The bytes of the poll that is going on. -/
def Batch (c : Console) (part : List Byte) : Loop → Prop
  | .start => part = []
  | .available => part = [] ∧ c.input = 0
  | .first => (c.receiver.reader ≠ .idle → part = []) ∧
      (c.receiver.reader = .idle →
        ∀ pending b, c.receiver.returned.getLast? = some (.read pending true b) → part = [b])
  | .more | .flush => part ≠ [] ∧ c.input = part.headD 0
  | .command => c.input = part.headD 0

/-- The bytes `xs` are left in the buffer; those that have been taken out are the batches of the polls so
far and the `part` of one more. -/
structure Polls (c : Console) (xs : List Byte) (batches : List (List Byte)) (part : List Byte) : Prop where
  ok : c.receiver.Ok xs
  calling : c.Calling xs c.loop
  finds : Finds c.receiver.returned
  taken : taken c.receiver.returned = batches.flatten ++ part
  commands : c.commands = batches.map Command.ofBatch
  batch : c.Batch part c.loop

/-- What has been read splits into batches somehow. -/
def Sound (c : Console) : Prop := ∃ xs batches part, c.Polls xs batches part

/-- Nothing has been read yet. -/
theorem Initial.sound {c : Console} (h : c.Initial) : c.Sound := by
  obtain ⟨-, -, hreader, -, hreturned⟩ := h.receiver
  refine ⟨[], [], [], h.receiver.ok, ?_, ?_, ?_, h.commands, ?_⟩
  · rw [h.loop]
    exact hreader
  · rw [hreturned]
    exact fun _ _ => List.not_mem_nil
  · rw [hreturned]
    rfl
  · rw [h.loop]
    rfl

end Console

theorem Finds.concat {returned : List Returned} (h : Finds returned) {r : Returned}
    (hr : ∀ pending b, r ≠ .read pending false b) : Finds (returned ++ [r]) := by
  intro pending b hb
  rcases List.mem_append.mp hb with hb | hb
  · exact h pending b hb
  · exact hr pending b (List.mem_singleton.mp hb).symm

/-! ### A byte comes in

The handler changes the head and the end of the list only. -/

/-- A call of `Available` is not disturbed by bytes that come in. -/
theorem Asking.congr {reader : Reader} (h : Asking s xs reader) (htail : t.rx.tail = s.rx.tail)
    (hreturned : t.returned = s.returned) (hlength : xs.length ≤ ys.length) : Asking t ys reader := by
  cases reader with
  | availableHead => trivial
  | availableTail head =>
      obtain ⟨m, hm, hhead⟩ := h
      exact ⟨m, hm.trans hlength, htail ▸ hhead⟩
  | idle =>
      obtain ⟨n, hn, hne⟩ := h
      refine ⟨n, hreturned ▸ hn, fun hn => ?_⟩
      have := List.length_pos_iff.mpr (hne hn)
      exact List.length_pos_iff.mp (by omega)
  | _ => exact h

theorem Taking.congr {reader : Reader} (h : Taking s xs reader) (htail : t.rx.tail = s.rx.tail)
    (hreturned : t.returned = s.returned) (hlength : xs.length ≤ ys.length) : Taking t ys reader := by
  cases reader with
  | readHead =>
      have := List.length_pos_iff.mpr h
      exact List.length_pos_iff.mp (by omega)
  | readTail head =>
      show head ≠ t.rx.tail
      rwa [htail]
  | idle =>
      show ∃ pending b, t.returned.getLast? = some (.read pending true b)
      rwa [hreturned]
  | _ => exact h

/-- What the handler leaves alone: it only adds to what is stored. -/
theorem Receiver.rxVect_frame (s : Receiver) (udr : Byte) (upe : Bool) :
    (s.rxVect udr upe).reader = s.reader ∧ (s.rxVect udr upe).returned = s.returned ∧
      (s.rxVect udr upe).rx.tail = s.rx.tail ∧ s.stored.length ≤ (s.rxVect udr upe).stored.length := by
  rw [Receiver.rxVect_eq]
  split
  · exact ⟨rfl, rfl, rfl, by simp⟩
  · exact ⟨rfl, rfl, rfl, Nat.le_refl _⟩

namespace Console

variable {c c' : Console} {batches : List (List Byte)} {part : List Byte}

theorem Polls.rxVect (h : c.Polls xs batches part) (udr : Byte) (upe : Bool) :
    Sound { c with receiver := c.receiver.rxVect udr upe } := by
  obtain ⟨hreader, hreturned, htail, hstored⟩ := c.receiver.rxVect_frame udr upe
  obtain ⟨ys, hys⟩ := h.ok.rxVect udr upe
  -- a byte may have been added, and none is gone
  have hlength : xs.length ≤ ys.length := by
    have hbefore := congrArg List.length h.ok.stored
    have hafter := congrArg List.length hys.stored
    rw [List.length_append] at hbefore hafter
    rw [hreturned] at hafter
    omega
  refine ⟨ys, batches, part, hys, ?_, ?_, ?_, h.commands, ?_⟩
  · have hcalling := h.calling
    show Calling _ ys c.loop
    cases hloop : c.loop with
    | start | command =>
        rw [hloop] at hcalling
        exact hreader.trans hcalling
    | available | more =>
        rw [hloop] at hcalling
        show Asking _ ys (c.receiver.rxVect udr upe).reader
        rw [hreader]
        exact Asking.congr hcalling htail hreturned hlength
    | first | flush =>
        rw [hloop] at hcalling
        show Taking _ ys (c.receiver.rxVect udr upe).reader
        rw [hreader]
        exact Taking.congr hcalling htail hreturned hlength
  · show Finds (c.receiver.rxVect udr upe).returned
    rw [hreturned]
    exact h.finds
  · show Uart.taken (c.receiver.rxVect udr upe).returned = _
    rw [hreturned]
    exact h.taken
  · have hbatch := h.batch
    show Batch _ part c.loop
    cases hloop : c.loop with
    | first =>
        rw [hloop] at hbatch
        show ((c.receiver.rxVect udr upe).reader ≠ _ → _) ∧ ((c.receiver.rxVect udr upe).reader = _ →
          ∀ pending b, (c.receiver.rxVect udr upe).returned.getLast? = _ → _)
        rw [hreader, hreturned]
        exact hbatch
    | _ =>
        rw [hloop] at hbatch
        exact hbatch

end Console

/-! ### A load or store of the reader

One step within a call. Only the last store of a `Read` takes a byte out; up to there the list is what it
was. -/

/-- In `Available` nothing is taken out. -/
theorem Receiver.Ok.asking (h : s.Ok xs) (hasking : Asking s xs s.reader)
    (hst : s.advance = some t) : t.Ok xs ∧ Asking t xs t.reader ∧ taken t.returned = taken s.returned ∧
      (Finds s.returned → Finds t.returned) := by
  obtain ⟨ys, hys⟩ := h.advance hst
  unfold Receiver.advance at hst
  cases hreader : s.reader with
  | availableHead =>
      rw [hreader] at hst
      obtain rfl := Option.some.inj hst
      obtain rfl := h.same_left hys rfl rfl
      exact ⟨hys, ⟨ys.length, Nat.le_refl _, h.ring.head_eq⟩, rfl, id⟩
  | availableTail head =>
      rw [hreader] at hst hasking
      obtain rfl := Option.some.inj hst
      obtain ⟨m, hm, hhead⟩ := hasking
      have hlt := h.ring.length_lt
      -- asking takes nothing
      have htaken : taken (s.returned ++ [.available (availableCount head s.rx.tail)]) = taken s.returned := by
        rw [taken_concat]
        exact List.append_nil _
      obtain rfl := h.same_left hys rfl htaken
      refine ⟨hys, ⟨_, List.getLast?_concat, fun hne => ?_⟩, htaken,
        fun hfinds => hfinds.concat fun _ _ => Returned.noConfusion⟩
      have := availableCount_ne_zero (hm.trans_lt hlt) h.ring.tail_lt hhead hne
      exact List.length_pos_iff.mp (by omega)
  | _ =>
      rw [hreader] at hasking hst
      first
      | exact hasking.elim
      | exact absurd hst (by simp)

/-- A `Read` takes the oldest byte out, with its last store. -/
theorem Receiver.Ok.taking (h : s.Ok xs) (htaking : Taking s xs s.reader)
    (hst : s.advance = some t) :
    (t.Ok xs ∧ Taking t xs t.reader ∧ t.reader ≠ .idle ∧ t.returned = s.returned) ∨
      ∃ b ys, xs = b :: ys ∧ t.Ok ys ∧ t.reader = .idle ∧
        t.returned = s.returned ++ [.read s.pending true b] := by
  obtain ⟨ys, hys⟩ := h.advance hst
  unfold Receiver.advance at hst
  cases hreader : s.reader with
  | readHead =>
      rw [hreader] at hst htaking
      obtain rfl := Option.some.inj hst
      obtain rfl := h.same_left hys rfl rfl
      exact Or.inl ⟨hys, mt h.ring.empty_iff.mp htaking, Reader.noConfusion, rfl⟩
  | readTail head =>
      rw [hreader] at hst htaking
      -- a byte is there, so that the branch for an empty ring is not taken
      have hne : head ≠ s.rx.tail := htaking
      replace hst : (if head = s.rx.tail then some (s.give (.read s.pending false (-1)))
        else some (s.goto .readIndex)) = some t := hst
      rw [if_neg hne] at hst
      obtain rfl := Option.some.inj hst
      obtain rfl := h.same_left hys rfl rfl
      exact Or.inl ⟨hys, trivial, Reader.noConfusion, rfl⟩
  | readIndex | readByte tail | readAdvance b =>
      rw [hreader] at hst
      obtain rfl := Option.some.inj hst
      obtain rfl := h.same_left hys rfl rfl
      exact Or.inl ⟨hys, trivial, Reader.noConfusion, rfl⟩
  | readStore b tail =>
      rw [hreader] at hst
      obtain rfl := Option.some.inj hst
      -- the oldest byte is taken
      have hleft := h.one_left hys rfl (taken_concat s.returned (.read s.pending true b))
      exact Or.inr ⟨b, ys, hleft, hys, rfl, rfl⟩
  | _ =>
      rw [hreader] at htaking hst
      first
      | exact htaking.elim
      | exact absurd hst (by simp)

namespace Console

variable {c c' : Console} {batches : List (List Byte)} {part : List Byte}

theorem Polls.asked (h : c.Polls xs batches part) (hloop : c.loop = .available ∨ c.loop = .more)
    {receiver : Receiver} (hst : c.receiver.advance = some receiver) :
    Polls { c with receiver } xs batches part := by
  have hcalling : Asking c.receiver xs c.receiver.reader := by
    have hcalling := h.calling
    rcases hloop with hloop | hloop
    · rwa [hloop] at hcalling
    · rwa [hloop] at hcalling
  obtain ⟨hok, hasking, htaken, hfinds⟩ := h.ok.asking hcalling hst
  refine ⟨hok, ?_, hfinds h.finds, htaken.trans h.taken, h.commands, ?_⟩
  · show Calling _ xs c.loop
    rcases hloop with hloop | hloop
    · rwa [hloop]
    · rwa [hloop]
  · have hbatch := h.batch
    show Batch _ part c.loop
    rcases hloop with hloop | hloop
    · rwa [hloop] at hbatch ⊢
    · rwa [hloop] at hbatch ⊢

/-- A step of `Read`. The byte that it returns goes to the current batch. -/
theorem Polls.took (h : c.Polls xs batches part) (hloop : c.loop = .first ∨ c.loop = .flush)
    (hbusy : c.receiver.reader ≠ .idle) {receiver : Receiver}
    (hst : c.receiver.advance = some receiver) : Sound { c with receiver } := by
  have htaking : Taking c.receiver xs c.receiver.reader := by
    have hcalling := h.calling
    rcases hloop with hloop | hloop
    · rwa [hloop] at hcalling
    · rwa [hloop] at hcalling
  have hbatch := h.batch
  -- the read goes on, or it is over and a byte has been taken
  rcases h.ok.taking htaking hst with ⟨hok, htaking', hbusy', hreturned⟩ | ⟨b, ys, -, hok, hidle, hreturned⟩
  · refine ⟨xs, batches, part, hok, ?_, ?_, ?_, h.commands, ?_⟩
    · show Calling _ xs c.loop
      rcases hloop with hloop | hloop
      · rwa [hloop]
      · rwa [hloop]
    · show Finds receiver.returned
      rw [hreturned]
      exact h.finds
    · show Uart.taken receiver.returned = _
      rw [hreturned]
      exact h.taken
    · show Batch _ part c.loop
      rcases hloop with hloop | hloop
      · rw [hloop] at hbatch ⊢
        exact ⟨fun _ => hbatch.1 hbusy, fun hidle => absurd hidle hbusy'⟩
      · rwa [hloop] at hbatch ⊢
  · have hlast : receiver.returned.getLast? = some (.read c.receiver.pending true b) := by
      rw [hreturned, List.getLast?_concat]
    refine ⟨ys, batches, part ++ [b], hok, ?_, ?_, ?_, h.commands, ?_⟩
    · show Calling _ ys c.loop
      have htaking' : Taking receiver ys receiver.reader := by
        rw [hidle]
        exact ⟨_, b, hlast⟩
      rcases hloop with hloop | hloop
      · rwa [hloop]
      · rwa [hloop]
    · show Finds receiver.returned
      rw [hreturned]
      exact h.finds.concat fun _ b' => by simp
    · show Uart.taken receiver.returned = _
      rw [hreturned, taken_concat, h.taken, List.append_assoc]
      rfl
    · show Batch _ (part ++ [b]) c.loop
      rcases hloop with hloop | hloop
      -- the first byte of the batch is the one the command is chosen by
      · rw [hloop] at hbatch ⊢
        obtain rfl := hbatch.1 hbusy
        refine ⟨fun hbusy' => absurd hidle hbusy', fun _ pending b' hb' => ?_⟩
        have hsame := (Returned.read.inj (Option.some.inj (hlast.symm.trans hb'))).2.2
        rw [hsame]
        rfl
      · rw [hloop] at hbatch ⊢
        obtain ⟨hne, hinput⟩ := hbatch
        obtain ⟨b₀, part', rfl⟩ := List.exists_cons_of_ne_nil hne
        exact ⟨by simp, hinput⟩

/-! ### Between two calls

The loop goes by what the last call has returned, which is the last entry of `returned`. -/

theorem Polls.called (h : c.Polls xs batches part) {reader : Reader} {loop : Loop}
    (hreader : ReaderOk (c.receiver.enter reader) xs) (hst : c.call reader loop = some c')
    (hcalling : Calling { c with receiver := c.receiver.enter reader } xs loop)
    (hbatch : Batch { c with receiver := c.receiver.enter reader } part loop) :
    c'.Polls xs batches part := by
  obtain ⟨receiver, hreceiver, rfl⟩ := Option.map_eq_some_iff.mp hst
  unfold Receiver.call at hreceiver
  obtain ⟨-, hreceiver⟩ := Option.ite_none_right_eq_some.mp hreceiver
  obtain rfl := Option.some.inj hreceiver
  exact ⟨h.ok.enter hreader, hcalling, h.finds, h.taken, h.commands, hbatch⟩

theorem Polls.asks (h : c.Polls xs batches part) {loop : Loop}
    (hst : c.call .availableHead loop = some c') (hloop : loop = .available ∨ loop = .more)
    (hbatch : Batch { c with receiver := c.receiver.enter .availableHead } part loop) :
    c'.Polls xs batches part := by
  refine h.called ?_ hst ?_ hbatch
  · trivial
  · rcases hloop with rfl | rfl <;> trivial

theorem Polls.takes (h : c.Polls xs batches part) {loop : Loop} (hst : c.call .readHead loop = some c')
    (hne : xs ≠ []) (hloop : loop = .first ∨ loop = .flush)
    (hbatch : Batch { c with receiver := c.receiver.enter .readHead } part loop) :
    c'.Polls xs batches part := by
  refine h.called ?_ hst ?_ hbatch
  · trivial
  · rcases hloop with rfl | rfl <;> exact hne

/-- The poll is over, and its input is the first byte of its batch. -/
theorem Polls.over (h : c.Polls xs batches part) (hidle : c.receiver.reader = .idle)
    (hinput : c.input = part.headD 0) : Polls { c with loop := .command } xs batches part :=
  ⟨h.ok, hidle, h.finds, h.taken, h.commands, hinput⟩

theorem Polls.next (h : c.Polls xs batches part) (hst : c.next = some c') : c'.Sound := by
  have hcalling := h.calling
  have hbatch := h.batch
  unfold Console.next at hst
  -- between two calls of the ring buffer the loop takes a step, otherwise the call does
  by_cases hidle : c.receiver.reader = .idle
  · rw [if_pos hidle] at hst
    split at hst
    · rename_i hloop
      rw [hloop] at hbatch
      -- a round begins: nothing has been taken in it
      obtain rfl : part = [] := hbatch
      have h' : Polls { c with input := 0 } xs batches [] :=
        ⟨h.ok, by rw [hloop]; exact hidle, h.finds, h.taken, h.commands, by rw [hloop]; rfl⟩
      exact ⟨xs, batches, [], h'.asks hst (Or.inl rfl) ⟨rfl, rfl⟩⟩
    · rename_i n hloop hlast
      rw [hloop] at hbatch hcalling
      obtain ⟨rfl, hinput⟩ := hbatch
      have hasking : Asking c.receiver xs .idle := hidle ▸ hcalling
      obtain ⟨n', hlast', hne⟩ := hasking
      obtain rfl := Returned.available.inj (Option.some.inj (hlast'.symm.trans hlast))
      split at hst
      -- something is there: `Read` will find it, since nobody else takes bytes
      · rename_i hn
        refine ⟨xs, batches, [], h.takes hst (hne hn) (Or.inl rfl) ⟨fun _ => rfl, ?_⟩⟩
        exact fun hidle' => Reader.noConfusion hidle'
      · obtain rfl := Option.some.inj hst
        exact ⟨xs, batches, [], h.over hidle hinput⟩
    · rename_i pending found b hloop hlast
      rw [hloop] at hbatch hcalling
      have htaking : Taking c.receiver xs .idle := hidle ▸ hcalling
      obtain ⟨_, b', hlast'⟩ := htaking
      obtain rfl := (Returned.read.inj (Option.some.inj (hlast'.symm.trans hlast))).2.2
      obtain rfl := hbatch.2 hidle _ _ hlast'
      have h' : Polls { c with input := b' } xs batches [b'] :=
        ⟨h.ok, by rw [hloop]; exact hcalling, h.finds, h.taken, h.commands, by rw [hloop]; exact hbatch⟩
      exact ⟨xs, batches, [b'], h'.asks hst (Or.inr rfl) ⟨by simp, rfl⟩⟩
    · rename_i n hloop hlast
      rw [hloop] at hbatch hcalling
      have hasking : Asking c.receiver xs .idle := hidle ▸ hcalling
      obtain ⟨n', hlast', hne⟩ := hasking
      obtain rfl := Returned.available.inj (Option.some.inj (hlast'.symm.trans hlast))
      split at hst
      · rename_i hn
        exact ⟨xs, batches, part, h.takes hst (hne hn) (Or.inr rfl) hbatch⟩
      · obtain rfl := Option.some.inj hst
        exact ⟨xs, batches, part, h.over hidle hbatch.2⟩
    · rename_i pending found b hloop hlast
      rw [hloop] at hbatch
      exact ⟨xs, batches, part, h.asks hst (Or.inr rfl) hbatch⟩
    · rename_i hloop
      rw [hloop] at hbatch
      obtain rfl := Option.some.inj hst
      -- the command is carried out, and the batch is complete
      refine ⟨xs, batches ++ [part], [], h.ok, hidle, h.finds, ?_, ?_, rfl⟩
      · rw [h.taken]
        simp
      · show c.commands ++ [.ofInput c.input] = _
        rw [h.commands, List.map_append, show c.input = part.headD 0 from hbatch]
        rfl
    · exact absurd hst (by simp)
  · rw [if_neg hidle] at hst
    obtain ⟨receiver, hreceiver, rfl⟩ := Option.map_eq_some_iff.mp hst
    rcases c.loop.cases with hloop | hloop | hloop
    · refine absurd ?_ hidle
      rcases hloop with hloop | hloop
      · rwa [hloop] at hcalling
      · rwa [hloop] at hcalling
    · exact ⟨xs, batches, part, h.asked hloop hreceiver⟩
    · exact h.took hloop hidle hreceiver

end Console

end

/-- **The inputs of `InteractiveMode`.** Whenever bytes come in: every `Read` finds a byte; the bytes that
have been taken out of the buffer, which are the first of those stored, are those of one batch for each
poll, and of the poll that is going on; and what has been done for a poll is what the first byte of its
batch stands for, or zero where the batch is empty. -/
theorem commands_head_batches {c : Console} (h : Reachable Console.Initial consoleStep c) :
    Finds c.receiver.returned ∧ taken c.receiver.returned <+: c.receiver.stored ∧
      ∃ (batches : List (List Byte)) (part : List Byte),
        taken c.receiver.returned = batches.flatten ++ part ∧
          c.commands = batches.map Command.ofBatch ∧ (c.loop = .start → part = []) := by
  have hsound : c.Sound := by
    refine h.invariant (fun _ => Console.Initial.sound) fun c e c' hc hst => ?_
    obtain ⟨xs, batches, part, hpolls⟩ := hc
    cases e with
    | rxVect udr upe =>
        obtain rfl := Option.some.inj hst
        exact hpolls.rxVect udr upe
    | next => exact hpolls.next hst
  obtain ⟨xs, batches, part, hpolls⟩ := hsound
  refine ⟨hpolls.finds, ⟨xs, hpolls.ok.stored.symm⟩, batches, part, hpolls.taken, hpolls.commands, ?_⟩
  intro hloop
  have hbatch := hpolls.batch
  rwa [hloop] at hbatch

/-- Before the first poll. -/
def Console.quiet : Console := ⟨⟨⟨fun _ => 0, 0, 0⟩, .idle, [], [], []⟩, .start, 0, []⟩

/-- Three bytes come in, the last one in the middle of the poll that the first two are for: it belongs to
the same batch. -/
theorem commands_head_batches_typed :
    ∃ c, run consoleStep .quiet ([.rxVect 0x74 false, .rxVect 0x0D false] ++ List.replicate 10 .next ++
        [.rxVect 0x75 false] ++ List.replicate 30 .next) = some c ∧ c.commands = [.nfcTransmit, .nfcReact] ∧
      Finds c.receiver.returned := by
  have hrun : (run consoleStep .quiet ([.rxVect 0x74 false, .rxVect 0x0D false] ++
      List.replicate 10 .next ++ [.rxVect 0x75 false] ++ List.replicate 30 .next)).map
        (fun c => c.commands) = some [.nfcTransmit, .nfcReact] := by
    decide +kernel
  obtain ⟨c, hc, hcommands⟩ := Option.map_eq_some_iff.mp hrun
  exact ⟨c, hc, hcommands, (commands_head_batches ⟨.quiet, _, ⟨⟨rfl, rfl, rfl, rfl, rfl⟩, rfl, rfl⟩, hc⟩).1⟩

end SmartblocksOs.Uart
