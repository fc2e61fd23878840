/-
# SmartblocksOs.Board.NfcExchanges -- what an exchange with the PN532 comes to

A command is one transaction; its acknowledge and its reply are polled for, up to 25 times each, until
the first byte says that the PN532 is ready (`polls`). The lemmas here say what `read_dt` and an exchange
return, for whatever the bus answers.

`Polled` says of a row of polls how it has ended, and `polls` computes the same from the bus: the theorems
about what the calls return are about the relation where they speak of all answers, and about the function
where an example is run.

A poll is a reception of `len + 2` bytes of which the first is the status; it is over when the status is
`01`, and repeated after a pause otherwise. Since `Read()` returns `0xFF` for what has not been received,
a poll that is not answered at all reads as one that is not ready. What is in the buffer after a
successful poll is a mixture of bytes received and fillers, which is what `overwrite` computes.

The theorems have the form that the callers need: from a board at hand with the bus `h`, the function
returns, the bus is what `polls` or `exchanged` compute from `h`, and the result is the function's of what
has been received. Nothing is assumed of the slave.
-/
import SmartblocksOs.Board.NfcCalls
import SmartblocksOs.Board.NfcFrames

namespace SmartblocksOs.Board

open SmartblocksOs.Foundation SmartblocksOs.System SmartblocksOs.Foundation.TwoWire

open CTWController CPortController

/-! ## One call after another

`AtHand` says of a machine in the middle of a program what has become of the bus and of the traffic since
the beginning, and that the controllers are ready for the next call. It composes by `trans`. -/

section

variable {h h' : Hardware} {l l' : List Traffic} {m m' m'' : TwMachine}

/-- With the port controller initialised there is nothing more to do for it. -/
theorem AtHand.afterInstance (hm : AtHand h l m m') : afterInstance m' = h := by
  unfold Board.afterInstance
  rw [hm.init, if_neg Bool.false_ne_true, hm.device]

theorem AtHand.trans (hm : AtHand h l m m') (hm' : AtHand h' l' m' m'') :
    AtHand h' (l ++ l') m m'' :=
  ⟨hm'.ready, hm'.device, hm'.init, by rw [hm'.log, hm.log, List.append_assoc]⟩

end

namespace CNFCController

/-! ## `read_dt`

The loop of the source is counted down from 25. `Polled` is its specification without the loop: the polls
made are those up to the first one that is ready, or all of them. -/

/-- One poll for `len` bytes: what is received, and what becomes of the bus. -/
def poll (h : Hardware) (len : Byte) : List Byte × Hardware :=
  let (bytes, _, h) := h.reception (slar pn532I2cAddress) (min (len + 2).toNat 64) true
  (bytes, h)

/-- Up to `attempts` polls: the bytes after the status, once it says that the PN532 is ready. -/
def polls (len : Byte) : Nat → Hardware → Option (List Byte) × Hardware
  | 0, h => (none, h)
  | attempts + 1, h =>
      let (bytes, h) := poll h len
      if bytes.headD 0xFF = pn532I2cReady then (some bytes.tail, h) else polls len attempts h

/-- The bus after `i` polls. -/
def afterPolls (len : Byte) (h : Hardware) (i : Nat) : Hardware := (fun h => (poll h len).2)^[i] h

/-- What the poll after `i` others receives. -/
def polled (len : Byte) (h : Hardware) (i : Nat) : List Byte := (poll (afterPolls len h i) len).1

/-- It says that the PN532 is ready. -/
def ReadyAt (len : Byte) (h : Hardware) (i : Nat) : Prop :=
  (polled len h i).head? = some pn532I2cReady

/-- It is the first to say so. -/
def FirstReady (len : Byte) (h : Hardware) (i : Nat) : Prop :=
  ReadyAt len h i ∧ ∀ j < i, ¬ ReadyAt len h j

instance (len : Byte) (h : Hardware) (i : Nat) : Decidable (ReadyAt len h i) :=
  inferInstanceAs (Decidable (_ = _))

instance (len : Byte) (h : Hardware) (i : Nat) : Decidable (FirstReady len h i) :=
  inferInstanceAs (Decidable (_ ∧ _))

/-- What the first `made` polls receive. -/
def pollTraffic (len : Byte) (h : Hardware) (made : Nat) : List Traffic :=
  (List.range made).map fun i => .received (polled len h i)

/-- The traffic of one poll more, at the front. -/
theorem pollTraffic_succ (len : Byte) (h : Hardware) (made : Nat) :
    pollTraffic len h (made + 1) = .received (poll h len).1 :: pollTraffic len (poll h len).2 made := by
  rw [pollTraffic, List.range_succ_eq_map, List.map_cons, List.map_map]
  rfl

/-- The filler is not the status. -/
theorem readyAt_zero_iff {len : Byte} {h : Hardware} :
    ReadyAt len h 0 ↔ (poll h len).1.headD 0xFF = pn532I2cReady := by
  show (poll h len).1.head? = _ ↔ _
  cases (poll h len).1 with
  | nil => exact iff_of_false (by simp) (by decide)
  | cons b bytes => exact Option.some_inj

theorem FirstReady.unique {len : Byte} {h : Hardware} {i j : Nat} (hi : FirstReady len h i)
    (hj : FirstReady len h j) : i = j := by
  rcases Nat.lt_trichotomy i j with hlt | heq | hlt
  · exact absurd hi.1 (hj.2 i hlt)
  · exact heq
  · exact absurd hj.1 (hi.2 j hlt)

/-- The first poll that is ready, when the one before them is not. -/
theorem FirstReady.succ {len : Byte} {h : Hardware} {i : Nat} (h0 : ¬ ReadyAt len h 0)
    (hi : FirstReady len (poll h len).2 i) : FirstReady len h (i + 1) := by
  refine ⟨hi.1, fun j hj => ?_⟩
  cases j with
  | zero => exact h0
  | succ j => exact hi.2 j (Nat.lt_of_succ_lt_succ hj)

/-- How `attempts` polls come out: the first that is ready is the last that is made. -/
inductive Polled (len : Byte) (h : Hardware) (attempts : Nat) : Nat → Option (List Byte) → Prop
  | answered (i : Nat) : i < attempts → FirstReady len h i →
      Polled len h attempts (i + 1) (some (polled len h i).tail)
  | unanswered : (∀ i < attempts, ¬ ReadyAt len h i) → Polled len h attempts attempts none

/-- One poll more that was not answered, at the front. -/
theorem Polled.succ {len : Byte} {h : Hardware} {attempts made : Nat} {answer : Option (List Byte)}
    (h0 : ¬ ReadyAt len h 0) (hp : Polled len (poll h len).2 attempts made answer) :
    Polled len h (attempts + 1) (made + 1) answer := by
  cases hp with
  | answered i hi hfirst =>
      show Polled len h (attempts + 1) (i + 1 + 1) (some (polled len h (i + 1)).tail)
      exact .answered (i + 1) (Nat.succ_lt_succ hi) (hfirst.succ h0)
  | unanswered hnone =>
      refine .unanswered fun i hi => ?_
      cases i with
      | zero => exact h0
      | succ i => exact hnone i (Nat.lt_of_succ_lt_succ hi)

/-- The polls that are made, and what comes of them. -/
theorem Polled.polls_eq {len : Byte} {h : Hardware} {attempts made : Nat}
    {answer : Option (List Byte)} (hp : Polled len h attempts made answer) :
    polls len attempts h = (answer, afterPolls len h made) := by
  -- on the number of polls
  induction attempts generalizing h made with
  | zero =>
      cases hp with
      | answered i hi _ => exact absurd hi (Nat.not_lt_zero i)
      | unanswered _ => rfl
  | succ attempts ih =>
      -- the first poll decides whether there is another
      by_cases h0 : ReadyAt len h 0
      · have hpolls : polls len (attempts + 1) h = (some (poll h len).1.tail, (poll h len).2) :=
          if_pos (readyAt_zero_iff.mp h0)
        cases hp with
        | answered i hi hfirst =>
            obtain rfl : i = 0 := hfirst.unique ⟨h0, fun j hj => absurd hj (Nat.not_lt_zero j)⟩
            exact hpolls
        | unanswered hnone => exact absurd h0 (hnone 0 (Nat.succ_pos _))
      · have hpolls : polls len (attempts + 1) h = polls len attempts (poll h len).2 :=
          if_neg fun h' => h0 (readyAt_zero_iff.mpr h')
        rw [hpolls]
        cases hp with
        | answered i hi hfirst =>
            cases i with
            | zero => exact absurd hfirst.1 h0
            | succ i =>
                have hnext : FirstReady len (poll h len).2 i :=
                  ⟨hfirst.1, fun j hj => hfirst.2 (j + 1) (Nat.succ_lt_succ hj)⟩
                exact ih (.answered i (Nat.lt_of_succ_lt_succ hi) hnext)
        | unanswered hnone => exact ih (.unanswered fun i hi => hnone (i + 1) (Nat.succ_lt_succ hi))

/-- `bytes` at the front of the buffer, with `0xFF` for those of `n` that are missing. -/
def overwrite (buf : Buffer) (n : Nat) (bytes : List Byte) : Buffer :=
  fun i => if i < n then bytes.getD i 0xFF else buf i

/-- A buffer that has been filled holds the bytes. -/
theorem overwrite_whole {bytes : List Byte} {n : Nat} (buf : Buffer) (hle : n ≤ bytes.length) :
    (List.range n).map (overwrite buf n bytes) = bytes.take n := by
  apply List.ext_getElem
  · rw [List.length_map, List.length_range, List.length_take, Nat.min_eq_left hle]
  · intro i hi hi'
    rw [List.length_map, List.length_range] at hi
    have hlt : i < bytes.length := hi.trans_le hle
    rw [List.getElem_map, List.getElem_range, List.getElem_take, overwrite, if_pos hi,
      List.getD_eq_getElem?_getD, List.getElem?_eq_getElem hlt, Option.getD_some]

/-- What is not the filler has been there. -/
theorem overwrite_received (buf : Buffer) (bytes : List Byte) {n i : Nat} (hi : i < n)
    (hne : overwrite buf n bytes i ≠ 0xFF) : (bytes.take n)[i]? = some (overwrite buf n bytes i) := by
  unfold overwrite at hne ⊢
  rw [if_pos hi, List.getD_eq_getElem?_getD] at hne ⊢
  rw [List.getElem?_take_of_lt hi]
  cases hb : bytes[i]? with
  | none =>
      rw [hb] at hne
      exact absurd rfl hne
  | some b => rfl

section

variable {held : Bool} {h : Hardware} {l : List Traffic} {m m' : TwMachine} {bytes : List Byte}

/-- The loop of `read_dt` over the bytes that have been received; what else `Read()` keeps, it keeps. -/
theorem readBuffer_total {I : TwMachine → Prop}
    (hI : ∀ {m' : TwMachine} {bytes : List Byte}, I m' → Unread m'.vars bytes →
      Returns readByte m' fun _ m'' => I m'') (n : Nat) (buf : Buffer) (hm : I m')
    (hu : Unread m'.vars bytes) :
    Returns ((List.range n).foldlM (fun (buf : Buffer) i => do
      let b ← readByte
      pure (Function.update buf i b)) buf) m' fun buf' m'' => buf' = overwrite buf n bytes ∧ I m'' := by
  -- The loop from index `i` on, with the bytes before in the buffer. Past the last byte `Read()` gives the
  -- filler.
  suffices hloop : ∀ k i (done buf : Buffer) (m' : TwMachine), i + k = n → done = overwrite buf i bytes →
      I m' → Unread m'.vars (bytes.drop i) →
      Returns ((List.range' i k).foldlM (fun (buf : Buffer) i => do
        let b ← readByte
        pure (Function.update buf i b)) done) m' fun buf' m'' => buf' = overwrite buf n bytes ∧ I m'' by
    have hempty : buf = overwrite buf 0 bytes := by
      funext i
      simp [overwrite]
    rw [List.range_eq_range']
    exact hloop n 0 buf buf m' (Nat.zero_add n) hempty hm hu
  intro k
  induction k with
  | zero =>
      rintro i done buf m' hk rfl hm hu
      obtain rfl : i = n := hk
      exact Total.pure_iff.mpr ⟨rfl, hm⟩
  | succ k ih =>
      rintro i done buf m' hk rfl hm hu
      rw [List.range'_succ, List.foldlM_cons]
      have hround : Returns (do
          let b ← readByte
          pure (Function.update (overwrite buf i bytes) i b)) m' fun done' m'' =>
            done' = overwrite buf (i + 1) bytes ∧ I m'' ∧ Unread m''.vars (bytes.drop (i + 1)) := by
        apply Total.seq ((hI hm hu).and (readByte_total hu))
        rintro b m'' ⟨hm'', rfl, hu'', -⟩
        refine Total.pure_iff.mpr ⟨?_, hm'', ?_⟩
        · funext j
          by_cases hj : j = i
          · subst hj
            simp [overwrite, List.headD_eq_head?_getD]
          · rw [Function.update_of_ne hj]
            simp only [overwrite]
            exact if_congr (by omega) rfl rfl
        · rwa [List.tail_drop] at hu''
      apply Total.seq hround
      rintro done' m'' ⟨rfl, hm'', hu''⟩
      exact ih (i + 1) _ buf m'' (by omega) rfl hm'' hu''

/-- Bytes that are of no use are taken all the same. -/
theorem flush_total (is : List Nat) (hm : Worked held h l m m') (hu : Unread m'.vars bytes) :
    Returns (is.forM fun _ => do
      let _ ← readByte
      pure ()) m' fun _ m'' => Worked held h l m m'' := by
  induction is generalizing m' bytes with
  | nil => exact Total.pure_iff.mpr hm
  | cons i is ih =>
      have hround : Returns (do
          let _ ← readByte
          pure ()) m' fun _ m₁ => Worked held h l m m₁ ∧ Unread m₁.vars bytes.tail :=
        Total.seq (take_worked hm hu) fun _ _ h₁ => Total.pure_iff.mpr h₁.2
      apply Total.seq hround
      rintro _ m₁ ⟨h₁, hu₁⟩
      exact ih h₁ hu₁

/-- `read_dt` polls until the PN532 is ready, at most `attempts` times. -/
theorem readDtFrom_polled (port : EPort) {len : Byte} (hlen : len + 2 ≠ 0) (attempts : Nat)
    {status : Byte} (buf : Buffer) (hstatus : status ≠ pn532I2cReady) (hm : AtHand h l m m') :
    Returns (readDtFrom port len attempts status buf) m' fun r m'' =>
      ∃ made answer, Polled len h attempts made answer ∧
        AtHand (afterPolls len h made) (l ++ pollTraffic len h made) m m'' ∧
        r = answer.elim (false, buf) fun bytes => (true, overwrite buf len.toNat bytes) := by
  -- On the polls that are left, as the function.
  induction attempts generalizing h l m' status buf with
  | zero =>
      refine Total.pure_iff.mpr ⟨0, none, .unanswered fun i hi => absurd hi (Nat.not_lt_zero i), ?_, ?_⟩
      · rw [pollTraffic, List.range_zero, List.map_nil, List.append_nil]
        exact hm
      · rw [beq_false_of_ne hstatus]
        rfl
  | succ attempts ih =>
      -- the three lines before the transaction
      refine Total.bind (hm.onInstance (Total.acquire_iff.mpr ?_))
      apply Total.seq (hm.onInstance (selectPort_total port))
      intro _ m₁ hsame
      have h₁ := hm.same hsame
      obtain ⟨held₁, hready₁⟩ := h₁.ready
      refine Total.bind (Total.acquire_iff.mpr ?_)
      apply Total.seq (read_worked pn532I2cAddress hlen (Worked.refl hready₁))
      rintro _ m₂ ⟨h₂, hu₂⟩
      rw [h₁.device] at h₂ hu₂
      apply Total.seq (take_worked h₂ hu₂)
      rintro status m₃ ⟨rfl, h₃, hu₃⟩
      change Returns (if (poll h len).1.headD 0xFF = pn532I2cReady then _ else _) _ _
      by_cases hready : (poll h len).1.headD 0xFF = pn532I2cReady
      -- the answer is there: it goes into the buffer, and the locks are released
      · rw [if_pos hready]
        apply Total.seq (readBuffer_total (fun hm hu => (take_worked hm hu).mono fun _ _ h => h.2.1)
          len.toNat buf h₃ hu₃)
        rintro _ m₄ ⟨rfl, h₄⟩
        refine Total.bind (Total.release_iff.mpr (Total.bind ?_))
        have hend := h₁.worked h₄
        refine hend.onInstance (Total.release_iff.mpr (Total.pure_iff.mpr ?_))
        refine ⟨1, _, .answered 0 (Nat.succ_pos _) ⟨readyAt_zero_iff.mpr hready, ?_⟩, hend, rfl⟩
        exact fun j hj => absurd hj (Nat.not_lt_zero j)
      -- it is not: what has come is dropped, and the next poll follows after a sleep
      · rw [if_neg hready]
        apply Total.seq (flush_total _ h₃ hu₃)
        intro _ m₄ h₄
        refine Total.bind (Total.release_iff.mpr (Total.bind ?_))
        have hend := h₁.worked h₄
        refine hend.onInstance (Total.release_iff.mpr (Total.bind (Total.switch_iff.mpr ?_)))
        apply (ih buf hready hend).mono
        rintro r m₅ ⟨made, answer, hpolled, hat, hr⟩
        refine ⟨made + 1, answer, hpolled.succ fun h' => hready (readyAt_zero_iff.mp h'), ?_, hr⟩
        rw [pollTraffic_succ, ← List.singleton_append, ← List.append_assoc]
        exact hat

/-- `read_dt` comes to as many polls as it takes. -/
theorem readDtFrom_total (port : EPort) {len : Byte} (hlen : len + 2 ≠ 0) (attempts : Nat)
    {status : Byte} (buf : Buffer) (hstatus : status ≠ pn532I2cReady) (hm : AtHand h l m m') :
    Returns (readDtFrom port len attempts status buf) m' fun r m'' =>
      (∃ l', AtHand (polls len attempts h).2 l' m m'') ∧
      r = (polls len attempts h).1.elim (false, buf)
        fun bytes => (true, overwrite buf len.toNat bytes) := by
  apply (readDtFrom_polled port hlen attempts buf hstatus hm).mono
  rintro r m'' ⟨made, answer, hpolled, hat, hr⟩
  rw [hpolled.polls_eq]
  exact ⟨⟨_, hat⟩, hr⟩

/-- The reply to a command, and the buffer with it. -/
theorem readDt_total (port : EPort) {len : Byte} (hlen : len + 2 ≠ 0) (buf : Buffer)
    (hm : AtHand h l m m') :
    Returns (readDt port buf len) m' fun r m'' =>
      (∃ l', AtHand (polls len 25 h).2 l' m m'') ∧
      r = (polls len 25 h).1.elim (false, buf) fun bytes => (true, overwrite buf len.toNat bytes) := by
  refine calledFor_total ((readDtFrom_total port hlen 25 buf (by decide) (hm.note rfl)).mono ?_)
  rintro r m'' ⟨⟨l', hm''⟩, hr⟩
  exact ⟨⟨l', hm''.note rfl⟩, hr⟩

/-- Whether the acknowledge is right. -/
def acknowledges (bytes : List Byte) : Bool := (List.range 6).map (overwrite (fun _ => 0) 6 bytes) == ack

/-- An acknowledge does not end with the filler, so it has been received as a whole. -/
theorem take_of_acknowledges {bytes : List Byte} (h : acknowledges bytes = true) : bytes.take 6 = ack := by
  replace h : (List.range 6).map (overwrite (fun _ => 0) 6 bytes) = ack := beq_iff_eq.mp h
  have hlast : overwrite (fun _ => 0) 6 bytes 5 = 0x00 := by
    have h5 := congrArg (fun l : List Byte => l[5]?) h
    simpa [ack] using h5
  have hreceived := overwrite_received (fun _ => 0) bytes (show 5 < 6 by decide) (by rw [hlast]; decide)
  have hlength : 5 < (bytes.take 6).length := (List.getElem?_eq_some_iff.mp hreceived).1
  rw [List.length_take] at hlength
  rw [← h, overwrite_whole _ (by omega)]

/-- The acknowledge is six bytes, which are compared. -/
theorem readAck_total (port : EPort) (hm : AtHand h l m m') :
    Returns (readAck port) m' fun acked m'' =>
      (∃ l', AtHand (polls 6 25 h).2 l' m m'') ∧ acked = (polls 6 25 h).1.any acknowledges := by
  apply Total.seq (readDt_total port (by decide) (fun _ => 0) hm)
  rintro r m'' ⟨hm'', rfl⟩
  refine Total.pure_iff.mpr ⟨hm'', ?_⟩
  cases (polls 6 25 h).1 with
  | none => rfl
  | some bytes => rfl

/-- The bus when the command `cmd` has been sent and its acknowledge has been polled for. -/
def acknowledgement (h : Hardware) (cmd : List Byte) : Option (List Byte) × Hardware :=
  polls 6 25 (h.transmission (slaw pn532I2cAddress) (commandFrame cmd) true).2

/-- A command is sent, and its acknowledge polled for. -/
theorem writeCmdCheckAck_total (port : EPort) (cmd : Buffer) {len : Byte} (hlen : Fits len)
    (hm : AtHand h l m m') :
    Returns (writeCmdCheckAck port cmd len) m' fun acked m'' =>
      (∃ l', AtHand (acknowledgement h (commandBytes cmd len)).2 l' m m'') ∧
      acked = (acknowledgement h (commandBytes cmd len)).1.any acknowledges := by
  obtain ⟨held, hready⟩ := hm.ready
  apply Total.seq (writeCmd_total port cmd len hlen hready)
  rintro _ m₁ ⟨h₁, -⟩
  rw [hm.afterInstance] at h₁
  exact readAck_total port (hm.trans h₁)

/-- The reply goes into the buffer of the call. -/
theorem readReply_total (port : EPort) {len : Byte} (hlen : len + 2 ≠ 0) (buf : Buffer)
    (hm : AtHand h l m m') :
    Returns (readReply port buf len) m' fun r m'' =>
      (∃ l', AtHand (polls len 25 h).2 l' m m'') ∧
      r = (polls len 25 h).1.elim (none, buf) fun bytes =>
        (some ((List.range len.toNat).map (overwrite buf len.toNat bytes)),
          overwrite buf len.toNat bytes) := by
  apply Total.seq (readDt_total port hlen buf hm)
  rintro r m'' ⟨hm'', rfl⟩
  refine Total.pure_iff.mpr ⟨hm'', ?_⟩
  cases (polls len 25 h).1 with
  | none => rfl
  | some bytes => rfl

/-- What an exchange comes to: what has been read, what is in the buffer, and what becomes of the bus. -/
def exchanged (h : Hardware) (io : Buffer) (len replyLen : Byte) : Option Reply × Buffer × Hardware :=
  let (acked, h) := acknowledgement h (commandBytes io len)
  if acked.any acknowledges then
    let (reply, h) := polls replyLen 25 h
    let io' := reply.elim io (overwrite io replyLen.toNat)
    (some (reply.map fun _ => (List.range replyLen.toNat).map io'), io', h)
  else (none, io, h)

/-- A command, its acknowledge and its reply. -/
theorem exchange_total (port : EPort) (io : Buffer) {len replyLen : Byte} (hlen : Fits len)
    (hreply : replyLen + 2 ≠ 0) (hm : AtHand h l m m') :
    Returns (exchange port io len replyLen) m' fun r m'' =>
      (∃ l', AtHand (exchanged h io len replyLen).2.2 l' m m'') ∧
      r = ((exchanged h io len replyLen).1, (exchanged h io len replyLen).2.1) := by
  apply Total.seq (writeCmdCheckAck_total port io hlen hm)
  rintro acked m₁ ⟨⟨l₁, h₁⟩, hacked⟩
  unfold exchanged
  simp only [← hacked]
  cases acked with
  | false => exact Total.pure_iff.mpr ⟨⟨l₁, h₁⟩, rfl⟩
  | true =>
      simp only [if_true]
      apply Total.seq (readReply_total port hreply io h₁)
      rintro r m₂ ⟨h₂, hr⟩
      refine Total.pure_iff.mpr ⟨h₂, ?_⟩
      rw [hr]
      cases (polls replyLen 25 (acknowledgement h (commandBytes io len)).2).1 with
      | none => rfl
      | some bytes => rfl

namespace NfcCall

/-- What a call with one exchange comes to. -/
def concluded (c : NfcCall) : Option Reply × Buffer → Outcome
  | (none, io) => ⟨0, c.rx, io, []⟩
  | (some reply, io) =>
      if c.accepts io then ⟨c.count io, c.handOut io, io, [reply]⟩ else ⟨0, c.rx, io, [reply]⟩

/-- A call of one exchange returns, with what the exchange has come to. -/
theorem traced_total (port : EPort) (io : Buffer) {c : NfcCall} (hlen : Fits c.len)
    (hone : ∀ reply io, c.conclude port reply io = pure ⟨c.count io, c.handOut io, io, [reply]⟩)
    (hm : AtHand h l m m') :
    Returns (c.traced port io) m' fun o m'' =>
      (∃ l', AtHand (exchanged h (c.prepared io) c.len c.replyLen).2.2 l' m m'') ∧
      o = c.concluded ((exchanged h (c.prepared io) c.len c.replyLen).1,
        (exchanged h (c.prepared io) c.len c.replyLen).2.1) := by
  have hreply : c.replyLen + 2 ≠ 0 := by cases c <;> simp [replyLen]
  apply calledFor_total
  apply Total.seq (exchange_total port (c.prepared io) hlen hreply (hm.note rfl))
  rintro ⟨reply, io'⟩ m'' ⟨⟨l', hm''⟩, hr⟩
  rw [← hr]
  cases reply with
  | none => exact Total.pure_iff.mpr ⟨⟨l', hm''.note rfl⟩, rfl⟩
  | some reply =>
      simp only [hone, concluded]
      cases c.accepts io' with
      | true => exact Total.pure_iff.mpr ⟨⟨l', hm''.note rfl⟩, rfl⟩
      | false => exact Total.pure_iff.mpr ⟨⟨l', hm''.note rfl⟩, rfl⟩

end NfcCall

end

end CNFCController

end SmartblocksOs.Board
