/-
# SmartblocksOs.Board.NfcPolls -- what `read_dt` hands over

`read_dt` polls until the first byte of an answer says that the PN532 is ready, at most 25 times, and puts
the bytes behind it into the caller's buffer. It does not look at how many there were: `Read(address, n)`
says so, and `Read()` makes up for those that are missing with `0xFF`. So what it hands over is the answer
just when the answer was long enough (`readDt_answer_iff`).
-/
import SmartblocksOs.Board.NfcExchanges

namespace SmartblocksOs.Board

open SmartblocksOs.Foundation SmartblocksOs.System SmartblocksOs.Foundation.TwoWire

open CTWController CPortController

namespace CNFCController

/-- A task that has not called `CPortController::instance()` before does it with its first lock. -/
theorem firstInstance_total {α : Type} {held : Bool} {m : TwMachine} {k : Unit → Code α}
    {Q : α → TwMachine → Prop} (hready : Ready held m)
    (h : ∀ m₁, AtHand (afterInstance m) (instanceTraffic m) m m₁ →
      Returns (onInstance (acquire .port) >>= k) m₁ Q) :
    Returns (onInstance (acquire .port) >>= k) m Q := by
  apply Total.bind
  apply Total.seq (initOnFirstUse_total hready)
  intro _ m₁ h₁
  apply Total.acquire_iff.mpr
  -- another call of `instance()` in `m₁` finds nothing to do
  have hagain := Total.bind_iff.mp (h m₁ h₁)
  have hsame : Returns (onInstance (acquire .port)) m₁ fun _ m' => m' = m₁ :=
    h₁.onInstance (Total.acquire_iff.mpr rfl)
  obtain ⟨_, _, ⟨hk, rfl⟩, -⟩ := (hagain.and hsame).exists_eq
  exact hk

section

variable {held : Bool} {m : TwMachine} {len : Byte}

/-- `read_dt`, with the polls that it makes. -/
theorem readDt_polled (port : EPort) (buf : Buffer) (hready : Ready held m) (hlen : len + 2 ≠ 0) :
    Returns (readDt port buf len) m fun r m' =>
      ∃ made answer, Polled len (afterInstance m) 25 made answer ∧
        AtHand (afterPolls len (afterInstance m) made)
          (instanceTraffic m ++ pollTraffic len (afterInstance m) made) m m' ∧
        r = answer.elim (false, buf) fun bytes => (true, overwrite buf len.toNat bytes) := by
  apply calledFor_total
  apply firstInstance_total (hready.noted (.called (.nfc port)))
  intro m₁ h₁
  have hbusy : pn532I2cBusy ≠ pn532I2cReady := by decide
  apply (readDtFrom_polled port hlen 25 buf hbusy (h₁.noted rfl)).mono
  rintro r m₂ ⟨made, answer, hpolled, hat, hr⟩
  exact ⟨made, answer, hpolled, hat.note rfl, hr⟩

/-- What `read_dt` is for, in terms of what its polls receive: `l` is the traffic that it makes on the bus
`h`, and `r` what it returns. -/
structure DeliversFirst (len : Byte) (h : Hardware) (buf : Buffer) (l : List Traffic)
    (r : Bool × Buffer) : Prop where
  polls : ∃ made ≤ 25, l = pollTraffic len h made
  success : r.1 = true ↔ ∃ i < 25, ReadyAt len h i
  answer : r.1 = true → ∃ i, FirstReady len h i ∧ l = pollTraffic len h (i + 1) ∧
    ∃ followed, polled len h i = pn532I2cReady :: followed ∧ len.toNat ≤ followed.length ∧
      (List.range len.toNat).map r.2 = followed.take len.toNat
  failure : r.1 = false → r.2 = buf

/-- The first poll that is ready, if there is one, brings the whole answer. -/
def AnswerWhole (len : Byte) (h : Hardware) : Prop :=
  ∀ i < 25, FirstReady len h i → len.toNat + 1 ≤ (polled len h i).length

/-- An answer begins with the byte that says ready. -/
theorem ReadyAt.polled_eq {h : Hardware} {i : Nat} (hready : ReadyAt len h i) :
    polled len h i = pn532I2cReady :: (polled len h i).tail := by
  unfold ReadyAt at hready
  rw [List.head?_eq_some_iff] at hready
  obtain ⟨followed, heq⟩ := hready
  rw [heq, List.tail_cons]

/-- What comes of the polls is what `read_dt` is for, just when the answer is whole. -/
theorem Polled.delivers_iff {h : Hardware} {made : Nat} {answer : Option (List Byte)} (buf : Buffer)
    (hp : Polled len h 25 made answer) :
    DeliversFirst len h buf (pollTraffic len h made)
        (answer.elim (false, buf) fun bytes => (true, overwrite buf len.toNat bytes)) ↔
      AnswerWhole len h := by
  cases hp with
  | answered i hi hfirst =>
      constructor
      -- what has been handed over is the answer, which then has the length asked for
      · intro hd j _ hj
        obtain rfl := hj.unique hfirst
        obtain ⟨i', hfirst', -, followed, heq, hle, -⟩ := hd.answer rfl
        obtain rfl := hfirst'.unique hfirst
        rw [heq, List.length_cons]
        exact Nat.succ_le_succ hle
      -- an answer of that length fills the buffer
      · intro hwhole
        have hlen := hwhole i hi hfirst
        have hle : len.toNat ≤ (polled len h i).tail.length := by
          rw [List.length_tail]
          omega
        refine ⟨⟨i + 1, hi, rfl⟩, iff_of_true rfl ⟨i, hi, hfirst.1⟩, fun _ => ?_, fun h => ?_⟩
        · exact ⟨i, hfirst, rfl, _, hfirst.1.polled_eq, hle, overwrite_whole buf hle⟩
        · exact absurd h Bool.noConfusion
  -- nothing has been answered: both sides are about no answer at all
  | unanswered hnone =>
      have hfalse : ¬ ∃ i < 25, ReadyAt len h i := fun ⟨i, hi, h'⟩ => hnone i hi h'
      refine iff_of_true ⟨⟨25, le_rfl, rfl⟩, iff_of_false Bool.noConfusion hfalse, ?_, fun _ => rfl⟩ ?_
      · exact fun h => absurd h Bool.noConfusion
      · exact fun i hi hfirst => absurd hfirst.1 (hnone i hi)

/-- A request of at most 62 bytes and the status does not wrap. -/
theorem add_two_ne_zero (hlen : len.toNat + 2 ≤ twBufferLength) : len + 2 ≠ 0 := by
  unfold twBufferLength at hlen
  bv_omega

/-- **What `read_dt` hands over.** It makes at most 25 polls, succeeds if and only if one of them is ready,
ends with the first that is, hands over the bytes that this one has brought behind the status, and changes
nothing when it fails: just when the first poll that is ready has not been cut off before the last of these
bytes. -/
theorem readDt_delivers_iff (port : EPort) (buf : Buffer) (hready : Ready held m)
    (hlen : len.toNat + 2 ≤ twBufferLength) :
    (Returns (readDt port buf len) m fun r m' =>
      ∃ l, traffic m'.log = traffic m.log ++ (instanceTraffic m ++ l) ∧
        DeliversFirst len (afterInstance m) buf l r) ↔
      AnswerWhole len (afterInstance m) := by
  obtain ⟨r, m', ⟨made, answer, hpolled, hat, hr⟩, hiff⟩ :=
    (readDt_polled port buf hready (add_two_ne_zero hlen)).exists_iff
  apply (hiff _).trans
  rw [← hpolled.delivers_iff buf, ← hr]
  constructor
  · rintro ⟨l, hlog, hd⟩
    rw [hat.log] at hlog
    obtain rfl := List.append_cancel_left (List.append_cancel_left hlog)
    exact hd
  · exact fun hd => ⟨_, hat.log, hd⟩

end

/-- A PN532 that is busy at first, and ready with an acknowledge when it is asked again. -/
def hesitant : TwMachine :=
  ⟨Function.update atRest .initRequired false, ⟨.idle, fun i => ⟨none, true, if i < 10 then 0 else
    [0x01, 0x00, 0x00, 0xFF, 0x00, 0xFF, 0x00].getD (i - 12) 0⟩, []⟩, []⟩

/-- Its bus is at rest. -/
theorem hesitant_ready : Ready false hesitant := ⟨rfl, rfl, rfl⟩

/-- A PN532 that is busy at first, with an answer that is long enough. -/
theorem readDt_delivers_iff_hesitant :
    (Returns (readDt .north (fun _ => 0) 6) hesitant fun r m' =>
      ∃ l, traffic m'.log = traffic hesitant.log ++ (instanceTraffic hesitant ++ l) ∧
        DeliversFirst 6 (afterInstance hesitant) (fun _ => 0) l r) ↔
      AnswerWhole 6 (afterInstance hesitant) :=
  readDt_delivers_iff .north (fun _ => 0) hesitant_ready (by decide)

/-- The bus fails right behind the status. -/
def interrupted : TwMachine :=
  ⟨Function.update atRest .initRequired false,
    ⟨.idle, fun i => ⟨if i = 3 then some .busError else none, true, pn532I2cReady⟩, []⟩, []⟩

/-- Then `read_dt` returns `true` with a buffer of fillers. -/
theorem readDt_not_delivers :
    ¬ ∀ (held : Bool) (m : TwMachine) (port : EPort) (buf : Buffer) (len : Byte), Ready held m →
      len.toNat + 2 ≤ twBufferLength → Returns (readDt port buf len) m fun r m' =>
        ∃ l, traffic m'.log = traffic m.log ++ (instanceTraffic m ++ l) ∧
          DeliversFirst len (afterInstance m) buf l r := by
  intro hall
  have hready : Ready false interrupted := ⟨rfl, rfl, rfl⟩
  have hreadyAt : FirstReady 6 (afterInstance interrupted) 0 :=
    ⟨rfl, fun j hj => absurd hj (Nat.not_lt_zero j)⟩
  obtain ⟨r, m', ⟨l, hlog, hd⟩, -⟩ :=
    (hall false interrupted .north (fun _ => 0) 6 hready (by decide)).exists_iff
  obtain ⟨i, hfirst, -, followed, heq, hle, -⟩ := hd.answer (hd.success.mpr ⟨0, by decide, hreadyAt.1⟩)
  obtain rfl := hfirst.unique hreadyAt
  have hbrought : polled 6 (afterInstance interrupted) 0 = [pn532I2cReady] := rfl
  rw [hbrought] at heq
  obtain rfl : [] = followed := (List.cons.inj heq).2
  exact absurd hle (by decide)

end CNFCController

end SmartblocksOs.Board
