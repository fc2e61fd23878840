/-
# SmartblocksOs.System.Timer -- `CTimer`

The handler of timer 2 counts `m_unTimerMilliseconds` up, which is four bytes, and the processor loads
one byte at a time. `GetMilliseconds` saves `SREG`, disables interrupts, loads the bytes and writes `SREG`
back. Between any two instructions at which interrupts are enabled the handler may run, or a tick may
switch to another task, which has its own `SREG` and may be in a call of its own.

What a call returns is the count at the moment it writes `SREG` back (`getMilliseconds_exact`): while the
bytes are loaded neither the handler nor another task runs, also when the caller has disabled interrupts
before and wants to find them disabled.
-/
import SmartblocksOs.Foundation.Runs
import SmartblocksOs.System.Globals

namespace SmartblocksOs.System

open SmartblocksOs.Foundation

namespace CTimer

/-! ## The bytes of a count

A count is put together from its bytes again, whichever order they have been loaded in. -/

/-- Byte `i` of the count, the lowest first. -/
def byteAt (w : BitVec 32) (i : Nat) : Byte := w.extractLsb' (8 * i) 8

/-- The count that has these bytes. -/
def word (bytes : List Byte) : BitVec 32 := bytes.foldr (fun b w => w <<< 8 ||| b.setWidth 32) 0

/-- The first `n` bytes of a count. -/
def lowBytes (w : BitVec 32) (n : Nat) : List Byte := (List.range n).map (byteAt w)

theorem lowBytes_succ (w : BitVec 32) (n : Nat) : lowBytes w (n + 1) = lowBytes w n ++ [byteAt w n] := by
  unfold lowBytes
  rw [List.range_succ, List.map_append]
  rfl

/-- The four bytes make up the word again. -/
theorem word_lowBytes (w : BitVec 32) : word (lowBytes w 4) = w := by
  show (((0 <<< 8 ||| (byteAt w 3).setWidth 32) <<< 8 ||| (byteAt w 2).setWidth 32) <<< 8 |||
    (byteAt w 1).setWidth 32) <<< 8 ||| (byteAt w 0).setWidth 32 = w
  unfold byteAt
  apply BitVec.eq_of_getLsbD_eq
  intro i hi
  simp only [BitVec.getLsbD_or, BitVec.getLsbD_shiftLeft, BitVec.getLsbD_setWidth,
    BitVec.getLsbD_extractLsb']
  grind

/-! ## The count, its handler and the tasks

Each task has its own bit `I`, which a switch exchanges. The handler runs only when the bit of the current
task is set. -/

/-- Where a task stands in `GetMilliseconds`. -/
inductive Pc where
  | outside
  /-- At `oldSREG = SREG`. -/
  | save
  /-- At `cli()`. -/
  | cli (oldSREG : Byte)
  /-- Behind it, with these bytes of the count in registers. -/
  | load (oldSREG : Byte) (bytes : List Byte)
  deriving DecidableEq

/-- A call that has returned: what it returned, how often the handler had run when it was called and when
it wrote `SREG` back, and `SREG` before and after it. -/
structure Reading where
  value : BitVec 32
  called : Nat
  returned : Nat
  sreg : Byte
  sregAfter : Byte
  deriving DecidableEq

/-- The millisecond counter, the tasks that read it, and what they have read. -/
structure Timer (ι : Type) where
  milliseconds : BitVec 32
  /-- How often the handler has run. -/
  compares : Nat
  current : ι
  sreg : ι → Byte
  pc : ι → Pc
  /-- How often it had run at the latest call of a task, and `SREG` at that call. -/
  begun : ι → Nat × Byte
  readings : List Reading

/-- What can happen between two instructions of `GetMilliseconds`. -/
inductive Event (ι : Type) where
  /-- `ISR(TIMER2_COMPA_vect)`. -/
  | compare
  /-- A tick switches to task `t`. -/
  | tick (t : ι)
  /-- The current task switches to task `t`. -/
  | yield (t : ι)
  /-- The current task does something else that leaves `v` in `SREG`. -/
  | setSREG (v : Byte)
  /-- It calls `GetMilliseconds`. -/
  | call
  /-- The next instruction of the call it is in. -/
  | advance
  deriving DecidableEq

/-- Bit `I` of `SREG`. -/
def interruptsEnabled (sreg : Byte) : Bool := sreg.getLsbD 7

section

variable {ι : Type} [DecidableEq ι]

namespace Timer

/-- The current task goes to `pc`. -/
def goto (s : Timer ι) (pc : Pc) : Timer ι := { s with pc := Function.update s.pc s.current pc }

/-- The `SREG` of the current task. -/
def setSREG (s : Timer ι) (v : Byte) : Timer ι := { s with sreg := Function.update s.sreg s.current v }

/-- The next instruction of `GetMilliseconds`. -/
def advance (s : Timer ι) : Option (Timer ι) :=
  match s.pc s.current with
  | .outside => none
  | .save => some (s.goto (.cli (s.sreg s.current)))
  | .cli oldSREG => some ((s.setSREG (s.sreg s.current &&& 0x7F)).goto (.load oldSREG []))
  | .load oldSREG bytes =>
      if bytes.length < 4 then
        some (s.goto (.load oldSREG (bytes ++ [byteAt s.milliseconds bytes.length])))
      else
        let s' := (s.setSREG oldSREG).goto .outside
        let reading : Reading :=
          ⟨word bytes, (s.begun s.current).1, s'.compares, (s.begun s.current).2, s'.sreg s.current⟩
        some { s' with readings := s.readings ++ [reading] }

/-- The steps of the tasks and of the timer. The handler and the tick wait until interrupts are enabled. -/
def step (s : Timer ι) : Event ι → Option (Timer ι)
  | .compare =>
      if interruptsEnabled (s.sreg s.current) then
        some { s with milliseconds := s.milliseconds + 1, compares := s.compares + 1 }
      else none
  | .tick t => if interruptsEnabled (s.sreg s.current) then some { s with current := t } else none
  | .yield t => if s.pc s.current = .outside then some { s with current := t } else none
  | .setSREG v => if s.pc s.current = .outside then some (s.setSREG v) else none
  | .call =>
      if s.pc s.current = .outside then
        some { s.goto .save with begun := Function.update s.begun s.current (s.compares, s.sreg s.current) }
      else none
  | .advance => s.advance

/-- Behind the constructor of `CTimer`. -/
structure Initial (s : Timer ι) : Prop where
  milliseconds : s.milliseconds = 0
  compares : s.compares = 0
  pc : ∀ t, s.pc t = .outside
  readings : s.readings = []

end Timer

end

/-! ## The invariant

A task that is loading bytes has disabled interrupts, so that it is the current one and the count is what
it was when the first byte was loaded. -/

section

variable {ι : Type}

namespace Timer

/-- What task `t` knows when it stands at `pc`. -/
def KnowsAt (s : Timer ι) (t : ι) : Pc → Prop
  | .outside => True
  | .save => s.sreg t = (s.begun t).2
  | .cli oldSREG => oldSREG = (s.begun t).2
  | .load oldSREG bytes => oldSREG = (s.begun t).2 ∧ t = s.current ∧
      interruptsEnabled (s.sreg t) = false ∧ bytes.length ≤ 4 ∧ bytes = lowBytes s.milliseconds bytes.length

/-- What a task knows where it stands. -/
def Knows (s : Timer ι) (t : ι) : Prop := s.KnowsAt t (s.pc t)

/-- The invariant: the counter counts, and what has been read was right at some moment of each call. -/
structure Sound (s : Timer ι) : Prop where
  count : s.milliseconds = BitVec.ofNat 32 s.compares
  begun : ∀ t, s.pc t ≠ .outside → (s.begun t).1 ≤ s.compares
  knows : ∀ t, s.Knows t
  recorded : ∀ r ∈ s.readings, r.called ≤ r.returned ∧ r.returned ≤ s.compares ∧
    r.value = BitVec.ofNat 32 r.returned ∧ r.sregAfter = r.sreg
  sorted : s.readings.Pairwise fun r r' => r.returned ≤ r'.returned

variable {s s' : Timer ι} {t : ι}

theorem knows_iff {p : Pc} (hat : s.pc t = p) : s.Knows t ↔ s.KnowsAt t p := by
  rw [Knows, hat]

/-- Nobody has read anything yet. -/
theorem Initial.sound (h : s.Initial) : s.Sound where
  count := by rw [h.milliseconds, h.compares]; rfl
  begun t ht := absurd (h.pc t) ht
  knows t := (knows_iff (h.pc t)).mpr trivial
  recorded := by rw [h.readings]; nofun
  sorted := by rw [h.readings]; exact .nil

/-- Only the task that loads bytes depends on the others, and on the handler. -/
theorem Knows.congr (h : s.Knows t) (hpc : s'.pc t = s.pc t) (hsreg : s'.sreg t = s.sreg t)
    (hbegun : s'.begun t = s.begun t)
    (hload : ∀ oldSREG bytes, s.pc t = .load oldSREG bytes →
      s'.current = s.current ∧ s'.milliseconds = s.milliseconds) : s'.Knows t := by
  unfold Knows at h ⊢
  rw [hpc]
  cases hat : s.pc t with
  | outside => trivial
  | save =>
      rw [hat] at h
      exact hsreg.trans (h.trans (congrArg Prod.snd hbegun.symm))
  | cli oldSREG =>
      rw [hat] at h
      exact h.trans (congrArg Prod.snd hbegun.symm)
  | load oldSREG bytes =>
      obtain ⟨hcurrent, hcount⟩ := hload oldSREG bytes hat
      rw [hat] at h
      unfold KnowsAt at h ⊢
      rwa [hsreg, hbegun, hcurrent, hcount]

/-- Where interrupts are enabled no task is loading bytes. -/
theorem Sound.not_loading (hs : s.Sound) (henabled : interruptsEnabled (s.sreg s.current) = true)
    (oldSREG : Byte) (bytes : List Byte) : s.pc t ≠ .load oldSREG bytes := by
  intro hat
  obtain ⟨-, rfl, hdisabled, -⟩ := (knows_iff hat).mp (hs.knows t)
  exact absurd (henabled.symm.trans hdisabled) (by simp)

theorem Sound.current_of_loading (hs : s.Sound) {oldSREG : Byte} {bytes : List Byte}
    (hat : s.pc t = .load oldSREG bytes) : t = s.current :=
  ((knows_iff hat).mp (hs.knows t)).2.1

/-- The handler counts. It runs only where no reading has disabled it. -/
theorem Sound.compare (hs : s.Sound) (henabled : interruptsEnabled (s.sreg s.current) = true) :
    Sound { s with milliseconds := s.milliseconds + 1, compares := s.compares + 1 } where
  count := by
    show s.milliseconds + 1 = BitVec.ofNat 32 (s.compares + 1)
    rw [hs.count, BitVec.ofNat_add]
    rfl
  begun t ht := Nat.le_succ_of_le (hs.begun t ht)
  knows t := (hs.knows t).congr rfl rfl rfl fun _ _ hat => absurd hat (hs.not_loading henabled _ _)
  recorded r hr := by
    obtain ⟨hcalled, hreturned, hvalue⟩ := hs.recorded r hr
    exact ⟨hcalled, Nat.le_succ_of_le hreturned, hvalue⟩
  sorted := hs.sorted

theorem Sound.switch (hs : s.Sound) (hnone : ∀ oldSREG bytes, s.pc s.current ≠ .load oldSREG bytes)
    (t : ι) : Sound { s with current := t } where
  count := hs.count
  begun := hs.begun
  knows t' := (hs.knows t').congr rfl rfl rfl fun oldSREG bytes hat => by
    obtain rfl := hs.current_of_loading hat
    exact absurd hat (hnone oldSREG bytes)
  recorded := hs.recorded
  sorted := hs.sorted

/-- The current task is somewhere else, and nothing is changed that the others know of. -/
theorem Sound.move (hs : s.Sound) (hcount : s'.milliseconds = s.milliseconds)
    (hcompares : s'.compares = s.compares) (hcurrent : s'.current = s.current)
    (hother : ∀ t, t ≠ s.current → s'.pc t = s.pc t ∧ s'.sreg t = s.sreg t ∧ s'.begun t = s.begun t)
    (hbegun : s'.pc s.current ≠ .outside → (s'.begun s.current).1 ≤ s.compares)
    (hknows : s'.Knows s.current)
    (hreadings : s'.readings = s.readings) : s'.Sound where
  count := by rw [hcount, hcompares]; exact hs.count
  begun t ht := by
    rw [hcompares]
    by_cases hne : t = s.current
    · subst hne
      exact hbegun ht
    · obtain ⟨hpc, -, hsame⟩ := hother t hne
      rw [hsame]
      exact hs.begun t (hpc ▸ ht)
  knows t := by
    by_cases hne : t = s.current
    · subst hne
      exact hknows
    · obtain ⟨hpc, hsreg, hsame⟩ := hother t hne
      exact (hs.knows t).congr hpc hsreg hsame fun _ _ _ => ⟨hcurrent, hcount⟩
  recorded := by rw [hreadings, hcompares]; exact hs.recorded
  sorted := by rw [hreadings]; exact hs.sorted

theorem Sound.read (hs : s.Sound) {r : Reading} (hcalled : r.called ≤ s.compares)
    (hreturned : r.returned = s.compares) (hvalue : r.value = s.milliseconds)
    (hsreg : r.sregAfter = r.sreg) : Sound { s with readings := s.readings ++ [r] } where
  count := hs.count
  begun := hs.begun
  knows t := (hs.knows t).congr rfl rfl rfl fun _ _ _ => ⟨rfl, rfl⟩
  recorded r' hr' := by
    rcases List.mem_append.mp hr' with hr' | hr'
    · exact hs.recorded r' hr'
    · obtain rfl := List.mem_singleton.mp hr'
      exact ⟨hreturned ▸ hcalled, hreturned.le, by rw [hvalue, hreturned]; exact hs.count, hsreg⟩
  sorted := by
    refine List.pairwise_append.mpr ⟨hs.sorted, List.pairwise_singleton _ _, fun r' hr' r'' hr'' => ?_⟩
    obtain rfl := List.mem_singleton.mp hr''
    rw [hreturned]
    exact (hs.recorded r' hr').2.1

variable [DecidableEq ι]

/-- The steps of a reading. The bytes are read with interrupts disabled, so they are bytes of one count. -/
theorem Sound.advance (hs : s.Sound) (hst : s.advance = some s') : s'.Sound := by
  unfold Timer.advance at hst
  split at hst
  · exact absurd hst (by simp)
  -- the status register has been read
  · rename_i hat
    obtain rfl := Option.some.inj hst
    refine hs.move rfl rfl rfl (fun t ht => ⟨Function.update_of_ne ht _ _, rfl, rfl⟩)
      (fun _ => hs.begun _ (by simp [hat])) ((knows_iff (Function.update_self ..)).mpr ?_) rfl
    exact (knows_iff hat).mp (hs.knows s.current)
  -- interrupts are off from here on, so that the bytes belong to one value
  · rename_i oldSREG hat
    obtain rfl := Option.some.inj hst
    refine hs.move rfl rfl rfl
      (fun t ht => ⟨Function.update_of_ne ht _ _, Function.update_of_ne ht _ _, rfl⟩)
      (fun _ => hs.begun _ (by simp [hat])) ((knows_iff (Function.update_self ..)).mpr ?_) rfl
    refine ⟨(knows_iff hat).mp (hs.knows s.current), rfl, ?_, Nat.zero_le 4, rfl⟩
    show interruptsEnabled (Function.update s.sreg s.current _ s.current) = false
    rw [Function.update_self]
    simp [interruptsEnabled]
  · rename_i oldSREG bytes hat
    obtain ⟨hsreg, -, hdisabled, hlength, hbytes⟩ := (knows_iff hat).mp (hs.knows s.current)
    have hbegun : (s.begun s.current).1 ≤ s.compares := hs.begun _ (by simp [hat])
    split at hst
    · rename_i hlt
      obtain rfl := Option.some.inj hst
      refine hs.move rfl rfl rfl (fun t ht => ⟨Function.update_of_ne ht _ _, rfl, rfl⟩)
        (fun _ => hbegun) ((knows_iff (Function.update_self ..)).mpr ?_) rfl
      refine ⟨hsreg, rfl, hdisabled, by simpa [Nat.lt_succ_iff] using hlt, ?_⟩
      show bytes ++ [byteAt s.milliseconds bytes.length] = lowBytes s.milliseconds _
      rw [List.length_append, List.length_singleton, lowBytes_succ, ← hbytes]
    -- all four have been read: the value is that of one moment, which lies within the call
    · rename_i hge
      obtain rfl := Option.some.inj hst
      have hwhole : bytes.length = 4 := by omega
      have hback : ((s.setSREG oldSREG).goto .outside).Sound :=
        hs.move rfl rfl rfl
          (fun t ht => ⟨Function.update_of_ne ht _ _, Function.update_of_ne ht _ _, rfl⟩)
          (fun hne => absurd (Function.update_self ..) hne)
          ((knows_iff (p := .outside) (Function.update_self ..)).mpr trivial) rfl
      refine hback.read hbegun rfl ?_ ?_
      · show word bytes = s.milliseconds
        rw [hbytes, hwhole, word_lowBytes]
      · show Function.update s.sreg s.current oldSREG s.current = (s.begun s.current).2
        rw [Function.update_self, hsreg]

theorem Sound.step {e : Event ι} (hs : s.Sound) (hst : s.step e = some s') : s'.Sound := by
  unfold Timer.step at hst
  cases e with
  | compare =>
      obtain ⟨henabled, hst⟩ := Option.ite_none_right_eq_some.mp hst
      obtain rfl := Option.some.inj hst
      exact hs.compare henabled
  | tick t =>
      obtain ⟨henabled, hst⟩ := Option.ite_none_right_eq_some.mp hst
      obtain rfl := Option.some.inj hst
      -- a tick comes only while interrupts are on
      exact hs.switch (fun _ _ => hs.not_loading henabled _ _) t
  | yield t =>
      obtain ⟨hat, hst⟩ := Option.ite_none_right_eq_some.mp hst
      obtain rfl := Option.some.inj hst
      exact hs.switch (fun _ _ => by rw [hat]; exact Pc.noConfusion) t
  | setSREG v =>
      obtain ⟨hat, hst⟩ := Option.ite_none_right_eq_some.mp hst
      obtain rfl := Option.some.inj hst
      refine hs.move rfl rfl rfl (fun t ht => ⟨rfl, Function.update_of_ne ht _ _, rfl⟩)
        (fun hne => absurd hat hne) ((knows_iff (s := s.setSREG v) hat).mpr trivial) rfl
  | call =>
      obtain ⟨hat, hst⟩ := Option.ite_none_right_eq_some.mp hst
      obtain rfl := Option.some.inj hst
      refine hs.move rfl rfl rfl
        (fun t ht => ⟨Function.update_of_ne ht _ _, rfl, Function.update_of_ne ht _ _⟩) (fun _ => ?_)
        ((knows_iff (Function.update_self ..)).mpr ?_) rfl
      · show (Function.update s.begun s.current _ s.current).1 ≤ s.compares
        rw [Function.update_self]
      · show s.sreg s.current = (Function.update s.begun s.current _ s.current).2
        rw [Function.update_self]
  | advance => exact hs.advance hst

end Timer

/-- **`GetMilliseconds`.** Whatever the tasks do and whenever the handler runs, a call returns the count
as it is when the call writes `SREG` back, counted modulo `2 ^ 32`, and leaves `SREG` as it was; so what
the tasks read, one after the other, never runs backwards. -/
theorem getMilliseconds_exact {s : Timer ι} [DecidableEq ι] (h : Reachable Timer.Initial Timer.step s) :
    (∀ r ∈ s.readings, r.called ≤ r.returned ∧ r.returned ≤ s.compares ∧
      r.value = BitVec.ofNat 32 r.returned ∧ r.sregAfter = r.sreg) ∧
    s.readings.Pairwise fun r r' => r.returned ≤ r'.returned := by
  have hs : s.Sound := h.invariant (fun _ => Timer.Initial.sound) fun _ _ _ hs => hs.step
  exact ⟨hs.recorded, hs.sorted⟩

/-- Two tasks at a board that has just been turned on. -/
def turnedOn : Timer Bool := ⟨0, 0, false, fun _ => 0x80, fun _ => .outside, fun _ => (0, 0), []⟩

/-- A task is preempted in its call, before it has disabled interrupts, by one that reads `0xFF`; then all
bytes of the count change, and the first task reads `0x100`. -/
theorem getMilliseconds_exact_preempted :
    ∃ s, run Timer.step turnedOn (List.replicate 255 .compare ++ [.call, .advance, .tick true, .call] ++
        List.replicate 7 .advance ++ [.compare, .tick false] ++ List.replicate 6 .advance) = some s ∧
      s.readings = [⟨0xFF, 255, 255, 0x80, 0x80⟩, ⟨0x100, 255, 256, 0x80, 0x80⟩] ∧
      s.readings.Pairwise fun r r' => r.returned ≤ r'.returned := by
  have hrun : (run Timer.step turnedOn (List.replicate 255 .compare ++
      [.call, .advance, .tick true, .call] ++ List.replicate 7 .advance ++ [.compare, .tick false] ++
      List.replicate 6 .advance)).map (fun s => s.readings) =
        some [⟨0xFF, 255, 255, 0x80, 0x80⟩, ⟨0x100, 255, 256, 0x80, 0x80⟩] := by
    decide +kernel
  obtain ⟨s, hs, hreadings⟩ := Option.map_eq_some_iff.mp hrun
  refine ⟨s, hs, hreadings, ?_⟩
  exact (getMilliseconds_exact ⟨turnedOn, _, ⟨rfl, rfl, fun _ => rfl, rfl⟩, hs⟩).2

end

end CTimer

end SmartblocksOs.System
