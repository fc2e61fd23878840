/-
# SmartblocksOs.Uart.Begin -- the rate that `Begin` sets

`Begin` computes the contents of the rate register in thirty-two bits and stores them in sixteen. It tries
double speed first, and when the result does not fit the twelve bits of the register it tries normal
speed, whatever comes out. It rounds the length of a bit, not the rate: with a clock of 8 MHz a bit is as
long as comes nearest to what was asked for, among all lengths that the chip can be set to, just for the
rates from 123 to 2000000 (`begin_nearestBit_iff`). Another length may still have the nearer rate.
-/
import SmartblocksOs.Uart.Transmit

namespace SmartblocksOs.Uart

open SmartblocksOs.Foundation SmartblocksOs.System

/-! ## `Begin` -/

/-- `F_CPU` of the `Makefile`, an `unsigned long`. -/
def fCpu : BitVec 32 := 8000000

/-- `U2X0`, in `UCSR0A`. -/
def u2x0 : Nat := 1

/-- `TXEN0`, in `UCSR0B`, as the next two. -/
def txen0 : Nat := 3

/-- `RXEN0`. -/
def rxen0 : Nat := 4

/-- `RXCIE0`. -/
def rxcie0 : Nat := 7

/-- The registers of the UART that `Begin` stores to, and `transmitting`. -/
structure Settings where
  ucsra : Byte
  ucsrb : Byte
  ubrrh : Byte
  ubrrl : Byte
  transmitting : Bool

/-- `baud_setting = (F_CPU / divider / baud - 1) / 2`, a `uint16_t`. -/
def baudSetting (divider baud : BitVec 32) : Word := ((fCpu / divider / baud - 1) / 2).setWidth 16

/-- What is stored to `UCSR0A` at `try_again`, and the `baud_setting` that goes with it. -/
def tryAgain (useU2x : Bool) (baud : BitVec 32) : Byte × Word :=
  if useU2x then (bv u2x0, baudSetting 4 baud) else (0, baudSetting 8 baud)

/-- `CHUARTController::Begin`. A division by zero is undefined. -/
def begin (s : Settings) (baud : BitVec 32) : Option Settings :=
  if baud = 0 then none
  else
    let first := tryAgain true baud
    let (ucsra, setting) := if 4095 < first.2 then tryAgain false baud else first
    some
      { ucsra := writeUcsra s.ucsra ucsra
        ubrrh := highByte setting
        ubrrl := lowByte setting
        transmitting := false
        ucsrb := (s.ucsrb ||| (bv rxen0 ||| bv txen0 ||| bv rxcie0)) &&& ~~~bv udrie0 }

/-! ## The rate -/

namespace Settings

/-- The length of a step of the rate register, in cycles: eight at double speed, and sixteen otherwise. -/
def stepLength (s : Settings) : Nat := if isSet s.ucsra u2x0 then 8 else 16

/-- What is in the rate register. -/
def rate (s : Settings) : Nat := (s.ubrrh ++ s.ubrrl).toNat

/-- The length of a bit, in cycles. -/
def bitLength (s : Settings) : Nat := s.stepLength * (s.rate + 1)

/-- How far a bit of `cycles` is from one at the rate `baud`: both lengths are multiplied by the rate. -/
def offBy (cycles baud : Nat) : Nat := ((cycles * baud : Int) - fCpu.toNat).natAbs

/-- The rate register holds twelve bits, and no setting of the chip, at double or at normal speed, has
a bit that is nearer in length to one at the rate `baud`. -/
def NearestBit (s : Settings) (baud : Nat) : Prop :=
  s.rate ≤ 4095 ∧ ∀ step ∈ [8, 16], ∀ v ≤ 4095, offBy s.bitLength baud ≤ offBy (step * (v + 1)) baud

/-- The bit is wrong by half a step at most. -/
def HalfStep (s : Settings) (baud : Nat) : Prop :=
  2 * (s.bitLength * baud) ≤ 2 * fCpu.toNat + s.stepLength * baud ∧
    2 * fCpu.toNat ≤ 2 * (s.bitLength * baud) + s.stepLength * baud

/-- The two speed modes. -/
theorem stepLength_eq (s : Settings) : s.stepLength = 8 ∨ s.stepLength = 16 := by
  unfold stepLength
  split
  · exact Or.inl rfl
  · exact Or.inr rfl

/-- Then no other number of steps comes nearer. -/
theorem HalfStep.le_offBy {s : Settings} {b : Nat} (h : s.HalfStep b) (n : Nat) :
    offBy s.bitLength b ≤ offBy (s.stepLength * n) b := by
  obtain ⟨hle, hge⟩ := h
  have hmul : ∀ k, s.stepLength * k * b = s.stepLength * b * k := fun k => by ring
  unfold bitLength offBy at *
  rw [hmul] at hle hge
  rw [← Nat.cast_mul, ← Nat.cast_mul, hmul, hmul]
  rcases Nat.lt_trichotomy n (s.rate + 1) with hlt | rfl | hlt
  · have hstep := Nat.mul_le_mul_left (s.stepLength * b) (Nat.succ_le_of_lt hlt)
    rw [Nat.mul_succ] at hstep
    omega
  · exact le_rfl
  · have hstep := Nat.mul_le_mul_left (s.stepLength * b) (Nat.succ_le_of_lt hlt)
    rw [Nat.mul_succ] at hstep
    omega

/-- At double speed a bit may be as long as at normal speed, and longer by half a step of that. -/
theorem HalfStep.nearest_double {s : Settings} {b : Nat} (h : s.HalfStep b) (hstep : s.stepLength = 8)
    (hrate : s.rate ≤ 4095) : s.NearestBit b := by
  refine ⟨hrate, fun step hmem v _ => ?_⟩
  have heq : ∃ n, step * (v + 1) = s.stepLength * n := by
    rw [hstep]
    rcases List.mem_pair.mp hmem with rfl | rfl
    · exact ⟨v + 1, rfl⟩
    · exact ⟨2 * (v + 1), by ring⟩
  obtain ⟨n, hn⟩ := heq
  rw [hn]
  exact h.le_offBy n

/-- At normal speed it may be longer than any at double speed. -/
theorem HalfStep.nearest_normal {s : Settings} {b : Nat} (h : s.HalfStep b) (hstep : s.stepLength = 16)
    (hrate : s.rate ≤ 4095) (hb : b ≤ 244) : s.NearestBit b := by
  refine ⟨hrate, fun step hmem v hv => ?_⟩
  rcases List.mem_pair.mp hmem with rfl | rfl
  · have hshort : 8 * (v + 1) * b ≤ 32768 * b := Nat.mul_le_mul_right b (by omega)
    have hcpu : fCpu.toNat = 8000000 := rfl
    obtain ⟨hle, hge⟩ := h
    rw [hstep] at hle hge
    unfold offBy
    rw [← Nat.cast_mul, ← Nat.cast_mul]
    omega
  · rw [← hstep]
    exact h.le_offBy (v + 1)

/-- At slow rates a bit should be longer than any can be, and the longest is not set. -/
theorem not_nearestBit {s : Settings} {b : Nat} (hpos : 0 < b) (hb : b < 123) (hne : s.rate ≠ 4095) :
    ¬ s.NearestBit b := by
  rintro ⟨hrate, hnearest⟩
  have hlongest := hnearest 16 (by decide) 4095 le_rfl
  have hshort : s.bitLength ≤ 16 * 4095 := by
    unfold bitLength
    rcases s.stepLength_eq with h | h
    · rw [h]
      omega
    · rw [h]
      omega
  have hmul : s.bitLength * b ≤ 16 * 4095 * b := Nat.mul_le_mul_right b hshort
  have hcpu : fCpu.toNat = 8000000 := rfl
  unfold offBy at hlongest
  rw [← Nat.cast_mul] at hlongest
  omega

end Settings

/-- To halve the quotient, rounded up, is to take the nearest even multiple of the divisor. -/
theorem nearest_even_multiple (x : Nat) {b : Nat} (hb : 0 < b) :
    2 * ((x / b + 1) / 2) * b ≤ x + b ∧ x ≤ 2 * ((x / b + 1) / 2) * b + b := by
  have hle : x / b * b ≤ x := Nat.div_mul_le_self x b
  have hlt : x < (x / b + 1) * b := by
    rw [Nat.mul_comm]
    exact Nat.lt_mul_div_succ x hb
  have hsucc : (x / b + 1) * b = x / b * b + b := Nat.succ_mul (x / b) b
  rcases Nat.mod_two_eq_zero_or_one (x / b) with heven | hodd
  · have hhalf : 2 * ((x / b + 1) / 2) = x / b := by omega
    rw [hhalf]
    omega
  · have hhalf : 2 * ((x / b + 1) / 2) = x / b + 1 := by omega
    rw [hhalf]
    omega

/-- The divisor, in terms of the quotient that it is rounded from. It is computed with 32 bits and kept in
16. -/
theorem baudSetting_toNat {divider baud : BitVec 32} {q : Nat} (hq : q ≠ 0)
    (hquotient : fCpu.toNat / divider.toNat / baud.toNat = q) :
    (baudSetting divider baud).toNat = (q - 1) / 2 % 65536 := by
  have hlt : q < 2 ^ 32 := by
    rw [← hquotient]
    exact lt_of_le_of_lt ((Nat.div_le_self _ _).trans (Nat.div_le_self _ _)) (BitVec.isLt fCpu)
  unfold baudSetting
  rw [BitVec.toNat_setWidth, BitVec.toNat_udiv, BitVec.toNat_sub, BitVec.toNat_udiv, BitVec.toNat_udiv,
    hquotient]
  show (2 ^ 32 - 1 + q) % 2 ^ 32 / 2 % 2 ^ 16 = (q - 1) / 2 % 65536
  rw [show 2 ^ 32 - 1 + q = q - 1 + 2 ^ 32 by omega, Nat.add_mod_right,
    Nat.mod_eq_of_lt (show q - 1 < 2 ^ 32 by omega)]

/-- The rate is so high that the quotient is zero, and one less is all ones. -/
theorem baudSetting_zero {divider baud : BitVec 32}
    (hquotient : fCpu.toNat / divider.toNat / baud.toNat = 0) :
    (baudSetting divider baud).toNat = 65535 := by
  unfold baudSetting
  rw [BitVec.toNat_setWidth, BitVec.toNat_udiv, BitVec.toNat_sub, BitVec.toNat_udiv, BitVec.toNat_udiv,
    hquotient]
  rfl

theorem bytes_append (w : Word) : highByte w ++ lowByte w = w := by
  unfold highByte lowByte
  ext i hi
  simp only [BitVec.getElem_append, BitVec.getElem_setWidth, BitVec.getLsbD_ushiftRight]
  grind

section

variable (s : Settings) {baud : BitVec 32}

theorem begin_double (hne : baud ≠ 0) (hfits : (baudSetting 4 baud).toNat ≤ 4095) :
    ∃ s', begin s baud = some s' ∧ s'.stepLength = 8 ∧ s'.rate = (baudSetting 4 baud).toNat := by
  have hle : ¬ 4095 < baudSetting 4 baud := by
    rw [BitVec.lt_def]
    exact Nat.not_lt.mpr hfits
  unfold begin
  rw [if_neg hne]
  simp only [tryAgain, if_pos, if_neg hle]
  refine ⟨_, rfl, ?_, congrArg BitVec.toNat (bytes_append _)⟩
  simp [Settings.stepLength, isSet, writeUcsra, bv, u2x0, txc0]

theorem begin_normal (hne : baud ≠ 0) (hfits : 4095 < (baudSetting 4 baud).toNat) :
    ∃ s', begin s baud = some s' ∧ s'.stepLength = 16 ∧ s'.rate = (baudSetting 8 baud).toNat := by
  have hlt : 4095 < baudSetting 4 baud := by
    rw [BitVec.lt_def]
    exact hfits
  unfold begin
  rw [if_neg hne]
  simp only [tryAgain, if_pos, if_pos hlt]
  refine ⟨_, rfl, ?_, congrArg BitVec.toNat (bytes_append _)⟩
  simp [Settings.stepLength, isSet, writeUcsra, bv, u2x0, txc0]

end

/-- Half of the quotient of the clock by a rate that is slow enough, in whole steps of the register. -/
theorem halfStep_of_quotient {s : Settings} {b q : Nat} {x : Nat} (hb : 0 < b) (hq : x / b = q)
    (hpos : q ≠ 0) (hcpu : 2 * fCpu.toNat = s.stepLength * x) (hrate : s.rate = (q - 1) / 2) :
    s.HalfStep b := by
  obtain ⟨hle, hge⟩ := nearest_even_multiple x hb
  have hhalf : s.rate + 1 = (x / b + 1) / 2 := by
    rw [hrate, hq]
    omega
  have hbit : 2 * (s.bitLength * b) = s.stepLength * (2 * ((x / b + 1) / 2) * b) := by
    rw [Settings.bitLength, ← hhalf]
    ring
  constructor
  · rw [hbit, hcpu, ← Nat.mul_add]
    exact Nat.mul_le_mul_left _ hle
  · rw [hbit, hcpu, ← Nat.mul_add]
    exact Nat.mul_le_mul_left _ hge

/-- Sixteen bits do not come to the largest contents of the register by chance. -/
theorem setting_ne_largest : ∀ b < 123, 0 < b →
    (2000000 / b - 1) / 2 % 65536 ≠ 4095 ∧ (1000000 / b - 1) / 2 % 65536 ≠ 4095 := by
  decide +kernel

/-- **`Begin`.** Whatever the registers hold, a bit is as long as comes nearest to one at the rate asked
for just for the rates from 123 to 2000000; below, the register is too small, and above, the subtraction
of one wraps around. -/
theorem begin_nearestBit_iff (s : Settings) {baud : BitVec 32} (hne : baud ≠ 0) :
    ∃ s', begin s baud = some s' ∧
      (s'.NearestBit baud.toNat ↔ 123 ≤ baud.toNat ∧ baud.toNat ≤ 2000000) := by
  have hpos : 0 < baud.toNat := by
    rw [Nat.pos_iff_ne_zero]
    exact fun hzero => hne (BitVec.eq_of_toNat_eq hzero)
  by_cases hhigh : 2000000 < baud.toNat
  · have hquotient : fCpu.toNat / (4 : BitVec 32).toNat / baud.toNat = 0 :=
      Nat.div_eq_of_lt (by show 8000000 / 4 < _; omega)
    have hquotient' : fCpu.toNat / (8 : BitVec 32).toNat / baud.toNat = 0 :=
      Nat.div_eq_of_lt (by show 8000000 / 8 < _; omega)
    obtain ⟨s', hs', -, hrate⟩ := begin_normal s hne (by rw [baudSetting_zero hquotient]; decide)
    rw [baudSetting_zero hquotient'] at hrate
    refine ⟨s', hs', iff_of_false (fun h => ?_) (by omega)⟩
    have hfits := h.1
    omega
  · have hquotient : fCpu.toNat / (4 : BitVec 32).toNat / baud.toNat = 2000000 / baud.toNat := rfl
    have hquotient' : fCpu.toNat / (8 : BitVec 32).toNat / baud.toNat = 1000000 / baud.toNat := rfl
    have hone : 2000000 / baud.toNat ≠ 0 := (Nat.div_pos (Nat.not_lt.mp hhigh) hpos).ne'
    have hsetting := baudSetting_toNat hone hquotient
    by_cases hlow : baud.toNat < 123
    · have hone' : 1000000 / baud.toNat ≠ 0 := (Nat.div_pos (by omega) hpos).ne'
      have hsetting' := baudSetting_toNat hone' hquotient'
      obtain ⟨hne₄, hne₈⟩ := setting_ne_largest baud.toNat hlow hpos
      by_cases hfits : (baudSetting 4 baud).toNat ≤ 4095
      · obtain ⟨s', hs', -, hrate⟩ := begin_double s hne hfits
        refine ⟨s', hs', iff_of_false (Settings.not_nearestBit hpos hlow ?_) (by omega)⟩
        rwa [hrate, hsetting]
      · obtain ⟨s', hs', -, hrate⟩ := begin_normal s hne (Nat.not_le.mp hfits)
        refine ⟨s', hs', iff_of_false (Settings.not_nearestBit hpos hlow ?_) (by omega)⟩
        rwa [hrate, hsetting']
    · have hbound : 2000000 / baud.toNat ≤ 2000000 / 123 :=
        Nat.div_le_div_left (by omega) (by decide)
      rw [Nat.mod_eq_of_lt (by omega)] at hsetting
      by_cases hfits : (baudSetting 4 baud).toNat ≤ 4095
      · obtain ⟨s', hs', hstep, hrate⟩ := begin_double s hne hfits
        refine ⟨s', hs', iff_of_true ?_ (by omega)⟩
        have hhalf : s'.HalfStep baud.toNat :=
          halfStep_of_quotient hpos rfl hone (by rw [hstep]; rfl) (hrate.trans hsetting)
        exact hhalf.nearest_double hstep (hrate ▸ hfits)
      · obtain ⟨s', hs', hstep, hrate⟩ := begin_normal s hne (Nat.not_le.mp hfits)
        have hbound' : 1000000 / baud.toNat ≤ 1000000 / 123 :=
          Nat.div_le_div_left (by omega) (by decide)
        -- what double speed has no room for is slow
        have hslow : baud.toNat ≤ 244 := by
          have hquot : 8193 ≤ 2000000 / baud.toNat := by omega
          have hmul := (Nat.le_div_iff_mul_le hpos).mp hquot
          omega
        have hone' : 1000000 / baud.toNat ≠ 0 := (Nat.div_pos (by omega) hpos).ne'
        have hsetting' := baudSetting_toNat hone' hquotient'
        rw [Nat.mod_eq_of_lt (by omega)] at hsetting'
        refine ⟨s', hs', iff_of_true ?_ (by omega)⟩
        have hhalf : s'.HalfStep baud.toNat :=
          halfStep_of_quotient hpos rfl hone' (by rw [hstep]; rfl) (hrate.trans hsetting')
        exact hhalf.nearest_normal hstep (by omega) hslow

/-- The rate that the constructor asks for. -/
theorem begin_nearestBit_iff_57600 :
    ∃ s', begin ⟨0, 0, 0, 0, false⟩ 57600 = some s' ∧ s'.NearestBit 57600 := by
  obtain ⟨s', hs', hnearest⟩ :=
    begin_nearestBit_iff ⟨0, 0, 0, 0, false⟩ (show (57600 : BitVec 32) ≠ 0 by decide)
  exact ⟨s', hs', hnearest.mpr (by decide)⟩

end SmartblocksOs.Uart
