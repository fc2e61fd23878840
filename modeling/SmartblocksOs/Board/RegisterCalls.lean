/-
# SmartblocksOs.Board.RegisterCalls -- registers of a slave, for those who have it to themselves

`RegisterReadByte` and `RegisterWriteByte` make the transactions that the controllers spell out, and
`InitMPU6050` spells them out before the tasks run. To their caller the slave is a state of registers, and
they are computations on it: on a slave that answers for its registers each call returns what its
computation does, and leaves the registers as that leaves them (`registerCalls_refine`,
`initMPU6050_refines`).
-/
import SmartblocksOs.Foundation.RegisterFile
import SmartblocksOs.Board.Main
import SmartblocksOs.Board.LedCalls

namespace SmartblocksOs.Board

open SmartblocksOs.Foundation SmartblocksOs.System SmartblocksOs.Foundation.TwoWire

open CTWController RegisterFile

/-! ## The functions

As in the source, which leaves the lock to the callers. -/

namespace CTWController

/-- `RegisterReadByte`. The bus is kept from the register number to the read. -/
def registerReadByte (address registerName : Byte) : Code Byte := do
  beginTransmission address
  let _ ← writeByte registerName
  let _ ← endTransmission false
  let _ ← readFrom address 1 true
  readByte

/-- What `EndTransmission` reports is dropped. -/
def registerWriteByte (address registerName data : Byte) : Code Byte := do
  beginTransmission address
  if (← writeByte registerName) = 0 then pure 0
  else if (← writeByte data) = 0 then pure 0
  else do
    let _ ← endTransmission true
    pure 1

end CTWController

namespace Main

/-- `EMPU6050Register`. -/
def pwrMgmt1 : Byte := 0x6B

/-- `WHO_AM_I`, a register that holds the address of the device. -/
def whoami : Byte := 0x75

/-- `InitMPU6050`: wakes the device up, if it is there. -/
def initMPU6050 : Code Bool := do
  beginTransmission mpu6050Addr
  let _ ← writeByte whoami
  let _ ← endTransmission false
  let _ ← readFrom mpu6050Addr 1 true
  if (← readByte) ≠ mpu6050Addr then pure false
  else do
    beginTransmission mpu6050Addr
    let _ ← writeByte pwrMgmt1
    let _ ← writeByte 0x00
    let _ ← endTransmission true
    pure true

end Main

/-! ## Computations on the registers

`Performs` relates a program to a computation in the state monad of the registers, and is closed under
composition as both are. -/

/-- What reads and writes come to on an array of registers. -/
abbrev RegisterM := StateM (Byte → Byte)

/-- From rest to rest, the code does to the slave at `address` what `spec` does to its registers, and
returns what `spec` returns. -/
def Performs {α : Type} (address : Byte) (code : Code α) (spec : RegisterM α) : Prop :=
  ∀ held m, Ready held m → Returns code m fun a m' =>
    (∃ held', Ready held' m') ∧ Answers (slaw address) (slar address) spec a m.device m'.device

namespace Performs

variable {α β : Type} {address : Byte} {code : Code α} {spec : RegisterM α}

/-- What does nothing on the bus computes nothing on the registers. -/
theorem pure (a : α) : Performs address (Pure.pure a) (Pure.pure a) :=
  fun held m hready => Total.pure_iff.mpr ⟨⟨held, hready⟩, Answers.pure a m.device⟩

theorem bind {next : α → Code β} {spec' : α → RegisterM β} (h : Performs address code spec)
    (hnext : ∀ a, Performs address (next a) (spec' a)) :
    Performs address (code >>= next) (spec >>= spec') := by
  intro held m hready
  apply Total.seq (h held m hready)
  rintro a m' ⟨⟨held', hready'⟩, ha⟩
  apply (hnext a held' m' hready').mono
  rintro b m'' ⟨hready'', hb⟩
  exact ⟨hready'', ha.bind hb⟩

theorem mapM {body : β → Code α} {parts : β → RegisterM α}
    (h : ∀ b, Performs address (body b) (parts b)) (bs : List β) :
    Performs address (bs.mapM body) (bs.mapM parts) := by
  induction bs with
  | nil => exact .pure []
  | cons b bs ih =>
      rw [List.mapM_cons, List.mapM_cons]
      exact (h b).bind fun a => ih.bind fun as => .pure (a :: as)

end Performs

/-- A register is read. -/
def readRegisterM (registerName : Byte) : RegisterM Byte := do
  let registers ← get
  pure (registers registerName)

/-- A register is written. -/
def writeRegisterM (registerName data : Byte) : RegisterM Unit :=
  modify fun registers => Function.update registers registerName data

/-! ## The functions perform them

Each by the transactions it makes. -/

/-- The register is named in one transmission and asked for in one reception. -/
theorem registerReadByte_performs (address registerName : Byte) :
    Performs address (registerReadByte address registerName) (readRegisterM registerName) := by
  intro held m hready
  apply request_worked address registerName (Worked.refl hready)
  intro _ m₁ h₁ hu
  apply (take_worked h₁ hu).mono
  rintro b m₂ ⟨rfl, h₂, -⟩
  refine ⟨⟨false, h₂.ready⟩, ?_⟩
  rw [h₂.device]
  exact answers_read hready.bus registerName 0xFF

/-- A register is written, and it does not matter what `Write` returns. -/
theorem update_performs {α : Type} (address registerName data : Byte) (a : α) :
    Performs address (do
      beginTransmission address
      let _ ← writeByte registerName
      let _ ← writeByte data
      let _ ← endTransmission true
      pure a) (writeRegisterM registerName data >>= fun _ => pure a) := by
  intro held m hready
  apply Total.seq (begin_worked address (Worked.refl hready))
  intro _ m₁ h₁
  apply Total.seq (write_worked registerName (by decide) h₁)
  rintro _ m₂ ⟨-, h₂⟩
  apply Total.seq (write_worked data (by simp) h₂)
  rintro _ m₃ ⟨-, h₃⟩
  apply Total.seq (end_worked true h₃)
  rintro _ m₄ ⟨h₄, -⟩
  rw [keeps_stop] at h₄
  refine Total.pure_iff.mpr ⟨⟨false, h₄.ready⟩, ?_⟩
  rw [h₄.device]
  exact (answers_write hready.bus registerName data).bind (Answers.pure a _)

/-- There is room for both bytes. -/
theorem registerWriteByte_performs (address registerName data : Byte) :
    Performs address (registerWriteByte address registerName data)
      (writeRegisterM registerName data >>= fun _ => pure 1) := by
  intro held m hready
  apply Total.seq (begin_worked address (Worked.refl hready))
  intro _ m₁ h₁
  apply Total.seq (write_worked registerName (by decide) h₁)
  rintro _ m₂ ⟨rfl, h₂⟩
  rw [if_neg (by decide)]
  apply Total.seq (write_worked data (by simp) h₂)
  rintro _ m₃ ⟨rfl, h₃⟩
  rw [if_neg (by decide)]
  apply Total.seq (end_worked true h₃)
  rintro _ m₄ ⟨h₄, -⟩
  rw [keeps_stop] at h₄
  refine Total.pure_iff.mpr ⟨⟨false, h₄.ready⟩, ?_⟩
  rw [h₄.device]
  exact (answers_write hready.bus registerName data).bind (Answers.pure 1 _)

/-! ## Any number of calls

The calls may be for any registers and in any order. -/

/-- A call of `RegisterReadByte` or of `RegisterWriteByte`. -/
inductive RegisterCall where
  | read (registerName : Byte)
  | write (registerName data : Byte)
  deriving DecidableEq, Repr

namespace RegisterCall

/-- The function that the call is a call of. -/
def code (address : Byte) : RegisterCall → Code Byte
  | read registerName => registerReadByte address registerName
  | write registerName data => registerWriteByte address registerName data

/-- What the call is to return, and to do to the registers. -/
def spec : RegisterCall → RegisterM Byte
  | read registerName => readRegisterM registerName
  | write registerName data => writeRegisterM registerName data >>= fun _ => pure 1

end RegisterCall

/-- **Registers.** Any calls of `RegisterReadByte` and `RegisterWriteByte` return, and do to the registers
of the slave, what a computation on a state of registers returns and does: a read returns what was written
last. -/
theorem registerCalls_refine (address : Byte) (calls : List RegisterCall) :
    Performs address (calls.mapM fun c => c.code address) (calls.mapM RegisterCall.spec) := by
  apply Performs.mapM
  intro c
  cases c with
  | read registerName => exact registerReadByte_performs address registerName
  | write registerName data => exact registerWriteByte_performs address registerName data

/-- The accelerometer is turned on if it is there, and nothing is written otherwise. -/
theorem initMPU6050_refines :
    Performs Main.mpu6050Addr Main.initMPU6050 (do
      let who ← readRegisterM Main.whoami
      if who ≠ Main.mpu6050Addr then pure false
      else writeRegisterM Main.pwrMgmt1 0x00 >>= fun _ => pure true) := by
  have hcode : Main.initMPU6050 = (do
      let who ← registerReadByte Main.mpu6050Addr Main.whoami
      if who ≠ Main.mpu6050Addr then pure false
      else do
        beginTransmission Main.mpu6050Addr
        let _ ← writeByte Main.pwrMgmt1
        let _ ← writeByte 0x00
        let _ ← endTransmission true
        pure true) := by
    simp only [registerReadByte, bind_assoc]
    rfl
  rw [hcode]
  apply (registerReadByte_performs Main.mpu6050Addr Main.whoami).bind
  intro who
  split
  · exact .pure false
  · exact update_performs Main.mpu6050Addr Main.pwrMgmt1 0x00 true

/-- The board at rest, with a bus on which everything is acknowledged and every byte read is one. -/
def answeringOne : TwMachine := ⟨atRest, ⟨.idle, fun _ => ⟨none, true, 1⟩, []⟩, []⟩

/-- What is written is read again. -/
theorem registerCalls_refine_answering :
    Returns ([RegisterCall.write Main.pwrMgmt1 1, .read Main.pwrMgmt1].mapM
        fun c => c.code Main.mpu6050Addr) answeringOne fun results m' =>
      Served (slaw Main.mpu6050Addr) (slar Main.mpu6050Addr) CLEDController.blank m'.device.trace ∧
        ([RegisterCall.write Main.pwrMgmt1 1, .read Main.pwrMgmt1].mapM RegisterCall.spec).run
            CLEDController.blank.registers = (results, (after (slaw Main.mpu6050Addr)
          (slar Main.mpu6050Addr) CLEDController.blank m'.device.trace).registers) := by
  obtain ⟨fuel, results, m', hexec, -, events, htrace, hspec⟩ := registerCalls_refine Main.mpu6050Addr
    [.write Main.pwrMgmt1 1, .read Main.pwrMgmt1] false answeringOne ⟨rfl, rfl, rfl⟩
  have hserved : ((Prog.exec twiReact 20 ([RegisterCall.write Main.pwrMgmt1 1, .read Main.pwrMgmt1].mapM
      fun c => c.code Main.mpu6050Addr) answeringOne).map fun r => decide (Served (slaw Main.mpu6050Addr)
        (slar Main.mpu6050Addr) CLEDController.blank r.2.device.trace)) = some true := by
    decide +kernel
  obtain ⟨r, hr, hr'⟩ := Option.map_eq_some_iff.mp hserved
  obtain rfl : r = (results, m') := Prog.exec_unique hr hexec
  have hserved' := of_decide_eq_true hr'
  have htrace' : m'.device.trace = events := htrace
  refine ⟨fuel, results, m', hexec, hserved', ?_⟩
  rw [hspec _ (htrace' ▸ hserved'), htrace']

end SmartblocksOs.Board
