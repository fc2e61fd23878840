/-
# SmartblocksOs.Board.State -- what the tasks of the board share

The variables of the controllers and of `main.cpp`, the registers they use, and the three
`Resource`s. Which variable belongs to which `Resource` is nowhere written down in the source; it is
the discipline below. Each task notes what it does on the bus and what it sees there, and `allow` says
what it ought to see: the multiplexer at the face it was called for, its own bytes in the transmit
buffer, and in the receive buffer the bytes its own request brought.

The state of the board is a `Store`: a value for each variable of the program, of the type that the source
gives it. The registers of the AVR that the tasks read or write are variables too, some of which change by
themselves (`volatile`). The texts, the registers of the slaves and the bytes on the bus are no variables;
they are met in what the tasks note and in the bus hardware.
-/
import SmartblocksOs.Foundation.Program
import SmartblocksOs.System.Globals

namespace SmartblocksOs.Board

open SmartblocksOs.Foundation SmartblocksOs.System

/-! ## Ports, resources and variables

One constructor for each global or static variable of the source that a modelled function uses. Buffers
have an index, so that a store touches one byte. -/

/-- `CPortController::EPort`. -/
inductive EPort where
  | north | east | south | west | top | bottom | nullport
  deriving DecidableEq, Repr

/-- `static_cast<uint8_t>(e_port)`. -/
def EPort.code : EPort → Byte
  | .north => 0
  | .east => 1
  | .south => 2
  | .west => 3
  | .top => 4
  | .bottom => 5
  | .nullport => 8

/-- `PORT_CTRL_MASK`, the lines of the multiplexer in `PORTC`. -/
def portCtrlMask : Byte := 0x0F

/-- The code of a port fits into the bits of the multiplexer. -/
theorem EPort.code_and_mask (p : EPort) : p.code &&& portCtrlMask = p.code := by
  cases p <;> decide

/-- A port of a block. -/
abbrev Port := {p : EPort // p ≠ .nullport}

/-- The three controllers that are `Resource`s. -/
inductive Lock where
  | uart | port | tw
  deriving DecidableEq, Repr

/-- The registers and the variables of the program. -/
inductive Var where
  -- registers
  | portc | ddrc | pinc | eicra | eimsk | twsr | twdr | twcr
  -- members of `CTWController`
  | rxBuffer (i : Nat) | rxBufferIndex | rxBufferLength
  | txAddress | txBuffer (i : Nat) | txBufferIndex | txBufferLength | transmitting
  -- what `CTWController` shares with the TWI handler
  | state | slarw | sendStop | inRepStart | error
  | masterBuffer (i : Nat) | masterBufferIndex | masterBufferLength
  -- members of `CPortController`
  | interrupts | lastRegisterState | synchronizeRequired | initRequired
  -- `main.cpp`, the timer, the UART, and what has been printed
  | connectedPorts (i : Nat) | milliseconds | uartFull | uartBusy | printed
  deriving DecidableEq

/-- Their types. -/
@[reducible]
def Val : Var → Type
  | .transmitting | .sendStop | .inRepStart | .synchronizeRequired | .initRequired | .uartFull
  | .uartBusy => Bool
  | .connectedPorts _ => EPort
  | .milliseconds => BitVec 32
  | .printed => List String
  | _ => Byte

/-! ## What a task notes

The notes are not in the source. They are what an observer at the bus and at the entry of each function
would write down. -/

/-- A controller function that a task is in. -/
inductive Callee where
  /-- A function of `CLEDController`, called for the face `p`. -/
  | led (p : EPort)
  /-- A function of `CNFCController`, called for the face `p`. -/
  | nfc (p : EPort)
  /-- A function of `CPortController`, whose own transactions go to no face. -/
  | port
  deriving DecidableEq, Repr

/-- The face a function was called for. -/
def Callee.face? : Callee → Option EPort
  | .led p | .nfc p => some p
  | .port => none

/-- What a task notes, beside what it does. -/
inductive Event where
  /-- A controller function is entered. -/
  | called (f : Callee)
  | returned
  | beginTransmission
  /-- `Write` has put `b` in the transmit buffer. -/
  | accepted (b : Byte)
  /-- `Write` has refused a byte of a command, as the buffer is full. -/
  | refused
  /-- `EndTransmission` has taken `bytes` from the transmit buffer, with the multiplexer at `select`. -/
  | endTransmission (select : Byte) (bytes : List Byte)
  /-- `Read(address, n)` is about to start a transaction. -/
  | request (select : Byte)
  /-- The TWI handler is about to run for a transaction of the task. -/
  | handler (select : Byte)
  /-- `Read(address, n)` has put `bytes` in the receive buffer. -/
  | received (bytes : List Byte)
  /-- `Read()` returns `b`. -/
  | taken (b : Byte)
  deriving DecidableEq, Repr

/-- What the notes of a task say of its transactions. -/
structure Transaction where
  /-- The functions the task is in, the innermost first. -/
  callers : List Callee
  /-- The bytes accepted since `BeginTransmission`. -/
  queued : List Byte
  /-- The bytes received and not yet taken. -/
  pending : List Byte
  deriving DecidableEq, Repr

namespace Transaction

/-- What a note makes of it. -/
def next (x : Transaction) : Event → Transaction
  | .called f => { x with callers := f :: x.callers }
  | .returned => { x with callers := x.callers.tail }
  | .beginTransmission => { x with queued := [] }
  | .accepted b => { x with queued := x.queued ++ [b] }
  | .endTransmission _ _ => { x with queued := [] }
  | .received bytes => { x with pending := bytes }
  | .taken _ => { x with pending := x.pending.tail }
  | .refused | .request _ | .handler _ => x

/-- The faces that the functions the task is in were called for. -/
def faces : List Callee → List EPort
  | .led p :: callers | .nfc p :: callers => p :: faces callers
  | _ => []

end Transaction

/-- What the notes `g` come to. -/
def transaction (g : List Event) : Transaction :=
  g.foldl Transaction.next ⟨[], [], []⟩

/-- One note more. -/
@[simp]
theorem transaction_concat (g : List Event) (e : Event) :
    transaction (g ++ [e]) = (transaction g).next e := by
  simp [transaction]

/-- The multiplexer is at the face of every function the task is in. -/
def AtFaces (callers : List Callee) (select : Byte) : Prop :=
  ∀ p ∈ Transaction.faces callers, select = p.code

/-- What the task ought to see after the notes `g`. A command is refused a byte only when commands
may be `long`. -/
def allow (long : Prop) (g : List Event) : Event → Prop
  | .endTransmission select bytes =>
      AtFaces (transaction g).callers select ∧ bytes = (transaction g).queued
  | .request select | .handler select => AtFaces (transaction g).callers select
  | .taken b => b = (transaction g).pending.headD 0xFF
  | .refused => long
  | _ => True

/-! ## The discipline

`guard` says whose lock a variable needs, `rank` in which order the locks are taken: the UART before the
port controller before the TW controller. -/

/-- The order in which the resources are taken. -/
def Lock.rank : Lock → Nat
  | .uart => 0
  | .port => 1
  | .tw => 2

/-- The resource a task holds when it stores the variable. -/
def guard : Var → Option Lock
  | .pinc | .twsr | .twdr | .twcr | .milliseconds | .uartFull | .uartBusy | .synchronizeRequired =>
      none
  | .printed => some .uart
  | .portc | .ddrc | .eicra | .eimsk | .interrupts | .lastRegisterState | .initRequired
  | .connectedPorts _ => some .port
  | .rxBuffer _ | .rxBufferIndex | .rxBufferLength | .txAddress | .txBuffer _ | .txBufferIndex
  | .txBufferLength | .transmitting | .state | .slarw | .sendStop | .inRepStart | .error
  | .masterBuffer _ | .masterBufferIndex | .masterBufferLength => some .tw

/-- The registers that change by themselves. -/
def volatile : Var → Bool
  | .pinc | .twsr | .twdr | .twcr | .milliseconds | .uartFull | .uartBusy => true
  | _ => false

/-- `bInitRequired` is never set again once it is cleared. -/
def may : ∀ x : Var, Val x → Val x → Prop
  | .initRequired, v, w => v = false → w = false
  | _, _, _ => True

/-- Only `bInitRequired` is restricted in its values. -/
theorem may_of_ne {x : Var} (hx : x ≠ .initRequired) (v w : Val x) : may x v w := by
  unfold may
  split
  · exact absurd rfl hx
  · trivial

/-- The rules that the tasks of the board agree on. What they promise each other of the order of locks, of
guarded variables and of `bInitRequired`, and what each note requires of those before it. -/
def discipline (long : Prop) : Discipline Var Val Lock Event where
  rank := Lock.rank
  guard := guard
  may := may
  may_refl := by
    intro x v
    by_cases hx : x = .initRequired
    · subst hx
      exact id
    · exact may_of_ne hx v v
  may_trans := by
    intro x u v w huv hvw
    by_cases hx : x = .initRequired
    · subst hx
      exact fun hu => hvw (huv hu)
    · exact may_of_ne hx u w
  allow := allow long

/-- The registers that change by themselves are protected by no lock. -/
theorem volatile_shared (long : Prop) {x : Var} (hx : volatile x = true) :
    (discipline long).guard x = none ∧ ∀ v w, (discipline long).may x v w := by
  cases x with
  | pinc | twsr | twdr | twcr | milliseconds | uartFull | uartBusy => exact ⟨rfl, may_of_ne (by simp)⟩
  | _ => exact absurd hx (by simp [volatile])

/-- The programs of the board. -/
abbrev Code := Prog Var Val Lock Event

/-- The value of `x`. -/
abbrev load (x : Var) : Code (Val x) := Prog.read x

/-- `v` is stored in `x`. -/
abbrev store (x : Var) (v : Val x) : Code Unit := Prog.write x v

/-- `l.lock()`. -/
abbrev acquire (l : Lock) : Code Unit := Prog.acquire l

/-- `l.unlock()`. -/
abbrev release (l : Lock) : Code Unit := Prog.release l

/-- A note of what the variables are like. -/
abbrev note (f : Store Val → Event) : Code Unit := Prog.note f

/-! ## What a task knows

The discipline speaks of one step; this is what a task can carry from one step to the next. `Know` lists
the parts of it, and a part is kept as long as the lock is held that protects it. -/

/-- The array `f` starts with `bytes`. -/
def Spells (f : Nat → Byte) (bytes : List Byte) : Prop :=
  ∀ i b, bytes[i]? = some b → f i = b

/-- No bytes are spelled anywhere. -/
theorem Spells.nil (f : Nat → Byte) : Spells f [] := by
  intro i b hb
  exact absurd hb (by simp)

/-- One byte more, behind the others. -/
theorem Spells.concat {f : Nat → Byte} {bytes : List Byte} {b : Byte} (h : Spells f bytes)
    (hb : f bytes.length = b) : Spells f (bytes ++ [b]) := by
  intro i d hd
  rw [List.getElem?_append] at hd
  split at hd
  · exact h i d hd
  · obtain rfl : i = bytes.length := by
      have := (List.getElem?_eq_some_iff.mp hd).1
      simp only [List.length_singleton] at this
      omega
    rw [Nat.sub_self, List.getElem?_cons_zero, Option.some.injEq] at hd
    exact hb.trans hd

/-- A store behind `bytes` leaves them as they are. -/
theorem Spells.congr {f f' : Nat → Byte} {bytes : List Byte} (h : Spells f bytes)
    (hf : ∀ i < bytes.length, f' i = f i) : Spells f' bytes :=
  fun i b hb => (hf i (List.getElem?_eq_some_iff.mp hb).1).trans (h i b hb)

/-- One more byte of a copy. -/
theorem Spells.take_succ {f f' : Nat → Byte} {bytes : List Byte} {i : Nat} (hlt : i < bytes.length)
    (h : Spells f (bytes.take i)) (hf : ∀ j < i, f' j = f j) (hb : f' i = bytes[i]) :
    Spells f' (bytes.take (i + 1)) := by
  have hlen : (bytes.take i).length = i := by
    rw [List.length_take]
    omega
  rw [List.take_add_one, List.getElem?_eq_getElem hlt]
  apply Spells.concat
  · apply h.congr
    rwa [hlen]
  · rwa [hlen]

/-- What is in the transmit buffer. -/
def TxBytes (s : Store Val) (bytes : List Byte) : Prop :=
  Spells (fun i => s (.txBuffer i)) bytes

/-- The receive buffer has `bytes` from index `start` on. -/
def RxBytes (s : Store Val) (start : Nat) (bytes : List Byte) : Prop :=
  Spells (fun i => s (.rxBuffer (start + i))) bytes

/-- The transmit buffer holds `bytes`. -/
structure Queue (s : Store Val) (bytes : List Byte) : Prop where
  length_le : bytes.length ≤ 64
  length : s .txBufferLength = BitVec.ofNat 8 bytes.length
  index : s .txBufferIndex = s .txBufferLength
  bytes : TxBytes s bytes

/-- The receive buffer still holds `bytes`. -/
structure Unread (s : Store Val) (bytes : List Byte) : Prop where
  length_le : bytes.length ≤ 64
  length : (s .rxBufferLength).toNat = (s .rxBufferIndex).toNat + bytes.length
  bytes : RxBytes s (s .rxBufferIndex).toNat bytes

/-- Which of the things worth knowing are known. -/
structure Know where
  /-- The multiplexer is at the faces of the callers. -/
  face : Bool
  /-- The transmit buffer holds what was queued. -/
  tx : Bool
  /-- The receive buffer holds what is pending. -/
  rx : Bool
  /-- `bInitRequired` is cleared. -/
  ready : Bool

/-- Nothing is known but perhaps that the port controller is initialised: what a task knows while it
holds no resource. -/
def Know.idle (ready : Bool) : Know := ⟨false, false, false, ready⟩

/-- What a task knows that is in the functions `c`: as much of it as `k` says. -/
structure Knows (c : List Callee) (k : Know) (g : List Event) (s : Store Val) : Prop where
  callers : (transaction g).callers = c
  face : k.face = true → AtFaces c (s .portc &&& portCtrlMask)
  tx : k.tx = true → Queue s (transaction g).queued
  rx : k.rx = true → Unread s (transaction g).pending
  ready : k.ready = true → s .initRequired = false

/-- What is known is guarded by the resources the task holds. -/
structure Guarded (c : List Callee) (held : List Lock) (k : Know) : Prop where
  face : k.face = true → Transaction.faces c = [] ∨ .port ∈ held
  tx : k.tx = true → .tw ∈ held
  rx : k.rx = true → .tw ∈ held

/-- Nothing has to be protected of a task that is idle. -/
theorem Guarded.idle (c : List Callee) (held : List Lock) (r : Bool) :
    Guarded c held (.idle r) :=
  ⟨nofun, nofun, nofun⟩

/-- With both resources anything may be known. -/
theorem Guarded.both (c : List Callee) (held : List Lock) (k : Know) :
    Guarded c (.tw :: .port :: held) k :=
  ⟨fun _ => Or.inr (by simp), fun _ => by simp, fun _ => by simp⟩

/-- To know less. -/
def Know.Le (k k' : Know) : Prop :=
  (k.face = true → k'.face = true) ∧ (k.tx = true → k'.tx = true) ∧
    (k.rx = true → k'.rx = true) ∧ (k.ready = true → k'.ready = true)

section

variable {c : List Callee} {k k' : Know} {g : List Event} {s s' : Store Val}
  {long : Prop} {held : List Lock}

/-- Less is known. -/
theorem Knows.forget (h : Knows c k' g s) (hle : k.Le k') : Knows c k g s :=
  ⟨h.callers, fun hk => h.face (hle.1 hk), fun hk => h.tx (hle.2.1 hk),
    fun hk => h.rx (hle.2.2.1 hk), fun hk => h.ready (hle.2.2.2 hk)⟩

theorem Knows.noted {e : Event} (hcallers : ((transaction g).next e).callers = c)
    (hface : k.face = true → AtFaces c (s .portc &&& portCtrlMask))
    (htx : k.tx = true → Queue s ((transaction g).next e).queued)
    (hrx : k.rx = true → Unread s ((transaction g).next e).pending)
    (hready : k.ready = true → s .initRequired = false) : Knows c k (g ++ [e]) s := by
  rw [← transaction_concat] at hcallers htx hrx
  exact ⟨hcallers, hface, htx, hrx, hready⟩

/-- The number of bytes queued does not wrap, as they fit into the buffer. -/
theorem Queue.toNat_length {q : List Byte} (h : Queue s q) : (s .txBufferLength).toNat = q.length := by
  rw [h.length, BitVec.toNat_ofNat]
  have := h.length_le
  omega

/-- The queue is about the transmit buffer. -/
theorem Queue.congr {bytes : List Byte} (h : Queue s bytes)
    (hlength : s' .txBufferLength = s .txBufferLength)
    (hindex : s' .txBufferIndex = s .txBufferIndex)
    (hbyte : ∀ i, s' (.txBuffer i) = s (.txBuffer i)) : Queue s' bytes := by
  refine ⟨h.length_le, ?_, ?_, h.bytes.congr fun i _ => hbyte i⟩
  · rw [hlength, h.length]
  · rw [hindex, hlength, h.index]

/-- The unread bytes are about the receive buffer. -/
theorem Unread.congr {bytes : List Byte} (h : Unread s bytes)
    (hlength : s' .rxBufferLength = s .rxBufferLength)
    (hindex : s' .rxBufferIndex = s .rxBufferIndex)
    (hbyte : ∀ i, s' (.rxBuffer i) = s (.rxBuffer i)) : Unread s' bytes := by
  refine ⟨h.length_le, ?_, ?_⟩
  · rw [hlength, hindex, h.length]
  · rw [hindex]
    exact h.bytes.congr fun i _ => hbyte _

/-- A byte is stored behind those queued. -/
theorem Queue.storeBehind {q : List Byte} (h : Queue s q) (data : Byte) :
    Queue (Function.update s (.txBuffer q.length) data) q := by
  refine ⟨h.length_le, ?_, ?_, ?_⟩
  · exact (Function.update_of_ne (by simp) _ _).trans h.length
  · rw [Function.update_of_ne (by simp), Function.update_of_ne (by simp)]
    exact h.index
  · refine h.bytes.congr fun i hlt => Function.update_of_ne ?_ _ _
    simp only [ne_eq, Var.txBuffer.injEq]
    omega

/-- With the length stored it is queued. -/
theorem Queue.storeLength {q : List Byte} {data : Byte} (hlt : q.length < 64)
    (hbytes : TxBytes s (q ++ [data]))
    (hindex : s .txBufferIndex = BitVec.ofNat 8 (q.length + 1)) :
    Queue (Function.update s .txBufferLength (BitVec.ofNat 8 (q.length + 1))) (q ++ [data]) := by
  refine ⟨?_, ?_, ?_, hbytes.congr fun i _ => Function.update_of_ne (by simp) _ _⟩
  · rw [List.length_append]
    exact hlt
  · rw [Function.update_self, List.length_append]
    rfl
  · rw [Function.update_self, Function.update_of_ne (by simp)]
    exact hindex

/-- The index steps past the first of the bytes received. -/
theorem Unread.storeIndex {b : Byte} {bytes : List Byte} (h : Unread s (b :: bytes)) :
    Unread (Function.update s .rxBufferIndex (s .rxBufferIndex + 1)) bytes := by
  have hlen := h.length
  have hle := h.length_le
  simp only [List.length_cons] at hlen hle
  have hsucc : (s .rxBufferIndex + 1 : Byte).toNat = (s .rxBufferIndex).toNat + 1 := by
    have := (s .rxBufferLength).isLt
    rw [BitVec.toNat_add]
    show ((s .rxBufferIndex).toNat + 1) % 256 = _
    omega
  refine ⟨by omega, ?_, ?_⟩
  · rw [Function.update_of_ne (by simp), Function.update_self, hsucc, hlen]
    omega
  · rw [Function.update_self, hsucc]
    intro j d hd
    have hbyte := h.bytes (j + 1) d hd
    rw [← hbyte]
    show Function.update s _ _ _ = _
    rw [Function.update_of_ne (by simp)]
    congr 2
    omega

/-- What the others do leaves what is known and guarded as it is. -/
theorem Guarded.stable (h : Guarded c held k) : (discipline long).Stable held (Knows c k) := by
  intro g s s' hrely hs
  have hport : Lock.port ∈ held → ∀ x, guard x = some .port → s' x = s x :=
    fun hl x hx => hrely.eq hx hl
  have htw : Lock.tw ∈ held → ∀ x, guard x = some .tw → s' x = s x :=
    fun hl x hx => hrely.eq hx hl
  refine ⟨hs.callers, fun hk => ?_, fun hk => ?_, fun hk => ?_, fun hk => ?_⟩
  · rcases h.face hk with hnone | hmem
    · intro p hp
      rw [hnone] at hp
      exact absurd hp List.not_mem_nil
    · rw [hport hmem .portc rfl]
      exact hs.face hk
  · have hx := htw (h.tx hk)
    exact (hs.tx hk).congr (hx _ rfl) (hx _ rfl) fun i => hx _ rfl
  · have hx := htw (h.rx hk)
    exact (hs.rx hk).congr (hx _ rfl) (hx _ rfl) fun i => hx _ rfl
  · exact (hrely .initRequired).1 (hs.ready hk)

/-- The variables that what is known is about. -/
def Know.about (k : Know) : Var → Bool
  | .portc => k.face
  | .txBuffer _ | .txBufferIndex | .txBufferLength => k.tx
  | .rxBuffer _ | .rxBufferIndex | .rxBufferLength => k.rx
  | .initRequired => true
  | _ => false

/-- A variable that nothing is known of may be stored to. -/
theorem Knows.update (h : Knows c k g s) {x : Var} (hx : k.about x = false) (v : Val x) :
    Knows c k g (Function.update s x v) := by
  have hne : ∀ y, k.about y = true → Function.update s x v y = s y := by
    intro y hy
    refine Function.update_of_ne ?_ v s
    rintro rfl
    rw [hx] at hy
    exact Bool.false_ne_true hy
  refine ⟨h.callers, fun hk => ?_, fun hk => ?_, fun hk => ?_, fun hk => ?_⟩
  · rw [hne .portc hk]
    exact h.face hk
  · exact (h.tx hk).congr (hne _ hk) (hne _ hk) fun i => hne _ hk
  · exact (h.rx hk).congr (hne _ hk) (hne _ hk) fun i => hne _ hk
  · rw [hne .initRequired rfl]
    exact h.ready hk

/-- And it may be given any value, if it is not `bInitRequired`. -/
theorem Know.may_of_about {x : Var} (hx : k.about x = false) (v w : Val x) : may x v w := by
  apply may_of_ne
  rintro rfl
  exact Bool.noConfusion hx

/-- A fact about the variables of the TW controller. -/
def OfTw (F : Store Val → Prop) : Prop :=
  ∀ s s', (∀ x, guard x = some .tw → s' x = s x) → F s → F s'

/-- What is said of the variables of the TW controller stays as long as its lock is held. -/
theorem OfTw.stable {F : Store Val → Prop} (hF : OfTw F) (htw : .tw ∈ held) :
    (discipline long).Stable held fun _ s => F s :=
  fun _ s s' hrely hs => hF s s' (fun _ hx => hrely.eq hx htw) hs

/-- What is said of the value of one of its variables is of this kind. -/
theorem OfTw.eq {x : Var} (hx : guard x = some .tw) (v : Val x) : OfTw fun s => s x = v :=
  fun _ _ h hs => (h x hx).trans hs

theorem OfTw.and {F F' : Store Val → Prop} (hF : OfTw F) (hF' : OfTw F') :
    OfTw fun s => F s ∧ F' s :=
  fun s s' h hs => ⟨hF s s' h hs.1, hF' s s' h hs.2⟩

theorem OfTw.txBytes (bytes : List Byte) : OfTw fun s => TxBytes s bytes :=
  fun _ _ h hs => hs.congr fun _ _ => h _ rfl

theorem OfTw.rxBytes (start : Nat) (bytes : List Byte) : OfTw fun s => RxBytes s start bytes :=
  fun _ _ h hs => hs.congr fun _ _ => h _ rfl

theorem OfTw.queue (bytes : List Byte) : OfTw fun s => Queue s bytes :=
  fun _ _ h hs => hs.congr (h _ rfl) (h _ rfl) fun _ => h _ rfl

theorem OfTw.unread (bytes : List Byte) : OfTw fun s => Unread s bytes :=
  fun _ _ h hs => hs.congr (h _ rfl) (h _ rfl) fun _ => h _ rfl

/-! ## Rules for the actions that leave what is known alone

Most lines of the source are of this kind. The rules are applied in the order of the lines. -/

theorem load_spec (hg : Guarded c held k) (x : Var) :
    (discipline long).Triple held (Knows c k) (load x) held fun _ => Knows c k :=
  Discipline.Triple.read hg.stable fun _ _ => id

/-- A store, with a fact `F` that it turns into `G`. -/
theorem storeWith_spec (hg : Guarded c held k) {F G : Assn Val Event}
    (hF : (discipline long).Stable held F) {x : Var} (v : Val x) {l : Lock}
    (hx : k.about x = false) (hl : guard x = some l) (hmem : l ∈ held)
    (h : ∀ g s, F g s → G g (Function.update s x v)) :
    (discipline long).Triple held (fun g s => Knows c k g s ∧ F g s) (store x v) held
      fun _ g s => Knows c k g s ∧ G g s := by
  refine Discipline.Triple.write (hg.stable.and hF) ?_ fun g s hs => ⟨?_, hs.1.update hx v, ?_⟩
  · intro r hr
    obtain rfl : l = r := Option.some.inj (hl.symm.trans hr)
    exact hmem
  · exact Know.may_of_about hx _ _
  · exact h g s hs.2

/-- A store, with a fact that is about the log. -/
theorem storeLog_spec (hg : Guarded c held k) (F : List Event → Prop) {x : Var} (v : Val x) {l : Lock}
    (hx : k.about x = false) (hl : guard x = some l) (hmem : l ∈ held) :
    (discipline long).Triple held (fun g s => Knows c k g s ∧ F g) (store x v) held
      fun _ g s => Knows c k g s ∧ F g :=
  storeWith_spec (G := fun g _ => F g) hg (Discipline.Stable.log _ held F) v hx hl hmem
    fun _ _ => id

/-- A store under the lock of the variable. -/
theorem store_spec (hg : Guarded c held k) {x : Var} (v : Val x) {l : Lock}
    (hx : k.about x = false) (hl : guard x = some l) (hmem : l ∈ held) :
    (discipline long).Triple held (Knows c k) (store x v) held fun _ => Knows c k :=
  (storeLog_spec hg (fun _ => True) v hx hl hmem).mono (fun _ _ hs => ⟨hs, trivial⟩) fun _ _ _ hs => hs.1

/-- A store to a variable without a resource. -/
theorem storeShared_spec (hg : Guarded c held k) {x : Var} (v : Val x)
    (hx : k.about x = false) (hl : guard x = none) :
    (discipline long).Triple held (Knows c k) (store x v) held fun _ => Knows c k := by
  refine Discipline.Triple.write hg.stable ?_ fun g s hs => ⟨?_, hs.update hx v⟩
  · intro r hr
    rw [show (discipline long).guard x = none from hl] at hr
    exact absurd hr.symm (Option.some_ne_none r)
  · exact Know.may_of_about hx _ _

/-- A lock above all that are held. -/
theorem acquire_spec (hg : Guarded c held k) {l : Lock} (hl : ∀ r ∈ held, r.rank < l.rank) :
    (discipline long).Triple held (Knows c k) (acquire l) (l :: held) fun _ => Knows c k :=
  Discipline.Triple.acquire hg.stable hl

/-- The lock is released, with nothing known that it protects. -/
theorem release_spec {l : Lock} (hg : Guarded c (l :: held) k) :
    (discipline long).Triple (l :: held) (Knows c k) (release l) held fun _ => Knows c k :=
  Discipline.Triple.release hg.stable

theorem switch_spec (hg : Guarded c held k) :
    (discipline long).Triple held (Knows c k) Prog.switch held fun _ => Knows c k :=
  Discipline.Triple.switch hg.stable

/-- A wait for the bus, or another loop that leaves what is known alone. -/
theorem repeatWhile_spec (hg : Guarded c held k) {body : Code Bool}
    (h : (discipline long).Triple held (Knows c k) body held fun _ => Knows c k) :
    (discipline long).Triple held (Knows c k) (Prog.repeatWhile body) held fun _ => Knows c k := by
  refine Discipline.Triple.repeatWhile hg.stable (h.post fun b g s hs => ?_)
  cases b with
  | true => exact hs
  | false => exact hs

/-- What is not needed any more is forgotten. -/
theorem forget_spec {α : Type} {held' : List Lock} {P : Assn Val Event} {p : Code α}
    (h : (discipline long).Triple held P p held' fun _ => Knows c k')
    (hle : k.Le k') : (discipline long).Triple held P p held' fun _ => Knows c k :=
  h.post fun _ _ _ hs => hs.forget hle

end

end SmartblocksOs.Board
