/-
# SmartblocksOs.Board.MainState -- what `main.cpp` prints, and its list of ports

The tasks of `main.cpp` print under the lock of the UART, and `InitPortController` fills the list
`m_peConnectedPorts` under the lock of the port controller, while the other tasks read the list under
no lock at all, and anew at each use. What is printed while the lock is free is made up of whole
messages; the list has no gaps, and an entry that names a port is never changed again. Hence an entry
that was found to name a port names that port at each use, and no function of the LED or the NFC
controller is called for `NULLPORT`.

The discipline of `SmartblocksOs.Board.State` says who may touch what; here the invariants say what is
there. `Printed part` belongs to the task that prints, `Lists` to the one that has locked the port
controller. What a reader without the lock may rely on is neither of them, but a fact that no step of
anybody can end: that an entry names a port. Such a fact `Frames` every program, with whatever locks.

Three results come out of this. `output_whole_messages` is about the terminal: the lock of the UART is
released only behind a whole message, so what stands there while it is free is whole messages.
`connectedPorts_grow` compares two states of one run: the earlier list is a prefix of the later one.
`called_for_ports` is about the notes of the calls: no function of the LED or the NFC controller is
entered for `NULLPORT`, as long as no task is started for it. The three share one set of invariants, and
are proved of each operation once.

The weak spot of `main.cpp` is that a list entry is tested and then loaded again for every use.
`reloadEntry_keeps` is the rule for that: what an entry names is `Stable` even without a lock, because the
only store to a list entry replaces `NULLPORT`. `NFCReact` is the exception, since it takes the entry by
value once per round.
-/
import SmartblocksOs.Board.Frames
import SmartblocksOs.Resource.Invariants

namespace SmartblocksOs.Board

open SmartblocksOs.Foundation SmartblocksOs.System SmartblocksOs.Resource

/-! ## Messages

The UART takes characters one at a time, so a line of the terminal is the work of several calls of
`fprintf`, each of which may be interrupted by a tick. A `Message` is what a task prints from taking the
lock of the UART to releasing it, as the list of the texts of these calls: a prefix of that list is what
can be on the terminal while the lock is held. Numbers are printed as the format strings do it, modulo
2^16 for `%u` and as a signed 16-bit value for `%i`. -/

/-- What is printed under one lock of the UART. -/
inductive Message where
  | log (milliseconds : BitVec 32) (msg1 msg2 : String)
  | connectedPorts (ports : List Port)
  | measurement (res : List Byte) (milliseconds : BitVec 32)
  | uptime (milliseconds : BitVec 32)
  | interrupts (irqs : Byte)
  | received (message : Buffer)

/-- The texts of a message, one for each call of `fprintf`. -/
def Message.texts : Message → List String
  | .log milliseconds msg1 msg2 => ["[" ++ Main.percentU milliseconds ++ "]\t", msg1, msg2 ++ "\r\n"]
  | .connectedPorts ports =>
      "Connected Ports: " :: ports.map (fun port => CPortController.getPortString port.1 ++ " ") ++ ["\r\n"]
  | .measurement res milliseconds =>
      ["Acc[x] = " ++ Main.percentI (Main.reading res 0) ++ "\tAcc[y] = " ++ Main.percentI (Main.reading res 2)
        ++ "\tAcc[z] = " ++ Main.percentI (Main.reading res 4)
        ++ "\tTemp = " ++ Main.percentI (Main.temperature res)
        ++ "\tTime = " ++ Main.percentU milliseconds ++ "\r\n"]
  | .uptime milliseconds => ["Uptime = " ++ Main.percentU milliseconds ++ "\r\n"]
  | .interrupts irqs => ["irq " ++ toString irqs.toNat ++ "\r\n"]
  | .received message =>
      ["(msg is " ++ String.ofList [Char.ofNat (message 0).toNat, Char.ofNat (message 1).toNat] ++ ")\r\n"]

/-- What `main` prints before the tasks run. -/
def starting : List String := ["\r\nStarting...\r\n"]

/-- Then messages have been printed, and `part` of another one. -/
def Printed (part : List String) (s : Store Val) : Prop :=
  ∃ messages : List Message, s .printed = starting ++ messages.flatMap Message.texts ++ part

/-- The text has been printed, and was part of a message. -/
def Printing (s : Store Val) : Prop :=
  ∃ (part : List String) (m : Message), part <+: m.texts ∧ Printed part s

/-! ## The list of ports

`m_peConnectedPorts` is an array of six entries without a length of its own; its end is the first
`NULLPORT`. `Lists` reads it as a list of ports proper, and the lemmas are the two directions of use: the
writer appends at the first free entry, and a reader that comes later finds everything an earlier one has
found. -/

/-- The list `m_peConnectedPorts` holds `ports`, and `NULLPORT` behind them. -/
structure Lists (s : Store Val) (ports : List Port) : Prop where
  length_le : ports.length ≤ 6
  entry : ∀ i, s (.connectedPorts i) = ports[i]?.elim .nullport Subtype.val

/-- What a store may do to the entry `i` of the list. -/
def MayList (i : Nat) (p q : EPort) : Prop := q = p ∨ p = .nullport ∧ i < 6

namespace Lists

variable {s s' : Store Val} {ports ports' : List Port}

/-- Only the entries matter. -/
theorem congr (h : Lists s ports) (hs : ∀ i, s' (.connectedPorts i) = s (.connectedPorts i)) :
    Lists s' ports :=
  ⟨h.length_le, fun i => (hs i).trans (h.entry i)⟩

/-- The first free entry is behind the last port. -/
theorem eq_nullport_iff (h : Lists s ports) (i : Nat) :
    s (.connectedPorts i) = .nullport ↔ ports.length ≤ i := by
  rw [h.entry i]
  cases hi : ports[i]? with
  | none => exact iff_of_true rfl (List.getElem?_eq_none_iff.mp hi)
  | some port =>
      refine iff_of_false port.2 ?_
      obtain ⟨hlt, -⟩ := List.getElem?_eq_some_iff.mp hi
      exact Nat.not_le.mpr hlt

/-- The port is stored in the first entry that is `NULLPORT`. -/
theorem concat (h : Lists s ports) (port : Port) (hlt : ports.length < 6) :
    Lists (Function.update s (.connectedPorts ports.length) port.1) (ports ++ [port]) := by
  refine ⟨?_, fun i => ?_⟩
  · rw [List.length_append]
    exact hlt
  · rw [List.getElem?_append]
    by_cases hi : i = ports.length
    · subst hi
      rw [Function.update_self, if_neg (Nat.lt_irrefl _), Nat.sub_self]
      rfl
    · rw [Function.update_of_ne (by simpa using hi), h.entry i]
      split
      · rfl
      · rename_i hge
        rw [List.getElem?_eq_none_iff.mpr (Nat.not_lt.mp hge), List.getElem?_eq_none_iff.mpr]
        simp only [List.length_singleton]
        omega

/-- The list only grows, and at its end. -/
theorem isPrefix (h : Lists s ports) (h' : Lists s' ports')
    (hmay : ∀ i, MayList i (s (.connectedPorts i)) (s' (.connectedPorts i))) : ports <+: ports' := by
  rw [List.prefix_iff_getElem?]
  intro i hi
  have hentry := h.entry i
  rw [List.getElem?_eq_getElem hi] at hentry
  rcases hmay i with hsame | ⟨hnull, -⟩
  · rw [hentry, h'.entry i] at hsame
    cases hi' : ports'[i]? with
    | none =>
        rw [hi'] at hsame
        exact absurd hsame.symm ports[i].2
    | some port =>
        rw [hi'] at hsame
        exact congrArg some (Subtype.ext hsame)
  · exact absurd (hentry.symm.trans hnull) ports[i].2

end Lists

/-! ## The invariants

One invariant for each lock, one that holds always, and the bounds on what a step may do to the list. -/

/-- The invariants of `main.cpp`. Functions may be called for `NULLPORT` unless ports are `named`. -/
def mainState (named long : Prop) : Invariants (discipline long) where
  about x := !ofControllers x
  free
    | .uart, s => Printed [] s
    | .port, s => ∃ ports, Lists s ports
    | .tw, _ => True
  always
    | .uart, s => Printing s
    | .port, s => ∃ ports, Lists s ports
    | .tw, _ => True
  may
    | .connectedPorts i, p, q => MayList i p q
    | _, _, _ => True
  allow e := named → e.face? ≠ some .nullport
  free_always := by
    intro l s h
    cases l with
    | uart => exact ⟨[], .uptime 0, List.nil_prefix, h⟩
    | port => exact h
    | tw => trivial
  free_congr := by
    intro l s s' hs h
    cases l with
    | uart =>
        obtain ⟨messages, h⟩ := h
        exact ⟨messages, (hs .printed rfl rfl).trans h⟩
    | port =>
        obtain ⟨ports, h⟩ := h
        exact ⟨ports, h.congr fun i => hs (.connectedPorts i) rfl rfl⟩
    | tw => trivial
  always_congr := by
    intro l s s' hs h
    cases l with
    | uart =>
        obtain ⟨part, m, hpart, messages, h⟩ := h
        exact ⟨part, m, hpart, messages, (hs .printed rfl rfl).trans h⟩
    | port =>
        obtain ⟨ports, h⟩ := h
        exact ⟨ports, h.congr fun i => hs (.connectedPorts i) rfl rfl⟩
    | tw => trivial
  may_refl := by
    intro x v
    cases x with
    | connectedPorts i => exact Or.inl rfl
    | _ => trivial
  may_trans := by
    intro x u v w huv hvw
    cases x with
    | connectedPorts i =>
        rcases huv with rfl | hnull
        · exact hvw
        · exact Or.inr hnull
    | _ => trivial
  may_other := by
    intro x v w hx
    cases x with
    | connectedPorts i => exact absurd hx (by simp [ofControllers])
    | _ => trivial

section

variable {named long : Prop} {held : List Lock} {i : Nat} {port : EPort} {part : List String}

/-- Nobody else prints while the lock of the UART is held. -/
theorem printed_stable (huart : .uart ∈ held) :
    (mainState named long).Stable held fun _ s => Printed part s := by
  rintro g s s' hrely ⟨messages, hs⟩
  exact ⟨messages, (hrely.1.eq (x := .printed) rfl huart).trans hs⟩

/-- Nobody else adds a port while the port controller is locked. -/
theorem lists_stable (hport : .port ∈ held) :
    (mainState named long).Stable held fun _ s => ∃ ports, Lists s ports :=
  fun _ _ _ hrely h => hrely.free (l := .port) hport h

/-- An entry that names a port keeps it, also while no lock is held. -/
theorem entry_stable (hport : port ≠ .nullport) :
    (mainState named long).Stable held fun _ s => s (.connectedPorts i) = port := by
  rintro g s s' hrely rfl
  rcases hrely.2 (.connectedPorts i) with hsame | ⟨hnull, -⟩
  · exact hsame
  · exact absurd hnull hport

/-- An entry that names a port is never changed again. -/
theorem frames_entry (hport : port ≠ .nullport) :
    (mainState named long).Frames [] fun s => s (.connectedPorts i) = port :=
  ⟨fun s s' hrely h => entry_stable hport [] s s' hrely h,
    fun _ _ hs h => (hs (.connectedPorts i) rfl).trans h⟩

/-- What has been printed of a message stays, for every program that does not print. -/
theorem frames_printed : (mainState named long).Frames [.uart] (Printed part) :=
  ⟨fun s s' hrely h => printed_stable (List.mem_singleton_self _) [] s s' hrely h,
    fun _ _ hs ⟨messages, h⟩ => ⟨messages, (hs .printed rfl).trans h⟩⟩

theorem frames_true (K : List Lock) : (mainState named long).Frames K fun _ => True :=
  ⟨fun _ _ _ => id, fun _ _ _ => id⟩

/-! ## What the controllers keep

By their footprints: a controller stores nothing of `main.cpp`, so that its specification carries over to
`mainState` as it is. -/

variable {α : Type} {held' : List Lock} {p : Code α} {P : Assn Val Event} {Q : α → Assn Val Event}
  {F : Store Val → Prop}

/-- A function that takes no port is proved as for one of the six. -/
theorem north_named : named → EPort.north ≠ .nullport :=
  nofun

/-- A function of the controllers, called while `K` and no other lock of the UART is held. -/
theorem framed_keeps (K : List Lock) (hnamed : named → port ≠ .nullport)
    (hp : (discipline long).Triple held P p held' Q) (hc : Framed port p)
    (hF : (mainState named long).Frames K F) (hnodup : held.Nodup) (hK : ∀ l ∈ K, l ∈ held ∧ l = .uart) :
    (mainState named long).Triple held
      (fun g s => (P g s ∧ F s) ∧ ∀ l ∈ held, l ≠ .uart → (mainState named long).free l s) p held'
      fun a g s => (Q a g s ∧ F s) ∧ ∀ l ∈ held', l ≠ .uart → (mainState named long).free l s := by
  have hle : framePrint port ≤ (mainState named long).aside (· ≠ .uart) := by
    refine ⟨subset_rfl, fun x hx => ?_, subset_rfl, fun e he hname hnull => ?_⟩
    · show (!ofControllers x) = false
      rw [hx]
      rfl
    · exact hnamed hname (he .nullport hnull).symm
  exact Invariants.Triple.lift (· ≠ .uart) K hp (hc.mono hle) hF hnodup
    fun l hl => ⟨(hK l hl).1, fun hne => hne (hK l hl).2⟩

/-- A function that is called while no lock is held. -/
theorem call_keeps (hnamed : named → port ≠ .nullport) (hp : (discipline long).Triple [] P p [] Q)
    (hc : Framed port p) (hF : (mainState named long).Frames [] F) :
    (mainState named long).Triple [] (fun g s => P g s ∧ F s) p [] fun a g s => Q a g s ∧ F s :=
  (framed_keeps [] hnamed hp hc hF List.nodup_nil nofun).mono (fun _ _ hs => ⟨hs, nofun⟩)
    fun _ _ _ hs => hs.1

/-- One that is called while text is being printed. -/
theorem call_keeps_printed (hnamed : named → port ≠ .nullport)
    (hp : (discipline long).Triple [.uart] P p [.uart] Q) (hc : Framed port p) :
    (mainState named long).Triple [.uart] (fun g s => P g s ∧ Printed part s) p [.uart]
      fun a g s => Q a g s ∧ Printed part s := by
  refine (framed_keeps [.uart] hnamed hp hc frames_printed (List.nodup_singleton _) ?_).mono
    (fun _ _ hs => ⟨hs, ?_⟩) fun _ _ _ hs => hs.1
  · rintro l hl
    obtain rfl := List.mem_singleton.mp hl
    exact ⟨hl, rfl⟩
  · rintro l hl hne
    exact absurd (List.mem_singleton.mp hl) hne

end

/-! ### While the port controller is locked

Who holds the lock may know the list; the methods of the port controller leave it alone. -/

section

open CPortController

variable {named long : Prop} {α : Type} {c : List Callee} {k : Know} {F : Store Val → Prop}

/-- With the UART set aside, the list is all the invariants say. -/
theorem listed_iff (s : Store Val) :
    (∀ l ∈ [Lock.port], l ≠ .uart → (mainState named long).free l s) ↔ ∃ ports, Lists s ports := by
  constructor
  · exact fun h => h .port (List.mem_singleton_self _) (by decide)
  · intro h l hl _
    obtain rfl := List.mem_singleton.mp hl
    exact h

/-- With the lock of the port controller comes what is known of the list. -/
theorem lockPort_keeps (r : Bool) (hF : (mainState named long).Frames [] F) :
    (mainState named long).Triple [] (fun g s => Knows c (.idle r) g s ∧ F s)
      (onInstance (acquire .port)) [.port]
      fun _ g s => (Knows c (.idle true) g s ∧ F s) ∧ ∃ ports, Lists s ports :=
  (framed_keeps [] north_named (lockInstance_spec r) acquireInstance_framed hF List.nodup_nil nofun).mono
    (fun _ _ hs => ⟨hs, nofun⟩) fun _ _ s hs => ⟨hs.1, (listed_iff s).mp hs.2⟩

theorem method_keeps {p : Code α} {Q : α → Assn Val Event} (hF : (mainState named long).Frames [] F)
    (hp : (discipline long).Triple [.port] (Knows c k) p [.port] Q) (hc : Framed .north p) :
    (mainState named long).Triple [.port] (fun g s => (Knows c k g s ∧ F s) ∧ ∃ ports, Lists s ports) p
      [.port] fun a g s => (Q a g s ∧ F s) ∧ ∃ ports, Lists s ports :=
  (framed_keeps [] nofun hp hc hF (List.nodup_singleton _) nofun).mono
    (fun _ s hs => ⟨hs.1, (listed_iff s).mpr hs.2⟩) fun _ _ s hs => ⟨hs.1, (listed_iff s).mp hs.2⟩

/-- The list has to be in order when the lock of the port controller is released. -/
theorem unlockPort_keeps (r : Bool) (hF : (mainState named long).Frames [] F) :
    (mainState named long).Triple [.port]
      (fun g s => (Knows c (.idle true) g s ∧ F s) ∧ ∃ ports, Lists s ports) (onInstance (release .port)) []
      fun _ g s => Knows c (.idle r) g s ∧ F s :=
  (framed_keeps [] north_named (unlockInstance_spec (Guarded.idle c [.port] true) rfl)
    releaseInstance_framed hF (List.nodup_singleton _) nofun).mono
    (fun _ s hs => ⟨hs.1, (listed_iff s).mpr hs.2⟩) fun _ _ _ hs => ⟨hs.1.1.forget (idle_le r), hs.1.2⟩

/-- An entry is looked at again while the port controller is locked. -/
theorem reloadLocked_keeps {β : Type} {Q : β → Assn Val Event} {held' : List Lock} {i : Nat} {port : Port}
    (hg : Guarded c [.port] k) {f : EPort → Code β}
    (h : (mainState named long).Triple [.port]
      (fun g s => (Knows c k g s ∧ s (.connectedPorts i) = port.1) ∧ ∃ ports, Lists s ports)
      (f port.1) held' Q) :
    (mainState named long).Triple [.port]
      (fun g s => (Knows c k g s ∧ s (.connectedPorts i) = port.1) ∧ ∃ ports, Lists s ports)
      (load (.connectedPorts i) >>= f) held' Q := by
  have hknows : (mainState named long).Stable [.port] (Knows c k) := .of_discipline _ hg.stable
  exact Invariants.Triple.readKnown (v := port.1)
    ((hknows.and (entry_stable port.2)).and (lists_stable (by simp))) (fun _ _ hs => hs.1.2) h

theorem transaction_keeps {p : Code α} {P : Assn Val Event} {Q : α → Assn Val Event}
    (hp : (discipline long).Triple [.tw] P p [.tw] Q) (hc : Framed .north p) :
    (mainState named long).Triple [.tw] P p [.tw] Q := by
  refine (framed_keeps [] nofun hp hc (frames_true []) (List.nodup_singleton _) nofun).mono
    (fun _ _ hs => ⟨⟨hs, trivial⟩, fun l hl _ => ?_⟩) fun _ _ _ hs => hs.1.1
  obtain rfl := List.mem_singleton.mp hl
  trivial

end

/-! ## What the operations of `main.cpp` keep

Each of them follows the proof of its specification in `SmartblocksOs.Board.Main`, with the text printed
so far and the entry found carried along. -/

namespace Main

open CTWController CPortController

section

variable {named long : Prop} {c : List Callee} {k : Know} {held : List Lock}
  {part : List String}

/-- One more text of a message. -/
theorem print_keeps (hg : Guarded c held k) (huart : .uart ∈ held) {text : String} (m : Message)
    (hm : part ++ [text] <+: m.texts) :
    (mainState named long).Triple held (fun g s => Knows c k g s ∧ Printed part s) (print text) held
      fun _ g s => Knows c k g s ∧ Printed (part ++ [text]) s := by
  have hknows : (mainState named long).Stable held (Knows c k) := .of_discipline _ hg.stable
  have hstable : (mainState named long).Stable held fun g s => Knows c k g s ∧ Printed part s :=
    hknows.and (printed_stable huart)
  refine (Invariants.Triple.repeatKeeping hstable (Invariants.Triple.read hstable fun _ _ => id)).seq
    fun _ => ?_
  refine (Invariants.Triple.read (Q := fun printed g s => (Knows c k g s ∧ Printed part s) ∧
    s .printed = printed) hstable fun _ _ hs => ⟨hs, rfl⟩).bind fun printed => ?_
  have hprinted : (mainState named long).Stable held fun (_ : List Event) s => s .printed = printed :=
    fun _ _ _ hrely hs => (hrely.1.eq (x := .printed) rfl huart).trans hs
  apply Invariants.Triple.write (hstable.and hprinted)
  rintro g s ⟨⟨hs, messages, hmessages⟩, rfl⟩
  have hnext : Printed (part ++ [text]) (Function.update s .printed (s .printed ++ [text])) := by
    refine ⟨messages, ?_⟩
    rw [Function.update_self, ← List.append_assoc, ← hmessages]
  refine ⟨fun _ => ⟨trivial, ?_⟩, hs.update rfl _, hnext⟩
  intro l hl
  obtain rfl : Lock.uart = l := Option.some.inj hl
  exact ⟨part ++ [text], m, hm, hnext⟩

/-- The lock of the UART is taken when the messages printed are whole. -/
theorem acquireUart_keeps (hg : Guarded c held k) :
    (mainState named long).Triple held (Knows c k) (acquire .uart) (.uart :: held)
      fun _ g s => Knows c k g s ∧ Printed [] s :=
  Invariants.Triple.acquire (.of_discipline _ hg.stable)

theorem releaseUart_keeps (hg : Guarded c (.uart :: held) k) (m : Message) :
    (mainState named long).Triple (.uart :: held) (fun g s => Knows c k g s ∧ Printed m.texts s)
      (release .uart) held fun _ => Knows c k := by
  have hknows : (mainState named long).Stable (.uart :: held) (Knows c k) := .of_discipline _ hg.stable
  have hstable : (mainState named long).Stable (.uart :: held) fun g s => Knows c k g s ∧
      Printed m.texts s := hknows.and (printed_stable (by simp))
  refine (Invariants.Triple.release hstable ?_).post fun _ _ _ hs => hs.1
  rintro g s ⟨-, messages, hs⟩
  refine ⟨messages ++ [m], ?_⟩
  rw [hs, List.flatMap_append, List.flatMap_singleton, List.append_nil, List.append_assoc]

theorem printLine_keeps (hg : Guarded c (.uart :: held) k) {text : String} (m : Message)
    (hm : m.texts = [text]) :
    (mainState named long).Triple (.uart :: held) (fun g s => Knows c k g s ∧ Printed [] s) (do
      print text
      release .uart) held fun _ => Knows c k := by
  refine (print_keeps hg (by simp) m ?_).seq fun _ => ?_
  · rw [hm]
    exact List.prefix_rfl
  · rw [List.nil_append, ← hm]
    exact releaseUart_keeps hg m

theorem loadPrinting_keeps {β : Type} {Q : β → Assn Val Event} {held' : List Lock} (x : Var)
    (hg : Guarded c held k) (huart : .uart ∈ held) {f : Val x → Code β}
    (h : ∀ v, (mainState named long).Triple held (fun g s => Knows c k g s ∧ Printed part s) (f v) held' Q) :
    (mainState named long).Triple held (fun g s => Knows c k g s ∧ Printed part s) (load x >>= f) held'
      Q := by
  have hknows : (mainState named long).Stable held (Knows c k) := .of_discipline _ hg.stable
  exact Invariants.Triple.seq (Invariants.Triple.read (hknows.and (printed_stable huart)) fun _ _ => id) h

/-- A line is printed as a whole. -/
theorem log_keeps (r : Bool) (msg1 : String) {msg2 : Code String}
    (h : ∀ part, (mainState named long).Triple [.uart] (fun g s => Knows c (.idle r) g s ∧ Printed part s)
      msg2 [.uart] fun _ g s => Knows c (.idle r) g s ∧ Printed part s) :
    (mainState named long).Triple [] (Knows c (.idle r)) (log msg1 msg2) [] fun _ => Knows c (.idle r) := by
  have hg := Guarded.idle c [.uart] r
  have huart : Lock.uart ∈ [Lock.uart] := List.mem_singleton_self _
  refine (acquireUart_keeps (Guarded.idle c [] r)).seq fun _ => ?_
  refine loadPrinting_keeps .milliseconds hg huart fun ms => ?_
  refine (print_keeps hg huart (.log ms msg1 "") (List.prefix_append _ _)).seq fun _ => ?_
  refine (print_keeps hg huart (.log ms msg1 "") (List.prefix_append _ _)).seq fun _ => ?_
  refine (h _).seq fun text => ?_
  refine (print_keeps hg huart (.log ms msg1 text) List.prefix_rfl).seq fun _ => ?_
  exact releaseUart_keeps hg (.log ms msg1 text)

/-- The name of a port, computed while text is being printed. -/
theorem getPortString_keeps (r : Bool) (port : EPort) :
    (mainState named long).Triple [.uart] (fun g s => Knows c (.idle r) g s ∧ Printed part s)
      (onInstance (pure (getPortString port))) [.uart]
      fun name g s => (Knows c (.idle r) g s ∧ name = getPortString port) ∧ Printed part s := by
  refine call_keeps_printed north_named ?_ (onInstance_framed (.ret _))
  exact (initOnFirstUse_spec r (by decide)).seq fun _ => .pure fun _ _ hs => ⟨hs.forget (idle_le r), rfl⟩

/-- The port takes the place of the first `NULLPORT`. -/
theorem addConnectedPort_keeps (hg : Guarded c held k) (hport : .port ∈ held) (port : Port) (n i : Nat)
    (hi : i + n = 6) :
    (mainState named long).Triple held
      (fun g s => Knows c k g s ∧ ∃ ports, Lists s ports ∧ i ≤ ports.length)
      (addConnectedPort port.1 n i) held fun _ g s => Knows c k g s ∧ ∃ ports, Lists s ports := by
  -- by induction on the entries that are left; those before `i` are known to name ports
  induction n generalizing i with
  | zero => exact .pure fun _ _ ⟨hs, ports, h, _⟩ => ⟨hs, ports, h⟩
  | succ n ih =>
      have hstable : (mainState named long).Stable held
          fun g s => Knows c k g s ∧ ∃ ports, Lists s ports ∧ i ≤ ports.length := by
        rintro g s s' hrely ⟨hs, ports, h, hle⟩
        exact ⟨hg.stable g s s' hrely.1 hs, ports, h.congr fun j => hrely.1.eq rfl hport, hle⟩
      refine (Invariants.Triple.read (Q := fun connected g s => (Knows c k g s ∧
        ∃ ports, Lists s ports ∧ i ≤ ports.length) ∧ s (.connectedPorts i) = connected) hstable
        fun _ _ hs => ⟨hs, rfl⟩).bind fun connected => ?_
      have hentry : (mainState named long).Stable held
          fun (_ : List Event) s => s (.connectedPorts i) = connected :=
        fun _ _ _ hrely hs => (hrely.1.eq (x := .connectedPorts i) rfl hport).trans hs
      refine .ite (fun hnull => ?_) fun hnull => (ih (i + 1) (by omega)).pre ?_
      · apply Invariants.Triple.write (hstable.and hentry)
        rintro g s ⟨⟨hs, ports, h, hle⟩, hs'⟩
        rw [hnull] at hs'
        -- all entries before this one name ports
        obtain rfl : i = ports.length := Nat.le_antisymm hle ((h.eq_nullport_iff i).mp hs')
        have hnext := h.concat port (by omega)
        refine ⟨fun _ => ⟨Or.inr ⟨hs', by omega⟩, ?_⟩, hs.update rfl _, _, hnext⟩
        intro l hl
        obtain rfl : Lock.port = l := Option.some.inj hl
        exact ⟨_, hnext⟩
      · rintro g s ⟨⟨hs, ports, h, hle⟩, rfl⟩
        refine ⟨hs, ports, h, ?_⟩
        have := mt (h.eq_nullport_iff i).mpr hnull
        omega

/-- An entry of the list is looked at, while no lock needs to be held. -/
theorem loadEntry_keeps {β : Type} {Q : β → Assn Val Event} {held' : List Lock} {P : Assn Val Event}
    (hP : (mainState named long).Stable held P) (i : Nat) {f : EPort → Code β}
    (h : ∀ port : Port, (mainState named long).Triple held
      (fun g s => P g s ∧ s (.connectedPorts i) = port.1) (f port.1) held' Q)
    (hnull : (mainState named long).Triple held P (f .nullport) held' Q) :
    (mainState named long).Triple held P (load (.connectedPorts i) >>= f) held' Q := by
  refine (Invariants.Triple.read (Q := fun port g s => P g s ∧ s (.connectedPorts i) = port) hP
    fun _ _ hs => ⟨hs, rfl⟩).bind fun port => ?_
  by_cases hport : port = .nullport
  · subst hport
    exact hnull.pre fun _ _ hs => hs.1
  · exact h ⟨port, hport⟩

/-- It names the same port when it is looked at again. -/
theorem reloadEntry_keeps {β : Type} {Q : β → Assn Val Event} {held' : List Lock} {P : Assn Val Event}
    {i : Nat} {port : Port} (hP : (mainState named long).Stable held P) {f : EPort → Code β}
    (h : (mainState named long).Triple held (fun g s => P g s ∧ s (.connectedPorts i) = port.1)
      (f port.1) held' Q) :
    (mainState named long).Triple held (fun g s => P g s ∧ s (.connectedPorts i) = port.1)
      (load (.connectedPorts i) >>= f) held' Q :=
  Invariants.Triple.readKnown (v := port.1) (hP.and (entry_stable port.2)) (fun _ _ hs => hs.2) h

end

section

variable {named long : Prop} (r : Bool)

/-- The ports found are appended to the list; then their names are printed as one message. -/
theorem initPortController_keeps :
    (mainState named long).Triple [] (Knows [] (.idle r)) initPortController []
      fun _ => Knows [] (.idle r) := by
  have hport := Guarded.idle [] [.port] true
  have huart := Guarded.idle [] [.uart] true
  have htrue : (mainState named long).Frames [] fun _ => True := frames_true []
  -- the multiplexer is turned away twice, before the ports are asked and after, by the same call
  have hselect := method_keeps htrue (onInstance_spec hport rfl (selectPort_forgets hport (by simp)
    .nullport)) (onInstance_framed (selectPort_framed .nullport))
  refine ((lockPort_keeps r htrue).pre fun _ _ hs => ⟨hs, trivial⟩).seq fun _ => hselect.seq fun _ => ?_
  refine (method_keeps htrue (sleep_spec hport 10) .switch).seq fun _ => ?_
  refine (Invariants.Triple.forM fun port hmem => ?_).seq fun _ => hselect.seq fun _ => ?_
  · have hne : port ≠ .nullport := by
      rintro rfl
      exact absurd hmem (by decide)
    refine (method_keeps htrue (onInstance_spec hport rfl (isPortConnected_spec true port))
      (onInstance_framed (isPortConnected_framed port))).bind fun connected => ?_
    refine .ite (fun _ => ?_) fun _ => .pure fun _ _ => id
    refine (addConnectedPort_keeps hport (by simp) ⟨port, hne⟩ 6 0 rfl).mono ?_ ?_
    · rintro g s ⟨⟨hs, -⟩, ports, h⟩
      exact ⟨hs, ports, h, Nat.zero_le _⟩
    · rintro _ g s ⟨hs, h⟩
      exact ⟨⟨hs, trivial⟩, h⟩
  -- the ports have been found; what follows is printed from the list, without its lock
  refine (unlockPort_keeps true htrue).seq fun _ => ?_
  refine ((acquireUart_keeps (Guarded.idle [] [] true)).pre fun _ _ hs => hs.1).seq fun _ => ?_
  refine (print_keeps huart (by simp) (.connectedPorts []) (List.prefix_append _ _)).seq fun _ => ?_
  -- the names printed so far
  refine Invariants.Triple.pre (P := fun g s => Knows [] (.idle true) g s ∧ ∃ ports : List Port,
    Printed ("Connected Ports: " :: ports.map fun port => getPortString port.1 ++ " ") s) ?_
    fun _ _ hs => ⟨hs.1, [], hs.2⟩
  refine (Invariants.Triple.forM fun i _ => ?_).seq fun _ => ?_
  · have hstable : (mainState named long).Stable [.uart] fun g s => Knows [] (.idle true) g s ∧
        ∃ ports : List Port,
          Printed ("Connected Ports: " :: ports.map fun port => getPortString port.1 ++ " ") s := by
      rintro g s s' hrely ⟨hs, ports, h⟩
      exact ⟨huart.stable g s s' hrely.1 hs, ports, printed_stable (by simp) g s s' hrely h⟩
    refine loadEntry_keeps hstable i (fun port => ?_) (.pure fun _ _ => id)
    rw [if_pos port.2]
    refine reloadEntry_keeps hstable ?_
    refine Invariants.Triple.pre (P := fun g s => ∃ ports : List Port, Knows [] (.idle true) g s ∧
      Printed ("Connected Ports: " :: ports.map fun port => getPortString port.1 ++ " ") s) ?_ ?_
    swap
    · rintro g s ⟨⟨hs, ports, h⟩, -⟩
      exact ⟨ports, hs, h⟩
    apply Invariants.Triple.exists_pre
    intro ports
    refine (getPortString_keeps true port.1).bind fun name => ?_
    apply Invariants.Triple.fact (fun _ _ hs => hs.1.2)
    rintro rfl
    refine ((print_keeps huart (by simp) (.connectedPorts (ports ++ [port])) ?_).pre
      fun _ _ hs => ⟨hs.1.1, hs.2⟩).post fun _ _ _ hs => ⟨hs.1, ports ++ [port], ?_⟩
    · simp [Message.texts]
    · rw [List.map_append]
      exact hs.2
  refine Invariants.Triple.pre (P := fun g s => ∃ ports : List Port, Knows [] (.idle true) g s ∧
    Printed ("Connected Ports: " :: ports.map fun port => getPortString port.1 ++ " ") s) ?_
    fun _ _ ⟨hs, ports, h⟩ => ⟨ports, hs, h⟩
  apply Invariants.Triple.exists_pre
  intro ports
  refine (print_keeps huart (by simp) (.connectedPorts ports) List.prefix_rfl).seq fun _ => ?_
  refine (releaseUart_keeps huart (.connectedPorts ports)).seq fun _ => ?_
  refine (Invariants.Triple.switch (.of_discipline _ (Guarded.idle [] [] true).stable)).post ?_
  exact fun _ _ _ hs => hs.forget (idle_le r)

/-- The list is read without a lock: an entry that is a port is one at each use. -/
theorem initLEDs_keeps :
    (mainState named long).Triple [] (Knows [] (.idle r)) initLEDs [] fun _ => Knows [] (.idle r) := by
  have hstable : (mainState named long).Stable [] (Knows [] (.idle r)) :=
    .of_discipline _ (Guarded.idle [] [] r).stable
  refine (Invariants.Triple.forM fun i _ => ?_).seq fun _ => ?_
  · refine loadEntry_keeps hstable i (fun port => ?_) (.pure fun _ _ => id)
    have hcall : ∀ {p : Code Unit}, (discipline long).Triple [] (Knows [] (.idle r)) p []
        (fun _ => Knows [] (.idle true)) → Framed port.1 p → (mainState named long).Triple []
        (fun g s => Knows [] (.idle r) g s ∧ s (.connectedPorts i) = port.1) p []
        fun _ g s => Knows [] (.idle r) g s ∧ s (.connectedPorts i) = port.1 :=
      fun hp hc => call_keeps (fun _ => port.2) (forget_spec hp (idle_le r)) hc (frames_entry port.2)
    rw [if_pos port.2]
    refine reloadEntry_keeps hstable ?_
    refine (hcall (CLEDController.init_spec (SameFace.nil port.1) r) CLEDController.init_framed).seq
      fun _ => reloadEntry_keeps hstable ?_
    refine (hcall (CLEDController.setAllModesOnFace_spec (SameFace.nil port.1) r .pwm)
      (CLEDController.setAllModesOnFace_framed .pwm)).seq fun _ => reloadEntry_keeps hstable ?_
    exact (hcall (CLEDController.setAllColorsOnFace_spec (SameFace.nil port.1) r 0x01 0x01 0x00)
      (CLEDController.setAllColorsOnFace_framed 0x01 0x01 0x00)).post fun _ _ _ hs => hs.1
  refine (log_keeps r "LED ok" fun _ => .pure fun _ _ => id).seq fun _ => ?_
  exact (Invariants.Triple.switch hstable).seq fun _ => Invariants.Triple.switch hstable

/-- `SetFaceColor` calls nothing for another face. -/
theorem setFaceColor_framed (color val : Byte) (port : EPort) :
    Framed port (setFaceColor color val port) := by
  refine .bind ?_ fun _ => .switch
  split
  · exact CLEDController.setAllColorsOnFace_framed _ _ _
  · exact CLEDController.setAllColorsOnFace_framed _ _ _
  · exact CLEDController.setAllColorsOnFace_framed _ _ _
  · exact CLEDController.setAllColorsOnFace_framed _ _ _
  · exact .ret _

theorem variateLEDsOnPort_framed (port : EPort) : Framed port (variateLEDsOnPort port) := by
  refine .bind (.forM (fun _ => setFaceColor_framed _ _ port) _) fun _ => ?_
  refine .bind (.forM (fun _ => setFaceColor_framed _ _ port) _) fun _ => ?_
  exact .bind (CLEDController.setAllColorsOnFace_framed _ _ _) fun _ => .switch

/-- The measurement is printed as one message. -/
theorem testAccelerometer_keeps :
    (mainState named long).Triple [] (Knows [] (.idle r)) testAccelerometer []
      fun _ => Knows [] (.idle r) := by
  have hg := Guarded.idle [] [] r
  have huart := Guarded.idle [] [.uart] r
  have hstable : (mainState named long).Stable [] (Knows [] (.idle r)) := .of_discipline _ hg.stable
  have hin : ∀ k, Guarded [] [.tw] k :=
    fun k => ⟨fun _ => Or.inl rfl, fun _ => by simp, fun _ => by simp⟩
  refine (Invariants.Triple.acquire hstable).seq fun _ => ?_
  refine Invariants.Triple.pre (P := Knows [] ⟨true, false, false, r⟩) ?_ fun g s hs =>
    ⟨hs.1.callers, fun _ => nofun, nofun, nofun, hs.1.ready⟩
  refine (transaction_keeps (beginTransmission_spec (hin _) (by simp) _)
    (beginTransmission_onBus _).framed).seq fun _ => ?_
  refine (transaction_keeps (writeByte_keeps (hin _) (by simp) rfl _) (writeByte_onBus _).framed).seq fun _ => ?_
  refine (transaction_keeps (endTransmission_spec (hin _) (by simp) rfl rfl _)
    (endTransmission_onBus _).framed).seq fun _ => ?_
  refine (transaction_keeps (readFrom_spec (hin _) (by simp) rfl _ _ _) (readFrom_onBus _ _ _).framed).seq
    fun _ => ?_
  refine (transaction_keeps (Q := fun _ => Knows [] ⟨true, false, true, r⟩) (Discipline.Triple.foldlM
    (I := fun _ => Knows [] ⟨true, false, true, r⟩) 0 fun _ res _ i _ => ?_)
    (.foldlM (fun _ _ => .bind readByte_onBus.framed fun _ => .ret _) _ _)).seq fun res => ?_
  · exact (readByte_spec (hin _) (by simp) rfl).seq fun b => .pure fun _ _ => id
  have hread : (mainState named long).Stable [.tw] (Knows [] ⟨true, false, true, r⟩) :=
    .of_discipline _ (hin _).stable
  -- the transaction is over, and its buffers are forgotten
  refine Invariants.Triple.seq (R := Knows [] (.idle r)) ((Invariants.Triple.release hread
    fun _ _ _ => trivial).post fun _ _ _ hs => hs.forget ⟨nofun, nofun, nofun, id⟩) fun _ => ?_
  refine (acquireUart_keeps hg).seq fun _ => loadPrinting_keeps .milliseconds huart (by simp) fun ms => ?_
  -- one text, then a wait until it is on the line, then the lock is released
  refine (print_keeps huart (by simp) (.measurement res ms) List.prefix_rfl).seq fun _ => ?_
  have hprinted : (mainState named long).Stable [.uart] fun g s => Knows [] (.idle r) g s ∧
      Printed (Message.measurement res ms).texts s :=
    (Invariants.Stable.of_discipline _ huart.stable).and (printed_stable (by simp))
  refine (Invariants.Triple.repeatKeeping hprinted (Invariants.Triple.read hprinted fun _ _ => id)).seq
    fun _ => ?_
  exact (releaseUart_keeps huart (.measurement res ms)).seq fun _ => Invariants.Triple.switch hstable

theorem dummy5_keeps :
    (mainState named long).Triple [] (Knows [] (.idle r)) dummy5 [] fun _ => Knows [] (.idle r) := by
  have huart := Guarded.idle [] [.uart] r
  refine (acquireUart_keeps (Guarded.idle [] [] r)).seq fun _ => ?_
  refine loadPrinting_keeps .milliseconds huart (by simp) fun ms => ?_
  refine (print_keeps huart (by simp) (.uptime ms) List.prefix_rfl).seq fun _ => ?_
  refine (releaseUart_keeps huart (.uptime ms)).seq fun _ => ?_
  exact Invariants.Triple.switch (.of_discipline _ (Guarded.idle [] [] r).stable)

/-- Every use of the entry after the test finds the same port. -/
theorem initNFC_keeps (io : Nat → Buffer) :
    (mainState named long).Triple [] (Knows [] (.idle r)) (initNFC io) []
      fun _ => Knows [] (.idle r) := by
  have hg := Guarded.idle [] [] r
  have hport := Guarded.idle [] [.port] true
  have hstable : (mainState named long).Stable [] (Knows [] (.idle r)) := .of_discipline _ hg.stable
  refine (Invariants.Triple.forM fun i _ => ?_).seq fun _ => ?_
  · refine loadEntry_keeps hstable i (fun port => ?_) (.pure fun _ _ => id)
    -- the entry has been found to be a port, which no step can change
    have hentry : (mainState named long).Frames [] fun s => s (.connectedPorts i) = port.1 :=
      frames_entry port.2
    rw [if_pos port.2]
    refine (lockPort_keeps r hentry).seq fun _ => reloadLocked_keeps hport ?_
    refine (method_keeps hentry (onInstance_spec hport rfl (selectPort_forgets hport (by simp) port.1))
      (onInstance_framed (selectPort_framed port.1))).seq fun _ => reloadLocked_keeps hport ?_
    refine (method_keeps hentry (onInstance_spec hport rfl (updateOutput_spec true (by decide) _))
      (onInstance_framed (updateOutput_framed _))).seq fun _ => ?_
    refine (unlockPort_keeps r hentry).seq fun _ => reloadEntry_keeps hstable ?_
    refine (call_keeps (fun _ => port.2) (CNFCController.init_spec (SameFace.nil port.1) r (io i))
      (CNFCController.init_framed (io i)) hentry).seq fun ⟨success, _⟩ => ?_
    refine .ite (fun _ => reloadEntry_keeps hstable ?_) fun _ => .pure fun _ _ hs => hs.1
    exact (call_keeps (fun _ => port.2) (CLEDController.setAllColorsOnFace_spec (SameFace.nil port.1) r
      0x01 0x01 0x02) (CLEDController.setAllColorsOnFace_framed 0x01 0x01 0x02) hentry).post
      fun _ _ _ hs => hs.1.forget (idle_le r)
  refine (log_keeps r "NFC ok" fun _ => .pure fun _ _ => id).seq fun _ => ?_
  exact (Invariants.Triple.switch hstable).seq fun _ => Invariants.Triple.switch hstable

/-- The entry is read four times in a round, and is the same port each time. -/
theorem nfcTransmit_keeps (io : Nat → Buffer) :
    (mainState named long).Triple [] (Knows [] (.idle r)) (nfcTransmit io) []
      fun _ => Knows [] (.idle r) := by
  have hport := Guarded.idle [] [.port] true
  have hstable : (mainState named long).Stable [] (Knows [] (.idle r)) :=
    .of_discipline _ (Guarded.idle [] [] r).stable
  refine (log_keeps r "send msg TM" fun _ => .pure fun _ _ => id).seq fun _ =>
    Invariants.Triple.forM fun i _ => ?_
  refine loadEntry_keeps hstable i (fun port => ?_) (.pure fun _ _ => id)
  -- as in `InitNFC`
  have hentry : (mainState named long).Frames [] fun s => s (.connectedPorts i) = port.1 :=
    frames_entry port.2
  rw [if_pos port.2]
  refine reloadEntry_keeps hstable ?_
  refine (call_keeps (fun _ => port.2) (CNFCController.send_spec (SameFace.nil port.1) r outboundMessage 2
    (io i) (Or.inr (by decide))) (CNFCController.send_framed outboundMessage 2 (io i)) hentry).seq
    fun ⟨success, _⟩ => ?_
  refine (lockPort_keeps r hentry).seq fun _ => reloadLocked_keeps hport ?_
  refine (method_keeps hentry (onInstance_spec hport rfl (selectPort_forgets hport (by simp) port.1))
    (onInstance_framed (selectPort_framed port.1))).seq fun _ => ?_
  refine (method_keeps hentry (onInstance_spec hport rfl (clearInterrupts_spec hport (by simp) 0xFF))
    (onInstance_framed (clearInterrupts_framed 0xFF))).seq fun _ => ?_
  refine (unlockPort_keeps r hentry).seq fun _ => reloadEntry_keeps hstable ?_
  have hcolor : ∀ color, (mainState named long).Triple []
      (fun g s => Knows [] (.idle r) g s ∧ s (.connectedPorts i) = port.1) (setFaceColor color 0x04 port.1)
      [] fun _ => Knows [] (.idle r) :=
    fun color => (call_keeps (fun _ => port.2) (setFaceColor_spec r color 0x04 port.1)
      (setFaceColor_framed color 0x04 port.1) hentry).post fun _ _ _ hs => hs.1
  exact .ite (fun _ => hcolor _) fun _ => hcolor _

/-- The entry was taken by value at the start of the round. -/
theorem reactOn_keeps (irqs : Byte) (io inbound : Nat → Buffer) (i : Nat) :
    (mainState named long).Triple [] (Knows [] (.idle r)) (reactOn irqs io inbound i) []
      fun _ => Knows [] (.idle r) := by
  have huart := Guarded.idle [] [.uart] r
  have hstable : (mainState named long).Stable [] (Knows [] (.idle r)) :=
    .of_discipline _ (Guarded.idle [] [] r).stable
  refine loadEntry_keeps hstable i (fun port => ?_) (.ite (fun h => absurd rfl h.1)
    fun _ => .pure fun _ _ => id)
  have hentry : (mainState named long).Frames [] fun s => s (.connectedPorts i) = port.1 :=
    frames_entry port.2
  refine .ite (fun _ => ?_) fun _ => .pure fun _ _ hs => hs.1
  refine (call_keeps (fun _ => port.2) (CNFCController.receive_spec (SameFace.nil port.1) r (inbound i) 2
    (io i)) (CNFCController.receive_framed (inbound i) 2 (io i)) hentry).seq
    fun ⟨received, message, _⟩ => ?_
  refine .ite (fun _ => ?_) fun _ => .pure fun _ _ hs => hs.1
  refine ((call_keeps (fun _ => port.2) (setFaceColor_spec r green 0x04 port.1)
    (setFaceColor_framed green 0x04 port.1) hentry).post fun _ _ _ hs => hs.1).seq fun _ => ?_
  refine (log_keeps r "msg on " fun _ => (getPortString_keeps r port.1).post
    fun _ _ _ hs => ⟨hs.1.1, hs.2⟩).seq fun _ => ?_
  refine (acquireUart_keeps (Guarded.idle [] [] r)).seq fun _ => ?_
  exact printLine_keeps huart (.received message) rfl

/-- The interrupts are taken under the lock, and the entries looked at one after the other. -/
theorem nfcReact_keeps (io inbound : Nat → Buffer) :
    (mainState named long).Triple [] (Knows [] (.idle r)) (nfcReact io inbound) []
      fun _ => Knows [] (.idle r) := by
  have hport := Guarded.idle [] [.port] true
  have htrue : (mainState named long).Frames [] fun _ => True := frames_true []
  refine ((lockPort_keeps r htrue).pre fun _ _ hs => ⟨hs, trivial⟩).seq fun _ => ?_
  refine (method_keeps htrue (onInstance_spec hport rfl (synchronizeInterrupts_spec true))
    (onInstance_framed synchronizeInterrupts_framed)).seq fun _ => ?_
  refine (method_keeps htrue (Q := fun _ => Knows [] (.idle true)) (onInstance_spec hport rfl
    ((load_spec hport _).seq fun _ => .pure fun _ _ => id)) (onInstance_framed hasInterrupts_framed)).seq
    fun some => .ite (fun _ => ?_) fun _ => (unlockPort_keeps r htrue).post fun _ _ _ hs => hs.1
  refine (method_keeps htrue (onInstance_spec hport rfl (load_spec hport _))
    (onInstance_framed (.read trivial))).seq fun irqs => ?_
  refine (method_keeps htrue (onInstance_spec hport rfl (clearInterrupts_spec hport (by simp) irqs))
    (onInstance_framed (clearInterrupts_framed irqs))).seq fun _ => ?_
  refine ((unlockPort_keeps r htrue).post fun _ _ _ hs => hs.1).seq fun _ => ?_
  refine (acquireUart_keeps (Guarded.idle [] [] r)).seq fun _ => ?_
  refine (print_keeps (Guarded.idle [] [.uart] r) (by simp) (.interrupts irqs) List.prefix_rfl).seq
    fun _ => ?_
  refine (releaseUart_keeps (Guarded.idle [] [.uart] r) (.interrupts irqs)).seq fun _ => ?_
  exact Invariants.Triple.forM fun i _ => reactOn_keeps r irqs io inbound i

end

end Main

/-! ## Every operation

A call of a controller keeps the invariants by its footprint alone, whatever it does. Only the tasks of
`main.cpp` that print or go through the list need their own proofs, which have been given above. -/

namespace Operation

/-- The operation is called for a port of the block. -/
def Named : Operation → Prop
  | ledInit port | setMode port _ _ | setBrightness port _ _ | setColor port _ _ _ _
  | setBlinkRate port _ _ | setAllColorsOnFace port _ _ _ | setAllModesOnFace port _
  | nfcInit port _ | send port _ _ _ | receive port _ _ _ | hasExternalField port _
  | powerDown port _ | probe port _ | configureSAM port _ _ _ _ | p2pInitiatorInit port _
  | p2pTargetInit port _ | p2pInitiatorTxRx port _ _ _ _ _ | p2pTargetTxRx port _ _ _ _ _
  | setFaceColor _ _ port | variateLEDsOnPort port => port ≠ .nullport
  | enablePort _ | disablePort _ | serviceRoutine | initPortController | initLEDs
  | testAccelerometer | dummy5 | initNFC _ | nfcTransmit _ | nfcReact _ _ | log _ _ => True

/-- Every operation keeps the invariants. -/
theorem body_keeps {named long : Prop} (op : Operation) (hfits : long ∨ op.CommandsFit)
    (hnamed : named → op.Named) :
    (mainState named long).Triple [] (Knows [] (.idle false)) op.body []
      fun _ => Knows [] (.idle false) := by
  -- an operation that is a call of a controller keeps the invariants by its footprint
  have hcall : ∀ {port : EPort}, (named → port ≠ .nullport) → Framed port op.body →
      (mainState named long).Triple [] (Knows [] (.idle false)) op.body []
        fun _ => Knows [] (.idle false) :=
    fun hport hc => (call_keeps hport (body_spec op hfits) hc (frames_true [])).mono
      (fun _ _ hs => ⟨hs, trivial⟩) fun _ _ _ hs => hs.1
  have hdrop : ∀ {port : EPort} {α : Type} {p : Code α}, Framed port p → Framed port (dropResult p) :=
    fun h => .bind h fun _ => .ret _
  cases op with
  | ledInit port => exact hcall hnamed CLEDController.init_framed
  | setMode port led mode => exact hcall hnamed (CLEDController.setMode_framed _ _)
  | setBrightness port led val => exact hcall hnamed (CLEDController.setBrightness_framed _ _)
  | setColor port ledPack red green blue =>
      exact hcall hnamed (CLEDController.setColor_framed _ _ _ _)
  | setBlinkRate port period dutyCycle => exact hcall hnamed (CLEDController.setBlinkRate_framed _ _)
  | setAllColorsOnFace port red green blue =>
      exact hcall hnamed (CLEDController.setAllColorsOnFace_framed _ _ _)
  | setAllModesOnFace port mode => exact hcall hnamed (CLEDController.setAllModesOnFace_framed _)
  | nfcInit port io => exact hcall hnamed (hdrop (CNFCController.init_framed _))
  | send port msg len io => exact hcall hnamed (hdrop (CNFCController.send_framed _ _ _))
  | receive port msg len io => exact hcall hnamed (hdrop (CNFCController.receive_framed _ _ _))
  | hasExternalField port io => exact hcall hnamed (hdrop (CNFCController.hasExternalField_framed _))
  | powerDown port io => exact hcall hnamed (hdrop (CNFCController.powerDown_framed _))
  | probe port io => exact hcall hnamed (hdrop (CNFCController.probe_framed _))
  | configureSAM port mode timeout useIrq io =>
      exact hcall hnamed (hdrop (CNFCController.configureSAM_framed _ _ _ _))
  | p2pInitiatorInit port io => exact hcall hnamed (hdrop (CNFCController.p2pInitiatorInit_framed _))
  | p2pTargetInit port io => exact hcall hnamed (hdrop (CNFCController.p2pTargetInit_framed _))
  | p2pInitiatorTxRx port tx txLen rx rxLen io =>
      exact hcall hnamed (hdrop (CNFCController.p2pInitiatorTxRx_framed _ _ _ _ _))
  | p2pTargetTxRx port tx txLen rx rxLen io =>
      exact hcall hnamed (hdrop (CNFCController.p2pTargetTxRx_framed _ _ _ _ _))
  | enablePort port | disablePort port =>
      exact hcall north_named
        (CPortController.onInstance_framed (CPortController.updateOutput_framed _))
  | serviceRoutine => exact hcall north_named (.write rfl _)
  | initPortController => exact Main.initPortController_keeps false
  | initLEDs => exact Main.initLEDs_keeps false
  | setFaceColor color val port => exact hcall hnamed (Main.setFaceColor_framed _ _ _)
  | variateLEDsOnPort port => exact hcall hnamed (Main.variateLEDsOnPort_framed _)
  | testAccelerometer => exact Main.testAccelerometer_keeps false
  | dummy5 => exact Main.dummy5_keeps false
  | initNFC io => exact Main.initNFC_keeps false io
  | nfcTransmit io => exact Main.nfcTransmit_keeps false io
  | nfcReact io inbound => exact Main.nfcReact_keeps false io inbound
  | log msg1 msg2 => exact Main.log_keeps false msg1 fun _ => .pure fun _ _ => id

end Operation

/-! ## Every reachable state

From here on nothing is said about programs. The run rule for lock invariants turns `body_keeps` into a
statement about every interleaving of any tasks, and the hardware registers may change in between as they
like. -/

section

variable {ι Op : Type} [DecidableEq ι] {c c' : Tasks ι Var Val Lock Event}

/-- The tasks are about to run, and no port has been found yet. -/
def Fresh (c : Tasks ι Var Val Lock Event) : Prop :=
  c.Initial ∧ c.vars .printed = starting ∧ ∀ i, c.vars (.connectedPorts i) = .nullport

/-- The operations keep the invariants, and so does the hardware. -/
theorem mainState_keeping (named : Prop) (operation : Op → Operation)
    (hnamed : named → ∀ op, (operation op).Named) :
    Tasks.Keeping (mainState named True) Idle (fun op => (operation op).body) volatile where
  disciplined op := (operation op).body_idle (Or.inl trivial)
  invariant op := (Operation.body_keeps (operation op) (Or.inl trivial) fun h => hnamed h op).mono
    (fun g s hidle => (knows_idle_iff g s).mpr hidle) fun _ _ _ _ => trivial
  device _ hx := volatile_shared True hx
  about x hx := by
    cases x with
    | printed | connectedPorts i => exact absurd hx (by simp [volatile])
    | _ => rfl

omit [DecidableEq ι] in
/-- Nothing has been printed yet, and the list is empty. -/
theorem Fresh.keep (named : Prop) (h : Fresh c) :
    c.Initial ∧ ∀ l, (mainState named True).free l c.vars := by
  obtain ⟨hinit, hprinted, hports⟩ := h
  refine ⟨hinit, fun l => ?_⟩
  -- one invariant for each lock that is free at the start
  cases l with
  | uart => exact ⟨[], hprinted⟩
  | port => exact ⟨[], Nat.zero_le 6, hports⟩
  | tw => trivial

/-- While no task has taken the UART, what has been printed is one whole message after the other; and
at any time it is such messages and the beginning of another one. -/
theorem output_whole_messages (h : Reachable Fresh (tasksStep Operation.body volatile) c) :
    ((∀ t, ¬ Taken c.locks t .uart) →
      ∃ messages : List Message, c.vars .printed = starting ++ messages.flatMap Message.texts) ∧
    ∃ (messages : List Message) (m : Message) (part : List String), part <+: m.texts ∧
      c.vars .printed = starting ++ messages.flatMap Message.texts ++ part := by
  obtain ⟨owner, habs, hsound, hkept⟩ := Tasks.reachable_keep
    (mainState_keeping False id nofun) rfl (fun _ hc => hc.keep False) h
  constructor
  · intro hfree
    obtain ⟨messages, hprinted⟩ := hkept.free .uart (habs.owner_eq_none hfree)
    exact ⟨messages, hprinted.trans (List.append_nil _)⟩
  · obtain ⟨part, m, hpart, messages, hprinted⟩ := hkept.always .uart
    exact ⟨messages, m, part, hpart, hprinted⟩

/-- The board when the tasks are about to run, with a block at each of its ports. -/
def surrounded : Tasks Bool Var Val Lock Event :=
  { idleTasks with vars := Function.update (Function.update atRest .printed starting) .pinc 0x20 }

/-- None of its tasks has done anything yet. -/
theorem surrounded_fresh : Fresh surrounded :=
  ⟨idleTasks_initial, rfl, fun _ => rfl⟩

/-- A task has waited for the UART while another one printed its uptime. -/
theorem output_whole_messages_contended :
    ∃ (c : Tasks Bool Var Val Lock Event) (messages : List Message),
      run (tasksStep Operation.body volatile) surrounded (inTurns .dummy5 (.log "LED ok" "") 10) = some c ∧
        (c.vars .printed).length = 2 ∧ c.vars .printed = starting ++ messages.flatMap Message.texts := by
  have hrun : (run (tasksStep Operation.body volatile) surrounded
      (inTurns .dummy5 (.log "LED ok" "") 10)).map (fun c => ((c.vars .printed).length,
        decide (∀ t : Bool, ¬ (c.locks.holds t .uart = true ∨ c.locks.phase t = .clear .uart)))) =
        some (2, true) := by decide +kernel
  obtain ⟨c, hc, hstate⟩ := Option.map_eq_some_iff.mp hrun
  obtain ⟨hlength, hfree⟩ := Prod.mk.inj hstate
  replace hfree := of_decide_eq_true hfree
  obtain ⟨messages, hmessages⟩ := (output_whole_messages ⟨_, _, surrounded_fresh, hc⟩).1 hfree
  exact ⟨c, messages, hc, hlength, hmessages⟩

/-- In every state the list of ports holds some ports and `NULLPORT` behind them, and in a later state
the same ones first. -/
theorem connectedPorts_grow (h : Reachable Fresh (tasksStep Operation.body volatile) c)
    {es : List (Action ι Operation Val)} (hrun : run (tasksStep Operation.body volatile) c es = some c') :
    ∃ ports ports', Lists c.vars ports ∧ Lists c'.vars ports' ∧ ports <+: ports' := by
  have hops := mainState_keeping False id nofun
  have hstarted : ∀ c : Tasks ι Var Val Lock Event, Fresh c → _ := fun _ hc => hc.keep False
  obtain ⟨owner, hkeep⟩ := Tasks.reachable_keep hops rfl hstarted h
  obtain ⟨owner', hkeep'⟩ := Tasks.reachable_keep hops rfl hstarted (h.run hrun)
  obtain ⟨ports, hports⟩ := hkeep.kept.always .port
  obtain ⟨ports', hports'⟩ := hkeep'.kept.always .port
  refine ⟨ports, ports', hports, hports', hports.isPrefix hports' fun i => ?_⟩
  exact run_may hops hkeep hrun (.connectedPorts i)

/-- The ports found before a preemption stay the first ones. -/
theorem connectedPorts_grow_found :
    ∃ c c' ports ports', run (tasksStep Operation.body volatile) surrounded
        (alone .initPortController 50) = some c ∧
      run (tasksStep Operation.body volatile) c (List.replicate 147 (.advance false)) = some c' ∧
      (c.vars (.connectedPorts 0), c.vars (.connectedPorts 5), c'.vars (.connectedPorts 5)) =
        (.north, .nullport, .bottom) ∧
      Lists c.vars ports ∧ Lists c'.vars ports' ∧ ports <+: ports' := by
  have hrun : ((run (tasksStep Operation.body volatile) surrounded
      (alone .initPortController 50)).bind fun c =>
        (run (tasksStep Operation.body volatile) c (List.replicate 147 (.advance false))).map fun c' =>
          (c.vars (.connectedPorts 0), c.vars (.connectedPorts 5), c'.vars (.connectedPorts 5))) =
        some (.north, .nullport, .bottom) := by decide +kernel
  obtain ⟨c, hc, hmap⟩ := Option.bind_eq_some_iff.mp hrun
  obtain ⟨c', hc', hentries⟩ := Option.map_eq_some_iff.mp hmap
  obtain ⟨ports, ports', hports, hports', hprefix⟩ :=
    connectedPorts_grow ⟨_, _, surrounded_fresh, hc⟩ hc'
  exact ⟨c, c', ports, ports', hc, hc', hentries, hports, hports', hprefix⟩

/-- No function of the LED or the NFC controller is entered for `NULLPORT`, when the tasks are not started
for it: `main.cpp` calls them for entries of the list only that name a port. -/
theorem called_for_ports
    (h : Reachable Fresh
      (tasksStep (fun op : {op : Operation // op.Named} => op.1.body) volatile) c) (t : ι) :
    ∀ f : Callee, f.face? = some .nullport → .called f ∉ c.log t := by
  obtain ⟨owner, habs, hsound, hkept⟩ := Tasks.reachable_keep
    (mainState_keeping True Subtype.val fun _ op => op.2) rfl (fun _ hc => hc.keep True) h
  exact fun f hf hmem => hkept.allowed t _ hmem trivial hf

/-- The LEDs are initialised after the ports have been found. -/
theorem called_for_ports_found :
    ∃ c : Tasks Bool Var Val Lock Event,
      run (tasksStep (fun op : {op : Operation // op.Named} => op.1.body) volatile) surrounded
        (alone ⟨.initPortController, trivial⟩ 197 ++ alone ⟨.initLEDs, trivial⟩ 8) = some c ∧
      c.log false = [.called (.led .north)] ∧
        ∀ f : Callee, f.face? = some .nullport → .called f ∉ c.log false := by
  have hrun : (run (tasksStep (fun op : {op : Operation // op.Named} => op.1.body) volatile) surrounded
      (alone ⟨.initPortController, trivial⟩ 197 ++ alone ⟨.initLEDs, trivial⟩ 8)).map
      (fun c => c.log false) = some [.called (.led .north)] := by decide +kernel
  obtain ⟨c, hc, hlog⟩ := Option.map_eq_some_iff.mp hrun
  exact ⟨c, hc, hlog, called_for_ports ⟨_, _, surrounded_fresh, hc⟩ false⟩

end

end SmartblocksOs.Board
