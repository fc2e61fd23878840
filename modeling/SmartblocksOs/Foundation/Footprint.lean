/-
# SmartblocksOs.Foundation.Footprint -- what a program may do at all

Much of what is wanted of a function is only which variables it loads and stores, which locks it takes and
releases, and what it notes: that it leaves the variables of another module alone, that it keeps out of
a critical section, that it does not index an array behind its end. None of this depends on what its loads
bring. So the text of the function is gone through once, for the smallest `Footprint` that it has
(`Prog.Leaves`, with one rule for each construct), and every larger one follows by `Prog.Leaves.mono`.
-/
import Mathlib.Data.Set.Image
import SmartblocksOs.Foundation.Program

namespace SmartblocksOs.Foundation

/-! ## Footprints -/

/-- What a program may do: the variables it may load and store, the locks it may take and release, and the
events it may note. -/
structure Footprint (X L E : Type) where
  loads : Set X
  stores : Set X
  locks : Set L
  notes : Set E

namespace Footprint

variable {X L E : Type}

/-- A larger footprint allows more. -/
instance : Preorder (Footprint X L E) where
  le F G := F.loads ⊆ G.loads ∧ F.stores ⊆ G.stores ∧ F.locks ⊆ G.locks ∧ F.notes ⊆ G.notes
  le_refl F := ⟨Set.Subset.rfl, Set.Subset.rfl, Set.Subset.rfl, Set.Subset.rfl⟩
  le_trans _ _ _ h h' := ⟨h.1.trans h'.1, h.2.1.trans h'.2.1, h.2.2.1.trans h'.2.2.1,
    h.2.2.2.trans h'.2.2.2⟩

/-- One footprint lies in another when each of its four parts does. -/
@[simp]
theorem mk_le {loads stores : Set X} {locks : Set L} {notes : Set E} {F : Footprint X L E} :
    ⟨loads, stores, locks, notes⟩ ≤ F ↔
      loads ⊆ F.loads ∧ stores ⊆ F.stores ∧ locks ⊆ F.locks ∧ notes ⊆ F.notes :=
  Iff.rfl

end Footprint

variable {X : Type} {V : X → Type} {L E α β γ : Type}

/-! ## Programs that keep to a footprint -/

/-- Whatever it loads, the program does nothing that is not in the footprint. A pause does nothing. -/
def Prog.Leaves (F : Footprint X L E) {α : Type} : Prog X V L E α → Prop
  | .ret _ => True
  | .load x k => x ∈ F.loads ∧ ∀ v, (k v).Leaves F
  | .store x _ k => x ∈ F.stores ∧ k.Leaves F
  | .lock l k | .unlock l k => l ∈ F.locks ∧ k.Leaves F
  | .pause k => k.Leaves F
  | .observe f k => (∀ s, f s ∈ F.notes) ∧ k.Leaves F
  | .loop body k => body.Leaves F ∧ k.Leaves F

namespace Prog.Leaves

variable {F G : Footprint X L E} {p : Prog X V L E α}

/-- What keeps to a footprint keeps to every larger one. -/
theorem mono (hp : p.Leaves F) (hle : F ≤ G) : p.Leaves G := by
  obtain ⟨hloads, hstores, hlocks, hnotes⟩ := hle
  induction p with
  | ret a => trivial
  | load x k ih => exact ⟨hloads hp.1, fun v => ih v (hp.2 v)⟩
  | store x v k ih => exact ⟨hstores hp.1, ih hp.2⟩
  | lock l k ih => exact ⟨hlocks hp.1, ih hp.2⟩
  | unlock l k ih => exact ⟨hlocks hp.1, ih hp.2⟩
  | pause k ih => exact ih hp
  | observe f k ih => exact ⟨fun s => hnotes (hp.1 s), ih hp.2⟩
  | loop body k ihbody ihk => exact ⟨ihbody hp.1, ihk hp.2⟩

/-- A composition keeps to what both its parts keep to. -/
theorem bind {f : α → Prog X V L E β} (hp : p.Leaves F) (hf : ∀ a, (f a).Leaves F) :
    (p >>= f).Leaves F := by
  induction p with
  | ret a => exact hf a
  | load x k ih => exact ⟨hp.1, fun v => ih v (hp.2 v) hf⟩
  | store x v k ih => exact ⟨hp.1, ih hp.2 hf⟩
  | lock l k ih => exact ⟨hp.1, ih hp.2 hf⟩
  | unlock l k ih => exact ⟨hp.1, ih hp.2 hf⟩
  | pause k ih => exact ih hp hf
  | observe g k ih => exact ⟨hp.1, ih hp.2 hf⟩
  | loop body k _ ihk => exact ⟨hp.1, ihk hp.2 hf⟩

/-! The actions. -/

/-- A value is in every footprint. -/
theorem ret (a : α) : (pure a : Prog X V L E α).Leaves F := trivial

theorem read {x : X} (hx : x ∈ F.loads) : (Prog.read x : Prog X V L E (V x)).Leaves F :=
  ⟨hx, fun _ => trivial⟩

theorem write {x : X} (hx : x ∈ F.stores) (v : V x) : (Prog.write x v : Prog X V L E Unit).Leaves F :=
  ⟨hx, trivial⟩

theorem acquire {l : L} (hl : l ∈ F.locks) : (Prog.acquire l : Prog X V L E Unit).Leaves F :=
  ⟨hl, trivial⟩

theorem release {l : L} (hl : l ∈ F.locks) : (Prog.release l : Prog X V L E Unit).Leaves F :=
  ⟨hl, trivial⟩

/-- Switching is always allowed. -/
theorem switch : (Prog.switch : Prog X V L E Unit).Leaves F := trivial

/-- A note has to be allowed for every state. -/
theorem note {f : Store V → E} (hf : ∀ s, f s ∈ F.notes) :
    (Prog.note f : Prog X V L E Unit).Leaves F :=
  ⟨hf, trivial⟩

/-! What is put together of them. -/

/-- Both branches keep to the footprint. -/
theorem ite {c : Prop} [Decidable c] {q : Prog X V L E α} (hp : p.Leaves F) (hq : q.Leaves F) :
    (if c then p else q).Leaves F := by
  split
  · exact hp
  · exact hq

/-- A loop has the footprint of its body. -/
theorem repeatWhile {body : Prog X V L E Bool} (h : body.Leaves F) :
    (Prog.repeatWhile body).Leaves F :=
  ⟨h, trivial⟩

/-- One more round of a loop. -/
theorem again {body : Prog X V L E Bool} (hbody : body.Leaves F) (hp : p.Leaves F) :
    (Prog.again body p).Leaves F :=
  hbody.bind fun _ => ite ⟨hbody, hp⟩ hp

theorem forM {f : γ → Prog X V L E PUnit} (h : ∀ c, (f c).Leaves F) (cs : List γ) :
    (cs.forM f).Leaves F := by
  induction cs with
  | nil => trivial
  | cons c cs ih => exact (h c).bind fun _ => ih

theorem foldlM {f : β → γ → Prog X V L E β} (h : ∀ b c, (f b c).Leaves F) (cs : List γ) (b : β) :
    (cs.foldlM f b).Leaves F := by
  induction cs generalizing b with
  | nil => trivial
  | cons c cs ih =>
      rw [List.foldlM_cons]
      exact (h b c).bind ih

end Prog.Leaves

end SmartblocksOs.Foundation
