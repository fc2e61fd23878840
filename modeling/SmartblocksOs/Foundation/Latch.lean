/-
# SmartblocksOs.Foundation.Latch -- flags that events raise and clear

A history of events, some of which raise flags and some of which clear them. A flag is pending when it
has been raised and not been cleared since. What a word of flags holds can be compared with that, event
by event (`pending_concat`); between two moments a flag becomes pending only by being raised
(`Pending.raised`).
-/
import SmartblocksOs.Foundation.Runs

namespace SmartblocksOs.Foundation

/-- Flags `B` and events `E`. Whether an event raises a flag may depend on what came before it. -/
structure Latch (E B : Type) where
  raises : List E → E → B → Prop
  clears : E → B → Prop

namespace Latch

variable {E B : Type} (L : Latch E B)

/-- Some event has raised `b`, and none after it has cleared `b`. -/
def Pending (history : List E) (b : B) : Prop :=
  ∃ before e after, history = before ++ e :: after ∧ L.raises before e b ∧
    ∀ e' ∈ after, ¬ L.clears e' b

variable {L} {history : List E} {b : B}

/-- Nothing is pending before anything has happened. -/
theorem not_pending_nil : ¬ L.Pending [] b := by
  rintro ⟨before, e, after, hnil, -⟩
  exact absurd hnil (by simp)

/-- An event raises, or clears, or leaves things as they are. -/
theorem pending_concat {e : E} :
    L.Pending (history ++ [e]) b ↔ L.raises history e b ∨ (L.Pending history b ∧ ¬ L.clears e b) := by
  constructor
  · rintro ⟨before, e', after, heq, hraised, hkept⟩
    rcases concat_eq_append_cons.mp heq with ⟨-, rfl, rfl⟩ | ⟨after', rfl, rfl⟩
    · exact Or.inl hraised
    · refine Or.inr ⟨⟨before, e', after', rfl, hraised, ?_⟩, hkept e (by simp)⟩
      intro e'' he''
      exact hkept e'' (List.mem_append_left _ he'')
  · rintro (hraised | ⟨⟨before, e', after, rfl, hraised, hkept⟩, hclear⟩)
    · exact ⟨history, e, [], rfl, hraised, by simp⟩
    · refine ⟨before, e', after ++ [e], by simp, hraised, ?_⟩
      intro e'' he''
      rcases List.mem_append.mp he'' with hmem | hlast
      · exact hkept e'' hmem
      · rwa [List.mem_singleton.mp hlast]

/-- What is raised is pending until it is cleared. -/
theorem pending_of_raises {e : E} {more : List E} (h : L.raises history e b)
    (hkept : ∀ e' ∈ more, ¬ L.clears e' b) : L.Pending (history ++ e :: more) b :=
  ⟨history, e, more, rfl, h, hkept⟩

/-- A flag that is pending now and was not then has been raised in between. -/
theorem Pending.raised {more : List E} (h : L.Pending (history ++ more) b)
    (hnot : ¬ L.Pending history b) :
    ∃ before e after, more = before ++ e :: after ∧ L.raises (history ++ before) e b := by
  obtain ⟨before, e, after, heq, hraised, hkept⟩ := h
  rcases List.append_eq_append_iff.mp heq with ⟨mid, rfl, rfl⟩ | ⟨mid, rfl, hmid⟩
  · exact ⟨mid, e, after, rfl, hraised⟩
  · cases mid with
    | nil =>
        obtain rfl : e :: after = more := hmid
        refine ⟨[], e, after, rfl, ?_⟩
        simpa using hraised
    | cons d mid =>
        obtain ⟨rfl, rfl⟩ := List.cons.inj hmid
        refine absurd ⟨before, e, mid, rfl, hraised, ?_⟩ hnot
        intro e' he'
        exact hkept e' (List.mem_append_left _ he')

end Latch

end SmartblocksOs.Foundation
