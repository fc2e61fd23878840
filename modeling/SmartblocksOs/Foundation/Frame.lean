/-
# SmartblocksOs.Foundation.Frame -- frames with a length and a checksum

A frame carries words from one device to another: after a fixed start come the number of words and its
complement, the words, the complement of their sum, and a fixed end. Whoever receives it adds length and
complement, and words and checksum, and expects zero both times (`unframe`). A frame of fewer than
`2 ^ w` words is understood (`unframe_frame`), so no two of them are the same (`frame_inj`).
-/
import Mathlib.Algebra.BigOperators.Group.List.Basic
import Mathlib.Data.BitVec

namespace SmartblocksOs.Foundation

variable {w : Nat}

/-- The words `data` between `start` and `stop`, with their length and their checksum. -/
def frame (start stop data : List (BitVec w)) : List (BitVec w) :=
  start ++ BitVec.ofNat w data.length :: -BitVec.ofNat w data.length :: (data ++ -data.sum :: stop)

/-- What is read out of a frame, unless something is wrong with it. -/
def unframe (start stop bytes : List (BitVec w)) : Option (List (BitVec w)) :=
  if bytes.take start.length = start then
    match bytes.drop start.length with
    | length :: complement :: rest =>
        if length + complement = 0 then
          match rest.drop length.toNat with
          | checksum :: rest' =>
              if (rest.take length.toNat).sum + checksum = 0 ∧ rest' = stop then
                some (rest.take length.toNat)
              else none
          | [] => none
        else none
    | _ => none
  else none

variable {start stop data data' : List (BitVec w)}

/-- What has been framed is found again. -/
theorem unframe_frame (hlength : data.length < 2 ^ w) :
    unframe start stop (frame start stop data) = some data := by
  have hsize : (BitVec.ofNat w data.length).toNat = data.length := by
    rw [BitVec.toNat_ofNat]
    exact Nat.mod_eq_of_lt hlength
  unfold unframe frame
  rw [List.take_left, if_pos rfl, List.drop_left]
  simp only [hsize, add_neg_cancel, if_true]
  rw [List.drop_left, List.take_left]
  exact if_pos ⟨add_neg_cancel _, rfl⟩

/-- Different data have different frames. -/
theorem frame_inj (hlength : data.length < 2 ^ w) (hlength' : data'.length < 2 ^ w)
    (h : frame start stop data = frame start stop data') : data = data' := by
  have hdata : unframe start stop (frame start stop data) = some data := unframe_frame hlength
  rw [h, unframe_frame hlength'] at hdata
  exact (Option.some.inj hdata).symm

end SmartblocksOs.Foundation
