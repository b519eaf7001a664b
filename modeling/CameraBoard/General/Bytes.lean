import Mathlib.Data.List.Basic
import Mathlib.Tactic.Common

/-! Words as the sequences of bytes that memory and wires hold. -/
namespace Bytes

/-- The `n` bytes of a word, the least significant first. -/
def littleEndian (n : Nat) (x : BitVec (8 * n)) : List (BitVec 8) :=
  (List.range n).map fun i => x.extractLsb' (8 * i) 8

variable {n : Nat}

@[simp] theorem length_littleEndian (x : BitVec (8 * n)) : (littleEndian n x).length = n := by
  simp [littleEndian]

theorem getElem_littleEndian (x : BitVec (8 * n)) (i : Nat) (hi : i < (littleEndian n x).length) :
    (littleEndian n x)[i] = x.extractLsb' (8 * i) 8 := by
  simp [littleEndian]

theorem littleEndian_injective {x y : BitVec (8 * n)} (h : littleEndian n x = littleEndian n y) :
    x = y := by
  refine BitVec.eq_of_getLsbD_eq fun j hj => ?_
  have hi : j / 8 < n := by omega
  have same : x.extractLsb' (8 * (j / 8)) 8 = y.extractLsb' (8 * (j / 8)) 8 := by
    rw [← getElem_littleEndian x _ (by simpa using hi), ← getElem_littleEndian y _ (by simpa using hi)]
    simp only [h]
  have bit := congrArg (fun b => b.getLsbD (j % 8)) same
  simpa [BitVec.getLsbD_extractLsb', Nat.mod_lt, Nat.div_add_mod] using bit

end Bytes
