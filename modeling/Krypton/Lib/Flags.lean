import Mathlib.Data.BitVec

/-!
# Flag words

`Has x m` tests the mask `m` in the flag word `x`. Setting and clearing other bits keeps the test,
so a goal about a word built by `|||` and `&&&` reduces to one about the word it was built from;
the side conditions are about the masks only.
-/

namespace Krypton

/-- Some bit of the mask `m` is set in `x`. -/
abbrev Has {w : Nat} (x m : BitVec w) : Prop := x &&& m ≠ 0#w

variable {w : Nat} {x k m : BitVec w}

theorem has_or_keep (h : k &&& m = 0#w) : Has (x ||| k) m ↔ Has x m := by
  rw [Has, BitVec.and_comm, BitVec.and_or_distrib_left, BitVec.and_comm m k, h, BitVec.or_zero,
    BitVec.and_comm]

theorem has_or_set (h : k &&& m ≠ 0#w) : Has (x ||| k) m := by
  intro he
  rw [BitVec.and_comm, BitVec.and_or_distrib_left, BitVec.or_eq_zero_iff] at he
  exact h (BitVec.and_comm m k ▸ he.2)

theorem has_and_keep (h : k &&& m = m) : Has (x &&& k) m ↔ Has x m := by
  rw [Has, BitVec.and_assoc, h]

theorem has_and_drop (h : k &&& m = 0#w) : ¬ Has (x &&& k) m := by
  rw [Has, BitVec.and_assoc, h, BitVec.and_zero]
  simp

end Krypton
