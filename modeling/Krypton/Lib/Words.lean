import Mathlib.Data.BitVec
import Mathlib.Logic.Function.Basic
import Mathlib.Tactic.SplitIfs

/-!
# Little-endian words in a memory of bytes

`load32` and `store32` at any byte address. A word is a number below `2 ^ 32`; it reads back what was stored, and a
store is seen only through the four bytes it writes.
-/

namespace Krypton

/-- A memory of bytes. -/
abbrev Bytes := Nat → BitVec 8

def load32 (m : Bytes) (a : Nat) : Nat :=
  (m a).toNat + 2 ^ 8 * (m (a + 1)).toNat + 2 ^ 16 * (m (a + 2)).toNat + 2 ^ 24 * (m (a + 3)).toNat

def store32 (m : Bytes) (a v : Nat) : Bytes := fun x =>
  if x = a then BitVec.ofNat 8 v
  else if x = a + 1 then BitVec.ofNat 8 (v / 2 ^ 8)
  else if x = a + 2 then BitVec.ofNat 8 (v / 2 ^ 16)
  else if x = a + 3 then BitVec.ofNat 8 (v / 2 ^ 24)
  else m x

variable {m m' : Bytes} {a b v : Nat}

theorem load32_lt (m : Bytes) (a : Nat) : load32 m a < 2 ^ 32 := by
  have h0 := (m a).isLt
  have h1 := (m (a + 1)).isLt
  have h2 := (m (a + 2)).isLt
  have h3 := (m (a + 3)).isLt
  unfold load32
  omega

theorem load32_congr (h : ∀ x, a ≤ x → x < a + 4 → m' x = m x) : load32 m' a = load32 m a := by
  unfold load32
  rw [h a (by omega) (by omega), h (a + 1) (by omega) (by omega), h (a + 2) (by omega) (by omega),
    h (a + 3) (by omega) (by omega)]

theorem store32_of_ne {x : Nat} (h : x < a ∨ a + 4 ≤ x) : store32 m a v x = m x := by
  unfold store32
  rw [if_neg (by omega), if_neg (by omega), if_neg (by omega), if_neg (by omega)]

theorem load32_store32 (hv : v < 2 ^ 32) : load32 (store32 m a v) a = v := by
  have h1 : a + 1 ≠ a := by omega
  have h2 : a + 2 ≠ a ∧ a + 2 ≠ a + 1 := by omega
  have h3 : a + 3 ≠ a ∧ a + 3 ≠ a + 1 ∧ a + 3 ≠ a + 2 := by omega
  simp only [load32, store32, h1, h2, h3, if_true, if_false, BitVec.toNat_ofNat]
  omega

theorem load32_store32_of_ne (h : b + 4 ≤ a ∨ a + 4 ≤ b) : load32 (store32 m a v) b = load32 m b :=
  load32_congr fun x h1 h2 => store32_of_ne (by omega)

theorem ofNat_load32 (m : Bytes) (a : Nat) {k : Nat} (hk : k < 4) :
    BitVec.ofNat 8 (load32 m a / 2 ^ (8 * k)) = m (a + k) := by
  have h0 := (m a).isLt
  have h1 := (m (a + 1)).isLt
  have h2 := (m (a + 2)).isLt
  have h3 := (m (a + 3)).isLt
  apply BitVec.eq_of_toNat_eq
  rw [BitVec.toNat_ofNat]
  unfold load32
  obtain rfl | rfl | rfl | rfl : k = 0 ∨ k = 1 ∨ k = 2 ∨ k = 3 := by omega
  · show _ = (m a).toNat
    rw [Nat.mul_zero, Nat.pow_zero, Nat.div_one]
    omega
  all_goals omega

theorem store32_eq (m : Bytes) (a v : Nat) : store32 m a v =
    Function.update (Function.update (Function.update (Function.update m a (BitVec.ofNat 8 v))
      (a + 1) (BitVec.ofNat 8 (v / 2 ^ 8))) (a + 2) (BitVec.ofNat 8 (v / 2 ^ 16)))
      (a + 3) (BitVec.ofNat 8 (v / 2 ^ 24)) := by
  funext x
  simp only [store32, Function.update_apply]
  split_ifs <;> first | rfl | omega

end Krypton
