import Mathlib.Data.Nat.Digits.Lemmas

/-!
# Positional numerals

`numeral d b n` writes `n` in base `b`, the most significant digit first, with `d` as its digits; zero is one digit.
`readNumeral` is the value of a string of digits. A numeral reads back as its number, has no leading zero and is as
short as the number allows.
-/

namespace Krypton

variable {α : Type} {d : Nat → α} {val : α → Nat} {b k n : Nat} {s : List α}

def numeral (d : Nat → α) (b n : Nat) : List α := if n = 0 then [d 0] else ((Nat.digits b n).map d).reverse

/-- The value of the digits `s` behind a numeral of value `v`. -/
def readNumeral (val : α → Nat) (b : Nat) : Nat → List α → Nat
  | v, [] => v
  | v, c :: s => readNumeral val b (v * b + val c) s

theorem numeral_zero (d : Nat → α) (b : Nat) : numeral d b 0 = [d 0] := rfl

theorem numeral_pos (d : Nat → α) (hb : 1 < b) (hn : n ≠ 0) :
    numeral d b n = (if n / b = 0 then [] else numeral d b (n / b)) ++ [d (n % b)] := by
  unfold numeral
  rw [if_neg hn, Nat.digits_def' hb (Nat.pos_of_ne_zero hn), List.map_cons, List.reverse_cons]
  by_cases hq : n / b = 0
  · rw [if_pos hq, hq, Nat.digits_zero]
    rfl
  · rw [if_neg hq, if_neg hq]

theorem exists_of_mem_numeral (hb : 1 < b) {c : α} (hc : c ∈ numeral d b n) : ∃ i < b, c = d i := by
  unfold numeral at hc
  split_ifs at hc with hn
  · exact ⟨0, by omega, by simpa using hc⟩
  · rw [List.mem_reverse, List.mem_map] at hc
    obtain ⟨i, hi, rfl⟩ := hc
    exact ⟨i, Nat.digits_lt_base hb hi, rfl⟩

theorem numeral_length_le (d : Nat → α) (hb : 1 < b) (hk : 0 < k) (hn : n < b ^ k) : (numeral d b n).length ≤ k := by
  unfold numeral
  split_ifs
  · exact hk
  · rw [List.length_reverse, List.length_map]
    exact (Nat.digits_length_le_iff hb n).2 hn

/-- The leading digit of a number other than 0 is not the digit 0. -/
theorem numeral_head (d : Nat → α) (hb : 1 < b) (hn : n ≠ 0) : ∃ i s, i ≠ 0 ∧ i < b ∧ numeral d b n = d i :: s := by
  induction n using Nat.strong_induction_on with
  | _ n ih =>
    by_cases hq : n / b = 0
    · have hlt : n < b := (Nat.div_eq_zero_iff_lt (by omega)).1 hq
      refine ⟨n, [], hn, hlt, ?_⟩
      rw [numeral_pos d hb hn, if_pos hq, Nat.mod_eq_of_lt hlt]
      rfl
    · obtain ⟨i, s, hi, hib, hs⟩ := ih (n / b) (Nat.div_lt_self (Nat.pos_of_ne_zero hn) hb) hq
      refine ⟨i, s ++ [d (n % b)], hi, hib, ?_⟩
      rw [numeral_pos d hb hn, if_neg hq, hs]
      rfl

theorem readNumeral_concat (v : Nat) (s : List α) (c : α) :
    readNumeral val b v (s ++ [c]) = readNumeral val b v s * b + val c := by
  induction s generalizing v with
  | nil => rfl
  | cons x s ih => exact ih _

theorem readNumeral_numeral (hb : 1 < b) (hval : ∀ i < b, val (d i) = i) (n : Nat) :
    readNumeral val b 0 (numeral d b n) = n := by
  induction n using Nat.strong_induction_on with
  | _ n ih =>
    by_cases hn : n = 0
    · subst hn
      simp [numeral_zero, readNumeral, hval 0 (by omega)]
    · have hmod : val (d (n % b)) = n % b := hval _ (Nat.mod_lt _ (by omega))
      rw [numeral_pos d hb hn, readNumeral_concat, hmod]
      by_cases hq : n / b = 0
      · rw [if_pos hq]
        have hlt : n < b := (Nat.div_eq_zero_iff_lt (by omega)).1 hq
        simp [readNumeral, Nat.mod_eq_of_lt hlt]
      · rw [if_neg hq, ih (n / b) (Nat.div_lt_self (Nat.pos_of_ne_zero hn) hb)]
        exact Nat.div_add_mod' n b

/-! ### From the other end -/

end Krypton
