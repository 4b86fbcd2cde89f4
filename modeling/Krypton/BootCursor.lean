import Krypton.Sheet

/-!
# `monitor.c`: the cursor at boot

`update_cursor` writes the low byte of the position to register `0x0F` and the high byte to `0x0E`; `monitor_init`
reads them in this order and takes the first for the high byte.
-/

namespace Krypton
namespace Monitor

variable {m : Monitor} {s s₀ : Sheet} {n : Nat}

/-- `m'` goes on in the row below the cursor of `m`, one line up if that was the last. -/
structure GoesOn (m m' : Monitor) : Prop where
  col : m'.cursorX = 0
  row : m'.cursorY = min (m.cursorY + 1) 24
  screen : ∀ i < 25, ∀ j < 80, m'.videoMemory (80 * i + j) =
    if m.cursorY < 24 then m.videoMemory (80 * i + j)
    else if i < 24 then m.videoMemory (80 * (i + 1) + j)
    else blank

/-! ### What `monitor_init` reads -/

theorem toNat_bytes (h l : Byte) : (h.setWidth 16 <<< 8 ||| l.setWidth 16).toNat = 256 * h.toNat + l.toNat := by
  have hh := h.isLt
  have hl := l.isLt
  rw [BitVec.toNat_or, BitVec.toNat_shiftLeft, BitVec.toNat_setWidth, BitVec.toNat_setWidth, Nat.shiftLeft_eq,
    Nat.mod_eq_of_lt (by omega : h.toNat < 2 ^ 16), Nat.mod_eq_of_lt (by omega : l.toNat < 2 ^ 16),
    Nat.mod_eq_of_lt (by omega : h.toNat * 2 ^ 8 < 2 ^ 16), Nat.mul_comm, ← Nat.two_pow_add_eq_or_of_lt hl]

/-- The row `monitor_init` goes on in if the chip holds position `n`. -/
def bootRow (n : Nat) : Nat := (256 * (n % 256) + n / 256) / 80 + 1

theorem Shows.monitorInit_eq (h : m.Shows s) : m.monitorInit =
    { m with index := 0x0E, cursorX := 0, cursorY := bootRow (80 * m.cursorY + m.cursorX) : Monitor }.scroll := by
  have hy := h.rowLe
  have hx := h.colLt
  have hpos : ((m.crt 0x0F).setWidth 16 <<< 8 ||| (m.crt 0x0E).setWidth 16 : BitVec 16).toNat =
      256 * ((80 * m.cursorY + m.cursorX) % 256) + (80 * m.cursorY + m.cursorX) / 256 := by
    rw [toNat_bytes, h.low, h.high, BitVec.toNat_ofNat, BitVec.toNat_ofNat]
    omega
  unfold bootRow
  rw [← hpos]
  rfl

/-! ### `scroll` -/

theorem scroll_eq (m : Monitor) : m.scroll.cursorX = m.cursorX ∧
    m.scroll.cursorY = (if m.cursorY ≥ 25 then 24 else m.cursorY) ∧
    ∀ i < 25, ∀ j < 80, m.scroll.videoMemory (80 * i + j) =
      if m.cursorY ≥ 25 then if i < 24 then m.videoMemory (80 * (i + 1) + j) else blank
      else m.videoMemory (80 * i + j) := by
  unfold scroll
  split_ifs with h25
  · dsimp only
    rw [moveUp_eq, fill_eq]
    refine ⟨rfl, rfl, fun i hi j hj => ?_⟩
    show (if 80 * 24 ≤ 80 * i + j ∧ 80 * i + j < 80 * 24 + 80 then blank
      else if 80 * i + j < 80 * 24 then m.videoMemory (80 + (80 * i + j)) else m.videoMemory (80 * i + j)) = _
    by_cases hi24 : i < 24
    · have hnext : 80 + (80 * i + j) = 80 * (i + 1) + j := by omega
      rw [if_neg (by omega), if_pos (by omega), if_pos hi24, hnext]
    · rw [if_pos (by omega), if_neg hi24]
  · exact ⟨rfl, rfl, fun _ _ _ _ => rfl⟩

end Monitor

/-! ### The rows below the cursor -/

namespace Sheet
variable {s s₀ : Sheet}

theorem put_row (s : Sheet) (c : Byte) : s.row ≤ (s.put c).row := by
  unfold put wrap putChar
  split_ifs <;> first | exact Nat.le_refl _ | exact Nat.le_succ _ | exact Nat.le_add_right s.row 2

theorem put_cell {i : Nat} (hi : i ≠ s.row) (c : Byte) (j : Nat) : (s.put c).cell i j = s.cell i j := by
  have hstore : ∀ v, (if i = s.row ∧ j = s.col then v else s.cell i j) = s.cell i j := fun v => if_neg fun h => hi h.1
  unfold put wrap putChar
  split_ifs <;> first | rfl | exact hstore _

theorem write_below (cs : List Byte) (h : ∀ i > s.row, ∀ j, s.cell i j = s₀.cell i j) :
    ∀ i > (cs.foldl put s).row, ∀ j, (cs.foldl put s).cell i j = s₀.cell i j := by
  induction cs generalizing s with
  | nil => exact h
  | cons c cs ih =>
    refine ih fun i hi j => ?_
    have hrow := s.put_row c
    rw [put_cell (by omega)]
    exact h i (by omega) j

end Sheet

namespace Monitor
variable {m : Monitor} {s : Sheet}

theorem clear_write_last (m : Monitor) (hm : m.stores = []) (cs : List Byte) {j : Nat} (hj : j < 80)
    (hy : (m.monitorClear.monitorWrite cs).cursorY < 24) :
    (m.monitorClear.monitorWrite cs).videoMemory (1920 + j) = 0 := by
  have hnone : ∀ i ∈ m.stores, i < 2000 := fun i hi => absurd (hm ▸ hi) List.not_mem_nil
  have hf := (clear_follows hnone).write cs
  have hbelow := @Sheet.write_below (.ofMonitor m.monitorClear) _ cs fun _ _ _ => rfl
  have hrow := hf.row
  have htop : (cs.foldl Sheet.put (.ofMonitor m.monitorClear)).top = 0 := by
    unfold Sheet.top at hrow ⊢
    omega
  rw [htop] at hrow
  have hlast := hf.video 24 (by decide) j hj
  rw [htop, hbelow _ (by omega)] at hlast
  have hcell : (Sheet.ofMonitor m.monitorClear).cell (0 + 24) j = 0 := by
    unfold Sheet.ofMonitor monitorClear
    rw [fill_eq]
    obtain ⟨crt, he, -⟩ := updateCursor_eq { m with
      videoMemory := fun j => if 0 ≤ j ∧ j < 0 + 80 * 25 then 0 else m.videoMemory j
      stores := (List.range' 0 (80 * 25)).reverse ++ m.stores
      cursorX := 0
      cursorY := 0 } 0 0
    dsimp only at he ⊢
    rw [he]
    dsimp only
    rw [if_pos (by decide), if_pos (by omega)]
  exact hlast.trans hcell

/-- In front of the last row the swapped position is in the same row only if its bytes are equal. -/
theorem bootRow_eq_iff {y x : Nat} (hy : y < 24) (hx : x < 80) : bootRow (80 * y + x) = y + 1 ↔ 257 ∣ 80 * y + x := by
  unfold bootRow
  constructor
  · intro h
    exact ⟨(80 * y + x) / 256, by omega⟩
  · rintro ⟨k, hk⟩
    have hlow : (80 * y + x) % 256 = k := by omega
    have hhigh : (80 * y + x) / 256 = k := by omega
    rw [hlow, hhigh]
    omega

/-- In the last row the low byte is so large that the swapped position is below the screen. -/
theorem bootRow_last {x : Nat} (hx : x < 80) : bootRow (80 * 24 + x) ≥ 25 := by
  unfold bootRow
  omega

/-- **The boot cursor is read back if its two bytes are equal or it is in the last row.** -/
theorem boot_cursor_iff (video : Nat → BitVec 16) (x y : Nat) (index : Byte) (crt : Byte → Byte) (cs : List Byte) :
    let m := (monitorClear ⟨video, x, y, index, crt, []⟩).monitorWrite cs
    m.GoesOn m.monitorInit ↔ 1920 ≤ 80 * m.cursorY + m.cursorX ∨ 257 ∣ 80 * m.cursorY + m.cursorX := by
  intro m
  have hnone : ∀ i ∈ ([] : List Nat), i < 2000 := fun i hi => absurd hi List.not_mem_nil
  have hshow : m.Shows _ := ((clear_follows (m := ⟨video, x, y, index, crt, []⟩) hnone).write cs).toShows
  have hy := hshow.rowLe
  have hx := hshow.colLt
  obtain ⟨h1, h2, h3⟩ := scroll_eq { m with
    index := 0x0E, cursorX := 0, cursorY := bootRow (80 * m.cursorY + m.cursorX) }
  rw [← hshow.monitorInit_eq] at h1 h2 h3
  dsimp only at h1 h2 h3
  by_cases hlast : m.cursorY = 24
  · have hrow : bootRow (80 * m.cursorY + m.cursorX) ≥ 25 := hlast ▸ bootRow_last hx
    have hpos : 1920 ≤ 80 * m.cursorY + m.cursorX := by omega
    simp only [if_pos hrow] at h2 h3
    refine iff_of_true ⟨h1, by omega, fun i hi j hj => ?_⟩ (.inl hpos)
    rw [h3 i hi j hj, if_neg (by omega : ¬ m.cursorY < 24)]
  · have hy' : m.cursorY < 24 := by omega
    have hpos : ¬ 1920 ≤ 80 * m.cursorY + m.cursorX := by omega
    rw [or_iff_right hpos, ← bootRow_eq_iff hy' hx]
    constructor
    · intro h
      have hvideo := h.screen 24 (by decide) 0 (by decide)
      have hempty := clear_write_last ⟨video, x, y, index, crt, []⟩ rfl cs (by decide : 0 < 80) hy'
      rw [if_pos hy', h3 24 (by decide) 0 (by decide)] at hvideo
      have hrow := h.row
      by_cases hr : bootRow (80 * m.cursorY + m.cursorX) ≥ 25
      · -- a blank line has come up where nothing was written
        rw [if_pos hr, if_neg (by decide)] at hvideo
        exact absurd (hvideo.trans hempty) (by decide)
      · rw [h2, if_neg hr] at hrow
        omega
    · intro hr
      have hno : ¬ bootRow (80 * m.cursorY + m.cursorX) ≥ 25 := by omega
      simp only [if_neg hno] at h2 h3
      refine ⟨h1, by omega, fun i hi j hj => ?_⟩
      rw [h3 i hi j hj, if_pos hy']

/-- One character is written, and the next output is in row 4. -/
theorem boot_cursor_swapped : ¬ ∀ cs : List Byte,
    ((monitorClear ⟨fun _ => 0, 0, 0, 0, fun _ => 0, []⟩).monitorWrite cs).GoesOn
      ((monitorClear ⟨fun _ => 0, 0, 0, 0, fun _ => 0, []⟩).monitorWrite cs).monitorInit := by
  intro h
  have hnone : ∀ i ∈ ([] : List Nat), i < 2000 := fun i hi => absurd hi List.not_mem_nil
  have hshow := ((clear_follows (m := ⟨fun _ => 0, 0, 0, 0, fun _ => 0, []⟩) hnone).write [65]).toShows
  have hrow := (h [65]).row
  generalize (monitorClear ⟨fun _ => 0, 0, 0, 0, fun _ => 0, []⟩).monitorWrite [65] = m at hshow hrow
  have hx : m.cursorX = 1 := hshow.col
  have hy : m.cursorY = 0 := (Nat.zero_add _).symm.trans hshow.row.symm
  rw [hshow.monitorInit_eq, (scroll_eq _).2.1] at hrow
  dsimp only at hrow
  have hfour : bootRow (80 * 0 + 1) = 4 := rfl
  rw [hx, hy, hfour, if_neg (by decide)] at hrow
  cases hrow

end Monitor
end Krypton
