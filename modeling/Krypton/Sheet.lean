import Krypton.Monitor

/-!
# The screen is the end of a sheet

A sheet has 80 columns and rows without end, and its text is written by the rules of `monitor_put` without scrolling.
The screen shows the 25 rows that end with the cursor's, or the first 25 (`Shows`). In the middle of `monitor_put` the
cursor may stand one row below the screen (`Over`); `scroll` brings it back.
-/

namespace Krypton

structure Sheet where
  cell : Nat → Nat → BitVec 16
  row : Nat
  col : Nat

namespace Sheet

def putChar (s : Sheet) (c : Byte) : Sheet :=
  if c = 0x08 ∧ s.col ≠ 0 then { s with col := s.col - 1 }
  else if c = 0x09 then { s with col := (s.col + 8) / 8 * 8 }
  else if c = 13 then { s with col := 0 }
  else if c = 10 then { s with col := 0, row := s.row + 1 }
  else if c.toInt ≥ 32 then { s with
    cell := fun i j => if i = s.row ∧ j = s.col then c.signExtend 16 ||| 0x0700 else s.cell i j
    col := s.col + 1 }
  else s

def wrap (s : Sheet) : Sheet := if s.col ≥ 80 then { s with col := 0, row := s.row + 1 } else s

def put (s : Sheet) (c : Byte) : Sheet := (s.putChar c).wrap

/-- The screen, and blank rows below it. -/
def ofMonitor (m : Monitor) : Sheet where
  cell i j := if i < 25 then m.videoMemory (80 * i + j) else blank
  row := m.cursorY
  col := m.cursorX

/-- The sheet row at the top of the screen. -/
def top (s : Sheet) : Nat := s.row - 24

end Sheet

namespace Monitor

/-- Video memory is rows `Y0` to `Y0 + 24` of the sheet, the cursors agree, and the chip has the cursor. -/
structure Shows (m : Monitor) (s : Sheet) : Prop where
  video : ∀ i < 25, ∀ j < 80, m.videoMemory (80 * i + j) = s.cell (s.top + i) j
  row : s.row = s.top + m.cursorY
  rowLe : m.cursorY ≤ 24
  col : m.cursorX = s.col
  colLt : m.cursorX < 80
  stores : ∀ i ∈ m.stores, i < 2000
  low : m.crt 0x0F = BitVec.ofNat 8 (80 * m.cursorY + m.cursorX)
  high : m.crt 0x0E = BitVec.ofNat 8 ((80 * m.cursorY + m.cursorX) / 256)

/-- The screen shows the rows from `y` on; the cursor may be below it. -/
structure Over (y : Nat) (m : Monitor) (s : Sheet) : Prop where
  video : ∀ i < 25, ∀ j < 80, m.videoMemory (80 * i + j) = s.cell (y + i) j
  below : ∀ i ≥ y + 25, ∀ j, s.cell i j = blank
  row : s.row = y + m.cursorY
  last : y = 0 ∨ 24 ≤ m.cursorY
  col : m.cursorX = s.col
  stores : ∀ i ∈ m.stores, i < 2000

variable {m : Monitor} {s : Sheet} {c : Byte} {y : Nat}

/-! ### The loops -/

theorem moveUp_succ (m : Monitor) (n : Nat) :
    m.moveUp (n + 1) = (m.moveUp n).store n ((m.moveUp n).videoMemory (80 + n)) := by
  unfold moveUp
  rw [List.range_succ, List.foldl_append]
  rfl

theorem moveUp_eq (m : Monitor) (n : Nat) : m.moveUp n = { m with
    videoMemory := fun j => if j < n then m.videoMemory (80 + j) else m.videoMemory j
    stores := (List.range n).reverse ++ m.stores } := by
  induction n with
  | zero => rfl
  | succ n ih =>
    rw [moveUp_succ, ih]
    unfold store
    dsimp only
    rw [if_neg (by omega), List.range_succ, List.reverse_append]
    congr 1
    funext j
    split_ifs with h1 h2 h3 h4
    · rw [h1]
    · omega
    · rfl
    · omega
    · omega
    · rfl

theorem fill_eq (m : Monitor) (i n : Nat) (v : BitVec 16) : m.fill i n v = { m with
    videoMemory := fun j => if i ≤ j ∧ j < i + n then v else m.videoMemory j
    stores := (List.range' i n).reverse ++ m.stores } := by
  induction n with
  | zero =>
    have hnone : ∀ j, ¬ (i ≤ j ∧ j < i + 0) := by omega
    simp only [hnone, if_false]
    rfl
  | succ n ih =>
    have hsucc : m.fill i (n + 1) v = (m.fill i n v).store (i + n) v := by
      unfold fill
      rw [List.range'_1_concat, List.foldl_append]
      rfl
    rw [hsucc, ih]
    unfold store
    dsimp only
    rw [List.range'_1_concat, List.reverse_append]
    congr 1
    funext j
    split_ifs <;> first | rfl | omega

theorem moveUp_stores {n : Nat} (h : ∀ k ∈ m.stores, k < 2000) (hn : n ≤ 2000) : ∀ k ∈ (m.moveUp n).stores, k < 2000 := by
  rw [moveUp_eq]
  intro k hk
  rcases List.mem_append.1 hk with hk | hk
  · rw [List.mem_reverse, List.mem_range] at hk
    omega
  · exact h k hk

theorem fill_stores {i n : Nat} {v : BitVec 16} (h : ∀ k ∈ m.stores, k < 2000) (hn : i + n ≤ 2000) :
    ∀ k ∈ (m.fill i n v).stores, k < 2000 := by
  rw [fill_eq]
  intro k hk
  rcases List.mem_append.1 hk with hk | hk
  · rw [List.mem_reverse, List.mem_range'_1] at hk
    omega
  · exact h k hk

/-! ### The cursor -/

theorem updateCursor_eq (m : Monitor) (row col : Nat) :
    ∃ crt, m.updateCursor row col = { m with index := 0x0E, crt := crt } ∧
      crt 0x0F = BitVec.ofNat 8 (row * 80 + col) ∧ crt 0x0E = (BitVec.ofNat 16 (row * 80 + col) >>> 8).setWidth 8 := by
  refine ⟨_, rfl, ?_, ?_⟩
  · simp [outb]
  · simp [outb]

theorem high_byte {n : Nat} (h : n < 2 ^ 16) : (BitVec.ofNat 16 n >>> 8).setWidth 8 = BitVec.ofNat 8 (n / 256) := by
  refine BitVec.eq_of_toNat_eq ?_
  rw [BitVec.toNat_setWidth, BitVec.toNat_ushiftRight, BitVec.toNat_ofNat, BitVec.toNat_ofNat, Nat.shiftRight_eq_div_pow,
    Nat.mod_eq_of_lt h]

/-! ### One character -/

/-- The screen and the rows below it, between two characters. -/
structure Follows (m : Monitor) (s : Sheet) : Prop extends m.Shows s where
  below : ∀ i ≥ s.top + 25, ∀ j, s.cell i j = blank

theorem Follows.over (h : m.Follows s) : Over s.top m s where
  video := h.video
  below := h.below
  row := h.row
  last := by
    have hrow := h.row
    unfold Sheet.top at *
    omega
  col := h.col
  stores := h.stores

theorem Over.cursor (h : Over y m s) (hy : y = 0 ∨ 24 ≤ m.cursorY) {x : Nat} :
    Over y { m with cursorX := x } { s with col := x } :=
  { h with last := hy, col := rfl }

theorem Over.store (h : Over y m s) (hy : m.cursorY ≤ 24) (hx : m.cursorX < 80) (v : BitVec 16) :
    Over y (m.store (m.cursorX + 80 * m.cursorY) v)
      { s with cell := fun i j => if i = s.row ∧ j = s.col then v else s.cell i j } where
  video i hi j hj := by
    have hrow := h.row
    have hcol := h.col
    show (if 80 * i + j = m.cursorX + 80 * m.cursorY then v else m.videoMemory (80 * i + j)) =
      if y + i = s.row ∧ j = s.col then v else s.cell (y + i) j
    rw [h.video i hi j hj]
    exact if_congr (by omega) rfl rfl
  below i hi j := by
    have hrow := h.row
    show (if i = s.row ∧ j = s.col then v else s.cell i j) = blank
    rw [if_neg (by omega), h.below i hi j]
  row := h.row
  last := h.last
  col := h.col
  stores := List.forall_mem_cons.2 ⟨by omega, h.stores⟩

/-- The rules for the character are the same, and leave the cursor at most at the end of its row or below it. -/
theorem Over.putChar (h : Over y m s) (hy : m.cursorY ≤ 24) (hx : m.cursorX < 80) (c : Byte) :
    Over y (m.putChar c) (s.putChar c) ∧
      ((m.putChar c).cursorY ≤ 24 ∧ (m.putChar c).cursorX ≤ 80 ∨
        (m.putChar c).cursorY ≤ 25 ∧ (m.putChar c).cursorX = 0) := by
  have hcol := h.col
  unfold Monitor.putChar Sheet.putChar
  rw [← hcol]
  split_ifs
  · exact ⟨h.cursor h.last, .inl ⟨hy, by dsimp only; omega⟩⟩
  · exact ⟨h.cursor h.last, .inl ⟨hy, by dsimp only; omega⟩⟩
  · exact ⟨h.cursor h.last, .inl ⟨hy, Nat.zero_le _⟩⟩
  · -- a new row
    have hrow := h.row
    have hlast := h.last
    refine ⟨{ h with row := ?_, last := ?_, col := rfl }, .inr ⟨Nat.succ_le_succ hy, rfl⟩⟩
    · dsimp only
      omega
    · dsimp only
      omega
  · have hstore := h.store hy hx (c.signExtend 16 ||| 0x0700)
    rw [← hcol] at hstore
    exact ⟨hstore.cursor h.last, .inl ⟨hy, hx⟩⟩
  · exact ⟨h, .inl ⟨hy, Nat.le_of_lt hx⟩⟩

/-- Wrapping, too. -/
theorem Over.wrap (h : Over y m s)
    (hc : m.cursorY ≤ 24 ∧ m.cursorX ≤ 80 ∨ m.cursorY ≤ 25 ∧ m.cursorX = 0) :
    ∃ m', (if m.cursorX ≥ 80 then { m with cursorX := 0, cursorY := m.cursorY + 1 } else m : Monitor) = m' ∧
      Over y m' s.wrap ∧ m'.cursorY ≤ 25 ∧ m'.cursorX < 80 := by
  have hrow := h.row
  have hcol := h.col
  have hlast := h.last
  refine ⟨_, rfl, ?_⟩
  unfold Sheet.wrap
  rw [← hcol]
  split_ifs with h80
  · refine ⟨{ h with row := ?_, last := ?_, col := rfl }, ?_, ?_⟩
    all_goals dsimp only; omega
  · exact ⟨h, by omega, by omega⟩

/-- `scroll` moves the screen one row down the sheet if the cursor has left it. -/
theorem Over.scroll (h : Over y m s) (hy : m.cursorY ≤ 25) (hx : m.cursorX < 80) : m.scroll.Follows s := by
  have hrow := h.row
  have hlast := h.last
  obtain ⟨m₁, hm₁, h₁⟩ : ∃ m₁, m.scroll = m₁.updateCursor m₁.cursorY m₁.cursorX ∧
      Over s.top m₁ s ∧ m₁.cursorY ≤ 24 ∧ m₁.cursorX < 80 := by
    unfold Monitor.scroll
    by_cases h25 : m.cursorY ≥ 25
    · have htop : s.top = y + 1 := by
        unfold Sheet.top
        omega
      have hstores := fill_stores (v := blank) (moveUp_stores (n := 80 * 24) h.stores (by decide))
        (by decide : 80 * 24 + 80 ≤ 2000)
      rw [if_pos h25]
      dsimp only
      rw [moveUp_eq, fill_eq] at hstores ⊢
      rw [htop]
      refine ⟨_, rfl, ⟨fun i hi j hj => ?_, fun i hi j => h.below i (by omega) j, ?_, .inr (Nat.le_refl _), h.col,
        hstores⟩, Nat.le_refl _, hx⟩
      · dsimp only
        by_cases hi24 : i < 24
        · have hnext : 80 + (80 * i + j) = 80 * (i + 1) + j := by omega
          rw [if_neg (by omega), if_pos (by omega), hnext, h.video (i + 1) (by omega) j hj, Nat.add_assoc, Nat.add_comm 1 i]
        · rw [if_pos (by omega), h.below (y + 1 + i) (by omega)]
      · dsimp only
        omega
    · have htop : s.top = y := by
        unfold Sheet.top
        omega
      rw [if_neg h25, htop]
      exact ⟨m, rfl, h, by omega, hx⟩
  obtain ⟨ho, hy₁, hx₁⟩ := h₁
  obtain ⟨crt, he, hl, hh⟩ := updateCursor_eq m₁ m₁.cursorY m₁.cursorX
  have hpos : m₁.cursorY * 80 + m₁.cursorX = 80 * m₁.cursorY + m₁.cursorX := by omega
  rw [hpos] at hl hh
  rw [hm₁, he]
  exact { video := ho.video, row := ho.row, rowLe := hy₁, col := ho.col, colLt := hx₁, stores := ho.stores, low := hl,
          high := hh.trans (high_byte (by omega)), below := ho.below }

theorem Follows.updateCursor (h : m.Follows s) : (m.updateCursor m.cursorY m.cursorX).Follows s := by
  obtain ⟨crt, he, hl, hh⟩ := updateCursor_eq m m.cursorY m.cursorX
  have hpos : m.cursorY * 80 + m.cursorX = 80 * m.cursorY + m.cursorX := by omega
  have hy := h.rowLe
  have hx := h.colLt
  rw [hpos] at hl hh
  rw [he]
  exact { h with low := hl, high := hh.trans (high_byte (by omega)) }

/-- One character. -/
theorem Follows.put (h : m.Follows s) (c : Byte) : (m.monitorPut c).Follows (s.put c) := by
  obtain ⟨ho, hc⟩ := h.over.putChar h.rowLe h.colLt c
  obtain ⟨m', hm', how, hy, hx⟩ := ho.wrap hc
  unfold monitorPut Sheet.put
  dsimp only
  rw [hm']
  exact (how.scroll hy hx).updateCursor

/-- A string. -/
theorem Follows.write (h : m.Follows s) (cs : List Byte) : (m.monitorWrite cs).Follows (cs.foldl Sheet.put s) := by
  induction cs generalizing m s with
  | nil => exact h
  | cons c cs ih => exact ih (h.put c)

/-! ### The start -/

theorem over_ofMonitor (m : Monitor) (hs : ∀ i ∈ m.stores, i < 2000) : Over 0 m (.ofMonitor m) where
  video i hi j _ := by
    unfold Sheet.ofMonitor
    dsimp only
    rw [Nat.zero_add, if_pos hi]
  below i hi j := if_neg (by omega)
  row := (Nat.zero_add _).symm
  last := .inl rfl
  col := rfl
  stores := hs

theorem follows_ofMonitor (hy : m.cursorY ≤ 24) (hx : m.cursorX < 80) (hs : ∀ i ∈ m.stores, i < 2000) :
    (m.updateCursor m.cursorY m.cursorX).Follows (.ofMonitor (m.updateCursor m.cursorY m.cursorX)) := by
  have hscroll : m.scroll = m.updateCursor m.cursorY m.cursorX := by
    unfold Monitor.scroll
    rw [if_neg (by omega)]
  have hsame : Sheet.ofMonitor (m.updateCursor m.cursorY m.cursorX) = .ofMonitor m := rfl
  rw [hsame, ← hscroll]
  exact (over_ofMonitor m hs).scroll (by omega) hx

theorem clear_follows (h : ∀ i ∈ m.stores, i < 2000) : m.monitorClear.Follows (.ofMonitor m.monitorClear) := by
  have hs := fill_stores (v := 0) h (by decide : 0 + 80 * 25 ≤ 2000)
  unfold monitorClear
  generalize m.fill 0 (80 * 25) 0 = m₁ at hs ⊢
  exact follows_ofMonitor (m := { m₁ with cursorX := 0, cursorY := 0 }) (Nat.zero_le _) (Nat.succ_pos 79) hs

theorem scroll_follows (hx : m.cursorX < 80) (h : ∀ i ∈ m.stores, i < 2000) : m.scroll.Follows (.ofMonitor m.scroll) := by
  have hs := fill_stores (v := blank) (moveUp_stores (n := 80 * 24) h (by decide)) (by decide : 80 * 24 + 80 ≤ 2000)
  have hcol : ((m.moveUp (80 * 24)).fill (80 * 24) 80 blank).cursorX = m.cursorX := by rw [moveUp_eq, fill_eq]
  unfold Monitor.scroll
  dsimp only
  generalize (m.moveUp (80 * 24)).fill (80 * 24) 80 blank = m₁ at hs hcol ⊢
  split_ifs with h25
  · exact follows_ofMonitor (m := { m₁ with cursorY := 24 }) (Nat.le_refl _) (hcol ▸ hx) hs
  · exact follows_ofMonitor (Nat.lt_succ_iff.1 (Nat.not_le.1 h25)) hx h

theorem init_follows (h : ∀ i ∈ m.stores, i < 2000) : m.monitorInit.Follows (.ofMonitor m.monitorInit) := by
  unfold monitorInit
  exact scroll_follows (Nat.succ_pos 79) h

/-- **The screen refines the sheet.** From `monitor_clear` and from `monitor_init`, whatever video memory and the
registers of the chip held, and for every string, the screen shows the end of the sheet. -/
theorem screen_shows_sheet (video : Nat → BitVec 16) (x y : Nat) (index : Byte) (crt : Byte → Byte) (cs : List Byte) :
    let m : Monitor := ⟨video, x, y, index, crt, []⟩
    (m.monitorClear.monitorWrite cs).Shows (cs.foldl Sheet.put (.ofMonitor m.monitorClear)) ∧
      (m.monitorInit.monitorWrite cs).Shows (cs.foldl Sheet.put (.ofMonitor m.monitorInit)) := by
  intro m
  have hnone : ∀ i ∈ m.stores, i < 2000 := fun i hi => absurd hi List.not_mem_nil
  exact ⟨((clear_follows hnone).write cs).toShows, ((init_follows hnone).write cs).toShows⟩

end Monitor
end Krypton
