import Krypton.HeapRun
import Krypton.KeptFrames
import Krypton.PagedHeap

/-!
# The paged heap shows the flat one

`Holds`: the pages of the heap up to `sh_heap_max` lie on the frames `hs`, owned, no tables and all different, and show
the memory `m`; above them nothing is mapped up to the page stack, and others own the frames `theirs`. From this the
machine shows `m` through `place hs` (`Holds.view`): the first twelve bytes at `NULL`, which `kmalloc` and `kfree` write
through a null pointer, and the heap.
-/

namespace Krypton

/-- Where the bytes of the heap lie: those at `NULL` in place, page `j` on the frame `hs[j]`. -/
def place (hs : List Nat) (v : Nat) : Option Nat :=
  if v < 12 then some v
  else if v < shHeapStart then none
  else (hs[(v - shHeapStart) / 4096]?).map fun f => f + v % 4096

theorem place_null {hs : List Nat} {v : Nat} (hv : v < 12) : place hs v = some v := if_pos hv

theorem place_page {hs : List Nat} {j v : Nat} (hj : j < hs.length) (h1 : shHeapStart + 4096 * j ≤ v)
    (h2 : v < shHeapStart + 4096 * j + 4096) : place hs v = some (hs[j] + v % 4096) := by
  have h4 : shHeapStart = 0xC0400000 := rfl
  have hd : (v - shHeapStart) / 4096 = j := by omega
  unfold place
  rw [if_neg (by omega), if_neg (by omega), hd, List.getElem?_eq_getElem hj, Option.map_some]

theorem place_cases {hs : List Nat} {v p : Nat} (h : place hs v = some p) : v < 12 ∧ p = v ∨
    ∃ j, ∃ hj : j < hs.length, shHeapStart + 4096 * j ≤ v ∧ v < shHeapStart + 4096 * j + 4096 ∧ p = hs[j] + v % 4096 := by
  unfold place at h
  split_ifs at h with h1 h2
  · exact .inl ⟨h1, (Option.some.inj h).symm⟩
  · obtain ⟨f, hf, rfl⟩ := Option.map_eq_some_iff.1 h
    obtain ⟨hj, rfl⟩ := List.getElem?_eq_some_iff.1 hf
    exact .inr ⟨_, hj, by omega, by omega, rfl⟩

namespace PagedHeap
open Mmu Pmm

structure Holds (s : PagedHeap) (g : Frames) (stored backing : List Nat) (A : PageMap) (hs theirs : List Nat)
    (m : Bytes) : Prop extends s.toPmm.Kept g stored backing A where
  top : s.shHeapMax = shHeapStart + 4096 * hs.length
  window : s.shHeapMax ≤ pmStackAddr
  pages : ∀ j (h : j < hs.length), A (shHeapStart / 4096 + j) = some hs[j]
  above : ∀ n, s.shHeapMax / 4096 ≤ n → n < pmStackAddr / 4096 → A n = none
  nodup : (hs ++ theirs).Nodup
  own : ∀ f ∈ hs ++ theirs, f ∈ g.own
  data : ∀ f ∈ hs ++ theirs, s.mmu.FreshPage f
  bytes : ∀ {v p}, place hs v = some p → s.mmu.byte p = m v

namespace Holds
variable {s s' : PagedHeap} {g g' : Frames} {stored backing hs theirs : List Nat} {A : PageMap} {m m' : Bytes}
  {f v p j : Nat} {mmu' : Mmu}

theorem plain (h : s.Holds g stored backing A hs theirs m) (hf : f ∈ hs ++ theirs) : s.Plain g f :=
  ⟨.inl (h.own f hf), h.data f hf⟩

theorem ne_zero (h : s.Holds g stored backing A hs theirs m) (hf : f ∈ hs ++ theirs) : f ≠ 0 := by
  rintro rfl
  exact Nat.not_succ_le_zero _ (h.good 0 (.inl (h.own 0 hf))).1

/-- The slots of the heap. -/
theorem slot (h1 : shHeapStart ≤ v) (h2 : v < pmStackAddr) : Ordinary (pdindex v) ∧ pdindex v ≠ 1020 := by
  have h3 : shHeapStart = 0xC0400000 := rfl
  have h4 : pmStackAddr = 0xFF000000 := rfl
  have h5 : 769 ≤ pdindex v ∧ pdindex v < 1020 := by
    unfold pdindex
    omega
  exact ⟨⟨by omega, by omega, by omega, by omega⟩, by omega⟩

theorem walk_null (h : s.Holds g stored backing A hs theirs m) (hv : v < 12) : s.mmu.walk v = some v := by
  have hpd : pdindex v = pdindex 0 := by
    unfold pdindex
    omega
  have hpt : ptindex v = ptindex 0 := by
    unfold ptindex
    omega
  have hz := h.zero
  unfold Mmu.walk at hz ⊢
  rw [hpd, hpt]
  split_ifs at hz ⊢ with hp
  have hframe := Option.some.inj hz
  rw [Nat.zero_mod] at hframe
  have hmod : v % 4096 = v := Nat.mod_eq_of_lt (by omega)
  rw [hmod, (by omega : Krypton.frame (s.mmu.pte (pdindex 0) (ptindex 0)) = 0), Nat.zero_add]

theorem walk_page (h : s.Holds g stored backing A hs theirs m) (hj : j < hs.length)
    (h1 : shHeapStart + 4096 * j ≤ v) (h2 : v < shHeapStart + 4096 * j + 4096) :
    s.mmu.walk v = some (hs[j] + v % 4096) := by
  have htop := h.top
  have hbelow := h.window
  have h3 : shHeapStart = 0xC0400000 := rfl
  have hd : v / 4096 = shHeapStart / 4096 + j := by omega
  rw [h.maps.walk (slot (by omega) (by omega)).1, PageMap.translate, hd, h.pages j hj, Option.map_some]

theorem frame_page (h : s.Holds g stored backing A hs theirs m) (hj : j < hs.length) :
    Krypton.frame (hs[j] + v % 4096) = hs[j] := by
  have hmem : hs[j] ∈ hs ++ theirs := List.mem_append_left _ (List.getElem_mem hj)
  have hal := (h.data _ hmem).aligned
  unfold Krypton.frame
  omega

theorem walk_above (h : s.Holds g stored backing A hs theirs m) (h1 : s.shHeapMax ≤ v) (h2 : v < pmStackAddr) :
    s.mmu.walk v = none := by
  have htop := h.top
  have h3 : pmStackAddr = 0xFF000000 := rfl
  rw [h.maps.walk (slot (by omega) h2).1, PageMap.translate, h.above _ (by omega) (by omega), Option.map_none]

theorem touched (h : s.Holds g stored backing A hs theirs m) (hf : Touched (place hs) f) : s.Plain g f := by
  obtain ⟨v, p, hv, rfl⟩ := hf
  rcases place_cases hv with ⟨hlt, rfl⟩ | ⟨j, hj, -, -, rfl⟩
  · have h0 : Krypton.frame p = 0 := by
      unfold Krypton.frame
      omega
    rw [h0]
    exact h.plain_zero
  · rw [h.frame_page hj]
    exact h.plain (List.mem_append_left _ (List.getElem_mem hj))

/-- **Distinct addresses lie on distinct bytes.** -/
theorem place_inj (h : s.Holds g stored backing A hs theirs m) {w : Nat} (hv : place hs v = some p)
    (hw : place hs w = some p) : v = w := by
  have hlow : ∀ j, ∀ hj : j < hs.length, hs[j] % 4096 = 0 ∧ hs[j] ≠ 0 := fun j hj => by
    have hmem : hs[j] ∈ hs ++ theirs := List.mem_append_left _ (List.getElem_mem hj)
    exact ⟨(h.data _ hmem).aligned, h.ne_zero hmem⟩
  have h3 : shHeapStart = 0xC0400000 := rfl
  rcases place_cases hv with ⟨hlt, rfl⟩ | ⟨j, hj, h1, h2, rfl⟩
  · rcases place_cases hw with ⟨-, he⟩ | ⟨k, hk, -, -, he⟩
    · exact he
    · have := hlow k hk
      omega
  · rcases place_cases hw with ⟨hlt, he⟩ | ⟨k, hk, h4, h5, he⟩
    · have := hlow j hj
      omega
    · have hj' := hlow j hj
      have hk' := hlow k hk
      have hframe : hs[j] = hs[k] := by omega
      have hjk : j = k := (h.nodup.of_append_left.getElem_inj_iff).1 hframe
      subst hjk
      omega

theorem view (h : s.Holds g stored backing A hs theirs m) : View s.mmu (place hs) m where
  dir := h.self.cr3
  lt {v p} hv := by
    have htop := h.top
    have hbelow := h.window
    have h4 : pmStackAddr = 0xFF000000 := rfl
    rcases place_cases hv with ⟨hlt, -⟩ | ⟨j, hj, -, h2, -⟩
    · omega
    · omega
  walk {v p} hv := by
    rcases place_cases hv with ⟨hlt, rfl⟩ | ⟨j, hj, h1, h2, rfl⟩
    · exact h.walk_null hlt
    · exact h.walk_page hj h1 h2
  byte := h.bytes
  inj := h.place_inj
  data {v p} hv := (h.touched ⟨v, p, hv, rfl⟩).data

/-- Only what is shown counts. -/
theorem congr (h : s.Holds g stored backing A hs theirs m) (hm : ∀ {v p}, place hs v = some p → m' v = m v) :
    s.Holds g stored backing A hs theirs m' :=
  { h with bytes := fun hv => (h.bytes hv).trans (hm hv).symm }

theorem stores (h : s.Holds g stored backing A hs theirs m) (hv : View mmu' (place hs) m')
    (ho : Off (Touched (place hs)) s.mmu mmu') :
    Holds { s with mmu := mmu' } g stored backing A hs theirs m' := by
  have hT : ∀ f, Touched (place hs) f → s.Plain g f := fun f hf => h.touched hf
  exact { toKept := h.toKept.edit ho hT, top := h.top, window := h.window, pages := h.pages, above := h.above,
          nodup := h.nodup, own := h.own,
          data := fun f hf => (h.toKept.edit_plain ho hT (h.plain hf)).data, bytes := hv.byte }

/-- The bytes that lie in the heap. -/
theorem spans (h : s.Holds g stored backing A hs theirs m) {a n : Nat} (h1 : shHeapStart ≤ a)
    (h2 : a + n ≤ s.shHeapMax) : Spans (place hs) a n := by
  intro v h3 h4
  have htop := h.top
  have hj : (v - shHeapStart) / 4096 < hs.length := by omega
  exact ⟨_, place_page hj (by omega) (by omega)⟩

theorem spans_null (hs : List Nat) : Spans (place hs) 0 12 := fun v _ hv => ⟨v, place_null (by omega)⟩

theorem spans_header (h : s.Holds g stored backing A hs theirs m) {a : Nat}
    (ha : a = 0 ∨ shHeapStart ≤ a ∧ a + 12 ≤ s.shHeapMax) : Spans (place hs) a 12 := by
  rcases ha with rfl | ⟨h1, h2⟩
  · exact spans_null hs
  · exact h.spans h1 h2

end Holds
end PagedHeap
end Krypton
