import Krypton.PagedHeapLinks

/-!
# Sizes that do not fit in a word

`kmalloc` adds the header to a 32-bit size, `alloc_chunk` adds the start of the chunk, and the length is stored in 31
bits. `Sized` is what a caller may expect of any size, sums taken in full; a page fault, which ends in `panic`, hands out
no block.
-/

namespace Krypton
open Tiling

theorem Heap.WellFormed.lt_word {s : Heap} {n : Nat} {u : Bool} {xs ys : List Chunk}
    (hr : s.WellFormed (xs ++ ⟨n, u⟩ :: ys)) :
    shHeapStart + size xs + n ≤ s.shHeapMax ∧ shHeapStart + size xs + n < 2 ^ 32 := by
  have hmax := hr.le_max
  have hword := hr.word
  rw [size_append, size_cons] at hmax
  dsimp only at hmax
  omega

theorem Heap.kmalloc_fits {s : Heap} {l n fuel : Nat} {xs ys : List Chunk} (hr : s.WellFormed (xs ++ ⟨n, false⟩ :: ys))
    (hx : ∀ c ∈ xs, ¬ Fits (l + 12) c) (hl : l + 12 ≤ n) (hf : 2 ^ 27 ≤ fuel) (fresh : Bytes) :
    ∃ t, kmalloc fuel fresh s l = some (shHeapStart + size xs + 12, t) ∧ t.shHeapMax = s.shHeapMax ∧
      l + 12 ≤ t.mem.length (shHeapStart + size xs) ∧ t.mem.length (shHeapStart + size xs) ≤ n := by
  have h4 : shHeapStart = 0xC0400000 := rfl
  have h5 : sizeofHeapHeader = 12 := rfl
  obtain ⟨h1, h2, h3⟩ := hr.toTiled.bounds
  have hlt := hr.lt_word
  have hw : add32 l sizeofHeapHeader = l + 12 := Nat.mod_eq_of_lt (by omega)
  have hp : add32 (shHeapStart + size xs) sizeofHeapHeader = shHeapStart + size xs + 12 := Nat.mod_eq_of_lt (by omega)
  have hfound := kmalloc_found hr.toTiled hw hx hl hf fresh
  rw [hp] at hfound
  refine ⟨_, hfound, rfl, ?_⟩
  by_cases hn : n ≤ l + 12 + 12
  · have hwhole := kmalloc_whole hr.toTiled hw hx hl hn hf fresh
    rw [hp] at hwhole
    rw [(Prod.mk.inj (Option.some.inj (hfound.symm.trans hwhole))).2]
    have hlen : Bytes.length (s.mem.setAllocated (shHeapStart + size xs) 1) (shHeapStart + size xs) = n :=
      (hr.toTiled.mark true).seg.middle.2.1.length
    exact ⟨hl.trans (Nat.le_of_eq hlen.symm), Nat.le_of_eq hlen⟩
  · obtain ⟨t, e, ht, -, -, hc, -⟩ := kmalloc_split hr.toTiled hw hx (by omega) hf fresh
    rw [hp] at ht
    rw [(Prod.mk.inj (Option.some.inj (hfound.symm.trans ht))).2]
    have hlen : t.mem.length (shHeapStart + size xs) = l + 12 := hc.length
    exact ⟨Nat.le_of_eq hlen.symm, hlen.trans_le hl⟩

namespace PagedHeap
variable {s : PagedHeap} {t : Heap} {theirs : List Nat} {cs xs ys : List Chunk} {a e h l n p w fuel : Nat}

/-- `kmalloc (l)` ends with `r`: no block, or one whose length, with the header, holds `l` and whose end does not pass
the last address; no block for a size whose sum with the header or with the chunk's start passes its field; and the
loops end. -/
structure Sized (l : Nat) (r : Except Stop Nat × PagedHeap × List Nat) : Prop where
  ends : r.1 ≠ .error .unfinished
  block : ∀ p, r.1 = .ok p → p = 0 ∨ ∃ h len, p = h + 12 ∧ r.2.1.mmu.length h = some len ∧ l + 12 ≤ len ∧
    h + len ≤ 2 ^ 32
  refused : ∀ p, r.1 = .ok p → 2 ^ 31 ≤ l + 12 ∨ 2 ^ 32 ≤ p - 12 + (l + 12) → p = 0

theorem Models.length (h : s.Models t theirs) {c : Nat} (h1 : shHeapStart ≤ c) (h2 : c + 12 ≤ t.shHeapMax) :
    s.mmu.length c = some (t.mem.length c) := by
  obtain ⟨g, stored, backing, A, hs, hh, -, hmax⟩ := h
  exact hh.view.length (hh.spans_header (.inr ⟨h1, by omega⟩))

theorem Sized.of_block {r : Except Stop Nat × PagedHeap × List Nat} {len : Nat} (hr : r.1 = .ok (h + 12))
    (hlen : r.2.1.mmu.length h = some len) (h1 : l + 12 ≤ len) (h2 : len < 2 ^ 31) (h3 : h + len < 2 ^ 32) :
    Sized l r := by
  refine ⟨?_, fun p hp => ?_, fun p hp hover => ?_⟩
  · rw [hr]
    rintro ⟨⟩
  · obtain rfl : h + 12 = p := Except.ok.inj (hr.symm.trans hp)
    exact .inr ⟨h, len, rfl, hlen, h1, by omega⟩
  · obtain rfl : h + 12 = p := Except.ok.inj (hr.symm.trans hp)
    omega

/-! ### A chunk that is found -/

theorem Models.found_sized (h : s.Models t theirs) (hr : t.WellFormed cs) (hfit : ∃ c ∈ cs, Heap.Fits (l + 12) c)
    (hf : 2 ^ 27 ≤ fuel) : Sized l (PagedHeap.kmalloc fuel l s) := by
  obtain ⟨xs, n, ys, rfl, hl, hx⟩ := (Heap.fits_cases (l + 12) cs).resolve_left fun hno => by
    obtain ⟨c, hc, hcf⟩ := hfit
    exact hno c hc hcf
  have h4 : shHeapStart = 0xC0400000 := rfl
  have h5 : sizeofHeapHeader = 12 := rfl
  obtain ⟨h1, h2, h3⟩ := hr.toTiled.bounds
  have hmax := hr.lt_word
  have hw : add32 l sizeofHeapHeader = l + 12 := Nat.mod_eq_of_lt (by omega)
  have hp : add32 (shHeapStart + size xs) sizeofHeapHeader = shHeapStart + size xs + 12 := Nat.mod_eq_of_lt (by omega)
  obtain ⟨s', hk, hm, -⟩ := h.kmalloc_found hr hw hx hl hf fun _ => 0
  obtain ⟨-, -, -, hval⟩ := Heap.kmallocN_found hr.toTiled hw hx hl hf fun _ => 0
  obtain ⟨t', ht', htmax, hlo, hhi⟩ := Heap.kmalloc_fits hr hx hl hf fun _ => 0
  rw [hp] at hk hval
  have hstate := (Heap.block_eq_some hval).symm.trans ((Heap.kmallocN_eq _).trans ht')
  rw [(Prod.mk.inj (Option.some.inj hstate)).2] at hm
  rw [hk]
  exact .of_block rfl (hm.length (Nat.le_add_right _ _) (by omega)) hlo (by omega) (by omega)

/-- A chunk that is found but does not fit was looked for by a sum that has lost bits. -/
theorem Models.found_unsized (h : s.Models t theirs) (hr : t.WellFormed (xs ++ ⟨n, false⟩ :: ys)) (hlt : l < 2 ^ 32)
    (hw : add32 l sizeofHeapHeader = w) (hx : ∀ c ∈ xs, ¬ Heap.Fits w c) (hn : w ≤ n)
    (hno : ¬ Heap.Fits (l + 12) ⟨n, false⟩) (hf : 2 ^ 27 ≤ fuel) : ¬ Sized l (PagedHeap.kmalloc fuel l s) := by
  intro hsized
  have h4 : shHeapStart = 0xC0400000 := rfl
  have h5 : sizeofHeapHeader = 12 := rfl
  obtain ⟨h1, h2, h3⟩ := hr.toTiled.bounds
  have hmax := hr.lt_word
  have hp : add32 (shHeapStart + size xs) sizeofHeapHeader = shHeapStart + size xs + 12 := Nat.mod_eq_of_lt (by omega)
  obtain ⟨s', hk, -⟩ := h.kmalloc_found hr hw hx hn hf fun _ => 0
  rw [hp] at hk
  have hrefused := hsized.refused (shHeapStart + size xs + 12) (by rw [hk])
  have hsum : l + 12 < 2 ^ 31 := by omega
  have hwl : w = l + 12 := hw.symm.trans (Nat.mod_eq_of_lt (by omega))
  exact hno ⟨rfl, hwl ▸ hn⟩

/-! ### A new chunk -/

theorem Models.max_eq (h : s.Models t theirs) : s.shHeapMax = t.shHeapMax := by
  obtain ⟨_, _, _, _, _, _, _, hmax⟩ := h
  exact hmax

theorem Models.grow_sized (h : s.Models t theirs) (hr : t.WellFormed cs) (hx : ∀ c ∈ cs, ¬ Heap.Fits (l + 12) c)
    (ha : shHeapStart + size cs = a) (hend : a + (l + 12) ≤ pmStackAddr)
    (hroom : s.pmLastPage + 0x2000 * ((a + (l + 12) + 4095 - s.shHeapMax) / 4096) < 2 ^ 32) (hf : 2 ^ 27 ≤ fuel) :
    Sized l (PagedHeap.kmalloc fuel l s) := by
  have h3 : pmStackAddr = 0xFF000000 := rfl
  have h4 : shHeapStart = 0xC0400000 := rfl
  have h5 : sizeofHeapHeader = 12 := rfl
  have hw : add32 l sizeofHeapHeader = l + 12 := Nat.mod_eq_of_lt (by omega)
  have he : add32 a (l + 12) = a + (l + 12) := Nat.mod_eq_of_lt (by omega)
  have hp : add32 a sizeofHeapHeader = a + 12 := Nat.mod_eq_of_lt (by omega)
  rw [h.max_eq] at hroom
  obtain ⟨fresh, s', hk, hm, hval, -⟩ := h.kmalloc_grow hr hw hx ha he hend hroom (by rw [Heap.pageUp]; omega) hf
  obtain ⟨t', ht', hr', -⟩ := Heap.kmalloc_grow_spec hr hx (by rw [Heap.pageUp, ha]; omega) hf fresh
  rw [hp] at hk hval
  rw [ha] at ht'
  have hstate := (Heap.block_eq_some hval).symm.trans ((Heap.kmallocN_eq _).trans ht')
  rw [(Prod.mk.inj (Option.some.inj hstate)).2] at hm
  have hlen : t'.mem.length a = l + 12 := ha ▸ hr'.seg.middle.2.1.length
  have hmax := hr'.le_max
  rw [size_append, size_cons] at hmax
  dsimp only at hmax
  rw [hk]
  exact .of_block rfl (hm.length (by omega) (by omega)) (Nat.le_of_eq hlen.symm) (by omega) (by omega)

theorem Models.grow_unsized (h : s.Models t theirs) (hr : t.WellFormed cs)
    (hw : add32 l sizeofHeapHeader = w) (hx : ∀ c ∈ cs, ¬ Heap.Fits w c) (ha : shHeapStart + size cs = a)
    (hbig : 2 ^ 32 ≤ a + (l + 12)) (hover : ¬ s.Overruns a w) (hend : a + 12 ≤ max s.shHeapMax (Heap.pageUp (add32 a w)))
    (hf : 2 ^ 27 ≤ fuel) : ¬ Sized l (PagedHeap.kmalloc fuel l s) := by
  intro hsized
  have h5 : sizeofHeapHeader = 12 := rfl
  have h3 : pmStackAddr = 0xFF000000 := rfl
  obtain ⟨h1, h2⟩ := not_or.1 hover
  obtain ⟨h2, h6⟩ := not_or.1 h2
  have hp : add32 a sizeofHeapHeader = a + 12 := Nat.mod_eq_of_lt (by omega)
  rw [h.max_eq] at h6 hend
  obtain ⟨fresh, s', hk, -⟩ := h.kmalloc_grow hr hw hx ha rfl (by omega) (by omega) hend hf
  rw [hp] at hk
  have hrefused := hsized.refused (a + 12) (by rw [hk])
  omega

/-! ### All sizes -/

/-- The sizes that go well: some free chunk holds the full sum, or the new chunk ends below the page stack and there are
frames for it; or the wrapped sum maps no page, so that the store of a header behind the mapped pages faults. -/
def Fitting (s : PagedHeap) (cs : List Chunk) (l : Nat) : Prop :=
  (∃ c ∈ cs, Heap.Fits (l + sizeofHeapHeader) c) ∨
    (shHeapStart + size cs + (l + sizeofHeapHeader) ≤ pmStackAddr ∧
      ¬ s.Overruns (shHeapStart + size cs) (add32 l sizeofHeapHeader)) ∨
    (∀ c ∈ cs, ¬ Heap.Fits (add32 l sizeofHeapHeader) c) ∧
      add32 (shHeapStart + size cs) (add32 l sizeofHeapHeader) ≤ s.shHeapMax ∧
      s.shHeapMax < shHeapStart + size cs + sizeofHeapHeader ∧ shHeapStart + size cs + sizeofHeapHeader ≤ pmStackAddr

theorem Models.sized_of_fitting (h : s.Models t theirs) (hr : t.WellFormed cs) (hfit : s.Fitting cs l)
    (hf : 2 ^ 27 ≤ fuel) : Sized l (PagedHeap.kmalloc fuel l s) := by
  have h3 : pmStackAddr = 0xFF000000 := rfl
  have h4 : shHeapStart = 0xC0400000 := rfl
  have h5 : sizeofHeapHeader = 12 := rfl
  rcases hfit with hfit | ⟨hend, hover⟩ | ⟨hx, hle, hlt, hend⟩
  · exact h.found_sized hr hfit hf
  · by_cases hfit : ∃ c ∈ cs, Heap.Fits (l + 12) c
    · exact h.found_sized hr hfit hf
    · have hw : add32 l sizeofHeapHeader = l + 12 := Nat.mod_eq_of_lt (by omega)
      have he : add32 (shHeapStart + size cs) (l + 12) = shHeapStart + size cs + (l + 12) :=
        Nat.mod_eq_of_lt (by omega)
      rw [hw] at hover
      obtain ⟨-, hover⟩ := not_or.1 hover
      obtain ⟨-, hroom⟩ := not_or.1 hover
      rw [he] at hroom
      exact h.grow_sized hr (fun c hc hcf => hfit ⟨c, hc, hcf⟩) rfl hend (by omega) hf
  · rw [h.max_eq] at hle hlt
    obtain ⟨s', ns, hk, -⟩ := h.kmalloc_faults hr rfl hx rfl hle hlt hend hf
    rw [hk]
    refine ⟨?_, ?_, ?_⟩
    · rintro ⟨⟩
    · rintro _ ⟨⟩
    · rintro _ ⟨⟩

/-- **Sizes are added without loss** where they fit, and in no other call; but for those whose pages overrun the heap.
A wrapped sum finds a chunk that is too short, or puts one behind the heap whose length or end has lost bits. -/
theorem kmalloc_sized_iff (h : s.Models t theirs) (hr : t.WellFormed cs) (hl : l < 2 ^ 32) (hf : 2 ^ 27 ≤ fuel) :
    (s.Fitting cs l → Sized l (kmalloc fuel l s)) ∧
      (Sized l (kmalloc fuel l s) → s.Fitting cs l ∨ (∀ c ∈ cs, ¬ Heap.Fits (add32 l sizeofHeapHeader) c) ∧
        s.Overruns (shHeapStart + size cs) (add32 l sizeofHeapHeader)) := by
  refine ⟨fun hfit => h.sized_of_fitting hr hfit hf, fun hsized => ?_⟩
  have h3 : pmStackAddr = 0xFF000000 := rfl
  have h5 : sizeofHeapHeader = 12 := rfl
  have hmax := h.max_eq
  have hle := hr.le_max
  have htop : t.shHeapMax = (shHeapStart + size cs + 4095) / 4096 * 4096 := hr.top
  obtain ⟨a, ha⟩ : ∃ a, shHeapStart + size cs = a := ⟨_, rfl⟩
  obtain ⟨w, hw⟩ : ∃ w, add32 l sizeofHeapHeader = w := ⟨_, rfl⟩
  obtain ⟨e, he⟩ : ∃ e, add32 a w = e := ⟨_, rfl⟩
  have hw' : (l + 12) % 2 ^ 32 = w := hw
  have he' : (a + w) % 2 ^ 32 = e := he
  unfold Fitting
  rw [ha] at hle htop ⊢
  rw [hw]
  rcases Heap.fits_cases w cs with hx | ⟨xs, n, ys, rfl, hn, hx⟩
  · by_contra hno
    obtain ⟨hfit, hover⟩ := not_or.1 hno
    have hover : ¬ s.Overruns a w := fun ho => hover ⟨hx, ho⟩
    obtain ⟨-, hno⟩ := not_or.1 hfit
    obtain ⟨hbelow, hfault⟩ := not_or.1 hno
    obtain ⟨h1, h2⟩ := not_or.1 hover
    obtain ⟨h2, -⟩ := not_or.1 h2
    rw [he] at h1
    have hend : ¬ a + (l + 12) ≤ pmStackAddr := fun hend => hbelow ⟨hend, hover⟩
    have hheader : ¬ (e ≤ s.shHeapMax ∧ s.shHeapMax < a + 12) := fun hx' =>
      hfault ⟨hx, he.trans_le hx'.1, hx'.2, Nat.le_of_not_lt h2⟩
    refine h.grow_unsized hr hw hx ha (by omega) hover ?_ hf hsized
    -- the header lies in the last page, or the sum reaches the next one
    rw [he, Heap.pageUp]
    omega
  · by_cases hcf : Heap.Fits (l + 12) ⟨n, false⟩
    · exact .inl (.inl ⟨_, by simp, hcf⟩)
    · exact absurd hsized (h.found_unsized hr hl hw hx hn hcf hf)

/-- Behind two blocks of which the first was freed: 90 bytes fit, and the sum of the largest size finds the same chunk. -/
theorem kmalloc_sized_iff_freedFirst : ∃ n p s,
    Pmm.bootImage.mmInit (Pmm.oneEntry 0x300000 0x2000) 64512 0x9000 24 n = some p ∧
    exec (PagedRun.step (2 ^ 27)) (PagedRun.boot p) PagedRun.freedFirst = some s ∧
    Sized 90 (kmalloc (2 ^ 27) 90 s.heap) ∧ ¬ Sized (2 ^ 32 - 1) (kmalloc (2 ^ 27) (2 ^ 32 - 1) s.heap) := by
  obtain ⟨-, -, n, p, hp, hlast, mem, hm⟩ := bootImage_models
  obtain ⟨s, t, hs, -, hmodels, hr, -⟩ := PagedRun.exec_freedFirst hm (by omega)
  have hr := hr.wellFormed
  refine ⟨n, p, s, hp, hs, ?_, fun hsized => ?_⟩
  · refine (kmalloc_sized_iff hmodels hr (by decide) le_rfl).1 (.inl ⟨⟨112, false⟩, List.mem_cons_self, rfl, ?_⟩)
    decide
  · have hw : add32 (2 ^ 32 - 1) sizeofHeapHeader = 11 := by decide
    have hfound : ¬ ∀ c ∈ [(⟨112, false⟩ : Chunk), ⟨22, true⟩], ¬ Heap.Fits 11 c := fun hno =>
      hno _ List.mem_cons_self ⟨rfl, by decide⟩
    rcases (kmalloc_sized_iff hmodels hr (by decide) le_rfl).2 hsized with (hfit | ⟨hend, -⟩ | ⟨hno, -⟩) | ⟨hno, -⟩
    · simp [Heap.Fits, sizeofHeapHeader] at hfit
    · exact absurd hend (by decide)
    · exact hfound (hw ▸ hno)
    · exact hfound (hw ▸ hno)

/-- All bytes there are: the sum with the header is 11, and the first block has that length. -/
theorem kmalloc_wraps : ∃ n p, Pmm.bootImage.mmInit (Pmm.oneEntry 0x300000 0x2000) 64512 0x9000 24 n = some p ∧
    ¬ Sized (2 ^ 32 - 1) (kmalloc (2 ^ 27) (2 ^ 32 - 1) (boot p)) := by
  obtain ⟨-, -, n, p, hp, hlast, mem, hm⟩ := bootImage_models
  have h3 : pmStackAddr = 0xFF000000 := rfl
  have h4 : shHeapStart = 0xC0400000 := rfl
  have h5 : sizeofHeapHeader = 12 := rfl
  have hw : add32 (2 ^ 32 - 1) sizeofHeapHeader = 11 := by decide
  have he : add32 shHeapStart 11 = shHeapStart + 11 := by decide
  have hlast₀ : (boot p).pmLastPage = 0x3F03000 := hlast
  have hmax : (boot p).shHeapMax = shHeapStart := rfl
  refine ⟨n, p, hp, hm.grow_unsized (HeapRun.Inv.boot mem).rep.wellFormed hw (by rintro _ ⟨⟩) (Nat.add_zero _) (by omega) ?_ ?_
    le_rfl⟩
  · rw [Overruns, he]
    omega
  · rw [he, Heap.pageUp]
    omega

end PagedHeap
end Krypton
