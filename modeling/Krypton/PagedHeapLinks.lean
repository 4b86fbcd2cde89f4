import Krypton.PagedHeapRun

/-!
# The headers that `kmalloc` and `kfree` go through

On a machine that shows a well-formed heap, the first chunk is stored through `prev_header`, which is `NULL`, and
`kfree` of the last chunk follows the link in front of it or behind it, where there is nothing or a free chunk. In all
other calls the headers are those of chunks, and of the one that `kmalloc` adds. On the empty heap a size whose sum wraps
maps no page, and the header faults before that store.
-/

namespace Krypton
open Tiling Traced

namespace PagedHeap
variable {s : PagedHeap} {t : Heap} {theirs : List Nat} {cs xs ys : List Chunk} {a e l n p prev w fuel : Nat}

theorem setField_notes {set : Mmu → Nat → Nat → Option Mmu} (h v : Nat) (s : PagedHeap) :
    (setField set h v s).2.2 = [h] := by
  unfold setField
  split <;> rfl

/-- Wherever the stores of a new header stop, it is that one or the one in front. -/
theorem linkChunk_notes (a prev w : Nat) (s : PagedHeap) : ∀ x ∈ (linkChunk a prev w s).2.2, x = a ∨ x = prev := by
  have hset : ∀ {set : Mmu → Nat → Nat → Option Mmu} (v : Nat) (s : PagedHeap),
      ∀ x ∈ (setField set a v s).2.2, x = a ∨ x = prev := fun v s x hx => by
    rw [setField_notes, List.mem_singleton] at hx
    exact .inl hx
  refine Stopping.notes_bind (hset _) (fun _ => Stopping.notes_bind (hset _) fun _ => Stopping.notes_bind (hset _)
    fun _ => Stopping.notes_bind (hset _) fun _ s x hx => ?_) s
  rw [setField_notes, List.mem_singleton] at hx
  exact .inr hx

theorem pages_notes (f : PagedHeap → Except Stop PagedHeap) (s : PagedHeap) : (pages f s).2.2 = [] := by
  unfold pages
  split <;> rfl

/-- A chunk behind the others: the last header and the new one. -/
theorem appendChunk_notes {g : Frames} {stored backing hs : List Nat} {A : Mmu.PageMap}
    (h : s.Holds g stored backing A hs theirs t.mem) (hr : t.WellFormed cs) (hfirst : s.shHeap = t.shHeap)
    (hmax : s.shHeapMax = t.shHeapMax) (fuel w : Nat) :
    ∀ x ∈ (appendChunk fuel (back 0 shHeapStart cs) w s).2.2,
      x = back 0 shHeapStart cs ∨ x = shHeapStart + size cs := by
  obtain ⟨s₁, hs₁, -⟩ := h.chunkStart hr hfirst hmax
  have hrest : ∀ x ∈ ((do
      pages fun s => allocChunk fuel s (shHeapStart + size cs) w
      linkChunk (shHeapStart + size cs) (back 0 shHeapStart cs) w
      pure (add32 (shHeapStart + size cs) sizeofHeapHeader) : Walk Nat) s₁).2.2,
      x = back 0 shHeapStart cs ∨ x = shHeapStart + size cs := by
    refine Stopping.notes_bind (fun u x hx => ?_) (fun _ => Stopping.notes_bind (fun u x hx => ?_) fun _ u x hx => ?_) s₁
    · rw [pages_notes] at hx
      cases hx
    · exact (linkChunk_notes _ _ _ u x hx).symm
    · cases hx
  intro x hx
  unfold appendChunk at hx
  rw [Stopping.bind_ok hs₁] at hx
  rcases List.mem_append.1 hx with hx | hx
  · split_ifs at hx with hc
    · cases hx
    · exact .inl (List.mem_singleton.1 hx)
  · exact hrest x hx

theorem Models.kmalloc_notes (h : s.Models t theirs) (hr : t.WellFormed cs) (hc : cs ≠ []) (hf : 2 ^ 27 ≤ fuel) (l : Nat) :
    ∀ x ∈ (PagedHeap.kmalloc fuel l s).2.2, x ∈ starts shHeapStart cs ∨ x = shHeapStart + size cs := by
  obtain ⟨w, hw⟩ : ∃ w, add32 l sizeofHeapHeader = w := ⟨_, rfl⟩
  rcases Heap.fits_cases w cs with hx | ⟨xs, n, ys, rfl, hl, hx⟩
  · obtain ⟨g, stored, backing, A, hs, hh, hfirst, hmax⟩ := id h
    obtain ⟨hval, hfind⟩ := find_none hr hx hf
    rw [kmalloc_eq hw hfirst hh.view hval fun x hx => hh.spans_chunks hr hmax (.inr (hfind x hx))]
    dsimp only
    rw [if_neg (fun h => h rfl)]
    intro x hx
    rcases List.mem_append.1 hx with hx | hx
    · exact .inl (hfind x hx)
    · rcases appendChunk_notes hh hr hfirst hmax fuel w x hx with rfl | rfl
      · exact .inl (back_mem_starts _ hc)
      · exact .inr rfl
  · obtain ⟨s', hk, -⟩ := h.kmalloc_found hr hw hx hl hf fun _ => 0
    rw [hk]
    exact fun x hx' => .inl (Heap.kmallocN_found_row hr hw hx hl hf _ x hx')

/-- What the pages for a chunk of `w` bytes at `a` take: they reach the window of the page stack, or `pm_last_page` may
wrap. -/
def Overruns (s : PagedHeap) (a w : Nat) : Prop :=
  pmStackAddr < add32 a w ∨ pmStackAddr < a + sizeofHeapHeader ∨
    2 ^ 32 ≤ s.pmLastPage + 0x2000 * ((add32 a w + 4095 - s.shHeapMax) / 4096)

/-- On the empty heap the header is stored to through `NULL`, unless no page is mapped for it. -/
theorem Models.kmalloc_notes_empty (h : s.Models t theirs) (hr : t.WellFormed []) (hf : 2 ^ 27 ≤ fuel)
    (hw : add32 l sizeofHeapHeader = w) :
    (add32 shHeapStart w ≤ shHeapStart → ∀ x ∈ (PagedHeap.kmalloc fuel l s).2.2, x = shHeapStart) ∧
      (shHeapStart < add32 shHeapStart w → ¬ s.Overruns shHeapStart w → 0 ∈ (PagedHeap.kmalloc fuel l s).2.2) := by
  have h3 : pmStackAddr = 0xFF000000 := rfl
  have h4 : shHeapStart = 0xC0400000 := rfl
  have hmax : t.shHeapMax = shHeapStart := hr.top
  have hno : ∀ c ∈ ([] : List Chunk), ¬ Heap.Fits w c := by
    rintro _ ⟨⟩
  constructor
  · intro hle
    obtain ⟨s', ns, hk, hns⟩ := h.kmalloc_faults hr hw hno (Nat.add_zero _) (by omega) (by omega) (by omega) hf
    rw [hk]
    exact fun x hx => (hns x hx).resolve_left List.not_mem_nil
  · intro hlt hover
    have hsmax : s.shHeapMax = t.shHeapMax := by
      obtain ⟨_, _, _, _, _, _, _, hmax⟩ := h
      exact hmax
    obtain ⟨h1, h2⟩ := not_or.1 hover
    obtain ⟨-, h5⟩ := not_or.1 h2
    rw [hsmax] at h5
    obtain ⟨fresh, s', hk, -, -, -, hback⟩ := h.kmalloc_grow hr hw hno (Nat.add_zero _) rfl (by omega) (by omega)
      (by rw [Heap.pageUp]; omega) hf
    rw [hk]
    exact hback

theorem kfree_notes (fuel p : Nat) (s : PagedHeap) : sub32 p sizeofHeapHeader ∈ (kfree fuel p s).2.2 := by
  refine Stopping.mem_bind _ ?_
  rw [setField_notes]
  exact List.mem_singleton_self _

/-- **The heap follows no link that is `NULL`** in `kmalloc` on a heap that is not empty, or where no page is mapped; and
in `kfree` of a chunk of the list that is not the last or has one in use in front of it. All headers it reads or writes
are then those of chunks, or of the one that is added behind them. In other calls it does; but for `kmalloc` of a chunk
whose pages overrun the heap. -/
theorem links_followed_iff (h : s.Models t theirs) (hr : t.WellFormed cs) (hf : 2 ^ 27 ≤ fuel) :
    (∀ l, (s.shHeap ≠ 0 ∨ add32 shHeapStart (add32 l sizeofHeapHeader) ≤ shHeapStart →
        ∀ x ∈ (kmalloc fuel l s).2.2, x ∈ t.chunks ∨ x = shHeapStart + size cs) ∧
      ((∀ x ∈ (kmalloc fuel l s).2.2, x ∈ t.chunks ∨ x = shHeapStart + size cs) →
        s.shHeap ≠ 0 ∨ add32 shHeapStart (add32 l sizeofHeapHeader) ≤ shHeapStart ∨
          s.Overruns shHeapStart (add32 l sizeofHeapHeader))) ∧
    ∀ p, (∀ x ∈ (kfree fuel p s).2.2, x ∈ t.chunks) ↔ sub32 p sizeofHeapHeader ∈ t.chunks ∧
      (t.mem.next (sub32 p sizeofHeapHeader) ≠ 0 ∨ t.mem.prev (sub32 p sizeofHeapHeader) ≠ 0 ∧
        t.mem.allocated (t.mem.prev (sub32 p sizeofHeapHeader)) ≠ 0) := by
  have h4 : shHeapStart = 0xC0400000 := rfl
  have hfirst : s.shHeap = t.shHeap := by
    obtain ⟨_, _, _, _, _, _, hfirst, _⟩ := h
    exact hfirst
  rw [hr.chunks_eq, hfirst]
  refine ⟨fun l => ?_, fun p => ?_⟩
  · rcases eq_or_ne cs [] with rfl | hc
    · have hzero : t.shHeap = 0 := hr.first
      obtain ⟨h1, h2⟩ := h.kmalloc_notes_empty (l := l) hr hf rfl
      rw [hzero]
      constructor
      · rintro (hne | hle)
        · exact absurd rfl hne
        · exact fun x hx => .inr (h1 hle x hx)
      · intro hall
        by_contra hno
        obtain ⟨-, hno⟩ := not_or.1 hno
        obtain ⟨hlt, hover⟩ := not_or.1 hno
        rcases hall 0 (h2 (Nat.lt_of_not_le hlt) hover) with h0 | h0
        · cases h0
        · have : shHeapStart + size [] = shHeapStart := Nat.add_zero _
          omega
    · have hne : t.shHeap ≠ 0 := by
        rw [hr.shHeap_eq hc]
        decide
      exact ⟨fun _ => h.kmalloc_notes hr hc hf l, fun _ => .inl hne⟩
  · obtain ⟨d, hp⟩ : ∃ d, sub32 p sizeofHeapHeader = d := ⟨_, rfl⟩
    rw [hp]
    by_cases hh : d ∈ starts shHeapStart cs
    · obtain ⟨xs, ⟨n, u⟩, ys, rfl, rfl⟩ := starts_split hh
      obtain ⟨s', hk, -⟩ := h.kfree hr hp hf
      rw [hk, Heap.kfreeN_notes_iff hr hp, and_iff_right hh, Heap.neighbour_iff hr.toTiled rfl]
    · refine iff_of_false (fun hall => hh (hall d ?_)) fun h => hh h.1
      rw [← hp]
      exact kfree_notes fuel p s

theorem zero_not_mem {c : Nat} (h0 : 0 ∈ t.chunks ∨ 0 = shHeapStart + c) : False := by
  have h4 : shHeapStart = 0xC0400000 := rfl
  rcases h0 with h0 | h0
  · exact Heap.zero_not_mem_chunks t h0
  · omega

/-- A free chunk is taken, and freed again. -/
theorem links_followed_iff_reuse : ∃ n p s s' ns,
    Pmm.bootImage.mmInit (Pmm.oneEntry 0x300000 0x2000) 64512 0x9000 24 n = some p ∧
    exec (PagedRun.step (2 ^ 27)) (PagedRun.boot p) PagedRun.freedFirst = some s ∧
    kmalloc (2 ^ 27) 90 s.heap = (.ok (shHeapStart + 12), s', ns) ∧ 0 ∉ ns ∧
    0 ∉ (kfree (2 ^ 27) (shHeapStart + 12) s').2.2 := by
  obtain ⟨-, -, n, p, hp, hlast, mem, hm⟩ := bootImage_models
  obtain ⟨s, t, hs, -, hmodels, hr, -, -, hlast'⟩ := PagedRun.exec_freedFirst hm (by omega)
  have hr : t.Rep ([] ++ ⟨112, false⟩ :: [⟨22, true⟩]) := hr
  have hspared : t.Spared (2 ^ 27) 90 := by
    obtain ⟨hfit, hn⟩ := hr.firstFit_some (l := 90) (by rintro _ ⟨⟩) (by decide) le_rfl
    rw [Heap.Spared, hfit]
    refine ⟨?_, by rintro ⟨⟩⟩
    rintro _ ⟨⟩
    rw [hn]
    decide
  obtain ⟨fresh, q, s', ns, t', hk, ht, hm', -⟩ := hmodels.kmalloc hr hspared (by omega) le_rfl
  obtain ⟨t'', ht', hr'⟩ := Heap.kmalloc_reuse (l := 90) hr (by rintro _ ⟨⟩) (by decide) (by decide) le_rfl fresh
  obtain ⟨rfl, rfl⟩ := Prod.mk.inj (Option.some.inj (ht.symm.trans ht'))
  have hns : ns = (kmalloc (2 ^ 27) 90 s.heap).2.2 := by rw [hk]
  refine ⟨n, p, s, s', ns, hp, hs, hk, fun h0 => ?_, fun h0 => ?_⟩
  · have hne : s.heap.shHeap ≠ 0 := by
      obtain ⟨_, _, _, _, _, _, hfirst, _⟩ := hmodels
      rw [hfirst, hr.wellFormed.shHeap_eq (by simp)]
      decide
    exact zero_not_mem
      (((links_followed_iff hmodels hr.wellFormed le_rfl).1 90).1 (.inl hne) 0 (hns ▸ h0))
  · -- the chunk is followed by another one
    have hsub : sub32 (shHeapStart + 12) sizeofHeapHeader = shHeapStart := by decide
    have hnext : t'.mem.next shHeapStart ≠ 0 := by
      have hc := hr'.seg.middle.2.1.next
      rw [show shHeapStart + size [] = shHeapStart from Nat.add_zero _] at hc
      rw [hc]
      decide
    have hmem : shHeapStart ∈ t'.chunks := by
      rw [hr'.wellFormed.chunks_eq]
      exact List.mem_cons_self
    refine Heap.zero_not_mem_chunks t' (((links_followed_iff hm' hr'.wellFormed le_rfl).2 (shHeapStart + 12)).2 ?_ 0 h0)
    rw [hsub]
    exact ⟨hmem, .inl hnext⟩

/-- The first `kmalloc` stores through `prev_header`, and `kfree` of the only block through `chunk->prev`. -/
theorem null_followed : ∃ n p s ns, Pmm.bootImage.mmInit (Pmm.oneEntry 0x300000 0x2000) 64512 0x9000 24 n = some p ∧
    kmalloc (2 ^ 27) 10 (boot p) = (.ok (shHeapStart + 12), s, ns) ∧ 0 ∈ ns ∧
    0 ∈ (kfree (2 ^ 27) (shHeapStart + 12) s).2.2 := by
  obtain ⟨-, -, n, p, hp, hlast, mem, hm⟩ := bootImage_models
  have h0 := (HeapRun.Inv.boot mem).rep
  have hlast₀ : (boot p).pmLastPage = 0x3F03000 := hlast
  have hmax : (HeapRun.boot mem).heap.shHeapMax = shHeapStart := rfl
  have hw : add32 10 sizeofHeapHeader = 22 := by decide
  have he : add32 shHeapStart 22 = shHeapStart + 22 := by decide
  have h4 : shHeapStart = 0xC0400000 := rfl
  have h3 : pmStackAddr = 0xFF000000 := rfl
  obtain ⟨fresh, s, hk, hm', hval, -, hback⟩ := hm.kmalloc_grow h0.wellFormed hw (by rintro _ ⟨⟩) (Nat.add_zero _) he
    (by omega) (by omega) (by rw [Heap.pageUp]; omega) le_rfl
  have hret : add32 shHeapStart sizeofHeapHeader = shHeapStart + 12 := by decide
  rw [hret] at hk hval
  refine ⟨n, p, s, _, hp, hk, hback, ?_⟩
  obtain ⟨t, ht, hr⟩ := Heap.kmalloc_grow (l := 10) h0 (by rintro _ ⟨⟩) (by decide) le_rfl fresh
  have hstate : (Heap.kmallocN (2 ^ 27) fresh 10).state (HeapRun.boot mem).heap = t := by
    have hflat := (Heap.kmallocN_eq fresh).trans ht
    rw [Heap.block_eq_some hval] at hflat
    exact (Prod.mk.inj (Option.some.inj hflat)).2
  rw [hstate] at hm'
  have hr : t.WellFormed ([] ++ ⟨22, true⟩ :: []) := hr.wellFormed
  have hp' : sub32 (shHeapStart + 12) sizeofHeapHeader = shHeapStart + size [] := by decide
  obtain ⟨s', hk', -⟩ := hm'.kfree hr hp' le_rfl
  rw [hk']
  exact (Heap.kfreeN_notes hp' 0).2 (.inr (Heap.glueChunkN_notes_zero (hr.toTiled.mark false) (by simp) (by decide) _))

end PagedHeap
end Krypton
