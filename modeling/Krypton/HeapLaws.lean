import Krypton.HeapRun

/-!
# Laws of the heap

`kfree` keeps the heap well formed, a block that was put behind the last chunk and freed at once leaves no trace, and a
free chunk is reused without loss where it is taken as a whole. `split_chunk` loses: it puts the header of the
remainder at the old end of the chunk, links the chunk there, and the bytes between belong to no chunk.
-/

namespace Krypton
namespace Heap
open Tiling

variable {s t : Heap} {m m' : Bytes} {n p a h l fuel : Nat} {xs ys cs : List Chunk}

/-! ### `kfree` -/

theorem WellFormed.block_le (hr : s.WellFormed cs) (hb : (h, n) ∈ blocks shHeapStart cs) : h + n ≤ s.shHeapMax :=
  (mem_blocks hb).2.trans hr.le_max

/-- A block is apart from all others, so that the address tells them apart. -/
theorem mem_release_blocks {b : Nat × Nat} (hn : 0 < n) : b ∈ blocks a (release xs n ys) ↔
    b ∈ blocks a (xs ++ ⟨n, true⟩ :: ys) ∧ b ≠ (a + size xs, n) := by
  have hx : (a + size xs, n) ∉ blocks a xs := fun hx => by
    have := mem_blocks hx
    omega
  have hy : (a + size xs, n) ∉ blocks (a + size xs + n) ys := fun hy => by
    have := mem_blocks hy
    omega
  have hb : blocks (a + size xs) (⟨n, true⟩ :: ys) = (a + size xs, n) :: blocks (a + size xs + n) ys := rfl
  rw [release_blocks, blocks_append, hb, List.mem_append, List.mem_append, List.mem_cons]
  constructor
  · rintro (hm | hm)
    · exact ⟨.inl hm, fun he => hx (he ▸ hm)⟩
    · exact ⟨.inr (.inr hm), fun he => hy (he ▸ hm)⟩
  · rintro ⟨hm | rfl | hm, hne⟩
    · exact .inl hm
    · exact absurd rfl hne
    · exact .inr hm

/-- **`kfree` keeps the heap well formed.** The other chunks in use stay where they are, and the pages from the new
`sh_heap_max` on are unmapped; no chunk in use reaches into them. -/
theorem kfree_keeps (hr : s.WellFormed cs) (hb : (h, n) ∈ blocks shHeapStart cs) (hf : 2 ^ 27 ≤ fuel) :
    ∃ t ds, s.kfree fuel (h + sizeofHeapHeader) = some t ∧ t.WellFormed ds ∧
      (∀ b, b ∈ blocks shHeapStart ds ↔ b ∈ blocks shHeapStart cs ∧ b ≠ (h, n)) ∧
      (∀ page, page ∈ t.mapped ↔ page ∈ s.mapped ∧ ¬ (t.shHeapMax ≤ page ∧ page < s.shHeapMax ∧ page % 4096 = 0)) ∧
      ∀ b ∈ blocks shHeapStart ds, b.1 + b.2 ≤ t.shHeapMax := by
  obtain ⟨xs, ys, rfl, rfl⟩ := blocks_split hb
  obtain ⟨t, ht, htw, hpages⟩ := kfree_spec hr hf
  have hn : 12 ≤ n := hr.header ⟨n, true⟩ (by simp)
  exact ⟨t, _, ht, htw, fun b => mem_release_blocks (by omega), hpages, fun b hb => htw.block_le hb⟩

/-- The second of two blocks is freed. -/
theorem kfree_keeps_freedFirst : ∃ s t ds, exec (HeapRun.step (2 ^ 27)) (HeapRun.boot fun _ => 0) HeapRun.freedFirst =
      some s ∧ s.heap.kfree (2 ^ 27) (shHeapStart + 124) = some t ∧ t.WellFormed ds ∧ blocks shHeapStart ds = [] := by
  obtain ⟨s, hs, -, -, hr⟩ := HeapRun.exec_freedFirst
  have hb : (shHeapStart + 112, 22) ∈ blocks shHeapStart [⟨112, false⟩, ⟨22, true⟩] := by decide
  obtain ⟨t, ds, ht, htw, hblocks, -⟩ := kfree_keeps hr.wellFormed hb le_rfl
  refine ⟨s, t, ds, hs, ht, htw, List.eq_nil_iff_forall_not_mem.2 fun b hm => ?_⟩
  obtain ⟨hm, hne⟩ := (hblocks b).1 hm
  exact hne (List.mem_singleton.1 hm)

/-! ### A free chunk is reused -/

/-- The place of the chunk of length `n` between `xs` and `ys` holds a chunk in use, with nothing or with one free chunk
behind it. -/
def Taken (t : Heap) (xs : List Chunk) (n : Nat) (ys : List Chunk) : Prop :=
  t.Tiled (xs ++ ⟨n, true⟩ :: ys) ∨ ∃ k ≤ n, t.Tiled (xs ++ ⟨k, true⟩ :: ⟨n - k, false⟩ :: ys)

/-- A chunk that was cut short but linked to its old end: the bytes in between belong to no chunk. -/
theorem not_taken {w e : Nat} (hc : HeaderAt t.mem (shHeapStart + size xs) e p ⟨w, true⟩) (hw : w < n)
    (he : e ≠ shHeapStart + size xs + w) : ¬ t.Taken xs n ys := by
  rintro (ht | ⟨k, -, ht⟩)
  · have hd := ht.seg.middle.2.1
    have : w = n := hc.length.symm.trans hd.length
    omega
  · have hd := ht.seg.middle.2.1
    have hk : w = k := hc.length.symm.trans hd.length
    have hnext := hd.next
    rw [if_neg (by simp), hc.next, ← hk] at hnext
    exact he hnext

/-- **A free chunk is reused without loss** exactly where `split_chunk` leaves it whole. The chunk is the first one that
is free and long enough, and `l` any word: the sum with the length of the header is taken modulo `2 ^ 32`. -/
theorem kmalloc_taken_iff (hr : s.Tiled (xs ++ ⟨n, false⟩ :: ys)) (hx : ∀ c ∈ xs, ¬ Fits (add32 l sizeofHeapHeader) c)
    (hl : add32 l sizeofHeapHeader ≤ n) (hf : 2 ^ 27 ≤ fuel) (fresh : Bytes) :
    (∃ t, kmalloc fuel fresh s l = some (add32 (shHeapStart + size xs) sizeofHeapHeader, t) ∧ t.Taken xs n ys) ↔
      n ≤ add32 l sizeofHeapHeader + sizeofHeapHeader := by
  obtain ⟨w, hw⟩ : ∃ w, add32 l sizeofHeapHeader = w := ⟨_, rfl⟩
  have h5 : sizeofHeapHeader = 12 := rfl
  rw [hw] at hx hl ⊢
  constructor
  · rintro ⟨t, ht, htaken⟩
    by_contra hlong
    obtain ⟨t', e, ht', -, he, hc, -⟩ := kmalloc_split hr hw hx (by omega) hf fresh
    obtain rfl := (Prod.mk.inj (Option.some.inj (ht.symm.trans ht'))).2
    obtain ⟨h1, h2, -⟩ := hr.bounds
    refine not_taken hc (by omega) ?_ htaken
    rw [← he, add32]
    omega
  · intro hn
    exact ⟨_, kmalloc_whole hr hw hx hl hn hf fresh, .inl (hr.mark true)⟩

/-- `kmalloc (90)` on a free chunk of 112 bytes. -/
theorem kmalloc_taken_iff_whole : ∃ s t, exec (HeapRun.step (2 ^ 27)) (HeapRun.boot fun _ => 0) HeapRun.freedFirst =
      some s ∧ s.heap.kmalloc (2 ^ 27) (fun _ => 0) 90 = some (shHeapStart + 12, t) ∧
      t.Taken [] 112 [⟨22, true⟩] := by
  obtain ⟨s, hs, -, -, hr⟩ := HeapRun.exec_freedFirst
  have hr : s.heap.Tiled ([] ++ ⟨112, false⟩ :: [⟨22, true⟩]) := hr.tiled
  obtain ⟨t, ht, htaken⟩ := (kmalloc_taken_iff (l := 90) hr (by rintro _ ⟨⟩) (by decide) le_rfl fun _ => 0).2 (by decide)
  exact ⟨s, t, hs, ht, htaken⟩

/-- `kmalloc (10)` splits the chunk. -/
theorem split_loses : ∃ s t, exec (HeapRun.step (2 ^ 27)) (HeapRun.boot fun _ => 0) HeapRun.freedFirst = some s ∧
    s.heap.Tiled [⟨112, false⟩, ⟨22, true⟩] ∧
    s.heap.kmalloc (2 ^ 27) (fun _ => 0) 10 = some (shHeapStart + 12, t) ∧ ¬ t.Taken [] 112 [⟨22, true⟩] := by
  obtain ⟨s, hs, -, -, hr⟩ := HeapRun.exec_freedFirst
  have hr : s.heap.Tiled ([] ++ ⟨112, false⟩ :: [⟨22, true⟩]) := hr.tiled
  have hw : add32 10 sizeofHeapHeader = 22 := by decide
  obtain ⟨t, e, ht, -, he, hc, -⟩ := kmalloc_split hr hw (by rintro _ ⟨⟩) (by decide) le_rfl fun _ => 0
  refine ⟨s, t, hs, hr, ht, not_taken hc (by decide) ?_⟩
  rw [← he]
  decide

/-! ### Growing and freeing -/

theorem seg_unique (hs : Seg m n p a cs) (hs' : Seg m' n p a cs) (hh : h ∈ starts a cs) : m'.next h = m.next h ∧
    m'.prev h = m.prev h ∧ m'.allocated h = m.allocated h ∧ m'.length h = m.length h := by
  induction cs generalizing p a with
  | nil => cases hh
  | cons c cs ih =>
    obtain ⟨h1, h2⟩ := hs
    obtain ⟨h1', h2'⟩ := hs'
    rcases List.mem_cons.1 hh with rfl | hh
    · exact ⟨h1'.next.trans h1.next.symm, h1'.prev.trans h1.prev.symm, h1'.allocated.trans h1.allocated.symm,
        h1'.length.trans h1.length.symm⟩
    · exact ih h2 h2' hh

theorem release_last (ht : Tidy cs) (n : Nat) : release cs n [] = cs := by
  rcases List.eq_nil_or_concat cs with rfl | ⟨zs, ⟨k, u⟩, rfl⟩
  · rfl
  · rw [List.concat_eq_append] at ht ⊢
    have hu : u = true := ht.last zs _ rfl
    subst hu
    show (joinPrev (zs ++ [⟨k, true⟩]) n).1 = _
    rw [joinPrev_used]

/-- **Growing and freeing cancel out.** Where no free chunk is long enough and the new one ends below the window of the
page stack, `kfree` takes back what `kmalloc` did. -/
theorem grow_cancels (hr : s.WellFormed cs) (hp : ∀ page ∈ s.mapped, page < s.shHeapMax)
    (hx : ∀ c ∈ cs, ¬ Fits (l + sizeofHeapHeader) c)
    (hend : shHeapStart + size cs + (l + sizeofHeapHeader) ≤ pmStackAddr) (hf : 2 ^ 27 ≤ fuel) (fresh : Bytes) :
    ∃ p t u, kmalloc fuel fresh s l = some (p, t) ∧ t.kfree fuel p = some u ∧ u.shHeap = s.shHeap ∧
      u.shHeapMax = s.shHeapMax ∧ (∀ page, page ∈ u.mapped ↔ page ∈ s.mapped) ∧
      ∀ h ∈ starts shHeapStart cs, u.mem.next h = s.mem.next h ∧ u.mem.prev h = s.mem.prev h ∧
        u.mem.allocated h = s.mem.allocated h ∧ u.mem.length h = s.mem.length h := by
  have h3 : pmStackAddr = 0xFF000000 := rfl
  have h5 : sizeofHeapHeader = 12 := rfl
  rw [h5] at hx hend
  have hup : pageUp (shHeapStart + size cs + (l + 12)) < 2 ^ 32 := by
    rw [pageUp]
    omega
  obtain ⟨t, ht, htw, hmap⟩ := kmalloc_grow_spec hr hx hup hf fresh
  obtain ⟨u, hu, huw, hunmap⟩ := kfree_spec htw hf
  rw [release_last hr.tidy] at huw
  have hmax : u.shHeapMax = s.shHeapMax := huw.top.trans hr.top.symm
  refine ⟨_, t, u, ht, hu, huw.first.trans hr.first.symm, hmax, fun page => ?_,
    fun h hh => seg_unique hr.seg huw.seg hh⟩
  rw [hunmap page, hmap page, hmax]
  constructor
  · rintro ⟨hm | hm, hno⟩
    · exact hm
    · exact absurd hm hno
  · intro hm
    have := hp page hm
    exact ⟨.inl hm, by omega⟩

/-- Behind a free chunk that is too short and a block in use. -/
theorem grow_cancels_freedFirst : ∃ s p t u, exec (HeapRun.step (2 ^ 27)) (HeapRun.boot fun _ => 0) HeapRun.freedFirst =
      some s ∧ kmalloc (2 ^ 27) (fun _ => 0) s.heap 5000 = some (p, t) ∧ t.kfree (2 ^ 27) p = some u ∧
      u.shHeap = shHeapStart ∧ u.shHeapMax = shHeapStart + 0x1000 ∧ u.mem.length shHeapStart = 112 ∧
      u.mem.length (shHeapStart + 112) = 22 := by
  obtain ⟨s, hs, -, -, hr⟩ := HeapRun.exec_freedFirst
  have hx : ∀ c ∈ [(⟨112, false⟩ : Chunk), ⟨22, true⟩], ¬ Fits (5000 + sizeofHeapHeader) c := by
    simp [Fits, sizeofHeapHeader]
  obtain ⟨p, t, u, ht, hu, hfirst, hmax, -, hold⟩ := grow_cancels (l := 5000) hr.wellFormed
    (fun page hp => ((hr.pages.mapped page).1 hp).2.1) hx (by decide) le_rfl fun _ => 0
  obtain ⟨-, -, -, h1⟩ := hold shHeapStart (by simp [starts])
  obtain ⟨-, -, -, h2⟩ := hold (shHeapStart + 112) (by simp [starts])
  have hseg := hr.seg
  refine ⟨s, p, t, u, hs, ht, hu, hfirst.trans (hr.shHeap_eq (by simp)), hmax.trans (hr.top.trans (by decide)),
    h1.trans hseg.1.length, h2.trans hseg.2.1.length⟩

end Heap
end Krypton
