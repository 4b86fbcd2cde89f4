import Krypton.HeapRep

/-!
# What `kmalloc` and `kfree` do to the chunks

One lemma for each loop (`allocChunk_spec`, `shrink_spec`, `findChunk_fit`, `findChunk_none`), and from these what the
two functions make of the chunks of a heap: `kmalloc` marks a free chunk that it takes as a whole
(`kmalloc_reuse`) or puts a new one behind the last (`kmalloc_grow`), and `kfree` releases the chunk (`kfree_rep`).
-/

namespace Krypton
namespace Heap
open Tiling

variable {s : Heap} {m : Bytes} {n p a e l fuel : Nat} {cs xs ys : List Chunk}

/-! ### The loops over pages -/

/-- The loop ends unless `sh_heap_max` would have to pass the last page. -/
theorem allocChunk_spec (fuel : Nat) {start len : Nat} (he : add32 start len = e) (hal : s.shHeapMax % 4096 = 0)
    (hend : e ≤ 2 ^ 32 - 4096) (h0 : 0 < fuel) (hf : e + 4096 ≤ s.shHeapMax + 4096 * fuel) (fresh : Bytes) :
    ∃ t, allocChunk fresh fuel s start len = some t ∧ t.shHeap = s.shHeap ∧ t.shHeapMax = max s.shHeapMax (pageUp e) ∧
      (∀ x < s.shHeapMax, t.mem x = s.mem x) ∧ s.Mapped t := by
  have h4 : pageUp e = (e + 4095) / 4096 * 4096 := rfl
  induction fuel generalizing s with
  | zero => omega
  | succ fuel ih =>
    rw [allocChunk, he]
    split_ifs with hgt
    · have hmax' : add32 s.shHeapMax 4096 = s.shHeapMax + 4096 := Nat.mod_eq_of_lt (by omega)
      dsimp only [mapPage]
      rw [hmax']
      obtain ⟨t, ht, hth, htm, hmem, hpages⟩ := ih (s := ⟨fun x => if s.shHeapMax ≤ x ∧ x < s.shHeapMax + 4096 then
          fresh x else s.mem x, s.shHeap, s.shHeapMax + 4096, s.shHeapMax :: s.mapped⟩) (by dsimp only; omega)
        (by omega) (by dsimp only; omega)
      dsimp only at htm
      refine ⟨t, ht, hth, by omega, fun x hx => (hmem x (by dsimp only; omega)).trans ?_, fun page => ?_⟩
      · exact if_neg (by omega)
      · rw [hpages page, List.mem_cons, or_comm (b := page ∈ s.mapped), or_assoc, htm]
        dsimp only
        exact or_congr_right ⟨fun h => by omega, fun h => by omega⟩
    · refine ⟨s, rfl, rfl, by omega, fun x _ => rfl, fun page => ?_⟩
      exact ⟨.inl, fun h => h.elim id fun h => absurd h (by omega)⟩

/-- If the memory below `sh_heap_max` is `fresh`, it still is with the new pages. -/
theorem allocChunk_mem {t : Heap} {fresh : Bytes} (fuel : Nat) {start len : Nat}
    (ht : allocChunk fresh fuel s start len = some t) (hm : ∀ x < s.shHeapMax, s.mem x = fresh x) :
    ∀ x < t.shHeapMax, t.mem x = fresh x := by
  induction fuel generalizing s with
  | zero => cases ht
  | succ fuel ih =>
    rw [allocChunk] at ht
    split_ifs at ht with hgt
    · refine ih ht fun x hx => ?_
      have hle : add32 s.shHeapMax 0x1000 ≤ s.shHeapMax + 4096 := Nat.mod_le _ _
      dsimp only [mapPage] at hx ⊢
      split_ifs with hin
      · rfl
      · exact hm x (by omega)
    · cases ht
      exact hm

theorem shrink_spec (hal : s.shHeapMax % 4096 = 0) (hmax : s.shHeapMax < 2 ^ 32) (hge : shHeapStart ≤ e)
    (hle : e ≤ s.shHeapMax) (hf : s.shHeapMax < e + 4096 * fuel) :
    ∃ t, shrink fuel s e = some t ∧ t.shHeap = s.shHeap ∧ t.shHeapMax = pageUp e ∧ t.mem = s.mem ∧ s.Unmapped t := by
  have h4 : shHeapStart = 0xC0400000 := rfl
  have h5 : pageUp e = (e + 4095) / 4096 * 4096 := rfl
  induction fuel generalizing s with
  | zero => omega
  | succ fuel ih =>
    -- a name for the new maximum keeps the kernel from unfolding the subtraction
    obtain ⟨max, hm⟩ : ∃ max, sub32 s.shHeapMax 4096 = max := ⟨_, rfl⟩
    have hsub : max = s.shHeapMax - 4096 := by
      rw [← hm, sub32]
      omega
    rw [shrink, hm]
    split_ifs with hgt
    · have h6 : max % 4096 = 0 := by omega
      have h7 : max < 2 ^ 32 := by omega
      have h8 : max < e + 4096 * fuel := by omega
      obtain ⟨t, ht, hth, htm, hmem, hpages⟩ := ih (s := unmapPage { s with shHeapMax := max } max) h6 h7 hgt h8
      refine ⟨t, ht, hth, htm, hmem, fun page => ?_⟩
      rw [hpages page, unmapPage, List.mem_filter, decide_eq_true_eq, htm]
      dsimp only
      constructor
      · rintro ⟨⟨h9, h10⟩, h11⟩
        exact ⟨h9, by omega⟩
      · rintro ⟨h9, h10⟩
        exact ⟨⟨h9, by omega⟩, by omega⟩
    · refine ⟨s, rfl, rfl, by omega, rfl, fun page => ?_⟩
      exact ⟨fun h => ⟨h, by omega⟩, And.left⟩

/-! ### The loop of `kmalloc` -/

/-- The chunk is free and long enough for `l` bytes. -/
def Fits (l : Nat) (c : Chunk) : Prop := c.used = false ∧ l ≤ c.len

theorem findChunk_skip {c : Chunk} (hc : HeaderAt m a n p c) (ha : 0 < a) (hx : ¬ Fits l c) (fuel : Nat) :
    findChunk m l (fuel + 1) a e = findChunk m l fuel n a := by
  rw [findChunk, if_neg ha.ne', if_neg, hc.next]
  rw [hc.allocated, hc.length]
  rintro ⟨h1, h2⟩
  exact hx ⟨Bool.toNat_eq_zero.1 h1, h2⟩

theorem findChunk_fit {k : Nat} (hs : Seg m n p a (xs ++ ⟨k, false⟩ :: ys)) (ha : 0 < a)
    (hx : ∀ c ∈ xs, ¬ Fits l c) (hl : l ≤ k) (hf : xs.length < fuel) :
    findChunk m l fuel a p = some (a + size xs, back p a xs) := by
  induction xs generalizing p a fuel with
  | nil =>
    obtain ⟨fuel, rfl⟩ := Nat.exists_eq_add_one.2 hf
    have hc := hs.1
    rw [findChunk, if_neg ha.ne', if_pos ⟨hc.allocated, hc.length.symm ▸ hl⟩]
    rfl
  | cons c xs ih =>
    obtain ⟨fuel, rfl⟩ := Nat.exists_eq_add_one.2 (Nat.zero_lt_of_lt hf)
    obtain ⟨hc, hs⟩ := hs
    obtain ⟨hcf, hx⟩ := List.forall_mem_cons.1 hx
    rw [if_neg (by simp)] at hc
    rw [findChunk_skip hc ha hcf, ih hs (by omega) hx (Nat.lt_of_succ_lt_succ hf), size_cons, Nat.add_assoc]
    rfl

theorem findChunk_none (hs : Seg m 0 p a cs) (ha : 0 < a) (hx : ∀ c ∈ cs, ¬ Fits l c) (hf : cs.length < fuel) :
    findChunk m l fuel (if cs = [] then 0 else a) p = some (0, back p a cs) := by
  induction cs generalizing p a fuel with
  | nil =>
    obtain ⟨fuel, rfl⟩ := Nat.exists_eq_add_one.2 hf
    rfl
  | cons c cs ih =>
    obtain ⟨fuel, rfl⟩ := Nat.exists_eq_add_one.2 (Nat.zero_lt_of_lt hf)
    obtain ⟨hc, hs⟩ := hs
    obtain ⟨hcf, hx⟩ := List.forall_mem_cons.1 hx
    rw [if_neg (by simp), findChunk_skip hc ha hcf, ih hs (by omega) hx (Nat.lt_of_succ_lt_succ hf)]
    rfl

/-! ### `kmalloc` -/

theorem Tiled.length_lt (hr : s.Tiled cs) (hf : 2 ^ 27 ≤ fuel) : cs.length < fuel := by
  have h1 := length_le_size hr.header
  have h2 := hr.fits
  have h4 : shHeapStart = 0xC0400000 := rfl
  omega

theorem Tiled.shHeap_eq (hr : s.Tiled cs) (hc : cs ≠ []) : s.shHeap = shHeapStart :=
  hr.first.trans (if_neg hc)

theorem Rep.tiled (hr : s.Rep cs) : s.Tiled cs := hr.wellFormed.toTiled

theorem Rep.size_le_max (hr : s.Rep cs) : shHeapStart + size cs ≤ s.shHeapMax := hr.wellFormed.le_max

theorem Rep.length_lt (hr : s.Rep cs) (hf : 2 ^ 27 ≤ fuel) : cs.length < fuel := hr.tiled.length_lt hf

theorem Rep.shHeap_eq (hr : s.Rep cs) (hc : cs ≠ []) : s.shHeap = shHeapStart := hr.tiled.shHeap_eq hc

/-- The last chunk, `prev_header` at the end of the loop, ends where the next one will start. -/
theorem WellFormed.chunkStart (hr : s.WellFormed cs) : (if back 0 shHeapStart cs ≠ 0 then
    add32 (back 0 shHeapStart cs) (s.mem.length (back 0 shHeapStart cs)) else shHeapStart) =
      shHeapStart + size cs := by
  have h4 : shHeapStart = 0xC0400000 := rfl
  rcases List.eq_nil_or_concat cs with rfl | ⟨zs, c, rfl⟩
  · rfl
  · rw [List.concat_eq_append] at hr ⊢
    obtain ⟨-, hc, -⟩ := hr.seg.middle
    have hmax := hr.le_max
    have hword := hr.word
    rw [size_append, size_cons, size_nil] at hmax ⊢
    have hne : shHeapStart + size zs ≠ 0 := by omega
    rw [back_concat, hc.length, if_pos hne]
    have hlt : shHeapStart + size zs + c.len < 2 ^ 32 := by omega
    rw [add32, Nat.mod_eq_of_lt hlt, Nat.add_zero, Nat.add_assoc]

section Found
variable {w : Nat}

/-- `kmalloc` where a chunk fits; `w` is the length with the header. -/
theorem kmalloc_found (hr : s.Tiled (xs ++ ⟨n, false⟩ :: ys)) (hw : add32 l sizeofHeapHeader = w)
    (hx : ∀ c ∈ xs, ¬ Fits w c) (hl : w ≤ n) (hf : 2 ^ 27 ≤ fuel) (fresh : Bytes) : kmalloc fuel fresh s l =
      some (add32 (shHeapStart + size xs) sizeofHeapHeader,
        { s with mem := (splitChunk s.mem (shHeapStart + size xs) w).setAllocated (shHeapStart + size xs) 1 }) := by
  have hlen := hr.length_lt hf
  rw [List.length_append] at hlen
  have h4 : shHeapStart = 0xC0400000 := rfl
  have hfind : findChunk s.mem w fuel shHeapStart 0 = _ :=
    findChunk_fit hr.seg (by omega) hx hl (Nat.lt_of_le_of_lt (Nat.le_add_right ..) hlen)
  simp only [kmalloc, hw, hr.shHeap_eq (by simp), hfind, Option.bind_eq_bind, Option.bind_some, ne_eq]
  exact if_pos (by omega)

theorem Tiled.bounds {u : Bool} (hr : s.Tiled (xs ++ ⟨n, u⟩ :: ys)) :
    shHeapStart + size xs + n ≤ 2 ^ 32 ∧ n < 2 ^ 30 ∧ 12 ≤ n := by
  have hfits := hr.fits
  have h12 : 12 ≤ n := hr.header ⟨n, u⟩ (by simp)
  rw [size_append, size_cons] at hfits
  have h4 : shHeapStart = 0xC0400000 := rfl
  dsimp only at hfits
  omega

/-- A chunk is marked as used or free. -/
theorem Tiled.mark {u : Bool} (hr : s.Tiled (xs ++ ⟨n, u⟩ :: ys)) (b : Bool) :
    Tiled { s with mem := s.mem.setAllocated (shHeapStart + size xs) b.toNat } (xs ++ ⟨n, b⟩ :: ys) := by
  obtain ⟨h1, h2, h3⟩ := hr.bounds
  obtain ⟨hsx, hsc, hsy⟩ := hr.seg.middle
  have hkx : ∀ c ∈ xs, 12 ≤ c.len := fun c hc => hr.header c (by simp [hc])
  have hky : ∀ c ∈ ys, 12 ≤ c.len := fun c hc => hr.header c (by simp [hc])
  refine ⟨?_, .of_middle (hsx.congr_below hkx fun x _ h2 => ?_) (hsc.setAllocated (by dsimp only; omega) b)
    (hsy.congr_below hky fun x h1 _ => ?_), ?_, ?_⟩
  · simpa using hr.shHeap_eq (by simp)
  · exact store32_of_ne (by omega)
  · exact store32_of_ne (by dsimp only at h1; omega)
  · simpa only [List.forall_mem_append, List.forall_mem_cons] using hr.header
  · simpa using hr.fits

theorem kmalloc_whole (hr : s.Tiled (xs ++ ⟨n, false⟩ :: ys)) (hw : add32 l sizeofHeapHeader = w)
    (hx : ∀ c ∈ xs, ¬ Fits w c) (hl : w ≤ n) (hn : n ≤ w + 12) (hf : 2 ^ 27 ≤ fuel) (fresh : Bytes) :
    kmalloc fuel fresh s l = some (add32 (shHeapStart + size xs) sizeofHeapHeader,
      { s with mem := s.mem.setAllocated (shHeapStart + size xs) 1 }) := by
  obtain ⟨-, h2, -⟩ := hr.bounds
  have hsplit : splitChunk s.mem (shHeapStart + size xs) w = s.mem := by
    rw [splitChunk, if_neg]
    rw [hr.seg.middle.2.1.length, sub32, sizeofHeapHeader]
    dsimp only
    omega
  rw [kmalloc_found hr hw hx hl hf fresh, hsplit]

/-- A free chunk that is split: the remainder's header lies at the old end of the chunk. -/
theorem kmalloc_split (hr : s.Tiled (xs ++ ⟨n, false⟩ :: ys)) (hw : add32 l sizeofHeapHeader = w)
    (hx : ∀ c ∈ xs, ¬ Fits w c) (hl : w + 12 < n) (hf : 2 ^ 27 ≤ fuel) (fresh : Bytes) :
    ∃ t e, kmalloc fuel fresh s l = some (add32 (shHeapStart + size xs) sizeofHeapHeader, t) ∧
      t.shHeap = shHeapStart ∧ add32 (shHeapStart + size xs) n = e ∧
      HeaderAt t.mem (shHeapStart + size xs) e (back 0 shHeapStart xs) ⟨w, true⟩ ∧
      HeaderAt t.mem e 0 (shHeapStart + size xs) ⟨n - w, false⟩ := by
  obtain ⟨h1, h2, h3⟩ := hr.bounds
  have h4 : shHeapStart = 0xC0400000 := rfl
  obtain ⟨e, he⟩ : ∃ e, add32 (shHeapStart + size xs) n = e := ⟨_, rfl⟩
  have hoff : e + 12 ≤ shHeapStart + size xs ∨ shHeapStart + size xs + 12 ≤ e := by
    rw [add32] at he
    omega
  obtain ⟨h6, h7⟩ := splitChunk_headers hr.seg.middle.2.1 hl (by omega) (by omega) he hoff
  exact ⟨_, e, kmalloc_found hr hw hx (by omega) hf fresh, hr.shHeap_eq (by simp), he,
    h6.setAllocated (by dsimp only; omega) true, h7.setAllocated_of_ne _ 1 (by omega)⟩

end Found

theorem kmalloc_reuse (hr : s.Rep (xs ++ ⟨n, false⟩ :: ys)) (hx : ∀ c ∈ xs, ¬ Fits (l + 12) c) (hl : l + 12 ≤ n)
    (hn : n ≤ l + 12 + 12) (hf : 2 ^ 27 ≤ fuel) (fresh : Bytes) :
    ∃ t, kmalloc fuel fresh s l = some (shHeapStart + size xs + 12, t) ∧ t.Rep (xs ++ ⟨n, true⟩ :: ys) := by
  have hroom := hr.room
  rw [size_append, size_cons] at hroom
  have h3 : pmStackAddr = 0xFF000000 := rfl
  have h5 : sizeofHeapHeader = 12 := rfl
  dsimp only at hroom
  have hw : add32 l sizeofHeapHeader = l + 12 := Nat.mod_eq_of_lt (by omega)
  have hp : add32 (shHeapStart + size xs) sizeofHeapHeader = shHeapStart + size xs + 12 := Nat.mod_eq_of_lt (by omega)
  have ht := hr.tiled.mark true
  refine ⟨_, hp ▸ kmalloc_whole hr.tiled hw hx hl hn hf fresh, ht.first, ht.seg, ht.header, ?_, hr.tidy.take,
    hr.pages.congr rfl rfl, ?_⟩
  · simpa using hr.room
  · simpa using hr.top

/-- The stores of `kmalloc` behind the last chunk, in a memory that agrees with `m` on the chunks. -/
theorem append_seg {m' : Bytes} {h : Nat} (hs : Seg m 0 0 shHeapStart cs) (hk : ∀ c ∈ cs, 12 ≤ c.len)
    (hh : shHeapStart + size cs = h) (hm : ∀ x < h, m' x = m x) (hlt : h < 2 ^ 32) :
    Seg (Bytes.setNext (Bytes.setLength (Bytes.setAllocated (Bytes.setNext (m'.setPrev h (back 0 shHeapStart cs)) h 0)
      h 1) h l) (back 0 shHeapStart cs) h) 0 0 shHeapStart (cs ++ [⟨l % 2 ^ 31, true⟩]) := by
  have h4 : shHeapStart = 0xC0400000 := rfl
  have hback := back_bounds hk 0 shHeapStart
  have hl : l % 2 ^ 31 < 2 ^ 31 := Nat.mod_lt l (by decide)
  have hbits : ∀ m : Bytes, m.setLength h l = m.setLength h (l % 2 ^ 31) := fun m => by
    rw [Bytes.setLength, Bytes.setLength, Nat.mod_mod]
  rw [hbits]
  obtain ⟨c, hc, hca⟩ := HeaderAt.exists_chunk m' h
  have hhead := (((hca.setPrev (v := back 0 shHeapStart cs) (by omega)).setNext (v := 0) (by omega)).setAllocated hc
    true).setLength hl
  have hoff : ∀ x < h, Bytes.setLength (Bytes.setAllocated (Bytes.setNext (m'.setPrev h (back 0 shHeapStart cs)) h 0)
      h 1) h (l % 2 ^ 31) x = m x := fun x hx => by
    refine (store32_of_ne ?_).trans ((store32_of_ne ?_).trans ((store32_of_ne ?_).trans ((store32_of_ne ?_).trans
      (hm x hx))))
    all_goals omega
  refine seg_append.2 ⟨?_, ?_, trivial⟩
  · rw [if_neg (by simp), hh]
    exact hs.withLast hk (fun x h1 h2 h3 => (store32_of_ne h3).trans (hoff x (by omega))) fun _ => load32_store32 hlt
  · rw [if_pos rfl, hh]
    exact hhead.setNext_of_ne _ _ (by omega)

/-- `kmalloc` where no chunk fits, up to the loop of `alloc_chunk`; `w` is the length with the header. -/
theorem kmalloc_behind {w h : Nat} (hr : s.WellFormed cs) (hw : add32 l sizeofHeapHeader = w)
    (hx : ∀ c ∈ cs, ¬ Fits w c) (hh : shHeapStart + size cs = h) (hf : 2 ^ 27 ≤ fuel) (fresh : Bytes) :
    kmalloc fuel fresh s l = (allocChunk fresh fuel { s with shHeap := shHeapStart } h w).map fun t =>
      (add32 h sizeofHeapHeader, { t with mem := Bytes.setNext (Bytes.setLength (Bytes.setAllocated
        (Bytes.setNext (t.mem.setPrev h (back 0 shHeapStart cs)) h 0) h 1) h w) (back 0 shHeapStart cs) h }) := by
  have h4 : shHeapStart = 0xC0400000 := rfl
  have hfind : findChunk s.mem w fuel s.shHeap 0 = some (0, back 0 shHeapStart cs) := by
    rw [hr.first]
    exact findChunk_none hr.seg (by omega) hx (hr.length_lt hf)
  have hstart := hr.chunkStart
  rw [hh] at hstart
  have hs : (if back 0 shHeapStart cs ≠ 0 then s else { s with shHeap := h }) = { s with shHeap := shHeapStart } := by
    rcases List.eq_nil_or_concat cs with rfl | ⟨zs, c, rfl⟩
    · rw [if_neg (by simp [back]), ← hh]
      rfl
    · rw [if_pos, ← hr.shHeap_eq (by simp)]
      rw [List.concat_eq_append, back_concat]
      omega
  simp only [kmalloc, hw, hfind, hstart, hs, Option.bind_eq_bind, Option.bind_some, ne_eq, not_true, if_false]
  cases allocChunk fresh fuel { s with shHeap := shHeapStart } h w <;> rfl

theorem kmalloc_grow_spec (hr : s.WellFormed cs) (hx : ∀ c ∈ cs, ¬ Fits (l + 12) c)
    (hend : pageUp (shHeapStart + size cs + (l + 12)) < 2 ^ 32) (hf : 2 ^ 27 ≤ fuel) (fresh : Bytes) :
    ∃ t, kmalloc fuel fresh s l = some (shHeapStart + size cs + 12, t) ∧ t.WellFormed (cs ++ [⟨l + 12, true⟩]) ∧
      s.Mapped t := by
  have h4 : shHeapStart = 0xC0400000 := rfl
  have h5 : sizeofHeapHeader = 12 := rfl
  have hmax := hr.le_max
  obtain ⟨h, hh⟩ : ∃ h, shHeapStart + size cs = h := ⟨_, rfl⟩
  rw [hh] at hend hmax ⊢
  have hup : pageUp (h + (l + 12)) = (h + (l + 12) + 4095) / 4096 * 4096 := rfl
  have hal : s.shHeapMax = (h + 4095) / 4096 * 4096 := hh ▸ hr.top
  have hadd : add32 l sizeofHeapHeader = l + 12 := Nat.mod_eq_of_lt (by omega)
  have hp : add32 h sizeofHeapHeader = h + 12 := Nat.mod_eq_of_lt (by omega)
  have he : add32 h (l + 12) = h + (l + 12) := Nat.mod_eq_of_lt (by omega)
  obtain ⟨t, ht, hth, htm, hmem, hpages⟩ := allocChunk_spec (s := { s with shHeap := shHeapStart }) fuel he
    (by dsimp only; omega) (by omega) (by omega) (by dsimp only; omega) fresh
  have htm : t.shHeapMax = pageUp (h + (l + 12)) := htm.trans (by dsimp only; omega)
  have hlen : (l + 12) % 2 ^ 31 = l + 12 := Nat.mod_eq_of_lt (by omega)
  have hseg := append_seg (l := l + 12) hr.seg hr.header hh (fun x hx => hmem x (Nat.lt_of_lt_of_le hx hmax)) (by omega)
  rw [hlen] at hseg
  have hret : kmalloc fuel fresh s l = some (h + 12, { t with mem := Bytes.setNext (Bytes.setLength (Bytes.setAllocated
      (Bytes.setNext (t.mem.setPrev h (back 0 shHeapStart cs)) h 0) h 1) h (l + 12)) (back 0 shHeapStart cs) h }) := by
    rw [kmalloc_behind hr hadd hx hh hf fresh, ht, hp]
    rfl
  have hsize : shHeapStart + size (cs ++ [⟨l + 12, true⟩]) = h + (l + 12) := by
    rw [size_append, ← Nat.add_assoc, hh]
    rfl
  refine ⟨_, hret, ⟨⟨?_, hseg, ?_, by omega⟩, hr.tidy.concat rfl, hsize ▸ htm, by dsimp only; omega⟩, hpages⟩
  · simpa using hth
  · intro d hd
    rcases List.mem_append.1 hd with hd | hd
    · exact hr.header d hd
    · rw [List.mem_singleton.1 hd]
      exact Nat.le_add_left ..

theorem kmalloc_grow (hr : s.Rep cs) (hx : ∀ c ∈ cs, ¬ Fits (l + 12) c)
    (hend : shHeapStart + size cs + (l + 12) ≤ pmStackAddr) (hf : 2 ^ 27 ≤ fuel) (fresh : Bytes) :
    ∃ t, kmalloc fuel fresh s l = some (shHeapStart + size cs + 12, t) ∧ t.Rep (cs ++ [⟨l + 12, true⟩]) := by
  have h3 : pmStackAddr = 0xFF000000 := rfl
  have hup : pageUp (shHeapStart + size cs + (l + 12)) < 2 ^ 32 := by
    rw [pageUp]
    omega
  obtain ⟨t, ht, htw, hpages⟩ := kmalloc_grow_spec hr.wellFormed hx hup hf fresh
  have hsize : size (cs ++ [⟨l + 12, true⟩]) = size cs + (l + 12) := by simp
  have hge := hr.pages.ge
  have hmax : s.shHeapMax = (shHeapStart + size cs + 4095) / 4096 * 4096 := hr.top
  have htop : t.shHeapMax = (shHeapStart + size (cs ++ [⟨l + 12, true⟩]) + 4095) / 4096 * 4096 := htw.top
  refine ⟨t, ht, htw.rep (by omega) fun page => ?_⟩
  rw [hpages page, hr.pages.mapped]
  omega

/-! ### `kfree` -/

theorem glueNext_seg (hs : Seg m 0 0 shHeapStart (xs ++ ⟨n, false⟩ :: ys))
    (hk : ∀ c ∈ xs ++ ⟨n, false⟩ :: ys, 12 ≤ c.len) (hfits : shHeapStart + size (xs ++ ⟨n, false⟩ :: ys) < 2 ^ 32) :
    Seg (glueNext m (shHeapStart + size xs)) 0 0 shHeapStart (xs ++ ⟨(absorb n ys).1, false⟩ :: (absorb n ys).2) := by
  have h4 : shHeapStart = 0xC0400000 := rfl
  obtain ⟨-, hc, hys⟩ := hs.middle
  have hn : 12 ≤ n := hk ⟨n, false⟩ (by simp)
  rcases ys with _ | ⟨⟨k, u⟩, ys⟩
  · rwa [glueNext, if_neg]
    rw [hc.next]
    exact fun h => h.1 rfl
  · have hd := hys.1
    rw [if_neg (by simp)] at hc
    cases u with
    | true =>
      rwa [glueNext, if_neg]
      rw [hc.next, hd.allocated]
      exact fun h => absurd h.2 Nat.one_ne_zero
    | false =>
      have hk' : 12 ≤ k := hk ⟨k, false⟩ (by simp)
      simp only [size_append, size_cons] at hfits
      refine hs.merge hk (by omega) (glueNext_merged hc hd (by omega) hn ?_ ?_ (by omega) (by omega))
      · split_ifs
        · exact .inl rfl
        · exact .inr (by omega)
      · split_ifs
        · omega
        · omega

theorem gluePrev_seg (hs : Seg m 0 0 shHeapStart (xs ++ ⟨n, false⟩ :: ys))
    (hk : ∀ c ∈ xs ++ ⟨n, false⟩ :: ys, 12 ≤ c.len) (hfits : shHeapStart + size (xs ++ ⟨n, false⟩ :: ys) < 2 ^ 32) :
    Seg (gluePrev m (shHeapStart + size xs)).1 0 0 shHeapStart ((joinPrev xs n).1 ++ ⟨(joinPrev xs n).2, false⟩ :: ys) ∧
      (gluePrev m (shHeapStart + size xs)).2 = shHeapStart + size (joinPrev xs n).1 := by
  have h4 : shHeapStart = 0xC0400000 := rfl
  obtain ⟨hxs, hc, -⟩ := hs.middle
  rcases List.eq_nil_or_concat xs with rfl | ⟨xs, ⟨k, u⟩, rfl⟩
  · rw [gluePrev, if_neg]
    · exact ⟨hs, rfl⟩
    · rw [hc.prev]
      exact fun h => h.1 rfl
  · rw [List.concat_eq_append] at *
    obtain ⟨-, hd, -⟩ := hxs.middle
    rw [back_concat] at hc
    cases u with
    | true =>
      rw [gluePrev, if_neg, joinPrev_used]
      · exact ⟨hs, rfl⟩
      · rw [hc.prev, hd.allocated]
        exact fun h => absurd h.2 Nat.one_ne_zero
    | false =>
      rw [joinPrev_free]
      have hs : Seg m 0 0 shHeapStart (xs ++ ⟨k, false⟩ :: ⟨n, false⟩ :: ys) := by simpa using hs
      have hk' : 12 ≤ k := hk ⟨k, false⟩ (by simp)
      have hn : 12 ≤ n := hk ⟨n, false⟩ (by simp)
      simp only [size_append, size_cons, size_nil, Nat.add_zero, ← Nat.add_assoc, if_true] at hfits hc hd ⊢
      obtain ⟨hm, hr⟩ := gluePrev_merged hd hc (by omega) hk' (by split_ifs <;> omega) (by split_ifs <;> omega)
        (by omega) (by omega)
      have hk : ∀ c ∈ xs ++ ⟨k, false⟩ :: ⟨n, false⟩ :: ys, 12 ≤ c.len := by simpa using hk
      exact ⟨hs.merge hk (by omega) hm, hr⟩

/-- A free last chunk is dropped, with the pages that it alone lies in. -/
theorem freeChunk_spec {j : Nat} (hs : Seg s.mem 0 0 shHeapStart (xs ++ [⟨j, false⟩])) (hk : ∀ c ∈ xs, 12 ≤ c.len)
    (hfirst : s.shHeap = shHeapStart) (htidy : Tidy xs) (hal : s.shHeapMax % 4096 = 0) (hmax : s.shHeapMax < 2 ^ 32)
    (hle : shHeapStart + size xs ≤ s.shHeapMax) (hf : 2 ^ 27 ≤ fuel) :
    ∃ t, s.freeChunk fuel (shHeapStart + size xs) = some t ∧ t.WellFormed xs ∧ s.Unmapped t := by
  have h4 : shHeapStart = 0xC0400000 := rfl
  obtain ⟨hsx, hc, -⟩ := hs.middle
  have hback := back_bounds hk 0 shHeapStart
  have hc' := hc.setNext_of_ne (back 0 shHeapStart xs) 0 (by omega)
  have hlast : Seg (s.mem.setNext (back 0 shHeapStart xs) 0) 0 0 shHeapStart xs :=
    hsx.withLast hk (fun x _ _ h => store32_of_ne h) fun _ => load32_store32 (by omega)
  have hzero : back 0 shHeapStart xs = 0 ↔ xs = [] := by
    constructor
    · intro h
      by_contra hne
      obtain ⟨-, hge, -⟩ := hback.resolve_left fun hx => hne hx.1
      omega
    · rintro rfl
      rfl
  have hfree : s.freeChunk fuel (shHeapStart + size xs) = shrink fuel { s with
      mem := s.mem.setNext (back 0 shHeapStart xs) 0, shHeap := if xs = [] then 0 else shHeapStart }
      (shHeapStart + size xs) := by
    rw [freeChunk]
    simp only [hc.prev, hc'.prev, hzero]
    split_ifs
    · rfl
    · rw [← hfirst]
  have hfuel : s.shHeapMax < shHeapStart + size xs + 4096 * fuel := by omega
  obtain ⟨t, ht, hth, htm, hmem, hpages⟩ := shrink_spec (s := { s with
      mem := s.mem.setNext (back 0 shHeapStart xs) 0, shHeap := if xs = [] then 0 else shHeapStart })
    hal hmax (Nat.le_add_right ..) hle hfuel
  have hword : t.shHeapMax < 2 ^ 32 := by
    rw [htm, pageUp]
    omega
  exact ⟨t, hfree.trans ht, ⟨⟨hth, by rw [hmem]; exact hlast, hk, by omega⟩, htidy, htm, hword⟩, hpages⟩

theorem kfree_eq {h : Nat} (hsub : sub32 p sizeofHeapHeader = h) : s.kfree fuel p =
    let r := gluePrev (glueNext (s.mem.setAllocated h 0) h) h
    let t := { s with mem := r.1 }
    if r.1.next r.2 = 0 then t.freeChunk fuel r.2 else some t := by
  simp only [kfree, hsub]
  rfl

theorem Tiled.glueNext (hr : s.Tiled (xs ++ ⟨n, false⟩ :: ys))
    (hfits : shHeapStart + size (xs ++ ⟨n, false⟩ :: ys) < 2 ^ 32) :
    Tiled { s with mem := glueNext s.mem (shHeapStart + size xs) }
      (xs ++ ⟨(absorb n ys).1, false⟩ :: (absorb n ys).2) := by
  have hsize := absorb_size n ys
  refine ⟨?_, glueNext_seg hr.seg hr.header hfits, ?_, ?_⟩
  · simpa using hr.shHeap_eq (by simp)
  · have hk := hr.header
    simp only [List.forall_mem_append, List.forall_mem_cons] at hk ⊢
    exact ⟨hk.1, hk.2.1.trans (absorb_le n ys), fun c hc => hk.2.2 c (absorb_mem hc)⟩
  · simp only [size_append, size_cons] at hfits ⊢
    omega

theorem Tiled.gluePrev (hr : s.Tiled (xs ++ ⟨n, false⟩ :: ys))
    (hfits : shHeapStart + size (xs ++ ⟨n, false⟩ :: ys) < 2 ^ 32) :
    Tiled { s with mem := (gluePrev s.mem (shHeapStart + size xs)).1 }
      ((joinPrev xs n).1 ++ ⟨(joinPrev xs n).2, false⟩ :: ys) ∧
      (Heap.gluePrev s.mem (shHeapStart + size xs)).2 = shHeapStart + size (joinPrev xs n).1 := by
  have hsize := joinPrev_size xs n
  obtain ⟨hseg, hc⟩ := gluePrev_seg hr.seg hr.header hfits
  refine ⟨⟨?_, hseg, ?_, ?_⟩, hc⟩
  · simpa using hr.shHeap_eq (by simp)
  · have hk := hr.header
    simp only [List.forall_mem_append, List.forall_mem_cons] at hk ⊢
    exact ⟨fun c hc => hk.1 c (joinPrev_mem hc), hk.2.1.trans (joinPrev_le xs n), hk.2.2⟩
  · simp only [size_append, size_cons] at hfits ⊢
    omega

/-- The freed chunk, glued to its free neighbours. -/
theorem Tiled.glue (hr : s.Tiled (xs ++ ⟨n, false⟩ :: ys))
    (hfits : shHeapStart + size (xs ++ ⟨n, false⟩ :: ys) < 2 ^ 32) :
    ∃ m ws j zs, Heap.gluePrev (Heap.glueNext s.mem (shHeapStart + size xs)) (shHeapStart + size xs) =
        (m, shHeapStart + size ws) ∧
      Tiled { s with mem := m } (ws ++ ⟨j, false⟩ :: zs) ∧
      size (ws ++ ⟨j, false⟩ :: zs) = size (xs ++ ⟨n, false⟩ :: ys) ∧
      release xs n ys = if zs = [] then ws else ws ++ ⟨j, false⟩ :: zs := by
  have hsize := absorb_size n ys
  have hsize' := joinPrev_size xs (absorb n ys).1
  have h1 := hr.glueNext hfits
  simp only [size_append, size_cons] at hfits ⊢
  obtain ⟨h2, hc⟩ := h1.gluePrev (by simp only [size_append, size_cons]; omega)
  exact ⟨_, _, _, _, Prod.ext rfl hc, h2, by omega, rfl⟩

/-- What is left is the list with the chunk released; the last chunk is given back with its pages. -/
theorem kfree_spec (hr : s.WellFormed (xs ++ ⟨n, true⟩ :: ys)) (hf : 2 ^ 27 ≤ fuel) :
    ∃ t, s.kfree fuel (shHeapStart + size xs + 12) = some t ∧ t.WellFormed (release xs n ys) ∧ s.Unmapped t := by
  have h4 : shHeapStart = 0xC0400000 := rfl
  have h5 : sizeofHeapHeader = 12 := rfl
  have hmax := hr.le_max
  have hword := hr.word
  have htidy := hr.tidy.release
  have h1 := hr.toTiled.mark false
  have hsum : size (xs ++ ⟨n, false⟩ :: ys) = size (xs ++ ⟨n, true⟩ :: ys) := by
    rw [size_append, size_append]
    rfl
  have hlt : shHeapStart + size xs + n ≤ s.shHeapMax := by
    rw [size_append, size_cons] at hmax
    dsimp only at hmax
    omega
  obtain ⟨m, ws, j, zs, hg, htiled, hsize, hrel⟩ := h1.glue (by omega)
  rw [hsum] at hsize
  rw [hrel] at htidy ⊢
  -- from here on only the address of the chunk matters
  obtain ⟨h, hh⟩ : ∃ h, shHeapStart + size xs = h := ⟨_, rfl⟩
  rw [hh] at hg hlt ⊢
  have hsub : sub32 (h + 12) sizeofHeapHeader = h := by
    rw [sub32]
    omega
  dsimp only [Bool.toNat_false] at hg
  rw [kfree_eq hsub, hg]
  dsimp only
  rw [htiled.seg.middle.2.1.next]
  by_cases hz : zs = []
  · subst hz
    rw [if_pos rfl] at htidy ⊢
    rw [if_pos rfl, if_pos rfl]
    have hs : shHeapStart + size ws ≤ s.shHeapMax := by
      rw [← hsize, size_append] at hmax
      omega
    have hal : s.shHeapMax % 4096 = 0 := by
      rw [hr.top, pageUp]
      omega
    exact freeChunk_spec htiled.seg (fun c hc => htiled.header c (by simp [hc])) (hr.shHeap_eq (by simp)) htidy hal hword
      hs hf
  · rw [if_neg hz] at htidy ⊢
    rw [if_neg hz, if_neg (by omega)]
    refine ⟨_, rfl, ⟨htiled, htidy, hsize ▸ hr.top, hword⟩, fun page => ?_⟩
    exact ⟨fun hp => ⟨hp, by dsimp only; omega⟩, And.left⟩

theorem kfree_rep (hr : s.Rep (xs ++ ⟨n, true⟩ :: ys)) (hf : 2 ^ 27 ≤ fuel) :
    ∃ t, s.kfree fuel (shHeapStart + size xs + 12) = some t ∧ t.Rep (release xs n ys) := by
  obtain ⟨t, ht, htw, hpages⟩ := kfree_spec hr.wellFormed hf
  have hroom := hr.room
  have hle := release_size_le xs n ys
  have htop : t.shHeapMax = (shHeapStart + size (release xs n ys) + 4095) / 4096 * 4096 := htw.top
  have hmax : s.shHeapMax = (shHeapStart + size (xs ++ ⟨n, true⟩ :: ys) + 4095) / 4096 * 4096 := hr.top
  rw [size_append, size_cons] at hroom hmax
  dsimp only at hroom hmax
  refine ⟨t, ht, htw.rep (by omega) fun page => ?_⟩
  rw [hpages page, hr.pages.mapped]
  omega

end Heap
end Krypton
