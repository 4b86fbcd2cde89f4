import Krypton.Heap
import Krypton.Pmm
import Krypton.Lib.Tiling

/-!
# What a heap represents

`Seg m n p a cs`: at `a` begins a row of chunks `cs`, linked both ways, where the first has `p` as its `prev` and the
last has `n` as its `next`. A row depends on the twelve bytes of each header only (`Seg.congr`). `Merged` is what
both halves of `glue_chunk` do to two neighbours, and `Seg.merge` what it makes of a row.

`Tiled s cs`: the heap `s` consists of the chunks `cs`. A `WellFormed` one is tidy and `sh_heap_max` is its end, rounded
up to a page; `Rep s cs` says besides that it ends below the window of the page stack and which pages are mapped.
-/

namespace Krypton
open Tiling

/-- A header with these links in front of the chunk `c`. -/
structure HeaderAt (m : Bytes) (a next prev : Nat) (c : Chunk) : Prop where
  next : m.next a = next
  prev : m.prev a = prev
  flags : load32 m (a + 8) = 2 * c.len + c.used.toNat

namespace HeaderAt
variable {m m' : Bytes} {a n p v : Nat} {c : Chunk}

theorem length (h : HeaderAt m a n p c) : m.length a = c.len := by
  have := Bool.toNat_lt c.used
  rw [Bytes.length, h.flags]
  omega

theorem allocated (h : HeaderAt m a n p c) : m.allocated a = c.used.toNat := by
  have := Bool.toNat_lt c.used
  rw [Bytes.allocated, h.flags]
  omega

theorem congr (h : HeaderAt m a n p c) (hm : ∀ x, a ≤ x → x < a + 12 → m' x = m x) : HeaderAt m' a n p c :=
  ⟨(load32_congr fun x h1 h2 => hm x h1 (by omega)).trans h.next,
    (load32_congr fun x h1 h2 => hm x (by omega) (by omega)).trans h.prev,
    (load32_congr fun x h1 h2 => hm x (by omega) (by omega)).trans h.flags⟩

theorem withNext (h : HeaderAt m a n p c) (hm : ∀ x, a + 4 ≤ x → x < a + 12 → m' x = m x) (hv : m'.next a = v) :
    HeaderAt m' a v p c :=
  ⟨hv, (load32_congr fun x h1 h2 => hm x (by omega) (by omega)).trans h.prev,
    (load32_congr fun x h1 h2 => hm x (by omega) (by omega)).trans h.flags⟩

theorem withPrev (h : HeaderAt m a n p c) (hm : ∀ x, x < a + 4 ∨ a + 8 ≤ x → a ≤ x → x < a + 12 → m' x = m x)
    (hv : m'.prev a = v) : HeaderAt m' a n v c :=
  ⟨(load32_congr fun x h1 h2 => hm x (by omega) (by omega) (by omega)).trans h.next, hv,
    (load32_congr fun x h1 h2 => hm x (by omega) (by omega) (by omega)).trans h.flags⟩

theorem exists_chunk (m : Bytes) (a : Nat) : ∃ c, c.len < 2 ^ 31 ∧ HeaderAt m a (m.next a) (m.prev a) c := by
  have hlt := load32_lt m (a + 8)
  refine ⟨⟨load32 m (a + 8) / 2, load32 m (a + 8) % 2 = 1⟩, by dsimp only; omega, rfl, rfl, ?_⟩
  rcases Nat.mod_two_eq_zero_or_one (load32 m (a + 8)) with h | h
  · simp only [h, zero_ne_one, decide_false, Bool.toNat_false]
    omega
  · simp only [h, decide_true, Bool.toNat_true]
    omega

/-! What a store into the header does to it. -/

theorem setNext (h : HeaderAt m a n p c) (hv : v < 2 ^ 32) : HeaderAt (m.setNext a v) a v p c :=
  h.withNext (fun _ h1 _ => store32_of_ne (.inr h1)) (load32_store32 hv)

theorem setPrev (h : HeaderAt m a n p c) (hv : v < 2 ^ 32) : HeaderAt (m.setPrev a v) a n v c :=
  h.withPrev (fun _ h1 _ _ => store32_of_ne (by omega)) (load32_store32 hv)

theorem setFlags (h : HeaderAt m a n p c) {d : Chunk} (hd : d.len < 2 ^ 31) :
    HeaderAt (store32 m (a + 8) (2 * d.len + d.used.toNat)) a n p d := by
  have := Bool.toNat_lt d.used
  exact ⟨(load32_store32_of_ne (by omega)).trans h.next, (load32_store32_of_ne (by omega)).trans h.prev,
    load32_store32 (by omega)⟩

theorem setAllocated (h : HeaderAt m a n p c) (hc : c.len < 2 ^ 31) (b : Bool) :
    HeaderAt (m.setAllocated a b.toNat) a n p ⟨c.len, b⟩ := by
  rw [Bytes.setAllocated, h.length]
  exact h.setFlags (d := ⟨c.len, b⟩) hc

theorem setLength (h : HeaderAt m a n p c) (hv : v < 2 ^ 31) : HeaderAt (m.setLength a v) a n p ⟨v, c.used⟩ := by
  rw [Bytes.setLength, h.allocated, Nat.mod_eq_of_lt hv]
  exact h.setFlags (d := ⟨v, c.used⟩) hv

/-! A store into another header. -/

theorem setNext_of_ne (h : HeaderAt m a n p c) (b v : Nat) (hb : b + 4 ≤ a ∨ a + 12 ≤ b) :
    HeaderAt (m.setNext b v) a n p c :=
  h.congr fun _ _ _ => store32_of_ne (by omega)

theorem setPrev_of_ne (h : HeaderAt m a n p c) (b v : Nat) (hb : b + 8 ≤ a ∨ a + 8 ≤ b) :
    HeaderAt (m.setPrev b v) a n p c :=
  h.congr fun _ _ _ => store32_of_ne (by omega)

theorem setAllocated_of_ne (h : HeaderAt m a n p c) (b v : Nat) (hb : b + 12 ≤ a ∨ a + 4 ≤ b) :
    HeaderAt (m.setAllocated b v) a n p c :=
  h.congr fun _ _ _ => store32_of_ne (by omega)

theorem setLength_of_ne (h : HeaderAt m a n p c) (b v : Nat) (hb : b + 12 ≤ a ∨ a + 4 ≤ b) :
    HeaderAt (m.setLength b v) a n p c :=
  h.congr fun _ _ _ => store32_of_ne (by omega)

end HeaderAt

/-- A row of chunks from `a` on, linked both ways, between `p` and `n`. -/
def Seg (m : Bytes) (n : Nat) : Nat → Nat → List Chunk → Prop
  | _, _, [] => True
  | p, a, c :: cs => HeaderAt m a (if cs = [] then n else a + c.len) p c ∧ Seg m n a (a + c.len) cs

theorem seg_append {m : Bytes} {n p a : Nat} {xs ys : List Chunk} : Seg m n p a (xs ++ ys) ↔
    Seg m (if ys = [] then n else a + size xs) p a xs ∧ Seg m n (back p a xs) (a + size xs) ys := by
  induction xs generalizing p a with
  | nil => simp [Seg, back]
  | cons c xs ih =>
    have hn : (if xs ++ ys = [] then n else a + c.len) =
        if xs = [] then (if ys = [] then n else a + size (c :: xs)) else a + c.len := by
      cases xs <;> simp
    simp only [List.cons_append, Seg, back, size_cons, ih, hn, and_assoc, Nat.add_assoc]

namespace Seg
variable {m m' : Bytes} {n p a h v : Nat} {c : Chunk} {xs ys cs : List Chunk}

theorem congr (hs : Seg m n p a cs) (hm : ∀ h ∈ starts a cs, ∀ x, h ≤ x → x < h + 12 → m' x = m x) :
    Seg m' n p a cs := by
  induction cs generalizing p a with
  | nil => trivial
  | cons c cs ih =>
    obtain ⟨h1, h2⟩ := hs
    obtain ⟨hm1, hm2⟩ := List.forall_mem_cons.1 hm
    exact ⟨h1.congr hm1, ih h2 hm2⟩

theorem congr_below (hs : Seg m n p a cs) (hk : ∀ c ∈ cs, 12 ≤ c.len)
    (hm : ∀ x, a ≤ x → x < a + size cs → m' x = m x) : Seg m' n p a cs :=
  hs.congr fun h hh x h1 h2 => by
    have := mem_starts hk hh
    exact hm x (by omega) (by omega)

theorem middle (hs : Seg m n p a (xs ++ c :: ys)) :
    Seg m (a + size xs) p a xs ∧ HeaderAt m (a + size xs) (if ys = [] then n else a + size xs + c.len) (back p a xs) c ∧
      Seg m n (a + size xs) (a + size xs + c.len) ys := by
  simpa [Seg] using seg_append.1 hs

theorem of_middle (hx : Seg m (a + size xs) p a xs)
    (hc : HeaderAt m (a + size xs) (if ys = [] then n else a + size xs + c.len) (back p a xs) c)
    (hy : Seg m n (a + size xs) (a + size xs + c.len) ys) : Seg m n p a (xs ++ c :: ys) :=
  seg_append.2 ⟨by simpa using hx, hc, hy⟩

theorem withLast (hs : Seg m n p a xs) (hk : ∀ c ∈ xs, 12 ≤ c.len)
    (hm : ∀ x, a ≤ x → x < a + size xs → x < back p a xs ∨ back p a xs + 4 ≤ x → m' x = m x)
    (hv : xs ≠ [] → m'.next (back p a xs) = v) : Seg m' v p a xs := by
  rcases List.eq_nil_or_concat xs with rfl | ⟨zs, c, rfl⟩
  · trivial
  · rw [List.concat_eq_append] at *
    rw [back_concat] at hm hv
    have hc : 12 ≤ c.len := hk c (by simp)
    obtain ⟨hz, hl, -⟩ := hs.middle
    rw [size_append, size_cons, size_nil] at hm
    refine of_middle (hz.congr_below (fun d hd => hk d (by simp [hd])) fun x h1 h2 => hm x h1 (by omega) (by omega)) ?_
      trivial
    rw [if_pos rfl]
    exact hl.withNext (fun x h1 h2 => hm x (by omega) (by omega) (by omega)) (hv (by simp))

theorem withFirst (hs : Seg m n p a ys) (hk : ∀ c ∈ ys, 12 ≤ c.len)
    (hm : ∀ x, a ≤ x → x < a + size ys → x < a + 4 ∨ a + 8 ≤ x → m' x = m x) (hv : ys ≠ [] → m'.prev a = v) :
    Seg m' n v a ys := by
  cases ys with
  | nil => trivial
  | cons c ys =>
    obtain ⟨hc, hk⟩ := List.forall_mem_cons.1 hk
    obtain ⟨h1, h2⟩ := hs
    rw [size_cons] at hm
    refine ⟨h1.withPrev (fun x h3 h4 h5 => hm x h4 (by omega) h3) (hv (by simp)), ?_⟩
    exact h2.congr_below hk fun x h3 h4 => hm x (by omega) (by omega) (by omega)

theorem next_mem (hs : Seg m n p a cs) (hh : h ∈ starts a cs) : m.next h = n ∨ m.next h ∈ starts a cs := by
  induction cs generalizing p a with
  | nil => cases hh
  | cons c cs ih =>
    obtain ⟨h1, h2⟩ := hs
    rcases List.mem_cons.1 hh with rfl | hh
    · rw [h1.next]
      cases cs with
      | nil => exact .inl rfl
      | cons d cs => exact .inr (List.mem_cons_of_mem _ List.mem_cons_self)
    · exact (ih h2 hh).imp_right (List.mem_cons_of_mem _)

theorem prev_mem (hs : Seg m n p a cs) (hh : h ∈ starts a cs) : m.prev h = p ∨ m.prev h ∈ starts a cs := by
  induction cs generalizing p a with
  | nil => cases hh
  | cons c cs ih =>
    obtain ⟨h1, h2⟩ := hs
    rcases List.mem_cons.1 hh with rfl | hh
    · exact .inl h1.prev
    · rcases ih h2 hh with he | he
      · exact .inr (he ▸ List.mem_cons_self)
      · exact .inr (List.mem_cons_of_mem _ he)

end Seg

/-! ### Two neighbours become one -/

/-- `m'` is `m` with the chunk `c` at `b` in place of two: a header at `b` and the `prev` of the next chunk, `nn`. -/
structure Merged (m m' : Bytes) (b nn p : Nat) (c : Chunk) : Prop where
  header : HeaderAt m' b nn p c
  prev : m'.prev nn = b
  off : ∀ x, x < b ∨ b + 12 ≤ x → x < nn + 4 ∨ nn + 8 ≤ x → m' x = m x

theorem Seg.merge {m m' : Bytes} {p a j k : Nat} {u v w : Bool} {xs ys : List Chunk}
    (hs : Seg m 0 p a (xs ++ ⟨j, u⟩ :: ⟨k, v⟩ :: ys)) (hk : ∀ c ∈ xs ++ ⟨j, u⟩ :: ⟨k, v⟩ :: ys, 12 ≤ c.len)
    (ha : 12 ≤ a)
    (hm : Merged m m' (a + size xs) (if ys = [] then 0 else a + size xs + j + k) (back p a xs) ⟨j + k, w⟩) :
    Seg m' 0 p a (xs ++ ⟨j + k, w⟩ :: ys) := by
  obtain ⟨hx, -, hs⟩ := hs.middle
  have hs : Seg m 0 (a + size xs + j) (a + size xs + j + k) ys := hs.2
  have hkx : ∀ c ∈ xs, 12 ≤ c.len := fun c hc => hk c (by simp [hc])
  have hky : ∀ c ∈ ys, 12 ≤ c.len := fun c hc => hk c (by simp [hc])
  have hj : 12 ≤ j := hk ⟨j, u⟩ (by simp)
  have hk' : 12 ≤ k := hk ⟨k, v⟩ (by simp)
  have hoff := hm.off
  refine .of_middle (hx.congr_below hkx fun x h1 h2 => hoff x (by omega) ?_) ?_ ?_
  · split_ifs
    · omega
    · omega
  · simpa only [Nat.add_assoc] using hm.header
  · show Seg m' 0 _ (a + size xs + (j + k)) ys
    rw [← Nat.add_assoc]
    refine hs.withFirst hky (fun x h1 h2 h3 => hoff x (by omega) ?_) fun hne => ?_
    · split_ifs
      · omega
      · exact h3
    · have := hm.prev
      rwa [if_neg hne] at this

namespace Heap
variable {m : Bytes} {b nn p j k : Nat} {u : Bool}

theorem glueNext_merged (hb : HeaderAt m b (b + j) p ⟨j, u⟩) (hn : HeaderAt m (b + j) nn b ⟨k, false⟩) (h12 : 12 ≤ b)
    (hj : 12 ≤ j) (hnn : nn = 0 ∨ b + j + 12 ≤ nn) (hlt : nn < 2 ^ 32) (hend : b + j + k < 2 ^ 32)
    (hlen : j + k < 2 ^ 31) : Merged m (glueNext m b) b nn p ⟨j + k, u⟩ := by
  have hb1 := hb.setLength hlen
  have hn1 := hn.setLength_of_ne b (j + k) (by omega)
  have hb2 := hb1.setPrev_of_ne nn b (by omega)
  have hn2 := hn1.setPrev_of_ne nn b (by omega)
  have he : glueNext m b = Bytes.setNext (Bytes.setPrev (m.setLength b (j + k)) nn b) b nn := by
    rw [glueNext, if_pos]
    · simp only [hb.next, hb.length, hn.length, hb1.next, hn1.next, hb2.next, hn2.next]
    · rw [hb.next, hn.allocated]
      exact ⟨by omega, rfl⟩
  rw [he]
  refine ⟨hb2.setNext hlt, ?_, fun x h1 h2 => ?_⟩
  · refine (load32_store32_of_ne (by omega)).trans (load32_store32 (by omega))
  · exact (store32_of_ne (by omega)).trans ((store32_of_ne (by omega)).trans (store32_of_ne (by omega)))

theorem gluePrev_merged (hb : HeaderAt m b (b + j) p ⟨j, false⟩) (hn : HeaderAt m (b + j) nn b ⟨k, u⟩) (h12 : 12 ≤ b)
    (hj : 12 ≤ j) (hnn : nn = 0 ∨ b + j + 12 ≤ nn) (hlt : nn < 2 ^ 32) (hend : b + j + k < 2 ^ 32)
    (hlen : j + k < 2 ^ 31) :
    Merged m (gluePrev m (b + j)).1 b nn p ⟨j + k, false⟩ ∧ (gluePrev m (b + j)).2 = b := by
  have hb1 := hb.setLength hlen
  have hn1 := hn.setLength_of_ne b (j + k) (by omega)
  have hb2 := hb1.setNext hlt
  have hn2 := hn1.setNext_of_ne b nn (by omega)
  have hb3 := hb2.setPrev_of_ne nn b (by omega)
  have hn3 := hn2.setPrev_of_ne nn b (by omega)
  have he : gluePrev m (b + j) = (Bytes.setPrev (Bytes.setNext (m.setLength b (j + k)) b nn) nn b, b) := by
    rw [gluePrev, if_pos]
    · simp only [hn.prev, hb.length, hn.length, hn1.prev, hn1.next, hn2.prev, hn2.next, hn3.prev]
    · rw [hn.prev, hb.allocated]
      exact ⟨by omega, rfl⟩
  rw [he]
  refine ⟨⟨hb3, load32_store32 (by omega), fun x h1 h2 => ?_⟩, rfl⟩
  exact (store32_of_ne (by omega)).trans ((store32_of_ne (by omega)).trans (store32_of_ne (by omega)))

/-- The two headers of `split_chunk`; the second, at `e`, lies at the old end of the chunk. -/
theorem splitChunk_headers {h n len nx e : Nat} (hc : HeaderAt m h nx p ⟨n, u⟩) (hlen : len + 12 < n) (hn : n < 2 ^ 31)
    (hh : h < 2 ^ 32) (hnew : add32 h n = e) (hoff : e + 12 ≤ h ∨ h + 12 ≤ e) :
    HeaderAt (splitChunk m h len) h e p ⟨len, u⟩ ∧ HeaderAt (splitChunk m h len) e 0 h ⟨n - len, false⟩ := by
  have hsub : sub32 n len = n - len := by
    rw [sub32]
    omega
  have hlt : e < 2 ^ 32 := hnew ▸ Nat.mod_lt _ (by decide)
  obtain ⟨d, hd, hd0⟩ := HeaderAt.exists_chunk m e
  have hc1 := hc.setPrev_of_ne e h (by omega)
  have hc2 := hc1.setNext_of_ne e 0 (by omega)
  have hc3 := hc2.setAllocated_of_ne e 0 (by omega)
  have hc4 := hc3.setLength_of_ne e (n - len) (by omega)
  have hd1 := hd0.setPrev (v := h) hh
  have hd2 := hd1.setNext (v := 0) (by omega)
  have hd3 := hd2.setAllocated hd false
  have hd4 := hd3.setLength (v := n - len) (by omega)
  have hd5 := hd4.setNext_of_ne h e (by omega)
  have he : splitChunk m h len = Bytes.setLength (Bytes.setNext (Bytes.setLength (Bytes.setAllocated (Bytes.setNext
      (Bytes.setPrev m e h) e 0) e 0) e (n - len)) h e) h len := by
    rw [splitChunk, if_pos]
    · simp only [hc.length, hc3.length, hnew, hsub]
    · rw [hc.length, hsub]
      show 12 < _
      omega
  rw [he]
  exact ⟨(hc4.setNext hlt).setLength (by omega), hd5.setLength_of_ne h len (by omega)⟩

/-! ### The heap as a list of chunks -/

/-- The end of the page that `e` ends in. -/
def pageUp (e : Nat) : Nat := (e + 4095) / 4096 * 4096

/-- The pages of the heap, from `SH_HEAP_START` up to `sh_heap_max`, are the ones mapped. -/
structure Pages (s : Heap) : Prop where
  aligned : s.shHeapMax % 4096 = 0
  ge : shHeapStart ≤ s.shHeapMax
  le : s.shHeapMax ≤ pmStackAddr
  mapped : ∀ page, page ∈ s.mapped ↔ shHeapStart ≤ page ∧ page < s.shHeapMax ∧ page % 4096 = 0

theorem Pages.congr {s t : Heap} (h : s.Pages) (hm : t.shHeapMax = s.shHeapMax) (hp : t.mapped = s.mapped) : t.Pages :=
  ⟨hm ▸ h.aligned, hm ▸ h.ge, hm ▸ h.le, by rw [hm, hp]; exact h.mapped⟩

/-- The chunks, linked both ways in address order, tile the heap from `SH_HEAP_START`. -/
structure Tiled (s : Heap) (cs : List Chunk) : Prop where
  first : s.shHeap = if cs = [] then 0 else shHeapStart
  seg : Seg s.mem 0 0 shHeapStart cs
  header : ∀ c ∈ cs, 12 ≤ c.len
  fits : shHeapStart + size cs ≤ 2 ^ 32

/-- And no two free chunks are neighbours, the last one is in use, and `sh_heap_max` is the end of its page. -/
structure WellFormed (s : Heap) (cs : List Chunk) : Prop extends s.Tiled cs where
  tidy : Tidy cs
  top : s.shHeapMax = pageUp (shHeapStart + size cs)
  word : s.shHeapMax < 2 ^ 32

/-- From `s` to `t` the pages from the old `sh_heap_max` up to the new one were mapped. -/
def Mapped (s t : Heap) : Prop := ∀ page, page ∈ t.mapped ↔
  page ∈ s.mapped ∨ s.shHeapMax ≤ page ∧ page < t.shHeapMax ∧ page % 4096 = 0

/-- From `s` to `t` the pages at and above the new `sh_heap_max` were unmapped. -/
def Unmapped (s t : Heap) : Prop := ∀ page, page ∈ t.mapped ↔
  page ∈ s.mapped ∧ ¬ (t.shHeapMax ≤ page ∧ page < s.shHeapMax ∧ page % 4096 = 0)

structure Rep (s : Heap) (cs : List Chunk) : Prop where
  first : s.shHeap = if cs = [] then 0 else shHeapStart
  seg : Seg s.mem 0 0 shHeapStart cs
  header : ∀ c ∈ cs, 12 ≤ c.len
  room : shHeapStart + size cs ≤ pmStackAddr
  tidy : Tidy cs
  pages : s.Pages
  top : s.shHeapMax = pageUp (shHeapStart + size cs)

variable {s : Heap} {cs : List Chunk}

theorem Rep.wellFormed (hr : s.Rep cs) : s.WellFormed cs := by
  have hroom := hr.room
  have hle := hr.pages.le
  have h3 : pmStackAddr = 0xFF000000 := rfl
  exact ⟨⟨hr.first, hr.seg, hr.header, by omega⟩, hr.tidy, hr.top, by omega⟩

theorem WellFormed.le_max (hr : s.WellFormed cs) : shHeapStart + size cs ≤ s.shHeapMax := by
  rw [hr.top, pageUp]
  omega

theorem WellFormed.rep (hr : s.WellFormed cs) (hroom : shHeapStart + size cs ≤ pmStackAddr)
    (hmapped : ∀ page, page ∈ s.mapped ↔ shHeapStart ≤ page ∧ page < s.shHeapMax ∧ page % 4096 = 0) : s.Rep cs := by
  have hmax := hr.le_max
  have htop : s.shHeapMax = (shHeapStart + size cs + 4095) / 4096 * 4096 := hr.top
  have h3 : pmStackAddr = 0xFF000000 := rfl
  exact ⟨hr.first, hr.seg, hr.header, hroom, hr.tidy, ⟨by omega, by omega, by omega, hmapped⟩, hr.top⟩

end Heap
end Krypton
