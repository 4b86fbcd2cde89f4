import Krypton.HeapOps
import Krypton.Lib.Reach

/-!
# The blocks of the heap are isolated

Runs of `kmalloc`, `kfree` and stores of the clients into their own blocks, from the empty heap. `Isolated` says that
live blocks lie in mapped pages, apart from one another and from every header that is still linked.

`split_chunk` puts the header of the remainder behind the chunk, over the next one, and `kmalloc` adds the length to
the end of the last chunk without a test. `Spared` leaves both out; then the chunks tile the heap (`Heap.Rep`) and
every live block is one of its blocks (`Inv`).
-/

namespace Krypton
open Tiling

/-! ### What `kmalloc` will find -/

/-- The chunks linked from `h` on. -/
def chunksFrom (m : Bytes) : Nat → Nat → List Nat
  | 0, _ => []
  | fuel + 1, h => if h = 0 then [] else h :: chunksFrom m fuel (m.next h)

namespace Heap
variable {s : Heap} {p a n l fuel : Nat} {m : Bytes} {cs xs ys : List Chunk}

/-- The test of `kmalloc` for `l` bytes. -/
def Suits (s : Heap) (l h : Nat) : Prop := s.mem.allocated h = 0 ∧ s.mem.length h ≥ l + sizeofHeapHeader

instance (s : Heap) (l h : Nat) : Decidable (s.Suits l h) := inferInstanceAs (Decidable (_ ∧ _))

/-- The first chunk that suits. -/
def firstFit (fuel : Nat) (s : Heap) (l : Nat) : Option Nat := (chunksFrom s.mem fuel s.shHeap).find? fun h => s.Suits l h

/-- The end of the last chunk. -/
def lastEnd (fuel : Nat) (s : Heap) : Nat :=
  ((chunksFrom s.mem fuel s.shHeap).getLast?.map fun h => h + s.mem.length h).getD shHeapStart

/-- No chunk is split, and a new one ends below the window of the page stack. -/
def Spared (fuel : Nat) (s : Heap) (l : Nat) : Prop :=
  (∀ h ∈ s.firstFit fuel l, s.mem.length h ≤ l + sizeofHeapHeader + sizeofHeapHeader) ∧
    (s.firstFit fuel l = none → s.lastEnd fuel + (l + sizeofHeapHeader) ≤ pmStackAddr)

instance (fuel : Nat) (s : Heap) (l : Nat) : Decidable (s.Spared fuel l) := inferInstanceAs (Decidable (_ ∧ _))

theorem chunksFrom_eq (hs : Seg m 0 p a cs) (ha : 0 < a) (hf : cs.length < fuel) :
    chunksFrom m fuel (if cs = [] then 0 else a) = starts a cs := by
  induction cs generalizing p a fuel with
  | nil =>
    obtain ⟨fuel, rfl⟩ := Nat.exists_eq_add_one.2 hf
    rfl
  | cons c cs ih =>
    obtain ⟨fuel, rfl⟩ := Nat.exists_eq_add_one.2 (Nat.zero_lt_of_lt hf)
    obtain ⟨hc, hs⟩ := hs
    rw [if_neg (by simp), chunksFrom, if_neg ha.ne', hc.next, ih hs (by omega) (Nat.lt_of_succ_lt_succ hf)]
    rfl

theorem Rep.chunksFrom_eq (hr : s.Rep cs) (hf : 2 ^ 27 ≤ fuel) : chunksFrom s.mem fuel s.shHeap = starts shHeapStart cs := by
  rw [hr.first]
  exact Heap.chunksFrom_eq hr.seg (by decide) (hr.length_lt hf)

theorem Rep.lastEnd_eq (hr : s.Rep cs) (hf : 2 ^ 27 ≤ fuel) : s.lastEnd fuel = shHeapStart + size cs := by
  rw [lastEnd, hr.chunksFrom_eq hf]
  rcases List.eq_nil_or_concat cs with rfl | ⟨zs, c, rfl⟩
  · rfl
  · rw [List.concat_eq_append] at hr ⊢
    rw [starts_append]
    simp [starts, hr.seg.middle.2.1.length, Nat.add_assoc]

theorem exists_fits {h : Nat} (hs : Seg m n p a cs) (hh : h ∈ starts a cs) :
    ∃ c ∈ cs, m.allocated h = c.used.toNat ∧ m.length h = c.len := by
  induction cs generalizing p a with
  | nil => cases hh
  | cons c cs ih =>
    obtain ⟨hc, hs⟩ := hs
    rcases List.mem_cons.1 hh with rfl | hh
    · exact ⟨c, List.mem_cons_self, hc.allocated, hc.length⟩
    · obtain ⟨d, hd, hda, hdl⟩ := ih hs hh
      exact ⟨d, List.mem_cons_of_mem _ hd, hda, hdl⟩

theorem not_suits {h : Nat} (hs : Seg s.mem n p a cs) (hx : ∀ c ∈ cs, ¬ Fits (l + 12) c) (hh : h ∈ starts a cs) :
    ¬ s.Suits l h := by
  obtain ⟨c, hc, h1, h2⟩ := exists_fits hs hh
  rintro ⟨h3, h4⟩
  rw [h1] at h3
  rw [h2] at h4
  exact hx c hc ⟨Bool.toNat_eq_zero.1 h3, h4⟩

theorem Rep.firstFit_none (hr : s.Rep cs) (hx : ∀ c ∈ cs, ¬ Fits (l + 12) c) (hf : 2 ^ 27 ≤ fuel) :
    s.firstFit fuel l = none := by
  rw [firstFit, hr.chunksFrom_eq hf, List.find?_eq_none]
  intro h hh
  rw [decide_eq_true_eq]
  exact not_suits hr.seg hx hh

theorem Rep.firstFit_some (hr : s.Rep (xs ++ ⟨n, false⟩ :: ys)) (hx : ∀ c ∈ xs, ¬ Fits (l + 12) c) (hl : l + 12 ≤ n)
    (hf : 2 ^ 27 ≤ fuel) :
    s.firstFit fuel l = some (shHeapStart + size xs) ∧ s.mem.length (shHeapStart + size xs) = n := by
  obtain ⟨hxs, hc, -⟩ := hr.seg.middle
  refine ⟨?_, hc.length⟩
  rw [firstFit, hr.chunksFrom_eq hf, starts_append, List.find?_append, List.find?_eq_none.2, Option.none_or]
  · exact List.find?_cons_of_pos (decide_eq_true ⟨hc.allocated, by rw [hc.length]; exact hl⟩)
  · intro h hh
    rw [decide_eq_true_eq]
    exact not_suits hxs hx hh

theorem fits_cases (l : Nat) (cs : List Chunk) : (∀ c ∈ cs, ¬ Fits l c) ∨
    ∃ xs n ys, cs = xs ++ ⟨n, false⟩ :: ys ∧ l ≤ n ∧ ∀ c ∈ xs, ¬ Fits l c := by
  induction cs with
  | nil => exact .inl (by rintro _ ⟨⟩)
  | cons c cs ih =>
    by_cases hc : Fits l c
    · obtain ⟨n, u⟩ := c
      obtain ⟨rfl, hl⟩ := hc
      exact .inr ⟨[], n, cs, rfl, hl, by rintro _ ⟨⟩⟩
    · rcases ih with h | ⟨xs, n, ys, rfl, hl, hx⟩
      · exact .inl (List.forall_mem_cons.2 ⟨hc, h⟩)
      · exact .inr ⟨c :: xs, n, ys, rfl, hl, List.forall_mem_cons.2 ⟨hc, hx⟩⟩

/-- A call of `kmalloc` that is spared: the block is that of a chunk not in use before. -/
theorem kmalloc_rep (hr : s.Rep cs) (hs : s.Spared fuel l) (hf : 2 ^ 27 ≤ fuel) (fresh : Bytes) :
    ∃ h n t ds, kmalloc fuel fresh s l = some (h + 12, t) ∧ t.Rep ds ∧ l + 12 ≤ n ∧ (h, n) ∈ blocks shHeapStart ds ∧
      ∀ b ∈ blocks shHeapStart cs, b ∈ blocks shHeapStart ds ∧ b.1 ≠ h := by
  have h5 : sizeofHeapHeader = 12 := rfl
  obtain ⟨hwhole, hroom⟩ := hs
  rcases fits_cases (l + 12) cs with hx | ⟨xs, n, ys, rfl, hl, hx⟩
  · have hend := hroom (hr.firstFit_none hx hf)
    rw [hr.lastEnd_eq hf] at hend
    obtain ⟨t, ht, htr⟩ := kmalloc_grow hr hx hend hf fresh
    refine ⟨_, l + 12, t, _, ht, htr, Nat.le_refl _, ?_, fun b hb => ?_⟩
    · simp [blocks_append, blocks]
    · have hlt := mem_starts hr.header (blocks_sub_starts hb)
      refine ⟨by rw [blocks_append]; exact List.mem_append_left _ hb, by omega⟩
  · obtain ⟨hfit, hlen⟩ := hr.firstFit_some hx hl hf
    have hn := hwhole _ hfit
    rw [hlen] at hn
    obtain ⟨t, ht, htr⟩ := kmalloc_reuse hr hx hl hn hf fresh
    refine ⟨_, n, t, _, ht, htr, hl, ?_, fun b hb => ?_⟩
    · simp [blocks_append, blocks]
    · rw [blocks_append] at hb ⊢
      rcases List.mem_append.1 hb with hb | hb
      · have hlt := mem_starts (fun c hc => hr.header c (by simp [hc])) (blocks_sub_starts hb)
        exact ⟨List.mem_append_left _ hb, by omega⟩
      · have hb : b ∈ blocks (shHeapStart + size xs + n) ys := hb
        have hge := (mem_blocks hb).1
        exact ⟨List.mem_append_right _ (List.mem_append_right _ hb), by omega⟩

theorem kfree_blocks {h : Nat} (hr : s.Rep cs) (hb : (h, n) ∈ blocks shHeapStart cs) (hf : 2 ^ 27 ≤ fuel) :
    ∃ t ds, s.kfree fuel (h + 12) = some t ∧ t.Rep ds ∧
      ∀ b ∈ blocks shHeapStart cs, b.1 ≠ h → b ∈ blocks shHeapStart ds := by
  obtain ⟨xs, ys, rfl, rfl⟩ := blocks_split hb
  obtain ⟨t, ht, htr⟩ := kfree_rep hr hf
  refine ⟨t, _, ht, htr, fun b hb hne => ?_⟩
  rw [release_blocks]
  rw [blocks_append] at hb
  rcases List.mem_append.1 hb with hb | hb
  · exact List.mem_append_left _ hb
  · rcases List.mem_append.1 hb with hb | hb
    · obtain rfl := List.mem_singleton.1 hb
      exact absurd rfl hne
    · exact List.mem_append_right _ hb

end Heap

/-! ### Runs -/

/-- The heap and the live blocks: the address `kmalloc` returned and the length it was called with. -/
structure HeapRun where
  heap : Heap
  live : List (Nat × Nat)

inductive HeapEvent
  /-- `fresh` is what the pages hold that the call maps. -/
  | kmalloc (l : Nat) (fresh : Bytes)
  | kfree (p : Nat)
  /-- A client stores a byte. -/
  | write (x : Nat) (v : BitVec 8)

/-- The two ranges share a byte. -/
def Overlap (p l q k : Nat) : Prop := ∃ x, p ≤ x ∧ x < p + l ∧ q ≤ x ∧ x < q + k

namespace HeapRun
variable {s t : HeapRun} {fuel : Nat}

def boot (mem : Bytes) : HeapRun := ⟨⟨mem, 0, shHeapStart, []⟩, []⟩

def step (fuel : Nat) (s : HeapRun) : HeapEvent → Option HeapRun
  | .kmalloc l fresh => do
    let (p, heap) ← s.heap.kmalloc fuel fresh l
    some ⟨heap, (p, l) :: s.live⟩
  | .kfree p => do
    let heap ← s.heap.kfree fuel p
    some ⟨heap, s.live.filter fun b => b.1 ≠ p⟩
  | .write x v => some { s with heap := { s.heap with mem := fun y => if y = x then v else s.heap.mem y } }

/-- What the callers keep to: lengths below `2 ^ 31`, and only live blocks are freed and written. -/
def Allowed (s : HeapRun) : HeapEvent → Prop
  | .kmalloc l _ => l + sizeofHeapHeader < 2 ^ 31
  | .kfree p => ∃ b ∈ s.live, b.1 = p
  | .write x _ => ∃ b ∈ s.live, b.1 ≤ x ∧ x < b.1 + b.2

def Spared (fuel : Nat) (s : HeapRun) : HeapEvent → Prop
  | .kmalloc l _ => s.heap.Spared fuel l
  | _ => True

/-- The headers that the heap will still read: of live blocks, of the first chunk, and what they link to. -/
inductive Header (s : HeapRun) : Nat → Prop
  | first : s.heap.shHeap ≠ 0 → Header s s.heap.shHeap
  | live {b : Nat × Nat} : b ∈ s.live → Header s (sub32 b.1 sizeofHeapHeader)
  | next {h : Nat} : Header s h → s.heap.mem.next h ≠ 0 → Header s (s.heap.mem.next h)
  | prev {h : Nat} : Header s h → s.heap.mem.prev h ≠ 0 → Header s (s.heap.mem.prev h)

structure Isolated (s : HeapRun) : Prop where
  inside : ∀ b ∈ s.live, shHeapStart ≤ b.1 ∧ b.1 + b.2 ≤ s.heap.shHeapMax
  mapped : ∀ b ∈ s.live, ∀ x, b.1 ≤ x → x < b.1 + b.2 → x / 4096 * 4096 ∈ s.heap.mapped
  apart : s.live.Pairwise fun b c => ¬ Overlap b.1 b.2 c.1 c.2
  headers : ∀ b ∈ s.live, ∀ h, s.Header h → ¬ Overlap b.1 b.2 h sizeofHeapHeader

/-- The chunks tile the heap, and every live block lies behind the header of one that is in use. -/
structure Inv (s : HeapRun) (cs : List Chunk) : Prop where
  rep : s.heap.Rep cs
  blocks : ∀ b ∈ s.live, ∃ h n, b.1 = h + 12 ∧ b.2 + 12 ≤ n ∧ (h, n) ∈ blocks shHeapStart cs
  nodup : (s.live.map Prod.fst).Nodup

theorem Inv.boot (mem : Bytes) : Inv (boot mem) [] := by
  have hstart : shHeapStart ≤ pmStackAddr := by decide
  have halign : shHeapStart % 4096 = 0 := by decide
  refine ⟨⟨rfl, trivial, by rintro _ ⟨⟩, hstart, .nil, ⟨halign, Nat.le_refl _, hstart, fun page => ?_⟩, rfl⟩,
    by rintro _ ⟨⟩, .nil⟩
  simp only [HeapRun.boot, List.not_mem_nil, false_iff]
  omega

theorem Inv.step {e : HeapEvent} {cs : List Chunk} (h : Inv s cs) (ha : s.Allowed e) (hs : s.Spared fuel e)
    (hf : 2 ^ 27 ≤ fuel) : ∃ t ds, s.step fuel e = some t ∧ Inv t ds := by
  cases e with
  | kmalloc l fresh =>
    obtain ⟨g, n, t, ds, ht, htr, hl, hb, hold⟩ := Heap.kmalloc_rep h.rep hs hf fresh
    refine ⟨⟨t, (g + 12, l) :: s.live⟩, ds, ?_, htr, ?_, ?_⟩
    · rw [HeapRun.step, ht]
      rfl
    · refine List.forall_mem_cons.2 ⟨⟨g, n, rfl, hl, hb⟩, fun b hlive => ?_⟩
      obtain ⟨g', n', h1, h2, h3⟩ := h.blocks b hlive
      exact ⟨g', n', h1, h2, (hold _ h3).1⟩
    · rw [List.map_cons, List.nodup_cons]
      refine ⟨fun hmem => ?_, h.nodup⟩
      obtain ⟨b, hlive, he⟩ := List.mem_map.1 hmem
      obtain ⟨g', n', h1, -, h3⟩ := h.blocks b hlive
      have hne := (hold _ h3).2
      dsimp only at hne
      omega
  | kfree p =>
    obtain ⟨b, hlive, rfl⟩ := ha
    obtain ⟨g, n, h1, -, h3⟩ := h.blocks b hlive
    obtain ⟨t, ds, ht, htr, hold⟩ := Heap.kfree_blocks h.rep h3 hf
    refine ⟨⟨t, s.live.filter fun c => c.1 ≠ b.1⟩, ds, ?_, htr, fun c hc => ?_, ?_⟩
    · rw [HeapRun.step, h1, ht]
      rfl
    · obtain ⟨hc, hne⟩ := List.mem_filter.1 hc
      obtain ⟨g', n', h4, h5, h6⟩ := h.blocks c hc
      refine ⟨g', n', h4, h5, hold _ h6 fun he => ?_⟩
      exact of_decide_eq_true hne (by rw [h4, h1]; exact congrArg (· + 12) he)
    · exact (List.filter_sublist.map _).nodup h.nodup
  | write x v =>
    obtain ⟨b, hlive, hge, hlt⟩ := ha
    obtain ⟨g, n, h1, h2, h3⟩ := h.blocks b hlive
    have hr := h.rep
    refine ⟨_, cs, rfl, ⟨hr.first, ?_, hr.header, hr.room, hr.tidy, hr.pages.congr rfl rfl, hr.top⟩, h.blocks, h.nodup⟩
    refine hr.seg.congr fun d hd y hy1 hy2 => if_neg ?_
    have := starts_blocks hr.header hd h3
    omega

theorem Inv.header_mem {cs : List Chunk} {g : Nat} (h : Inv s cs) (hg : s.Header g) : g ∈ starts shHeapStart cs := by
  have hr := h.rep
  induction hg with
  | first hne =>
    cases cs with
    | nil => exact absurd hr.first hne
    | cons c cs =>
      rw [hr.shHeap_eq (by simp)]
      exact List.mem_cons_self
  | @live b hb =>
    obtain ⟨d, n, h1, -, h3⟩ := h.blocks b hb
    have hd := blocks_sub_starts h3
    have hlt := mem_starts hr.header hd
    have hroom := hr.room
    have h4 : pmStackAddr = 0xFF000000 := rfl
    have h5 : sub32 b.1 sizeofHeapHeader = d := by
      rw [h1, sub32, sizeofHeapHeader]
      omega
    rwa [h5]
  | next _ hne ih => exact (hr.seg.next_mem ih).resolve_left hne
  | prev _ hne ih => exact (hr.seg.prev_mem ih).resolve_left hne

theorem Inv.isolated {cs : List Chunk} (h : Inv s cs) : s.Isolated := by
  have hr := h.rep
  have hmax := hr.size_le_max
  have h12 : sizeofHeapHeader = 12 := rfl
  have hstart : shHeapStart = 0xC0400000 := rfl
  have hin : ∀ b ∈ s.live, shHeapStart ≤ b.1 ∧ b.1 + b.2 ≤ s.heap.shHeapMax := fun b hb => by
    obtain ⟨d, n, h1, h2, h3⟩ := h.blocks b hb
    have := mem_blocks h3
    omega
  refine ⟨hin, fun b hb x hx1 hx2 => (hr.pages.mapped _).2 ?_, ?_, fun b hb g hg => ?_⟩
  · have := hin b hb
    omega
  · have hne : s.live.Pairwise fun b c => b.1 ≠ c.1 := List.pairwise_map.1 h.nodup
    refine hne.imp_of_mem fun {b c} hb hc hne => ?_
    obtain ⟨d, n, h1, h2, h3⟩ := h.blocks b hb
    obtain ⟨d', n', h1', h2', h3'⟩ := h.blocks c hc
    rintro ⟨x, hx⟩
    rcases blocks_apart h3 h3' with he | hlt
    · exact hne (by rw [h1, h1', (Prod.mk.inj he).1])
    · omega
  · obtain ⟨d, n, h1, h2, h3⟩ := h.blocks b hb
    have := starts_blocks hr.header (h.header_mem hg) h3
    rintro ⟨x, hx⟩
    omega

/-- **Live blocks are isolated** in every state that is reached from the empty heap by calls that are spared, and
every such call returns. -/
theorem heap_isolated {mem : Bytes} (hf : 2 ^ 27 ≤ fuel)
    (h : Reach (step fuel) (fun s e => s.Allowed e ∧ s.Spared fuel e) (boot mem) s) :
    s.Isolated ∧ ∀ e, s.Allowed e → s.Spared fuel e → (s.step fuel e).isSome := by
  obtain ⟨cs, hinv⟩ : ∃ cs, Inv s cs := by
    refine h.inv (P := fun s => ∃ cs, Inv s cs) ⟨[], .boot mem⟩ ?_
    rintro s e t ⟨cs, hinv⟩ ⟨ha, hs⟩ ht
    obtain ⟨t', ds, ht', hinv'⟩ := hinv.step ha hs hf
    obtain rfl := Option.some.inj (ht'.symm.trans ht)
    exact ⟨ds, hinv'⟩
  refine ⟨hinv.isolated, fun e ha hs => ?_⟩
  obtain ⟨t, -, ht, -⟩ := hinv.step ha hs hf
  rw [ht]
  rfl

/-- These leave a free chunk in front of a live block. -/
def freedFirst : List HeapEvent := [.kmalloc 100 fun _ => 0, .kmalloc 10 fun _ => 0, .kfree (shHeapStart + 12)]

theorem exec_freedFirst : ∃ s, exec (step (2 ^ 27)) (boot fun _ => 0) freedFirst = some s ∧
    Reach (step (2 ^ 27)) (fun s e => s.Allowed e ∧ s.Spared (2 ^ 27) e) (boot fun _ => 0) s ∧
    s.live = [(shHeapStart + 124, 10)] ∧ s.heap.Rep [⟨112, false⟩, ⟨22, true⟩] := by
  have hroom1 : Heap.Spared (2 ^ 27) (boot fun _ => 0).heap 100 := by
    have h := (Inv.boot fun _ => 0).rep
    rw [Heap.Spared, h.firstFit_none (by rintro _ ⟨⟩) le_rfl, h.lastEnd_eq le_rfl]
    exact ⟨by rintro _ ⟨⟩, fun _ => by decide⟩
  obtain ⟨t, ht, htr⟩ := Heap.kmalloc_grow (l := 100) (Inv.boot fun _ => 0).rep (by rintro _ ⟨⟩) (by decide) le_rfl
    fun _ => 0
  have hx : ∀ c ∈ [(⟨112, true⟩ : Chunk)], ¬ Heap.Fits (10 + 12) c := by simp [Heap.Fits]
  have hroom2 : t.Spared (2 ^ 27) 10 := by
    rw [Heap.Spared, htr.firstFit_none hx le_rfl, htr.lastEnd_eq le_rfl]
    exact ⟨by rintro _ ⟨⟩, fun _ => by decide⟩
  obtain ⟨u, hu, hur⟩ := Heap.kmalloc_grow (l := 10) htr hx (by decide) le_rfl fun _ => 0
  have hur : u.Rep ([] ++ ⟨112, true⟩ :: [⟨22, true⟩]) := hur
  obtain ⟨v, hv, hvr⟩ := Heap.kfree_rep hur le_rfl
  have h1 : step (2 ^ 27) (boot fun _ => 0) (.kmalloc 100 fun _ => 0) = some ⟨t, [(shHeapStart + 12, 100)]⟩ := by
    rw [step, ht]
    rfl
  have h2 : step (2 ^ 27) ⟨t, [(shHeapStart + 12, 100)]⟩ (.kmalloc 10 fun _ => 0) =
      some ⟨u, [(shHeapStart + 124, 10), (shHeapStart + 12, 100)]⟩ := by
    rw [step, hu]
    rfl
  have h3 : step (2 ^ 27) ⟨u, [(shHeapStart + 124, 10), (shHeapStart + 12, 100)]⟩ (.kfree (shHeapStart + 12)) =
      some ⟨v, [(shHeapStart + 124, 10)]⟩ := by
    have hv : u.kfree (2 ^ 27) (shHeapStart + 12) = some v := hv
    rw [step, hv]
    rfl
  have ha1 : (boot fun _ => 0).Allowed (.kmalloc 100 fun _ => 0) := show 100 + 12 < 2 ^ 31 by decide
  have ha2 : (⟨t, [(shHeapStart + 12, 100)]⟩ : HeapRun).Allowed (.kmalloc 10 fun _ => 0) :=
    show 10 + 12 < 2 ^ 31 by decide
  have ha3 : (⟨u, [(shHeapStart + 124, 10), (shHeapStart + 12, 100)]⟩ : HeapRun).Allowed (.kfree (shHeapStart + 12)) :=
    ⟨_, List.mem_cons_of_mem _ List.mem_cons_self, rfl⟩
  have h0 : Reach (step (2 ^ 27)) (fun s e => s.Allowed e ∧ s.Spared (2 ^ 27) e) (boot fun _ => 0) _ := .start
  have hr := ((h0.next _ ⟨ha1, hroom1⟩ h1).next _ ⟨ha2, hroom2⟩ h2).next _ ⟨ha3, trivial⟩ h3
  refine ⟨_, ?_, hr, rfl, hvr⟩
  simp only [freedFirst, exec, h1, h2, h3, Option.bind_some]

/-- `kmalloc (90)` takes the freed chunk as it is. -/
theorem heap_isolated_reused : ∃ s,
    exec (step (2 ^ 27)) (boot fun _ => 0) (freedFirst ++ [.kmalloc 90 fun _ => 0]) = some s ∧
    s.live = [(shHeapStart + 12, 90), (shHeapStart + 124, 10)] ∧ s.Isolated := by
  obtain ⟨s, hs, hreach, hlive, hr⟩ := exec_freedFirst
  have ha : s.Allowed (.kmalloc 90 fun _ => 0) := show 90 + 12 < 2 ^ 31 by decide
  have hr : s.heap.Rep ([] ++ ⟨112, false⟩ :: [⟨22, true⟩]) := hr
  obtain ⟨hfit, hn⟩ := hr.firstFit_some (l := 90) (by rintro _ ⟨⟩) (by decide) le_rfl
  have hspared : s.heap.Spared (2 ^ 27) 90 := by
    rw [Heap.Spared, hfit]
    refine ⟨?_, by rintro ⟨⟩⟩
    rintro _ ⟨⟩
    rw [hn]
    decide
  obtain ⟨t, ht, -⟩ := Heap.kmalloc_reuse (l := 90) hr (by rintro _ ⟨⟩) (by decide) (by decide) le_rfl fun _ => 0
  have hstep : s.step (2 ^ 27) (.kmalloc 90 fun _ => 0) = some ⟨t, (shHeapStart + 12, 90) :: s.live⟩ := by
    rw [step, ht]
    rfl
  have hiso := (heap_isolated le_rfl (hreach.next _ ⟨ha, hspared⟩ hstep)).1
  refine ⟨_, ?_, by rw [hlive], hiso⟩
  rw [exec_append, hs, Option.bind_some, exec, hstep]
  rfl

/-- `kmalloc (10)` splits the freed chunk and marks the live block behind it as free; `kmalloc (60)` returns it. -/
theorem heap_overlap : ∃ s, exec (step (2 ^ 27)) (boot fun _ => 0)
      (freedFirst ++ [.kmalloc 10 fun _ => 0, .kmalloc 60 fun _ => 0]) = some s ∧
    Reach (step (2 ^ 27)) Allowed (boot fun _ => 0) s ∧
    s.live = [(shHeapStart + 124, 60), (shHeapStart + 12, 10), (shHeapStart + 124, 10)] ∧ ¬ s.Isolated := by
  obtain ⟨s, hs, hreach, hlive, hr⟩ := exec_freedFirst
  have hreach : Reach (step (2 ^ 27)) Allowed (boot fun _ => 0) s := hreach.mono fun _ _ h => h.1
  have ha : s.Allowed (.kmalloc 10 fun _ => 0) := show 10 + 12 < 2 ^ 31 by decide
  have hr : s.heap.Rep ([] ++ ⟨112, false⟩ :: [⟨22, true⟩]) := hr
  have hw : add32 10 sizeofHeapHeader = 22 := by decide
  obtain ⟨t, e, ht, hfirst, he, hc, hd⟩ := Heap.kmalloc_split hr.tiled hw (by rintro _ ⟨⟩) (by decide) le_rfl fun _ => 0
  obtain rfl : e = shHeapStart + 112 := he.symm.trans (by decide)
  have hstep : s.step (2 ^ 27) (.kmalloc 10 fun _ => 0) = some ⟨t, (shHeapStart + 12, 10) :: s.live⟩ := by
    rw [step, ht]
    rfl
  have ha' : (⟨t, (shHeapStart + 12, 10) :: s.live⟩ : HeapRun).Allowed (.kmalloc 60 fun _ => 0) :=
    show 60 + 12 < 2 ^ 31 by decide
  have hfind : Heap.findChunk t.mem 72 (2 ^ 27) shHeapStart 0 = some (shHeapStart + 112, shHeapStart) := by
    obtain ⟨f, hf⟩ : ∃ f, 2 ^ 27 = f + 2 := ⟨2 ^ 27 - 2, rfl⟩
    have hnext : t.mem.next shHeapStart = shHeapStart + 112 := hc.next
    have hused : t.mem.allocated shHeapStart = 1 := hc.allocated
    have hfree : t.mem.allocated (shHeapStart + 112) = 0 := hd.allocated
    have hlen : t.mem.length (shHeapStart + 112) = 90 := hd.length
    rw [hf, Heap.findChunk, hused, hnext, Heap.findChunk, hfree, hlen, if_neg (by decide), if_neg (by omega),
      if_neg (by decide), if_pos (by decide)]
  obtain ⟨u, hu⟩ : ∃ u, t.kmalloc (2 ^ 27) (fun _ => 0) 60 = some (shHeapStart + 124, u) := by
    have hadd : add32 60 sizeofHeapHeader = 72 := by decide
    simp only [Heap.kmalloc, hadd, hfirst, hfind, Option.bind_eq_bind, Option.bind_some]
    exact ⟨_, rfl⟩
  have hstep' : step (2 ^ 27) ⟨t, (shHeapStart + 12, 10) :: s.live⟩ (.kmalloc 60 fun _ => 0) =
      some ⟨u, (shHeapStart + 124, 60) :: (shHeapStart + 12, 10) :: s.live⟩ := by
    rw [step, hu]
    rfl
  refine ⟨_, ?_, (hreach.next _ ha hstep).next _ ha' hstep', by rw [hlive], fun h => ?_⟩
  · rw [exec_append, hs, Option.bind_some, exec, hstep, Option.bind_some, exec, hstep']
    rfl
  · have hap := h.apart
    rw [hlive] at hap
    refine List.rel_of_pairwise_cons hap (List.mem_cons_of_mem _ List.mem_cons_self) ⟨shHeapStart + 124, ?_⟩
    decide

end HeapRun
end Krypton
