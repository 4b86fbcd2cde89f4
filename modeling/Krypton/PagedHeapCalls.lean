import Krypton.HeapNull
import Krypton.PagedHeapOps

/-!
# `kmalloc` and `kfree` on page frames

`Models s t`: the machine `s` shows the flat heap `t`. Where the header of a new chunk ends below the page stack, in the
pages that `alloc_chunk` maps, `kmalloc` and `kfree` return what the flat functions return, follow the same links and
lead to a machine that shows the flat heap they leave (`Models.kmalloc`, `Models.kfree`); the `fresh` memory of the flat
model is what the frames hold. Where it does not, `kmalloc` stops with a page fault (`Models.kmalloc_faults`).
-/

namespace Krypton
open Tiling Traced

namespace PagedHeap
open Mmu Pmm

/-- The machine shows the heap `t`; `theirs` are frames in other hands. -/
def Models (s : PagedHeap) (t : Heap) (theirs : List Nat) : Prop :=
  ∃ g stored backing A hs, s.Holds g stored backing A hs theirs t.mem ∧ s.shHeap = t.shHeap ∧ s.shHeapMax = t.shHeapMax

variable {s s₀ s' : PagedHeap} {t t' : Heap} {g : Frames} {stored backing hs theirs : List Nat} {A : PageMap} {m : Bytes}
  {e l n p w fuel : Nat} {u : Bool} {cs xs ys : List Chunk}

/-- After a run of stores into headers. -/
theorem Holds.shown (h : s₀.Holds g stored backing A hs theirs m) (hs' : Shown (place hs) s₀ t s) :
    s.Holds g stored backing A hs theirs t.mem ∧ s.shHeapMax = s₀.shHeapMax := by
  have h1 := h.stores hs'.view hs'.off
  have hr := hs'.rest
  refine ⟨?_, by rw [hr]⟩
  rw [hr]
  exact { toKept := h1.toKept, top := h1.top, window := h1.window, pages := h1.pages, above := h1.above,
          nodup := h1.nodup, own := h1.own, data := h1.data, bytes := h1.bytes }

/-- The headers of the chunks are shown, and so is the one at `NULL`. -/
theorem Holds.spans_chunks (h : s.Holds g stored backing A hs theirs t.mem) (hr : t.WellFormed cs)
    (hmax : s.shHeapMax = t.shHeapMax) {x : Nat} (hx : x = 0 ∨ x ∈ starts shHeapStart cs) : Spans (place hs) x 12 := by
  have hle := hr.le_max
  refine h.spans_header (hx.imp_right fun hx => ?_)
  have := mem_starts hr.header hx
  omega

theorem findChunk_eq {φ : Nat → Option Nat} {r : Nat × Nat} (fuel : Nat) {cur prev : Nat} (hv : View s.mmu φ t.mem)
    (hr : (Heap.findChunkN l fuel cur prev).val t = some r)
    (hgood : ∀ x ∈ (Heap.findChunkN l fuel cur prev).notes t, Spans φ x 12) :
    findChunk l fuel cur prev s = (.ok r, s, (Heap.findChunkN l fuel cur prev).notes t) := by
  induction fuel generalizing cur prev with
  | zero => cases hr
  | succ fuel ih =>
    unfold Heap.findChunkN at hr hgood ⊢
    unfold findChunk
    by_cases h0 : cur = 0
    · simp only [if_pos h0, val_pure, notes_pure] at hr ⊢
      cases hr
      rfl
    · simp only [if_neg h0, val_bind, notes_bind, Heap.val_getField, Heap.state_getField, Heap.notes_getField] at hr hgood ⊢
      have hh : Spans φ cur 12 := hgood cur (by simp)
      rw [Stopping.bind_ok (getField_ok (hv.allocated hh)), Stopping.bind_ok (getField_ok (hv.length hh))]
      by_cases hfit : t.mem.allocated cur = 0 ∧ t.mem.length cur ≥ l
      · simp only [if_pos hfit, val_pure, notes_pure] at hr ⊢
        cases hr
        rfl
      · simp only [if_neg hfit, val_bind, notes_bind, Heap.val_getField, Heap.state_getField, Heap.notes_getField,
          List.forall_mem_append] at hr hgood ⊢
        rw [Stopping.bind_ok (getField_ok (hv.next hh)), ih hr hgood.2.2.2]

theorem kmalloc_eq (hw : add32 l sizeofHeapHeader = w) (hfirst : s.shHeap = t.shHeap) {φ : Nat → Option Nat}
    {r : Nat × Nat} (hv : View s.mmu φ t.mem) (hr : (Heap.findChunkN w fuel t.shHeap 0).val t = some r)
    (hgood : ∀ x ∈ (Heap.findChunkN w fuel t.shHeap 0).notes t, Spans φ x 12) :
    let k := (if r.1 ≠ 0 then takeChunk r.1 w else appendChunk fuel r.2 w) s
    kmalloc fuel l s = (k.1, k.2.1, (Heap.findChunkN w fuel t.shHeap 0).notes t ++ k.2.2) := by
  have h0 : getShHeap s = (.ok t.shHeap, s, []) := by rw [getShHeap, hfirst]
  unfold kmalloc
  rw [hw, Stopping.bind_ok h0, Stopping.bind_ok (findChunk_eq fuel hv hr hgood)]
  rfl

/-- A chunk that fits is taken, and nothing but headers is stored to. -/
theorem Models.kmalloc_found (h : s.Models t theirs) (hr : t.WellFormed (xs ++ ⟨n, false⟩ :: ys))
    (hw : add32 l sizeofHeapHeader = w) (hx : ∀ c ∈ xs, ¬ Heap.Fits w c) (hl : w ≤ n) (hf : 2 ^ 27 ≤ fuel)
    (fresh : Bytes) :
    ∃ s', kmalloc fuel l s =
        (.ok (add32 (shHeapStart + size xs) sizeofHeapHeader), s', (Heap.kmallocN fuel fresh l).notes t) ∧
      s'.Models ((Heap.kmallocN fuel fresh l).state t) theirs ∧ s'.pmLastPage = s.pmLastPage := by
  obtain ⟨g, stored, backing, A, hs, hh, hfirst, hmax⟩ := h
  obtain ⟨hval, hn, hstate, -⟩ := Heap.kmallocN_found hr.toTiled hw hx hl hf fresh
  have hspan : ∀ x ∈ starts shHeapStart (xs ++ ⟨n, false⟩ :: ys), Spans (place hs) x 12 := fun x hx =>
    hh.spans_chunks hr hmax (.inr hx)
  have hfind := Heap.findChunkN_notes (l := w) hr.seg (by decide) fuel
  rw [← hr.first] at hfind
  have hne : shHeapStart + size xs ≠ 0 := by
    have h4 : shHeapStart = 0xC0400000 := rfl
    omega
  have htake : ∀ x ∈ (Heap.takeChunkN (shHeapStart + size xs) w).notes t, Spans (place hs) x 12 := by
    simp only [Heap.takeChunkN, notes_bind, Heap.notes_setField, notes_pure, List.append_nil, List.forall_mem_append,
      List.forall_mem_singleton]
    exact ⟨fun x hx => hspan x (Heap.splitChunkN_mem hr w x hx), hspan _ (mem_starts_middle ..)⟩
  obtain ⟨s', hk, hR'⟩ := takeChunk_follows t s (.start hh.view hfirst) htake
  have hsame : (Heap.takeChunkN (shHeapStart + size xs) w).state t = { t with
      mem := (Heap.splitChunk t.mem (shHeapStart + size xs) w).setAllocated (shHeapStart + size xs) 1 } := by
    rw [Heap.takeChunkN, state_bind, Heap.splitChunkN_state, state_bind, Heap.state_setField, state_pure]
  obtain ⟨hh', hmax'⟩ := hh.shown hR'
  rw [kmalloc_eq hw hfirst hh.view hval fun x hx => hspan x (hfind x hx), hn, hstate]
  dsimp only
  rw [if_pos hne, hk]
  refine ⟨s', rfl, ⟨g, stored, backing, A, hs, hh', hR'.shHeap, ?_⟩, by rw [hR'.rest]⟩
  rw [hmax', hmax, hsame]

/-- What `kmalloc` finds where no chunk fits, and the links it has followed. -/
theorem find_none (hr : t.WellFormed cs) (hx : ∀ c ∈ cs, ¬ Heap.Fits w c) (hf : 2 ^ 27 ≤ fuel) :
    (Heap.findChunkN w fuel t.shHeap 0).val t = some (0, back 0 shHeapStart cs) ∧
      ∀ x ∈ (Heap.findChunkN w fuel t.shHeap 0).notes t, x ∈ starts shHeapStart cs := by
  rw [(Heap.findChunkN_eq t w fuel t.shHeap 0).1, hr.first]
  exact ⟨Heap.findChunk_none hr.seg (by decide) hx (hr.length_lt hf), Heap.findChunkN_notes hr.seg (by decide) fuel⟩

theorem Holds.chunkStart (h : s.Holds g stored backing A hs theirs t.mem) (hr : t.WellFormed cs)
    (hfirst : s.shHeap = t.shHeap) (hmax : s.shHeapMax = t.shHeapMax) :
    ∃ s₁, PagedHeap.chunkStart (back 0 shHeapStart cs) s =
        (.ok (shHeapStart + size cs), s₁, if cs = [] then [] else [back 0 shHeapStart cs]) ∧
      Shown (place hs) s { t with shHeap := shHeapStart } s₁ := by
  obtain ⟨hval, hstate, hnotes⟩ := Heap.chunkStartN_spec hr
  have hgood : ∀ x ∈ (Heap.chunkStartN (back 0 shHeapStart cs)).notes t, Spans (place hs) x 12 := by
    rw [hnotes]
    split_ifs with hc
    · rintro _ ⟨⟩
    · rintro x hx
      obtain rfl := List.mem_singleton.1 hx
      exact h.spans_chunks hr hmax (.inr (back_mem_starts _ hc))
  obtain ⟨s₁, h1, hR⟩ := chunkStart_follows t s (.start h.view hfirst) hgood
  rw [hval, hnotes] at h1
  rw [hstate] at hR
  exact ⟨s₁, h1, hR⟩

/-- Where none fits, a new chunk is made, if its header lies in the pages that are mapped for it. -/
theorem Models.kmalloc_grow {a : Nat} (h : s.Models t theirs) (hr : t.WellFormed cs)
    (hw : add32 l sizeofHeapHeader = w) (hx : ∀ c ∈ cs, ¬ Heap.Fits w c) (ha : shHeapStart + size cs = a)
    (he : add32 a w = e) (hle : e ≤ pmStackAddr)
    (hroom : s.pmLastPage + 0x2000 * ((e + 4095 - t.shHeapMax) / 4096) < 2 ^ 32)
    (hend : a + 12 ≤ max t.shHeapMax (Heap.pageUp e)) (hf : 2 ^ 27 ≤ fuel) :
    ∃ fresh s', kmalloc fuel l s =
        (.ok (add32 a sizeofHeapHeader), s', (Heap.kmallocN fuel fresh l).notes t) ∧
      s'.Models ((Heap.kmallocN fuel fresh l).state t) theirs ∧
      (Heap.kmallocN fuel fresh l).val t = some (add32 a sizeofHeapHeader) ∧
      s'.pmLastPage ≤ s.pmLastPage + 0x2000 * ((e + 4095 - t.shHeapMax) / 4096) ∧
      back 0 shHeapStart cs ∈ (Heap.kmallocN fuel fresh l).notes t := by
  have h3 : pmStackAddr = 0xFF000000 := rfl
  have h4 : shHeapStart = 0xC0400000 := rfl
  have h5 : Heap.pageUp e = (e + 4095) / 4096 * 4096 := rfl
  obtain ⟨g, stored, backing, A, hs, hh, hfirst, hmax⟩ := h
  have htop : t.shHeapMax = (a + 4095) / 4096 * 4096 := ha ▸ hr.top
  obtain ⟨hval, hfind⟩ := find_none hr hx hf
  obtain ⟨s₁, hs₁, hR₁⟩ := hh.chunkStart hr hfirst hmax
  obtain ⟨hh₁, hmax₁⟩ := hh.shown hR₁
  have hlast₁ : s₁.pmLastPage = s.pmLastPage := by rw [hR₁.rest]
  -- the pages, here and in the flat heap
  obtain ⟨s₂, g₂, st₂, A₂, hs₂, m, halloc, hh₂, hfirst₂, hmax₂, hlast₂, hold⟩ := hh₁.allocChunk he hle
    (by rw [hlast₁, hmax₁, hmax]; exact hroom) (show 0 < fuel by omega) (by omega)
  obtain ⟨t₂, ht₂, htfirst, htmax, -, -⟩ := Heap.allocChunk_spec (s := { t with shHeap := shHeapStart }) fuel he
    (by dsimp only; omega) (by omega) (by omega) (by dsimp only; omega) m
  have hmem : ∀ x < t₂.shHeapMax, t₂.mem x = m x := Heap.allocChunk_mem fuel ht₂ fun x hx => by
    dsimp only at hx ⊢
    exact (hold x (by omega)).symm
  have hmax₂' : s₂.shHeapMax = t₂.shHeapMax := by rw [hmax₂, htmax, hmax₁, hmax]
  have hh₃ : s₂.Holds g₂ st₂ backing A₂ hs₂ theirs t₂.mem := by
    refine hh₂.congr fun {v p} hv => hmem v ?_
    have htop₂ := hh₂.top
    rcases place_cases hv with ⟨hlt, -⟩ | ⟨j, hj, -, hlt, -⟩
    · omega
    · omega
  have hgood : ∀ x ∈ (Heap.linkChunkN a (back 0 shHeapStart cs) w).notes t₂, Spans (place hs₂) x 12 := by
    have hb : Spans (place hs₂) (back 0 shHeapStart cs) 12 := by
      refine hh₃.spans_header ?_
      rcases back_bounds hr.header 0 shHeapStart with ⟨-, hb⟩ | ⟨-, h1, h2⟩
      · exact .inl hb
      · exact .inr ⟨h1, by omega⟩
    have hn : Spans (place hs₂) a 12 := hh₃.spans_header (.inr ⟨by omega, by omega⟩)
    simp only [Heap.linkChunkN, notes_bind, Heap.notes_setField, List.cons_append, List.nil_append, List.forall_mem_cons]
    exact ⟨hn, hn, hn, hn, hb, by rintro _ ⟨⟩⟩
  obtain ⟨s₃, hs₃, hR₃⟩ := linkChunk_follows t₂ s₂
    (.start hh₃.view (hfirst₂.trans (hR₁.shHeap.trans htfirst.symm))) hgood
  obtain ⟨hh₄, hmax₄⟩ := hh₃.shown hR₃
  obtain ⟨hn, hstate, hkval⟩ := Heap.kmallocN_grow hr hw hx hf m
  obtain ⟨haval, hastate, hanotes⟩ := Heap.appendChunkN_eq hr ha ht₂
  have happend : appendChunk fuel (back 0 shHeapStart cs) w s = (.ok (add32 a sizeofHeapHeader), s₃,
      (Heap.appendChunkN fuel m (back 0 shHeapStart cs) w).notes t) := by
    unfold appendChunk
    rw [Stopping.bind_ok hs₁, ha, Stopping.bind_ok (pages_ok halloc), Stopping.bind_ok hs₃, hanotes]
    simp only [pure, ExceptT.pure, ExceptT.mk, List.append_nil, List.nil_append]
  rw [kmalloc_eq hw hfirst hh.view hval fun x hx => hh.spans_chunks hr hmax (.inr (hfind x hx))]
  dsimp only
  rw [if_neg (fun h => h rfl), happend]
  refine ⟨m, s₃, by rw [hn], ⟨g₂, st₂, backing, A₂, hs₂, ?_, ?_, ?_⟩, hkval.trans haval, ?_, ?_⟩
  · rw [hstate, hastate]
    exact hh₄
  · rw [hstate, hastate]
    exact hR₃.shHeap
  · rw [hstate, hastate, hmax₄, hmax₂']
    simp only [Heap.linkChunkN, state_bind, Heap.state_setField]
  · rw [hlast₁, hmax₁, hmax] at hlast₂
    rw [hR₃.rest]
    exact hlast₂
  · rw [hn, hanotes]
    refine List.mem_append_right _ (List.mem_append_right _ ?_)
    simp only [Heap.linkChunkN, notes_bind, Heap.notes_setField, List.mem_append, List.mem_singleton, or_true]

/-- A header that reaches behind the mapped pages is not written to its end. -/
theorem Holds.linkChunk_faults {a prev : Nat} (h : s.Holds g stored backing A hs theirs m) (h1 : shHeapStart ≤ a)
    (h2 : a ≤ s.shHeapMax) (h3 : s.shHeapMax < a + 12) (h4 : a + 12 ≤ pmStackAddr) :
    ∃ s' ns, linkChunk a prev l s = (.error .pageFault, s', ns) ∧ ∀ x ∈ ns, x = a := by
  have h5 : pmStackAddr = 0xFF000000 := rfl
  obtain ⟨c, hc⟩ : ∃ c, max s.shHeapMax (a + 4) = c := ⟨_, rfl⟩
  have hnone : s.mmu.walk c = none := h.walk_above (by omega) (by omega)
  have hlow : ∀ v, a + 4 ≤ v → v < c → ∃ p, place hs v = some p := fun v hv hlt =>
    h.spans (a := v) (n := 1) (by omega) (by omega) v (Nat.le_refl v) (Nat.lt_succ_self v)
  unfold linkChunk
  by_cases hcut : s.shHeapMax < a + 8
  · have hstore : s.mmu.setPrev a prev = none := h.view.storeWord_none hlow (by omega) hnone (by omega) (by omega) prev
    rw [Stopping.bind_error (setField_fault hstore)]
    exact ⟨s, [a], rfl, fun x hx => List.mem_singleton.1 hx⟩
  · obtain ⟨m₁, e1, v1, c1⟩ := h.view.walk_none
      (h.view.storeWord (h.spans (a := a + 4) (n := 4) (by omega) (by omega)) prev) (by omega) hnone
    obtain ⟨m₂, e2, v2, c2⟩ := v1.walk_none
      (v1.storeWord (h.spans (a := a) (n := 4) (by omega) (by omega)) 0) (by omega) c1
    have hload : m₂.length a = none := by
      rw [Mmu.length, View.loadWord_none c2 (by omega) (by omega), Option.map_none]
    have hflag : m₂.setAllocated a 1 = none := by
      rw [Mmu.setAllocated, hload]
      rfl
    have hprev : setPrev a prev s = (.ok (), { s with mmu := m₁ }, [a]) := setField_ok e1
    have hnext : setNext a 0 { s with mmu := m₁ } = (.ok (), { s with mmu := m₂ }, [a]) := setField_ok e2
    rw [Stopping.bind_ok hprev, Stopping.bind_ok hnext, Stopping.bind_error (setField_fault hflag)]
    refine ⟨_, _, rfl, fun x hx => ?_⟩
    simpa using hx

/-- A sum that has wrapped maps no page, and the header behind the heap is not there. -/
theorem Models.kmalloc_faults {a : Nat} (h : s.Models t theirs) (hr : t.WellFormed cs)
    (hw : add32 l sizeofHeapHeader = w) (hx : ∀ c ∈ cs, ¬ Heap.Fits w c) (ha : shHeapStart + size cs = a)
    (hle : add32 a w ≤ t.shHeapMax) (hlt : t.shHeapMax < a + 12) (hend : a + 12 ≤ pmStackAddr) (hf : 2 ^ 27 ≤ fuel) :
    ∃ s' ns, kmalloc fuel l s = (.error .pageFault, s', ns) ∧ ∀ x ∈ ns, x ∈ starts shHeapStart cs ∨ x = a := by
  obtain ⟨g, stored, backing, A, hs, hh, hfirst, hmax⟩ := h
  obtain ⟨hval, hfind⟩ := find_none hr hx hf
  obtain ⟨s₁, hs₁, hR₁⟩ := hh.chunkStart hr hfirst hmax
  obtain ⟨hh₁, hmax₁⟩ := hh.shown hR₁
  have hle' := hr.le_max
  have halloc : PagedHeap.allocChunk fuel s₁ a w = .ok s₁ := by
    obtain ⟨f, rfl⟩ : ∃ f, fuel = f + 1 := ⟨fuel - 1, by omega⟩
    rw [PagedHeap.allocChunk, if_neg]
    rw [hmax₁, hmax]
    exact Nat.not_lt.2 hle
  obtain ⟨s₂, ns, hlink, hns⟩ : ∃ s' ns, linkChunk a (back 0 shHeapStart cs) w s₁ = (.error .pageFault, s', ns) ∧
      ∀ x ∈ ns, x = a :=
    hh₁.linkChunk_faults (ha ▸ Nat.le_add_right ..) (by omega) (by omega) hend
  have happend : appendChunk fuel (back 0 shHeapStart cs) w s = (.error .pageFault, s₂,
      (if cs = [] then [] else [back 0 shHeapStart cs]) ++ ([] ++ ns)) := by
    unfold appendChunk
    rw [Stopping.bind_ok hs₁, ha, Stopping.bind_ok (pages_ok halloc), Stopping.bind_error hlink]
  rw [kmalloc_eq hw hfirst hh.view hval fun x hx => hh.spans_chunks hr hmax (.inr (hfind x hx))]
  dsimp only
  rw [if_neg (fun h => h rfl), happend]
  refine ⟨s₂, _, rfl, fun x hx => ?_⟩
  rcases List.mem_append.1 hx with hx | hx
  · exact .inl (hfind x hx)
  · rcases List.mem_append.1 hx with hx | hx
    · split_ifs at hx with hc
      · cases hx
      · obtain rfl := List.mem_singleton.1 hx
        exact .inl (back_mem_starts _ hc)
    · exact .inr (hns x hx)

/-! ### `kfree` -/

/-- A free last chunk is unlinked and its pages are given back. -/
theorem Holds.freeChunk {c : Nat} (h : s.Holds g stored backing A hs theirs t.mem) (hfirst : s.shHeap = t.shHeap)
    (hmax : s.shHeapMax = t.shHeapMax) (hge : shHeapStart ≤ c) (hle : c ≤ t.shHeapMax)
    (hgood : ∀ x ∈ (Heap.freeChunkN fuel c).notes t, Spans (place hs) x 12) (hf : 2 ^ 27 ≤ fuel) :
    ∃ s', PagedHeap.freeChunk fuel c s = (.ok (), s', (Heap.freeChunkN fuel c).notes t) ∧
      s'.Models ((Heap.freeChunkN fuel c).state t) theirs ∧ s'.pmLastPage = s.pmLastPage := by
  have h3 : pmStackAddr = 0xFF000000 := rfl
  have h4 : shHeapStart = 0xC0400000 := rfl
  have htop := h.top
  have hwin := h.window
  unfold PagedHeap.freeChunk Heap.freeChunkN at *
  obtain ⟨hg, -⟩ := forall_notes_bind.1 hgood
  refine unlinkChunk_follows.andThen (.start h.view hfirst) hg fun s₁ hR₁ => ?_
  obtain ⟨hh₁, hmax₁⟩ := h.shown hR₁
  obtain ⟨t₁, ht₁⟩ : ∃ t₁, (Heap.unlinkChunkN c).state t = t₁ := ⟨_, rfl⟩
  have htmax : t₁.shHeapMax = t.shHeapMax := by
    rw [← ht₁, Heap.unlinkChunkN]
    simp only [state_bind, state_ite, state_pure, Heap.state_getField, Heap.state_setField, Heap.setShHeap, state_silent]
    split_ifs
    · rfl
    · rfl
  rw [state_bind, ht₁]
  rw [ht₁] at hR₁ hh₁
  obtain ⟨t₂, ht₂, htfirst, htmax₂, htmem, -⟩ := Heap.shrink_spec (s := t₁) (e := c) (by omega) (by omega) hge
    (by omega) (show t₁.shHeapMax < c + 4096 * fuel by omega)
  obtain ⟨s₂, g₂, st₂, bk₂, A₂, hs₂, hshrink, hh₂, hfirst₂, hmax₂, hlast₂⟩ := hh₁.shrink hge (by omega)
    (show s₁.shHeapMax < c + 4096 * fuel by omega)
  refine ⟨s₂, pages_ok hshrink, ⟨g₂, st₂, bk₂, A₂, hs₂, ?_, ?_, ?_⟩, by rw [hlast₂, hR₁.rest]⟩
  · rw [Heap.pages, state_silent, ht₂]
    dsimp only [Option.getD_some]
    rw [htmem]
    exact hh₂
  · rw [Heap.pages, state_silent, ht₂]
    exact hfirst₂.trans (hR₁.shHeap.trans htfirst.symm)
  · rw [Heap.pages, state_silent, ht₂]
    exact hmax₂.trans htmax₂.symm

/-- `kfree` of a chunk does what it does to the flat heap. -/
theorem Models.kfree (h : s.Models t theirs) (hr : t.WellFormed (xs ++ ⟨n, u⟩ :: ys))
    (hp : sub32 p sizeofHeapHeader = shHeapStart + size xs) (hf : 2 ^ 27 ≤ fuel) :
    ∃ s', PagedHeap.kfree fuel p s = (.ok (), s', (Heap.kfreeN fuel p).notes t) ∧
      s'.Models ((Heap.kfreeN fuel p).state t) theirs ∧ s'.pmLastPage = s.pmLastPage := by
  obtain ⟨g, stored, backing, A, hs, hh, hfirst, hmax⟩ := h
  have hle := hr.le_max
  have hgood : ∀ x ∈ (Heap.kfreeN fuel p).notes t, Spans (place hs) x 12 := fun x hx =>
    hh.spans_chunks hr hmax (Heap.kfreeN_notes_row hr hp x hx)
  -- what the two halves of `glue_chunk` make of the chunks
  obtain ⟨m, ws, j, zs, hglue, htiled, hsize, -⟩ := (hr.toTiled.mark false).glue hr.mark_fits
  unfold PagedHeap.kfree Heap.kfreeN PagedHeap.glueChunk Heap.glueChunkN at *
  rw [hp] at *
  obtain ⟨hg₁, hgood⟩ := forall_notes_bind.1 hgood
  refine setAllocated_follows.andThen (.start hh.view hfirst) hg₁ fun s₁ hR₁ => ?_
  obtain ⟨hg₂, hgood⟩ := forall_notes_bind.1 hgood
  refine glueNext_follows.andThen hR₁ hg₂ fun s₂ hR₂ => ?_
  obtain ⟨hg₃, hgood⟩ := forall_notes_bind.1 hgood
  refine gluePrev_follows.andThen hR₂ hg₃ fun s₃ hR₃ => ?_
  obtain ⟨hg₄, hgood⟩ := forall_notes_bind.1 hgood
  refine next_follows.andThen hR₃ hg₄ fun s₄ hR₄ => ?_
  dsimp only [Bool.toNat_false] at hglue htiled
  simp only [state_bind, Heap.gluePrevN_eq, Heap.glueNextN_state, Heap.state_setField, Heap.state_getField,
    Heap.val_getField, hglue] at hgood hR₄ ⊢
  obtain ⟨hh₄, hmax₄⟩ := hh.shown hR₄
  by_cases hlast : m.next (shHeapStart + size ws) = 0
  · simp only [if_pos hlast] at hgood ⊢
    have hcle : shHeapStart + size ws ≤ t.shHeapMax := by
      rw [size_append, size_cons] at hsize hle
      rw [size_append, size_cons] at hsize
      dsimp only at hsize hle
      omega
    obtain ⟨s', h1, h2, h3⟩ := hh₄.freeChunk hR₄.shHeap (hmax₄.trans hmax) (Nat.le_add_right ..) hcle hgood hf
    exact ⟨s', h1, h2, h3.trans (by rw [hR₄.rest])⟩
  · simp only [if_neg hlast]
    exact ⟨s₄, rfl, ⟨g, stored, backing, A, hs, hh₄, hR₄.shHeap, hmax₄.trans hmax⟩, by rw [hR₄.rest]⟩

end PagedHeap
end Krypton
