import Krypton.PagedHeapBoot

/-!
# Runs of the heap on page frames

Calls of `kmalloc` and `kfree` and stores of the clients, on a machine where others take frames from `pm_alloc`, give
them back and write to them. Behind `mm_init`, where the calls are `Spared` in the sense of the flat heap and
`pm_last_page` does not wrap, every run of the machine is one of the flat heap (`heap_refines`): no call faults, the
addresses are the same, and the machine shows the memory of the flat heap to the end. The bytes of the live blocks then
lie on different bytes of frames that nobody else holds.
-/

namespace Krypton
open Tiling Mmu

namespace PagedHeap
variable {s s' : PagedHeap} {t : Heap} {theirs : List Nat} {cs : List Chunk} {l p v fuel : Nat}

/-- The heap as the processor sees it. -/
def flat (s : PagedHeap) : Heap where
  mem v := (s.mmu.loadByte v).getD 0
  shHeap := s.shHeap
  shHeapMax := s.shHeapMax
  mapped := (List.range ((s.shHeapMax - shHeapStart) / 4096)).map fun j => shHeapStart + 4096 * j

theorem Models.flat_mem (h : s.Models t theirs) (hv : v < 12 ∨ shHeapStart ≤ v ∧ v < t.shHeapMax) :
    s.flat.mem v = t.mem v := by
  obtain ⟨g, stored, backing, A, hs, hh, -, hmax⟩ := h
  obtain ⟨q, hq⟩ : ∃ q, place hs v = some q := by
    rcases hv with hv | ⟨h1, h2⟩
    · exact ⟨v, place_null hv⟩
    · exact hh.spans (n := 1) h1 (by omega) v (Nat.le_refl v) (Nat.lt_succ_self v)
  show (s.mmu.loadByte v).getD 0 = _
  rw [hh.view.loadByte hq, Option.getD_some]

/-- The machine shows what the processor sees. -/
theorem Models.rep (h : s.Models t theirs) (hr : t.WellFormed cs) : s.flat.Rep cs := by
  have hle := hr.le_max
  obtain ⟨hfirst, hmax, hwin⟩ : s.shHeap = t.shHeap ∧ s.shHeapMax = t.shHeapMax ∧ s.shHeapMax ≤ pmStackAddr := by
    obtain ⟨_, _, _, _, _, hh, hfirst, hmax⟩ := h
    exact ⟨hfirst, hmax, hh.window⟩
  have htop : t.shHeapMax = (shHeapStart + size cs + 4095) / 4096 * 4096 := hr.top
  have h4 : shHeapStart = 0xC0400000 := rfl
  refine ⟨hfirst.trans hr.first, hr.seg.congr fun d hd y h1 h2 => h.flat_mem (.inr ?_), hr.header, by omega, hr.tidy,
    ⟨?_, ?_, hwin, fun page => ?_⟩, hmax.trans hr.top⟩
  · have := mem_starts hr.header hd
    omega
  · show s.shHeapMax % 4096 = 0
    omega
  · show shHeapStart ≤ s.shHeapMax
    omega
  · show page ∈ List.map _ _ ↔ shHeapStart ≤ page ∧ page < s.shHeapMax ∧ page % 4096 = 0
    rw [List.mem_map]
    constructor
    · rintro ⟨j, hj, rfl⟩
      rw [List.mem_range] at hj
      omega
    · intro hp
      exact ⟨(page - shHeapStart) / 4096, by rw [List.mem_range]; omega, by omega⟩

theorem spared_congr {t' : Heap} (hr : t.Rep cs) (hr' : t'.Rep cs) (hf : 2 ^ 27 ≤ fuel) :
    t.Spared fuel l ↔ t'.Spared fuel l := by
  unfold Heap.Spared
  rw [hr.lastEnd_eq hf, hr'.lastEnd_eq hf]
  rcases Heap.fits_cases (l + 12) cs with hx | ⟨xs, n, ys, rfl, hl, hx⟩
  · rw [hr.firstFit_none hx hf, hr'.firstFit_none hx hf]
    exact and_congr_left fun _ => ⟨fun _ _ => by rintro ⟨⟩, fun _ _ => by rintro ⟨⟩⟩
  · obtain ⟨h1, h2⟩ := hr.firstFit_some hx hl hf
    obtain ⟨h1', h2'⟩ := hr'.firstFit_some hx hl hf
    rw [h1, h1']
    simp only [Option.mem_def, Option.some.injEq, forall_eq', h2, h2']

/-- A spared call of `kmalloc`, on the machine and on the flat heap. -/
theorem Models.kmalloc (h : s.Models t theirs) (hr : t.Rep cs) (hs : t.Spared fuel l)
    (hroom : s.pmLastPage + 2 * (l + 0x2000) < 2 ^ 32) (hf : 2 ^ 27 ≤ fuel) :
    ∃ fresh p s' ns t', PagedHeap.kmalloc fuel l s = (.ok p, s', ns) ∧ t.kmalloc fuel fresh l = some (p, t') ∧
      s'.Models t' theirs ∧ s'.pmLastPage ≤ s.pmLastPage + 2 * (l + 0x2000) := by
  have h3 : pmStackAddr = 0xFF000000 := rfl
  have h4 : shHeapStart = 0xC0400000 := rfl
  have h5 : sizeofHeapHeader = 12 := rfl
  have hle := hr.wellFormed.le_max
  rcases Heap.fits_cases (l + 12) cs with hx | ⟨xs, n, ys, rfl, hl, hx⟩
  · obtain ⟨a, ha⟩ : ∃ a, shHeapStart + size cs = a := ⟨_, rfl⟩
    have hend : a + (l + 12) ≤ pmStackAddr := by
      have := hs.2 (hr.firstFit_none hx hf)
      rwa [hr.lastEnd_eq hf, ha] at this
    have hw : add32 l sizeofHeapHeader = l + 12 := Nat.mod_eq_of_lt (by omega)
    have he : add32 a (l + 12) = a + (l + 12) := Nat.mod_eq_of_lt (by omega)
    obtain ⟨fresh, s', hk, hm, hval, hlast, -⟩ := h.kmalloc_grow hr.wellFormed hw hx ha he hend (by omega)
      (by rw [Heap.pageUp]; omega) hf
    exact ⟨fresh, _, s', _, _, hk, Heap.kmallocN_eq fresh ▸ Heap.block_eq_some hval, hm, hlast.trans (by omega)⟩
  · have hw : add32 l sizeofHeapHeader = l + 12 := by
      have := hr.tiled.bounds
      exact Nat.mod_eq_of_lt (by omega)
    obtain ⟨s', hk, hm, hlast⟩ := h.kmalloc_found hr.wellFormed hw hx hl hf fun _ => 0
    obtain ⟨-, -, -, hval⟩ := Heap.kmallocN_found hr.tiled hw hx hl hf fun _ => 0
    exact ⟨_, _, s', _, _, hk, Heap.kmallocN_eq (fun _ => 0) ▸ Heap.block_eq_some hval, hm,
      hlast.trans_le (Nat.le_add_right _ _)⟩

/-- A store of a client. -/
theorem Models.write (h : s.Models t theirs) (h1 : shHeapStart ≤ v) (h2 : v < t.shHeapMax) (b : BitVec 8) :
    ∃ m, s.mmu.storeByte v b = some m ∧
      Models { s with mmu := m } { t with mem := fun y => if y = v then b else t.mem y } theirs := by
  obtain ⟨g, stored, backing, A, hs, hh, hfirst, hmax⟩ := h
  obtain ⟨q, hq⟩ := hh.spans (n := 1) h1 (by omega) v (Nat.le_refl v) (Nat.lt_succ_self v)
  obtain ⟨m, hm, hv, ho⟩ := hh.view.storeByte hq b
  refine ⟨m, hm, g, stored, backing, A, hs, (hh.stores hv ho).congr fun {w r} _ => ?_, hfirst, hmax⟩
  dsimp only
  rw [Function.update_apply]

end PagedHeap

/-! ### Runs -/

/-- The machine, the live blocks and the frames that others hold. -/
structure PagedRun where
  heap : PagedHeap
  live : List (Nat × Nat)
  theirs : List Nat

inductive PagedEvent
  | kmalloc (l : Nat)
  | kfree (p : Nat)
  /-- A client stores a byte. -/
  | write (x : Nat) (v : BitVec 8)
  /-- Somebody else calls `pm_alloc` or `pm_free`, or stores a byte at a physical address. -/
  | alloc
  | free (page : Nat)
  | fill (p : Nat) (v : BitVec 8)

namespace PagedRun
variable {s s' : PagedRun} {t : HeapRun} {fuel : Nat} {e : PagedEvent} {cs : List Chunk} {mem : Bytes}

def step (fuel : Nat) (s : PagedRun) : PagedEvent → Option PagedRun
  | .kmalloc l =>
    match s.heap.kmalloc fuel l with
    | (.ok p, heap, _) => some { s with heap := heap, live := (p, l) :: s.live }
    | (.error _, _, _) => none
  | .kfree p =>
    match s.heap.kfree fuel p with
    | (.ok (), heap, _) => some { s with heap := heap, live := s.live.filter fun b => b.1 ≠ p }
    | (.error _, _, _) => none
  | .write x v => (s.heap.mmu.storeByte x v).map fun m => { s with heap := { s.heap with mmu := m } }
  | .alloc => s.heap.pmAlloc.map fun r => { s with heap := { s.heap with toPmm := r.2 }, theirs := r.1 :: s.theirs }
  | .free page => (s.heap.pmFree page).map fun r =>
    { s with heap := { s.heap with toPmm := r }, theirs := s.theirs.erase page }
  | .fill p v => some { s with heap := { s.heap with mmu := s.heap.mmu.setByte p v } }

/-- What the callers keep to: of their blocks and their frames only. -/
def Allowed (s : PagedRun) : PagedEvent → Prop
  | .kmalloc l => l + sizeofHeapHeader < 2 ^ 31
  | .kfree p => ∃ b ∈ s.live, b.1 = p
  | .write x _ => ∃ b ∈ s.live, b.1 ≤ x ∧ x < b.1 + b.2
  | .alloc => True
  | .free page => page ∈ s.theirs
  | .fill p _ => frame p ∈ s.theirs

/-- No chunk is split, the heap ends below the page stack, and there are page frames left. -/
def Spared (fuel : Nat) (s : PagedRun) : PagedEvent → Prop
  | .kmalloc l => s.heap.flat.Spared fuel l ∧ s.heap.pmLastPage + 2 * (l + 0x2000) < 2 ^ 32
  | .alloc => s.heap.pmLastPage + 0x1000 < 2 ^ 32
  | _ => True

def boot (p : Pmm) : PagedRun := ⟨.boot p, [], []⟩

/-- The machine shows the heap of the run `t`, with the same live blocks. -/
structure Shows (s : PagedRun) (t : HeapRun) : Prop where
  models : s.heap.Models t.heap s.theirs
  live : s.live = t.live

/-- Every byte of a live block is mapped, to a frame that nobody else holds, and no two to the same byte. -/
structure Apart (s : PagedRun) : Prop where
  mapped : ∀ b ∈ s.live, ∀ x, b.1 ≤ x → x < b.1 + b.2 → ∃ p, s.heap.mmu.walk x = some p ∧ frame p ∉ s.theirs
  inj : ∀ b ∈ s.live, ∀ c ∈ s.live, ∀ x y, b.1 ≤ x → x < b.1 + b.2 → c.1 ≤ y → y < c.1 + c.2 →
    s.heap.mmu.walk x = s.heap.mmu.walk y → x = y ∧ b = c

/-- The runs of the flat heap that are compared. -/
abbrev FlatReach (fuel : Nat) : HeapRun → HeapRun → Prop :=
  Reach (HeapRun.step fuel) fun s e => s.Allowed e ∧ s.Spared fuel e

/-- One event of the machine is one of the flat heap, or none. -/
theorem Shows.step (h : s.Shows t) (hi : HeapRun.Inv t cs) (ha : s.Allowed e) (hs : s.Spared fuel e)
    (hf : 2 ^ 27 ≤ fuel) :
    ∃ s' t' ds, s.step fuel e = some s' ∧ s'.Shows t' ∧ FlatReach fuel t t' ∧ HeapRun.Inv t' ds := by
  have hr := hi.rep
  have hlive := h.live
  have hnext : ∀ (e : HeapEvent) {t'}, t.Allowed e → t.Spared fuel e → t.step fuel e = some t' →
      FlatReach fuel t t' ∧ ∃ ds, HeapRun.Inv t' ds := fun e t' ha hs ht => by
    obtain ⟨t'', ds, ht', hi'⟩ := hi.step ha hs hf
    obtain rfl := Option.some.inj (ht.symm.trans ht')
    exact ⟨Reach.start.next e ⟨ha, hs⟩ ht, ds, hi'⟩
  cases e with
  | kmalloc l =>
    obtain ⟨hs, hroom⟩ := hs
    have hs := (PagedHeap.spared_congr (h.models.rep hr.wellFormed) hr hf).1 hs
    obtain ⟨fresh, p, heap, ns, t', hk, ht, hm, -⟩ := h.models.kmalloc hr hs hroom hf
    have hstep : t.step fuel (.kmalloc l fresh) = some ⟨t', (p, l) :: t.live⟩ := by
      rw [HeapRun.step, ht]
      rfl
    obtain ⟨hreach, ds, hi'⟩ := hnext (.kmalloc l fresh) ha hs hstep
    refine ⟨{ s with heap := heap, live := (p, l) :: s.live }, _, ds, ?_, ⟨hm, by rw [hlive]⟩, hreach, hi'⟩
    rw [PagedRun.step, hk]
  | kfree p =>
    have ha' : t.Allowed (.kfree p) := by
      rw [HeapRun.Allowed, ← hlive]
      exact ha
    obtain ⟨b, hb, rfl⟩ := id ha'
    obtain ⟨d, n, h1, -, h3⟩ := hi.blocks b hb
    obtain ⟨xs, ys, rfl, hd⟩ := blocks_split h3
    have hwf := hr.wellFormed
    have hsub : sub32 b.1 sizeofHeapHeader = shHeapStart + size xs := by
      have hlt := mem_starts hr.header (blocks_sub_starts h3)
      have hroom := hr.room
      have h4 : pmStackAddr = 0xFF000000 := rfl
      have h5 : sizeofHeapHeader = 12 := rfl
      rw [sub32]
      omega
    obtain ⟨heap, hk, hm, -⟩ := h.models.kfree hwf hsub hf
    obtain ⟨t₁, ht₁, -⟩ := Heap.kfree_rep hr hf
    rw [← hd, ← h1] at ht₁
    obtain ⟨-, hstate⟩ := Heap.result_eq_some (Heap.kfreeN_eq.trans ht₁)
    rw [hstate] at hm
    have hstep : t.step fuel (.kfree b.1) = some ⟨t₁, t.live.filter fun c => c.1 ≠ b.1⟩ := by
      rw [HeapRun.step, ht₁]
      rfl
    obtain ⟨hreach, ds, hi'⟩ := hnext _ ha' trivial hstep
    refine ⟨{ s with heap := heap, live := s.live.filter fun c => c.1 ≠ b.1 }, _, ds, ?_, ⟨hm, by rw [hlive]⟩, hreach,
      hi'⟩
    rw [PagedRun.step, hk]
  | write x v =>
    have ha' : t.Allowed (.write x v) := by
      rw [HeapRun.Allowed, ← hlive]
      exact ha
    obtain ⟨b, hb, h1, h2⟩ := id ha'
    obtain ⟨h3, h4⟩ := hi.isolated.inside b hb
    obtain ⟨m, hm, hmodels⟩ := h.models.write (v := x) (by omega) (by omega) v
    obtain ⟨hreach, ds, hi'⟩ := hnext (.write x v) ha' trivial rfl
    have hstep : s.step fuel (.write x v) = some { s with heap := { s.heap with mmu := m } } := by
      rw [PagedRun.step, hm]
      rfl
    exact ⟨_, { t with heap := { t.heap with mem := fun y => if y = x then v else t.heap.mem y } }, ds, hstep,
      ⟨hmodels, hlive⟩, hreach, hi'⟩
  | alloc =>
    obtain ⟨g, stored, backing, A, hs', hh, hfirst, hmax⟩ := h.models
    obtain ⟨page, p, g', st, hp, hh'⟩ := hh.take hs
    have hstep : s.step fuel .alloc = some { s with
        heap := { s.heap with toPmm := p }, theirs := page :: s.theirs } := by
      rw [PagedRun.step, hp]
      rfl
    exact ⟨_, t, cs, hstep, ⟨⟨g', st, backing, A, hs', hh', hfirst, hmax⟩, hlive⟩, .start, hi⟩
  | free page =>
    obtain ⟨g, stored, backing, A, hs', hh, hfirst, hmax⟩ := h.models
    obtain ⟨p, g', st, bk, A', hp, hh'⟩ := hh.give ha
    have hstep : s.step fuel (.free page) = some { s with
        heap := { s.heap with toPmm := p }, theirs := s.theirs.erase page } := by
      rw [PagedRun.step, hp]
      rfl
    exact ⟨_, t, cs, hstep, ⟨⟨g', st, bk, A', hs', hh', hfirst, hmax⟩, hlive⟩, .start, hi⟩
  | fill p v =>
    obtain ⟨g, stored, backing, A, hs', hh, hfirst, hmax⟩ := h.models
    exact ⟨_, t, cs, rfl, ⟨⟨g, stored, backing, A, hs', hh.fill ha v, hfirst, hmax⟩, hlive⟩, .start, hi⟩

theorem Shows.apart (h : s.Shows t) (hi : HeapRun.Inv t cs) : s.Apart := by
  have hiso := hi.isolated
  obtain ⟨g, stored, backing, A, hs, hh, -, hmax⟩ := h.models
  have hplace : ∀ b ∈ s.live, ∀ x, b.1 ≤ x → x < b.1 + b.2 → ∃ p, place hs x = some p := fun b hb x h1 h2 => by
    obtain ⟨h3, h4⟩ := hiso.inside b (h.live ▸ hb)
    exact hh.spans (n := 1) (by omega) (by omega) x (Nat.le_refl x) (Nat.lt_succ_self x)
  refine ⟨fun b hb x h1 h2 => ?_, fun b hb c hc x y h1 h2 h3 h4 he => ?_⟩
  · obtain ⟨p, hp⟩ := hplace b hb x h1 h2
    exact ⟨p, hh.view.walk hp, fun hf => hh.frame_ne hf hp rfl⟩
  · obtain ⟨p, hp⟩ := hplace b hb x h1 h2
    obtain ⟨q, hq⟩ := hplace c hc y h3 h4
    rw [hh.view.walk hp, hh.view.walk hq] at he
    obtain rfl := Option.some.inj he
    obtain rfl := hh.view.inj hp hq
    refine ⟨rfl, ?_⟩
    by_contra hne
    have hap : s.live.Pairwise fun b c => ¬ Overlap b.1 b.2 c.1 c.2 := h.live ▸ hiso.apart
    have hsymm : Std.Symm fun b c : Nat × Nat => ¬ Overlap b.1 b.2 c.1 c.2 :=
      ⟨fun b c hno => fun ⟨x, h1, h2, h3, h4⟩ => hno ⟨x, h3, h4, h1, h2⟩⟩
    exact hap.forall hb hc hne ⟨x, h1, h2, h3, h4⟩

theorem shows_reach {p : Pmm} (hp : (PagedHeap.boot p).Models (HeapRun.boot mem).heap []) (hf : 2 ^ 27 ≤ fuel)
    (h : Reach (step fuel) (fun s e => s.Allowed e ∧ s.Spared fuel e) (boot p) s) :
    ∃ t cs, FlatReach fuel (HeapRun.boot mem) t ∧ s.Shows t ∧ HeapRun.Inv t cs := by
  refine h.inv (P := fun s => ∃ t cs, FlatReach fuel (HeapRun.boot mem) t ∧ s.Shows t ∧ HeapRun.Inv t cs)
    ⟨_, _, .start, ⟨hp, rfl⟩, .boot mem⟩ ?_
  rintro s e s' ⟨t, cs, hreach, hshows, hi⟩ ⟨ha, hs⟩ hstep
  obtain ⟨s'', t', ds, hstep', hshows', hreach', hi'⟩ := hshows.step hi ha hs hf
  obtain rfl := Option.some.inj (hstep.symm.trans hstep')
  exact ⟨t', ds, hreach.trans hreach', hshows', hi'⟩

/-- **The heap on page frames refines the flat one.** In every run behind `mm_init` whose calls are allowed and spared
the machine shows the heap of a run of the flat model, its live blocks are isolated there, and their bytes lie apart in
memory; and every such call returns. -/
theorem heap_refines {i s₀ p : Pmm} {dir low memUpper mmapAddr mmapLength n : Nat} {m : Bytes} {mes : List MmapEntry}
    (hi : i.Housing dir low memUpper) (h₀ : i.initStack memUpper = some s₀)
    (hl : Laid m mmapAddr mes (mmapAddr + mmapLength)) (hfit : mmapAddr + mmapLength < 2 ^ 32)
    (hd : mes.Pairwise MmapEntry.Apart) (hown : ∀ x ∈ Pmm.taken s₀ 0 (offered mes), Pmm.Own x)
    (hp : i.mmInit m memUpper mmapAddr mmapLength n = some p) (hf : 2 ^ 27 ≤ fuel)
    (h : Reach (step fuel) (fun s e => s.Allowed e ∧ s.Spared fuel e) (boot p) s) :
    (∃ mem t, FlatReach fuel (HeapRun.boot mem) t ∧ s.Shows t ∧ t.Isolated) ∧ s.Apart ∧
      ∀ e, s.Allowed e → s.Spared fuel e → (s.step fuel e).isSome := by
  obtain ⟨-, mem, hmodels⟩ := PagedHeap.mmInit_models hi h₀ hl hfit hd hown hp
  obtain ⟨t, cs, hreach, hshows, hinv⟩ := shows_reach hmodels hf h
  refine ⟨⟨mem, t, hreach, hshows, hinv.isolated⟩, hshows.apart hinv, fun e ha hs => ?_⟩
  obtain ⟨s', -, -, hs', -⟩ := hshows.step hinv ha hs hf
  rw [hs']
  rfl

/-! ### Two blocks -/

/-- These leave a free chunk in front of a live block, and a frame in other hands. -/
def freedFirst : List PagedEvent := [.kmalloc 100, .alloc, .kmalloc 10, .kfree (shHeapStart + 12)]

theorem kmalloc_behind {t : Heap} {l : Nat} (h : s.heap.Models t s.theirs) (hr : t.Rep cs)
    (hx : ∀ c ∈ cs, ¬ Heap.Fits (l + 12) c) (hend : shHeapStart + size cs + (l + 12) ≤ pmStackAddr)
    (hroom : s.heap.pmLastPage + 2 * (l + 0x2000) < 2 ^ 32) (hf : 2 ^ 27 ≤ fuel) :
    s.Allowed (.kmalloc l) ∧ s.Spared fuel (.kmalloc l) ∧ ∃ heap t',
      s.step fuel (.kmalloc l) = some { s with heap := heap, live := (shHeapStart + size cs + 12, l) :: s.live } ∧
      heap.Models t' s.theirs ∧ t'.Rep (cs ++ [⟨l + 12, true⟩]) ∧
      heap.pmLastPage ≤ s.heap.pmLastPage + 2 * (l + 0x2000) := by
  have h3 : pmStackAddr = 0xFF000000 := rfl
  have h4 : shHeapStart = 0xC0400000 := rfl
  have h5 : sizeofHeapHeader = 12 := rfl
  have hspared : t.Spared fuel l := by
    rw [Heap.Spared, hr.firstFit_none hx hf, hr.lastEnd_eq hf]
    exact ⟨by rintro _ ⟨⟩, fun _ => hend⟩
  have hallowed : s.Allowed (.kmalloc l) := by
    rw [Allowed]
    omega
  obtain ⟨fresh, p, heap, ns, t', hk, ht, hm, hlast⟩ := h.kmalloc hr hspared hroom hf
  obtain ⟨t'', ht', hr'⟩ := Heap.kmalloc_grow hr hx hend hf fresh
  obtain ⟨rfl, rfl⟩ := Prod.mk.inj (Option.some.inj (ht.symm.trans ht'))
  refine ⟨hallowed, ⟨(PagedHeap.spared_congr (h.rep hr.wellFormed) hr hf).2 hspared, hroom⟩, heap, t', ?_, hm, hr', hlast⟩
  rw [step, hk]

theorem exec_freedFirst {p : Pmm} (hp : (PagedHeap.boot p).Models (HeapRun.boot mem).heap [])
    (hlast : p.pmLastPage ≤ 0x10000000) :
    ∃ s t, exec (step (2 ^ 27)) (boot p) freedFirst = some s ∧
      Reach (step (2 ^ 27)) (fun s e => s.Allowed e ∧ s.Spared (2 ^ 27) e) (boot p) s ∧ s.heap.Models t s.theirs ∧
      t.Rep [⟨112, false⟩, ⟨22, true⟩] ∧ s.live = [(shHeapStart + 124, 10)] ∧ s.theirs.length = 1 ∧
      s.heap.pmLastPage ≤ 0x20000000 := by
  have hlast₀ : (boot p).heap.pmLastPage ≤ 0x10000000 := hlast
  -- 100 bytes
  obtain ⟨ha₁, hs₁, h₁, t₁, e₁, hm₁, hr₁, hlast₁⟩ := kmalloc_behind (s := boot p) (l := 100) hp
    (HeapRun.Inv.boot mem).rep (by rintro _ ⟨⟩) (by decide) (by omega) (Nat.le_refl (2 ^ 27))
  have e₁ : step (2 ^ 27) (boot p) (.kmalloc 100) = some ⟨h₁, [(shHeapStart + 12, 100)], []⟩ := e₁
  have hr₁ : t₁.Rep [⟨112, true⟩] := hr₁
  -- a frame for somebody else
  obtain ⟨g, stored, backing, A, hs, hh, hfirst, hmax⟩ := hm₁
  obtain ⟨page, p₁, g', st, hp₁, hh'⟩ := hh.take (by omega)
  have hlast₂ : p₁.pmLastPage ≤ h₁.pmLastPage + 0x1000 := by
    obtain ⟨page', p', -, ht, -, -, -, -, hle, -⟩ := hh.toKept.alloc (by omega)
    obtain ⟨-, rfl⟩ := Prod.mk.inj (Option.some.inj (hp₁.symm.trans ht))
    exact hle
  have e₂ : step (2 ^ 27) ⟨h₁, [(shHeapStart + 12, 100)], []⟩ .alloc =
      some ⟨{ h₁ with toPmm := p₁ }, [(shHeapStart + 12, 100)], [page]⟩ := by
    rw [step, hp₁]
    rfl
  have hs₂ : Spared (2 ^ 27) ⟨h₁, [(shHeapStart + 12, 100)], []⟩ .alloc := by
    show h₁.pmLastPage + 0x1000 < 2 ^ 32
    omega
  -- 10 bytes
  obtain ⟨ha₃, hs₃, h₃, t₃, e₃, hm₃, hr₃, hlast₃⟩ := kmalloc_behind (l := 10)
    (s := ⟨{ h₁ with toPmm := p₁ }, [(shHeapStart + 12, 100)], [page]⟩) ⟨g', st, backing, A, hs, hh', hfirst, hmax⟩ hr₁
    (by simp [Heap.Fits]) (by decide) (by dsimp only; omega) (Nat.le_refl (2 ^ 27))
  have e₃ : step (2 ^ 27) ⟨{ h₁ with toPmm := p₁ }, [(shHeapStart + 12, 100)], [page]⟩ (.kmalloc 10) =
      some ⟨h₃, [(shHeapStart + 124, 10), (shHeapStart + 12, 100)], [page]⟩ := e₃
  have hr₃ : t₃.Rep ([] ++ ⟨112, true⟩ :: [⟨22, true⟩]) := hr₃
  -- the first block is freed
  obtain ⟨h₄, e₄, hm₄, hlast₄⟩ := hm₃.kfree (p := shHeapStart + 12) hr₃.wellFormed (by decide) (Nat.le_refl (2 ^ 27))
  obtain ⟨t₄, ht₄, hr₄⟩ := Heap.kfree_rep hr₃ (Nat.le_refl (2 ^ 27))
  obtain ⟨-, hstate⟩ := Heap.result_eq_some (Heap.kfreeN_eq.trans ht₄)
  have hm₄ : h₄.Models t₄ [page] := hstate ▸ hm₄
  have e₄ : step (2 ^ 27) ⟨h₃, [(shHeapStart + 124, 10), (shHeapStart + 12, 100)], [page]⟩ (.kfree (shHeapStart + 12)) =
      some ⟨h₄, [(shHeapStart + 124, 10)], [page]⟩ := by
    rw [step, e₄]
    rfl
  have ha₄ : Allowed ⟨h₃, [(shHeapStart + 124, 10), (shHeapStart + 12, 100)], [page]⟩ (.kfree (shHeapStart + 12)) :=
    ⟨_, List.mem_cons_of_mem _ List.mem_cons_self, rfl⟩
  refine ⟨⟨h₄, [(shHeapStart + 124, 10)], [page]⟩, t₄, ?_, ?_, hm₄, hr₄, rfl, rfl, ?_⟩
  · simp only [freedFirst, exec, e₁, e₂, e₃, e₄, Option.bind_some]
  · exact (((Reach.start.next _ ⟨ha₁, hs₁⟩ e₁).next _ ⟨trivial, hs₂⟩ e₂).next _ ⟨ha₃, hs₃⟩ e₃).next _ ⟨ha₄, trivial⟩ e₄
  · dsimp only at hlast₃ ⊢
    omega

/-- On a machine with 64 MiB. -/
theorem heap_refines_freedFirst : ∃ n p s,
    Pmm.bootImage.mmInit (Pmm.oneEntry 0x300000 0x2000) 64512 0x9000 24 n = some p ∧
    exec (step (2 ^ 27)) (boot p) freedFirst = some s ∧ s.live = [(shHeapStart + 124, 10)] ∧ s.theirs.length = 1 ∧
    s.Apart := by
  obtain ⟨s₀, h₀, n, p, hp, hlast, mem, hm⟩ := PagedHeap.bootImage_models
  obtain ⟨s, t, hs, hreach, -, -, hlive, htheirs, -⟩ := exec_freedFirst hm (by omega)
  have hl := PagedHeap.twoFrames_laid
  exact ⟨n, p, s, hp, hs, hlive, htheirs, (heap_refines PagedHeap.bootImage_housing h₀ hl (by decide)
    (List.pairwise_singleton _ _) PagedHeap.twoFrames_own hp (Nat.le_refl (2 ^ 27)) hreach).2.1⟩

end PagedRun
end Krypton
