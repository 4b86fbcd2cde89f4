import Krypton.PageCount

/-!
# When memory is exhausted

`pm_alloc` has no test: with an empty stack it advances `pm_last_page`, past the end of memory and on until the
address wraps to 0, which `mm_map` rejects. What `pm_free` accepts lies below `pm_last_page`, so the frames of the stack
are memory as long as `pm_last_page` is; and `mm_init` starts it 1 MiB below the end. So `pm_alloc` returns memory or 0
exactly until the counter passes the end.
-/

namespace Krypton
namespace Pmm

/-- What `mm_init` rounds `start` to. -/
def startPage (memUpper : Nat) : Nat := (memUpper * 1024 % 2 ^ 32 + 0x1000) % 2 ^ 32 / 4096 * 4096

/-- The frames `mm_init` takes for the stack and its page table. -/
def stackFrame (memUpper : Nat) : Nat := (startPage memUpper + 0x1000) % 2 ^ 32
def tableFrame (memUpper : Nat) : Nat := (stackFrame memUpper + 0x1000) % 2 ^ 32

/-- The kernel behind `init_paging`, its two tables in the image. -/
structure Image (s : Pmm) (kernelpagedir lowpagetable : Nat) : Prop where
  mmu : ∃ m, s.mmu = Mmu.initPaging m kernelpagedir lowpagetable
  seg : s.kernelSegEndPage % 4096 = 0
  aligned : kernelpagedir % 4096 = 0 ∧ lowpagetable % 4096 = 0
  ne : kernelpagedir ≠ lowpagetable
  dir : 0x100000 < kernelpagedir ∧ kernelpagedir < s.kernelSegEndPage

/-- There is a frame for the stack, and its page table does not replace one of the two. -/
def Placed (kernelpagedir lowpagetable memUpper : Nat) : Prop :=
  stackFrame memUpper ≠ 0 ∧ tableFrame memUpper ≠ kernelpagedir ∧ tableFrame memUpper ≠ lowpagetable

instance (kernelpagedir lowpagetable memUpper : Nat) : Decidable (Placed kernelpagedir lowpagetable memUpper) :=
  inferInstanceAs (Decidable (_ ∧ _ ∧ _))

/-- The frame lies in the memory the boot loader reports. -/
def InRam (memUpper f : Nat) : Prop := f + 0x1000 ≤ memUpper * 1024 + 0x100000

instance (memUpper f : Nat) : Decidable (InRam memUpper f) := inferInstanceAs (Decidable (_ ≤ _))

/-- The steps that keep to memory: an empty stack finds `pm_last_page` before the end, or at its wrap to 0. The guard of
`pm_free` is void below `0x10000`. -/
def RamKept (memUpper : Nat) : Pmm × Frames → PmmOp → Prop
  | (s, _), .alloc => ¬ s.Pops → (s.pmLastPage + 0x1000) % 2 ^ 32 = 0 ∨ InRam memUpper ((s.pmLastPage + 0x1000) % 2 ^ 32)
  | (s, _), .free page => s.StackKept (.free page) ∧ (¬ s.Refuses page → s.pmLastPage < 0x10000 → InRam memUpper page)
  | (s, _), op => s.StackKept op

variable {s s' s₀ : Pmm} {g g' g₀ : Frames} {page memUpper dir low n : Nat} {op : PmmOp} {stored backing : List Nat}

theorem Image.fresh (hi : s.Image dir low) (hp : Placed dir low memUpper) : s.mmu.FreshPage (tableFrame memUpper) := by
  obtain ⟨m, hm⟩ := hi.mmu
  obtain ⟨hdir, hlow⟩ := hi.aligned
  rw [hm]
  refine ⟨?_, hp.2.1, fun k hk hpk => ?_⟩
  · unfold tableFrame stackFrame startPage
    omega
  · rw [Mmu.initPaging_pde m hdir hlow hi.ne hk] at hpk ⊢
    split_ifs at hpk ⊢
    · rw [frame_or hdir (by decide)]
      exact hp.2.1
    · rw [frame_or hlow (by decide)]
      exact hp.2.2
    · exact absurd hpk (by decide)

theorem Image.initStack (hi : s.Image dir low) (hp : Placed dir low memUpper) :
    ∃ s₀, s.initStack memUpper = some s₀ ∧ s₀.Housed [] [] ∧ s₀.vmOnline = 0 ∧ s₀.pmLastPage = tableFrame memUpper ∧
      s₀.kernelSegEndPage = s.kernelSegEndPage ∧ frame (s₀.mmu.pde 1020) = tableFrame memUpper := by
  obtain ⟨m, hm⟩ := hi.mmu
  obtain ⟨hdir, hlow⟩ := hi.aligned
  have ht : s.mmu.Tables := hm ▸ (Mmu.initPaging_maps m hdir hlow hi.ne).tables
  have habs : ¬ present (s.mmu.pde 1020) := by
    rw [hm, Mmu.initPaging_pde m hdir hlow hi.ne (by decide), if_neg (by decide), if_neg (by decide)]
    decide
  have hcr : s.mmu.cr3 = dir := by rw [hm]; rfl
  obtain ⟨m', hs, -, ht', hc, hpr, hframe⟩ := s.initStack_eq memUpper ht habs rfl hp.1 rfl (hi.fresh hp)
  refine ⟨_, hs, ?_, rfl, rfl, rfl, hframe⟩
  refine { toWindow := .nil ht'.toSelfMapped hpr, ptr := rfl, max := rfl, seg := hi.seg, dir := ?_, apart := ?_,
           off := List.not_mem_nil, clear := List.not_mem_nil }
  · show 0x100000 < m'.cr3 ∧ m'.cr3 < s.kernelSegEndPage
    rw [hc, hcr]
    exact hi.dir
  · show frame (m'.pde 1020) ≠ m'.cr3
    rw [hframe, hc, hcr]
    exact hp.2.1

theorem tableFrame_inRam (memUpper : Nat) : InRam memUpper (tableFrame memUpper) := by
  unfold InRam tableFrame stackFrame startPage
  omega

/-- The frames of the stack are memory, and so is the last page. -/
structure Solid (memUpper : Nat) (s : Pmm) (stored backing : List Nat) : Prop extends s.Housed stored backing where
  lt : s.pmLastPage < 2 ^ 32
  last : s.pmLastPage = 0 ∨ InRam memUpper s.pmLastPage
  ram : ∀ f ∈ stored, InRam memUpper f

namespace Solid

/-- What the guard lets through. -/
theorem freed (h : s.Solid memUpper stored backing) (hok : RamKept memUpper (s, g) (.free page))
    (hr : ¬ s.Refuses page) : InRam memUpper page := by
  by_cases hlow : s.pmLastPage < 0x10000
  · exact hok.2 hr hlow
  · have hlt := h.lt
    have hlast := h.last
    unfold Refuses at hr
    unfold InRam at *
    omega

theorem alloc (h : s.Solid memUpper stored backing) : ∃ page s', s.pmAlloc = some (page, s') ∧
    (page = 0 ∨ InRam memUpper page ↔ RamKept memUpper (s, g) .alloc) ∧
      (RamKept memUpper (s, g) .alloc → ∃ st, s'.Solid memUpper st backing) := by
  obtain ⟨page, s', hs, -, hcase⟩ := h.toHoused.alloc
  refine ⟨page, s', hs, ?_⟩
  rcases hcase with ⟨hb, hpage, hlast, hh⟩ | ⟨hb, hlast, st, rfl, hh⟩
  · have hkept : page = 0 ∨ InRam memUpper page ↔ RamKept memUpper (s, g) .alloc := by
      rw [hpage]
      exact ⟨fun hp _ => hp, fun hk => hk (not_not.2 hb)⟩
    refine ⟨hkept, fun hok => ⟨stored, { toHoused := hh, lt := ?_, last := ?_, ram := h.ram }⟩⟩
    · rw [hlast, hpage]
      exact Nat.mod_lt _ (by decide)
    · rw [hlast]
      exact hkept.2 hok
  · have hpage : InRam memUpper page := h.ram page (List.mem_append_right _ (List.mem_singleton_self _))
    refine ⟨iff_of_true (.inr hpage) fun hp => absurd hb hp, fun _ => ⟨st, ?_⟩⟩
    exact { toHoused := hh, lt := hlast ▸ h.lt, last := hlast ▸ h.last,
            ram := fun f hf => h.ram f (List.mem_append_left _ hf) }

theorem free (h : s.Solid memUpper stored backing) (hok : RamKept memUpper (s, g) (.free page)) :
    ∃ s', s.pmFree page = some s' ∧ ∃ stored' backing', s'.Solid memUpper stored' backing' := by
  obtain ⟨s', hs, hst, stored', backing', hh, hstored, -⟩ := h.toHoused.free hok.1
  refine ⟨s', hs, stored', backing', ?_⟩
  refine { toHoused := hh, lt := hst.last ▸ h.lt, last := hst.last ▸ h.last, ram := fun f hf => ?_ }
  rcases hstored f hf with hf | ⟨rfl, hr⟩
  · exact h.ram f hf
  · exact h.freed hok hr

theorem step (h : ∃ stored backing, s.Solid memUpper stored backing) (hok : RamKept memUpper (s, g) op)
    (hs : pmmStep (s, g) op = some (s', g')) : ∃ stored backing, s'.Solid memUpper stored backing := by
  obtain ⟨stored, backing, h⟩ := h
  cases op with
  | alloc =>
    obtain ⟨page, s₁, h1, -, h2⟩ := h.alloc (g := g)
    cases (pmmStep_alloc g h1).symm.trans hs
    obtain ⟨st, h2⟩ := h2 hok
    exact ⟨st, backing, h2⟩
  | free page =>
    obtain ⟨s₁, h1, stored', backing', h2⟩ := h.free hok
    cases (pmmStep_free g h1).symm.trans hs
    exact ⟨stored', backing', h2⟩
  | online =>
    cases hs
    exact ⟨stored, backing, { h with }⟩
  | write p x =>
    cases hs
    exact ⟨stored, backing, { h.toHoused.write hok with lt := h.lt, last := h.last, ram := h.ram }⟩

end Solid

/-- **Exhaustion.** From `mm_init` on, in every run whose steps keep to memory, `pm_alloc` returns; and what it
returns is a frame in memory or 0, which `mm_map` rejects, exactly if this call keeps to memory too. -/
theorem exhaustion_reported_iff (hi : s.Image dir low) (hp : Placed dir low memUpper)
    (h₀ : s.initStack memUpper = some s₀) (h : Reach pmmStep (RamKept memUpper) (s₀, g₀) (s', g)) :
    ∃ page t, s'.pmAlloc = some (page, t) ∧ (page = 0 → ∀ v flags, t.mmMap page v flags = some (0, t)) ∧
      (page = 0 ∨ InRam memUpper page ↔ RamKept memUpper (s', g) .alloc) := by
  obtain ⟨s₁, hs₁, hhoused, -, hlast, -⟩ := hi.initStack hp
  obtain rfl := Option.some.inj (hs₁.symm.trans h₀)
  have hlt : tableFrame memUpper < 2 ^ 32 := Nat.mod_lt _ (by decide)
  obtain ⟨stored, backing, hsolid⟩ : ∃ stored backing, s'.Solid memUpper stored backing := by
    refine h.inv (P := fun c => ∃ stored backing, c.1.Solid memUpper stored backing) ⟨[], [], ?_⟩ ?_
    · exact { toHoused := hhoused, lt := hlast ▸ hlt, last := .inr (hlast ▸ tableFrame_inRam memUpper),
              ram := fun f hf => absurd hf List.not_mem_nil }
    · rintro ⟨s, g⟩ op ⟨s', g'⟩ hP hok hs
      exact Solid.step hP hok hs
  obtain ⟨page, t, ht, hiff, -⟩ := hsolid.alloc (g := g)
  refine ⟨page, t, ht, fun h0 v flags => ?_, hiff⟩
  unfold mmMap
  rw [if_pos h0]

theorem bootImage_image : bootImage.Image 0x105000 0x106000 where
  mmu := ⟨fun _ => 0, rfl⟩
  seg := rfl
  aligned := ⟨rfl, rfl⟩
  ne := by decide
  dir := by decide

/-- The frame after the first one that `mm_init` frees comes from the last MiB. -/
theorem exhaustion_reported_iff_first : ∃ s s₁ page t, bootImage.initStack 64512 = some s ∧
    s.pmFree 0x300000 = some s₁ ∧ s₁.pmAlloc = some (page, t) ∧ (page = 0 ∨ InRam 64512 page) := by
  obtain ⟨s, s₁, hs, hready, hlast, -, hframe, h1, hst, -⟩ := bootImage_first
  have hok : RamKept 64512 (s, Frames.start 0) (.free 0x300000) := by
    refine ⟨fun _ _ => ⟨?_, ?_⟩, fun _ _ => by decide⟩
    · rw [hframe]
      decide
    · rw [hready.max]
      decide
  obtain ⟨page, t, ht, -, hiff⟩ := exhaustion_reported_iff bootImage_image (by decide) hs
    (Reach.start.next _ hok (pmmStep_free _ h1))
  refine ⟨s, s₁, page, t, hs, h1, ht, hiff.2 fun _ => ?_⟩
  rw [hst.last, hlast]
  decide

theorem pmAlloc_run (hb : s.vmOnline = 0 ∨ s.stackPtr = pmStackAddr) (hlt : s.pmLastPage + 0x1000 * n < 2 ^ 32) :
    ∃ c, exec pmmStep (s, g) (List.replicate n .alloc) = some c ∧ (c.1.vmOnline = 0 ∨ c.1.stackPtr = pmStackAddr) ∧
      c.1.pmLastPage = s.pmLastPage + 0x1000 * n := by
  induction n generalizing s g with
  | zero => exact ⟨_, rfl, hb, rfl⟩
  | succ n ih =>
    have hbump : (s.pmLastPage + 0x1000) % 2 ^ 32 = s.pmLastPage + 0x1000 := by
      clear hb
      omega
    have halloc : s.pmAlloc = some _ := if_pos hb
    rw [List.replicate_succ, exec, pmmStep, halloc, Option.map_some, Option.bind_some]
    obtain ⟨c, hc, hbc, hlast⟩ := ih (s := { s with
        pmLastPage := (s.pmLastPage + 0x1000) % 2 ^ 32, freePages := (s.freePages + (2 ^ 32 - 1)) % 2 ^ 32 })
      hb (by dsimp only; omega)
    refine ⟨c, hc, hbc, hlast.trans ?_⟩
    dsimp only
    omega

/-- 64 MiB, of which the loader reports none as free: the frame returned next is the first one behind the memory. -/
theorem exhaustion_unreported : ∃ s c page t, bootImage.initStack 64512 = some s ∧
    exec pmmStep (s, Frames.start 0) (List.replicate 252 .alloc) = some c ∧ c.1.pmAlloc = some (page, t) ∧
    page = 0x4000000 ∧ ¬ InRam 64512 page := by
  obtain ⟨s, hs, -, hboot, hlast, -⟩ := bootImage_ready
  have hlt : s.pmLastPage + 0x1000 * 252 < 2 ^ 32 := by
    rw [hlast]
    decide
  obtain ⟨c, hc, hb, hc1⟩ := pmAlloc_run (g := Frames.start 0) (.inl hboot) hlt
  have halloc : c.1.pmAlloc = some _ := if_pos hb
  have hpage : (c.1.pmLastPage + 0x1000) % 2 ^ 32 = 0x4000000 := by omega
  refine ⟨s, c, _, _, hs, hc, halloc, hpage, ?_⟩
  dsimp only
  rw [hpage]
  decide

end Pmm
end Krypton
