import Krypton.FreePages

/-!
# The kernel image and the free-page stack

The guard of `pm_free` is all that keeps low memory and the kernel off the free-page stack. It refuses
`page > 0x100000`, but the image begins at `0x100000`: that one frame gets through, to be stored or to become a page of
the stack. Every other reserved frame stays off the stack, whatever frames are freed, and however often.
-/

namespace Krypton
namespace Pmm

/-- Low memory and the loaded kernel, by page-aligned addresses. -/
def Reserved (s : Pmm) (f : Nat) : Prop := f < 0x20000 ∨ 0x100000 ≤ f ∧ f < s.kernelSegEndPage

instance (s : Pmm) (f : Nat) : Decidable (s.Reserved f) := inferInstanceAs (Decidable (_ ∨ _))

/-- What the stack needs from outside: no store hits its pages or its tables, and a page that is added is not its own page
table and fits in the window. -/
def StackKept : Pmm → PmmOp → Prop
  | s, .free page => ¬ s.Refuses page → s.stackPtr ≥ s.stackMax →
    frame page ≠ frame (s.mmu.pde 1020) ∧ s.stackMax < 0xFF400000
  | s, .write p _ => frame p ≠ s.mmu.cr3 ∧ frame p ≠ frame (s.mmu.pde 1020) ∧
    ∀ j, pmStackAddr + 4096 * j < s.stackMax → frame p ≠ frame (s.mmu.pte 1020 j)
  | _, _ => True

/-- The calls that keep the stack clean besides: `0x100000` is not freed unless it lies above the frames in use, and
`pm_last_page` is not advanced to a reserved frame. -/
def KernelKept : Pmm × Frames → PmmOp → Prop
  | (s, _), .alloc => s.vmOnline = 0 ∨ s.stackPtr = pmStackAddr → ¬ s.Reserved ((s.pmLastPage + 0x1000) % 2 ^ 32)
  | (s, _), .free page => (page = 0x100000 → s.Refuses page) ∧ s.StackKept (.free page)
  | (s, _), op => s.StackKept op

variable {s s' s₀ : Pmm} {g g' g₀ : Frames} {stored backing : List Nat} {page : Nat} {op : PmmOp}

theorem refuses_of_reserved (hr : s.Reserved page) (hne : page ≠ 0x100000) : s.Refuses page := by
  rcases hr with hr | hr
  · exact .inr (.inr hr)
  · exact .inr (.inl (by omega))

/-- What gets through the guard lies in a frame that is not reserved. -/
theorem not_reserved_frame (hk : s.kernelSegEndPage % 4096 = 0) (hne : page = 0x100000 → s.Refuses page)
    (hr : ¬ s.Refuses page) : ¬ s.Reserved page ∧ ¬ s.Reserved (frame page) := by
  have h1 : page ≠ 0x100000 := fun he => hr (hne he)
  have h2 : ¬ s.Reserved page := fun hx => hr (refuses_of_reserved hx h1)
  refine ⟨h2, fun hx => ?_⟩
  unfold Reserved frame at hx
  unfold Refuses at hr
  omega

theorem KernelKept.stack (h : KernelKept (s, g) op) : s.StackKept op := by
  cases op with
  | alloc => trivial
  | free page => exact h.2
  | online => trivial
  | write p x => exact h

/-- The stack, on pages of its own. -/
structure Housed (s : Pmm) (stored backing : List Nat) : Prop extends s.Stack stored backing where
  seg : s.kernelSegEndPage % 4096 = 0
  dir : 0x100000 < s.mmu.cr3 ∧ s.mmu.cr3 < s.kernelSegEndPage
  apart : frame (s.mmu.pde 1020) ≠ s.mmu.cr3
  off : frame (s.mmu.pde 1020) ∉ backing
  clear : s.mmu.cr3 ∉ backing

namespace Housed

theorem still {stored' backing' : List Nat} (h : s.Housed stored backing) (hs : Stack.Still s s')
    (hstack : s'.Stack stored' backing') (hoff : frame (s.mmu.pde 1020) ∉ backing') (hclear : s.mmu.cr3 ∉ backing') :
    s'.Housed stored' backing' where
  toStack := hstack
  seg := hs.seg ▸ h.seg
  dir := by rw [hs.cr3, hs.seg]; exact h.dir
  apart := by rw [hs.pde, hs.cr3]; exact h.apart
  off := by rw [hs.pde]; exact hoff
  clear := by rw [hs.cr3]; exact hclear

theorem alloc (h : s.Housed stored backing) :
    ∃ page s', s.pmAlloc = some (page, s') ∧ s'.kernelSegEndPage = s.kernelSegEndPage ∧
      ((s.vmOnline = 0 ∨ s.stackPtr = pmStackAddr) ∧ page = (s.pmLastPage + 0x1000) % 2 ^ 32 ∧ s'.pmLastPage = page ∧
          s'.Housed stored backing ∨
        ¬ (s.vmOnline = 0 ∨ s.stackPtr = pmStackAddr) ∧ s'.pmLastPage = s.pmLastPage ∧
          ∃ st, stored = st ++ [page] ∧ s'.Housed st backing) := by
  obtain ⟨page, s', hs, hmmu, hseg, hmax, hcase⟩ := h.toStack.pmAlloc_cases
  have hhoused : ∀ st, s'.Stack st backing → s'.Housed st backing := fun st hstack =>
    { toStack := hstack, seg := hseg ▸ h.seg, dir := by rw [hmmu, hseg]; exact h.dir,
      apart := by rw [hmmu]; exact h.apart, off := by rw [hmmu]; exact h.off, clear := by rw [hmmu]; exact h.clear }
  refine ⟨page, s', hs, hseg, ?_⟩
  rcases hcase with ⟨hb, hpage, hlast, hptr⟩ | ⟨hb, st, rfl, hlast, hptr⟩
  · exact .inl ⟨hb, hpage, hlast, hhoused stored ⟨hmmu ▸ h.toWindow, hptr.trans h.ptr, hmax.trans h.max⟩⟩
  · exact .inr ⟨hb, hlast, st, rfl, hhoused st ⟨hmmu ▸ h.toWindow.pop, hptr, hmax.trans h.max⟩⟩

/-- The directory lies in the image, so the guard keeps it off. -/
theorem frame_ne_dir (h : s.Housed stored backing) (hr : ¬ s.Refuses page) : frame page ≠ s.mmu.cr3 := by
  intro he
  have hdir := h.dir
  have hseg := h.seg
  rw [← he] at hdir
  unfold frame at hdir
  unfold Refuses at hr
  omega

theorem free_full (h : s.Housed stored backing) (hok : s.StackKept (.free page)) (hr : ¬ s.Refuses page)
    (hfull : stored.length = 1024 * backing.length) :
    ∃ s', s.pmFree page = some s' ∧ Stack.Still s s' ∧ s'.Housed stored (backing ++ [frame page]) := by
  have hge := h.toStack.full_iff.2 hfull
  obtain ⟨htable, hroom⟩ := hok hr hge
  have hn : backing.length < 1024 := by
    rw [h.max] at hroom
    unfold pmStackAddr at hroom
    omega
  obtain ⟨s', hs, hst, hstack⟩ := h.toStack.pmFree_full hr hge hn h.apart h.off
  have hmem : ∀ f, f ∉ backing → f ≠ frame page → f ∉ backing ++ [frame page] := by
    intro f hf hne hx
    rcases List.mem_append.1 hx with hx | hx
    · exact hf hx
    · exact hne (List.mem_singleton.1 hx)
  exact ⟨s', hs, hst, h.still hst hstack (hmem _ h.off htable.symm) (hmem _ h.clear (h.frame_ne_dir hr).symm)⟩

/-- Any other is stored; stored words may change to it where the stack has one page twice. -/
theorem free_room (h : s.Housed stored backing) (hr : ¬ s.Refuses page)
    (hroom : stored.length ≠ 1024 * backing.length) :
    ∃ s', s.pmFree page = some s' ∧ Stack.Still s s' ∧ ∃ stored', s'.Housed stored' backing ∧
      stored'.length = stored.length + 1 ∧ (∀ f ∈ stored', f ∈ stored ∨ f = page) ∧
      (backing.Nodup → stored' = stored ++ [page]) := by
  have hfit := h.fit
  have hlt : stored.length < 1024 * backing.length := by omega
  have hge := h.toStack.full_iff.not.2 hroom
  by_cases hnd : backing.Nodup
  · have hlen : (stored ++ [page]).length = stored.length + 1 := by rw [List.length_append, List.length_singleton]
    obtain ⟨s', hs, hst, hstack⟩ := h.toStack.pmFree_room hr hge hlen (h.toWindow.push hlt hnd h.clear h.off)
    refine ⟨s', hs, hst, _, h.still hst hstack h.off h.clear, hlen, fun f hf => ?_, fun _ => rfl⟩
    exact (List.mem_append.1 hf).imp_right List.mem_singleton.1
  · obtain ⟨stored', hlen, hmem, hpush⟩ := h.toWindow.push_shared hlt h.clear h.off page
    obtain ⟨s', hs, hst, hstack⟩ := h.toStack.pmFree_room hr hge hlen hpush
    exact ⟨s', hs, hst, stored', h.still hst hstack h.off h.clear, hlen, hmem, fun hx => absurd hx hnd⟩

/-- `pm_free` drops the frame, makes it a page of the stack, or stores it. -/
theorem free (h : s.Housed stored backing) (hok : s.StackKept (.free page)) :
    ∃ s', s.pmFree page = some s' ∧ Stack.Still s s' ∧ ∃ stored' backing', s'.Housed stored' backing' ∧
      (∀ f ∈ stored', f ∈ stored ∨ f = page ∧ ¬ s.Refuses page) ∧
      ∀ f ∈ backing', f ∈ backing ∨ f = frame page ∧ ¬ s.Refuses page := by
  by_cases hr : s.Refuses page
  · exact ⟨s, pmFree_refused hr, ⟨rfl, rfl, rfl, rfl, rfl⟩, stored, backing, h, fun f hf => .inl hf,
      fun f hf => .inl hf⟩
  by_cases hfull : stored.length = 1024 * backing.length
  · obtain ⟨s', hs, hst, hh⟩ := h.free_full hok hr hfull
    refine ⟨s', hs, hst, stored, backing ++ [frame page], hh, fun f hf => .inl hf, fun f hf => ?_⟩
    exact (List.mem_append.1 hf).imp_right fun hx => ⟨List.mem_singleton.1 hx, hr⟩
  · obtain ⟨s', hs, hst, stored', hh, -, hmem, -⟩ := h.free_room hr hfull
    exact ⟨s', hs, hst, stored', backing, hh, fun f hf => (hmem f hf).imp_right fun he => ⟨he, hr⟩,
      fun f hf => .inl hf⟩

theorem write {p x : Nat} (h : s.Housed stored backing) (hok : s.StackKept (.write p x)) :
    Housed { s with mmu := s.mmu.set p x } stored backing := by
  obtain ⟨hdir, htable, hpages⟩ := hok
  have hnb : frame p ∉ backing := by
    intro hx
    obtain ⟨j, hj, he⟩ := List.getElem_of_mem hx
    refine hpages j ?_ (he.symm.trans (h.page j hj).2.symm)
    rw [h.max]
    omega
  obtain ⟨hw, hpde⟩ := h.toWindow.set (x := x) ⟨hdir, htable, hnb⟩
  exact { h with toWindow := hw, apart := hpde ▸ h.apart, off := hpde ▸ h.off }

end Housed

structure Clean (s : Pmm) (stored backing : List Nat) : Prop extends s.Stack stored backing where
  seg : s.kernelSegEndPage % 4096 = 0
  dir : 0x100000 < s.mmu.cr3 ∧ s.mmu.cr3 < s.kernelSegEndPage
  apart : frame (s.mmu.pde 1020) ≠ s.mmu.cr3
  off : frame (s.mmu.pde 1020) ∉ backing
  clean : ∀ f ∈ stored ++ backing, ¬ s.Reserved f

namespace Clean

theorem dir_notMem (h : s.Clean stored backing) : s.mmu.cr3 ∉ backing := by
  intro hx
  have hdir := h.dir
  refine h.clean _ (List.mem_append_right _ hx) ?_
  unfold Reserved
  omega

theorem housed (h : s.Clean stored backing) : s.Housed stored backing :=
  { h with clear := h.dir_notMem }

theorem of_housed (h : s.Housed stored backing) (hseg : s.kernelSegEndPage = s₀.kernelSegEndPage)
    (hc : ∀ f ∈ stored ++ backing, ¬ s₀.Reserved f) : s.Clean stored backing :=
  { h with
    clean := by
      unfold Reserved
      rw [hseg]
      exact hc }

theorem alloc (h : s.Clean stored backing) (hok : KernelKept (s, g) .alloc) :
    ∃ page s', s.pmAlloc = some (page, s') ∧ ¬ s.Reserved page ∧ ∃ st, s'.Clean st backing := by
  obtain ⟨page, s', hs, hseg, hcase⟩ := h.housed.alloc
  refine ⟨page, s', hs, ?_⟩
  rcases hcase with ⟨hb, hpage, -, hh⟩ | ⟨-, -, st, rfl, hh⟩
  · rw [hpage]
    exact ⟨hok hb, stored, of_housed hh hseg h.clean⟩
  · have hsub : ∀ f ∈ st ++ backing, f ∈ st ++ [page] ++ backing := by
      intro f hf
      rw [List.append_assoc]
      exact List.mem_append.2 ((List.mem_append.1 hf).imp_right (List.mem_cons_of_mem _))
    exact ⟨h.clean page (by simp), st, of_housed hh hseg fun f hf => h.clean f (hsub f hf)⟩

theorem free (h : s.Clean stored backing) (hok : KernelKept (s, g) (.free page)) :
    ∃ s', s.pmFree page = some s' ∧ ∃ stored' backing', s'.Clean stored' backing' := by
  obtain ⟨s', hs, hst, stored', backing', hh, hstored, hbacking⟩ := h.housed.free hok.stack
  have hpage := fun hr => not_reserved_frame h.seg hok.1 hr
  refine ⟨s', hs, stored', backing', of_housed hh hst.seg fun f hf => ?_⟩
  rcases List.mem_append.1 hf with hf | hf
  · rcases hstored f hf with hf | ⟨rfl, hr⟩
    · exact h.clean f (List.mem_append_left _ hf)
    · exact (hpage hr).1
  · rcases hbacking f hf with hf | ⟨rfl, hr⟩
    · exact h.clean f (List.mem_append_right _ hf)
    · exact (hpage hr).2

theorem write {p x : Nat} (h : s.Clean stored backing) (hok : KernelKept (s, g) (.write p x)) :
    Clean { s with mmu := s.mmu.set p x } stored backing :=
  of_housed (h.housed.write hok.stack) rfl h.clean

theorem step (h : ∃ stored backing, s.Clean stored backing) (hok : KernelKept (s, g) op)
    (hs : pmmStep (s, g) op = some (s', g')) : ∃ stored backing, s'.Clean stored backing := by
  obtain ⟨stored, backing, h⟩ := h
  cases op with
  | alloc =>
    obtain ⟨page, s₁, h1, -, st, h2⟩ := h.alloc hok
    cases (pmmStep_alloc g h1).symm.trans hs
    exact ⟨st, backing, h2⟩
  | free page =>
    obtain ⟨s₁, h1, stored', backing', h2⟩ := h.free hok
    cases (pmmStep_free g h1).symm.trans hs
    exact ⟨stored', backing', h2⟩
  | online =>
    cases hs
    exact ⟨stored, backing, { h with }⟩
  | write p x =>
    cases hs
    exact ⟨stored, backing, h.write hok⟩

end Clean

/-- The first frame `mm_init` frees on `bootImage` becomes a page of the stack. -/
theorem bootImage_first : ∃ s s₁, bootImage.initStack 64512 = some s ∧ s.Ready ∧ s.pmLastPage = 0x3F03000 ∧
    s.kernelSegEndPage = 0x207000 ∧ frame (s.mmu.pde 1020) = 0x3F03000 ∧ s.pmFree 0x300000 = some s₁ ∧
    Stack.Still s s₁ ∧ s₁.Stack [] [0x300000] := by
  obtain ⟨s, hs, hready, -, hlast, hseg, hframe⟩ := bootImage_ready
  have hstack := hready.sane.toStack
  have hr : ¬ s.Refuses 0x300000 := by
    unfold Refuses
    rw [hlast, hseg]
    decide
  obtain ⟨s₁, h1, hst, hstack₁⟩ := hstack.pmFree_full hr (hstack.full_iff.2 rfl) (by decide) hready.apart
    List.not_mem_nil
  exact ⟨s, s₁, hs, hready, hlast, hseg, hframe, h1, hst, hstack₁⟩

theorem bootImage_second (page : Nat) (hlow : 0x20000 ≤ page) (hseg : page ≤ 0x100000 ∨ 0x207000 ≤ page)
    (hlast : page ≤ 0x3EF3000) : ∃ s s₁ s₂ s₃, bootImage.initStack 64512 = some s ∧ s.Ready ∧
    s.kernelSegEndPage = 0x207000 ∧ s.pmFree 0x300000 = some s₁ ∧ s₁.Stack [] [0x300000] ∧ s₁.pmFree page = some s₂ ∧
    s₂.Stack [page] [0x300000] ∧ { s₂ with vmOnline := 1 }.pmAlloc = some (page, s₃) := by
  obtain ⟨s, s₁, hs, hready, hpm, hend, hframe, h1, hst, hstack⟩ := bootImage_first
  have hr : ¬ s₁.Refuses page := by
    unfold Refuses
    rw [hst.last, hst.seg, hpm, hend]
    omega
  have hroom : ¬ s₁.stackPtr ≥ s₁.stackMax := by
    rw [hstack.full_iff]
    decide
  have hcr : s₁.mmu.cr3 ∉ [0x300000] := by
    rw [List.mem_singleton, hst.cr3]
    have hdir := hready.dir
    omega
  have htable : frame (s₁.mmu.pde 1020) ∉ [0x300000] := by
    rw [hst.pde, hframe]
    decide
  have hone : [page].length = ([] : List Nat).length + 1 := rfl
  obtain ⟨s₂, h2, -, hstack₂⟩ := hstack.pmFree_room hr hroom hone
    (hstack.toWindow.push (by decide) (List.nodup_singleton _) hcr htable)
  have honline : ({ s₂ with vmOnline := 1 } : Pmm).Stack [page] [0x300000] := { hstack₂ with }
  obtain ⟨page', s₃, h3, -, -, -, hcase⟩ := honline.pmAlloc_cases
  have hpage : page' = page := by
    rcases hcase with ⟨hb, -⟩ | ⟨-, st, hst, -⟩
    · rcases hb with hb | hb
      · exact absurd hb Nat.one_ne_zero
      · exact absurd (honline.ptr.symm.trans hb) (by rw [List.length_singleton]; decide)
    · cases st with
      | nil => exact (List.singleton_inj.1 hst).symm
      | cons f st => exact absurd (congrArg List.length hst) (by simp)
  exact ⟨s, s₁, s₂, s₃, hs, hready, hend, h1, hstack, h2, hstack₂, hpage ▸ h3⟩

/-- **The kernel image is kept.** From `mm_init` on, as long as `0x100000` is not freed, the words of the free-page
stack and the frames of its pages are not reserved; `pm_free` does nothing with a reserved frame, and
`pm_alloc` returns none. -/
theorem kernel_image_kept (h₀ : s₀.Ready) (hseg : s₀.kernelSegEndPage % 4096 = 0)
    (h : Reach pmmStep KernelKept (s₀, g₀) (s, g)) :
    (∃ stored backing, s.Stack stored backing ∧ ∀ f ∈ stored ++ backing, ¬ s.Reserved f) ∧
      (∀ page, s.Reserved page → KernelKept (s, g) (.free page) → s.pmFree page = some s) ∧
      ∀ page s', KernelKept (s, g) .alloc → s.pmAlloc = some (page, s') → ¬ s.Reserved page := by
  obtain ⟨stored, backing, hc⟩ : ∃ stored backing, s.Clean stored backing := by
    refine h.inv (P := fun c => ∃ stored backing, c.1.Clean stored backing) ⟨[], [], ?_⟩ ?_
    · exact { toStack := h₀.sane.toStack, seg := hseg, dir := h₀.dir, apart := h₀.apart, off := List.not_mem_nil,
              clean := fun f hf => absurd hf List.not_mem_nil }
    · rintro ⟨s, g⟩ op ⟨s', g'⟩ hP hok hs
      exact Clean.step hP hok hs
  refine ⟨⟨stored, backing, hc.toStack, hc.clean⟩, fun page hr hok => ?_, fun page s' hok hs => ?_⟩
  · have hrefused : s.Refuses page := by
      by_contra hx
      exact (not_reserved_frame hc.seg hok.1 hx).1 hr
    exact pmFree_refused hrefused
  · obtain ⟨page', s₁, h1, h2, -⟩ := hc.alloc hok
    rw [h1] at hs
    cases hs
    exact h2

/-- The same machine: what `pm_alloc` returns behind the first frame is free memory. -/
theorem kernel_image_kept_first : ∃ s s₁ page s₂, bootImage.initStack 64512 = some s ∧
    s.pmFree 0x300000 = some s₁ ∧ s₁.pmAlloc = some (page, s₂) ∧ ¬ s₁.Reserved page := by
  obtain ⟨s, s₁, hs, hready, hlast, hseg, hframe, h1, hst, hstack⟩ := bootImage_first
  have hok : KernelKept (s, Frames.start 0) (.free 0x300000) := by
    refine ⟨fun he => absurd he (by decide), fun _ _ => ⟨?_, ?_⟩⟩
    · rw [hframe]
      decide
    · rw [hready.max]
      decide
  obtain ⟨-, -, halloc⟩ := kernel_image_kept hready (by rw [hseg]) (Reach.start.next _ hok (pmmStep_free _ h1))
  obtain ⟨page, s₂, h2, -⟩ := hstack.pmAlloc_cases
  refine ⟨s, s₁, page, s₂, hs, h1, h2, halloc page s₂ ?_ h2⟩
  intro _
  unfold Reserved
  rw [hst.last, hst.seg, hlast, hseg]
  decide

/-- The first frame of the image, freed second: it is stored, and `pm_alloc` returns it. -/
theorem image_frame_given : ∃ s s₁ s₂ s₃, bootImage.initStack 64512 = some s ∧ s.Reserved 0x100000 ∧
    s.pmFree 0x300000 = some s₁ ∧ s₁.pmFree 0x100000 = some s₂ ∧
    { s₂ with vmOnline := 1 }.pmAlloc = some (0x100000, s₃) := by
  obtain ⟨s, s₁, s₂, s₃, hs, -, hseg, h1, -, h2, -, h3⟩ :=
    bootImage_second 0x100000 (by decide) (.inl (Nat.le_refl _)) (by decide)
  refine ⟨s, s₁, s₂, s₃, hs, .inr ⟨Nat.le_refl _, ?_⟩, h1, h2, h3⟩
  rw [hseg]
  decide

end Pmm
end Krypton
