import Krypton.PagedHeapCalls

/-!
# The heap behind `mm_init`

`mm_init` leaves page tables and a free-page stack that are `Kept`, with nothing mapped between the kernel and the page
stack (`Kept.start`, `Kept.offers`); so the machine it leaves shows an empty heap (`mmInit_models`).
-/

namespace Krypton

/-! ### The first page table -/

namespace Mmu
variable {m : Nat → Nat} {dir low i j k n : Nat}

/-- The loop of `init_paging` fills the entries of the table it has passed. -/
theorem initLoop_low (hdir : dir % 4096 = 0) (hlow : low % 4096 = 0) (hne : dir ≠ low) (hk : k + n ≤ 1024)
    (hj : j < 1024) : initLoop dir low n m k (low + 4 * j) =
      if k ≤ j ∧ j < k + n then j * 4096 ||| 0x7 else m (low + 4 * j) := by
  induction n generalizing m k with
  | zero =>
    rw [if_neg (by omega)]
    rfl
  | succ n ih =>
    unfold initLoop
    dsimp only
    rw [ih (by omega), Function.update_apply, Function.update_apply,
      if_neg (word_ne hlow hdir hne.symm hj (by omega : k < 1024))]
    by_cases hjk : j = k
    · rw [if_neg (by omega), if_pos (by rw [hjk]), if_pos (by omega), hjk]
    · rw [if_neg (by omega : ¬ low + 4 * j = low + 4 * k)]
      exact if_congr (by omega) rfl rfl

theorem initPaging_pte (m : Nat → Nat) (hdir : dir % 4096 = 0) (hlow : low % 4096 = 0) (hne : dir ≠ low)
    (hi : i = 0 ∨ i = 768) (hj : j < 1024) : (initPaging m dir low).pte i j = j * 4096 ||| 0x7 := by
  have hpde := initPaging_pde m hdir hlow hne (k := i) (by omega)
  rw [if_neg (by omega), if_pos hi] at hpde
  have hword : ∀ k < 1024, low + 4 * j ≠ dir + 4 * k := fun k hk => word_ne hlow hdir hne.symm hj hk
  have h0 : low + 4 * j ≠ dir := hword 0 (by omega)
  unfold pte
  rw [hpde, frame_or hlow (by decide)]
  unfold initPaging
  dsimp only
  rw [Function.update_of_ne (hword 1023 (by omega)), Function.update_of_ne (hword 768 (by omega)),
    Function.update_of_ne h0, initLoop_low hdir hlow hne (by omega) hj, if_pos (by omega)]

theorem walk_zero {s : Mmu} (h0 : present (s.pde 0)) (h : s.pte 0 0 = 0 * 4096 ||| 0x7) : s.walk 0 = some 0 := by
  have hi : pdindex 0 = 0 := Nat.zero_div _
  have hj : ptindex 0 = 0 := by
    unfold ptindex
    rw [Nat.zero_div]
  unfold walk
  rw [hi, hj, h]
  exact if_pos ⟨h0, by decide⟩

end Mmu

namespace Pmm
open Mmu

variable {s s₀ : Pmm} {dir low memUpper r : Nat} {g : Frames} {stored backing : List Nat} {A : PageMap}
  {xs : List (MmapEntry × Nat)}

/-- Both static tables lie in the kernel, and the kernel lies below the frames that `mm_init` takes. -/
structure Housing (s : Pmm) (dir low memUpper : Nat) : Prop extends s.Image dir low where
  lowIn : 0x100000 < low ∧ low < s.kernelSegEndPage
  above : s.kernelSegEndPage ≤ tableFrame memUpper
  taken : stackFrame memUpper ≠ 0

theorem Housing.placed (h : s.Housing dir low memUpper) : Placed dir low memUpper := by
  have h1 := h.lowIn
  have h2 := h.above
  have h3 := h.dir
  exact ⟨h.taken, by omega, by omega⟩

/-- The stack is the first thing that is mapped. -/
theorem Kept.start (h : s.Housing dir low memUpper) : ∃ s₀ A, s.initStack memUpper = some s₀ ∧ s₀.vmOnline = 0 ∧
    s₀.pmLastPage = tableFrame memUpper ∧ s₀.kernelSegEndPage = s.kernelSegEndPage ∧
    s₀.Kept (Frames.start (tableFrame memUpper)) [] [] A ∧ ∀ n, n / 1024 ≠ 1020 → A n = none := by
  obtain ⟨m, hm⟩ := h.mmu
  obtain ⟨hdir, hlow⟩ := h.aligned
  have h1 := h.lowIn
  have h2 := h.above
  have h3 := h.dir
  have hfresh := h.toImage.fresh h.placed
  have hmaps : s.mmu.Maps fun _ => none := hm ▸ initPaging_maps m hdir hlow h.ne
  have hpde : ∀ k < 1024, s.mmu.pde k = if k = 1023 then dir ||| 0x3 else if k = 0 ∨ k = 768 then low ||| 0x7 else 0 :=
    fun k hk => hm ▸ initPaging_pde m hdir hlow h.ne hk
  have habs : ¬ present (s.mmu.pde 1020) := by
    rw [hpde 1020 (by omega), if_neg (by omega), if_neg (by omega)]
    decide
  have hcr : s.mmu.cr3 = dir := by
    rw [hm]
    rfl
  have h1020 : pdindex pmStackAddr = 1020 := by decide
  have hv : Ordinary (pdindex pmStackAddr) := ⟨by omega, by omega, by omega, by omega⟩
  obtain ⟨m', hs, hmap, ht', hc, hpr, hframe⟩ := s.initStack_eq (t := tableFrame memUpper) memUpper hmaps.tables
    habs rfl h.taken rfl hfresh
  obtain ⟨m₁, hm₁, hmaps'⟩ := hmaps.mmMap pageWrite hv
    h.taken (by unfold stackFrame startPage; omega) fun _ => hfresh
  obtain rfl := (Prod.mk.inj (Option.some.inj (hmap.symm.trans hm₁))).2
  obtain ⟨m₁, hm₁, -, -, hpde', -⟩ := hmaps.tables.mmMap pageWrite hv h.taken fun _ => hfresh
  obtain rfl := (Prod.mk.inj (Option.some.inj (hmap.symm.trans hm₁))).2
  have hoff := hmaps.tables.mmMap_off hv h.taken (fun _ => hfresh) hmap
  rw [h1020, hframe] at hoff
  rw [h1020] at hpde' hv
  have hother : ∀ k < 1024, k ≠ 1020 → m'.pde k = s.mmu.pde k := fun k hk hne => by
    rw [hpde' k hk, if_neg fun hx => hne hx.1]
  have hlow' : ∀ i, i = 0 ∨ i = 768 → m'.pde i = low ||| 0x7 := fun i hi => by
    rw [hother i (by omega) (by omega), hpde i (by omega), if_neg (by omega), if_pos hi]
  have hpresent : ∀ i, i = 0 ∨ i = 768 → present (m'.pde i) := fun i hi => by
    rw [hlow' i hi]
    exact Nat.or_mod_two_eq_one.2 (.inr rfl)
  have hzero : m'.walk 0 = some 0 := by
    refine walk_zero (hpresent 0 (.inl rfl)) ?_
    rw [← initPaging_pte m hdir hlow h.ne (.inl rfl) (by omega : 0 < 1024), ← hm]
    unfold pte
    rw [hother 0 (by omega) (by omega)]
    refine hoff.phys _ ?_
    rw [frame_word (frame_mod _) (by omega), hpde 0 (by omega), if_neg (by omega), if_pos (.inl rfl),
      frame_or hlow (by decide), hcr]
    rintro (he | he)
    · exact h.ne he.symm
    · omega
  refine ⟨_, Function.update (fun _ => none) (pmStackAddr / 4096) (some (stackFrame memUpper)), hs, rfl, rfl, rfl, ?_,
    fun n hn => Function.update_of_ne ?_ _ _⟩
  · have hready : Ready { s with
        mmu := m', pmLastPage := tableFrame memUpper, vmOnline := 0, stackPtr := pmStackAddr, stackMax := pmStackAddr,
        freePages := 0 } := by
      have hal := hfresh.aligned
      have hlt : tableFrame memUpper < 2 ^ 32 := Nat.mod_lt _ (by decide)
      refine ⟨ht'.toSelfMapped, hpr, Nat.le_of_eq hframe, ?_, rfl, rfl, ⟨?_, hlt, hal⟩, ?_⟩
      · show Krypton.frame (m'.pde 1020) ≠ m'.cr3
        rw [hframe, hc]
        exact hfresh.dir
      · show 0x10000 ≤ tableFrame memUpper
        omega
      · show 0x100000 < m'.cr3 ∧ m'.cr3 < s.kernelSegEndPage
        rw [hc, hcr]
        exact h.dir
    have hsane := hready.sane
    rw [show Krypton.frame (m'.pde 1020) = tableFrame memUpper from hframe] at hsane
    refine { toSane := hsane, maps := hmaps', slots := fun i hi hp => ?_, good := fun f hf => ?_, image := h2,
             low := fun i hi => ?_, zero := hzero }
    · by_cases hne : i = 1020
      · subst hne
        show Krypton.frame (m'.pde 1020) ∈ _
        rw [hframe]
        exact List.mem_singleton_self _
      · exfalso
        rw [show Pmm.mmu _ = m' from rfl, hother i hi.lt hne, hpde i hi.lt, if_neg hi.self,
          if_neg fun hx => hx.elim hi.zero hi.kernel] at hp
        exact absurd hp (by decide)
    · have hf' : f = tableFrame memUpper := by
        rcases hf with hf | hf | hf
        · exact List.mem_singleton.1 hf
        · cases hf
        · cases hf
      rw [hf']
      refine ⟨Nat.le_trans ?_ h2, fun hx => ?_⟩
      · omega
      · have hlt : tableFrame memUpper < s.kernelSegEndPage := hx.2
        omega
    · show present (m'.pde i) ∧ Krypton.frame (m'.pde i) ≠ m'.cr3 ∧ 0x100000 < Krypton.frame (m'.pde i) ∧
        Krypton.frame (m'.pde i) < s.kernelSegEndPage
      refine ⟨hpresent i hi, ?_⟩
      rw [hlow' i hi, frame_or hlow (by decide), hc, hcr]
      exact ⟨h.ne.symm, h1.1, h1.2⟩
  · unfold pmStackAddr
    omega

theorem offer_skip {p : Nat} (h : (r + 1) % 2 ^ 32 ≥ maxRamPages ∨ s.Refuses p) :
    offer (r, s) p = some ((r + 1) % 2 ^ 32, s) := by
  unfold offer
  dsimp only
  split_ifs with hmax
  · rfl
  · rw [pmFree_refused (h.resolve_left hmax)]
    rfl

theorem taken_congr (r : Nat) (xs : List (MmapEntry × Nat)) (hl : s.pmLastPage = s₀.pmLastPage)
    (hs : s.kernelSegEndPage = s₀.kernelSegEndPage) : taken s r xs = taken s₀ r xs := by
  induction xs generalizing r with
  | nil => rfl
  | cons x xs ih =>
    unfold taken
    rw [ih]
    exact if_congr (or_congr_right (refuses_congr hl hs)) rfl rfl

theorem not_refuses_of_mem_taken {x : MmapEntry × Nat} (hx : x ∈ taken s r xs) : ¬ s.Refuses x.2 := by
  induction xs generalizing r with
  | nil => cases hx
  | cons y xs ih =>
    unfold taken at hx
    split_ifs at hx with hout
    · exact ih hx
    · rcases List.mem_cons.1 hx with rfl | hx
      · exact fun hr => hout (.inr hr)
      · exact ih hx

theorem Kept.offers (h : s.Kept g stored backing A) (hA : ∀ n, n / 1024 ≠ 1020 → A n = none) (hboot : s.vmOnline = 0)
    (hal : ∀ p ∈ (taken s r xs).map Prod.snd, p % 4096 = 0 ∧ p ∉ g.seen) (hnd : ((taken s r xs).map Prod.snd).Nodup) :
    ∃ r' s' g' st bk A', xs.foldlM (fun c x => offer c x.2) (r, s) = some (r', s') ∧ s'.Kept g' st bk A' ∧
      s'.pmLastPage = s.pmLastPage ∧ ∀ n, n / 1024 ≠ 1020 → A' n = none := by
  induction xs generalizing r s g stored backing A with
  | nil => exact ⟨r, s, g, stored, backing, A, rfl, h, rfl, hA⟩
  | cons x xs ih =>
    rw [List.foldlM_cons]
    unfold taken at hal hnd
    by_cases hout : (r + 1) % 2 ^ 32 ≥ maxRamPages ∨ s.Refuses x.2
    · rw [if_pos hout] at hal hnd
      rw [offer_skip hout]
      exact ih h hA hboot hal hnd
    · rw [if_neg hout, List.map_cons] at hal hnd
      obtain ⟨hmax, hr⟩ := not_or.1 hout
      obtain ⟨hx, hal⟩ := List.forall_mem_cons.1 hal
      obtain ⟨hno, hnd⟩ := List.nodup_cons.1 hnd
      have hle : x.2 ≤ s.pmLastPage - 0x10000 := by
        have hlast := h.last
        unfold Refuses at hr
        omega
      obtain ⟨s₁, st, bk, A₁, hs₁, hstill, hk₁, hA₁, -⟩ := h.free
        (show PmmOp.Ok (s, g) (.free x.2) from ⟨hx.1, .inr ⟨hboot, hx.2, hle⟩⟩)
        fun i hi hp he => hx.2 (he ▸ h.mem_seen (.inl (h.slots i hi hp)))
      have hoffer : offer (r, s) x.2 = some ((r + 1) % 2 ^ 32, s₁) := by
        unfold offer
        dsimp only
        rw [if_neg hmax, hs₁]
        rfl
      have htaken := taken_congr ((r + 1) % 2 ^ 32) xs hstill.last hstill.seg
      rw [hoffer]
      rw [← hstill.last]
      refine ih hk₁ (fun n hn => (hA₁ n hn).trans (hA n hn)) (hstill.online.trans hboot) ?_ ?_
      · rw [htaken]
        refine fun p hp => ⟨(hal p hp).1, ?_⟩
        rintro (_ | ⟨_, hp'⟩)
        · exact hno hp
        · exact (hal p hp).2 hp'
      · rw [htaken]
        exact hnd

end Pmm

namespace PagedHeap
open Mmu Pmm

/-- The last lines of `mm_init`. -/
def boot (p : Pmm) : PagedHeap := { p with shHeap := 0, shHeapMax := shHeapStart }

section
variable {s s₀ p : Pmm} {dir low memUpper mmapAddr mmapLength n : Nat} {m : Bytes} {mes : List MmapEntry}

/-- The pages that get through are whole, and frames of their entries. -/
theorem offered_kept (h : s.Housing dir low memUpper) (h₀ : s.initStack memUpper = some s₀)
    (hd : mes.Pairwise MmapEntry.Apart) (hown : ∀ x ∈ taken s₀ 0 (offered mes), Own x) :
    ∃ r t g st bk A, (offered mes).foldlM (fun c x => offer c x.2) (0, s₀) = some (r, t) ∧ t.Kept g st bk A ∧
      t.pmLastPage = tableFrame memUpper ∧ ∀ n, n / 1024 ≠ 1020 → A n = none := by
  obtain ⟨s₁, A, hs₁, hboot, hlast, -, hk, hA⟩ := Kept.start h
  obtain rfl := Option.some.inj (hs₁.symm.trans h₀)
  have hsub := taken_sublist s₁ 0 (offered mes)
  have hmem : ∀ {x}, x ∈ taken s₁ 0 (offered mes) → x ∈ offered mes := fun hx => hsub.subset hx
  have hnd : ((taken s₁ 0 (offered mes)).map Prod.snd).Nodup := by
    refine ((offered_nodup hd).sublist hsub).map_on fun x hx y hy he => ?_
    -- of two entries with a common page there is one
    have hx' := hmem hx
    have hy' := hmem hy
    have hentry := apart_eq hd (mem_offered.1 hx').1 (mem_offered.1 hy').1 (page_has hx' (hown x hx).1)
      (he ▸ page_has hy' (hown y hy).1)
    exact Prod.ext hentry he
  have hal : ∀ q ∈ (taken s₁ 0 (offered mes)).map Prod.snd,
      q % 4096 = 0 ∧ q ∉ (Frames.start (tableFrame memUpper)).seen := by
    intro q hq
    obtain ⟨x, hx, rfl⟩ := List.mem_map.1 hq
    have hr := not_refuses_of_mem_taken hx
    refine ⟨(pages_spec (hmem hx)).2.2.2.trans (hown x hx).2.1, fun hseen => ?_⟩
    -- the page table of the stack is the last page
    have hlast' := hk.last
    have he : x.2 = s₁.pmLastPage := (List.mem_singleton.1 hseen).trans hlast.symm
    unfold Refuses at hr
    omega
  obtain ⟨r, t, g, st, bk, A', hfold, hk', hlast', hA'⟩ := hk.offers hA hboot hal hnd
  exact ⟨r, t, g, st, bk, A', hfold, hk', hlast'.trans hlast, hA'⟩

theorem mmInit_ends (h : s.Housing dir low memUpper) (h₀ : s.initStack memUpper = some s₀)
    (hl : Laid m mmapAddr mes (mmapAddr + mmapLength)) (hfit : mmapAddr + mmapLength < 2 ^ 32)
    (hd : mes.Pairwise MmapEntry.Apart) (hends : ∀ me ∈ mes, me.type = 1 → me.Ends)
    (hown : ∀ x ∈ taken s₀ 0 (offered mes), Own x) :
    ∃ n p, s.mmInit m memUpper mmapAddr mmapLength n = some p := by
  obtain ⟨r, t, -, -, -, -, hfold, -⟩ := offered_kept h h₀ hd hown
  obtain ⟨n, hn⟩ := mmapLoop_enough hl hfit hends hfold
  have hstop : (mmapAddr + mmapLength) % 2 ^ 32 = mmapAddr + mmapLength := Nat.mod_eq_of_lt hfit
  refine ⟨n, { t with vmOnline := 1 }, ?_⟩
  unfold mmInit
  rw [h₀, hstop, Option.bind_eq_bind, Option.bind_some, hn n (Nat.le_refl _)]
  rfl

/-- **`mm_init` leaves an empty heap**, if the pages that get through are whole and frames of their entries. -/
theorem mmInit_models (h : s.Housing dir low memUpper) (h₀ : s.initStack memUpper = some s₀)
    (hl : Laid m mmapAddr mes (mmapAddr + mmapLength)) (hfit : mmapAddr + mmapLength < 2 ^ 32)
    (hd : mes.Pairwise MmapEntry.Apart) (hown : ∀ x ∈ taken s₀ 0 (offered mes), Own x)
    (hs : s.mmInit m memUpper mmapAddr mmapLength n = some p) :
    p.pmLastPage = tableFrame memUpper ∧ ∃ b, (boot p).Models (HeapRun.boot b).heap [] := by
  obtain ⟨r, t, g, st, bk, A, hfold, hk, hlast, hA⟩ := offered_kept h h₀ hd hown
  have hstop : (mmapAddr + mmapLength) % 2 ^ 32 = mmapAddr + mmapLength := Nat.mod_eq_of_lt hfit
  unfold mmInit at hs
  rw [h₀, hstop, Option.bind_eq_bind, Option.bind_some] at hs
  obtain ⟨c, hc, hs⟩ := Option.bind_eq_some_iff.1 hs
  obtain rfl := Option.some.inj (hfold.symm.trans (mmapLoop_some hl hfit hc).2)
  obtain rfl := Option.some.inj hs
  refine ⟨hlast, t.mmu.byte, g, st, bk, A, [], ?_, rfl, rfl⟩
  refine { toKept := { hk with }, top := rfl, window := ?_, pages := fun j hj => absurd hj (Nat.not_lt_zero j),
           above := fun n h1 h2 => hA n ?_, nodup := List.nodup_nil, own := fun f hf => absurd hf List.not_mem_nil,
           data := fun f hf => absurd hf List.not_mem_nil, bytes := fun hv => ?_ }
  · show shHeapStart ≤ pmStackAddr
    decide
  · have h3 : pmStackAddr = 0xFF000000 := rfl
    have h4 : shHeapStart = 0xC0400000 := rfl
    have h5 : shHeapStart / 4096 ≤ n := h1
    omega
  · rcases place_cases hv with ⟨-, rfl⟩ | ⟨j, hj, -⟩
    · rfl
    · exact absurd hj (Nat.not_lt_zero j)

end

/-! ### A machine with 64 MiB and a map of two frames -/

theorem bootImage_housing : bootImage.Housing 0x105000 0x106000 64512 where
  toImage := bootImage_image
  lowIn := by decide
  above := by decide
  taken := by decide

theorem twoFrames_laid : Laid (oneEntry 0x300000 0x2000) 0x9000 [⟨20, 0x300000, 0, 0x2000, 0, 1⟩] (0x9000 + 24) :=
  ⟨rfl, rfl⟩

theorem twoFrames_own {s : Pmm} : ∀ x ∈ taken s 0 (offered [⟨20, 0x300000, 0, 0x2000, 0, 1⟩]), Own x := by
  intro x hx
  have hoff := (taken_sublist _ _ _).subset hx
  obtain ⟨me, p⟩ := x
  obtain rfl := List.mem_singleton.1 (mem_offered.1 hoff).1
  exact Own.of_aligned hoff rfl (rfl : 0x300000 % 4096 = 0) (rfl : 0x2000 % 4096 = 0)

theorem bootImage_models : ∃ s₀, bootImage.initStack 64512 = some s₀ ∧
    ∃ n p, bootImage.mmInit (oneEntry 0x300000 0x2000) 64512 0x9000 24 n = some p ∧ p.pmLastPage = 0x3F03000 ∧
      ∃ mem, (boot p).Models (HeapRun.boot mem).heap [] := by
  obtain ⟨s₀, h₀, -⟩ := bootImage_ready
  have hends : ∀ me ∈ [(⟨20, 0x300000, 0, 0x2000, 0, 1⟩ : MmapEntry)], me.type = 1 → me.Ends := by
    rw [List.forall_mem_singleton]
    intro _
    decide
  obtain ⟨n, p, hp⟩ := mmInit_ends bootImage_housing h₀ twoFrames_laid (by decide) (List.pairwise_singleton _ _) hends
    twoFrames_own
  obtain ⟨hlast, mem, hm⟩ := mmInit_models bootImage_housing h₀ twoFrames_laid (by decide) (List.pairwise_singleton _ _)
    twoFrames_own hp
  exact ⟨s₀, h₀, n, p, hp, hlast, mem, hm⟩

end PagedHeap
end Krypton
