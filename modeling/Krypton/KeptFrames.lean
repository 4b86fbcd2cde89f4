import Krypton.Ingest
import Krypton.VirtualBytes

/-!
# Frames and page tables together

`Kept`: beside the page frames of `Sane`, the page tables compute the map `A`, every table of an ordinary slot is a
frame that is owned, and no frame in use lies in low memory or in the kernel, where the first two tables are. One lemma
for each operation says what it does to the map and that it leaves the contents of the `Plain` frames, those that are
owned and are no table.
-/

namespace Krypton
namespace Mmu
variable {m m' : Mmu} {A : PageMap} {stored backing : List Nat} {T : Nat → Prop}

/-- A change in pages that hold no table changes no translation. -/
theorem Maps.off (h : m.Maps A) (ho : Off T m m') (hT : ∀ f, T f → m.FreshPage f) : m'.Maps A := by
  have hcr : frame m.cr3 = m.cr3 := frame_of_mod h.tables.cr3
  have hd : ¬ T (frame m.cr3) := fun hx => (hT _ hx).dir hcr
  have ht : ∀ i < 1024, present (m.pde i) → ¬ T (frame (m.pde i)) := fun i hi hp hx => (hT _ hx).table i hi hp rfl
  have hpde : ∀ k < 1024, m'.pde k = m.pde k := fun k hk => ho.pde hd hk
  refine ⟨h.tables.of_pde ho.cr3 hpde, fun i j hi hj => ?_⟩
  rw [h.entry i j hi hj, hpde i hi.lt]
  by_cases hp : present (m.pde i)
  · rw [ho.pte hd hi.lt (ht i hi.lt hp) hj]
  · rw [if_neg fun hx => hp hx.1, if_neg fun hx => hp hx.1]

/-- The window depends on its entry, its table and its pages. -/
theorem Window.keep (h : m.Window stored backing) (hs : m'.SelfMapped) (hd : m'.pde 1020 = m.pde 1020)
    (hp : ∀ p, frame p = frame (m.pde 1020) ∨ frame p ∈ backing → m'.phys p = m.phys p) : m'.Window stored backing := by
  have hroom := h.room
  have hfit := h.fit
  have hpte : ∀ j < 1024, m'.pte 1020 j = m.pte 1020 j := fun j hj => by
    unfold pte
    rw [hd, hp _ (.inl (frame_word (frame_mod _) hj))]
  refine ⟨hs, hd ▸ h.table, hfit, hroom, fun j hj => ?_, fun i hi => ?_⟩
  · rw [hpte j (by omega)]
    exact h.page j hj
  · have hj : i / 1024 < backing.length := by omega
    rw [hpte _ (by omega), hp, h.word i hi]
    refine .inr ?_
    rw [frame_word (frame_mod _) (by omega), (h.page _ hj).2]
    exact List.getElem_mem hj

/-- `mm_map` writes to the directory and to the table of the slot. -/
theorem Tables.mmMap_off {v page physaddr r flags : Nat} (h : m.Tables) (hv : Ordinary (pdindex v)) (h0 : physaddr ≠ 0)
    (hpage : ¬ present (m.pde (pdindex v)) → m.FreshPage page) (hs : m.mmMap page physaddr v flags = some (r, m')) :
    Off (fun f => f = m.cr3 ∨ f = frame (m'.pde (pdindex v))) m m' := by
  have hlt := ptindex_lt v
  by_cases hp : present (m.pde (pdindex v))
  · obtain ⟨rfl, rfl⟩ := Prod.mk.inj (Option.some.inj ((h.mmMap_eq hv.lt hp h0 page flags).symm.trans hs))
    refine .set (.inr ?_)
    rw [h.pde_setEntry hv hp hlt hv.lt, frame_word (frame_mod _) hlt]
  · have hfresh := hpage hp
    have hdir : pdindex v < 1023 := Nat.lt_of_le_of_ne (Nat.le_of_lt_succ hv.lt) hv.self
    have hx : frame (page ||| (flags &&& 0xFFF) ||| 0x01) = page := frame_entry flags hfresh.aligned
    obtain ⟨m₁, hm₁, hself, hc, hpde, hphys⟩ :=
      h.toSelfMapped.create hdir hfresh.aligned hfresh.dir hx (present_entry page flags)
    have hslot : m₁.pde (pdindex v) = page ||| (flags &&& 0xFFF) ||| 0x01 := (hpde _ hv.lt).trans (if_pos rfl)
    have hp₁ : present (m₁.pde (pdindex v)) := hslot ▸ present_entry page flags
    rw [h.mmMap_create hself hv.lt hp hp₁ h0 hm₁, hself.mmMap_eq hv.lt hp₁ h0] at hs
    obtain ⟨rfl, rfl⟩ := Prod.mk.inj (Option.some.inj hs)
    have hne : page ≠ m₁.cr3 := hc.symm ▸ hfresh.dir
    have hlast : frame (Mmu.pde (m₁.set (frame (m₁.pde (pdindex v)) + 4 * ptindex v)
        (physaddr ||| (flags &&& 0xFFF) ||| 0x01)) (pdindex v)) = page := by
      rw [hslot, hx, pde_set hself hfresh.aligned hne hlt hv.lt, hslot, hx]
    refine ⟨hc, fun p hp => ?_⟩
    rw [hlast] at hp
    obtain ⟨hp1, hp2⟩ := not_or.1 hp
    have hcr := h.cr3
    have hal := hfresh.aligned
    unfold frame at hp1 hp2
    rw [set_phys, hslot, hx, if_neg (by omega), hphys, if_neg (by omega), set_phys, if_neg (by have := hv.lt; omega)]

end Mmu

namespace Pmm
open Mmu

/-- Not in low memory, and not in the kernel: `pm_free` does not turn the frame away for where it lies. -/
def Good (s : Pmm) (f : Nat) : Prop := 0x20000 ≤ f ∧ ¬ (0x100000 < f ∧ f < s.kernelSegEndPage)

structure Kept (s : Pmm) (g : Frames) (stored backing : List Nat) (A : PageMap) : Prop
    extends s.Sane g stored backing where
  maps : s.mmu.Maps A
  slots : ∀ i, Ordinary i → present (s.mmu.pde i) → Krypton.frame (s.mmu.pde i) ∈ g.own
  good : ∀ f, f ∈ g.own ∨ f ∈ stored ∨ f ∈ backing → s.Good f
  image : s.kernelSegEndPage ≤ s.pmLastPage
  low : ∀ i, i = 0 ∨ i = 768 → present (s.mmu.pde i) ∧ Krypton.frame (s.mmu.pde i) ≠ s.mmu.cr3 ∧
    0x100000 < Krypton.frame (s.mmu.pde i) ∧ Krypton.frame (s.mmu.pde i) < s.kernelSegEndPage
  zero : s.mmu.walk 0 = some 0

/-- A frame in use that is no table: one that is owned, or the one at `NULL`. -/
structure Plain (s : Pmm) (g : Frames) (f : Nat) : Prop where
  held : f ∈ g.own ∨ f = 0
  data : s.mmu.FreshPage f

/-- What an operation leaves of the frames: all but `out` stay plain and keep their contents. -/
structure Spares (s : Pmm) (g : Frames) (out : List Nat) (s' : Pmm) (g' : Frames) : Prop where
  plain : ∀ f, f ∉ out → s.Plain g f → s'.Plain g' f
  phys : ∀ p, frame p ∉ out → s.Plain g (frame p) → s'.mmu.phys p = s.mmu.phys p

section
variable {s s₁ s₂ : Pmm} {g g₁ g₂ : Frames} {out out' : List Nat}

theorem Spares.trans (h : Spares s g out s₁ g₁) (h' : Spares s₁ g₁ out s₂ g₂) : Spares s g out s₂ g₂ :=
  ⟨fun f hf hp => h'.plain f hf (h.plain f hf hp),
    fun p hf hp => (h'.phys p hf (h.plain _ hf hp)).trans (h.phys p hf hp)⟩

theorem Spares.mono (h : Spares s g out s₁ g₁) (ho : ∀ f ∈ out, f ∈ out') : Spares s g out' s₁ g₁ :=
  ⟨fun f hf hp => h.plain f (fun hx => hf (ho f hx)) hp, fun p hf hp => h.phys p (fun hx => hf (ho _ hx)) hp⟩

end

namespace Kept
variable {s s' : Pmm} {g g' : Frames} {stored backing : List Nat} {A A' : PageMap} {f i page v flags : Nat} {m' : Mmu}
  {T : Nat → Prop}

/-- Slots 0, 768 and 1023 have their tables in the kernel. -/
theorem fresh (h : s.Kept g stored backing A) (hf : f % 4096 = 0)
    (hk : ¬ (0x100000 < f ∧ f < s.kernelSegEndPage))
    (hs : ∀ i, Ordinary i → present (s.mmu.pde i) → f ≠ Krypton.frame (s.mmu.pde i)) : s.mmu.FreshPage f := by
  refine ⟨hf, ?_, fun k hlt hp => ?_⟩
  · rintro rfl
    exact hk h.dir
  · by_cases h0 : k = 0 ∨ k = 768
    · rintro rfl
      exact hk (h.low k h0).2.2
    · by_cases hself : k = 1023
      · subst hself
        rw [h.self.frame]
        rintro rfl
        exact hk h.dir
      · exact hs k ⟨hlt, fun hx => h0 (.inl hx), fun hx => h0 (.inr hx), hself⟩ hp

theorem plain_zero (h : s.Kept g stored backing A) : s.Plain g 0 := by
  refine ⟨.inr rfl, h.fresh rfl (by omega) fun i hi hp he => ?_⟩
  have hlow := (h.good _ (.inl (h.slots i hi hp))).1
  omega

theorem fresh_of_good (h : s.Kept g stored backing A) (hf : f % 4096 = 0) (hgood : s.Good f) (hno : f ∉ g.own) :
    s.mmu.FreshPage f := by
  refine h.fresh hf hgood.2 fun i hi hp he => hno ?_
  rw [he]
  exact h.slots i hi hp

theorem aligned_of_mem (h : s.Kept g stored backing A) (hf : f ∈ g.own ∨ f ∈ stored ∨ f ∈ backing) : f % 4096 = 0 :=
  h.aligned f (h.mem_seen hf)

theorem backing_fresh (h : s.Kept g stored backing A) (hf : f ∈ backing) : s.mmu.FreshPage f :=
  h.fresh_of_good (h.aligned_of_mem (.inr (.inr hf))) (h.good f (.inr (.inr hf))) (h.not_own (.inr hf))

theorem backing_not_plain (h : s.Kept g stored backing A) (hf : f ∈ backing) : ¬ s.Plain g f := by
  rintro ⟨ho | rfl, -⟩
  · exact h.not_own (.inr hf) ho
  · exact Nat.not_succ_le_zero _ (h.good 0 (.inr (.inr hf))).1

/-- A change of the memory under the page tables, where those of the kernel and the stack stay. -/
theorem keep (h : s.Kept g stored backing A) (hm : m'.Maps A') (hc : m'.cr3 = s.mmu.cr3)
    (hd : ∀ k, k = 0 ∨ k = 768 ∨ k = 1020 → m'.pde k = s.mmu.pde k)
    (hs : ∀ i, Ordinary i → present (m'.pde i) → Krypton.frame (m'.pde i) ∈ g.own)
    (hp : ∀ p, Krypton.frame p = Krypton.frame (s.mmu.pde 1020) ∨ Krypton.frame p = Krypton.frame (s.mmu.pde 0) ∨
      Krypton.frame p ∈ backing → m'.phys p = s.mmu.phys p) :
    Kept { s with mmu := m' } g stored backing A' := by
  have h1020 : m'.pde 1020 = s.mmu.pde 1020 := hd 1020 (.inr (.inr rfl))
  have hw : m'.Window stored backing := h.toWindow.keep hm.tables.toSelfMapped h1020 fun p hx => hp p (hx.imp_right .inr)
  refine { toWindow := hw, ptr := h.ptr, max := h.max, split := h.split, aligned := h.aligned, below := h.below,
           last := h.last, held := h1020 ▸ h.held, apart := ?_, dir := ?_, kernel := h.kernel, maps := hm, slots := hs,
           good := h.good, image := h.image, low := fun i hi => ?_, zero := ?_ }
  · show Krypton.frame (m'.pde 1020) ≠ m'.cr3
    rw [h1020, hc]
    exact h.apart
  · show 0x100000 < m'.cr3 ∧ _
    rw [hc]
    exact h.dir
  · show present (m'.pde i) ∧ Krypton.frame (m'.pde i) ≠ m'.cr3 ∧ 0x100000 < Krypton.frame (m'.pde i) ∧
      Krypton.frame (m'.pde i) < s.kernelSegEndPage
    rw [hd i (hi.imp_right .inl), hc]
    exact h.low i hi
  · have h0 : m'.pde 0 = s.mmu.pde 0 := hd 0 (.inl rfl)
    have hpte : m'.pte 0 0 = s.mmu.pte 0 0 := by
      unfold pte
      rw [h0, hp _ (.inr (.inl (frame_word (frame_mod _) (by omega))))]
    have hi : pdindex 0 = 0 := Nat.zero_div _
    have hj : ptindex 0 = 0 := by
      unfold ptindex
      rw [Nat.zero_div]
    rw [← h.zero]
    unfold Mmu.walk
    rw [hi, hj, h0, hpte]

/-- The tables of slots 0 and 1020, and the pages of the stack, are no data. -/
theorem off_system (h : s.Kept g stored backing A) (hT : ∀ f, T f → s.Plain g f) {p : Nat}
    (hp : Krypton.frame p = Krypton.frame (s.mmu.pde 1020) ∨ Krypton.frame p = Krypton.frame (s.mmu.pde 0) ∨
      Krypton.frame p ∈ backing) : ¬ T (Krypton.frame p) := by
  intro hx
  have hplain := hT _ hx
  rcases hp with he | he | hb
  · exact hplain.data.table 1020 (by omega) h.table he
  · exact hplain.data.table 0 (by omega) (h.low 0 (.inl rfl)).1 he
  · exact h.backing_not_plain hb hplain

/-- Stores into plain frames. -/
theorem edit (h : s.Kept g stored backing A) (ho : Off T s.mmu m') (hT : ∀ f, T f → s.Plain g f) :
    Kept { s with mmu := m' } g stored backing A := by
  have hcr : Krypton.frame s.mmu.cr3 = s.mmu.cr3 := frame_of_mod h.self.cr3
  have hd : ¬ T (Krypton.frame s.mmu.cr3) := fun hx => (hT _ hx).data.dir hcr
  have hpde : ∀ k < 1024, m'.pde k = s.mmu.pde k := fun k hk => ho.pde hd hk
  refine h.keep (h.maps.off ho fun f hf => (hT f hf).data) ho.cr3 (fun k hk => hpde k (by omega)) (fun i hi hp => ?_)
    fun p hp => ho.phys p (h.off_system hT hp)
  rw [hpde i hi.lt] at hp ⊢
  exact h.slots i hi hp

theorem edit_plain (h : s.Kept g stored backing A) (ho : Off T s.mmu m') (hT : ∀ f, T f → s.Plain g f)
    (hf : s.Plain g f) : Plain { s with mmu := m' } g f := by
  have hcr : Krypton.frame s.mmu.cr3 = s.mmu.cr3 := frame_of_mod h.self.cr3
  exact ⟨hf.held, ho.freshPage (fun hx => (hT _ hx).data.dir hcr) hf.data⟩

/-! ### `pm_alloc` -/

/-- The frame that `pm_alloc` returns is nobody's and no table. -/
theorem alloc (h : s.Kept g stored backing A) (hroom : s.pmLastPage + 0x1000 < 2 ^ 32) :
    ∃ page s' st, s.pmAlloc = some (page, s') ∧ page ∉ g.own ∧ s.Good page ∧ s.mmu.FreshPage page ∧ s'.mmu = s.mmu ∧
      s'.pmLastPage ≤ s.pmLastPage + 0x1000 ∧
      s'.Kept { g with own := page :: g.own, seen := page :: g.seen } st backing A := by
  obtain ⟨page, s', hs, hno, st, hsane⟩ := h.toSane.alloc fun _ => hroom
  obtain ⟨page₁, s₁, hs₁, hmmu, hseg, hmax, hcase⟩ := h.toStack.pmAlloc_cases
  obtain ⟨rfl, rfl⟩ := Prod.mk.inj (Option.some.inj (hs.symm.trans hs₁))
  have hst : s.Good page ∧ s.pmLastPage ≤ s'.pmLastPage ∧ s'.pmLastPage ≤ s.pmLastPage + 0x1000 ∧ ∀ f ∈ st, f ∈ stored := by
    rcases hcase with ⟨-, hpage, hlast, hptr⟩ | ⟨-, st', rfl, hlast, hptr⟩
    · have hstack : s'.Stack stored backing := ⟨hmmu ▸ h.toWindow, hptr.trans h.ptr, hmax.trans h.max⟩
      obtain ⟨rfl, -⟩ := hsane.toStack.unique hstack
      have hdir := h.dir
      have himage := h.image
      rw [Nat.mod_eq_of_lt hroom] at hpage
      exact ⟨⟨by omega, by omega⟩, by omega, by omega, fun _ hf => hf⟩
    · have hstack : s'.Stack st' backing := ⟨hmmu ▸ h.toWindow.pop, hptr, hmax.trans h.max⟩
      obtain ⟨rfl, -⟩ := hsane.toStack.unique hstack
      have hmem : page ∈ st ++ [page] := List.mem_append_right _ (List.mem_singleton_self _)
      exact ⟨h.good page (.inr (.inl hmem)), by omega, by omega, fun _ hf => List.mem_append_left _ hf⟩
  obtain ⟨hgood, hle, hle', hsub⟩ := hst
  have hal : page % 4096 = 0 := hsane.aligned page List.mem_cons_self
  refine ⟨page, s', st, hs, hno, hgood, h.fresh_of_good hal hgood hno, hmmu, hle', ?_⟩
  refine { toSane := hsane, maps := hmmu ▸ h.maps, slots := fun i hi hp => ?_, good := fun f hf => ?_,
           image := ?_, low := ?_, zero := hmmu ▸ h.zero }
  · rw [hmmu] at hp ⊢
    exact List.mem_cons_of_mem _ (h.slots i hi hp)
  · unfold Good
    rw [hseg]
    rcases hf with hf | hf | hf
    · rcases List.mem_cons.1 hf with rfl | hf
      · exact hgood
      · exact h.good f (.inl hf)
    · exact h.good f (.inr (.inl (hsub f hf)))
    · exact h.good f (.inr (.inr hf))
  · rw [hseg]
    exact h.image.trans hle
  · rw [hmmu, hseg]
    exact h.low

/-! ### `mm_map` and `mm_unmap` -/

theorem mmMap_present (s : Pmm) {page v flags : Nat} (hs : s.mmu.SelfMapped) (hv : pdindex v < 1024) (h0 : page ≠ 0)
    (hp : present (s.mmu.pde (pdindex v))) :
    s.mmMap page v flags = (s.mmu.mmMap 0 page v flags).map fun r => (r.1, { s with mmu := r.2 }) := by
  unfold Pmm.mmMap
  simp only [if_neg h0, hs.load_pd hv, Option.bind_eq_bind, Option.bind_some, not_not.2 hp, if_false]
  cases s.mmu.mmMap 0 page v flags <;> rfl

theorem mmMap_absent {page t v flags : Nat} (hs : s.mmu.SelfMapped) (hv : pdindex v < 1024) (h0 : page ≠ 0)
    (hp : ¬ present (s.mmu.pde (pdindex v))) (ht : s.pmAlloc = some (t, s')) :
    s.mmMap page v flags = (s'.mmu.mmMap t page v flags).map fun r => (r.1, { s' with mmu := r.2 }) := by
  unfold Pmm.mmMap
  simp only [if_neg h0, hs.load_pd hv, Option.bind_eq_bind, Option.bind_some, hp, not_false_eq_true, if_true, ht]
  cases s'.mmu.mmMap t page v flags <;> rfl

/-- The tables behind `mm_map`, `t` being the one it makes if there was none. -/
theorem mapped {t : Nat} (h : s.Kept g stored backing A) (hv : Ordinary (pdindex v)) (hne : pdindex v ≠ 1020)
    (hp : s.Plain g page) (h0 : page ≠ 0)
    (ht : ¬ present (s.mmu.pde (pdindex v)) → t ∈ g.own ∧ s.mmu.FreshPage t ∧ t ≠ page) (flags : Nat) :
    ∃ m', s.mmu.mmMap t page v flags = some (v, m') ∧
      Kept { s with mmu := m' } g stored backing (Function.update A (v / 4096) (some page)) ∧
      (∀ f, (present (s.mmu.pde (pdindex v)) ∨ f ≠ t) → s.Plain g f → Plain { s with mmu := m' } g f) ∧
      ∀ p, (present (s.mmu.pde (pdindex v)) ∨ Krypton.frame p ≠ t) → s.Plain g (Krypton.frame p) →
        m'.phys p = s.mmu.phys p := by
  have hfresh : ¬ present (s.mmu.pde (pdindex v)) → s.mmu.FreshPage t := fun hx => (ht hx).2.1
  obtain ⟨m', hm, hmaps⟩ := h.maps.mmMap flags hv h0 hp.data.aligned hfresh
  obtain ⟨m₁, hm₁, htab, hc, hpde, -⟩ := h.maps.tables.mmMap flags hv h0 hfresh
  obtain rfl := (Prod.mk.inj (Option.some.inj (hm.symm.trans hm₁))).2
  have hoff := h.maps.tables.mmMap_off hv h0 hfresh hm
  have hslot : present (m'.pde (pdindex v)) ∧ Krypton.frame (m'.pde (pdindex v)) ∈ g.own := by
    rw [hpde _ hv.lt]
    by_cases hold : present (s.mmu.pde (pdindex v))
    · rw [if_neg fun hx => hx.2 hold]
      exact ⟨hold, h.slots _ hv hold⟩
    · obtain ⟨ho, hf, -⟩ := ht hold
      rw [if_pos ⟨rfl, hold⟩, frame_entry _ hf.aligned]
      exact ⟨present_entry _ _, ho⟩
  have hother : ∀ k < 1024, k ≠ pdindex v → m'.pde k = s.mmu.pde k := fun k hk hx => by
    rw [hpde k hk, if_neg fun hy => hx hy.1]
  have hplain : ∀ f, (present (s.mmu.pde (pdindex v)) ∨ f ≠ t) → s.Plain g f → m'.FreshPage f := by
    intro f hf hpl
    refine ⟨hpl.data.aligned, hc.symm ▸ hpl.data.dir, fun k hk hpk => ?_⟩
    by_cases hkv : k = pdindex v ∧ ¬ present (s.mmu.pde k)
    · obtain ⟨rfl, hno⟩ := hkv
      rw [hpde _ hv.lt, if_pos ⟨rfl, hno⟩, frame_entry _ (hfresh hno).aligned]
      exact hf.resolve_left hno
    · rw [hpde k hk, if_neg hkv] at hpk ⊢
      exact hpl.data.table k hk hpk
  refine ⟨m', hm, h.keep hmaps hc (fun k hk => ?_) (fun i hi hpi => ?_) (fun p hx => hoff.phys p ?_),
    fun f hf hpl => ⟨hpl.held, hplain f hf hpl⟩, fun p hf hpl => hoff.phys p ?_⟩
  · have h1 := hv.zero
    have h2 := hv.kernel
    exact hother k (by omega) (by omega)
  · by_cases hi' : i = pdindex v
    · rw [hi']
      exact hslot.2
    · rw [hother i hi.lt hi'] at hpi ⊢
      exact h.slots i hi hpi
  · -- the kernel's table, the table of the stack and its pages are not the table of the slot
    rintro (he | he)
    · rcases hx with hx | hx | hx
      · exact h.apart (hx.symm.trans he)
      · exact (h.low 0 (.inl rfl)).2.1 (hx.symm.trans he)
      · rw [he] at hx
        exact h.dir_not_mem (List.mem_append_right _ hx)
    · rcases hx with hx | hx | hx
      · refine hne (htab.own _ 1020 hv (by omega) hslot.1 ?_ ?_)
        · rw [hother 1020 (by omega) hne.symm]
          exact h.table
        · rw [hother 1020 (by omega) hne.symm, ← hx, he]
      · refine hv.zero (htab.own _ 0 hv (by omega) hslot.1 ?_ ?_)
        · rw [hother 0 (by omega) hv.zero.symm]
          exact (h.low 0 (.inl rfl)).1
        · rw [hother 0 (by omega) hv.zero.symm, ← hx, he]
      · rw [he] at hx
        exact h.not_own (.inr hx) hslot.2
  · rintro (he | he)
    · exact hpl.data.dir he
    · exact (hplain _ hf hpl).table _ hv.lt hslot.1 he

/-- `mm_map` of a frame outside of the window of the stack. -/
theorem mmMap (h : s.Kept g stored backing A) (hv : Ordinary (pdindex v)) (hne : pdindex v ≠ 1020)
    (hp : s.Plain g page) (h0 : page ≠ 0) (hroom : s.pmLastPage + 0x1000 < 2 ^ 32) (flags : Nat) :
    ∃ s' g' st, s.mmMap page v flags = some (v, s') ∧
      s'.Kept g' st backing (Function.update A (v / 4096) (some page)) ∧ s'.pmLastPage ≤ s.pmLastPage + 0x1000 ∧
      (∀ f ∈ g.own, f ∈ g'.own) ∧ Spares s g [] s' g' := by
  have hself := h.maps.tables.toSelfMapped
  by_cases hold : present (s.mmu.pde (pdindex v))
  · obtain ⟨m', hm, hk, hpl, hph⟩ := h.mapped (t := 0) hv hne hp h0 (fun hx => absurd hold hx) flags
    refine ⟨_, g, stored, ?_, hk, Nat.le_add_right _ _, fun _ hf => hf,
      fun f _ hf => hpl f (.inl hold) hf, fun p _ hf => hph p (.inl hold) hf⟩
    rw [mmMap_present s hself hv.lt h0 hold, hm]
    rfl
  · obtain ⟨t, s₁, st, hs₁, hno, hgood, hfresh, hmmu, hle, hk₁⟩ := h.alloc hroom
    have hplain : ∀ f, s.Plain g f → s₁.Plain { g with own := t :: g.own, seen := t :: g.seen } f := fun f hf =>
      ⟨hf.held.imp_left (List.mem_cons_of_mem _), hmmu.symm ▸ hf.data⟩
    have hne' : ∀ f, s.Plain g f → f ≠ t := by
      rintro f hf rfl
      rcases hf.held with ho | rfl
      · exact hno ho
      · exact Nat.not_succ_le_zero _ hgood.1
    have habs : ¬ present (s₁.mmu.pde (pdindex v)) := hmmu.symm ▸ hold
    obtain ⟨m', hm, hk, hpl, hph⟩ := hk₁.mapped (t := t) hv hne (hplain page hp) h0
      (fun _ => ⟨List.mem_cons_self, hmmu.symm ▸ hfresh, (hne' page hp).symm⟩) flags
    refine ⟨_, _, st, ?_, hk, hle, fun f hf => List.mem_cons_of_mem _ hf,
      fun f _ hf => hpl f (.inr (hne' f hf)) (hplain f hf), fun p _ hf => ?_⟩
    · rw [mmMap_absent hself hv.lt h0 hold hs₁, hm]
      rfl
    · rw [hph p (.inr (hne' _ hf)) (hplain _ hf), hmmu]

theorem mmUnmap (h : s.Kept g stored backing A) (hv : Ordinary (pdindex v)) (hne : pdindex v ≠ 1020)
    (hp : present (s.mmu.pde (pdindex v))) :
    ∃ m', s.mmu.mmUnmap v = some m' ∧ Kept { s with mmu := m' } g stored backing (Function.update A (v / 4096) none) ∧
      Spares s g [] { s with mmu := m' } g := by
  have hlt := ptindex_lt v
  have htab := h.maps.tables
  obtain ⟨m', hm, hmaps⟩ := h.maps.mmUnmap hv hp
  have hset : m' = s.mmu.set (Krypton.frame (s.mmu.pde (pdindex v)) + 4 * ptindex v) 0 :=
    (Option.some.inj ((htab.store_pt hv.lt hlt hp 0).symm.trans hm)).symm
  have hpde : ∀ k < 1024, m'.pde k = s.mmu.pde k := fun k hk => by
    rw [hset, htab.pde_setEntry hv hp hlt hk]
  have hoff : Off (fun f => f = Krypton.frame (s.mmu.pde (pdindex v))) s.mmu m' :=
    hset ▸ .set (frame_word (frame_mod _) hlt)
  refine ⟨m', hm, h.keep hmaps hoff.cr3 (fun k hk => hpde k (by omega)) (fun i hi hpi => ?_) (fun p hx => ?_),
    ⟨fun f _ hf => ⟨hf.held, hf.data.aligned, hoff.cr3.symm ▸ hf.data.dir, fun k hk hpk => ?_⟩, fun p _ hf => ?_⟩⟩
  · rw [hpde i hi.lt] at hpi ⊢
    exact h.slots i hi hpi
  · refine hoff.phys p fun he => ?_
    rcases hx with hx | hx | hx
    · exact hne (htab.own _ 1020 hv (by omega) hp h.table (he.symm.trans hx))
    · exact hv.zero (htab.own _ 0 hv (by omega) hp (h.low 0 (.inl rfl)).1 (he.symm.trans hx))
    · rw [he] at hx
      exact h.not_own (.inr hx) (h.slots _ hv hp)
  · rw [show (Pmm.mmu { s with mmu := m' }).pde k = s.mmu.pde k from hpde k hk] at hpk ⊢
    exact hf.data.table k hk hpk
  · exact hoff.phys p (hf.data.table _ hv.lt hp)

/-! ### `pm_free` -/

/-- What `pm_free` writes: nothing, a word of the stack, or an entry in the table of its window. -/
theorem pmFree_mmu (h : s.Sane g stored backing) (hs : s.pmFree page = some s') : s'.mmu = s.mmu ∨
    (∃ p x, Krypton.frame p ∈ backing ∧ s'.mmu = s.mmu.set p x) ∨
      ∃ j x, j < 1024 ∧ s'.mmu = s.mmu.set (Krypton.frame (s.mmu.pde 1020) + 4 * j) x := by
  have hfull := h.toStack.full_iff
  have hfit := h.fit
  unfold pmFree at hs
  by_cases hr : s.Refuses page
  · rw [if_pos hr] at hs
    cases hs
    exact .inl rfl
  rw [if_neg hr] at hs
  by_cases hx : s.stackPtr ≥ s.stackMax
  · rw [if_pos hx] at hs
    have hlen := hfull.1 hx
    have hlt := h.backing_lt hlen
    have hpd : Mmu.pdindex s.stackPtr = 1020 := by
      rw [h.ptr]
      unfold Mmu.pdindex pmStackAddr
      omega
    have hpt : Mmu.ptindex s.stackPtr = backing.length := by
      rw [h.ptr]
      unfold Mmu.ptindex pmStackAddr
      omega
    have h0 : page ≠ 0 := fun h0 => hr (.inr (.inr (by omega)))
    have htable : present (s.mmu.pde (Mmu.pdindex s.stackPtr)) := hpd.symm ▸ h.table
    rw [mmMap_present s h.self (by omega) h0 htable, h.self.mmMap_eq (by omega) htable h0, hpd, hpt] at hs
    cases hs
    exact .inr (.inr ⟨_, _, hlt, rfl⟩)
  · rw [if_neg hx, h.ptr] at hs
    have hlt : stored.length < 1024 * backing.length := by
      rw [hfull] at hx
      omega
    have hj : stored.length / 1024 < backing.length := by omega
    have hstore : ∀ x, s.mmu.store (pmStackAddr + 4 * stored.length) x = some (s.mmu.set
        (Krypton.frame (s.mmu.pte 1020 (stored.length / 1024)) + 4 * (stored.length % 1024)) x) := fun x => by
      unfold Mmu.store
      rw [h.toWindow.walk hlt]
      rfl
    rw [hstore] at hs
    cases hs
    refine .inr (.inl ⟨_, _, ?_, rfl⟩)
    rw [frame_word (frame_mod _) (by omega), (h.page _ hj).2]
    exact List.getElem_mem hj

/-- A frame is given back: the translation may change in the window of the stack only. -/
theorem free (h : s.Kept g stored backing A) (hok : PmmOp.Ok (s, g) (.free page))
    (hno : ∀ i, Ordinary i → present (s.mmu.pde i) → page ≠ Krypton.frame (s.mmu.pde i)) :
    ∃ s' st bk A', s.pmFree page = some s' ∧ Stack.Still s s' ∧
      s'.Kept { own := g.own.erase page
                dropped := if s.Refuses page then page :: g.dropped else g.dropped
                seen := page :: g.seen } st bk A' ∧
      (∀ n, n / 1024 ≠ 1020 → A' n = A n) ∧
      Spares s g [page] s' { own := g.own.erase page
                             dropped := if s.Refuses page then page :: g.dropped else g.dropped
                             seen := page :: g.seen } := by
  have htab := h.maps.tables
  have h1020 : Ordinary 1020 := ⟨by omega, by omega, by omega, by omega⟩
  obtain ⟨s', hs, st, bk, hsane⟩ := h.toSane.free hok
  obtain ⟨s₁, hs₁, hstill, hcase⟩ := h.toSane.pmFree_cases hok
  obtain rfl := Option.some.inj (hs.symm.trans hs₁)
  have hgood : ∀ f, f ∈ st ∨ f ∈ bk → s.Good f := by
    have hpage : ¬ s.Refuses page → s.Good page := fun hr => by
      unfold Refuses at hr
      exact ⟨by omega, by omega⟩
    intro f hf
    rcases hcase with ⟨-, hst⟩ | ⟨hr, hst | hst⟩
    · obtain ⟨rfl, rfl⟩ := hsane.toStack.unique hst
      exact h.good f (.inr hf)
    · obtain ⟨rfl, rfl⟩ := hsane.toStack.unique hst
      rw [List.mem_append, List.mem_singleton] at hf
      rcases hf with (hf | rfl) | hf
      · exact h.good f (.inr (.inl hf))
      · exact hpage hr
      · exact h.good f (.inr (.inr hf))
    · obtain ⟨rfl, rfl⟩ := hsane.toStack.unique hst
      rw [List.mem_append, List.mem_singleton] at hf
      rcases hf with hf | hf | rfl
      · exact h.good f (.inr (.inl hf))
      · exact h.good f (.inr (.inr hf))
      · exact hpage hr
  -- no entry of the directory changes, and no page table but that of the window
  obtain ⟨T, A', hmaps, hA, hoff, hT, hpde⟩ : ∃ (T : Nat → Prop) (A' : PageMap), s'.mmu.Maps A' ∧
      (∀ n, n / 1024 ≠ 1020 → A' n = A n) ∧ Off T s.mmu s'.mmu ∧
      (∀ f, T f → f ∈ backing ∨ f = Krypton.frame (s.mmu.pde 1020)) ∧ ∀ k < 1024, s'.mmu.pde k = s.mmu.pde k := by
    rcases pmFree_mmu h.toSane hs with he | ⟨p, x, hp, he⟩ | ⟨j, x, hj, he⟩
    · exact ⟨fun _ => False, A, he ▸ h.maps, fun _ _ => rfl, he ▸ .refl _, fun _ hf => hf.elim, fun _ _ => by rw [he]⟩
    · have hoff : Off (fun f => f = Krypton.frame p) s.mmu s'.mmu := he ▸ .set rfl
      have hfresh := h.backing_fresh hp
      refine ⟨_, A, h.maps.off hoff (by rintro f rfl; exact hfresh), fun _ _ => rfl, hoff,
        by rintro f rfl; exact .inl hp, fun k hk => hoff.pde ?_ hk⟩
      rw [frame_of_mod h.self.cr3]
      exact hfresh.dir.symm
    · refine ⟨fun f => f = Krypton.frame (s.mmu.pde 1020), _, he ▸ h.maps.setEntry h1020 h.table hj, fun n hn => ?_,
        he ▸ .set (frame_word (frame_mod _) hj), fun f hf => .inr hf, fun k hk => ?_⟩
      · exact Function.update_of_ne (by omega) _ _
      · rw [he, htab.pde_setEntry h1020 h.table hj hk]
  have hplain : ∀ f, s.Plain g f → ¬ T f := fun f hf hx => by
    rcases hT f hx with hb | he
    · exact h.backing_not_plain hb hf
    · exact hf.data.table 1020 (by omega) h.table he
  have hlow : ¬ T (Krypton.frame (s.mmu.pde 0)) := fun hx => by
    rcases hT _ hx with hb | he
    · exact (h.good _ (.inr (.inr hb))).2 (h.low 0 (.inl rfl)).2.2
    · exact absurd (htab.own 1020 0 h1020 (by omega) h.table (h.low 0 (.inl rfl)).1 he.symm) (by omega)
  refine ⟨s', st, bk, A', hs, hstill, ?_, hA, ⟨fun f hf hpl => ⟨?_, hpl.data.aligned, ?_, fun k hk hpk => ?_⟩,
    fun p _ hpl => hoff.phys p (hplain _ hpl)⟩⟩
  · refine { toSane := hsane, maps := hmaps, slots := fun i hi hp => ?_, good := fun f hf => ?_, image := ?_,
             low := fun i hi => ?_, zero := ?_ }
    · rw [hpde i hi.lt] at hp ⊢
      exact (List.mem_erase_of_ne (hno i hi hp).symm).2 (h.slots i hi hp)
    · unfold Good
      rw [hstill.seg]
      exact hf.elim (fun hf => h.good f (.inl (List.mem_of_mem_erase hf))) (hgood f)
    · rw [hstill.seg, hstill.last]
      exact h.image
    · rw [hpde i (by omega), hstill.seg, hstill.cr3]
      exact h.low i hi
    · have hdir : ¬ T (Krypton.frame s.mmu.cr3) := fun hx => by
        rw [frame_of_mod h.self.cr3] at hx
        rcases hT _ hx with hb | he
        · exact h.dir_not_mem (List.mem_append_right _ hb)
        · exact h.apart he.symm
      have h0 : pdindex 0 = 0 := Nat.zero_div _
      rw [hoff.walk hdir (by omega) fun _ => by rw [h0]; exact hlow]
      exact h.zero
  · exact hpl.held.imp_left (List.mem_erase_of_ne fun he => hf (by rw [he]; exact List.mem_singleton_self _)).2
  · rw [hstill.cr3]
    exact hpl.data.dir
  · rw [hpde k hk] at hpk ⊢
    exact hpl.data.table k hk hpk

end Kept
end Pmm
end Krypton
