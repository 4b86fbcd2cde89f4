import Krypton.Paging

/-!
# `pmm.c`: `clone_actual_directory`

`pm_alloc` is the list of the frames it returns, from the one that is next. `memcpy` goes by words: what it is called
on are whole pages. The window at `PM_DIR_CLONE_ADDR` shows the new directory while the old one is copied, and after
that the new page tables, so what the loop stores through `dest_pd` never reaches the new directory.
-/

namespace Krypton

def pmDirCloneAddr : Nat := 0xFE000000

/-- `memcpy` of `n` words. -/
def Mmu.memcpy : Nat → Mmu → Nat → Nat → Option Mmu
  | 0, s, _, _ => some s
  | n + 1, s, dest, src => do
    let x ← s.load src
    let s ← s.store dest x
    memcpy n s (dest + 4) (src + 4)

/-- The page tables, and how many frames `pm_alloc` has returned. -/
structure Cloner where
  mmu : Mmu
  taken : Nat

namespace Cloner

section
variable (frames : Nat → Nat)

def pmAlloc (c : Cloner) : Nat × Cloner := (frames c.taken, { c with taken := c.taken + 1 })

/-- `mm_map`, which takes a page for a page table if there is none. -/
def mmMap (c : Cloner) (physaddr virtualaddr flags : Nat) : Option (Nat × Cloner) :=
  if physaddr = 0 then some (0, c)
  else do
    let e ← c.mmu.load (Mmu.pd + 4 * Mmu.pdindex virtualaddr)
    let (page, c) := if ¬ present e then c.pmAlloc frames else (0, c)
    let (r, mmu) ← c.mmu.mmMap page physaddr virtualaddr flags
    some (r, { c with mmu := mmu })

/-- The loop, from `i` on. The test of `pt` is about the address. -/
def cloneLoop : Nat → Cloner → Nat → Nat → Option Cloner
  | 0, c, _, _ => some c
  | n + 1, c, destPd, i => do
    let pt := Mmu.pt i
    let c ←
      if pt ≠ 0 then do
        let (destPt, c) := c.pmAlloc frames
        let (_, c) ← c.mmMap frames destPt pmDirCloneAddr (pageWrite ||| pageUser)
        let mmu ← c.mmu.memcpy 1024 pmDirCloneAddr (frame pt)
        let mmu ← mmu.store (destPd + 4 * i) (pt &&& 0x7 ||| destPt)
        some { c with mmu := mmu }
      else some c
    cloneLoop n c destPd (i + 1)

/-- The new directory's frame. -/
def cloneActualDirectory (c : Cloner) : Option (Nat × Cloner) := do
  let (destPdPhysical, c) := c.pmAlloc frames
  let (destPd, c) ← c.mmMap frames destPdPhysical pmDirCloneAddr (pageWrite ||| pageUser)
  let mmu ← c.mmu.memcpy 1024 pmDirCloneAddr Mmu.pd
  let c ← cloneLoop frames 1024 { c with mmu := mmu } destPd 0
  some (destPdPhysical, c)

end

end Cloner

namespace Mmu

variable {s t t' : Mmu} {frames : Nat → Nat} {w e p x i j k n src : Nat}

/-- What `pm_alloc` returns: pages in use nowhere, no two the same. -/
structure FreshFrames (s : Mmu) (frames : Nat → Nat) : Prop where
  fresh : ∀ k < 1026, s.FreshPage (frames k)
  ne_zero : ∀ k < 1026, frames k ≠ 0
  inj : ∀ k < 1026, ∀ l < 1026, frames k = frames l → k = l

/-- The slots a clone is compared at. -/
structure Copied (i : Nat) : Prop where
  lt : i < 1024
  window : i ≠ pdindex pmDirCloneAddr
  self : i ≠ 1023

/-- In `t` the directory at `r` is an independent copy of the one of `s`. -/
structure Cloned (s : Mmu) (frames : Nat → Nat) (r : Nat) (t : Mmu) : Prop where
  absent : ∀ i, Copied i → (present (t.phys (r + 4 * i)) ↔ present (s.pde i))
  fresh : ∀ i, Copied i → present (s.pde i) → ∃ k < 1026, frame (t.phys (r + 4 * i)) = frames k
  shared : ∀ i j, Copied i → Copied j → present (s.pde i) → present (s.pde j) →
    frame (t.phys (r + 4 * i)) = frame (t.phys (r + 4 * j)) → frame (s.pde i) = frame (s.pde j)
  entries : ∀ i j, Copied i → present (s.pde i) → j < 1024 →
    t.phys (frame (t.phys (r + 4 * i)) + 4 * j) = s.pte i j
  rights : ∀ i, Copied i → present (s.pde i) → t.phys (r + 4 * i) % 8 = s.pde i % 8
  source : ∀ v, Copied (pdindex v) → t.walk v = s.walk v

/-! ### The window -/

/-- The directory is as in `s`, and the table of the window is `w`. If `w` is the directory, its entry 0 is the entry of
the window. -/
structure Cloning (s : Mmu) (w : Nat) (t : Mmu) : Prop where
  cr3 : t.cr3 = s.cr3
  pde : ∀ i, i < 1024 → i ≠ 0 → i ≠ 1016 → t.pde i = s.pde i
  here : present (t.pde 1016)
  table : frame (t.pde 1016) = w

/-- The window of the table `w` shows the page `e`. -/
structure Shows (t : Mmu) (w e : Nat) : Prop where
  here : present (t.phys w)
  frame : Krypton.frame (t.phys w) = e

theorem pdindex_window : pdindex pmDirCloneAddr = 1016 := by decide
theorem ptindex_window : ptindex pmDirCloneAddr = 0 := by decide

theorem window_index (hj : j < 1024) : pdindex (pmDirCloneAddr + 4 * j) = 1016 ∧
    ptindex (pmDirCloneAddr + 4 * j) = 0 ∧ (pmDirCloneAddr + 4 * j) % 4096 = 4 * j := by
  unfold pdindex ptindex pmDirCloneAddr
  omega

namespace Cloning

theorem aligned (h : Cloning s w t) : w % 4096 = 0 := h.table ▸ frame_mod _

theorem selfMapped (h : Cloning s w t) (hs : s.SelfMapped) : t.SelfMapped :=
  hs.of_pde h.cr3 (h.pde 1023 (by simp) (by simp) (by simp))

/-- A store outside the directory. -/
theorem set (h : Cloning s w t) (hs : s.SelfMapped) (hp : p % 4096 = 0) (hne : p ≠ s.cr3) (hj : j < 1024) :
    Cloning s w (t.set (p + 4 * j) x) := by
  have hd := fun k hk => pde_set (x := x) (h.selfMapped hs) hp (h.cr3 ▸ hne) hj (k := k) hk
  refine ⟨h.cr3, fun i hi h0 hw => ?_, ?_, ?_⟩
  · rw [hd i hi, h.pde i hi h0 hw]
  · rw [hd 1016 (by simp)]; exact h.here
  · rw [hd 1016 (by simp)]; exact h.table

theorem setEntry (h : Cloning s w t) (hs : s.SelfMapped) : Cloning s w (t.set (w + 4 * 0) x) := by
  by_cases hw : w = s.cr3
  · have hd : ∀ k, (t.set (w + 4 * 0) x).pde k = if k = 0 then x else t.pde k := by
      rw [hw, ← h.cr3]
      exact pde_set_dir (h.selfMapped hs)
    refine ⟨h.cr3, fun i hi h0 hw => ?_, ?_, ?_⟩
    · rw [hd i, if_neg h0, h.pde i hi h0 hw]
    · rw [hd 1016, if_neg (by simp)]; exact h.here
    · rw [hd 1016, if_neg (by simp)]; exact h.table
  · exact h.set hs h.aligned hw (by simp)

theorem walk_window (h : Cloning s w t) (he : Shows t w e) (hj : j < 1024) :
    t.walk (pmDirCloneAddr + 4 * j) = some (e + 4 * j) := by
  obtain ⟨h1, h2, h3⟩ := window_index hj
  have hentry : t.pte 1016 0 = t.phys w := by
    unfold pte
    rw [h.table]
    rfl
  unfold walk
  rw [h1, h2, h3, hentry, if_pos ⟨h.here, he.here⟩, he.frame]

theorem store_window (h : Cloning s w t) (he : Shows t w e) (hj : j < 1024) (x : Nat) :
    t.store (pmDirCloneAddr + 4 * j) x = some (t.set (e + 4 * j) x) := by
  unfold store
  rw [h.walk_window he hj]
  rfl

theorem shows_set (h : Cloning s w t) (he : Shows t w e) (hmod : e % 4096 = 0) (hne : e ≠ w) (hj : j < 1024) :
    Shows (t.set (e + 4 * j) x) w e := by
  have hword : (t.set (e + 4 * j) x).phys w = t.phys w := by
    have := h.aligned
    rw [set_phys, if_neg (by omega)]
  exact ⟨hword ▸ he.here, hword ▸ he.frame⟩

theorem memcpy (h : Cloning s w t) (hs : s.SelfMapped) (he : Shows t w e) (hmod : e % 4096 = 0) (hd : e ≠ s.cr3)
    (hne : e ≠ w) (hk : k + n ≤ 1024) (hm : t.memcpy n (pmDirCloneAddr + 4 * k) src = some t') :
    Cloning s w t' ∧ Shows t' w e ∧ ∀ p, (∀ j, k ≤ j → j < 1024 → p ≠ e + 4 * j) → t'.phys p = t.phys p := by
  induction n generalizing t k src with
  | zero =>
    obtain rfl := Option.some.inj hm
    exact ⟨h, he, fun _ _ => rfl⟩
  | succ n ih =>
    have hk' : k < 1024 := by omega
    unfold Mmu.memcpy at hm
    obtain ⟨x, -, hm⟩ := Option.bind_eq_some_iff.1 hm
    rw [h.store_window he hk', Option.bind_eq_bind, Option.bind_some] at hm
    have hnext : pmDirCloneAddr + 4 * k + 4 = pmDirCloneAddr + 4 * (k + 1) := by omega
    rw [hnext] at hm
    obtain ⟨h', he', hp⟩ := ih (h.set hs hmod hd hk') (h.shows_set he hmod hne hk') (by omega) hm
    refine ⟨h', he', fun p hout => ?_⟩
    rw [hp p fun j hj => hout j (by omega), set_phys, if_neg (hout k (by omega) hk')]

theorem memcpy_pd (h : Cloning s w t) (hs : s.SelfMapped) (he : Shows t w e) (hmod : e % 4096 = 0) (hd : e ≠ s.cr3)
    (hne : e ≠ w) (hk : k + n ≤ 1024) (hm : t.memcpy n (pmDirCloneAddr + 4 * k) (pd + 4 * k) = some t') :
    ∀ i, k ≤ i → i < k + n → i ≠ 0 → i ≠ 1016 → t'.phys (e + 4 * i) = s.pde i := by
  induction n generalizing t k with
  | zero =>
    intro i hi hi'
    omega
  | succ n ih =>
    have hk' : k < 1024 := by omega
    unfold Mmu.memcpy at hm
    rw [(h.selfMapped hs).load_pd hk', Option.bind_eq_bind, Option.bind_some, h.store_window he hk',
      Option.bind_eq_bind, Option.bind_some] at hm
    have hnext : pmDirCloneAddr + 4 * k + 4 = pmDirCloneAddr + 4 * (k + 1) := by omega
    have hnext' : pd + 4 * k + 4 = pd + 4 * (k + 1) := by omega
    rw [hnext, hnext'] at hm
    have h' : Cloning s w (t.set (e + 4 * k) (t.pde k)) := h.set hs hmod hd hk'
    have he' := h.shows_set (x := t.pde k) he hmod hne hk'
    intro i hi hi' h0 hw
    rcases Nat.eq_or_lt_of_le hi with rfl | hlt
    · -- the rest of the copy is behind this word
      obtain ⟨-, -, hp⟩ := h'.memcpy hs he' hmod hd hne (by omega) hm
      rw [hp _ fun j hj _ => by omega, set_phys, if_pos rfl, h.pde k hk' h0 hw]
    · exact ih h' he' (by omega) hm i hlt (by omega) h0 hw

theorem present_of_memcpy (h : Cloning s w t) (hs : s.SelfMapped) {dest : Nat} (hi : i < 1024)
    (hm : t.memcpy (n + 1) dest (pt i) = some t') : present (t.pde i) := by
  unfold Mmu.memcpy at hm
  obtain ⟨x, hx, -⟩ := Option.bind_eq_some_iff.1 hm
  obtain ⟨p, hp, -⟩ := Option.map_eq_some_iff.1 hx
  obtain ⟨h1, h2, -⟩ := window hi (by simp : 0 < 1024)
  rw [Nat.mul_zero, Nat.add_zero] at h1 h2
  unfold walk at hp
  rw [h1, h2, (h.selfMapped hs).pte_eq] at hp
  by_contra hno
  rw [if_neg fun hx => hno hx.2] at hp
  cases hp

/-- `mm_map` at the window, whose table is there. -/
theorem mmMap (frames : Nat → Nat) (h : Cloning s w t) (hs : s.SelfMapped) (h0 : e ≠ 0) (hmod : e % 4096 = 0)
    (flags taken : Nat) :
    ∃ t', Cloner.mmMap frames ⟨t, taken⟩ e pmDirCloneAddr flags = some (pmDirCloneAddr, ⟨t', taken⟩) ∧
      Cloning s w t' ∧ Shows t' w e ∧ ∀ p, p ≠ w → t'.phys p = t.phys p := by
  have hself := h.selfMapped hs
  have hlt : pdindex pmDirCloneAddr < 1024 := by rw [pdindex_window]; simp
  have hp : present (t.pde (pdindex pmDirCloneAddr)) := by rw [pdindex_window]; exact h.here
  have hframe : frame (t.pde (pdindex pmDirCloneAddr)) = w := by rw [pdindex_window]; exact h.table
  set x := e ||| (flags &&& 0xFFF) ||| 0x01
  have hx : (t.set (w + 4 * 0) x).phys w = x := by rw [set_phys]; exact if_pos rfl
  refine ⟨t.set (w + 4 * 0) x, ?_, h.setEntry hs, ⟨?_, ?_⟩, fun p hp => ?_⟩
  · unfold Cloner.mmMap
    simp only [if_neg h0, hself.load_pd hlt, Option.bind_eq_bind, Option.bind_some, if_neg (not_not.2 hp),
      hself.mmMap_eq hlt hp h0, hframe, ptindex_window]
    rfl
  · rw [hx]; exact present_entry e flags
  · rw [hx]; exact frame_entry flags hmod
  · rw [set_phys]; exact if_neg hp

/-- The first `mm_map` puts the new directory in the window. -/
theorem start (hs : s.SelfMapped) (hf : s.FreshFrames frames) :
    ∃ w t n, Cloner.mmMap frames ⟨s, 1⟩ (frames 0) pmDirCloneAddr (pageWrite ||| pageUser) =
        some (pmDirCloneAddr, ⟨t, n⟩) ∧ 0 < n ∧ n ≤ 2 ∧ Cloning s w t ∧ Shows t w (frames 0) ∧
      ∀ k < 1026, k = 0 ∨ n ≤ k → frames k ≠ w := by
  have h0 := hf.ne_zero 0 (by simp)
  have hmod := (hf.fresh 0 (by simp)).aligned
  by_cases hp : present (s.pde 1016)
  · have h : Cloning s (frame (s.pde 1016)) s := ⟨rfl, fun _ _ _ _ => rfl, hp, rfl⟩
    obtain ⟨t, hm, ht, hsh, -⟩ := h.mmMap frames hs h0 hmod (pageWrite ||| pageUser) 1
    exact ⟨_, t, 1, hm, by simp, by simp, ht, hsh, fun k hk _ => (hf.fresh k hk).table 1016 (by simp) hp⟩
  · -- the table of the window is made
    have hpage := hf.fresh 1 (by simp)
    have hx := frame_entry (pageWrite ||| pageUser) hpage.aligned
    have hpx := present_entry (frames 1) (pageWrite ||| pageUser)
    obtain ⟨t, hc, hself, hcr, hd, -⟩ := hs.create (by simp : 1016 < 1023) hpage.aligned hpage.dir hx hpx
    have hd' : t.pde 1016 = frames 1 ||| ((pageWrite ||| pageUser) &&& 0xFFF) ||| 0x01 :=
      (hd 1016 (by simp)).trans (if_pos rfl)
    have h : Cloning s (frames 1) t :=
      ⟨hcr, fun i hi _ hw => (hd i hi).trans (if_neg hw), hd' ▸ hpx, hd' ▸ hx⟩
    obtain ⟨t', hm, ht, hsh, -⟩ := h.mmMap frames hs h0 hmod (pageWrite ||| pageUser) 2
    refine ⟨_, t', 2, ?_, by simp, by simp, ht, hsh, fun k hk hor he => ?_⟩
    · have hlt : pdindex pmDirCloneAddr < 1024 := by rw [pdindex_window]; simp
      rw [← pdindex_window] at hp hc
      have hp' : present (t.pde (pdindex pmDirCloneAddr)) := by rw [pdindex_window]; exact h.here
      unfold Cloner.mmMap at hm ⊢
      simp only [if_neg h0, hs.load_pd hlt, Option.bind_eq_bind, Option.bind_some, if_pos hp, Cloner.pmAlloc,
        hs.mmMap_create hself hlt hp hp' h0 hc]
      simp only [if_neg h0, hself.load_pd hlt, Option.bind_eq_bind, Option.bind_some, if_neg (not_not.2 hp'),
        hself.mmMap_eq hlt hp' h0] at hm ⊢
      exact hm
    · have := hf.inj k hk 1 (by simp) he
      omega

/-- One turn of the loop. The page in the window is neither the new directory nor the window's table, and the table copied
is there. -/
theorem cloneLoop_succ (hs : s.SelfMapped) (hf : s.FreshFrames frames) {c c' : Cloner} (h : Cloning s w c.mmu)
    (h0 : 0 < c.taken) (hlt : c.taken < 1026) (hdw : frames 0 ≠ w) (hew : frames c.taken ≠ w) (hi : i < 1024)
    (hr : Cloner.cloneLoop frames (n + 1) c pmDirCloneAddr i = some c') :
    (i ≠ 0 → i ≠ 1016 → present (s.pde i)) ∧
      ∃ t, Cloner.cloneLoop frames n ⟨t, c.taken + 1⟩ pmDirCloneAddr (i + 1) = some c' ∧ Cloning s w t ∧
        ∀ j < 1024, t.phys (frames 0 + 4 * j) = c.mmu.phys (frames 0 + 4 * j) := by
  have hpage := hf.fresh c.taken hlt
  have hdmod := (hf.fresh 0 (by simp)).aligned
  have hde : frames 0 ≠ frames c.taken := fun he => by
    have := hf.inj 0 (by simp) c.taken hlt he
    omega
  have hpt : pt i ≠ 0 := by unfold pt; omega
  have hptmod : frame (pt i) = pt i := frame_of_mod (by unfold pt; omega)
  obtain ⟨t₁, hm₁, h₁, hsh₁, hp₁⟩ := h.mmMap frames hs (hf.ne_zero _ hlt) hpage.aligned
    (pageWrite ||| pageUser) (c.taken + 1)
  unfold Cloner.cloneLoop at hr
  dsimp only at hr
  rw [if_pos hpt, hptmod] at hr
  obtain ⟨⟨d, c₀⟩, hmap, hr⟩ := Option.bind_eq_some_iff.1 hr
  obtain ⟨rfl, rfl⟩ := Prod.mk.inj (Option.some.inj (hm₁.symm.trans hmap))
  obtain ⟨t₂, hcopy, hr⟩ := Option.bind_eq_some_iff.1 hr
  obtain ⟨t₃, hstore, hr⟩ := Option.bind_eq_some_iff.1 hr
  have hpres := h₁.present_of_memcpy hs hi hcopy
  obtain ⟨h₂, hsh₂, hp₂⟩ := h₁.memcpy (k := 0) hs hsh₁ hpage.aligned hpage.dir hew (by simp) hcopy
  obtain rfl := Option.some.inj ((h₂.store_window hsh₂ hi _).symm.trans hstore)
  refine ⟨fun hi0 hiw => ?_, _, hr, h₂.set hs hpage.aligned hpage.dir hi, fun j hj => ?_⟩
  · rwa [h₁.pde i hi hi0 hiw] at hpres
  · have hout := fun l (hl : l < 1024) => word_ne hdmod hpage.aligned hde hj hl
    have := h.aligned
    rw [set_phys, if_neg (hout i hi), hp₂ _ fun l _ hl => hout l hl, hp₁ _ (by omega)]

/-- The loop: the tables it has passed are there, and the new directory keeps its entries. -/
theorem cloneLoop (hs : s.SelfMapped) (hf : s.FreshFrames frames) {c c' : Cloner} (h : Cloning s w c.mmu)
    (h0 : 0 < c.taken) (htaken : c.taken + n ≤ 1026) (hw : ∀ k < 1026, k = 0 ∨ c.taken ≤ k → frames k ≠ w)
    (hi : i + n ≤ 1024) (hr : Cloner.cloneLoop frames n c pmDirCloneAddr i = some c') :
    (∀ j < 1024, c'.mmu.phys (frames 0 + 4 * j) = c.mmu.phys (frames 0 + 4 * j)) ∧
      ∀ j, i ≤ j → j < i + n → j ≠ 0 → j ≠ 1016 → present (s.pde j) := by
  induction n generalizing c i with
  | zero =>
    obtain rfl := Option.some.inj hr
    exact ⟨fun _ _ => rfl, fun j _ _ => by omega⟩
  | succ n ih =>
    have hlt : c.taken < 1026 := by omega
    obtain ⟨hpres, t, ht, h', hkeep⟩ := h.cloneLoop_succ hs hf h0 hlt (hw 0 (by simp) (.inl rfl))
      (hw c.taken hlt (.inr (Nat.le_refl _))) (by omega) hr
    have htaken' : c.taken + 1 + n ≤ 1026 := by omega
    have hw' : ∀ k < 1026, k = 0 ∨ c.taken + 1 ≤ k → frames k ≠ w := fun k hk hor =>
      hw k hk (hor.imp_right Nat.le_of_succ_le)
    obtain ⟨hkeep', htables⟩ := ih (c := ⟨t, c.taken + 1⟩) h' (Nat.succ_pos _) htaken' hw' (by omega) ht
    refine ⟨fun j hj => (hkeep' j hj).trans (hkeep j hj), fun j hij hjn hj0 hjw => ?_⟩
    rcases Nat.eq_or_lt_of_le hij with rfl | hlt
    · exact hpres hj0 hjw
    · exact htables j hlt (by omega) hj0 hjw

/-- If the clone returns, every slot had a table, and the new directory has the tables of the old one. -/
theorem cloneActualDirectory (hs : s.SelfMapped) (hf : s.FreshFrames frames) {r : Nat} {c : Cloner}
    (hr : Cloner.cloneActualDirectory frames ⟨s, 0⟩ = some (r, c)) : ∀ i < 1024, i ≠ 0 → i ≠ 1016 →
      present (s.pde i) ∧ c.mmu.phys (r + 4 * i) = s.pde i := by
  obtain ⟨w, t, n, hm, hn0, hn, h, hsh, hw⟩ := start hs hf
  have hpage := hf.fresh 0 (by simp)
  unfold Cloner.cloneActualDirectory at hr
  obtain ⟨⟨d, c₀⟩, hmap, hr⟩ := Option.bind_eq_some_iff.1 hr
  obtain ⟨rfl, rfl⟩ := Prod.mk.inj (Option.some.inj (hm.symm.trans hmap))
  obtain ⟨t₁, hcopy, hr⟩ := Option.bind_eq_some_iff.1 hr
  obtain ⟨c₁, hloop, hr⟩ := Option.bind_eq_some_iff.1 hr
  obtain ⟨rfl, rfl⟩ := Prod.mk.inj (Option.some.inj hr)
  have hdw := hw 0 (by simp) (.inl rfl)
  obtain ⟨h₁, -, -⟩ := h.memcpy (k := 0) hs hsh hpage.aligned hpage.dir hdw (by simp) hcopy
  have hentries := h.memcpy_pd (k := 0) hs hsh hpage.aligned hpage.dir hdw (by simp) hcopy
  have htaken : n + 1024 ≤ 1026 := by omega
  obtain ⟨hkeep, htables⟩ := h₁.cloneLoop (c := ⟨t₁, n⟩) hs hf hn0 htaken hw (by simp) hloop
  intro i hi h0 hw'
  refine ⟨htables i (Nat.zero_le i) (by omega) h0 hw', ?_⟩
  exact (hkeep i hi).trans (hentries i (Nat.zero_le i) (by omega) h0 hw')

end Cloning

/-- **A cloned directory is never an independent copy**: the clone returns only if every slot has a table, and then the
new directory has the tables of the old one. -/
theorem not_cloned (hs : s.SelfMapped) (hf : s.FreshFrames frames) :
    ¬ ∃ r c, Cloner.cloneActualDirectory frames ⟨s, 0⟩ = some (r, c) ∧ s.Cloned frames r c.mmu := by
  rintro ⟨r, c, hr, h⟩
  have hcopied : Copied 1 := ⟨by decide, by decide, by decide⟩
  obtain ⟨hp, he⟩ := Cloning.cloneActualDirectory hs hf hr 1 (by simp) (by simp) (by simp)
  obtain ⟨k, hk, hframe⟩ := h.fresh 1 hcopied hp
  rw [he] at hframe
  exact (hf.fresh k hk).table 1 (by simp) hp hframe.symm

theorem freshFrames_boot : (initPaging (fun _ => 0) 0x105000 0x106000).FreshFrames fun k => 0x200000 + 4096 * k where
  fresh k _ := initPaging_fresh _ rfl rfl (by simp) (by omega) (by omega) (by omega)
  ne_zero k _ := by omega
  inj k _ l _ he := by omega

/-- The directory `init_paging` leaves. -/
theorem not_cloned_boot : ¬ ∃ r c, Cloner.cloneActualDirectory (fun k => 0x200000 + 4096 * k)
      ⟨initPaging (fun _ => 0) 0x105000 0x106000, 0⟩ = some (r, c) ∧
    (initPaging (fun _ => 0) 0x105000 0x106000).Cloned (fun k => 0x200000 + 4096 * k) r c.mmu :=
  not_cloned (initPaging_maps _ rfl rfl (by simp)).tables.toSelfMapped freshFrames_boot

/-- At boot slot 1 has no table, and the clone reads it. -/
theorem clone_touches_absent : ¬ ∀ (s : Mmu) (frames : Nat → Nat), s.SelfMapped → s.FreshFrames frames →
    ∃ r c, Cloner.cloneActualDirectory frames ⟨s, 0⟩ = some (r, c) ∧ s.Cloned frames r c.mmu := by
  intro h
  have hself := (initPaging_maps (fun _ => 0) (rfl : 0x105000 % 4096 = 0) (rfl : 0x106000 % 4096 = 0)
    (by simp)).tables.toSelfMapped
  obtain ⟨r, c, hr, -⟩ := h _ _ hself freshFrames_boot
  obtain ⟨hp, -⟩ := Cloning.cloneActualDirectory hself freshFrames_boot hr 1 (by simp) (by simp) (by simp)
  rw [initPaging_pde _ rfl rfl (by simp) (by simp)] at hp
  exact absurd hp (by decide)

end Mmu
end Krypton
