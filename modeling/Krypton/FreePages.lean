import Krypton.Paging
import Krypton.Pmm
import Mathlib.Data.List.Perm.Subperm
import Mathlib.Data.List.Nodup

/-!
# Page frames have one owner

The frames come from two sources, the free-page stack and the counter `pm_last_page`, and `pm_free` turns some of
them into storage for the stack itself. `Window` describes the stack in memory, `Sane` adds the history: every
frame seen so far is owned, stored, backing or dropped, once, and none lies above the counter.
The frame `mm_init` maps at `PM_STACK_ADDR` before the first `pm_free` is not counted: nobody owns it.
-/

namespace Krypton
namespace Mmu

variable {m : Mmu} {stored backing : List Nat} {i j n p x page : Nat}

/-- The stack in the window at `PM_STACK_ADDR`: `backing` are the frames of its pages, `stored` its words. -/
structure Window (m : Mmu) (stored backing : List Nat) : Prop where
  self : m.SelfMapped
  table : present (m.pde 1020)
  fit : stored.length ≤ 1024 * backing.length
  room : backing.length ≤ 1024
  page : ∀ j (h : j < backing.length), present (m.pte 1020 j) ∧ frame (m.pte 1020 j) = backing[j]
  word : ∀ i (h : i < stored.length), m.phys (frame (m.pte 1020 (i / 1024)) + 4 * (i % 1024)) = stored[i]

/-- A frame the stack does not use. -/
structure Outside (m : Mmu) (backing : List Nat) (f : Nat) : Prop where
  dir : f ≠ m.cr3
  table : f ≠ frame (m.pde 1020)
  backing : f ∉ backing

theorem frame_word {f : Nat} (hf : f % 4096 = 0) (hi : i < 1024) : frame (f + 4 * i) = f := by
  unfold frame; omega

namespace Window

/-- A stack without pages: only its table is there. -/
theorem nil (h : m.SelfMapped) (ht : present (m.pde 1020)) : m.Window [] [] where
  self := h
  table := ht
  fit := Nat.le_refl _
  room := Nat.zero_le _
  page _ hj := absurd hj (Nat.not_lt_zero _)
  word _ hi := absurd hi (Nat.not_lt_zero _)

theorem walk_byte (h : m.Window stored backing) (hi : i < 4096 * backing.length) :
    m.walk (pmStackAddr + i) = some (frame (m.pte 1020 (i / 4096)) + i % 4096) := by
  have hj : i / 4096 < backing.length := by omega
  have hroom := h.room
  have h1 : pdindex (pmStackAddr + i) = 1020 := by unfold pdindex pmStackAddr; omega
  have h2 : ptindex (pmStackAddr + i) = i / 4096 := by unfold ptindex pmStackAddr; omega
  have h3 : (pmStackAddr + i) % 4096 = i % 4096 := by unfold pmStackAddr; omega
  unfold Mmu.walk
  rw [h1, h2, h3, if_pos ⟨h.table, (h.page _ hj).1⟩]

theorem walk (h : m.Window stored backing) (hi : i < 1024 * backing.length) :
    m.walk (pmStackAddr + 4 * i) = some (frame (m.pte 1020 (i / 1024)) + 4 * (i % 1024)) := by
  have hpage : 4 * i / 4096 = i / 1024 := by omega
  have hword : 4 * i % 4096 = 4 * (i % 1024) := by omega
  rw [h.walk_byte (by omega), hpage, hword]

theorem load (h : m.Window stored backing) (hi : i < stored.length) :
    m.load (pmStackAddr + 4 * i) = some stored[i] := by
  have hfit := h.fit
  unfold Mmu.load
  rw [h.walk (by omega), Option.map_some, h.word i hi]

/-- A store outside the directory and the window's table changes no translation of the window. -/
theorem entries (h : m.Window stored backing) (hd : frame p ≠ m.cr3) (ht : frame p ≠ frame (m.pde 1020)) :
    (∀ k < 1024, (m.set p x).pde k = m.pde k) ∧ ∀ j < 1024, (m.set p x).pte 1020 j = m.pte 1020 j := by
  have hcr := frame_of_mod h.self.cr3
  have hpde : ∀ k < 1024, (m.set p x).pde k = m.pde k := by
    intro k hk
    unfold pde
    show (m.set p x).phys (frame m.cr3 + 4 * k) = _
    rw [set_phys, if_neg]
    intro he
    exact hd (by rw [← he, frame_word (frame_mod _) hk, hcr])
  refine ⟨hpde, fun j hj => ?_⟩
  unfold pte
  rw [hpde 1020 (by decide), set_phys, if_neg]
  intro he
  exact ht (by rw [← he, frame_word (frame_mod _) hj])

theorem of_entries {m' : Mmu} {stored' : List Nat} (h : m.Window stored backing)
    (hpde : ∀ k < 1024, m'.pde k = m.pde k) (hpte : ∀ j < 1024, m'.pte 1020 j = m.pte 1020 j)
    (hc : m'.cr3 = m.cr3) (hfit : stored'.length ≤ 1024 * backing.length)
    (hword : ∀ i (h : i < stored'.length), m'.phys (frame (m.pte 1020 (i / 1024)) + 4 * (i % 1024)) = stored'[i]) :
    m'.Window stored' backing := by
  have hroom := h.room
  refine ⟨h.self.of_pde hc (hpde 1023 (by decide)), ?_, hfit, hroom, fun j hj => ?_, fun i hi => ?_⟩
  · rw [hpde 1020 (by decide)]; exact h.table
  · rw [hpte j (by omega)]; exact h.page j hj
  · rw [hpte _ (by omega)]; exact hword i hi

/-- A store elsewhere does not disturb the stack. -/
theorem set (h : m.Window stored backing) (ho : m.Outside backing (frame p)) :
    (m.set p x).Window stored backing ∧ (m.set p x).pde 1020 = m.pde 1020 := by
  obtain ⟨hpde, hpte⟩ := h.entries (x := x) ho.dir ho.table
  refine ⟨h.of_entries hpde hpte rfl h.fit fun i hi => ?_, hpde 1020 (by decide)⟩
  have hfit := h.fit
  have hj : i / 1024 < backing.length := by omega
  rw [set_phys, if_neg, h.word i hi]
  intro he
  refine ho.backing ?_
  rw [← he, frame_word (frame_mod _) (by omega), (h.page _ hj).2]
  exact List.getElem_mem hj

/-- `pm_alloc` takes the last word. -/
theorem pop (h : m.Window (stored ++ [x]) backing) : m.Window stored backing := by
  have hfit := h.fit
  rw [List.length_append] at hfit
  refine ⟨h.self, h.table, by omega, h.room, h.page, fun i hi => ?_⟩
  rw [h.word i (by rw [List.length_append]; omega), List.getElem_append_left hi]

theorem store_next (h : m.Window stored backing) (hn : stored.length < 1024 * backing.length)
    (hcr : m.cr3 ∉ backing) (ht : frame (m.pde 1020) ∉ backing) (x : Nat) :
    ∃ p, p = frame (m.pte 1020 (stored.length / 1024)) + 4 * (stored.length % 1024) ∧
      m.store (pmStackAddr + 4 * stored.length) x = some (m.set p x) ∧
      (∀ k < 1024, (m.set p x).pde k = m.pde k) ∧ ∀ j < 1024, (m.set p x).pte 1020 j = m.pte 1020 j := by
  have hj : stored.length / 1024 < backing.length := by omega
  have hword := frame_word (i := stored.length % 1024) (frame_mod (m.pte 1020 (stored.length / 1024))) (by omega)
  have hmem : frame (frame (m.pte 1020 (stored.length / 1024)) + 4 * (stored.length % 1024)) ∈ backing := by
    rw [hword, (h.page _ hj).2]
    exact List.getElem_mem hj
  refine ⟨_, rfl, ?_, h.entries (fun he => hcr (he ▸ hmem)) (fun he => ht (he ▸ hmem))⟩
  unfold Mmu.store
  rw [h.walk hn]
  rfl

/-- `pm_free` stores a frame behind the last word. -/
theorem push (h : m.Window stored backing) (hn : stored.length < 1024 * backing.length)
    (hnd : backing.Nodup) (hcr : m.cr3 ∉ backing) (ht : frame (m.pde 1020) ∉ backing) :
    ∃ m', m.store (pmStackAddr + 4 * stored.length) x = some m' ∧ m'.Window (stored ++ [x]) backing ∧
      m'.cr3 = m.cr3 ∧ m'.pde 1020 = m.pde 1020 := by
  have hj : stored.length / 1024 < backing.length := by omega
  have hword := frame_word (i := stored.length % 1024) (frame_mod (m.pte 1020 (stored.length / 1024))) (by omega)
  obtain ⟨p, rfl, hstore, hpde, hpte⟩ := h.store_next hn hcr ht x
  refine ⟨_, hstore, h.of_entries hpde hpte rfl ?_ fun i hi => ?_, rfl, hpde 1020 (by decide)⟩
  · rw [List.length_append, List.length_singleton]
    exact hn
  · rw [List.length_append, List.length_singleton] at hi
    have hi' : i / 1024 < backing.length := by omega
    by_cases hlast : i = stored.length
    · subst hlast
      rw [set_phys, if_pos rfl, List.getElem_concat_length rfl]
    · have hlt : i < stored.length := by omega
      rw [set_phys, if_neg, h.word i hlt, List.getElem_append_left hlt]
      -- equal words lie in one page, and the pages are distinct
      intro he
      have hpage : backing[i / 1024] = backing[stored.length / 1024] := by
        rw [← (h.page _ hi').2, ← (h.page _ hj).2, ← hword, ← he, frame_word (frame_mod _) (by omega)]
      have hindex := hnd.getElem_inj_iff.1 hpage
      rw [hindex] at he
      omega

/-- The same when a frame may back several pages: every word is one that was there, or the frame. -/
theorem push_shared (h : m.Window stored backing) (hn : stored.length < 1024 * backing.length)
    (hcr : m.cr3 ∉ backing) (ht : frame (m.pde 1020) ∉ backing) (x : Nat) :
    ∃ stored' : List Nat, stored'.length = stored.length + 1 ∧ (∀ f ∈ stored', f ∈ stored ∨ f = x) ∧
      ∃ m', m.store (pmStackAddr + 4 * stored.length) x = some m' ∧ m'.Window stored' backing ∧
        m'.cr3 = m.cr3 ∧ m'.pde 1020 = m.pde 1020 := by
  obtain ⟨p, hp, hstore, hpde, hpte⟩ := h.store_next hn hcr ht x
  set word := fun i => frame (m.pte 1020 (i / 1024)) + 4 * (i % 1024)
  refine ⟨(List.range (stored.length + 1)).map fun i => (m.set p x).phys (word i), ?_, ?_,
    _, hstore, h.of_entries hpde hpte rfl ?_ ?_, rfl, hpde 1020 (by decide)⟩
  · rw [List.length_map, List.length_range]
  · intro f hf
    obtain ⟨i, hi, rfl⟩ := List.mem_map.1 hf
    rw [List.mem_range] at hi
    rw [set_phys]
    by_cases hw : word i = p
    · exact .inr (if_pos hw)
    · have hlt : i < stored.length := by
        refine Nat.lt_of_le_of_ne (Nat.le_of_lt_succ hi) ?_
        rintro rfl
        exact hw hp.symm
      rw [if_neg hw, h.word i hlt]
      exact .inl (List.getElem_mem hlt)
  · rw [List.length_map, List.length_range]
    exact hn
  · intro i hi
    rw [List.getElem_map, List.getElem_range]

/-- `pm_free` maps a frame behind the last page. -/
theorem grow (h : m.Window stored backing) (hn : backing.length < 1024)
    (hcr : frame (m.pde 1020) ≠ m.cr3) (ht : frame (m.pde 1020) ∉ backing) (page flags : Nat) :
    ∃ m', m.store (pt 1020 + 4 * backing.length) (page ||| (flags &&& 0xFFF) ||| 0x01) = some m' ∧
      m'.Window stored (backing ++ [frame page]) ∧ m'.cr3 = m.cr3 ∧ m'.pde 1020 = m.pde 1020 := by
  set e := page ||| (flags &&& 0xFFF) ||| 0x01
  have hpde : ∀ k < 1024, (m.set (frame (m.pde 1020) + 4 * backing.length) e).pde k = m.pde k := fun k hk =>
    pde_set h.self (frame_mod _) hcr hn hk
  have hpte : ∀ j, (m.set (frame (m.pde 1020) + 4 * backing.length) e).pte 1020 j =
      if j = backing.length then e else m.pte 1020 j := by
    intro j
    unfold pte
    rw [hpde 1020 (by decide), set_phys]
    exact if_congr (by omega) rfl rfl
  have hfit := h.fit
  refine ⟨_, h.self.store_pt (by decide) hn h.table e, ⟨h.self.of_pde rfl (hpde 1023 (by decide)), ?_, ?_, ?_, ?_, ?_⟩,
    rfl, hpde 1020 (by decide)⟩
  · rw [hpde 1020 (by decide)]; exact h.table
  · rw [List.length_append, List.length_singleton]; omega
  · rw [List.length_append, List.length_singleton]; omega
  · intro j hj
    rw [List.length_append, List.length_singleton] at hj
    rw [hpte]
    by_cases hlast : j = backing.length
    · subst hlast
      rw [if_pos rfl, List.getElem_concat_length rfl]
      exact ⟨present_entry _ _, frame_entry_low _ _⟩
    · have hlt : j < backing.length := by omega
      rw [if_neg hlast, List.getElem_append_left hlt]
      exact h.page j hlt
  · intro i hi
    have hj : i / 1024 < backing.length := by omega
    rw [hpte, if_neg (by omega), set_phys, if_neg, h.word i hi]
    intro he
    refine ht ?_
    rw [← frame_word (frame_mod (m.pde 1020)) hn, ← he, frame_word (frame_mod _) (by omega), (h.page _ hj).2]
    exact List.getElem_mem hj

end Window
end Mmu

/-! ### Histories -/

/-- `all` lists every frame of `seen`, once. -/
structure Partition (seen all : List Nat) : Prop where
  nodup : all.Nodup
  mem : ∀ f, f ∈ seen ↔ f ∈ all

namespace Partition
variable {seen all all' own rest : List Nat} {page : Nat}

theorem perm (h : Partition seen all) (hp : all'.Perm all) : Partition seen all' :=
  ⟨hp.nodup_iff.2 h.nodup, fun f => (h.mem f).trans hp.mem_iff.symm⟩

theorem cons (h : Partition seen all) (hp : page ∉ seen) : Partition (page :: seen) (page :: all) := by
  refine ⟨List.nodup_cons.2 ⟨fun hx => hp ((h.mem page).2 hx), h.nodup⟩, fun f => ?_⟩
  rw [List.mem_cons, List.mem_cons, h.mem f]

theorem again (h : Partition seen all) (hp : page ∈ seen) : Partition (page :: seen) all := by
  refine ⟨h.nodup, fun f => ?_⟩
  rw [List.mem_cons, ← h.mem f, or_iff_right_of_imp]
  intro hf
  rwa [hf]

/-- A frame leaves its owner, or is seen for the first time. -/
theorem take (h : Partition seen (own ++ rest)) (hp : page ∈ own ∨ page ∉ seen) :
    Partition (page :: seen) (page :: (own.erase page ++ rest)) := by
  rcases hp with hp | hp
  · have hperm : (page :: (own.erase page ++ rest)).Perm (own ++ rest) :=
      (List.perm_cons_erase hp).symm.append_right rest
    exact (h.perm hperm).again ((h.mem page).2 (List.mem_append_left _ hp))
  · have hn : page ∉ own := fun hx => hp ((h.mem page).2 (List.mem_append_left _ hx))
    rw [List.erase_of_not_mem hn]
    exact h.cons hp

end Partition

/-- The frames somebody holds, those the guard of `pm_free` dropped, and all that `pm_alloc` ever returned
or `pm_free` was given. -/
structure Frames where
  own : List Nat
  dropped : List Nat
  seen : List Nat

def Frames.start (page : Nat) : Frames := ⟨[page], [], [page]⟩

inductive PmmOp
  | alloc
  | free (page : Nat)
  /-- `vm_online = 1`. -/
  | online
  /-- A store by whoever holds the frame. -/
  | write (p x : Nat)

def pmmStep : Pmm × Frames → PmmOp → Option (Pmm × Frames)
  | (s, g), .alloc => s.pmAlloc.map fun r => (r.2, { g with own := r.1 :: g.own, seen := r.1 :: g.seen })
  | (s, g), .free page => (s.pmFree page).map fun s' =>
    (s', { own := g.own.erase page
           dropped := if s.Refuses page then page :: g.dropped else g.dropped
           seen := page :: g.seen })
  | (s, g), .online => some ({ s with vmOnline := 1 }, g)
  | (s, g), .write p x => some ({ s with mmu := s.mmu.set p x }, g)

theorem pmmStep_alloc {s s' : Pmm} {page : Nat} (g : Frames) (hs : s.pmAlloc = some (page, s')) :
    pmmStep (s, g) .alloc = some (s', { g with own := page :: g.own, seen := page :: g.seen }) := by
  unfold pmmStep
  dsimp only
  rw [hs]
  rfl

theorem pmmStep_free {s s' : Pmm} {page : Nat} (g : Frames) (hs : s.pmFree page = some s') :
    pmmStep (s, g) (.free page) = some (s',
      { own := g.own.erase page
        dropped := if s.Refuses page then page :: g.dropped else g.dropped
        seen := page :: g.seen }) := by
  unfold pmmStep
  dsimp only
  rw [hs]
  rfl

/-- The calls allowed: `pm_last_page` does not wrap, a frame is freed by its owner or while booting, and nobody writes
to the directory, to the page table of the window or to a frame he does not hold. -/
def PmmOp.Ok : Pmm × Frames → PmmOp → Prop
  | (s, _), .alloc => s.vmOnline = 0 ∨ s.stackPtr = pmStackAddr → s.pmLastPage + 0x1000 < 2 ^ 32
  | (s, g), .free page => page % 4096 = 0 ∧
    (page ∈ g.own ∧ page ≠ frame (s.mmu.pde 1020) ∨
      s.vmOnline = 0 ∧ page ∉ g.seen ∧ page ≤ s.pmLastPage - 0x10000)
  | _, .online => True
  | (s, g), .write p _ => frame p ≠ s.mmu.cr3 ∧ frame p ≠ frame (s.mmu.pde 1020) ∧
    (frame p ∈ g.own ∨ frame p ∉ g.seen)

namespace Pmm

theorem pmFree_refused {s : Pmm} {page : Nat} (hr : s.Refuses page) : s.pmFree page = some s := if_pos hr

/-- The stack in memory, with its two pointers. -/
structure Stack (s : Pmm) (stored backing : List Nat) : Prop extends s.mmu.Window stored backing where
  ptr : s.stackPtr = pmStackAddr + 4 * stored.length
  max : s.stackMax = pmStackAddr + 4096 * backing.length

namespace Stack
variable {s s' : Pmm} {stored backing : List Nat} {page : Nat}

theorem full_iff (h : s.Stack stored backing) :
    s.stackPtr ≥ s.stackMax ↔ stored.length = 1024 * backing.length := by
  have hfit := h.fit
  rw [h.ptr, h.max]
  omega

/-- `pm_alloc` advances `pm_last_page`, or takes the last word of the stack. -/
theorem pmAlloc_cases (h : s.Stack stored backing) :
    ∃ page s', s.pmAlloc = some (page, s') ∧ s'.mmu = s.mmu ∧ s'.kernelSegEndPage = s.kernelSegEndPage ∧
      s'.stackMax = s.stackMax ∧
      (((s.vmOnline = 0 ∨ s.stackPtr = pmStackAddr) ∧ page = (s.pmLastPage + 0x1000) % 2 ^ 32 ∧
          s'.pmLastPage = page ∧ s'.stackPtr = s.stackPtr) ∨
        ¬ (s.vmOnline = 0 ∨ s.stackPtr = pmStackAddr) ∧ ∃ st, stored = st ++ [page] ∧
          s'.pmLastPage = s.pmLastPage ∧ s'.stackPtr = pmStackAddr + 4 * st.length) := by
  unfold pmAlloc
  by_cases hb : s.vmOnline = 0 ∨ s.stackPtr = pmStackAddr
  · rw [if_pos hb]
    exact ⟨_, _, rfl, rfl, rfl, rfl, .inl ⟨hb, rfl, rfl, rfl⟩⟩
  · rw [if_neg hb]
    obtain ⟨hon, hne⟩ := not_or.1 hb
    rcases List.eq_nil_or_concat stored with hnil | ⟨st, page, hst⟩
    · exact absurd (by rw [h.ptr, hnil]; rfl) hne
    · rw [List.concat_eq_append] at hst
      subst hst
      have hfit := h.fit
      have hroom := h.room
      have hptr : (s.stackPtr + (2 ^ 32 - 4)) % 2 ^ 32 = pmStackAddr + 4 * st.length := by
        rw [List.length_append, List.length_singleton] at hfit
        rw [h.ptr, List.length_append, List.length_singleton]
        unfold pmStackAddr
        omega
      have hload : s.mmu.load ((s.stackPtr + (2 ^ 32 - 4)) % 2 ^ 32) = some page := by
        rw [hptr, h.toWindow.load (by rw [List.length_append, List.length_singleton]; omega),
          List.getElem_concat_length rfl]
      dsimp only
      rw [hload]
      exact ⟨page, _, rfl, rfl, rfl, rfl, .inr ⟨hb, st, rfl, rfl, hptr⟩⟩

/-- What `pm_free` leaves alone. -/
structure Still (s s' : Pmm) : Prop where
  last : s'.pmLastPage = s.pmLastPage
  seg : s'.kernelSegEndPage = s.kernelSegEndPage
  online : s'.vmOnline = s.vmOnline
  cr3 : s'.mmu.cr3 = s.mmu.cr3
  pde : s'.mmu.pde 1020 = s.mmu.pde 1020

theorem pmFree_full (h : s.Stack stored backing) (hr : ¬ s.Refuses page) (hfull : s.stackPtr ≥ s.stackMax)
    (hn : backing.length < 1024) (hap : frame (s.mmu.pde 1020) ≠ s.mmu.cr3)
    (ht : frame (s.mmu.pde 1020) ∉ backing) :
    ∃ s', s.pmFree page = some s' ∧ Still s s' ∧ s'.Stack stored (backing ++ [frame page]) := by
  have hlen := h.full_iff.1 hfull
  have hpd : Mmu.pdindex s.stackPtr = 1020 := by rw [h.ptr]; unfold Mmu.pdindex pmStackAddr; omega
  have hpt : Mmu.ptindex s.stackPtr = backing.length := by rw [h.ptr]; unfold Mmu.ptindex pmStackAddr; omega
  have h0 : page ≠ 0 := by
    intro h0
    exact hr (.inr (.inr (by omega)))
  obtain ⟨m', hm, hw, hcr, hpde⟩ := h.toWindow.grow hn hap ht page (pageWrite ||| pageUser)
  have hmap : s.mmMap page s.stackPtr (pageWrite ||| pageUser) = some (s.stackPtr, { s with mmu := m' }) := by
    unfold mmMap Mmu.mmMap
    rw [hpd, hpt, if_neg h0, h.self.load_pd (by decide), Option.bind_eq_bind, Option.bind_some,
      if_neg (not_not.2 h.table)]
    simp only [bind, Option.bind_some]
    rw [if_neg h0, h.self.load_pd (by decide), Option.bind_some, if_neg (not_not.2 h.table), hm]
    rfl
  unfold pmFree
  rw [if_neg hr, if_pos hfull, hmap]
  refine ⟨_, rfl, ⟨rfl, rfl, rfl, hcr, hpde⟩, ⟨hw, h.ptr, ?_⟩⟩
  show (s.stackMax + 4096) % 2 ^ 32 = _
  rw [h.max, List.length_append, List.length_singleton]
  unfold pmStackAddr
  omega

theorem pmFree_room (h : s.Stack stored backing) (hr : ¬ s.Refuses page) (hroom : ¬ s.stackPtr ≥ s.stackMax)
    {stored' : List Nat} (hlen : stored'.length = stored.length + 1)
    (hpush : ∃ m', s.mmu.store (pmStackAddr + 4 * stored.length) page = some m' ∧ m'.Window stored' backing ∧
      m'.cr3 = s.mmu.cr3 ∧ m'.pde 1020 = s.mmu.pde 1020) :
    ∃ s', s.pmFree page = some s' ∧ Still s s' ∧ s'.Stack stored' backing := by
  obtain ⟨m', hm, hw, hcr, hpde⟩ := hpush
  unfold pmFree
  rw [if_neg hr, if_neg hroom, h.ptr, hm]
  refine ⟨_, rfl, ⟨rfl, rfl, rfl, hcr, hpde⟩, ⟨hw, ?_, h.max⟩⟩
  show (pmStackAddr + 4 * stored.length + 4) % 2 ^ 32 = _
  have hfit := hw.fit
  have hbound := hw.room
  unfold pmStackAddr
  omega

end Stack

structure Sane (s : Pmm) (g : Frames) (stored backing : List Nat) : Prop extends s.Stack stored backing where
  split : Partition g.seen (g.own ++ (stored ++ (backing ++ g.dropped)))
  aligned : ∀ f ∈ g.seen, f % 4096 = 0
  below : ∀ f ∈ g.seen, f ≤ s.pmLastPage
  last : 0x10000 ≤ s.pmLastPage ∧ s.pmLastPage < 2 ^ 32 ∧ s.pmLastPage % 4096 = 0
  held : frame (s.mmu.pde 1020) ∈ g.own
  apart : frame (s.mmu.pde 1020) ≠ s.mmu.cr3
  dir : 0x100000 < s.mmu.cr3 ∧ s.mmu.cr3 < s.kernelSegEndPage
  /-- What the guard of `pm_free` keeps off the stack. -/
  kernel : ∀ f ∈ stored ++ backing, ¬ (f > 0x100000 ∧ f < s.kernelSegEndPage)

namespace Sane
variable {s s' : Pmm} {g : Frames} {stored backing : List Nat} {p x page : Nat}

theorem mem_seen (h : s.Sane g stored backing) {f : Nat} (hf : f ∈ g.own ∨ f ∈ stored ∨ f ∈ backing) :
    f ∈ g.seen := by
  rw [h.split.mem, List.mem_append, List.mem_append, List.mem_append]
  rcases hf with hf | hf | hf
  · exact .inl hf
  · exact .inr (.inl hf)
  · exact .inr (.inr (.inl hf))

theorem not_own (h : s.Sane g stored backing) {f : Nat} (hf : f ∈ stored ∨ f ∈ backing) : f ∉ g.own := by
  intro ho
  refine List.disjoint_of_nodup_append h.split.nodup ho ?_
  rw [List.mem_append, List.mem_append]
  exact hf.imp_right .inl

theorem dir_not_mem (h : s.Sane g stored backing) : s.mmu.cr3 ∉ stored ++ backing := fun hf =>
  h.kernel _ hf h.dir

theorem backing_nodup (h : s.Sane g stored backing) : backing.Nodup :=
  h.split.nodup.of_append_right.of_append_right.of_append_left

/-- There are fewer than `2 ^ 20` page frames, so the stack does not outgrow its window. -/
theorem backing_lt (h : s.Sane g stored backing) (hfull : stored.length = 1024 * backing.length) :
    backing.length < 1024 := by
  have hnd : (stored ++ backing).Nodup := by
    have hnd := h.split.nodup.of_append_right
    rw [← List.append_assoc] at hnd
    exact hnd.of_append_left
  have hbound : ∀ f ∈ stored ++ backing, f % 4096 = 0 ∧ f < 2 ^ 32 := by
    intro f hf
    have hseen := h.mem_seen (.inr (List.mem_append.1 hf))
    have hlast := h.last
    have hle := h.below f hseen
    exact ⟨h.aligned f hseen, by omega⟩
  have hsub : ((stored ++ backing).map (· / 4096)).Subperm (List.range (2 ^ 20)) := by
    refine List.Nodup.subperm ?_ ?_
    · refine (List.nodup_map_iff_inj_on hnd).2 ?_
      intro a ha b hb hab
      have h1 := hbound a ha
      have h2 := hbound b hb
      omega
    · intro k hk
      obtain ⟨f, hf, rfl⟩ := List.mem_map.1 hk
      have h1 := hbound f hf
      rw [List.mem_range]
      omega
  have hlen := hsub.length_le
  rw [List.length_map, List.length_append, List.length_range] at hlen
  omega

/-- `pm_free` drops the frame, makes it the next page of the stack, or stores it. -/
theorem pmFree_cases (h : s.Sane g stored backing) (hok : PmmOp.Ok (s, g) (.free page)) :
    ∃ s', s.pmFree page = some s' ∧ Stack.Still s s' ∧
      ((s.Refuses page ∧ s'.Stack stored backing) ∨
        (¬ s.Refuses page ∧ (s'.Stack (stored ++ [page]) backing ∨ s'.Stack stored (backing ++ [page])))) := by
  have htable : frame (s.mmu.pde 1020) ∉ backing := fun hx => h.not_own (.inr hx) h.held
  by_cases hr : s.Refuses page
  · exact ⟨s, pmFree_refused hr, ⟨rfl, rfl, rfl, rfl, rfl⟩, .inl ⟨hr, h.toStack⟩⟩
  by_cases hfull : s.stackPtr ≥ s.stackMax
  · have hn := h.backing_lt (h.toStack.full_iff.1 hfull)
    obtain ⟨s', hs, hstill, hstack⟩ := h.toStack.pmFree_full hr hfull hn h.apart htable
    rw [frame_of_mod hok.1] at hstack
    exact ⟨s', hs, hstill, .inr ⟨hr, .inr hstack⟩⟩
  · have hfit := h.fit
    have hlt : stored.length < 1024 * backing.length := by
      rw [h.toStack.full_iff] at hfull
      omega
    have hpush := h.toWindow.push (x := page) hlt h.backing_nodup
      (fun hx => h.dir_not_mem (List.mem_append_right _ hx)) htable
    have hlen : (stored ++ [page]).length = stored.length + 1 := by rw [List.length_append, List.length_singleton]
    obtain ⟨s', hs, hstill, hstack⟩ := h.toStack.pmFree_room hr hfull hlen hpush
    exact ⟨s', hs, hstill, .inr ⟨hr, .inl hstack⟩⟩

theorem alloc (h : s.Sane g stored backing) (hok : PmmOp.Ok (s, g) .alloc) :
    ∃ page s', s.pmAlloc = some (page, s') ∧ page ∉ g.own ∧
      ∃ st, s'.Sane { g with own := page :: g.own, seen := page :: g.seen } st backing := by
  obtain ⟨hlast, hmax, hmod⟩ := h.last
  obtain ⟨page, s', hs, hmmu, hend, hsm, hcase⟩ := h.toStack.pmAlloc_cases
  refine ⟨page, s', hs, ?_⟩
  rcases hcase with ⟨hb, hpage, hlp, hptr⟩ | ⟨-, st, hst, hlp, hptr⟩
  · -- a frame above all frames seen
    have hlt : s.pmLastPage + 0x1000 < 2 ^ 32 := hok hb
    rw [Nat.mod_eq_of_lt hlt] at hpage
    have hnew : page ∉ g.seen := fun hx => by
      have := h.below page hx
      omega
    refine ⟨fun ho => hnew (h.mem_seen (.inl ho)), stored, ?_⟩
    refine { toWindow := hmmu ▸ h.toWindow, ptr := hptr.trans h.ptr, max := hsm.trans h.max, split := h.split.cons hnew,
             aligned := ?_, below := ?_, last := by rw [hlp]; omega, held := ?_, apart := by rw [hmmu]; exact h.apart,
             dir := by rw [hmmu, hend]; exact h.dir, kernel := by rw [hend]; exact h.kernel }
    · exact List.forall_mem_cons.2 ⟨by omega, h.aligned⟩
    · rw [hlp]
      exact List.forall_mem_cons.2 ⟨Nat.le_refl _, fun f hf => Nat.le_trans (h.below f hf) (by omega)⟩
    · rw [hmmu]
      exact List.mem_cons_of_mem _ h.held
  · subst hst
    have hmem : page ∈ st ++ [page] := List.mem_append_right _ (List.mem_singleton_self _)
    have hseen : page ∈ g.seen := h.mem_seen (.inr (.inl hmem))
    have hperm : (page :: g.own ++ (st ++ (backing ++ g.dropped))).Perm
        (g.own ++ (st ++ [page] ++ (backing ++ g.dropped))) := by
      simp only [List.perm_iff_count, List.count_append, List.count_cons, List.count_nil]
      intro f
      omega
    refine ⟨h.not_own (.inl hmem), st, ?_⟩
    refine { toWindow := hmmu ▸ h.toWindow.pop, ptr := hptr, max := hsm.trans h.max,
             split := (h.split.again hseen).perm hperm, aligned := ?_, below := ?_, last := by rw [hlp]; exact h.last,
             held := ?_, apart := by rw [hmmu]; exact h.apart, dir := by rw [hmmu, hend]; exact h.dir, kernel := ?_ }
    · exact List.forall_mem_cons.2 ⟨h.aligned page hseen, h.aligned⟩
    · rw [hlp]
      exact List.forall_mem_cons.2 ⟨h.below page hseen, h.below⟩
    · rw [hmmu]
      exact List.mem_cons_of_mem _ h.held
    · rw [hend]
      intro f hf
      refine h.kernel f ?_
      rw [List.append_assoc]
      exact List.mem_append.2 ((List.mem_append.1 hf).imp_right (List.mem_cons_of_mem _))

/-- A freed frame that is added to one of the three lists. -/
theorem added {stored' backing' : List Nat} (h : s.Sane g stored backing) (hok : PmmOp.Ok (s, g) (.free page))
    (hstill : Stack.Still s s') (hstack : s'.Stack stored' backing')
    (hperm : (g.own.erase page ++ (stored' ++ (backing' ++
        if s.Refuses page then page :: g.dropped else g.dropped))).Perm
      (page :: (g.own.erase page ++ (stored ++ (backing ++ g.dropped)))))
    (hmem : ∀ f ∈ stored' ++ backing', f ∈ stored ++ backing ∨ f = page ∧ ¬ s.Refuses page) :
    s'.Sane
      { own := g.own.erase page
        dropped := if s.Refuses page then page :: g.dropped else g.dropped
        seen := page :: g.seen } stored' backing' := by
  obtain ⟨hlp, hend, -, hcr, hpde⟩ := hstill
  obtain ⟨hmod, hwho⟩ := hok
  have hlast := h.last
  have htake := h.split.take (hwho.imp And.left fun hx => hx.2.1)
  have hpage : page ≤ s.pmLastPage := by
    rcases hwho with ⟨ho, -⟩ | ⟨-, -, hle⟩
    · exact h.below page (h.mem_seen (.inl ho))
    · omega
  have hbelow : ∀ f ∈ page :: g.seen, f ≤ s'.pmLastPage := by
    rw [hlp]
    exact List.forall_mem_cons.2 ⟨hpage, h.below⟩
  have hheld : frame (s'.mmu.pde 1020) ∈ g.own.erase page := by
    rw [hpde]
    refine (List.mem_erase_of_ne ?_).2 h.held
    rintro he
    rcases hwho with ⟨-, hne⟩ | ⟨-, hns, -⟩
    · exact hne he.symm
    · exact hns (he ▸ h.mem_seen (.inl h.held))
  refine { toStack := hstack, split := htake.perm hperm, aligned := List.forall_mem_cons.2 ⟨hmod, h.aligned⟩,
           below := hbelow, last := by rw [hlp]; exact h.last, held := hheld,
           apart := by rw [hpde, hcr]; exact h.apart, dir := by rw [hcr, hend]; exact h.dir, kernel := ?_ }
  intro f hf
  rw [hend]
  rcases hmem f hf with hf | ⟨rfl, hr⟩
  · exact h.kernel f hf
  · exact fun hx => hr (.inr (.inl hx))

theorem free (h : s.Sane g stored backing) (hok : PmmOp.Ok (s, g) (.free page)) :
    ∃ s', s.pmFree page = some s' ∧ ∃ stored' backing', s'.Sane
      { own := g.own.erase page
        dropped := if s.Refuses page then page :: g.dropped else g.dropped
        seen := page :: g.seen } stored' backing' := by
  obtain ⟨s', hs, hstill, hcase⟩ := h.pmFree_cases hok
  refine ⟨s', hs, ?_⟩
  rcases hcase with ⟨hr, hstack⟩ | ⟨hr, hstack | hstack⟩
  · refine ⟨stored, backing, h.added hok hstill hstack ?_ fun f hf => .inl hf⟩
    rw [if_pos hr]
    simp only [List.perm_iff_count, List.count_append, List.count_cons]
    intro f
    omega
  · refine ⟨stored ++ [page], backing, h.added hok hstill hstack ?_ fun f hf => ?_⟩
    · rw [if_neg hr]
      simp only [List.perm_iff_count, List.count_append, List.count_cons, List.count_nil]
      intro f
      omega
    · simp only [List.mem_append, List.mem_singleton] at hf ⊢
      rcases hf with (hf | hf) | hf
      · exact .inl (.inl hf)
      · exact .inr ⟨hf, hr⟩
      · exact .inl (.inr hf)
  · refine ⟨stored, backing ++ [page], h.added hok hstill hstack ?_ fun f hf => ?_⟩
    · rw [if_neg hr]
      simp only [List.perm_iff_count, List.count_append, List.count_cons, List.count_nil]
      intro f
      omega
    · simp only [List.mem_append, List.mem_singleton] at hf ⊢
      rcases hf with hf | hf | hf
      · exact .inl (.inl hf)
      · exact .inl (.inr hf)
      · exact .inr ⟨hf, hr⟩

theorem write (h : s.Sane g stored backing) (hok : PmmOp.Ok (s, g) (.write p x)) :
    Sane { s with mmu := s.mmu.set p x } g stored backing := by
  obtain ⟨hdir, htable, hwho⟩ := hok
  have hnb : frame p ∉ backing := by
    intro hx
    rcases hwho with ho | hns
    · exact h.not_own (.inr hx) ho
    · exact hns (h.mem_seen (.inr (.inr hx)))
  obtain ⟨hw, hpde⟩ := h.toWindow.set (x := x) ⟨hdir, htable, hnb⟩
  exact { h with toWindow := hw, held := hpde ▸ h.held, apart := hpde ▸ h.apart }

end Sane

/-- `mm_init` behind the call of `mm_map` for the stack: its page table is the only frame held. -/
structure Ready (s : Pmm) : Prop extends s.mmu.SelfMapped where
  table : present (s.mmu.pde 1020)
  tableLe : Krypton.frame (s.mmu.pde 1020) ≤ s.pmLastPage
  apart : Krypton.frame (s.mmu.pde 1020) ≠ s.mmu.cr3
  ptr : s.stackPtr = pmStackAddr
  max : s.stackMax = pmStackAddr
  last : 0x10000 ≤ s.pmLastPage ∧ s.pmLastPage < 2 ^ 32 ∧ s.pmLastPage % 4096 = 0
  dir : 0x100000 < s.mmu.cr3 ∧ s.mmu.cr3 < s.kernelSegEndPage

theorem Ready.sane {s : Pmm} (h : s.Ready) : s.Sane (Frames.start (frame (s.mmu.pde 1020))) [] [] := by
  refine { toWindow := .nil h.toSelfMapped h.table, ptr := h.ptr, max := h.max,
           split := ⟨List.nodup_singleton _, fun f => Iff.rfl⟩, aligned := ?_, below := ?_, last := h.last,
           held := List.mem_singleton_self _, apart := h.apart,
           dir := h.dir, kernel := fun _ hf => absurd hf List.not_mem_nil }
  · exact List.forall_mem_singleton.2 (frame_mod _)
  · exact List.forall_mem_singleton.2 h.tableLe

/-- What `mm_init` takes for the stack: no frame yet, and the second frame behind `l` for the page table. -/
theorem initStack_eq (s : Pmm) (memUpper : Nat) {l t : Nat} (ht : s.mmu.Tables) (habs : ¬ present (s.mmu.pde 1020))
    (hl : l = (memUpper * 1024 % 2 ^ 32 + 0x1000) % 2 ^ 32 / 4096 * 4096) (h0 : (l + 0x1000) % 2 ^ 32 ≠ 0)
    (hlast : t = ((l + 0x1000) % 2 ^ 32 + 0x1000) % 2 ^ 32) (hfresh : s.mmu.FreshPage t) :
    ∃ m : Mmu, s.initStack memUpper = some { s with
        mmu := m, pmLastPage := t, vmOnline := 0, stackPtr := pmStackAddr, stackMax := pmStackAddr, freePages := 0 } ∧
      s.mmu.mmMap t ((l + 0x1000) % 2 ^ 32) pmStackAddr pageWrite = some (pmStackAddr, m) ∧
      m.Tables ∧ m.cr3 = s.mmu.cr3 ∧ present (m.pde 1020) ∧ frame (m.pde 1020) = t := by
  have hv : Mmu.Ordinary (Mmu.pdindex pmStackAddr) := ⟨by decide, by decide, by decide, by decide⟩
  have h1020 : Mmu.pdindex pmStackAddr = 1020 := by decide
  obtain ⟨m', hm, ht', hc, hpde⟩ := ht.mmMap_new (v := pmStackAddr) pageWrite hv h0 habs hfresh
  rw [h1020] at hpde
  have hload : s.mmu.load (Mmu.pd + 4 * Mmu.pdindex pmStackAddr) = some (s.mmu.pde 1020) := ht.load_pd (by decide)
  refine ⟨m', ?_, hm, ht', hc, ?_, ?_⟩
  · unfold initStack pmAlloc mmMap
    simp only [← hl, true_or, if_true, Option.bind_eq_bind, Option.bind_some, if_neg h0, hload, habs, not_false_eq_true,
      pmAlloc, ← hlast, hm]
  · rw [hpde]
    exact present_entry _ _
  · rw [hpde, frame_entry _ hfresh.aligned]

/-- `mm_init` gets there: two frames above the end of memory, the second for the page table. -/
theorem initStack_ready (s : Pmm) (memUpper : Nat) {l : Nat} (ht : s.mmu.Tables) (habs : ¬ present (s.mmu.pde 1020))
    (hl : l = (memUpper * 1024 % 2 ^ 32 + 0x1000) % 2 ^ 32 / 4096 * 4096) (hbig : 0x10000 ≤ l + 0x2000)
    (hwrap : l + 0x2000 < 2 ^ 32) (hfresh : s.mmu.FreshPage (l + 0x2000))
    (hdir : 0x100000 < s.mmu.cr3 ∧ s.mmu.cr3 < s.kernelSegEndPage) :
    ∃ s', s.initStack memUpper = some s' ∧ s'.Ready ∧ s'.vmOnline = 0 ∧ s'.pmLastPage = l + 0x2000 ∧
      s'.kernelSegEndPage = s.kernelSegEndPage ∧ frame (s'.mmu.pde 1020) = l + 0x2000 := by
  have h1 : (l + 0x1000) % 2 ^ 32 = l + 0x1000 := Nat.mod_eq_of_lt (by omega)
  have h2 : l + 0x2000 = ((l + 0x1000) % 2 ^ 32 + 0x1000) % 2 ^ 32 := by omega
  obtain ⟨m, hs, -, ht', hc, hp, hframe⟩ := s.initStack_eq memUpper ht habs hl (by omega) h2 hfresh
  refine ⟨_, hs, ⟨ht'.toSelfMapped, hp, Nat.le_of_eq hframe, ?_, rfl, rfl, ?_, hc ▸ hdir⟩, rfl, rfl, rfl, hframe⟩
  · show frame (m.pde 1020) ≠ m.cr3
    rw [hframe, hc]
    exact hfresh.dir
  · have := hfresh.aligned
    exact ⟨hbig, hwrap, this⟩

/-- A machine with 64 MiB of memory and the kernel in `0x100000` .. `0x207000`, behind `init_paging`. -/
def bootImage : Pmm := ⟨Mmu.initPaging (fun _ => 0) 0x105000 0x106000, 0x207000, 0, 0, 0, 0, 0⟩

theorem bootImage_ready : ∃ s, bootImage.initStack 64512 = some s ∧ s.Ready ∧ s.vmOnline = 0 ∧
    s.pmLastPage = 0x3F03000 ∧ s.kernelSegEndPage = 0x207000 ∧ frame (s.mmu.pde 1020) = 0x3F03000 := by
  have hdir : (0x105000 : Nat) % 4096 = 0 := rfl
  have hlow : (0x106000 : Nat) % 4096 = 0 := rfl
  have hpde := fun k hk => Mmu.initPaging_pde (fun _ => 0) hdir hlow (by decide) (k := k) hk
  have hfresh : (Mmu.initPaging (fun _ => 0) 0x105000 0x106000).FreshPage (0x3F01000 + 0x2000) := by
    refine ⟨rfl, ?_, fun k hk hp => ?_⟩
    · show (0x3F03000 : Nat) ≠ 0x105000
      decide
    · rw [hpde k hk] at hp ⊢
      split_ifs at hp ⊢
      · decide
      · decide
      · exact absurd hp (by decide)
  have habs : ¬ present (bootImage.mmu.pde 1020) := by
    have hmmu : bootImage.mmu = Mmu.initPaging (fun _ => 0) 0x105000 0x106000 := rfl
    rw [hmmu, hpde 1020 (by decide)]
    decide
  have ht : bootImage.mmu.Tables := (Mmu.initPaging_maps (fun _ => 0) hdir hlow (by decide)).tables
  have hl : 0x3F01000 = (64512 * 1024 % 2 ^ 32 + 0x1000) % 2 ^ 32 / 4096 * 4096 := rfl
  have himage : 0x100000 < bootImage.mmu.cr3 ∧ bootImage.mmu.cr3 < bootImage.kernelSegEndPage := by decide
  exact initStack_ready bootImage 64512 ht habs hl (by decide) (by decide) hfresh himage

end Pmm

theorem pmmStep_sane {s s' : Pmm} {g g' : Frames} {op : PmmOp} (h : ∃ stored backing, s.Sane g stored backing)
    (hok : op.Ok (s, g)) (hs : pmmStep (s, g) op = some (s', g')) : ∃ stored backing, s'.Sane g' stored backing := by
  obtain ⟨stored, backing, h⟩ := h
  cases op with
  | alloc =>
    obtain ⟨page, s₁, h1, -, st, h2⟩ := h.alloc hok
    cases (pmmStep_alloc g h1).symm.trans hs
    exact ⟨st, backing, h2⟩
  | free page =>
    obtain ⟨s₁, h1, stored', backing', h2⟩ := h.free hok
    cases (pmmStep_free g h1).symm.trans hs
    exact ⟨stored', backing', h2⟩
  | online =>
    cases hs
    exact ⟨stored, backing, { h with }⟩
  | write p x =>
    cases hs
    exact ⟨stored, backing, h.write hok⟩

/-- **Frames have one place.** In every state reached from `mm_init` the free-page stack holds the words
`stored` in the pages `backing`; every frame seen so far is owned, stored, backing the stack or dropped by the
guard, exactly one of them and once. `pm_alloc` and `pm_free` return, and the frame `pm_alloc` returns has no owner. -/
theorem frames_partitioned {s₀ s : Pmm} {g : Frames} (h₀ : s₀.Ready)
    (h : Reach pmmStep (fun c op => op.Ok c) (s₀, .start (frame (s₀.mmu.pde 1020))) (s, g)) :
    (∃ stored backing, s.Stack stored backing ∧ (g.own ++ (stored ++ (backing ++ g.dropped))).Nodup ∧
      ∀ f, f ∈ g.seen ↔ f ∈ g.own ∨ f ∈ stored ∨ f ∈ backing ∨ f ∈ g.dropped) ∧
    (PmmOp.alloc.Ok (s, g) → ∃ page s', s.pmAlloc = some (page, s') ∧ page ∉ g.own) ∧
    ∀ page, (PmmOp.free page).Ok (s, g) → (s.pmFree page).isSome := by
  obtain ⟨stored, backing, hsane⟩ : ∃ stored backing, s.Sane g stored backing := by
    refine h.inv (P := fun c => ∃ stored backing, c.1.Sane c.2 stored backing) ⟨[], [], h₀.sane⟩ ?_
    rintro ⟨s, g⟩ op ⟨s', g'⟩ hP hok hs
    exact pmmStep_sane hP hok hs
  refine ⟨⟨stored, backing, hsane.toStack, hsane.split.nodup, fun f => ?_⟩, fun hok => ?_, fun page hok => ?_⟩
  · rw [hsane.split.mem, List.mem_append, List.mem_append, List.mem_append]
  · obtain ⟨page, s', hs, hno, -⟩ := hsane.alloc hok
    exact ⟨page, s', hs, hno⟩
  · obtain ⟨s', hs, -⟩ := hsane.free hok
    rw [hs]
    rfl

/-- 64 MiB of memory: the first frame `mm_init` frees becomes the first page of the stack. -/
theorem frames_partitioned_firstFree : ∃ s s' page s'',
    Pmm.initStack ⟨Mmu.initPaging (fun _ => 0) 0x105000 0x106000, 0x207000, 0, 0, 0, 0, 0⟩ 64512 = some s ∧
    s.pmFree 0x300000 = some s' ∧ s'.pmAlloc = some (page, s'') ∧ page ≠ 0x3F03000 := by
  obtain ⟨s, hs, hready, hboot, hlast, -, hframe⟩ := Pmm.bootImage_ready
  have hfree : (PmmOp.free 0x300000).Ok (s, .start (frame (s.mmu.pde 1020))) := by
    refine ⟨rfl, .inr ⟨hboot, ?_, ?_⟩⟩
    · rw [hframe]
      decide
    · rw [hlast]
      decide
  obtain ⟨s', hs', hstill, -⟩ := hready.sane.pmFree_cases hfree
  obtain ⟨-, halloc, -⟩ := frames_partitioned hready (Reach.start.next _ hfree (pmmStep_free _ hs'))
  obtain ⟨page, s'', hs'', hno⟩ := halloc fun _ => by rw [hstill.last, hlast]; decide
  refine ⟨s, s', page, s'', hs, hs', hs'', ?_⟩
  rintro rfl
  refine hno ?_
  show 0x3F03000 ∈ [frame (s.mmu.pde 1020)].erase 0x300000
  rw [hframe]
  decide

end Krypton
