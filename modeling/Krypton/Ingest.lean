import Krypton.MemoryMap
import Mathlib.Data.List.Pairwise

/-!
# What `mm_init` frees

Every page that gets past `ram_pages` and the guard of `pm_free` ends up on the free-page stack, every 1025th as a page
of it (`Filled`). The loops round nothing and read no high word: a page is right if it is a whole page of the entry it
comes from, and that entry is aligned and below 4 GiB.
-/

namespace Krypton

/-- The physical addresses of an entry. -/
def MmapEntry.Has (me : MmapEntry) (x : Nat) : Prop := me.base ≤ x ∧ x < me.base + me.length

def MmapEntry.Apart (me me' : MmapEntry) : Prop := ∀ x, ¬ (me.Has x ∧ me'.Has x)

instance : Std.Symm MmapEntry.Apart := ⟨fun _ _ h x hx => h x hx.symm⟩

/-- The frame lies inside one entry of usable memory. -/
def Whole (mes : List MmapEntry) (f : Nat) : Prop :=
  ∃ me ∈ mes, me.type = 1 ∧ me.base ≤ f ∧ f + 0x1000 ≤ me.base + me.length

/-- The frame the stack keeps of the `i`-th page it gets: as a page of the stack it loses its low bits. -/
def held (i p : Nat) : Nat := if i % 1025 = 0 then frame p else p

namespace Pmm

/-- The pages that get through, `ram_pages` being `r`. -/
def taken (s : Pmm) : Nat → List (MmapEntry × Nat) → List (MmapEntry × Nat)
  | _, [] => []
  | r, x :: xs =>
    if (r + 1) % 2 ^ 32 ≥ maxRamPages ∨ s.Refuses x.2 then taken s ((r + 1) % 2 ^ 32) xs
    else x :: taken s ((r + 1) % 2 ^ 32) xs

/-- The claim on the stack: whole frames of usable memory, each once. -/
def Ingested (mes : List MmapEntry) (s : Pmm) : Prop :=
  ∃ stored backing, s.Stack stored backing ∧ (stored ++ backing).Nodup ∧
    ∀ f ∈ stored ++ backing, f % 4096 = 0 ∧ Whole mes f

/-- The stack after the pages `ps`, of which `rest` should be its words. -/
structure Filled (s₀ s : Pmm) (ps stored backing rest : List Nat) : Prop extends s.Housed stored backing where
  last : s.pmLastPage = s₀.pmLastPage
  segEq : s.kernelSegEndPage = s₀.kernelSegEndPage
  tableEq : s.mmu.pde 1020 = s₀.mmu.pde 1020
  count : stored.length + backing.length = ps.length
  pages : backing.length = (ps.length + 1024) / 1025
  len : rest.length = stored.length
  exact : backing.Nodup → stored = rest
  perm : (rest ++ backing).Perm (ps.mapIdx held)

variable {s s' s₀ : Pmm} {ps stored backing rest : List Nat} {p r dir low memUpper : Nat} {mes : List MmapEntry}
  {xs : List (MmapEntry × Nat)}

theorem Stack.unique {stored' backing' : List Nat} (h : s.Stack stored backing) (h' : s.Stack stored' backing') :
    stored = stored' ∧ backing = backing' := by
  have hlen : stored.length = stored'.length := by
    have := h.ptr.symm.trans h'.ptr
    omega
  have hlen' : backing.length = backing'.length := by
    have := h.max.symm.trans h'.max
    omega
  exact ⟨List.ext_getElem hlen fun i h1 h2 => (h.word i h1).symm.trans (h'.word i h2),
    List.ext_getElem hlen' fun i h1 h2 => (h.page i h1).2.symm.trans (h'.page i h2).2⟩

theorem refuses_congr (hl : s.pmLastPage = s₀.pmLastPage) (hs : s.kernelSegEndPage = s₀.kernelSegEndPage) :
    s.Refuses p ↔ s₀.Refuses p := by
  unfold Refuses
  rw [hl, hs]

/-- The page table of the stack is the last page, which the guard keeps off. -/
theorem frame_ne_last (hlt : s.pmLastPage < 2 ^ 32) (hr : ¬ s.Refuses p) : frame p ≠ s.pmLastPage := by
  unfold Refuses at hr
  unfold frame
  omega

namespace Filled

theorem start (h : s₀.Housed [] []) : Filled s₀ s₀ [] [] [] [] :=
  { h with
    last := rfl, segEq := rfl, tableEq := rfl, count := rfl, pages := rfl, len := rfl, exact := fun _ => rfl
    perm := .nil }

/-- One page more. -/
theorem free (h : Filled s₀ s ps stored backing rest) (hroom : ps.length < 1024 * 1025) (hr : ¬ s₀.Refuses p)
    (htable : frame p ≠ frame (s₀.mmu.pde 1020)) :
    ∃ s', s.pmFree p = some s' ∧ ∃ stored' backing' rest', Filled s₀ s' (ps ++ [p]) stored' backing' rest' := by
  have hr' : ¬ s.Refuses p := (refuses_congr h.last h.segEq).not.2 hr
  have hcount := h.count
  have hpages := h.pages
  have hlen : (ps ++ [p]).length = ps.length + 1 := by rw [List.length_append, List.length_singleton]
  by_cases hfull : stored.length = 1024 * backing.length
  · -- it extends the stack
    have hheld : held ps.length p = frame p := if_pos (by omega)
    have hkept : s.StackKept (.free p) := by
      intro _ _
      rw [h.tableEq, h.max]
      refine ⟨htable, ?_⟩
      unfold pmStackAddr
      omega
    obtain ⟨s', hs, hst, hh⟩ := h.toHoused.free_full hkept hr' hfull
    refine ⟨s', hs, stored, backing ++ [frame p], rest, ?_⟩
    refine { toHoused := hh, last := hst.last.trans h.last, segEq := hst.seg.trans h.segEq,
             tableEq := hst.pde.trans h.tableEq, count := ?_, pages := ?_, len := h.len,
             exact := fun hnd => h.exact hnd.of_append_left, perm := ?_ }
    · rw [hlen, List.length_append, List.length_singleton]
      omega
    · rw [hlen, List.length_append, List.length_singleton]
      omega
    · rw [List.mapIdx_concat, hheld, ← List.append_assoc]
      exact h.perm.append_right _
  · have hheld : held ps.length p = p := if_neg (by omega)
    obtain ⟨s', hs, hst, stored', hh, hstored, -, hexact⟩ := h.toHoused.free_room hr' hfull
    refine ⟨s', hs, stored', backing, rest ++ [p], ?_⟩
    refine { toHoused := hh, last := hst.last.trans h.last, segEq := hst.seg.trans h.segEq,
             tableEq := hst.pde.trans h.tableEq, count := ?_, pages := ?_, len := ?_, exact := fun hnd => ?_, perm := ?_ }
    · rw [hlen]
      omega
    · rw [hlen]
      omega
    · rw [List.length_append, List.length_singleton, h.len, hstored]
    · rw [hexact hnd, h.exact hnd]
    · rw [List.mapIdx_concat, hheld]
      refine .trans ?_ (h.perm.append_right _)
      rw [List.append_assoc, List.append_assoc]
      exact .append_left _ List.perm_append_comm

theorem offers (h : Filled s₀ s ps stored backing rest)
    (htable : ∀ p, ¬ s₀.Refuses p → frame p ≠ frame (s₀.mmu.pde 1020))
    (hroom : ps.length + (taken s₀ r xs).length ≤ 1024 * 1025) :
    ∃ r' s', xs.foldlM (fun c x => offer c x.2) (r, s) = some (r', s') ∧
      ∃ stored' backing' rest', Filled s₀ s' (ps ++ (taken s₀ r xs).map Prod.snd) stored' backing' rest' := by
  induction xs generalizing r s ps stored backing rest with
  | nil =>
    refine ⟨r, s, rfl, stored, backing, rest, ?_⟩
    rw [taken, List.map_nil, List.append_nil]
    exact h
  | cons x xs ih =>
    rw [List.foldlM_cons]
    unfold taken at hroom ⊢
    by_cases hout : (r + 1) % 2 ^ 32 ≥ maxRamPages ∨ s₀.Refuses x.2
    · rw [if_pos hout] at hroom ⊢
      have hoffer : offer (r, s) x.2 = some ((r + 1) % 2 ^ 32, s) := by
        unfold offer
        dsimp only
        split_ifs with hmax
        · rfl
        · have hr := (refuses_congr h.last h.segEq).2 (hout.resolve_left hmax)
          rw [pmFree_refused hr]
          rfl
      rw [hoffer]
      exact ih h hroom
    · rw [if_neg hout] at hroom ⊢
      obtain ⟨hmax, hr⟩ := not_or.1 hout
      rw [List.length_cons] at hroom
      obtain ⟨s₁, hs₁, stored₁, backing₁, rest₁, h₁⟩ := h.free (by omega) hr (htable _ hr)
      have hoffer : offer (r, s) x.2 = some ((r + 1) % 2 ^ 32, s₁) := by
        unfold offer
        dsimp only
        rw [if_neg hmax, hs₁]
        rfl
      rw [hoffer, List.map_cons, List.append_cons]
      refine ih h₁ ?_
      rw [List.length_append, List.length_singleton]
      omega

theorem ingested_iff (h : Filled s₀ s ps stored backing rest) : Ingested mes { s with vmOnline := 1 } ↔
    (ps.mapIdx held).Nodup ∧ ∀ f ∈ ps.mapIdx held, f % 4096 = 0 ∧ Whole mes f := by
  have hstack : Stack { s with vmOnline := 1 } stored backing := { h.toStack with }
  constructor
  · rintro ⟨stored', backing', hstack', hnd, hf⟩
    obtain ⟨rfl, rfl⟩ := hstack.unique hstack'
    have hrest := h.exact hnd.of_append_right
    rw [hrest] at hnd hf
    exact ⟨h.perm.nodup_iff.1 hnd, fun f hx => hf f (h.perm.mem_iff.2 hx)⟩
  · rintro ⟨hnd, hf⟩
    have hnd' := h.perm.nodup_iff.2 hnd
    refine ⟨stored, backing, hstack, ?_⟩
    rw [h.exact hnd'.of_append_right]
    exact ⟨hnd', fun f hx => hf f (h.perm.mem_iff.1 hx)⟩

end Filled

/-! ### The condition on the map -/

/-- The frames the stack keeps of the pages `xs`. -/
def frames (xs : List (MmapEntry × Nat)) : List Nat := (xs.map Prod.snd).mapIdx held

/-- The frame at place `i` is whole and at no other place. -/
def Sits (mes : List MmapEntry) (fs : List Nat) (i : Nat) : Prop :=
  ∀ f, fs[i]? = some f → f % 4096 = 0 ∧ Whole mes f ∧ ∀ j, fs[j]? = some f → j = i

/-- A whole page of its own entry, which is aligned and below 4 GiB. -/
def Own (x : MmapEntry × Nat) : Prop :=
  x.1.baseAddrHigh = 0 ∧ x.1.baseAddrLow % 4096 = 0 ∧ x.2 + 0x1000 ≤ x.1.base + x.1.length

/-- The pages that may be right by accident: the low words of a page above 4 GiB, and a page of an unaligned entry that
extends the stack. -/
def Stray (i : Nat) (x : MmapEntry × Nat) : Prop :=
  x.1.baseAddrHigh ≠ 0 ∨ x.1.baseAddrLow % 4096 ≠ 0 ∧ i % 1025 = 0

/-- Every page that gets through is one of its entry; a stray one must fall on a whole frame that is kept only once. -/
def PagesOwn (mes : List MmapEntry) (xs : List (MmapEntry × Nat)) : Prop :=
  ∀ i x, xs[i]? = some x → Own x ∨ Stray i x ∧ Sits mes (frames xs) i

theorem frames_get {i : Nat} {x : MmapEntry × Nat} (hx : xs[i]? = some x) : (frames xs)[i]? = some (held i x.2) := by
  unfold frames
  rw [List.getElem?_mapIdx, List.getElem?_map, hx]
  rfl

theorem get_frames {i f : Nat} (hf : (frames xs)[i]? = some f) : ∃ x, xs[i]? = some x ∧ f = held i x.2 := by
  unfold frames at hf
  rw [List.getElem?_mapIdx, List.getElem?_map] at hf
  obtain ⟨p, hp, rfl⟩ := Option.map_eq_some_iff.1 hf
  obtain ⟨x, hx, rfl⟩ := Option.map_eq_some_iff.1 hp
  exact ⟨x, hx, rfl⟩

theorem sits_iff {fs : List Nat} :
    (∀ i, Sits mes fs i) ↔ fs.Nodup ∧ ∀ f ∈ fs, f % 4096 = 0 ∧ Whole mes f := by
  constructor
  · intro h
    refine ⟨List.nodup_iff_getElem?_ne_getElem?.2 fun i j hij hj he => ?_, fun f hf => ?_⟩
    · have hjs := List.getElem?_eq_getElem hj
      have := (h j _ hjs).2.2 i (he.trans hjs)
      omega
    · obtain ⟨i, hi⟩ := List.mem_iff_getElem?.1 hf
      exact ⟨(h i f hi).1, (h i f hi).2.1⟩
  · rintro ⟨hnd, h⟩ i f hi
    obtain ⟨hmod, hw⟩ := h f (List.mem_of_getElem? hi)
    have hlt := (List.getElem?_eq_some_iff.1 hi).1
    exact ⟨hmod, hw, fun j hj => ((List.getElem?_inj hlt hnd).1 (hi.trans hj.symm)).symm⟩

theorem taken_sublist (s : Pmm) (r : Nat) (xs : List (MmapEntry × Nat)) : (taken s r xs).Sublist xs := by
  induction xs generalizing r with
  | nil => exact .slnil
  | cons x xs ih =>
    unfold taken
    split_ifs
    · exact (ih _).cons x
    · exact (ih _).cons_cons x

/-- `ram_pages` keeps the stack in its window, if it does not wrap. -/
theorem taken_length (h : r + xs.length < 2 ^ 32) : (taken s r xs).length ≤ maxRamPages - 1 - r := by
  induction xs generalizing r with
  | nil => exact Nat.zero_le _
  | cons x xs ih =>
    rw [List.length_cons] at h
    have hlen := ih (r := r + 1) (by omega)
    unfold taken
    rw [Nat.mod_eq_of_lt (by omega : r + 1 < 2 ^ 32)]
    split_ifs with hout
    · omega
    · rw [List.length_cons]
      omega

/-! ### Entries apart -/

theorem pages_spec {x : MmapEntry × Nat} (hx : x ∈ offered mes) :
    x.1.baseAddrLow ≤ x.2 ∧ x.2 < 2 ^ 32 ∧ x.2 < x.1.baseAddrLow + x.1.lengthLow ∧
      x.2 % 4096 = x.1.baseAddrLow % 4096 := by
  obtain ⟨-, -, hp⟩ := mem_offered.1 hx
  obtain ⟨hlt, k, hk⟩ := (mem_counted (by decide)).1 hp
  unfold MmapEntry.endLow at hlt
  have hmod := Nat.mod_lt (x.1.baseAddrLow + x.1.lengthLow) (by decide : 0 < 2 ^ 32)
  have hle := Nat.mod_le (x.1.baseAddrLow + x.1.lengthLow) (2 ^ 32)
  omega

theorem apart_eq {me me' : MmapEntry} {a : Nat} (hd : mes.Pairwise MmapEntry.Apart) (h : me ∈ mes) (h' : me' ∈ mes)
    (ha : me.Has a) (ha' : me'.Has a) : me = me' := by
  by_contra hne
  exact hd.forall h h' hne a ⟨ha, ha'⟩

theorem offered_nodup (hd : mes.Pairwise MmapEntry.Apart) : (offered mes).Nodup := by
  unfold offered
  rw [List.nodup_flatMap]
  refine ⟨fun me _ => ?_, hd.imp_of_mem fun {me me'} hme hme' hap x hx hx' => ?_⟩
  · split_ifs
    · exact (counted_nodup (by decide)).map fun p q he => (Prod.mk.inj he).2
    · exact List.nodup_nil
  · -- an entry with a page has an address
    have hoff : ∀ a ∈ mes, x ∈ (if a.type = 1 then a.pages.map fun p => (a, p) else []) → x.1 = a ∧ x ∈ offered mes := by
      intro a ha hxa
      refine ⟨?_, List.mem_flatMap.2 ⟨a, ha, hxa⟩⟩
      split_ifs at hxa
      · obtain ⟨p, -, rfl⟩ := List.mem_map.1 hxa
        rfl
      · cases hxa
    obtain ⟨rfl, hx₁⟩ := hoff me hme hx
    have hx₂ : x.1 = me' := (hoff me' hme' hx').1
    have hspec := pages_spec hx₁
    refine hap x.1.base ⟨⟨Nat.le_refl _, ?_⟩, hx₂ ▸ ⟨Nat.le_refl _, ?_⟩⟩ <;>
    · unfold MmapEntry.length
      omega

section
variable {x : MmapEntry × Nat} {i : Nat}

theorem page_has (hx : x ∈ offered mes) (h0 : x.1.baseAddrHigh = 0) : x.1.Has x.2 := by
  have hspec := pages_spec hx
  unfold MmapEntry.Has MmapEntry.base MmapEntry.length
  rw [h0]
  omega

theorem Own.held (h : Own x) (hx : x ∈ offered mes) (i : Nat) : held i x.2 = x.2 := by
  have hmod : x.2 % 4096 = 0 := (pages_spec hx).2.2.2.trans h.2.1
  unfold Krypton.held
  split_ifs
  · exact frame_of_mod hmod
  · rfl

/-- **The condition is exact**, for pages of entries that are apart. -/
theorem pagesOwn_iff (hd : mes.Pairwise MmapEntry.Apart) (hxs : xs.Sublist (offered mes)) :
    PagesOwn mes xs ↔ (frames xs).Nodup ∧ ∀ f ∈ frames xs, f % 4096 = 0 ∧ Whole mes f := by
  rw [← sits_iff]
  have hmem : ∀ {i x}, xs[i]? = some x → x ∈ offered mes := fun hx => hxs.subset (List.mem_of_getElem? hx)
  constructor
  · intro h i f hf
    obtain ⟨x, hx, rfl⟩ := get_frames hf
    rcases h i x hx with hown | ⟨-, hsits⟩
    · have hoff := hmem hx
      obtain ⟨hme, ht, -⟩ := mem_offered.1 hoff
      have hspec := pages_spec hoff
      rw [hown.held hoff i] at hf ⊢
      refine ⟨hspec.2.2.2.trans hown.2.1, ⟨x.1, hme, ht, ?_, hown.2.2⟩, fun j hj => ?_⟩
      · exact (page_has hoff hown.1).1
      · obtain ⟨y, hy, he⟩ := get_frames hj
        rcases h j y hy with hown' | ⟨-, hsits⟩
        · -- two pages of their entries
          have hoff' := hmem hy
          rw [hown'.held hoff' j] at he
          have heq : x.1 = y.1 := apart_eq hd hme (mem_offered.1 hoff').1 (page_has hoff hown.1)
            (he ▸ page_has hoff' hown'.1)
          have hxy : y = x := (Prod.ext heq he).symm
          have hlt := (List.getElem?_eq_some_iff.1 hy).1
          exact (List.getElem?_inj hlt ((offered_nodup hd).sublist hxs)).1 (hy.trans (hxy ▸ hx.symm))
        · exact ((hsits _ hj).2.2 i hf).symm
    · exact hsits _ hf
  · intro h i x hx
    have hoff := hmem hx
    by_cases hs : Stray i x
    · exact .inr ⟨hs, h i⟩
    · obtain ⟨hlow, hal⟩ := not_or.1 hs
      obtain ⟨hmod, ⟨me, hme, ht, hbase, hend⟩, -⟩ := h i _ (frames_get hx)
      have h0 : x.1.baseAddrHigh = 0 := not_not.1 hlow
      have hspec := pages_spec hoff
      have haligned : x.1.baseAddrLow % 4096 = 0 := by
        by_contra hna
        have hi : held i x.2 = x.2 := if_neg fun hi => hal ⟨hna, hi⟩
        rw [hi, hspec.2.2.2] at hmod
        exact hna hmod
      have hheld : held i x.2 = x.2 := by
        unfold Krypton.held
        split_ifs
        · exact frame_of_mod (hspec.2.2.2.trans haligned)
        · rfl
      rw [hheld] at hbase hend
      obtain rfl := apart_eq hd hme (mem_offered.1 hoff).1 ⟨hbase, by omega⟩ (page_has hoff h0)
      exact .inl ⟨h0, haligned, hend⟩

end

/-! ### `mm_init` -/

theorem frames_length (hxs : xs.Sublist (offered mes)) (hnd : (frames xs).Nodup)
    (hmod : ∀ f ∈ frames xs, f % 4096 = 0) : xs.length ≤ 2 ^ 20 := by
  have hlt : ∀ f ∈ frames xs, f < 2 ^ 32 := by
    intro f hf
    obtain ⟨i, hi⟩ := List.mem_iff_getElem?.1 hf
    obtain ⟨x, hx, rfl⟩ := get_frames hi
    have hp := (pages_spec (hxs.subset (List.mem_of_getElem? hx))).2.1
    unfold Krypton.held frame
    split_ifs <;> omega
  have hdiv : ((frames xs).map (· / 4096)).Nodup := by
    refine hnd.map_on fun f hf g hg he => ?_
    have h1 := hmod f hf
    have h2 := hmod g hg
    omega
  have hsub : (frames xs).map (· / 4096) ⊆ List.range (2 ^ 20) := by
    intro k hk
    obtain ⟨f, hf, rfl⟩ := List.mem_map.1 hk
    have := hlt f hf
    rw [List.mem_range]
    omega
  have hle := (List.subperm_of_subset hdiv hsub).length_le
  rwa [List.length_map, List.length_range, frames, List.length_mapIdx, List.length_map] at hle

section
variable {m : Bytes} {mmapAddr mmapLength : Nat}

/-- As long as the stack stays in its window, the outcome is decided by the pages that get through. -/
theorem mmInit_frames (hi : s.Image dir low) (hp : Placed dir low memUpper) (h₀ : s.initStack memUpper = some s₀)
    (hl : Laid m mmapAddr mes (mmapAddr + mmapLength)) (hfit : mmapAddr + mmapLength < 2 ^ 32)
    (hroom : (taken s₀ 0 (offered mes)).length ≤ 1024 * 1025) :
    (∃ fuel s', s.mmInit m memUpper mmapAddr mmapLength fuel = some s' ∧ Ingested mes s') ↔
      (∀ me ∈ mes, me.type = 1 → me.Ends) ∧ (frames (taken s₀ 0 (offered mes))).Nodup ∧
        ∀ f ∈ frames (taken s₀ 0 (offered mes)), f % 4096 = 0 ∧ Whole mes f := by
  obtain ⟨s₁, hs₁, hhoused, -, hlast, -, hframe⟩ := hi.initStack hp
  obtain rfl := Option.some.inj (hs₁.symm.trans h₀)
  have hword : s₁.pmLastPage < 2 ^ 32 := by
    rw [hlast]
    exact Nat.mod_lt _ (by decide)
  have htable : ∀ p, ¬ s₁.Refuses p → frame p ≠ frame (s₁.mmu.pde 1020) := by
    intro p hr
    rw [hframe, ← hlast]
    exact frame_ne_last hword hr
  obtain ⟨r', t, hfold, stored, backing, rest, hfilled⟩ := (Filled.start hhoused).offers htable
    (by rw [List.length_nil, Nat.zero_add]; exact hroom)
  rw [List.nil_append] at hfilled
  have hstop : (mmapAddr + mmapLength) % 2 ^ 32 = mmapAddr + mmapLength := Nat.mod_eq_of_lt hfit
  constructor
  · rintro ⟨fuel, s', hs, hing⟩
    unfold mmInit at hs
    rw [h₀, hstop, Option.bind_eq_bind, Option.bind_some] at hs
    obtain ⟨c, hc, hs⟩ := Option.bind_eq_some_iff.1 hs
    obtain ⟨hends, hfold'⟩ := mmapLoop_some hl hfit hc
    obtain rfl := Option.some.inj (hfold.symm.trans hfold')
    cases hs
    exact ⟨hends, hfilled.ingested_iff.1 hing⟩
  · rintro ⟨hends, hgood⟩
    obtain ⟨n, hn⟩ := mmapLoop_enough hl hfit hends hfold
    refine ⟨n, { t with vmOnline := 1 }, ?_, hfilled.ingested_iff.2 hgood⟩
    unfold mmInit
    rw [h₀, hstop, Option.bind_eq_bind, Option.bind_some, hn n (Nat.le_refl _)]
    rfl

/-- **The memory map.** The loops of `mm_init` end with whole frames of usable memory on the stack, each once, if they end
for every entry and each page that gets through is one of its entry; and only then, as long as `ram_pages` does not
wrap. -/
theorem mm_init_ingests_iff (hi : s.Image dir low) (hp : Placed dir low memUpper) (h₀ : s.initStack memUpper = some s₀)
    (hl : Laid m mmapAddr mes (mmapAddr + mmapLength)) (hfit : mmapAddr + mmapLength < 2 ^ 32)
    (hd : mes.Pairwise MmapEntry.Apart) :
    ((∀ me ∈ mes, me.type = 1 → me.Ends) ∧ PagesOwn mes (taken s₀ 0 (offered mes)) →
        ∃ fuel s', s.mmInit m memUpper mmapAddr mmapLength fuel = some s' ∧ Ingested mes s') ∧
      ((offered mes).length < 2 ^ 32 →
        (∃ fuel s', s.mmInit m memUpper mmapAddr mmapLength fuel = some s' ∧ Ingested mes s') →
          (∀ me ∈ mes, me.type = 1 → me.Ends) ∧ PagesOwn mes (taken s₀ 0 (offered mes))) := by
  have hsub := taken_sublist s₀ 0 (offered mes)
  have hiff := pagesOwn_iff hd hsub
  constructor
  · rintro ⟨hends, hown⟩
    obtain ⟨hnd, hf⟩ := hiff.1 hown
    have hroom : (taken s₀ 0 (offered mes)).length ≤ 1024 * 1025 :=
      Nat.le_trans (frames_length hsub hnd fun f hx => (hf f hx).1) (by decide)
    exact (mmInit_frames hi hp h₀ hl hfit hroom).2 ⟨hends, hnd, hf⟩
  · intro hfew hret
    have hlen : (taken s₀ 0 (offered mes)).length ≤ maxRamPages - 1 - 0 := taken_length (by omega)
    have hroom : (taken s₀ 0 (offered mes)).length ≤ 1024 * 1025 := Nat.le_trans hlen (by decide)
    obtain ⟨hends, hgood⟩ := (mmInit_frames hi hp h₀ hl hfit hroom).1 hret
    exact ⟨hends, hiff.2 hgood⟩

end

theorem Own.of_aligned {x : MmapEntry × Nat} (hx : x ∈ offered mes) (h0 : x.1.baseAddrHigh = 0)
    (hb : x.1.baseAddrLow % 4096 = 0) (hlen : x.1.lengthLow % 4096 = 0) : Own x := by
  have hspec := pages_spec hx
  refine ⟨h0, hb, ?_⟩
  unfold MmapEntry.base MmapEntry.length
  omega

theorem mem_taken {x : MmapEntry × Nat} (hx : x ∈ xs) (hr : ¬ s.Refuses x.2) (hfew : r + xs.length < maxRamPages) :
    x ∈ taken s r xs := by
  induction xs generalizing r with
  | nil => cases hx
  | cons y xs ih =>
    rw [List.length_cons] at hfew
    have hmax : maxRamPages < 2 ^ 32 := by decide
    have hmem : ∀ h : x ∈ xs, x ∈ taken s (r + 1) xs := fun h => ih h (by omega)
    unfold taken
    rw [Nat.mod_eq_of_lt (by omega : r + 1 < 2 ^ 32)]
    split_ifs with hout
    · refine hmem ((List.mem_cons.1 hx).resolve_left ?_)
      rintro rfl
      exact hout.elim (fun h => by omega) hr
    · exact List.mem_cons.2 ((List.mem_cons.1 hx).imp_right hmem)

/-- A map with one entry at `0x9000`. -/
def oneEntry (baseLow lengthLow : Nat) : Bytes :=
  store32 (store32 (store32 (store32 (fun _ => 0) 0x9000 20) 0x9004 baseLow) 0x900C lengthLow) 0x9014 1

/-- 64 MiB with the two frames from `0x300000` on. -/
theorem mm_init_ingests_iff_twoFrames : ∃ fuel s',
    bootImage.mmInit (oneEntry 0x300000 0x2000) 64512 0x9000 24 fuel = some s' ∧
      Ingested [⟨20, 0x300000, 0, 0x2000, 0, 1⟩] s' := by
  obtain ⟨s, hs, -⟩ := bootImage_ready
  have hl : Laid (oneEntry 0x300000 0x2000) 0x9000 [⟨20, 0x300000, 0, 0x2000, 0, 1⟩] (0x9000 + 24) := ⟨rfl, rfl⟩
  refine (mm_init_ingests_iff bootImage_image (by decide) hs hl (by decide) (List.pairwise_singleton _ _)).1
    ⟨?_, fun i x hx => .inl ?_⟩
  · rw [List.forall_mem_singleton]
    intro _
    decide
  · obtain ⟨me, p⟩ := x
    have hoff := (taken_sublist _ _ _).subset (List.mem_of_getElem? hx)
    obtain rfl := List.mem_singleton.1 (mem_offered.1 hoff).1
    exact Own.of_aligned hoff rfl (rfl : 0x300000 % 4096 = 0) (rfl : 0x2000 % 4096 = 0)

/-- The base memory of a PC ends in the middle of a page, which is stored: `0x9F000` is no frame of it. -/
theorem base_memory_cut : Laid (oneEntry 0 0x9FC00) 0x9000 [⟨20, 0, 0, 0x9FC00, 0, 1⟩] (0x9000 + 24) ∧
    ¬ ∃ fuel s', bootImage.mmInit (oneEntry 0 0x9FC00) 64512 0x9000 24 fuel = some s' ∧
      Ingested [⟨20, 0, 0, 0x9FC00, 0, 1⟩] s' := by
  obtain ⟨s, hs, -, -, hlast, hseg, -⟩ := bootImage_ready
  have hl : Laid (oneEntry 0 0x9FC00) 0x9000 [⟨20, 0, 0, 0x9FC00, 0, 1⟩] (0x9000 + 24) := ⟨rfl, rfl⟩
  refine ⟨hl, fun hing => ?_⟩
  have hlen : (offered [⟨20, 0, 0, 0x9FC00, 0, 1⟩]).length = 160 := rfl
  have hroom : (taken s 0 (offered [⟨20, 0, 0, 0x9FC00, 0, 1⟩])).length ≤ 1024 * 1025 :=
    Nat.le_trans (taken_sublist _ _ _).length_le (by rw [hlen]; decide)
  have hoff : (⟨20, 0, 0, 0x9FC00, 0, 1⟩, 0x9F000) ∈ offered [⟨20, 0, 0, 0x9FC00, 0, 1⟩] :=
    mem_offered.2 ⟨List.mem_singleton_self _, rfl, (mem_counted (by decide)).2 ⟨by decide, 0x9F, rfl⟩⟩
  have hr : ¬ s.Refuses 0x9F000 := by
    unfold Refuses
    rw [hlast, hseg]
    decide
  obtain ⟨-, -, hframes⟩ := (mmInit_frames bootImage_image (by decide) hs hl (by decide) hroom).1 hing
  obtain ⟨i, hi⟩ := List.mem_iff_getElem?.1 (mem_taken (r := 0) hoff hr (by rw [hlen]; decide))
  have hheld : held i 0x9F000 = 0x9F000 := by
    unfold held
    split_ifs <;> rfl
  obtain ⟨-, me, hme, -, -, hend⟩ := hframes _ (hheld ▸ List.mem_of_getElem? (frames_get hi))
  rw [List.mem_singleton.1 hme] at hend
  exact absurd hend (by decide)

end Pmm
end Krypton
