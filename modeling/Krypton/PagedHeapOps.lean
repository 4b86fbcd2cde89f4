import Krypton.PagedHeapRep

/-!
# The pages of the heap

The loops of `alloc_chunk` and `free_chunk` take frames from `pm_alloc` and give them back to `pm_free`; they end, and
the machine shows what it showed before (`Holds.allocChunk`, `Holds.shrink`). Others may take frames, give them back and
write to them (`Holds.take`, `Holds.give`, `Holds.fill`).
-/

namespace Krypton
open Tiling

theorem Pmm.Spares.byte {s s' : Pmm} {g g' : Frames} {out : List Nat} {p : Nat} (h : Pmm.Spares s g out s' g')
    (ho : frame p ∉ out) (hp : s.Plain g (frame p)) : s'.mmu.byte p = s.mmu.byte p := by
  have hf := Mmu.Off.frame_byte p
  unfold Mmu.byte
  rw [h.phys _ (by rwa [hf]) (by rwa [hf])]

namespace PagedHeap
open Mmu Pmm

variable {s s' : PagedHeap} {g g' : Frames} {stored backing hs theirs : List Nat} {A A' : PageMap} {m m' : Bytes}
  {e f fuel start len : Nat}

namespace Holds

theorem place_plain (h : s.Holds g stored backing A hs theirs m) {v p : Nat} (hv : place hs v = some p) :
    s.Plain g (Krypton.frame p) := h.touched ⟨v, p, hv, rfl⟩

/-! ### The loops over pages -/

/-- One more page behind the heap, with what its frame holds. -/
theorem push {p : Pmm} {st : List Nat} {page max : Nat} (h : s.Holds g stored backing A hs theirs m)
    (hk : p.Kept g' st backing A') (hmax : s.shHeapMax = max) (hwin : max + 4096 ≤ pmStackAddr)
    (hA : A' = Function.update A (max / 4096) (some page)) (hown : ∀ f ∈ g.own, f ∈ g'.own) (hpage : p.Plain g' page)
    (hno : page ∉ g.own) (h0 : page ≠ 0) (hl : Spares s.toPmm g [] p g') :
    Holds { s with toPmm := p, shHeapMax := max + 4096 } g' st backing A' (hs ++ [page]) theirs fun x =>
      if x < max then m x else p.mmu.byte (page + x % 4096) := by
  have htop := h.top
  have h3 : shHeapStart = 0xC0400000 := rfl
  have hmem : ∀ f ∈ hs ++ [page] ++ theirs, f ∈ hs ++ theirs ∨ f = page := by
    intro f hf
    rw [List.mem_append, List.mem_append, List.mem_singleton] at hf
    rw [List.mem_append]
    rcases hf with (hf | hf) | hf
    · exact .inl (.inl hf)
    · exact .inr hf
    · exact .inl (.inr hf)
  have hplain : ∀ f ∈ hs ++ [page] ++ theirs, p.Plain g' f := fun f hf => by
    rcases hmem f hf with hf | rfl
    · exact hl.plain f List.not_mem_nil (h.plain hf)
    · exact hpage
  refine { toKept := hk, top := ?_, window := hwin, pages := fun j hj => ?_, above := fun n h1 h2 => ?_, nodup := ?_,
           own := fun f hf => ?_, data := fun f hf => (hplain f hf).data, bytes := fun {v q} hv => ?_ }
  · show max + 4096 = _
    rw [List.length_append, List.length_singleton]
    omega
  · rw [List.length_append, List.length_singleton] at hj
    by_cases hlast : j = hs.length
    · subst hlast
      have hd : shHeapStart / 4096 + hs.length = max / 4096 := by omega
      rw [hA, hd, Function.update_self, List.getElem_concat_length rfl]
    · have hlt : j < hs.length := by omega
      rw [hA, Function.update_of_ne (by omega), List.getElem_append_left hlt]
      exact h.pages j hlt
  · dsimp only at h1
    rw [hA, Function.update_of_ne (by omega)]
    exact h.above n (by omega) h2
  · rw [List.append_assoc, List.singleton_append]
    refine List.nodup_middle.2 (List.nodup_cons.2 ⟨fun hx => hno (h.own page hx), h.nodup⟩)
  · rcases hmem f hf with hf | rfl
    · exact hown f (h.own f hf)
    · exact hpage.held.resolve_right h0
  · have hold : ∀ {v q}, place hs v = some q → v < max →
        p.mmu.byte q = if v < max then m v else p.mmu.byte (page + v % 4096) := by
      intro v q hv hlt
      rw [if_pos hlt, hl.byte List.not_mem_nil (h.place_plain hv), h.bytes hv]
    rcases place_cases hv with ⟨hlt, rfl⟩ | ⟨j, hj, h1, h2, rfl⟩
    · exact hold (place_null hlt) (by omega)
    · rw [List.length_append, List.length_singleton] at hj
      by_cases hlast : j = hs.length
      · subst hlast
        rw [if_neg (by omega), List.getElem_concat_length rfl]
      · have hj' : j < hs.length := by omega
        rw [List.getElem_append_left hj']
        exact hold (place_page hj' h1 h2) (by omega)

/-- `alloc_chunk` ends as long as `pm_last_page` does not wrap, and what the heap held it still holds. -/
theorem allocChunk (h : s.Holds g stored backing A hs theirs m) (he : add32 start len = e) (hle : e ≤ pmStackAddr)
    (hroom : s.pmLastPage + 0x2000 * ((e + 4095 - s.shHeapMax) / 4096) < 2 ^ 32) (h0 : 0 < fuel)
    (hf : e + 4096 ≤ s.shHeapMax + 4096 * fuel) :
    ∃ s' g' st A' hs' m', PagedHeap.allocChunk fuel s start len = .ok s' ∧
      s'.Holds g' st backing A' hs' theirs m' ∧ s'.shHeap = s.shHeap ∧
      s'.shHeapMax = max s.shHeapMax (Heap.pageUp e) ∧
      s'.pmLastPage ≤ s.pmLastPage + 0x2000 * ((e + 4095 - s.shHeapMax) / 4096) ∧ ∀ x < s.shHeapMax, m' x = m x := by
  have h4 : Heap.pageUp e = (e + 4095) / 4096 * 4096 := rfl
  have h5 : pmStackAddr = 0xFF000000 := rfl
  have h6 : shHeapStart = 0xC0400000 := rfl
  induction fuel generalizing s g stored A hs m with
  | zero => omega
  | succ fuel ih =>
    have htop := h.top
    rw [PagedHeap.allocChunk, he]
    split_ifs with hgt
    · obtain ⟨max, hmax⟩ : ∃ max, s.shHeapMax = max := ⟨_, rfl⟩
      rw [hmax] at hgt htop hroom hf ⊢
      obtain ⟨page, p₁, st₁, hp₁, hno, hgood, hfresh, hmmu, hlast₁, hk₁⟩ := h.toKept.alloc (by omega)
      have hpage0 : page ≠ 0 := by
        rintro rfl
        exact Nat.not_succ_le_zero _ hgood.1
      have hpage : p₁.Plain { g with own := page :: g.own, seen := page :: g.seen } page :=
        ⟨.inl List.mem_cons_self, hmmu.symm ▸ hfresh⟩
      obtain ⟨hv, hne⟩ := slot (v := max) (by omega) (by omega)
      obtain ⟨p₂, g₂, st₂, hp₂, hk₂, hlast₂, hown₂, hl₂⟩ :=
        hk₁.mmMap hv hne hpage hpage0 (by omega) (pageWrite ||| pageUser)
      have hl : Spares s.toPmm g [] p₂ g₂ := by
        refine Spares.trans ⟨fun f _ hf => ⟨hf.held.imp_left (List.mem_cons_of_mem _), hmmu.symm ▸ hf.data⟩,
          fun q _ _ => by rw [hmmu]⟩ hl₂
      have hown : ∀ f ∈ g.own, f ∈ g₂.own := fun f hf => hown₂ f (List.mem_cons_of_mem _ hf)
      have hs₁ := h.push hk₂ hmax (by omega) rfl hown (hl₂.plain page List.not_mem_nil hpage) hno hpage0 hl
      have hadd : add32 max 4096 = max + 4096 := Nat.mod_eq_of_lt (by omega)
      obtain ⟨s', g', st, A', hs', m', hs, hh, hfirst, htop', hlast', hold⟩ := ih hs₁ (by dsimp only; omega) (by omega)
        (by dsimp only; omega)
      refine ⟨s', g', st, A', hs', m', ?_, hh, hfirst, htop'.trans (by dsimp only; omega),
        hlast'.trans (by dsimp only; omega), fun x hx => ?_⟩
      · rw [hp₁, orFault_bind]
        dsimp only
        rw [hp₂, orFault_bind, hadd]
        exact hs
      · rw [hold x (by dsimp only; omega), if_pos hx]
    · exact ⟨s, g, stored, A, hs, m, rfl, h, rfl, by omega, Nat.le_add_right _ _, fun _ _ => rfl⟩

/-- The last page is given back. -/
theorem pop {page : Nat} (h : s.Holds g stored backing A (hs ++ [page]) theirs m) :
    ∃ p mmu g' st bk A', s.mmu.getPhysaddr (shHeapStart + 4096 * hs.length) = some page ∧ s.pmFree page = some p ∧
      p.mmu.mmUnmap (shHeapStart + 4096 * hs.length) = some mmu ∧ p.pmLastPage = s.pmLastPage ∧
      Holds { s with toPmm := { p with mmu := mmu }, shHeapMax := shHeapStart + 4096 * hs.length } g' st bk A' hs theirs
        m := by
  have htop := h.top
  have hwin := h.window
  have h3 : shHeapStart = 0xC0400000 := rfl
  have h4 : pmStackAddr = 0xFF000000 := rfl
  rw [List.length_append, List.length_singleton] at htop
  have hj : hs.length < (hs ++ [page]).length := by simp
  have hlast : (hs ++ [page])[hs.length] = page := List.getElem_concat_length rfl hj
  obtain ⟨max, hmax⟩ : ∃ max, shHeapStart + 4096 * hs.length = max := ⟨_, rfl⟩
  rw [hmax]
  have hmod : max % 4096 = 0 := by omega
  obtain ⟨hv, hne⟩ := slot (v := max) (by omega) (by omega)
  have hmem : page ∈ (hs ++ [page]) ++ theirs := by simp
  have hpage := h.plain hmem
  -- the page behind the others lies on `page`
  have hwalk : s.mmu.walk max = some page := by
    have hw := h.walk_page hj (v := max) (by omega) (by omega)
    rwa [hlast, hmod, Nat.add_zero] at hw
  have hget : s.mmu.getPhysaddr max = some page := by
    rw [h.maps.getPhysaddr hv, hwalk, Option.getD_some]
  have htable : ∀ i < 1024, present (s.mmu.pde i) → page ≠ Krypton.frame (s.mmu.pde i) := hpage.data.table
  have hok : PmmOp.Ok (s.toPmm, g) (.free page) :=
    ⟨hpage.data.aligned, .inl ⟨h.own page hmem, htable 1020 (by omega) h.table⟩⟩
  obtain ⟨p, st, bk, A₁, hfree, hstill, hk₁, hA₁, hsp₁⟩ := h.toKept.free hok fun i hi hp => htable i hi.lt hp
  obtain ⟨g', hg'⟩ : ∃ g' : Frames, { own := g.own.erase page
                                      dropped := if s.Refuses page then page :: g.dropped else g.dropped
                                      seen := page :: g.seen } = g' := ⟨_, rfl⟩
  rw [hg'] at hk₁ hsp₁
  have hpres : present (p.mmu.pde (pdindex max)) := by
    by_contra habs
    have hentry := h.pages hs.length hj
    have hd : shHeapStart / 4096 + hs.length = max / 4096 := by omega
    have hi : max / 4096 / 1024 = pdindex max := by
      unfold pdindex
      omega
    have hmap := hk₁.maps.entry (pdindex max) (ptindex max) hv (ptindex_lt max)
    have hn : 1024 * pdindex max + ptindex max = max / 4096 := by
      unfold pdindex ptindex
      omega
    rw [hn, hA₁ _ (by rw [hi]; exact hne), ← hd, hentry, if_neg fun hx => habs hx.1] at hmap
    cases hmap
  obtain ⟨mmu, hunmap, hk₂, hsp₂⟩ := hk₁.mmUnmap hv hne hpres
  have hsp := hsp₁.trans (hsp₂.mono (List.nil_subset [page]))
  have hnodup := h.nodup
  have hmem' : ∀ f ∈ hs ++ theirs, f ∈ (hs ++ [page]) ++ theirs ∧ f ≠ page := fun f hf => by
    rw [List.append_assoc, List.singleton_append, List.nodup_middle, List.nodup_cons] at hnodup
    refine ⟨?_, ?_⟩
    · simp only [List.mem_append, List.mem_singleton] at hf ⊢
      tauto
    · rintro rfl
      exact hnodup.1 hf
  have hplain : ∀ f ∈ hs ++ theirs, Plain { p with mmu := mmu } g' f := fun f hf =>
    hsp.plain f (by simpa using (hmem' f hf).2) (h.plain (hmem' f hf).1)
  refine ⟨p, mmu, g', st, bk, Function.update A₁ (max / 4096) none, hget, hfree, hunmap, hstill.last, ?_⟩
  refine { toKept := hk₂, top := hmax.symm, window := (by dsimp only; omega), pages := fun j hj => ?_,
           above := fun n h1 h2 => ?_, nodup := ?_, own := fun f hf => ?_,
           data := fun f hf => (hplain f hf).data, bytes := fun {v q} hv => ?_ }
  · rw [Function.update_of_ne (by omega), hA₁ _ (by omega)]
    have hpj := h.pages j (by simp; omega)
    rwa [List.getElem_append_left hj] at hpj
  · dsimp only at h1
    by_cases hn : n = max / 4096
    · rw [hn, Function.update_self]
    · rw [Function.update_of_ne hn, hA₁ _ (by omega)]
      exact h.above n (by omega) h2
  · rw [List.append_assoc, List.singleton_append, List.nodup_middle, List.nodup_cons] at hnodup
    exact hnodup.2
  · exact (hplain f hf).held.resolve_right (h.ne_zero (hmem' f hf).1)
  · have hv' : place (hs ++ [page]) v = some q := by
      rcases place_cases hv with ⟨hlt, rfl⟩ | ⟨j, hj, h1, h2, rfl⟩
      · exact place_null hlt
      · have hlt : j < (hs ++ [page]).length := by simp; omega
        have hp := place_page hlt h1 h2
        rwa [List.getElem_append_left hj] at hp
    rw [← h.bytes hv']
    refine hsp.byte ?_ (h.place_plain hv')
    rw [List.mem_singleton]
    rcases place_cases hv with ⟨hlt, rfl⟩ | ⟨j, hj, -, -, rfl⟩
    · have h0 : Krypton.frame q = 0 := by
        unfold Krypton.frame
        omega
      rw [h0]
      exact (h.ne_zero hmem).symm
    · have hal : hs[j] % 4096 = 0 := (h.data _ (hmem' _ (by simp)).1).aligned
      have hf : Krypton.frame (hs[j] + v % 4096) = hs[j] := by
        unfold Krypton.frame
        omega
      rw [hf]
      exact (hmem' _ (by simp)).2

/-- The loop of `free_chunk` keeps the pages up to the one that `e` ends in. -/
theorem shrink (h : s.Holds g stored backing A hs theirs m) (hge : shHeapStart ≤ e) (hle : e ≤ s.shHeapMax)
    (hf : s.shHeapMax < e + 4096 * fuel) :
    ∃ s' g' st bk A' hs', PagedHeap.shrink fuel s e = .ok s' ∧ s'.Holds g' st bk A' hs' theirs m ∧
      s'.shHeap = s.shHeap ∧ s'.shHeapMax = Heap.pageUp e ∧ s'.pmLastPage = s.pmLastPage := by
  have h3 : shHeapStart = 0xC0400000 := rfl
  have h4 : pmStackAddr = 0xFF000000 := rfl
  have h5 : Heap.pageUp e = (e + 4095) / 4096 * 4096 := rfl
  induction fuel generalizing s g stored backing A hs with
  | zero => omega
  | succ fuel ih =>
    have htop := h.top
    have hwin := h.window
    have hsub : sub32 s.shHeapMax 0x1000 = s.shHeapMax - 4096 := by
      unfold sub32
      omega
    rw [PagedHeap.shrink, hsub]
    split_ifs with hgt
    · obtain ⟨hs, page, rfl⟩ : ∃ hs₁ page, hs = hs₁ ++ [page] := by
        rcases List.eq_nil_or_concat hs with rfl | ⟨hs₁, page, rfl⟩
        · rw [List.length_nil] at htop
          omega
        · exact ⟨hs₁, page, List.concat_eq_append⟩
      rw [List.length_append, List.length_singleton] at htop
      obtain ⟨p, mmu, g', st, bk, A', hget, hfree, hunmap, hlast, hh⟩ := h.pop
      obtain ⟨max, hmax⟩ : ∃ max, shHeapStart + 4096 * hs.length = max := ⟨_, rfl⟩
      have hdown : s.shHeapMax - 4096 = max := by omega
      rw [hmax] at hget hunmap hh
      obtain ⟨s', g'', st', bk', A'', hs', hs₁, hh', hfirst, htop', hlast'⟩ := ih hh (by dsimp only; omega)
        (by dsimp only; omega)
      refine ⟨s', g'', st', bk', A'', hs', ?_, hh', hfirst, htop', hlast'.trans hlast⟩
      simp only [hdown]
      rw [hget, orFault_bind, hfree, orFault_bind, hunmap, orFault_bind]
      exact hs₁
    · exact ⟨s, g, stored, backing, A, hs, rfl, h, rfl, by omega, rfl⟩

/-! ### Frames in other hands -/

/-- Somebody takes a frame. -/
theorem take (h : s.Holds g stored backing A hs theirs m) (hroom : s.pmLastPage + 0x1000 < 2 ^ 32) :
    ∃ page p g' st, s.pmAlloc = some (page, p) ∧
      Holds { s with toPmm := p } g' st backing A hs (page :: theirs) m := by
  obtain ⟨page, p, st, hp, hno, hgood, hfresh, hmmu, -, hk⟩ := h.toKept.alloc hroom
  have hmem : ∀ f ∈ hs ++ page :: theirs, f = page ∨ f ∈ hs ++ theirs := fun f hf => by
    simp only [List.mem_append, List.mem_cons] at hf ⊢
    tauto
  refine ⟨page, p, { g with own := page :: g.own, seen := page :: g.seen }, st, hp, ?_⟩
  refine { toKept := hk, top := h.top, window := h.window, pages := h.pages, above := h.above, nodup := ?_,
           own := fun f hf => ?_, data := fun f hf => ?_, bytes := fun hv => ?_ }
  · exact List.nodup_middle.2 (List.nodup_cons.2 ⟨fun hx => hno (h.own page hx), h.nodup⟩)
  · rcases hmem f hf with rfl | hf
    · exact List.mem_cons_self
    · exact List.mem_cons_of_mem _ (h.own f hf)
  · show p.mmu.FreshPage f
    rw [hmmu]
    rcases hmem f hf with rfl | hf
    · exact hfresh
    · exact h.data f hf
  · show p.mmu.byte _ = _
    rw [hmmu]
    exact h.bytes hv

theorem frame_ne (h : s.Holds g stored backing A hs theirs m) (hf : f ∈ theirs) {v p : Nat} (hv : place hs v = some p) :
    Krypton.frame p ≠ f := by
  have hmem : f ∈ hs ++ theirs := List.mem_append_right _ hf
  rcases place_cases hv with ⟨hlt, rfl⟩ | ⟨j, hj, -, -, rfl⟩
  · have h0 : Krypton.frame p = 0 := by
      unfold Krypton.frame
      omega
    rw [h0]
    exact (h.ne_zero hmem).symm
  · rw [h.frame_page hj]
    rintro rfl
    exact List.disjoint_of_nodup_append h.nodup (List.getElem_mem hj) hf

/-- He gives it back. -/
theorem give (h : s.Holds g stored backing A hs theirs m) (hf : f ∈ theirs) :
    ∃ p g' st bk A', s.pmFree f = some p ∧ Holds { s with toPmm := p } g' st bk A' hs (theirs.erase f) m := by
  have h3 : shHeapStart = 0xC0400000 := rfl
  have h4 : pmStackAddr = 0xFF000000 := rfl
  have htop := h.top
  have hwin := h.window
  have hmem : f ∈ hs ++ theirs := List.mem_append_right _ hf
  have hpage := h.plain hmem
  have htable : ∀ i < 1024, present (s.mmu.pde i) → f ≠ Krypton.frame (s.mmu.pde i) := hpage.data.table
  have hok : PmmOp.Ok (s.toPmm, g) (.free f) :=
    ⟨hpage.data.aligned, .inl ⟨h.own f hmem, htable 1020 (by omega) h.table⟩⟩
  obtain ⟨p, st, bk, A', hfree, -, hk, hA, hsp⟩ := h.toKept.free hok fun i hi hp => htable i hi.lt hp
  obtain ⟨g', hg'⟩ : ∃ g' : Frames, { own := g.own.erase f
                                      dropped := if s.Refuses f then f :: g.dropped else g.dropped
                                      seen := f :: g.seen } = g' := ⟨_, rfl⟩
  rw [hg'] at hk hsp
  have hnodup := h.nodup
  have hmem' : ∀ q ∈ hs ++ theirs.erase f, q ∈ hs ++ theirs ∧ q ≠ f := fun q hq => by
    rcases List.mem_append.1 hq with hq | hq
    · exact ⟨List.mem_append_left _ hq, fun he => List.disjoint_of_nodup_append hnodup hq (he ▸ hf)⟩
    · obtain ⟨hne, hq'⟩ := hnodup.of_append_right.mem_erase_iff.1 hq
      exact ⟨List.mem_append_right _ hq', hne⟩
  have hplain : ∀ q ∈ hs ++ theirs.erase f, p.Plain g' q := fun q hq =>
    hsp.plain q (by simpa using (hmem' q hq).2) (h.plain (hmem' q hq).1)
  refine ⟨p, g', st, bk, A', hfree, ?_⟩
  refine { toKept := hk, top := htop, window := hwin, pages := fun j hj => ?_, above := fun n h1 h2 => ?_, nodup := ?_,
           own := fun q hq => ?_, data := fun q hq => (hplain q hq).data, bytes := fun {v q} hv => ?_ }
  · rw [hA _ (by omega)]
    exact h.pages j hj
  · dsimp only at h1
    rw [hA _ (by omega)]
    exact h.above n h1 h2
  · exact hnodup.sublist (List.erase_sublist.append_left hs)
  · exact (hplain q hq).held.resolve_right (h.ne_zero (hmem' q hq).1)
  · rw [← h.bytes hv]
    exact hsp.byte (by simpa using h.frame_ne hf hv) (h.place_plain hv)

/-- Or stores a byte in it. -/
theorem fill (h : s.Holds g stored backing A hs theirs m) {p : Nat} (hf : Krypton.frame p ∈ theirs) (b : BitVec 8) :
    Holds { s with mmu := s.mmu.setByte p b } g stored backing A hs theirs m := by
  have hoff : Off (fun f => f = Krypton.frame p) s.mmu (s.mmu.setByte p b) := .setByte rfl
  have hT : ∀ f, f = Krypton.frame p → s.Plain g f := by
    rintro f rfl
    exact h.plain (List.mem_append_right _ hf)
  refine { toKept := h.toKept.edit hoff hT, top := h.top, window := h.window, pages := h.pages, above := h.above,
           nodup := h.nodup, own := h.own, data := fun f hf => (h.toKept.edit_plain hoff hT (h.plain hf)).data,
           bytes := fun hv => ?_ }
  exact (hoff.byte (h.frame_ne hf hv)).trans (h.bytes hv)

end Holds
end PagedHeap
end Krypton
