import Krypton.HeapLinks
import Krypton.HeapRun

/-!
# Where the heap follows `NULL`

The headers `kmalloc` and `kfree` note on a well-formed heap are those of its chunks, with two exceptions: the first
`kmalloc` stores through `prev_header`, and `kfree` of the last chunk through the link in front of it or behind it,
where there is nothing or a free chunk.
-/

namespace Krypton
namespace Heap
open Tiling Traced

variable {s : Heap} {n p a h l fuel : Nat} {cs xs ys : List Chunk}

/-! ### One function -/

theorem findChunkN_notes (hs : Seg s.mem 0 p a cs) (ha : 0 < a) (fuel : Nat) :
    ∀ x ∈ (findChunkN l fuel (if cs = [] then 0 else a) p).notes s, x ∈ starts a cs := by
  induction cs generalizing p a fuel with
  | nil => cases fuel <;> simp [findChunkN]
  | cons c cs ih =>
    cases fuel with
    | zero => simp [findChunkN]
    | succ fuel =>
      obtain ⟨hc, hs⟩ := hs
      have ih := ih hs (by omega) fuel
      rw [← hc.next] at ih
      rw [if_neg (by simp)]
      unfold findChunkN
      simp only [if_neg ha.ne', notes_bind, notes_ite, notes_pure, notes_getField, val_getField, state_getField]
      split_ifs
      · simp [starts]
      · simp only [List.cons_append, List.nil_append, List.mem_cons, starts]
        rintro x (rfl | rfl | rfl | hx)
        · exact .inl rfl
        · exact .inl rfl
        · exact .inl rfl
        · exact .inr (ih x hx)

section Merged
variable {b nn j k : Nat} {u : Bool}

/-- A free successor is looked at, and so is the header behind it. -/
theorem glueNextN_notes_merged (hb : HeaderAt s.mem b (b + j) p ⟨j, u⟩) (hn : HeaderAt s.mem (b + j) nn b ⟨k, false⟩)
    (h12 : 12 ≤ b) (hj : 12 ≤ j) (hnn : nn = 0 ∨ b + j + 12 ≤ nn) (hlen : j + k < 2 ^ 31) (x : Nat) :
    x ∈ (glueNextN b).notes s ↔ x = b ∨ x = b + j ∨ x = nn := by
  have hb1 := hb.setLength hlen
  have hn1 := hn.setLength_of_ne b (j + k) (by omega)
  have hb2 := hb1.setPrev_of_ne nn b (by omega)
  have hn2 := hn1.setPrev_of_ne nn b (by omega)
  have hne : b + j ≠ 0 := by omega
  have hfree : s.mem.allocated (b + j) = 0 := hn.allocated
  unfold glueNextN
  simp only [notes_bind, notes_getField, notes_setField, val_getField, state_getField, state_setField, hb.next, hfree,
    ne_eq, hne, not_false_eq_true, if_true, hb.length, hn.length, hb1.next, hn1.next, hb2.next, hn2.next,
    List.cons_append, List.nil_append, List.mem_cons, List.not_mem_nil]
  tauto

/-- A free predecessor is looked at, and so is the header behind the chunk. -/
theorem gluePrevN_notes_merged (hb : HeaderAt s.mem b (b + j) p ⟨j, false⟩) (hn : HeaderAt s.mem (b + j) nn b ⟨k, u⟩)
    (h12 : 12 ≤ b) (hj : 12 ≤ j) (hlen : j + k < 2 ^ 31) (x : Nat) :
    x ∈ (gluePrevN (b + j)).notes s ↔ x = b ∨ x = b + j ∨ x = nn := by
  have hb1 := hb.setLength hlen
  have hn1 := hn.setLength_of_ne b (j + k) (by omega)
  have hn2 := hn1.setNext_of_ne b nn (by omega)
  have hne : b ≠ 0 := by omega
  have hfree : s.mem.allocated b = 0 := hb.allocated
  unfold gluePrevN
  simp only [notes_bind, notes_getField, notes_setField, val_getField, state_getField, state_setField, hn.prev, hfree,
    ne_eq, hne, not_false_eq_true, if_true, hb.length, hn.length, hn1.prev, hn1.next, hn2.prev, hn2.next,
    List.cons_append, List.nil_append, List.mem_cons, List.not_mem_nil]
  tauto

end Merged

theorem glueNextN_notes (hr : s.Tiled (xs ++ ⟨n, false⟩ :: ys)) (hy : ∀ k, ys ≠ [⟨k, false⟩]) :
    ∀ x ∈ (glueNextN (shHeapStart + size xs)).notes s, x ∈ starts shHeapStart (xs ++ ⟨n, false⟩ :: ys) := by
  have h4 : shHeapStart = 0xC0400000 := rfl
  obtain ⟨-, hc, hys⟩ := hr.seg.middle
  have hh := mem_starts_middle shHeapStart xs ⟨n, false⟩ ys
  have hsub : ∀ x ∈ starts (shHeapStart + size xs + n) ys, x ∈ starts shHeapStart (xs ++ ⟨n, false⟩ :: ys) :=
    fun x hx => mem_starts_right (List.mem_cons_of_mem _ hx)
  obtain ⟨h1, h2, h3⟩ := hr.bounds
  have hfits := hr.fits
  rw [size_append] at hfits
  rcases ys with _ | ⟨⟨k, u⟩, ys⟩
  · have hnext : s.mem.next (shHeapStart + size xs) = 0 := hc.next
    simp only [glueNextN, notes_bind, notes_getField, val_getField, hnext, ne_eq, not_true, if_false, notes_pure,
      List.append_nil, List.mem_singleton, forall_eq]
    exact hh
  · have hn := hsub _ List.mem_cons_self
    have hk : 12 ≤ k := hr.header ⟨k, u⟩ (by simp)
    simp only [size_cons] at hfits
    cases u with
    | true =>
      have hused : s.mem.allocated (shHeapStart + size xs + n) = 1 := hys.1.allocated
      have hnext : s.mem.next (shHeapStart + size xs) = shHeapStart + size xs + n := hc.next
      have hne : shHeapStart + size xs + n ≠ 0 := by omega
      simp only [glueNextN, notes_bind, notes_getField, val_getField, state_getField, hnext, hused, ne_eq, hne,
        not_false_eq_true, if_true, one_ne_zero, if_false, notes_pure, List.cons_append, List.nil_append,
        List.forall_mem_cons]
      exact ⟨hh, hh, hn, by rintro _ ⟨⟩⟩
    | false =>
      have hne : ys ≠ [] := fun he => hy k (by rw [he])
      obtain ⟨c, zs, rfl⟩ := List.exists_cons_of_ne_nil hne
      have hnn := hsub _ (List.mem_cons_of_mem _ List.mem_cons_self)
      have hlen : n + k < 2 ^ 31 := by omega
      intro x hx
      rw [glueNextN_notes_merged hc hys.1 (by omega) h3 (.inr (by rw [if_neg (by simp)]; dsimp only; omega))
        hlen] at hx
      rcases hx with rfl | rfl | rfl
      · exact hh
      · exact hn
      · exact hnn

/-- `glue_chunk` looks at the predecessor and, if that is free, at what follows, which may be `NULL`. -/
theorem gluePrevN_notes (hr : s.Tiled (xs ++ ⟨n, false⟩ :: ys)) :
    (∀ x ∈ (gluePrevN (shHeapStart + size xs)).notes s, x ∈ starts shHeapStart (xs ++ ⟨n, false⟩ :: ys) ∨
      x = s.mem.next (shHeapStart + size xs) ∧ ∃ ws k, xs = ws ++ [⟨k, false⟩]) ∧
    ∀ ws k, xs = ws ++ [⟨k, false⟩] →
      s.mem.next (shHeapStart + size xs) ∈ (gluePrevN (shHeapStart + size xs)).notes s := by
  have h4 : shHeapStart = 0xC0400000 := rfl
  obtain ⟨hxs, hc, -⟩ := hr.seg.middle
  have hh := mem_starts_middle shHeapStart xs ⟨n, false⟩ ys
  obtain ⟨h1, h2, h3⟩ := hr.bounds
  rcases List.eq_nil_or_concat xs with rfl | ⟨ws, ⟨k, u⟩, rfl⟩
  · have hprev : s.mem.prev (shHeapStart + size []) = 0 := hc.prev
    simp only [gluePrevN, notes_bind, notes_getField, val_getField, hprev, ne_eq, not_true, if_false, notes_pure,
      List.append_nil, List.mem_singleton, forall_eq]
    exact ⟨.inl hh, fun ws k he => absurd he (by simp)⟩
  · rw [List.concat_eq_append] at *
    obtain ⟨-, hd, -⟩ := hxs.middle
    have hqs : shHeapStart + size ws ∈ starts shHeapStart (ws ++ [⟨k, u⟩] ++ ⟨n, false⟩ :: ys) := by
      rw [List.append_assoc]
      exact mem_starts_middle ..
    have hk : 12 ≤ k := hr.header ⟨k, u⟩ (by simp)
    have hhe : shHeapStart + size (ws ++ [⟨k, u⟩]) = shHeapStart + size ws + k := by
      rw [size_append, Nat.add_assoc]
      rfl
    rw [if_pos rfl] at hd
    rw [back_concat] at hc
    rw [hhe] at hc hd hh h1 ⊢
    cases u with
    | true =>
      have hused : s.mem.allocated (shHeapStart + size ws) = 1 := hd.allocated
      have hne : shHeapStart + size ws ≠ 0 := by omega
      simp only [gluePrevN, notes_bind, notes_getField, val_getField, state_getField, hc.prev, hused, ne_eq, hne,
        not_false_eq_true, if_true, one_ne_zero, if_false, notes_pure, List.cons_append, List.nil_append,
        List.forall_mem_cons]
      exact ⟨⟨.inl hh, .inl hh, .inl hqs, by rintro _ ⟨⟩⟩, fun zs j he => absurd (List.append_inj' he rfl).2 (by simp)⟩
    | false =>
      have hiff := gluePrevN_notes_merged hd ⟨rfl, hc.prev, hc.flags⟩ (by omega) hk (by omega)
      refine ⟨fun x hx => ?_, fun _ _ _ => (hiff _).2 (.inr (.inr rfl))⟩
      rcases (hiff x).1 hx with rfl | rfl | rfl
      · exact .inl hqs
      · exact .inl hh
      · exact .inr ⟨rfl, ws, k, rfl⟩

/-- `free_chunk` looks at the predecessor, which may be `NULL`. -/
theorem freeChunkN_notes (hc : HeaderAt s.mem h n p ⟨l, false⟩) (hoff : p + 4 ≤ h) (fuel x : Nat) :
    x ∈ (freeChunkN fuel h).notes s ↔ x = h ∨ x = p := by
  have hc1 : Bytes.prev (Bytes.setNext s.mem p 0) h = p := (hc.setNext_of_ne p 0 (by omega)).prev
  unfold freeChunkN unlinkChunkN
  simp only [notes_bind, notes_ite, notes_getField, notes_setField, val_getField, state_getField, state_setField,
    hc.prev, hc1, setShHeap, pages, notes_pure, notes_silent, ite_self, List.cons_append, List.nil_append, List.mem_cons,
    List.not_mem_nil]
  tauto

/-- With a chunk behind it that stays, the links followed are those of chunks. -/
theorem glueChunkN_notes_inner (hr : s.Tiled (xs ++ ⟨n, false⟩ :: ys))
    (hfits : shHeapStart + size (xs ++ ⟨n, false⟩ :: ys) < 2 ^ 32) (hy : (absorb n ys).2 ≠ []) (fuel : Nat) :
    ∀ x ∈ (glueChunkN fuel (shHeapStart + size xs)).notes s, x ∈ starts shHeapStart (xs ++ ⟨n, false⟩ :: ys) := by
  have h4 : shHeapStart = 0xC0400000 := rfl
  have hsize := absorb_size n ys
  have hy' : ∀ k, ys ≠ [⟨k, false⟩] := by
    rintro k rfl
    exact hy rfl
  have h1 := hr.glueNext hfits
  simp only [size_append, size_cons] at hfits
  obtain ⟨h2, hc⟩ := h1.gluePrev (by simp only [size_append, size_cons]; omega)
  have hnext := h1.seg.middle.2.1.next
  rw [if_neg hy] at hnext
  obtain ⟨d, zs, hzs⟩ := List.exists_cons_of_ne_nil hy
  unfold glueChunkN
  simp only [notes_bind, notes_ite, notes_getField, notes_pure, val_getField, glueNextN_state, gluePrevN_eq, hc,
    h2.seg.middle.2.1.next, if_neg hy]
  rw [if_neg (by omega)]
  intro x hx
  simp only [List.mem_append, List.mem_singleton, List.not_mem_nil, or_false] at hx
  rcases hx with hx | hx | rfl
  · exact glueNextN_notes hr hy' x hx
  · rcases (gluePrevN_notes h1).1 x hx with hx | ⟨rfl, -⟩
    · exact absorb_starts hx
    · refine absorb_starts ?_
      dsimp only
      rw [hnext, hzs]
      exact mem_starts_right (List.mem_cons_of_mem _ List.mem_cons_self)
  · exact joinPrev_start ..

theorem glueChunkN_notes_last {k : Nat} (hr : s.Tiled (xs ++ [⟨k, true⟩] ++ [⟨n, false⟩]))
    (hfits : shHeapStart + size (xs ++ [⟨k, true⟩] ++ [⟨n, false⟩]) < 2 ^ 32) (fuel : Nat) :
    ∀ x ∈ (glueChunkN fuel (shHeapStart + size (xs ++ [⟨k, true⟩]))).notes s,
      x ∈ starts shHeapStart (xs ++ [⟨k, true⟩] ++ [⟨n, false⟩]) := by
  have h1 : Tiled { s with mem := glueNext s.mem (shHeapStart + size (xs ++ [⟨k, true⟩])) }
    (xs ++ [⟨k, true⟩] ++ [⟨n, false⟩]) := hr.glueNext hfits
  obtain ⟨h2, hc⟩ := h1.gluePrev hfits
  have hk : 12 ≤ k := hr.header ⟨k, true⟩ (by simp)
  rw [joinPrev_used] at h2 hc
  have hhead := h2.seg.middle.2.1
  rw [back_concat, if_pos rfl] at hhead
  unfold glueChunkN
  simp only [notes_bind, notes_ite, notes_getField, notes_pure, val_getField, state_getField, glueNextN_state,
    gluePrevN_eq, hc]
  rw [if_pos hhead.next]
  intro x hx
  simp only [List.mem_append, List.mem_singleton] at hx
  have hlast := mem_starts_middle shHeapStart (xs ++ [⟨k, true⟩]) ⟨n, false⟩ []
  rcases hx with hx | hx | rfl | hx
  · exact glueNextN_notes hr (by simp) x hx
  · refine ((gluePrevN_notes h1).1 x hx).elim id fun ⟨_, ws, j, he⟩ => absurd (List.append_inj' he rfl).2 (by simp)
  · exact hlast
  · rcases (freeChunkN_notes hhead (by simp; omega) fuel x).1 hx with rfl | rfl
    · exact hlast
    · rw [List.append_assoc]
      exact mem_starts_middle ..

/-- Else the link behind it or in front of it is followed, which is `NULL`. -/
theorem glueChunkN_notes_zero (hr : s.Tiled (xs ++ [⟨n, false⟩])) (hx : ∀ ws k, xs ≠ ws ++ [⟨k, true⟩])
    (hfits : shHeapStart + size (xs ++ [⟨n, false⟩]) < 2 ^ 32) (fuel : Nat) :
    0 ∈ (glueChunkN fuel (shHeapStart + size xs)).notes s := by
  have h1 : Tiled { s with mem := glueNext s.mem (shHeapStart + size xs) } (xs ++ [⟨n, false⟩]) := hr.glueNext hfits
  obtain ⟨h2, hc⟩ := h1.gluePrev hfits
  unfold glueChunkN
  simp only [notes_bind, notes_ite, notes_getField, notes_pure, val_getField, state_getField, glueNextN_state,
    gluePrevN_eq, hc, List.mem_append]
  refine .inr ?_
  rcases List.eq_nil_or_concat xs with rfl | ⟨ws, ⟨k, u⟩, rfl⟩
  · have hhead := h2.seg.middle.2.1
    rw [if_pos rfl] at hhead
    rw [if_pos hhead.next]
    exact .inr (.inr ((freeChunkN_notes hhead (show 0 + 4 ≤ shHeapStart by decide) fuel 0).2 (.inr rfl)))
  · rw [List.concat_eq_append] at *
    cases u with
    | true => exact absurd rfl (hx ws k)
    | false =>
      have hnext := (gluePrevN_notes h1).2 ws k rfl
      dsimp only at hnext
      rw [h1.seg.middle.2.1.next] at hnext
      exact .inl hnext

theorem glueChunkN_notes_end (hr : s.Tiled (xs ++ [⟨n, false⟩]))
    (hfits : shHeapStart + size (xs ++ [⟨n, false⟩]) < 2 ^ 32) (fuel : Nat) :
    ∀ x ∈ (glueChunkN fuel (shHeapStart + size xs)).notes s, x = 0 ∨ x ∈ starts shHeapStart (xs ++ [⟨n, false⟩]) := by
  have h1 : Tiled { s with mem := glueNext s.mem (shHeapStart + size xs) } (xs ++ [⟨n, false⟩]) := hr.glueNext hfits
  obtain ⟨h2, hc⟩ := h1.gluePrev hfits
  have hnext := h1.seg.middle.2.1.next
  have hhead := h2.seg.middle.2.1
  rw [if_pos rfl] at hnext hhead
  have hback := back_bounds (fun c hx => h2.header c (List.mem_append_left _ hx)) 0 shHeapStart
  have hlow : back 0 shHeapStart (joinPrev xs n).1 + 4 ≤ shHeapStart + size (joinPrev xs n).1 := by
    have h4 : shHeapStart = 0xC0400000 := rfl
    omega
  unfold glueChunkN
  simp only [notes_bind, notes_ite, notes_getField, notes_pure, val_getField, state_getField, glueNextN_state,
    gluePrevN_eq, hc]
  rw [if_pos hhead.next]
  intro x hx
  simp only [List.mem_append, List.mem_singleton] at hx
  rcases hx with hx | hx | rfl | hx
  · exact .inr (glueNextN_notes hr (by simp) x hx)
  · rcases (gluePrevN_notes h1).1 x hx with hx | ⟨rfl, -⟩
    · exact .inr hx
    · exact .inl hnext
  · exact .inr (joinPrev_start ..)
  · rcases (freeChunkN_notes hhead hlow fuel x).1 hx with rfl | rfl
    · exact .inr (joinPrev_start ..)
    · rcases hback with ⟨-, he⟩ | ⟨hne, -⟩
      · exact .inl he
      · exact .inr (joinPrev_starts _ (back_mem_starts _ hne))

/-! ### Calls on a well-formed heap -/

/-- The chunks of the list. -/
def chunks (s : Heap) : List Nat := chunksFrom s.mem (2 ^ 27) s.shHeap

theorem Tiled.chunks_eq (hr : s.Tiled cs) : s.chunks = starts shHeapStart cs := by
  unfold chunks
  rw [hr.first]
  exact chunksFrom_eq hr.seg (by decide) (hr.length_lt le_rfl)

theorem kfreeN_notes (hp : sub32 p sizeofHeapHeader = h) (x : Nat) : x ∈ (kfreeN fuel p).notes s ↔
    x = h ∨ x ∈ (glueChunkN fuel h).notes { s with mem := s.mem.setAllocated h false.toNat } := by
  simp only [kfreeN, hp, notes_bind, notes_setField, state_setField, List.mem_append, List.mem_singleton,
    Bool.toNat_false]

/-- The flag of a chunk changes neither where the chunks begin nor where they end. -/
theorem starts_mark {u : Bool} : starts a (xs ++ ⟨n, u⟩ :: ys) = starts a (xs ++ ⟨n, false⟩ :: ys) := by
  rw [starts_append, starts_append]
  rfl

theorem WellFormed.mark_fits {u : Bool} (hr : s.WellFormed (xs ++ ⟨n, u⟩ :: ys)) :
    shHeapStart + size (xs ++ ⟨n, false⟩ :: ys) < 2 ^ 32 := by
  have hmax := hr.le_max
  have hword := hr.word
  rw [size_append, size_cons] at hmax ⊢
  dsimp only at hmax ⊢
  omega

theorem kfreeN_notes_row {u : Bool} (hr : s.WellFormed (xs ++ ⟨n, u⟩ :: ys))
    (hp : sub32 p sizeofHeapHeader = shHeapStart + size xs) :
    ∀ x ∈ (kfreeN fuel p).notes s, x = 0 ∨ x ∈ starts shHeapStart (xs ++ ⟨n, u⟩ :: ys) := by
  have h1 := hr.toTiled.mark false
  intro x hx
  rw [starts_mark]
  rcases (kfreeN_notes hp x).1 hx with rfl | hx
  · exact .inr (mem_starts_middle ..)
  · by_cases hy : ys = []
    · subst hy
      exact glueChunkN_notes_end h1 hr.mark_fits fuel x hx
    · exact .inr (glueChunkN_notes_inner h1 hr.mark_fits (absorb_ne_nil hr.tidy hy n) fuel x hx)

theorem kfreeN_notes_iff {u : Bool} (hr : s.WellFormed (xs ++ ⟨n, u⟩ :: ys))
    (hp : sub32 p sizeofHeapHeader = shHeapStart + size xs) :
    (∀ x ∈ (kfreeN fuel p).notes s, x ∈ starts shHeapStart (xs ++ ⟨n, u⟩ :: ys)) ↔
      ys ≠ [] ∨ ∃ ws k, xs = ws ++ [⟨k, true⟩] := by
  have h1 := hr.toTiled.mark false
  have hfits := hr.mark_fits
  have hzero : 0 ∉ starts shHeapStart (xs ++ ⟨n, false⟩ :: ys) := fun hx => by
    have := mem_starts h1.header hx
    have h4 : shHeapStart = 0xC0400000 := rfl
    omega
  simp only [kfreeN_notes hp, starts_mark (u := u), forall_eq_or_imp]
  constructor
  · rintro ⟨-, hall⟩
    by_contra hno
    push Not at hno
    obtain ⟨rfl, hx⟩ := hno
    exact hzero (hall 0 (glueChunkN_notes_zero h1 hx hfits fuel))
  · intro hcase
    refine ⟨mem_starts_middle .., ?_⟩
    by_cases hy : ys = []
    · subst hy
      obtain ⟨ws, k, rfl⟩ := hcase.resolve_left fun h => h rfl
      exact glueChunkN_notes_last h1 hfits fuel
    · exact glueChunkN_notes_inner h1 hfits (absorb_ne_nil hr.tidy hy n) fuel

theorem splitChunkN_notes {e : Nat} (hc : HeaderAt s.mem h n p ⟨l, false⟩) (he : add32 h l = e) (len : Nat) :
    ∀ x ∈ (splitChunkN h len).notes s, x = h ∨ x = e ∧ sizeofHeapHeader < sub32 l len := by
  unfold splitChunkN
  simp only [notes_bind, notes_ite, notes_getField, notes_setField, notes_pure, val_getField, state_getField, hc.length,
    he, List.cons_append, List.nil_append, List.mem_cons]
  split_ifs with hsplit
  · simp only [List.mem_cons, List.not_mem_nil]
    tauto
  · simp

theorem chunkStartN_spec (hr : s.WellFormed cs) :
    (chunkStartN (back 0 shHeapStart cs)).val s = shHeapStart + size cs ∧
      (chunkStartN (back 0 shHeapStart cs)).state s = { s with shHeap := shHeapStart } ∧
      (chunkStartN (back 0 shHeapStart cs)).notes s = if cs = [] then [] else [back 0 shHeapStart cs] := by
  have hstart := hr.chunkStart
  unfold chunkStartN
  rcases List.eq_nil_or_concat cs with rfl | ⟨zs, c, rfl⟩
  · exact ⟨rfl, rfl, rfl⟩
  · rw [List.concat_eq_append] at *
    have hne : back 0 shHeapStart (zs ++ [c]) ≠ 0 := by
      have h4 : shHeapStart = 0xC0400000 := rfl
      rw [back_concat]
      omega
    rw [if_pos hne] at hstart ⊢
    have hs : { s with shHeap := shHeapStart } = s := by rw [← hr.shHeap_eq (by simp)]
    rw [if_neg (by simp), hs]
    exact ⟨hstart, rfl, rfl⟩

theorem appendChunkN_eq {h w : Nat} {t : Heap} {fresh : Bytes} (hr : s.WellFormed cs) (hh : shHeapStart + size cs = h)
    (ht : allocChunk fresh fuel { s with shHeap := shHeapStart } h w = some t) :
    (appendChunkN fuel fresh (back 0 shHeapStart cs) w).val s = some (add32 h sizeofHeapHeader) ∧
      (appendChunkN fuel fresh (back 0 shHeapStart cs) w).state s = (linkChunkN h (back 0 shHeapStart cs) w).state t ∧
      (appendChunkN fuel fresh (back 0 shHeapStart cs) w).notes s =
        (if cs = [] then [] else [back 0 shHeapStart cs]) ++ (linkChunkN h (back 0 shHeapStart cs) w).notes t := by
  obtain ⟨hval, hstate, hnotes⟩ := chunkStartN_spec hr
  unfold appendChunkN
  simp only [val_bind, state_bind, notes_bind, hval, hstate, hnotes, hh, pages, val_silent, state_silent, notes_silent,
    ht, Option.isSome_some, if_true, Option.getD_some, val_pure, state_pure, notes_pure, List.append_nil, List.nil_append]
  exact ⟨trivial, trivial, trivial⟩

theorem zero_not_mem_chunks (s : Heap) : 0 ∉ s.chunks := by
  have h : ∀ fuel g, 0 ∉ chunksFrom s.mem fuel g := by
    intro fuel
    induction fuel with
    | zero => exact fun g => List.not_mem_nil
    | succ fuel ih =>
      intro g
      rw [chunksFrom]
      split_ifs with hg
      · exact List.not_mem_nil
      · rw [List.mem_cons]
        exact fun h0 => h0.elim (fun h0 => hg h0.symm) (ih _)
  exact h _ _

theorem splitChunkN_mem (hr : s.WellFormed (xs ++ ⟨n, false⟩ :: ys)) (len : Nat) :
    ∀ x ∈ (splitChunkN (shHeapStart + size xs) len).notes s, x ∈ starts shHeapStart (xs ++ ⟨n, false⟩ :: ys) := by
  have hmax := hr.le_max
  have hword := hr.word
  obtain ⟨d, zs, rfl⟩ : ∃ d zs, ys = d :: zs := by
    refine List.exists_cons_of_ne_nil ?_
    rintro rfl
    exact absurd (hr.tidy.last xs ⟨n, false⟩ rfl) Bool.noConfusion
  rw [size_append, size_cons] at hmax
  dsimp only at hmax
  have he : add32 (shHeapStart + size xs) n = shHeapStart + size xs + n := Nat.mod_eq_of_lt (by omega)
  intro x hx
  rcases splitChunkN_notes hr.seg.middle.2.1 he len x hx with rfl | ⟨rfl, -⟩
  · exact mem_starts_middle ..
  · exact mem_starts_right (List.mem_cons_of_mem _ List.mem_cons_self)

/-- Where no chunk fits, the links of the loop are followed and then those of a new chunk. -/
theorem kmallocN_grow {w : Nat} (hr : s.WellFormed cs) (hw : add32 l sizeofHeapHeader = w) (hx : ∀ c ∈ cs, ¬ Fits w c)
    (hf : 2 ^ 27 ≤ fuel) (fresh : Bytes) : (kmallocN fuel fresh l).notes s = (findChunkN w fuel s.shHeap 0).notes s ++
        (appendChunkN fuel fresh (back 0 shHeapStart cs) w).notes s ∧
      (kmallocN fuel fresh l).state s = (appendChunkN fuel fresh (back 0 shHeapStart cs) w).state s ∧
      (kmallocN fuel fresh l).val s = (appendChunkN fuel fresh (back 0 shHeapStart cs) w).val s := by
  have h4 : shHeapStart = 0xC0400000 := rfl
  have hfv := findChunkN_eq s w fuel s.shHeap 0
  have hres : findChunk s.mem w fuel s.shHeap 0 = some (0, back 0 shHeapStart cs) := by
    rw [hr.first]
    exact findChunk_none hr.seg (by omega) hx (hr.length_lt hf)
  unfold kmallocN
  simp only [notes_bind, state_bind, val_bind, val_silent, state_silent, notes_silent, List.nil_append, hw, hfv, hres, ne_eq,
    not_true, if_false, and_self]

/-- Where one fits, those of the loop and then those of that chunk. -/
theorem kmallocN_found {w : Nat} (hr : s.Tiled (xs ++ ⟨n, false⟩ :: ys)) (hw : add32 l sizeofHeapHeader = w)
    (hx : ∀ c ∈ xs, ¬ Fits w c) (hl : w ≤ n) (hf : 2 ^ 27 ≤ fuel) (fresh : Bytes) :
    (findChunkN w fuel s.shHeap 0).val s = some (shHeapStart + size xs, back 0 shHeapStart xs) ∧
      (kmallocN fuel fresh l).notes s = (findChunkN w fuel s.shHeap 0).notes s ++
        (takeChunkN (shHeapStart + size xs) w).notes s ∧
      (kmallocN fuel fresh l).state s = (takeChunkN (shHeapStart + size xs) w).state s ∧
      (kmallocN fuel fresh l).val s = some (add32 (shHeapStart + size xs) sizeofHeapHeader) := by
  have h4 : shHeapStart = 0xC0400000 := rfl
  have hfv := findChunkN_eq s w fuel s.shHeap 0
  have hres := findChunk_fit hr.seg (by omega) hx hl (Nat.lt_of_le_of_lt (by simp) (hr.length_lt hf))
  have hne : shHeapStart + size xs ≠ 0 := by omega
  rw [hr.shHeap_eq (by simp)] at hfv ⊢
  refine ⟨hfv.1.trans hres, ?_⟩
  unfold kmallocN
  simp only [notes_bind, state_bind, val_bind, val_silent, state_silent, notes_silent, List.nil_append, hw,
    hr.shHeap_eq (by simp), hfv, hres, ne_eq, hne, not_false_eq_true, if_true, notes_pure,
    state_pure, val_pure, List.append_nil]
  exact ⟨trivial, trivial, rfl⟩

theorem kmallocN_found_row {w : Nat} (hr : s.WellFormed (xs ++ ⟨n, false⟩ :: ys)) (hw : add32 l sizeofHeapHeader = w)
    (hx : ∀ c ∈ xs, ¬ Fits w c) (hl : w ≤ n) (hf : 2 ^ 27 ≤ fuel) (fresh : Bytes) :
    ∀ x ∈ (kmallocN fuel fresh l).notes s, x ∈ starts shHeapStart (xs ++ ⟨n, false⟩ :: ys) := by
  have hfind := findChunkN_notes (l := w) hr.seg (by decide) fuel
  rw [← hr.first] at hfind
  obtain ⟨-, hn, -⟩ := kmallocN_found hr.toTiled hw hx hl hf fresh
  simp only [hn, takeChunkN, notes_bind, notes_setField, notes_pure, List.append_nil, List.mem_append,
    List.mem_singleton]
  rintro x (hx | hx | rfl)
  · exact hfind x hx
  · exact splitChunkN_mem hr w x hx
  · exact mem_starts_middle ..

theorem neighbour_iff {u : Bool} (hr : s.Tiled (xs ++ ⟨n, u⟩ :: ys)) (hh : shHeapStart + size xs = h) :
    (ys ≠ [] ∨ ∃ ws k, xs = ws ++ [⟨k, true⟩]) ↔
      s.mem.next h ≠ 0 ∨ s.mem.prev h ≠ 0 ∧ s.mem.allocated (s.mem.prev h) ≠ 0 := by
  subst hh
  have h4 : shHeapStart = 0xC0400000 := rfl
  obtain ⟨hxs, hc, -⟩ := hr.seg.middle
  refine or_congr ?_ ?_
  · rw [hc.next]
    split_ifs with hy
    · exact iff_of_false (fun h => h hy) fun h => h rfl
    · exact iff_of_true hy (by omega)
  · rw [hc.prev]
    rcases List.eq_nil_or_concat xs with rfl | ⟨ws, ⟨k, v⟩, rfl⟩
    · exact iff_of_false (by simp) fun h => h.1 rfl
    · rw [List.concat_eq_append] at *
      rw [back_concat, hxs.middle.2.1.allocated, and_iff_right (by omega)]
      cases v with
      | true => exact iff_of_true ⟨ws, k, rfl⟩ Nat.one_ne_zero
      | false =>
        refine iff_of_false ?_ fun h => h rfl
        rintro ⟨zs, j, he⟩
        exact absurd (List.append_inj' he rfl).2 (by simp)

end Heap
end Krypton
