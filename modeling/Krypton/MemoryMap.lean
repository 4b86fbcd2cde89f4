import Krypton.Lib.Counted
import Krypton.Lib.Words
import Krypton.Exhaustion

/-!
# `pmm.c`: the memory map

The two loops of `mm_init` over the entries the boot loader left. They use the low words of base and length only. The
map is read as it was at the start: it lies in memory the stack does not take. An inner loop that ends calls `pm_free`
for the `pages` of its entry, so the outer one is a fold over all that are `offered`.
-/

namespace Krypton

def maxRamPages : Nat := 0xA0000

structure MmapEntry where
  size : Nat
  baseAddrLow : Nat
  baseAddrHigh : Nat
  lengthLow : Nat
  lengthHigh : Nat
  type : Nat

namespace MmapEntry

/-- The entry at `i`. -/
def read (m : Bytes) (i : Nat) : MmapEntry where
  size := load32 m i
  baseAddrLow := load32 m (i + 4)
  baseAddrHigh := load32 m (i + 8)
  lengthLow := load32 m (i + 12)
  lengthHigh := load32 m (i + 16)
  type := load32 m (i + 20)

def base (me : MmapEntry) : Nat := me.baseAddrHigh * 2 ^ 32 + me.baseAddrLow
def length (me : MmapEntry) : Nat := me.lengthHigh * 2 ^ 32 + me.lengthLow

/-- `me->base_addr_low + me->length_low`. -/
def endLow (me : MmapEntry) : Nat := (me.baseAddrLow + me.lengthLow) % 2 ^ 32

/-- The pages of the inner loop, if it ends. -/
def pages (me : MmapEntry) : List Nat := counted 0x1000 me.baseAddrLow me.endLow

def Ends (me : MmapEntry) : Prop := Leaves (2 ^ 32) 0x1000 me.baseAddrLow me.endLow

instance (me : MmapEntry) : Decidable me.Ends := inferInstanceAs (Decidable (Leaves _ _ _ _))

end MmapEntry

namespace Pmm

/-- The body of the inner loop: the counter `ram_pages`, and `pm_free`. -/
def offer (c : Nat × Pmm) (j : Nat) : Option (Nat × Pmm) :=
  let ramPages := (c.1 + 1) % 2 ^ 32
  if ramPages ≥ maxRamPages then some (ramPages, c.2)
  else (c.2.pmFree j).map fun s => (ramPages, s)

/-- The inner loop. -/
def freeEntry (fuel : Nat) (me : MmapEntry) (c : Nat × Pmm) : Option (Nat × Pmm) :=
  forLoop (2 ^ 32) 0x1000 me.endLow offer fuel me.baseAddrLow c

/-- The outer loop, with `i` at an entry. -/
def mmapLoop (m : Bytes) (stop : Nat) : Nat → Nat → Nat × Pmm → Option (Nat × Pmm)
  | 0, _, _ => none
  | fuel + 1, i, c =>
    if i < stop then do
      let me := MmapEntry.read m i
      let c ← if me.type = 1 then freeEntry fuel me c else some c
      mmapLoop m stop fuel ((i + (me.size + 4)) % 2 ^ 32) c
    else some c

/-- `mm_init` behind `init_paging`, up to the heap. -/
def mmInit (s : Pmm) (m : Bytes) (memUpper mmapAddr mmapLength fuel : Nat) : Option Pmm := do
  let s ← s.initStack memUpper
  let (_, s) ← mmapLoop m ((mmapAddr + mmapLength) % 2 ^ 32) fuel mmapAddr (0, s)
  some { s with vmOnline := 1 }

end Pmm

/-- The entries from `i` to `stop`, one behind the other. -/
def Laid (m : Bytes) : Nat → List MmapEntry → Nat → Prop
  | i, [], stop => i = stop
  | i, me :: mes, stop => me = .read m i ∧ Laid m (i + (me.size + 4)) mes stop

/-- All pages of the loops, with their entries. -/
def offered (mes : List MmapEntry) : List (MmapEntry × Nat) :=
  mes.flatMap fun me => if me.type = 1 then me.pages.map fun p => (me, p) else []

section
variable {m : Bytes} {i stop fuel fuel' p : Nat} {me : MmapEntry} {mes : List MmapEntry} {c c' : Nat × Pmm}

theorem mem_offered {x : MmapEntry × Nat} : x ∈ offered mes ↔ x.1 ∈ mes ∧ x.1.type = 1 ∧ x.2 ∈ x.1.pages := by
  obtain ⟨me, p⟩ := x
  unfold offered
  rw [List.mem_flatMap]
  constructor
  · rintro ⟨me', hme, hx⟩
    split_ifs at hx with ht
    · obtain ⟨q, hq, he⟩ := List.mem_map.1 hx
      cases he
      exact ⟨hme, ht, hq⟩
    · cases hx
  · rintro ⟨hme, ht, hp⟩
    exact ⟨me, hme, by rw [if_pos ht]; exact List.mem_map.2 ⟨p, hp, rfl⟩⟩

theorem Laid.le (h : Laid m i mes stop) : i ≤ stop := by
  induction mes generalizing i with
  | nil => exact Nat.le_of_eq h
  | cons me mes ih => exact Nat.le_trans (by omega) (ih h.2)

namespace Pmm

theorem foldlM_pages (me : MmapEntry) (c : Nat × Pmm) :
    (me.pages.map fun p => (me, p)).foldlM (fun c x => offer c x.2) c = me.pages.foldlM offer c := List.foldlM_map

theorem mmapLoop_entry (hlt : i < stop) (hstop : stop < 2 ^ 32) (hme : me = .read m i)
    (hnext : i + (me.size + 4) ≤ stop) : mmapLoop m stop (fuel + 1) i c =
      (if me.type = 1 then freeEntry fuel me c else some c).bind fun c =>
        mmapLoop m stop fuel (i + (me.size + 4)) c := by
  rw [mmapLoop, if_pos hlt]
  dsimp only
  rw [← hme, Nat.mod_eq_of_lt (Nat.lt_of_le_of_lt hnext hstop)]
  by_cases ht : me.type = 1
  · rw [if_pos ht, if_pos ht]
    rfl
  · rw [if_neg ht, if_neg ht]
    rfl

theorem mmapLoop_stop : mmapLoop m stop (fuel + 1) stop c = some c := by
  unfold mmapLoop
  rw [if_neg (Nat.lt_irrefl _)]

theorem mmapLoop_some (h : Laid m i mes stop) (hstop : stop < 2 ^ 32) (hs : mmapLoop m stop fuel i c = some c') :
    (∀ me ∈ mes, me.type = 1 → me.Ends) ∧ (offered mes).foldlM (fun c x => offer c x.2) c = some c' := by
  induction mes generalizing i c fuel with
  | nil =>
    obtain rfl := (h : i = stop)
    refine ⟨fun me hme => absurd hme List.not_mem_nil, ?_⟩
    cases fuel with
    | zero => cases hs
    | succ fuel => rwa [mmapLoop_stop] at hs
  | cons me mes ih =>
    cases fuel with
    | zero => cases hs
    | succ fuel =>
      have hle := h.2.le
      rw [mmapLoop_entry (by omega) hstop h.1 hle] at hs
      obtain ⟨c₁, h1, h2⟩ := Option.bind_eq_some_iff.1 hs
      obtain ⟨hends, hfold⟩ := ih h.2 h2
      rw [List.forall_mem_cons]
      unfold offered at hfold ⊢
      rw [List.flatMap_cons, List.foldlM_append]
      by_cases ht : me.type = 1
      · rw [if_pos ht] at h1 ⊢
        have hb : me.baseAddrLow < 2 ^ 32 := by
          rw [h.1]
          exact load32_lt _ _
        obtain ⟨hl, hpages⟩ := forLoop_some (by decide) (by decide) hb h1
        refine ⟨⟨fun _ => hl, hends⟩, ?_⟩
        rw [foldlM_pages]
        exact Option.bind_eq_some_iff.2 ⟨c₁, hpages, hfold⟩
      · rw [if_neg ht] at h1 ⊢
        cases h1
        exact ⟨⟨fun hx => absurd hx ht, hends⟩, hfold⟩

theorem mmapLoop_enough (h : Laid m i mes stop) (hstop : stop < 2 ^ 32) (hends : ∀ me ∈ mes, me.type = 1 → me.Ends)
    (hfold : (offered mes).foldlM (fun c x => offer c x.2) c = some c') :
    ∃ n, ∀ fuel ≥ n, mmapLoop m stop fuel i c = some c' := by
  induction mes generalizing i c with
  | nil =>
    obtain rfl := (h : i = stop)
    refine ⟨1, fun fuel hn => ?_⟩
    obtain ⟨k, rfl⟩ : ∃ k, fuel = k + 1 := ⟨fuel - 1, by omega⟩
    rw [mmapLoop_stop]
    exact hfold
  | cons me mes ih =>
    unfold offered at hfold
    rw [List.flatMap_cons, List.foldlM_append] at hfold
    obtain ⟨c₁, h1, h2⟩ := Option.bind_eq_some_iff.1 hfold
    rw [List.forall_mem_cons] at hends
    obtain ⟨n, hn⟩ := ih h.2 hends.2 h2
    have hle := h.2.le
    refine ⟨max n (me.pages.length + 1) + 1, fun fuel hf => ?_⟩
    obtain ⟨k, rfl⟩ : ∃ k, fuel = k + 1 := ⟨fuel - 1, by omega⟩
    rw [mmapLoop_entry (by omega) hstop h.1 hle]
    refine Option.bind_eq_some_iff.2 ⟨c₁, ?_, hn k (by omega)⟩
    by_cases ht : me.type = 1
    · rw [if_pos ht, foldlM_pages] at h1
      have hlen : me.pages.length < k := by omega
      rw [if_pos ht]
      exact (forLoop_eq (by decide) (by decide) (hends.1 ht) hlen).trans h1
    · rw [if_neg ht] at h1 ⊢
      exact h1

end Pmm
end

end Krypton
