import Krypton.KernelImage

/-!
# `free_pages`

`pm_alloc` decrements the counter also when the frame comes from `pm_last_page` and none leaves the stack. The counter
agrees with the stack in every state of a run exactly if no step of the run does that: neither a call of `pm_alloc` nor
the one that `mm_map` makes for a page table when `pm_free` extends the stack.
-/

namespace Krypton
namespace Pmm

/-- `free_pages` is the distance of the stack pointer from `PM_STACK_ADDR` in entries. -/
def Counts (s : Pmm) : Prop := 4 * s.freePages = (s.stackPtr + (2 ^ 32 - pmStackAddr)) % 2 ^ 32

/-- `pm_alloc` will take a frame from the stack. -/
def Pops (s : Pmm) : Prop := ¬ (s.vmOnline = 0 ∨ s.stackPtr = pmStackAddr)

/-- The steps that keep the count. A stack that is pushed to does not fill all of the address space. -/
def CountKept : Pmm × Frames → PmmOp → Prop
  | (s, _), .alloc => s.Pops
  | (s, _), .free page => ¬ s.Refuses page →
    (s.stackPtr ≥ s.stackMax → ∀ e, s.mmu.load (Mmu.pd + 4 * Mmu.pdindex s.stackPtr) = some e → present e ∨ s.Pops) ∧
      (s.stackPtr < s.stackMax → (s.stackPtr + 4) % 2 ^ 32 ≠ pmStackAddr)
  | _, _ => True

variable {s s' s₀ : Pmm} {c : Pmm × Frames} {g : Frames} {page memUpper : Nat} {ops : List PmmOp}

theorem pmAlloc_counts (hw : s.stackPtr < 2 ^ 32) (hc : s.Counts) (h : s.pmAlloc = some (page, s')) :
    s'.stackPtr < 2 ^ 32 ∧ (s'.Counts ↔ s.Pops) := by
  unfold Counts Pops at *
  unfold pmStackAddr at *
  unfold pmAlloc pmStackAddr at h
  by_cases hb : s.vmOnline = 0 ∨ s.stackPtr = 0xFF000000
  · rw [if_pos hb] at h
    obtain ⟨-, rfl⟩ := Prod.mk.inj (Option.some.inj h)
    exact ⟨hw, iff_of_false (by dsimp only; omega) (not_not.2 hb)⟩
  · rw [if_neg hb] at h
    obtain ⟨x, -, hx⟩ := Option.bind_eq_some_iff.1 h
    obtain ⟨-, rfl⟩ := Prod.mk.inj (Option.some.inj hx)
    have hne := (not_or.1 hb).2
    exact ⟨by dsimp only; omega, iff_of_true (by dsimp only; omega) hb⟩

theorem mmu_mmMap_eq {m m' : Mmu} {x r v flags : Nat} (h0 : page ≠ 0) (h : m.mmMap x page v flags = some (r, m')) :
    r = v := by
  unfold Mmu.mmMap at h
  rw [if_neg h0] at h
  obtain ⟨e, -, h⟩ := Option.bind_eq_some_iff.1 h
  dsimp only at h
  split_ifs at h
  · obtain ⟨m₁, -, h⟩ := Option.bind_eq_some_iff.1 h
    obtain ⟨m₂, -, h⟩ := Option.bind_eq_some_iff.1 h
    cases h
    rfl
  · obtain ⟨m₁, -, h⟩ := Option.bind_eq_some_iff.1 h
    obtain ⟨m₂, -, h⟩ := Option.bind_eq_some_iff.1 h
    obtain ⟨m₃, -, h⟩ := Option.bind_eq_some_iff.1 h
    cases h
    rfl

/-- `mm_map` changes the page tables; a page table that is missing costs a frame. -/
theorem mmMap_cases {r v flags : Nat} {t : Pmm} (h0 : page ≠ 0) (h : s.mmMap page v flags = some (r, t)) :
    r = v ∧ ∃ e m, s.mmu.load (Mmu.pd + 4 * Mmu.pdindex v) = some e ∧ (present e ∧ t = { s with mmu := m } ∨
      ¬ present e ∧ ∃ x u, s.pmAlloc = some (x, u) ∧ t = { u with mmu := m }) := by
  unfold mmMap at h
  rw [if_neg h0] at h
  obtain ⟨e, he, h⟩ := Option.bind_eq_some_iff.1 h
  dsimp only at h
  by_cases hp : present e
  · rw [if_neg (not_not.2 hp)] at h
    obtain ⟨⟨x, u⟩, hu, h⟩ := Option.bind_eq_some_iff.1 h
    cases hu
    obtain ⟨⟨y, m⟩, hm, ht⟩ := Option.bind_eq_some_iff.1 h
    cases ht
    exact ⟨mmu_mmMap_eq h0 hm, e, m, he, .inl ⟨hp, rfl⟩⟩
  · rw [if_pos hp] at h
    obtain ⟨⟨x, u⟩, hu, h⟩ := Option.bind_eq_some_iff.1 h
    obtain ⟨⟨y, m⟩, hm, ht⟩ := Option.bind_eq_some_iff.1 h
    cases ht
    exact ⟨mmu_mmMap_eq h0 hm, e, m, he, .inr ⟨hp, x, u, hu, rfl⟩⟩

theorem pmFree_counts (hw : s.stackPtr < 2 ^ 32) (hc : s.Counts) (h : s.pmFree page = some s') (g : Frames) :
    s'.stackPtr < 2 ^ 32 ∧ (s'.Counts ↔ CountKept (s, g) (.free page)) := by
  unfold pmFree at h
  by_cases hr : s.Refuses page
  · rw [if_pos hr] at h
    cases h
    exact ⟨hw, iff_of_true hc fun hx => absurd hr hx⟩
  rw [if_neg hr] at h
  by_cases hfull : s.stackPtr ≥ s.stackMax
  · -- the frame is mapped behind the stack; only the page table may cost one
    rw [if_pos hfull] at h
    obtain ⟨⟨r, t⟩, ht, hs'⟩ := Option.bind_eq_some_iff.1 h
    cases hs'
    have h0 : page ≠ 0 := by
      rintro rfl
      exact hr (.inr (.inr (by decide)))
    obtain ⟨-, e, m, he, hcase⟩ := mmMap_cases h0 ht
    have hkept : CountKept (s, g) (.free page) ↔ present e ∨ s.Pops := by
      refine ⟨fun hk => (hk hr).1 hfull e he, fun hk _ => ⟨fun _ e' he' => ?_, fun hlt => ?_⟩⟩
      · obtain rfl := Option.some.inj (he.symm.trans he')
        exact hk
      · exact absurd hlt (Nat.not_lt.2 hfull)
    rw [hkept]
    rcases hcase with ⟨hp, rfl⟩ | ⟨hp, x, u, hu, rfl⟩
    · exact ⟨hw, iff_of_true hc (.inl hp)⟩
    · rw [or_iff_right hp]
      have hcount := pmAlloc_counts hw hc hu
      exact hcount
  · rw [if_neg hfull] at h
    obtain ⟨m, -, hm⟩ := Option.bind_eq_some_iff.1 h
    cases hm
    have hkept : CountKept (s, g) (.free page) ↔ (s.stackPtr + 4) % 2 ^ 32 ≠ pmStackAddr :=
      ⟨fun hk => (hk hr).2 (Nat.lt_of_not_le hfull), fun hk _ => ⟨fun hge => absurd hge hfull, fun _ => hk⟩⟩
    rw [hkept]
    unfold Counts pmStackAddr at *
    dsimp only
    omega

theorem pmmStep_counts {op : PmmOp} {c' : Pmm × Frames} (hw : c.1.stackPtr < 2 ^ 32) (hc : c.1.Counts)
    (h : pmmStep c op = some c') : c'.1.stackPtr < 2 ^ 32 ∧ (c'.1.Counts ↔ CountKept c op) := by
  obtain ⟨s, g⟩ := c
  cases op with
  | alloc =>
    obtain ⟨⟨page, s'⟩, hs, rfl⟩ := Option.map_eq_some_iff.1 h
    exact pmAlloc_counts hw hc hs
  | free page =>
    obtain ⟨s', hs, rfl⟩ := Option.map_eq_some_iff.1 h
    exact pmFree_counts hw hc hs g
  | online =>
    cases h
    exact ⟨hw, iff_of_true hc trivial⟩
  | write p x =>
    cases h
    exact ⟨hw, iff_of_true hc trivial⟩

/-- What `mm_init` leaves: no frame counted, and the stack at its place unless it got no frame for it. -/
theorem initStack_count (h : s.initStack memUpper = some s₀) :
    s₀.freePages = 0 ∧ (s₀.stackPtr = pmStackAddr ∨ s₀.stackPtr = 0) := by
  unfold initStack at h
  obtain ⟨⟨page, t⟩, ht, h⟩ := Option.bind_eq_some_iff.1 h
  obtain ⟨⟨r, u⟩, hu, h⟩ := Option.bind_eq_some_iff.1 h
  cases h
  refine ⟨rfl, ?_⟩
  show r = pmStackAddr ∨ r = 0
  by_cases h0 : page = 0
  · unfold mmMap at hu
    rw [if_pos h0] at hu
    cases hu
    exact .inr rfl
  · exact .inl (mmMap_cases h0 hu).1

/-- **`free_pages` counts the stack** in every state of a run exactly if `mm_init` got a frame for the stack, every call
of `pm_alloc` takes its frame from the stack, and so does `pm_free` where it needs a page table. A counter that agrees
with the stack is below `2 ^ 30`, so it has not wrapped. -/
theorem free_pages_counted_iff (h₀ : s.initStack memUpper = some s₀) (h : exec pmmStep (s₀, g) ops = some c) :
    Always pmmStep (fun c => c.1.Counts) (s₀, g) ops ↔
      s₀.stackPtr = pmStackAddr ∧ Meets pmmStep CountKept (s₀, g) ops := by
  obtain ⟨hfree, hptr⟩ := initStack_count h₀
  by_cases hp : s₀.stackPtr = pmStackAddr
  · rw [and_iff_right hp]
    have hcount : s₀.Counts := by
      unfold Counts
      rw [hfree, hp]
      decide
    have hword : s₀.stackPtr < 2 ^ 32 := by
      rw [hp]
      decide
    refine always_iff_meets (I := fun c => c.1.stackPtr < 2 ^ 32) (fun c op c' hw hc _ hs => ?_)
      (fun c op c' hw hc hs => ?_) hword hcount h
    · exact (pmmStep_counts hw hc hs).1
    · exact (pmmStep_counts hw hc hs).2
  · refine iff_of_false (fun hall => ?_) fun hall => hp hall.1
    have hcount : s₀.Counts := hall.head
    unfold Counts at hcount
    rw [hfree, hptr.resolve_left hp] at hcount
    exact absurd hcount (by decide)

/-- The first frame extends the stack and is not counted; the second is counted, and taken again. -/
theorem free_pages_counted_iff_popped : ∃ s c, bootImage.initStack 64512 = some s ∧
    exec pmmStep (s, Frames.start 0) [.free 0x300000, .free 0x301000, .online, .alloc] = some c ∧
    Always pmmStep (fun c => c.1.Counts) (s, Frames.start 0) [.free 0x300000, .free 0x301000, .online, .alloc] := by
  obtain ⟨s, s₁, s₂, s₃, hs, hready, -, h1, hstack₁, h2, hstack₂, h3⟩ :=
    bootImage_second 0x301000 (by decide) (.inr (by decide)) (by decide)
  have hstep₁ := pmmStep_free (Frames.start 0) h1
  have hstep₂ := fun g => pmmStep_free g h2
  have hstep₃ := fun g => pmmStep_alloc g h3
  obtain ⟨c, hrun⟩ : ∃ c,
      exec pmmStep (s, Frames.start 0) [.free 0x300000, .free 0x301000, .online, .alloc] = some c := by
    rw [exec, hstep₁, Option.bind_some, exec, hstep₂, Option.bind_some, exec, pmmStep, Option.bind_some, exec, hstep₃]
    exact ⟨_, rfl⟩
  refine ⟨s, c, hs, hrun, (free_pages_counted_iff hs hrun).2 ⟨hready.ptr, ?_, ?_⟩⟩
  · refine fun _ => ⟨fun _ e he => ?_, fun hlt => ?_⟩
    · have h1020 : Mmu.pdindex pmStackAddr = 1020 := by decide
      rw [hready.ptr, h1020, hready.load_pd (by decide)] at he
      exact .inl (Option.some.inj he ▸ hready.table)
    · rw [hready.ptr, hready.max] at hlt
      exact absurd hlt (Nat.lt_irrefl _)
  rintro _ hc₁
  cases hstep₁.symm.trans hc₁
  refine ⟨fun _ => ⟨fun hge => ?_, fun _ => ?_⟩, ?_⟩
  · rw [hstack₁.ptr, hstack₁.max] at hge
    exact absurd hge (by decide)
  · rw [hstack₁.ptr]
    decide
  rintro _ hc₂
  cases (hstep₂ _).symm.trans hc₂
  refine ⟨trivial, ?_⟩
  rintro _ hc₃
  cases hc₃
  refine ⟨?_, fun _ _ => trivial⟩
  rintro (hoff | hempty)
  · exact Nat.one_ne_zero hoff
  · exact absurd (hstack₂.ptr.symm.trans hempty) (by decide)

/-- The stack is empty and the counter is `2 ^ 32 - 1`. -/
theorem free_pages_wraps : ∃ s page s', bootImage.initStack 64512 = some s ∧ s.pmAlloc = some (page, s') ∧
    s'.stackPtr = pmStackAddr ∧ s'.freePages = 2 ^ 32 - 1 := by
  obtain ⟨s, hs, hready, hboot, -⟩ := bootImage_ready
  have hfree := (initStack_count hs).1
  have halloc : s.pmAlloc = some _ := if_pos (.inl hboot)
  refine ⟨s, _, _, hs, halloc, hready.ptr, ?_⟩
  show (s.freePages + (2 ^ 32 - 1)) % 2 ^ 32 = 2 ^ 32 - 1
  omega

end Pmm
end Krypton
