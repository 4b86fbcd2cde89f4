import Krypton.Mmu
import Krypton.Lib.Reach
import Mathlib.Tactic.Set
import Mathlib.Tactic.SplitIfs

/-!
# The page tables as a partial map

A slot other than 0, 768 and 1023 has a page table of its own, so an edit of one entry changes the
translation of one page, and a new page table changes none (`Tables`). `Maps s A` says that the walk computes the
finite map `A`; `mm_map` and `mm_unmap` act on it as updates.
-/

namespace Krypton
namespace Mmu

variable {s s' : Mmu} {i j k l n p v x page : Nat}

/-- The slots whose page table is shared with no other slot. -/
structure Ordinary (i : Nat) : Prop where
  lt : i < 1024
  zero : i ≠ 0
  kernel : i ≠ 768
  self : i ≠ 1023

/-- The directory is its own last page table. -/
structure SelfMapped (s : Mmu) : Prop where
  cr3 : s.cr3 % 4096 = 0
  here : present (s.pde 1023)
  frame : frame (s.pde 1023) = s.cr3

structure Tables (s : Mmu) : Prop extends SelfMapped s where
  own : ∀ i j, Ordinary i → j < 1024 → present (s.pde i) → present (s.pde j) →
    Krypton.frame (s.pde i) = Krypton.frame (s.pde j) → i = j

/-- A store at physical address `p`. -/
def set (s : Mmu) (p x : Nat) : Mmu := { s with phys := Function.update s.phys p x }

/-! ### The windows -/

theorem ptindex_lt (v : Nat) : ptindex v < 1024 := by
  unfold ptindex; omega

theorem window (hi : i < 1024) (hj : j < 1024) :
    pdindex (pt i + 4 * j) = 1023 ∧ ptindex (pt i + 4 * j) = i ∧ (pt i + 4 * j) % 4096 = 4 * j := by
  unfold pdindex ptindex pt
  omega

theorem pt_self : pt 1023 = pd := rfl

namespace SelfMapped

theorem of_pde (h : s.SelfMapped) (hc : s'.cr3 = s.cr3) (hd : s'.pde 1023 = s.pde 1023) : s'.SelfMapped :=
  ⟨hc ▸ h.cr3, hd ▸ h.here, by rw [hd, hc]; exact h.frame⟩

theorem pte_eq (h : s.SelfMapped) (i : Nat) : s.pte 1023 i = s.pde i := by
  unfold pte
  rw [h.frame]
  unfold pde
  rw [frame_of_mod h.cr3]

theorem walk_pt (h : s.SelfMapped) (hi : i < 1024) (hj : j < 1024) (hp : present (s.pde i)) :
    s.walk (pt i + 4 * j) = some (Krypton.frame (s.pde i) + 4 * j) := by
  obtain ⟨h1, h2, h3⟩ := window hi hj
  unfold walk
  rw [h1, h2, h3, h.pte_eq, if_pos ⟨h.here, hp⟩]

theorem load_pt (h : s.SelfMapped) (hi : i < 1024) (hj : j < 1024) (hp : present (s.pde i)) :
    s.load (pt i + 4 * j) = some (s.pte i j) := by
  unfold load
  rw [h.walk_pt hi hj hp]
  rfl

theorem store_pt (h : s.SelfMapped) (hi : i < 1024) (hj : j < 1024) (hp : present (s.pde i)) (x : Nat) :
    s.store (pt i + 4 * j) x = some (s.set (Krypton.frame (s.pde i) + 4 * j) x) := by
  unfold store
  rw [h.walk_pt hi hj hp]
  rfl

theorem load_pd (h : s.SelfMapped) (hi : i < 1024) : s.load (pd + 4 * i) = some (s.pde i) := by
  rw [← pt_self, h.load_pt (by decide) hi h.here, h.pte_eq]

theorem store_pd (h : s.SelfMapped) (hi : i < 1024) (x : Nat) :
    s.store (pd + 4 * i) x = some (s.set (s.cr3 + 4 * i) x) := by
  rw [← pt_self, h.store_pt (by decide) hi h.here, h.frame]

end SelfMapped

/-! ### Stores and entries -/

theorem set_phys (s : Mmu) (p x q : Nat) : (s.set p x).phys q = if q = p then x else s.phys q :=
  Function.update_apply s.phys p x q

theorem word_ne {f g : Nat} (hf : f % 4096 = 0) (hg : g % 4096 = 0) (hne : f ≠ g) (hi : i < 1024)
    (hj : j < 1024) : f + 4 * i ≠ g + 4 * j := by
  omega

theorem pde_set_dir (h : s.SelfMapped) (k : Nat) :
    (s.set (s.cr3 + 4 * i) x).pde k = if k = i then x else s.pde k := by
  unfold pde
  show (s.set (s.cr3 + 4 * i) x).phys (frame s.cr3 + 4 * k) = _
  rw [set_phys, frame_of_mod h.cr3]
  by_cases hk : k = i
  · rw [if_pos hk, if_pos (by rw [hk])]
  · rw [if_neg hk, if_neg (by omega)]

theorem pde_set (h : s.SelfMapped) (hf : p % 4096 = 0) (hne : p ≠ s.cr3) (hj : j < 1024) (hk : k < 1024) :
    (s.set (p + 4 * j) x).pde k = s.pde k := by
  unfold pde
  show (s.set (p + 4 * j) x).phys (frame s.cr3 + 4 * k) = _
  rw [set_phys, frame_of_mod h.cr3, if_neg (word_ne h.cr3 hf hne.symm hk hj)]

theorem Tables.frame_ne_cr3 (h : s.Tables) (hi : Ordinary i) (hp : present (s.pde i)) :
    Krypton.frame (s.pde i) ≠ s.cr3 := by
  intro he
  exact hi.self (h.own i 1023 hi (by decide) hp h.here (he.trans h.frame.symm))

/-! ### An entry of a table is written -/

namespace Tables

theorem pde_setEntry (h : s.Tables) (hi : Ordinary i) (hp : present (s.pde i)) (hj : j < 1024) (hk : k < 1024) :
    (s.set (Krypton.frame (s.pde i) + 4 * j) x).pde k = s.pde k :=
  pde_set h.toSelfMapped (frame_mod _) (h.frame_ne_cr3 hi hp) hj hk

theorem pte_setEntry (h : s.Tables) (hi : Ordinary i) (hp : present (s.pde i)) (hj : j < 1024) (hk : k < 1024)
    (hpk : present (s.pde k)) (hl : l < 1024) :
    (s.set (Krypton.frame (s.pde i) + 4 * j) x).pte k l = if k = i ∧ l = j then x else s.pte k l := by
  unfold pte
  rw [h.pde_setEntry hi hp hj hk, set_phys]
  by_cases hki : k = i
  · subst hki
    by_cases hlj : l = j
    · rw [if_pos (by rw [hlj]), if_pos ⟨rfl, hlj⟩]
    · rw [if_neg (by omega), if_neg fun hx => hlj hx.2]
  · have hne : Krypton.frame (s.pde k) ≠ Krypton.frame (s.pde i) := fun he =>
      hki (h.own i k hi hk hp hpk he.symm).symm
    rw [if_neg (word_ne (frame_mod _) (frame_mod _) hne hl hj), if_neg fun hx => hki hx.1]

theorem of_pde (h : s.Tables) (hc : s'.cr3 = s.cr3) (hd : ∀ k < 1024, s'.pde k = s.pde k) : s'.Tables := by
  refine ⟨h.toSelfMapped.of_pde hc (hd 1023 (by decide)), ?_⟩
  intro i j hi hj hpi hpj he
  rw [hd i hi.lt] at hpi he
  rw [hd j hj] at hpj he
  exact h.own i j hi hj hpi hpj he

theorem setEntry (h : s.Tables) (hi : Ordinary i) (hp : present (s.pde i)) (hj : j < 1024) :
    (s.set (Krypton.frame (s.pde i) + 4 * j) x).Tables :=
  h.of_pde rfl fun _ hk => h.pde_setEntry hi hp hj hk

end Tables

/-! ### A page table is made -/

/-- `memset` in the window of a table: the words of the table's frame. -/
theorem SelfMapped.memset (h : s.SelfMapped) (hi : i < 1024) (hp : present (s.pde i))
    (hf : Krypton.frame (s.pde i) ≠ s.cr3) (hk : k + n ≤ 1024) :
    ∃ s', Mmu.memset n s (pt i + 4 * k) = some s' ∧ s'.cr3 = s.cr3 ∧ ∀ p, s'.phys p =
      if Krypton.frame (s.pde i) + 4 * k ≤ p ∧ p < Krypton.frame (s.pde i) + 4 * (k + n) ∧ p % 4 = 0 then 0
      else s.phys p := by
  induction n generalizing s k with
  | zero =>
    exact ⟨s, rfl, rfl, fun p => (if_neg (by omega)).symm⟩
  | succ n ih =>
    have hk' : k < 1024 := by omega
    have hmod := frame_mod (s.pde i)
    set s₁ := s.set (Krypton.frame (s.pde i) + 4 * k) 0
    have hd : ∀ l < 1024, s₁.pde l = s.pde l := fun l hl => pde_set h (frame_mod _) hf hk' hl
    have h₁ : s₁.SelfMapped := h.of_pde rfl (hd 1023 (by decide))
    have hpi := hd i hi
    obtain ⟨s', hs', hc, hphys⟩ := ih h₁ (by rwa [hpi]) (by rw [hpi]; exact hf) (k := k + 1) (by omega)
    refine ⟨s', ?_, hc, fun p => ?_⟩
    · have hnext : pt i + 4 * k + 4 = pt i + 4 * (k + 1) := by omega
      rw [Mmu.memset, h.store_pt hi hk' hp, Option.bind_some, hnext]
      exact hs'
    · rw [hphys, hpi, set_phys]
      by_cases hpk : p = Krypton.frame (s.pde i) + 4 * k
      · rw [if_pos hpk, ite_self, if_pos (by omega)]
      · rw [if_neg hpk]
        exact if_congr (by omega) rfl rfl

/-- A page that is neither the directory nor a page table. -/
structure FreshPage (s : Mmu) (page : Nat) : Prop where
  aligned : page % 4096 = 0
  dir : page ≠ s.cr3
  table : ∀ k < 1024, present (s.pde k) → page ≠ Krypton.frame (s.pde k)

theorem SelfMapped.create (h : s.SelfMapped) (hi : i < 1023) (hmod : page % 4096 = 0) (hdir : page ≠ s.cr3)
    (hx : Krypton.frame x = page) (hpx : present x) :
    ∃ s', (s.store (pd + 4 * i) x).bind (fun s => Mmu.memset 1024 s (pt i)) = some s' ∧ s'.SelfMapped ∧
      s'.cr3 = s.cr3 ∧ (∀ k < 1024, s'.pde k = if k = i then x else s.pde k) ∧
      ∀ p, s'.phys p = if page ≤ p ∧ p < page + 4 * 1024 ∧ p % 4 = 0 then 0 else (s.set (s.cr3 + 4 * i) x).phys p := by
  set s₁ := s.set (s.cr3 + 4 * i) x
  have hd₁ : ∀ k, s₁.pde k = if k = i then x else s.pde k := pde_set_dir h
  have hi₁ : s₁.pde i = x := (hd₁ i).trans (if_pos rfl)
  have h₁ : s₁.SelfMapped := h.of_pde rfl ((hd₁ 1023).trans (if_neg (by omega)))
  obtain ⟨s₂, hs₂, hc, hphys⟩ := h₁.memset (by omega : i < 1024) (by rwa [hi₁]) (by rw [hi₁, hx]; exact hdir)
    (k := 0) (n := 1024) (by omega)
  rw [hi₁, hx] at hphys
  simp only [Nat.mul_zero, Nat.add_zero, Nat.zero_add] at hs₂ hphys
  have hd₂ : ∀ k < 1024, s₂.pde k = if k = i then x else s.pde k := by
    intro k hk
    rw [← hd₁ k]
    unfold pde
    have hcr : Krypton.frame s₁.cr3 = s.cr3 := frame_of_mod h.cr3
    have := h.cr3
    rw [hc, hphys, hcr, if_neg (by omega)]
  have h1023 : s₂.pde 1023 = s.pde 1023 := (hd₂ 1023 (by decide)).trans (if_neg (by omega))
  refine ⟨s₂, ?_, h.of_pde hc h1023, hc, hd₂, hphys⟩
  rw [h.store_pd (by omega), Option.bind_some]
  exact hs₂

theorem Tables.create (h : s.Tables) (hi : Ordinary i) (hpage : s.FreshPage page) (hx : Krypton.frame x = page)
    (hpx : present x) :
    ∃ s', (s.store (pd + 4 * i) x).bind (fun s => Mmu.memset 1024 s (pt i)) = some s' ∧ s'.Tables ∧
      s'.cr3 = s.cr3 ∧ (∀ k < 1024, s'.pde k = if k = i then x else s.pde k) ∧
      ∀ k l, Ordinary k → l < 1024 → present (s'.pde k) → s'.pte k l = if k = i then 0 else s.pte k l := by
  have hlt : i < 1023 := Nat.lt_of_le_of_ne (Nat.le_of_lt_succ hi.lt) hi.self
  obtain ⟨s₂, hs₂, hself, hc, hd₂, hphys⟩ := h.toSelfMapped.create hlt hpage.aligned hpage.dir hx hpx
  refine ⟨s₂, hs₂, ⟨hself, ?_⟩, hc, hd₂, ?_⟩
  · -- the new table is not shared
    intro a b ha hb hpa hpb he
    rw [hd₂ a ha.lt] at hpa he
    rw [hd₂ b hb] at hpb he
    split_ifs at hpa hpb he with h1 h2 h3
    · exact h1.trans h2.symm
    · exact absurd (hx.symm.trans he) (hpage.table b hb hpb)
    · exact absurd (hx.symm.trans he.symm) (hpage.table a ha.lt hpa)
    · exact h.own a b ha hb hpa hpb he
  · intro k l hk hl hpk
    have hmod := hpage.aligned
    unfold pte
    rw [hd₂ k hk.lt] at hpk ⊢
    by_cases hki : k = i
    · rw [if_pos hki, if_pos hki, hx, hphys, if_pos (by omega)]
    · rw [if_neg hki] at hpk ⊢
      have hne := hpage.table k hk.lt hpk
      have hmod' := frame_mod (s.pde k)
      rw [hphys, if_neg (by omega), set_phys, if_neg hki, if_neg]
      exact word_ne (frame_mod _) h.cr3 (h.frame_ne_cr3 hk hpk) hl hi.lt

namespace SelfMapped
variable {physaddr flags : Nat}

theorem mmMap_eq (h : s.SelfMapped) (hv : pdindex v < 1024) (hp : present (s.pde (pdindex v))) (h0 : physaddr ≠ 0)
    (page flags : Nat) : s.mmMap page physaddr v flags =
      some (v, s.set (Krypton.frame (s.pde (pdindex v)) + 4 * ptindex v) (physaddr ||| (flags &&& 0xFFF) ||| 0x01)) := by
  unfold Mmu.mmMap
  rw [if_neg h0, h.load_pd hv]
  simp only [Option.bind_eq_bind, Option.bind_some]
  rw [if_neg (not_not.2 hp), h.store_pt hv (ptindex_lt v) hp]
  rfl

theorem mmMap_create (h : s.SelfMapped) (h' : s'.SelfMapped) (hv : pdindex v < 1024)
    (hp : ¬ present (s.pde (pdindex v))) (hp' : present (s'.pde (pdindex v))) (h0 : physaddr ≠ 0)
    (hs : (s.store (pd + 4 * pdindex v) (page ||| (flags &&& 0xFFF) ||| 0x01)).bind
      (fun s => Mmu.memset 1024 s (pt (pdindex v))) = some s') :
    s.mmMap page physaddr v flags = s'.mmMap page physaddr v flags := by
  rw [h'.mmMap_eq hv hp' h0]
  unfold Mmu.mmMap
  rw [if_neg h0, h.load_pd hv]
  simp only [Option.bind_eq_bind, Option.bind_some]
  rw [if_pos hp, ← Option.bind_assoc, hs, Option.bind_some, h'.store_pt hv (ptindex_lt v) hp']
  rfl

end SelfMapped

/-- `mm_map`: the entry of the page, in a new table that is otherwise empty if there was none. -/
theorem Tables.mmMap {physaddr : Nat} (h : s.Tables) (flags : Nat) (hv : Ordinary (pdindex v)) (h0 : physaddr ≠ 0)
    (hpage : ¬ present (s.pde (pdindex v)) → s.FreshPage page) :
    ∃ s', s.mmMap page physaddr v flags = some (v, s') ∧ s'.Tables ∧ s'.cr3 = s.cr3 ∧
      (∀ k < 1024, s'.pde k =
        if k = pdindex v ∧ ¬ present (s.pde k) then page ||| (flags &&& 0xFFF) ||| 0x01 else s.pde k) ∧
      ∀ k l, Ordinary k → l < 1024 → present (s'.pde k) → s'.pte k l =
        if k = pdindex v ∧ l = ptindex v then physaddr ||| (flags &&& 0xFFF) ||| 0x01
        else if k = pdindex v ∧ ¬ present (s.pde k) then 0 else s.pte k l := by
  have hlt := ptindex_lt v
  by_cases hp : present (s.pde (pdindex v))
  · have hold : ∀ k, ¬ (k = pdindex v ∧ ¬ present (s.pde k)) := by
      rintro k ⟨rfl, hno⟩
      exact hno hp
    have hd := fun k hk => h.pde_setEntry (x := physaddr ||| (flags &&& 0xFFF) ||| 0x01) hv hp hlt (k := k) hk
    refine ⟨_, h.mmMap_eq hv.lt hp h0 page flags, h.setEntry hv hp hlt, rfl, fun k hk => ?_, fun k l hk hl hpk => ?_⟩
    · rw [if_neg (hold k), hd k hk]
    · rw [hd k hk.lt] at hpk
      rw [h.pte_setEntry hv hp hlt hk.lt hpk hl, if_neg (hold k)]
  · obtain ⟨s₁, hs₁, ht₁, hc₁, hd₁, he₁⟩ := h.create hv (hpage hp)
      (frame_entry flags (hpage hp).aligned) (present_entry page flags)
    have hi : s₁.pde (pdindex v) = page ||| (flags &&& 0xFFF) ||| 0x01 := (hd₁ _ hv.lt).trans (if_pos rfl)
    have hp₁ : present (s₁.pde (pdindex v)) := hi ▸ present_entry page flags
    have hnew : ∀ k, k = pdindex v ∧ ¬ present (s.pde k) ↔ k = pdindex v := fun k =>
      and_iff_left_of_imp fun hk => hk ▸ hp
    have hd := fun k hk => ht₁.pde_setEntry (x := physaddr ||| (flags &&& 0xFFF) ||| 0x01) hv hp₁ hlt (k := k) hk
    rw [h.mmMap_create ht₁.toSelfMapped hv.lt hp hp₁ h0 hs₁]
    refine ⟨_, ht₁.mmMap_eq hv.lt hp₁ h0 page flags, ht₁.setEntry hv hp₁ hlt, hc₁, fun k hk => ?_,
      fun k l hk hl hpk => ?_⟩
    · simp only [hnew]
      rw [hd k hk, hd₁ k hk]
    · rw [hd k hk.lt] at hpk
      simp only [hnew]
      rw [ht₁.pte_setEntry hv hp₁ hlt hk.lt hpk hl, he₁ k l hk hl hpk]

theorem Tables.mmMap_new {physaddr : Nat} (h : s.Tables) (flags : Nat) (hv : Ordinary (pdindex v))
    (h0 : physaddr ≠ 0) (habs : ¬ present (s.pde (pdindex v))) (hpage : s.FreshPage page) :
    ∃ s', s.mmMap page physaddr v flags = some (v, s') ∧ s'.Tables ∧ s'.cr3 = s.cr3 ∧
      s'.pde (pdindex v) = page ||| (flags &&& 0xFFF) ||| 0x01 := by
  obtain ⟨s', hs', ht', hc', hd', -⟩ := h.mmMap flags hv h0 fun _ => hpage
  exact ⟨s', hs', ht', hc', (hd' _ hv.lt).trans (if_pos ⟨rfl, habs⟩)⟩

/-! ### The map -/

/-- Page frames by page number. -/
abbrev PageMap := Nat → Option Nat

def PageMap.translate (A : PageMap) (v : Nat) : Option Nat := (A (v / 4096)).map fun p => p + v % 4096

/-- The tables of the ordinary slots hold `A`. -/
structure Maps (s : Mmu) (A : PageMap) : Prop where
  tables : s.Tables
  entry : ∀ i j, Ordinary i → j < 1024 → A (1024 * i + j) =
    if present (s.pde i) ∧ present (s.pte i j) then some (frame (s.pte i j)) else none

namespace Maps
variable {A : PageMap}

theorem walk (h : s.Maps A) (hv : Ordinary (pdindex v)) : s.walk v = A.translate v := by
  have hpage : v / 4096 = 1024 * pdindex v + ptindex v := by
    unfold pdindex ptindex
    omega
  unfold PageMap.translate Mmu.walk
  rw [hpage, h.entry _ _ hv (ptindex_lt v)]
  split_ifs
  · rfl
  · rfl

/-- A store in a page table changes the translation of one page. -/
theorem setEntry (h : s.Maps A) (hi : Ordinary i) (hp : present (s.pde i)) (hj : j < 1024) :
    (s.set (frame (s.pde i) + 4 * j) x).Maps
      (Function.update A (1024 * i + j) (if present x then some (frame x) else none)) := by
  refine ⟨h.tables.setEntry hi hp hj, fun k l hk hl => ?_⟩
  rw [h.tables.pde_setEntry hi hp hj hk.lt, Function.update_apply]
  by_cases hx : present (s.pde k)
  · rw [h.tables.pte_setEntry hi hp hj hk.lt hx hl]
    by_cases hkl : k = i ∧ l = j
    · rw [if_pos hkl, if_pos (by rw [hkl.1, hkl.2])]
      exact if_congr (iff_and_self.2 fun _ => hx) rfl rfl
    · rw [if_neg hkl, if_neg (by omega), h.entry k l hk hl]
  · have hki : k ≠ i := fun he => hx (he ▸ hp)
    rw [if_neg (by omega), h.entry k l hk hl, if_neg fun hy => hx hy.1, if_neg fun hy => hx hy.1]

theorem mmMap (h : s.Maps A) {physaddr : Nat} (flags : Nat) (hv : Ordinary (pdindex v)) (h0 : physaddr ≠ 0)
    (hmod : physaddr % 4096 = 0) (hpage : ¬ present (s.pde (pdindex v)) → s.FreshPage page) :
    ∃ s', s.mmMap page physaddr v flags = some (v, s') ∧
      s'.Maps (Function.update A (v / 4096) (some physaddr)) := by
  have hnum : v / 4096 = 1024 * pdindex v + ptindex v := by
    unfold pdindex ptindex
    omega
  have hlt := ptindex_lt v
  obtain ⟨s', hs', ht', -, hd', he'⟩ := h.tables.mmMap flags hv h0 hpage
  refine ⟨s', hs', ht', fun i j hi hj => ?_⟩
  rw [Function.update_apply, hnum]
  have hdi := hd' i hi.lt
  by_cases hv' : i = pdindex v ∧ j = ptindex v
  · -- the page itself
    obtain ⟨rfl, rfl⟩ := hv'
    have hpi : present (s'.pde (pdindex v)) := by
      rw [hdi]
      split_ifs with hno
      · exact present_entry page flags
      · exact not_not.1 fun hx => hno ⟨rfl, hx⟩
    have he := (he' _ _ hi hj hpi).trans (if_pos ⟨rfl, rfl⟩)
    rw [if_pos rfl, he, if_pos ⟨hpi, present_entry physaddr flags⟩, frame_entry flags hmod]
  · rw [if_neg (by omega), h.entry i j hi hj]
    by_cases hno : i = pdindex v ∧ ¬ present (s.pde i)
    · -- another page of a new table
      rw [if_neg fun hx => hno.2 hx.1, if_neg]
      rintro ⟨hpi, hpe⟩
      rw [he' i j hi hj hpi, if_neg hv', if_pos hno] at hpe
      exact absurd hpe (by decide)
    · rw [if_neg hno] at hdi
      by_cases hpi : present (s.pde i)
      · rw [he' i j hi hj (hdi ▸ hpi), if_neg hv', if_neg hno, hdi]
      · rw [if_neg fun hx => hpi hx.1, if_neg fun hx => hpi (hdi ▸ hx.1)]

theorem mmUnmap (h : s.Maps A) (hv : Ordinary (pdindex v)) (hp : present (s.pde (pdindex v))) :
    ∃ s', s.mmUnmap v = some s' ∧ s'.Maps (Function.update A (v / 4096) none) := by
  have hnum : v / 4096 = 1024 * pdindex v + ptindex v := by
    unfold pdindex ptindex
    omega
  refine ⟨_, h.tables.store_pt hv.lt (ptindex_lt v) hp 0, ?_⟩
  have hset := h.setEntry (x := 0) hv hp (ptindex_lt v)
  rwa [if_neg (by decide), ← hnum] at hset

theorem getPhysaddr (h : s.Maps A) (hv : Ordinary (pdindex v)) :
    s.getPhysaddr v = some ((s.walk v).getD 0) := by
  unfold Mmu.getPhysaddr Mmu.walk
  rw [h.tables.load_pd hv.lt]
  by_cases hp : present (s.pde (pdindex v))
  · rw [Option.bind_eq_bind, Option.bind_some, if_neg (not_not.2 hp), h.tables.load_pt hv.lt (ptindex_lt v) hp,
      Option.bind_some]
    by_cases hq : present (s.pte (pdindex v) (ptindex v))
    · rw [if_neg (not_not.2 hq), if_pos ⟨hp, hq⟩]
      rfl
    · rw [if_pos hq, if_neg fun hx => hq hx.2]
      rfl
  · rw [Option.bind_eq_bind, Option.bind_some, if_pos hp, if_neg fun hx => hp hx.1]
    rfl

end Maps
/-! ### `init_paging` -/

section
variable {m : Nat → Nat} {dir low : Nat}

/-- The loop clears the entries of the directory it has passed. -/
theorem initLoop_dir (hdir : dir % 4096 = 0) (hlow : low % 4096 = 0) (hne : dir ≠ low) (hk : k + n ≤ 1024)
    (hj : j < 1024) : initLoop dir low n m k (dir + 4 * j) =
      if k ≤ j ∧ j < k + n then 0 else m (dir + 4 * j) := by
  induction n generalizing m k with
  | zero => rw [if_neg (by omega)]; rfl
  | succ n ih =>
    unfold initLoop
    dsimp only
    rw [ih (by omega), Function.update_apply, Function.update_apply,
      if_neg (word_ne hdir hlow hne hj (by omega : k < 1024))]
    by_cases hjk : j = k
    · rw [if_neg (by omega), if_pos (by rw [hjk]), if_pos (by omega)]
    · rw [if_neg (by omega : ¬ dir + 4 * j = dir + 4 * k)]
      exact if_congr (by omega) rfl rfl

theorem initPaging_pde (m : Nat → Nat) (hdir : dir % 4096 = 0) (hlow : low % 4096 = 0) (hne : dir ≠ low)
    (hk : k < 1024) : (initPaging m dir low).pde k =
      if k = 1023 then dir ||| 0x3 else if k = 0 ∨ k = 768 then low ||| 0x7 else 0 := by
  have hframe : frame (initPaging m dir low).cr3 = dir := frame_of_mod hdir
  unfold pde
  rw [hframe]
  unfold initPaging
  dsimp only
  rw [Function.update_apply, Function.update_apply, Function.update_apply,
    initLoop_dir hdir hlow hne (by omega) hk, if_pos (by omega : 0 ≤ k ∧ k < 0 + 1024)]
  by_cases h1 : k = 1023
  · rw [if_pos (by rw [h1]), if_pos h1]
  · rw [if_neg (by omega), if_neg h1]
    by_cases h2 : k = 768
    · rw [if_pos (by rw [h2]), if_pos (.inr h2)]
    · rw [if_neg (by omega)]
      exact if_congr (by omega) rfl rfl

theorem initPaging_fresh (m : Nat → Nat) (hdir : dir % 4096 = 0) (hlow : low % 4096 = 0) (hne : dir ≠ low)
    (hpage : page % 4096 = 0) (hd : page ≠ dir) (hl : page ≠ low) : (initPaging m dir low).FreshPage page := by
  refine ⟨hpage, hd, fun k hk hp => ?_⟩
  rw [initPaging_pde m hdir hlow hne hk] at hp ⊢
  split_ifs at hp ⊢
  · rwa [frame_or hdir (by decide)]
  · rwa [frame_or hlow (by decide)]
  · exact absurd hp (by decide)

theorem initPaging_maps (m : Nat → Nat) (hdir : dir % 4096 = 0) (hlow : low % 4096 = 0) (hne : dir ≠ low) :
    (initPaging m dir low).Maps fun _ => none := by
  have hpde := fun k hk => initPaging_pde m hdir hlow hne (k := k) hk
  have hself : (initPaging m dir low).pde 1023 = dir ||| 0x3 := hpde 1023 (by decide)
  have habs : ∀ i, Ordinary i → ¬ present ((initPaging m dir low).pde i) := by
    intro i hi
    rw [hpde i hi.lt, if_neg hi.self, if_neg fun hx => hx.elim hi.zero hi.kernel]
    decide
  refine ⟨⟨⟨hdir, ?_, ?_⟩, ?_⟩, ?_⟩
  · rw [hself]
    exact Nat.or_mod_two_eq_one.2 (.inr rfl)
  · rw [hself]
    exact frame_or hdir (by decide)
  · intro i j hi hj hpi
    exact absurd hpi (habs i hi)
  · intro i j hi hj
    rw [if_neg fun hx => habs i hi hx.1]

end

/-! ### Runs -/

inductive PagingOp
  | map (page physaddr virtualaddr flags : Nat)
  | unmap (virtualaddr : Nat)

/-- One call, with what it does to the map. -/
def pagingStep : Mmu × PageMap → PagingOp → Option (Mmu × PageMap)
  | (s, A), .map page physaddr virtualaddr flags =>
    (s.mmMap page physaddr virtualaddr flags).map fun r =>
      (r.2, Function.update A (virtualaddr / 4096) (some physaddr))
  | (s, A), .unmap virtualaddr =>
    (s.mmUnmap virtualaddr).map fun s => (s, Function.update A (virtualaddr / 4096) none)

/-- The calls allowed: `pm_alloc` returns a fresh page if `mm_map` calls it, and `mm_unmap` is called where
there is a page table. -/
def PagingOp.Ok (c : Mmu × PageMap) : PagingOp → Prop
  | .map page physaddr virtualaddr flags =>
    Ordinary (pdindex virtualaddr) ∧ physaddr ≠ 0 ∧ physaddr % 4096 = 0 ∧
      flags &&& (pageWrite ||| pageUser) = flags ∧
      (¬ present (c.1.pde (pdindex virtualaddr)) → c.1.FreshPage page)
  | .unmap virtualaddr => Ordinary (pdindex virtualaddr) ∧ present (c.1.pde (pdindex virtualaddr))

theorem pagingStep_maps {A A' : PageMap} {op : PagingOp} (h : s.Maps A) (hok : op.Ok (s, A))
    (hs : pagingStep (s, A) op = some (s', A')) : s'.Maps A' := by
  cases op with
  | map page physaddr v flags =>
    obtain ⟨hv, h0, hmod, -, hpage⟩ := hok
    obtain ⟨s₁, h1, h2⟩ := h.mmMap flags hv h0 hmod hpage
    unfold pagingStep at hs
    dsimp only at hs
    rw [h1] at hs
    cases hs
    exact h2
  | unmap v =>
    obtain ⟨hv, hp⟩ := hok
    obtain ⟨s₁, h1, h2⟩ := h.mmUnmap hv hp
    unfold pagingStep at hs
    dsimp only at hs
    rw [h1] at hs
    cases hs
    exact h2

/-- **The page tables implement a partial map.** After any calls of `mm_map` and `mm_unmap` behind
`init_paging`, the walk of an address of an ordinary slot is what the map the calls have built says, `get_physaddr`
returns it (`NULL` where there is none), and every further call returns. -/
theorem paging_refines {m : Nat → Nat} {dir low : Nat} {A : PageMap} (hdir : dir % 4096 = 0)
    (hlow : low % 4096 = 0) (hne : dir ≠ low)
    (h : Reach pagingStep (fun c op => op.Ok c) (initPaging m dir low, fun _ => none) (s, A)) :
    (∀ v, Ordinary (pdindex v) → s.walk v = A.translate v ∧ s.getPhysaddr v = some ((s.walk v).getD 0)) ∧
      (∀ page physaddr v flags, PagingOp.Ok (s, A) (.map page physaddr v flags) →
        ∃ s', s.mmMap page physaddr v flags = some (v, s')) ∧
      ∀ v, PagingOp.Ok (s, A) (.unmap v) → (s.mmUnmap v).isSome := by
  have hmaps : s.Maps A := by
    refine h.inv (P := fun c => c.1.Maps c.2) (initPaging_maps m hdir hlow hne) ?_
    rintro ⟨s, A⟩ op ⟨s', A'⟩ hP hok hs
    exact pagingStep_maps hP hok hs
  refine ⟨fun v hv => ⟨hmaps.walk hv, hmaps.getPhysaddr hv⟩, ?_, ?_⟩
  · rintro page physaddr v flags ⟨hv, h0, hmod, -, hpage⟩
    obtain ⟨s', hs', -⟩ := hmaps.mmMap flags hv h0 hmod hpage
    exact ⟨s', hs'⟩
  · rintro v ⟨hv, hp⟩
    obtain ⟨s', hs', -⟩ := hmaps.mmUnmap hv hp
    rw [hs']
    rfl

/-- The first page of the heap is mapped. -/
theorem paging_refines_firstPage : ∃ s A,
    pagingStep (initPaging (fun _ => 0) 0x105000 0x106000, fun _ => none)
      (.map 0x200000 0x300000 0xC0400000 6) = some (s, A) ∧
    s.walk 0xC0400123 = some 0x300123 ∧ s.getPhysaddr 0xC0400123 = some 0x300123 := by
  have hmaps : (initPaging (fun _ => 0) 0x105000 0x106000).Maps fun _ => none :=
    initPaging_maps _ rfl rfl (by decide)
  have hv : Ordinary (pdindex 0xC0400000) := ⟨by decide, by decide, by decide, by decide⟩
  have hfresh : (initPaging (fun _ => 0) 0x105000 0x106000).FreshPage 0x200000 :=
    initPaging_fresh _ rfl rfl (by decide) rfl (by decide) (by decide)
  have hok : PagingOp.Ok (initPaging (fun _ => 0) 0x105000 0x106000, fun _ => none)
      (.map 0x200000 0x300000 0xC0400000 6) := ⟨hv, by decide, rfl, by decide, fun _ => hfresh⟩
  have h0 : (0x300000 : Nat) ≠ 0 := by decide
  obtain ⟨s, hs, -⟩ := hmaps.mmMap (v := 0xC0400000) 6 hv h0 rfl fun _ => hfresh
  have hstep : pagingStep (initPaging (fun _ => 0) 0x105000 0x106000, fun _ => none)
      (.map 0x200000 0x300000 0xC0400000 6) =
      some (s, Function.update (fun _ => none) (0xC0400000 / 4096) (some 0x300000)) := by
    unfold pagingStep
    dsimp only
    rw [hs]
    rfl
  obtain ⟨hw, -⟩ := paging_refines rfl rfl (by decide) (Reach.start.next _ hok hstep)
  obtain ⟨h1, h2⟩ := hw 0xC0400123 ⟨by decide, by decide, by decide, by decide⟩
  have hwalk : s.walk 0xC0400123 = some 0x300123 := h1
  refine ⟨s, _, hstep, hwalk, ?_⟩
  rw [h2, hwalk]
  rfl

end Mmu
end Krypton
