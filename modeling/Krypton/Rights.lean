import Krypton.Paging
import Mathlib.Data.List.Basic

/-!
# The rights of a page

The processor lets a page be written, or used in ring 3, if the entries of both the page and its page table say so.
`mm_map` writes the flags it is asked for into the entry of the page, but into the entry of the page table only if it
makes the table (`Granted`).
-/

namespace Krypton
namespace Mmu

variable {s s' s₀ : Mmu} {i v flags : Nat}

def pageFlags : Nat := pageWrite ||| pageUser

/-- The flags in force for the page of `v`. -/
def rights (s : Mmu) (v : Nat) : Nat := s.pde (pdindex v) &&& s.pte (pdindex v) (ptindex v) &&& pageFlags

/-- A call of `mm_map`; `page` is what `pm_alloc` returns if it is called. -/
structure MapCall where
  page : Nat
  physaddr : Nat
  virtualaddr : Nat
  flags : Nat

/-- The addresses mapped and the flags asked for, newest first. -/
abbrev Requests := List (Nat × Nat)

/-- One call; `mm_map` of `NULL` maps nothing. -/
def mapStep : Mmu × Requests → MapCall → Option (Mmu × Requests)
  | (s, rs), c => (s.mmMap c.page c.physaddr c.virtualaddr c.flags).map fun r =>
    (r.2, if c.physaddr = 0 then rs else (c.virtualaddr, c.flags) :: rs)

def MapCall.Ok (c : Mmu × Requests) (call : MapCall) : Prop :=
  Ordinary (pdindex call.virtualaddr) ∧ call.physaddr % 4096 = 0 ∧ call.flags &&& pageFlags = call.flags ∧
    (call.physaddr ≠ 0 → ¬ present (c.1.pde (pdindex call.virtualaddr)) → c.1.FreshPage call.page)

namespace Requests
variable {rs : Requests}

/-- The flags of the last request for the page of `v`. -/
def last (rs : Requests) (v : Nat) : Option Nat := (rs.find? fun r => r.1 / 4096 = v / 4096).map Prod.snd

/-- The flags of the first request in slot `i`. -/
def first (rs : Requests) (i : Nat) : Option Nat := (rs.reverse.find? fun r => pdindex r.1 = i).map Prod.snd

theorem last_mem (h : last rs v = some flags) : ∃ r ∈ rs, r.1 / 4096 = v / 4096 := by
  obtain ⟨r, hr, -⟩ := Option.map_eq_some_iff.1 h
  exact ⟨r, List.mem_of_find?_eq_some hr, by simpa using List.find?_some hr⟩

theorem last_cons (r : Nat × Nat) (rs : Requests) (v : Nat) :
    last (r :: rs) v = if r.1 / 4096 = v / 4096 then some r.2 else last rs v := by
  unfold last
  rw [List.find?_cons]
  by_cases h : r.1 / 4096 = v / 4096 <;> simp [h]

theorem first_cons_of_mem (r : Nat × Nat) (h : ∃ r ∈ rs, pdindex r.1 = i) : first (r :: rs) i = first rs i := by
  obtain ⟨x, hx, hi⟩ := h
  have hsome : (rs.reverse.find? fun r => pdindex r.1 = i).isSome :=
    List.find?_isSome.2 ⟨x, List.mem_reverse.2 hx, decide_eq_true hi⟩
  unfold first
  rw [List.reverse_cons, List.find?_append, Option.or_of_isSome hsome]

theorem first_cons_of_not_mem (r : Nat × Nat) (h : ¬ ∃ r ∈ rs, pdindex r.1 = i) :
    first (r :: rs) i = if pdindex r.1 = i then some r.2 else none := by
  have hnone : (rs.reverse.find? fun r => pdindex r.1 = i) = none :=
    List.find?_eq_none.2 fun x hx hi => h ⟨x, List.mem_reverse.1 hx, of_decide_eq_true hi⟩
  unfold first
  rw [List.reverse_cons, List.find?_append, hnone, Option.none_or]
  by_cases hr : pdindex r.1 = i <;> simp [hr]

end Requests

/-- The flags in the entry of slot `i`: those it had, or those of the call that made its table. -/
def tableFlags (s₀ : Mmu) (rs : Requests) (i : Nat) : Nat :=
  if present (s₀.pde i) then s₀.pde i &&& pageFlags else (rs.first i).getD 0

/-- What the entries hold after the calls `rs`. -/
structure Granted (s₀ s : Mmu) (rs : Requests) : Prop where
  tables : s.Tables
  ordinary : ∀ r ∈ rs, Ordinary (pdindex r.1)
  slot : ∀ i, Ordinary i → (present (s.pde i) ↔ present (s₀.pde i) ∨ ∃ r ∈ rs, pdindex r.1 = i)
  table : ∀ i, Ordinary i → present (s.pde i) → s.pde i &&& pageFlags = tableFlags s₀ rs i
  entry : ∀ v flags, rs.last v = some flags → s.pte (pdindex v) (ptindex v) &&& pageFlags = flags

theorem entry_flags {p : Nat} (hp : p % 4096 = 0) (hf : flags &&& pageFlags = flags) :
    (p ||| (flags &&& 0xFFF) ||| 0x01) &&& pageFlags = flags := by
  have hp6 : p &&& pageFlags = 0 := by
    have hlt : p &&& pageFlags < 2 ^ 3 := Nat.lt_of_le_of_lt Nat.and_le_right (by decide)
    have hp8 : p % 2 ^ 3 = 0 := by omega
    rw [← Nat.mod_eq_of_lt hlt, Nat.and_mod_two_pow, hp8, Nat.zero_and]
  have hmask : 0xFFF &&& pageFlags = pageFlags := rfl
  have hone : 0x01 &&& pageFlags = 0 := rfl
  rw [Nat.and_or_distrib_right, Nat.and_or_distrib_right, hp6, hone, Nat.and_assoc, hmask, hf]
  simp

theorem Granted.start (h : s.Tables) : Granted s s [] where
  tables := h
  ordinary := by simp
  slot i _ := by simp
  table i _ hp := (if_pos hp).symm
  entry v flags hl := by cases hl

namespace Granted
variable {rs : Requests} {page physaddr : Nat}

theorem present_of_mem (h : Granted s₀ s rs) {r : Nat × Nat} (hr : r ∈ rs) : present (s.pde (pdindex r.1)) :=
  (h.slot _ (h.ordinary r hr)).2 (.inr ⟨r, hr, rfl⟩)

theorem rights (h : Granted s₀ s rs) (hl : rs.last v = some flags) :
    s.rights v = tableFlags s₀ rs (pdindex v) &&& flags := by
  obtain ⟨r, hr, hv⟩ := Requests.last_mem hl
  have hslot : pdindex r.1 = pdindex v := by
    unfold pdindex
    omega
  have htable := h.table _ (h.ordinary r hr) (h.present_of_mem hr)
  rw [hslot] at htable
  have hself : pageFlags &&& pageFlags = pageFlags := rfl
  unfold Mmu.rights
  rw [← htable, ← h.entry v flags hl, Nat.and_assoc, Nat.and_assoc, ← Nat.and_assoc pageFlags, Nat.and_comm pageFlags,
    Nat.and_assoc, hself]

theorem mmMap (h : Granted s₀ s rs) (hv : Ordinary (pdindex v)) (h0 : physaddr ≠ 0) (hmod : physaddr % 4096 = 0)
    (hf : flags &&& pageFlags = flags) (hpage : ¬ present (s.pde (pdindex v)) → s.FreshPage page) :
    ∃ s', s.mmMap page physaddr v flags = some (v, s') ∧ Granted s₀ s' ((v, flags) :: rs) := by
  obtain ⟨s', hs', ht, -, hd, he⟩ := h.tables.mmMap flags hv h0 hpage
  have hpres : ∀ i, Ordinary i → (present (s'.pde i) ↔ present (s.pde i) ∨ pdindex v = i) := by
    intro i hi
    rw [hd i hi.lt]
    split_ifs with hnew
    · exact iff_of_true (present_entry page flags) (.inr hnew.1.symm)
    · exact ⟨.inl, fun hx => hx.elim id fun hx => not_not.1 fun hno => hnew ⟨hx.symm, hno⟩⟩
  refine ⟨s', hs', ht, List.forall_mem_cons.2 ⟨hv, h.ordinary⟩, fun i hi => ?_, fun i hi hp => ?_, fun w fl hl => ?_⟩
  · rw [hpres i hi, h.slot i hi, or_assoc, List.exists_mem_cons_iff, or_comm (a := ∃ r ∈ rs, pdindex r.1 = i)]
  · by_cases hnew : i = pdindex v ∧ ¬ present (s.pde i)
    · -- the call made the table
      obtain ⟨hno, hnone⟩ := not_or.1 (mt (h.slot i hi).2 hnew.2)
      rw [hd i hi.lt, if_pos hnew, tableFlags, if_neg hno, Requests.first_cons_of_not_mem _ hnone, if_pos hnew.1.symm]
      exact entry_flags (hpage (hnew.1 ▸ hnew.2)).aligned hf
    · have hold : present (s.pde i) := by
        rcases (hpres i hi).1 hp with hx | hx
        · exact hx
        · exact not_not.1 fun hno => hnew ⟨hx.symm, hno⟩
      rw [hd i hi.lt, if_neg hnew, h.table i hi hold]
      unfold tableFlags
      split_ifs with h₀
      · rfl
      · rw [Requests.first_cons_of_mem _ (((h.slot i hi).1 hold).resolve_left h₀)]
  · rw [Requests.last_cons] at hl
    have hlt := ptindex_lt w
    by_cases hw : v / 4096 = w / 4096
    · -- the page of the call
      rw [if_pos hw] at hl
      obtain rfl := Option.some.inj hl
      have hslot : pdindex w = pdindex v ∧ ptindex w = ptindex v := by
        unfold pdindex ptindex
        omega
      rw [hslot.1, hslot.2, he _ _ hv (ptindex_lt v) ((hpres _ hv).2 (.inr rfl)), if_pos ⟨rfl, rfl⟩]
      exact entry_flags hmod hf
    · rw [if_neg hw] at hl
      obtain ⟨r, hr, hrw⟩ := Requests.last_mem hl
      have hslot : pdindex r.1 = pdindex w := by
        unfold pdindex
        omega
      have hwi : Ordinary (pdindex w) := hslot ▸ h.ordinary r hr
      have hold : present (s.pde (pdindex w)) := hslot ▸ h.present_of_mem hr
      have hother : ¬ (pdindex w = pdindex v ∧ ptindex w = ptindex v) := by
        unfold pdindex ptindex
        omega
      rw [he _ _ hwi hlt ((hpres _ hwi).2 (.inl hold)), if_neg hother, if_neg fun hx => hx.2 hold]
      exact h.entry w fl hl

theorem mapStep (h : Granted s₀ s rs) {call : MapCall} (hok : call.Ok (s, rs)) :
    ∃ s' rs', Mmu.mapStep (s, rs) call = some (s', rs') ∧ Granted s₀ s' rs' := by
  obtain ⟨hv, hmod, hf, hpage⟩ := hok
  unfold Mmu.mapStep
  dsimp only
  by_cases h0 : call.physaddr = 0
  · rw [Mmu.mmMap, if_pos h0]
    exact ⟨s, rs, by simp [h0], h⟩
  · obtain ⟨s', hs', hg⟩ := h.mmMap hv h0 hmod hf (hpage h0)
    rw [hs']
    exact ⟨s', _, rfl, by simpa [h0] using hg⟩

theorem reach (h₀ : s₀.Tables) (h : Reach Mmu.mapStep (fun c call => call.Ok c) (s₀, []) (s, rs)) :
    Granted s₀ s rs := by
  refine h.inv (P := fun c => Granted s₀ c.1 c.2) (.start h₀) ?_
  rintro ⟨s, rs⟩ call ⟨s', rs'⟩ hg hok hs
  obtain ⟨s₁, rs₁, h1, hg'⟩ := hg.mapStep hok
  obtain ⟨rfl, rfl⟩ := Prod.mk.inj (Option.some.inj (h1.symm.trans hs))
  exact hg'

end Granted

/-- **A page gets the rights it was last asked for** exactly if these are among the flags in the entry of its page
table, which no call changes once the table is there. -/
theorem rights_granted_iff {rs : Requests} (h₀ : s₀.Tables)
    (h : Reach mapStep (fun c call => call.Ok c) (s₀, []) (s, rs)) :
    ((∀ v flags, rs.last v = some flags → s.rights v = flags) ↔
      ∀ v flags, rs.last v = some flags → tableFlags s₀ rs (pdindex v) &&& flags = flags) ∧
      ∀ call : MapCall, call.Ok (s, rs) → (mapStep (s, rs) call).isSome := by
  have hg := Granted.reach h₀ h
  refine ⟨forall₃_congr fun v flags hl => ?_, fun call hok => ?_⟩
  · rw [hg.rights hl]
  · obtain ⟨s', rs', hs, -⟩ := hg.mapStep hok
    rw [hs]
    rfl

theorem twoCalls {a b : Nat} (ha : a &&& pageFlags = a) (hb : b &&& pageFlags = b) :
    ∃ s, Reach mapStep (fun c call => call.Ok c) (initPaging (fun _ => 0) 0x105000 0x106000, [])
      (s, [(0xC0401000, b), (0xC0400000, a)]) := by
  have hmaps : (initPaging (fun _ => 0) 0x105000 0x106000).Maps fun _ => none :=
    initPaging_maps _ rfl rfl (by decide)
  have hv : Ordinary (pdindex 0xC0400000) := ⟨by decide, by decide, by decide, by decide⟩
  have hv' : Ordinary (pdindex 0xC0401000) := ⟨by decide, by decide, by decide, by decide⟩
  have hslot : pdindex 0xC0400000 = pdindex 0xC0401000 := by decide
  have hfresh : (initPaging (fun _ => 0) 0x105000 0x106000).FreshPage 0x200000 :=
    initPaging_fresh _ rfl rfl (by decide) rfl (by decide) (by decide)
  have hstart : Granted (initPaging (fun _ => 0) 0x105000 0x106000) _ [] := .start hmaps.tables
  have hpage : ¬ present ((initPaging (fun _ => 0) 0x105000 0x106000).pde (pdindex 0xC0400000)) →
    (initPaging (fun _ => 0) 0x105000 0x106000).FreshPage 0x200000 := fun _ => hfresh
  have h0 : (0x300000 : Nat) ≠ 0 := by decide
  obtain ⟨s, h1, hg⟩ := hstart.mmMap hv h0 rfl ha hpage
  have hp : present (s.pde (pdindex 0xC0401000)) := hslot ▸ hg.present_of_mem List.mem_cons_self
  have hpage' : ¬ present (s.pde (pdindex 0xC0401000)) → s.FreshPage 0 := fun hno => absurd hp hno
  have h0' : (0x301000 : Nat) ≠ 0 := by decide
  obtain ⟨t, h2, -⟩ := hg.mmMap hv' h0' rfl hb hpage'
  have hok : MapCall.Ok (initPaging (fun _ => 0) 0x105000 0x106000, []) ⟨0x200000, 0x300000, 0xC0400000, a⟩ :=
    ⟨hv, (by decide : 0x300000 % 4096 = 0), ha, fun _ _ => hfresh⟩
  have hok' : MapCall.Ok (s, [(0xC0400000, a)]) ⟨0, 0x301000, 0xC0401000, b⟩ :=
    ⟨hv', (by decide : 0x301000 % 4096 = 0), hb, fun _ hno => absurd hp hno⟩
  refine ⟨t, (Reach.start.next _ hok ?_).next _ hok' ?_⟩
  · unfold mapStep
    dsimp only
    rw [h1]
    rfl
  · unfold mapStep
    dsimp only
    rw [h2]
    rfl

theorem tableFlags_twoCalls (a b : Nat) :
    tableFlags (initPaging (fun _ => 0) 0x105000 0x106000) [(0xC0401000, b), (0xC0400000, a)] 769 = a := by
  have habs : (initPaging (fun _ => 0) 0x105000 0x106000).pde 769 = 0 :=
    initPaging_pde _ rfl rfl (by decide) (by decide)
  have hslot : pdindex 0xC0400000 = 769 := by decide
  unfold tableFlags
  rw [habs, if_neg (by decide), Requests.first_cons_of_mem _ ⟨_, List.mem_cons_self, hslot⟩,
    Requests.first_cons_of_not_mem _ (by simp), if_pos hslot]
  rfl

/-- The rights asked for first are granted. -/
theorem rights_granted_iff_first : ∃ s : Mmu, Reach mapStep (fun c call => call.Ok c)
      (initPaging (fun _ => 0) 0x105000 0x106000, []) (s, [(0xC0401000, 2), (0xC0400000, 6)]) ∧
    s.rights 0xC0400000 = 6 ∧ s.rights 0xC0401000 = 2 := by
  obtain ⟨s, hs⟩ := twoCalls (a := 6) (b := 2) rfl rfl
  have hmaps := initPaging_maps (fun _ => 0) (rfl : 0x105000 % 4096 = 0) (rfl : 0x106000 % 4096 = 0) (by decide)
  have hg := (rights_granted_iff hmaps.tables hs).1.2 ?_
  · exact ⟨s, hs, hg 0xC0400000 6 rfl, hg 0xC0401000 2 rfl⟩
  · intro v flags hl
    rw [Requests.last_cons, Requests.last_cons] at hl
    dsimp only at hl
    have hslot : 0xC0401000 / 4096 = v / 4096 ∨ 0xC0400000 / 4096 = v / 4096 → pdindex v = 769 := by
      unfold pdindex
      omega
    split_ifs at hl with h1 h2
    · obtain rfl := Option.some.inj hl
      rw [hslot (.inl h1), tableFlags_twoCalls]
      rfl
    · obtain rfl := Option.some.inj hl
      rw [hslot (.inr h2), tableFlags_twoCalls]
      rfl
    · cases hl

/-- A page asked for with `PAGE_USER` in a slot whose first page was not. -/
theorem rights_not_granted : ¬ ∀ (s₀ s : Mmu) (rs : Requests), s₀.Tables →
    Reach mapStep (fun c call => call.Ok c) (s₀, []) (s, rs) →
    ∀ v flags, rs.last v = some flags → s.rights v = flags := by
  intro h
  obtain ⟨s, hs⟩ := twoCalls (a := 2) (b := 6) rfl rfl
  have hmaps := initPaging_maps (fun _ => 0) (rfl : 0x105000 % 4096 = 0) (rfl : 0x106000 % 4096 = 0) (by decide)
  have hr := h _ _ _ hmaps.tables hs 0xC0401000 6 rfl
  have hslot : pdindex 0xC0401000 = 769 := by decide
  have hlast : Requests.last [(0xC0401000, 6), (0xC0400000, 2)] 0xC0401000 = some 6 := rfl
  rw [(Granted.reach hmaps.tables hs).rights hlast, hslot, tableFlags_twoCalls] at hr
  exact absurd hr (by decide)

end Mmu
end Krypton
