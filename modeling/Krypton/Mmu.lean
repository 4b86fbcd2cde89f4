import Mathlib.Algebra.Group.Nat.Defs
import Mathlib.Logic.Function.Basic

/-!
# `pmm.c`: page tables

Physical memory by the address of its 32-bit words, `CR3`, and the walk the processor makes for a virtual
address. `init_paging` runs before paging is on and writes the two static tables at their physical
addresses; everything after it reads and writes memory through `walk`, page tables included: slot 1023 of
the page directory is the directory itself, so the tables appear in the last 4 MiB. A page fault is `none`;
there is no TLB, `invlpg` does nothing.
-/

namespace Krypton

def pageWrite : Nat := 0x2
def pageUser : Nat := 0x4

/-- `e & 0x01`. -/
abbrev present (e : Nat) : Prop := e % 2 = 1

/-- `e & ~0xFFF`. -/
def frame (e : Nat) : Nat := e / 4096 * 4096

structure Mmu where
  phys : Nat → Nat
  cr3 : Nat

namespace Mmu

def pdindex (v : Nat) : Nat := v / 2 ^ 22
def ptindex (v : Nat) : Nat := v / 2 ^ 12 % 1024

/-- Entry `i` of the page directory. -/
def pde (s : Mmu) (i : Nat) : Nat := s.phys (frame s.cr3 + 4 * i)

/-- Entry `j` of the page table of slot `i`. -/
def pte (s : Mmu) (i j : Nat) : Nat := s.phys (frame (s.pde i) + 4 * j)

def walk (s : Mmu) (v : Nat) : Option Nat :=
  if present (s.pde (pdindex v)) ∧ present (s.pte (pdindex v) (ptindex v)) then
    some (frame (s.pte (pdindex v) (ptindex v)) + v % 4096)
  else none

def load (s : Mmu) (v : Nat) : Option Nat := (s.walk v).map s.phys

def store (s : Mmu) (v x : Nat) : Option Mmu :=
  (s.walk v).map fun p => { s with phys := Function.update s.phys p x }

/-- `memset` of `n` words to zero. -/
def memset : Nat → Mmu → Nat → Option Mmu
  | 0, s, _ => some s
  | n + 1, s, v => (s.store v 0).bind fun s => memset n s (v + 4)

/-! ### The functions -/

/-- The loop of `init_paging`, from `k` on. -/
def initLoop (kernelpagedir lowpagetable : Nat) : Nat → (Nat → Nat) → Nat → Nat → Nat
  | 0, m, _ => m
  | n + 1, m, k =>
    let m := Function.update m (lowpagetable + 4 * k) (k * 4096 ||| 0x7)
    let m := Function.update m (kernelpagedir + 4 * k) 0
    initLoop kernelpagedir lowpagetable n m (k + 1)

def initPaging (m : Nat → Nat) (kernelpagedir lowpagetable : Nat) : Mmu :=
  let m := initLoop kernelpagedir lowpagetable 1024 m 0
  let m := Function.update m kernelpagedir (lowpagetable ||| 0x7)
  let m := Function.update m (kernelpagedir + 4 * 768) (lowpagetable ||| 0x7)
  let m := Function.update m (kernelpagedir + 4 * 1023) (kernelpagedir ||| 0x3)
  ⟨m, kernelpagedir⟩

def pd : Nat := 0xFFFFF000
def pt (pdindex : Nat) : Nat := 0xFFC00000 + 4 * (0x400 * pdindex)

def getPhysaddr (s : Mmu) (virtualaddr : Nat) : Option Nat := do
  let e ← s.load (pd + 4 * pdindex virtualaddr)
  if ¬ present e then some 0
  else do
    let e ← s.load (pt (pdindex virtualaddr) + 4 * ptindex virtualaddr)
    if ¬ present e then some 0
    else some (frame e + virtualaddr % 4096)

/-- `mm_map`; `page` is what `pm_alloc` returns if it is called. -/
def mmMap (s : Mmu) (page physaddr virtualaddr flags : Nat) : Option (Nat × Mmu) :=
  if physaddr = 0 then some (0, s)
  else do
    let e ← s.load (pd + 4 * pdindex virtualaddr)
    let s ←
      if ¬ present e then do
        let s ← s.store (pd + 4 * pdindex virtualaddr) (page ||| (flags &&& 0xFFF) ||| 0x01)
        memset 1024 s (pt (pdindex virtualaddr))
      else some s
    let s ← s.store (pt (pdindex virtualaddr) + 4 * ptindex virtualaddr)
      (physaddr ||| (flags &&& 0xFFF) ||| 0x01)
    some (virtualaddr, s)

def mmUnmap (s : Mmu) (virtualaddr : Nat) : Option Mmu :=
  s.store (pt (pdindex virtualaddr) + 4 * ptindex virtualaddr) 0

end Mmu

/-! ### Entries -/

theorem frame_mod (e : Nat) : frame e % 4096 = 0 := by
  unfold frame; omega

theorem frame_of_mod {p : Nat} (h : p % 4096 = 0) : frame p = p := by
  unfold frame; omega

theorem frame_or {p x : Nat} (h : p % 4096 = 0) (hx : x < 4096) : frame (p ||| x) = p := by
  obtain ⟨k, rfl⟩ : ∃ k, p = 2 ^ 12 * k := ⟨p / 4096, by omega⟩
  rw [← Nat.two_pow_add_eq_or_of_lt hx k]
  unfold frame; omega

theorem frame_or_low {x : Nat} (p : Nat) (hx : x < 4096) : frame (p ||| x) = frame p := by
  have hr : p % 4096 < 2 ^ 12 := Nat.mod_lt p (by decide)
  have hp : p = frame p ||| p % 4096 := by
    have h := Nat.two_pow_add_eq_or_of_lt hr (p / 4096)
    have he : 2 ^ 12 * (p / 4096) = frame p := by unfold frame; omega
    rw [he] at h
    rw [← h]
    unfold frame; omega
  have hlow : p % 4096 ||| x < 4096 := Nat.or_lt_two_pow hr hx
  rw [hp, Nat.or_assoc, frame_or (frame_mod p) hlow, ← hp]

theorem frame_entry_low (p flags : Nat) : frame (p ||| (flags &&& 0xFFF) ||| 0x01) = frame p := by
  rw [Nat.or_assoc]
  refine frame_or_low p ?_
  have h12 : (4096 : Nat) = 2 ^ 12 := rfl
  rw [h12]
  exact Nat.or_lt_two_pow (Nat.and_lt_two_pow _ (by decide)) (by decide)

theorem frame_entry {p : Nat} (flags : Nat) (h : p % 4096 = 0) :
    frame (p ||| (flags &&& 0xFFF) ||| 0x01) = p :=
  (frame_entry_low p flags).trans (frame_of_mod h)

theorem present_entry (p flags : Nat) : present (p ||| (flags &&& 0xFFF) ||| 0x01) :=
  Nat.or_mod_two_eq_one.2 (.inr rfl)

end Krypton
