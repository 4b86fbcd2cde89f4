import Krypton.Mmu

/-!
# `pmm.c`: page frames

`pm_alloc` and `pm_free` with the part of `sys_base` they use. The free-page stack is memory like any other: its
words are read and written through the walk, and `pm_free` maps a freed frame behind it when it is full.
Each function is `none` where the processor would fault.
-/

namespace Krypton

def pmStackAddr : Nat := 0xFF000000

structure Pmm where
  mmu : Mmu
  kernelSegEndPage : Nat
  vmOnline : Nat
  pmLastPage : Nat
  /-- `mm_free_page_stack_ptr` and `mm_free_page_stack_max`. -/
  stackPtr : Nat
  stackMax : Nat
  freePages : Nat

namespace Pmm

def pmAlloc (s : Pmm) : Option (Nat × Pmm) :=
  if s.vmOnline = 0 ∨ s.stackPtr = pmStackAddr then
    let s := { s with pmLastPage := (s.pmLastPage + 0x1000) % 2 ^ 32 }
    some (s.pmLastPage, { s with freePages := (s.freePages + (2 ^ 32 - 1)) % 2 ^ 32 })
  else do
    let s := { s with stackPtr := (s.stackPtr + (2 ^ 32 - 4)) % 2 ^ 32 }
    let page ← s.mmu.load s.stackPtr
    some (page, { s with freePages := (s.freePages + (2 ^ 32 - 1)) % 2 ^ 32 })

/-- `mm_map`, which takes a page for a page table if there is none. -/
def mmMap (s : Pmm) (physaddr virtualaddr flags : Nat) : Option (Nat × Pmm) :=
  if physaddr = 0 then some (0, s)
  else do
    let e ← s.mmu.load (Mmu.pd + 4 * Mmu.pdindex virtualaddr)
    let (page, s) ← if ¬ present e then s.pmAlloc else some (0, s)
    let (r, mmu) ← s.mmu.mmMap page physaddr virtualaddr flags
    some (r, { s with mmu := mmu })

/-- The sanity test of `pm_free`; the subtraction is unsigned. -/
def Refuses (s : Pmm) (page : Nat) : Prop :=
  page > (s.pmLastPage + (2 ^ 32 - 0x10000)) % 2 ^ 32 ∨
    page > 0x100000 ∧ page < s.kernelSegEndPage ∨ page < 0x20000

instance (s : Pmm) (page : Nat) : Decidable (s.Refuses page) := inferInstanceAs (Decidable (_ ∨ _ ∨ _))

def pmFree (s : Pmm) (page : Nat) : Option Pmm :=
  if s.Refuses page then some s
  else if s.stackPtr ≥ s.stackMax then do
    let (_, s) ← s.mmMap page s.stackPtr (pageWrite ||| pageUser)
    some { s with stackMax := (s.stackMax + 4096) % 2 ^ 32 }
  else do
    let mmu ← s.mmu.store s.stackPtr page
    let s := { s with mmu := mmu }
    let s := { s with stackPtr := (s.stackPtr + 4) % 2 ^ 32 }
    some { s with freePages := (s.freePages + 1) % 2 ^ 32 }

/-- The lines of `mm_init` that set up the stack; `memUpper` is `mboot_ptr->mem_upper`. -/
def initStack (s : Pmm) (memUpper : Nat) : Option Pmm := do
  let s := { s with pmLastPage := (memUpper * 1024 % 2 ^ 32 + 0x1000) % 2 ^ 32 / 4096 * 4096 }
  let s := { s with vmOnline := 0 }
  let (page, s) ← s.pmAlloc
  let (mmStack, s) ← s.mmMap page pmStackAddr pageWrite
  let s := { s with stackPtr := mmStack }
  let s := { s with stackMax := mmStack }
  some { s with freePages := 0 }

end Pmm
end Krypton
