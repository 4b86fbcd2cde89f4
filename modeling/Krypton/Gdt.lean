import Krypton.Sys

/-!
# `cpu.c`: the descriptor table

`gdt_set_gate` scatters base and limit over the fields of a `gdt_entry`; `base`, `limit` and `last` are how the
processor puts them together again. The base comes back whole, of the limit the low 20 bits.
-/

namespace Krypton

/-- `struct gdt_entry`. -/
structure GdtEntry where
  limitLow : BitVec 16
  baseLow : BitVec 16
  baseMiddle : BitVec 8
  access : BitVec 8
  granularity : BitVec 8
  baseHigh : BitVec 8

namespace GdtEntry

def base (e : GdtEntry) : Word := e.baseHigh ++ e.baseMiddle ++ e.baseLow

def limit (e : GdtEntry) : BitVec 20 := e.granularity.extractLsb' 0 4 ++ e.limitLow

/-- The offset of the segment's last byte: the limit counts bytes, or pages if the granularity bit is set. -/
def last (e : GdtEntry) : Nat :=
  if Has e.granularity 0x80 then e.limit.toNat * 4096 + 4095 else e.limit.toNat

end GdtEntry

abbrev Gdt := Nat → GdtEntry

/-- `gdt_set_gate`. -/
def gdtSetGate (gdt : Gdt) (num : Nat) (base limit : Word) (access gran : BitVec 8) : Gdt :=
  let e := gdt num
  let e := { e with baseLow := (base &&& 0xFFFF).setWidth 16 }
  let e := { e with baseMiddle := (base >>> 16 &&& 0xFF).setWidth 8 }
  let e := { e with baseHigh := (base >>> 24 &&& 0xFF).setWidth 8 }
  let e := { e with limitLow := (limit &&& 0xFFFF).setWidth 16 }
  let e := { e with granularity := (limit >>> 16 &&& 0x0F).setWidth 8 }
  let e := { e with granularity := e.granularity ||| (gran &&& 0xF0) }
  let e := { e with access := access }
  Function.update gdt num e

/-- `tss_entry_t`. -/
structure TssEntry where
  prevTss : Word
  esp0 : Word
  ss0 : Word
  esp1 : Word
  ss1 : Word
  esp2 : Word
  ss2 : Word
  cr3 : Word
  eip : Word
  eflags : Word
  eax : Word
  ecx : Word
  edx : Word
  ebx : Word
  esp : Word
  ebp : Word
  esi : Word
  edi : Word
  es : Word
  cs : Word
  ss : Word
  ds : Word
  fs : Word
  gs : Word
  ldt : Word
  trap : BitVec 16
  iomapBase : BitVec 16

/-- `sizeof(tss_entry_t)`: 25 words and two half words, packed. -/
def sizeofTssEntry : Nat := 25 * 4 + 2 * 2

/-- `memset(&tss_entry, 0, sizeof(tss_entry))`. -/
def zeroTss : TssEntry :=
  ⟨0, 0, 0, 0, 0, 0, 0, 0, 0, 0, 0, 0, 0, 0, 0, 0, 0, 0, 0, 0, 0, 0, 0, 0, 0, 0, 0⟩

/-- `write_tss`; `tssEntry` is the address of `tss_entry`. -/
def writeTss (gdt : Gdt) (tssEntry : Word) (num : Nat) (ss0 : BitVec 16) (esp0 : Word) : Gdt × TssEntry :=
  let base := tssEntry
  let limit := base + BitVec.ofNat 32 sizeofTssEntry
  let gdt := gdtSetGate gdt num base limit 0xE9 0x00
  let tss := zeroTss
  let tss := { tss with ss0 := ss0.setWidth 32 }
  let tss := { tss with esp0 := esp0 }
  let tss := { tss with cs := 0x0b }
  let tss := { tss with ss := 0x13, ds := 0x13, es := 0x13, fs := 0x13, gs := 0x13 }
  (gdt, tss)

/-- The gates of `gdt_install`. -/
def gdtInstall (gdt : Gdt) (tssEntry : Word) : Gdt × TssEntry :=
  let gdt := gdtSetGate gdt 0 0 0 0 0
  let gdt := gdtSetGate gdt 1 0 0xFFFFFFFF 0x9A 0xCF
  let gdt := gdtSetGate gdt 2 0 0xFFFFFFFF 0x92 0xCF
  let gdt := gdtSetGate gdt 3 0 0xFFFFFFFF 0xFA 0xCF
  let gdt := gdtSetGate gdt 4 0 0xFFFFFFFF 0xF2 0xCF
  writeTss gdt tssEntry 5 0x10 0x0

/-! ### Fields -/

/-- The field of `n` bits at bit `k`, cut out with a shift and a mask. -/
theorem setWidth_shift_mask {w n : Nat} (x m : BitVec w) (k : Nat) (hm : m.setWidth n = BitVec.allOnes n) :
    (x >>> k &&& m).setWidth n = x.extractLsb' k n := by
  rw [BitVec.setWidth_and, hm, BitVec.and_allOnes, BitVec.setWidth_ushiftRight_eq_extractLsb]

theorem setWidth_mask {w n : Nat} (x m : BitVec w) (hm : m.setWidth n = BitVec.allOnes n) :
    (x &&& m).setWidth n = x.extractLsb' 0 n := by
  have h := setWidth_shift_mask x m 0 hm
  rwa [BitVec.ushiftRight_zero] at h

/-! ### A gate is read back -/

section
variable (gdt : Gdt) (num : Nat) (base limit : Word) (access gran : BitVec 8)

theorem gdtSetGate_base : (gdtSetGate gdt num base limit access gran num).base = base := by
  have hhigh : base.extractLsb' 24 8 ++ base.extractLsb' 16 8 = base.extractLsb' 16 16 :=
    BitVec.extractLsb'_append_extractLsb'_eq_extractLsb' rfl
  have hall : base.extractLsb' 16 16 ++ base.extractLsb' 0 16 = base.extractLsb' 0 32 :=
    BitVec.extractLsb'_append_extractLsb'_eq_extractLsb' rfl
  unfold gdtSetGate GdtEntry.base
  rw [Function.update_self]
  dsimp only
  rw [setWidth_mask base 0xFFFF rfl, setWidth_shift_mask base 0xFF 16 rfl, setWidth_shift_mask base 0xFF 24 rfl,
    hhigh, hall, BitVec.extractLsb'_eq_self]

theorem gdtSetGate_limit : (gdtSetGate gdt num base limit access gran num).limit = limit.setWidth 20 := by
  have hlow : ((limit >>> 16 &&& 0x0F).setWidth 8 ||| gran &&& 0xF0).extractLsb' 0 4 = limit.extractLsb' 16 4 := by
    have hand : (limit >>> 16 &&& 0x0F).setWidth 4 = limit.extractLsb' 16 4 :=
      setWidth_shift_mask limit 0x0F 16 rfl
    have hgran : (gran &&& 0xF0).setWidth 4 = 0#4 := by
      rw [BitVec.setWidth_and]
      exact BitVec.and_zero
    rw [← BitVec.setWidth_eq_extractLsb' (by decide), BitVec.setWidth_or, hgran, BitVec.or_zero,
      BitVec.setWidth_setWidth_of_le _ (by decide), hand]
  unfold gdtSetGate GdtEntry.limit
  rw [Function.update_self]
  dsimp only
  rw [hlow, setWidth_mask limit 0xFFFF rfl, BitVec.setWidth_eq_extractLsb' (by decide)]
  exact BitVec.extractLsb'_append_extractLsb'_eq_extractLsb' rfl

theorem gdtSetGate_granular :
    Has (gdtSetGate gdt num base limit access gran num).granularity 0x80 ↔ Has gran 0x80 := by
  have hlow : (limit >>> 16 &&& 0x0F).setWidth 8 &&& 0x80 = 0#8 := by
    rw [BitVec.setWidth_and, BitVec.and_assoc]
    exact BitVec.and_zero
  unfold gdtSetGate
  rw [Function.update_self]
  dsimp only
  rw [BitVec.or_comm, has_or_keep hlow, has_and_keep rfl]

/-- With byte granularity the last byte is the limit's low 20 bits. -/
theorem gdtSetGate_last (hgran : ¬ Has gran 0x80) :
    (gdtSetGate gdt num base limit access gran num).last = limit.toNat % 2 ^ 20 := by
  have hbytes := mt (gdtSetGate_granular gdt num base limit access gran).1 hgran
  rw [GdtEntry.last, if_neg hbytes, gdtSetGate_limit, BitVec.toNat_setWidth]

end

/-! ### The task state segment -/

theorem writeTss_last (gdt : Gdt) (tssEntry : Word) (num : Nat) (ss0 : BitVec 16) (esp0 : Word) :
    ((writeTss gdt tssEntry num ss0 esp0).1 num).last = (tssEntry.toNat + sizeofTssEntry) % 2 ^ 20 := by
  unfold writeTss
  dsimp only
  rw [gdtSetGate_last _ _ _ _ _ _ (by decide), BitVec.toNat_add, BitVec.toNat_ofNat]
  unfold sizeofTssEntry
  omega

/-- **The limit handed to `gdt_set_gate` is an address.** The descriptor gives the base of the structure back, but its
last byte is the structure's last byte only where the low 20 bits of the address are all set. -/
theorem tss_descriptor_iff (gdt : Gdt) (tssEntry : Word) (num : Nat) (ss0 : BitVec 16) (esp0 : Word) :
    (((writeTss gdt tssEntry num ss0 esp0).1 num).base = tssEntry ∧
      ((writeTss gdt tssEntry num ss0 esp0).1 num).last = sizeofTssEntry - 1) ↔
      tssEntry.toNat % 2 ^ 20 = 2 ^ 20 - 1 := by
  rw [writeTss_last]
  have hbase : ((writeTss gdt tssEntry num ss0 esp0).1 num).base = tssEntry := gdtSetGate_base ..
  have hsize : sizeofTssEntry = 104 := rfl
  constructor
  · rintro ⟨-, hlast⟩
    omega
  · intro hlow
    exact ⟨hbase, by omega⟩

/-- A structure at `0x109000` gets a segment of `0x9069` bytes. -/
theorem tss_descriptor_too_long : ¬ ∀ (gdt : Gdt) (tssEntry : Word),
    ((gdtInstall gdt tssEntry).1 5).base = tssEntry ∧
      ((gdtInstall gdt tssEntry).1 5).last = sizeofTssEntry - 1 := by
  intro h
  have hlast := (h (fun _ => ⟨0, 0, 0, 0, 0, 0⟩) 0x109000).2
  unfold gdtInstall at hlast
  rw [writeTss_last] at hlast
  exact absurd hlast (by decide)

end Krypton
