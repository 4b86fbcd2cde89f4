import Krypton.FreePages
import Krypton.Lib.Words

/-!
# Bytes behind page tables

The processor reads a byte at a virtual address from the word that the walk leads to, and a word as four bytes, which
may lie in two pages. `View s φ m`: where `φ` is defined the machine shows the memory `m`, each byte at a physical
address of its own, in a page that holds no table. There a load or a store of the processor is one in `m`, and no
translation changes.
-/

namespace Krypton
namespace Mmu

/-- The byte at physical address `p`. -/
def byte (s : Mmu) (p : Nat) : BitVec 8 := BitVec.ofNat 8 (s.phys (p / 4 * 4) / 2 ^ (8 * (p % 4)))

def setByte (s : Mmu) (p : Nat) (b : BitVec 8) : Mmu :=
  s.set (p / 4 * 4) (load32 (Function.update s.byte p b) (p / 4 * 4))

def loadByte (s : Mmu) (v : Nat) : Option (BitVec 8) := (s.walk v).map s.byte

def storeByte (s : Mmu) (v : Nat) (b : BitVec 8) : Option Mmu := (s.walk v).map fun p => s.setByte p b

def loadWord (s : Mmu) (v : Nat) : Option Nat := do
  let b₀ ← s.loadByte v
  let b₁ ← s.loadByte (v + 1)
  let b₂ ← s.loadByte (v + 2)
  let b₃ ← s.loadByte (v + 3)
  some (b₀.toNat + 2 ^ 8 * b₁.toNat + 2 ^ 16 * b₂.toNat + 2 ^ 24 * b₃.toNat)

def storeWord (s : Mmu) (v x : Nat) : Option Mmu := do
  let s ← s.storeByte v (BitVec.ofNat 8 x)
  let s ← s.storeByte (v + 1) (BitVec.ofNat 8 (x / 2 ^ 8))
  let s ← s.storeByte (v + 2) (BitVec.ofNat 8 (x / 2 ^ 16))
  s.storeByte (v + 3) (BitVec.ofNat 8 (x / 2 ^ 24))

variable {s s' s₁ s₂ : Mmu} {i j p q v x : Nat} {b : BitVec 8}

theorem byte_setByte (s : Mmu) (p : Nat) (b : BitVec 8) (q : Nat) :
    (s.setByte p b).byte q = Function.update s.byte p b q := by
  have hq : q / 4 * 4 + q % 4 = q := by omega
  unfold setByte
  rw [byte, set_phys]
  by_cases hw : q / 4 * 4 = p / 4 * 4
  · rw [if_pos hw, ← hw, ofNat_load32 _ _ (Nat.mod_lt q (by omega)), hq]
  · have hne : q ≠ p := by
      rintro rfl
      exact hw rfl
    rw [if_neg hw, Function.update_of_ne hne]
    rfl

/-! ### What stays -/

/-- `s'` is `s` but for the frames of `T`. -/
structure Off (T : Nat → Prop) (s s' : Mmu) : Prop where
  cr3 : s'.cr3 = s.cr3
  phys : ∀ p, ¬ T (frame p) → s'.phys p = s.phys p

namespace Off
variable {T T' : Nat → Prop}

theorem refl (s : Mmu) : Off T s s := ⟨rfl, fun _ _ => rfl⟩

theorem trans (h : Off T s s₁) (h' : Off T s₁ s₂) : Off T s s₂ :=
  ⟨h'.cr3.trans h.cr3, fun p hp => (h'.phys p hp).trans (h.phys p hp)⟩

theorem set (hp : T (frame p)) : Off T s (s.set p x) := by
  refine ⟨rfl, fun q hq => ?_⟩
  rw [set_phys, if_neg]
  rintro rfl
  exact hq hp

theorem frame_byte (p : Nat) : frame (p / 4 * 4) = frame p := by
  unfold frame
  omega

theorem setByte (hp : T (frame p)) : Off T s (s.setByte p b) := .set ((frame_byte p).symm ▸ hp)

theorem byte (h : Off T s s') (hp : ¬ T (frame p)) : s'.byte p = s.byte p := by
  unfold Mmu.byte
  rw [h.phys _ ((frame_byte p).symm ▸ hp)]

theorem pde (h : Off T s s') (hd : ¬ T (frame s.cr3)) (hi : i < 1024) : s'.pde i = s.pde i := by
  unfold Mmu.pde
  rw [h.cr3, h.phys]
  rwa [frame_word (frame_mod _) hi]

theorem pte (h : Off T s s') (hd : ¬ T (frame s.cr3)) (hi : i < 1024) (ht : ¬ T (frame (s.pde i))) (hj : j < 1024) :
    s'.pte i j = s.pte i j := by
  unfold Mmu.pte
  rw [h.pde hd hi, h.phys]
  rwa [frame_word (frame_mod _) hj]

theorem walk (h : Off T s s') (hd : ¬ T (frame s.cr3)) (hv : v < 2 ^ 32)
    (ht : present (s.pde (pdindex v)) → ¬ T (frame (s.pde (pdindex v)))) : s'.walk v = s.walk v := by
  have hi : pdindex v < 1024 := by
    unfold pdindex
    omega
  unfold Mmu.walk
  rw [h.pde hd hi]
  by_cases hp : present (s.pde (pdindex v))
  · rw [h.pte hd hi (ht hp) (ptindex_lt v)]
  · rw [if_neg fun hx => hp hx.1, if_neg fun hx => hp hx.1]

theorem freshPage {f : Nat} (h : Off T s s') (hd : ¬ T (frame s.cr3)) (hf : s.FreshPage f) : s'.FreshPage f := by
  refine ⟨hf.aligned, h.cr3 ▸ hf.dir, fun k hk hp => ?_⟩
  rw [h.pde hd hk] at hp ⊢
  exact hf.table k hk hp

end Off

/-! ### A memory that is shown -/

/-- Where `φ` is defined, the machine shows `m`. -/
structure View (s : Mmu) (φ : Nat → Option Nat) (m : Bytes) : Prop where
  dir : s.cr3 % 4096 = 0
  lt : ∀ {v p}, φ v = some p → v < 2 ^ 32
  walk : ∀ {v p}, φ v = some p → s.walk v = some p
  byte : ∀ {v p}, φ v = some p → s.byte p = m v
  inj : ∀ {v w p}, φ v = some p → φ w = some p → v = w
  data : ∀ {v p}, φ v = some p → s.FreshPage (frame p)

/-- The frames that `φ` leads to. -/
def Touched (φ : Nat → Option Nat) (f : Nat) : Prop := ∃ v p, φ v = some p ∧ frame p = f

/-- `φ` is defined on `n` bytes from `a` on. -/
def Spans (φ : Nat → Option Nat) (a n : Nat) : Prop := ∀ v, a ≤ v → v < a + n → ∃ p, φ v = some p

theorem Spans.sub {φ : Nat → Option Nat} {a n c k : Nat} (h : Spans φ a n) (hc : a ≤ c) (hk : c + k ≤ a + n) :
    Spans φ c k := fun v h1 h2 => h v (by omega) (by omega)

/-- A step that leads to a machine that shows `m'`; outside of `φ` nothing changes. -/
def Yields (φ : Nat → Option Nat) (s : Mmu) (o : Option Mmu) (m' : Bytes) : Prop :=
  ∃ s', o = some s' ∧ View s' φ m' ∧ Off (Touched φ) s s'

namespace View
variable {φ : Nat → Option Nat} {m m' m₁ : Bytes} {a : Nat}

theorem loadByte (h : View s φ m) (hv : φ v = some p) : s.loadByte v = some (m v) := by
  unfold Mmu.loadByte
  rw [h.walk hv, Option.map_some, h.byte hv]

/-- The frames of the memory hold neither the directory nor a table. -/
theorem off_dir (h : View s φ m) : ¬ Touched φ (frame s.cr3) := by
  rintro ⟨v, p, hv, hp⟩
  rw [frame_of_mod h.dir] at hp
  exact (h.data hv).dir hp

theorem off_table (h : View s φ m) (hi : i < 1024) (hp : present (s.pde i)) : ¬ Touched φ (frame (s.pde i)) := by
  rintro ⟨v, p, hv, he⟩
  exact (h.data hv).table i hi hp he

/-- The same translation after a change in the frames of the memory. -/
theorem off (h : View s φ m) (ho : Off (Touched φ) s s') (hb : ∀ {v p}, φ v = some p → s'.byte p = m' v) :
    View s' φ m' where
  dir := ho.cr3 ▸ h.dir
  lt := h.lt
  walk {v p} hv := by
    have hi : pdindex v < 1024 := by
      have := h.lt hv
      unfold pdindex
      omega
    rw [ho.walk h.off_dir (h.lt hv) fun hp => h.off_table hi hp, h.walk hv]
  byte := hb
  inj := h.inj
  data hv := ho.freshPage h.off_dir (h.data hv)

theorem storeByte (h : View s φ m) (hv : φ v = some p) (b : BitVec 8) :
    Yields φ s (s.storeByte v b) (Function.update m v b) := by
  have ho : Off (Touched φ) s (s.setByte p b) := .setByte ⟨v, p, hv, rfl⟩
  refine ⟨s.setByte p b, ?_, h.off ho fun {w q} hw => ?_, ho⟩
  · unfold Mmu.storeByte
    rw [h.walk hv, Option.map_some]
  · rw [byte_setByte]
    by_cases hq : q = p
    · subst hq
      rw [h.inj hw hv, Function.update_self, Function.update_self]
    · have hne : w ≠ v := by
        rintro rfl
        exact hq (Option.some.inj (hw.symm.trans hv))
      rw [Function.update_of_ne hq, Function.update_of_ne hne, h.byte hw]

end View

namespace Yields
variable {φ : Nat → Option Nat} {m m' : Bytes} {o : Option Mmu} {f : Mmu → Option Mmu}

/-- One step after the other. -/
theorem bind (h : Yields φ s o m) (hf : ∀ s₁, View s₁ φ m → Yields φ s₁ (f s₁) m') : Yields φ s (o.bind f) m' := by
  obtain ⟨s₁, rfl, hv, ho⟩ := h
  obtain ⟨s₂, h2, hv2, ho2⟩ := hf s₁ hv
  exact ⟨s₂, h2, hv2, ho.trans ho2⟩

theorem of_eq {o' : Option Mmu} (h : Yields φ s o m) (he : o' = o) : Yields φ s o' m := he ▸ h

end Yields

namespace View
variable {φ : Nat → Option Nat} {m : Bytes} {a : Nat}

theorem loadWord (h : View s φ m) (ha : Spans φ a 4) : s.loadWord a = some (load32 m a) := by
  obtain ⟨p₀, h0⟩ := ha a (by omega) (by omega)
  obtain ⟨p₁, h1⟩ := ha (a + 1) (by omega) (by omega)
  obtain ⟨p₂, h2⟩ := ha (a + 2) (by omega) (by omega)
  obtain ⟨p₃, h3⟩ := ha (a + 3) (by omega) (by omega)
  simp only [Mmu.loadWord, h.loadByte h0, h.loadByte h1, h.loadByte h2, h.loadByte h3, Option.bind_eq_bind,
    Option.bind_some]
  rfl

theorem storeWord (h : View s φ m) (ha : Spans φ a 4) (x : Nat) : Yields φ s (s.storeWord a x) (store32 m a x) := by
  obtain ⟨p₀, h0⟩ := ha a (by omega) (by omega)
  obtain ⟨p₁, h1⟩ := ha (a + 1) (by omega) (by omega)
  obtain ⟨p₂, h2⟩ := ha (a + 2) (by omega) (by omega)
  obtain ⟨p₃, h3⟩ := ha (a + 3) (by omega) (by omega)
  rw [store32_eq]
  exact (h.storeByte h0 _).bind fun _ h => (h.storeByte h1 _).bind fun _ h =>
    (h.storeByte h2 _).bind fun _ h => h.storeByte h3 _

/-! ### Where a byte is missing -/

theorem loadWord_none {c : Nat} (hc : s.walk c = none) (h1 : a ≤ c) (h2 : c < a + 4) : s.loadWord a = none := by
  have hnone : s.loadByte c = none := by
    unfold Mmu.loadByte
    rw [hc, Option.map_none]
  obtain ⟨k, rfl⟩ := Nat.exists_eq_add_of_le h1
  have hk : k = 0 ∨ k = 1 ∨ k = 2 ∨ k = 3 := by omega
  unfold Mmu.loadWord
  rcases hk with rfl | rfl | rfl | rfl
  · rw [Nat.add_zero] at hnone
    simp only [hnone, Option.bind_eq_bind, Option.bind_none]
  · simp only [hnone, Option.bind_eq_bind, Option.bind_none, Option.bind_fun_none]
  · simp only [hnone, Option.bind_eq_bind, Option.bind_none, Option.bind_fun_none]
  · simp only [hnone, Option.bind_eq_bind, Option.bind_none, Option.bind_fun_none]

theorem walk_none {o : Option Mmu} {c : Nat} (h : View s φ m) (ho : Yields φ s o m') (hlt : c < 2 ^ 32)
    (hc : s.walk c = none) : ∃ s', o = some s' ∧ View s' φ m' ∧ s'.walk c = none := by
  obtain ⟨s', hs, hv, hoff⟩ := ho
  have hi : pdindex c < 1024 := by
    unfold pdindex
    omega
  exact ⟨s', hs, hv, (hoff.walk h.off_dir hlt fun hp => h.off_table hi hp).trans hc⟩

theorem storeWord_none {c : Nat} (h : View s φ m) (hlow : ∀ v, a ≤ v → v < c → ∃ p, φ v = some p) (hlt : c < 2 ^ 32)
    (hc : s.walk c = none) (h1 : a ≤ c) (h2 : c < a + 4) (x : Nat) : s.storeWord a x = none := by
  have hstep : ∀ {s : Mmu} {m : Bytes} {v : Nat} (b : BitVec 8), View s φ m → s.walk c = none → a ≤ v → v < c →
      ∃ s' m', s.storeByte v b = some s' ∧ View s' φ m' ∧ s'.walk c = none := fun b hv hc ha hb => by
    obtain ⟨p, hp⟩ := hlow _ ha hb
    obtain ⟨s', h1, h2, h3⟩ := hv.walk_none (hv.storeByte hp b) hlt hc
    exact ⟨s', _, h1, h2, h3⟩
  have hlast : ∀ {s : Mmu} (b : BitVec 8), s.walk c = none → s.storeByte c b = none := fun b hc => by
    unfold Mmu.storeByte
    rw [hc, Option.map_none]
  obtain ⟨k, rfl⟩ := Nat.exists_eq_add_of_le h1
  have hk : k = 0 ∨ k = 1 ∨ k = 2 ∨ k = 3 := by omega
  unfold Mmu.storeWord
  rcases hk with rfl | rfl | rfl | rfl
  · have hfirst : s.storeByte a (BitVec.ofNat 8 x) = none := hlast _ hc
    rw [hfirst]
    rfl
  · obtain ⟨s₁, m₁, e1, v1, c1⟩ := hstep (v := a) (BitVec.ofNat 8 x) h hc (by omega) (by omega)
    simp only [e1, Option.bind_eq_bind, Option.bind_some, hlast _ c1, Option.bind_none]
  · obtain ⟨s₁, m₁, e1, v1, c1⟩ := hstep (v := a) (BitVec.ofNat 8 x) h hc (by omega) (by omega)
    obtain ⟨s₂, m₂, e2, v2, c2⟩ := hstep (v := a + 1) (BitVec.ofNat 8 (x / 2 ^ 8)) v1 c1 (by omega) (by omega)
    simp only [e1, e2, Option.bind_eq_bind, Option.bind_some, hlast _ c2, Option.bind_none]
  · obtain ⟨s₁, m₁, e1, v1, c1⟩ := hstep (v := a) (BitVec.ofNat 8 x) h hc (by omega) (by omega)
    obtain ⟨s₂, m₂, e2, v2, c2⟩ := hstep (v := a + 1) (BitVec.ofNat 8 (x / 2 ^ 8)) v1 c1 (by omega) (by omega)
    obtain ⟨s₃, m₃, e3, v3, c3⟩ := hstep (v := a + 2) (BitVec.ofNat 8 (x / 2 ^ 16)) v2 c2 (by omega) (by omega)
    simp only [e1, e2, e3, Option.bind_eq_bind, Option.bind_some, hlast _ c3]

end View
end Mmu
end Krypton
