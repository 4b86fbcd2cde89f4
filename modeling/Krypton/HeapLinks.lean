import Krypton.Heap
import Krypton.Lib.Traced

/-!
# The links the heap follows

`kmalloc` and `kfree` once more, noting the header of every field they read or write: the same functions without the
notes (`kmallocN_eq`, `kfreeN_eq`).
-/

namespace Krypton
namespace Heap
open Traced

/-- A computation on the heap that notes headers. -/
abbrev Walk := Traced Heap Nat

/-! ### One access to a field -/

def getField (get : Bytes → Nat → Nat) (h : Nat) : Walk Nat := Noting h fun s => (get s.mem h, s)

def setField (set : Bytes → Nat → Nat → Bytes) (h v : Nat) : Walk Unit :=
  Noting h fun s => ((), { s with mem := set s.mem h v })

abbrev next (h : Nat) : Walk Nat := getField Bytes.next h
abbrev prev (h : Nat) : Walk Nat := getField Bytes.prev h
abbrev allocated (h : Nat) : Walk Nat := getField Bytes.allocated h
abbrev length (h : Nat) : Walk Nat := getField Bytes.length h

abbrev setNext (h v : Nat) : Walk Unit := setField Bytes.setNext h v
abbrev setPrev (h v : Nat) : Walk Unit := setField Bytes.setPrev h v
abbrev setAllocated (h v : Nat) : Walk Unit := setField Bytes.setAllocated h v
abbrev setLength (h v : Nat) : Walk Unit := setField Bytes.setLength h v

/-- `sys_base->sh_heap = v`. -/
def setShHeap (v : Nat) : Walk Unit := Silent fun s => ((), { s with shHeap := v })

/-- A loop over pages, which reads no header; `false` if it has not ended. -/
def pages (f : Heap → Option Heap) : Walk Bool := Silent fun s => ((f s).isSome, (f s).getD s)

/-! ### The functions -/

def splitChunkN (chunk len : Nat) : Walk Unit := do
  if sub32 (← length chunk) len > sizeofHeapHeader then
    let newchunk := add32 chunk (← length chunk)
    setPrev newchunk chunk
    setNext newchunk 0
    setAllocated newchunk 0
    setLength newchunk (sub32 (← length chunk) len)
    setNext chunk newchunk
    setLength chunk len

def findChunkN (l : Nat) : Nat → Nat → Nat → Walk (Option (Nat × Nat))
  | 0, _, _ => pure none
  | fuel + 1, curHeader, prevHeader =>
    if curHeader = 0 then pure (some (curHeader, prevHeader))
    else do
      if (← allocated curHeader) = 0 ∧ (← length curHeader) ≥ l then pure (some (curHeader, prevHeader))
      else findChunkN l fuel (← next curHeader) curHeader

/-- `kmalloc` behind its loop, where a chunk fits. -/
def takeChunkN (curHeader l : Nat) : Walk Nat := do
  splitChunkN curHeader l
  setAllocated curHeader 1
  pure (add32 curHeader sizeofHeapHeader)

/-- And where none does: `chunk_start` first. -/
def chunkStartN (prevHeader : Nat) : Walk Nat :=
  if prevHeader ≠ 0 then do
    pure (add32 prevHeader (← length prevHeader))
  else do
    setShHeap shHeapStart
    pure shHeapStart

/-- The new header, and the link to it. -/
def linkChunkN (chunkStart prevHeader l : Nat) : Walk Unit := do
  setPrev chunkStart prevHeader
  setNext chunkStart 0
  setAllocated chunkStart 1
  setLength chunkStart l
  setNext prevHeader chunkStart

def appendChunkN (fuel : Nat) (fresh : Bytes) (prevHeader l : Nat) : Walk (Option Nat) := do
  let chunkStart ← chunkStartN prevHeader
  if ← pages fun s => s.allocChunk fresh fuel chunkStart l then
    linkChunkN chunkStart prevHeader l
    pure (some (add32 chunkStart sizeofHeapHeader))
  else pure none

def kmallocN (fuel : Nat) (fresh : Bytes) (l : Nat) : Walk (Option Nat) := do
  let l := add32 l sizeofHeapHeader
  match ← findChunkN l fuel (← Silent fun s => (s.shHeap, s)) 0 with
  | none => pure none
  | some (curHeader, prevHeader) =>
    if curHeader ≠ 0 then do
      pure (some (← takeChunkN curHeader l))
    else appendChunkN fuel fresh prevHeader l

def glueNextN (chunk : Nat) : Walk Unit := do
  if (← next chunk) ≠ 0 then
    if (← allocated (← next chunk)) = 0 then
      setLength chunk ((← length chunk) + (← length (← next chunk)))
      setPrev (← next (← next chunk)) chunk
      setNext chunk (← next (← next chunk))

def gluePrevN (chunk : Nat) : Walk Nat := do
  if (← prev chunk) ≠ 0 then
    if (← allocated (← prev chunk)) = 0 then
      setLength (← prev chunk) ((← length (← prev chunk)) + (← length chunk))
      setNext (← prev chunk) (← next chunk)
      setPrev (← next chunk) (← prev chunk)
      prev chunk
    else pure chunk
  else pure chunk

/-- `free_chunk` up to its loop. -/
def unlinkChunkN (chunk : Nat) : Walk Unit := do
  setNext (← prev chunk) 0
  if (← prev chunk) = 0 then setShHeap 0 else pure ()

def freeChunkN (fuel chunk : Nat) : Walk Bool := do
  unlinkChunkN chunk
  pages fun s => s.shrink fuel chunk

def glueChunkN (fuel chunk : Nat) : Walk Bool := do
  glueNextN chunk
  let chunk ← gluePrevN chunk
  if (← next chunk) = 0 then freeChunkN fuel chunk
  else pure true

def kfreeN (fuel p : Nat) : Walk Bool := do
  let header := sub32 p sizeofHeapHeader
  setAllocated header 0
  glueChunkN fuel header

/-! ### Without the notes -/

variable {s : Heap} {p h v l chunk len fuel : Nat}
  {get : Bytes → Nat → Nat} {set : Bytes → Nat → Nat → Bytes}

@[simp] theorem val_getField : (getField get h).val s = get s.mem h := (rfl)
@[simp] theorem state_getField : (getField get h).state s = s := (rfl)
@[simp] theorem notes_getField : (getField get h).notes s = [h] := (rfl)
@[simp] theorem state_setField : (setField set h v).state s = { s with mem := set s.mem h v } := (rfl)
@[simp] theorem notes_setField : (setField set h v).notes s = [h] := (rfl)

theorem splitChunkN_state : (splitChunkN chunk len).state s = { s with mem := splitChunk s.mem chunk len } := by
  unfold splitChunkN splitChunk
  simp only [state_bind, state_ite, state_pure, val_getField, state_getField, state_setField]
  split_ifs
  · rfl
  · rfl

theorem findChunkN_eq (s : Heap) (l fuel curHeader prevHeader : Nat) :
    (findChunkN l fuel curHeader prevHeader).val s = findChunk s.mem l fuel curHeader prevHeader ∧
      (findChunkN l fuel curHeader prevHeader).state s = s := by
  induction fuel generalizing curHeader prevHeader with
  | zero => exact ⟨rfl, rfl⟩
  | succ fuel ih =>
    unfold findChunkN findChunk
    simp only [val_bind, state_bind, val_ite, state_ite, val_pure, state_pure, val_getField, state_getField, ih,
      ite_self, and_true]

theorem glueNextN_state : (glueNextN chunk).state s = { s with mem := glueNext s.mem chunk } := by
  unfold glueNextN glueNext
  simp only [state_bind, state_ite, state_pure, val_getField, state_getField, state_setField]
  split_ifs with h1 h2 h3 h3 h2
  · rfl
  · exact absurd ⟨h1, h2⟩ h3
  · exact absurd h3.2 h2
  · rfl
  · exact absurd h2.1 h1
  · rfl

theorem gluePrevN_eq : (gluePrevN chunk).val s = (gluePrev s.mem chunk).2 ∧
    (gluePrevN chunk).state s = { s with mem := (gluePrev s.mem chunk).1 } := by
  unfold gluePrevN gluePrev
  simp only [val_bind, state_bind, val_ite, state_ite, val_pure, state_pure]
  simp only [val_getField, state_getField, state_setField]
  split_ifs with h1 h2 h3 h3 h2
  · exact ⟨rfl, rfl⟩
  · exact absurd ⟨h1, h2⟩ h3
  · exact absurd h3.2 h2
  · exact ⟨rfl, rfl⟩
  · exact absurd h2.1 h1
  · exact ⟨rfl, rfl⟩

/-- The heap a computation ends in, if its loops end. -/
def result (w : Walk Bool) (s : Heap) : Option Heap := if w.val s then some (w.state s) else none

theorem result_eq_some {w : Walk Bool} {t : Heap} (h : result w s = some t) : w.val s = true ∧ w.state s = t := by
  unfold result at h
  split_ifs at h with hv
  exact ⟨hv, Option.some.inj h⟩

theorem result_pages (f : Heap → Option Heap) : result (pages f) s = f s := by
  unfold result pages
  rw [val_silent, state_silent]
  cases f s with
  | none => rfl
  | some t => rfl

theorem result_bind {α : Type} (w : Walk α) (f : α → Walk Bool) :
    result (w >>= f) s = result (f (w.val s)) (w.state s) := rfl

theorem result_ite {c : Prop} [Decidable c] (w w' : Walk Bool) :
    result (if c then w else w') s = if c then result w s else result w' s :=
  apply_ite (result · s) c w w'

theorem freeChunkN_eq : result (freeChunkN fuel chunk) s = s.freeChunk fuel chunk := by
  unfold freeChunkN unlinkChunkN freeChunk
  simp only [result_bind, result_pages, state_bind, state_ite, state_pure, val_getField, state_getField, state_setField]
  split_ifs
  · rfl
  · rfl

theorem glueChunkN_eq : result (glueChunkN fuel chunk) s = s.glueChunk fuel chunk := by
  unfold glueChunkN glueChunk
  simp only [result_bind, result_ite, freeChunkN_eq, val_getField, state_getField, gluePrevN_eq, glueNextN_state]
  rfl

theorem kfreeN_eq : result (kfreeN fuel p) s = s.kfree fuel p := by
  unfold kfreeN kfree
  rw [result_bind, glueChunkN_eq, state_setField]

/-- The block that a computation returns and the heap it ends in, if its loops end. -/
def block (w : Walk (Option Nat)) (s : Heap) : Option (Nat × Heap) := (w.val s).map fun p => (p, w.state s)

theorem block_eq_some {w : Walk (Option Nat)} (h : w.val s = some p) : block w s = some (p, w.state s) := by
  rw [block, h]
  rfl

theorem block_bind {α : Type} (w : Walk α) (f : α → Walk (Option Nat)) :
    block (w >>= f) s = block (f (w.val s)) (w.state s) := rfl

theorem block_ite {c : Prop} [Decidable c] (w w' : Walk (Option Nat)) :
    block (if c then w else w') s = if c then block w s else block w' s :=
  apply_ite (block · s) c w w'

theorem kmallocN_eq (fresh : Bytes) : block (kmallocN fuel fresh l) s = kmalloc fuel fresh s l := by
  unfold kmallocN kmalloc
  simp only [block_bind, val_silent, state_silent, findChunkN_eq]
  cases findChunk s.mem (add32 l sizeofHeapHeader) fuel s.shHeap 0 with
  | none => rfl
  | some r =>
    obtain ⟨curHeader, prevHeader⟩ := r
    simp only [block_ite, block_bind, takeChunkN, val_bind, state_bind, splitChunkN_state, state_setField, state_pure,
      val_pure, Option.bind_eq_bind, Option.bind_some]
    split_ifs with hcur hprev
    · rfl
    · unfold appendChunkN linkChunkN chunkStartN
      simp only [block_bind, block_ite, hprev, if_true, val_bind, state_bind, val_getField, state_getField, val_pure,
        state_pure, pages, val_silent, state_silent, state_setField, not_false_eq_true, ne_eq]
      cases allocChunk fresh fuel s (add32 prevHeader (s.mem.length prevHeader)) (add32 l sizeofHeapHeader) with
      | none => rfl
      | some t => rfl
    · unfold appendChunkN linkChunkN chunkStartN
      simp only [block_bind, block_ite, hprev, if_false, val_bind, state_bind, setShHeap, val_pure, state_pure, pages,
        val_silent, state_silent, state_setField]
      cases allocChunk fresh fuel { s with shHeap := shHeapStart } shHeapStart (add32 l sizeofHeapHeader) with
      | none => rfl
      | some t => rfl

end Heap
end Krypton
