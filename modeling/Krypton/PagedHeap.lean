import Krypton.HeapLinks
import Krypton.VirtualBytes

/-!
# `pmm.c`: the kernel heap on page frames

The functions of `Krypton.Heap` one level down: a header is read and written through the page tables, `alloc_chunk`
takes its pages from `pm_alloc` and maps them with `mm_map`, and `free_chunk` gives them back. A function stops at a page
fault, where `page_fault` ends in `panic`, or when its fuel has run out. It notes the header of every field it reads or
writes, the one it faults at included.

On a machine that shows the memory of a flat heap (`Shown`) the parts that only go through headers follow those of the
flat heap (`splitChunk_follows`, `linkChunk_follows`, `glueNext_follows`, `gluePrev_follows`, `unlinkChunk_follows`).
-/

namespace Krypton

/-! ### The fields of a header -/

namespace Mmu

def next (s : Mmu) (h : Nat) : Option Nat := s.loadWord h
def prev (s : Mmu) (h : Nat) : Option Nat := s.loadWord (h + 4)
def allocated (s : Mmu) (h : Nat) : Option Nat := (s.loadWord (h + 8)).map fun w => w % 2
def length (s : Mmu) (h : Nat) : Option Nat := (s.loadWord (h + 8)).map fun w => w / 2

def setNext (s : Mmu) (h v : Nat) : Option Mmu := s.storeWord h v
def setPrev (s : Mmu) (h v : Nat) : Option Mmu := s.storeWord (h + 4) v

def setAllocated (s : Mmu) (h b : Nat) : Option Mmu := do
  let l ← s.length h
  s.storeWord (h + 8) (2 * l + b)

def setLength (s : Mmu) (h l : Nat) : Option Mmu := do
  let b ← s.allocated h
  s.storeWord (h + 8) (2 * (l % 2 ^ 31) + b)

end Mmu

/-- The part of `sys_base` that the heap and the page allocator use. -/
structure PagedHeap extends Pmm where
  shHeap : Nat
  shHeapMax : Nat

/-- Why a function has not returned. -/
inductive Stop
  | pageFault
  | unfinished
  deriving DecidableEq

namespace PagedHeap

/-- A computation on the paged heap that notes headers. -/
abbrev Walk := Stopping PagedHeap Nat Stop

/-! ### One access to a field -/

def getField (get : Mmu → Nat → Option Nat) (h : Nat) : Walk Nat := fun s =>
  match get s.mmu h with
  | none => (.error .pageFault, s, [h])
  | some v => (.ok v, s, [h])

def setField (set : Mmu → Nat → Nat → Option Mmu) (h v : Nat) : Walk Unit := fun s =>
  match set s.mmu h v with
  | none => (.error .pageFault, s, [h])
  | some m => (.ok (), { s with mmu := m }, [h])

abbrev next (h : Nat) : Walk Nat := getField Mmu.next h
abbrev prev (h : Nat) : Walk Nat := getField Mmu.prev h
abbrev allocated (h : Nat) : Walk Nat := getField Mmu.allocated h
abbrev length (h : Nat) : Walk Nat := getField Mmu.length h

abbrev setNext (h v : Nat) : Walk Unit := setField Mmu.setNext h v
abbrev setPrev (h v : Nat) : Walk Unit := setField Mmu.setPrev h v
abbrev setAllocated (h v : Nat) : Walk Unit := setField Mmu.setAllocated h v
abbrev setLength (h v : Nat) : Walk Unit := setField Mmu.setLength h v

section
variable {s : PagedHeap} {get : Mmu → Nat → Option Nat} {set : Mmu → Nat → Nat → Option Mmu} {h v x : Nat} {m : Mmu}

theorem getField_ok (hs : get s.mmu h = some x) : getField get h s = (.ok x, s, [h]) := by
  unfold getField
  rw [hs]

theorem setField_ok (hs : set s.mmu h v = some m) : setField set h v s = (.ok (), { s with mmu := m }, [h]) := by
  unfold setField
  rw [hs]

theorem setField_fault (hs : set s.mmu h v = none) : setField set h v s = (.error .pageFault, s, [h]) := by
  unfold setField
  rw [hs]

end

/-- `sys_base->sh_heap`. -/
def getShHeap : Walk Nat := fun s => (.ok s.shHeap, s, [])
def setShHeap (v : Nat) : Walk Unit := fun s => (.ok (), { s with shHeap := v }, [])

/-- A loop over pages, which reads no header. -/
def pages (f : PagedHeap → Except Stop PagedHeap) : Walk Unit := fun s =>
  match f s with
  | .error r => (.error r, s, [])
  | .ok t => (.ok (), t, [])

theorem pages_ok {f : PagedHeap → Except Stop PagedHeap} {s t : PagedHeap} (h : f s = .ok t) :
    pages f s = (.ok (), t, []) := by
  rw [pages, h]

/-- An access that may fault. -/
def orFault {α : Type} : Option α → Except Stop α
  | none => .error .pageFault
  | some a => .ok a

theorem orFault_bind {α β : Type} (a : α) (f : α → Except Stop β) : (orFault (some a) >>= f) = f a := rfl

/-! ### `kmalloc` -/

def splitChunk (chunk len : Nat) : Walk Unit := do
  if sub32 (← length chunk) len > sizeofHeapHeader then
    let newchunk := add32 chunk (← length chunk)
    setPrev newchunk chunk
    setNext newchunk 0
    setAllocated newchunk 0
    setLength newchunk (sub32 (← length chunk) len)
    setNext chunk newchunk
    setLength chunk len

def allocChunk : Nat → PagedHeap → Nat → Nat → Except Stop PagedHeap
  | 0, _, _, _ => .error .unfinished
  | fuel + 1, s, start, len =>
    if add32 start len > s.shHeapMax then do
      let (page, p) ← orFault s.pmAlloc
      let (_, p) ← orFault (p.mmMap page s.shHeapMax (pageWrite ||| pageUser))
      allocChunk fuel { s with toPmm := p, shHeapMax := add32 s.shHeapMax 0x1000 } start len
    else .ok s

/-- The loop of `kmalloc`: `cur_header`, `NULL` if no chunk fits, and `prev_header`. -/
def findChunk (l : Nat) : Nat → Nat → Nat → Walk (Nat × Nat)
  | 0, _, _ => throw .unfinished
  | fuel + 1, curHeader, prevHeader =>
    if curHeader = 0 then pure (curHeader, prevHeader)
    else do
      if (← allocated curHeader) = 0 ∧ (← length curHeader) ≥ l then pure (curHeader, prevHeader)
      else findChunk l fuel (← next curHeader) curHeader

/-- `kmalloc` behind its loop, where a chunk fits. -/
def takeChunk (curHeader l : Nat) : Walk Nat := do
  splitChunk curHeader l
  setAllocated curHeader 1
  pure (add32 curHeader sizeofHeapHeader)

/-- And where none does: `chunk_start` first. -/
def chunkStart (prevHeader : Nat) : Walk Nat :=
  if prevHeader ≠ 0 then do
    pure (add32 prevHeader (← length prevHeader))
  else do
    setShHeap shHeapStart
    pure shHeapStart

/-- The new header, and the link to it. -/
def linkChunk (chunkStart prevHeader l : Nat) : Walk Unit := do
  setPrev chunkStart prevHeader
  setNext chunkStart 0
  setAllocated chunkStart 1
  setLength chunkStart l
  setNext prevHeader chunkStart

def appendChunk (fuel prevHeader l : Nat) : Walk Nat := do
  let start ← chunkStart prevHeader
  pages fun s => allocChunk fuel s start l
  linkChunk start prevHeader l
  pure (add32 start sizeofHeapHeader)

def kmalloc (fuel l : Nat) : Walk Nat := do
  let l := add32 l sizeofHeapHeader
  let (curHeader, prevHeader) ← findChunk l fuel (← getShHeap) 0
  if curHeader ≠ 0 then takeChunk curHeader l
  else appendChunk fuel prevHeader l

/-! ### `kfree` -/

/-- The loop of `free_chunk`. -/
def shrink : Nat → PagedHeap → Nat → Except Stop PagedHeap
  | 0, _, _ => .error .unfinished
  | fuel + 1, s, chunk =>
    if sub32 s.shHeapMax 0x1000 ≥ chunk then do
      let s := { s with shHeapMax := sub32 s.shHeapMax 0x1000 }
      let page ← orFault (s.mmu.getPhysaddr s.shHeapMax)
      let p ← orFault (s.pmFree page)
      let m ← orFault (p.mmu.mmUnmap s.shHeapMax)
      shrink fuel { s with toPmm := { p with mmu := m } } chunk
    else .ok s

/-- `free_chunk` up to its loop. -/
def unlinkChunk (chunk : Nat) : Walk Unit := do
  setNext (← prev chunk) 0
  if (← prev chunk) = 0 then setShHeap 0 else pure ()

def freeChunk (fuel chunk : Nat) : Walk Unit := do
  unlinkChunk chunk
  pages fun s => shrink fuel s chunk

/-- The first half of `glue_chunk`: a free successor becomes part of `chunk`. -/
def glueNext (chunk : Nat) : Walk Unit := do
  if (← next chunk) ≠ 0 then
    if (← allocated (← next chunk)) = 0 then
      setLength chunk ((← length chunk) + (← length (← next chunk)))
      setPrev (← next (← next chunk)) chunk
      setNext chunk (← next (← next chunk))

/-- The second half: `chunk` becomes part of a free predecessor, which is `chunk` from then on. -/
def gluePrev (chunk : Nat) : Walk Nat := do
  if (← prev chunk) ≠ 0 then
    if (← allocated (← prev chunk)) = 0 then
      setLength (← prev chunk) ((← length (← prev chunk)) + (← length chunk))
      setNext (← prev chunk) (← next chunk)
      setPrev (← next chunk) (← prev chunk)
      prev chunk
    else pure chunk
  else pure chunk

def glueChunk (fuel chunk : Nat) : Walk Unit := do
  glueNext chunk
  let chunk ← gluePrev chunk
  if (← next chunk) = 0 then freeChunk fuel chunk
  else pure ()

def kfree (fuel p : Nat) : Walk Unit := do
  let header := sub32 p sizeofHeapHeader
  setAllocated header 0
  glueChunk fuel header

end PagedHeap

/-! ### Headers that are shown -/

namespace Mmu.View
variable {s : Mmu} {φ : Nat → Option Nat} {m : Bytes} {h v : Nat}

theorem next (hv : View s φ m) (hh : Spans φ h 12) : s.next h = some (m.next h) :=
  hv.loadWord (hh.sub (by omega) (by omega))

theorem prev (hv : View s φ m) (hh : Spans φ h 12) : s.prev h = some (m.prev h) :=
  hv.loadWord (hh.sub (by omega) (by omega))

theorem allocated (hv : View s φ m) (hh : Spans φ h 12) : s.allocated h = some (m.allocated h) := by
  rw [Mmu.allocated, hv.loadWord (hh.sub (by omega) (by omega))]
  rfl

theorem length (hv : View s φ m) (hh : Spans φ h 12) : s.length h = some (m.length h) := by
  rw [Mmu.length, hv.loadWord (hh.sub (by omega) (by omega))]
  rfl

theorem setNext (hv : View s φ m) (hh : Spans φ h 12) (v : Nat) : Yields φ s (s.setNext h v) (m.setNext h v) :=
  hv.storeWord (hh.sub (by omega) (by omega)) v

theorem setPrev (hv : View s φ m) (hh : Spans φ h 12) (v : Nat) : Yields φ s (s.setPrev h v) (m.setPrev h v) :=
  hv.storeWord (hh.sub (by omega) (by omega)) v

theorem setAllocated (hv : View s φ m) (hh : Spans φ h 12) (b : Nat) :
    Yields φ s (s.setAllocated h b) (m.setAllocated h b) := by
  refine (hv.storeWord (hh.sub (by omega) (by omega)) _).of_eq ?_
  rw [Mmu.setAllocated, hv.length hh]
  rfl

theorem setLength (hv : View s φ m) (hh : Spans φ h 12) (l : Nat) :
    Yields φ s (s.setLength h l) (m.setLength h l) := by
  refine (hv.storeWord (hh.sub (by omega) (by omega)) _).of_eq ?_
  rw [Mmu.setLength, hv.allocated hh]
  rfl

end Mmu.View

namespace PagedHeap
open Mmu

/-- `s` is `s₀` after stores into what `φ` shows, which now is the memory of `t`. -/
structure Shown (φ : Nat → Option Nat) (s₀ : PagedHeap) (t : Heap) (s : PagedHeap) : Prop where
  view : View s.mmu φ t.mem
  off : Off (Touched φ) s₀.mmu s.mmu
  shHeap : s.shHeap = t.shHeap
  rest : s = { s₀ with mmu := s.mmu, shHeap := s.shHeap }

variable {φ : Nat → Option Nat} {s₀ s : PagedHeap} {t : Heap} {h v chunk len : Nat}

theorem Shown.start (hv : View s₀.mmu φ t.mem) (hs : s₀.shHeap = t.shHeap) : Shown φ s₀ t s₀ := ⟨hv, .refl _, hs, rfl⟩

/-- A computation on headers that does what one on the flat heap does, if `φ` shows the headers. -/
abbrev FollowsN {α : Type} (φ : Nat → Option Nat) (s₀ : PagedHeap) (w : Heap.Walk α) (w' : Walk α) : Prop :=
  Follows (fun x => Spans φ x 12) (Shown φ s₀) w w'

theorem getField_follows {get : Mmu → Nat → Option Nat} {get' : Bytes → Nat → Nat}
    (hget : ∀ {m b}, View m φ b → Spans φ h 12 → get m h = some (get' b h)) :
    FollowsN φ s₀ (Heap.getField get' h) (getField get h) := by
  intro t s hR hgood
  have hv : get s.mmu h = some (get' t.mem h) := hget hR.view (hgood h (by simp))
  exact ⟨s, getField_ok hv, hR⟩

theorem setField_follows {set : Mmu → Nat → Nat → Option Mmu} {set' : Bytes → Nat → Nat → Bytes}
    (hset : ∀ {m b}, View m φ b → Spans φ h 12 → Yields φ m (set m h v) (set' b h v)) :
    FollowsN φ s₀ (Heap.setField set' h v) (setField set h v) := by
  intro t s hR hgood
  obtain ⟨m, hm, hview, hoff⟩ := hset hR.view (hgood h (by simp))
  refine ⟨{ s with mmu := m }, setField_ok hm, hview, hR.off.trans hoff, hR.shHeap, ?_⟩
  rw [hR.rest]

theorem next_follows : FollowsN φ s₀ (Heap.next h) (next h) := getField_follows fun hv hh => hv.next hh
theorem prev_follows : FollowsN φ s₀ (Heap.prev h) (prev h) := getField_follows fun hv hh => hv.prev hh
theorem allocated_follows : FollowsN φ s₀ (Heap.allocated h) (allocated h) := getField_follows fun hv hh => hv.allocated hh
theorem length_follows : FollowsN φ s₀ (Heap.length h) (length h) := getField_follows fun hv hh => hv.length hh

theorem setNext_follows : FollowsN φ s₀ (Heap.setNext h v) (setNext h v) :=
  setField_follows fun hv hh => hv.setNext hh v
theorem setPrev_follows : FollowsN φ s₀ (Heap.setPrev h v) (setPrev h v) :=
  setField_follows fun hv hh => hv.setPrev hh v
theorem setAllocated_follows : FollowsN φ s₀ (Heap.setAllocated h v) (setAllocated h v) :=
  setField_follows fun hv hh => hv.setAllocated hh v
theorem setLength_follows : FollowsN φ s₀ (Heap.setLength h v) (setLength h v) :=
  setField_follows fun hv hh => hv.setLength hh v

theorem setShHeap_follows : FollowsN φ s₀ (Heap.setShHeap v) (setShHeap v) := by
  intro t s hR _
  refine ⟨{ s with shHeap := v }, rfl, hR.view, hR.off, rfl, ?_⟩
  rw [hR.rest]

/-! ### The functions that only go through headers -/

theorem splitChunk_follows : FollowsN φ s₀ (Heap.splitChunkN chunk len) (splitChunk chunk len) := by
  refine length_follows.bind fun _ => .ite (length_follows.bind fun _ => ?_) (.pure _)
  refine setPrev_follows.bind fun _ => setNext_follows.bind fun _ => setAllocated_follows.bind fun _ => ?_
  exact length_follows.bind fun _ => setLength_follows.bind fun _ => setNext_follows.bind fun _ => setLength_follows

theorem takeChunk_follows : FollowsN φ s₀ (Heap.takeChunkN chunk len) (takeChunk chunk len) :=
  splitChunk_follows.bind fun _ => setAllocated_follows.bind fun _ => .pure _

theorem linkChunk_follows {p l : Nat} : FollowsN φ s₀ (Heap.linkChunkN h p l) (linkChunk h p l) :=
  setPrev_follows.bind fun _ => setNext_follows.bind fun _ => setAllocated_follows.bind fun _ =>
    setLength_follows.bind fun _ => setNext_follows

theorem chunkStart_follows {p : Nat} : FollowsN φ s₀ (Heap.chunkStartN p) (chunkStart p) :=
  .ite (length_follows.bind fun _ => .pure _) (setShHeap_follows.bind fun _ => .pure _)

theorem glueNext_follows : FollowsN φ s₀ (Heap.glueNextN chunk) (glueNext chunk) := by
  refine next_follows.bind fun _ => .ite (next_follows.bind fun _ => allocated_follows.bind fun _ => .ite ?_ (.pure _))
    (.pure _)
  refine length_follows.bind fun _ => next_follows.bind fun _ => length_follows.bind fun _ =>
    setLength_follows.bind fun _ => ?_
  refine next_follows.bind fun _ => next_follows.bind fun _ => setPrev_follows.bind fun _ => ?_
  exact next_follows.bind fun _ => next_follows.bind fun _ => setNext_follows

theorem gluePrev_follows : FollowsN φ s₀ (Heap.gluePrevN chunk) (gluePrev chunk) := by
  refine prev_follows.bind fun _ => .ite (prev_follows.bind fun _ => allocated_follows.bind fun _ => .ite ?_ (.pure _))
    (.pure _)
  refine prev_follows.bind fun _ => prev_follows.bind fun _ => length_follows.bind fun _ => length_follows.bind fun _ =>
    setLength_follows.bind fun _ => ?_
  refine prev_follows.bind fun _ => next_follows.bind fun _ => setNext_follows.bind fun _ => ?_
  exact next_follows.bind fun _ => prev_follows.bind fun _ => setPrev_follows.bind fun _ => prev_follows

theorem unlinkChunk_follows : FollowsN φ s₀ (Heap.unlinkChunkN chunk) (unlinkChunk chunk) :=
  prev_follows.bind fun _ => setNext_follows.bind fun _ => prev_follows.bind fun _ => .ite setShHeap_follows (.pure _)

end PagedHeap
end Krypton
