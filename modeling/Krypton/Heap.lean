import Krypton.Lib.Words

/-!
# `pmm.c`: the kernel heap

`kmalloc` and `kfree` over a flat memory of bytes: a chunk is a header of twelve bytes, `next`, `prev` and a word with the
bit field `allocated : 1, length : 31`, and the block behind it. Addresses and lengths are 32-bit words, so sums are
taken modulo `2 ^ 32`. `alloc_chunk` maps the pages at `sh_heap_max`; what they hold is whatever the frames held
(`fresh`). `fuel` bounds the loops; a function returns `none` when a loop has not ended.

There are no page tables here, and no access faults. This is the view of the heap that `Krypton.PagedHeap`, where there
are, refines as long as the headers lie in mapped pages below the page stack.
-/

namespace Krypton

def shHeapStart : Nat := 0xC0400000

/-- `sizeof (heap_header_t)`. -/
def sizeofHeapHeader : Nat := 12

/-- Sum and difference of `uint32_t`. -/
def add32 (a b : Nat) : Nat := (a + b) % 2 ^ 32
def sub32 (a b : Nat) : Nat := (a + (2 ^ 32 - b)) % 2 ^ 32

/-! ### The fields of a header -/

namespace Bytes

def next (m : Bytes) (h : Nat) : Nat := load32 m h
def prev (m : Bytes) (h : Nat) : Nat := load32 m (h + 4)
def allocated (m : Bytes) (h : Nat) : Nat := load32 m (h + 8) % 2
def length (m : Bytes) (h : Nat) : Nat := load32 m (h + 8) / 2

def setNext (m : Bytes) (h v : Nat) : Bytes := store32 m h v
def setPrev (m : Bytes) (h v : Nat) : Bytes := store32 m (h + 4) v
def setAllocated (m : Bytes) (h b : Nat) : Bytes := store32 m (h + 8) (2 * m.length h + b)
def setLength (m : Bytes) (h l : Nat) : Bytes := store32 m (h + 8) (2 * (l % 2 ^ 31) + m.allocated h)

end Bytes

structure Heap where
  mem : Bytes
  shHeap : Nat
  shHeapMax : Nat
  /-- The pages `alloc_chunk` has mapped and `free_chunk` has not unmapped, newest first. -/
  mapped : List Nat

namespace Heap

/-! ### `kmalloc` -/

/-- `split_chunk`, whose new chunk lies at the old end of `chunk`. -/
def splitChunk (m : Bytes) (chunk len : Nat) : Bytes :=
  if sub32 (m.length chunk) len > sizeofHeapHeader then
    let newchunk := add32 chunk (m.length chunk)
    let m := m.setPrev newchunk chunk
    let m := m.setNext newchunk 0
    let m := m.setAllocated newchunk 0
    let m := m.setLength newchunk (sub32 (m.length chunk) len)
    let m := m.setNext chunk newchunk
    m.setLength chunk len
  else m

/-- `mm_map` of the page that `pm_alloc` returns. -/
def mapPage (s : Heap) (fresh : Bytes) (page : Nat) : Heap :=
  { s with
    mem := fun x => if page ≤ x ∧ x < page + 0x1000 then fresh x else s.mem x
    mapped := page :: s.mapped }

def allocChunk (fresh : Bytes) : Nat → Heap → Nat → Nat → Option Heap
  | 0, _, _, _ => none
  | fuel + 1, s, start, len =>
    if add32 start len > s.shHeapMax then
      let s := s.mapPage fresh s.shHeapMax
      allocChunk fresh fuel { s with shHeapMax := add32 s.shHeapMax 0x1000 } start len
    else some s

/-- The loop of `kmalloc`: `cur_header`, `NULL` if no chunk fits, and `prev_header`. -/
def findChunk (m : Bytes) (l : Nat) : Nat → Nat → Nat → Option (Nat × Nat)
  | 0, _, _ => none
  | fuel + 1, curHeader, prevHeader =>
    if curHeader = 0 then some (curHeader, prevHeader)
    else if m.allocated curHeader = 0 ∧ m.length curHeader ≥ l then some (curHeader, prevHeader)
    else findChunk m l fuel (m.next curHeader) curHeader

def kmalloc (fuel : Nat) (fresh : Bytes) (s : Heap) (l : Nat) : Option (Nat × Heap) := do
  let l := add32 l sizeofHeapHeader
  let (curHeader, prevHeader) ← findChunk s.mem l fuel s.shHeap 0
  if curHeader ≠ 0 then
    let m := splitChunk s.mem curHeader l
    let m := m.setAllocated curHeader 1
    some (add32 curHeader sizeofHeapHeader, { s with mem := m })
  else
    let chunkStart := if prevHeader ≠ 0 then add32 prevHeader (s.mem.length prevHeader) else shHeapStart
    let s := if prevHeader ≠ 0 then s else { s with shHeap := chunkStart }
    let s ← allocChunk fresh fuel s chunkStart l
    let m := s.mem.setPrev chunkStart prevHeader
    let m := m.setNext chunkStart 0
    let m := m.setAllocated chunkStart 1
    let m := m.setLength chunkStart l
    -- through `NULL` for the first chunk
    let m := m.setNext prevHeader chunkStart
    some (add32 chunkStart sizeofHeapHeader, { s with mem := m })

/-! ### `kfree` -/

/-- `pm_free` of the page's frame and `mm_unmap`. -/
def unmapPage (s : Heap) (page : Nat) : Heap := { s with mapped := s.mapped.filter fun x => x ≠ page }

/-- The loop of `free_chunk`. -/
def shrink : Nat → Heap → Nat → Option Heap
  | 0, _, _ => none
  | fuel + 1, s, chunk =>
    if sub32 s.shHeapMax 0x1000 ≥ chunk then
      let s := { s with shHeapMax := sub32 s.shHeapMax 0x1000 }
      shrink fuel (s.unmapPage s.shHeapMax) chunk
    else some s

def freeChunk (fuel : Nat) (s : Heap) (chunk : Nat) : Option Heap :=
  let s := { s with mem := s.mem.setNext (s.mem.prev chunk) 0 }
  let s := if s.mem.prev chunk = 0 then { s with shHeap := 0 } else s
  shrink fuel s chunk

/-- The first half of `glue_chunk`: a free successor becomes part of `chunk`. -/
def glueNext (m : Bytes) (chunk : Nat) : Bytes :=
  if m.next chunk ≠ 0 ∧ m.allocated (m.next chunk) = 0 then
    let m := m.setLength chunk (m.length chunk + m.length (m.next chunk))
    let m := m.setPrev (m.next (m.next chunk)) chunk
    m.setNext chunk (m.next (m.next chunk))
  else m

/-- The second half: `chunk` becomes part of a free predecessor, which is `chunk` from then on. -/
def gluePrev (m : Bytes) (chunk : Nat) : Bytes × Nat :=
  if m.prev chunk ≠ 0 ∧ m.allocated (m.prev chunk) = 0 then
    let m := m.setLength (m.prev chunk) (m.length (m.prev chunk) + m.length chunk)
    let m := m.setNext (m.prev chunk) (m.next chunk)
    let m := m.setPrev (m.next chunk) (m.prev chunk)
    (m, m.prev chunk)
  else (m, chunk)

def glueChunk (fuel : Nat) (s : Heap) (chunk : Nat) : Option Heap :=
  let m := glueNext s.mem chunk
  let r := gluePrev m chunk
  let s := { s with mem := r.1 }
  if s.mem.next r.2 = 0 then s.freeChunk fuel r.2 else some s

def kfree (fuel : Nat) (s : Heap) (p : Nat) : Option Heap :=
  let header := sub32 p sizeofHeapHeader
  let s := { s with mem := s.mem.setAllocated header 0 }
  s.glueChunk fuel header

end Heap
end Krypton
