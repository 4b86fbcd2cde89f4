import Mathlib.Data.BitVec

/-!
# `list.c`: Exec lists over memory words

Memory is the 32-bit words at byte addresses (`Mem`); `0` is `NULL`. A `list_node_t` at `n` has its
`next` word at `n`, `prev` at `n + 4` and `pri` at `n + 12`. A `list_head_t` at `l` is the three words
`head`, `tail`, `tailPrev`: read as a node, `l` is the head sentinel (`next` is `head`, `prev` is
`tail`) and `l + 4` the tail sentinel (`next` is `tail`, `prev` is `tailPrev`).

The functions read and write in the order of the source. `enqueue` walks a list that may be cyclic
in a corrupted memory, so it takes fuel and returns `none` when the walk has not ended.
-/

namespace Krypton

/-- The 32-bit words of memory, by byte address. -/
def Mem := Nat → Nat

namespace Mem

def set (m : Mem) (a : Nat) (v : Nat) : Mem := fun x => if x = a then v else m x

def next (m : Mem) (n : Nat) : Nat := m n
def prev (m : Mem) (n : Nat) : Nat := m (n + 4)
def pri (m : Mem) (n : Nat) : Int := (BitVec.ofNat 32 (m (n + 12))).toInt
def head (m : Mem) (l : Nat) : Nat := m l
def tail (m : Mem) (l : Nat) : Nat := m (l + 4)
def tailPrev (m : Mem) (l : Nat) : Nat := m (l + 8)

def setNext (m : Mem) (n v : Nat) : Mem := m.set n v
def setPrev (m : Mem) (n v : Nat) : Mem := m.set (n + 4) v
def setHead (m : Mem) (l v : Nat) : Mem := m.set l v
def setTail (m : Mem) (l v : Nat) : Mem := m.set (l + 4) v
def setTailPrev (m : Mem) (l v : Nat) : Mem := m.set (l + 8) v

theorem set_apply (m : Mem) (a x : Nat) (v : Nat) : m.set a v x = if x = a then v else m x := rfl

@[simp] theorem set_self (m : Mem) (a : Nat) (v : Nat) : m.set a v a = v := if_pos rfl

theorem set_ne (m : Mem) {a x : Nat} (v : Nat) (h : x ≠ a) : m.set a v x = m x := if_neg h

theorem set_comm (m : Mem) {a b : Nat} (v w : Nat) (h : a ≠ b) :
    (m.set a v).set b w = (m.set b w).set a v := by
  funext x
  simp only [set_apply]
  split_ifs <;> grind

end Mem

/-! ### The functions of `list.c` -/

def newList (m : Mem) (list : Nat) : Mem :=
  let m := m.setHead list (list + 4)
  let m := m.setTail list 0
  m.setTailPrev list list

def addHead (m : Mem) (list node : Nat) : Mem :=
  let m := m.setNext node (m.head list)
  let m := m.setPrev node list
  let m := m.setPrev (m.head list) node
  m.setHead list node

def addTail (m : Mem) (list node : Nat) : Mem :=
  let m := m.setNext node (list + 4)
  let m := m.setPrev node (m.tailPrev list)
  let m := m.setNext (m.tailPrev list) node
  m.setTailPrev list node

/-- The removed node (`0` for an empty list) and the new memory. -/
def removeHead (m : Mem) (list : Nat) : Nat × Mem :=
  let node := m.next (m.head list)
  if node ≠ 0 then
    let m := m.setPrev node list
    let node := m.head list
    (node, m.setHead list (m.next node))
  else (node, m)

def removeTail (m : Mem) (list : Nat) : Nat × Mem :=
  let node := m.tailPrev list
  if node ≠ 0 then
    let m := m.setNext (m.prev node) (m.next node)
    (node, m.setPrev (m.next node) (m.prev node))
  else (node, m)

def remove (m : Mem) (node : Nat) : Mem :=
  let m := m.setNext (m.prev node) (m.next node)
  m.setPrev (m.next node) (m.prev node)

def getNext (m : Mem) (node : Nat) : Nat :=
  if node ≠ 0 ∧ m.next node ≠ 0 ∧ m.next (m.next node) ≠ 0 then m.next node else 0

def getPrev (m : Mem) (node : Nat) : Nat :=
  if node ≠ 0 ∧ m.prev node ≠ 0 ∧ m.prev (m.prev node) ≠ 0 then m.next node else 0

def getHead (m : Mem) (list : Nat) : Nat :=
  if list ≠ 0 ∧ m.next (m.head list) ≠ 0 then m.head list else 0

def getTail (m : Mem) (list : Nat) : Nat :=
  if list ≠ 0 ∧ m.next (m.head list) ≠ 0 then m.tailPrev list else 0

/-- The four stores in the loop of `enqueue`: `node` goes in front of `next`. -/
def insertBefore (m : Mem) (next node : Nat) : Mem :=
  let m := m.setNext node next
  let m := m.setPrev node (m.prev next)
  let m := m.setNext (m.prev next) node
  m.setPrev next node

/-- The `for` loop of `enqueue` from `next` on; the stores after the loop are those of `add_tail`. -/
def enqueueLoop (list node : Nat) : Nat → Mem → Nat → Option Mem
  | 0, _, _ => none
  | fuel + 1, m, next =>
    if next = 0 then some (addTail m list node)
    else if m.pri node ≥ m.pri next then some (insertBefore m next node)
    else enqueueLoop list node fuel m (getNext m next)

def enqueue (fuel : Nat) (m : Mem) (list node : Nat) : Option Mem :=
  enqueueLoop list node fuel m (getHead m list)

end Krypton
