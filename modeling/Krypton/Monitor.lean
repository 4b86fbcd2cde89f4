import Krypton.Sys

/-!
# `monitor.c`: the screen

Video memory by index, the cursor, and the registers of the VGA chip behind the ports `0x3D4` and `0x3D5`. `char` is
signed. `stores` is history: the indices stored to, newest first.
-/

namespace Krypton

structure Monitor where
  videoMemory : Nat → BitVec 16
  cursorX : Nat
  cursorY : Nat
  /-- The register selected through `0x3D4`. -/
  index : Byte
  crt : Byte → Byte
  stores : List Nat

/-- A space with the default colour. -/
def blank : BitVec 16 := 0x0F20

namespace Monitor

def outb (m : Monitor) (port : Nat) (v : Byte) : Monitor :=
  if port = 0x3D4 then { m with index := v }
  else if port = 0x3D5 then { m with crt := fun i => if i = m.index then v else m.crt i }
  else m

/-- `inb(0x3D5)`. -/
def inb (m : Monitor) : Byte := m.crt m.index

def store (m : Monitor) (i : Nat) (v : BitVec 16) : Monitor :=
  { m with videoMemory := fun j => if j = i then v else m.videoMemory j, stores := i :: m.stores }

def updateCursor (m : Monitor) (row col : Nat) : Monitor :=
  let position : BitVec 16 := BitVec.ofNat 16 (row * 80 + col)
  let m := m.outb 0x3D4 0x0F
  let m := m.outb 0x3D5 (position.setWidth 8)
  let m := m.outb 0x3D4 0x0E
  m.outb 0x3D5 ((position >>> 8).setWidth 8)

/-- The first loop of `scroll`, up to `n`. -/
def moveUp (m : Monitor) (n : Nat) : Monitor :=
  (List.range n).foldl (fun m i => m.store i (m.videoMemory (80 + i))) m

/-- A loop that stores `v` from index `i` on. -/
def fill (m : Monitor) (i n : Nat) (v : BitVec 16) : Monitor :=
  (List.range' i n).foldl (fun m i => m.store i v) m

def scroll (m : Monitor) : Monitor :=
  let m :=
    if m.cursorY ≥ 25 then
      let m := m.moveUp (80 * 24)
      let m := m.fill (80 * 24) 80 blank
      { m with cursorY := 24 }
    else m
  m.updateCursor m.cursorY m.cursorX

/-- What `monitor_put` does for the character itself. -/
def putChar (m : Monitor) (c : Byte) : Monitor :=
  if c = 0x08 ∧ m.cursorX ≠ 0 then { m with cursorX := m.cursorX - 1 }
  else if c = 0x09 then { m with cursorX := (m.cursorX + 8) / 8 * 8 }
  else if c = 13 then { m with cursorX := 0 }
  else if c = 10 then { m with cursorX := 0, cursorY := m.cursorY + 1 }
  else if c.toInt ≥ 32 then
    let m := m.store (m.cursorX + 80 * m.cursorY) (c.signExtend 16 ||| 0x0700)
    { m with cursorX := m.cursorX + 1 }
  else m

def monitorPut (m : Monitor) (c : Byte) : Monitor :=
  let m := m.putChar c
  let m := if m.cursorX ≥ 80 then { m with cursorX := 0, cursorY := m.cursorY + 1 } else m
  let m := m.scroll
  m.updateCursor m.cursorY m.cursorX

/-- `_monitor_write` of a string. -/
def monitorWrite (m : Monitor) (text : List Byte) : Monitor := text.foldl monitorPut m

def monitorClear (m : Monitor) : Monitor :=
  let m := m.fill 0 (80 * 25) 0
  let m := { m with cursorX := 0, cursorY := 0 }
  m.updateCursor m.cursorY m.cursorX

/-- The low byte of the position ends up as its high byte. -/
def monitorInit (m : Monitor) : Monitor :=
  let m := m.outb 0x3D4 0x0F
  let position := m.inb.setWidth 16
  let position := position <<< 8
  let m := m.outb 0x3D4 0x0E
  let position := position ||| m.inb.setWidth 16
  let m := { m with cursorY := position.toNat / 80 + 1 }
  let m := { m with cursorX := 0 }
  m.scroll

end Monitor
end Krypton
