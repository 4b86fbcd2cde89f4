import Krypton.ExecList
import Krypton.Lib.Flags

/-!
# The kernel's state

`Sys` holds what the scheduler and the message ports work on. The link and `pri` words of every
structure are in `mem`; the other fields of a thread are in `thread`, by the address of its
`thread_t`, and the bytes of a message in `msgBuf`, by the address of its `message_t`. A
`list_head_t` of `sys_base` lies at its offset in the packed `sys_base_t`.

The fields behind the processor's registers are not in the source. `blocks` are the live objects of static data and
`kmalloc`, which returns no block that meets one of them; `created` are the threads made by `create_thread`, newest
first, which are the threads an interrupt handler may address; `log` is what the dispatcher and the message ports did,
newest first, and nothing reads it.
-/

namespace Krypton

abbrev Word := BitVec 32
abbrev Byte := BitVec 8

/-- The bytes of a message buffer, by index. -/
abbrev Buf := Nat → Byte

/-- The fields of a `thread_t` behind its `node`. -/
structure Thread where
  userEsp : Word
  pageDirectory : Word
  threadFlags : Word
  initialEip : Word
  kernelEsp : Word
  uid : Word
  initKernelEsp : Word
  sigWait : Word
  sigRecvd : Word
  numMsg : Byte

def tsRun : Word := 1
def tsWait : Word := 2
def tsReady : Word := 4
def tbSignal : Word := 8
def tbLaunch : Word := 16

def stMesg : Word := 1

def needSchedule : Word := 1
def timeSliceExpired : Word := 2
def needTaskSwitch : Word := 4

def stdTsQuantum : Word := 10
def maxMsgSz : Nat := 128

/-- `sizeof` of `struct sys_base_t`, `thread_t` and `message_t`. -/
def sizeofSysBase : Nat := 156
def sizeofThread : Nat := 113
def sizeofMessage : Nat := 148

/-- One entry of the history. -/
inductive Ev
  /-- The dispatcher stored `esp` as `kernel_esp` of the thread it switches out. -/
  | save (t : Nat) (esp : Word)
  /-- The dispatcher loaded `esp` and `cr3` for the thread, by the launch path or by the other. -/
  | dispatch (t : Nat) (launch : Bool) (esp cr3 : Word)
  | block (t : Nat)
  | post (t : Nat) (payload : List Byte)
  | retrieve (t : Nat) (buf : Option Buf)
  | cycle (t : Nat) (buf : Buf)

structure Sys where
  mem : Mem
  thread : Nat → Thread
  msgBuf : Nat → Buf
  /-- NUL-terminated strings, by address. -/
  text : Nat → List Byte
  /-- The words of the threads' own memory: user stacks and variables. -/
  user : Word → Word
  sysBase : Nat
  kernelThread : Nat
  sysFlags : Word
  runningThread : Nat
  kReenter : Word
  stdTsQuantum : Word
  tsCurrCount : Word
  forbidCounter : Word
  actPageDirectory : Word
  systemTick : Word
  esp : Word
  cr3 : Word
  esp0 : Word
  blocks : List (Nat × Nat)
  created : List Nat
  log : List Ev

namespace Sys

def resourcesList (s : Sys) : Nat := s.sysBase + 40
def deviceList (s : Sys) : Nat := s.sysBase + 52
def libList (s : Sys) : Nat := s.sysBase + 64
def msgportList (s : Sys) : Nat := s.sysBase + 76
def threadReady (s : Sys) : Nat := s.sysBase + 88
def threadWait (s : Sys) : Nat := s.sysBase + 100
def intrList (s : Sys) : Nat := s.sysBase + 112
def semaphoreList (s : Sys) : Nat := s.sysBase + 124

def threads (s : Sys) : List Nat := s.created ++ [s.kernelThread]

/-- The running thread's own fields. -/
def running (s : Sys) : Thread := s.thread s.runningThread

def setThread (s : Sys) (t : Nat) (th : Thread) : Sys :=
  { s with thread := fun x => if x = t then th else s.thread x }

def record (s : Sys) (e : Ev) : Sys := { s with log := e :: s.log }

/-- The byte ranges `[p, p + n)` and `b` do not meet. -/
def Disjoint (p n : Nat) (b : Nat × Nat) : Prop := p + n ≤ b.1 ∨ b.1 + b.2 ≤ p

instance (p n : Nat) (b : Nat × Nat) : Decidable (Disjoint p n b) := inferInstanceAs (Decidable (_ ∨ _))

/-- `kmalloc` returning the block at `p`: never `NULL`, and disjoint from every live block. -/
def kmalloc (s : Sys) (p size : Nat) : Option Sys :=
  if p ≠ 0 ∧ ∀ b ∈ s.blocks, Disjoint p size b then some { s with blocks := (p, size) :: s.blocks }
  else none

def kfree (s : Sys) (p : Nat) : Sys := { s with blocks := s.blocks.filter fun b => b.1 ≠ p }

end Sys

/-- `msg_port` of the thread at `t`: its node and its `message_list`. -/
def msgPort (t : Nat) : Nat := t + 60
def messageList (t : Nat) : Nat := t + 80

end Krypton
