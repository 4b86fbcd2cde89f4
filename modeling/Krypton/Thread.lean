import Krypton.Sys

/-!
# `thread.c`: threads and the scheduler

`fuel` bounds the walk of `enqueue`; a function returns `none` when the walk has not ended.
`switch_threads` is cut at its idle loop: `switchBegin` is what stands before the loop, `switchEnd`
what stands behind it, once `get_head` has returned a thread.
-/

namespace Krypton
namespace Sys

/-- `enqueue` of a thread on one of the lists of `sys_base`. -/
def enqueueThread (fuel : Nat) (s : Sys) (list node : Nat) : Option Sys :=
  (enqueue fuel s.mem list node).map fun m => { s with mem := m }

/-- A zeroed `thread_t`. -/
def zeroThread : Thread where
  userEsp := 0
  pageDirectory := 0
  threadFlags := 0
  initialEip := 0
  kernelEsp := 0
  uid := 0
  initKernelEsp := 0
  sigWait := 0
  sigRecvd := 0
  numMsg := 0

/-- `memset` of the words of a block to zero. -/
def zeroBlock (m : Mem) (p size : Nat) : Mem := fun a => if p ≤ a ∧ a < p + size then 0 else m a

/-- The arguments of `create_thread`. -/
structure ThreadArgs where
  fn : Word
  args : Word
  atExit : Word
  userStack : Word
  kernelStack : Word
  name : List Byte
  uid : Word
  priority : Word

/-- `create_thread`; `p` and `q` are what `kmalloc` returns for the descriptor and for the name. -/
def createThread (fuel : Nat) (s : Sys) (p q : Nat) (a : ThreadArgs) : Option Sys := do
  let s ← s.kmalloc p sizeofThread
  let s := { s with mem := zeroBlock s.mem p sizeofThread }
  let s := s.setThread p zeroThread
  let s ← s.kmalloc q (a.name.length + 1)
  let m := s.mem.set (p + 16) q
  let s := { s with text := fun x => if x = q then a.name else s.text x }
  let m := m.set (p + 12) a.priority.toNat
  let m := m.set (p + 8) 5
  let s := { s with user := fun x => if x = a.userStack - 4 then a.atExit else s.user x }
  let s := { s with user := fun x => if x = a.userStack - 8 then a.args else s.user x }
  let th := { s.thread p with
    threadFlags := tsReady ||| tbLaunch
    userEsp := a.userStack - 8
    initKernelEsp := a.kernelStack
    pageDirectory := s.actPageDirectory
    initialEip := a.fn }
  let m := addHead m s.msgportList (msgPort p)
  let m := newList m (messageList p)
  let th := { th with numMsg := 0 }
  let s := { s with mem := m }
  let s ← s.enqueueThread fuel s.threadReady p
  let s := s.setThread p { th with uid := a.uid }
  some { s with created := p :: s.created }

def waitForFlags (fuel : Nat) (s : Sys) (flags : Word) : Option Sys := do
  let t := s.runningThread
  let th := s.thread t
  let th := { th with threadFlags := th.threadFlags &&& ~~~tsReady }
  let th := { th with threadFlags := th.threadFlags ||| tsWait }
  let th := { th with sigWait := th.sigWait ||| flags }
  let s := s.setThread t th
  let s ← s.enqueueThread fuel s.threadWait t
  some ({ s with sysFlags := s.sysFlags ||| needTaskSwitch }.record (.block t))

def forbid (s : Sys) : Sys := { s with forbidCounter := s.forbidCounter + 1 }
def permit (s : Sys) : Sys := { s with forbidCounter := s.forbidCounter - 1 }

/-- The test in `schedule` behind `get_head`: the running thread is to be preempted by the first
thread of `thread_ready`. -/
def Preempts (s : Sys) : Prop :=
  getHead s.mem s.threadReady ≠ 0 ∧ s.runningThread ≠ 0 ∧
    (s.mem.pri s.runningThread < s.mem.pri (getHead s.mem s.threadReady) ∨
      Has s.sysFlags timeSliceExpired)

instance (s : Sys) : Decidable s.Preempts := inferInstanceAs (Decidable (_ ∧ _ ∧ (_ ∨ _)))

/-- Both calls of `enqueue` in `schedule`: the running thread goes back on `thread_ready`. -/
def requeue (fuel : Nat) (s : Sys) : Option Sys := do
  let s ← s.enqueueThread fuel s.threadReady s.runningThread
  some { s with sysFlags := s.sysFlags ||| needTaskSwitch }

def schedule (fuel : Nat) (s : Sys) : Option Sys :=
  if s.forbidCounter.toInt > 0 then some s
  else if Has s.running.threadFlags tbSignal then s.requeue fuel
  else if s.Preempts then s.requeue fuel
  else some s

def switchBegin (s : Sys) : Sys :=
  let s := { s with sysFlags := s.sysFlags &&& ~~~needTaskSwitch }
  let s := { s with sysFlags := s.sysFlags &&& ~~~timeSliceExpired }
  s.setThread s.runningThread { s.running with threadFlags := s.running.threadFlags &&& ~~~tsRun }

/-- The first store of `remove`. -/
def unlinkNext (s : Sys) (next : Nat) : Sys :=
  { s with mem := s.mem.setNext (s.mem.prev next) (s.mem.next next) }

/-- Its second store. -/
def unlinkPrev (s : Sys) (next : Nat) : Sys :=
  { s with mem := s.mem.setPrev (s.mem.next next) (s.mem.prev next) }

/-- From the store of `running_thread` to the restart of `ts_curr_count`. -/
def switchTo (s : Sys) (next : Nat) : Sys :=
  let s := { s with runningThread := next }
  let s := { s with actPageDirectory := s.running.pageDirectory }
  { s with tsCurrCount := s.stdTsQuantum }

/-- The rest, from the store of `thread_flags` on. -/
def switchRun (s : Sys) : Sys :=
  let s := s.setThread s.runningThread { s.running with threadFlags := s.running.threadFlags ||| tsRun }
  { s with esp0 := s.running.initKernelEsp }

def switchEnd (s : Sys) (next : Nat) : Sys := (((s.unlinkNext next).unlinkPrev next).switchTo next).switchRun

/-! ### Threads by name -/

/-- The tests of `strcmp` behind its loop, on the characters its pointers have come to. -/
def strcmpEnd (a b : Byte) : Int := if a = 0 ∧ b = 0 then 0 else if a = 0 then -1 else 1

/-- At a difference the loop of `strcmp` has already moved both pointers behind it. -/
def strcmp : List Byte → List Byte → Int
  | a :: as, b :: bs =>
    if a ≠ 0 ∧ b ≠ 0 then if a = b then strcmp as bs else strcmpEnd (as.headD 0) (bs.headD 0)
    else strcmpEnd a b
  | as, bs => strcmpEnd (as.headD 0) (bs.headD 0)

def nodeName (s : Sys) (node : Nat) : List Byte := s.text (s.mem (node + 16))

/-- Both loops of `find_thread`, from `thread` on. -/
def findLoop (s : Sys) (name : List Byte) : Nat → Nat → Option Nat
  | 0, _ => none
  | fuel + 1, thread =>
    if thread = 0 then some 0
    else if strcmp (s.nodeName thread) name = 0 then some thread
    else findLoop s name fuel (getNext s.mem thread)

/-- `find_thread`: the thread, or `NULL`. -/
def findThread (fuel : Nat) (s : Sys) (name : List Byte) : Option (Nat × Sys) :=
  if strcmp (s.nodeName s.runningThread) name = 0 then some (s.runningThread, s)
  else do
    let s := s.forbid
    let thread ← s.findLoop name fuel (getHead s.mem s.threadWait)
    if thread ≠ 0 then some (thread, s.permit)
    else do
      let thread ← s.findLoop name fuel (getHead s.mem s.threadReady)
      some (thread, s.permit)

end Sys
end Krypton
