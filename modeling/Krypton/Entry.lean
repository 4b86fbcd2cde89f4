import Krypton.Message

/-!
# Entering and leaving the kernel: `idt.c`, `timer.c` and the dispatcher of `idt_s.asm`

Interrupts are off from a kernel entry on, so a handler and the dispatcher behind it run in one step, up to
`iret` or to the idle loop of `switch_threads`, which turns them on: `Mode.idle` is the one place inside the
kernel where a step may end. They stay on from there to `iret`, so the way from the end of the loop to ring 3
(`wakeUp`) is cut where an interrupt may arrive (`Arrivals`). `dispatch` returns to what the entry interrupted
(`back`) unless it switches threads.
-/

namespace Krypton

/-- What the processor runs between two kernel entries. -/
inductive Mode
  | ring3
  /-- `hlt` in the loop of `switch_threads`. -/
  | idle
  /-- A kernel function that has executed `int 0xFF`. -/
  | kernel
deriving DecidableEq

structure Config where
  sys : Sys
  mode : Mode

namespace Sys

def timerCallback (s : Sys) : Sys :=
  let s := { s with systemTick := s.systemTick + 1 }
  if s.tsCurrCount.toInt < -1 then s
  else
    let s := { s with tsCurrCount := s.tsCurrCount - 1 }
    if s.tsCurrCount.toInt < 0 then
      let s := { s with sysFlags := s.sysFlags ||| timeSliceExpired }
      { s with sysFlags := s.sysFlags ||| needSchedule }
    else s

/-- `_monitor_write` (call 1) writes the screen only, which is no part of `Sys`. -/
def syscall (fuel : Nat) (s : Sys) (eax ebx : Word) : Option Sys :=
  if s.running.uid ≠ 0 then some s
  else if eax = 0 then s.waitForFlags fuel ebx
  else if eax = 1 then some s
  else if eax = 2 then some (s.msgRetrieve ebx)
  else if eax = 3 then some s.msgCycle
  else some s

def enter (s : Sys) : Sys := { s with kReenter := s.kReenter + 1 }

/-- The end of both handlers. `k_reenter` is unsigned, so `k_reenter <= 0` holds at `0` only. -/
def reschedule (fuel : Nat) (s : Sys) : Option Sys :=
  if Has s.sysFlags needSchedule ∧ s.kReenter ≤ 0 then
    { s with sysFlags := s.sysFlags &&& ~~~needSchedule }.schedule fuel
  else some s

/-- `idt_handler` for vector 255, whose handler is `syscall`. -/
def idtHandler (fuel : Nat) (s : Sys) (eax ebx : Word) : Option Sys := do
  let s ← s.enter.syscall fuel eax ebx
  s.reschedule fuel

/-! ### The dispatcher -/

def noSwitch (s : Sys) : Sys := { s with kReenter := s.kReenter - 1 }

/-- From the store of `kernel_esp` to the call of `switch_threads`: a thread that was not running
was halted in the idle loop. -/
def saveContext (s : Sys) : Sys :=
  if Has s.running.threadFlags tsRun then
    (s.setThread s.runningThread { s.running with kernelEsp := s.esp }).record (.save s.runningThread s.esp)
  else s

/-- From the return of `switch_threads` to the test of `TB_LAUNCH`. -/
def loadContext (s : Sys) : Sys :=
  let s := { s with esp := s.running.kernelEsp }
  let s := { s with cr3 := s.running.pageDirectory }
  s.record (.dispatch s.runningThread (decide (Has s.running.threadFlags tbLaunch)) s.esp s.cr3)

def clearLaunch (s : Sys) : Sys :=
  s.setThread s.runningThread { s.running with threadFlags := s.running.threadFlags &&& 0xFFFFFFEF }

/-- `TB_LAUNCH` and `TB_SIGNAL`. -/
def clearFlags (s : Sys) : Sys :=
  s.setThread s.runningThread { s.running with threadFlags := s.running.threadFlags &&& 0xFFFFFFE7 }

/-- From the return of `switch_threads` to `iret`. Both paths decrement `k_reenter` as `noSwitch` does. -/
def resume (s : Sys) : Sys :=
  let s := s.loadContext
  if Has s.running.threadFlags tbLaunch then s.noSwitch.clearLaunch else s.clearFlags.noSwitch

/-- The loop of `switch_threads` with interrupts off, from its test on. -/
def idleLoop (s : Sys) : Config :=
  let next := getHead s.mem s.threadReady
  if next = 0 then ⟨{ s with sysFlags := s.sysFlags ||| needSchedule }, .idle⟩
  else ⟨(s.switchEnd next).resume, .ring3⟩

def dispatch (s : Sys) (back : Mode) : Config :=
  if s.kReenter = 0 ∧ Has s.sysFlags needTaskSwitch then s.saveContext.switchBegin.idleLoop
  else ⟨s.noSwitch, back⟩

/-! ### Hardware interrupts -/

/-- What a device's interrupt handler does. -/
inductive Act
  | post (t p : Nat) (src : Buf) (bufSz : BitVec 16)
  | signal (t : Nat) (flags : Word)
  /-- `kprintf`, which makes system call 1 from kernel code. -/
  | print

/-- The handlers `init` registers for hardware interrupts. -/
inductive Handler
  | timer
  | device (acts : List Act)

/-- `int 0xFF` from kernel code, up to the return behind it. -/
def nestedPrint (fuel : Nat) (s : Sys) : Option Sys := do
  let s ← s.idtHandler fuel 1 0
  let c := s.dispatch .kernel
  if c.mode = .kernel then some c.sys else none

/-- Handlers address threads made by `create_thread` only. -/
def act (fuel : Nat) (s : Sys) : Act → Option Sys
  | .post t p src bufSz => if t ∈ s.created then s.msgPost fuel t p src bufSz else none
  | .signal t flags => if t ∈ s.created then s.signal fuel t flags else none
  | .print => s.nestedPrint fuel

def acts (fuel : Nat) : Sys → List Act → Option Sys
  | s, [] => some s
  | s, a :: as => (s.act fuel a).bind fun s => acts fuel s as

def handle (fuel : Nat) (s : Sys) : Handler → Option Sys
  | .timer => some s.timerCallback
  | .device as => s.acts fuel as

def irqHandler (fuel : Nat) (s : Sys) (h : Handler) : Option Sys := do
  let s ← s.enter.handle fuel h
  s.reschedule fuel

/-! ### The way out of the idle loop -/

/-- The interrupts that arrive between the end of the idle loop and `iret`, by the place where they do: between two
statements, each of which is taken whole. Between two of these places no statement touches a word that a handler uses
(`_signal` changes other bits of `thread_flags`). Behind the decrement of `k_reenter` an interrupt finds the kernel as
one in ring 3 does, except on the launch path as long as `TB_LAUNCH` is set; there it comes with the stack pointer that
the dispatcher finds. -/
structure Arrivals where
  /-- In front of `remove`. -/
  found : List Handler
  /-- Between the two stores of `remove`. -/
  unlinking : List Handler
  /-- In front of the restart of `ts_curr_count`. -/
  unlinked : List Handler
  /-- In front of the decrement of `k_reenter`. -/
  restarted : List Handler
  /-- On the launch path, behind it. -/
  launching : List (Handler × Word)

/-- The handlers of all of them. -/
def Arrivals.handlers (a : Arrivals) : List Handler :=
  a.found ++ a.unlinking ++ a.unlinked ++ a.restarted ++ a.launching.map Prod.fst

/-- Nothing arrives. -/
def Arrivals.Empty (a : Arrivals) : Prop :=
  a.found = [] ∧ a.unlinking = [] ∧ a.unlinked = [] ∧ a.restarted = [] ∧ a.launching = []

instance : DecidablePred Arrivals.Empty := fun _ => inferInstanceAs (Decidable (_ ∧ _))

def Arrivals.none : Arrivals := ⟨[], [], [], [], []⟩

/-- Interrupts taken in kernel code, each up to its return to what it interrupted. -/
def serve (fuel : Nat) : Sys → List Handler → Option Sys
  | s, [] => some s
  | s, h :: hs => (s.irqHandler fuel h).bind fun s =>
    let c := s.dispatch .kernel
    if c.mode = .kernel then serve fuel c.sys hs else none

/-- The launch path behind the decrement of `k_reenter`. An interrupt there is an outermost entry; when it switches
threads, the rest of the path is not run. -/
def launchEnd (fuel : Nat) : Sys → List (Handler × Word) → Option Config
  | s, [] => some ⟨s.clearLaunch, .ring3⟩
  | s, (h, esp) :: hs => (irqHandler fuel { s with esp := esp } h).bind fun s =>
    let c := s.dispatch .kernel
    if c.mode = .kernel then launchEnd fuel c.sys hs else if hs = [] then some c else none

/-- From the end of the idle loop, which has found `next`, to `iret`. -/
def leaveLoop (fuel : Nat) (s : Sys) (next : Nat) (a : Arrivals) : Option Config := do
  let s ← s.serve fuel a.found
  let s ← (s.unlinkNext next).serve fuel a.unlinking
  let s ← (s.unlinkPrev next).serve fuel a.unlinked
  let s ← (s.switchTo next).serve fuel a.restarted
  let s := s.switchRun.loadContext
  if Has s.running.threadFlags tbLaunch then s.noSwitch.launchEnd fuel a.launching
  else if a.launching = [] then some ⟨s.clearFlags.noSwitch, .ring3⟩ else none

/-- The loop of `switch_threads` behind `hlt`, from its test on. -/
def wakeUp (fuel : Nat) (s : Sys) (a : Arrivals) : Option Config :=
  let next := getHead s.mem s.threadReady
  if next = 0 then
    if a.Empty then some ⟨{ s with sysFlags := s.sysFlags ||| needSchedule }, .idle⟩ else none
  else s.leaveLoop fuel next a

end Sys
end Krypton
