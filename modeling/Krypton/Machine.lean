import Krypton.Entry
import Krypton.Lib.Reach

/-!
# Runs of the kernel

`step` is one thing that can happen next: ring-3 code calls `forbid`, `permit` or `create_thread`
or makes a system call, an interrupt arrives, or `hlt` ends (`wake`). Interrupts are taken in ring 3,
in the idle loop and on the way from there to ring 3, where they are part of the step `wake`. `init` is the state in
which `init` leaves the kernel to `enter_user_mode`.

Two conditions on a step are stated by the results that need them: the kernel thread does not take a message off its
port, which `init` has not set up (`NoStrayCycle`), and no interrupt arrives between the end of the idle loop and
`iret` (`Undisturbed`).
-/

namespace Krypton

open Sys (ThreadArgs Handler Arrivals)

inductive Event
  | forbid
  | permit
  | create (p q : Nat) (a : ThreadArgs)
  | syscall (eax ebx : Word)
  | irq (h : Handler)
  | wake (a : Arrivals)

/-- A call of `wait`. -/
def Event.IsWait : Event → Prop
  | .syscall eax _ => eax = 0
  | _ => False

instance : DecidablePred Event.IsWait
  | .syscall eax _ => inferInstanceAs (Decidable (eax = 0))
  | .forbid | .permit | .create .. | .irq _ | .wake _ => inferInstanceAs (Decidable False)

namespace Sys

/-- The processor enters ring 0 on the stack of the TSS: five words from the processor, the error
code and the interrupt number, `pusha` and `ds` make 64 bytes. -/
def trap (s : Sys) : Sys := { s with esp := s.esp0 - 64 }

/-- `_msg_cycle` by the kernel thread, whose message list `init` leaves as `kmalloc` returned it: `remove_head` finds a
node there, and stores through its links. -/
def StrayCycle (s : Sys) (eax : Word) : Prop :=
  s.runningThread = s.kernelThread ∧ eax = 3 ∧
    s.mem.next (s.mem.head (messageList s.kernelThread)) ≠ 0

instance (s : Sys) (eax : Word) : Decidable (s.StrayCycle eax) := inferInstanceAs (Decidable (_ ∧ _))

end Sys

/-- One step; the number is the fuel of its list walks. -/
def step (c : Config) : Nat × Event → Option Config
  | (_, .forbid) => if c.mode = .ring3 then some ⟨c.sys.forbid, .ring3⟩ else none
  | (_, .permit) => if c.mode = .ring3 then some ⟨c.sys.permit, .ring3⟩ else none
  | (fuel, .create p q a) =>
    if c.mode = .ring3 then (c.sys.createThread fuel p q a).map fun s => ⟨s, .ring3⟩ else none
  | (fuel, .syscall eax ebx) =>
    if c.mode = .ring3 then (c.sys.trap.idtHandler fuel eax ebx).map fun s => s.dispatch .ring3 else none
  | (fuel, .irq h) =>
    match c.mode with
    | .ring3 => (c.sys.trap.irqHandler fuel h).map fun s => s.dispatch .ring3
    | .idle => (c.sys.irqHandler fuel h).map fun s => s.dispatch .idle
    | .kernel => none
  | (fuel, .wake a) => if c.mode = .idle then c.sys.wakeUp fuel a else none

/-- What one step can do. -/
inductive Step (c : Config) (fuel : Nat) : Event → Config → Prop
  | forbid (hm : c.mode = .ring3) : Step c fuel .forbid ⟨c.sys.forbid, .ring3⟩
  | permit (hm : c.mode = .ring3) : Step c fuel .permit ⟨c.sys.permit, .ring3⟩
  | create {p q : Nat} {a : ThreadArgs} {s : Sys} (hm : c.mode = .ring3)
      (h : c.sys.createThread fuel p q a = some s) : Step c fuel (.create p q a) ⟨s, .ring3⟩
  | syscall {eax ebx : Word} {s : Sys} (hm : c.mode = .ring3) (h : c.sys.trap.idtHandler fuel eax ebx = some s) :
      Step c fuel (.syscall eax ebx) (s.dispatch .ring3)
  | irq {d : Handler} {s : Sys} (hm : c.mode = .ring3) (h : c.sys.trap.irqHandler fuel d = some s) :
      Step c fuel (.irq d) (s.dispatch .ring3)
  | idleIrq {d : Handler} {s : Sys} (hm : c.mode = .idle) (h : c.sys.irqHandler fuel d = some s) :
      Step c fuel (.irq d) (s.dispatch .idle)
  | wake {a : Arrivals} {c' : Config} (hm : c.mode = .idle) (h : c.sys.wakeUp fuel a = some c') :
      Step c fuel (.wake a) c'

theorem step_cases {c c' : Config} {fuel : Nat} {ev : Event} (h : step c (fuel, ev) = some c') :
    Step c fuel ev c' := by
  cases ev with
  | forbid =>
    obtain ⟨hm, he⟩ := Option.ite_none_right_eq_some.1 h
    exact Option.some.inj he ▸ .forbid hm
  | permit =>
    obtain ⟨hm, he⟩ := Option.ite_none_right_eq_some.1 h
    exact Option.some.inj he ▸ .permit hm
  | create p q a =>
    obtain ⟨hm, he⟩ := Option.ite_none_right_eq_some.1 h
    obtain ⟨s, hs, rfl⟩ := Option.map_eq_some_iff.1 he
    exact .create hm hs
  | syscall eax ebx =>
    obtain ⟨hm, he⟩ := Option.ite_none_right_eq_some.1 h
    obtain ⟨s, hs, rfl⟩ := Option.map_eq_some_iff.1 he
    exact .syscall hm hs
  | irq d =>
    unfold step at h
    dsimp only at h
    split at h
    · obtain ⟨s, hs, rfl⟩ := Option.map_eq_some_iff.1 h
      exact .irq ‹_› hs
    · obtain ⟨s, hs, rfl⟩ := Option.map_eq_some_iff.1 h
      exact .idleIrq ‹_› hs
    · cases h
  | wake a =>
    obtain ⟨hm, he⟩ := Option.ite_none_right_eq_some.1 h
    exact .wake hm he

/-! ### Conditions on a step -/

/-- The kernel thread takes no message off its port while the words there look like a list with a node. -/
def NoStrayCycle (c : Config) (e : Nat × Event) : Prop :=
  match e.2 with
  | .syscall eax _ => ¬ c.sys.StrayCycle eax
  | _ => True

/-- No interrupt arrives between the end of the idle loop and `iret`. -/
def Event.Undisturbed : Event → Prop
  | .wake a => a.Empty
  | _ => True

/-- Both conditions. -/
def Regular (c : Config) (e : Nat × Event) : Prop := NoStrayCycle c e ∧ e.2.Undisturbed

theorem Event.Undisturbed.of_ring3 {c c' : Config} {e : Nat × Event} (hm : c.mode = .ring3) (hs : step c e = some c') :
    e.2.Undisturbed := by
  obtain ⟨fuel, ev⟩ := e
  cases step_cases hs with
  | wake hi => rw [hm] at hi; cases hi
  | _ => trivial

instance decidableNoStrayCycle (c : Config) : ∀ e, Decidable (NoStrayCycle c e)
  | (_, .syscall eax _) => inferInstanceAs (Decidable (¬ c.sys.StrayCycle eax))
  | (_, .forbid) | (_, .permit) | (_, .create ..) | (_, .irq _) | (_, .wake _) => inferInstanceAs (Decidable True)

instance : DecidablePred Event.Undisturbed
  | .wake a => inferInstanceAs (Decidable a.Empty)
  | .forbid | .permit | .create .. | .syscall .. | .irq _ => inferInstanceAs (Decidable True)

instance (c : Config) (e : Nat × Event) : Decidable (Regular c e) := inferInstanceAs (Decidable (_ ∧ _))

namespace Sys
variable {s : Sys} {fuel next : Nat} {a : Arrivals}

/-- Without an interrupt on the launch path the way out of the loop ends in ring 3. -/
theorem leaveLoop_whole (ha : a.launching = []) : s.leaveLoop fuel next a = (do
    let s ← s.serve fuel a.found
    let s ← (s.unlinkNext next).serve fuel a.unlinking
    let s ← (s.unlinkPrev next).serve fuel a.unlinked
    let s ← (s.switchTo next).serve fuel a.restarted
    some ⟨s.switchRun.resume, .ring3⟩) := by
  have hend : ∀ s : Sys, (if Has s.switchRun.loadContext.running.threadFlags tbLaunch then
      s.switchRun.loadContext.noSwitch.launchEnd fuel a.launching
      else if a.launching = [] then some ⟨s.switchRun.loadContext.clearFlags.noSwitch, .ring3⟩ else none) =
      some ⟨s.switchRun.resume, .ring3⟩ := by
    intro s
    unfold resume launchEnd
    rw [ha, if_pos rfl]
    dsimp only
    split_ifs
    · rfl
    · rfl
  unfold leaveLoop
  simp only [hend]

/-- Without any interrupt the loop ends as it does with interrupts off. -/
theorem wakeUp_empty (ha : a.Empty) : s.wakeUp fuel a = some s.idleLoop := by
  obtain ⟨h1, h2, h3, h4, h5⟩ := ha
  unfold wakeUp idleLoop
  dsimp only
  split_ifs with h0 he
  · rfl
  · exact absurd ⟨h1, h2, h3, h4, h5⟩ he
  · rw [leaveLoop_whole h5, h1, h2, h3, h4]
    rfl

end Sys

theorem Event.Undisturbed.wakeUp {s : Sys} {c' : Config} {fuel : Nat} {a : Arrivals}
    (ha : (Event.wake a).Undisturbed) (h : s.wakeUp fuel a = some c') : c' = s.idleLoop :=
  Option.some.inj (h.symm.trans (Sys.wakeUp_empty ha))

/-- `init` up to `enter_user_mode`, without the first `create_thread`; `kernelpagedirPtr` is the
page directory, `name` the kernel thread's static name, `k` and `stack` what `kmalloc` returns for the
kernel thread and for its stack. -/
def Sys.init (s : Sys) (kernelpagedirPtr : Word) (name k : Nat) (stack : Word) : Option Sys := do
  let s := { s with forbidCounter := 1, sysFlags := 0 }
  let m := newList s.mem s.deviceList
  let m := newList m s.intrList
  let m := newList m s.libList
  let m := newList m s.msgportList
  let m := newList m s.resourcesList
  let m := newList m s.semaphoreList
  let m := newList m s.threadReady
  let m := newList m s.threadWait
  let s := { s with mem := m, sysFlags := 0 }
  let s ← s.kmalloc k sizeofThread
  let s := { s with kernelThread := k }
  let m := s.mem.set (k + 16) name
  let m := m.set (k + 12) 0
  let m := m.set (k + 8) 5
  -- `&kernel_thread->msg_port` is the port's node, not its `message_list`
  let m := newList m (msgPort k)
  let s := { s with mem := m }
  let s := s.setThread k { s.thread k with threadFlags := tsRun, uid := 0, initKernelEsp := stack + 4000 }
  let s := { s with esp0 := stack + 4000 }
  let s := { s with runningThread := k }
  let s := { s with stdTsQuantum := Krypton.stdTsQuantum, tsCurrCount := Krypton.stdTsQuantum }
  let s := { s with actPageDirectory := kernelpagedirPtr }
  let s := s.setThread k { s.thread k with pageDirectory := kernelpagedirPtr }
  some { s with kReenter := -1 }

/-- The states the scheduler starts from: `init` from any memory. -/
def Booted (c : Config) : Prop :=
  ∃ (s : Sys) (pd : Word) (name k : Nat) (stack : Word), s.sysBase ≠ 0 ∧
    s.blocks = [(s.sysBase, sizeofSysBase)] ∧ s.created = [] ∧ s.log = [] ∧
    s.init pd name k stack = some c.sys ∧ c.mode = .ring3

end Krypton
