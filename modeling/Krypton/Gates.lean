import Krypton.Names
import Krypton.Monitor

/-!
# Gates and handlers: `idt.c`, `kprintf.c`, `panic.c` and the handlers of `kernel_main.c` and `pmm.c`

The gates `init_idt` leaves, the handlers registered behind them, and `int n` of ring-3 code, which is a protection
fault where the privilege level of the gate is not 3. `panic` does not return: `panicked` is its last loop. `vsprintf`
is not embedded, the strings it makes are `lines`.
-/

namespace Krypton

open Sys

/-- The stubs of `idt_s.asm`: `isr n` calls `idt_handler`, `irq n` calls `irq_handler`. -/
inductive Stub
  | isr (n : Nat)
  | irq (n : Nat)
deriving DecidableEq

/-- The interrupt number a stub pushes. -/
def Stub.intNo : Stub → Nat
  | isr n => n
  | irq n => 32 + n

/-- An `idt_entry_t`, with `base` `none` for address 0. -/
structure Gate where
  base : Option Stub
  sel : BitVec 16
  always0 : Byte
  flags : Byte

/-- The privilege level that `int` needs. -/
def Gate.dpl (g : Gate) : Byte := g.flags >>> 5 &&& 3

def idtSetGate (idt : Nat → Gate) (num : Nat) (base : Stub) (sel : BitVec 16) (flags : Byte) : Nat → Gate :=
  fun i => if i = num then ⟨some base, sel, 0, flags ||| 0x60⟩ else idt i

/-- `idt_entries` behind `init_idt`. -/
def initIdt : Nat → Gate :=
  let idt := fun _ => ⟨none, 0, 0, 0⟩
  let idt := (List.range 32).foldl (fun idt n => idtSetGate idt n (.isr n) 0x08 0x8E) idt
  let idt := (List.range 16).foldl (fun idt n => idtSetGate idt (32 + n) (.irq n) 0x08 0x8E) idt
  idtSetGate idt 255 (.isr 255) 0x08 0x8E

/-- The gate that `int n` of ring-3 code takes. -/
def entryGate (n : Nat) : Gate := if (initIdt n).dpl = 3 then initIdt n else initIdt 13

inductive IntHandler
  | pageFault
  | protectionFault
  | keypress
  | syscall
  | timerCallback
deriving DecidableEq

def registerInterruptHandler (t : Nat → Option IntHandler) (n : Nat) (h : IntHandler) : Nat → Option IntHandler :=
  fun i => if i = n then some h else t i

/-- `interrupt_handlers` once `mm_init`, `init` and `init_timer` have registered theirs. -/
def interruptHandlers : Nat → Option IntHandler :=
  let t := fun _ => none
  let t := registerInterruptHandler t 14 .pageFault
  let t := registerInterruptHandler t 13 .protectionFault
  let t := registerInterruptHandler t 33 .keypress
  let t := registerInterruptHandler t 255 .syscall
  registerInterruptHandler t 32 .timerCallback

/-- The kernel with its screen. -/
structure Kernel extends Config where
  screen : Monitor
  panicked : Bool

/-- What a handler finds besides the state of the kernel. -/
structure Regs where
  eax : Word
  ebx : Word
  /-- The string at `ebx`. -/
  text : List Byte
  /-- What `vsprintf` makes of the handler's formats. -/
  lines : List (List Byte)
  /-- The byte at port `0x60`. -/
  scancode : Byte
  /-- What `kmalloc` returns for a message. -/
  p : Nat

def ascii (s : String) : List Byte := s.toList.map fun c => BitVec.ofNat 8 c.toNat

namespace Kernel

def setSys (k : Kernel) (s : Sys) : Kernel := { k with sys := s }

/-- What `syscall` does to the screen: case 1 is `_monitor_write`. -/
def syscallScreen (k : Kernel) (eax : Word) (text : List Byte) : Monitor :=
  if k.sys.running.uid ≠ 0 then k.screen
  else if eax = 1 then k.screen.monitorWrite text
  else k.screen

/-- `monitor_write` in a handler: `int 0xFF` from kernel code. -/
def monitorWrite (fuel : Nat) (k : Kernel) (text : List Byte) : Option Kernel :=
  (k.sys.nestedPrint fuel).map fun s => { k with sys := s, screen := k.syscallScreen 1 text }

def kprintf (fuel : Nat) (k : Kernel) (text : List Byte) : Option Kernel := do
  let k := k.setSys k.sys.forbid
  let k ← k.monitorWrite fuel text
  some (k.setSys k.sys.permit)

/-- One `kprintf` after the other. -/
def kprintfs (fuel : Nat) : Kernel → List (List Byte) → Option Kernel
  | k, [] => some k
  | k, text :: texts => (k.kprintf fuel text).bind fun k => kprintfs fuel k texts

def panic (fuel : Nat) (k : Kernel) (msg : String) : Option Kernel := do
  let k ← k.kprintf fuel (ascii ("*** System panic: " ++ msg ++ "\n"))
  let k ← k.kprintf fuel (ascii "Press any key to reboot!")
  some { k with panicked := true }

def pageFault (fuel : Nat) (k : Kernel) (lines : List (List Byte)) : Option Kernel := do
  let k ← k.kprintfs fuel lines
  k.panic fuel ""

def protectionFault (fuel : Nat) (k : Kernel) (lines : List (List Byte)) : Option Kernel := do
  let k ← k.kprintfs fuel lines
  k.panic fuel "not syncing - unhandled protection fault"

/-- The bytes of an `int` that holds a scancode. -/
def intBuf (scancode : Byte) : Buf := fun i => if i = 0 then scancode else 0

def keypress (fuel : Nat) (k : Kernel) (scancode : Byte) (p : Nat) : Option Kernel := do
  let (keyboardDriverThread, s) ← k.sys.findThread fuel (ascii "keyboard.device")
  let k := k.setSys s
  if keyboardDriverThread = 0 then k.panic fuel "not syncing - no user-mode keyboard driver installed"
  else if scancode &&& 0x80 = 0 then (k.sys.msgPost fuel keyboardDriverThread p (intBuf scancode) 4).map k.setSys
  else some k

def handle (fuel : Nat) (k : Kernel) (r : Regs) : IntHandler → Option Kernel
  | .pageFault => k.pageFault fuel r.lines
  | .protectionFault => k.protectionFault fuel r.lines
  | .keypress => k.keypress fuel r.scancode r.p
  | .syscall =>
    (k.sys.syscall fuel r.eax r.ebx).map fun s => { k with sys := s, screen := k.syscallScreen r.eax r.text }
  | .timerCallback => some (k.setSys k.sys.timerCallback)

/-- What follows a handler that returns. -/
def reschedule (fuel : Nat) (k : Kernel) : Option Kernel :=
  if k.panicked then some k else (k.sys.reschedule fuel).map k.setSys

/-- The call of a handler, or the panic with `msg` where there is none. -/
def call (msg : String) (fuel : Nat) (k : Kernel) (r : Regs) : Option IntHandler → Option Kernel
  | some h => (k.handle fuel r h).bind (reschedule fuel)
  | none => k.panic fuel msg

/-- `idt_handler` and `irq_handler`, which differ in the message. -/
def serve (msg : String) (fuel : Nat) (k : Kernel) (intNo : Nat) (r : Regs) : Option Kernel :=
  (k.setSys k.sys.enter).call msg fuel r (interruptHandlers intNo)

def idtHandler : Nat → Kernel → Nat → Regs → Option Kernel := serve "Unhandled exception.\n"
def irqHandler : Nat → Kernel → Nat → Regs → Option Kernel := serve "Unhandled hardware interrupt.\n"

def runStub (fuel : Nat) (k : Kernel) (r : Regs) : Stub → Option Kernel
  | .isr n => k.idtHandler fuel (Stub.isr n).intNo r
  | .irq n => k.irqHandler fuel (Stub.irq n).intNo r

/-- The way out of an entry from ring 3. -/
def leave (k : Kernel) : Kernel :=
  if k.panicked then { k with mode := .kernel } else { k with toConfig := k.sys.dispatch .ring3 }

end Kernel

/-- `int n` executed by thread `t`; the first number is the fuel of the list walks. -/
def softInt (t : Nat) (k : Kernel) : Nat × Byte × Regs → Option Kernel
  | (fuel, n, r) =>
    if k.mode = .ring3 ∧ k.panicked = false ∧ k.sys.runningThread = t then do
      let stub ← (entryGate n.toNat).base
      let k ← (k.setSys k.sys.trap).runStub fuel r stub
      some k.leave
    else none

/-! ### The gates -/

theorem Byte.forall_of_fin {P : Nat → Prop} (h : ∀ n : Fin 256, P n) (n : Byte) : P n.toNat := h n.toFin

/-- Every gate is entered by ring 3, or its fault is: no `int` of ring-3 code misses a stub. -/
theorem entryGate_isSome (n : Byte) : (entryGate n.toNat).base.isSome :=
  Byte.forall_of_fin (P := fun n => (entryGate n).base.isSome) (by decide +kernel) n

/-- The handler that `int n` of ring-3 code reaches. -/
def reached (n : Nat) : Option (Option IntHandler) := (entryGate n).base.map fun stub => interruptHandlers stub.intNo

theorem reached_faults {n : Byte} {hd : Option IntHandler} (h32 : n ≠ 32) (h33 : n ≠ 33) (h255 : n ≠ 255)
    (h : reached n.toNat = some hd) : hd = none ∨ hd = some .pageFault ∨ hd = some .protectionFault := by
  have hall := Byte.forall_of_fin (P := fun n => n ≠ 32 → n ≠ 33 → n ≠ 255 →
    ∀ hd ∈ reached n, hd = none ∨ hd = some .pageFault ∨ hd = some .protectionFault) (by decide +kernel) n
  exact hall (BitVec.toNat_ne.1 h32) (BitVec.toNat_ne.1 h33) (BitVec.toNat_ne.1 h255) hd h

/-! ### The handlers of a thread with a `uid` -/

namespace Sys

variable {s s' : Sys} {fuel t : Nat} {name : List Byte}

/-- What `find_thread` returns to `keypress`. -/
def keyboardThread (fuel : Nat) (s : Sys) : Option Nat := (s.findThread fuel (ascii "keyboard.device")).map Prod.fst

theorem keyboardThread_enter (s : Sys) : s.trap.enter.keyboardThread fuel = s.keyboardThread fuel := by
  have hloop : ∀ name x, s.trap.enter.findLoop name fuel x = s.findLoop name fuel x := fun _ _ => findLoop_congr rfl rfl
  unfold keyboardThread
  rw [findThread_fst, findThread_fst]
  simp only [hloop]
  rfl

end Sys

namespace Kernel

variable {k k' : Kernel} {fuel : Nat} {r : Regs}

/-- The print of a handler is a system call of the running thread, and refused like any other. -/
theorem kprintf_eq (hk : k.sys.InHandler) (hu : k.sys.running.uid ≠ 0) (text : List Byte) :
    k.kprintf fuel text = some k := by
  have hp : k.sys.forbid.nestedPrint fuel = some k.sys.forbid := nestedPrint_eq (s := k.sys.forbid) hk
  have hscreen : (k.setSys k.sys.forbid).syscallScreen 1 text = k.screen := if_pos hu
  have hm : (k.setSys k.sys.forbid).monitorWrite fuel text = some (k.setSys k.sys.forbid) := by
    unfold monitorWrite
    rw [hscreen]
    exact congrArg (Option.map _) hp
  show ((k.setSys k.sys.forbid).monitorWrite fuel text).bind _ = _
  rw [hm, Option.bind_some]
  exact congrArg (fun s => some (k.setSys s)) (permit_forbid k.sys)

theorem kprintfs_eq (hk : k.sys.InHandler) (hu : k.sys.running.uid ≠ 0) (texts : List (List Byte)) :
    k.kprintfs fuel texts = some k := by
  induction texts with
  | nil => rfl
  | cons text texts ih =>
    unfold kprintfs
    rw [kprintf_eq hk hu, Option.bind_some, ih]

theorem panic_eq (hk : k.sys.InHandler) (hu : k.sys.running.uid ≠ 0) (msg : String) :
    k.panic fuel msg = some { k with panicked := true } := by
  unfold panic
  simp only [kprintf_eq hk hu, Option.bind_eq_bind, Option.bind_some]

theorem pageFault_eq (hk : k.sys.InHandler) (hu : k.sys.running.uid ≠ 0) (lines : List (List Byte)) :
    k.pageFault fuel lines = some { k with panicked := true } := by
  unfold pageFault
  rw [kprintfs_eq hk hu]
  exact panic_eq hk hu _

theorem protectionFault_eq (hk : k.sys.InHandler) (hu : k.sys.running.uid ≠ 0) (lines : List (List Byte)) :
    k.protectionFault fuel lines = some { k with panicked := true } := by
  unfold protectionFault
  rw [kprintfs_eq hk hu]
  exact panic_eq hk hu _

theorem handle_syscall (hu : k.sys.running.uid ≠ 0) : k.handle fuel r .syscall = some k := by
  have hrefused : k.sys.syscall fuel r.eax r.ebx = some k.sys := if_pos hu
  have hscreen : k.syscallScreen r.eax r.text = k.screen := if_pos hu
  show (k.sys.syscall fuel r.eax r.ebx).map _ = _
  rw [hrefused, hscreen]
  rfl

theorem call_some {x : IntHandler} {msg : String} (h : k.call msg fuel r (some x) = some k') :
    ∃ k₁, k.handle fuel r x = some k₁ ∧ k₁.reschedule fuel = some k' := by
  unfold call at h
  exact Option.bind_eq_some_iff.1 h

theorem call_faults {hd : Option IntHandler} (hf : hd = none ∨ hd = some .pageFault ∨ hd = some .protectionFault)
    (hk : k.sys.InHandler) (hu : k.sys.running.uid ≠ 0) (msg : String) :
    k.call msg fuel r hd = some { k with panicked := true } := by
  rcases hf with rfl | rfl | rfl
  · exact panic_eq hk hu msg
  · exact congrArg (Option.bind · (reschedule fuel)) (pageFault_eq hk hu r.lines)
  · exact congrArg (Option.bind · (reschedule fuel)) (protectionFault_eq hk hu r.lines)

/-- What `keypress` does of the three things it can do. -/
inductive Keypress (k : Kernel) (fuel : Nat) (r : Regs) : Kernel → Prop
  | halts (h : k.sys.keyboardThread fuel = some 0) : Keypress k fuel r { k with panicked := true }
  | posts {t : Nat} {s : Sys} (h : k.sys.keyboardThread fuel = some t) (h0 : t ≠ 0) (hc : r.scancode &&& 0x80 = 0)
      (hs : k.sys.msgPost fuel t r.p (intBuf r.scancode) 4 = some s) : Keypress k fuel r (k.setSys s)
  | drops {t : Nat} (h : k.sys.keyboardThread fuel = some t) (h0 : t ≠ 0) (hc : r.scancode &&& 0x80 ≠ 0) :
      Keypress k fuel r k

theorem keypress_cases (hk : k.sys.InHandler) (hu : k.sys.running.uid ≠ 0)
    (h : k.keypress fuel r.scancode r.p = some k') : Keypress k fuel r k' := by
  obtain ⟨⟨t, s⟩, h1, h2⟩ := Option.bind_eq_some_iff.1 h
  obtain rfl := findThread_sys h1
  have ht : k.sys.keyboardThread fuel = some t := congrArg (Option.map Prod.fst) h1
  dsimp only at h2
  split_ifs at h2 with h0 hc
  · cases (panic_eq hk hu _).symm.trans h2
    exact .halts (h0 ▸ ht)
  · obtain ⟨s, hs, rfl⟩ := Option.map_eq_some_iff.1 h2
    exact .posts ht h0 hc hs
  · cases h2
    exact .drops ht h0 hc

/-- What one `int n` does: it halts the kernel, or the end of its handler goes back to ring 3 or switches threads. -/
inductive Trapped (k : Kernel) (fuel : Nat) (r : Regs) : Byte → Kernel → Prop
  | halts {n : Byte} (h32 : n ≠ 32) (h255 : n ≠ 255) (h33 : n = 33 → k.sys.keyboardThread fuel = some 0) :
      Trapped k fuel r n ⟨⟨k.sys.trap.enter, .kernel⟩, k.screen, true⟩
  | refused {s : Sys} (h : k.sys.trap.enter.reschedule fuel = some s) :
      Trapped k fuel r 255 ⟨s.dispatch .ring3, k.screen, false⟩
  | ticks {s : Sys} (h : k.sys.trap.irqHandler fuel .timer = some s) :
      Trapped k fuel r 32 ⟨s.dispatch .ring3, k.screen, false⟩
  | drops {t : Nat} {s : Sys} (ht : k.sys.keyboardThread fuel = some t) (h0 : t ≠ 0) (hc : r.scancode &&& 0x80 ≠ 0)
      (h : k.sys.trap.enter.reschedule fuel = some s) : Trapped k fuel r 33 ⟨s.dispatch .ring3, k.screen, false⟩
  | posts {t : Nat} {s₁ s : Sys} (ht : k.sys.keyboardThread fuel = some t) (h0 : t ≠ 0) (hc : r.scancode &&& 0x80 = 0)
      (hp : k.sys.trap.enter.msgPost fuel t r.p (intBuf r.scancode) 4 = some s₁) (h : s₁.reschedule fuel = some s) :
      Trapped k fuel r 33 ⟨s.dispatch .ring3, k.screen, false⟩

theorem runStub_eq (stub : Stub) : ∃ msg, k.runStub fuel r stub = serve msg fuel k stub.intNo r := by
  cases stub with
  | isr n => exact ⟨_, rfl⟩
  | irq n => exact ⟨_, rfl⟩

theorem softInt_served {t : Nat} {n : Byte} (h : softInt t k (fuel, n, r) = some k') :
    (k.mode = .ring3 ∧ k.panicked = false ∧ k.sys.runningThread = t) ∧ ∃ hd msg k₁, reached n.toNat = some hd ∧
      (k.setSys k.sys.trap.enter).call msg fuel r hd = some k₁ ∧ k' = k₁.leave := by
  obtain ⟨hg, h⟩ := Option.ite_none_right_eq_some.1 h
  obtain ⟨stub, hstub, h⟩ := Option.bind_eq_some_iff.1 h
  obtain ⟨k₁, hrun, h⟩ := Option.bind_eq_some_iff.1 h
  obtain ⟨msg, hserve⟩ : ∃ msg, (k.setSys k.sys.trap).runStub fuel r stub =
      serve msg fuel (k.setSys k.sys.trap) stub.intNo r := runStub_eq stub
  exact ⟨hg, interruptHandlers stub.intNo, msg, k₁, congrArg (Option.map _) hstub, hserve.symm.trans hrun,
    (Option.some.inj h).symm⟩

theorem leave_returned {k₁ : Kernel} (hp : k.panicked = false) (h : k.reschedule fuel = some k₁) :
    ∃ s, k.sys.reschedule fuel = some s ∧ k₁.leave = ⟨s.dispatch .ring3, k.screen, false⟩ := by
  unfold reschedule at h
  rw [hp] at h
  obtain ⟨s, hs, rfl⟩ := Option.map_eq_some_iff.1 h
  refine ⟨s, hs, ?_⟩
  unfold leave setSys
  dsimp only
  rw [hp]
  rfl

theorem softInt_cases {t : Nat} {n : Byte} (hkr : k.sys.kReenter = -1) (hu : k.sys.running.uid ≠ 0)
    (h : softInt t k (fuel, n, r) = some k') :
    (k.mode = .ring3 ∧ k.panicked = false ∧ k.sys.runningThread = t) ∧ Trapped k fuel r n k' := by
  obtain ⟨hg, hd, msg, k₁, hr, hh, rfl⟩ := softInt_served h
  refine ⟨hg, ?_⟩
  set k₀ := k.setSys k.sys.trap.enter with hk₀
  have hp : k₀.panicked = false := hg.2.1
  have hu₀ : k₀.sys.running.uid ≠ 0 := hu
  have hin : k₀.sys.InHandler := by
    left
    show k.sys.kReenter + 1 = 0
    rw [hkr]
    rfl
  -- what a handler that returns leaves
  have hret : ∀ {s : Sys}, (k₀.setSys s).reschedule fuel = some k₁ →
      ∃ s', s.reschedule fuel = some s' ∧ k₁.leave = ⟨s'.dispatch .ring3, k.screen, false⟩ :=
    fun {s} hx => leave_returned (k := k₀.setSys s) hp hx
  have hhalt : k₁ = { k₀ with panicked := true } → k₁.leave = ⟨⟨k.sys.trap.enter, .kernel⟩, k.screen, true⟩ := by
    rintro rfl
    rfl
  by_cases h32 : n = 32
  · subst h32
    obtain rfl : some .timerCallback = hd := Option.some.inj hr
    obtain ⟨k₂, h1, h2⟩ := call_some hh
    obtain rfl : k₀.setSys k₀.sys.timerCallback = k₂ := Option.some.inj h1
    obtain ⟨s, hs, hl⟩ := hret h2
    rw [hl]
    exact .ticks hs
  by_cases h255 : n = 255
  · subst h255
    obtain rfl : some .syscall = hd := Option.some.inj hr
    obtain ⟨k₂, h1, h2⟩ := call_some hh
    obtain rfl : k₀ = k₂ := Option.some.inj ((handle_syscall hu₀).symm.trans h1)
    obtain ⟨s, hs, hl⟩ := leave_returned hp h2
    rw [hl]
    exact .refused hs
  by_cases h33 : n = 33
  · subst h33
    obtain rfl : some .keypress = hd := Option.some.inj hr
    obtain ⟨k₂, h1, h2⟩ := call_some hh
    have hkt : k₀.sys.keyboardThread fuel = k.sys.keyboardThread fuel := keyboardThread_enter k.sys
    cases keypress_cases hin hu₀ h1 with
    | halts ht =>
      rw [hhalt (Option.some.inj h2).symm]
      exact .halts (by decide) (by decide) fun _ => hkt.symm.trans ht
    | posts ht h0 hc hpost =>
      obtain ⟨s, hs, hl⟩ := hret h2
      rw [hl]
      exact .posts (hkt.symm.trans ht) h0 hc hpost hs
    | drops ht h0 hc =>
      obtain ⟨s, hs, hl⟩ := leave_returned hp h2
      rw [hl]
      exact .drops (hkt.symm.trans ht) h0 hc hs
  · have hfault := reached_faults h32 h33 h255 hr
    rw [hhalt (Option.some.inj (hh.symm.trans (call_faults hfault hin hu₀ msg)))]
    exact .halts h32 h255 fun hx => absurd hx h33

end Kernel
end Krypton
