import Krypton.Gates
import Krypton.Launch
import Krypton.PortCount
import Krypton.TimeSlice

/-!
# Software interrupts of a thread with a `uid`

`syscall` refuses such a thread, but `idt_set_gate` opens every gate it sets to ring 3: `int 32` is a tick of the timer
and `int 33` a key of the keyboard. `software_interrupts_iff` says which instructions leave the scheduler, the ports and
the screen alone, and which of these give the processor back.
-/

namespace Krypton

open Sys

variable {c c₀ : Config} {t fuel : Nat}

/-- `keypress` would post: the keyboard's thread exists and the byte is no break code. -/
def Sys.KeyDown (fuel : Nat) (s : Sys) (r : Regs) : Prop :=
  (∃ t, s.keyboardThread fuel = some t ∧ t ≠ 0) ∧ r.scancode &&& 0x80 = 0

namespace Kernel

variable {k k' k'' : Kernel} {e : Nat × Byte × Regs} {is : List (Nat × Byte × Regs)} {s : Sys} {r : Regs}

/-- The state of the scheduler, the message ports and the screen are the same. -/
structure Undisturbed (k k' : Kernel) : Prop where
  mem : k'.sys.mem = k.sys.mem := by rfl
  thread : k'.sys.thread = k.sys.thread := by rfl
  msgBuf : k'.sys.msgBuf = k.sys.msgBuf := by rfl
  sysFlags : k'.sys.sysFlags = k.sys.sysFlags := by rfl
  tsCurrCount : k'.sys.tsCurrCount = k.sys.tsCurrCount := by rfl
  runningThread : k'.sys.runningThread = k.sys.runningThread := by rfl
  forbidCounter : k'.sys.forbidCounter = k.sys.forbidCounter := by rfl
  screen : k'.screen = k.screen := by rfl

namespace Undisturbed

theorem refl (k : Kernel) : Undisturbed k k := {}

theorem trans (h : Undisturbed k k') (h' : Undisturbed k' k'') : Undisturbed k k'' :=
  ⟨h'.mem.trans h.mem, h'.thread.trans h.thread, h'.msgBuf.trans h.msgBuf, h'.sysFlags.trans h.sysFlags,
    h'.tsCurrCount.trans h.tsCurrCount, h'.runningThread.trans h.runningThread, h'.forbidCounter.trans h.forbidCounter,
    h'.screen.trans h.screen⟩

theorem symm (h : Undisturbed k k') : Undisturbed k' k :=
  ⟨h.mem.symm, h.thread.symm, h.msgBuf.symm, h.sysFlags.symm, h.tsCurrCount.symm, h.runningThread.symm,
    h.forbidCounter.symm, h.screen.symm⟩

theorem iff_of (h : Undisturbed k k') : Undisturbed k k'' ↔ Undisturbed k' k'' := ⟨h.symm.trans, h.trans⟩

end Undisturbed

/-- The instruction is no tick that counts and no key that is posted. -/
def Harmless (k : Kernel) : Nat × Byte × Regs → Prop
  | (fuel, n, r) => (n = 32 → k.sys.tsCurrCount.toInt < -1) ∧ (n = 33 → ¬ k.sys.KeyDown fuel r)

/-- The handler of the instruction returns. -/
def Returns (k : Kernel) : Nat × Byte × Regs → Prop
  | (fuel, n, _) => n = 255 ∨ n = 32 ∨ n = 33 ∧ k.sys.keyboardThread fuel ≠ some 0

/-- Between two instructions of the thread. -/
structure Calm (k : Kernel) : Prop where
  depth : k.panicked = false → k.sys.kReenter = -1
  quantum : k.sys.stdTsQuantum = stdTsQuantum
  served : ¬ Has k.sys.sysFlags needSchedule
  calm : ¬ Has k.sys.sysFlags needTaskSwitch
  uid : k.sys.running.uid ≠ 0

/-- A handler that only counts a tick goes back to where it came from. -/
theorem Calm.back (h : k.Calm) (hp : k.panicked = false) (n : Word)
    (hs : s = { k.sys.trap.enter with systemTick := n }) :
    Calm ⟨s.dispatch .ring3, k.screen, false⟩ ∧ Undisturbed k ⟨s.dispatch .ring3, k.screen, false⟩ := by
  subst hs
  rw [dispatch_stays (s := { k.sys.trap.enter with systemTick := n }) h.calm]
  refine ⟨⟨fun _ => ?_, h.quantum, h.served, h.calm, h.uid⟩, {}⟩
  show k.sys.kReenter + 1 - 1 = -1
  rw [h.depth hp]
  rfl

theorem Calm.softInt (h : k.Calm) (hs : softInt t k e = some k') :
    k.Harmless e ∧ k'.Calm ∧ Undisturbed k k' ∧ (k'.panicked = false ↔ k.Returns e) ∨
      ¬ k.Harmless e ∧ ¬ Undisturbed k k' := by
  obtain ⟨fuel, n, r⟩ := e
  have hp : k.panicked = false := by
    unfold Krypton.softInt at hs
    exact (Option.ite_none_right_eq_some.1 hs).1.2.1
  have hin : k.sys.trap.enter.InHandler := by
    left
    show k.sys.kReenter + 1 = 0
    rw [h.depth hp]
    rfl
  obtain ⟨-, hk⟩ := softInt_cases (h.depth hp) h.uid hs
  cases hk with
  | halts h32 h255 h33 =>
    refine .inl ⟨⟨fun hx => absurd hx h32, ?_⟩, ⟨fun hx => Bool.noConfusion hx, h.quantum, h.served, h.calm, h.uid⟩,
      {}, iff_of_false (fun hx => Bool.noConfusion hx) ?_⟩
    · rintro hx ⟨⟨t, ht, h0⟩, -⟩
      exact h0 (Option.some.inj (ht.symm.trans (h33 hx)))
    · rintro (hx | hx | ⟨hx, hne⟩)
      · exact h255 hx
      · exact h32 hx
      · exact hne (h33 hx)
  | refused hr =>
    have hsys := (if_neg fun hx => h.served hx.1).symm.trans hr
    obtain ⟨hcalm, hsame⟩ := h.back hp k.sys.systemTick (Option.some.inj hsys).symm
    exact .inl ⟨⟨fun hx => absurd hx (by decide), fun hx => absurd hx (by decide)⟩, hcalm, hsame,
      iff_of_true rfl (.inl rfl)⟩
  | ticks hr =>
    by_cases hc : k.sys.tsCurrCount.toInt < -1
    · have hsys := (irqHandler_silent (s := k.sys.trap) hc h.served).symm.trans hr
      obtain ⟨hcalm, hsame⟩ := h.back hp _ (Option.some.inj hsys).symm
      exact .inl ⟨⟨fun _ => hc, fun hx => absurd hx (by decide)⟩, hcalm, hsame, iff_of_true rfl (.inr (.inl rfl))⟩
    · refine .inr ⟨fun hx => hc (hx.1 rfl), fun hx => ?_⟩
      exact tick_moves (s := k.sys.trap) (not_lt.1 hc) h.quantum hin h.served h.calm hr .ring3 hx.tsCurrCount
  | drops ht h0 hc hr =>
    have hsys := (if_neg fun hx => h.served hx.1).symm.trans hr
    obtain ⟨hcalm, hsame⟩ := h.back hp k.sys.systemTick (Option.some.inj hsys).symm
    refine .inl ⟨⟨fun hx => absurd hx (by decide), fun _ hx => hc hx.2⟩, hcalm, hsame,
      iff_of_true rfl (.inr (.inr ⟨rfl, ?_⟩))⟩
    rw [ht]
    exact fun hx => h0 (Option.some.inj hx)
  | @posts t s₁ s ht h0 hc hpost hr =>
    refine .inr ⟨fun hx => hx.2 rfl ⟨⟨t, ht, h0⟩, hc⟩, fun hx => ?_⟩
    -- the message is counted in the port of the keyboard's thread
    have hposted := msgPost_tally (t := t) hpost
    have htally := (hposted.then_none (reschedule_tally hr)).then_none (.exits (.dispatch s .ring3))
    have hnum := htally.numMsg
    rw [hx.thread] at hnum
    simp [Act.sent, maxMsgSz, Sys.trap, Sys.enter] at hnum

end Kernel

open Kernel

theorem reach_calmKernel (h : Reach step Regular c₀ c) (h₀ : Booted c₀) (hm : c.mode = .ring3)
    (hn : ¬ Has c.sys.sysFlags needSchedule) (hu : c.sys.running.uid ≠ 0) (m : Monitor) : Calm ⟨c, m, false⟩ :=
  ⟨fun _ => (reach_regular h h₀).ring3_kReenter hm, (reach_rearmed h h₀).quantum, hn,
    reach_calm (h.mono fun _ _ => And.left) h₀, hu⟩

/-- **Software interrupts of a thread with a `uid`.** From any reachable state in ring 3 without a pending request, the
instructions `int n` of the running thread leave the scheduler, the ports and the screen as they were if and only if
none of them is a tick that the timer counts or a key that is posted to the keyboard's thread. The kernel also goes on
exactly if every vector is 255, that of the timer or, with a thread for the keyboard, that of the keyboard. -/
theorem software_interrupts_iff {m : Monitor} {is : List (Nat × Byte × Regs)} {k' : Kernel}
    (h : Reach step Regular c₀ c) (h₀ : Booted c₀) (hm : c.mode = .ring3)
    (hn : ¬ Has c.sys.sysFlags needSchedule) (hu : c.sys.running.uid ≠ 0)
    (he : exec (softInt c.sys.runningThread) ⟨c, m, false⟩ is = some k') :
    (Always (softInt c.sys.runningThread) (Undisturbed ⟨c, m, false⟩) ⟨c, m, false⟩ is ↔
      Meets (softInt c.sys.runningThread) Harmless ⟨c, m, false⟩ is) ∧
    (Always (softInt c.sys.runningThread) (fun k => Undisturbed ⟨c, m, false⟩ k ∧ k.panicked = false) ⟨c, m, false⟩ is ↔
      Meets (softInt c.sys.runningThread) (fun k e => k.Harmless e ∧ k.Returns e) ⟨c, m, false⟩ is) := by
  have hcalm := reach_calmKernel h h₀ hm hn hu m
  -- a state reached without disturbance is calm again
  have hkept : ∀ k e k', Calm k → Undisturbed ⟨c, m, false⟩ k → Undisturbed ⟨c, m, false⟩ k' →
      softInt c.sys.runningThread k e = some k' → Calm k' := by
    intro k e k' hc hk hk' hs
    rcases hc.softInt hs with ⟨-, hc', -, -⟩ | ⟨-, hne⟩
    · exact hc'
    · exact absurd (hk.iff_of.1 hk') hne
  constructor
  · refine always_iff_meets hkept (fun k e k' hc hk hs => ?_) hcalm (.refl _) he
    rcases hc.softInt hs with ⟨hok, -, hsame, -⟩ | ⟨hok, hne⟩
    · exact iff_of_true (hk.trans hsame) hok
    · exact iff_of_false (fun hx => hne (hk.iff_of.1 hx)) hok
  · refine always_iff_meets (fun k e k' hc hk hk' => hkept k e k' hc hk.1 hk'.1) (fun k e k' hc hk hs => ?_) hcalm
      ⟨.refl _, rfl⟩ he
    rcases hc.softInt hs with ⟨hok, -, hsame, hret⟩ | ⟨hok, hne⟩
    · rw [hret]
      exact and_congr_left' (iff_of_true (hk.1.trans hsame) hok)
    · exact iff_of_false (fun hx => hne (hk.1.iff_of.1 hx.1)) fun hx => hok hx.1

/-- A thread with `uid` 7 is launched. -/
def madeAs7 : Config := (step bootZero (8, .create 12288 12488 ⟨4096, 0, 0, 50000, 60000, [], 7, 5⟩)).getD bootZero

def launchedAs7 : Config := (exec step madeAs7 firstLaunch).getD madeAs7

theorem launchedAs7_reach : Reach step Regular bootZero launchedAs7 := by
  have hmade : step bootZero (8, .create 12288 12488 ⟨4096, 0, 0, 50000, 60000, [], 7, 5⟩) = some madeAs7 := by rfl
  have hrun : exec step madeAs7 firstLaunch = some launchedAs7 := by rfl
  exact (Reach.start.next _ ⟨trivial, trivial⟩ hmade).trans (reach_exec_meets (by decide +kernel) hrun)

def noRegs : Regs := ⟨0, 0, [], [], 0, 0⟩

def asUser : Kernel := ⟨launchedAs7, ⟨fun _ => 0, 0, 0, 0, fun _ => 0, []⟩, false⟩

/-- Three system calls, which are refused. -/
def refusedCalls : List (Nat × Byte × Regs) := List.replicate 3 (8, 255, noRegs)

theorem software_interrupts_iff_refused :
    Always (softInt 12288) (fun k => Undisturbed asUser k ∧ k.panicked = false) asUser refusedCalls := by
  have hrun : exec (softInt 12288) asUser refusedCalls = some ((exec (softInt 12288) asUser refusedCalls).getD asUser) :=
    exec_getD asUser (by rfl)
  have hn : ¬ Has launchedAs7.sys.sysFlags needSchedule := by decide +kernel
  have hu : launchedAs7.sys.running.uid ≠ 0 := by decide +kernel
  refine (software_interrupts_iff launchedAs7_reach bootZero_booted rfl hn hu hrun).2.2 ?_
  have hcall : ∀ k : Kernel, k.Harmless (8, 255, noRegs) ∧ k.Returns (8, 255, noRegs) := fun k =>
    ⟨⟨fun hx => absurd hx (by decide), fun hx => absurd hx (by decide)⟩, .inl rfl⟩
  exact ⟨hcall _, fun _ _ => ⟨hcall _, fun _ _ => ⟨hcall _, fun _ _ => trivial⟩⟩⟩

def ticked : Kernel := (softInt 12288 asUser (8, 32, noRegs)).getD asUser

/-- Its `int 32` takes a tick off the time slice. -/
theorem int32_ticks : Booted bootZero ∧ Reach step Regular bootZero launchedAs7 ∧
    launchedAs7.mode = .ring3 ∧ ¬ Has launchedAs7.sys.sysFlags needSchedule ∧ launchedAs7.sys.running.uid = 7 ∧
    launchedAs7.sys.runningThread = 12288 ∧ exec (softInt 12288) asUser [(8, 32, noRegs)] = some ticked ∧
    launchedAs7.sys.tsCurrCount = 10 ∧ ticked.sys.tsCurrCount = 9 ∧ ¬ Undisturbed asUser ticked := by
  have h10 : launchedAs7.sys.tsCurrCount = 10 := by rfl
  have h9 : ticked.sys.tsCurrCount = 9 := by rfl
  refine ⟨bootZero_booted, launchedAs7_reach, rfl, ?_, ?_, rfl, rfl, h10, h9, fun hx => ?_⟩
  · decide +kernel
  · decide +kernel
  · exact absurd ((h9.symm.trans hx.tsCurrCount).trans h10) (by decide)

end Krypton
