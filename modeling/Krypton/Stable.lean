import Krypton.Boot

/-!
# Properties kept by all the kernel does

A property of the kernel's state that does not depend on its registers, flags and counters holds in every state of a
run if the functions that work on lists, threads and ports keep it (`Stable`): one clause for each of them, and for each
part of the way out of the idle loop that an interrupt may come behind. The rule says it of every kernel entry
(`Stable.step`) and of runs (`Stable.reach`). Where every `Quiet` step keeps it, fewer clauses are enough
(`StableQuiet`).
-/

namespace Krypton
namespace Sys

/-- Every function of the kernel keeps `P`. -/
structure Stable (P : Sys → Prop) : Prop extends Persists P where
  wait : ∀ {s s' fuel flags}, s.Sound → P s → s.runningThread ∈ s.threads →
    s.waitForFlags fuel flags = some s' → P s'
  retrieve : ∀ {s}, P s → ∀ ptr, P (s.msgRetrieve ptr)
  cycle : ∀ {s}, s.Sound → P s → s.runningThread ∈ s.created → P s.msgCycle
  requeue : ∀ {s s' fuel}, s.Sound → P s → s.runningThread ∈ s.threads → s.requeue fuel = some s' → P s'
  switchOut : ∀ {s}, s.Context True → P s → P s.switchOut
  unlink : ∀ {s n}, s.Sound → P s → s.HasLinks n → P (s.unlinkNext n) ∧ P (s.unlinkPrev n)
  switchTo : ∀ {s n}, P s → n ∈ s.threads → P (s.switchTo n)
  switchRun : ∀ {s}, P s → s.runningThread ∈ s.threads → P s.switchRun.resume
  create : ∀ {s s' fuel p q a}, s.Sound → P s → s.createThread fuel p q a = some s' → P s'

/-- A property of the threads and the history that every quiet step keeps, so that only the dispatcher and
`create_thread` are left. -/
structure StableQuiet (P : Sys → Prop) : Prop where
  store : ∀ {s s'}, P s → SameStore s s' → P s'
  quiet : ∀ {s s'}, P s → Quiet s s' → P s'
  switchOut : ∀ {s}, s.Context True → P s → P s.switchOut
  switchTo : ∀ {s n}, P s → n ∈ s.threads → P (s.switchTo n)
  switchRun : ∀ {s}, P s → s.runningThread ∈ s.threads → P s.switchRun.resume
  create : ∀ {s s' fuel p q a}, s.Sound → P s → s.createThread fuel p q a = some s' → P s'

theorem StableQuiet.stable {P : Sys → Prop} (hP : StableQuiet P) : Stable P where
  store := hP.store
  post hS h ht hp := hP.quiet h (hS.msgPost ht hp).quiet
  signal hS h ht hs := hP.quiet h (hS.signal ht hs).quiet
  wait hS h hr hw := hP.quiet h (hS.waitForFlags hr hw).quiet
  retrieve h ptr := hP.quiet h { log := ⟨[_], rfl, by simp [Ev.Quiet]⟩ }
  cycle hS h hr :=
    hP.quiet h (hS.msgCycle_kept (created_sub hr) fun hx => hS.objects.created_ne hr hx.1).quiet
  requeue hS h hr hs := hP.quiet h (hS.requeue hr hs).quiet
  switchOut := hP.switchOut
  unlink _ h _ := ⟨hP.quiet h {}, hP.quiet h {}⟩
  switchTo := hP.switchTo
  switchRun := hP.switchRun
  create := hP.create

namespace Stable

variable {P : Sys → Prop} {s s' : Sys} {fuel : Nat} {eax ebx : Word}

theorem syscall (hP : Stable P) (hS : s.Sound) (hr : s.runningThread ∈ s.threads) (hstray : ¬ s.StrayCycle eax)
    (h : P s) (hs : s.syscall fuel eax ebx = some s') : P s' := by
  unfold Sys.syscall at hs
  split_ifs at hs with _ _ _ _ h3
  · exact Option.some.inj hs ▸ h
  · exact hP.wait hS h hr hs
  · exact Option.some.inj hs ▸ h
  · exact Option.some.inj hs ▸ hP.retrieve h ebx
  · rw [← Option.some.inj hs]
    rcases hS.msgCycle_cases hr (h3 ▸ hstray) with he | ⟨hc, -⟩
    · rw [he]
      exact h
    · exact hP.cycle hS h hc
  · exact Option.some.inj hs ▸ h

theorem schedule (hP : Stable P) (hS : s.Sound) (hr : s.runningThread ∈ s.threads) (h : P s)
    (hs : s.schedule fuel = some s') : P s' := by
  unfold Sys.schedule at hs
  split_ifs at hs
  · exact Option.some.inj hs ▸ h
  · exact hP.requeue hS h hr hs
  · exact hP.requeue hS h hr hs
  · exact Option.some.inj hs ▸ h

theorem enter (hP : Stable P) (h : P s) : P s.enter := hP.store h ⟨rfl, rfl, rfl, rfl, rfl, rfl, rfl, rfl⟩

theorem trap (hP : Stable P) (h : P s) : P s.trap := hP.store h ⟨rfl, rfl, rfl, rfl, rfl, rfl, rfl, rfl⟩

theorem noSwitch (hP : Stable P) (h : P s) : P s.noSwitch := hP.store h ⟨rfl, rfl, rfl, rfl, rfl, rfl, rfl, rfl⟩

theorem reschedule (hP : Stable P) (hS : s.Sound) (hr : s.runningThread ∈ s.threads) (h : P s)
    (hs : s.reschedule fuel = some s') : P s' := by
  unfold Sys.reschedule at hs
  split_ifs at hs
  · have hc : { s with sysFlags := s.sysFlags &&& ~~~needSchedule }.Sound := hS.congr ⟨rfl, rfl, rfl, rfl, rfl, rfl, rfl⟩
    exact hP.schedule hc hr (hP.store h ⟨rfl, rfl, rfl, rfl, rfl, rfl, rfl, rfl⟩) hs
  · exact Option.some.inj hs ▸ h

theorem idtHandler (hP : Stable P) (hS : s.Sound) (hr : s.runningThread ∈ s.threads) (hstray : ¬ s.StrayCycle eax)
    (h : P s) (hs : s.idtHandler fuel eax ebx = some s') : P s' := by
  obtain ⟨s₁, h1, h2⟩ := Option.bind_eq_some_iff.1 hs
  have hkept := Sound.syscall hS.enter hr hstray h1
  have hcall := hP.syscall hS.enter hr hstray (hP.enter h) h1
  exact hP.reschedule hkept.sound (hkept.mem hr) hcall h2

theorem irqHandler (hP : Stable P) (hS : s.Sound) (hr : s.runningThread ∈ s.threads) (hk : s.enter.InHandler)
    (h : P s) {d : Handler} (hs : s.irqHandler fuel d = some s') : P s' := by
  obtain ⟨s₁, h1, h2⟩ := Option.bind_eq_some_iff.1 hs
  have hkept := Sound.handle hS.enter hk h1
  have hcall := hP.toPersists.handle hS.enter hk (hP.enter h) h1
  exact hP.reschedule hkept.sound (hkept.mem hr) hcall h2

theorem switchIn {next : Nat} (hP : Stable P) (hS : s.Sound) (h : P s) (hn : s.HasLinks next) : P (s.switchIn next) := by
  obtain ⟨h1, l1⟩ := hS.unlinkNext hn
  have h2 := (hP.unlink h1 (hP.unlink hS h hn).1 l1).2
  have h3 := hP.switchTo h2 hn.mem
  exact hP.switchRun h3 hn.mem

theorem idleLoop (hP : Stable P) (hS : s.Sound) (h : P s) : P s.idleLoop.sys := by
  unfold Sys.idleLoop
  dsimp only
  split_ifs with h0
  · exact hP.store h ⟨rfl, rfl, rfl, rfl, rfl, rfl, rfl, rfl⟩
  · exact hP.switchIn hS h (hS.hasLinks h0)

theorem dispatch (hP : Stable P) (hS : s.Sound) (hc : s.Context True) (h : P s) (back : Mode) :
    P (s.dispatch back).sys := by
  unfold Sys.dispatch
  split_ifs
  · exact hP.idleLoop (hS.switchOut hc.running) (hP.switchOut hc h)
  · exact hP.noSwitch h

/-- The way out of the loop, with the interrupts on it. -/
theorem leave {s₁ s₂ s₃ s₄ : Sys} {next : Nat} {a : Arrivals} (hP : Stable P) (hS : s.Sound) (h : P s)
    (hw : WayOut fuel next a s s₁ s₂ s₃ s₄) : P s₄ := by
  have hser := hP.toPersists
  have h1 := hser.serve hS hw.kReenter h hw.found
  have h2 := hser.serve hw.sound₁ hw.kReenter₁ (hP.unlink hw.kept₁.sound h1 hw.links₁).1 hw.unlinking
  have h3 := hser.serve hw.sound₂ hw.kReenter₂ (hP.unlink hw.kept₂.sound h2 hw.links₂).2 hw.unlinked
  exact hser.serve hw.sound₃ hw.kReenter₃ (hP.switchTo h3 hw.mem₃) hw.restarted

end Stable
end Sys

open Sys

variable {P : Sys → Prop} {c c' c₀ : Config} {e : Nat × Event}

theorem Sys.Stable.step (hP : Stable P) (hi : Inv c) (hok : KeepsContexts c e) (h : P c.sys)
    (hs : Krypton.step c e = some c') : P c'.sys := by
  obtain ⟨fuel, ev⟩ := e
  cases step_cases hs with
  | forbid hm | permit hm => exact hP.store h ⟨rfl, rfl, rfl, rfl, rfl, rfl, rfl, rfl⟩
  | create hm hc => exact hP.create hi.sound h hc
  | syscall hm hh =>
    have hkept := hi.idtKept hok.1 hh
    have hs' := hP.idtHandler hi.sound.trap hi.context.running hok.1 (hP.trap h) hh
    exact hP.dispatch hkept.sound (hi.entered hm hkept).1 hs' _
  | irq hm hh =>
    have hkept := hi.irqKept hm hh
    have hs' := hP.irqHandler hi.sound.trap hi.context.running (.inl (hi.trap_kReenter hm)) (hP.trap h) hh
    exact hP.dispatch hkept.sound (hi.entered hm hkept).1 hs' _
  | idleIrq hm hh =>
    obtain ⟨-, -, hd⟩ := hi.halted hm hh
    rw [hd]
    exact hP.noSwitch (hP.irqHandler hi.sound hi.context.running (.inr (hi.enter_kReenter hm)) h hh)
  | wake hm hw =>
    unfold Sys.wakeUp at hw
    dsimp only at hw
    split_ifs at hw with h0
    · obtain rfl := Option.some.inj hw
      exact hP.store h ⟨rfl, rfl, rfl, rfl, rfl, rfl, rfl, rfl⟩
    obtain ⟨s₁, s₂, s₃, s₄, hout, -⟩ := leaveLoop_cases hi.sound (hi.idle_kReenter hm) (hi.sound.hasLinks h0) hw
    obtain rfl := Option.some.inj ((hout.ends hok.2).symm.trans hw)
    exact hP.switchRun (hP.leave hi.sound h hout) hout.running_mem

theorem Sys.Stable.reach (hP : Stable P) {ok : Config → Nat × Event → Prop} (h : Reach Krypton.step ok c₀ c)
    (h₀ : Booted c₀) (hok : ∀ c e, ok c e → KeepsContexts c e) (hstart : P c₀.sys) : P c.sys :=
  reach_keeps (P := fun c => P c.sys) h h₀ hok hstart fun _ _ _ hi hc he hs => hP.step hi (hok _ _ he) hc hs

end Krypton
