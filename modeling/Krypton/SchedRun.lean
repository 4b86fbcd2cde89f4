import Krypton.Boot
import Krypton.Settled

/-!
# Runs of the scheduler

`settled_step`: a step in which handlers only post messages and `wait` is called only when `WaitSafe`
keeps `Settled`. The lemmas before it follow one entry from ring 3 or from the idle loop to its dispatcher
and say how far the two lists can change on the way.
-/

namespace Krypton

open Sys

variable {c c' : Config} {s s' : Sys} {rs ws : List Nat} {fuel t : Nat} {e : Nat × Event}

/-- `wait` is called only when the scheduler would not preempt the caller, and handlers only post. -/
def WaitOk (c : Config) (e : Nat × Event) : Prop :=
  Regular c e ∧ e.2.Posts ∧ (e.2.IsWait → c.sys.running.uid = 0 → c.sys.WaitSafe)

instance (c : Config) (e : Nat × Event) : Decidable (WaitOk c e) := inferInstanceAs (Decidable (_ ∧ _))

/-- `forbid_counter`, the flags and the processor's registers are not read. -/
theorem Sys.Placed.same {out : List Nat} (h : s.Placed out rs ws) (hb : s'.blocks = s.blocks)
    (hs : s'.sysBase = s.sysBase) (hc : s'.created = s.created) (hk : s'.kernelThread = s.kernelThread)
    (hm : s'.mem = s.mem) (ht : s'.thread = s.thread) : s'.Placed out rs ws :=
  h.congr (h.queues.objects.congr hb hs (by unfold threads; rw [hc, hk])) hs hc hk
    (Placed.sameLists_of_eq hm) fun t => by rw [ht]

theorem Sys.idtHandler_wait (hu : s.running.uid = 0) (flags : Word) : s.idtHandler fuel 0 flags =
    (s.enter.waitForFlags fuel flags).bind fun s => s.reschedule fuel := by
  have hu' : ¬ s.enter.running.uid ≠ 0 := not_not.2 hu
  unfold idtHandler Sys.syscall
  rw [if_neg hu', if_pos rfl]
  rfl

theorem Sys.idtHandler_refused (hu : s.running.uid ≠ 0) (eax ebx : Word) :
    s.idtHandler fuel eax ebx = s.enter.reschedule fuel := by
  have hu' : s.enter.running.uid ≠ 0 := hu
  unfold idtHandler Sys.syscall
  rw [if_pos hu']
  rfl

/-- Behind `wait_for_flags` the call of `reschedule` keeps the lists and leaves the request for a switch. -/
theorem Inv.waited {s₁ : Sys} {flags : Word} (hi : Inv c)
    (hw : c.sys.trap.enter.waitForFlags fuel flags = some s₁) (hs₁ : s₁.WaitSafe) (h : s₁.reschedule fuel = some s) :
    ∃ f, s = { s₁ with sysFlags := f } ∧ Has f needTaskSwitch := by
  have hkept := Sound.waitForFlags (s := c.sys.trap.enter) (hi.sound.congr {}) hi.context.running hw
  have hsig : ¬ Has s₁.running.threadFlags tbSignal := by
    intro hx
    have hr : s₁.runningThread = c.sys.runningThread := hkept.quiet.running
    have hx' := (hkept.quiet.threads c.sys.runningThread).signal.1 (hr ▸ hx)
    exact (hi.context.thread _ hi.context.running).signal hx'
  have hsw : Has s₁.sysFlags needTaskSwitch := by
    obtain ⟨m', -, rfl⟩ := waitForFlags_cases hw
    exact has_or_set (by decide)
  obtain ⟨f, hf, hfn⟩ := reschedule_safe fuel hs₁ hsig
  rw [hf] at h
  exact ⟨f, (Option.some.inj h).symm, hfn.2 hsw⟩

namespace Settled

theorem ring3 (h : Settled c rs ws) (hm : c.mode = .ring3) : c.sys.Placed [c.sys.runningThread] rs ws := by
  have := h.placed
  unfold Config.out at this
  rwa [if_pos hm] at this

theorem idle (h : Settled c rs ws) (hm : c.mode = .idle) : c.sys.Placed [] rs ws := by
  have := h.placed
  unfold Config.out at this
  rwa [if_neg (by rw [hm]; decide)] at this

theorem of_ring3 (h : s.Placed [s.runningThread] rs ws) (hn : ¬ Has s.sysFlags needTaskSwitch) :
    Settled ⟨s, .ring3⟩ rs ws :=
  ⟨h, hn⟩

/-! ### One entry, up to the dispatcher -/

/-- The state `idt_handler` and `irq_handler` work on. -/
theorem entry (h : Settled c rs ws) (hm : c.mode = .ring3) :
    c.sys.trap.enter.Placed [c.sys.trap.enter.runningThread] rs ws :=
  (h.ring3 hm).same rfl rfl rfl rfl rfl rfl

theorem wait {ebx : Word} (hi : Inv c) (h : Settled c rs ws) (hm : c.mode = .ring3)
    (hu : c.sys.running.uid = 0) (hsafe : c.sys.WaitSafe)
    (hh : c.sys.trap.idtHandler fuel 0 ebx = some s) :
    s.Placed [] rs (ws.orderedInsert c.sys.mem.ByPri c.sys.runningThread) ∧
      Has s.sysFlags needTaskSwitch := by
  rw [idtHandler_wait (s := c.sys.trap) hu] at hh
  obtain ⟨s₁, hw, h2⟩ := Option.bind_eq_some_iff.1 hh
  have he := h.entry hm
  have hp := he.waitForFlags hw
  have hs₁ : s₁.WaitSafe := (he.waitSafe_wait hw).2 hsafe
  obtain ⟨f, rfl, hf⟩ := hi.waited hw hs₁ h2
  exact ⟨hp.same rfl rfl rfl rfl rfl rfl, hf⟩

theorem syscall {eax ebx : Word} (hi : Inv c) (h : Settled c rs ws) (hm : c.mode = .ring3)
    (hstray : ¬ c.sys.StrayCycle eax) (hw : eax ≠ 0 ∨ c.sys.running.uid ≠ 0)
    (hh : c.sys.trap.idtHandler fuel eax ebx = some s) :
    ∃ rs', s.Pending rs' ws ∧ (∀ t ∈ rs, t ∈ rs') ∧
      (Has s.sysFlags needTaskSwitch → c.sys.runningThread ∈ rs') := by
  obtain ⟨s₁, h1, h2⟩ := Option.bind_eq_some_iff.1 hh
  have hs : c.sys.trap.enter.Sound := hi.sound.congr {}
  have hkept := hs.syscall hi.context.running hstray h1
  obtain ⟨hp, hf⟩ := (h.entry hm).syscall hs hi.context.running hstray hw h1
  have hr : s₁.runningThread = c.sys.runningThread := hkept.quiet.running
  have hp' : s₁.Placed [s₁.runningThread] rs ws := hkept.quiet.running.symm ▸ hp
  have hn : ¬ Has s₁.sysFlags needTaskSwitch := by rw [hf]; exact h.calm
  obtain ⟨rs', h3, h4, h5⟩ := hp'.reschedule hn h2
  exact ⟨rs', h3, h4, fun hx => hr ▸ h5 hx⟩

theorem irq {d : Handler} (hi : Inv c) (h : Settled c rs ws) (hm : c.mode = .ring3) (hp : d.Posts)
    (hh : c.sys.trap.irqHandler fuel d = some s) :
    ∃ rs' ws', s.Pending rs' ws' ∧ Placed.Woken c.sys s rs ws rs' ws' ∧
      (Has s.sysFlags needTaskSwitch → c.sys.runningThread ∈ rs') := by
  obtain ⟨s₁, h1, h2⟩ := Option.bind_eq_some_iff.1 hh
  have hs : c.sys.trap.enter.Sound := hi.sound.congr {}
  have hk : c.sys.trap.enter.InHandler := .inl (hi.trap_kReenter hm)
  have hkept := hs.handle hk h1
  obtain ⟨rs₁, ws₁, h3, h4, h5⟩ := (h.entry hm).handle hs hk hp h1
  have hr : s₁.runningThread = c.sys.runningThread := hkept.quiet.running
  have hp' : s₁.Placed [s₁.runningThread] rs₁ ws₁ := hkept.quiet.running.symm ▸ h3
  obtain ⟨rs', h6, h7, h8⟩ := hp'.reschedule (fun hx => h.calm (h5.1 hx)) h2
  have hsame : ∀ t, (s.thread t).sigWait = (s₁.thread t).sigWait := fun t => by
    rw [(reschedule_frame h2).1]
  have hwoken : Placed.Woken c.sys s₁ rs ws rs₁ ws₁ := ⟨h4.ready, h4.wait, h4.asleep⟩
  exact ⟨rs', ws₁, h6, hwoken.trans ⟨h7, fun _ => id, fun t _ => hsame t⟩, fun hx => hr ▸ h8 hx⟩

theorem idleIrq {d : Handler} (hi : Inv c) (h : Settled c rs ws) (hm : c.mode = .idle) (hp : d.Posts)
    (hh : c.sys.irqHandler fuel d = some s) :
    ∃ rs' ws', Settled (s.dispatch .idle) rs' ws' ∧ Placed.Woken c.sys s rs ws rs' ws' := by
  obtain ⟨h1, -, hd⟩ := hi.halted hm hh
  have hs : c.sys.enter.Sound := hi.sound.congr {}
  have he : c.sys.enter.Placed [] rs ws := (h.idle hm).same rfl rfl rfl rfl rfl rfl
  obtain ⟨rs', ws', h3, h4, h5⟩ := he.handle hs (.inr (hi.enter_kReenter hm)) hp h1
  refine ⟨rs', ws', ?_, h4.ready, h4.wait, h4.asleep⟩
  rw [hd]
  exact ⟨h3.same rfl rfl rfl rfl rfl rfl, fun hx => h.calm (h5.1 hx)⟩

theorem wake (h : Settled c rs ws) (hm : c.mode = .idle) :
    Settled c.sys.idleLoop rs.tail ws ∧ (rs ≠ [] → c.sys.idleLoop.mode = .ring3) := by
  have hp := h.idle hm
  cases rs with
  | nil => exact ⟨(hp.idleLoop_nil h.calm).1, fun hx => absurd rfl hx⟩
  | cons x xs =>
    refine ⟨hp.idleLoop_cons h.calm, fun _ => ?_⟩
    rw [Sys.idleLoop_cons hp]

end Settled

theorem settled_step (hi : Inv c) (h : Settled c rs ws) (hok : WaitOk c e) (hs : step c e = some c') :
    ∃ rs' ws', Settled c' rs' ws' := by
  obtain ⟨fuel, ev⟩ := e
  obtain ⟨hr, hposts, hsafe⟩ := hok
  cases step_cases hs with
  | forbid hm | permit hm =>
    exact ⟨rs, ws, Settled.of_ring3 ((h.ring3 hm).same rfl rfl rfl rfl rfl rfl) h.calm⟩
  | @create p q a s hm hc =>
    obtain ⟨rs', hp, -, hf⟩ := (h.ring3 hm).create hi.sound hc
    have hrun : s.runningThread = c.sys.runningThread := by
      obtain ⟨-, -, m', -, rfl⟩ := createThread_cases hc
      rfl
    exact ⟨rs', ws, .of_ring3 (hrun.symm ▸ hp) (by rw [hf]; exact h.calm)⟩
  | @syscall eax ebx s hm hh =>
    obtain ⟨hc, hk⟩ := hi.entered hm (hi.idtKept hr.1 hh)
    by_cases hw : eax = 0 ∧ c.sys.running.uid = 0
    · obtain ⟨rfl, hu⟩ := hw
      obtain ⟨hp, hn⟩ := h.wait hi hm hu (hsafe rfl hu) hh
      obtain ⟨rs', hx⟩ := Pending.dispatch ⟨.inr ⟨hp, hn⟩⟩ hc hk
      exact ⟨rs', _, hx⟩
    · obtain ⟨rs', hp, -⟩ := h.syscall hi hm hr.1 (by tauto) hh
      obtain ⟨rs'', hx⟩ := hp.dispatch hc hk
      exact ⟨rs'', ws, hx⟩
  | @irq d s hm hh =>
    obtain ⟨hc, hk⟩ := hi.entered hm (hi.irqKept hm hh)
    obtain ⟨rs', ws', hp, -⟩ := h.irq hi hm hposts hh
    obtain ⟨rs'', hx⟩ := hp.dispatch hc hk
    exact ⟨rs'', ws', hx⟩
  | @idleIrq d s hm hh =>
    obtain ⟨rs', ws', hx, -⟩ := h.idleIrq hi hm hposts hh
    exact ⟨rs', ws', hx⟩
  | wake hm hw =>
    obtain rfl := hr.2.wakeUp hw
    exact ⟨rs.tail, ws, (h.wake hm).1⟩

theorem Booted.settled (h : Booted c) : Settled c [] [] := by
  obtain ⟨hf, hm⟩ := h.fresh
  refine ⟨⟨⟨hf.objects, ?_⟩, ?_, fun t ht => ?_⟩, ?_⟩
  · have hrep : Rep hf.objects.all c.sys.mem fun l =>
        if l ∈ [c.sys.threadReady, c.sys.threadWait] then some [] else none := by
      refine Rep.nil fun l hl => ?_
      rcases List.mem_cons.1 hl with rfl | hl
      · exact ⟨.inl rfl, hf.ready⟩
      · obtain rfl := List.mem_singleton.1 hl
        exact ⟨.inr rfl, hf.wait⟩
    have hσ : (fun l => if l ∈ [c.sys.threadReady, c.sys.threadWait] then some [] else none) =
        c.sys.twoSeqs [] [] := by
      funext l
      unfold twoSeqs
      by_cases h1 : l = c.sys.threadReady <;> by_cases h2 : l = c.sys.threadWait <;> simp [h1, h2]
    exact hσ ▸ hrep
  · unfold Config.out
    rw [if_pos hm, hf.threads, hf.running]
    exact List.Perm.refl _
  · rw [hf.created] at ht; cases ht
  · rw [hf.sysFlags]; decide

/-- In every run whose calls of `wait` are safe the lists hold every thread once. -/
theorem reach_settled {c₀ : Config} (h : Reach step WaitOk c₀ c) (h₀ : Booted c₀) :
    ∃ rs ws, Settled c rs ws := by
  refine reach_keeps (P := fun c => ∃ rs ws, Settled c rs ws) h h₀ (fun _ _ hok => hok.1.keeps) ⟨[], [], h₀.settled⟩ ?_
  rintro s e s' hi ⟨rs, ws, hst⟩ hok hs
  exact settled_step hi hst hok hs

end Krypton
