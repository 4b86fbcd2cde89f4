import Krypton.Lined

/-!
# Signals and blocked threads

`_signal` goes by `sig_wait` alone. A thread that waits for several signals and is woken by one of them keeps the other
bits, so it is unlinked again when it is ready or running. As long as the signals that wake a thread cover all it waits
for, who waits for a signal is on `thread_wait` (`signals_blocked`).
-/

namespace Krypton

open Sys

/-- The events of `step`, and interrupts whose handler may signal the kernel thread. -/
def kickStep (c : Config) : Nat × (Event ⊕ List Kick) → Option Config
  | (fuel, .inl e) => step c (fuel, e)
  | (fuel, .inr ks) =>
    match c.mode with
    | .ring3 => ((c.sys.trap.enter.kicks fuel ks).bind fun s => s.reschedule fuel).map fun s => s.dispatch .ring3
    | .idle => ((c.sys.enter.kicks fuel ks).bind fun s => s.reschedule fuel).map fun s => s.dispatch .idle
    | .kernel => none

/-- The state a handler starts in. -/
def Config.handling (c : Config) : Sys := if c.mode = .ring3 then c.sys.trap.enter else c.sys.enter

/-- Signals are covered, and `wait` is called only when the scheduler would not preempt the caller. -/
def SignalsOk (W : Nat → Word) (c : Config) : Nat × (Event ⊕ List Kick) → Prop
  | (fuel, .inl (.irq (.device as))) => KicksCovered fuel W c.handling (as.map .act)
  | (fuel, .inl e) => Regular c (fuel, e) ∧ (e.IsWait → c.sys.running.uid = 0 → c.sys.WaitSafe)
  | (fuel, .inr ks) => KicksCovered fuel W c.handling ks

instance (W : Nat → Word) (c : Config) : DecidablePred (SignalsOk W c)
  | (_, .inl (.irq (.device _))) | (_, .inr _) => inferInstanceAs (Decidable (KicksCovered ..))
  | (_, .inl .forbid) | (_, .inl .permit) | (_, .inl (.create ..)) | (_, .inl (.syscall ..))
  | (_, .inl (.irq .timer)) | (_, .inl (.wake _)) => inferInstanceAs (Decidable (_ ∧ _))

theorem SignalsOk.regular {W : Nat → Word} {c : Config} {fuel : Nat} {ev : Event}
    (h : SignalsOk W c (fuel, .inl ev)) : Regular c (fuel, ev) := by
  cases ev with
  | irq d =>
    cases d with
    | timer => exact h.1
    | device as => exact ⟨trivial, trivial⟩
  | _ => exact h.1

/-- What an entry from ring 3 comes to: no ready thread is above the running one, or the running thread stays and the
ready ones are as they were. -/
inductive Outcome (c c' : Config) (rs rs' : List Nat) : Prop
  | top (h : c'.Top rs')
  | stayed (mode : c.mode = .ring3) (running : c'.sys.runningThread = c.sys.runningThread)
      (log : ∃ es, c'.sys.log = es ++ c.sys.log ∧ ∀ e ∈ es, e.Quiet)
      (forbid : c'.sys.forbidCounter = c.sys.forbidCounter)
      (pri : ∀ t ∈ c.sys.threads, c'.sys.mem.pri t = c.sys.mem.pri t)
      (ready : c.sys.forbidCounter.toInt ≤ 0 → rs' = rs ∨ c'.Top rs')

/-- The event enters the kernel. -/
def Enters : Event ⊕ List Kick → Prop
  | .inl .forbid | .inl .permit | .inl (.create ..) => False
  | _ => True

variable {c c' c₀ : Config} {s s' s₁ : Sys} {W : Nat → Word} {rs ws rs₁ ws₁ : List Nat} {t fuel : Nat}
  {e : Nat × (Event ⊕ List Kick)} {eax ebx : Word}

theorem Inv.handling (hi : Inv c) : c.handling.Sound ∧ c.handling.InHandler := by
  unfold Config.handling
  split_ifs with hm
  · exact ⟨hi.sound.congr {}, .inl (hi.trap_kReenter hm)⟩
  · have hidle : c.mode = .idle := (hi.kReenter.resolve_left fun hx => hm hx.1).1
    exact ⟨hi.sound.congr {}, .inr (hi.enter_kReenter hidle)⟩

namespace Ordered

theorem handling (h : Ordered W c rs ws) : c.handling.Lined W c.out rs ws := by
  unfold Config.handling
  split_ifs
  · exact h.lined.same rfl rfl rfl rfl rfl fun _ => rfl
  · exact h.lined.same rfl rfl rfl rfl rfl fun _ => rfl

theorem entering (h : Ordered W c rs ws) (hm : c.mode = .ring3) :
    c.sys.trap.enter.Lined W [c.sys.trap.enter.runningThread] rs ws :=
  (h.ring3 hm).same rfl rfl rfl rfl rfl fun _ => rfl

/-- An entry from ring 3, from the return of the handler proper on. -/
theorem leaves (hi : Inv c) (h : Ordered W c rs ws) (hm : c.mode = .ring3) (hkept : Kept c.sys.trap.enter s₁)
    (hst : Steady c.sys.trap.enter s₁) (hl : s₁.Lined W [c.sys.runningThread] rs₁ ws₁)
    (hkick : Kicked c.sys.trap.enter s₁ rs rs₁) (hr : s₁.reschedule fuel = some s) :
    Inv (s.dispatch .ring3) ∧ ∃ rs' ws', Ordered W (s.dispatch .ring3) rs' ws' ∧
      Outcome c (s.dispatch .ring3) rs rs' := by
  have hrun : s₁.runningThread = c.sys.runningThread := hkept.quiet.running
  have hmem : s₁.runningThread ∈ s₁.threads := hkept.mem hi.context.running
  have hobj := hkept.sound.objects
  have hrun0 : s₁.runningThread ≠ 0 := hobj.ne_zero _ (hobj.thread _ hmem)
  have hk : s₁.kReenter = 0 := hkept.quiet.kReenter.trans (hi.trap_kReenter hm)
  have hn : ¬ Has s₁.sysFlags needTaskSwitch := fun hx => h.calm (hkick.switch.1 hx)
  have hkept' : Kept c.sys.trap.enter s := hkept.trans (hkept.sound.reschedule hmem hr)
  obtain ⟨hctx, hk'⟩ := hi.entered hm hkept'
  refine ⟨Inv.dispatch hkept'.sound hctx hk', ?_⟩
  rcases Lined.reschedule (hrun.symm ▸ hl) hrun0 hn hk hr with ⟨h1, h2⟩ | ⟨h1, h2, h3, h4, h5⟩
  · obtain ⟨rs', h6, h7⟩ := Ordered.switched h1 h2 hctx hk'
    exact ⟨rs', ws₁, h6, .top h7⟩
  · obtain ⟨h6, h7⟩ := Ordered.stayed h1 h2
    have hforbid : s₁.forbidCounter = c.sys.forbidCounter := hst.forbid
    refine ⟨rs₁, ws₁, h6, ?_⟩
    rw [h7]
    refine .stayed hm (h4.trans hrun) hkept'.quiet.log ?_ (fun t ht => ?_) fun hf => ?_
    · exact (reschedule_steady hr).forbid.trans hforbid
    · show s.mem.pri t = _
      rw [h3]
      exact hkick.pri t ht
    · rcases hkick.asked with he | hx
      · exact .inl he
      · refine .inr fun _ => ?_
        show ∀ t ∈ rs₁, s.mem.pri t ≤ s.mem.pri s.runningThread
        rw [h3, h4]
        exact h5 hx (hforbid.symm ▸ hf)

theorem wait (hi : Inv c) (h : Ordered W c rs ws) (hm : c.mode = .ring3) (hu : c.sys.running.uid = 0)
    (hsafe : c.sys.WaitSafe) (hh : c.sys.trap.idtHandler fuel 0 ebx = some s) :
    ∃ rs' ws', Ordered W (s.dispatch .ring3) rs' ws' ∧ (s.dispatch .ring3).Top rs' := by
  have hstray : ¬ c.sys.StrayCycle 0 := fun hx => absurd hx.2.1 (by decide)
  obtain ⟨hctx, hk⟩ := hi.entered hm (hi.idtKept hstray hh)
  rw [idtHandler_wait (s := c.sys.trap) hu] at hh
  obtain ⟨s₁, hw, h2⟩ := Option.bind_eq_some_iff.1 hh
  have he := h.entering hm
  have hs₁ : s₁.WaitSafe := (he.queues.waitSafe_wait he.out_mem he.out_notMem.1 he.out_notMem.2 hw).2 hsafe
  obtain ⟨f, rfl, hf⟩ := hi.waited hw hs₁ h2
  have hl : Lined { s₁ with sysFlags := f } W [] rs (ws.orderedInsert c.sys.trap.enter.mem.ByPri c.sys.runningThread) :=
    (he.waitForFlags hw).same rfl rfl rfl rfl rfl fun _ => rfl
  obtain ⟨rs', h3, h4⟩ := Ordered.switched hl hf hctx hk
  exact ⟨rs', _, h3, h4⟩

theorem syscall (hi : Inv c) (h : Ordered W c rs ws) (hm : c.mode = .ring3) (hstray : ¬ c.sys.StrayCycle eax)
    (hw : eax ≠ 0 ∨ c.sys.running.uid ≠ 0) (hh : c.sys.trap.idtHandler fuel eax ebx = some s) :
    ∃ rs' ws', Ordered W (s.dispatch .ring3) rs' ws' ∧ Outcome c (s.dispatch .ring3) rs rs' := by
  obtain ⟨s₁, h1, h2⟩ := Option.bind_eq_some_iff.1 hh
  have hs : c.sys.trap.enter.Sound := hi.sound.congr {}
  have hkept := hs.syscall hi.context.running hstray h1
  obtain ⟨h3, h4⟩ := (h.entering hm).syscall hs hi.context.running hstray hw h1
  exact (h.leaves hi hm hkept (syscall_steady h1) h3 h4 h2).2

theorem tick (hi : Inv c) (h : Ordered W c rs ws) (hm : c.mode = .ring3)
    (hh : c.sys.trap.irqHandler fuel .timer = some s) :
    ∃ rs' ws', Ordered W (s.dispatch .ring3) rs' ws' ∧ Outcome c (s.dispatch .ring3) rs rs' := by
  have h2 : c.sys.trap.enter.timerCallback.reschedule fuel = some s := hh
  have hs : c.sys.trap.enter.Sound := hi.sound.congr {}
  obtain ⟨h3, h4⟩ := (h.entering hm).timerCallback
  exact (h.leaves hi hm hs.timerCallback (timerCallback_steady _) h3 h4 h2).2

theorem kicks {ks : List Kick} (hi : Inv c) (h : Ordered W c rs ws) (hm : c.mode = .ring3)
    (hc : KicksCovered fuel W c.sys.trap.enter ks) (hk : c.sys.trap.enter.kicks fuel ks = some s₁)
    (hr : s₁.reschedule fuel = some s) :
    Inv (s.dispatch .ring3) ∧ ∃ rs' ws', Ordered W (s.dispatch .ring3) rs' ws' ∧
      Outcome c (s.dispatch .ring3) rs rs' := by
  have hs : c.sys.trap.enter.Sound := hi.sound.congr {}
  obtain ⟨hkept, hst, rs₁, ws₁, h3, h4⟩ := (h.entering hm).kicks hs (.inl (hi.trap_kReenter hm)) hc hk
  exact h.leaves hi hm hkept hst h3 h4 hr

theorem halted (hi : Inv c) (h : Ordered W c rs ws) (hm : c.mode = .idle) (hkept : Kept c.sys.enter s₁)
    (hl : s₁.Lined W [] rs₁ ws₁) (hkick : Kicked c.sys.enter s₁ rs rs₁) (hr : s₁.reschedule fuel = some s) :
    Inv (s.dispatch .idle) ∧ Ordered W (s.dispatch .idle) rs₁ ws₁ ∧ (s.dispatch .idle).mode = .idle := by
  have hk : s₁.kReenter = 1 := hkept.quiet.kReenter.trans (hi.enter_kReenter hm)
  rw [reschedule_nested (by rw [hk]; decide)] at hr
  obtain rfl := Option.some.inj hr
  have hctx : c.sys.enter.Context False := (hi.idle hm).1.congr rfl rfl rfl rfl rfl
  have hcons := Consistent.dispatch_idle hkept.sound (hkept.mem hi.running) hk
  have h0 : s₁.kReenter ≠ 0 := by
    rw [hk]
    decide
  rw [dispatch_nested h0] at hcons ⊢
  refine ⟨⟨hcons, ((hctx.quiet hkept.quiet).on_iff (by simp)).congr rfl rfl rfl rfl rfl⟩, ?_⟩
  exact ⟨⟨hl.same rfl rfl rfl rfl rfl fun _ => rfl, fun hx => h.calm (hkick.switch.1 hx)⟩, rfl⟩

theorem halting (h : Ordered W c rs ws) (hm : c.mode = .idle) : c.sys.enter.Lined W [] rs ws :=
  (h.idle hm).same rfl rfl rfl rfl rfl fun _ => rfl

/-! ### The step -/

theorem kickStep {ks : List Kick} (hi : Inv c) (h : Ordered W c rs ws) (hc : KicksCovered fuel W c.handling ks)
    (hs : kickStep c (fuel, .inr ks) = some c') :
    Inv c' ∧ ∃ rs' ws', Ordered W c' rs' ws' ∧ Outcome c c' rs rs' := by
  unfold Krypton.kickStep at hs
  unfold Config.handling at hc
  dsimp only at hs
  split at hs
  · rename_i hm
    rw [if_pos hm] at hc
    obtain ⟨s, hb, rfl⟩ := Option.map_eq_some_iff.1 hs
    obtain ⟨s₁, hk, hr⟩ := Option.bind_eq_some_iff.1 hb
    exact h.kicks hi hm hc hk hr
  · rename_i hm
    rw [if_neg (by rw [hm]; decide)] at hc
    obtain ⟨s, hb, rfl⟩ := Option.map_eq_some_iff.1 hs
    obtain ⟨s₁, hk, hr⟩ := Option.bind_eq_some_iff.1 hb
    have hsound : c.sys.enter.Sound := hi.sound.congr {}
    obtain ⟨hkept, -, rs₁, ws₁, h3, h4⟩ := (h.halting hm).kicks hsound (.inr (hi.enter_kReenter hm)) hc hk
    obtain ⟨h5, h6, h7⟩ := h.halted hi hm hkept h3 h4 hr
    exact ⟨h5, rs₁, ws₁, h6, .top fun hx => by rw [h7] at hx; cases hx⟩
  · cases hs

theorem kickStep_device (c : Config) (fuel : Nat) (as : List Act) :
    Krypton.kickStep c (fuel, .inr (as.map .act)) = step c (fuel, .irq (.device as)) := by
  unfold Krypton.kickStep step irqHandler
  dsimp only
  rw [kicks_act, kicks_act]
  cases c.mode <;> rfl

theorem step (hi : Inv c) (h : Ordered W c rs ws) (hok : SignalsOk W c e) (hs : Krypton.kickStep c e = some c') :
    Inv c' ∧ ∃ rs' ws', Ordered W c' rs' ws' ∧ (Enters e.2 → Outcome c c' rs rs') := by
  obtain ⟨fuel, ev | ks⟩ := e
  · have hstep : Krypton.step c (fuel, ev) = some c' := hs
    by_cases hdev : ∃ as, ev = .irq (.device as)
    · obtain ⟨as, rfl⟩ := hdev
      rw [← kickStep_device] at hstep
      obtain ⟨h1, rs', ws', h2, h3⟩ := h.kickStep hi hok hstep
      exact ⟨h1, rs', ws', h2, fun _ => h3⟩
    have hreg : Regular c (fuel, ev) := hok.regular
    refine ⟨hi.step hreg.keeps hstep, ?_⟩
    cases step_cases hstep with
    | forbid hm | permit hm =>
      have hl := h.ring3 hm
      exact ⟨rs, ws, of_ring3 (hl.same rfl rfl rfl rfl rfl fun _ => rfl) h.calm, fun he => he.elim⟩
    | create hm hc =>
      obtain ⟨rs', hl, -⟩ := (h.ring3 hm).create hi.sound hc
      obtain ⟨-, -, m', -, rfl⟩ := createThread_cases hc
      exact ⟨rs', ws, of_ring3 hl h.calm, fun he => he.elim⟩
    | @syscall eax ebx s hm hh =>
      by_cases hw : eax = 0 ∧ c.sys.running.uid = 0
      · obtain ⟨rfl, hu⟩ := hw
        obtain ⟨rs', ws', h1, h2⟩ := h.wait hi hm hu (hok.2 rfl hu) hh
        exact ⟨rs', ws', h1, fun _ => .top h2⟩
      · have hw' : eax ≠ 0 ∨ c.sys.running.uid ≠ 0 := not_and_or.1 hw
        obtain ⟨rs', ws', h1, h2⟩ := h.syscall hi hm hreg.1 hw' hh
        exact ⟨rs', ws', h1, fun _ => h2⟩
    | @irq d s hm hh =>
      cases d with
      | device as => exact absurd ⟨as, rfl⟩ hdev
      | timer =>
        obtain ⟨rs', ws', h1, h2⟩ := h.tick hi hm hh
        exact ⟨rs', ws', h1, fun _ => h2⟩
    | @idleIrq d s hm hh =>
      cases d with
      | device as => exact absurd ⟨as, rfl⟩ hdev
      | timer =>
        have hsound : c.sys.enter.Sound := hi.sound.congr {}
        obtain ⟨h3, h4⟩ := (h.halting hm).timerCallback
        obtain ⟨-, h5, h6⟩ := h.halted hi hm hsound.timerCallback h3 h4 hh
        exact ⟨rs, ws, h5, fun _ => .top fun hx => by rw [h6] at hx; cases hx⟩
    | wake hm hw =>
      obtain rfl := hreg.2.wakeUp hw
      obtain ⟨rs', h1, h2⟩ := Ordered.idleLoop (h.idle hm) h.calm
      exact ⟨rs', ws, h1, fun _ => .top h2⟩
  · obtain ⟨h1, rs', ws', h2, h3⟩ := h.kickStep hi hok hs
    exact ⟨h1, rs', ws', h2, fun _ => h3⟩

end Ordered

theorem Booted.ordered (h : Booted c) (hW : W c.sys.kernelThread &&& (c.sys.thread c.sys.kernelThread).sigWait = 0) :
    Ordered W c [] [] := by
  have hs := h.settled.placed
  refine ⟨⟨hs.queues, hs.perm, .nil, fun t ht hw => ?_⟩, h.settled.calm⟩
  rw [h.fresh.1.threads, List.mem_singleton] at ht
  rw [ht, Has, BitVec.and_comm] at hw
  exact absurd hW hw

theorem reach_ordered {ok : Config → Nat × (Event ⊕ List Kick) → Prop} (h : Reach kickStep ok c₀ c) (h₀ : Booted c₀)
    (hW : W c₀.sys.kernelThread &&& (c₀.sys.thread c₀.sys.kernelThread).sigWait = 0)
    (hok : ∀ c e, ok c e → SignalsOk W c e) : Inv c ∧ ∃ rs ws, Ordered W c rs ws := by
  refine h.inv (P := fun c => Inv c ∧ ∃ rs ws, Ordered W c rs ws) ⟨h₀.inv, [], [], h₀.ordered hW⟩ ?_
  rintro c e c' ⟨hi, rs, ws, ho⟩ hoe hs
  obtain ⟨hi', rs', ws', ho', -⟩ := ho.step hi (hok c e hoe) hs
  exact ⟨hi', rs', ws', ho'⟩

/-! ### Blocked threads -/

/-- Every thread is in one place, `out` apart, and who waits for a signal is on `thread_wait`. -/
def Sys.Blocked (s : Sys) (out : List Nat) : Prop :=
  ∃ rs ws, IsList s.mem s.threadReady rs ∧ IsList s.mem s.threadWait ws ∧ (out ++ (rs ++ ws)).Perm s.threads ∧
    (out ++ (rs ++ ws)).Nodup ∧ ∀ t ∈ s.threads, (s.thread t).sigWait ≠ 0 → t ∈ ws

/-- Every flag. -/
def allFlags (_ : Nat) : Word := BitVec.allOnes 32

theorem has_allFlags (x : Word) (t : Nat) : Has x (allFlags t) ↔ x ≠ 0 := by
  unfold Has allFlags
  rw [BitVec.and_allOnes]
  exact .rfl

theorem Sys.Lined.blocked {out : List Nat} (h : s.Lined allFlags out rs ws) : s.Blocked out :=
  ⟨rs, ws, h.queues.isList_ready, h.queues.isList_wait, h.perm, h.queues.nodup h.perm, fun t ht hw =>
    h.asleep t ht ((has_allFlags _ t).2 hw)⟩

/-- **Signals touch blocked threads.** Start with a kernel thread that waits for nothing. As long as every signal that
wakes a thread covers all it waits for, and `wait` is not called where the scheduler would preempt the caller, who waits
for a signal is on `thread_wait`, between two entries and inside of every handler; so what `_signal` unlinks is. -/
theorem signals_blocked (h : Reach kickStep (SignalsOk allFlags) c₀ c) (h₀ : Booted c₀)
    (hk : (c₀.sys.thread c₀.sys.kernelThread).sigWait = 0) :
    c.sys.Blocked c.out ∧ ∀ fuel ks s, KicksCovered fuel allFlags c.handling ks → c.handling.kicks fuel ks = some s →
      s.Blocked c.out := by
  have hW : allFlags c₀.sys.kernelThread &&& (c₀.sys.thread c₀.sys.kernelThread).sigWait = 0 := by
    rw [hk]
    exact BitVec.and_zero
  obtain ⟨hi, rs, ws, ho⟩ := reach_ordered h h₀ hW fun _ _ => id
  refine ⟨ho.lined.blocked, fun fuel ks s hc hs => ?_⟩
  obtain ⟨hsound, hh⟩ := hi.handling
  obtain ⟨-, -, rs', ws', h1, -⟩ := ho.handling.kicks hsound hh hc hs
  exact h1.blocked

/-- A thread waits for a message, gets it and is interrupted by `_signal` of the kernel thread, which has waited meanwhile. -/
def kicked : List (Nat × (Event ⊕ List Kick)) :=
  ([create 12288 15, (8, .permit)] ++ List.replicate 11 tick ++ [call 0 1, call 0 2]).map
      (fun e => (e.1, .inl e.2)) ++
    [(8, .inr [.act (.post 12288 14000 (fun _ => 65) 4)]), (8, .inl (.wake .none)), (8, .inr [.kernel 3])]

theorem signals_blocked_kicked : ∃ c, exec kickStep bootZero kicked = some c ∧ c.sys.runningThread = 12288 ∧
    c.sys.Blocked [12288] := by
  have hsome : (exec kickStep bootZero kicked).isSome := by decide +kernel
  have hmeets : Meets kickStep (SignalsOk allFlags) bootZero kicked := by decide +kernel
  obtain ⟨c, hc⟩ := Option.isSome_iff_exists.1 hsome
  have hrun : (exec kickStep bootZero kicked).map (fun c => (c.sys.runningThread, c.out)) = some (12288, [12288]) := by
    decide +kernel
  rw [hc] at hrun
  obtain ⟨h1, h2⟩ := Prod.mk.inj (Option.some.inj hrun)
  obtain ⟨h3, -⟩ := signals_blocked (reach_exec_meets hmeets hc) bootZero_booted (by decide +kernel)
  exact ⟨c, hc, h1, h2 ▸ h3⟩

/-- A thread waits for both of its signals, and a message wakes it. -/
def halfWoken : List (Nat × Event) :=
  [create 12288 15, (8, .permit)] ++ List.replicate 11 tick ++ [call 0 3, post 12288 14000]

def halfAwake : Config := (exec step bootZero halfWoken).getD bootZero

/-- It runs, still waiting for the other signal. -/
theorem signal_touches_running : Reach step (fun _ _ => True) bootZero halfAwake ∧ Booted bootZero ∧
    (bootZero.sys.thread bootZero.sys.kernelThread).sigWait = 0 ∧ halfAwake.mode = .ring3 ∧
    halfAwake.sys.runningThread = 12288 ∧ (halfAwake.sys.thread 12288).sigWait = 2 ∧
    ¬ halfAwake.sys.Blocked halfAwake.out := by
  have hsome : (exec step bootZero halfWoken).isSome := by decide +kernel
  refine ⟨reach_exec (exec_getD bootZero hsome), bootZero_booted, by decide +kernel, by decide +kernel,
    by decide +kernel, by decide +kernel, ?_⟩
  rintro ⟨rs, ws, -, -, -, hnd, hw⟩
  have hout : halfAwake.out = [12288] := by decide +kernel
  have hmem : 12288 ∈ ws := hw 12288 (by decide +kernel) (by decide +kernel)
  rw [hout] at hnd
  exact (List.nodup_append.1 hnd).2.2 12288 (List.mem_singleton_self _) 12288 (List.mem_append_right _ hmem) rfl

end Krypton
