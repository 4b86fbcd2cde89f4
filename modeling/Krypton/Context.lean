import Krypton.Interrupts

/-!
# Saving and restoring contexts

`ThreadOk` relates the flags and the saved stack pointer of one thread to the history; `Context` says it
of all threads, with `on` telling whether one is running, which fails in the idle loop of
`switch_threads` only. The dispatcher is cut into the two halves between which the loop may idle:
`switchOut` stores the context of the running thread, `switchIn` loads that of the next one.

Together with `Sound` this is an invariant of the machine (`Inv`).
-/

namespace Krypton

variable {t : Nat} {th th' : Thread} {made runs runs' : Prop} {l : List Ev} {e : Ev} {esp : Word}

/-- The thread `t` with descriptor `th` after the history `l`: `made` by `create_thread` or not, now
running or not. -/
structure ThreadOk (t : Nat) (th : Thread) (made runs : Prop) (l : List Ev) : Prop where
  run : Has th.threadFlags tsRun ↔ runs
  signal : ¬ Has th.threadFlags tbSignal
  launch : Has th.threadFlags tbLaunch ↔ made ∧ ¬ Dispatched t l
  saved : ¬ Has th.threadFlags tbLaunch → ¬ runs → lastOut t l = some th.kernelEsp
  law : DispatchLaw t made th.pageDirectory l

/-- The thread the dispatcher has switched out. -/
def Thread.out (th : Thread) (esp : Word) : Thread :=
  { th with kernelEsp := esp, threadFlags := th.threadFlags &&& ~~~tsRun }

/-- The thread the dispatcher has switched to: `TS_RUN` is set, `TB_LAUNCH` and `TB_SIGNAL` are clear. -/
def Thread.into (th : Thread) : Thread :=
  { th with threadFlags := (th.threadFlags ||| tsRun) &&&
      if Has th.threadFlags tbLaunch then 0xFFFFFFEF else 0xFFFFFFE7 }

namespace ThreadOk

theorem keeps (h : ThreadOk t th made runs l) (hk : th.Keeps th') {es : List Ev}
    (hq : ∀ e ∈ es, e.Quiet) : ThreadOk t th' made runs (es ++ l) := by
  obtain ⟨h1, h2, h3⟩ := quiet_append (t := t) l made th.pageDirectory hq
  refine ⟨hk.run.trans h.run, fun hx => h.signal (hk.signal.1 hx), ?_, ?_, ?_⟩
  · rw [hk.launch, h1]
    exact h.launch
  · rw [hk.launch, h2, hk.kernelEsp]
    exact h.saved
  · rw [hk.pageDirectory]
    exact h3.2 h.law

theorem runs_iff (h : ThreadOk t th made runs l) (hr : runs ↔ runs') : ThreadOk t th made runs' l :=
  ⟨h.run.trans hr, h.signal, h.launch, fun h1 h2 => h.saved h1 fun h3 => h2 (hr.1 h3), h.law⟩

theorem other (h : ThreadOk t th made runs l) (he : e.thread ≠ t) :
    ThreadOk t th made runs (e :: l) := by
  have h1 : Dispatched t (e :: l) ↔ Dispatched t l := by cases e <;> simp_all [Dispatched, Ev.thread]
  have h2 : lastOut t (e :: l) = lastOut t l := by cases e <;> simp_all [lastOut, Ev.thread]
  have h3 : DispatchLaw t made th.pageDirectory (e :: l) ↔ DispatchLaw t made th.pageDirectory l := by
    cases e <;> simp_all [DispatchLaw, Ev.thread]
  exact ⟨h.run, h.signal, by rw [h1]; exact h.launch, by rw [h2]; exact h.saved, h3.2 h.law⟩

theorem out (h : ThreadOk t th made runs l) (esp : Word) :
    ThreadOk t (th.out esp) made False (.save t esp :: l) where
  run := ⟨has_and_drop (by decide), False.elim⟩
  signal hx := h.signal ((has_and_keep (by decide)).1 hx)
  launch := (has_and_keep (by decide)).trans h.launch
  saved _ _ := if_pos rfl
  law := h.law

theorem run_into : Has th.into.threadFlags tsRun := by
  unfold Thread.into
  dsimp only
  split_ifs
  all_goals exact (has_and_keep (by decide)).2 (has_or_set (by decide))

theorem launch_into : ¬ Has th.into.threadFlags tbLaunch := by
  unfold Thread.into
  dsimp only
  split_ifs
  all_goals exact has_and_drop (by decide)

theorem signal_into (h : ¬ Has th.threadFlags tbSignal) : ¬ Has th.into.threadFlags tbSignal := by
  unfold Thread.into
  dsimp only
  split_ifs
  · exact fun hx => h ((has_or_keep (by decide)).1 ((has_and_keep (by decide)).1 hx))
  · exact has_and_drop (by decide)

theorem into (h : ThreadOk t th made False l) : ThreadOk t th.into made True
    (.dispatch t (decide (Has th.threadFlags tbLaunch)) th.kernelEsp th.pageDirectory :: l) where
  run := ⟨fun _ => trivial, fun _ => run_into⟩
  signal := signal_into h.signal
  launch := ⟨fun hx => absurd hx launch_into, fun hx => absurd (.inl rfl) hx.2⟩
  saved _ hr := absurd trivial hr
  law := by
    refine ⟨fun _ => ⟨decide_eq_true_iff.trans h.launch, fun hl => ?_, rfl⟩, h.law⟩
    exact h.saved (of_decide_eq_false hl) id

end ThreadOk

namespace Sys
variable {s s' : Sys} {on : Prop} {next fuel : Nat}

structure Context (s : Sys) (on : Prop) : Prop where
  running : s.runningThread ∈ s.threads
  thread : ∀ t ∈ s.threads, ThreadOk t (s.thread t) (t ∈ s.created) (on ∧ t = s.runningThread) s.log

theorem Context.quiet (h : s.Context on) (hq : Quiet s s') : s'.Context on := by
  obtain ⟨es, hes, hqs⟩ := hq.log
  refine ⟨by rw [hq.running, hq.threads_eq]; exact h.running, fun t ht => ?_⟩
  rw [hq.threads_eq] at ht
  rw [hes, hq.created, hq.running]
  exact (h.thread t ht).keeps (hq.threads t) hqs

/-- `k_reenter` and the processor's registers are no part of `Context`. -/
theorem Context.congr (h : s.Context on) (h1 : s'.runningThread = s.runningThread)
    (h2 : s'.threads = s.threads) (h3 : s'.created = s.created) (h4 : s'.thread = s.thread)
    (h5 : s'.log = s.log) : s'.Context on := by
  refine ⟨by rw [h1, h2]; exact h.running, fun t ht => ?_⟩
  rw [h1, h3, h4, h5]
  exact h.thread t (h2 ▸ ht)

theorem Context.on_iff {on' : Prop} (h : s.Context on) (ho : on ↔ on') : s.Context on' :=
  ⟨h.running, fun t ht => (h.thread t ht).runs_iff (by rw [ho])⟩

/-! ### Switching out -/

/-- The dispatcher up to the loop of `switch_threads`. -/
def switchOut (s : Sys) : Sys := s.saveContext.switchBegin

theorem switchOut_eq (hr : Has s.running.threadFlags tsRun) :
    s.switchOut = { s.setThread s.runningThread (s.running.out s.esp) with
      sysFlags := s.sysFlags &&& ~~~needTaskSwitch &&& ~~~timeSliceExpired
      log := .save s.runningThread s.esp :: s.log } := by
  have hth : ∀ a b : Thread, (fun x => if x = s.runningThread then a else
      if x = s.runningThread then b else s.thread x) =
      fun x => if x = s.runningThread then a else s.thread x := fun a b =>
    funext fun x => by split_ifs <;> rfl
  unfold switchOut saveContext switchBegin
  rw [if_pos hr]
  simp only [running, setThread, record, if_true, hth]
  rfl

theorem Context.has_run (h : s.Context True) : Has s.running.threadFlags tsRun :=
  (h.thread _ h.running).run.2 ⟨trivial, rfl⟩

theorem Sound.switchOut (h : s.Sound) (hr : s.runningThread ∈ s.threads) : s.switchOut.Sound := by
  have hsave : s.saveContext.Sound := by
    unfold saveContext
    split_ifs
    · exact (h.record (e := .save s.runningThread s.esp) trivial hr).congr ⟨rfl, rfl, rfl, rfl, rfl, rfl, rfl⟩
    · exact h
  exact hsave.congr ⟨rfl, rfl, rfl, rfl, rfl, rfl, rfl⟩

theorem Context.switchOut (h : s.Context True) : s.switchOut.Context False := by
  rw [switchOut_eq h.has_run]
  refine ⟨h.running, fun t ht => ?_⟩
  show ThreadOk t (if t = s.runningThread then s.running.out s.esp else s.thread t) (t ∈ s.created)
    (False ∧ t = s.runningThread) (.save s.runningThread s.esp :: s.log)
  split_ifs with he
  · subst he
    exact ((h.thread _ ht).out s.esp).runs_iff (by simp)
  · exact ((h.thread t ht).other (e := .save s.runningThread s.esp) (Ne.symm he)).runs_iff (by simp [he])

/-! ### Switching in -/

/-- The dispatcher behind the loop of `switch_threads`, which has found `next`. -/
def switchIn (s : Sys) (next : Nat) : Sys := (s.switchEnd next).resume

theorem switchRun_resume (s : Sys) : s.switchRun.resume = { s.setThread s.runningThread s.running.into with
    esp0 := s.running.initKernelEsp
    esp := s.running.kernelEsp
    cr3 := s.running.pageDirectory
    kReenter := s.kReenter - 1
    log := .dispatch s.runningThread (decide (Has s.running.threadFlags tbLaunch)) s.running.kernelEsp
      s.running.pageDirectory :: s.log } := by
  have hl : Has ((s.thread s.runningThread).threadFlags ||| tsRun) tbLaunch ↔
      Has (s.thread s.runningThread).threadFlags tbLaunch := has_or_keep (by decide)
  have hth : ∀ a b : Thread, (fun x => if x = s.runningThread then a else
      if x = s.runningThread then b else s.thread x) = fun x => if x = s.runningThread then a else s.thread x :=
    fun a b => funext fun x => by split_ifs <;> rfl
  by_cases h : Has s.running.threadFlags tbLaunch
  · have hinto : s.running.into = { s.running with threadFlags := (s.running.threadFlags ||| tsRun) &&& 0xFFFFFFEF } := by
      unfold Thread.into
      rw [if_pos h]
    rw [hinto]
    unfold resume switchRun loadContext clearLaunch
    simp only [running, setThread, record, Sys.noSwitch, if_true, hl, hth]
    exact if_pos h
  · have hinto : s.running.into = { s.running with threadFlags := (s.running.threadFlags ||| tsRun) &&& 0xFFFFFFE7 } := by
      unfold Thread.into
      rw [if_neg h]
    rw [hinto]
    unfold resume switchRun loadContext clearFlags
    simp only [running, setThread, record, Sys.noSwitch, if_true, hl, hth]
    exact if_neg h

theorem switchIn_eq : s.switchIn next = { s.setThread next (s.thread next).into with
    mem := remove s.mem next
    runningThread := next
    actPageDirectory := (s.thread next).pageDirectory
    tsCurrCount := s.stdTsQuantum
    esp0 := (s.thread next).initKernelEsp
    esp := (s.thread next).kernelEsp
    cr3 := (s.thread next).pageDirectory
    kReenter := s.kReenter - 1
    log := .dispatch next (decide (Has (s.thread next).threadFlags tbLaunch)) (s.thread next).kernelEsp
      (s.thread next).pageDirectory :: s.log } := by
  unfold switchIn switchEnd
  rw [switchRun_resume]
  rfl

theorem Context.switchRun (h : s.Context False) : s.switchRun.resume.Context True := by
  rw [switchRun_resume]
  refine ⟨h.running, fun t ht => ?_⟩
  show ThreadOk t (if t = s.runningThread then s.running.into else s.thread t) (t ∈ s.created)
    (True ∧ t = s.runningThread) (.dispatch s.runningThread _ _ _ :: s.log)
  split_ifs with he
  · subst he
    exact ((h.thread _ ht).runs_iff (by simp)).into.runs_iff (by simp)
  · exact ((h.thread t ht).other (e := .dispatch s.runningThread _ _ _) (Ne.symm he)).runs_iff (by simp [he])

/-- While no thread is running, which one is to run makes no difference. -/
theorem Context.switchTo (h : s.Context False) (hn : next ∈ s.threads) : (s.switchTo next).Context False :=
  ⟨hn, fun t ht => (h.thread t ht).runs_iff (by simp)⟩

theorem Context.switchIn (h : s.Context False) (hn : next ∈ s.threads) : (s.switchIn next).Context True :=
  Context.switchRun (s := ((s.unlinkNext next).unlinkPrev next).switchTo next)
    (Context.switchTo (h.congr rfl rfl rfl rfl rfl) hn)

theorem Sound.switchIn (h : s.Sound) (h0 : getHead s.mem s.threadReady ≠ 0) :
    (s.switchIn (getHead s.mem s.threadReady)).Sound := by
  have hn := h.getHead_mem (.inl rfl) h0
  rw [switchIn_eq]
  exact ((h.removeHead (.inl rfl) h0).record (e := .dispatch _ _ _ _) trivial hn).congr ⟨rfl, rfl, rfl, rfl, rfl, rfl, rfl⟩

theorem dispatch_stays (hn : ¬ Has s.sysFlags needTaskSwitch) (back : Mode) : s.dispatch back = ⟨s.noSwitch, back⟩ :=
  if_neg fun h => hn h.2

theorem dispatch_switches (hk : s.kReenter = 0) (hn : Has s.sysFlags needTaskSwitch) (back : Mode) :
    s.dispatch back = s.switchOut.idleLoop :=
  if_pos ⟨hk, hn⟩

/-! ### Which threads there are -/

/-- The words that name the kernel's objects are the same. -/
structure SameThreads (s s' : Sys) : Prop where
  created : s'.created = s.created := by rfl
  kernel : s'.kernelThread = s.kernelThread := by rfl
  base : s'.sysBase = s.sysBase := by rfl

theorem SameThreads.trans {s'' : Sys} (h : SameThreads s s') (h' : SameThreads s' s'') : SameThreads s s'' :=
  ⟨h'.created.trans h.created, h'.kernel.trans h.kernel, h'.base.trans h.base⟩

theorem Quiet.sameThreads (h : Quiet s s') : SameThreads s s' := ⟨h.created, h.kernel, h.base⟩

theorem idleLoop_sameThreads (s : Sys) : SameThreads s s.idleLoop.sys := by
  unfold Sys.idleLoop resume
  dsimp only
  split_ifs <;> exact ⟨rfl, rfl, rfl⟩

theorem switched_sameThreads (s : Sys) : SameThreads s s.saveContext.switchBegin.idleLoop.sys := by
  refine SameThreads.trans ?_ (idleLoop_sameThreads _)
  unfold saveContext
  split_ifs <;> exact ⟨rfl, rfl, rfl⟩

theorem dispatch_sameThreads (s : Sys) (back : Mode) : SameThreads s (s.dispatch back).sys := by
  unfold Sys.dispatch
  split_ifs
  · exact switched_sameThreads s
  · exact ⟨rfl, rfl, rfl⟩

end Sys

/-! ### What holds in every run -/

open Sys

/-- What holds of the machine whatever the lists look like. -/
structure Consistent (c : Config) : Prop where
  sound : c.sys.Sound
  running : c.sys.runningThread ∈ c.sys.threads
  kReenter : c.mode = .ring3 ∧ c.sys.kReenter = -1 ∨ c.mode = .idle ∧ c.sys.kReenter = 0

variable {c c' : Config} {s s' : Sys} {fuel next : Nat} {e : Nat × Event} {a : Arrivals}

namespace Consistent

theorem ring3_kReenter (h : Consistent c) (hm : c.mode = .ring3) : c.sys.kReenter = -1 := by
  rcases h.kReenter with hk | hk
  · exact hk.2
  · rw [hm] at hk; cases hk.1

theorem idle_kReenter (h : Consistent c) (hm : c.mode = .idle) : c.sys.kReenter = 0 := by
  rcases h.kReenter with hk | hk
  · rw [hm] at hk; cases hk.1
  · exact hk.2

theorem trap_kReenter (h : Consistent c) (hm : c.mode = .ring3) : c.sys.trap.enter.kReenter = 0 := by
  show c.sys.kReenter + 1 = 0
  rw [h.ring3_kReenter hm]; rfl

theorem enter_kReenter (h : Consistent c) (hm : c.mode = .idle) : c.sys.enter.kReenter = 1 := by
  show c.sys.kReenter + 1 = 1
  rw [h.idle_kReenter hm]; rfl

theorem idtKept {eax ebx : Word} (h : Consistent c) (hstray : ¬ c.sys.StrayCycle eax)
    (hh : c.sys.trap.idtHandler fuel eax ebx = some s') : Kept c.sys.trap.enter s' :=
  Sound.idtHandler h.sound.trap h.running hstray hh

theorem irqKept {d : Handler} (h : Consistent c) (hm : c.mode = .ring3)
    (hh : c.sys.trap.irqHandler fuel d = some s') : Kept c.sys.trap.enter s' :=
  Sound.irqHandler h.sound.trap h.running (.inl (h.trap_kReenter hm)) hh

/-- An interrupt in the idle loop does what its handler does, and returns to the loop. -/
theorem halted {d : Handler} (h : Consistent c) (hm : c.mode = .idle) (hh : c.sys.irqHandler fuel d = some s') :
    c.sys.enter.handle fuel d = some s' ∧ s'.kReenter = 1 ∧ s'.dispatch .idle = ⟨s'.noSwitch, .idle⟩ := by
  obtain ⟨h1, h2, h3⟩ := irqHandler_nested h.sound (h.idle_kReenter hm) hh
  exact ⟨h1, h2, h3 .idle⟩

theorem ret (h : s.Sound) (hr : s.runningThread ∈ s.threads) (hk : s.kReenter = 0) :
    Consistent ⟨s.noSwitch, .ring3⟩ := by
  refine ⟨h.congr ⟨rfl, rfl, rfl, rfl, rfl, rfl, rfl⟩, hr, .inl ⟨rfl, ?_⟩⟩
  show s.kReenter - 1 = -1
  rw [hk]; rfl

theorem idleLoop (h : s.Sound) (hr : s.runningThread ∈ s.threads) (hk : s.kReenter = 0) : Consistent s.idleLoop := by
  unfold Sys.idleLoop
  dsimp only
  split_ifs with h0
  · exact ⟨h.congr ⟨rfl, rfl, rfl, rfl, rfl, rfl, rfl⟩, hr, .inr ⟨rfl, hk⟩⟩
  · have hn := h.getHead_mem (.inl rfl) h0
    refine ⟨h.switchIn h0, ?_, .inl ⟨rfl, ?_⟩⟩
    · show (s.switchIn _).runningThread ∈ (s.switchIn _).threads
      rw [switchIn_eq]
      exact hn
    · show (s.switchIn _).kReenter = -1
      rw [switchIn_eq]
      show s.kReenter - 1 = -1
      rw [hk]; rfl

theorem switched (h : s.Sound) (hr : s.runningThread ∈ s.threads) (hk : s.kReenter = 0) :
    Consistent s.saveContext.switchBegin.idleLoop := by
  have hsave : s.saveContext.runningThread = s.runningThread ∧ s.saveContext.threads = s.threads ∧
      s.saveContext.kReenter = s.kReenter := by
    unfold saveContext
    split_ifs
    · exact ⟨rfl, rfl, rfl⟩
    · exact ⟨rfl, rfl, rfl⟩
  obtain ⟨h1, h2, h3⟩ := hsave
  refine idleLoop (h.switchOut hr) ?_ (h3.trans hk)
  show s.saveContext.runningThread ∈ s.saveContext.threads
  rw [h1, h2]
  exact hr

theorem dispatch (h : s.Sound) (hr : s.runningThread ∈ s.threads) (hk : s.kReenter = 0) :
    Consistent (s.dispatch .ring3) := by
  unfold Sys.dispatch
  split_ifs
  · exact switched h hr hk
  · exact ret h hr hk

theorem dispatch_idle (h : s.Sound) (hr : s.runningThread ∈ s.threads) (hk : s.kReenter = 1) :
    Consistent (s.dispatch .idle) := by
  rw [dispatch_nested (by rw [hk]; decide)]
  refine ⟨h.congr ⟨rfl, rfl, rfl, rfl, rfl, rfl, rfl⟩, hr, .inr ⟨rfl, ?_⟩⟩
  show s.kReenter - 1 = 0
  rw [hk]; rfl

end Consistent

/-! ### The way out of the idle loop -/

/-- The way out of the loop, as far as `k_reenter` is 0: `s₁` to `s₄` are the states behind the interrupts at its four
places. -/
structure WayOut (fuel next : Nat) (a : Arrivals) (s s₁ s₂ s₃ s₄ : Sys) : Prop where
  found : s.serve fuel a.found = some s₁
  unlinking : (s₁.unlinkNext next).serve fuel a.unlinking = some s₂
  unlinked : (s₂.unlinkPrev next).serve fuel a.unlinked = some s₃
  restarted : (s₃.switchTo next).serve fuel a.restarted = some s₄
  kept₁ : Kept s s₁
  kept₂ : Kept (s₁.unlinkNext next) s₂
  kept₃ : Kept (s₂.unlinkPrev next) s₃
  kept₄ : Kept (s₃.switchTo next) s₄
  links₁ : s₁.HasLinks next
  sound₁ : (s₁.unlinkNext next).Sound
  links₂ : s₂.HasLinks next
  sound₂ : (s₂.unlinkPrev next).Sound
  kReenter : s.kReenter = 0
  mem : next ∈ s.threads

namespace WayOut
variable {s₁ s₂ s₃ s₄ : Sys}

theorem threads_eq (h : WayOut fuel next a s s₁ s₂ s₃ s₄) : s₄.threads = s.threads :=
  h.kept₄.quiet.threads_eq.trans (h.kept₃.quiet.threads_eq.trans (h.kept₂.quiet.threads_eq.trans h.kept₁.quiet.threads_eq))

theorem sameThreads (h : WayOut fuel next a s s₁ s₂ s₃ s₄) : SameThreads s s₄ := by
  have h1 : SameThreads s (s₁.unlinkNext next) := h.kept₁.quiet.sameThreads.trans ⟨rfl, rfl, rfl⟩
  have h2 : SameThreads s (s₂.unlinkPrev next) := (h1.trans h.kept₂.quiet.sameThreads).trans ⟨rfl, rfl, rfl⟩
  have h3 : SameThreads s (s₃.switchTo next) := (h2.trans h.kept₃.quiet.sameThreads).trans ⟨rfl, rfl, rfl⟩
  exact h3.trans h.kept₄.quiet.sameThreads

theorem running (h : WayOut fuel next a s s₁ s₂ s₃ s₄) : s₄.runningThread = next := h.kept₄.quiet.running

theorem sound₃ (h : WayOut fuel next a s s₁ s₂ s₃ s₄) : (s₃.switchTo next).Sound :=
  h.kept₃.sound.congr ⟨rfl, rfl, rfl, rfl, rfl, rfl, rfl⟩

theorem mem₃ (h : WayOut fuel next a s s₁ s₂ s₃ s₄) : next ∈ s₃.threads := by
  have ht : s₄.threads = s₃.threads := h.kept₄.quiet.threads_eq
  rw [← ht, h.threads_eq]
  exact h.mem

theorem running_mem (h : WayOut fuel next a s s₁ s₂ s₃ s₄) : s₄.runningThread ∈ s₄.threads := by
  rw [h.running, h.threads_eq]
  exact h.mem

theorem kReenter₁ (h : WayOut fuel next a s s₁ s₂ s₃ s₄) : s₁.kReenter = 0 := h.kept₁.quiet.kReenter.trans h.kReenter
theorem kReenter₂ (h : WayOut fuel next a s s₁ s₂ s₃ s₄) : s₂.kReenter = 0 := h.kept₂.quiet.kReenter.trans h.kReenter₁
theorem kReenter₃ (h : WayOut fuel next a s s₁ s₂ s₃ s₄) : s₃.kReenter = 0 := h.kept₃.quiet.kReenter.trans h.kReenter₂
theorem kReenter₄ (h : WayOut fuel next a s s₁ s₂ s₃ s₄) : s₄.kReenter = 0 := h.kept₄.quiet.kReenter.trans h.kReenter₃

theorem launch_kReenter (h : WayOut fuel next a s s₁ s₂ s₃ s₄) : s₄.switchRun.loadContext.noSwitch.kReenter = -1 := by
  show s₄.kReenter - 1 = -1
  rw [h.kReenter₄]; rfl

theorem launch_sound (h : WayOut fuel next a s s₁ s₂ s₃ s₄) : s₄.switchRun.loadContext.noSwitch.Sound := by
  have hr := h.running_mem
  have hload : s₄.switchRun.loadContext.log = .dispatch s₄.runningThread
    (decide (Has s₄.switchRun.running.threadFlags tbLaunch)) s₄.switchRun.running.kernelEsp
      s₄.switchRun.running.pageDirectory :: s₄.log := rfl
  exact (h.kept₄.sound.record (e := .dispatch s₄.runningThread _ _ _) trivial hr).congr
    ⟨rfl, rfl, rfl, rfl, rfl, rfl, hload⟩

/-- The rest of it, if no interrupt arrives on the launch path. -/
theorem ends (h : WayOut fuel next a s s₁ s₂ s₃ s₄) (ha : a.launching = []) :
    s.leaveLoop fuel next a = some ⟨s₄.switchRun.resume, .ring3⟩ := by
  rw [leaveLoop_whole ha]
  simp only [Option.bind_eq_bind, h.found, h.unlinking, h.unlinked, h.restarted, Option.bind_some]

theorem context (h : WayOut fuel next a s s₁ s₂ s₃ s₄) (hc : s.Context False) : s₄.Context False := by
  have h1 : (s₁.unlinkNext next).Context False := (hc.quiet h.kept₁.quiet).congr rfl rfl rfl rfl rfl
  have h2 : (s₂.unlinkPrev next).Context False := (h1.quiet h.kept₂.quiet).congr rfl rfl rfl rfl rfl
  have h3 := h2.quiet h.kept₃.quiet
  exact (h3.switchTo h.mem₃).quiet h.kept₄.quiet

end WayOut

theorem Sys.leaveLoop_cases (h : s.Sound) (hk : s.kReenter = 0) (hn : s.HasLinks next)
    (hs : s.leaveLoop fuel next a = some c') : ∃ s₁ s₂ s₃ s₄, WayOut fuel next a s s₁ s₂ s₃ s₄ ∧
      (if Has s₄.switchRun.loadContext.running.threadFlags tbLaunch then
        s₄.switchRun.loadContext.noSwitch.launchEnd fuel a.launching
      else if a.launching = [] then some ⟨s₄.switchRun.loadContext.clearFlags.noSwitch, .ring3⟩ else none) = some c' := by
  obtain ⟨s₁, h1, hs⟩ := Option.bind_eq_some_iff.1 hs
  obtain ⟨s₂, h2, hs⟩ := Option.bind_eq_some_iff.1 hs
  obtain ⟨s₃, h3, hs⟩ := Option.bind_eq_some_iff.1 hs
  obtain ⟨s₄, h4, hs⟩ := Option.bind_eq_some_iff.1 hs
  have k1 := h.serve hk h1
  have e1 : s₁.kReenter = 0 := k1.quiet.kReenter.trans hk
  have l1 := (HasLinks.persists next).serve h hk hn h1
  obtain ⟨g1, l1'⟩ := k1.sound.unlinkNext l1
  have k2 := g1.serve (show (s₁.unlinkNext next).kReenter = 0 from e1) h2
  have e2 : s₂.kReenter = 0 := k2.quiet.kReenter.trans e1
  have l2 := (HasLinks.persists next).serve g1 (show (s₁.unlinkNext next).kReenter = 0 from e1) l1' h2
  obtain ⟨g2, -⟩ := k2.sound.unlinkPrev l2
  have k3 := g2.serve (show (s₂.unlinkPrev next).kReenter = 0 from e2) h3
  have e3 : s₃.kReenter = 0 := k3.quiet.kReenter.trans e2
  have g3 : (s₃.switchTo next).Sound := k3.sound.congr ⟨rfl, rfl, rfl, rfl, rfl, rfl, rfl⟩
  have k4 := g3.serve (show (s₃.switchTo next).kReenter = 0 from e3) h4
  exact ⟨s₁, s₂, s₃, s₄, ⟨h1, h2, h3, h4, k1, k2, k3, k4, l1, g1, l2, g2, hk, hn.mem⟩, hs⟩

/-- An interrupt on the launch path behind the decrement of `k_reenter`: an outermost entry, which ends there or goes on
with the path. -/
theorem Sys.launchEnd_cons {d : Handler} {esp : Word} {ds : List (Handler × Word)} (h : s.Sound)
    (hr : s.runningThread ∈ s.threads) (hk : s.kReenter = -1) (hs : s.launchEnd fuel ((d, esp) :: ds) = some c') :
    ∃ s₁, irqHandler fuel { s with esp := esp } d = some s₁ ∧ Kept ({ s with esp := esp } : Sys).enter s₁ ∧
      s₁.runningThread ∈ s₁.threads ∧ s₁.kReenter = 0 ∧
      (ds = [] ∧ Has s₁.sysFlags needTaskSwitch ∧ c' = s₁.saveContext.switchBegin.idleLoop ∨
        ¬ Has s₁.sysFlags needTaskSwitch ∧ s₁.noSwitch.launchEnd fuel ds = some c') := by
  obtain ⟨s₁, h1, h2⟩ := Option.bind_eq_some_iff.1 hs
  have he : ({ s with esp := esp } : Sys).Sound := h.congr ⟨rfl, rfl, rfl, rfl, rfl, rfl, rfl⟩
  have hzero : ({ s with esp := esp } : Sys).enter.kReenter = 0 := by
    show s.kReenter + 1 = 0
    rw [hk]; rfl
  have hkept := he.irqHandler hr (.inl hzero) h1
  have hr₁ := hkept.mem hr
  have hk₁ : s₁.kReenter = 0 := hkept.quiet.kReenter.trans hzero
  refine ⟨s₁, h1, hkept, hr₁, hk₁, ?_⟩
  by_cases hsw : s₁.kReenter = 0 ∧ Has s₁.sysFlags needTaskSwitch
  · have hd : s₁.dispatch .kernel = s₁.saveContext.switchBegin.idleLoop := if_pos hsw
    have hm : s₁.saveContext.switchBegin.idleLoop.mode ≠ .kernel := by
      rcases (Consistent.switched hkept.sound hr₁ hk₁).kReenter with hx | hx <;> rw [hx.1] <;> decide
    rw [hd] at h2
    dsimp only at h2
    rw [if_neg hm] at h2
    obtain ⟨hnil, he⟩ := Option.ite_none_right_eq_some.1 h2
    exact .inl ⟨hnil, hsw.2, (Option.some.inj he).symm⟩
  · have hd : s₁.dispatch .kernel = ⟨s₁.noSwitch, .kernel⟩ := if_neg hsw
    rw [hd] at h2
    exact .inr ⟨fun hn => hsw ⟨hk₁, hn⟩, h2⟩

theorem Consistent.launchEnd {ds : List (Handler × Word)} (h : s.Sound) (hr : s.runningThread ∈ s.threads)
    (hk : s.kReenter = -1) (hs : s.launchEnd fuel ds = some c') : Consistent c' ∧ SameThreads s c'.sys := by
  induction ds generalizing s with
  | nil =>
    obtain rfl := Option.some.inj hs
    exact ⟨⟨h.congr ⟨rfl, rfl, rfl, rfl, rfl, rfl, rfl⟩, hr, .inl ⟨rfl, hk⟩⟩, ⟨rfl, rfl, rfl⟩⟩
  | cons d ds ih =>
    obtain ⟨s₁, -, hkept, hr₁, hk₁, hend⟩ := launchEnd_cons h hr hk hs
    have hsame : SameThreads s s₁ :=
      ⟨hkept.quiet.created, hkept.quiet.kernel, hkept.quiet.base⟩
    rcases hend with ⟨-, -, rfl⟩ | ⟨-, hs⟩
    · exact ⟨.switched hkept.sound hr₁ hk₁, hsame.trans (switched_sameThreads _)⟩
    · have hret := Consistent.ret hkept.sound hr₁ hk₁
      obtain ⟨h1, h2⟩ := ih hret.sound hr₁ (hret.ring3_kReenter rfl) hs
      exact ⟨h1, hsame.trans ⟨h2.created, h2.kernel, h2.base⟩⟩

theorem Consistent.wakeUp (h : Consistent c) (hm : c.mode = .idle) (hs : c.sys.wakeUp fuel a = some c') :
    Consistent c' ∧ SameThreads c.sys c'.sys := by
  have hk := h.idle_kReenter hm
  unfold Sys.wakeUp at hs
  dsimp only at hs
  split_ifs at hs with h0
  · obtain rfl := Option.some.inj hs
    exact ⟨⟨h.sound.congr ⟨rfl, rfl, rfl, rfl, rfl, rfl, rfl⟩, h.running, .inr ⟨rfl, hk⟩⟩, ⟨rfl, rfl, rfl⟩⟩
  obtain ⟨s₁, s₂, s₃, s₄, hw, hs⟩ := leaveLoop_cases h.sound hk (h.sound.hasLinks h0) hs
  have hsame : SameThreads c.sys s₄.switchRun.loadContext.noSwitch := hw.sameThreads.trans ⟨rfl, rfl, rfl⟩
  split_ifs at hs
  · obtain ⟨h1, h2⟩ := Consistent.launchEnd hw.launch_sound hw.running_mem hw.launch_kReenter hs
    exact ⟨h1, hsame.trans h2⟩
  · obtain rfl := Option.some.inj hs
    exact ⟨⟨hw.launch_sound.congr ⟨rfl, rfl, rfl, rfl, rfl, rfl, rfl⟩, hw.running_mem, .inl ⟨rfl, hw.launch_kReenter⟩⟩,
      hw.sameThreads.trans ⟨rfl, rfl, rfl⟩⟩

theorem Consistent.step (h : Consistent c) (hok : NoStrayCycle c e) (hs : step c e = some c') : Consistent c' := by
  obtain ⟨fuel, ev⟩ := e
  cases step_cases hs with
  | forbid hm | permit hm =>
    exact ⟨h.sound.congr ⟨rfl, rfl, rfl, rfl, rfl, rfl, rfl⟩, h.running, .inl ⟨rfl, h.ring3_kReenter hm⟩⟩
  | create hm hc =>
    have hsound := h.sound.create hc
    have hk := h.ring3_kReenter hm
    obtain ⟨-, -, m', -, rfl⟩ := createThread_cases hc
    exact ⟨hsound, List.mem_cons_of_mem _ h.running, .inl ⟨rfl, hk⟩⟩
  | syscall hm hh =>
    have hkept := h.idtKept hok hh
    exact Consistent.dispatch hkept.sound (hkept.mem h.running) (hkept.quiet.kReenter.trans (h.trap_kReenter hm))
  | irq hm hh =>
    have hkept := h.irqKept hm hh
    exact Consistent.dispatch hkept.sound (hkept.mem h.running) (hkept.quiet.kReenter.trans (h.trap_kReenter hm))
  | idleIrq hm hh =>
    have hk := h.enter_kReenter hm
    have hkept := h.sound.irqHandler h.running (.inr hk) hh
    exact Consistent.dispatch_idle hkept.sound (hkept.mem h.running) (hkept.quiet.kReenter.trans hk)
  | wake hm hw => exact (h.wakeUp hm hw).1

/-! ### Contexts -/

/-- No interrupt arrives on the launch path behind the idle loop while `TB_LAUNCH` is still set. -/
def Event.LaunchesWhole : Event → Prop
  | .wake a => a.launching = []
  | _ => True

instance : DecidablePred Event.LaunchesWhole
  | .wake a => inferInstanceAs (Decidable (a.launching = []))
  | .forbid | .permit | .create .. | .syscall .. | .irq _ => inferInstanceAs (Decidable True)

/-- The steps that keep the contexts. -/
def KeepsContexts (c : Config) (e : Nat × Event) : Prop := NoStrayCycle c e ∧ e.2.LaunchesWhole

instance (c : Config) (e : Nat × Event) : Decidable (KeepsContexts c e) := inferInstanceAs (Decidable (_ ∧ _))

theorem Event.Undisturbed.launchesWhole {ev : Event} (h : ev.Undisturbed) : ev.LaunchesWhole := by
  cases ev with
  | wake a => exact h.2.2.2.2
  | _ => trivial

theorem Regular.keeps (h : Regular c e) : KeepsContexts c e := ⟨h.1, h.2.launchesWhole⟩

structure Inv (c : Config) : Prop extends Consistent c where
  context : c.sys.Context (c.mode = .ring3)

theorem Inv.idleLoop (h : s.Sound) (hc : s.Context False) (hk : s.kReenter = 0) : Inv s.idleLoop := by
  refine ⟨Consistent.idleLoop h hc.running hk, ?_⟩
  unfold Sys.idleLoop
  dsimp only
  split_ifs with h0
  · exact (hc.on_iff (by simp)).congr rfl rfl rfl rfl rfl
  · exact (hc.switchIn (h.getHead_mem (.inl rfl) h0)).on_iff (by simp)

theorem Inv.dispatch (h : s.Sound) (hc : s.Context True) (hk : s.kReenter = 0) :
    Inv (s.dispatch .ring3) := by
  refine ⟨Consistent.dispatch h hc.running hk, ?_⟩
  unfold Sys.dispatch
  split_ifs
  · have hk' : s.switchOut.kReenter = 0 := by
      rw [switchOut_eq hc.has_run]
      exact hk
    exact (Inv.idleLoop (h.switchOut hc.running) hc.switchOut hk').context
  · exact (hc.on_iff (by simp)).congr rfl rfl rfl rfl rfl

theorem Inv.ring3 (h : Inv c) (hm : c.mode = .ring3) : c.sys.Context True ∧ c.sys.kReenter = -1 :=
  ⟨h.context.on_iff (by simp [hm]), h.ring3_kReenter hm⟩

theorem Inv.idle (h : Inv c) (hm : c.mode = .idle) : c.sys.Context False ∧ c.sys.kReenter = 0 :=
  ⟨h.context.on_iff (by simp [hm]), h.idle_kReenter hm⟩

theorem Inv.entered (h : Inv c) (hm : c.mode = .ring3) (hk : Kept c.sys.trap.enter s') :
    s'.Context True ∧ s'.kReenter = 0 := by
  have he : c.sys.trap.enter.Context True := (h.ring3 hm).1.congr rfl rfl rfl rfl rfl
  exact ⟨he.quiet hk.quiet, hk.quiet.kReenter.trans (h.trap_kReenter hm)⟩

theorem Inv.create {p q : Nat} {a : ThreadArgs} (h : Inv c) (hm : c.mode = .ring3)
    (hc : c.sys.createThread fuel p q a = some s') : s'.Context True := by
  obtain ⟨⟨-, hpd⟩, -, m', -, rfl⟩ := createThread_cases hc
  have hp : p ∉ c.sys.threads := h.sound.objects.fresh_thread hpd
  refine ⟨List.mem_cons_of_mem _ h.context.running, ?_⟩
  have hrp : p ≠ c.sys.runningThread := fun he => hp (he ▸ h.context.running)
  obtain ⟨-, -, hnd, hlaw⟩ := absent (t := p) (p ∈ p :: c.sys.created)
    c.sys.actPageDirectory fun e he => fun hep => hp (hep ▸ h.sound.mentions e he)
  refine List.forall_mem_cons.2 ⟨?_, fun t ht => ?_⟩
  · show ThreadOk p (if p = p then c.sys.newThread a else c.sys.thread p) (p ∈ p :: c.sys.created)
      (_ ∧ p = c.sys.runningThread) c.sys.log
    rw [if_pos rfl]
    have hrun : ¬ Has (tsReady ||| tbLaunch) tsRun := by decide
    have hsig : ¬ Has (tsReady ||| tbLaunch) tbSignal := by decide
    have hlaunch : Has (tsReady ||| tbLaunch) tbLaunch := by decide
    exact ⟨⟨fun hx => absurd hx hrun, fun hx => absurd hx.2 hrp⟩, hsig,
      ⟨fun _ => ⟨List.mem_cons_self .., hnd⟩, fun _ => hlaunch⟩, fun hx => absurd hlaunch hx, hlaw⟩
  · have htp : t ≠ p := fun he => hp (he ▸ ht)
    show ThreadOk t (if t = p then c.sys.newThread a else c.sys.thread t) (t ∈ p :: c.sys.created)
      (_ ∧ t = c.sys.runningThread) c.sys.log
    rw [if_neg htp]
    obtain ⟨h1, h2, h3, h4, h5⟩ := h.context.thread t ht
    have hmem : (t ∈ p :: c.sys.created) = (t ∈ c.sys.created) := by simp [htp]
    rw [hmem]
    exact ⟨h1.trans (by simp [hm]), h2, h3, fun hl hr => h4 hl (by simpa [hm] using hr), h5⟩

/-- The way out of the loop ends with the context of the thread it has found. -/
theorem Inv.wakeUp (h : Inv c) (hm : c.mode = .idle) (ha : a.launching = []) (hs : c.sys.wakeUp fuel a = some c') :
    Inv c' := by
  refine ⟨(h.toConsistent.wakeUp hm hs).1, ?_⟩
  obtain ⟨hc, hk⟩ := h.idle hm
  unfold Sys.wakeUp at hs
  dsimp only at hs
  split_ifs at hs with h0
  · obtain rfl := Option.some.inj hs
    exact (hc.on_iff (by simp)).congr rfl rfl rfl rfl rfl
  obtain ⟨s₁, s₂, s₃, s₄, hw, -⟩ := leaveLoop_cases h.sound hk (h.sound.hasLinks h0) hs
  obtain rfl := Option.some.inj ((hw.ends ha).symm.trans hs)
  exact (hw.context hc).switchRun.on_iff (by simp)

theorem Inv.step (h : Inv c) (hok : KeepsContexts c e) (hs : step c e = some c') : Inv c' := by
  refine ⟨h.toConsistent.step hok.1 hs, ?_⟩
  obtain ⟨fuel, ev⟩ := e
  cases step_cases hs with
  | forbid hm | permit hm => exact ((h.ring3 hm).1.on_iff (by simp)).congr rfl rfl rfl rfl rfl
  | create hm hc => exact (h.create hm hc).on_iff (by simp)
  | syscall hm hh =>
    have hkept := h.idtKept hok.1 hh
    obtain ⟨hc, hk⟩ := h.entered hm hkept
    exact (Inv.dispatch hkept.sound hc hk).context
  | irq hm hh =>
    have hkept := h.irqKept hm hh
    obtain ⟨hc, hk⟩ := h.entered hm hkept
    exact (Inv.dispatch hkept.sound hc hk).context
  | @idleIrq d s hm hh =>
    have hk := h.enter_kReenter hm
    have hkept := h.sound.irqHandler h.running (.inr hk) hh
    have he : c.sys.enter.Context False := (h.idle hm).1.congr rfl rfl rfl rfl rfl
    obtain ⟨-, -, hd⟩ := h.halted hm hh
    rw [hd]
    exact ((he.quiet hkept.quiet).on_iff (by simp)).congr rfl rfl rfl rfl rfl
  | wake hm hw => exact (h.wakeUp hm hok.2 hw).context

theorem step_threads {ev : Event} (hi : Consistent c) (hok : NoStrayCycle c (fuel, ev))
    (hs : step c (fuel, ev) = some c') : SameThreads c.sys c'.sys ∨
      ∃ p q a, ev = .create p q a ∧ c.sys.createThread fuel p q a = some c'.sys := by
  cases step_cases hs with
  | forbid hm | permit hm => exact .inl ⟨rfl, rfl, rfl⟩
  | create hm hc => exact .inr ⟨_, _, _, rfl, hc⟩
  | syscall hm hh =>
    have h0 : SameThreads c.sys c.sys.trap.enter := ⟨rfl, rfl, rfl⟩
    exact .inl ((h0.trans (hi.idtKept hok hh).quiet.sameThreads).trans (dispatch_sameThreads _ _))
  | irq hm hh =>
    have h0 : SameThreads c.sys c.sys.trap.enter := ⟨rfl, rfl, rfl⟩
    exact .inl ((h0.trans (hi.irqKept hm hh).quiet.sameThreads).trans (dispatch_sameThreads _ _))
  | idleIrq hm hh =>
    have hkept := hi.sound.irqHandler hi.running (.inr (hi.enter_kReenter hm)) hh
    have h0 : SameThreads c.sys c.sys.enter := ⟨rfl, rfl, rfl⟩
    exact .inl ((h0.trans hkept.quiet.sameThreads).trans (dispatch_sameThreads _ _))
  | wake hm hw => exact .inl (hi.wakeUp hm hw).2

theorem step_kernelThread (hi : Consistent c) (hok : NoStrayCycle c e) (hs : step c e = some c') :
    c'.sys.kernelThread = c.sys.kernelThread := by
  obtain ⟨fuel, ev⟩ := e
  rcases step_threads hi hok hs with h | ⟨p, q, a, -, hc⟩
  · exact h.kernel
  · obtain ⟨-, -, m', -, he⟩ := createThread_cases hc
    rw [he]

end Krypton
