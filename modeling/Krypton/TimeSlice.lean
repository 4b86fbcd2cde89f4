import Krypton.Forbid

/-!
# The end of a time slice

`timer_callback` asks for a switch at two ticks, when it counts to `-1` and to `-2`, and is silent from there on.
`schedule` consumes both requests even when it declines, and only a switch sets the counter again: whether the timer can
still preempt the running thread is seen from the counter alone (`timer_preempts_iff`).
-/

namespace Krypton

open Sys

variable {c c' c₀ : Config} {s s' : Sys} {fuel n : Nat} {e : Nat × Event} {rs : List Nat}

/-! ### The counter behind a switch -/

/-- A request that is still pending in ring 3 comes with a fresh time slice. -/
structure Rearmed (c : Config) : Prop where
  quantum : c.sys.stdTsQuantum = stdTsQuantum
  fresh : c.mode = .ring3 → Has c.sys.sysFlags needSchedule → c.sys.tsCurrCount = stdTsQuantum

namespace Rearmed

theorem idleLoop (h : s.stdTsQuantum = stdTsQuantum) : Rearmed s.idleLoop := by
  unfold Sys.idleLoop
  dsimp only
  split_ifs
  · exact ⟨h, fun hm => Mode.noConfusion hm⟩
  · have hq : (s.switchIn (getHead s.mem s.threadReady)).stdTsQuantum = s.stdTsQuantum := by
      rw [switchIn_eq]
      rfl
    have hc : (s.switchIn (getHead s.mem s.threadReady)).tsCurrCount = s.stdTsQuantum := by
      rw [switchIn_eq]
    exact ⟨hq.trans h, fun _ _ => hc.trans h⟩

theorem dispatch (h : s.stdTsQuantum = stdTsQuantum) (hn : ¬ Has s.sysFlags needSchedule) :
    Rearmed (s.dispatch .ring3) := by
  unfold Sys.dispatch
  split_ifs
  · refine idleLoop ?_
    unfold saveContext
    split_ifs
    · exact h
    · exact h
  · exact ⟨h, fun _ hx => absurd hx hn⟩

theorem step (hi : Inv c) (hok : Regular c e) (h : Rearmed c) (hs : step c e = some c') : Rearmed c' := by
  obtain ⟨fuel, ev⟩ := e
  cases step_cases hs with
  | forbid hm | permit hm => exact ⟨h.quantum, fun _ => h.fresh hm⟩
  | create hm hc =>
    obtain ⟨-, -, m', -, rfl⟩ := createThread_cases hc
    exact ⟨h.quantum, fun _ => h.fresh hm⟩
  | syscall hm hh =>
    exact dispatch ((idtHandler_steady hh).quantum.trans h.quantum) (hi.idt_served hm hok.1 hh)
  | irq hm hh =>
    have hk : c.sys.trap.enter.InHandler := .inl (hi.trap_kReenter hm)
    exact dispatch ((irqHandler_steady hk hh).quantum.trans h.quantum) (hi.irq_served hm hh)
  | @idleIrq d s hm hh =>
    obtain ⟨h1, -, hd⟩ := hi.halted hm hh
    rw [hd]
    exact ⟨(handle_steady (.inr (hi.enter_kReenter hm)) h1).quantum.trans h.quantum, fun hx => Mode.noConfusion hx⟩
  | wake hm hw =>
    obtain rfl := hok.2.wakeUp hw
    exact idleLoop h.quantum

end Rearmed

theorem reach_rearmed (h : Reach step Regular c₀ c) (h₀ : Booted c₀) : Rearmed c := by
  refine reach_keeps h h₀ (fun _ _ => Regular.keeps) ?_ fun _ _ _ hi hr hok hs => hr.step hi hok hs
  obtain ⟨s, pd, name, k, stack, -, -, -, -, hinit, -⟩ := h₀
  obtain ⟨-, -, he⟩ := init_cases hinit
  have hflags : c₀.sys.sysFlags = 0 := by rw [he]
  refine ⟨by rw [he], fun _ hx => absurd hx ?_⟩
  rw [hflags]
  decide

/-! ### One tick -/

namespace Sys

theorem timerCallback_silent (h : s.tsCurrCount.toInt < -1) :
    s.timerCallback = { s with systemTick := s.systemTick + 1 } := if_pos h

theorem count_toInt (h : -1 ≤ s.tsCurrCount.toInt) : (s.tsCurrCount - 1).toInt = s.tsCurrCount.toInt - 1 := by
  rw [BitVec.toInt_sub]
  have hlt := s.tsCurrCount.toInt_lt
  simp [Int.bmod_def]
  omega

theorem timerCallback_fires (h : -1 ≤ s.tsCurrCount.toInt) (h0 : s.tsCurrCount.toInt ≤ 0) :
    ∃ f, s.timerCallback = { s with systemTick := s.systemTick + 1, tsCurrCount := s.tsCurrCount - 1, sysFlags := f } ∧
      Has f needSchedule ∧ Has f timeSliceExpired := by
  have hneg : (s.tsCurrCount - 1).toInt < 0 := by
    rw [count_toInt h]
    omega
  refine ⟨s.sysFlags ||| timeSliceExpired ||| needSchedule, ?_, has_or_set (by decide), ?_⟩
  · unfold timerCallback
    dsimp only
    rw [if_neg (by omega), if_pos hneg]
  · exact (has_or_keep (by decide)).2 (has_or_set (by decide))

theorem timerCallback_counts (h : 0 < s.tsCurrCount.toInt) :
    s.timerCallback = { s with systemTick := s.systemTick + 1, tsCurrCount := s.tsCurrCount - 1 } := by
  have hpos : ¬ (s.tsCurrCount - 1).toInt < 0 := by
    rw [count_toInt (by omega)]
    omega
  unfold timerCallback
  dsimp only
  rw [if_neg (by omega), if_neg hpos]

theorem irqHandler_silent (hc : s.tsCurrCount.toInt < -1) (hn : ¬ Has s.sysFlags needSchedule) :
    s.irqHandler fuel .timer = some { s.enter with systemTick := s.systemTick + 1 } := by
  show (some s.enter.timerCallback).bind (fun s => s.reschedule fuel) = _
  rw [timerCallback_silent (s := s.enter) hc, Option.bind_some]
  exact if_neg fun hx => hn hx.1

theorem reschedule_count (h : s.reschedule fuel = some s') : s'.tsCurrCount = s.tsCurrCount := by
  unfold reschedule at h
  split_ifs at h
  · rcases schedule_cases h with rfl | hr
    · rfl
    · obtain ⟨m', -, rfl⟩ := requeue_cases hr
      rfl
  · cases h
    rfl

theorem idleLoop_count (s : Sys) :
    s.idleLoop.sys.tsCurrCount = s.tsCurrCount ∨ s.idleLoop.sys.tsCurrCount = s.stdTsQuantum := by
  unfold idleLoop
  dsimp only
  split_ifs
  · exact .inl rfl
  · right
    show (s.switchIn _).tsCurrCount = _
    rw [switchIn_eq]

/-- The dispatcher leaves the counter or sets it to the quantum. -/
theorem dispatch_count (s : Sys) (back : Mode) :
    (s.dispatch back).sys.tsCurrCount = s.tsCurrCount ∨ (s.dispatch back).sys.tsCurrCount = s.stdTsQuantum := by
  unfold dispatch
  split_ifs
  · have hsave : s.saveContext.tsCurrCount = s.tsCurrCount ∧ s.saveContext.stdTsQuantum = s.stdTsQuantum := by
      unfold saveContext
      split_ifs
      · exact ⟨rfl, rfl⟩
      · exact ⟨rfl, rfl⟩
    rw [← hsave.1, ← hsave.2]
    exact idleLoop_count s.saveContext.switchBegin
  · exact .inl rfl

theorem tick_moves (hc : -1 ≤ s.tsCurrCount.toInt) (hq : s.stdTsQuantum = Krypton.stdTsQuantum)
    (hk : s.enter.InHandler) (hn : ¬ Has s.sysFlags needSchedule) (hcalm : ¬ Has s.sysFlags needTaskSwitch)
    (h : s.irqHandler fuel .timer = some s') (back : Mode) : (s'.dispatch back).sys.tsCurrCount ≠ s.tsCurrCount := by
  have hone : (s.tsCurrCount - 1).toInt = s.tsCurrCount.toInt - 1 := count_toInt hc
  have hne : s.tsCurrCount - 1 ≠ s.tsCurrCount := fun he => by
    rw [he] at hone
    omega
  by_cases hpos : 0 < s.tsCurrCount.toInt
  · have he := timerCallback_counts (s := s.enter) hpos
    obtain ⟨hs, hcount, hflags⟩ : s.irqHandler fuel .timer = s.enter.timerCallback.reschedule fuel ∧
        s.enter.timerCallback.tsCurrCount = s.tsCurrCount - 1 ∧ s.enter.timerCallback.sysFlags = s.sysFlags := by
      rw [he]
      exact ⟨he ▸ rfl, rfl, rfl⟩
    have hstay : s.enter.timerCallback.reschedule fuel = some s.enter.timerCallback :=
      if_neg fun hx => hn (hflags ▸ hx.1)
    obtain rfl := Option.some.inj ((hs.trans hstay).symm.trans h)
    rw [dispatch_stays (hflags ▸ hcalm)]
    show s.enter.timerCallback.tsCurrCount ≠ _
    rw [hcount]
    exact hne
  · have hquantum : s'.stdTsQuantum = Krypton.stdTsQuantum := (irqHandler_steady hk h).quantum.trans hq
    obtain ⟨f, he, -⟩ := timerCallback_fires (s := s.enter) hc (not_lt.1 hpos)
    have hcount : s'.tsCurrCount = s.tsCurrCount - 1 := by
      have hs : s.irqHandler fuel .timer = s.enter.timerCallback.reschedule fuel := rfl
      rw [hs, he] at h
      exact reschedule_count h
    rcases dispatch_count s' back with hd | hd
    · rw [hd, hcount]
      exact hne
    · rw [hd, hquantum]
      intro hten
      exact hpos (hten ▸ by decide)

end Sys

/-- At the next tick `irq_handler` asks for a switch, and the dispatcher calls `switch_threads`. -/
def Config.Preempted (c : Config) (fuel : Nat) : Prop :=
  c.mode = .ring3 ∧ ∃ s, c.sys.trap.irqHandler fuel .timer = some s ∧ s.kReenter = 0 ∧ Has s.sysFlags needTaskSwitch

/-- Ring 3 with threads ready and switching allowed. -/
structure Slicing (c : Config) (rs : List Nat) : Prop where
  inv : Inv c
  mode : c.mode = .ring3
  forbid : c.sys.forbidCounter = 0
  calm : ¬ Has c.sys.sysFlags needTaskSwitch
  ready : IsList c.sys.mem c.sys.threadReady rs
  threads : ∀ t ∈ rs, t ∈ c.sys.threads
  ne_nil : rs ≠ []

namespace Slicing

theorem getHead_ne (h : Slicing c rs) : getHead c.sys.mem c.sys.threadReady ≠ 0 := by
  obtain ⟨x, xs, rfl⟩ := List.exists_cons_of_ne_nil h.ne_nil
  have hobj := h.inv.sound.objects
  rw [(hobj.rep_ready h.ready h.threads).getHead_eq (if_pos rfl)]
  exact hobj.ne_zero _ (hobj.thread x (h.threads x (List.mem_cons_self ..)))

theorem requeue_isSome (h : Slicing c rs) (hf : rs.length < fuel) (hm : s.mem = c.sys.mem)
    (hb : s.sysBase = c.sys.sysBase) : (s.requeue fuel).isSome := by
  have hready : s.threadReady = c.sys.threadReady := by
    unfold threadReady
    rw [hb]
  have henq := ((h.inv.sound.objects.rep_ready h.ready h.threads).enqueue_isSome (n := s.runningThread)
    (if_pos rfl) hf)
  obtain ⟨m', hm'⟩ := Option.isSome_iff_exists.1 henq
  unfold requeue enqueueThread
  rw [hm, hready, hm']
  rfl

/-- A tick whose handler leaves a request that `schedule` grants. -/
theorem preempted (h : Slicing c rs) (hf : rs.length < fuel) (he : c.sys.trap.enter.timerCallback = s)
    (hk : s.kReenter = 0) (hm : s.mem = c.sys.mem) (hb : s.sysBase = c.sys.sysBase) (hsafe : ¬ s.WaitSafe) :
    c.Preempted fuel := by
  obtain ⟨s', hs'⟩ := Option.isSome_iff_exists.1
    (h.requeue_isSome (s := { s with sysFlags := s.sysFlags &&& ~~~needSchedule }) hf hm hb)
  have hr : s.reschedule fuel = some s' := (reschedule_preempting fuel hsafe (BitVec.le_of_eq hk)).trans hs'
  obtain ⟨m', -, he'⟩ := requeue_cases hs'
  refine ⟨h.mode, s', ?_, ?_, ?_⟩
  · show (some c.sys.trap.enter.timerCallback).bind (fun s => s.reschedule fuel) = _
    rw [he]
    exact hr
  · rw [he']
    exact hk
  · rw [he']
    exact has_or_set (by decide)

/-- One tick of a slice that is not over: it is granted, or the counter is one less. -/
theorem tick (h : Slicing c rs) (hf : rs.length < fuel) (hc : -1 ≤ c.sys.tsCurrCount.toInt) :
    c.Preempted fuel ∨ 0 < c.sys.tsCurrCount.toInt ∧ ∃ c', step c (fuel, .irq .timer) = some c' ∧ Slicing c' rs ∧
      c'.sys.tsCurrCount.toInt = c.sys.tsCurrCount.toInt - 1 := by
  have hk : c.sys.trap.enter.kReenter = 0 := h.inv.trap_kReenter h.mode
  have hrun := h.inv.context.running
  have hobj := h.inv.sound.objects
  have hrun0 : c.sys.runningThread ≠ 0 := hobj.ne_zero _ (hobj.thread _ hrun)
  have hforbid : ¬ c.sys.forbidCounter.toInt > 0 := by
    rw [h.forbid]
    decide
  by_cases h0 : c.sys.tsCurrCount.toInt ≤ 0
  · obtain ⟨f, he, hneed, hover⟩ := timerCallback_fires (s := c.sys.trap.enter) hc h0
    left
    refine h.preempted hf he hk rfl rfl ?_
    exact not_not.2 ⟨hneed, hforbid, h.getHead_ne, hrun0, .inr hover⟩
  · have he := timerCallback_counts (s := c.sys.trap.enter) (not_le.1 h0)
    set s₁ : Sys := { c.sys.trap.enter with
      systemTick := c.sys.trap.enter.systemTick + 1, tsCurrCount := c.sys.trap.enter.tsCurrCount - 1 } with hs₁
    by_cases hsafe : s₁.WaitSafe
    · right
      have hsig : ¬ Has s₁.running.threadFlags tbSignal := (h.inv.context.thread _ hrun).signal
      obtain ⟨f, hr, hcalm⟩ := reschedule_safe fuel hsafe hsig
      have hn : ¬ Has f needTaskSwitch := fun hx => h.calm (hcalm.1 hx)
      have hirq : c.sys.trap.irqHandler fuel .timer = some { s₁ with sysFlags := f } := by
        show (some c.sys.trap.enter.timerCallback).bind (fun s => s.reschedule fuel) = _
        rw [he]
        exact hr
      have hstep : step c (fuel, .irq .timer) = some ⟨({ s₁ with sysFlags := f } : Sys).noSwitch, .ring3⟩ := by
        unfold step
        dsimp only
        rw [h.mode]
        dsimp only
        rw [hirq, Option.map_some, dispatch_stays (s := { s₁ with sysFlags := f }) hn]
      refine ⟨not_le.1 h0, _, hstep, ?_, count_toInt (s := c.sys.trap.enter) hc⟩
      exact ⟨h.inv.step (e := (fuel, .irq .timer)) ⟨trivial, trivial⟩ hstep, rfl, h.forbid, hn, h.ready, h.threads, h.ne_nil⟩
    · exact .inl (h.preempted hf he hk rfl rfl hsafe)

/-- The slice ends. -/
theorem ends (h : Slicing c rs) (hf : rs.length < fuel) (k : Nat) (hc : c.sys.tsCurrCount.toInt = k - 1) :
    ∃ n c', exec step c (List.replicate n (fuel, .irq .timer)) = some c' ∧ c'.Preempted fuel := by
  induction k generalizing c with
  | zero =>
    rcases h.tick hf (by omega) with hp | ⟨hpos, -⟩
    · exact ⟨0, c, rfl, hp⟩
    · omega
  | succ k ih =>
    rcases h.tick hf (by omega) with hp | ⟨-, c₁, h1, h2, h3⟩
    · exact ⟨0, c, rfl, hp⟩
    · obtain ⟨n, c', h4, h5⟩ := ih h2 (by omega)
      refine ⟨n + 1, c', ?_, h5⟩
      show (step c (fuel, .irq .timer)).bind _ = _
      rw [h1]
      exact h4

end Slicing

/-! ### A timer that has gone silent -/

structure Silent (c : Config) : Prop where
  inv : Inv c
  mode : c.mode = .ring3
  count : c.sys.tsCurrCount.toInt < -1
  served : ¬ Has c.sys.sysFlags needSchedule
  calm : ¬ Has c.sys.sysFlags needTaskSwitch

namespace Silent

theorem irq (h : Silent c) (fuel : Nat) : c.sys.trap.irqHandler fuel .timer =
    some { c.sys.trap.enter with systemTick := c.sys.trap.enter.systemTick + 1 } :=
  irqHandler_silent (s := c.sys.trap) h.count h.served

theorem tick (h : Silent c) (hs : step c (fuel, .irq .timer) = some c') : Silent c' := by
  have hi := h.inv.step (e := (fuel, .irq .timer)) ⟨trivial, trivial⟩ hs
  unfold step at hs
  dsimp only at hs
  rw [h.mode] at hs
  dsimp only at hs
  rw [h.irq, Option.map_some, dispatch_stays (s := { c.sys.trap.enter with
    systemTick := c.sys.trap.enter.systemTick + 1 }) h.calm] at hs
  cases hs
  exact ⟨hi, rfl, h.count, h.served, h.calm⟩

theorem ticks (h : Silent c) (hs : exec step c (List.replicate n (fuel, .irq .timer)) = some c') : Silent c' := by
  induction n generalizing c with
  | zero => cases hs; exact h
  | succ n ih =>
    obtain ⟨c₁, h1, h2⟩ := Option.bind_eq_some_iff.1 hs
    exact ih (h.tick h1) h2

end Silent

end Krypton
