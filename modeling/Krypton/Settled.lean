import Krypton.Placement
import Krypton.Context

/-!
# The scheduler between two entries

Within an entry `NEED_TASK_SWITCH` says whether the running thread has been put on a list (`Pending`);
the dispatcher clears it, and between two entries the running thread is on no list and in the idle loop
every thread is on one (`Settled`). A call of `wait` in a state that is not `WaitSafe` breaks this:
`schedule`, called at the end of the same entry, puts the thread on `thread_ready` too.
-/

namespace Krypton
namespace Sys
variable {s s' : Sys} {out rs ws : List Nat} {x t fuel : Nat}

/-- `schedule`, called now, would not preempt the running thread. -/
def WaitSafe (s : Sys) : Prop :=
  ¬ (Has s.sysFlags needSchedule ∧ ¬ s.forbidCounter.toInt > 0 ∧ s.Preempts)

instance (s : Sys) : Decidable s.WaitSafe := inferInstanceAs (Decidable (¬ _))

structure Pending (s : Sys) (rs ws : List Nat) : Prop where
  placed : s.Placed [s.runningThread] rs ws ∧ ¬ Has s.sysFlags needTaskSwitch ∨
    s.Placed [] rs ws ∧ Has s.sysFlags needTaskSwitch

/-! ### The end of a handler -/

theorem schedule_cases (hs : s.schedule fuel = some s') : s' = s ∨ s.requeue fuel = some s' := by
  unfold schedule at hs
  split_ifs at hs
  · exact .inl (Option.some.inj hs).symm
  · exact .inr hs
  · exact .inr hs
  · exact .inl (Option.some.inj hs).symm

theorem reschedule_frame (hs : s.reschedule fuel = some s') : s'.thread = s.thread ∧ s'.log = s.log := by
  unfold reschedule at hs
  split_ifs at hs
  · rcases schedule_cases hs with rfl | hr
    · exact ⟨rfl, rfl⟩
    · obtain ⟨m', -, rfl⟩ := requeue_cases hr
      exact ⟨rfl, rfl⟩
  · exact Option.some.inj hs ▸ ⟨rfl, rfl⟩

/-- At an outermost entry `NEED_SCHEDULE` is clear behind the handler. -/
theorem reschedule_clears (hk : s.kReenter ≤ 0) (hs : s.reschedule fuel = some s') :
    ¬ Has s'.sysFlags needSchedule := by
  unfold reschedule at hs
  split_ifs at hs with h
  · have hclear : ¬ Has (s.sysFlags &&& ~~~needSchedule) needSchedule := has_and_drop (by decide)
    rcases schedule_cases hs with rfl | hr
    · exact hclear
    · obtain ⟨m', -, rfl⟩ := requeue_cases hr
      exact fun hx => hclear ((has_or_keep (by decide)).1 hx)
  · exact Option.some.inj hs ▸ fun hx => h ⟨hx, hk⟩

theorem Placed.reschedule (h : s.Placed [s.runningThread] rs ws) (hn : ¬ Has s.sysFlags needTaskSwitch)
    (hs : s.reschedule fuel = some s') :
    ∃ rs', s'.Pending rs' ws ∧ (∀ t ∈ rs, t ∈ rs') ∧
      (Has s'.sysFlags needTaskSwitch → s.runningThread ∈ rs') := by
  unfold Sys.reschedule at hs
  split_ifs at hs with hc
  · set s₁ : Sys := { s with sysFlags := s.sysFlags &&& ~~~needSchedule }
    have h₁ : s₁.Placed [s₁.runningThread] rs ws :=
      ⟨h.queues.same rfl rfl rfl rfl, h.perm, h.signals⟩
    have hn₁ : ¬ Has s₁.sysFlags needTaskSwitch := fun hx => hn ((has_and_keep (by decide)).1 hx)
    rcases schedule_cases hs with rfl | hr
    · exact ⟨rs, ⟨.inl ⟨h₁, hn₁⟩⟩, fun _ => id, fun hx => absurd hx hn₁⟩
    · have hp := h₁.requeue hr
      obtain ⟨m', -, rfl⟩ := requeue_cases hr
      refine ⟨_, ⟨.inr ⟨hp, has_or_set (by decide)⟩⟩, fun t ht => ?_, fun _ => ?_⟩
      · exact (List.mem_orderedInsert _).2 (.inr ht)
      · exact (List.mem_orderedInsert _).2 (.inl rfl)
  · cases hs
    exact ⟨rs, ⟨.inl ⟨h, hn⟩⟩, fun _ => id, fun hx => absurd hx hn⟩

theorem Queues.waitForFlags_isSome (h : s.Queues rs ws) (flags : Word) (hf : ws.length < fuel) :
    (s.waitForFlags fuel flags).isSome := by
  obtain ⟨m', hm'⟩ := Option.isSome_iff_exists.1 (h.enqueue_wait_isSome (n := s.runningThread) hf)
  unfold waitForFlags enqueueThread
  show (Option.bind (Option.map _ (enqueue fuel s.mem s.threadWait s.runningThread)) _).isSome
  rw [hm']
  rfl

theorem Queues.requeue_isSome (h : s.Queues rs ws) (hf : rs.length < fuel) : (s.requeue fuel).isSome := by
  obtain ⟨m', hm'⟩ := Option.isSome_iff_exists.1 (h.enqueue_ready_isSome (n := s.runningThread) hf)
  unfold requeue enqueueThread
  rw [hm']
  rfl

theorem Queues.reschedule_isSome (h : s.Queues rs ws) (hf : rs.length < fuel) :
    (s.reschedule fuel).isSome := by
  have h' : { s with sysFlags := s.sysFlags &&& ~~~needSchedule }.Queues rs ws := h.same rfl rfl rfl rfl
  unfold reschedule schedule
  split_ifs
  · rfl
  · exact h'.requeue_isSome hf
  · exact h'.requeue_isSome hf
  · rfl
  · rfl

theorem reschedule_safe (fuel : Nat) (hsafe : s.WaitSafe) (hsig : ¬ Has s.running.threadFlags tbSignal) :
    ∃ f, s.reschedule fuel = some { s with sysFlags := f } ∧
      (Has f needTaskSwitch ↔ Has s.sysFlags needTaskSwitch) := by
  unfold reschedule
  by_cases hc : Has s.sysFlags needSchedule ∧ s.kReenter ≤ 0
  · refine ⟨s.sysFlags &&& ~~~needSchedule, ?_, has_and_keep (by decide)⟩
    rw [if_pos hc]
    unfold schedule
    by_cases hf : s.forbidCounter.toInt > 0
    · rw [if_pos hf]
    · have hp : ¬ Preempts { s with sysFlags := s.sysFlags &&& ~~~needSchedule } := fun hp => by
        refine hsafe ⟨hc.1, hf, hp.1, hp.2.1, hp.2.2.imp_right fun hx => ?_⟩
        exact (has_and_keep (by decide)).1 hx
      have hsig' : ¬ Has (running { s with sysFlags := s.sysFlags &&& ~~~needSchedule }).threadFlags
          tbSignal := hsig
      rw [if_neg hf, if_neg hsig', if_neg hp]
  · exact ⟨s.sysFlags, if_neg hc, .rfl⟩

/-- In a state that is not safe the running thread is put on `thread_ready`. -/
theorem reschedule_preempting (fuel : Nat) (hsafe : ¬ s.WaitSafe) (hk : s.kReenter ≤ 0) :
    s.reschedule fuel = { s with sysFlags := s.sysFlags &&& ~~~needSchedule }.requeue fuel := by
  obtain ⟨hn, hf, hp⟩ := not_not.1 hsafe
  have hp' : Preempts { s with sysFlags := s.sysFlags &&& ~~~needSchedule } := by
    refine ⟨hp.1, hp.2.1, hp.2.2.imp_right fun hx => ?_⟩
    exact (has_and_keep (by decide)).2 hx
  unfold reschedule
  rw [if_pos ⟨hn, hk⟩]
  unfold schedule
  rw [if_neg hf]
  split_ifs
  · rfl
  · rfl

theorem Queues.preempts_wait {flags : Word} (h : s.Queues rs ws) (hn : s.runningThread ∈ s.threads)
    (hr : s.runningThread ∉ rs) (hw : s.runningThread ∉ ws) (hs : s.waitForFlags fuel flags = some s') :
    s'.Preempts ↔ s.Preempts := by
  obtain ⟨m', hm', rfl⟩ := waitForFlags_cases hs
  obtain ⟨hq', hpri⟩ := h.enqueue_wait hn hr hw hm'
  have hhead : Krypton.getHead m' s.threadReady = Krypton.getHead s.mem s.threadReady := by
    rw [h.getHead]
    exact hq'.getHead
  have hflag : Has (s.sysFlags ||| needTaskSwitch) timeSliceExpired ↔ Has s.sysFlags timeSliceExpired :=
    has_or_keep (by decide)
  show (Krypton.getHead m' s.threadReady ≠ 0 ∧ s.runningThread ≠ 0 ∧
    (m'.pri s.runningThread < m'.pri (Krypton.getHead m' s.threadReady) ∨
      Has (s.sysFlags ||| needTaskSwitch) timeSliceExpired)) ↔ _
  rw [hhead, hflag, hpri _ hn]
  unfold Preempts
  refine and_congr_right fun h0 => ?_
  have hmem : Krypton.getHead s.mem s.threadReady ∈ s.threads := by
    rw [h.getHead] at h0 ⊢
    cases rs with
    | nil => exact absurd rfl h0
    | cons x xs => exact h.mem_ready x (List.mem_cons_self ..)
  rw [hpri _ hmem]

theorem Queues.waitSafe_wait {flags : Word} (h : s.Queues rs ws) (hn : s.runningThread ∈ s.threads)
    (hr : s.runningThread ∉ rs) (hw : s.runningThread ∉ ws) (hs : s.waitForFlags fuel flags = some s') :
    s'.WaitSafe ↔ s.WaitSafe := by
  have hp := h.preempts_wait hn hr hw hs
  obtain ⟨m', -, rfl⟩ := waitForFlags_cases hs
  have hflag : Has (s.sysFlags ||| needTaskSwitch) needSchedule ↔ Has s.sysFlags needSchedule :=
    has_or_keep (by decide)
  unfold WaitSafe
  rw [hp]
  exact not_congr (and_congr_left fun _ => hflag)

theorem Placed.waitSafe_wait {flags : Word} (h : s.Placed [s.runningThread] rs ws)
    (hs : s.waitForFlags fuel flags = some s') : s'.WaitSafe ↔ s.WaitSafe :=
  h.queues.waitSafe_wait h.out_mem h.out_notMem.1 h.out_notMem.2 hs

/-! ### The dispatcher -/

end Sys

/-- What is on no list between two entries. -/
def Config.out (c : Config) : List Nat := if c.mode = .ring3 then [c.sys.runningThread] else []

structure Settled (c : Config) (rs ws : List Nat) : Prop where
  placed : c.sys.Placed c.out rs ws
  calm : ¬ Has c.sys.sysFlags needTaskSwitch

namespace Sys
variable {s s' : Sys} {out rs ws : List Nat} {x t fuel : Nat}

theorem Placed.switchOut (h : s.Placed out rs ws) (hr : Has s.running.threadFlags tsRun) :
    s.switchOut.Placed out rs ws := by
  rw [switchOut_eq hr]
  refine ⟨h.queues.same rfl rfl rfl rfl, h.perm, fun t ht hw => h.signals t ht ?_⟩
  replace hw : Has (if t = s.runningThread then s.running.out s.esp else s.thread t).sigWait stMesg := hw
  split_ifs at hw with he
  · exact he ▸ hw
  · exact hw

theorem switchOut_calm : ¬ Has s.switchOut.sysFlags needTaskSwitch := fun hx =>
  has_and_drop (x := s.saveContext.sysFlags) (by decide) ((has_and_keep (by decide)).1 hx)

theorem Placed.switchIn (h : s.Placed [] (x :: rs) ws) : (s.switchIn x).Placed [x] rs ws := by
  rw [switchIn_eq]
  refine ⟨h.queues.remove_ready.1.same rfl rfl rfl rfl, h.perm, fun t ht hw => h.signals t ht ?_⟩
  replace hw : Has (if t = x then (s.thread x).into else s.thread t).sigWait stMesg := hw
  split_ifs at hw with he
  · exact he ▸ hw
  · exact hw

theorem Placed.idleLoop_nil (h : s.Placed [] [] ws) (hn : ¬ Has s.sysFlags needTaskSwitch) :
    Settled s.idleLoop [] ws ∧ s.idleLoop.mode = .idle := by
  have h0 : getHead s.mem s.threadReady = 0 := h.queues.getHead_eq_zero.2 rfl
  unfold Sys.idleLoop
  dsimp only
  rw [if_pos h0]
  refine ⟨⟨⟨h.queues.same rfl rfl rfl rfl, h.perm, h.signals⟩, fun hx => hn ?_⟩, rfl⟩
  exact (has_or_keep (by decide)).1 hx

theorem idleLoop_of_head (hhead : getHead s.mem s.threadReady = x) (h0 : x ≠ 0) :
    s.idleLoop = ⟨s.switchIn x, .ring3⟩ := by
  unfold Sys.idleLoop
  dsimp only
  rw [hhead, if_neg h0]
  rfl

theorem idleLoop_cons (h : s.Placed [] (x :: rs) ws) : s.idleLoop = ⟨s.switchIn x, .ring3⟩ :=
  idleLoop_of_head h.queues.getHead (h.queues.ne_zero (h.queues.mem_ready x (List.mem_cons_self ..)))

theorem Placed.idleLoop_cons (h : s.Placed [] (x :: rs) ws) (hn : ¬ Has s.sysFlags needTaskSwitch) :
    Settled s.idleLoop rs ws := by
  rw [Sys.idleLoop_cons h]
  refine ⟨?_, ?_⟩
  · have hrun : (s.switchIn x).runningThread = x := by rw [switchIn_eq]
    have : Config.out ⟨s.switchIn x, .ring3⟩ = [x] := by
      unfold Config.out
      rw [if_pos rfl, hrun]
    rw [this]
    exact h.switchIn
  · show ¬ Has (s.switchIn x).sysFlags needTaskSwitch
    rw [switchIn_eq]
    exact hn

theorem Pending.dispatch (h : s.Pending rs ws) (hc : s.Context True) (hk : s.kReenter = 0) :
    ∃ rs', Settled (s.dispatch .ring3) rs' ws := by
  rcases h.placed with ⟨hp, hn⟩ | ⟨hp, hn⟩
  · rw [dispatch_stays hn]
    exact ⟨rs, ⟨hp.queues.same rfl rfl rfl rfl, hp.perm, hp.signals⟩, hn⟩
  · rw [dispatch_switches hk hn]
    have hso := hp.switchOut hc.has_run
    have hcalm := switchOut_calm (s := s)
    cases rs with
    | nil => exact ⟨[], (hso.idleLoop_nil hcalm).1⟩
    | cons x xs => exact ⟨xs, hso.idleLoop_cons hcalm⟩

/-- The dispatcher does not idle when a thread is ready, and it leaves `NEED_SCHEDULE` alone then. -/
theorem Pending.dispatch_ring3 (h : s.Pending rs ws) (hc : s.Context True) (hk : s.kReenter = 0)
    (hr : Has s.sysFlags needTaskSwitch → rs ≠ []) : (s.dispatch .ring3).mode = .ring3 ∧
      (Has (s.dispatch .ring3).sys.sysFlags needSchedule ↔ Has s.sysFlags needSchedule) := by
  rcases h.placed with ⟨hp, hn⟩ | ⟨hp, hn⟩
  · rw [dispatch_stays hn]
    exact ⟨rfl, .rfl⟩
  · obtain ⟨x, xs, rfl⟩ := List.exists_cons_of_ne_nil (hr hn)
    have hso := hp.switchOut hc.has_run
    rw [dispatch_switches hk hn, Sys.idleLoop_cons hso]
    refine ⟨rfl, ?_⟩
    show Has (s.switchOut.switchIn x).sysFlags needSchedule ↔ _
    rw [switchIn_eq, switchOut_eq hc.has_run]
    exact (has_and_keep (by decide)).trans (has_and_keep (by decide))

end Sys
end Krypton
