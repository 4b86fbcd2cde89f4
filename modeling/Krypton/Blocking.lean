import Krypton.SchedRun

/-!
# Waiting and the kernel thread

The kernel thread spins and never waits, so some thread is always ready and the processor never idles; then
`NEED_SCHEDULE` is clear between two entries, every call of `wait` is safe and every thread is in one place
(`threads_placed`). Where the kernel thread waits too, `wait` does what it should exactly when it is called
in a `WaitSafe` state (`wait_final_iff`).
-/

namespace Krypton

open Sys

variable {c c' c₀ : Config} {s s' : Sys} {rs ws : List Nat} {fuel t : Nat} {e : Nat × Event}

/-! ### A kernel thread that spins -/

/-- The kernel thread makes no call of `wait` and leaves its port alone, and handlers only post messages. -/
def KernelSpins (c : Config) (e : Nat × Event) : Prop :=
  NoStrayCycle c e ∧ e.2.Posts ∧ (e.2.IsWait → c.sys.runningThread ≠ c.sys.kernelThread)

instance (c : Config) (e : Nat × Event) : Decidable (KernelSpins c e) :=
  inferInstanceAs (Decidable (_ ∧ _))

theorem Inv.idt_served {eax ebx : Word} (hi : Inv c) (hm : c.mode = .ring3)
    (hstray : ¬ c.sys.StrayCycle eax) (hh : c.sys.trap.idtHandler fuel eax ebx = some s) :
    ¬ Has s.sysFlags needSchedule := by
  obtain ⟨s₁, h1, h2⟩ := Option.bind_eq_some_iff.1 hh
  have hs : c.sys.trap.enter.Sound := hi.sound.trap.enter
  have hk := (hs.syscall hi.context.running hstray h1).quiet.kReenter
  exact reschedule_clears (BitVec.le_of_eq (hk.trans (hi.trap_kReenter hm))) h2

theorem Inv.irq_served {d : Handler} (hi : Inv c) (hm : c.mode = .ring3)
    (hh : c.sys.trap.irqHandler fuel d = some s) : ¬ Has s.sysFlags needSchedule := by
  obtain ⟨s₁, h1, h2⟩ := Option.bind_eq_some_iff.1 hh
  have hs : c.sys.trap.enter.Sound := hi.sound.trap.enter
  have hk := (hs.handle (.inl (hi.trap_kReenter hm)) h1).quiet.kReenter
  exact reschedule_clears (BitVec.le_of_eq (hk.trans (hi.trap_kReenter hm))) h2

/-- The kernel thread is running or ready, so the scheduler is never left with a pending request. -/
structure Spinning (c : Config) (rs ws : List Nat) : Prop where
  settled : Settled c rs ws
  ring3 : c.mode = .ring3
  served : ¬ Has c.sys.sysFlags needSchedule
  kernel : c.sys.kernelThread ∉ ws

namespace Spinning

theorem waitSafe (h : Spinning c rs ws) : c.sys.WaitSafe := fun hx => h.served hx.1

theorem dispatch (hp : s.Pending rs ws) (hc : s.Context True) (hk : s.kReenter = 0)
    (hn : ¬ Has s.sysFlags needSchedule) (hK : s.kernelThread ∉ ws) :
    ∃ rs', Spinning (s.dispatch .ring3) rs' ws := by
  -- a thread that leaves the processor finds the kernel thread or itself on `thread_ready`
  have hready : Has s.sysFlags needTaskSwitch → rs ≠ [] := by
    intro hx hnil
    rcases hp.placed with ⟨-, h⟩ | ⟨h, -⟩
    · exact h hx
    · have hmem : s.kernelThread ∈ rs ++ ws := h.perm.mem_iff.2 kernel_mem
      rw [hnil] at hmem
      exact hK hmem
  obtain ⟨rs', hst⟩ := hp.dispatch hc hk
  obtain ⟨hm, hf⟩ := hp.dispatch_ring3 hc hk hready
  refine ⟨rs', hst, hm, fun hx => hn (hf.1 hx), ?_⟩
  rwa [(dispatch_sameThreads _ _).kernel]

end Spinning

theorem spinning_step (hi : Inv c) (h : Spinning c rs ws) (hok : KernelSpins c e)
    (hs : step c e = some c') : ∃ rs' ws', Spinning c' rs' ws' := by
  obtain ⟨fuel, ev⟩ := e
  obtain ⟨hstray, hposts, hwait⟩ := hok
  cases step_cases hs with
  | forbid hm | permit hm =>
    refine ⟨rs, ws, ?_, rfl, h.served, h.kernel⟩
    exact Settled.of_ring3 ((h.settled.ring3 hm).same rfl rfl rfl rfl rfl rfl) h.settled.calm
  | @create p q a s hm hc =>
    obtain ⟨rs', hp, -, hf⟩ := (h.settled.ring3 hm).create hi.sound hc
    obtain ⟨-, -, m', -, rfl⟩ := createThread_cases hc
    refine ⟨rs', ws, Settled.of_ring3 hp ?_, rfl, ?_, h.kernel⟩
    · rw [hf]; exact h.settled.calm
    · rw [hf]; exact h.served
  | @syscall eax ebx s hm hh =>
    have hkept := hi.idtKept hstray hh
    obtain ⟨hc, hk⟩ := hi.entered hm hkept
    have hserved := hi.idt_served hm hstray hh
    have hK : s.kernelThread = c.sys.kernelThread := hkept.quiet.kernel
    by_cases hw : eax = 0 ∧ c.sys.running.uid = 0
    · obtain ⟨rfl, hu⟩ := hw
      obtain ⟨hp, hn⟩ := h.settled.wait hi hm hu h.waitSafe hh
      obtain ⟨rs', hx⟩ := Spinning.dispatch ⟨.inr ⟨hp, hn⟩⟩ hc hk hserved fun hx => by
        rcases (List.mem_orderedInsert _).1 hx with hx | hx
        · exact hwait rfl (hx.symm.trans hK)
        · exact h.kernel (hK ▸ hx)
      exact ⟨rs', _, hx⟩
    · obtain ⟨rs', hp, -⟩ := h.settled.syscall hi hm hstray (by tauto) hh
      obtain ⟨rs'', hx⟩ := Spinning.dispatch hp hc hk hserved (hK ▸ h.kernel)
      exact ⟨rs'', ws, hx⟩
  | @irq d s hm hh =>
    have hkept := hi.irqKept hm hh
    obtain ⟨hc, hk⟩ := hi.entered hm hkept
    have hK : s.kernelThread = c.sys.kernelThread := hkept.quiet.kernel
    obtain ⟨rs', ws', hp, hwoken, -⟩ := h.settled.irq hi hm hposts hh
    obtain ⟨rs'', hx⟩ := Spinning.dispatch hp hc hk (hi.irq_served hm hh) fun hx =>
      h.kernel (hK ▸ hwoken.wait _ hx)
    exact ⟨rs'', ws', hx⟩
  | idleIrq hm | wake hm => rw [h.ring3] at hm; cases hm

theorem Spinning.regular (h : Spinning c rs ws) (hok : KernelSpins c e) (hs : step c e = some c') : Regular c e :=
  ⟨hok.1, .of_ring3 h.ring3 hs⟩

theorem Booted.spinning (h₀ : Booted c₀) : Spinning c₀ [] [] := by
  obtain ⟨hf, hm⟩ := h₀.fresh
  refine ⟨h₀.settled, hm, ?_, List.not_mem_nil⟩
  rw [hf.sysFlags]; decide

theorem reach_spinning (h : Reach step KernelSpins c₀ c) (h₀ : Booted c₀) : Inv c ∧ ∃ rs ws, Spinning c rs ws := by
  refine h.inv (P := fun c => Inv c ∧ ∃ rs ws, Spinning c rs ws) ⟨h₀.inv, [], [], h₀.spinning⟩ ?_
  rintro s e s' ⟨hi, rs, ws, hsp⟩ hok hs
  exact ⟨hi.step (hsp.regular hok hs).keeps hs, spinning_step hi hsp hok hs⟩

/-- **Thread placement.** As long as the kernel thread neither waits nor takes a message off its port, and handlers only
post messages, between two entries every thread is the running one, on `thread_ready` or on `thread_wait`, exactly once,
and both lists are well formed. -/
theorem threads_placed (h : Reach step KernelSpins c₀ c) (h₀ : Booted c₀) :
    c.mode = .ring3 ∧ ∃ rs ws, IsList c.sys.mem c.sys.threadReady rs ∧
      IsList c.sys.mem c.sys.threadWait ws ∧ c.sys.threads.Nodup ∧
      (c.sys.runningThread :: (rs ++ ws)).Perm c.sys.threads := by
  obtain ⟨hi, rs, ws, hsp⟩ := reach_spinning h h₀
  have hp := hsp.settled.ring3 hsp.ring3
  exact ⟨hsp.ring3, rs, ws, hp.queues.isList_ready, hp.queues.isList_wait, hi.sound.objects.nodup, hp.perm⟩

/-- A thread of priority 15 waits for a message and gets it. -/
def patience : List (Nat × Event) :=
  [create 12288 15, (8, .permit)] ++ List.replicate 11 tick ++ [call 0 1, tick, post 12288 14000, tick]

def served : Config := (exec step bootZero patience).getD bootZero

theorem threads_placed_served :
    ∃ rs ws, IsList served.sys.mem served.sys.threadReady rs ∧
      IsList served.sys.mem served.sys.threadWait ws ∧
      (served.sys.runningThread :: (rs ++ ws)).Perm [12288, 8192] := by
  have hx : (exec step bootZero patience).isSome := by decide +kernel
  have hmeets : Meets step KernelSpins bootZero patience := by decide +kernel
  have hrun : Reach step KernelSpins bootZero served := reach_exec_meets hmeets (exec_getD bootZero hx)
  obtain ⟨-, rs, ws, h1, h2, -, h3⟩ := threads_placed hrun bootZero_booted
  have hthreads : served.sys.threads = [12288, 8192] := by decide +kernel
  exact ⟨rs, ws, h1, h2, hthreads ▸ h3⟩

/-- The kernel thread takes a message off its port, which `init` has not set up. -/
def adrift : Config := (exec step bootStray [(8, .permit), call 3 0]).getD bootStray

/-- `remove_head` has stored a word of the kernel thread's descriptor as the head of `thread_ready`. -/
theorem threads_adrift :
    Reach step (fun c e => e.2.Posts ∧ (e.2.IsWait → c.sys.runningThread ≠ c.sys.kernelThread)) bootStray adrift ∧
      Booted bootStray ∧ adrift.mode = .ring3 ∧
      ¬ ∃ rs ws, IsList adrift.sys.mem adrift.sys.threadReady rs ∧ IsList adrift.sys.mem adrift.sys.threadWait ws ∧
        (adrift.sys.runningThread :: (rs ++ ws)).Perm adrift.sys.threads := by
  have hx : exec step bootStray [(8, .permit), call 3 0] = some adrift := by rfl
  refine ⟨reach_exec_meets (by decide +kernel) hx, bootStray_booted, by rfl, ?_⟩
  rintro ⟨rs, ws, hr, -, hperm⟩
  have hhead : adrift.sys.mem.head adrift.sys.threadReady = 8272 := by rfl
  have hmem : 8272 ∈ rs := hr.mem_of_head hhead (by decide +kernel)
  have hthread : 8272 ∈ adrift.sys.threads := hperm.mem_iff.1 (List.mem_cons_of_mem _ (List.mem_append_left _ hmem))
  exact absurd hthread (by decide +kernel)

/-! ### What `wait` does -/

/-- `t` is on `thread_wait` once and not on `thread_ready`; both lists are well formed. -/
def Sys.Asleep (s : Sys) (t : Nat) : Prop :=
  ∃ rs ws, IsList s.mem s.threadReady rs ∧ IsList s.mem s.threadWait ws ∧
    (∀ x ∈ rs ++ ws, x ∈ s.threads) ∧ ws.count t = 1 ∧ t ∉ rs

namespace Sys

theorem Objects.tail_notMem (h : s.Objects) {l : Nat} (hl : l = s.threadReady ∨ l = s.threadWait)
    (xs : List Nat) (hxs : ∀ x ∈ xs, x ∈ s.threads) : l + 4 ∉ xs := by
  intro hx
  have := h.base_thread (hxs _ hx)
  simp only [threadReady, threadWait] at hl
  omega

theorem Objects.ready_unique (h : s.Objects) {xs : List Nat} (hr : IsList s.mem s.threadReady rs)
    (hrs : ∀ x ∈ rs, x ∈ s.threads) (hx : IsList s.mem s.threadReady xs)
    (hxs : ∀ x ∈ xs, x ∈ s.threads) : rs = xs :=
  hr.unique hx (h.tail_notMem (.inl rfl) rs hrs) (h.tail_notMem (.inl rfl) xs hxs)

theorem Objects.wait_unique (h : s.Objects) {xs : List Nat} (hw : IsList s.mem s.threadWait ws)
    (hws : ∀ x ∈ ws, x ∈ s.threads) (hx : IsList s.mem s.threadWait xs)
    (hxs : ∀ x ∈ xs, x ∈ s.threads) : ws = xs :=
  hw.unique hx (h.tail_notMem (.inr rfl) ws hws) (h.tail_notMem (.inr rfl) xs hxs)

theorem Queues.asleep_iff (h : s.Queues rs ws) : s.Asleep t ↔ t ∈ ws ∧ t ∉ rs := by
  constructor
  · rintro ⟨rs', ws', hr, hw, hx, hone, hoff⟩
    have hrx : ∀ x ∈ rs', x ∈ s.threads := fun x h => hx x (List.mem_append_left _ h)
    have hwx : ∀ x ∈ ws', x ∈ s.threads := fun x h => hx x (List.mem_append_right _ h)
    obtain rfl := h.objects.ready_unique h.isList_ready h.mem_ready hr hrx
    obtain rfl := h.objects.wait_unique h.isList_wait h.mem_wait hw hwx
    exact ⟨List.count_pos_iff.1 (by omega), hoff⟩
  · rintro ⟨hw, hr⟩
    refine ⟨rs, ws, h.isList_ready, h.isList_wait, ?_, List.count_eq_one_of_mem h.nodup_wait hw, hr⟩
    intro x hx
    exact (List.mem_append.1 hx).elim (h.mem_ready x) (h.mem_wait x)

theorem Objects.rep_ready (h : s.Objects) (hr : IsList s.mem s.threadReady rs)
    (hrs : ∀ x ∈ rs, x ∈ s.threads) :
    Rep h.all s.mem fun l => if l = s.threadReady then some rs else none where
  head l xs hl := .inl (Option.ite_none_right_eq_some.1 hl).1
  node l xs hl := by
    obtain ⟨-, hx⟩ := Option.ite_none_right_eq_some.1 hl
    exact Option.some.inj hx ▸ hrs
  isList l xs hl := by
    obtain ⟨rfl, hx⟩ := Option.ite_none_right_eq_some.1 hl
    exact Option.some.inj hx ▸ hr
  nodup l xs hl := by
    obtain ⟨-, hx⟩ := Option.ite_none_right_eq_some.1 hl
    exact Option.some.inj hx ▸ hr.linked.nodup (h.tail_notMem (.inl rfl) rs hrs)
  disj l l' xs xs' hl hl' hne := by
    obtain ⟨h1, -⟩ := Option.ite_none_right_eq_some.1 hl
    obtain ⟨h2, -⟩ := Option.ite_none_right_eq_some.1 hl'
    exact absurd (h1.trans h2.symm) hne

theorem Objects.enqueue_alone {m' : Mem} (h : s.Objects) (hr : IsList s.mem s.threadReady rs)
    (hrs : ∀ x ∈ rs, x ∈ s.threads) (ht : t ∈ s.threads) (htr : t ∉ rs)
    (he : enqueue fuel s.mem s.threadReady t = some m') :
    IsList m' s.threadReady (rs.orderedInsert s.mem.ByPri t) ∧
      ∀ x ∈ rs.orderedInsert s.mem.ByPri t, x ∈ s.threads := by
  have hfree : Seqs.Free (fun l => if l = s.threadReady then some rs else none) t := by
    intro l xs hl
    obtain ⟨-, hx⟩ := Option.ite_none_right_eq_some.1 hl
    exact Option.some.inj hx ▸ htr
  obtain ⟨hrep', -⟩ := (h.rep_ready hr hrs).enqueue (if_pos rfl) ht hfree he
  exact ⟨hrep'.isList s.threadReady _ (Function.update_self ..),
    hrep'.node s.threadReady _ (Function.update_self ..)⟩

theorem not_asleep_of_head (h : s.mem.head s.threadReady = t) (hne : t ≠ s.threadReady + 4) : ¬ s.Asleep t := by
  rintro ⟨rs, ws, hr, -, -, -, hoff⟩
  exact hoff (hr.mem_of_head h hne)

/-- `schedule` puts the running thread on `thread_ready` wherever else it is. -/
theorem Queues.requeue_ready (h : s.Queues rs ws) (ht : s.runningThread ∈ s.threads)
    (hr : s.runningThread ∉ rs) (hs : s.requeue fuel = some s') : ¬ s'.Asleep s.runningThread := by
  obtain ⟨m', hm', rfl⟩ := requeue_cases hs
  obtain ⟨hi, hn⟩ := h.objects.enqueue_alone h.isList_ready h.mem_ready ht hr hm'
  rintro ⟨rs', ws', hr', -, hx, -, hoff⟩
  have hxr : ∀ x ∈ rs', x ∈ s.threads := fun x h => hx x (List.mem_append_left _ h)
  obtain rfl := IsList.unique hi hr' (h.objects.tail_notMem (.inl rfl) _ hn)
    (h.objects.tail_notMem (.inl rfl) _ hxr)
  exact hoff ((List.mem_orderedInsert _).2 (.inl rfl))

end Sys

theorem Settled.wait_isSome (h : Settled c rs ws) (hm : c.mode = .ring3) (flags : Word) :
    (c.sys.trap.idtHandler (rs.length + ws.length + 1) 0 flags).isSome := by
  have he := h.entry hm
  by_cases hu : c.sys.running.uid = 0
  · have hf : ws.length < rs.length + ws.length + 1 := by omega
    obtain ⟨s₁, h1⟩ := Option.isSome_iff_exists.1 (he.queues.waitForFlags_isSome flags hf)
    rw [idtHandler_wait (s := c.sys.trap) hu, h1]
    exact (he.waitForFlags h1).queues.reschedule_isSome (by omega)
  · rw [idtHandler_refused (s := c.sys.trap) hu]
    exact he.queues.reschedule_isSome (by omega)

theorem Settled.wait_refused {flags : Word} (hi : Inv c) (h : Settled c rs ws) (hm : c.mode = .ring3)
    (hu : c.sys.running.uid ≠ 0) (hh : c.sys.trap.idtHandler fuel 0 flags = some s) :
    ¬ s.Asleep c.sys.runningThread := by
  have hstray : ¬ c.sys.StrayCycle 0 := fun hx => absurd hx.2.1 (by decide)
  obtain ⟨rs', hp, -⟩ := h.syscall hi hm hstray (.inr hu) hh
  have hw : c.sys.runningThread ∉ ws := (h.entry hm).out_notMem.2
  rcases hp.placed with ⟨hp, -⟩ | ⟨hp, -⟩
  · exact fun hx => hw (hp.queues.asleep_iff.1 hx).1
  · exact fun hx => hw (hp.queues.asleep_iff.1 hx).1

theorem Settled.wait_preempted {flags : Word} (hi : Inv c) (h : Settled c rs ws) (hm : c.mode = .ring3)
    (hu : c.sys.running.uid = 0) (hsafe : ¬ c.sys.WaitSafe)
    (hh : c.sys.trap.idtHandler fuel 0 flags = some s) : ¬ s.Asleep c.sys.runningThread := by
  have he := h.entry hm
  rw [idtHandler_wait (s := c.sys.trap) hu] at hh
  obtain ⟨s₁, h1, h2⟩ := Option.bind_eq_some_iff.1 hh
  have hp := he.waitForFlags h1
  have hs₁ : ¬ s₁.WaitSafe := fun hx => hsafe ((he.waitSafe_wait h1).1 hx)
  have hkept := Sound.waitForFlags (s := c.sys.trap.enter) (hi.sound.trap.enter) hi.context.running h1
  have hr : s₁.runningThread = c.sys.runningThread := hkept.quiet.running
  have hk : s₁.kReenter ≤ 0 := BitVec.le_of_eq (hkept.quiet.kReenter.trans (hi.trap_kReenter hm))
  rw [reschedule_preempting fuel hs₁ hk] at h2
  have hq : { s₁ with sysFlags := s₁.sysFlags &&& ~~~needSchedule }.Queues rs _ :=
    hp.queues.same rfl rfl rfl rfl
  have hmem : s₁.runningThread ∈ s₁.threads := hkept.mem hi.context.running
  have hoff : s₁.runningThread ∉ rs := hr ▸ he.out_notMem.1
  rw [← hr]
  exact hq.requeue_ready hmem hoff h2

theorem Settled.wait_safe {flags : Word} (hi : Inv c) (h : Settled c rs ws) (hm : c.mode = .ring3)
    (hu : c.sys.running.uid = 0) (hsafe : c.sys.WaitSafe)
    (hh : c.sys.trap.idtHandler fuel 0 flags = some s) : s.Asleep c.sys.runningThread := by
  obtain ⟨hp, -⟩ := h.wait hi hm hu hsafe hh
  refine hp.queues.asleep_iff.2 ⟨?_, (h.entry hm).out_notMem.1⟩
  exact (List.mem_orderedInsert _).2 (.inl rfl)

/-- **Blocking within the entry.** As long as `wait` has been called in safe states only and handlers
only post, a call of `wait` returns, and it leaves the caller on `thread_wait` once and off
`thread_ready` exactly if the caller has uid 0 and `schedule` would not preempt it at the call. -/
theorem wait_final_iff (h : Reach step WaitOk c₀ c) (h₀ : Booted c₀) (hm : c.mode = .ring3) (flags : Word) :
    (∃ fuel, (c.sys.trap.idtHandler fuel 0 flags).isSome) ∧
      ∀ fuel s, c.sys.trap.idtHandler fuel 0 flags = some s →
        (s.Asleep c.sys.runningThread ↔ c.sys.running.uid = 0 ∧ c.sys.WaitSafe) := by
  have hi := reach_regular (h.mono fun _ _ => And.left) h₀
  obtain ⟨rs, ws, hst⟩ := reach_settled h h₀
  refine ⟨⟨_, hst.wait_isSome hm flags⟩, fun fuel s hh => ⟨fun hx => ?_, ?_⟩⟩
  · have hu : c.sys.running.uid = 0 := by
      by_contra hu
      exact hst.wait_refused hi hm hu hh hx
    refine ⟨hu, ?_⟩
    by_contra hsafe
    exact hst.wait_preempted hi hm hu hsafe hh hx
  · rintro ⟨hu, hsafe⟩
    exact hst.wait_safe hi hm hu hsafe hh

/-- Two threads and the kernel thread wait, and the processor idles until the time slice is over. -/
def oversleep : List (Nat × Event) :=
  [create 12288 5, create 12544 5, (8, .permit)] ++ List.replicate 11 tick ++
    [call 0 1, call 0 1, call 0 1] ++ List.replicate 11 tick

/-- One of the threads gets a message. -/
def rested : Config := (exec step bootZero (oversleep ++ [post 12288 14000, (8, .wake .none)])).getD bootZero

/-- Both of them get one. -/
def overslept : Config :=
  (exec step bootZero (oversleep ++ [post 12288 14000, post 12544 14200, (8, .wake .none)])).getD bootZero

/-- Behind the idle loop `NEED_SCHEDULE` and `TIME_SLICE_EXPIRED` are set. A thread that finds nobody ready blocks when
it waits, one that finds another thread of its priority ready does not. -/
theorem wait_final_iff_rested :
    (Has rested.sys.sysFlags needSchedule ∧ Has rested.sys.sysFlags timeSliceExpired ∧
      ∃ s, rested.sys.trap.idtHandler 8 0 1 = some s ∧ s.Asleep 12288) ∧
    ∃ s, overslept.sys.trap.idtHandler 8 0 1 = some s ∧ ¬ s.Asleep 12544 := by
  have hrun : Reach step WaitOk bootZero rested :=
    reach_exec_meets (by decide +kernel) (exec_getD bootZero (by decide +kernel))
  have hrun' : Reach step WaitOk bootZero overslept :=
    reach_exec_meets (by decide +kernel) (exec_getD bootZero (by decide +kernel))
  have hr : rested.sys.runningThread = 12288 := by decide +kernel
  have hr' : overslept.sys.runningThread = 12544 := by decide +kernel
  obtain ⟨-, h⟩ := wait_final_iff hrun bootZero_booted (by decide +kernel) 1
  obtain ⟨-, h'⟩ := wait_final_iff hrun' bootZero_booted (by decide +kernel) 1
  obtain ⟨s, hs⟩ := Option.isSome_iff_exists.1 (by decide +kernel : (rested.sys.trap.idtHandler 8 0 1).isSome)
  obtain ⟨s', hs'⟩ := Option.isSome_iff_exists.1 (by decide +kernel : (overslept.sys.trap.idtHandler 8 0 1).isSome)
  refine ⟨⟨by decide +kernel, by decide +kernel, s, hs, ?_⟩, s', hs', fun hx => ?_⟩
  · exact hr ▸ (h 8 s hs).2 ⟨by decide +kernel, by decide +kernel⟩
  · exact absurd ((h' 8 s' hs').1 (hr' ▸ hx)).2 (by decide +kernel)

/-- The thread woken first waits again and lands on both lists. -/
theorem wait_on_both_lists :
    Reach step (fun _ e => e.2.Posts) bootZero overslept ∧ Booted bootZero ∧ overslept.mode = .ring3 ∧
      overslept.sys.runningThread = 12544 ∧ overslept.sys.running.uid = 0 ∧
      ∃ s, overslept.sys.trap.idtHandler 8 0 1 = some s ∧ s.mem.head s.threadReady = 12544 ∧
        s.mem.head s.threadWait = 12544 ∧ ¬ s.Asleep 12544 := by
  refine ⟨?_, bootZero_booted, by decide +kernel, by decide +kernel, by decide +kernel, ?_⟩
  · have hx : (exec step bootZero (oversleep ++ [post 12288 14000, post 12544 14200, (8, .wake .none)])).isSome := by
      decide +kernel
    have hposts : ∀ e ∈ oversleep ++ [post 12288 14000, post 12544 14200, (8, .wake .none)], e.2.Posts := by
      decide +kernel
    exact reach_exec_forall hposts (exec_getD bootZero hx)
  · obtain ⟨s, hs⟩ := Option.isSome_iff_exists.1
      (by decide +kernel : (overslept.sys.trap.idtHandler 8 0 1).isSome)
    have hr : (overslept.sys.trap.idtHandler 8 0 1).map (fun s => s.mem.head s.threadReady) =
      some 12544 := by decide +kernel
    have hw : (overslept.sys.trap.idtHandler 8 0 1).map (fun s => s.mem.head s.threadWait) =
      some 12544 := by decide +kernel
    have hb : (overslept.sys.trap.idtHandler 8 0 1).map (fun s => s.threadReady) = some 4184 := by
      decide +kernel
    rw [hs] at hr hw hb
    have hr' : s.mem.head s.threadReady = 12544 := Option.some.inj hr
    have hb' : s.threadReady = 4184 := Option.some.inj hb
    exact ⟨s, hs, hr', Option.some.inj hw, not_asleep_of_head hr' (by rw [hb']; decide)⟩

end Krypton
