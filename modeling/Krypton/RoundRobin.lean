import Krypton.Blocking
import Mathlib.Data.List.TakeWhile

/-!
# Threads of equal priority

`enqueue` puts a thread in front of the first node that is not above it, so in front of its equals. A thread
whose time slice is over goes to the head of `thread_ready` and is dispatched again, however long its
equals have been ready (`preempted_redispatched`).
-/

namespace Krypton

open Sys

variable {c c' c₀ : Config} {s s' : Sys} {m : Mem} {rs : List Nat} {l n x fuel : Nat}

namespace Sys

/-- The timer's handler ends the time slice of the running thread. -/
def SliceOver (s : Sys) : Prop :=
  Has s.timerCallback.sysFlags needSchedule ∧ Has s.timerCallback.sysFlags timeSliceExpired

instance (s : Sys) : Decidable s.SliceOver := inferInstanceAs (Decidable (_ ∧ _))

/-- A node put in front of the first node is the first node, even if it was on the list. -/
theorem Objects.getHead_insertBefore (h : s.Objects) (hn : n ∈ s.threads) (hx : x ∈ s.threads)
    (hpv : m.prev x = s.threadReady) : getHead (insertBefore m x n) s.threadReady = n := by
  have h1 := h.base_thread hn
  have h2 := h.base_thread hx
  have h3 : n = x ∨ n + 113 ≤ x ∨ x + 113 ≤ n := by
    by_cases he : n = x
    · exact .inl he
    · exact .inr (h.thread_thread hn hx he)
  have hn0 := h.ne_zero _ (h.thread n hn)
  have hx0 := h.ne_zero _ (h.thread x hx)
  have e1 : x + 4 ≠ n := by omega
  have e2 : s.threadReady ≠ x + 4 := by unfold threadReady; omega
  have e3 : s.threadReady ≠ 0 := by unfold threadReady; omega
  have e4 : n ≠ s.threadReady := by unfold threadReady; omega
  have e5 : n ≠ n + 4 := by omega
  have hpv' : m (x + 4) = s.threadReady := hpv
  have hhead : (insertBefore m x n).head s.threadReady = n := by
    simp only [insertBefore, Mem.head, Mem.setNext, Mem.setPrev, Mem.prev, Mem.set_apply, e1, e2, hpv',
      if_false, ite_self, if_true]
  have hnext : (insertBefore m x n).next n = x := by
    simp only [insertBefore, Mem.next, Mem.setNext, Mem.setPrev, Mem.prev, Mem.set_apply, e1, e1.symm, e4,
      e5, hpv', if_false, ite_self, if_true]
  unfold getHead
  rw [hhead, hnext, if_pos ⟨e3, hx0⟩]

/-- `schedule` puts the running thread in front of the ready threads if it preempts it for one of them
that is not above it. -/
theorem requeue_first (hx : getHead s.mem s.threadReady = x) (hx0 : x ≠ 0)
    (hp : s.mem.pri x ≤ s.mem.pri s.runningThread) : s.requeue (fuel + 1) = some { s with
      mem := insertBefore s.mem x s.runningThread
      sysFlags := s.sysFlags ||| needTaskSwitch } := by
  have he : enqueue (fuel + 1) s.mem s.threadReady s.runningThread =
      some (insertBefore s.mem x s.runningThread) := by
    unfold enqueue enqueueLoop
    rw [hx, if_neg hx0, if_pos hp]
  unfold requeue enqueueThread
  show Option.bind (Option.map _ (enqueue (fuel + 1) s.mem s.threadReady s.runningThread)) _ = _
  rw [he]
  rfl

theorem dispatch_of_head (hk : s.kReenter = 0) (hn : Has s.sysFlags needTaskSwitch)
    (hx : getHead s.mem s.threadReady = x) (hx0 : x ≠ 0) :
    (s.dispatch .ring3).mode = .ring3 ∧ (s.dispatch .ring3).sys.runningThread = x := by
  have hhead : getHead s.switchOut.mem s.switchOut.threadReady = x := by
    unfold switchOut saveContext
    split_ifs
    · exact hx
    · exact hx
  have hi : s.switchOut.idleLoop = ⟨s.switchOut.switchIn x, .ring3⟩ := idleLoop_of_head hhead hx0
  rw [dispatch_switches hk hn]
  refine ⟨congrArg Config.mode hi, (congrArg (fun c => c.sys.runningThread) hi).trans ?_⟩
  show (s.switchOut.switchIn x).runningThread = x
  rw [switchIn_eq]

end Sys

/-- The tick's entry up to the dispatcher: the running thread is the head of `thread_ready`. -/
theorem Consistent.irq_sliceOver (hi : Consistent c) (hm : c.mode = .ring3) (hforbid : c.sys.forbidCounter = 0)
    (hx : getHead c.sys.mem c.sys.threadReady = x) (hxt : x ∈ c.sys.threads)
    (hpv : c.sys.mem.prev x = c.sys.threadReady) (hp : c.sys.mem.pri x ≤ c.sys.mem.pri c.sys.runningThread)
    (hover : c.sys.trap.enter.SliceOver) : c.sys.trap.irqHandler 0 .timer = none ∧
      ∃ s, (∀ k, c.sys.trap.irqHandler (k + 1) .timer = some s) ∧ Has s.sysFlags needTaskSwitch ∧
        getHead s.mem s.threadReady = c.sys.runningThread := by
  have hobj := hi.sound.objects
  have hrun := hi.running
  have hx0 : x ≠ 0 := hobj.ne_zero _ (hobj.thread x hxt)
  obtain ⟨tick, count, flags, he⟩ := timerCallback_eq c.sys.trap.enter
  unfold SliceOver at hover
  rw [he] at hover
  set s₁ : Sys := { c.sys.trap.enter with systemTick := tick, tsCurrCount := count, sysFlags := flags }
  have hsafe : ¬ s₁.WaitSafe := by
    refine not_not.2 ⟨hover.1, ?_, ?_, hobj.ne_zero _ (hobj.thread _ hrun), .inr hover.2⟩
    · show ¬ c.sys.forbidCounter.toInt > 0
      rw [hforbid]; decide
    · show getHead c.sys.mem c.sys.threadReady ≠ 0
      rw [hx]; exact hx0
  have hk : s₁.kReenter ≤ 0 := BitVec.le_of_eq (hi.trap_kReenter hm)
  have hirq : ∀ fuel, c.sys.trap.irqHandler fuel .timer =
      { s₁ with sysFlags := s₁.sysFlags &&& ~~~needSchedule }.requeue fuel := by
    intro fuel
    rw [← reschedule_preempting fuel hsafe hk, ← he]
    rfl
  refine ⟨hirq 0, _, fun k => (hirq (k + 1)).trans (requeue_first hx hx0 hp), has_or_set (by decide), ?_⟩
  exact hobj.getHead_insertBefore hrun hxt hpv

/-- **No round robin.** When a tick ends the time slice of the running thread while threads of its priority
and none above are ready, the running thread itself is dispatched again; and a thread that becomes ready is
put in front of all ready threads of its priority. -/
theorem preempted_redispatched (h : Reach step NoStrayCycle c₀ c) (h₀ : Booted c₀)
    (hm : c.mode = .ring3) (hforbid : c.sys.forbidCounter = 0)
    (hr : IsList c.sys.mem c.sys.threadReady rs) (hrs : ∀ t ∈ rs, t ∈ c.sys.threads)
    (heq : ∃ t ∈ rs, c.sys.mem.pri t = c.sys.mem.pri c.sys.runningThread)
    (hle : ∀ t ∈ rs, c.sys.mem.pri t ≤ c.sys.mem.pri c.sys.runningThread)
    (hover : c.sys.trap.enter.SliceOver) :
    (∃ fuel, (step c (fuel, .irq .timer)).isSome) ∧
      (∀ fuel c', step c (fuel, .irq .timer) = some c' →
        c'.mode = .ring3 ∧ c'.sys.runningThread = c.sys.runningThread) ∧
      ∀ fuel t m', t ∈ c.sys.threads → t ∉ rs → enqueue fuel c.sys.mem c.sys.threadReady t = some m' →
        ∃ xs ys, rs = xs ++ ys ∧ IsList m' c.sys.threadReady (xs ++ t :: ys) ∧
          ∀ x ∈ xs, c.sys.mem.pri t < c.sys.mem.pri x := by
  have hi := reach_consistent h h₀
  have hobj := hi.sound.objects
  have hrun := hi.running
  obtain ⟨x, ys, rfl⟩ : ∃ x ys, rs = x :: ys := by
    obtain ⟨t, ht, -⟩ := heq
    exact List.exists_cons_of_ne_nil (List.ne_nil_of_mem ht)
  have hx : x ∈ c.sys.threads := hrs x (List.mem_cons_self ..)
  obtain ⟨⟨h1, h2⟩, -⟩ := List.isChain_cons_cons.1 hr.linked
  have hhead : getHead c.sys.mem c.sys.threadReady = x :=
    (hobj.rep_ready hr hrs).getHead_eq (if_pos rfl)
  obtain ⟨h0, s, hs, hn, hnext⟩ := hi.irq_sliceOver hm hforbid hhead hx h2 (hle x (List.mem_cons_self ..)) hover
  have hstep : ∀ k, step c (k + 1, .irq .timer) = some (s.dispatch .ring3) := by
    intro k
    unfold step
    dsimp only
    rw [hm]
    show Option.map _ (c.sys.trap.irqHandler (k + 1) .timer) = _
    rw [hs k]
    rfl
  refine ⟨⟨1, by rw [hstep 0]; rfl⟩, fun fuel c' hc' => ?_, fun fuel t m' ht htr he => ?_⟩
  · have hc : c' = s.dispatch .ring3 := by
      cases fuel with
      | zero =>
        unfold step at hc'
        dsimp only at hc'
        rw [hm] at hc'
        obtain ⟨s', hs', -⟩ := Option.map_eq_some_iff.1 hc'
        rw [h0] at hs'
        cases hs'
      | succ k => exact Option.some.inj (hc'.symm.trans (hstep k))
    have hk := (hi.irqKept hm (hs 0)).quiet.kReenter.trans (hi.trap_kReenter hm)
    rw [hc]
    exact dispatch_of_head hk hn hnext (hobj.ne_zero _ (hobj.thread _ hrun))
  · obtain ⟨h3, -⟩ := hobj.enqueue_alone hr hrs ht htr he
    refine ⟨_, _, (List.takeWhile_append_dropWhile (p := fun b => ¬ c.sys.mem.ByPri t b)).symm, ?_, ?_⟩
    · rwa [List.orderedInsert_eq_take_drop] at h3
    · intro y hy
      have := List.mem_takeWhile_imp hy
      simpa [Mem.ByPri] using this

/-- Two threads of priority 5 are made; the second one is dispatched and uses up its time slice. -/
def turns : List (Nat × Event) :=
  [create 12288 5, create 12544 5, (8, .permit)] ++ List.replicate 21 tick

def lastTick : Config := (exec step bootZero turns).getD bootZero

theorem lastTick_reached : Reach step NoStrayCycle bootZero lastTick := by
  have hx : (exec step bootZero turns).isSome := by decide +kernel
  exact reach_exec_meets (by decide +kernel) (exec_getD bootZero hx)

theorem lastTick_isList : IsList lastTick.sys.mem lastTick.sys.threadReady [12288, 8192] := by
  refine ⟨?_, by decide +kernel⟩
  unfold Linked
  decide +kernel

theorem preempted_redispatched_lastTick :
    ∃ c', step lastTick tick = some c' ∧ c'.mode = .ring3 ∧ c'.sys.runningThread = 12544 := by
  have hrun : lastTick.sys.runningThread = 12544 := by decide +kernel
  have hsome : (step lastTick tick).isSome := by decide +kernel
  obtain ⟨c', hs⟩ := Option.isSome_iff_exists.1 hsome
  obtain ⟨-, h, -⟩ := preempted_redispatched lastTick_reached bootZero_booted (by decide +kernel)
    (by decide +kernel) lastTick_isList (by decide +kernel) (by decide +kernel) (by decide +kernel)
    (by decide +kernel)
  obtain ⟨hm, hr⟩ := h _ c' hs
  exact ⟨c', hs, hm, hr.trans hrun⟩

/-- The thread made first has been ready longest and is not dispatched. -/
theorem no_round_robin :
    Reach step NoStrayCycle bootZero lastTick ∧ Booted bootZero ∧ lastTick.mode = .ring3 ∧
      lastTick.sys.forbidCounter = 0 ∧ lastTick.sys.trap.enter.SliceOver ∧
      IsList lastTick.sys.mem lastTick.sys.threadReady [12288, 8192] ∧
      lastTick.sys.mem.pri 12288 = lastTick.sys.mem.pri 12544 ∧
      lastTick.sys.mem.pri 8192 < lastTick.sys.mem.pri 12544 ∧
      ¬ Dispatched 12288 lastTick.sys.log ∧ lastTick.sys.runningThread = 12544 ∧
      (step lastTick tick).map (fun c => c.sys.runningThread) = some 12544 := by
  exact ⟨lastTick_reached, bootZero_booted, by decide +kernel, by decide +kernel, by decide +kernel,
    lastTick_isList, by decide +kernel, by decide +kernel, by decide +kernel, by decide +kernel,
    by decide +kernel⟩

end Krypton
