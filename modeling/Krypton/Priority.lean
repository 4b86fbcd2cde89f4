import Krypton.Forbid
import Krypton.Signals

/-!
# The highest priority runs

`switch_threads` takes the head of `thread_ready`, which is in order. So a switch gives the processor to a thread no
other is above (`highest_dispatched`), and so does every entry from ring 3; what `create_thread` and the end of a
`forbid` section do to the order is not seen before the next request (`preemptive`).
-/

namespace Krypton

open Sys

variable {c c' c₀ : Config} {s s' : Sys} {W : Nat → Word} {rs ws : List Nat} {fuel k : Nat} {e : Nat × Event}

/-! ### Runs in which the kernel thread spins -/

/-- All threads but the kernel thread may wait for messages. -/
def mesgMask (k t : Nat) : Word := if t = k then 0 else stMesg

theorem posts_covered {as : List Act} (hS : s.Sound) (hi : s.InHandler) (hp : ∀ a ∈ as, a.Posts) (fuel : Nat) :
    KicksCovered fuel (mesgMask s.kernelThread) s (as.map .act) := by
  induction as generalizing s with
  | nil => trivial
  | cons a as ih =>
    obtain ⟨hpa, hpas⟩ := List.forall_mem_cons.1 hp
    refine ⟨?_, fun s' hs' => ?_⟩
    · cases a with
      | post t p src bufSz =>
        intro ht _ hw
        unfold mesgMask
        rw [if_neg (hS.objects.created_ne ht)]
        exact ⟨hw, Placed.has_andNot_self _⟩
      | signal t flags => exact hpa.elim
      | print => trivial
    · have hkept := hS.act hi hs'
      have hk : s'.kernelThread = s.kernelThread := hkept.quiet.kernel
      rw [← hk]
      exact ih hkept.sound (hi.quiet hkept.quiet) hpas

theorem Config.handling_kernelThread (c : Config) : c.handling.kernelThread = c.sys.kernelThread := by
  unfold Config.handling
  split_ifs <;> rfl

theorem Spinning.signalsOk (h : Spinning c rs ws) (hi : Inv c) (hok : KernelSpins c e) (hs : step c e = some c') :
    SignalsOk (mesgMask c.sys.kernelThread) c (e.1, .inl e.2) := by
  have hreg := h.regular hok hs
  obtain ⟨fuel, ev⟩ := e
  cases ev with
  | irq d =>
    cases d with
    | timer => exact ⟨hreg, fun _ _ => h.waitSafe⟩
    | device as =>
      obtain ⟨hS, hh⟩ := hi.handling
      rw [← c.handling_kernelThread]
      exact posts_covered hS hh hok.2.1 fuel
  | forbid | permit | create | syscall | wake => exact ⟨hreg, fun _ _ => h.waitSafe⟩

/-- The step ends with the return of `switch_threads`. -/
def Dispatches (c c' : Config) : Prop :=
  c'.sys.log ≠ c.sys.log ∧ ∃ t launch esp cr3 l, c'.sys.log = .dispatch t launch esp cr3 :: l

theorem Outcome.of_dispatches {rs' : List Nat} (h : Outcome c c' rs rs') (hd : Dispatches c c') : c'.Top rs' := by
  obtain ⟨hne, t, launch, esp, cr3, l, hl⟩ := hd
  cases h with
  | top h => exact h
  | stayed _ _ hlog =>
    obtain ⟨es, h1, h2⟩ := hlog
    cases es with
    | nil => exact absurd h1 hne
    | cons x es =>
      have hx := h2 x (List.mem_cons_self ..)
      obtain rfl : x = .dispatch t launch esp cr3 := (List.cons.inj (h1.symm.trans hl)).1
      exact hx.elim

theorem enters_of_dispatches (hs : step c e = some c') (hd : Dispatches c c') : Enters (.inl e.2) := by
  obtain ⟨fuel, ev⟩ := e
  cases step_cases hs with
  | forbid | permit => exact absurd rfl hd.1
  | create hm hc =>
    obtain ⟨-, -, m', -, rfl⟩ := createThread_cases hc
    exact absurd rfl hd.1
  | syscall | irq | idleIrq | wake => trivial

structure SpinOrdered (c : Config) : Prop where
  inv : Inv c
  spinning : ∃ rs ws, Spinning c rs ws
  ordered : ∃ rs ws, Ordered (mesgMask c.sys.kernelThread) c rs ws

theorem SpinOrdered.step (h : SpinOrdered c) (hok : KernelSpins c e) (hs : step c e = some c') :
    SpinOrdered c' ∧ (Dispatches c c' → ∃ rs', IsList c'.sys.mem c'.sys.threadReady rs' ∧ c'.Top rs') := by
  obtain ⟨rs, ws, hsp⟩ := h.spinning
  obtain ⟨rs₁, ws₁, ho⟩ := h.ordered
  obtain ⟨hi', rs', ws', ho', hout⟩ := ho.step h.inv (hsp.signalsOk h.inv hok hs) hs
  refine ⟨⟨hi', spinning_step h.inv hsp hok hs, rs', ws', ?_⟩, fun hd => ⟨rs', ho'.lined.queues.isList_ready, ?_⟩⟩
  · rw [step_kernelThread h.inv.toConsistent hok.1 hs]
    exact ho'
  · exact (hout (enters_of_dispatches hs hd)).of_dispatches hd

theorem reach_spinOrdered (h : Reach step KernelSpins c₀ c) (h₀ : Booted c₀) : SpinOrdered c := by
  have hk : mesgMask c₀.sys.kernelThread c₀.sys.kernelThread &&& (c₀.sys.thread c₀.sys.kernelThread).sigWait = 0 := by
    unfold mesgMask
    rw [if_pos rfl]
    exact BitVec.zero_and
  exact h.inv (P := SpinOrdered) ⟨h₀.inv, ⟨[], [], h₀.spinning⟩, [], [], h₀.ordered hk⟩
    fun _ _ _ hP hok hs => (hP.step hok hs).1

/-- **The highest priority is dispatched.** As long as the kernel thread does not wait and handlers only post messages,
`thread_ready` is in non-increasing order of priorities between two entries and inside of every handler, and when
`switch_threads` returns, no thread left there is above the one it has taken. -/
theorem highest_dispatched (h : Reach step KernelSpins c₀ c) (h₀ : Booted c₀) :
    (∃ rs, IsList c.sys.mem c.sys.threadReady rs ∧ rs.Pairwise fun a b => c.sys.mem.pri b ≤ c.sys.mem.pri a) ∧
    (∀ fuel as s, (∀ a ∈ as, a.Posts) → c.handling.acts fuel as = some s →
      ∃ rs, IsList s.mem s.threadReady rs ∧ rs.Pairwise fun a b => s.mem.pri b ≤ s.mem.pri a) ∧
    ∀ e c', KernelSpins c e → step c e = some c' → Dispatches c c' →
      ∃ rs, IsList c'.sys.mem c'.sys.threadReady rs ∧ ∀ t ∈ rs, c'.sys.mem.pri t ≤ c'.sys.mem.pri c'.sys.runningThread := by
  have hso := reach_spinOrdered h h₀
  obtain ⟨rs, ws, ho⟩ := hso.ordered
  refine ⟨⟨rs, ho.lined.queues.isList_ready, ho.lined.sorted⟩, fun fuel as s hp hs => ?_, fun e c' hok hs hd => ?_⟩
  · obtain ⟨hS, hh⟩ := hso.inv.handling
    have hc := posts_covered hS hh hp fuel
    rw [c.handling_kernelThread] at hc
    rw [← kicks_act] at hs
    obtain ⟨-, -, rs', ws', h1, -⟩ := ho.handling.kicks hS hh hc hs
    exact ⟨rs', h1.queues.isList_ready, h1.sorted⟩
  · obtain ⟨hso', hd'⟩ := hso.step hok hs
    obtain ⟨rs', h1, h2⟩ := hd' hd
    obtain ⟨rs₁, ws₁, hsp⟩ := hso'.spinning
    exact ⟨rs', h1, h2 hsp.ring3⟩

/-- A thread of priority 15 waits, and a thread of priority 5 runs until a message is posted. -/
def outranked : Config := (exec step bootZero
  ([create 12288 15, create 12544 5, (8, .permit)] ++ List.replicate 11 tick ++ [call 0 1])).getD bootZero

def outranking : Config := (step outranked (post 12288 14000)).getD bootZero

theorem highest_dispatched_outranking : outranked.sys.runningThread = 12544 ∧ outranking.sys.runningThread = 12288 ∧
    ∃ rs, IsList outranking.sys.mem outranking.sys.threadReady rs ∧ outranking.Top rs := by
  have hsome : (exec step bootZero ([create 12288 15, create 12544 5, (8, .permit)] ++ List.replicate 11 tick ++
      [call 0 1])).isSome := by decide +kernel
  have hmeets : Meets step KernelSpins bootZero ([create 12288 15, create 12544 5, (8, .permit)] ++
      List.replicate 11 tick ++ [call 0 1]) := by decide +kernel
  have hstep : (step outranked (post 12288 14000)).isSome := by decide +kernel
  obtain ⟨c', hc'⟩ := Option.isSome_iff_exists.1 hstep
  have hnext : outranking = c' := by
    unfold outranking
    rw [hc']
    rfl
  have hdispatch : Dispatches outranked outranking := by
    refine ⟨fun he => ?_, 12288, false, outranking.sys.esp, outranking.sys.cr3, outranking.sys.log.tail, by rfl⟩
    exact absurd (congrArg List.length he) (by decide +kernel)
  obtain ⟨-, -, h⟩ := highest_dispatched (reach_exec_meets hmeets (exec_getD bootZero hsome)) bootZero_booted
  obtain ⟨rs, h1, h2⟩ := h _ outranking (by decide +kernel) (hnext ▸ hc') hdispatch
  exact ⟨by decide +kernel, by decide +kernel, rs, h1, fun _ => h2⟩

/-! ### Preemption in ring 3 -/

/-- The first ready thread is above the running one. -/
def Config.HeadAbove (c : Config) : Prop :=
  getHead c.sys.mem c.sys.threadReady ≠ 0 ∧
    c.sys.mem.pri c.sys.runningThread < c.sys.mem.pri (getHead c.sys.mem c.sys.threadReady)

instance (c : Config) : Decidable c.HeadAbove := inferInstanceAs (Decidable (_ ∧ _))

/-- Calls in ring 3 that ask for no switch and need none: where switching is allowed, `create_thread` makes no thread
above the caller, and a section ends only if no ready thread is above the running one. -/
def OwnOk (c : Config) : Event ⊕ List Kick → Prop
  | .inl .forbid => c.sys.forbid.forbidCounter.toInt ≤ 0 → ¬ c.HeadAbove
  | .inl .permit => c.sys.permit.forbidCounter.toInt ≤ 0 → ¬ c.HeadAbove
  | .inl (.create _ _ a) => c.sys.forbidCounter.toInt ≤ 0 → a.priority.toInt ≤ c.sys.mem.pri c.sys.runningThread
  | _ => True

instance (c : Config) : DecidablePred (OwnOk c)
  | .inl .forbid | .inl .permit | .inl (.create ..) => inferInstanceAs (Decidable (_ → _))
  | .inl (.syscall ..) | .inl (.irq _) | .inl (.wake _) | .inr _ => inferInstanceAs (Decidable True)

/-- Every flag, but none of the kernel thread if it had a `sig_wait` from the start. -/
def signalMask (c₀ : Config) (t : Nat) : Word :=
  if t = c₀.sys.kernelThread ∧ (c₀.sys.thread t).sigWait ≠ 0 then 0 else BitVec.allOnes 32

def PreemptOk (c₀ c : Config) (e : Nat × (Event ⊕ List Kick)) : Prop := SignalsOk (signalMask c₀) c e ∧ OwnOk c e.2

instance (c₀ c : Config) (e : Nat × (Event ⊕ List Kick)) : Decidable (PreemptOk c₀ c e) :=
  inferInstanceAs (Decidable (_ ∧ _))

theorem Ordered.top_of_not_headAbove (h : Ordered W c rs ws) (hm : c.mode = .ring3) (hn : ¬ c.HeadAbove) :
    c.Top rs := by
  refine fun _ => (h.ring3 hm).top_of_head fun x xs hxs => ?_
  have hq := (h.ring3 hm).queues
  have hhead : getHead c.sys.mem c.sys.threadReady = x := by
    rw [hq.getHead, hxs]
    rfl
  have hx0 : x ≠ 0 := hq.ne_zero (hq.mem_ready x (by rw [hxs]; exact List.mem_cons_self ..))
  by_contra hlt
  refine hn ⟨?_, ?_⟩
  · rw [hhead]
    exact hx0
  · rw [hhead]
    exact not_le.1 hlt

/-- While switching is allowed no ready thread is above the running one. -/
structure TopOrdered (W : Nat → Word) (c : Config) (rs ws : List Nat) : Prop where
  ordered : Ordered W c rs ws
  top : c.sys.forbidCounter.toInt ≤ 0 → c.Top rs

theorem TopOrdered.own {ev : Event} (hi : Inv c) (h : TopOrdered W c rs ws) (hown : OwnOk c (.inl ev))
    (hne : ¬ Enters (.inl ev)) (hs : step c (fuel, ev) = some c') : ∃ rs' ws', TopOrdered W c' rs' ws' := by
  cases step_cases hs with
  | syscall | irq | idleIrq | wake => exact absurd trivial hne
  | forbid hm | permit hm =>
    have hl := h.ordered.ring3 hm
    refine ⟨rs, ws, .of_ring3 (hl.same rfl rfl rfl rfl rfl fun _ => rfl) h.ordered.calm, fun hf _ => ?_⟩
    exact h.ordered.top_of_not_headAbove hm (hown hf) hm
  | @create p q a s hm hc =>
    obtain ⟨rs', hl, hmem, hpri, hnew⟩ := (h.ordered.ring3 hm).create hi.sound hc
    obtain ⟨-, -, m', -, rfl⟩ := createThread_cases hc
    refine ⟨rs', ws, .of_ring3 hl h.ordered.calm, fun hf _ t ht => ?_⟩
    show m'.pri t ≤ m'.pri c.sys.runningThread
    rw [hpri _ hi.context.running]
    rcases hmem t ht with rfl | ht
    · rw [hnew]
      exact hown hf
    · rw [hpri t ((h.ordered.ring3 hm).queues.mem_ready t ht)]
      exact h.top hf hm t ht

theorem TopOrdered.step {e : Nat × (Event ⊕ List Kick)} (hi : Inv c) (h : TopOrdered W c rs ws)
    (hok : SignalsOk W c e) (hown : OwnOk c e.2) (hs : kickStep c e = some c') :
    Inv c' ∧ ∃ rs' ws', TopOrdered W c' rs' ws' := by
  obtain ⟨hi', rs', ws', ho, hout⟩ := h.ordered.step hi hok hs
  refine ⟨hi', ?_⟩
  by_cases hent : Enters e.2
  · refine ⟨rs', ws', ho, fun hf => ?_⟩
    cases hout hent with
    | top ht => exact ht
    | stayed hm hrun _ hforbid hpri hready =>
      rw [hforbid] at hf
      rcases hready hf with rfl | ht
      · intro _ t ht
        have hq := (h.ordered.ring3 hm).queues
        rw [hrun, hpri t (hq.mem_ready t ht), hpri _ hi.context.running]
        exact h.top hf hm t ht
      · exact ht
  · obtain ⟨fuel, ev | ks⟩ := e
    · exact h.own hi hown hent hs
    · exact absurd trivial hent

/-- **Preemption.** As long as signals and waits are as they should be, `create_thread` makes no thread above its caller
where switching is allowed, and no `forbid` section ends with a ready thread above the running one, no such thread is
ready whenever control is in ring 3 with `forbid_counter` 0. -/
theorem preemptive (h : Reach kickStep (PreemptOk c₀) c₀ c) (h₀ : Booted c₀) (hm : c.mode = .ring3)
    (hf : c.sys.forbidCounter = 0) :
    ∃ rs, IsList c.sys.mem c.sys.threadReady rs ∧ ∀ t ∈ rs, c.sys.mem.pri t ≤ c.sys.mem.pri c.sys.runningThread := by
  obtain ⟨-, rs, ws, ht⟩ : Inv c ∧ ∃ rs ws, TopOrdered (signalMask c₀) c rs ws := by
    refine h.inv (P := fun c => Inv c ∧ ∃ rs ws, TopOrdered (signalMask c₀) c rs ws) ⟨h₀.inv, [], [], ?_, ?_⟩ ?_
    · refine h₀.ordered ?_
      unfold signalMask
      by_cases hw : (c₀.sys.thread c₀.sys.kernelThread).sigWait = 0
      · rw [hw]
        exact BitVec.and_zero
      · rw [if_pos ⟨rfl, hw⟩]
        exact BitVec.zero_and
    · exact fun _ _ t ht => absurd ht List.not_mem_nil
    · rintro c e c' ⟨hi, rs, ws, ht⟩ hok hs
      exact ht.step hi hok.1 hok.2 hs
  refine ⟨rs, (ht.ordered.ring3 hm).queues.isList_ready, ht.top ?_ hm⟩
  rw [hf]
  decide

/-- A thread above the kernel thread runs while that one waits, waits itself when it is back, and is sent a message. -/
def preempting : List (Nat × (Event ⊕ List Kick)) :=
  [create 12288 15, call 0 1].map (fun e => (e.1, .inl e.2)) ++ [(8, .inr [.kernel 1])] ++
    [(8, .permit), call 0 1, post 12288 14000].map (fun e => (e.1, .inl e.2))

theorem preemptive_preempting : ∃ c, exec kickStep bootZero preempting = some c ∧ c.sys.runningThread = 12288 ∧
    ∃ rs, IsList c.sys.mem c.sys.threadReady rs ∧ 8192 ∈ rs ∧ c.Top rs := by
  have hsome : (exec kickStep bootZero preempting).isSome := by decide +kernel
  have hmeets : Meets kickStep (PreemptOk bootZero) bootZero preempting := by decide +kernel
  obtain ⟨c, hc⟩ := Option.isSome_iff_exists.1 hsome
  have hrun : (exec kickStep bootZero preempting).map (fun c => decide (c.mode = .ring3 ∧ c.sys.forbidCounter = 0 ∧
      c.sys.runningThread = 12288 ∧ c.sys.mem.head c.sys.threadReady = 8192 ∧ 8192 ≠ c.sys.threadReady + 4)) =
        some true := by
    decide +kernel
  rw [hc] at hrun
  obtain ⟨hm, hf, hr, hhead, hne⟩ := of_decide_eq_true (Option.some.inj hrun)
  obtain ⟨rs, h1, h2⟩ := preemptive (reach_exec_meets hmeets hc) bootZero_booted hm hf
  exact ⟨c, hc, hr, rs, h1, h1.mem_of_head hhead hne, fun _ => h2⟩

/-- Two threads and the kernel thread wait, and the lower thread gets a message; behind the idle loop the higher one
gets one too. -/
def lateWake : List (Nat × Event) :=
  [create 12288 15, create 12544 5, (8, .permit)] ++ List.replicate 11 tick ++
    [call 0 1, call 0 1, call 0 1, post 12544 14000, wakeWith [.device [.post 12288 14200 (fun _ => 65) 4]]]

-- without `Undisturbed` a higher thread may be ready in ring 3
example : (exec step bootZero lateWake).map (fun c => decide (c.mode = .ring3 ∧ c.sys.forbidCounter = 0 ∧
    c.sys.runningThread = 12544 ∧ c.HeadAbove)) = some true := by
  decide +kernel

/-- After the `permit` of `init` the thread it has made is ready above the kernel thread, which goes on. -/
theorem permit_outranked : Reach kickStep (fun _ _ => True) bootZero sectionStart ∧ Booted bootZero ∧
    sectionStart.mode = .ring3 ∧ sectionStart.sys.forbidCounter = 0 ∧
    ¬ ∃ rs, IsList sectionStart.sys.mem sectionStart.sys.threadReady rs ∧
      ∀ t ∈ rs, sectionStart.sys.mem.pri t ≤ sectionStart.sys.mem.pri sectionStart.sys.runningThread := by
  have hstart : exec kickStep bootZero ([create 12288 15, (8, .permit)].map fun e => (e.1, .inl e.2)) =
      some sectionStart := by
    rfl
  refine ⟨reach_exec hstart, bootZero_booted, by decide +kernel, by decide +kernel, ?_⟩
  rintro ⟨rs, h1, h2⟩
  have hmem : 12288 ∈ rs := h1.mem_of_head (by decide +kernel) (by decide +kernel)
  exact absurd (h2 12288 hmem) (by decide +kernel)

end Krypton
