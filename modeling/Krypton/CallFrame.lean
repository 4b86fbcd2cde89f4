import Krypton.Launch
import Krypton.Leaving

/-!
# The frame of a thread's first call

`create_thread` pushes `at_exit`, then `args`, and hands the stack to the thread as it is: the launch path's `iret`
enters `fn` with `args` at `[esp]`, where the C calling convention has the return address, and `at_exit` at `[esp + 4]`,
where it has the argument. Ring-3 code is not modelled: it is taken to leave the two words alone, and the kernel's own
stores to user memory are `written`.
-/

namespace Krypton

/-- What `iret` pops. -/
structure UserRegs where
  eip : Word
  cs : Word
  eflags : Word
  esp : Word
  ss : Word
deriving DecidableEq

def iret : List Word → Option UserRegs
  | [eip, cs, eflags, esp, ss] => some ⟨eip, cs, eflags, esp, ss⟩
  | _ => none

/-- The registers the running thread is launched with: the frame is popped from its last word on. -/
def Sys.launchRegs (s : Sys) (esp eflags : Word) : Option UserRegs :=
  iret ((launchFrame s.running esp eflags).reverse.map Prod.snd)

/-- A call of `fn` in ring 3, by the i386 C calling convention. -/
structure Sys.Calls (s : Sys) (r : UserRegs) (fn args atExit : Word) : Prop where
  ring : r.cs &&& 3 = 3
  entry : r.eip = fn
  ret : s.user r.esp = atExit
  arg : s.user (r.esp + 4) = args

/-- The words of user memory the kernel stores to. -/
def written (c : Config) : Event → List Word
  | .create _ _ a => [a.userStack - 4, a.userStack - 8]
  | .syscall eax ebx => if eax = 2 ∧ c.sys.running.uid = 0 then [ebx] else []
  | _ => []

/-- The two words below `top` stay as they are. -/
def SparesFrame (top : Word) (c : Config) (e : Nat × Event) : Prop :=
  KeepsContexts c e ∧ top - 4 ∉ written c e.2 ∧ top - 8 ∉ written c e.2

namespace Sys
variable {s s' : Sys} {fuel t p : Nat} {eax ebx flags : Word}

/-! ### User memory -/

theorem waitForFlags_user (h : s.waitForFlags fuel flags = some s') : s'.user = s.user := by
  obtain ⟨m', -, rfl⟩ := waitForFlags_cases h
  rfl

theorem requeue_user (h : s.requeue fuel = some s') : s'.user = s.user := by
  obtain ⟨m', -, rfl⟩ := requeue_cases h
  rfl

theorem signal_user (h : s.signal fuel t flags = some s') : s'.user = s.user := by
  rcases signal_cases h with ⟨-, rfl⟩ | ⟨-, m', -, rfl⟩ <;> rfl

theorem msgPost_user {src : Buf} {bufSz : BitVec 16} (h : s.msgPost fuel t p src bufSz = some s') :
    s'.user = s.user := by
  rcases msgPost_cases h with ⟨-, rfl⟩ | ⟨-, s₁, h1, h2⟩
  · rfl
  · obtain ⟨-, -, rfl⟩ := kmalloc_cases h1
    exact (signal_user h2).trans rfl

theorem msgCycle_user (s : Sys) : s.msgCycle.user = s.user := by
  unfold msgCycle
  dsimp only
  split_ifs <;> rfl

theorem syscall_user {x : Word} (hx : ¬ (eax = 2 ∧ s.running.uid = 0 ∧ ebx = x)) (h : s.syscall fuel eax ebx = some s') :
    s'.user x = s.user x := by
  unfold Sys.syscall at h
  split_ifs at h with h0 h1 h2 h3
  · exact Option.some.inj h ▸ rfl
  · rw [waitForFlags_user h]
  · exact Option.some.inj h ▸ rfl
  · obtain rfl := Option.some.inj h
    exact if_neg fun he => hx ⟨h3, not_not.1 h0, he.symm⟩
  · obtain rfl := Option.some.inj h
    rw [msgCycle_user]
  · exact Option.some.inj h ▸ rfl

theorem schedule_user (h : s.schedule fuel = some s') : s'.user = s.user := by
  unfold Sys.schedule at h
  split_ifs at h
  · exact Option.some.inj h ▸ rfl
  · exact requeue_user h
  · exact requeue_user h
  · exact Option.some.inj h ▸ rfl

theorem reschedule_user (h : s.reschedule fuel = some s') : s'.user = s.user := by
  unfold Sys.reschedule at h
  split_ifs at h
  · exact (schedule_user h).trans rfl
  · exact Option.some.inj h ▸ rfl

theorem idtHandler_user {x : Word} (hx : ¬ (eax = 2 ∧ s.running.uid = 0 ∧ ebx = x))
    (h : s.idtHandler fuel eax ebx = some s') : s'.user x = s.user x := by
  obtain ⟨s₁, h1, h2⟩ := Option.bind_eq_some_iff.1 h
  rw [reschedule_user h2]
  exact syscall_user (s := s.enter) hx h1

theorem act_user {a : Act} (h : s.act fuel a = some s') : s'.user = s.user := by
  cases a with
  | post t p src bufSz => exact msgPost_user (Option.ite_none_right_eq_some.1 h).2
  | signal t flags => exact signal_user (Option.ite_none_right_eq_some.1 h).2
  | print =>
    obtain ⟨s₁, h1, h2⟩ := Option.bind_eq_some_iff.1 h
    obtain ⟨-, he⟩ := Option.ite_none_right_eq_some.1 h2
    rw [← Option.some.inj he, (Exits.dispatch s₁ .kernel).user]
    exact funext fun x => idtHandler_user (fun hx => absurd hx.1 (by decide)) h1

theorem acts_user {as : List Act} (h : s.acts fuel as = some s') : s'.user = s.user := by
  induction as generalizing s with
  | nil => exact Option.some.inj h ▸ rfl
  | cons a as ih =>
    obtain ⟨s₁, h1, h2⟩ := Option.bind_eq_some_iff.1 h
    exact (ih h2).trans (act_user h1)

theorem irqHandler_user {d : Handler} (h : s.irqHandler fuel d = some s') : s'.user = s.user := by
  obtain ⟨s₁, h1, h2⟩ := Option.bind_eq_some_iff.1 h
  rw [reschedule_user h2]
  cases d with
  | timer =>
    obtain ⟨tick, count, flags, he⟩ := timerCallback_eq s.enter
    rw [← Option.some.inj h1, he]
    rfl
  | device as => exact acts_user (s := s.enter) h1

end Sys

open Sys

variable {c c' c₀ c₁ : Config} {e : Nat × Event} {top : Word}

theorem user_traces (fuel : Nat) : Traces fuel fun _ s s' => s'.user = s.user where
  exits h := h.user
  trans h h' := h'.trans h
  irq _ h := irqHandler_user h

theorem step_user {x : Word} (hi : Consistent c) (hx : x ∉ written c e.2) (hs : step c e = some c') :
    c'.sys.user x = c.sys.user x := by
  obtain ⟨fuel, ev⟩ := e
  cases step_cases hs with
  | forbid hm | permit hm => rfl
  | @create p q a s hm hc =>
    obtain ⟨-, -, m', -, rfl⟩ := createThread_cases hc
    obtain ⟨h4, hx⟩ := not_or.1 (mt List.mem_cons.2 hx)
    have h8 := mt List.mem_singleton.2 hx
    show (if x = a.userStack - 8 then a.args else if x = a.userStack - 4 then a.atExit else c.sys.user x) = _
    rw [if_neg h8, if_neg h4]
  | @syscall eax ebx s hm hh =>
    rw [(Exits.dispatch s .ring3).user]
    refine idtHandler_user (s := c.sys.trap) (fun he => hx ?_) hh
    show x ∈ if eax = 2 ∧ c.sys.running.uid = 0 then [ebx] else []
    rw [if_pos ⟨he.1, he.2.1⟩, he.2.2]
    exact List.mem_singleton_self _
  | @irq d s hm hh =>
    rw [(Exits.dispatch s .ring3).user, irqHandler_user hh]
    rfl
  | @idleIrq d s hm hh => rw [(Exits.dispatch s .idle).user, irqHandler_user hh]
  | wake hm hw => rw [(user_traces fuel).wakeUp hi hm hw]

theorem reach_user (h : Reach step (SparesFrame top) c c') (hi : Inv c) :
    c'.sys.user (top - 4) = c.sys.user (top - 4) ∧ c'.sys.user (top - 8) = c.sys.user (top - 8) := by
  refine (h.inv (P := fun c' => Inv c' ∧ c'.sys.user (top - 4) = c.sys.user (top - 4) ∧
    c'.sys.user (top - 8) = c.sys.user (top - 8)) ⟨hi, rfl, rfl⟩ ?_).2
  rintro c₁ e c₂ ⟨hi₁, h4, h8⟩ ⟨hok, hs4, hs8⟩ hs
  have hc := hi₁.toConsistent
  exact ⟨hi₁.step hok hs, (step_user hc hs4 hs).trans h4, (step_user hc hs8 hs).trans h8⟩

namespace Sys
variable {s s' : Sys} {p : Nat} {u f : Word}

/-- A thread keeps the entry it was made with. -/
structure StartsAt (p : Nat) (u f : Word) (s : Sys) : Prop where
  made : p ∈ s.created
  userEsp : (s.thread p).userEsp = u
  initialEip : (s.thread p).initialEip = f

theorem StartsAt.quiet (h : s.StartsAt p u f) (hq : Quiet s s') : s'.StartsAt p u f :=
  ⟨hq.created ▸ h.made, (hq.threads p).userEsp.trans h.userEsp, (hq.threads p).initialEip.trans h.initialEip⟩

theorem StartsAt.stableQuiet : StableQuiet (StartsAt p u f) where
  store h e := ⟨e.created ▸ h.made, e.thread ▸ h.userEsp, e.thread ▸ h.initialEip⟩
  quiet h hq := h.quiet hq
  switchOut {s} _ h := by
    have hout : Exits s s.switchOut := (Exits.saveContext s).trans (.switchBegin _)
    obtain ⟨esp, flags, hth⟩ := hout.thread p
    exact ⟨hout.created ▸ h.made, by rw [hth]; exact h.userEsp, by rw [hth]; exact h.initialEip⟩
  switchTo h _ := ⟨h.made, h.userEsp, h.initialEip⟩
  switchRun {s} h _ := by
    obtain ⟨esp, flags, hth⟩ := (Exits.resume s).thread p
    exact ⟨(Exits.resume s).created ▸ h.made, by rw [hth]; exact h.userEsp, by rw [hth]; exact h.initialEip⟩
  create {s _ _ p' _ a} hS h hc := by
    obtain ⟨⟨-, hd⟩, -, m', -, rfl⟩ := createThread_cases hc
    have hne : p ≠ p' := fun he => hS.objects.fresh_thread hd (he ▸ created_sub h.made)
    refine ⟨List.mem_cons_of_mem _ h.made, ?_, ?_⟩
    · show (if p = p' then s.newThread a else s.thread p : Thread).userEsp = u
      rw [if_neg hne]
      exact h.userEsp
    · show (if p = p' then s.newThread a else s.thread p : Thread).initialEip = f
      rw [if_neg hne]
      exact h.initialEip

/-- The thread dispatched last has `TS_RUN` until it is switched out. -/
def LastRuns (s : Sys) : Prop := ∀ t b esp cr3 l, s.log = .dispatch t b esp cr3 :: l → Has (s.thread t).threadFlags tsRun

theorem LastRuns.quiet (h : s.LastRuns) (hq : Quiet s s') : s'.LastRuns := by
  intro t b esp cr3 l hl
  obtain ⟨es, hes, hqs⟩ := hq.log
  cases es with
  | nil => exact (hq.threads t).run.2 (h t b esp cr3 l (hes.symm.trans hl))
  | cons e es =>
    obtain ⟨rfl, -⟩ := List.cons.inj (hes.symm.trans hl)
    exact (hqs _ List.mem_cons_self).elim

theorem LastRuns.stableQuiet : StableQuiet LastRuns where
  store h e t b esp cr3 l hl := e.thread ▸ h t b esp cr3 l (e.log ▸ hl)
  quiet h hq := h.quiet hq
  switchOut hc h := by
    rw [switchOut_eq hc.has_run]
    intro t b esp cr3 l hl
    cases (List.cons.inj hl).1
  switchTo h _ := h
  switchRun {s} h _ := by
    rw [switchRun_resume]
    intro t b esp cr3 l hl
    obtain rfl : s.runningThread = t := (Ev.dispatch.inj (List.cons.inj hl).1).1
    show Has (if s.runningThread = s.runningThread then s.running.into else s.thread _).threadFlags tsRun
    rw [if_pos rfl]
    exact ThreadOk.run_into
  create {s s' _ p' _ a} hS h hc t b esp cr3 l hl := by
    obtain ⟨⟨-, hd⟩, -, m', -, rfl⟩ := createThread_cases hc
    have hmem : t ∈ s.threads := hS.mentions (.dispatch t b esp cr3) (by rw [show s.log = _ from hl]; simp)
    have hne : t ≠ p' := fun he => hS.objects.fresh_thread hd (he ▸ hmem)
    show Has (if t = p' then s.newThread a else s.thread t : Thread).threadFlags tsRun
    rw [if_neg hne]
    exact h t b esp cr3 l hl

end Sys

theorem step_create {fuel p q : Nat} {a : ThreadArgs} (hc : step c (fuel, .create p q a) = some c₁) :
    c₁.sys.StartsAt p (a.userStack - 8) a.fn ∧ c₁.sys.user (a.userStack - 4) = a.atExit ∧
      c₁.sys.user (a.userStack - 8) = a.args := by
  cases step_cases hc with
  | create hm hs =>
    obtain ⟨-, -, m', -, rfl⟩ := createThread_cases hs
    refine ⟨⟨List.mem_cons_self, congrArg Thread.userEsp (if_pos rfl), congrArg Thread.initialEip (if_pos rfl)⟩,
      ?_, if_pos rfl⟩
    exact (if_neg (by bv_omega)).trans (if_pos rfl)

theorem reach_startsAt {p : Nat} {u f : Word} (h : Reach step KeepsContexts c₁ c') (hi : Inv c₁)
    (hs : c₁.sys.StartsAt p u f) : c'.sys.StartsAt p u f := by
  refine (h.inv (P := fun c => Inv c ∧ c.sys.StartsAt p u f) ⟨hi, hs⟩ ?_).2
  rintro c e c' ⟨hi, hx⟩ hok hs
  exact ⟨hi.step hok hs, StartsAt.stableQuiet.stable.step hi hok hx hs⟩

theorem reach_lastRuns (h : Reach step KeepsContexts c₀ c) (h₀ : Booted c₀) : c.sys.LastRuns := by
  refine LastRuns.stableQuiet.stable.reach h h₀ (fun _ _ => id) ?_
  intro t b esp cr3 l hl
  rw [h₀.fresh.1.log] at hl
  cases hl

/-- **The first call.** Whenever a thread made by `create_thread` is launched, `iret` takes it to ring 3 at `fn` with the
stack pointer 8 bytes below the stack it was given; that is the call `fn(args)` which returns to `at_exit` if and only
if the two are equal. -/
theorem launched_call_iff {fuel p q : Nat} {a : ThreadArgs} {esp cr3 : Word} {l : List Ev}
    (h : Reach step KeepsContexts c₀ c) (h₀ : Booted c₀) (hc : step c (fuel, .create p q a) = some c₁)
    (h₁ : Reach step (SparesFrame a.userStack) c₁ c') (hlog : c'.sys.log = .dispatch p true esp cr3 :: l)
    (eflags : Word) : ∃ r, c'.sys.launchRegs esp eflags = some r ∧ r.cs &&& 3 = 3 ∧ r.eip = a.fn ∧
      r.esp = a.userStack - 8 ∧ (c'.sys.Calls r a.fn a.args a.atExit ↔ a.args = a.atExit) := by
  have hkeeps : KeepsContexts c (fuel, .create p q a) := ⟨trivial, trivial⟩
  have hmade := h.next _ hkeeps hc
  have hrun : Reach step KeepsContexts c₁ c' := h₁.mono fun _ _ => And.left
  have hi := reach_inv (hmade.trans hrun) h₀
  have hp : p ∈ c'.sys.threads := hi.sound.mentions (.dispatch p true esp cr3) (by rw [hlog]; simp)
  have hruns : c'.sys.runningThread = p := by
    have hflag := reach_lastRuns (hmade.trans hrun) h₀ p true esp cr3 l hlog
    exact ((hi.context.thread p hp).run.1 hflag).2.symm
  obtain ⟨hstart, h4, h8⟩ := step_create hc
  have hkept := reach_startsAt hrun (reach_inv hmade h₀) hstart
  obtain ⟨hu4, hu8⟩ := reach_user h₁ (reach_inv hmade h₀)
  have hesp : c'.sys.running.userEsp = a.userStack - 8 := by
    unfold Sys.running
    rw [hruns]
    exact hkept.userEsp
  have heip : c'.sys.running.initialEip = a.fn := by
    unfold Sys.running
    rw [hruns]
    exact hkept.initialEip
  have hring : (0x1B : Word) &&& 3 = 3 := by decide
  refine ⟨⟨a.fn, 0x1B, eflags ||| 0x200, a.userStack - 8, 0x23⟩, ?_, hring, rfl, rfl, ?_⟩
  · unfold Sys.launchRegs launchFrame
    rw [hesp, heip]
    rfl
  · have hnext : a.userStack - 8 + 4 = a.userStack - 4 := by bv_omega
    have hret : c'.sys.user (a.userStack - 8) = a.args := hu8.trans h8
    have harg : c'.sys.user (a.userStack - 8 + 4) = a.atExit := by
      rw [hnext]
      exact hu4.trans h4
    constructor
    · intro hcall
      exact hret.symm.trans hcall.ret
    · intro he
      exact ⟨hring, rfl, hret.trans he, harg.trans he.symm⟩

theorem firstLaunch_spares (top : Word) (h : exec step c firstLaunch = some c') : Reach step (SparesFrame top) c c' := by
  have hnil : ∀ e ∈ firstLaunch, ∀ c, KeepsContexts c e ∧ written c e.2 = [] := by
    intro e he c
    rcases List.mem_cons.1 he with rfl | he
    · exact ⟨⟨trivial, trivial⟩, rfl⟩
    · rw [List.eq_of_mem_replicate he]
      exact ⟨⟨trivial, trivial⟩, rfl⟩
  refine (reach_exec_forall hnil h).mono fun c e he => ?_
  unfold SparesFrame
  rw [(he c).2]
  exact ⟨(he c).1, List.not_mem_nil, List.not_mem_nil⟩

/-- With `NULL` for both. -/
theorem launched_call_iff_null : ∃ r, launched.sys.launchRegs 0 0 = some r ∧ launched.sys.Calls r 12288 0 0 := by
  have hmade : step bootZero (create 12288 5) = some made := by rfl
  have hrun : exec step made firstLaunch = some launched := by rfl
  obtain ⟨r, hr, -, -, -, hcall⟩ := launched_call_iff .start bootZero_booted hmade (firstLaunch_spares 50000 hrun)
    (by rfl : launched.sys.log = .dispatch 12288 true 0 4096 :: launched.sys.log.tail) 0
  exact ⟨r, hr, hcall.2 rfl⟩

/-- A thread for `fn = 4096`, `args = 7` and `at_exit = 8192`. -/
def madeWith : Config :=
  (step bootZero (8, .create 12288 12488 ⟨4096, 7, 8192, 50000, 60000, [], 0, 5⟩)).getD bootZero

def launchedWith : Config := (exec step madeWith firstLaunch).getD madeWith

/-- It is launched with 7 as its return address and 8192 as its argument. -/
theorem call_frame_swapped : Booted bootZero ∧
    step bootZero (8, .create 12288 12488 ⟨4096, 7, 8192, 50000, 60000, [], 0, 5⟩) = some madeWith ∧
    exec step madeWith firstLaunch = some launchedWith ∧
    launchedWith.sys.log = .dispatch 12288 true 0 4096 :: launchedWith.sys.log.tail ∧
    ∃ r, launchedWith.sys.launchRegs 0 0 = some r ∧ r.eip = 4096 ∧ launchedWith.sys.user r.esp = 7 ∧
      launchedWith.sys.user (r.esp + 4) = 8192 ∧ ¬ launchedWith.sys.Calls r 4096 7 8192 := by
  refine ⟨bootZero_booted, rfl, rfl, rfl, ⟨4096, 0x1B, 0x200, 49992, 0x23⟩, ?_, rfl, ?_, ?_, fun hcall => ?_⟩
  · decide +kernel
  · decide +kernel
  · decide +kernel
  · have hret : launchedWith.sys.user 49992 = 7 := by decide +kernel
    exact absurd (hret.symm.trans hcall.ret) (by decide)

end Krypton
