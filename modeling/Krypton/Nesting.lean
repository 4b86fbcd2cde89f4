import Krypton.Boot
import Krypton.Steady

/-!
# Nested kernel entries

`step` runs a handler and the dispatcher at once. Here every entry is taken apart, so that further entries may come
between: an `int 0xFF` made by a handler, or an interrupt taken while `switch_threads` halts the processor. The
entries not yet left are kept in a list, the innermost first, and `k_reenter` counts them.
-/

namespace Krypton

open Sys (ThreadArgs)

/-- Where an entry of the kernel is. -/
inductive Entry
  /-- In `idt_handler` or `irq_handler`, behind the first line and in front of the last test. -/
  | handler
  /-- In front of `dispatch`. -/
  | dispatcher
  /-- At the `hlt` of `switch_threads`. -/
  | halted
deriving DecidableEq

structure Nest where
  sys : Sys
  entries : List Entry

/-- The functions handlers call. -/
inductive Call
  | timer
  | syscall (eax ebx : Word)
  | post (t p : Nat) (src : Buf) (bufSz : BitVec 16)
  | signal (t : Nat) (flags : Word)

def Sys.call (fuel : Nat) (s : Sys) : Call → Option Sys
  | .timer => some s.timerCallback
  | .syscall eax ebx => s.syscall fuel eax ebx
  | .post t p src bufSz => s.msgPost fuel t p src bufSz
  | .signal t flags => s.signal fuel t flags

inductive NestEvent
  | forbid
  | permit
  | create (p q : Nat) (a : ThreadArgs)
  /-- An interrupt, or an `int 0xFF`: up to the first line of the handler. -/
  | enter
  | call (k : Call)
  /-- The last test of the handler, and the return to the dispatcher. -/
  | leave
  | dispatch
  /-- `hlt` ends, and `switch_threads` tests `thread_ready` again. -/
  | wake

/-- Behind the dispatcher, in front of `iret` or of `hlt`. -/
def Nest.left (c : Config) (rest : List Entry) : Nest :=
  ⟨c.sys, if c.mode = .idle then .halted :: rest else rest⟩

/-- One step. The innermost entry runs; with none, ring 3 does. -/
def nestStep (n : Nest) : Nat × NestEvent → Option Nest
  | (fuel, .create p q a) =>
    if n.entries = [] then (n.sys.createThread fuel p q a).map fun s => ⟨s, []⟩ else none
  | (_, .forbid) => if n.entries = [] then some ⟨n.sys.forbid, []⟩ else none
  | (_, .permit) => if n.entries = [] then some ⟨n.sys.permit, []⟩ else none
  | (_, .enter) =>
    match n.entries with
    | [] => some ⟨n.sys.trap.enter, [.handler]⟩
    | .dispatcher :: _ => none
    | e :: rest => some ⟨n.sys.enter, .handler :: e :: rest⟩
  | (fuel, .call k) =>
    match n.entries with
    | .handler :: rest => (n.sys.call fuel k).map fun s => ⟨s, .handler :: rest⟩
    | _ => none
  | (fuel, .leave) =>
    match n.entries with
    | .handler :: rest => (n.sys.reschedule fuel).map fun s => ⟨s, .dispatcher :: rest⟩
    | _ => none
  | (_, .dispatch) =>
    match n.entries with
    | .dispatcher :: rest => some (.left (n.sys.dispatch .kernel) rest)
    | _ => none
  | (_, .wake) =>
    match n.entries with
    | .halted :: rest => some (.left n.sys.idleLoop rest)
    | _ => none

namespace Nest

/-- The handler is about to call `schedule`. -/
def CallsSchedule (n : Nest) : Prop :=
  n.entries.head? = some .handler ∧ Has n.sys.sysFlags needSchedule ∧ n.sys.kReenter ≤ 0

/-- The dispatcher is about to call `switch_threads`. -/
def CallsSwitch (n : Nest) : Prop :=
  n.entries.head? = some .dispatcher ∧ n.sys.kReenter = 0 ∧ Has n.sys.sysFlags needTaskSwitch

/-- `k_reenter` is the number of entries less one. -/
def Counted (n : Nest) : Prop := n.sys.kReenter = BitVec.ofNat 32 n.entries.length - 1

end Nest

/-! ### `k_reenter` in the functions of the kernel -/

namespace Sys
variable {s s' : Sys} {fuel : Nat}

theorem call_steady {k : Call} (h : s.call fuel k = some s') : Steady s s' := by
  cases k with
  | timer => cases h; exact s.timerCallback_steady
  | syscall eax ebx => exact syscall_steady h
  | post t p src bufSz => exact msgPost_steady h
  | signal t flags => exact signal_steady h

/-- The loop of `switch_threads` keeps `k_reenter` when it halts; `resume` takes the entry off. -/
theorem idleLoop_kReenter (s : Sys) :
    s.idleLoop.mode = .idle ∧ s.idleLoop.sys.kReenter = s.kReenter ∨
      s.idleLoop.mode = .ring3 ∧ s.idleLoop.sys.kReenter = s.kReenter - 1 := by
  unfold Sys.idleLoop
  dsimp only
  split_ifs with h0
  · exact .inl ⟨rfl, rfl⟩
  · refine .inr ⟨rfl, ?_⟩
    show (s.switchIn _).kReenter = _
    rw [switchIn_eq]

theorem dispatch_kReenter (s : Sys) :
    (s.dispatch .kernel).mode = .idle ∧ (s.dispatch .kernel).sys.kReenter = s.kReenter ∨
      (s.dispatch .kernel).mode ≠ .idle ∧ (s.dispatch .kernel).sys.kReenter = s.kReenter - 1 := by
  have hout : s.saveContext.switchBegin.kReenter = s.kReenter := by
    unfold saveContext
    split_ifs
    · rfl
    · rfl
  unfold Sys.dispatch
  split_ifs
  · rcases idleLoop_kReenter s.saveContext.switchBegin with ⟨hm, hk⟩ | ⟨hm, hk⟩
    · exact .inl ⟨hm, hk.trans hout⟩
    · refine .inr ⟨by rw [hm]; decide, ?_⟩
      rw [hk, hout]
  · exact .inr ⟨Mode.noConfusion, rfl⟩

end Sys

/-! ### The count -/

/-- What one step does to the entries and to `k_reenter`. -/
inductive NestStep (n : Nest) (n' : Nest) : Prop
  | inside (he : n'.entries.length = n.entries.length) (hk : n'.sys.kReenter = n.sys.kReenter)
  | entered (he : n'.entries.length = n.entries.length + 1) (hk : n'.sys.kReenter = n.sys.kReenter + 1)
  | left (he : n.entries.length = n'.entries.length + 1) (hk : n'.sys.kReenter = n.sys.kReenter - 1)

variable {n n' n₀ : Nest} {e : Nat × NestEvent} {c c' c₀ : Config} {rest : List Entry} {x : Entry}

theorem NestStep.of_left (he : n.entries = x :: rest)
    (h : c.mode = .idle ∧ c.sys.kReenter = n.sys.kReenter ∨
      c.mode ≠ .idle ∧ c.sys.kReenter = n.sys.kReenter - 1) : NestStep n (.left c rest) := by
  unfold Nest.left
  rcases h with ⟨hm, hk⟩ | ⟨hm, hk⟩
  · rw [if_pos hm]
    exact .inside (by rw [he]; rfl) hk
  · rw [if_neg hm]
    exact .left (by rw [he]; rfl) hk

theorem nestStep_cases (h : nestStep n e = some n') : NestStep n n' := by
  obtain ⟨fuel, ev⟩ := e
  unfold nestStep at h
  cases ev with
  | forbid | permit =>
    obtain ⟨he, h⟩ := Option.ite_none_right_eq_some.1 h
    cases h
    exact .inside (by rw [he]) rfl
  | create p q a =>
    obtain ⟨he, h⟩ := Option.ite_none_right_eq_some.1 h
    obtain ⟨s, hs, rfl⟩ := Option.map_eq_some_iff.1 h
    obtain ⟨-, -, m', -, rfl⟩ := Sys.createThread_cases hs
    exact .inside (by rw [he]) rfl
  | enter =>
    dsimp only at h
    split at h
    · rename_i he
      cases h
      exact .entered (by rw [he]; rfl) rfl
    · cases h
    · rename_i he
      cases h
      exact .entered (by rw [he]; rfl) rfl
  | call k =>
    dsimp only at h
    split at h
    · rename_i he
      obtain ⟨s, hs, rfl⟩ := Option.map_eq_some_iff.1 h
      exact .inside (by rw [he]) (Sys.call_steady hs).kReenter
    · cases h
  | leave =>
    dsimp only at h
    split at h
    · rename_i he
      obtain ⟨s, hs, rfl⟩ := Option.map_eq_some_iff.1 h
      exact .inside (by rw [he]; rfl) (Sys.reschedule_steady hs).kReenter
    · cases h
  | dispatch =>
    dsimp only at h
    split at h
    · rename_i he
      cases h
      exact .of_left he n.sys.dispatch_kReenter
    · cases h
  | wake =>
    dsimp only at h
    split at h
    · rename_i he
      cases h
      refine .of_left he (n.sys.idleLoop_kReenter.imp_right fun hx => ⟨?_, hx.2⟩)
      rw [hx.1]
      decide
    · cases h

theorem Nest.Counted.step (h : n.Counted) (hs : nestStep n e = some n') : n'.Counted := by
  unfold Nest.Counted at h ⊢
  cases nestStep_cases hs with
  | inside he hk => rw [hk, he, h]
  | entered he hk =>
    rw [hk, he, h, BitVec.ofNat_add]
    simp
  | left he hk =>
    rw [hk, h, he, BitVec.ofNat_add]
    simp

theorem Nest.Counted.length_eq (h : n.Counted) (hlt : n.entries.length < 2 ^ 32 - 1) (h0 : n.sys.kReenter = 0) :
    n.entries.length = 1 := by
  unfold Nest.Counted at h
  have h1 : BitVec.ofNat 32 n.entries.length = 1 := by
    rw [← sub_eq_zero, ← h, h0]
  have h2 := congrArg BitVec.toNat h1
  rw [BitVec.toNat_ofNat, Nat.mod_eq_of_lt (by omega)] at h2
  exact h2

/-! ### The steps of the kernel, taken apart -/

namespace Sys
variable {s s' : Sys} {fuel : Nat} {d : Handler} {ok : Nest → Nat × NestEvent → Prop}

theorem nestedPrint_nested (hp : s.nestedPrint fuel = some s') (rest : List Entry) :
    Reach nestStep (fun _ _ => True) ⟨s, .handler :: rest⟩ ⟨s', .handler :: rest⟩ := by
  obtain ⟨s₂, h1, h2⟩ := Option.bind_eq_some_iff.1 hp
  obtain ⟨s₁, h3, h4⟩ := Option.bind_eq_some_iff.1 h1
  obtain ⟨hm, h5⟩ := Option.ite_none_right_eq_some.1 h2
  have hback : Nest.left (s₂.dispatch .kernel) (.handler :: rest) = ⟨s', .handler :: rest⟩ := by
    unfold Nest.left
    rw [hm, Option.some.inj h5, if_neg Mode.noConfusion]
  have hrun : exec nestStep ⟨s, .handler :: rest⟩ [(0, .enter), (fuel, .call (.syscall 1 0)), (fuel, .leave),
      (0, .dispatch)] = some ⟨s', .handler :: rest⟩ := by
    simp only [exec, nestStep, Option.bind_some, call, h3, Option.map_some, h4, hback]
  exact reach_exec hrun

theorem acts_nested {as : List Act} (ha : s.acts fuel as = some s') (rest : List Entry) :
    Reach nestStep (fun _ _ => True) ⟨s, .handler :: rest⟩ ⟨s', .handler :: rest⟩ := by
  induction as generalizing s with
  | nil => cases ha; exact .start
  | cons a as ih =>
    obtain ⟨s₁, h1, h2⟩ := Option.bind_eq_some_iff.1 ha
    refine Reach.trans ?_ (ih h2)
    cases a with
    | post t p src bufSz =>
      have hp : s.msgPost fuel t p src bufSz = some s₁ := (Option.ite_none_right_eq_some.1 h1).2
      refine Reach.start.next (fuel, .call (.post t p src bufSz)) trivial ?_
      simp only [nestStep, call, hp, Option.map_some]
    | signal t flags =>
      have hp : s.signal fuel t flags = some s₁ := (Option.ite_none_right_eq_some.1 h1).2
      refine Reach.start.next (fuel, .call (.signal t flags)) trivial ?_
      simp only [nestStep, call, hp, Option.map_some]
    | print => exact nestedPrint_nested h1 rest

theorem irq_nested (hh : s.irqHandler fuel d = some s') (rest : List Entry) :
    Reach nestStep (fun _ _ => True) ⟨s.enter, .handler :: rest⟩ ⟨s', .dispatcher :: rest⟩ := by
  obtain ⟨s₁, h1, h2⟩ := Option.bind_eq_some_iff.1 hh
  have hhandle : Reach nestStep (fun _ _ => True) ⟨s.enter, .handler :: rest⟩ ⟨s₁, .handler :: rest⟩ := by
    cases d with
    | timer =>
      refine Reach.start.next (fuel, .call .timer) trivial ?_
      cases h1
      rfl
    | device as => exact acts_nested h1 rest
  refine hhandle.next (fuel, .leave) trivial ?_
  simp only [nestStep, h2, Option.map_some]

theorem left_dispatch (s : Sys) : Nest.left (s.dispatch .kernel) [] = Nest.left (s.dispatch .ring3) [] := by
  unfold Sys.dispatch
  split_ifs
  · rfl
  · rfl

theorem left_dispatch_halted (hk : s.kReenter ≠ 0) :
    Nest.left (s.dispatch .kernel) [.halted] = Nest.left (s.dispatch .idle) [] := by
  rw [dispatch_nested hk, dispatch_nested hk]
  rfl

end Sys

/-- Every step of the kernel is a run of entries and exits, unless an interrupt arrives on the way out of the idle
loop. -/
theorem step_nested {e : Nat × Event} (hi : Inv c) (hok : Regular c e) (hs : step c e = some c') :
    Reach nestStep (fun _ _ => True) (.left c []) (.left c' []) := by
  obtain ⟨fuel, ev⟩ := e
  have hring : c.mode = .ring3 → Nest.left c [] = ⟨c.sys, []⟩ := by
    intro hm
    unfold Nest.left
    rw [hm, if_neg Mode.noConfusion]
  have hidle : c.mode = .idle → Nest.left c [] = ⟨c.sys, [.halted]⟩ := by
    intro hm
    unfold Nest.left
    rw [if_pos hm]
  cases step_cases hs with
  | forbid hm =>
    rw [hring hm]
    exact Reach.start.next (0, .forbid) trivial rfl
  | permit hm =>
    rw [hring hm]
    exact Reach.start.next (0, .permit) trivial rfl
  | @create p q a s hm hc =>
    rw [hring hm]
    refine Reach.start.next (fuel, .create p q a) trivial ?_
    simp only [nestStep, hc, Option.map_some, if_true]
    rfl
  | @syscall eax ebx s hm hh =>
    obtain ⟨s₁, h1, h2⟩ := Option.bind_eq_some_iff.1 hh
    rw [hring hm, ← s.left_dispatch]
    refine reach_exec (?_ : exec nestStep _ [(0, .enter), (fuel, .call (.syscall eax ebx)), (fuel, .leave),
      (0, .dispatch)] = some _)
    simp only [exec, nestStep, Option.bind_some, Sys.call, h1, Option.map_some, h2]
  | @irq d s hm hh =>
    rw [hring hm, ← s.left_dispatch]
    refine Reach.trans (Reach.start.next (0, .enter) trivial rfl) ?_
    exact (Sys.irq_nested hh []).next (0, .dispatch) trivial rfl
  | @idleIrq d s hm hh =>
    obtain ⟨-, hk, -⟩ := hi.halted hm hh
    have hne : s.kReenter ≠ 0 := by
      rw [hk]
      decide
    rw [hidle hm, ← Sys.left_dispatch_halted hne]
    refine Reach.trans (Reach.start.next (0, .enter) trivial rfl) ?_
    exact (Sys.irq_nested hh [.halted]).next (0, .dispatch) trivial rfl
  | wake hm hw =>
    obtain rfl := hok.2.wakeUp hw
    rw [hidle hm]
    exact Reach.start.next (0, .wake) trivial rfl

/-- Every such run of the kernel is one of entries and exits. -/
theorem reach_nested (h : Reach step Regular c₀ c) (h₀ : Booted c₀) :
    Reach nestStep (fun _ _ => True) (.left c₀ []) (.left c []) := by
  induction h with
  | start => exact .start
  | next e hr hok hs ih => exact ih.trans (step_nested (reach_regular hr h₀) hok hs)

/-- All threads wait; a tick comes while the processor is halted, and a message wakes one of them. -/
def halting : List (Nat × Event) :=
  [create 12288 5, call 0 1, call 0 1, tick, post 12288 14000, (8, .wake .none), tick]

theorem reach_nested_halting : ∃ c, exec step bootZero halting = some c ∧ c.mode = .ring3 ∧
    Reach nestStep (fun _ _ => True) (.left bootZero []) (.left c []) := by
  have hrun : exec step bootZero halting = some ((exec step bootZero halting).getD bootZero) :=
    exec_getD bootZero (by rfl)
  refine ⟨_, hrun, by rfl, ?_⟩
  exact reach_nested (reach_exec_meets (by decide +kernel) hrun) bootZero_booted

/-- **Entries are counted.** In every run of entries and exits, `k_reenter` is the number of entries not yet left less
one, modulo `2 ^ 32`; below a depth of `2 ^ 32 - 1` it is the outermost entry, and no earlier one that halts, that calls
`schedule` and `switch_threads`. -/
theorem entries_counted (h : Reach nestStep (fun _ _ => True) n₀ n) (h₀ : n₀.entries = [])
    (hk : n₀.sys.kReenter = -1) :
    (n.sys.kReenter.toNat : Int) = ((n.entries.length : Int) - 1) % 2 ^ 32 ∧
      (n.entries.length < 2 ^ 32 - 1 →
        (n.CallsSchedule → n.entries = [.handler]) ∧ (n.CallsSwitch → n.entries = [.dispatcher])) := by
  have hc : n.Counted := by
    refine h.inv (P := Nest.Counted) ?_ fun n e n' hP _ hs => hP.step hs
    unfold Nest.Counted
    rw [h₀, hk]
    rfl
  have htop : ∀ x, n.entries.head? = some x → n.entries.length = 1 → n.entries = [x] := by
    intro x hx hlen
    obtain ⟨y, hy⟩ := List.length_eq_one_iff.1 hlen
    rw [hy] at hx ⊢
    rw [Option.some.inj hx]
  refine ⟨?_, fun hlt => ⟨?_, ?_⟩⟩
  · unfold Nest.Counted at hc
    rw [hc, BitVec.toNat_sub]
    simp
    omega
  · rintro ⟨hx, -, hle⟩
    exact htop _ hx (hc.length_eq hlt (BitVec.le_zero_iff.1 hle))
  · rintro ⟨hx, h0, -⟩
    exact htop _ hx (hc.length_eq hlt h0)

/-- The kernel thread waits; a tick comes while the processor is halted, and its handler prints. -/
def printHalted : List (Nat × NestEvent) := [(8, .enter), (8, .call (.syscall 0 1)), (8, .leave), (8, .dispatch),
  (8, .enter), (8, .call .timer), (8, .enter)]

theorem entries_counted_halted : ∃ n, exec nestStep ⟨bootZero.sys, []⟩ printHalted = some n ∧
    n.entries = [.handler, .handler, .halted] ∧ (n.sys.kReenter.toNat : Int) = 2 := by
  have hsome : (exec nestStep ⟨bootZero.sys, []⟩ printHalted).isSome := by rfl
  obtain ⟨n, hn⟩ := Option.isSome_iff_exists.1 hsome
  have he : n.entries = [.handler, .handler, .halted] := by
    cases hn
    rfl
  have hcount := (entries_counted (reach_exec hn) rfl (by rfl)).1
  rw [he] at hcount
  exact ⟨n, hn, he, hcount⟩

end Krypton
