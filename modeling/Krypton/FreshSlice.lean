import Krypton.TimeSlice

/-!
# The time slice of a dispatched thread

`switch_threads` clears `TIME_SLICE_EXPIRED` before its loop and sets the counter again behind it. The ticks taken in
the loop still count on the slice of the thread that has left, so the thread that is dispatched gets a full counter, but
the flag only stays clear if that slice outlasts them (`SliceOutlasts`).
-/

namespace Krypton

open Sys

variable {c c' c₀ : Config} {s s' t : Sys} {fuel n : Nat} {e : Nat × Event} {es : List (Nat × Event)}

def Event.isTick : Event → Bool
  | .irq .timer => true
  | _ => false

/-- The timer interrupts among the events. -/
def ticks (es : List (Nat × Event)) : Nat := es.countP fun e => e.2.isTick

/-- The state an entry has come to when its handler returns. -/
def Config.handled (c : Config) : Nat × Event → Option Sys
  | (fuel, .syscall eax ebx) => if c.mode = .ring3 then c.sys.trap.idtHandler fuel eax ebx else none
  | (fuel, .irq h) =>
    match c.mode with
    | .ring3 => c.sys.trap.irqHandler fuel h
    | .idle => c.sys.irqHandler fuel h
    | .kernel => none
  | (_, .forbid) | (_, .permit) | (_, .create ..) | (_, .wake _) => none

/-- The dispatcher of the entry calls `switch_threads` in `s`. -/
def EntersSwitch (c : Config) (e : Nat × Event) (s : Sys) : Prop :=
  ∃ s', c.handled e = some s' ∧ (s'.kReenter = 0 ∧ Has s'.sysFlags needTaskSwitch) ∧ s = s'.saveContext

theorem EntersSwitch.step (h : EntersSwitch c e s) : step c e = some s.switchBegin.idleLoop := by
  obtain ⟨s', hs, hk, rfl⟩ := h
  have hd : ∀ back, s'.dispatch back = s'.saveContext.switchBegin.idleLoop := fun _ => if_pos hk
  obtain ⟨fuel, ev⟩ := e
  cases ev with
  | syscall eax ebx =>
    obtain ⟨hm, he⟩ := Option.ite_none_right_eq_some.1 hs
    unfold Krypton.step
    dsimp only
    rw [if_pos hm, he, Option.map_some, hd]
  | irq h =>
    have hmode : c.mode = .ring3 ∨ c.mode = .idle ∨ c.mode = .kernel := by cases c.mode <;> simp
    unfold Config.handled at hs
    unfold Krypton.step
    dsimp only at hs ⊢
    rcases hmode with hm | hm | hm
    · simp only [hm] at hs ⊢
      rw [hs, Option.map_some, hd]
    · simp only [hm] at hs ⊢
      rw [hs, Option.map_some, hd]
    · simp only [hm] at hs
      cases hs
  | forbid | permit | create | wake => cases hs

/-- A system call or an interrupt enters it, not the end of the loop. -/
theorem EntersSwitch.keeps (h : EntersSwitch c e s) (hok : NoStrayCycle c e) : KeepsContexts c e := by
  obtain ⟨s', hs, -, -⟩ := h
  obtain ⟨fuel, ev⟩ := e
  cases ev with
  | syscall | irq => exact ⟨hok, trivial⟩
  | forbid | permit | create | wake => cases hs

namespace Sys

/-- What `switch_threads` is to leave. -/
structure FreshSlice (s : Sys) : Prop where
  count : s.tsCurrCount = s.stdTsQuantum
  run : Has s.running.threadFlags tsRun
  expired : ¬ Has s.sysFlags timeSliceExpired
  switch : ¬ Has s.sysFlags needTaskSwitch

/-- The slice is over for long, or `n` more ticks are within it. -/
def SliceOutlasts (s : Sys) (n : Nat) : Prop := s.tsCurrCount.toInt < -1 ∨ (n : Int) ≤ max s.tsCurrCount.toInt 0

instance (s : Sys) (n : Nat) : Decidable (s.SliceOutlasts n) := inferInstanceAs (Decidable (_ ∨ _))

/-- The counter and `TIME_SLICE_EXPIRED` are the same. -/
structure SameSlice (s s' : Sys) : Prop where
  count : s'.tsCurrCount = s.tsCurrCount := by rfl
  expired : Has s'.sysFlags timeSliceExpired ↔ Has s.sysFlags timeSliceExpired := by rfl

theorem SameSlice.trans {s'' : Sys} (h : SameSlice s s') (h' : SameSlice s' s'') : SameSlice s s'' :=
  ⟨h'.count.trans h.count, h'.expired.trans h.expired⟩

theorem signal_sameSlice {x : Nat} {flags : Word} (h : s.signal fuel x flags = some s') : SameSlice s s' := by
  rcases signal_cases h with ⟨-, rfl⟩ | ⟨-, m', -, rfl⟩
  · exact {}
  · exact ⟨rfl, has_or_keep (by decide)⟩

theorem msgPost_sameSlice {x p : Nat} {src : Buf} {bufSz : BitVec 16} (h : s.msgPost fuel x p src bufSz = some s') :
    SameSlice s s' := by
  rcases msgPost_cases h with ⟨-, rfl⟩ | ⟨-, s₁, h1, h2⟩
  · exact {}
  · obtain ⟨-, -, rfl⟩ := kmalloc_cases h1
    obtain ⟨hc, he⟩ := signal_sameSlice h2
    exact ⟨hc, he⟩

theorem act_sameSlice {a : Act} (hk : s.InHandler) (h : s.act fuel a = some s') : SameSlice s s' := by
  cases a with
  | post t p src bufSz => exact msgPost_sameSlice (Option.ite_none_right_eq_some.1 h).2
  | signal t flags => exact signal_sameSlice (Option.ite_none_right_eq_some.1 h).2
  | print =>
    cases (nestedPrint_eq hk).symm.trans h
    exact {}

theorem acts_sameSlice {as : List Act} (hk : s.InHandler) (h : s.acts fuel as = some s') : SameSlice s s' := by
  induction as generalizing s with
  | nil =>
    cases h
    exact {}
  | cons a as ih =>
    obtain ⟨s₁, h1, h2⟩ := Option.bind_eq_some_iff.1 h
    exact (act_sameSlice hk h1).trans (ih (hk.steady (act_steady hk h1)) h2)

/-! ### The loop -/

/-- The counter of the thread that has left, after `n` ticks; it stops at `-2`. -/
def countAfter (s : Sys) (n : Nat) : Int :=
  if s.tsCurrCount.toInt < -1 then s.tsCurrCount.toInt else max (s.tsCurrCount.toInt - n) (-2)

/-- `t` is the state in the loop of `switch_threads`, entered in `s`, after `n` ticks. -/
structure Counts (s : Sys) (n : Nat) (t : Sys) : Prop where
  count : t.tsCurrCount.toInt = s.countAfter n
  expired : Has t.sysFlags timeSliceExpired ↔ ¬ s.SliceOutlasts n

theorem Counts.same (h : Counts s n t) (hs : SameSlice t s') : Counts s n s' :=
  ⟨hs.count ▸ h.count, hs.expired.trans h.expired⟩

theorem Counts.start (s : Sys) : Counts s 0 s.switchBegin := by
  refine ⟨?_, iff_of_false (has_and_drop (by decide)) (not_not.2 ?_)⟩
  · show s.tsCurrCount.toInt = _
    unfold countAfter
    omega
  · unfold SliceOutlasts
    omega

/-- One tick. -/
theorem Counts.tick (h : Counts s n t) : Counts s (n + 1) t.timerCallback := by
  obtain ⟨hcount, hexp⟩ := h
  unfold countAfter at hcount
  by_cases hsilent : t.tsCurrCount.toInt < -1
  · rw [timerCallback_silent hsilent]
    refine ⟨?_, hexp.trans (not_congr ?_)⟩
    · show t.tsCurrCount.toInt = _
      unfold countAfter
      omega
    · unfold SliceOutlasts
      omega
  · have hone := count_toInt (not_lt.1 hsilent)
    rcases lt_or_ge 0 t.tsCurrCount.toInt with hpos | h0
    · rw [timerCallback_counts hpos]
      refine ⟨?_, hexp.trans (not_congr ?_)⟩
      · show (t.tsCurrCount - 1).toInt = _
        unfold countAfter
        omega
      · unfold SliceOutlasts
        omega
    · obtain ⟨f, he, -, hf⟩ := timerCallback_fires (not_lt.1 hsilent) h0
      rw [he]
      refine ⟨?_, iff_of_true hf ?_⟩
      · show (t.tsCurrCount - 1).toInt = _
        unfold countAfter
        omega
      · unfold SliceOutlasts
        omega

end Sys

/-- A run of the loop, and the thread it has dispatched if it is over. -/
structure Idling (s : Sys) (n : Nat) (c : Config) : Prop where
  expired : Has c.sys.sysFlags timeSliceExpired ↔ ¬ s.SliceOutlasts n
  counts : c.mode = .idle → s.Counts n c.sys
  reloaded : c.mode = .ring3 → c.sys.tsCurrCount = c.sys.stdTsQuantum

namespace Idling

theorem halted (h : s.Counts n t) : Idling s n ⟨t, .idle⟩ := ⟨h.expired, fun _ => h, nofun⟩

theorem idleLoop (h : s.Counts n t) : Idling s n t.idleLoop := by
  unfold Sys.idleLoop
  dsimp only
  split_ifs
  · exact halted (h.same ⟨rfl, has_or_keep (by decide)⟩)
  · refine ⟨?_, nofun, fun _ => ?_⟩
    · show Has (t.switchIn _).sysFlags timeSliceExpired ↔ _
      rw [switchIn_eq]
      exact h.expired
    · show (t.switchIn _).tsCurrCount = (t.switchIn _).stdTsQuantum
      rw [switchIn_eq]
      rfl

/-- An interrupt in the loop. -/
theorem irq {d : Handler} (hi : Inv c) (h : Idling s n c) (hm : c.mode = .idle)
    (hh : c.sys.irqHandler fuel d = some t) : Idling s (n + ticks [(fuel, .irq d)]) (t.dispatch .idle) := by
  obtain ⟨h1, -, hd⟩ := hi.halted hm hh
  have hk : c.sys.enter.InHandler := .inr (hi.enter_kReenter hm)
  have henter : s.Counts n c.sys.enter := (h.counts hm).same {}
  rw [hd]
  cases d with
  | timer =>
    obtain rfl := Option.some.inj h1
    exact halted (henter.tick.same {})
  | device as => exact halted ((henter.same (acts_sameSlice hk h1)).same {})

theorem step (hi : Inv c) (h : Idling s n c) (hm : c.mode = .idle) (hu : e.2.Undisturbed)
    (hs : step c e = some c') : Idling s (n + ticks [e]) c' := by
  obtain ⟨fuel, ev⟩ := e
  cases step_cases hs with
  | forbid hx | permit hx | create hx | syscall hx | irq hx => exact absurd (hm.symm.trans hx) (by decide)
  | idleIrq _ hh => exact h.irq hi hm hh
  | wake _ hw =>
    obtain rfl := hu.wakeUp hw
    exact idleLoop (h.counts hm)

theorem run (hi : Inv c) (h : Idling s n c)
    (hm : Meets Krypton.step (fun c e => c.mode = .idle ∧ Regular c e) c es)
    (hs : exec Krypton.step c es = some c') : Idling s (n + ticks es) c' := by
  induction es generalizing c n with
  | nil =>
    obtain rfl := Option.some.inj hs
    exact h
  | cons e es ih =>
    obtain ⟨c₁, h1, h2⟩ := Option.bind_eq_some_iff.1 hs
    have hcons : ticks ([e] ++ es) = ticks [e] + ticks es := List.countP_append
    change Idling s (n + ticks ([e] ++ es)) c'
    rw [hcons, ← Nat.add_assoc]
    exact ih (hi.step hm.1.2.keeps h1) (h.step hi hm.1.1 hm.1.2.2 h1) (hm.2 c₁ h1) h2

end Idling

/-- **A dispatched thread gets a fresh time slice** exactly if the slice of the thread that has left outlasts the ticks
taken in the loop of `switch_threads`. The way back to ring 3 is part of the last step, and no interrupt arrives on it. -/
theorem slice_fresh_iff (h : Reach step KeepsContexts c₀ c) (h₀ : Booted c₀) (hs : EntersSwitch c e s)
    (hok : NoStrayCycle c e)
    (hidle : Meets step (fun c e => c.mode = .idle ∧ Regular c e) s.switchBegin.idleLoop es)
    (hrun : exec step s.switchBegin.idleLoop es = some c') (hm : c'.mode = .ring3) :
    c'.sys.FreshSlice ↔ s.SliceOutlasts (ticks es) := by
  have hentered := h.next e (hs.keeps hok) hs.step
  have hreach := hentered.trans (reach_exec_meets (hidle.mono fun _ _ he => he.2.keeps) hrun)
  have hi := (Idling.idleLoop (Counts.start s)).run (reach_inv hentered h₀) hidle hrun
  rw [Nat.zero_add] at hi
  constructor
  · intro hf
    exact not_not.1 fun hno => hf.expired (hi.expired.2 hno)
  · intro hout
    refine ⟨hi.reloaded hm, ((reach_inv hreach h₀).ring3 hm).1.has_run, fun hx => hi.expired.1 hx hout, ?_⟩
    exact reach_calm (hreach.mono fun _ _ => And.left) h₀

/-- The kernel thread waits, and the only other thread is about to. -/
def lastAwake : Config := (exec step bootZero [create 12288 5, (8, .permit), call 0 1]).getD bootZero

/-- Where `switch_threads` is entered when it does. -/
def lastWait : Sys := ((lastAwake.handled (call 0 1)).getD bootZero.sys).saveContext

/-- `n` ticks in the loop, and a message. -/
def nap (n : Nat) : List (Nat × Event) := List.replicate n tick ++ [post 12288 14000, (8, .wake .none)]

/-- The thread back in ring 3. -/
def awake (n : Nat) : Config := (exec step lastWait.switchBegin.idleLoop (nap n)).getD bootZero

theorem lastAwake_reached : Reach step KeepsContexts bootZero lastAwake := by
  have hsome : (exec step bootZero [create 12288 5, (8, .permit), call 0 1]).isSome := by decide +kernel
  exact reach_exec_meets (by decide +kernel) (exec_getD bootZero hsome)

theorem lastWait_entered : EntersSwitch lastAwake (call 0 1) lastWait := by
  obtain ⟨s, hs⟩ := Option.isSome_iff_exists.1 (by decide +kernel : (lastAwake.handled (call 0 1)).isSome)
  have hget : (lastAwake.handled (call 0 1)).getD bootZero.sys = s := by rw [hs]; rfl
  have hk : ((lastAwake.handled (call 0 1)).getD bootZero.sys).kReenter = 0 ∧
      Has ((lastAwake.handled (call 0 1)).getD bootZero.sys).sysFlags needTaskSwitch := by decide +kernel
  exact ⟨s, hs, hget ▸ hk, by rw [← hget]; rfl⟩

/-- A message two ticks later. -/
theorem slice_fresh_iff_nap : (awake 2).mode = .ring3 ∧ (awake 2).sys.FreshSlice := by
  have hsome : (exec step lastWait.switchBegin.idleLoop (nap 2)).isSome := by decide +kernel
  have hidle : Meets step (fun c e => c.mode = .idle ∧ Regular c e) lastWait.switchBegin.idleLoop (nap 2) := by
    decide +kernel
  have hm : (awake 2).mode = .ring3 := by decide +kernel
  refine ⟨hm, ?_⟩
  exact (slice_fresh_iff lastAwake_reached bootZero_booted lastWait_entered (fun hx => absurd hx.2.1 (by decide)) hidle
    (exec_getD bootZero hsome) hm).2
    (by decide +kernel)

/-- Behind eleven ticks the thread starts with `TIME_SLICE_EXPIRED`. -/
theorem slice_expired : ¬ ∀ (c₀ c c' : Config) (e : Nat × Event) (s : Sys) (es : List (Nat × Event)), Booted c₀ →
    Reach step KeepsContexts c₀ c → EntersSwitch c e s → NoStrayCycle c e →
    Meets step (fun c e => c.mode = .idle ∧ Regular c e) s.switchBegin.idleLoop es →
    exec step s.switchBegin.idleLoop es = some c' → c'.mode = .ring3 → c'.sys.FreshSlice := by
  intro h
  have hsome : (exec step lastWait.switchBegin.idleLoop (nap 11)).isSome := by decide +kernel
  have hidle : Meets step (fun c e => c.mode = .idle ∧ Regular c e) lastWait.switchBegin.idleLoop (nap 11) := by
    decide +kernel
  have hf := h _ _ (awake 11) _ _ (nap 11) bootZero_booted lastAwake_reached lastWait_entered
    (fun hx => absurd hx.2.1 (by decide)) hidle (exec_getD bootZero hsome) (by decide +kernel)
  exact hf.expired (by decide +kernel)

end Krypton
