import Krypton.Blocking
import Krypton.Steady

/-!
# `forbid`

`schedule` looks at `forbid_counter`, the dispatcher does not: it goes by `NEED_TASK_SWITCH`. That flag is clear between
two entries in every run (`calm_step`), so while the counter is positive no entry switches threads.
-/

namespace Krypton

open Sys

variable {c c' c₀ c₁ : Config} {s s' : Sys} {fuel : Nat} {e : Nat × Event} {eax ebx : Word}

namespace Sys

theorem act_sameSwitch {a : Act} (hk : s.InHandler) (h : s.act fuel a = some s') : SameSwitch s s' := by
  cases a with
  | post t p src bufSz => exact msgPost_sameSwitch (Option.ite_none_right_eq_some.1 h).2
  | signal t flags => exact signal_sameSwitch (Option.ite_none_right_eq_some.1 h).2
  | print =>
    cases (nestedPrint_eq hk).symm.trans h
    exact .rfl

theorem acts_sameSwitch {as : List Act} (hk : s.InHandler) (h : s.acts fuel as = some s') : SameSwitch s s' := by
  induction as generalizing s with
  | nil => cases h; exact .rfl
  | cons a as ih =>
    obtain ⟨s₁, h1, h2⟩ := Option.bind_eq_some_iff.1 h
    exact (ih (hk.steady (act_steady hk h1)) h2).trans (act_sameSwitch hk h1)

theorem handle_sameSwitch {d : Handler} (hk : s.InHandler) (h : s.handle fuel d = some s') : SameSwitch s s' := by
  cases d with
  | timer => cases h; exact timerCallback_sameSwitch
  | device as => exact acts_sameSwitch hk h

theorem syscall_sameSwitch (h0 : eax ≠ 0) (h : s.syscall fuel eax ebx = some s') : SameSwitch s s' := by
  unfold Sys.syscall at h
  rw [if_neg h0] at h
  split_ifs at h
  · cases h; exact .rfl
  · cases h; exact .rfl
  · cases h; exact .rfl
  · cases h
    unfold msgCycle
    dsimp only
    split_ifs
    · exact .rfl
    · exact .rfl
  · cases h; exact .rfl

theorem reschedule_forbidden (hf : 0 < s.forbidCounter.toInt) (h : s.reschedule fuel = some s') : SameSwitch s s' := by
  unfold reschedule schedule at h
  rw [if_pos (show ({ s with sysFlags := s.sysFlags &&& ~~~needSchedule } : Sys).forbidCounter.toInt > 0 from hf)] at h
  split_ifs at h
  · cases h
    exact has_and_keep (by decide)
  · cases h
    exact .rfl

theorem idleLoop_sameSwitch (s : Sys) : SameSwitch s s.idleLoop.sys := by
  unfold Sys.idleLoop
  dsimp only
  split_ifs
  · exact has_or_keep (by decide)
  · show Has (s.switchIn _).sysFlags needTaskSwitch ↔ _
    rw [switchIn_eq]
    exact .rfl

theorem switched_calm (s : Sys) : ¬ Has s.switchOut.idleLoop.sys.sysFlags needTaskSwitch := fun hx =>
  switchOut_calm ((idleLoop_sameSwitch _).1 hx)

theorem dispatch_calm (hk : s.kReenter = 0) (back : Mode) : ¬ Has (s.dispatch back).sys.sysFlags needTaskSwitch := by
  unfold Sys.dispatch
  split_ifs with h
  · exact switched_calm s
  · exact fun hx => h ⟨hk, hx⟩

theorem serve_sameSwitch {ds : List Handler} (hS : s.Sound) (hk : s.kReenter = 0) (h : s.serve fuel ds = some s') :
    SameSwitch s s' := by
  induction ds generalizing s with
  | nil => exact Option.some.inj h ▸ .rfl
  | cons d ds ih =>
    obtain ⟨s₁, h1, h2⟩ := serve_cons hS hk h
    obtain ⟨h3, -, -⟩ := irqHandler_nested hS hk h1
    have hkept := irqHandler_kept hS hk h1
    have hone : s.enter.InHandler := .inr (show s.kReenter + 1 = 1 by rw [hk]; rfl)
    have hd : SameSwitch s s₁ := handle_sameSwitch (s := s.enter) hone h3
    exact (ih hkept.sound (hkept.quiet.kReenter.trans hk) h2).trans hd

theorem launchEnd_calm {ds : List (Handler × Word)} (hS : s.Sound) (hr : s.runningThread ∈ s.threads)
    (hk : s.kReenter = -1) (hn : ¬ Has s.sysFlags needTaskSwitch) (h : s.launchEnd fuel ds = some c') :
    ¬ Has c'.sys.sysFlags needTaskSwitch := by
  induction ds generalizing s with
  | nil => exact Option.some.inj h ▸ hn
  | cons d ds ih =>
    obtain ⟨s₁, -, hkept, hr₁, hk₁, hend⟩ := launchEnd_cons hS hr hk h
    rcases hend with ⟨-, -, rfl⟩ | ⟨hn₁, hend⟩
    · exact switched_calm s₁
    · have hret := Consistent.ret hkept.sound hr₁ hk₁
      exact ih (s := s₁.noSwitch) hret.sound hr₁ (hret.ring3_kReenter rfl) hn₁ hend

end Sys

/-! ### Every run -/

/-- The way out of the idle loop, with whatever interrupts on it. -/
theorem wakeUp_calm {a : Arrivals} (hi : Consistent c) (hm : c.mode = .idle) (h : ¬ Has c.sys.sysFlags needTaskSwitch)
    (hs : c.sys.wakeUp fuel a = some c') : ¬ Has c'.sys.sysFlags needTaskSwitch := by
  unfold Sys.wakeUp at hs
  dsimp only at hs
  split_ifs at hs with h0
  · obtain rfl := Option.some.inj hs
    exact fun hx => h ((has_or_keep (by decide)).1 hx)
  obtain ⟨s₁, s₂, s₃, s₄, hw, hend⟩ := leaveLoop_cases hi.sound (hi.idle_kReenter hm) (hi.sound.hasLinks h0) hs
  have h1 : SameSwitch c.sys s₁ := serve_sameSwitch hi.sound hw.kReenter hw.found
  have h2 : SameSwitch s₁ s₂ := serve_sameSwitch (s := s₁.unlinkNext _) hw.sound₁ hw.kReenter₁ hw.unlinking
  have h3 : SameSwitch s₂ s₃ := serve_sameSwitch (s := s₂.unlinkPrev _) hw.sound₂ hw.kReenter₂ hw.unlinked
  have h4 : SameSwitch s₃ s₄ := serve_sameSwitch (s := s₃.switchTo _) hw.sound₃ hw.kReenter₃ hw.restarted
  have hn : ¬ Has s₄.sysFlags needTaskSwitch := fun hx => h (h1.1 (h2.1 (h3.1 (h4.1 hx))))
  split_ifs at hend
  · exact launchEnd_calm hw.launch_sound hw.running_mem hw.launch_kReenter hn hend
  · obtain rfl := Option.some.inj hend
    exact hn

theorem calm_step (hi : Consistent c) (hok : NoStrayCycle c e) (h : ¬ Has c.sys.sysFlags needTaskSwitch)
    (hs : step c e = some c') : ¬ Has c'.sys.sysFlags needTaskSwitch := by
  obtain ⟨fuel, ev⟩ := e
  cases step_cases hs with
  | forbid hm | permit hm => exact h
  | create hm hc =>
    obtain ⟨-, -, m', -, rfl⟩ := createThread_cases hc
    exact h
  | syscall hm hh => exact dispatch_calm ((hi.idtKept hok hh).quiet.kReenter.trans (hi.trap_kReenter hm)) _
  | irq hm hh => exact dispatch_calm ((hi.irqKept hm hh).quiet.kReenter.trans (hi.trap_kReenter hm)) _
  | @idleIrq d s hm hh =>
    obtain ⟨h1, -, hd⟩ := hi.halted hm hh
    rw [hd]
    exact fun hx => h ((handle_sameSwitch (.inr (hi.enter_kReenter hm)) h1).1 hx)
  | wake hm hw => exact wakeUp_calm hi hm h hw

theorem reach_calm (h : Reach step NoStrayCycle c₀ c) (h₀ : Booted c₀) : ¬ Has c.sys.sysFlags needTaskSwitch := by
  refine (h.inv (P := fun c => Consistent c ∧ ¬ Has c.sys.sysFlags needTaskSwitch) ⟨h₀.inv.toConsistent, ?_⟩ ?_).2
  · rw [h₀.fresh.1.sysFlags]
    decide
  · rintro c e c' ⟨hi, hn⟩ hok hs
    exact ⟨hi.step hok hs, calm_step hi hok hn hs⟩

/-! ### A section between `forbid` and `permit` -/

/-- The calls inside: the `permit` of the section is not among them, the counter does not wrap, and nobody waits. -/
def Inside (c : Config) : Nat × Event → Prop
  | (_, .forbid) => c.sys.forbidCounter.toInt + 1 < 2 ^ 31
  | (_, .permit) => 1 < c.sys.forbidCounter.toInt
  | (_, e) => ¬ e.IsWait

instance (c : Config) : DecidablePred (Inside c)
  | (_, .forbid) => inferInstanceAs (Decidable (_ < _))
  | (_, .permit) => inferInstanceAs (Decidable (_ < _))
  | (_, .create ..) | (_, .syscall ..) | (_, .irq _) | (_, .wake _) => inferInstanceAs (Decidable (¬ _))

/-- What holds inside of the state `c` in which the section began. -/
structure Held (c c' : Config) : Prop where
  mode : c'.mode = .ring3
  forbid : 0 < c'.sys.forbidCounter.toInt
  calm : ¬ Has c'.sys.sysFlags needTaskSwitch
  running : c'.sys.runningThread = c.sys.runningThread
  log : ∃ es, c'.sys.log = es ++ c.sys.log ∧ ∀ e ∈ es, e.Quiet

theorem forbid_toInt (hf : s.forbidCounter.toInt + 1 < 2 ^ 31) :
    s.forbid.forbidCounter.toInt = s.forbidCounter.toInt + 1 := by
  show (s.forbidCounter + 1).toInt = _
  rw [BitVec.toInt_add]
  have h := s.forbidCounter.le_toInt
  simp [Int.bmod_def]
  omega

theorem permit_toInt (hf : 0 ≤ s.forbidCounter.toInt) : s.permit.forbidCounter.toInt = s.forbidCounter.toInt - 1 := by
  show (s.forbidCounter - 1).toInt = _
  rw [BitVec.toInt_sub]
  have h := s.forbidCounter.toInt_lt
  simp [Int.bmod_def]
  omega

namespace Held

/-- An entry that leaves the flag clear. -/
theorem entry (h : Held c c') (hk : Kept c'.sys.trap.enter s) (hs : Steady c'.sys.trap.enter s)
    (hn : ¬ Has s.sysFlags needTaskSwitch) : Held c (s.dispatch .ring3) := by
  rw [dispatch_stays hn]
  refine ⟨rfl, ?_, hn, hk.quiet.running.trans h.running, ?_⟩
  · show 0 < s.forbidCounter.toInt
    rw [hs.forbid]
    exact h.forbid
  · obtain ⟨es, h1, h2⟩ := h.log
    obtain ⟨es', h3, h4⟩ := hk.quiet.log
    refine ⟨es' ++ es, ?_, fun e he => (List.mem_append.1 he).elim (h4 e) (h2 e)⟩
    show s.log = _
    rw [h3, List.append_assoc, ← h1]
    rfl

theorem step {c'' : Config} (h : Held c c') (hi : Consistent c') (hstray : NoStrayCycle c' e) (hok : Inside c' e)
    (hs : step c' e = some c'') : Held c c'' := by
  obtain ⟨fuel, ev⟩ := e
  cases step_cases hs with
  | forbid hm =>
    refine ⟨rfl, ?_, h.calm, h.running, h.log⟩
    have hf := h.forbid
    rw [forbid_toInt hok]
    omega
  | permit hm =>
    refine ⟨rfl, ?_, h.calm, h.running, h.log⟩
    have hf : 1 < c'.sys.forbidCounter.toInt := hok
    rw [permit_toInt (by omega)]
    omega
  | create hm hc =>
    obtain ⟨-, -, m', -, rfl⟩ := createThread_cases hc
    exact ⟨rfl, h.forbid, h.calm, h.running, h.log⟩
  | syscall hm hh =>
    refine h.entry (hi.idtKept hstray hh) (idtHandler_steady hh) ?_
    obtain ⟨s₁, h1, h2⟩ := Option.bind_eq_some_iff.1 hh
    have hf : 0 < s₁.forbidCounter.toInt := by
      rw [(syscall_steady h1).forbid]
      exact h.forbid
    exact fun hx => h.calm ((syscall_sameSwitch hok h1).1 ((reschedule_forbidden hf h2).1 hx))
  | irq hm hh =>
    have hk : c'.sys.trap.enter.InHandler := .inl (hi.trap_kReenter hm)
    refine h.entry (hi.irqKept hm hh) (irqHandler_steady hk hh) ?_
    obtain ⟨s₁, h1, h2⟩ := Option.bind_eq_some_iff.1 hh
    have hf : 0 < s₁.forbidCounter.toInt := by
      rw [(handle_steady hk h1).forbid]
      exact h.forbid
    exact fun hx => h.calm ((handle_sameSwitch hk h1).1 ((reschedule_forbidden hf h2).1 hx))
  | idleIrq hm | wake hm => rw [h.mode] at hm; cases hm

end Held

/-- **`forbid` forbids.** In every run `NEED_TASK_SWITCH` is clear whenever control is in ring 3. From a `forbid` at a
counter of 0 or more up to its `permit`, as long as the counter stays below `2 ^ 31` and the running thread does not wait,
control stays with it, and the dispatcher neither saves nor loads a thread. -/
theorem forbid_holds (h : Reach step NoStrayCycle c₀ c) (h₀ : Booted c₀) (hf : 0 ≤ c.sys.forbidCounter.toInt)
    (hlt : c.sys.forbidCounter.toInt + 1 < 2 ^ 31) (hs : step c (fuel, .forbid) = some c₁)
    (hin : Reach step (fun c e => NoStrayCycle c e ∧ Inside c e) c₁ c') :
    ¬ Has c.sys.sysFlags needTaskSwitch ∧ c'.mode = .ring3 ∧ c'.sys.runningThread = c.sys.runningThread ∧
      ¬ Has c'.sys.sysFlags needTaskSwitch ∧ ∃ es, c'.sys.log = es ++ c.sys.log ∧ ∀ e ∈ es, e.Quiet := by
  have hcalm := reach_calm h h₀
  have hi := reach_consistent h h₀
  have hheld : Consistent c' ∧ Held c c' := by
    have hstray : NoStrayCycle c (fuel, .forbid) := trivial
    refine hin.inv (P := fun x => Consistent x ∧ Held c x) ⟨hi.step hstray hs, ?_⟩ ?_
    · cases step_cases hs with
      | forbid hm =>
        refine ⟨rfl, ?_, hcalm, rfl, [], rfl, by simp⟩
        rw [forbid_toInt hlt]
        omega
    · rintro x e x' ⟨hx, hheld⟩ ⟨hstray, hok⟩ hs
      exact ⟨hx.step hstray hs, hheld.step hx hstray hok hs⟩
  exact ⟨hcalm, hheld.2.mode, hheld.2.running, hheld.2.calm, hheld.2.log⟩

/-- A thread above the kernel thread is made and waits for the end of a section that lasts a time slice. -/
def sectionStart : Config := (exec step bootZero [create 12288 15, (8, .permit)]).getD bootZero

def forbidden : List (Nat × Event) := List.replicate 6 tick ++ [(8, .forbid), post 12288 14000, (8, .permit)] ++
  List.replicate 6 tick

theorem forbid_holds_section : ∃ c₁ c', step sectionStart (8, .forbid) = some c₁ ∧ exec step c₁ forbidden = some c' ∧
    c'.sys.runningThread = 8192 := by
  have hstart : exec step bootZero [create 12288 15, (8, .permit)] = some sectionStart := by rfl
  have hsome : (step sectionStart (8, .forbid)).isSome := by rfl
  obtain ⟨c₁, h1⟩ := Option.isSome_iff_exists.1 hsome
  have hrun : (exec step c₁ forbidden).isSome ∧ Meets step (fun c e => NoStrayCycle c e ∧ Inside c e) c₁ forbidden := by
    cases h1
    exact ⟨by decide +kernel, by decide +kernel⟩
  obtain ⟨c', h2⟩ := Option.isSome_iff_exists.1 hrun.1
  have hreach : Reach step NoStrayCycle bootZero sectionStart := reach_exec_meets (by decide +kernel) hstart
  obtain ⟨-, -, h3, -⟩ := forbid_holds hreach bootZero_booted (by decide +kernel) (by decide +kernel) h1
    (reach_exec_meets hrun.2 h2)
  exact ⟨c₁, c', h1, h2, h3.trans (by decide +kernel)⟩

/-! ### The counter is a signed word -/

/-- A nested `forbid`, or a tick. -/
def Event.Nests : Event → Prop
  | .forbid | .irq .timer => True
  | _ => False

instance : DecidablePred Event.Nests
  | .forbid | .irq .timer => inferInstanceAs (Decidable True)
  | .irq (.device _) | .permit | .create .. | .syscall .. | .wake _ => inferInstanceAs (Decidable False)

theorem reach_forbids (hm : c.mode = .ring3) (n : Nat) : Reach step (fun _ e => e.2.Nests) c
    ⟨{ c.sys with forbidCounter := c.sys.forbidCounter + BitVec.ofNat 32 n }, .ring3⟩ := by
  induction n with
  | zero =>
    obtain ⟨s, mode⟩ := c
    obtain rfl := hm
    have h0 : s.forbidCounter + BitVec.ofNat 32 0 = s.forbidCounter := BitVec.add_zero _
    show Reach step _ _ ⟨{ s with forbidCounter := s.forbidCounter + BitVec.ofNat 32 0 }, .ring3⟩
    rw [h0]
    exact .start
  | succ n ih =>
    refine ih.next (0, .forbid) trivial ?_
    rw [BitVec.ofNat_add, ← BitVec.add_assoc]
    rfl

/-- Nested `2 ^ 31 - 1` deep, `forbid` does not hold: the counter is negative, and the time slice ends. -/
theorem forbid_wraps : ∃ c₁ c', Reach step (fun _ _ => True) bootZero sectionStart ∧ Booted bootZero ∧
    sectionStart.sys.forbidCounter = 0 ∧ step sectionStart (8, .forbid) = some c₁ ∧
    Reach step (fun _ e => e.2.Nests) c₁ c' ∧ sectionStart.sys.runningThread = 8192 ∧
    c'.sys.runningThread = 12288 := by
  have hstart : exec step bootZero [create 12288 15, (8, .permit)] = some sectionStart := by rfl
  have hsome : (step sectionStart (8, .forbid)).isSome := by rfl
  obtain ⟨c₁, h1⟩ := Option.isSome_iff_exists.1 hsome
  have hdeep : ∃ c', exec step ⟨{ c₁.sys with forbidCounter := c₁.sys.forbidCounter + BitVec.ofNat 32 (2 ^ 31 - 1) },
      .ring3⟩ (List.replicate 11 tick) = some c' ∧ c'.sys.runningThread = 12288 := by
    cases h1
    exact ⟨_, rfl, by decide +kernel⟩
  obtain ⟨c', h2, h3⟩ := hdeep
  have hm : c₁.mode = .ring3 := by
    cases h1
    rfl
  have hticks : ∀ e ∈ List.replicate 11 tick, e.2.Nests := by decide
  refine ⟨c₁, c', reach_exec hstart, bootZero_booted, by decide +kernel, h1, ?_, by decide +kernel, h3⟩
  exact (reach_forbids hm _).trans (reach_exec_forall hticks h2)

end Krypton
