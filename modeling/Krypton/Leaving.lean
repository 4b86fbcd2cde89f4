import Krypton.Boot

/-!
# What the way out of the kernel leaves alone

The dispatcher and the end of `switch_threads` store the links of the scheduler's lists, the flags and the saved stack
pointers of threads, and words of `sys_base`; what they log are their own entries (`Exits`). So what a step behind the
idle loop does to the ports, the blocks and the users' memory is what the interrupts on the way out do
(`Traces.wakeUp`).
-/

namespace Krypton

/-- Entries of the dispatcher. -/
def Ev.Switch : Ev → Prop
  | .save .. | .dispatch .. => True
  | _ => False

theorem switch_append {t : Nat} {es : List Ev} (l : List Ev) (h : ∀ e ∈ es, e.Switch) :
    posted t (es ++ l) = posted t l ∧ cycled t (es ++ l) = cycled t l := by
  induction es with
  | nil => exact ⟨rfl, rfl⟩
  | cons e es ih =>
    obtain ⟨he, hes⟩ := List.forall_mem_cons.1 h
    cases e with
    | save | dispatch => exact ih hes
    | block | post | retrieve | cycle => exact he.elim

namespace Sys
variable {s s' s'' : Sys} {n fuel : Nat} {back : Mode} {a : Arrivals}

structure Exits (s s' : Sys) : Prop where
  thread : ∀ t, ∃ esp flags, s'.thread t = { s.thread t with kernelEsp := esp, threadFlags := flags }
  log : ∃ es, s'.log = es ++ s.log ∧ ∀ e ∈ es, e.Switch
  msgBuf : s'.msgBuf = s.msgBuf := by rfl
  user : s'.user = s.user := by rfl
  blocks : s'.blocks = s.blocks := by rfl
  created : s'.created = s.created := by rfl

namespace Exits

theorem trans (h : Exits s s') (h' : Exits s' s'') : Exits s s'' := by
  obtain ⟨es, h1, h2⟩ := h.log
  obtain ⟨es', h3, h4⟩ := h'.log
  refine ⟨fun t => ?_, ⟨es' ++ es, by rw [h3, h1, List.append_assoc], ?_⟩, h'.msgBuf.trans h.msgBuf, h'.user.trans h.user,
    h'.blocks.trans h.blocks, h'.created.trans h.created⟩
  · obtain ⟨esp, flags, ht⟩ := h.thread t
    obtain ⟨esp', flags', ht'⟩ := h'.thread t
    rw [ht] at ht'
    exact ⟨esp', flags', ht'⟩
  · exact fun e he => (List.mem_append.1 he).elim (h4 e) (h2 e)

/-- Stores to the lists and to words of `sys_base`. -/
theorem same (h1 : s'.thread = s.thread) (h2 : s'.log = s.log) (h3 : s'.msgBuf = s.msgBuf) (h4 : s'.user = s.user)
    (h5 : s'.blocks = s.blocks) (h6 : s'.created = s.created) : Exits s s' :=
  ⟨fun t => ⟨_, _, congrFun h1 t⟩, ⟨[], h2, by simp⟩, h3, h4, h5, h6⟩

theorem setThread {th : Thread} (esp flags : Word) (h : th = { s.thread n with kernelEsp := esp, threadFlags := flags }) :
    Exits s (s.setThread n th) := by
  refine ⟨fun t => ?_, ⟨[], rfl, by simp⟩, rfl, rfl, rfl, rfl⟩
  show ∃ esp flags, (if t = n then th else s.thread t) = _
  split_ifs with he
  · exact ⟨esp, flags, he ▸ h⟩
  · exact ⟨_, _, rfl⟩

theorem record {e : Ev} (he : e.Switch) : Exits s (s.record e) :=
  ⟨fun _ => ⟨_, _, rfl⟩, ⟨[e], rfl, by simpa using he⟩, rfl, rfl, rfl, rfl⟩

theorem noSwitch (s : Sys) : Exits s s.noSwitch := .same rfl rfl rfl rfl rfl rfl

theorem saveContext (s : Sys) : Exits s s.saveContext := by
  unfold Sys.saveContext
  split_ifs
  · exact (setThread (n := s.runningThread) s.esp s.running.threadFlags rfl).trans (record (e := .save _ _) trivial)
  · exact .same rfl rfl rfl rfl rfl rfl

theorem switchBegin (s : Sys) : Exits s s.switchBegin :=
  (setThread (n := s.runningThread) s.running.kernelEsp _ rfl).trans (.same rfl rfl rfl rfl rfl rfl)

theorem switchTo (s : Sys) (n : Nat) : Exits s (s.switchTo n) := .same rfl rfl rfl rfl rfl rfl

theorem switchRun (s : Sys) : Exits s s.switchRun.loadContext := by
  have h1 : Exits s s.switchRun :=
    (setThread (n := s.runningThread) s.running.kernelEsp _ rfl).trans (.same rfl rfl rfl rfl rfl rfl)
  have h2 : Exits s.switchRun { s.switchRun with
      esp := s.switchRun.running.kernelEsp, cr3 := s.switchRun.running.pageDirectory } := .same rfl rfl rfl rfl rfl rfl
  exact (h1.trans h2).trans (record (e := .dispatch _ _ _ _) trivial)

theorem clearLaunch (s : Sys) : Exits s s.clearLaunch := setThread s.running.kernelEsp _ rfl

theorem clearFlags (s : Sys) : Exits s s.clearFlags := setThread s.running.kernelEsp _ rfl

theorem resume (s : Sys) : Exits s s.switchRun.resume := by
  have h := switchRun s
  unfold Sys.resume
  dsimp only
  split_ifs
  · exact (h.trans (noSwitch _)).trans (clearLaunch _)
  · exact (h.trans (clearFlags _)).trans (noSwitch _)

theorem unlinkNext (s : Sys) (n : Nat) : Exits s (s.unlinkNext n) := .same rfl rfl rfl rfl rfl rfl

theorem unlinkPrev (s : Sys) (n : Nat) : Exits s (s.unlinkPrev n) := .same rfl rfl rfl rfl rfl rfl

theorem switchIn (s : Sys) (n : Nat) : Exits s (s.switchIn n) :=
  (((unlinkNext s n).trans (unlinkPrev _ n)).trans (switchTo _ n)).trans (resume _)

theorem idleLoop (s : Sys) : Exits s s.idleLoop.sys := by
  unfold Sys.idleLoop
  dsimp only
  split_ifs
  · exact .same rfl rfl rfl rfl rfl rfl
  · exact switchIn s _

theorem switched (s : Sys) : Exits s s.saveContext.switchBegin.idleLoop.sys :=
  ((saveContext s).trans (switchBegin _)).trans (idleLoop _)

theorem dispatch (s : Sys) (back : Mode) : Exits s (s.dispatch back).sys := by
  unfold Sys.dispatch
  split_ifs
  · exact switched s
  · exact noSwitch s

end Exits

/-! ### The interrupts on the way out -/

/-- `R` relates the states in front of and behind a number of interrupts, whatever the dispatcher does between them. -/
structure Traces (fuel : Nat) (R : List Handler → Sys → Sys → Prop) : Prop where
  exits : ∀ {s s'}, Exits s s' → R [] s s'
  trans : ∀ {ds ds' s s' s''}, R ds s s' → R ds' s' s'' → R (ds ++ ds') s s''
  irq : ∀ {s s' d}, s.enter.InHandler → s.irqHandler fuel d = some s' → R [d] s s'

namespace Traces
variable {R : List Handler → Sys → Sys → Prop}

theorem after (hR : Traces fuel R) {ds : List Handler} (h : Exits s s') (h' : R ds s' s'') : R ds s s'' :=
  hR.trans (hR.exits h) h'

theorem before (hR : Traces fuel R) {ds : List Handler} (h : R ds s s') (h' : Exits s' s'') : R ds s s'' := by
  have := hR.trans h (hR.exits h')
  rwa [List.append_nil] at this

theorem serve (hR : Traces fuel R) {ds : List Handler} (hS : s.Sound) (hk : s.kReenter = 0)
    (h : s.serve fuel ds = some s') : R ds s s' := by
  induction ds generalizing s with
  | nil => exact Option.some.inj h ▸ hR.exits (.same rfl rfl rfl rfl rfl rfl)
  | cons d ds ih =>
    obtain ⟨s₁, h1, h2⟩ := serve_cons hS hk h
    have hkept := irqHandler_kept hS hk h1
    have hone : s.enter.InHandler := .inr (show s.kReenter + 1 = 1 by rw [hk]; rfl)
    exact hR.trans (hR.before (hR.irq hone h1) (.noSwitch s₁)) (ih hkept.sound (hkept.quiet.kReenter.trans hk) h2)

theorem launchEnd (hR : Traces fuel R) {ds : List (Handler × Word)} {c' : Config} (hS : s.Sound)
    (hr : s.runningThread ∈ s.threads) (hk : s.kReenter = -1) (h : s.launchEnd fuel ds = some c') :
    R (ds.map Prod.fst) s c'.sys := by
  induction ds generalizing s with
  | nil => exact Option.some.inj h ▸ hR.exits (.clearLaunch s)
  | cons d ds ih =>
    obtain ⟨s₁, h1, hkept, hr₁, hk₁, hend⟩ := launchEnd_cons hS hr hk h
    have hzero : ({ s with esp := d.2 } : Sys).enter.InHandler := .inl (show s.kReenter + 1 = 0 by rw [hk]; rfl)
    have hesp : Exits s { s with esp := d.2 } := .same rfl rfl rfl rfl rfl rfl
    have hd : R [d.1] s s₁ := hR.after hesp (hR.irq hzero h1)
    rcases hend with ⟨rfl, -, rfl⟩ | ⟨-, hend⟩
    · exact hR.before hd (.switched s₁)
    · have hret := Consistent.ret hkept.sound hr₁ hk₁
      exact hR.trans (hR.before hd (.noSwitch s₁)) (ih hret.sound hr₁ (hret.ring3_kReenter rfl) hend)

end Traces
end Sys

open Sys

variable {c c' : Config} {fuel : Nat} {a : Arrivals} {R : List Handler → Sys → Sys → Prop}

theorem Sys.Traces.wakeUp (hR : Traces fuel R) (hi : Consistent c) (hm : c.mode = .idle)
    (h : c.sys.wakeUp fuel a = some c') : R a.handlers c.sys c'.sys := by
  unfold Sys.wakeUp at h
  dsimp only at h
  split_ifs at h with h0 ha
  · obtain rfl := Option.some.inj h
    obtain ⟨h1, h2, h3, h4, h5⟩ := ha
    have hnil : a.handlers = [] := by
      unfold Arrivals.handlers
      rw [h1, h2, h3, h4, h5]
      rfl
    rw [hnil]
    exact hR.exits (.same rfl rfl rfl rfl rfl rfl)
  obtain ⟨s₁, s₂, s₃, s₄, hw, hend⟩ := leaveLoop_cases hi.sound (hi.idle_kReenter hm) (hi.sound.hasLinks h0) h
  have r1 := hR.serve hi.sound hw.kReenter hw.found
  have r2 := hR.after (.unlinkNext s₁ _) (hR.serve hw.sound₁ hw.kReenter₁ hw.unlinking)
  have r3 := hR.after (.unlinkPrev s₂ _) (hR.serve hw.sound₂ hw.kReenter₂ hw.unlinked)
  have r4 := hR.after (.switchTo s₃ _) (hR.serve hw.sound₃ hw.kReenter₃ hw.restarted)
  have hout := hR.before (hR.trans (hR.trans (hR.trans r1 r2) r3) r4) (.switchRun s₄)
  split_ifs at hend with hl he
  · exact hR.trans (hR.before hout (.noSwitch _)) (hR.launchEnd hw.launch_sound hw.running_mem hw.launch_kReenter hend)
  · obtain rfl := Option.some.inj hend
    unfold Arrivals.handlers
    rw [he, List.map_nil, List.append_nil]
    exact hR.before (hR.before hout (.clearFlags _)) (.noSwitch _)

end Krypton
