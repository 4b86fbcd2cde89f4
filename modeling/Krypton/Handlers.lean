import Krypton.Sound

/-!
# What a kernel entry does before the dispatcher

Every function called between the entry and `dispatch` keeps `Sound` and leaves the dispatcher's
data alone (`Quiet`): the running thread, `TS_RUN` and `TB_LAUNCH`, the saved stack pointers and the
page directories. There is one lemma for each function, in the order of the calls.
-/

namespace Krypton

/-- What only the dispatcher changes in a thread. -/
structure Thread.Keeps (th th' : Thread) : Prop where
  run : Has th'.threadFlags tsRun ↔ Has th.threadFlags tsRun
  signal : Has th'.threadFlags tbSignal ↔ Has th.threadFlags tbSignal
  launch : Has th'.threadFlags tbLaunch ↔ Has th.threadFlags tbLaunch
  kernelEsp : th'.kernelEsp = th.kernelEsp
  pageDirectory : th'.pageDirectory = th.pageDirectory
  uid : th'.uid = th.uid
  userEsp : th'.userEsp = th.userEsp
  initialEip : th'.initialEip = th.initialEip

theorem Thread.Keeps.refl (th : Thread) : th.Keeps th := ⟨.rfl, .rfl, .rfl, rfl, rfl, rfl, rfl, rfl⟩

theorem Thread.Keeps.trans {a b c : Thread} (h : a.Keeps b) (h' : b.Keeps c) : a.Keeps c :=
  ⟨h'.run.trans h.run, h'.signal.trans h.signal, h'.launch.trans h.launch,
    h'.kernelEsp.trans h.kernelEsp, h'.pageDirectory.trans h.pageDirectory, h'.uid.trans h.uid,
    h'.userEsp.trans h.userEsp, h'.initialEip.trans h.initialEip⟩

/-- The thread `_wait_for_flags` puts to sleep. -/
def Thread.toWait (th : Thread) (flags : Word) : Thread :=
  { th with threadFlags := th.threadFlags &&& ~~~tsReady ||| tsWait, sigWait := th.sigWait ||| flags }

/-- The thread `_signal` wakes. -/
def Thread.toReady (th : Thread) (flags : Word) : Thread :=
  { th with
    sigRecvd := th.sigRecvd ||| flags
    sigWait := th.sigWait &&& ~~~flags
    threadFlags := th.threadFlags &&& ~~~tsWait ||| tsReady }

theorem Thread.keeps_toWait (th : Thread) (flags : Word) : th.Keeps (th.toWait flags) := by
  refine ⟨?_, ?_, ?_, rfl, rfl, rfl, rfl, rfl⟩
  all_goals exact (has_or_keep (by decide)).trans (has_and_keep (by decide))

theorem Thread.keeps_toReady (th : Thread) (flags : Word) : th.Keeps (th.toReady flags) := by
  refine ⟨?_, ?_, ?_, rfl, rfl, rfl, rfl, rfl⟩
  all_goals exact (has_or_keep (by decide)).trans (has_and_keep (by decide))

namespace Sys
variable {s s' s'' : Sys} {l n t p fuel : Nat} {th : Thread}

structure Quiet (s s' : Sys) : Prop where
  running : s'.runningThread = s.runningThread := by rfl
  created : s'.created = s.created := by rfl
  kernel : s'.kernelThread = s.kernelThread := by rfl
  base : s'.sysBase = s.sysBase := by rfl
  kReenter : s'.kReenter = s.kReenter := by rfl
  esp : s'.esp = s.esp := by rfl
  threads : ∀ t, (s.thread t).Keeps (s'.thread t) := by exact fun _ => .refl _
  log : ∃ es, s'.log = es ++ s.log ∧ ∀ e ∈ es, e.Quiet := by exact ⟨[], rfl, by simp⟩

/-- The lists, the flags and the clock are no part of what handlers keep. -/
theorem Quiet.store (s : Sys) (m : Mem) (flags tick count : Word) :
    Quiet s { s with mem := m, sysFlags := flags, systemTick := tick, tsCurrCount := count } := {}

theorem Quiet.refl (s : Sys) : Quiet s s := .store s _ _ _ _

theorem Quiet.trans (h : Quiet s s') (h' : Quiet s' s'') : Quiet s s'' where
  running := h'.running.trans h.running
  created := h'.created.trans h.created
  kernel := h'.kernel.trans h.kernel
  base := h'.base.trans h.base
  kReenter := h'.kReenter.trans h.kReenter
  esp := h'.esp.trans h.esp
  threads t := (h.threads t).trans (h'.threads t)
  log := by
    obtain ⟨es, h1, h2⟩ := h.log
    obtain ⟨es', h3, h4⟩ := h'.log
    refine ⟨es' ++ es, by rw [h3, h1, List.append_assoc], fun e he => ?_⟩
    exact (List.mem_append.1 he).elim (h4 e) (h2 e)

theorem Quiet.setThread (h : (s.thread t).Keeps th) : Quiet s (s.setThread t th) where
  threads x := by
    show (s.thread x).Keeps (if x = t then th else s.thread x)
    split_ifs with hx
    · exact hx ▸ h
    · exact .refl _

theorem Quiet.threads_eq (h : Quiet s s') : s'.threads = s.threads := by
  unfold Sys.threads
  rw [h.created, h.kernel]

theorem waitForFlags_cases {flags : Word} (h : s.waitForFlags fuel flags = some s') :
    ∃ m', enqueue fuel s.mem s.threadWait s.runningThread = some m' ∧
      s' = { s.setThread s.runningThread (s.running.toWait flags) with
        mem := m'
        sysFlags := s.sysFlags ||| needTaskSwitch
        log := .block s.runningThread :: s.log } := by
  obtain ⟨s₁, h1, h2⟩ := Option.bind_eq_some_iff.1 h
  obtain ⟨m', hm', rfl⟩ := Option.map_eq_some_iff.1 h1
  exact ⟨m', hm', (Option.some.inj h2).symm⟩

theorem requeue_cases (h : s.requeue fuel = some s') :
    ∃ m', enqueue fuel s.mem s.threadReady s.runningThread = some m' ∧
      s' = { s with mem := m', sysFlags := s.sysFlags ||| needTaskSwitch } := by
  obtain ⟨s₁, h1, h2⟩ := Option.bind_eq_some_iff.1 h
  obtain ⟨m', hm', rfl⟩ := Option.map_eq_some_iff.1 h1
  exact ⟨m', hm', (Option.some.inj h2).symm⟩

theorem signal_cases {flags : Word} (h : s.signal fuel t flags = some s') :
    ((t = 0 ∨ (s.thread t).sigWait = 0 ∨ (s.thread t).sigWait &&& flags = 0) ∧ s' = s) ∨
      ((s.thread t).sigWait &&& flags ≠ 0 ∧
        ∃ m', enqueue fuel (remove s.mem t) s.threadReady t = some m' ∧
          s' = { s.setThread t ((s.thread t).toReady flags) with
            mem := m'
            sysFlags := s.sysFlags ||| needSchedule }) := by
  unfold Sys.signal at h
  dsimp only at h
  split_ifs at h with h0
  · exact .inl ⟨h0, (Option.some.inj h).symm⟩
  · obtain ⟨s₁, h1, h2⟩ := Option.bind_eq_some_iff.1 h
    obtain ⟨m', hm', rfl⟩ := Option.map_eq_some_iff.1 h1
    exact .inr ⟨fun he => h0 (.inr (.inr he)), m', hm', (Option.some.inj h2).symm⟩

/-- The state of `_msg_post` in front of `_signal`; `s` is the state behind `kmalloc`. -/
def delivered (s : Sys) (t p : Nat) (src : Buf) (bufSz : BitVec 16) : Sys :=
  (s.queued t p (memcpy (s.msgBuf p) src 0 bufSz.toNat) ((List.range bufSz.toNat).map src)).setThread t
    { s.thread t with numMsg := (s.thread t).numMsg + 1 }

theorem msgPost_cases {src : Buf} {bufSz : BitVec 16} (h : s.msgPost fuel t p src bufSz = some s') :
    (bufSz.toNat > maxMsgSz ∧ s' = s) ∨ (bufSz.toNat ≤ maxMsgSz ∧
      ∃ s₁, s.kmalloc p sizeofMessage = some s₁ ∧
        (s₁.delivered t p src bufSz).signal fuel t stMesg = some s') := by
  unfold Sys.msgPost at h
  split_ifs at h with h0
  · exact .inl ⟨h0, (Option.some.inj h).symm⟩
  · obtain ⟨s₁, h1, h2⟩ := Option.bind_eq_some_iff.1 h
    exact .inr ⟨by omega, s₁, h1, h2⟩

/-! ### `Kept` -/

/-- The two facts kept by everything a kernel entry does before `dispatch`. -/
structure Kept (s s' : Sys) : Prop where
  sound : s'.Sound
  quiet : Quiet s s'

theorem Kept.trans (h : Kept s s') (h' : Kept s' s'') : Kept s s'' :=
  ⟨h'.sound, h.quiet.trans h'.quiet⟩

theorem Kept.refl (h : s.Sound) : Kept s s := ⟨h, .refl s⟩

/-- `enqueue` on one of the scheduler's lists, as state change. -/
theorem Sound.enqueue {m' : Mem} (h : s.Sound) (hl : l = s.threadReady ∨ l = s.threadWait)
    (hn : n ∈ s.threads) (he : enqueue fuel s.mem l n = some m') : { s with mem := m' }.Sound :=
  (h.enqueueThread hl hn (Option.map_eq_some_iff.2 ⟨m', he, rfl⟩)).1

theorem Sound.waitForFlags (h : s.Sound) (hr : s.runningThread ∈ s.threads) {flags : Word}
    (hw : s.waitForFlags fuel flags = some s') : Kept s s' := by
  obtain ⟨m', hm', rfl⟩ := waitForFlags_cases hw
  have hs := (h.enqueue (.inr rfl) hr hm').record (e := .block s.runningThread) trivial hr
  refine ⟨hs.congr ⟨rfl, rfl, rfl, rfl, rfl, rfl, rfl⟩,
    Quiet.trans (Quiet.setThread (Thread.keeps_toWait s.running flags)) ?_⟩
  exact ⟨rfl, rfl, rfl, rfl, rfl, rfl, fun _ => .refl _, [.block s.runningThread], rfl, by simp [Ev.Quiet]⟩

theorem Sound.requeue (h : s.Sound) (hr : s.runningThread ∈ s.threads)
    (hw : s.requeue fuel = some s') : Kept s s' := by
  obtain ⟨m', hm', rfl⟩ := requeue_cases hw
  exact ⟨(h.enqueue (.inl rfl) hr hm').congr ⟨rfl, rfl, rfl, rfl, rfl, rfl, rfl⟩, .store s _ _ _ _⟩

theorem Sound.signal (h : s.Sound) (ht : t ∈ s.created) {flags : Word}
    (hs : s.signal fuel t flags = some s') : Kept s s' := by
  rcases signal_cases hs with ⟨-, rfl⟩ | ⟨-, m', hm', rfl⟩
  · exact .refl h
  · refine ⟨((h.remove ht).enqueue (.inl rfl) (created_sub ht) hm').congr ⟨rfl, rfl, rfl, rfl, rfl, rfl, rfl⟩, ?_⟩
    exact Quiet.trans (Quiet.setThread (Thread.keeps_toReady (s.thread t) flags)) (.store _ _ _ _ _)

theorem Sound.msgPost (h : s.Sound) (ht : t ∈ s.created) {src : Buf} {bufSz : BitVec 16}
    (hp : s.msgPost fuel t p src bufSz = some s') : Kept s s' := by
  rcases msgPost_cases hp with ⟨-, rfl⟩ | ⟨-, s₁, h1, h2⟩
  · exact .refl h
  have hq := (h.queued ht (memcpy_matches (s₁.msgBuf p) src bufSz.toNat) h1).1
  have hd : (s₁.delivered t p src bufSz).Sound := hq.congr ⟨rfl, rfl, rfl, rfl, rfl, rfl, rfl⟩
  obtain ⟨-, -, rfl⟩ := kmalloc_cases h1
  have hs := hd.signal ht h2
  refine ⟨hs.sound, Quiet.trans ?_ hs.quiet⟩
  have hn : (s.thread t).Keeps { s.thread t with numMsg := (s.thread t).numMsg + 1 } :=
    ⟨.rfl, .rfl, .rfl, rfl, rfl, rfl, rfl, rfl⟩
  refine (Quiet.setThread hn).trans { log := ⟨[.post t _], rfl, ?_⟩ }
  simp [Ev.Quiet]

/-! ### System calls and interrupt handlers -/

theorem msgCycle_of_empty (h : s.mem.next (s.mem.head (messageList s.runningThread)) = 0) :
    s.msgCycle = s := by
  unfold Sys.msgCycle removeHead
  simp [h]

/-- `_msg_cycle` finds no message, or a created thread deletes its first one. -/
theorem Sound.msgCycle_cases (h : s.Sound) (hr : s.runningThread ∈ s.threads) (hstray : ¬ s.StrayCycle 3) :
    s.msgCycle = s ∨ s.runningThread ∈ s.created ∧
      ∃ q p ps, s.Ports h.objects q ∧ q s.runningThread = p :: ps ∧ s.msgCycle = s.deleted p := by
  rcases List.mem_append.1 hr with hc | hk
  · obtain ⟨q, hq⟩ := h.ports
    cases hqt : q s.runningThread with
    | nil => exact .inl (msgCycle_nil hq hc hqt)
    | cons p ps => exact .inr ⟨hc, q, p, ps, hq, hqt, msgCycle_cons hq hc hqt⟩
  · -- the kernel thread finds its list empty, or the call is stray
    have hk : s.runningThread = s.kernelThread := List.mem_singleton.1 hk
    refine .inl (msgCycle_of_empty ?_)
    rw [hk]
    exact not_not.1 fun h0 => hstray ⟨hk, rfl, h0⟩

theorem Sound.msgCycle_kept (h : s.Sound) (hr : s.runningThread ∈ s.threads)
    (hstray : ¬ s.StrayCycle 3) : Kept s s.msgCycle := by
  rcases h.msgCycle_cases hr hstray with he | ⟨hc, q, p, ps, -, -, he⟩
  · rw [he]
    exact .refl h
  · refine ⟨h.msgCycle hc, ?_⟩
    rw [he]
    exact { log := ⟨[_], rfl, by simp [Ev.Quiet]⟩ }

theorem Sound.syscall (h : s.Sound) (hr : s.runningThread ∈ s.threads) {eax ebx : Word}
    (hstray : ¬ s.StrayCycle eax) (hs : s.syscall fuel eax ebx = some s') : Kept s s' := by
  unfold Sys.syscall at hs
  split_ifs at hs with h0 h1 h2 h3 h4
  · exact Option.some.inj hs ▸ .refl h
  · exact h.waitForFlags hr hs
  · exact Option.some.inj hs ▸ .refl h
  · rw [← Option.some.inj hs]
    exact ⟨h.msgRetrieve hr ebx, { log := ⟨[_], rfl, by simp [Ev.Quiet]⟩ }⟩
  · rw [← Option.some.inj hs]
    exact h.msgCycle_kept hr (h4 ▸ hstray)
  · exact Option.some.inj hs ▸ .refl h

theorem timerCallback_eq (s : Sys) : ∃ tick count flags, s.timerCallback =
    { s with systemTick := tick, tsCurrCount := count, sysFlags := flags } := by
  unfold timerCallback
  dsimp only
  split_ifs
  · exact ⟨_, s.tsCurrCount, s.sysFlags, rfl⟩
  · exact ⟨_, _, _, rfl⟩
  · exact ⟨_, _, s.sysFlags, rfl⟩

theorem Sound.timerCallback (h : s.Sound) : Kept s s.timerCallback := by
  obtain ⟨tick, count, flags, he⟩ := timerCallback_eq s
  rw [he]
  exact ⟨h.congr ⟨rfl, rfl, rfl, rfl, rfl, rfl, rfl⟩, .store s _ flags tick count⟩

theorem Sound.trap (h : s.Sound) : s.trap.Sound := h.congr ⟨rfl, rfl, rfl, rfl, rfl, rfl, rfl⟩

theorem Sound.enter (h : s.Sound) : s.enter.Sound := h.congr ⟨rfl, rfl, rfl, rfl, rfl, rfl, rfl⟩

theorem reschedule_nested (hk : ¬ s.kReenter ≤ 0) : s.reschedule fuel = some s :=
  if_neg fun hc => hk hc.2

/-- Inside a handler `k_reenter` is `0`, or `1` when the handler interrupted the idle loop. -/
def InHandler (s : Sys) : Prop := s.kReenter = 0 ∨ s.kReenter = 1

theorem syscall_print : s.syscall fuel 1 0 = some s := by
  unfold Sys.syscall
  split_ifs <;> first | rfl | contradiction

theorem noSwitch_enter (s : Sys) : s.enter.noSwitch = s := by
  unfold noSwitch enter
  simp

theorem nestedPrint_eq (hk : s.InHandler) : s.nestedPrint fuel = some s := by
  have hk1 : ¬ s.enter.kReenter ≤ 0 ∧ s.enter.kReenter ≠ 0 := by
    show ¬ s.kReenter + 1 ≤ 0 ∧ s.kReenter + 1 ≠ 0
    rcases hk with hk | hk <;> rw [hk] <;> decide
  have hi : s.idtHandler fuel 1 0 = some s.enter := by
    unfold idtHandler
    rw [syscall_print]
    exact reschedule_nested hk1.1
  have hd : s.enter.dispatch .kernel = ⟨s, .kernel⟩ := by
    unfold dispatch
    rw [if_neg fun hc => hk1.2 hc.1, noSwitch_enter]
  unfold nestedPrint
  simp only [hi, Option.bind_eq_bind, Option.bind_some, hd, if_true]

theorem Sound.act (h : s.Sound) (hk : s.InHandler) {a : Act} (ha : s.act fuel a = some s') :
    Kept s s' := by
  cases a with
  | post t p src bufSz =>
    unfold Sys.act at ha
    dsimp only at ha
    split_ifs at ha with ht
    exact h.msgPost ht ha
  | signal t flags =>
    unfold Sys.act at ha
    dsimp only at ha
    split_ifs at ha with ht
    exact h.signal ht ha
  | print =>
    have he : s.act fuel .print = some s := nestedPrint_eq hk
    rw [he] at ha
    exact Option.some.inj ha ▸ .refl h

theorem InHandler.quiet (hk : s.InHandler) (h : Quiet s s') : s'.InHandler := by
  unfold InHandler
  rw [h.kReenter]
  exact hk

theorem Sound.acts {as : List Act} (h : s.Sound) (hk : s.InHandler)
    (ha : s.acts fuel as = some s') : Kept s s' := by
  induction as generalizing s with
  | nil => exact Option.some.inj ha ▸ .refl h
  | cons a as ih =>
    obtain ⟨s₁, h1, h2⟩ := Option.bind_eq_some_iff.1 ha
    have hs := h.act hk h1
    exact hs.trans (ih hs.sound (hk.quiet hs.quiet) h2)

theorem Sound.handle {d : Handler} (h : s.Sound) (hk : s.InHandler)
    (hd : s.handle fuel d = some s') : Kept s s' := by
  cases d with
  | timer => exact Option.some.inj hd ▸ h.timerCallback
  | device as => exact h.acts hk hd

theorem Sound.schedule (h : s.Sound) (hr : s.runningThread ∈ s.threads)
    (hs : s.schedule fuel = some s') : Kept s s' := by
  unfold Sys.schedule at hs
  split_ifs at hs
  · exact Option.some.inj hs ▸ .refl h
  · exact h.requeue hr hs
  · exact h.requeue hr hs
  · exact Option.some.inj hs ▸ .refl h

theorem Sound.reschedule (h : s.Sound) (hr : s.runningThread ∈ s.threads)
    (hs : s.reschedule fuel = some s') : Kept s s' := by
  unfold Sys.reschedule at hs
  split_ifs at hs
  · have hc : Kept s { s with sysFlags := s.sysFlags &&& ~~~needSchedule } :=
      ⟨h.congr ⟨rfl, rfl, rfl, rfl, rfl, rfl, rfl⟩, .store s _ _ _ _⟩
    exact hc.trans (hc.sound.schedule hr hs)
  · exact Option.some.inj hs ▸ .refl h

theorem Kept.mem (h : Kept s s') (hr : s.runningThread ∈ s.threads) : s'.runningThread ∈ s'.threads := by
  rw [h.quiet.running, h.quiet.threads_eq]
  exact hr

theorem Sound.idtHandler (h : s.Sound) (hr : s.runningThread ∈ s.threads) {eax ebx : Word}
    (hstray : ¬ s.StrayCycle eax) (hs : s.idtHandler fuel eax ebx = some s') : Kept s.enter s' := by
  obtain ⟨s₁, h1, h2⟩ := Option.bind_eq_some_iff.1 hs
  have hk := Sound.syscall (s := s.enter) h.enter hr hstray h1
  exact hk.trans (hk.sound.reschedule (hk.mem hr) h2)

theorem Sound.irqHandler {d : Handler} (h : s.Sound) (hr : s.runningThread ∈ s.threads)
    (hk : s.enter.InHandler) (hs : s.irqHandler fuel d = some s') : Kept s.enter s' := by
  obtain ⟨s₁, h1, h2⟩ := Option.bind_eq_some_iff.1 hs
  have hd := Sound.handle (s := s.enter) h.enter hk h1
  exact hd.trans (hd.sound.reschedule (hd.mem hr) h2)

end Sys
end Krypton
