import Krypton.Blocking
import Krypton.Steady

/-!
# The lists in order

`Lined W`: every thread is in one place, `thread_ready` is in the order of priorities, and a thread that waits for a
signal of its mask `W t` is on `thread_wait`. `_signal` keeps this as long as its flags cover what the thread it wakes
waits for under the mask (`Covers`); `Kicked` says what a handler changes of what the scheduler goes by.
-/

namespace Krypton

/-- What kernel code does in an interrupt: an act of a device's handler, or `_signal` of the kernel thread. -/
inductive Kick
  | act (a : Sys.Act)
  | kernel (flags : Word)

namespace Sys
variable {s s' s'' : Sys} {W : Nat → Word} {out rs rs' rs'' ws : List Nat} {m m' : Mem} {t p x fuel : Nat}
  {flags eax ebx : Word}

instance (m : Mem) : Std.Total m.ByPri := ⟨fun a b => Int.le_total (m.pri b) (m.pri a)⟩

instance (m : Mem) : IsTrans Nat m.ByPri := ⟨fun _ _ _ h h' => Int.le_trans h' h⟩

theorem sorted_congr (h : rs.Pairwise m.ByPri) (hp : ∀ t ∈ rs, m'.pri t = m.pri t) : rs.Pairwise m'.ByPri := by
  refine h.imp_of_mem fun ha hb hab => ?_
  unfold Mem.ByPri
  rw [hp _ ha, hp _ hb]
  exact hab

theorem SameLists.pri (h : SameLists s s') (ht : t ∈ s.threads) : s'.mem.pri t = s.mem.pri t := by
  unfold Mem.pri
  rw [h (t + 12) (.inr ⟨t, ht, by omega, by omega⟩)]

structure Lined (s : Sys) (W : Nat → Word) (out rs ws : List Nat) : Prop where
  queues : s.Queues rs ws
  perm : (out ++ (rs ++ ws)).Perm s.threads
  sorted : rs.Pairwise s.mem.ByPri
  asleep : ∀ t ∈ s.threads, Has (s.thread t).sigWait (W t) → t ∈ ws

/-- `_signal` with `flags` leaves `t` waiting for nothing of its mask, if it wakes it. -/
def Covers (s : Sys) (W : Nat → Word) (t : Nat) (flags : Word) : Prop :=
  Has (s.thread t).sigWait flags →
    Has (s.thread t).sigWait (W t) ∧ ¬ Has ((s.thread t).sigWait &&& ~~~flags) (W t)

instance (s : Sys) (W : Nat → Word) (t : Nat) (flags : Word) : Decidable (s.Covers W t flags) :=
  inferInstanceAs (Decidable (_ → _ ∧ _))

/-- What a handler changes: priorities stay, and a thread is woken with `NEED_SCHEDULE`. -/
structure Kicked (s s' : Sys) (rs rs' : List Nat) : Prop where
  threads : s'.threads = s.threads
  pri : ∀ t ∈ s.threads, s'.mem.pri t = s.mem.pri t
  keeps : Has s.sysFlags needSchedule → Has s'.sysFlags needSchedule
  asked : rs' = rs ∨ Has s'.sysFlags needSchedule
  switch : SameSwitch s s'

theorem Kicked.refl (s : Sys) (rs : List Nat) : Kicked s s rs rs :=
  ⟨rfl, fun _ _ => rfl, id, .inl rfl, .rfl⟩

theorem Kicked.trans (h : Kicked s s' rs rs') (h' : Kicked s' s'' rs' rs'') : Kicked s s'' rs rs'' where
  threads := h'.threads.trans h.threads
  pri t ht := (h'.pri t (h.threads.symm ▸ ht)).trans (h.pri t ht)
  keeps hx := h'.keeps (h.keeps hx)
  asked := by
    rcases h'.asked with he | hx
    · rcases h.asked with he' | hx
      · exact .inl (he.trans he')
      · exact .inr (h'.keeps hx)
    · exact .inr hx
  switch := h'.switch.trans h.switch

namespace Lined

theorem out_notMem (h : s.Lined W [t] rs ws) : t ∉ rs ∧ t ∉ ws := h.queues.out_notMem h.perm

theorem out_mem (h : s.Lined W [t] rs ws) : t ∈ s.threads := h.perm.mem_iff.1 (List.mem_cons_self ..)

theorem congr (h : s.Lined W out rs ws) (h' : s'.Objects) (hb : s'.sysBase = s.sysBase)
    (hc : s'.created = s.created) (hk : s'.kernelThread = s.kernelThread) (hm : SameLists s s')
    (hw : ∀ t, (s'.thread t).sigWait = (s.thread t).sigWait) : s'.Lined W out rs ws := by
  have ht : s'.threads = s.threads := by unfold threads; rw [hc, hk]
  refine ⟨h.queues.congr h' hb (fun t hx => ht ▸ hx) hm, ht ▸ h.perm, ?_, fun t hx => ?_⟩
  · exact sorted_congr h.sorted fun t hx => hm.pri (h.queues.mem_ready t hx)
  · rw [hw]
    exact h.asleep t (ht ▸ hx)

/-- Only the memory, the threads and what they wait for are read. -/
theorem same (h : s.Lined W out rs ws) (hb : s'.blocks = s.blocks) (hs : s'.sysBase = s.sysBase)
    (hc : s'.created = s.created) (hk : s'.kernelThread = s.kernelThread) (hm : s'.mem = s.mem)
    (hw : ∀ t, (s'.thread t).sigWait = (s.thread t).sigWait) : s'.Lined W out rs ws :=
  h.congr (h.queues.objects.congr hb hs (by unfold threads; rw [hc, hk])) hs hc hk
    (Placed.sameLists_of_eq hm) hw

/-! ### The running thread is put on a list -/

theorem requeue (h : s.Lined W [s.runningThread] rs ws) (hs : s.requeue fuel = some s') :
    s'.Lined W [] (rs.orderedInsert s.mem.ByPri s.runningThread) ws ∧ ∀ t ∈ s.threads, s'.mem.pri t = s.mem.pri t := by
  obtain ⟨m', hm', rfl⟩ := requeue_cases hs
  obtain ⟨h1, h2⟩ := h.out_notMem
  obtain ⟨hq, hpri⟩ := h.queues.enqueue_ready h.out_mem h1 h2 hm'
  refine ⟨⟨hq.same rfl rfl rfl rfl, ?_, ?_, h.asleep⟩, hpri⟩
  · exact ((List.perm_orderedInsert _ _ _).append_right ws).trans h.perm
  · exact sorted_congr (h.sorted.orderedInsert _ _) fun t ht => hpri t (hq.mem_ready t ht)

theorem waitForFlags (h : s.Lined W [s.runningThread] rs ws) (hs : s.waitForFlags fuel flags = some s') :
    s'.Lined W [] rs (ws.orderedInsert s.mem.ByPri s.runningThread) := by
  obtain ⟨m', hm', rfl⟩ := waitForFlags_cases hs
  obtain ⟨h1, h2⟩ := h.out_notMem
  obtain ⟨hq, hpri⟩ := h.queues.enqueue_wait h.out_mem h1 h2 hm'
  refine ⟨hq.same rfl rfl rfl rfl, ?_, ?_, fun t ht hw => (List.mem_orderedInsert _).2 ?_⟩
  · refine List.Perm.trans ?_ h.perm
    refine (List.Perm.append_left rs (List.perm_orderedInsert _ _ _)).trans ?_
    exact List.perm_middle
  · exact sorted_congr h.sorted fun t ht => hpri t (h.queues.mem_ready t ht)
  · by_cases he : t = s.runningThread
    · exact .inl he
    · refine .inr (h.asleep t ht ?_)
      replace hw : Has (if t = s.runningThread then s.running.toWait flags else s.thread t).sigWait (W t) := hw
      rwa [if_neg he] at hw

/-! ### A thread is woken -/

theorem signal (h : s.Lined W out rs ws) (ht : t ∈ s.threads) (hc : s.Covers W t flags)
    (hs : s.signal fuel t flags = some s') :
    ∃ rs' ws', s'.Lined W out rs' ws' ∧ Kicked s s' rs rs' := by
  rcases signal_cases hs with ⟨-, rfl⟩ | ⟨hw, m', hm', rfl⟩
  · exact ⟨rs, ws, h, .refl _ rs⟩
  · obtain ⟨hw1, hw2⟩ := hc hw
    obtain ⟨hq, hperm, -, hpri⟩ := h.queues.wakeUp h.perm (h.asleep t ht hw1) hm'
    refine ⟨_, _, ⟨hq.same rfl rfl rfl rfl, hperm, ?_, fun x hx hxw => ?_⟩, rfl, fun x hx => (hpri x hx).1,
      fun _ => has_or_set (by decide), .inr (has_or_set (by decide)), has_or_keep (by decide)⟩
    · have h1 := sorted_congr h.sorted fun x hx => (hpri x (h.queues.mem_ready x hx)).2
      refine sorted_congr (h1.orderedInsert t _) fun x hx => ?_
      have hx' : x ∈ s.threads := hq.mem_ready x hx
      exact (hpri x hx').1.trans (hpri x hx').2.symm
    · replace hxw : Has (if x = t then (s.thread t).toReady flags else s.thread x).sigWait (W x) := hxw
      by_cases he : x = t
      · rw [if_pos he, he] at hxw
        exact absurd hxw hw2
      · rw [if_neg he] at hxw
        exact (List.mem_erase_of_ne he).2 (h.asleep x hx hxw)

theorem msgPost (h : s.Lined W out rs ws) (hS : s.Sound) (ht : t ∈ s.created) {src : Buf} {bufSz : BitVec 16}
    (hc : bufSz.toNat ≤ maxMsgSz → s.Covers W t stMesg) (hp : s.msgPost fuel t p src bufSz = some s') :
    ∃ rs' ws', s'.Lined W out rs' ws' ∧ Kicked s s' rs rs' := by
  rcases msgPost_cases hp with ⟨-, rfl⟩ | ⟨hle, s₁, h1, h2⟩
  · exact ⟨rs, ws, h, .refl _ rs⟩
  · obtain ⟨hq, hlists⟩ := hS.queued ht (memcpy_matches (s₁.msgBuf p) src bufSz.toNat) h1
    have hsound : (s₁.delivered t p src bufSz).Sound := hq.congr {}
    obtain ⟨-, -, rfl⟩ := kmalloc_cases h1
    have hsig := Placed.delivered_sigWait { s with blocks := (p, sizeofMessage) :: s.blocks } t p src bufSz
    have hd : Lined (delivered { s with blocks := (p, sizeofMessage) :: s.blocks } t p src bufSz) W out rs ws :=
      h.congr hsound.objects rfl rfl rfl hlists.sameLists hsig
    have hcov : Covers (delivered { s with blocks := (p, sizeofMessage) :: s.blocks } t p src bufSz) W t stMesg := by
      unfold Covers
      rw [hsig]
      exact hc hle
    obtain ⟨rs', ws', h3, h4⟩ := hd.signal (created_sub ht) hcov h2
    exact ⟨rs', ws', h3, h4.threads, fun x hx => (h4.pri x hx).trans (hlists.sameLists.pri hx), h4.keeps, h4.asked, h4.switch⟩

theorem timerCallback (h : s.Lined W out rs ws) :
    s.timerCallback.Lined W out rs ws ∧ Kicked s s.timerCallback rs rs := by
  have hflags : Has s.sysFlags needSchedule → Has s.timerCallback.sysFlags needSchedule := by
    unfold Sys.timerCallback
    dsimp only
    intro hx
    split_ifs
    · exact hx
    · exact has_or_set (by decide)
    · exact hx
  have hswitch : SameSwitch s s.timerCallback := timerCallback_sameSwitch
  obtain ⟨tick, count, flags, he⟩ := timerCallback_eq s
  rw [he] at hflags hswitch ⊢
  exact ⟨h.same rfl rfl rfl rfl rfl fun _ => rfl, rfl, fun _ _ => rfl, hflags, .inl rfl, hswitch⟩

theorem syscall (h : s.Lined W out rs ws) (hS : s.Sound) (hr : s.runningThread ∈ s.threads)
    (hstray : ¬ s.StrayCycle eax) (hw : eax ≠ 0 ∨ s.running.uid ≠ 0) (hs : s.syscall fuel eax ebx = some s') :
    s'.Lined W out rs ws ∧ Kicked s s' rs rs := by
  unfold Sys.syscall at hs
  split_ifs at hs with h0 h1 h2 h3 h4
  · cases hs; exact ⟨h, .refl _ rs⟩
  · exact absurd h1 (hw.resolve_right h0)
  · cases hs; exact ⟨h, .refl _ rs⟩
  · cases hs
    exact ⟨h.same rfl rfl rfl rfl rfl fun _ => rfl, rfl, fun _ _ => rfl, id, .inl rfl, .rfl⟩
  · cases hs
    rcases hS.msgCycle_cases hr (h4 ▸ hstray) with he | ⟨hc, q, p, ps, hq, hqt, he⟩
    · rw [he]
      exact ⟨h, .refl s rs⟩
    · rw [he]
      obtain ⟨h5, h6⟩ := hS.deleted hq hc hqt
      exact ⟨h.congr h5.objects rfl rfl rfl h6.sameLists fun _ => rfl, rfl, fun x hx => h6.sameLists.pri hx, id,
        .inl rfl, .rfl⟩
  · cases hs; exact ⟨h, .refl _ rs⟩

theorem create {r : Nat} {a : ThreadArgs} (h : s.Lined W out rs ws) (hS : s.Sound)
    (hc : s.createThread fuel p r a = some s') :
    ∃ rs', s'.Lined W out rs' ws ∧ (∀ t ∈ rs', t = p ∨ t ∈ rs) ∧ (∀ t ∈ s.threads, s'.mem.pri t = s.mem.pri t) ∧
      s'.mem.pri p = a.priority.toInt := by
  obtain ⟨⟨hp0, hpd⟩, ⟨hr0, hrd⟩, m', hm', he⟩ := createThread_cases hc
  obtain ⟨hobj, hd, hmem⟩ := hS.described hp0 hpd hr0 hrd
  have hpt := hd.fresh
  -- the lists before the new thread is put on `thread_ready`
  set m := s.portsMem p r a
  have hobj' : { s.described p r a with mem := m }.Objects := hobj.congr rfl rfl rfl
  have hq : { s.described p r a with mem := m }.Queues rs ws :=
    h.queues.congr hobj' rfl (fun t ht => List.mem_cons_of_mem _ ht) hd.frame
  have hframe : SameLists s { s.described p r a with mem := m } := hd.frame
  have hold : ∀ t ∈ s.threads, m.pri t = s.mem.pri t := fun t ht => hframe.pri ht
  have hnew : m.pri p = a.priority.toInt := by
    have hcell : m (p + 12) = a.priority.toNat := by
      rw [hmem (p + 12) (hobj.listByte_ports (.inr ⟨p, List.mem_cons_self .., by omega, by omega⟩))]
      unfold descriptorMem
      rw [Mem.set_ne _ _ (by omega), Mem.set_self]
    unfold Mem.pri
    rw [hcell, BitVec.ofNat_toNat, BitVec.setWidth_eq]
  have hpr : p ∉ rs := fun hx => hpt (h.queues.mem_ready p hx)
  have hpw : p ∉ ws := fun hx => hpt (h.queues.mem_wait p hx)
  obtain ⟨hq', hpri⟩ := hq.enqueue_ready (List.mem_cons_self ..) hpr hpw hm'
  have hsorted : rs.Pairwise m.ByPri := sorted_congr h.sorted fun t ht => hold t (h.queues.mem_ready t ht)
  refine ⟨rs.orderedInsert m.ByPri p, ?_, fun t ht => (List.mem_orderedInsert _).1 ht, fun t ht => ?_, ?_⟩
  · rw [he]
    refine ⟨hq'.same rfl rfl rfl rfl, ?_, ?_, List.forall_mem_cons.2 ⟨fun hx => ?_, fun t ht hx => ?_⟩⟩
    · refine (List.Perm.append_left out ((List.perm_orderedInsert _ _ _).append_right ws)).trans ?_
      exact List.perm_middle.trans (h.perm.cons p)
    · exact sorted_congr (hsorted.orderedInsert _ _) fun t ht => hpri t (hq'.mem_ready t ht)
    · replace hx : Has (if p = p then s.newThread a else s.thread p).sigWait (W p) := hx
      rw [if_pos rfl] at hx
      exact absurd BitVec.zero_and hx
    · have htp : t ≠ p := fun he => hpt (he ▸ ht)
      replace hx : Has (if t = p then s.newThread a else s.thread t).sigWait (W t) := hx
      rw [if_neg htp] at hx
      exact h.asleep t ht hx
  · rw [he]
    exact (hpri t (List.mem_cons_of_mem _ ht)).trans (hold t ht)
  · rw [he]
    exact (hpri p (List.mem_cons_self ..)).trans hnew

end Lined

/-! ### Handlers that may signal the kernel thread -/

def kick (fuel : Nat) (s : Sys) : Kick → Option Sys
  | .act a => s.act fuel a
  | .kernel flags => s.signal fuel s.kernelThread flags

def kicks (fuel : Nat) : Sys → List Kick → Option Sys
  | s, [] => some s
  | s, k :: ks => (s.kick fuel k).bind fun s => kicks fuel s ks

/-- The signals of the act are covered. -/
def KickCovered (s : Sys) (W : Nat → Word) : Kick → Prop
  | .act (.post t _ _ bufSz) => t ∈ s.created → bufSz.toNat ≤ maxMsgSz → s.Covers W t stMesg
  | .act (.signal t flags) => t ∈ s.created → s.Covers W t flags
  | .act .print => True
  | .kernel flags => s.Covers W s.kernelThread flags

instance (s : Sys) (W : Nat → Word) : DecidablePred (s.KickCovered W)
  | .act (.post ..) => inferInstanceAs (Decidable (_ → _ → _))
  | .act (.signal ..) => inferInstanceAs (Decidable (_ → _))
  | .act .print => inferInstanceAs (Decidable True)
  | .kernel _ => inferInstanceAs (Decidable (Covers ..))

/-- All signals are, each in the state in which it is sent. -/
def KicksCovered (fuel : Nat) (W : Nat → Word) : Sys → List Kick → Prop
  | _, [] => True
  | s, k :: ks => s.KickCovered W k ∧ ∀ s', s.kick fuel k = some s' → KicksCovered fuel W s' ks

instance decidableKicksCovered (fuel : Nat) (W : Nat → Word) : ∀ s ks, Decidable (KicksCovered fuel W s ks)
  | _, [] => isTrue trivial
  | s, k :: ks =>
    match h : s.kick fuel k with
    | none => decidable_of_iff (s.KickCovered W k) ⟨fun hc => ⟨hc, by simp [h]⟩, And.left⟩
    | some s' =>
      have := decidableKicksCovered fuel W s' ks
      decidable_of_iff (s.KickCovered W k ∧ KicksCovered fuel W s' ks) (by simp [KicksCovered, h])

theorem kicks_act (fuel : Nat) (s : Sys) (as : List Act) : s.kicks fuel (as.map .act) = s.acts fuel as := by
  induction as generalizing s with
  | nil => rfl
  | cons a as ih =>
    show (s.act fuel a).bind _ = (s.act fuel a).bind _
    exact congrArg _ (funext fun s => ih s)

theorem Sound.remove_waiting (h : s.Sound) (hq : s.Queues rs ws) (ht : t ∈ ws) :
    { s with mem := Krypton.remove s.mem t }.Sound := by
  obtain ⟨N, hN, hc, hty⟩ := h.links
  have hnodes : ∀ y ∈ ws, y ∈ N := by
    refine hty.mem_nodes (.head (.inr rfl)) hq.isList_wait.linked fun y hy l hl => ?_
    have hbase := h.objects.base_thread (hq.mem_wait y hy)
    rcases hl with rfl | rfl
    · unfold threadReady
      omega
    · unfold threadWait
      omega
  obtain ⟨h1, h2⟩ := hty.remove (hnodes t ht)
  exact h.writeLists hN hc h1 h2

theorem Sound.signal_waiting (h : s.Sound) (hq : s.Queues rs ws) (ht : Has (s.thread t).sigWait flags → t ∈ ws)
    (hs : s.signal fuel t flags = some s') : Kept s s' := by
  rcases signal_cases hs with ⟨-, rfl⟩ | ⟨hw, m', hm', rfl⟩
  · exact .refl h
  · have htw := ht hw
    refine ⟨((h.remove_waiting hq htw).enqueue (.inl rfl) (hq.mem_wait t htw) hm').congr {}, ?_⟩
    exact Quiet.trans (Quiet.setThread (Thread.keeps_toReady (s.thread t) flags)) {}

namespace Lined

theorem kick {k : Kick} (h : s.Lined W out rs ws) (hS : s.Sound) (hi : s.InHandler) (hc : s.KickCovered W k)
    (hs : s.kick fuel k = some s') :
    Kept s s' ∧ Steady s s' ∧ ∃ rs' ws', s'.Lined W out rs' ws' ∧ Kicked s s' rs rs' := by
  cases k with
  | kernel flags =>
    have hw : Has (s.thread s.kernelThread).sigWait flags → s.kernelThread ∈ ws := fun hx =>
      h.asleep _ kernel_mem (hc hx).1
    exact ⟨hS.signal_waiting h.queues hw hs, signal_steady hs, h.signal kernel_mem hc hs⟩
  | act a =>
    refine ⟨hS.act hi hs, act_steady hi hs, ?_⟩
    cases a with
    | post t p src bufSz =>
      obtain ⟨ht, hp⟩ := Option.ite_none_right_eq_some.1 hs
      exact h.msgPost hS ht (hc ht) hp
    | signal t flags =>
      obtain ⟨ht, hp⟩ := Option.ite_none_right_eq_some.1 hs
      exact h.signal (created_sub ht) (hc ht) hp
    | print =>
      cases (nestedPrint_eq hi).symm.trans hs
      exact ⟨rs, ws, h, .refl _ rs⟩

theorem kicks {ks : List Kick} (h : s.Lined W out rs ws) (hS : s.Sound) (hi : s.InHandler)
    (hc : KicksCovered fuel W s ks) (hs : s.kicks fuel ks = some s') :
    Kept s s' ∧ Steady s s' ∧ ∃ rs' ws', s'.Lined W out rs' ws' ∧ Kicked s s' rs rs' := by
  induction ks generalizing s rs ws with
  | nil => cases hs; exact ⟨.refl hS, .refl _, rs, ws, h, .refl _ rs⟩
  | cons k ks ih =>
    obtain ⟨s₁, h1, h2⟩ := Option.bind_eq_some_iff.1 hs
    obtain ⟨hkept, hst, rs₁, ws₁, h3, h4⟩ := h.kick hS hi hc.1 h1
    obtain ⟨hkept', hst', rs₂, ws₂, h5, h6⟩ := ih h3 hkept.sound (hi.steady hst) (hc.2 s₁ h1) h2
    exact ⟨hkept.trans hkept', hst.trans hst', rs₂, ws₂, h5, h4.trans h6⟩

/-! ### The scheduler -/

theorem top_of_head (h : s.Lined W out rs ws)
    (hle : ∀ x xs, rs = x :: xs → s.mem.pri x ≤ s.mem.pri s.runningThread) :
    ∀ t ∈ rs, s.mem.pri t ≤ s.mem.pri s.runningThread := by
  cases rs with
  | nil => exact fun t ht => absurd ht List.not_mem_nil
  | cons x xs =>
    have hx := hle x xs rfl
    refine List.forall_mem_cons.2 ⟨hx, fun t ht => ?_⟩
    exact Int.le_trans (List.rel_of_pairwise_cons h.sorted ht) hx

/-- The end of an outermost handler: the running thread is put on `thread_ready`, or nothing changes, and then no
ready thread is above it if `schedule` was called and switching is allowed. -/
theorem reschedule (h : s.Lined W [s.runningThread] rs ws) (hrun : s.runningThread ≠ 0)
    (hn : ¬ Has s.sysFlags needTaskSwitch) (hk : s.kReenter = 0) (hs : s.reschedule fuel = some s') :
    s'.Lined W [] (rs.orderedInsert s.mem.ByPri s.runningThread) ws ∧ Has s'.sysFlags needTaskSwitch ∨
      s'.Lined W [s'.runningThread] rs ws ∧ ¬ Has s'.sysFlags needTaskSwitch ∧ s'.mem = s.mem ∧
        s'.runningThread = s.runningThread ∧
        (Has s.sysFlags needSchedule → s.forbidCounter.toInt ≤ 0 → ∀ t ∈ rs, s.mem.pri t ≤ s.mem.pri s.runningThread) := by
  unfold Sys.reschedule at hs
  split_ifs at hs with hc
  · set s₁ : Sys := { s with sysFlags := s.sysFlags &&& ~~~needSchedule }
    have h₁ : s₁.Lined W [s₁.runningThread] rs ws := h.same rfl rfl rfl rfl rfl fun _ => rfl
    have hn₁ : ¬ Has s₁.sysFlags needTaskSwitch := fun hx => hn ((has_and_keep (by decide)).1 hx)
    have hgrant : s₁.requeue fuel = some s' →
        s'.Lined W [] (rs.orderedInsert s.mem.ByPri s.runningThread) ws ∧ Has s'.sysFlags needTaskSwitch := by
      intro hr
      obtain ⟨hp, -⟩ := h₁.requeue hr
      obtain ⟨m', -, rfl⟩ := requeue_cases hr
      exact ⟨hp, has_or_set (by decide)⟩
    unfold Sys.schedule at hs
    split_ifs at hs with hf hsig hpre
    · obtain rfl := Option.some.inj hs
      exact .inr ⟨h₁, hn₁, rfl, rfl, fun _ hle => absurd hle (not_le.2 hf)⟩
    · exact .inl (hgrant hs)
    · exact .inl (hgrant hs)
    · obtain rfl := Option.some.inj hs
      refine .inr ⟨h₁, hn₁, rfl, rfl, fun _ _ => h.top_of_head fun x xs hxs => ?_⟩
      have hhead : getHead s.mem s.threadReady = x := by
        rw [h.queues.getHead, hxs]
        rfl
      have hx0 : x ≠ 0 := h.queues.ne_zero (h.queues.mem_ready x (by rw [hxs]; exact List.mem_cons_self ..))
      by_contra hlt
      refine hpre ⟨?_, hrun, .inl ?_⟩
      · show getHead s.mem s.threadReady ≠ 0
        rw [hhead]
        exact hx0
      · show s.mem.pri s.runningThread < s.mem.pri (getHead s.mem s.threadReady)
        rw [hhead]
        exact not_le.1 hlt
  · cases hs
    exact .inr ⟨h, hn, rfl, rfl, fun hx _ => absurd ⟨hx, BitVec.le_of_eq hk⟩ hc⟩

theorem switchOut (h : s.Lined W out rs ws) (hr : Has s.running.threadFlags tsRun) :
    s.switchOut.Lined W out rs ws := by
  rw [switchOut_eq hr]
  refine h.same rfl rfl rfl rfl rfl fun t => ?_
  show (if t = s.runningThread then s.running.out s.esp else s.thread t).sigWait = _
  split_ifs with he
  · rw [he]
    rfl
  · rfl

theorem switchIn (h : s.Lined W [] (x :: rs) ws) : (s.switchIn x).Lined W [x] rs ws ∧
    ∀ t ∈ rs, (s.switchIn x).mem.pri t ≤ (s.switchIn x).mem.pri x := by
  obtain ⟨hq, hpri⟩ := h.queues.remove_ready
  have hx : x ∈ s.threads := h.queues.mem_ready x (List.mem_cons_self ..)
  have hrs : ∀ t ∈ rs, t ∈ s.threads := fun t ht => h.queues.mem_ready t (List.mem_cons_of_mem _ ht)
  rw [switchIn_eq]
  refine ⟨⟨hq.same rfl rfl rfl rfl, h.perm, ?_, fun t ht hw => h.asleep t ht ?_⟩, fun t ht => ?_⟩
  · exact sorted_congr h.sorted.of_cons fun t ht => hpri t (hrs t ht)
  · replace hw : Has (if t = x then (s.thread x).into else s.thread t).sigWait (W t) := hw
    split_ifs at hw with he
    · exact he ▸ hw
    · exact hw
  · show (remove s.mem x).pri t ≤ (remove s.mem x).pri x
    rw [hpri t (hrs t ht), hpri x hx]
    exact List.rel_of_pairwise_cons h.sorted ht

end Lined
end Sys

/-! ### Between two entries -/

/-- The running thread is on no list, and the idle loop runs with every thread on one. -/
structure Ordered (W : Nat → Word) (c : Config) (rs ws : List Nat) : Prop where
  lined : c.sys.Lined W c.out rs ws
  calm : ¬ Has c.sys.sysFlags needTaskSwitch

/-- In ring 3 no ready thread is above the running one. -/
def Config.Top (c : Config) (rs : List Nat) : Prop :=
  c.mode = .ring3 → ∀ t ∈ rs, c.sys.mem.pri t ≤ c.sys.mem.pri c.sys.runningThread

open Sys

variable {c c' : Config} {s s' : Sys} {W : Nat → Word} {rs ws : List Nat} {t x fuel : Nat} {eax ebx : Word}

namespace Ordered

theorem ring3 (h : Ordered W c rs ws) (hm : c.mode = .ring3) : c.sys.Lined W [c.sys.runningThread] rs ws := by
  have hl := h.lined
  unfold Config.out at hl
  rwa [if_pos hm] at hl

theorem idle (h : Ordered W c rs ws) (hm : c.mode = .idle) : c.sys.Lined W [] rs ws := by
  have hl := h.lined
  unfold Config.out at hl
  rwa [if_neg (by rw [hm]; decide)] at hl

theorem of_ring3 (h : s.Lined W [s.runningThread] rs ws) (hn : ¬ Has s.sysFlags needTaskSwitch) :
    Ordered W ⟨s, .ring3⟩ rs ws := ⟨h, hn⟩

/-- The loop of `switch_threads` takes the first ready thread, which no other is above. -/
theorem idleLoop (h : s.Lined W [] rs ws) (hn : ¬ Has s.sysFlags needTaskSwitch) :
    ∃ rs', Ordered W s.idleLoop rs' ws ∧ s.idleLoop.Top rs' := by
  cases rs with
  | nil =>
    have h0 : getHead s.mem s.threadReady = 0 := h.queues.getHead_eq_zero.2 rfl
    unfold Sys.idleLoop
    dsimp only
    rw [if_pos h0]
    refine ⟨[], ⟨h.same rfl rfl rfl rfl rfl fun _ => rfl, fun hx => hn ?_⟩, fun hm => Mode.noConfusion hm⟩
    exact (has_or_keep (by decide)).1 hx
  | cons x xs =>
    have hx0 : x ≠ 0 := h.queues.ne_zero (h.queues.mem_ready x (List.mem_cons_self ..))
    obtain ⟨h1, h2⟩ := h.switchIn
    have hrun : (s.switchIn x).runningThread = x := by rw [switchIn_eq]
    have hidle : s.idleLoop = ⟨s.switchIn x, .ring3⟩ := idleLoop_of_head h.queues.getHead hx0
    rw [hidle]
    refine ⟨xs, .of_ring3 (by rw [hrun]; exact h1) ?_, fun _ => ?_⟩
    · rw [switchIn_eq]
      exact hn
    · show ∀ t ∈ xs, (s.switchIn x).mem.pri t ≤ (s.switchIn x).mem.pri (s.switchIn x).runningThread
      rw [hrun]
      exact h2

theorem switched (h : s.Lined W [] rs ws) (hn : Has s.sysFlags needTaskSwitch) (hc : s.Context True)
    (hk : s.kReenter = 0) :
    ∃ rs', Ordered W (s.dispatch .ring3) rs' ws ∧ (s.dispatch .ring3).Top rs' := by
  rw [dispatch_switches hk hn]
  exact idleLoop (h.switchOut hc.has_run) switchOut_calm

theorem stayed (h : s.Lined W [s.runningThread] rs ws) (hn : ¬ Has s.sysFlags needTaskSwitch) :
    Ordered W (s.dispatch .ring3) rs ws ∧ s.dispatch .ring3 = ⟨s.noSwitch, .ring3⟩ := by
  rw [dispatch_stays hn]
  exact ⟨of_ring3 (h.same rfl rfl rfl rfl rfl fun _ => rfl) hn, rfl⟩

end Ordered
end Krypton
