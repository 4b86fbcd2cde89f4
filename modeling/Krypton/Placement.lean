import Krypton.Queues

/-!
# Every thread in one place

`Placed out rs ws`: the threads are those of `out`, of `thread_ready` and of `thread_wait`, each once,
where `out` is the running thread as long as it is on no list. A thread that waits for a message is on
`thread_wait`, which is why `_signal` may unlink it.

Every function of a kernel entry keeps this, as long as handlers do no more than post messages and the
running thread is not put on a list a second time.
-/

namespace Krypton

/-- The handler posts and prints only. -/
def Sys.Act.Posts : Sys.Act → Prop
  | .post .. | .print => True
  | .signal .. => False

def Sys.Handler.Posts : Sys.Handler → Prop
  | .timer => True
  | .device as => ∀ a ∈ as, a.Posts

/-- No handler of the event does more than that. -/
def Event.Posts : Event → Prop
  | .irq d => d.Posts
  | .wake a => ∀ d ∈ a.handlers, d.Posts
  | _ => True

instance : DecidablePred Sys.Act.Posts
  | .post .. | .print => inferInstanceAs (Decidable True)
  | .signal .. => inferInstanceAs (Decidable False)

instance : DecidablePred Sys.Handler.Posts
  | .timer => inferInstanceAs (Decidable True)
  | .device as => inferInstanceAs (Decidable (∀ a ∈ as, a.Posts))

instance : DecidablePred Event.Posts
  | .irq d => inferInstanceAs (Decidable d.Posts)
  | .wake a => inferInstanceAs (Decidable (∀ d ∈ a.handlers, d.Posts))
  | .forbid | .permit | .create .. | .syscall .. => inferInstanceAs (Decidable True)

namespace Sys
variable {s s' : Sys} {out rs ws : List Nat} {m' : Mem} {n t p fuel : Nat}

structure Placed (s : Sys) (out rs ws : List Nat) : Prop where
  queues : s.Queues rs ws
  perm : (out ++ (rs ++ ws)).Perm s.threads
  signals : ∀ t ∈ s.created, Has (s.thread t).sigWait stMesg → t ∈ ws

namespace Placed

theorem out_notMem (h : s.Placed [n] rs ws) : n ∉ rs ∧ n ∉ ws := h.queues.out_notMem h.perm

theorem out_mem (h : s.Placed [n] rs ws) : n ∈ s.threads :=
  h.perm.mem_iff.1 (List.mem_cons_self ..)

/-- What `Placed` reads: the links, the threads and what they wait for. -/
theorem congr (h : s.Placed out rs ws) (h' : s'.Objects) (hb : s'.sysBase = s.sysBase)
    (hc : s'.created = s.created) (hk : s'.kernelThread = s.kernelThread) (hm : SameLists s s')
    (hw : ∀ t, (s'.thread t).sigWait = (s.thread t).sigWait) : s'.Placed out rs ws := by
  have ht : s'.threads = s.threads := by unfold threads; rw [hc, hk]
  refine ⟨h.queues.congr h' hb (fun t hx => ht ▸ hx) hm, ht ▸ h.perm, fun t hx => ?_⟩
  rw [hw]
  exact h.signals t (hc ▸ hx)

theorem sameLists_of_eq (hm : s'.mem = s.mem) : SameLists s s' := fun c _ => by rw [hm]

/-! ### The running thread is put on a list -/

theorem requeue (h : s.Placed [s.runningThread] rs ws) (hs : s.requeue fuel = some s') :
    s'.Placed [] (rs.orderedInsert s.mem.ByPri s.runningThread) ws := by
  obtain ⟨m', hm', rfl⟩ := requeue_cases hs
  obtain ⟨h1, h2⟩ := h.out_notMem
  obtain ⟨hq, -⟩ := h.queues.enqueue_ready h.out_mem h1 h2 hm'
  refine ⟨hq.same rfl rfl rfl rfl, ?_, h.signals⟩
  exact ((List.perm_orderedInsert _ _ _).append_right ws).trans h.perm

theorem waitForFlags {flags : Word} (h : s.Placed [s.runningThread] rs ws)
    (hs : s.waitForFlags fuel flags = some s') :
    s'.Placed [] rs (ws.orderedInsert s.mem.ByPri s.runningThread) := by
  obtain ⟨m', hm', rfl⟩ := waitForFlags_cases hs
  obtain ⟨h1, h2⟩ := h.out_notMem
  obtain ⟨hq, -⟩ := h.queues.enqueue_wait h.out_mem h1 h2 hm'
  have hmem : ∀ x, x ∈ ws.orderedInsert s.mem.ByPri s.runningThread ↔ x = s.runningThread ∨ x ∈ ws :=
    fun x => List.mem_orderedInsert _
  refine ⟨hq.same rfl rfl rfl rfl, ?_, fun t ht hw => (hmem t).2 ?_⟩
  · refine List.Perm.trans ?_ h.perm
    refine (List.Perm.append_left rs (List.perm_orderedInsert _ _ _)).trans ?_
    exact List.perm_middle
  · by_cases he : t = s.runningThread
    · exact .inl he
    · refine .inr (h.signals t ht ?_)
      replace hw : Has (if t = s.runningThread then s.running.toWait flags else s.thread t).sigWait stMesg := hw
      rwa [if_neg he] at hw

/-! ### A thread is woken -/

/-- The lists `rs'` and `ws'` behind a number of wake-ups: who still waits has not been signalled. -/
structure Woken (s s' : Sys) (rs ws rs' ws' : List Nat) : Prop where
  ready : ∀ t ∈ rs, t ∈ rs'
  wait : ∀ t ∈ ws', t ∈ ws
  asleep : ∀ t ∈ ws', (s'.thread t).sigWait = (s.thread t).sigWait

theorem Woken.refl (h : ∀ t, (s'.thread t).sigWait = (s.thread t).sigWait) : Woken s s' rs ws rs ws :=
  ⟨fun _ => id, fun _ => id, fun t _ => h t⟩

theorem Woken.trans {s'' : Sys} {rs' ws' rs'' ws'' : List Nat} (h : Woken s s' rs ws rs' ws')
    (h' : Woken s' s'' rs' ws' rs'' ws'') : Woken s s'' rs ws rs'' ws'' :=
  ⟨fun t ht => h'.ready t (h.ready t ht), fun t ht => h.wait t (h'.wait t ht),
    fun t ht => (h'.asleep t ht).trans (h.asleep t (h'.wait t ht))⟩

theorem has_andNot_self (x : Word) : ¬ Has (x &&& ~~~stMesg) stMesg := has_and_drop (by decide)

/-- `_signal` of `ST_MESG`: a thread that waits for a message moves to `thread_ready`. -/
theorem signal (h : s.Placed out rs ws) (ht : t ∈ s.created) (hs : s.signal fuel t stMesg = some s') :
    ∃ rs' ws', s'.Placed out rs' ws' ∧ Woken s s' rs ws rs' ws' ∧
      (Has (s.thread t).sigWait stMesg → t ∉ ws') := by
  have ht0 : t ≠ 0 := h.queues.ne_zero (created_sub ht)
  rcases signal_cases hs with ⟨h0, rfl⟩ | ⟨hw, m', hm', rfl⟩
  · refine ⟨rs, ws, h, .refl fun _ => rfl, fun hw => absurd h0 ?_⟩
    rintro (h0 | h0 | h0)
    · exact ht0 h0
    · unfold Has at hw
      rw [h0] at hw
      exact hw (by simp)
    · exact hw h0
  · have htw : t ∈ ws := h.signals t ht hw
    obtain ⟨hq, hperm, hte, -⟩ := h.queues.wakeUp h.perm htw hm'
    refine ⟨_, _, ⟨hq.same rfl rfl rfl rfl, hperm, fun x hx hxw => ?_⟩, ⟨fun x hx => ?_, ?_, ?_⟩, fun _ => hte⟩
    · replace hxw : Has (if x = t then (s.thread t).toReady stMesg else s.thread x).sigWait stMesg := hxw
      by_cases he : x = t
      · rw [if_pos he] at hxw
        exact absurd hxw (has_andNot_self _)
      · rw [if_neg he] at hxw
        exact (List.mem_erase_of_ne he).2 (h.signals x hx hxw)
    · exact (List.mem_orderedInsert _).2 (.inr hx)
    · exact fun x hx => List.mem_of_mem_erase hx
    · intro x hx
      have hxt : x ≠ t := fun he => hte (he ▸ hx)
      exact congrArg Thread.sigWait (if_neg hxt)

theorem delivered_sigWait (s : Sys) (t p : Nat) (src : Buf) (bufSz : BitVec 16) (x : Nat) :
    ((s.delivered t p src bufSz).thread x).sigWait = (s.thread x).sigWait := by
  show (if x = t then _ else s.thread x : Thread).sigWait = _
  split_ifs with he
  · rw [he]
  · rfl

theorem delivered (h : s.Placed out rs ws) (hS : s.Sound) (ht : t ∈ s.created) (src : Buf)
    (bufSz : BitVec 16) {s₁ : Sys} (hk : s.kmalloc p sizeofMessage = some s₁) :
    (s₁.delivered t p src bufSz).Placed out rs ws := by
  obtain ⟨h1, h2⟩ := hS.queued ht (memcpy_matches (s₁.msgBuf p) src bufSz.toNat) hk
  have hd : (s₁.delivered t p src bufSz).Sound := h1.congr {}
  obtain ⟨-, -, rfl⟩ := kmalloc_cases hk
  exact h.congr hd.objects rfl rfl rfl h2.sameLists (delivered_sigWait _ t p src bufSz)

theorem msgPost (h : s.Placed out rs ws) (hS : s.Sound) (ht : t ∈ s.created) {src : Buf}
    {bufSz : BitVec 16} (hp : s.msgPost fuel t p src bufSz = some s') :
    ∃ rs' ws', s'.Placed out rs' ws' ∧ Woken s s' rs ws rs' ws' ∧
      (bufSz.toNat ≤ maxMsgSz → Has (s.thread t).sigWait stMesg → t ∉ ws') := by
  rcases msgPost_cases hp with ⟨hbig, rfl⟩ | ⟨-, s₁, h1, h2⟩
  · exact ⟨rs, ws, h, .refl fun _ => rfl, fun hle => absurd hle (by omega)⟩
  · have hd := h.delivered hS ht src bufSz h1
    obtain ⟨-, -, rfl⟩ := kmalloc_cases h1
    obtain ⟨rs', ws', h3, h4, h5⟩ := hd.signal ht h2
    have hsig := delivered_sigWait { s with blocks := (p, sizeofMessage) :: s.blocks } t p src bufSz
    refine ⟨rs', ws', h3, (Woken.refl (s := s) hsig).trans h4, fun _ hw => h5 ?_⟩
    rw [hsig]
    exact hw

end Placed

/-! ### Handlers -/

/-- `NEED_TASK_SWITCH` is as it was. -/
def SameSwitch (s s' : Sys) : Prop := Has s'.sysFlags needTaskSwitch ↔ Has s.sysFlags needTaskSwitch

theorem signal_sameSwitch {flags : Word} (hs : s.signal fuel t flags = some s') : SameSwitch s s' := by
  rcases signal_cases hs with ⟨-, rfl⟩ | ⟨-, m', -, rfl⟩
  · exact .rfl
  · exact has_or_keep (by decide)

theorem msgPost_sameSwitch {src : Buf} {bufSz : BitVec 16} (hp : s.msgPost fuel t p src bufSz = some s') :
    SameSwitch s s' := by
  rcases msgPost_cases hp with ⟨-, rfl⟩ | ⟨-, s₁, h1, h2⟩
  · exact .rfl
  · obtain ⟨-, -, rfl⟩ := kmalloc_cases h1
    have := signal_sameSwitch h2
    exact this

theorem timerCallback_sameSwitch : SameSwitch s s.timerCallback := by
  unfold timerCallback
  dsimp only
  split_ifs
  · exact .rfl
  · exact (has_or_keep (by decide)).trans (has_or_keep (by decide))
  · exact .rfl

theorem timerCallback_sigWait (t : Nat) : (s.timerCallback.thread t).sigWait = (s.thread t).sigWait := by
  obtain ⟨tick, count, flags, he⟩ := timerCallback_eq s
  rw [he]

namespace Placed

theorem act {a : Act} (h : s.Placed out rs ws) (hS : s.Sound) (hk : s.InHandler) (hp : a.Posts)
    (ha : s.act fuel a = some s') :
    ∃ rs' ws', s'.Placed out rs' ws' ∧ Woken s s' rs ws rs' ws' ∧ SameSwitch s s' := by
  cases a with
  | post t p src bufSz =>
    unfold Sys.act at ha
    dsimp only at ha
    split_ifs at ha with ht
    obtain ⟨rs', ws', h1, h2, -⟩ := h.msgPost hS ht ha
    exact ⟨rs', ws', h1, h2, msgPost_sameSwitch ha⟩
  | signal t flags => exact hp.elim
  | print =>
    have he : s.act fuel .print = some s := nestedPrint_eq hk
    rw [he] at ha
    exact Option.some.inj ha ▸ ⟨rs, ws, h, .refl fun _ => rfl, .rfl⟩

theorem acts {as : List Act} (h : s.Placed out rs ws) (hS : s.Sound) (hk : s.InHandler)
    (hp : ∀ a ∈ as, a.Posts) (ha : s.acts fuel as = some s') :
    ∃ rs' ws', s'.Placed out rs' ws' ∧ Woken s s' rs ws rs' ws' ∧ SameSwitch s s' := by
  induction as generalizing s rs ws with
  | nil => exact Option.some.inj ha ▸ ⟨rs, ws, h, .refl fun _ => rfl, .rfl⟩
  | cons a as ih =>
    obtain ⟨s₁, h1, h2⟩ := Option.bind_eq_some_iff.1 ha
    obtain ⟨hpa, hpas⟩ := List.forall_mem_cons.1 hp
    have hkept := hS.act hk h1
    obtain ⟨rs₁, ws₁, h3, h4, h5⟩ := h.act hS hk hpa h1
    obtain ⟨rs₂, ws₂, h6, h7, h8⟩ := ih h3 hkept.sound (hk.quiet hkept.quiet) hpas h2
    exact ⟨rs₂, ws₂, h6, h4.trans h7, h8.trans h5⟩

theorem timerCallback (h : s.Placed out rs ws) : s.timerCallback.Placed out rs ws := by
  obtain ⟨tick, count, flags, he⟩ := timerCallback_eq s
  rw [he]
  exact ⟨h.queues.same rfl rfl rfl rfl, h.perm, h.signals⟩

theorem handle {d : Handler} (h : s.Placed out rs ws) (hS : s.Sound) (hk : s.InHandler) (hp : d.Posts)
    (hd : s.handle fuel d = some s') :
    ∃ rs' ws', s'.Placed out rs' ws' ∧ Woken s s' rs ws rs' ws' ∧ SameSwitch s s' := by
  cases d with
  | timer => 
    rw [← Option.some.inj hd]
    exact ⟨rs, ws, h.timerCallback, .refl timerCallback_sigWait, timerCallback_sameSwitch⟩
  | device as => exact h.acts hS hk hp hd

theorem syscall {eax ebx : Word} (h : s.Placed out rs ws) (hS : s.Sound) (hr : s.runningThread ∈ s.threads)
    (hstray : ¬ s.StrayCycle eax) (hw : eax ≠ 0 ∨ s.running.uid ≠ 0)
    (hs : s.syscall fuel eax ebx = some s') : s'.Placed out rs ws ∧ s'.sysFlags = s.sysFlags := by
  unfold Sys.syscall at hs
  split_ifs at hs with h0 h1 h2 h3 h4
  · exact Option.some.inj hs ▸ ⟨h, rfl⟩
  · exact absurd h1 (hw.resolve_right h0)
  · exact Option.some.inj hs ▸ ⟨h, rfl⟩
  · rw [← Option.some.inj hs]
    exact ⟨⟨h.queues.same rfl rfl rfl rfl, h.perm, h.signals⟩, rfl⟩
  · rw [← Option.some.inj hs]
    rcases hS.msgCycle_cases hr (h4 ▸ hstray) with he | ⟨hc, q, p, ps, hq, hqt, he⟩
    · rw [he]
      exact ⟨h, rfl⟩
    · rw [he]
      obtain ⟨h5, h6⟩ := hS.deleted hq hc hqt
      exact ⟨h.congr h5.objects rfl rfl rfl h6.sameLists fun _ => rfl, rfl⟩
  · exact Option.some.inj hs ▸ ⟨h, rfl⟩

theorem create {r : Nat} {a : ThreadArgs} (h : s.Placed out rs ws) (hS : s.Sound)
    (hc : s.createThread fuel p r a = some s') :
    ∃ rs', s'.Placed out rs' ws ∧ (∀ t ∈ rs, t ∈ rs') ∧ s'.sysFlags = s.sysFlags := by
  obtain ⟨⟨hp0, hpd⟩, ⟨hr0, hrd⟩, m', hm', he⟩ := createThread_cases hc
  obtain ⟨hobj, hd, -⟩ := hS.described hp0 hpd hr0 hrd
  have hpt := hd.fresh
  -- the lists before the new thread is put on `thread_ready`
  set m := s.portsMem p r a
  have hobj' : { s.described p r a with mem := m }.Objects := hobj.congr rfl rfl rfl
  have hq : { s.described p r a with mem := m }.Queues rs ws :=
    h.queues.congr hobj' rfl (fun t ht => List.mem_cons_of_mem _ ht) hd.frame
  have hpr : p ∉ rs := fun hx => hpt (h.queues.mem_ready p hx)
  have hpw : p ∉ ws := fun hx => hpt (h.queues.mem_wait p hx)
  obtain ⟨hq', -⟩ := hq.enqueue_ready (List.mem_cons_self ..) hpr hpw hm'
  refine ⟨rs.orderedInsert m.ByPri p, ?_, fun t ht => (List.mem_orderedInsert _).2 (.inr ht), by rw [he]⟩
  rw [he]
  refine ⟨hq'.same rfl rfl rfl rfl, ?_, List.forall_mem_cons.2 ⟨fun hx => ?_, fun t ht hx => ?_⟩⟩
  · refine (List.Perm.append_left out ((List.perm_orderedInsert _ _ _).append_right ws)).trans ?_
    exact List.perm_middle.trans (h.perm.cons p)
  · replace hx : Has (if p = p then s.newThread a else s.thread p).sigWait stMesg := hx
    rw [if_pos rfl] at hx
    exact absurd (BitVec.zero_and) hx
  · have htp : t ≠ p := fun he => hpt (he ▸ created_sub ht)
    replace hx : Has (if t = p then s.newThread a else s.thread t).sigWait stMesg := hx
    rw [if_neg htp] at hx
    exact h.signals t ht hx

end Placed
end Sys
end Krypton
