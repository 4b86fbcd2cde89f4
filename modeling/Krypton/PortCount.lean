import Krypton.Leaving
import Krypton.Settled
import Krypton.Steady

/-!
# Counting messages

What a step does to one port: the payloads its handlers post are appended, and the message its system call deletes is
taken off the front (`step_tally`). `_msg_post` counts every message it queues in `num_msg`, and nothing counts them out:
`num_msg` is the number of messages ever posted to the port, modulo 256. It is the length of `message_list`, and at most
`MAX_MESSAGES`, as long as no message is deleted and no post finds the port full, and only so long
(`ports_counted_iff`).
-/

namespace Krypton

def maxMessages : Nat := 8

/-- The payloads of at most `MAX_MSG_SZ` bytes posted to `t`, in order. -/
def Sys.Act.sent (t : Nat) : Sys.Act → List (List Byte)
  | .post t' _ src bufSz => if t' = t ∧ bufSz.toNat ≤ maxMsgSz then [(List.range bufSz.toNat).map src] else []
  | _ => []

def Sys.Handler.sent (t : Nat) : Sys.Handler → List (List Byte)
  | .timer => []
  | .device as => as.flatMap (Sys.Act.sent t)

def Event.sent (t : Nat) : Event → List (List Byte)
  | .irq h => h.sent t
  | .wake a => a.handlers.flatMap (Sys.Handler.sent t)
  | _ => []

def Event.posts (t : Nat) (ev : Event) : Nat := (ev.sent t).length

namespace Sys

/-- System call `eax` deletes a message of the port of `t`. -/
def Deletes (s : Sys) (t : Nat) (eax : Word) : Prop :=
  s.runningThread = t ∧ s.running.uid = 0 ∧ eax = 3 ∧ getHead s.mem (messageList t) ≠ 0

instance (s : Sys) (t : Nat) (eax : Word) : Decidable (s.Deletes t eax) := inferInstanceAs (Decidable (_ ∧ _))

/-- The buffer it deletes. -/
def removes (s : Sys) (t : Nat) (eax : Word) : List Buf :=
  if s.Deletes t eax then [s.msgBuf (getHead s.mem (messageList t))] else []

/-- From `s` to `s'` the thread `t` has been posted the payloads `ps` and has deleted the buffers `bs`. -/
structure Tally (t : Nat) (ps : List (List Byte)) (bs : List Buf) (s s' : Sys) : Prop where
  numMsg : (s'.thread t).numMsg = (s.thread t).numMsg + BitVec.ofNat 8 ps.length
  posted : posted t s'.log = posted t s.log ++ ps
  cycled : cycled t s'.log = cycled t s.log ++ bs

variable {s s' s'' : Sys} {t t' p fuel : Nat} {ps ps' : List (List Byte)} {bs bs' : List Buf} {eax ebx flags : Word} {e : Ev}

namespace Tally

theorem same (h1 : (s'.thread t).numMsg = (s.thread t).numMsg) (h2 : s'.log = s.log) : Tally t [] [] s s' where
  numMsg := h1.trans (BitVec.add_zero _).symm
  posted := by rw [h2, List.append_nil]
  cycled := by rw [h2, List.append_nil]

theorem refl (s : Sys) (t : Nat) : Tally t [] [] s s := same rfl rfl

theorem trans (h : Tally t ps bs s s') (h' : Tally t ps' bs' s' s'') : Tally t (ps ++ ps') (bs ++ bs') s s'' where
  numMsg := by rw [h'.numMsg, h.numMsg, List.length_append, BitVec.ofNat_add, BitVec.add_assoc]
  posted := by rw [h'.posted, h.posted, List.append_assoc]
  cycled := by rw [h'.cycled, h.cycled, List.append_assoc]

theorem then_none (h : Tally t ps bs s s') (h' : Tally t [] [] s' s'') : Tally t ps bs s s'' := by
  have := h.trans h'
  rwa [List.append_nil, List.append_nil] at this

theorem after_none (h : Tally t [] [] s s') (h' : Tally t ps bs s' s'') : Tally t ps bs s s'' := h.trans h'

/-- An entry that is neither a post nor a deletion does not count. -/
theorem entry (h1 : (s'.thread t).numMsg = (s.thread t).numMsg) (h2 : s'.log = e :: s.log)
    (hp : Krypton.posted t (e :: s.log) = Krypton.posted t s.log)
    (hc : Krypton.cycled t (e :: s.log) = Krypton.cycled t s.log) : Tally t [] [] s s' where
  numMsg := h1.trans (BitVec.add_zero _).symm
  posted := by rw [h2, hp, List.append_nil]
  cycled := by rw [h2, hc, List.append_nil]

/-- The dispatcher does not count. -/
theorem exits (h : Exits s s') : Tally t [] [] s s' := by
  obtain ⟨esp, flags, hth⟩ := h.thread t
  obtain ⟨es, h1, h2⟩ := h.log
  obtain ⟨h3, h4⟩ := switch_append (t := t) s.log h2
  refine ⟨by rw [hth]; exact (BitVec.add_zero _).symm, ?_, ?_⟩
  · rw [h1, h3, List.append_nil]
  · rw [h1, h4, List.append_nil]

end Tally

/-! ### One lemma for each function -/

theorem numMsg_setThread (th : Thread) (h : th.numMsg = (s.thread t').numMsg) (t : Nat) :
    ((s.setThread t' th).thread t).numMsg = (s.thread t).numMsg := by
  show (if t = t' then th else s.thread t).numMsg = _
  split_ifs with ht
  · rw [ht, h]
  · rfl

theorem signal_tally (h : s.signal fuel t' flags = some s') : Tally t [] [] s s' := by
  rcases signal_cases h with ⟨-, rfl⟩ | ⟨-, m', -, rfl⟩
  · exact .refl _ _
  · exact .same (numMsg_setThread ((s.thread t').toReady flags) rfl t) rfl

theorem queued_tally (s : Sys) (t t' p : Nat) (src : Buf) (bufSz : BitVec 16) :
    Tally t (if t' = t then [(List.range bufSz.toNat).map src] else []) [] s (s.delivered t' p src bufSz) where
  numMsg := by
    show (if t = t' then { s.thread t' with numMsg := (s.thread t').numMsg + 1 } else s.thread t).numMsg = _
    by_cases ht : t' = t
    · subst ht
      rw [if_pos rfl, if_pos rfl]
      rfl
    · rw [if_neg (Ne.symm ht), if_neg ht]
      exact (BitVec.add_zero _).symm
  posted := rfl
  cycled := (List.append_nil _).symm

theorem msgPost_tally {src : Buf} {bufSz : BitVec 16} (h : s.msgPost fuel t' p src bufSz = some s') :
    Tally t (Act.sent t (.post t' p src bufSz)) [] s s' := by
  unfold Act.sent
  dsimp only
  rcases msgPost_cases h with ⟨hsz, rfl⟩ | ⟨hsz, s₁, h1, h2⟩
  · rw [if_neg fun hx => absurd hx.2 (not_le.2 hsz)]
    exact .refl _ _
  · obtain ⟨-, -, rfl⟩ := kmalloc_cases h1
    have h3 := (queued_tally _ t t' p src bufSz).then_none (signal_tally h2)
    simp only [hsz, and_true]
    exact ⟨h3.numMsg, h3.posted, h3.cycled⟩

theorem act_tally {a : Act} (hk : s.InHandler) (h : s.act fuel a = some s') : Tally t (a.sent t) [] s s' := by
  cases a with
  | post t' p src bufSz => exact msgPost_tally (Option.ite_none_right_eq_some.1 h).2
  | signal t' flags => exact signal_tally (Option.ite_none_right_eq_some.1 h).2
  | print =>
    cases (nestedPrint_eq hk).symm.trans h
    exact .refl _ _

theorem acts_tally {as : List Act} (hk : s.InHandler) (h : s.acts fuel as = some s') :
    Tally t (as.flatMap (Act.sent t)) [] s s' := by
  induction as generalizing s with
  | nil => cases h; exact .refl _ _
  | cons a as ih =>
    obtain ⟨s₁, h1, h2⟩ := Option.bind_eq_some_iff.1 h
    rw [List.flatMap_cons]
    exact (act_tally hk h1).trans (ih (hk.steady (act_steady hk h1)) h2)

theorem handle_tally {d : Handler} (hk : s.InHandler) (h : s.handle fuel d = some s') :
    Tally t (d.sent t) [] s s' := by
  cases d with
  | timer =>
    cases h
    obtain ⟨tick, count, flags, he⟩ := timerCallback_eq s
    rw [he]
    exact .same rfl rfl
  | device as => exact acts_tally hk h

theorem reschedule_tally (h : s.reschedule fuel = some s') : Tally t [] [] s s' := by
  obtain ⟨h1, h2⟩ := reschedule_frame h
  exact .same (by rw [h1]) h2

theorem Sound.msgCycle_tally (h : s.Sound) (hmem : s.runningThread ∈ s.threads) (hstray : ¬ s.StrayCycle 3) :
    Tally t [] (if s.runningThread = t ∧ getHead s.mem (messageList t) ≠ 0 then
      [s.msgBuf (getHead s.mem (messageList t))] else []) s s.msgCycle := by
  by_cases hr : s.runningThread = t
  · subst hr
    rcases List.mem_append.1 hmem with hrun | hk
    · obtain ⟨q, hq⟩ := h.ports
      have hhead := hq.getHead hrun
      cases hqt : q s.runningThread with
      | nil =>
        rw [msgCycle_nil hq hrun hqt, hhead, hqt, if_neg fun hx => hx.2 rfl]
        exact .refl _ _
      | cons p ps =>
        have hp : p ≠ 0 := hq.ne_zero hrun p (by rw [hqt]; exact List.mem_cons_self ..)
        rw [msgCycle_cons hq hrun hqt, hhead, hqt, if_pos ⟨rfl, hp⟩]
        refine ⟨(BitVec.add_zero _).symm, (List.append_nil _).symm, ?_⟩
        show Krypton.cycled _ s.log ++ (if s.runningThread = s.runningThread then [_] else []) = _
        rw [if_pos rfl]
        rfl
    · -- the kernel thread finds its list empty
      have hk : s.runningThread = s.kernelThread := List.mem_singleton.1 hk
      have h0 : s.mem.next (s.mem.head (messageList s.runningThread)) = 0 := by
        rw [hk]
        exact not_not.1 fun h0 => hstray ⟨hk, rfl, h0⟩
      rw [msgCycle_of_empty h0, if_neg fun hx => hx.2 (if_neg fun hy => hy.2 h0)]
      exact .refl _ _
  · rw [if_neg fun hx => hr hx.1]
    unfold Sys.msgCycle
    dsimp only
    split_ifs
    · exact .same rfl rfl
    · exact .entry rfl rfl (posted_of_ne hr) (cycled_of_ne hr)

theorem Sound.syscall_tally (hS : s.Sound) (hr : s.runningThread ∈ s.threads) (hstray : ¬ s.StrayCycle eax)
    (h : s.syscall fuel eax ebx = some s') : Tally t [] (s.removes t eax) s s' := by
  unfold Sys.syscall at h
  unfold removes
  split_ifs at h with hu h0 h1 h2 h3
  · rw [if_neg fun hd => hu hd.2.1]
    cases h
    exact .refl _ _
  · obtain ⟨m', -, rfl⟩ := waitForFlags_cases h
    rw [if_neg fun hd => absurd (h0.symm.trans hd.2.2.1) (by decide)]
    exact .entry (numMsg_setThread (s.running.toWait ebx) rfl t) rfl rfl rfl
  · rw [if_neg fun hd => absurd (h1.symm.trans hd.2.2.1) (by decide)]
    cases h
    exact .refl _ _
  · rw [if_neg fun hd => absurd (h2.symm.trans hd.2.2.1) (by decide)]
    cases h
    exact .entry rfl rfl rfl rfl
  · cases h
    have := hS.msgCycle_tally (t := t) hr (h3 ▸ hstray)
    simpa [Deletes, not_not.1 hu, h3] using this
  · rw [if_neg fun hd => h3 hd.2.2.1]
    cases h
    exact .refl _ _

theorem irqHandler_tally {d : Handler} (hk : s.enter.InHandler) (h : s.irqHandler fuel d = some s') :
    Tally t (d.sent t) [] s s' := by
  obtain ⟨s₁, h1, h2⟩ := Option.bind_eq_some_iff.1 h
  have h3 : Tally t [] [] s s.enter := .same rfl rfl
  exact (h3.after_none (handle_tally hk h1)).then_none (reschedule_tally h2)

/-- What interrupts post, whatever the dispatcher does between them. -/
theorem tally_traces (t fuel : Nat) : Traces fuel fun ds => Tally t (ds.flatMap (Handler.sent t)) [] where
  exits h := .exits h
  trans h h' := by
    rw [List.flatMap_append]
    exact h.trans h'
  irq hk h := by
    rw [List.flatMap_singleton]
    exact irqHandler_tally hk h

theorem createThread_tally {q : Nat} {a : ThreadArgs} (h : s.createThread fuel p q a = some s') (ht : t ≠ p) :
    Tally t [] [] s s' := by
  obtain ⟨-, -, m', -, rfl⟩ := createThread_cases h
  refine .same ?_ rfl
  dsimp only
  rw [if_neg ht]

end Sys

open Sys

variable {c c' c₀ : Config} {t fuel : Nat} {e : Nat × Event} {ev : Event} {es : List (Nat × Event)}

/-- The event deletes a message of the port of `t`. -/
def Config.Deletes (c : Config) (t : Nat) : Event → Prop
  | .syscall eax _ => c.sys.Deletes t eax
  | _ => False

instance (c : Config) (t : Nat) : DecidablePred (c.Deletes t)
  | .syscall eax _ => inferInstanceAs (Decidable (c.sys.Deletes t eax))
  | .forbid | .permit | .create .. | .irq _ | .wake _ => inferInstanceAs (Decidable False)

/-- The buffers of `t` it deletes. -/
def Config.removes (c : Config) (t : Nat) : Event → List Buf
  | .syscall eax _ => c.sys.removes t eax
  | _ => []

theorem Config.removes_length : (c.removes t ev).length = if c.Deletes t ev then 1 else 0 := by
  cases ev with
  | syscall eax ebx =>
    show (if c.sys.Deletes t eax then [_] else []).length = if c.sys.Deletes t eax then 1 else 0
    split_ifs
    · rfl
    · rfl
  | _ => exact (if_neg id).symm

theorem step_tally (hi : Consistent c) (hok : NoStrayCycle c (fuel, ev)) (hne : ∀ p q a, ev = .create p q a → t ≠ p)
    (h : step c (fuel, ev) = some c') : Tally t (ev.sent t) (c.removes t ev) c.sys c'.sys := by
  cases step_cases h with
  | forbid | permit => exact .same rfl rfl
  | create hm hc => exact createThread_tally hc (hne _ _ _ rfl)
  | @syscall eax ebx s hm hh =>
    obtain ⟨s₁, h1, h2⟩ := Option.bind_eq_some_iff.1 hh
    have h0 : Tally t [] [] c.sys c.sys.trap.enter := .same rfl rfl
    have hS : c.sys.trap.enter.Sound := hi.sound.trap.enter
    have h3 := h0.after_none ((hS.syscall_tally (t := t) hi.running hok h1).then_none (reschedule_tally h2))
    exact h3.then_none (.exits (.dispatch s .ring3))
  | @irq d s hm hh =>
    have h0 : Tally t [] [] c.sys c.sys.trap := .same rfl rfl
    have h3 := h0.after_none (irqHandler_tally (.inl (hi.trap_kReenter hm)) hh)
    exact h3.then_none (.exits (.dispatch s .ring3))
  | @idleIrq d s hm hh =>
    exact (irqHandler_tally (.inr (hi.enter_kReenter hm)) hh).then_none (.exits (.dispatch s .idle))
  | wake hm hw => exact (tally_traces t fuel).wakeUp hi hm hw

theorem Consistent.create_ne (hi : Consistent c) (ht : t ∈ c.sys.created) (h : Krypton.step c (fuel, ev) = some c') :
    ∀ p q a, ev = .create p q a → t ≠ p := by
  rintro p q a rfl he
  cases step_cases h with
  | create hm hc =>
    obtain ⟨⟨-, hpd⟩, -⟩ := createThread_cases hc
    exact hi.sound.objects.fresh_thread hpd (he ▸ created_sub ht)

/-- A step in which a thread that there is gets and takes messages. -/
theorem Consistent.step_tally (hi : Consistent c) (hok : NoStrayCycle c (fuel, ev)) (ht : t ∈ c.sys.created)
    (h : Krypton.step c (fuel, ev) = some c') : Tally t (ev.sent t) (c.removes t ev) c.sys c'.sys :=
  Krypton.step_tally hi hok (hi.create_ne ht h) h

/-! ### The length of the list -/

/-- `message_list` of `t` holds as many messages as `num_msg` says, and at most `MAX_MESSAGES`. -/
def Sys.Counted (s : Sys) (t : Nat) : Prop :=
  ∃ ps, IsList s.mem (messageList t) ps ∧ (∀ p ∈ ps, s.Message p) ∧ (s.thread t).numMsg.toNat = ps.length ∧
    ps.length ≤ maxMessages

theorem Sys.Objects.messageTail_notMem {s : Sys} {ps : List Nat} (h : s.Objects) (ht : t ∈ s.threads)
    (hm : ∀ p ∈ ps, s.Message p) : messageList t + 4 ∉ ps := fun hp => by
  have := h.thread_message ht (hm _ hp)
  simp only [messageList] at this
  omega

theorem Sys.Sound.counted_iff {s : Sys} (h : s.Sound) (ht : t ∈ s.created) : s.Counted t ↔
    (s.thread t).numMsg.toNat + (cycled t s.log).length = (posted t s.log).length ∧
      (posted t s.log).length ≤ (cycled t s.log).length + maxMessages := by
  obtain ⟨q, hq⟩ := h.ports
  obtain ⟨σ, hrep, -, hσ⟩ := hq.rep
  have hlist := hrep.isList _ _ (hσ t ht)
  have hlen : (cycled t s.log).length + (q t).length = (posted t s.log).length := by
    have := (hq.law t ht).fifo.length_eq
    rwa [List.length_append, List.length_map] at this
  constructor
  · rintro ⟨ps, hps, hmsg, hn, hmax⟩
    have htail : ∀ xs : List Nat, (∀ p ∈ xs, s.Message p) → messageList t + 4 ∉ xs :=
      fun _ => h.objects.messageTail_notMem (created_sub ht)
    have hps : ps = q t := hps.unique hlist (htail ps hmsg) (htail _ (hq.message t ht))
    rw [hps] at hn hmax
    omega
  · rintro ⟨hn, hmax⟩
    exact ⟨q t, hlist, hq.message t ht, by omega, by omega⟩

/-- An event after which the messages of `t` are still counted right. -/
def CountOk (t : Nat) (c : Config) (e : Nat × Event) : Prop :=
  t ∈ c.sys.created → ¬ c.Deletes t e.2 ∧ (c.sys.thread t).numMsg.toNat + e.2.posts t ≤ maxMessages

instance (t : Nat) (c : Config) (e : Nat × Event) : Decidable (CountOk t c e) :=
  inferInstanceAs (Decidable (_ → _))

/-- No message of `t` has been deleted, and at most `MAX_MESSAGES` were posted. -/
structure Uncut (t : Nat) (s : Sys) : Prop where
  nil : cycled t s.log = []
  numMsg : (s.thread t).numMsg.toNat = (posted t s.log).length
  few : (posted t s.log).length ≤ maxMessages

theorem Uncut.counted {s : Sys} (h : Uncut t s) (hS : s.Sound) (ht : t ∈ s.created) : s.Counted t := by
  refine (hS.counted_iff ht).2 ?_
  rw [h.nil, h.numMsg]
  exact ⟨rfl, h.few.trans (Nat.le_add_left ..)⟩

theorem Uncut.tally {s s' : Sys} {ps : List (List Byte)} {bs : List Buf} (h : Uncut t s) (hy : Tally t ps bs s s')
    (hn : (posted t s.log).length + ps.length ≤ maxMessages) (hk : bs = []) : Uncut t s' where
  nil := by rw [hy.cycled, h.nil, hk, List.append_nil]
  numMsg := by
    have h1 := h.numMsg
    have h2 := h.few
    unfold maxMessages at hn h2
    rw [hy.numMsg, hy.posted, List.length_append, BitVec.toNat_add, BitVec.toNat_ofNat, h1]
    omega
  few := by
    rw [hy.posted, List.length_append]
    exact hn

/-- If the messages of `t` were counted right so far and are after this event, it is one of those that keep it so. -/
theorem Uncut.countOk {s s' : Sys} {ps : List (List Byte)} {bs : List Buf} (h : Uncut t s) (hy : Tally t ps bs s s')
    (hk : bs.length ≤ 1) (hS : s'.Sound) (ht : t ∈ s'.created) (hc : s'.Counted t) :
    bs.length = 0 ∧ (posted t s.log).length + ps.length ≤ maxMessages := by
  obtain ⟨h1, h2⟩ := (hS.counted_iff ht).1 hc
  have h3 := h.numMsg
  have h4 := h.few
  rw [hy.numMsg, hy.cycled, hy.posted, h.nil, List.nil_append, List.length_append, BitVec.toNat_add,
    BitVec.toNat_ofNat, h3] at h1
  rw [hy.cycled, hy.posted, h.nil, List.nil_append, List.length_append] at h2
  unfold maxMessages at *
  omega

theorem uncut_create {s s' : Sys} {q : Nat} {a : ThreadArgs} (h : s.Sound) (hc : s.createThread fuel t q a = some s') :
    Uncut t s' := by
  obtain ⟨⟨-, hpd⟩, -, m', -, rfl⟩ := createThread_cases hc
  have hfresh := h.objects.fresh_thread hpd
  obtain ⟨h1, h2, -⟩ := absent (t := t) True 0 fun e he hep => hfresh (hep ▸ h.mentions e he)
  refine ⟨h2, ?_, ?_⟩
  · dsimp only
    rw [if_pos rfl, h1]
    rfl
  · dsimp only
    rw [h1]
    exact Nat.zero_le _

structure PortState (t : Nat) (c : Config) : Prop where
  consistent : Consistent c
  uncut : t ∈ c.sys.created → Uncut t c.sys

theorem PortState.step (h : PortState t c) (hstray : NoStrayCycle c e) (hok : CountOk t c e)
    (hs : Krypton.step c e = some c') : PortState t c' := by
  obtain ⟨fuel, ev⟩ := e
  refine ⟨h.consistent.step hstray hs, fun ht' => ?_⟩
  by_cases ht : t ∈ c.sys.created
  · obtain ⟨hd, hn⟩ := hok ht
    have hu := h.uncut ht
    rw [hu.numMsg] at hn
    refine hu.tally (h.consistent.step_tally hstray ht hs) hn (List.length_eq_zero_iff.1 ?_)
    rw [Config.removes_length, if_neg hd]
  · rcases step_threads h.consistent hstray hs with hsame | ⟨p, q, a, -, hc⟩
    · exact absurd (hsame.created ▸ ht') ht
    · obtain ⟨-, -, m', -, he⟩ := createThread_cases hc
      have hp : t = p := by
        rw [he] at ht'
        exact (List.mem_cons.1 ht').resolve_right ht
      exact uncut_create h.consistent.sound (hp ▸ hc)

theorem PortState.countOk (h : PortState t c) (hstray : NoStrayCycle c e) (hs : Krypton.step c e = some c')
    (hc : t ∈ c'.sys.created → c'.sys.Counted t) : CountOk t c e := by
  intro ht
  obtain ⟨fuel, ev⟩ := e
  have hu := h.uncut ht
  have ht' : t ∈ c'.sys.created := by
    rcases step_threads h.consistent hstray hs with hsame | ⟨p, q, a, -, hcr⟩
    · rw [hsame.created]
      exact ht
    · obtain ⟨-, -, m', -, he⟩ := createThread_cases hcr
      rw [he]
      exact List.mem_cons_of_mem _ ht
  have hlen : (c.removes t ev).length = if c.Deletes t ev then 1 else 0 := Config.removes_length
  have hk : (c.removes t ev).length ≤ 1 := by
    rw [hlen]
    split_ifs <;> decide
  obtain ⟨h1, h2⟩ :=
    hu.countOk (h.consistent.step_tally hstray ht hs) hk (h.consistent.step hstray hs).sound ht' (hc ht')
  refine ⟨fun hd => ?_, ?_⟩
  · rw [hlen, if_pos hd] at h1
    exact absurd h1 Nat.one_ne_zero
  · rw [hu.numMsg]
    exact h2

/-- **Port accounting.** Along a run, `num_msg` of a thread made by `create_thread` is the number of messages on its
list and at most `MAX_MESSAGES` in every state, if and only if the thread deletes no message and every message posted
to it finds `num_msg` below `MAX_MESSAGES`. -/
theorem ports_counted_iff (h₀ : Booted c₀) (hm : Meets step NoStrayCycle c₀ es) (hx : exec step c₀ es = some c) :
    (∀ fs c', fs <+: es → exec step c₀ fs = some c' → t ∈ c'.sys.created → c'.sys.Counted t) ↔
      Meets step (CountOk t) c₀ es := by
  have hstart : PortState t c₀ := by
    refine ⟨h₀.inv.toConsistent, fun ht => ?_⟩
    rw [h₀.fresh.1.created] at ht
    exact absurd ht List.not_mem_nil
  clear h₀
  induction es generalizing c₀ with
  | nil =>
    refine ⟨fun _ => trivial, fun _ fs c' hfs hc' ht => ?_⟩
    rw [List.prefix_nil.1 hfs] at hc'
    obtain rfl := Option.some.inj hc'
    exact (hstart.uncut ht).counted hstart.consistent.sound ht
  | cons e es ih =>
    obtain ⟨c₁, h1, h2⟩ := Option.bind_eq_some_iff.1 hx
    obtain ⟨hstray, hrest⟩ := hm
    have hm₁ := hrest c₁ h1
    have hnext : ∀ fs, exec step c₀ (e :: fs) = exec step c₁ fs := fun fs => by
      show (step c₀ e).bind _ = _
      rw [h1]
      rfl
    constructor
    · intro hall
      have hok : CountOk t c₀ e := hstart.countOk hstray h1 (hall [e] c₁ (by simp) (by rw [hnext]; rfl))
      refine ⟨hok, fun c' hc' => ?_⟩
      obtain rfl := Option.some.inj (h1.symm.trans hc')
      refine (ih hm₁ h2 (hstart.step hstray hok h1)).1 fun fs c' hfs hc' ht => ?_
      exact hall (e :: fs) c' (List.cons_prefix_cons.2 ⟨rfl, hfs⟩) (by rw [hnext]; exact hc') ht
    · rintro ⟨hok, hmeets⟩ fs c' hfs hc' ht
      have hall := (ih hm₁ h2 (hstart.step hstray hok h1)).2 (hmeets c₁ h1)
      rcases List.prefix_cons_iff.1 hfs with rfl | ⟨fs', rfl, hfs'⟩
      · obtain rfl := Option.some.inj hc'
        exact (hstart.uncut ht).counted hstart.consistent.sound ht
      · rw [hnext] at hc'
        exact hall fs' c' hfs' hc' ht

/-- A thread is posted two messages and takes none. -/
def twoPosts : List (Nat × Event) :=
  [create 12288 15, (8, .permit)] ++ List.replicate 11 tick ++ [post 12288 14000, post 12288 14200, call 2 50100]

theorem ports_counted_iff_twoPosts : ∃ c, exec step bootZero twoPosts = some c ∧ c.sys.Counted 12288 ∧
    (c.sys.thread 12288).numMsg = 2 := by
  have hmeets : Meets step (CountOk 12288) bootZero twoPosts := by decide +kernel
  have hstray : Meets step NoStrayCycle bootZero twoPosts := by decide +kernel
  have hsome : (exec step bootZero twoPosts).isSome := by decide +kernel
  obtain ⟨c, hc⟩ := Option.isSome_iff_exists.1 hsome
  have hrun : (exec step bootZero twoPosts).map (fun c => decide (12288 ∈ c.sys.created ∧
      (c.sys.thread 12288).numMsg = 2)) = some true := by
    decide +kernel
  rw [hc] at hrun
  obtain ⟨ht, hn⟩ := of_decide_eq_true (Option.some.inj hrun)
  exact ⟨c, hc, (ports_counted_iff bootZero_booted hstray hc).2 hmeets twoPosts c (List.prefix_refl _) hc ht, hn⟩

/-- A thread is posted a message and deletes it. -/
def cycledOnce : Config := (exec step bootZero
  ([create 12288 15, (8, .permit)] ++ List.replicate 11 tick ++ [post 12288 14000, call 3 0])).getD bootZero

/-- Its port is empty and `num_msg` is 1. -/
theorem cycle_not_counted : Reach step (fun _ _ => True) bootZero cycledOnce ∧ Booted bootZero ∧
    12288 ∈ cycledOnce.sys.created ∧ IsList cycledOnce.sys.mem (messageList 12288) [] ∧
    (cycledOnce.sys.thread 12288).numMsg = 1 ∧ ¬ cycledOnce.sys.Counted 12288 := by
  have hsome : (exec step bootZero ([create 12288 15, (8, .permit)] ++ List.replicate 11 tick ++
      [post 12288 14000, call 3 0])).isSome := by decide +kernel
  have hlist : IsList cycledOnce.sys.mem (messageList 12288) [] := by
    refine ⟨?_, by decide +kernel⟩
    unfold Linked
    decide +kernel
  have hnum : (cycledOnce.sys.thread 12288).numMsg = 1 := by decide +kernel
  refine ⟨reach_exec (exec_getD bootZero hsome), bootZero_booted, by decide +kernel, hlist, hnum, ?_⟩
  rintro ⟨ps, hps, -, hlen, -⟩
  rw [hnum] at hlen
  obtain ⟨x, rfl⟩ := List.length_eq_one_iff.1 hlen.symm
  -- the head leads to the tail, and from there to `NULL`
  obtain ⟨h1, h2⟩ : cycledOnce.sys.mem.next (messageList 12288) = x ∧
      cycledOnce.sys.mem.next x = messageList 12288 + 4 := by
    have := hps.linked
    simp only [Linked, List.cons_append, List.nil_append, List.isChain_cons_cons] at this
    exact ⟨this.1.1, this.2.1.1⟩
  have hx : x = messageList 12288 + 4 := by
    rw [← h1]
    decide +kernel
  rw [hx] at h2
  exact absurd h2 (by decide +kernel)

end Krypton
