import Krypton.ExecListRun
import Krypton.Leaving
import Krypton.SchedRun

/-!
# The receiver of a port

`msg_retrieve` asks for a message and, if there is none, waits for `ST_MESG` in a second kernel entry.
Between the two the receiver is `InWindow`: a message posted there finds no thread that waits, and the
receiver falls asleep behind it. In runs without such posts a receiver on `thread_wait` has no message
(`asleep_empty`). `Waking` is the invariant, a statement about the receiver's record and the history.
-/

namespace Krypton

/-- The last time `t` asked for a message it got none, and it has not waited since. -/
def InWindow (t : Nat) : List Ev → Prop
  | [] => False
  | .retrieve t' b :: l => if t' = t then b.isNone = true else InWindow t l
  | .block t' :: l => t' ≠ t ∧ InWindow t l
  | .save .. :: l | .dispatch .. :: l | .post .. :: l | .cycle .. :: l => InWindow t l

instance decidableInWindow (t : Nat) : ∀ l, Decidable (InWindow t l)
  | [] => isFalse id
  | .retrieve t' b :: l =>
    have := decidableInWindow t l
    inferInstanceAs (Decidable (if t' = t then b.isNone = true else InWindow t l))
  | .block t' :: l =>
    have := decidableInWindow t l
    inferInstanceAs (Decidable (t' ≠ t ∧ InWindow t l))
  | .save .. :: l | .dispatch .. :: l | .post .. :: l | .cycle .. :: l => decidableInWindow t l

/-- As many messages deleted as posted. -/
def Drained (t : Nat) (l : List Ev) : Prop := (posted t l).length = (cycled t l).length

section
variable {t : Nat} {l es : List Ev} {e : Ev} {bufs : List Buf}

theorem PortLaw.drained_iff (h : PortLaw t bufs l) : Drained t l ↔ bufs = [] := by
  have := h.fifo.length_eq
  rw [List.length_append] at this
  unfold Drained
  rw [← List.length_eq_zero_iff]
  omega

/-- Entries about other threads and of the dispatcher do not concern the receiver. -/
theorem window_skip (he : e.thread ≠ t ∨ e.Switch) :
    (InWindow t (e :: l) ↔ InWindow t l) ∧ (Drained t (e :: l) ↔ Drained t l) := by
  cases e with
  | save t' _ | dispatch t' _ _ _ => exact ⟨.rfl, .rfl⟩
  | block t' =>
    have hne : t' ≠ t := he.resolve_right id
    exact ⟨⟨And.right, fun h => ⟨hne, h⟩⟩, .rfl⟩
  | post t' b =>
    have hne : (Ev.post t' b).thread ≠ t := he.resolve_right id
    refine ⟨.rfl, ?_⟩
    unfold Drained
    rw [posted_of_ne hne]
    exact .rfl
  | retrieve t' b =>
    have hne : t' ≠ t := he.resolve_right id
    exact ⟨iff_of_eq (if_neg hne), .rfl⟩
  | cycle t' b =>
    have hne : (Ev.cycle t' b).thread ≠ t := he.resolve_right id
    refine ⟨.rfl, ?_⟩
    unfold Drained
    rw [cycled_of_ne hne]
    exact .rfl

theorem InWindow.mem (h : InWindow t l) : ∃ e ∈ l, e.thread = t := by
  induction l with
  | nil => exact h.elim
  | cons e l ih =>
    by_cases he : e.thread = t
    · exact ⟨e, List.mem_cons_self .., he⟩
    · obtain ⟨e', h1, h2⟩ := ih ((window_skip (.inl he)).1.1 h)
      exact ⟨e', List.mem_cons_of_mem _ h1, h2⟩

end

/-- Whoever waits for a message has none, and neither has a receiver about to wait. -/
structure Waking (t : Nat) (th : Thread) (l : List Ev) : Prop where
  asleep : Has th.sigWait stMesg → Drained t l
  window : InWindow t l → Drained t l ∧ ¬ Has th.sigWait stMesg

namespace Waking
variable {t : Nat} {th th' : Thread} {l es : List Ev} {e : Ev} {b : Option Buf}

theorem congr (h : Waking t th l) (hw : th'.sigWait = th.sigWait) : Waking t th' l := by
  obtain ⟨h1, h2⟩ := h
  rw [← hw] at h1 h2
  exact ⟨h1, h2⟩

theorem skip (h : Waking t th l) (he : e.thread ≠ t ∨ e.Switch) : Waking t th (e :: l) := by
  obtain ⟨h1, h2⟩ := window_skip (l := l) he
  refine ⟨fun hw => h2.2 (h.asleep hw), fun hw => ?_⟩
  obtain ⟨h3, h4⟩ := h.window (h1.1 hw)
  exact ⟨h2.2 h3, h4⟩

theorem append (h : Waking t th l) (he : ∀ e ∈ es, e.Switch) : Waking t th (es ++ l) := by
  induction es with
  | nil => exact h
  | cons e es ih =>
    obtain ⟨h1, h2⟩ := List.forall_mem_cons.1 he
    exact (ih h2).skip (.inr h1)

theorem retrieve (hn : ¬ Has th.sigWait stMesg) (hd : b = none → Drained t l) :
    Waking t th (.retrieve t b :: l) := by
  refine ⟨fun hw => absurd hw hn, fun hw => ⟨hd ?_, hn⟩⟩
  unfold InWindow at hw
  rw [if_pos rfl] at hw
  exact Option.isNone_iff_eq_none.1 hw

/-- The receiver waits. -/
theorem block (h : Waking t th l) (hw : InWindow t l) : Waking t th' (.block t :: l) :=
  ⟨fun _ => (h.window hw).1, fun hx => absurd rfl hx.1⟩

theorem change (hn : ¬ Has th.sigWait stMesg) (hw : ¬ InWindow t l) (he : InWindow t (e :: l) → InWindow t l) :
    Waking t th (e :: l) :=
  ⟨fun hx => absurd hx hn, fun hx => absurd (he hx) hw⟩

end Waking

/-! ### Interrupt handlers -/

/-- A message that `_msg_post` accepts is posted to `t`. -/
def Sys.Act.PostsTo (t : Nat) : Sys.Act → Prop
  | .post t' _ _ bufSz => t' = t ∧ bufSz.toNat ≤ maxMsgSz
  | .signal .. | .print => False

def Sys.Handler.PostsTo (t : Nat) : Sys.Handler → Prop
  | .timer => False
  | .device as => ∃ a ∈ as, a.PostsTo t

def Event.PostsTo (t : Nat) : Event → Prop
  | .irq d => d.PostsTo t
  | _ => False

instance (t : Nat) : DecidablePred (Sys.Act.PostsTo t)
  | .post t' _ _ bufSz => inferInstanceAs (Decidable (t' = t ∧ bufSz.toNat ≤ maxMsgSz))
  | .signal .. | .print => inferInstanceAs (Decidable False)

instance (t : Nat) : DecidablePred (Sys.Handler.PostsTo t)
  | .timer => inferInstanceAs (Decidable False)
  | .device as => inferInstanceAs (Decidable (∃ a ∈ as, a.PostsTo t))

instance (t : Nat) : DecidablePred (Event.PostsTo t)
  | .irq d => inferInstanceAs (Decidable (d.PostsTo t))
  | .forbid | .permit | .create .. | .syscall .. | .wake _ => inferInstanceAs (Decidable False)

namespace Sys
variable {s s' s'' : Sys} {t t' p n fuel : Nat} {rs ws : List Nat}

theorem msgPost_waking {src : Buf} {bufSz : BitVec 16} (h0 : t ≠ 0)
    (hw : t' = t ∧ bufSz.toNat ≤ maxMsgSz → ¬ InWindow t s.log) (h : Waking t (s.thread t) s.log)
    (hp : s.msgPost fuel t' p src bufSz = some s') :
    Waking t (s'.thread t) s'.log ∧ (InWindow t s'.log ↔ InWindow t s.log) := by
  rcases msgPost_cases hp with ⟨-, rfl⟩ | ⟨hle, s₁, h1, h2⟩
  · exact ⟨h, .rfl⟩
  obtain ⟨-, -, rfl⟩ := kmalloc_cases h1
  have hsig := Placed.delivered_sigWait { s with blocks := (p, sizeofMessage) :: s.blocks } t' p src bufSz t
  by_cases ht : t' = t
  · subst ht
    have hout : ¬ InWindow t' s.log := hw ⟨rfl, hle⟩
    rcases signal_cases h2 with ⟨hx, rfl⟩ | ⟨-, m', -, rfl⟩
    · refine ⟨.change ?_ hout id, .rfl⟩
      rcases hx with hx | hx | hx
      · exact absurd hx h0
      · rw [hx]
        exact not_not.2 BitVec.zero_and
      · exact not_not.2 hx
    · refine ⟨.change ?_ hout id, .rfl⟩
      show ¬ Has (if t' = t' then _ else _ : Thread).sigWait stMesg
      rw [if_pos rfl]
      exact Placed.has_andNot_self _
  · have hd := (h.congr hsig).skip (e := .post t' ((List.range bufSz.toNat).map src)) (.inl ht)
    rcases signal_cases h2 with ⟨-, rfl⟩ | ⟨-, m', -, rfl⟩
    · exact ⟨hd, .rfl⟩
    · refine ⟨hd.congr ?_, .rfl⟩
      exact congrArg Thread.sigWait (if_neg (Ne.symm ht))

theorem act_waking {a : Act} (h0 : t ≠ 0) (hk : s.InHandler) (hp : a.Posts)
    (hw : a.PostsTo t → ¬ InWindow t s.log) (h : Waking t (s.thread t) s.log) (ha : s.act fuel a = some s') :
    Waking t (s'.thread t) s'.log ∧ (InWindow t s'.log ↔ InWindow t s.log) := by
  cases a with
  | post t' p src bufSz =>
    unfold Sys.act at ha
    dsimp only at ha
    split_ifs at ha with ht
    exact msgPost_waking h0 hw h ha
  | signal t flags => exact hp.elim
  | print =>
    have he : s.act fuel .print = some s := nestedPrint_eq hk
    rw [he] at ha
    exact Option.some.inj ha ▸ ⟨h, .rfl⟩

theorem acts_waking {as : List Act} (h0 : t ≠ 0) (hS : s.Sound) (hk : s.InHandler) (hp : ∀ a ∈ as, a.Posts)
    (hw : (∃ a ∈ as, a.PostsTo t) → ¬ InWindow t s.log) (h : Waking t (s.thread t) s.log)
    (ha : s.acts fuel as = some s') : Waking t (s'.thread t) s'.log := by
  induction as generalizing s with
  | nil => exact Option.some.inj ha ▸ h
  | cons a as ih =>
    obtain ⟨s₁, h1, h2⟩ := Option.bind_eq_some_iff.1 ha
    obtain ⟨hpa, hpas⟩ := List.forall_mem_cons.1 hp
    have hkept := hS.act hk h1
    obtain ⟨h3, h4⟩ := act_waking h0 hk hpa (fun hx => hw ⟨a, List.mem_cons_self .., hx⟩) h h1
    refine ih hkept.sound (hk.quiet hkept.quiet) hpas ?_ h3 h2
    rintro ⟨a', hmem, hx⟩
    rw [h4]
    exact hw ⟨a', List.mem_cons_of_mem _ hmem, hx⟩

theorem handle_waking {d : Handler} (h0 : t ≠ 0) (hS : s.Sound) (hk : s.InHandler) (hp : d.Posts)
    (hw : d.PostsTo t → ¬ InWindow t s.log) (h : Waking t (s.thread t) s.log)
    (hd : s.handle fuel d = some s') : Waking t (s'.thread t) s'.log := by
  cases d with
  | timer =>
    rw [← Option.some.inj hd]
    obtain ⟨tick, count, flags, he⟩ := timerCallback_eq s
    rw [he]
    exact h
  | device as => exact acts_waking h0 hS hk hp hw h hd

/-! ### System calls -/

theorem Placed.running_awake (h : s.Placed [s.runningThread] rs ws) (ht : s.runningThread ∈ s.created) :
    ¬ Has s.running.sigWait stMesg := fun hx => h.out_notMem.2 (h.signals _ ht hx)

theorem waitForFlags_waking {flags : Word} (hw : s.runningThread = t → InWindow t s.log)
    (h : Waking t (s.thread t) s.log) (hs : s.waitForFlags fuel flags = some s') :
    Waking t (s'.thread t) s'.log ∧
      ∀ x, (s'.thread x).sigWait = if x = s.runningThread then s.running.sigWait ||| flags else (s.thread x).sigWait := by
  obtain ⟨m', -, rfl⟩ := waitForFlags_cases hs
  refine ⟨?_, fun x => ?_⟩
  · by_cases hr : s.runningThread = t
    · subst hr
      exact h.block (hw rfl)
    · refine (h.skip (e := .block s.runningThread) (.inl hr)).congr ?_
      exact congrArg Thread.sigWait (if_neg (Ne.symm hr))
  · show (if x = s.runningThread then _ else s.thread x : Thread).sigWait = _
    split_ifs
    · rfl
    · rfl

theorem msgRetrieve_waking (hS : s.Sound) (ht : t ∈ s.created)
    (hn : s.runningThread = t → ¬ Has s.running.sigWait stMesg) (h : Waking t (s.thread t) s.log) (ptr : Word) :
    Waking t ((s.msgRetrieve ptr).thread t) (s.msgRetrieve ptr).log := by
  by_cases hr : s.runningThread = t
  · subst hr
    obtain ⟨q, hq⟩ := hS.ports
    refine .retrieve (hn rfl) fun hb => ?_
    have hhead := hq.head_buf ht
    rw [← hq.getHead ht, hb] at hhead
    refine (hq.law _ ht).drained_iff.2 ?_
    exact List.head?_eq_none_iff.1 hhead.symm
  · exact h.skip (e := .retrieve s.runningThread _) (.inl hr)

theorem msgCycle_waking (hS : s.Sound) (hrun : s.runningThread ∈ s.threads) (ht : t ∈ s.created)
    (hstray : ¬ s.StrayCycle 3) (hn : s.runningThread = t → ¬ Has s.running.sigWait stMesg)
    (h : Waking t (s.thread t) s.log) :
    Waking t (s.msgCycle.thread t) s.msgCycle.log ∧ s.msgCycle.thread = s.thread := by
  rcases hS.msgCycle_cases hrun hstray with he | ⟨hc, q, p, ps, hq, hqt, he⟩
  · rw [he]
    exact ⟨h, rfl⟩
  · rw [he]
    refine ⟨?_, rfl⟩
    by_cases hr : s.runningThread = t
    · subst hr
      refine .change (hn rfl) (fun hw => ?_) id
      -- in the window the port is empty
      have hnil := (hq.law _ ht).drained_iff.1 (h.window hw).1
      rw [hqt] at hnil
      cases hnil
    · exact h.skip (e := .cycle s.runningThread _) (.inl hr)

theorem syscall_waking {eax ebx : Word} (hS : s.Sound) (hrun : s.runningThread ∈ s.threads) (ht : t ∈ s.created)
    (hstray : ¬ s.StrayCycle eax) (hw : eax ≠ 0 ∨ s.running.uid ≠ 0)
    (hn : s.runningThread = t → ¬ Has s.running.sigWait stMesg) (h : Waking t (s.thread t) s.log)
    (hs : s.syscall fuel eax ebx = some s') :
    Waking t (s'.thread t) s'.log ∧ s'.thread = s.thread := by
  unfold Sys.syscall at hs
  split_ifs at hs with h0 h1 h2 h3 h4
  · exact Option.some.inj hs ▸ ⟨h, rfl⟩
  · exact absurd h1 (hw.resolve_right h0)
  · exact Option.some.inj hs ▸ ⟨h, rfl⟩
  · rw [← Option.some.inj hs]
    exact ⟨msgRetrieve_waking hS ht hn h ebx, rfl⟩
  · rw [← Option.some.inj hs]
    exact msgCycle_waking hS hrun ht (h4 ▸ hstray) hn h
  · exact Option.some.inj hs ▸ ⟨h, rfl⟩

/-! ### The dispatcher -/

theorem Exits.sigWait (h : Exits s s') (t : Nat) : (s'.thread t).sigWait = (s.thread t).sigWait := by
  obtain ⟨esp, flags, ht⟩ := h.thread t
  rw [ht]

theorem Exits.waking (h : Exits s s') (hw : Waking t (s.thread t) s.log) : Waking t (s'.thread t) s'.log := by
  obtain ⟨es, h1, h2⟩ := h.log
  rw [h1]
  exact (hw.append h2).congr (h.sigWait t)

end Sys

/-! ### Runs -/

open Sys

variable {c c' c₀ : Config} {t : Nat} {rs ws : List Nat} {e : Nat × Event}

/-- A call of `wait` for `ST_MESG`. -/
def Event.WaitsForMesg : Event → Prop
  | .syscall eax ebx => eax = 0 ∧ ebx = stMesg
  | _ => False

instance : DecidablePred Event.WaitsForMesg
  | .syscall eax ebx => inferInstanceAs (Decidable (eax = 0 ∧ ebx = stMesg))
  | .forbid | .permit | .create .. | .irq _ | .wake _ => inferInstanceAs (Decidable False)

/-- `wait` is called in safe states only, `t` calls it only as `msg_retrieve` does, and no message reaches
`t` between its two calls. -/
def RetrieveOk (t : Nat) (c : Config) (e : Nat × Event) : Prop :=
  WaitOk c e ∧
    (e.2.IsWait → c.sys.runningThread = t → e.2.WaitsForMesg ∧ InWindow t c.sys.log) ∧
    (e.2.PostsTo t → ¬ InWindow t c.sys.log)

instance (t : Nat) (c : Config) (e : Nat × Event) : Decidable (RetrieveOk t c e) :=
  inferInstanceAs (Decidable (_ ∧ _ ∧ _))

/-- What holds of a receiver `t` between two entries. -/
structure Receiver (t : Nat) (s : Sys) (ws : List Nat) : Prop where
  waking : t ∈ s.created → Waking t (s.thread t) s.log
  waits : t ∈ s.created → t ∈ ws → Has (s.thread t).sigWait stMesg

theorem Receiver.switched {s s' : Sys} (h : Receiver t s ws) (hs : Exits s s') : Receiver t s' ws := by
  refine ⟨fun ht => hs.waking (h.waking (hs.created ▸ ht)), fun ht hw => ?_⟩
  rw [hs.sigWait]
  exact h.waits (hs.created ▸ ht) hw

namespace Receiver
variable {s : Sys} {fuel : Nat}

theorem create {p q : Nat} {a : ThreadArgs} (hi : Inv c) (hst : Settled c rs ws) (hm : c.mode = .ring3)
    (h : Receiver t c.sys ws) (hc : c.sys.createThread fuel p q a = some s) : Receiver t s ws := by
  have hold := (hst.ring3 hm).queues.mem_wait
  obtain ⟨⟨-, hpd⟩, -, m', -, rfl⟩ := createThread_cases hc
  have hp : p ∉ c.sys.threads := hi.sound.objects.fresh_thread hpd
  constructor
  · intro ht
    rcases List.mem_cons.1 ht with rfl | ht
    · show Waking t (if t = t then _ else _) c.sys.log
      rw [if_pos rfl]
      -- a new thread has not been heard of
      refine ⟨fun hx => absurd BitVec.zero_and hx, fun hx => ?_⟩
      obtain ⟨e, he, het⟩ := hx.mem
      exact absurd (het ▸ hi.sound.mentions e he) hp
    · have htp : t ≠ p := fun he => hp (he ▸ created_sub ht)
      exact (h.waking ht).congr (congrArg Thread.sigWait (if_neg htp))
  · intro ht hw
    have htp : t ≠ p := fun he => hp (he ▸ hold t hw)
    have hsig : ((if t = p then c.sys.newThread a else c.sys.thread t) : Thread).sigWait =
      (c.sys.thread t).sigWait := congrArg Thread.sigWait (if_neg htp)
    show Has ((if t = p then c.sys.newThread a else c.sys.thread t) : Thread).sigWait stMesg
    rw [hsig]
    exact h.waits ((List.mem_cons.1 ht).resolve_left htp) hw

theorem wait {ebx : Word} (hi : Inv c) (h : Receiver t c.sys ws) (hu : c.sys.running.uid = 0)
    (hok : c.sys.runningThread = t → ebx = stMesg ∧ InWindow t c.sys.log)
    (hh : c.sys.trap.idtHandler fuel 0 ebx = some s) :
    Receiver t s (ws.orderedInsert c.sys.mem.ByPri c.sys.runningThread) := by
  rw [idtHandler_wait (s := c.sys.trap) hu] at hh
  obtain ⟨s₁, h1, h2⟩ := Option.bind_eq_some_iff.1 hh
  have hkept := Sound.waitForFlags (s := c.sys.trap.enter) (hi.sound.congr {}) hi.context.running h1
  obtain ⟨hth, hlog⟩ := reschedule_frame h2
  have hcr : s.created = c.sys.created := by
    have := hi.idtKept (fun hx => absurd hx.2.1 (by decide))
      ((idtHandler_wait (s := c.sys.trap) hu ebx).trans hh)
    exact this.quiet.created
  have hwin : c.sys.runningThread = t → InWindow t c.sys.log := fun hr => (hok hr).2
  constructor
  · intro ht
    rw [hth, hlog]
    exact (waitForFlags_waking (s := c.sys.trap.enter) hwin (h.waking (hcr ▸ ht)) h1).1
  · intro ht hw
    obtain ⟨-, hsig⟩ := waitForFlags_waking (s := c.sys.trap.enter) hwin (h.waking (hcr ▸ ht)) h1
    rw [hth, hsig t]
    split_ifs with hr
    · rw [(hok hr.symm).1]
      exact has_or_set (by decide)
    · exact h.waits (hcr ▸ ht) (((List.mem_orderedInsert _).1 hw).resolve_left hr)

theorem syscall {eax ebx : Word} (hi : Inv c) (hst : Settled c rs ws) (hm : c.mode = .ring3)
    (h : Receiver t c.sys ws) (hstray : ¬ c.sys.StrayCycle eax) (hw : eax ≠ 0 ∨ c.sys.running.uid ≠ 0)
    (hh : c.sys.trap.idtHandler fuel eax ebx = some s) : Receiver t s ws := by
  have hcr := (hi.idtKept hstray hh).quiet.created
  obtain ⟨s₁, h1, h2⟩ := Option.bind_eq_some_iff.1 hh
  have hS : c.sys.trap.enter.Sound := hi.sound.congr {}
  obtain ⟨hth, hlog⟩ := reschedule_frame h2
  have hcall : t ∈ s.created → Waking t (s₁.thread t) s₁.log ∧ s₁.thread = c.sys.thread := by
    intro ht
    have ht' : t ∈ c.sys.created := hcr ▸ ht
    have hn : c.sys.runningThread = t → ¬ Has c.sys.running.sigWait stMesg := fun hr =>
      (hst.ring3 hm).running_awake (hr ▸ ht')
    exact syscall_waking (s := c.sys.trap.enter) hS hi.context.running ht' hstray hw hn (h.waking ht') h1
  constructor
  · intro ht
    rw [hth, hlog]
    exact (hcall ht).1
  · intro ht hx
    rw [hth, (hcall ht).2]
    exact h.waits (hcr ▸ ht) hx

/-- An interrupt, from ring 3 or from the idle loop; `s₀` is the state its handler begins in. -/
theorem irq {s₀ : Sys} {d : Handler} {rs' ws' : List Nat} (h : Receiver t s₀ ws) (hS : s₀.Sound)
    (hk : s₀.InHandler) (hp : d.Posts) (hw : d.PostsTo t → ¬ InWindow t s₀.log)
    (hwoken : Placed.Woken s₀ s rs ws rs' ws') (hcr : s.created = s₀.created)
    (hh : (s₀.handle fuel d).bind (fun s => s.reschedule fuel) = some s) : Receiver t s ws' := by
  obtain ⟨s₁, h1, h2⟩ := Option.bind_eq_some_iff.1 hh
  obtain ⟨hth, hlog⟩ := reschedule_frame h2
  constructor
  · intro ht
    have ht' : t ∈ s₀.created := hcr ▸ ht
    have h0 : t ≠ 0 := hS.objects.ne_zero _ (hS.objects.thread t (created_sub ht'))
    rw [hth, hlog]
    exact handle_waking h0 hS hk hp hw (h.waking ht') h1
  · intro ht hx
    rw [hwoken.asleep t hx]
    exact h.waits (hcr ▸ ht) (hwoken.wait t hx)

end Receiver

theorem receiver_step (hi : Inv c) (hst : Settled c rs ws) (h : Receiver t c.sys ws) (hok : RetrieveOk t c e)
    (hs : step c e = some c') : ∃ rs' ws', Settled c' rs' ws' ∧ Receiver t c'.sys ws' := by
  obtain ⟨fuel, ev⟩ := e
  obtain ⟨⟨hreg, hposts, hsafe⟩, hwait, hpost⟩ := hok
  cases step_cases hs with
  | forbid hm | permit hm =>
    refine ⟨rs, ws, ?_, h.waking, h.waits⟩
    exact Settled.of_ring3 ((hst.ring3 hm).same rfl rfl rfl rfl rfl rfl) hst.calm
  | @create p q a s hm hc =>
    obtain ⟨rs', hp, -, hf⟩ := (hst.ring3 hm).create hi.sound hc
    have hr := h.create hi hst hm hc
    obtain ⟨-, -, m', -, rfl⟩ := createThread_cases hc
    refine ⟨rs', ws, Settled.of_ring3 hp ?_, hr⟩
    rw [hf]; exact hst.calm
  | @syscall eax ebx s hm hh =>
    obtain ⟨hc, hk⟩ := hi.entered hm (hi.idtKept hreg.1 hh)
    have hsw : Exits s (s.dispatch .ring3).sys := .dispatch s .ring3
    by_cases hw : eax = 0 ∧ c.sys.running.uid = 0
    · obtain ⟨rfl, hu⟩ := hw
      obtain ⟨hp, hn⟩ := hst.wait hi hm hu (hsafe rfl hu) hh
      obtain ⟨rs', hx⟩ := Pending.dispatch ⟨.inr ⟨hp, hn⟩⟩ hc hk
      refine ⟨rs', _, hx, (h.wait hi hu (fun hr => ?_) hh).switched hsw⟩
      obtain ⟨⟨-, h1⟩, h2⟩ := hwait rfl hr
      exact ⟨h1, h2⟩
    · have hw' : eax ≠ 0 ∨ c.sys.running.uid ≠ 0 := by tauto
      obtain ⟨rs', hp, -⟩ := hst.syscall hi hm hreg.1 hw' hh
      obtain ⟨rs'', hx⟩ := hp.dispatch hc hk
      exact ⟨rs'', ws, hx, (h.syscall hi hst hm hreg.1 hw' hh).switched hsw⟩
  | @irq d s hm hh =>
    have hkept := hi.irqKept hm hh
    obtain ⟨hc, hk⟩ := hi.entered hm hkept
    obtain ⟨rs', ws', hp, hwoken, -⟩ := hst.irq hi hm hposts hh
    obtain ⟨rs'', hx⟩ := hp.dispatch hc hk
    have hr : Receiver t s ws' := by
      have hin : Receiver t c.sys.trap.enter ws := ⟨h.waking, h.waits⟩
      refine hin.irq (hi.sound.congr {})
        (.inl (hi.trap_kReenter hm)) hposts hpost ⟨hwoken.ready, hwoken.wait, hwoken.asleep⟩ hkept.quiet.created hh
    exact ⟨rs'', ws', hx, hr.switched (.dispatch s .ring3)⟩
  | @idleIrq d s hm hh =>
    have hk := hi.enter_kReenter hm
    have hkept := hi.sound.irqHandler hi.context.running (.inr hk) hh
    obtain ⟨rs', ws', hx, hwoken⟩ := hst.idleIrq hi hm hposts hh
    have hr : Receiver t s ws' := by
      have hin : Receiver t c.sys.enter ws := ⟨h.waking, h.waits⟩
      refine hin.irq (hi.sound.congr {})
        (.inr hk) hposts hpost ⟨hwoken.ready, hwoken.wait, hwoken.asleep⟩ hkept.quiet.created hh
    exact ⟨rs', ws', hx, hr.switched (.dispatch s .idle)⟩
  | wake hm hw =>
    obtain rfl := hreg.2.wakeUp hw
    exact ⟨rs.tail, ws, (hst.wake hm).1, h.switched (.idleLoop c.sys)⟩

/-- **No lost wake-up.** In a run in which `t` receives by `msg_retrieve`, `wait` is called in safe states
and no message reaches `t` between its check and its call of `wait`, the port of `t` is empty whenever `t`
is on `thread_wait`. -/
theorem asleep_empty (h : Reach step (RetrieveOk t) c₀ c) (h₀ : Booted c₀) (ht : t ∈ c.sys.created) :
    ∃ rs ws, IsList c.sys.mem c.sys.threadReady rs ∧ IsList c.sys.mem c.sys.threadWait ws ∧
      (∀ x ∈ rs ++ ws, x ∈ c.sys.threads) ∧ (t ∈ ws → Holds c.sys.mem (messageList t) []) := by
  have hi := reach_regular (h.mono fun _ _ he => he.1.1) h₀
  obtain ⟨rs, ws, hst, hr⟩ : ∃ rs ws, Settled c rs ws ∧ Receiver t c.sys ws := by
    refine reach_keeps (P := fun c => ∃ rs ws, Settled c rs ws ∧ Receiver t c.sys ws) h h₀
      (fun _ _ he => he.1.1.keeps) ⟨[], [], h₀.settled, ?_⟩ ?_
    · obtain ⟨hf, -⟩ := h₀.fresh
      refine ⟨fun ht => ?_, fun ht => ?_⟩
      · rw [hf.created] at ht
        exact absurd ht List.not_mem_nil
      · rw [hf.created] at ht
        exact absurd ht List.not_mem_nil
    · rintro s e s' hi ⟨rs, ws, hst, hr⟩ hok hs
      exact receiver_step hi hst hr hok hs
  have hq := hst.placed.queues
  refine ⟨rs, ws, hq.isList_ready, hq.isList_wait, fun x hx => ?_, fun hw => ?_⟩
  · exact (List.mem_append.1 hx).elim (hq.mem_ready x) (hq.mem_wait x)
  · obtain ⟨q, hports⟩ := hi.sound.ports
    obtain ⟨σ, hrep, -, hσ⟩ := hports.rep
    have hd := (hr.waking ht).asleep (hr.waits ht hw)
    have hnil : q t = [] := List.map_eq_nil_iff.1 ((hports.law t ht).drained_iff.1 hd)
    exact hrep.holds (hnil ▸ hσ t ht)

/-- A thread of priority 15 asks for a message, waits, gets one and waits again. -/
def receive : List (Nat × Event) :=
  [create 12288 15, (8, .permit)] ++ List.replicate 11 tick ++
    [call 2 50100, call 0 1, tick, post 12288 14000, tick, call 2 50100, call 3 0, call 2 50100, call 0 1]

def received : Config := (exec step bootZero receive).getD bootZero

theorem asleep_empty_received :
    ∃ ws, IsList received.sys.mem received.sys.threadWait ws ∧
      (12288 ∈ ws → Holds received.sys.mem (messageList 12288) []) := by
  have hx : (exec step bootZero receive).isSome := by decide +kernel
  have hmeets : Meets step (RetrieveOk 12288) bootZero receive := by decide +kernel
  have hrun : Reach step (RetrieveOk 12288) bootZero received := reach_exec_meets hmeets (exec_getD bootZero hx)
  obtain ⟨rs, ws, -, h1, -, h2⟩ := asleep_empty hrun bootZero_booted (by decide +kernel)
  exact ⟨ws, h1, h2⟩

/-- The message comes between the check and the call of `wait`. -/
def oversee : List (Nat × Event) :=
  [create 12288 15, (8, .permit)] ++ List.replicate 11 tick ++ [call 2 50100, post 12288 14000, call 0 1]

def overseen : Config := (exec step bootZero oversee).getD bootZero

theorem asleep_with_message :
    Reach step (fun _ e => e.2.Posts) bootZero overseen ∧ Booted bootZero ∧
      12288 ∈ overseen.sys.created ∧ (overseen.sys.thread 12288).uid = 0 ∧
      IsList overseen.sys.mem overseen.sys.threadWait [12288] ∧
      Holds overseen.sys.mem (messageList 12288) [14000] := by
  refine ⟨?_, bootZero_booted, by decide +kernel, by decide +kernel, ⟨?_, by decide +kernel⟩,
    List.nodup_singleton _, ⟨2, by decide +kernel⟩, ⟨2, by decide +kernel⟩⟩
  · have hx : (exec step bootZero oversee).isSome := by decide +kernel
    have hposts : ∀ e ∈ oversee, e.2.Posts := by decide +kernel
    exact reach_exec_forall hposts (exec_getD bootZero hx)
  · unfold Linked
    decide +kernel

end Krypton
