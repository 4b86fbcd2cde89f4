import Krypton.PortCount
import Krypton.Stable

/-!
# What a thread may rely on between two of its calls

While others run, the first message of a thread's port stays the first until the thread deletes it (`Ahead`), however
many are posted behind it; its `uid` stays (`Serves`). The live blocks are those there were and those the event
allocates (`step_blocks`).
-/

namespace Krypton
namespace Sys

variable {s s' : Sys} {fuel l n m t x p : Nat} {m' : Mem} {q : Nat → List Nat}

/-! ### The first message -/

/-- Working on other objects leaves the heads of the message lists. -/
theorem Ports.getHead_congr {h : s.Objects} (hq : s.Ports h q) (ht : t ∈ s.created)
    (hm : ∀ c, h.ports.Byte c → m' c = s.mem c) :
    Krypton.getHead m' (messageList t) = Krypton.getHead s.mem (messageList t) := by
  obtain ⟨σ, hrep, -, hσ⟩ := hq.rep
  exact ((hrep.congr_byte hm).getHead_eq (hσ t ht)).trans (hrep.getHead_eq (hσ t ht)).symm

theorem Sound.enqueue_getHead (h : s.Sound) (ht : t ∈ s.created) (hl : l = s.threadReady ∨ l = s.threadWait)
    (hn : n ∈ s.threads) (he : Krypton.enqueue fuel s.mem l n = some m') :
    getHead m' (messageList t) = getHead s.mem (messageList t) := by
  obtain ⟨q, hq⟩ := h.ports
  obtain ⟨N, hN, -, hty⟩ := h.links
  have hN' : ∀ t ∈ insert n N, t ∈ s.threads := by
    rintro t (rfl | ht)
    · exact hn
    · exact hN t ht
  have hL : (h.objects.lists N hN).Adds (h.objects.lists (insert n N) hN') n := ⟨rfl, fun _ => Iff.rfl⟩
  exact hq.getHead_congr ht fun c hc => (hty.enqueue hL hl he).2 c fun hx => h.objects.lists_ports hx.byte hc

theorem Sound.remove_getHead (h : s.Sound) (ht : t ∈ s.created) (hn : n ∈ s.created) :
    getHead (Krypton.remove s.mem n) (messageList t) = getHead s.mem (messageList t) := by
  obtain ⟨q, hq⟩ := h.ports
  obtain ⟨N, hN, hc, hty⟩ := h.links
  exact hq.getHead_congr ht fun c hx => (hty.remove (hc n hn)).2 c fun hy => h.objects.lists_ports hy.byte hx

theorem Sound.unlink_getHead (h : s.Sound) (ht : t ∈ s.created) (hn : s.HasLinks n) :
    getHead (s.unlinkNext n).mem (messageList t) = getHead s.mem (messageList t) ∧
      getHead (s.unlinkPrev n).mem (messageList t) = getHead s.mem (messageList t) := by
  obtain ⟨q, hq⟩ := h.ports
  obtain ⟨ho, N, hN, hmem, -, hty⟩ := hn
  have hfwd : (ho.lists N hN).Fwd (s.mem.prev n) := hty.prev n (.node hmem)
  have hbwd : (ho.lists N hN).Bwd (s.mem.next n) := hty.next n (.node hmem)
  constructor
  · exact hq.getHead_congr ht fun c hc => SameOff.refl.setNext hfwd c fun hx => ho.lists_ports hx.byte hc
  · exact hq.getHead_congr ht fun c hc => SameOff.refl.setPrev hbwd c fun hx => ho.lists_ports hx.byte hc

theorem Sound.queued_getHead (h : s.Sound) (ht : t ∈ s.created) (hx : x ∈ s.created)
    (hk : s.kmalloc p sizeofMessage = some s') (h0 : getHead s.mem (messageList x) ≠ 0) :
    getHead (addTail s.mem (messageList t) p) (messageList x) = getHead s.mem (messageList x) := by
  obtain ⟨hp0, hd, rfl⟩ := kmalloc_cases hk
  have hs' := h.alloc hp0 hd
  obtain ⟨q, ⟨σ, hrep, -, hσ⟩, -, -⟩ := h.ports
  have hfree : σ.Free p := fun l xs hl hp => h.objects.fresh_message hd (hrep.node l xs hl p hp)
  have hrep' : Rep hs'.objects.ports s.mem σ :=
    hrep.mono (fun _ hl => hl) fun x hx => hx.imp id (List.mem_cons_of_mem _)
  have hadd := (hrep'.addTail (hσ t ht) (.inr (List.mem_cons_self ..)) hfree).1
  have hhead := hrep.getHead_eq (hσ x hx)
  by_cases he : x = t
  · subst he
    rw [hadd.getHead_eq (Function.update_self ..), hhead]
    rw [hhead] at h0
    cases hqx : q x with
    | nil => exact absurd (by rw [hqx]; rfl) h0
    | cons y ys => rfl
  · have hother := Function.update_of_ne (messageList_inj.not.2 he) (some (q t ++ [p])) σ
    rw [hadd.getHead_eq (hother.trans (hσ x hx)), hhead]

theorem Ports.deleted_getHead {h : s.Objects} (hq : s.Ports h q) (hr : s.runningThread ∈ s.created) (ht : t ∈ s.created)
    (hne : s.runningThread ≠ t) {ps : List Nat} (hqt : q s.runningThread = p :: ps) :
    Krypton.getHead (s.deleted p).mem (messageList t) = Krypton.getHead s.mem (messageList t) := by
  obtain ⟨σ, hrep, -, hσ⟩ := hq.rep
  have hrun := hσ _ hr
  rw [hqt] at hrun
  obtain ⟨-, hdel, -⟩ := hrep.removeHead_cons hrun
  have hother := Function.update_of_ne (messageList_inj.not.2 hne.symm) (some ps) σ
  exact (hdel.getHead_eq (hother.trans (hσ t ht))).trans (hrep.getHead_eq (hσ t ht)).symm

theorem Sound.created_getHead {r : Nat} {a : ThreadArgs} (h : s.Sound) (ht : t ∈ s.created)
    (hc : s.createThread fuel p r a = some s') :
    getHead s'.mem (messageList t) = getHead s.mem (messageList t) := by
  obtain ⟨⟨hp0, hpd⟩, ⟨hr0, hrd⟩, m', hm', rfl⟩ := createThread_cases hc
  obtain ⟨hobj, hd, -⟩ := h.described hp0 hpd hr0 hrd
  obtain ⟨N, hN, -, hty⟩ := hd.links
  obtain ⟨q, ⟨σ, hrep, hσ, hσt⟩, -, -⟩ := h.ports
  have hpt : p ∉ s.threads := h.objects.fresh_thread hpd
  have hdesc : Rep h.objects.ports (descriptorMem s.mem p r a.priority) σ := by
    refine hrep.congr_byte fun c hx => descriptorMem_of_not_mem _ _ fun hp => ?_
    obtain ⟨b, hb, hbc⟩ := h.objects.ports_block hx
    have := hpd b hb
    simp only [Disjoint] at this
    omega
  have hrep1 : Rep hobj.ports (descriptorMem s.mem p r a.priority) σ := by
    refine hdesc.mono (fun l hl => ?_) fun n hn => ?_
    · exact hl.imp id (Exists.imp fun _ => And.imp_left (List.mem_cons_of_mem p))
    · exact hn.imp (Exists.imp fun _ => And.imp_left (List.mem_cons_of_mem p))
        fun hm => List.mem_cons_of_mem _ (List.mem_cons_of_mem _ hm)
  have hfree : σ.Free (msgPort p) := fun l xs hl hp => by
    obtain ⟨b, hb, hbc⟩ := h.objects.ports_block (.inr ⟨_, hrep.node l xs hl _ hp, Nat.le_refl _, by omega⟩)
    have := hpd b hb
    simp only [Disjoint, msgPort, sizeofThread] at this hbc
    omega
  obtain ⟨hports, -⟩ := hobj.portsMem_rep hrep1 hσ hfree
  have htp : t ≠ p := fun he => hpt (he ▸ created_sub ht)
  have hport : Function.update (Function.update σ s.msgportList (some (msgPort p :: s.created.map msgPort)))
      (messageList p) (some []) (messageList t) = some (q t) := by
    rw [Function.update_of_ne (messageList_inj.not.2 htp), Function.update_of_ne (h.objects.messageList_ne ht)]
    exact hσt t ht
  have hN' : ∀ t ∈ insert p N, t ∈ (s.described p r a).threads := by
    rintro t (rfl | ht)
    · exact List.mem_cons_self ..
    · exact hN t ht
  have hL : (hobj.lists N hN).Adds (hobj.lists (insert p N) hN') p := ⟨rfl, fun _ => Iff.rfl⟩
  have hqueued : Rep hobj.ports m' _ :=
    hports.congr_byte fun c hx => (hty.enqueue hL (.inl rfl) hm').2 c fun hy => hobj.lists_ports hy.byte hx
  exact (hqueued.getHead_eq hport).trans (hrep.getHead_eq (hσt t ht)).symm

/-- The message behind the `n` that `t` has deleted first is `m`, unless `t` has deleted it too. -/
structure Ahead (t n m : Nat) (s : Sys) : Prop where
  made : t ∈ s.created
  first : n < (cycled t s.log).length ∨ (cycled t s.log).length = n ∧ getHead s.mem (messageList t) = m

namespace Ahead

theorem keep (h : Ahead t n m s) (hc : ∀ t ∈ s.created, t ∈ s'.created)
    (hl : (cycled t s'.log).length = (cycled t s.log).length)
    (hg : getHead s'.mem (messageList t) = getHead s.mem (messageList t)) : Ahead t n m s' := by
  refine ⟨hc t h.made, ?_⟩
  rw [hl, hg]
  exact h.first

theorem enqueue (h : Ahead t n m s) (hS : s.Sound) (hl : l = s.threadReady ∨ l = s.threadWait) (hx : x ∈ s.threads)
    (he : Krypton.enqueue fuel s.mem l x = some m') : Ahead t n m { s with mem := m' } :=
  h.keep (fun _ ht => ht) rfl (hS.enqueue_getHead h.made hl hx he)

theorem signal {flags : Word} (h : Ahead t n m s) (hS : s.Sound) (hx : x ∈ s.created)
    (hs : s.signal fuel x flags = some s') : Ahead t n m s' := by
  rcases signal_cases hs with ⟨-, rfl⟩ | ⟨-, m', hm', rfl⟩
  · exact h
  · have hr : Ahead t n m { s with mem := Krypton.remove s.mem x } :=
      h.keep (fun _ ht => ht) rfl (hS.remove_getHead h.made hx)
    have hq := hr.enqueue (hS.remove hx) (.inl rfl) (created_sub hx) hm'
    exact ⟨hq.made, hq.first⟩

theorem msgPost {src : Buf} {bufSz : BitVec 16} (hm : m ≠ 0) (h : Ahead t n m s) (hS : s.Sound) (hx : x ∈ s.created)
    (hp : s.msgPost fuel x p src bufSz = some s') : Ahead t n m s' := by
  rcases msgPost_cases hp with ⟨-, rfl⟩ | ⟨-, s₁, h1, h2⟩
  · exact h
  have hq := (hS.queued hx (memcpy_matches (s₁.msgBuf p) src bufSz.toNat) h1).1
  have hd : (s₁.delivered x p src bufSz).Sound := hq.congr ⟨rfl, rfl, rfl, rfl, rfl, rfl, rfl⟩
  refine signal (s := s₁.delivered x p src bufSz) ?_ hd ?_ h2
  · have hhead := hS.queued_getHead hx h.made h1
    obtain ⟨-, -, rfl⟩ := kmalloc_cases h1
    refine ⟨h.made, h.first.imp id fun hf => ⟨hf.1, ?_⟩⟩
    exact (hhead (hf.2 ▸ hm)).trans hf.2
  · obtain ⟨-, -, rfl⟩ := kmalloc_cases h1
    exact hx

theorem msgCycle (h : Ahead t n m s) (hS : s.Sound) (hr : s.runningThread ∈ s.created) : Ahead t n m s.msgCycle := by
  obtain ⟨q, hq⟩ := hS.ports
  cases hqr : q s.runningThread with
  | nil =>
    rw [msgCycle_nil hq hr hqr]
    exact h
  | cons p ps =>
    rw [msgCycle_cons hq hr hqr]
    by_cases he : s.runningThread = t
    · refine ⟨h.made, .inl ?_⟩
      show n < (cycled t (.cycle s.runningThread _ :: s.log)).length
      simp only [cycled, he, if_true, List.length_append, List.length_singleton]
      have := h.first
      omega
    · exact h.keep (fun _ ht => ht) (congrArg List.length (cycled_of_ne he)) (hq.deleted_getHead hr h.made he hqr)

theorem stable (t n : Nat) (hm : m ≠ 0) : Stable (Ahead t n m) where
  store h e := h.keep (fun _ ht => e.created ▸ ht) (by rw [e.log]) (by rw [e.mem])
  post hS h ht hp := h.msgPost hm hS ht hp
  signal hS h ht hs := h.signal hS ht hs
  wait hS h hr hw := by
    obtain ⟨m', hm', rfl⟩ := waitForFlags_cases hw
    exact h.keep (fun _ ht => ht) rfl (hS.enqueue_getHead h.made (.inr rfl) hr hm')
  retrieve h ptr := h.keep (fun _ ht => ht) rfl rfl
  cycle hS h hr := h.msgCycle hS hr
  requeue hS h hr hs := by
    obtain ⟨m', hm', rfl⟩ := requeue_cases hs
    exact h.keep (fun _ ht => ht) rfl (hS.enqueue_getHead h.made (.inl rfl) hr hm')
  switchOut hc h := by
    rw [switchOut_eq hc.has_run]
    exact h.keep (fun _ ht => ht) rfl rfl
  unlink hS h hn := by
    obtain ⟨h1, h2⟩ := hS.unlink_getHead h.made hn
    exact ⟨h.keep (fun _ ht => ht) rfl h1, h.keep (fun _ ht => ht) rfl h2⟩
  switchTo h _ := h.keep (fun _ ht => ht) rfl rfl
  switchRun h _ := by
    rw [switchRun_resume]
    exact h.keep (fun _ ht => ht) rfl rfl
  create hS h hc := by
    have hhead := hS.created_getHead h.made hc
    obtain ⟨-, -, m', -, rfl⟩ := createThread_cases hc
    exact h.keep (fun _ ht => List.mem_cons_of_mem _ ht) rfl hhead

end Ahead

/-- System calls of `t` are served. -/
structure Serves (t : Nat) (s : Sys) : Prop where
  made : t ∈ s.created
  uid : (s.thread t).uid = 0

theorem Serves.exits (h : Serves t s) (hs : Exits s s') : Serves t s' := by
  obtain ⟨esp, flags, ht⟩ := hs.thread t
  exact ⟨hs.created ▸ h.made, ht ▸ h.uid⟩

theorem Serves.stableQuiet (t : Nat) : StableQuiet (Serves t) where
  store h e := ⟨e.created ▸ h.made, e.thread ▸ h.uid⟩
  quiet h hq := ⟨hq.created ▸ h.made, (hq.threads t).uid.trans h.uid⟩
  switchOut {s} _ h := h.exits ((Exits.saveContext s).trans (.switchBegin _))
  switchTo {s n} h _ := h.exits (.switchTo s n)
  switchRun {s} h _ := h.exits (.resume s)
  create {s s' fuel p q a} hS h hc := by
    obtain ⟨⟨-, hpd⟩, -, m', -, rfl⟩ := createThread_cases hc
    refine ⟨List.mem_cons_of_mem _ h.made, ?_⟩
    have hne : t ≠ p := fun he => hS.objects.fresh_thread hpd (he ▸ created_sub h.made)
    show (if t = p then s.newThread a else s.thread t : Thread).uid = 0
    rw [if_neg hne]
    exact h.uid

/-! ### Live blocks -/

section
variable {eax ebx flags : Word}

theorem signal_blocks (h : s.signal fuel t flags = some s') : s'.blocks = s.blocks := by
  rcases signal_cases h with ⟨-, rfl⟩ | ⟨-, m', -, rfl⟩
  · rfl
  · rfl

theorem requeue_blocks (h : s.requeue fuel = some s') : s'.blocks = s.blocks := by
  obtain ⟨m', -, rfl⟩ := requeue_cases h
  rfl

theorem reschedule_blocks (h : s.reschedule fuel = some s') : s'.blocks = s.blocks := by
  unfold Sys.reschedule at h
  split_ifs at h
  · rcases schedule_cases h with rfl | hr
    · rfl
    · exact (requeue_blocks hr).trans rfl
  · exact Option.some.inj h ▸ rfl

theorem syscall_blocks (h : s.syscall fuel eax ebx = some s') : ∀ b ∈ s'.blocks, b ∈ s.blocks := by
  unfold Sys.syscall at h
  split_ifs at h
  · exact Option.some.inj h ▸ fun _ hb => hb
  · obtain ⟨m', -, rfl⟩ := waitForFlags_cases h
    exact fun _ hb => hb
  · exact Option.some.inj h ▸ fun _ hb => hb
  · exact Option.some.inj h ▸ fun _ hb => hb
  · obtain rfl := Option.some.inj h
    unfold msgCycle
    dsimp only
    split_ifs
    · exact fun _ hb => hb
    · exact fun b hb => (List.mem_filter.1 hb).1
  · exact Option.some.inj h ▸ fun _ hb => hb

def Act.allocates : Act → List Nat
  | .post _ p _ _ => [p]
  | _ => []

def Handler.allocates : Handler → List Nat
  | .timer => []
  | .device as => as.flatMap Act.allocates

theorem act_blocks {a : Act} (hk : s.InHandler) (h : s.act fuel a = some s') :
    ∀ b ∈ s'.blocks, b ∈ s.blocks ∨ b.1 ∈ a.allocates := by
  intro b hb
  cases a with
  | post t p src bufSz =>
    rcases msgPost_cases (Option.ite_none_right_eq_some.1 h).2 with ⟨-, rfl⟩ | ⟨-, s₁, h1, h2⟩
    · exact .inl hb
    · obtain ⟨-, -, rfl⟩ := kmalloc_cases h1
      rw [signal_blocks h2] at hb
      rcases List.mem_cons.1 hb with rfl | hb
      · exact .inr (List.mem_singleton_self _)
      · exact .inl hb
  | signal t flags =>
    rw [signal_blocks (Option.ite_none_right_eq_some.1 h).2] at hb
    exact .inl hb
  | print =>
    cases (nestedPrint_eq hk).symm.trans h
    exact .inl hb

theorem acts_blocks {as : List Act} (hk : s.InHandler) (h : s.acts fuel as = some s') :
    ∀ b ∈ s'.blocks, b ∈ s.blocks ∨ b.1 ∈ as.flatMap Act.allocates := by
  induction as generalizing s with
  | nil =>
    cases h
    exact fun _ hb => .inl hb
  | cons a as ih =>
    obtain ⟨s₁, h1, h2⟩ := Option.bind_eq_some_iff.1 h
    intro b hb
    rw [List.flatMap_cons, List.mem_append]
    rcases ih (hk.steady (act_steady hk h1)) h2 b hb with hb | hb
    · exact (act_blocks hk h1 b hb).imp id .inl
    · exact .inr (.inr hb)

theorem irqHandler_blocks {d : Handler} (hk : s.enter.InHandler) (h : s.irqHandler fuel d = some s') :
    ∀ b ∈ s'.blocks, b ∈ s.blocks ∨ b.1 ∈ d.allocates := by
  obtain ⟨s₁, h1, h2⟩ := Option.bind_eq_some_iff.1 h
  rw [reschedule_blocks h2]
  cases d with
  | timer =>
    obtain ⟨tick, count, flags, he⟩ := timerCallback_eq s.enter
    cases h1
    rw [he]
    exact fun _ hb => .inl hb
  | device as => exact acts_blocks (s := s.enter) hk h1

theorem blocks_traces (fuel : Nat) :
    Traces fuel fun ds s s' => ∀ b ∈ s'.blocks, b ∈ s.blocks ∨ b.1 ∈ ds.flatMap Handler.allocates where
  exits h b hb := .inl (h.blocks ▸ hb)
  trans h h' b hb := by
    rw [List.flatMap_append, List.mem_append]
    rcases h' b hb with hb | hb
    · exact (h b hb).imp id .inl
    · exact .inr (.inr hb)
  irq {_ _ d} hk hs b hb := by
    rw [List.flatMap_singleton]
    exact irqHandler_blocks hk hs b hb

end

end Sys

open Sys

variable {c c' : Config} {fuel : Nat} {ev : Event}

def Event.allocates : Event → List Nat
  | .create p q _ => [p, q]
  | .irq d => d.allocates
  | .wake a => a.handlers.flatMap Handler.allocates
  | _ => []

theorem step_blocks (hi : Consistent c) (hs : step c (fuel, ev) = some c') :
    ∀ b ∈ c'.sys.blocks, b ∈ c.sys.blocks ∨ b.1 ∈ ev.allocates := by
  intro b hb
  cases step_cases hs with
  | forbid | permit => exact .inl hb
  | create hm hc =>
    obtain ⟨-, -, m', -, rfl⟩ := createThread_cases hc
    rcases List.mem_cons.1 hb with rfl | hb
    · exact .inr (by simp [Event.allocates])
    rcases List.mem_cons.1 hb with rfl | hb
    · exact .inr (by simp [Event.allocates])
    · exact .inl hb
  | syscall hm hh =>
    obtain ⟨s₁, h1, h2⟩ := Option.bind_eq_some_iff.1 hh
    rw [(Exits.dispatch _ _).blocks, reschedule_blocks h2] at hb
    exact .inl (syscall_blocks h1 b hb)
  | irq hm hh =>
    rw [(Exits.dispatch _ _).blocks] at hb
    exact irqHandler_blocks (.inl (hi.trap_kReenter hm)) hh b hb
  | idleIrq hm hh =>
    rw [(Exits.dispatch _ _).blocks] at hb
    exact irqHandler_blocks (.inr (hi.enter_kReenter hm)) hh b hb
  | wake hm hw => exact (blocks_traces fuel).wakeUp hi hm hw b hb

end Krypton
