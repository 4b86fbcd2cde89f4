import Krypton.ExecListRun
import Krypton.Stable

/-!
# The port of the kernel thread

`create_thread` makes the message list of every thread it makes. `init` makes that of the kernel thread at
`&kernel_thread->msg_port`, which is the node of the port, so the `message_list` of the kernel thread stays as
`kmalloc` returned it. Nothing else ever writes there (`headerKept`), so every thread has a usable port if and only
if that memory happened to hold the header of an empty list (`ports_usable_iff`).
-/

namespace Krypton

open Sys

namespace Sys

variable {s s' s₁ : Sys} {t p q fuel : Nat} {ps : List Nat}

/-- The list of `t` is well formed and holds messages; `_msg_post` to it and `_msg_retrieve` and `_msg_cycle` by it
work on that list. -/
def Usable (s : Sys) (t : Nat) : Prop :=
  ∃ ps, IsList s.mem (messageList t) ps ∧ (∀ p ∈ ps, s.Message p) ∧ Holds s.mem (messageList t) ps ∧
    getHead s.mem (messageList t) = ps.headD 0 ∧
    Holds (removeHead s.mem (messageList t)).2 (messageList t) ps.tail ∧
    ∀ p s₁, s.kmalloc p sizeofMessage = some s₁ → Holds (addTail s₁.mem (messageList t) p) (messageList t) (ps ++ [p])

theorem Objects.nodes_apart (h : s.Objects) (hp : s.Message p) (hq : s.Message q) (hne : p ≠ q) :
    p + 20 ≤ q ∨ q + 20 ≤ p := by
  have := h.message_message hp hq hne
  omega

theorem Objects.messageList_apart (h : s.Objects) (ht : t ∈ s.threads) (hp : s.Message p) :
    messageList t + 12 ≤ p ∨ p + 20 ≤ messageList t := by
  have := h.thread_message ht hp
  simp only [messageList]
  omega

/-- One message list, over all messages. -/
def Objects.port (h : s.Objects) (ht : t ∈ s.threads) : Layout where
  heads := {messageList t}
  nodes := {n | s.Message n}
  head_ne := by
    rintro l rfl
    simp [messageList]
  node_ne n hn := h.ne_zero _ hn
  heads_apart := by
    rintro l rfl l' rfl hne
    exact absurd rfl hne
  nodes_apart n hn n' hn' hne := h.nodes_apart hn hn' hne
  apart := by
    rintro l rfl n hn
    exact h.messageList_apart ht hn

theorem Objects.port_rep (h : s.Objects) (ht : t ∈ s.threads) (hl : IsList s.mem (messageList t) ps) (hnd : ps.Nodup)
    (hm : ∀ p ∈ ps, s.Message p) :
    Rep (h.port ht) s.mem fun l => if l = messageList t then some ps else none := by
  have hone : ∀ {l xs}, (if l = messageList t then some ps else none) = some xs → l = messageList t ∧ xs = ps := by
    intro l xs hx
    split_ifs at hx with he
    exact ⟨he, (Option.some.inj hx).symm⟩
  refine ⟨fun l xs hx => (hone hx).1, fun l xs hx n hn => ?_, fun l xs hx => ?_, fun l xs hx => ?_, ?_⟩
  · obtain ⟨-, rfl⟩ := hone hx
    exact hm n hn
  · obtain ⟨rfl, rfl⟩ := hone hx
    exact hl
  · obtain ⟨-, rfl⟩ := hone hx
    exact hnd
  · intro l l' xs xs' hx hx' hne
    obtain ⟨h1, -⟩ := hone hx
    obtain ⟨h2, -⟩ := hone hx'
    exact absurd (h1.trans h2.symm) hne

theorem Objects.usable (h : s.Objects) (ht : t ∈ s.threads) (hl : IsList s.mem (messageList t) ps) (hnd : ps.Nodup)
    (hm : ∀ p ∈ ps, s.Message p) : s.Usable t := by
  have hrep := h.port_rep ht hl hnd hm
  have hps : (fun l => if l = messageList t then some ps else none) (messageList t) = some ps := if_pos rfl
  refine ⟨ps, hl, hm, hrep.holds hps, hrep.getHead_eq hps, ?_, fun p s₁ hk => ?_⟩
  · cases ps with
    | nil =>
      rw [hrep.removeHead_nil hps]
      exact hrep.holds hps
    | cons p ps =>
      obtain ⟨-, h2, -⟩ := hrep.removeHead_cons hps
      exact h2.holds (Function.update_self ..)
  · obtain ⟨h0, hd, rfl⟩ := kmalloc_cases hk
    have h' := h.alloc h0 hd
    have hrep' : Rep (h'.port ht) s.mem _ := hrep.mono (fun _ hx => hx) fun n hn => List.mem_cons_of_mem _ hn
    have hfree : Seqs.Free (fun l => if l = messageList t then some ps else none) p := by
      intro l xs hx hp
      have := hd _ (hrep.node l xs hx p hp)
      simp only [Disjoint, sizeofMessage] at this
      omega
    obtain ⟨h2, -⟩ := hrep'.addTail hps (List.mem_cons_self ..) hfree
    exact h2.holds (Function.update_self ..)

/-! ### The header of the kernel thread's list -/

/-- The memory behind the node of the kernel thread's port is the header of an empty list. -/
def KernelPortNil (s : Sys) : Prop := IsList s.mem (messageList s.kernelThread) []

theorem Objects.header_listByte (h : s.Objects) {c : Nat} (h1 : messageList s.kernelThread ≤ c)
    (h2 : c < messageList s.kernelThread + 12) : ¬ s.ListByte c := by
  simp only [messageList] at h1 h2
  rintro (hc | ⟨t, ht, hc⟩)
  · have := h.base_thread kernel_mem
    omega
  · by_cases he : t = s.kernelThread
    · omega
    · have := h.thread_thread ht kernel_mem he
      omega

theorem Objects.header_offPorts (h : s.Objects) {c : Nat} (h1 : messageList s.kernelThread ≤ c)
    (h2 : c < messageList s.kernelThread + 12) : h.OffPorts c := by
  simp only [messageList] at h1 h2
  have hne : ∀ t ∈ s.created, s.kernelThread ≠ t := fun t ht => (h.created_ne ht).symm
  refine ⟨⟨_, h.thread _ kernel_mem, by omega, by simp only [sizeofThread]; omega⟩, ?_⟩
  rintro (⟨l, rfl | ⟨t, ht, rfl⟩, hc⟩ | ⟨n, ⟨t, ht, rfl⟩ | hp, hc⟩)
  · have := h.base_thread kernel_mem
    simp only [msgportList] at hc
    omega
  · have := h.thread_thread kernel_mem (created_sub ht) (hne t ht)
    simp only [messageList] at hc
    omega
  · have := h.thread_thread kernel_mem (created_sub ht) (hne t ht)
    simp only [msgPort] at hc
    omega
  · have := h.thread_message kernel_mem hp
    omega

namespace KernelPortNil

variable {m' : Mem} {l n : Nat}

/-- Functions that work on the scheduler's lists do not write there. -/
theorem sameOff (h : s.KernelPortNil) (hS : s.Objects) {N : Set Nat} {hN : ∀ t ∈ N, t ∈ s.threads}
    (hm : SameOff (hS.lists N hN) s.mem m') : { s with mem := m' }.KernelPortNil :=
  IsList.nil_congr h fun c h1 h2 => hm c fun hc => hS.header_listByte h1 h2 (hS.lists_listByte hc.byte)

theorem enqueue (h : s.KernelPortNil) (hS : s.Sound) (hl : l = s.threadReady ∨ l = s.threadWait)
    (hn : n ∈ s.threads) (he : enqueue fuel s.mem l n = some m') : { s with mem := m' }.KernelPortNil := by
  obtain ⟨N, hN, hc, ht⟩ := hS.links
  have hN' : ∀ t ∈ insert n N, t ∈ s.threads := by
    rintro t (rfl | ht)
    · exact hn
    · exact hN t ht
  have hL : (hS.objects.lists N hN).Adds (hS.objects.lists (insert n N) hN') n := ⟨rfl, fun _ => Iff.rfl⟩
  exact h.sameOff hS.objects (ht.enqueue hL hl he).2

theorem remove (h : s.KernelPortNil) (hS : s.Sound) (hn : n ∈ s.created) :
    { s with mem := remove s.mem n }.KernelPortNil := by
  obtain ⟨N, hN, hc, ht⟩ := hS.links
  exact h.sameOff hS.objects (ht.remove (hc n hn)).2

theorem unlink (h : s.KernelPortNil) (hn : s.HasLinks n) :
    (s.unlinkNext n).KernelPortNil ∧ (s.unlinkPrev n).KernelPortNil := by
  obtain ⟨ho, N, hN, hmem, -, ht⟩ := hn
  have hp : (ho.lists N hN).Fwd (s.mem.prev n) := ht.prev n (.node hmem)
  have hq : (ho.lists N hN).Bwd (s.mem.next n) := ht.next n (.node hmem)
  exact ⟨h.sameOff ho (SameOff.refl.setNext hp), h.sameOff ho (SameOff.refl.setPrev hq)⟩

/-- Functions that work on the ports do not write there either. -/
theorem sameOffPorts (h : s.KernelPortNil) (hS : s.Objects) (hm : hS.SameOffPorts s')
    (hk : s'.kernelThread = s.kernelThread) : s'.KernelPortNil := by
  unfold KernelPortNil
  rw [hk]
  exact IsList.nil_congr h fun c h1 h2 => hm c (hS.header_offPorts h1 h2)

theorem signal {flags : Word} (h : s.KernelPortNil) (hS : s.Sound) (ht : t ∈ s.created)
    (hs : s.signal fuel t flags = some s') : s'.KernelPortNil := by
  rcases signal_cases hs with ⟨-, rfl⟩ | ⟨-, m', hm', rfl⟩
  · exact h
  · have hr := h.remove hS ht
    exact hr.enqueue (hS.remove ht) (.inl rfl) (created_sub ht) hm'

theorem msgPost {src : Buf} {bufSz : BitVec 16} (h : s.KernelPortNil) (hS : s.Sound) (ht : t ∈ s.created)
    (hp : s.msgPost fuel t p src bufSz = some s') : s'.KernelPortNil := by
  rcases msgPost_cases hp with ⟨-, rfl⟩ | ⟨-, s₁, h1, h2⟩
  · exact h
  · obtain ⟨hq, hm⟩ := hS.queued ht (memcpy_matches (s₁.msgBuf p) src bufSz.toNat) h1
    obtain ⟨-, -, rfl⟩ := kmalloc_cases h1
    have hd := h.sameOffPorts hS.objects hm rfl
    exact signal (s := delivered _ t p src bufSz) hd (hq.congr {}) ht h2

theorem create {a : ThreadArgs} (h : s.KernelPortNil) (hS : s.Sound) (hc : s.createThread fuel p q a = some s') :
    s'.KernelPortNil := by
  obtain ⟨⟨hp0, hpd⟩, ⟨hq0, hqd⟩, m', hm', rfl⟩ := createThread_cases hc
  obtain ⟨hobj, hd, hmem⟩ := hS.described hp0 hpd hq0 hqd
  obtain ⟨N, hN, hcN, hty⟩ := hd.links
  have hN' : ∀ t ∈ insert p N, t ∈ (s.described p q a).threads := by
    rintro t (rfl | ht)
    · exact List.mem_cons_self ..
    · exact hN t ht
  have hL : (hobj.lists N hN).Adds (hobj.lists (insert p N) hN') p := ⟨rfl, fun _ => Iff.rfl⟩
  refine IsList.nil_congr h fun c h1 h2 => ?_
  show m' c = s.mem c
  rw [(hty.enqueue hL (.inl rfl) hm').2 c fun hx => hobj.header_listByte h1 h2 (hobj.lists_listByte hx.byte),
    hmem c (hobj.header_offPorts h1 h2).2]
  refine descriptorMem_of_not_mem _ _ fun hp => ?_
  have := hpd _ (hS.objects.thread _ kernel_mem)
  simp only [Disjoint, sizeofThread, messageList] at this hp h1 h2
  omega

/-- Nothing the kernel does writes the header of the kernel thread's list. -/
theorem stable : Stable KernelPortNil where
  store h e := by
    unfold KernelPortNil
    rw [e.mem, e.kernelThread]
    exact h
  post hS h ht hp := h.msgPost hS ht hp
  signal hS h ht hs := h.signal hS ht hs
  wait hS h hr hw := by
    obtain ⟨m', hm', rfl⟩ := waitForFlags_cases hw
    exact h.enqueue hS (.inr rfl) hr hm'
  retrieve h ptr := h
  cycle {s} hS h hr := by
    obtain ⟨q, hq⟩ := hS.ports
    cases hqt : q s.runningThread with
    | nil =>
      rw [msgCycle_nil hq hr hqt]
      exact h
    | cons p ps =>
      rw [msgCycle_cons hq hr hqt]
      exact h.sameOffPorts hS.objects (hS.deleted hq hr hqt).2 rfl
  requeue hS h hr hs := by
    obtain ⟨m', hm', rfl⟩ := requeue_cases hs
    exact h.enqueue hS (.inl rfl) hr hm'
  switchOut hc h := by
    rw [switchOut_eq hc.has_run]
    exact h
  unlink _ h hn := h.unlink hn
  switchTo h _ := h
  switchRun h _ := by
    rw [switchRun_resume]
    exact h
  create hS h hc := h.create hS hc

theorem dispatch (h : s.KernelPortNil) (hS : s.Sound) (hr : s.runningThread ∈ s.threads) (back : Mode) :
    (s.dispatch back).sys.KernelPortNil := by
  unfold Sys.dispatch
  split_ifs
  · refine stable.idleLoop (hS.switchOut hr) ?_
    show s.saveContext.switchBegin.KernelPortNil
    unfold saveContext
    split_ifs
    · exact h
    · exact h
  · exact h

theorem launchEnd {ds : List (Handler × Word)} {c' : Config} (h : s.KernelPortNil) (hS : s.Sound)
    (hr : s.runningThread ∈ s.threads) (hk : s.kReenter = -1) (hs : s.launchEnd fuel ds = some c') :
    c'.sys.KernelPortNil := by
  induction ds generalizing s with
  | nil => exact Option.some.inj hs ▸ h
  | cons d ds ih =>
    obtain ⟨s₁, h1, hkept, hr₁, hk₁, hend⟩ := launchEnd_cons hS hr hk hs
    have he : ({ s with esp := d.2 } : Sys).Sound := hS.congr ⟨rfl, rfl, rfl, rfl, rfl, rfl, rfl⟩
    have hzero : ({ s with esp := d.2 } : Sys).enter.InHandler := .inl (show s.kReenter + 1 = 0 by rw [hk]; rfl)
    have hn₁ : s₁.KernelPortNil := stable.irqHandler he hr hzero h h1
    rcases hend with ⟨-, hsw, rfl⟩ | ⟨-, hend⟩
    · have hd := hn₁.dispatch hkept.sound hr₁ .ring3
      rwa [dispatch_switches hk₁ hsw] at hd
    · have hret := Consistent.ret hkept.sound hr₁ hk₁
      exact ih (s := s₁.noSwitch) hn₁ hret.sound hr₁ (hret.ring3_kReenter rfl) hend

end KernelPortNil

end Sys

variable {c c' c₀ : Config} {s : Sys} {t : Nat} {e : Nat × Event}

/-- So no step does, with whatever interrupts on the way out of the idle loop. -/
theorem Sys.KernelPortNil.step (h : c.sys.KernelPortNil) (hi : Consistent c) (hok : NoStrayCycle c e)
    (hs : step c e = some c') : c'.sys.KernelPortNil := by
  obtain ⟨fuel, ev⟩ := e
  cases step_cases hs with
  | forbid hm | permit hm => exact h
  | create hm hc => exact h.create hi.sound hc
  | syscall hm hh =>
    have hkept := hi.idtKept hok hh
    have hn := KernelPortNil.stable.idtHandler hi.sound.trap hi.running hok h hh
    exact KernelPortNil.dispatch hn hkept.sound (hkept.mem hi.running) .ring3
  | irq hm hh =>
    have hkept := hi.irqKept hm hh
    have hn := KernelPortNil.stable.irqHandler hi.sound.trap hi.running (.inl (hi.trap_kReenter hm)) h hh
    exact KernelPortNil.dispatch hn hkept.sound (hkept.mem hi.running) .ring3
  | idleIrq hm hh =>
    have hkept := hi.sound.irqHandler hi.running (.inr (hi.enter_kReenter hm)) hh
    have hn := KernelPortNil.stable.irqHandler hi.sound hi.running (.inr (hi.enter_kReenter hm)) h hh
    exact KernelPortNil.dispatch hn hkept.sound (hkept.mem hi.running) .idle
  | wake hm hw =>
    unfold Sys.wakeUp at hw
    dsimp only at hw
    split_ifs at hw with h0
    · obtain rfl := Option.some.inj hw
      exact h
    obtain ⟨s₁, s₂, s₃, s₄, hout, hw⟩ := leaveLoop_cases hi.sound (hi.idle_kReenter hm) (hi.sound.hasLinks h0) hw
    have h4 : s₄.KernelPortNil := KernelPortNil.stable.leave hi.sound h hout
    split_ifs at hw
    · exact KernelPortNil.launchEnd (s := s₄.switchRun.loadContext.noSwitch) h4 hout.launch_sound hout.running_mem
        hout.launch_kReenter hw
    · obtain rfl := Option.some.inj hw
      exact h4

/-- On an empty list `_msg_cycle` of the kernel thread stores nothing. -/
theorem Sys.KernelPortNil.noStrayCycle (h : c.sys.KernelPortNil) : NoStrayCycle c e := by
  obtain ⟨fuel, ev⟩ := e
  cases ev with
  | syscall eax ebx =>
    rintro ⟨-, -, h0⟩
    obtain ⟨h1, -, h3⟩ := IsList.nil_links h
    refine h0 ?_
    show c.sys.mem.next (c.sys.mem.head (messageList c.sys.kernelThread)) = 0
    rw [show c.sys.mem.head (messageList c.sys.kernelThread) = messageList c.sys.kernelThread + 4 from h1]
    exact h3
  | _ => trivial

theorem Sys.Sound.usable_created (hS : s.Sound) (ht : t ∈ s.created) : s.Usable t := by
  obtain ⟨q, hq⟩ := hS.ports
  obtain ⟨σ, hrep, -, hσ⟩ := hq.rep
  have hl := hσ t ht
  exact hS.objects.usable (created_sub ht) (hrep.isList _ _ hl) (hrep.nodup _ _ hl) (hq.message t ht)

/-- `init` writes the node of the kernel thread's port and not the list behind it. -/
theorem bootMem_header {m : Mem} {b k name c : Nat} (hk : k + 113 ≤ b ∨ b + 156 ≤ k) (h1 : messageList k ≤ c)
    (h2 : c < messageList k + 12) : bootMem m b k name c = m c := by
  simp only [messageList] at h1 h2
  unfold bootMem
  rw [newList_of_ne (by unfold msgPort; omega), Mem.set_ne _ _ (by omega), Mem.set_ne _ _ (by omega),
    Mem.set_ne _ _ (by omega)]
  iterate 8 rw [newList_of_ne (by omega)]

/-- **Usable ports.** From the memory `s` that `init` starts with, every thread, the kernel thread included, has a
usable port in every state reached if and only if the twelve bytes of the kernel thread's `message_list`, as
`kmalloc` returns them, happen to be the header of an empty list. -/
theorem ports_usable_iff {s₀ : Sys} {pd stack : Word} {name k : Nat} (hb0 : s.sysBase ≠ 0)
    (hblocks : s.blocks = [(s.sysBase, sizeofSysBase)]) (hcreated : s.created = []) (hlog : s.log = [])
    (hinit : s.init pd name k stack = some s₀) :
    (∀ c, Reach step (fun _ _ => True) ⟨s₀, .ring3⟩ c → ∀ t ∈ c.sys.threads, c.sys.Usable t) ↔
      IsList s.mem (messageList k) [] := by
  have h₀ : Booted ⟨s₀, .ring3⟩ := ⟨s, pd, name, k, stack, hb0, hblocks, hcreated, hlog, hinit, rfl⟩
  obtain ⟨hf, -⟩ := h₀.fresh
  obtain ⟨-, hk, he⟩ := init_cases hinit
  have hkb : k + 113 ≤ s.sysBase ∨ s.sysBase + 156 ≤ k :=
    hk (s.sysBase, 156) (by rw [hblocks]; simp [sizeofSysBase])
  have hker : s₀.kernelThread = k := by rw [he]
  have hmem : ∀ c, messageList k ≤ c → c < messageList k + 12 → s₀.mem c = s.mem c := by
    intro c h1 h2
    rw [he]
    exact bootMem_header hkb h1 h2
  constructor
  · intro hall
    obtain ⟨ps, hl, hm, -⟩ := hall _ .start s₀.kernelThread kernel_mem
    -- there is no message yet
    obtain rfl : ps = [] := by
      refine List.eq_nil_iff_forall_not_mem.2 fun p hp => ?_
      have hpm : (p, sizeofMessage) ∈ s₀.blocks := hm p hp
      rw [hf.blocks] at hpm
      simp [sizeofMessage, sizeofThread, sizeofSysBase] at hpm
    have hl : IsList s₀.mem (messageList s₀.kernelThread) [] := hl
    rw [hker] at hl
    exact hl.nil_congr fun c h1 h2 => (hmem c h1 h2).symm
  · intro hnil c hc t ht
    have hstart : s₀.KernelPortNil := by
      unfold KernelPortNil
      rw [hker]
      exact hnil.nil_congr hmem
    obtain ⟨hi, hport⟩ : Consistent c ∧ c.sys.KernelPortNil := by
      refine hc.inv (P := fun c => Consistent c ∧ c.sys.KernelPortNil) ⟨h₀.inv.toConsistent, hstart⟩ ?_
      rintro c e c' ⟨hi, hn⟩ - hs
      exact ⟨hi.step hn.noStrayCycle hs, hn.step hi hn.noStrayCycle hs⟩
    rcases List.mem_append.1 ht with ht | ht
    · exact hi.sound.usable_created ht
    · obtain rfl := List.mem_singleton.1 ht
      exact hi.sound.objects.usable kernel_mem hport .nil fun p hp => absurd hp List.not_mem_nil

/-- Memory that happens to hold the header of an empty list where the kernel thread's `message_list` comes to lie. -/
def luckySys : Sys := { zeroSys with mem := newList zeroSys.mem (messageList 8192) }

def lucky : Config := ⟨(luckySys.init 4096 0 8192 40000).getD luckySys, .ring3⟩

theorem ports_usable_iff_lucky : ∃ c, exec step lucky [(8, .permit), call 2 50100, call 3 0] = some c ∧
    c.sys.Usable 8192 := by
  have hinit : luckySys.init 4096 0 8192 40000 = some lucky.sys := by rfl
  have hsome : (exec step lucky [(8, .permit), call 2 50100, call 3 0]).isSome := by decide +kernel
  obtain ⟨c, hc⟩ := Option.isSome_iff_exists.1 hsome
  have hmem : (exec step lucky [(8, .permit), call 2 50100, call 3 0]).map (fun c => decide (8192 ∈ c.sys.threads)) =
      some true := by
    decide +kernel
  rw [hc] at hmem
  have huse := (ports_usable_iff (by decide) rfl rfl rfl hinit).2 (newList_nil _ _)
  exact ⟨c, hc, huse c (reach_exec hc) 8192 (of_decide_eq_true (Option.some.inj hmem))⟩

theorem not_linked_null {m : Mem} {t : Nat} (h0 : m.next 0 = 0) (ht : t ≠ 0) (xs : List Nat) (a : Nat)
    (ha : m.next a = 0) : ¬ Linked m.next m.prev (a :: (xs ++ [t])) := by
  induction xs generalizing a with
  | nil =>
    intro h
    have := (List.isChain_pair.1 h).1
    exact ht (this.symm.trans ha)
  | cons x xs ih =>
    intro h
    obtain ⟨⟨h1, -⟩, h2⟩ := List.isChain_cons_cons.1 h
    refine ih x ?_ h2
    rw [← h1, ha, h0]

/-- On zero memory the kernel thread, which runs, has no list of messages. -/
theorem kernel_port_unset : Booted bootZero ∧ bootZero.sys.runningThread = 8192 ∧
    8192 ∈ bootZero.sys.threads ∧ ¬ ∃ ps, IsList bootZero.sys.mem (messageList 8192) ps := by
  refine ⟨bootZero_booted, by decide +kernel, by decide +kernel, ?_⟩
  rintro ⟨ps, h⟩
  exact not_linked_null (by decide +kernel) (Nat.succ_ne_zero _) ps _ (by decide +kernel) h.linked

end Krypton
