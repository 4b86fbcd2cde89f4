import Krypton.Handlers

/-!
# Interrupts in kernel code

An interrupt that arrives while `k_reenter` is 0 does what its handler does and returns to what it interrupted: it
comes neither to the scheduler nor to a switch of threads (`irqHandler_nested`), so any number of them is a `Quiet` step
(`Sound.serve`). What `_msg_post` and `_signal` keep, they keep too (`Persists`).

`remove` is two stores, and an interrupt may come between them: each of the two leaves the links of the scheduler's
lists of the right kind (`Sound.unlinkNext`, `Sound.unlinkPrev`).
-/

namespace Krypton
namespace Sys
variable {s s' : Sys} {n t fuel : Nat} {d : Handler}

/-- The lists, the threads, the ports and the history are the same. -/
structure SameStore (s s' : Sys) : Prop where
  mem : s'.mem = s.mem := by rfl
  thread : s'.thread = s.thread := by rfl
  runningThread : s'.runningThread = s.runningThread := by rfl
  kernelThread : s'.kernelThread = s.kernelThread := by rfl
  sysBase : s'.sysBase = s.sysBase := by rfl
  blocks : s'.blocks = s.blocks := by rfl
  created : s'.created = s.created := by rfl
  log : s'.log = s.log := by rfl

/-- Interrupt handlers keep `P`. -/
structure Persists (P : Sys → Prop) : Prop where
  store : ∀ {s s'}, P s → SameStore s s' → P s'
  post : ∀ {s s' fuel t p src bufSz}, s.Sound → P s → t ∈ s.created → s.msgPost fuel t p src bufSz = some s' → P s'
  signal : ∀ {s s' fuel t flags}, s.Sound → P s → t ∈ s.created → s.signal fuel t flags = some s' → P s'

namespace Persists
variable {P : Sys → Prop}

theorem act (hP : Persists P) (hS : s.Sound) (hk : s.InHandler) (h : P s) {a : Act} (hs : s.act fuel a = some s') :
    P s' := by
  cases a with
  | post t p src bufSz =>
    obtain ⟨ht, hs⟩ := Option.ite_none_right_eq_some.1 hs
    exact hP.post hS h ht hs
  | signal t flags =>
    obtain ⟨ht, hs⟩ := Option.ite_none_right_eq_some.1 hs
    exact hP.signal hS h ht hs
  | print =>
    cases (nestedPrint_eq hk).symm.trans hs
    exact h

theorem acts (hP : Persists P) (hS : s.Sound) (hk : s.InHandler) (h : P s) {as : List Act}
    (hs : s.acts fuel as = some s') : P s' := by
  induction as generalizing s with
  | nil => exact Option.some.inj hs ▸ h
  | cons a as ih =>
    obtain ⟨s₁, h1, h2⟩ := Option.bind_eq_some_iff.1 hs
    have hkept := hS.act hk h1
    exact ih hkept.sound (hk.quiet hkept.quiet) (hP.act hS hk h h1) h2

theorem handle (hP : Persists P) (hS : s.Sound) (hk : s.InHandler) (h : P s) (hs : s.handle fuel d = some s') :
    P s' := by
  cases d with
  | timer =>
    obtain ⟨tick, count, flags, he⟩ := timerCallback_eq s
    rw [← Option.some.inj hs, he]
    exact hP.store h ⟨rfl, rfl, rfl, rfl, rfl, rfl, rfl, rfl⟩
  | device as => exact hP.acts hS hk h hs

end Persists

/-! ### Entries at `k_reenter` 0 -/

/-- The end of an entry that is not outermost returns to what was interrupted. -/
theorem dispatch_nested (hk : s.kReenter ≠ 0) (back : Mode) : s.dispatch back = ⟨s.noSwitch, back⟩ :=
  if_neg fun h => hk h.1

theorem irqHandler_nested (h : s.Sound) (hk : s.kReenter = 0) (hs : s.irqHandler fuel d = some s') :
    s.enter.handle fuel d = some s' ∧ s'.kReenter = 1 ∧ ∀ back, s'.dispatch back = ⟨s'.noSwitch, back⟩ := by
  obtain ⟨s₁, h1, h2⟩ := Option.bind_eq_some_iff.1 hs
  have hone : s.enter.kReenter = 1 := by
    show s.kReenter + 1 = 1
    rw [hk]; rfl
  have hk₁ : s₁.kReenter = 1 := (Sound.handle h.enter (.inr hone) h1).quiet.kReenter.trans hone
  rw [reschedule_nested (by rw [hk₁]; decide)] at h2
  obtain rfl := Option.some.inj h2
  exact ⟨h1, hk₁, dispatch_nested (by rw [hk₁]; decide)⟩

theorem irqHandler_kept (h : s.Sound) (hk : s.kReenter = 0) (hs : s.irqHandler fuel d = some s') :
    Kept s s'.noSwitch := by
  obtain ⟨h1, hk', -⟩ := irqHandler_nested h hk hs
  have hone : s.enter.InHandler := .inr (show s.kReenter + 1 = 1 by rw [hk]; rfl)
  have hkept := Sound.handle h.enter hone h1
  have hq := hkept.quiet
  refine ⟨hkept.sound.congr ⟨rfl, rfl, rfl, rfl, rfl, rfl, rfl⟩, ?_⟩
  refine ⟨hq.running, hq.created, hq.kernel, hq.base, ?_, hq.esp, hq.threads, hq.log⟩
  show s'.kReenter - 1 = s.kReenter
  rw [hk', hk]; rfl

theorem serve_cons {ds : List Handler} (h : s.Sound) (hk : s.kReenter = 0) (hs : s.serve fuel (d :: ds) = some s') :
    ∃ s₁, s.irqHandler fuel d = some s₁ ∧ s₁.noSwitch.serve fuel ds = some s' := by
  obtain ⟨s₁, h1, h2⟩ := Option.bind_eq_some_iff.1 hs
  obtain ⟨-, -, hd⟩ := irqHandler_nested h hk h1
  rw [hd] at h2
  exact ⟨s₁, h1, h2⟩

theorem Sound.serve {ds : List Handler} (h : s.Sound) (hk : s.kReenter = 0) (hs : s.serve fuel ds = some s') :
    Kept s s' := by
  induction ds generalizing s with
  | nil => exact Option.some.inj hs ▸ .refl h
  | cons d ds ih =>
    obtain ⟨s₁, h1, h2⟩ := serve_cons h hk hs
    have hkept := irqHandler_kept h hk h1
    exact hkept.trans (ih hkept.sound (hkept.quiet.kReenter.trans hk) h2)

theorem Persists.serve {P : Sys → Prop} (hP : Persists P) (h : s.Sound) (hk : s.kReenter = 0) (hp : P s)
    {ds : List Handler} (hs : s.serve fuel ds = some s') : P s' := by
  induction ds generalizing s with
  | nil => exact Option.some.inj hs ▸ hp
  | cons d ds ih =>
    obtain ⟨s₁, h1, h2⟩ := serve_cons h hk hs
    have hkept := irqHandler_kept h hk h1
    obtain ⟨h3, -, -⟩ := irqHandler_nested h hk h1
    have hone : s.enter.InHandler := .inr (show s.kReenter + 1 = 1 by rw [hk]; rfl)
    have hp₁ := hP.handle h.enter hone (hP.store hp ⟨rfl, rfl, rfl, rfl, rfl, rfl, rfl, rfl⟩) h3
    exact ih hkept.sound (hkept.quiet.kReenter.trans hk) (hP.store hp₁ ⟨rfl, rfl, rfl, rfl, rfl, rfl, rfl, rfl⟩) h2

/-! ### A thread with links -/

/-- The links of the thread `n` are of the right kind, as those of `thread_ready` and of `thread_wait` are. -/
def HasLinks (s : Sys) (n : Nat) : Prop :=
  ∃ (h : s.Objects) (N : Set Nat) (hN : ∀ t ∈ N, t ∈ s.threads), n ∈ N ∧ (∀ t ∈ s.created, t ∈ N) ∧
    Typed (h.lists N hN) s.mem

namespace HasLinks

theorem mem (h : s.HasLinks n) : n ∈ s.threads := by
  obtain ⟨-, N, hN, hn, -⟩ := h
  exact hN n hn

theorem store (h : s.HasLinks n) (e : SameStore s s') : s'.HasLinks n := by
  obtain ⟨ho, N, hN, hn, hc, ht⟩ := h
  have hth : s'.threads = s.threads := by
    unfold threads
    rw [e.created, e.kernelThread]
  refine ⟨ho.congr e.blocks e.sysBase hth, N, fun t ht => hth ▸ hN t ht, hn, fun t ht => hc t (e.created ▸ ht), ?_⟩
  rw [e.mem]
  exact ht.relayout (by simp only [Objects.lists, threadReady, threadWait, e.sysBase]) fun _ => Iff.rfl

theorem signal {flags : Word} (h : s.HasLinks n) (ht : t ∈ s.created) (hs : s.signal fuel t flags = some s') :
    s'.HasLinks n := by
  rcases signal_cases hs with ⟨-, rfl⟩ | ⟨-, m', hm', rfl⟩
  · exact h
  obtain ⟨ho, N, hN, hn, hc, hty⟩ := h
  have hadds : (ho.lists N hN).Adds (ho.lists N hN) t :=
    ⟨rfl, fun x => ⟨.inr, fun hx => hx.elim (fun he => he ▸ hc t ht) id⟩⟩
  obtain ⟨h1, -⟩ := (hty.remove (hc t ht)).1.enqueue hadds (.inl rfl) hm'
  exact ⟨⟨ho.apart, ho.ne_zero, ho.base, ho.thread, ho.nodup⟩, N, hN, hn, hc, h1⟩

theorem msgPost {p : Nat} {src : Buf} {bufSz : BitVec 16} (h : s.HasLinks n) (hS : s.Sound) (ht : t ∈ s.created)
    (hp : s.msgPost fuel t p src bufSz = some s') : s'.HasLinks n := by
  rcases msgPost_cases hp with ⟨-, rfl⟩ | ⟨-, s₁, h1, h2⟩
  · exact h
  refine signal ?_ ?_ h2
  · obtain ⟨hq, hf⟩ := hS.queued ht (memcpy_matches (s₁.msgBuf p) src bufSz.toNat) h1
    obtain ⟨-, -, rfl⟩ := kmalloc_cases h1
    obtain ⟨ho, N, hN, hn, hc, hty⟩ := h
    have ho' := hq.objects
    refine ⟨⟨ho'.apart, ho'.ne_zero, ho'.base, ho'.thread, ho'.nodup⟩, N, hN, hn, hc, ?_⟩
    have hty' : Typed (ho.lists N hN) (addTail s.mem (messageList t) p) :=
      hty.congr_byte fun c hc => hf.sameLists c (ho.lists_listByte hc)
    exact hty'.relayout rfl fun _ => Iff.rfl
  · obtain ⟨-, -, rfl⟩ := kmalloc_cases h1
    exact ht

theorem persists (n : Nat) : Persists fun s => s.HasLinks n where
  store h e := h.store e
  post hS h ht hp := h.msgPost hS ht hp
  signal _ h ht hs := h.signal ht hs

/-- What a store to one link of `n` leaves. -/
theorem write (h : s.HasLinks n) (hS : s.Sound) {m' : Mem}
    (hm : ∀ L : Layout, n ∈ L.nodes → Typed L s.mem → Typed L m' ∧ SameOff L s.mem m') :
    { s with mem := m' }.Sound ∧ { s with mem := m' }.HasLinks n := by
  obtain ⟨ho, N, hN, hn, hc, hty⟩ := h
  obtain ⟨h1, h2⟩ := hm _ hn hty
  exact ⟨hS.writeLists hN hc h1 h2, ⟨ho.apart, ho.ne_zero, ho.base, ho.thread, ho.nodup⟩, N, hN, hn, hc, h1⟩

end HasLinks

theorem Sound.hasLinks (h : s.Sound) (h0 : getHead s.mem s.threadReady ≠ 0) :
    s.HasLinks (getHead s.mem s.threadReady) := by
  obtain ⟨N, hN, hc, ht⟩ := h.links
  exact ⟨h.objects, N, hN, (ht.getHead (.inl rfl)).resolve_left h0, hc, ht⟩

theorem Sound.unlinkNext (h : s.Sound) (hn : s.HasLinks n) : (s.unlinkNext n).Sound ∧ (s.unlinkNext n).HasLinks n :=
  hn.write h fun L hn ht => by
    have hp : L.Fwd (s.mem.prev n) := ht.prev n (.node hn)
    exact ⟨ht.setNext hp (ht.next n (.node hn)), SameOff.refl.setNext hp⟩

theorem Sound.unlinkPrev (h : s.Sound) (hn : s.HasLinks n) : (s.unlinkPrev n).Sound ∧ (s.unlinkPrev n).HasLinks n :=
  hn.write h fun L hn ht => by
    have hq : L.Bwd (s.mem.next n) := ht.next n (.node hn)
    exact ⟨ht.setPrev hq (ht.prev n (.node hn)), SameOff.refl.setPrev hq⟩

end Sys
end Krypton
