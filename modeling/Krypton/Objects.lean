import Krypton.ExecListOps
import Krypton.ExecListTyped
import Krypton.Machine

/-!
# The objects of the kernel in memory

`Objects` says that the live blocks are disjoint and hold `sys_base` and every thread. Two layouts
of list objects lie in them: `lists`, the scheduler's two lists with the threads' own nodes, and
`ports`, the message lists with the ports and the messages. They share no byte, so a function that
works on one leaves the other alone.
-/

namespace Krypton

/-! ### Bytes of a layout -/

/-- The bytes of the objects of a layout. -/
def Layout.Byte (L : Layout) (c : Nat) : Prop :=
  (∃ l ∈ L.heads, l ≤ c ∧ c < l + 12) ∨ ∃ n ∈ L.nodes, n ≤ c ∧ c < n + 20

theorem Layout.Fwd.byte {L : Layout} {x k : Nat} (h : L.Fwd x) (hk : k < 12) : L.Byte (x + k) := by
  rcases h with h | h
  · exact .inl ⟨x, h, by omega⟩
  · exact .inr ⟨x, h, by omega⟩

theorem Layout.Cell.byte {L : Layout} {c : Nat} (h : L.Cell c) : L.Byte c := by
  rcases h with h | ⟨y, h | ⟨l, hl, rfl⟩, rfl⟩
  · exact h.byte (k := 0) (by omega)
  · exact (Layout.Fwd.node h).byte (by omega)
  · exact (Layout.Fwd.head hl).byte (k := 8) (by omega)

theorem Rep.congr_byte {L : Layout} {m m' : Mem} {σ : Seqs} (h : Rep L m σ)
    (hc : ∀ c, L.Byte c → m' c = m c) : Rep L m' σ :=
  h.congr_cell (fun c hx => hc c hx.byte) fun _ hl => hc _ ((Layout.Fwd.head hl).byte (by omega))

theorem Typed.congr_byte {L : Layout} {m m' : Mem} (h : Typed L m)
    (hc : ∀ c, L.Byte c → m' c = m c) : Typed L m' :=
  h.congr (fun c hx => hc c hx.byte) fun _ hl => hc _ ((Layout.Fwd.head hl).byte (by omega))

/-- A memory of lists read over another layout that has its objects. -/
theorem Rep.relayout {L L' : Layout} {m : Mem} {σ : Seqs} (h : Rep L m σ)
    (hh : ∀ l xs, σ l = some xs → l ∈ L'.heads)
    (hn : ∀ l xs, σ l = some xs → ∀ n ∈ xs, n ∈ L'.nodes) : Rep L' m σ :=
  ⟨hh, hn, h.isList, h.nodup, h.disj⟩

theorem Rep.mono {L L' : Layout} {m : Mem} {σ : Seqs} (h : Rep L m σ)
    (hh : ∀ l ∈ L.heads, l ∈ L'.heads) (hn : ∀ n ∈ L.nodes, n ∈ L'.nodes) : Rep L' m σ :=
  h.relayout (fun l xs hl => hh l (h.head l xs hl)) fun l xs hl n hx => hn n (h.node l xs hl n hx)

theorem Typed.relayout {L L' : Layout} {m : Mem} (h : Typed L m) (hh : L'.heads = L.heads)
    (hn : ∀ n, n ∈ L'.nodes ↔ n ∈ L.nodes) : Typed L' m := by
  have hf : ∀ x, L'.Fwd x ↔ L.Fwd x := fun x => by unfold Layout.Fwd; rw [hh, hn]
  have hb : ∀ y, L'.Bwd y ↔ L.Bwd y := fun y => by unfold Layout.Bwd; rw [hh, hn]
  exact ⟨fun x hx => (hb _).2 (h.next x ((hf x).1 hx)), fun y hy => (hf _).2 (h.prev y ((hb y).1 hy)),
    fun l hl => h.tail l (hh ▸ hl)⟩

/-! ### Blocks -/

namespace Sys
variable {s s' : Sys}

structure Objects (s : Sys) : Prop where
  apart : s.blocks.Pairwise fun a b => a.1 + a.2 ≤ b.1 ∨ b.1 + b.2 ≤ a.1
  ne_zero : ∀ b ∈ s.blocks, b.1 ≠ 0
  base : (s.sysBase, sizeofSysBase) ∈ s.blocks
  thread : ∀ t ∈ s.threads, (t, sizeofThread) ∈ s.blocks
  nodup : s.threads.Nodup

/-- The live block of a message. -/
def Message (s : Sys) (p : Nat) : Prop := (p, sizeofMessage) ∈ s.blocks

theorem created_sub {t : Nat} (h : t ∈ s.created) : t ∈ s.threads := List.mem_append_left _ h

theorem kernel_mem : s.kernelThread ∈ s.threads := List.mem_append_right _ (List.mem_singleton_self _)

namespace Objects

theorem created_ne (h : s.Objects) {t : Nat} (ht : t ∈ s.created) : t ≠ s.kernelThread :=
  (List.nodup_append.1 h.nodup).2.2 t ht _ (List.mem_singleton_self _)

theorem congr (h : s.Objects) (hb : s'.blocks = s.blocks) (hs : s'.sysBase = s.sysBase)
    (ht : s'.threads = s.threads) : s'.Objects := by
  obtain ⟨h1, h2, h3, h4, h5⟩ := h
  rw [← hb] at h1 h2 h3 h4
  rw [← hs] at h3
  rw [← ht] at h4 h5
  exact ⟨h1, h2, h3, h4, h5⟩

theorem meet (h : s.Objects) {a b : Nat × Nat} (ha : a ∈ s.blocks) (hb : b ∈ s.blocks) :
    a = b ∨ a.1 + a.2 ≤ b.1 ∨ b.1 + b.2 ≤ a.1 := by
  by_cases he : a = b
  · exact .inl he
  · have : Std.Symm fun a b : Nat × Nat => a.1 + a.2 ≤ b.1 ∨ b.1 + b.2 ≤ a.1 := ⟨fun _ _ => Or.symm⟩
    exact .inr (h.apart.forall ha hb he)

theorem thread_thread (h : s.Objects) {t t' : Nat} (ht : t ∈ s.threads) (ht' : t' ∈ s.threads)
    (hne : t ≠ t') : t + 113 ≤ t' ∨ t' + 113 ≤ t := by
  rcases h.meet (h.thread t ht) (h.thread t' ht') with he | he
  · exact absurd (Prod.mk.inj he).1 hne
  · exact he

theorem base_thread (h : s.Objects) {t : Nat} (ht : t ∈ s.threads) :
    s.sysBase + 156 ≤ t ∨ t + 113 ≤ s.sysBase := by
  rcases h.meet h.base (h.thread t ht) with he | he
  · cases he
  · exact he

theorem base_message (h : s.Objects) {p : Nat} (hp : s.Message p) :
    s.sysBase + 156 ≤ p ∨ p + 148 ≤ s.sysBase := by
  rcases h.meet h.base hp with he | he
  · cases he
  · exact he

theorem thread_message (h : s.Objects) {t p : Nat} (ht : t ∈ s.threads) (hp : s.Message p) :
    t + 113 ≤ p ∨ p + 148 ≤ t := by
  rcases h.meet (h.thread t ht) hp with he | he
  · cases he
  · exact he

theorem message_message (h : s.Objects) {p p' : Nat} (hp : s.Message p) (hp' : s.Message p')
    (hne : p ≠ p') : p + 148 ≤ p' ∨ p' + 148 ≤ p := by
  rcases h.meet hp hp' with he | he
  · exact absurd (Prod.mk.inj he).1 hne
  · exact he

/-! ### The two layouts -/

/-- The scheduler's lists, over the threads of `N`. -/
def lists (h : s.Objects) (N : Set Nat) (hN : ∀ t ∈ N, t ∈ s.threads) : Layout where
  heads := {s.threadReady, s.threadWait}
  nodes := N
  head_ne := by
    rintro l (rfl | rfl) <;> simp [threadReady, threadWait]
  node_ne t ht := h.ne_zero _ (h.thread t (hN t ht))
  heads_apart := by
    rintro l (rfl | rfl) l' (rfl | rfl) hne <;> simp [threadReady, threadWait] at hne ⊢
  nodes_apart t ht t' ht' hne := by
    have := h.thread_thread (hN t ht) (hN t' ht') hne
    omega
  apart := by
    rintro l hl t ht
    have := h.base_thread (hN t ht)
    rcases hl with rfl | rfl <;> simp only [threadReady, threadWait] <;> omega

/-- The list of ports, the message lists, the ports and the messages. -/
def ports (h : s.Objects) : Layout where
  heads := {l | l = s.msgportList ∨ ∃ t ∈ s.created, l = messageList t}
  nodes := {n | (∃ t ∈ s.created, n = msgPort t) ∨ s.Message n}
  head_ne := by
    rintro l (rfl | ⟨t, -, rfl⟩) <;> simp [msgportList, messageList]
  node_ne := by
    rintro n (⟨t, -, rfl⟩ | hp)
    · simp [msgPort]
    · exact h.ne_zero _ hp
  heads_apart := by
    rintro l (rfl | ⟨t, ht, rfl⟩) l' (rfl | ⟨t', ht', rfl⟩) hne
    · exact absurd rfl hne
    · have := h.base_thread (created_sub ht')
      simp only [msgportList, messageList]; omega
    · have := h.base_thread (created_sub ht)
      simp only [msgportList, messageList]; omega
    · have := h.thread_thread (created_sub ht) (created_sub ht') fun he => hne (he ▸ rfl)
      simp only [messageList]; omega
  nodes_apart := by
    rintro n (⟨t, ht, rfl⟩ | hp) n' (⟨t', ht', rfl⟩ | hp') hne
    · have := h.thread_thread (created_sub ht) (created_sub ht') fun he => hne (he ▸ rfl)
      simp only [msgPort]; omega
    · have := h.thread_message (created_sub ht) hp'
      simp only [msgPort]; omega
    · have := h.thread_message (created_sub ht') hp
      simp only [msgPort]; omega
    · have := h.message_message hp hp' hne
      omega
  apart := by
    rintro l (rfl | ⟨t, ht, rfl⟩) n (⟨t', ht', rfl⟩ | hp)
    · have := h.base_thread (created_sub ht')
      simp only [msgportList, msgPort]; omega
    · have := h.base_message hp
      simp only [msgportList]; omega
    · by_cases he : t = t'
      · simp only [messageList, msgPort]; omega
      · have := h.thread_thread (created_sub ht) (created_sub ht') he
        simp only [messageList, msgPort]; omega
    · have := h.thread_message (created_sub ht) hp
      simp only [messageList]; omega

end Objects

/-- The bytes of `thread_ready`, of `thread_wait` and of the threads' nodes. -/
def ListByte (s : Sys) (c : Nat) : Prop :=
  (s.sysBase + 88 ≤ c ∧ c < s.sysBase + 112) ∨ ∃ t ∈ s.threads, t ≤ c ∧ c < t + 20

/-- The links of the scheduler's lists are untouched. -/
def SameLists (s s' : Sys) : Prop := ∀ c, s.ListByte c → s'.mem c = s.mem c

namespace Objects

theorem lists_listByte (h : s.Objects) {N : Set Nat} {hN : ∀ t ∈ N, t ∈ s.threads} {c : Nat}
    (hc : (h.lists N hN).Byte c) : s.ListByte c := by
  rcases hc with ⟨l, rfl | rfl, hc⟩ | ⟨t, ht, hc⟩
  · exact .inl (by simp only [threadReady] at hc; omega)
  · exact .inl (by simp only [threadWait] at hc; omega)
  · exact .inr ⟨t, hN t ht, hc⟩

theorem listByte_ports (h : s.Objects) {c : Nat} (hc : s.ListByte c) : ¬ h.ports.Byte c := by
  rintro (⟨l, rfl | ⟨t', ht', rfl⟩, h1⟩ | ⟨n, ⟨t', ht', rfl⟩ | hp, h1⟩)
  · simp only [msgportList] at h1
    rcases hc with h2 | ⟨t, ht, h2⟩
    · omega
    · have := h.base_thread ht; omega
  · simp only [messageList] at h1
    rcases hc with h2 | ⟨t, ht, h2⟩
    · have := h.base_thread (created_sub ht'); omega
    · by_cases he : t = t'
      · omega
      · have := h.thread_thread ht (created_sub ht') he; omega
  · simp only [msgPort] at h1
    rcases hc with h2 | ⟨t, ht, h2⟩
    · have := h.base_thread (created_sub ht'); omega
    · by_cases he : t = t'
      · omega
      · have := h.thread_thread ht (created_sub ht') he; omega
  · rcases hc with h2 | ⟨t, ht, h2⟩
    · have := h.base_message hp; omega
    · have := h.thread_message ht hp; omega

theorem lists_ports (h : s.Objects) {N : Set Nat} {hN : ∀ t ∈ N, t ∈ s.threads} {c : Nat}
    (hc : (h.lists N hN).Byte c) : ¬ h.ports.Byte c :=
  h.listByte_ports (h.lists_listByte hc)

end Objects
end Sys
end Krypton
