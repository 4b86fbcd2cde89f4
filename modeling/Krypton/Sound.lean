import Krypton.History
import Krypton.Objects

/-!
# What holds in every run

`Sound`: the objects are disjoint, the links of the scheduler's lists are of the right kind, the
ports hold the messages their history says. It is kept by every function of the kernel, also once a
thread has been put on two of the scheduler's lists, so it holds inside every kernel entry of every run.
-/

namespace Krypton

/-- Entries of the scheduler. -/
def Ev.Sched : Ev → Prop
  | .save .. | .dispatch .. | .block .. => True
  | _ => False

namespace Sys
variable {s s' : Sys} {m m' : Mem} {l n t p fuel : Nat} {q : Nat → List Nat} {e : Ev}

/-- The links of `thread_ready` and `thread_wait` lead to threads and headers. The kernel thread
has links from the first time it is put on a list. -/
def Links (s : Sys) (h : s.Objects) : Prop :=
  ∃ (N : Set Nat) (hN : ∀ t ∈ N, t ∈ s.threads), (∀ t ∈ s.created, t ∈ N) ∧ Typed (h.lists N hN) s.mem

/-- The port of every created thread `t` holds the messages `q t`. -/
structure Ports (s : Sys) (h : s.Objects) (q : Nat → List Nat) : Prop where
  rep : ∃ σ : Seqs, Rep h.ports s.mem σ ∧ σ s.msgportList = some (s.created.map msgPort) ∧
    ∀ t ∈ s.created, σ (messageList t) = some (q t)
  message : ∀ t ∈ s.created, ∀ p ∈ q t, s.Message p
  law : ∀ t ∈ s.created, PortLaw t ((q t).map s.msgBuf) s.log

structure Sound (s : Sys) : Prop where
  objects : s.Objects
  links : s.Links objects
  ports : ∃ q, s.Ports objects q
  mentions : ∀ e ∈ s.log, e.thread ∈ s.threads

/-- The part of the state `Sound` reads is the same. -/
structure SameCore (s s' : Sys) : Prop where
  mem : s'.mem = s.mem := by rfl
  msgBuf : s'.msgBuf = s.msgBuf := by rfl
  sysBase : s'.sysBase = s.sysBase := by rfl
  kernelThread : s'.kernelThread = s.kernelThread := by rfl
  blocks : s'.blocks = s.blocks := by rfl
  created : s'.created = s.created := by rfl
  log : s'.log = s.log := by rfl

theorem Sound.congr (h : s.Sound) (e : SameCore s s') : s'.Sound := by
  cases s
  cases s'
  obtain ⟨h1, h2, h3, h4, h5, h6, h7⟩ := e
  dsimp only at h1 h2 h3 h4 h5 h6 h7
  subst h1 h2 h3 h4 h5 h6 h7
  exact ⟨⟨h.objects.apart, h.objects.ne_zero, h.objects.base, h.objects.thread, h.objects.nodup⟩,
    h.links, h.ports.imp fun _ hq => ⟨hq.rep, hq.message, hq.law⟩, h.mentions⟩

theorem Sound.record (h : s.Sound) (he : e.Sched) (ht : e.thread ∈ s.threads) : (s.record e).Sound := by
  refine ⟨⟨h.objects.apart, h.objects.ne_zero, h.objects.base, h.objects.thread, h.objects.nodup⟩,
    h.links, h.ports.imp fun q hq => ⟨hq.rep, hq.message, fun t ht => ?_⟩,
    List.forall_mem_cons.2 ⟨ht, h.mentions⟩⟩
  obtain ⟨hfifo⟩ := hq.law t ht
  cases e <;> first | exact he.elim | exact ⟨hfifo⟩

/-! ### The scheduler's lists -/

/-- A function that works on the links of the threads `N'` leaves the ports alone. -/
theorem Sound.writeLists (h : s.Sound) {N' : Set Nat} (hN' : ∀ t ∈ N', t ∈ s.threads)
    (hc : ∀ t ∈ s.created, t ∈ N') (ht : Typed (h.objects.lists N' hN') m')
    (hs : SameOff (h.objects.lists N' hN') s.mem m') : { s with mem := m' }.Sound := by
  refine ⟨⟨h.objects.apart, h.objects.ne_zero, h.objects.base, h.objects.thread, h.objects.nodup⟩,
    ⟨N', hN', hc, ht⟩, h.ports.imp fun q hq => ⟨?_, hq.message, hq.law⟩, h.mentions⟩
  obtain ⟨σ, hrep, hσ⟩ := hq.rep
  refine ⟨σ, hrep.congr_byte fun c hc => hs c fun hx => ?_, hσ⟩
  exact h.objects.lists_ports hx.byte hc

theorem Sound.getHead_mem (h : s.Sound) (hl : l = s.threadReady ∨ l = s.threadWait)
    (h0 : getHead s.mem l ≠ 0) : getHead s.mem l ∈ s.threads := by
  obtain ⟨N, hN, -, ht⟩ := h.links
  exact hN _ ((ht.getHead hl).resolve_left h0)

theorem Sound.enqueueThread (h : s.Sound) (hl : l = s.threadReady ∨ l = s.threadWait)
    (hn : n ∈ s.threads) (he : s.enqueueThread fuel l n = some s') :
    s'.Sound ∧ s' = { s with mem := s'.mem } := by
  obtain ⟨m', hm', rfl⟩ := Option.map_eq_some_iff.1 he
  obtain ⟨N, hN, hc, ht⟩ := h.links
  have hN' : ∀ t ∈ insert n N, t ∈ s.threads := by
    rintro t (rfl | ht)
    · exact hn
    · exact hN t ht
  have hL : (h.objects.lists N hN).Adds (h.objects.lists (insert n N) hN') n :=
    ⟨rfl, fun _ => Iff.rfl⟩
  obtain ⟨h1, h2⟩ := ht.enqueue hL hl hm'
  exact ⟨h.writeLists hN' (fun t ht => .inr (hc t ht)) h1 h2, rfl⟩

theorem Sound.remove (h : s.Sound) (hn : n ∈ s.created) : { s with mem := remove s.mem n }.Sound := by
  obtain ⟨N, hN, hc, ht⟩ := h.links
  obtain ⟨h1, h2⟩ := ht.remove (hc n hn)
  exact h.writeLists hN hc h1 h2

theorem Sound.removeHead (h : s.Sound) (hl : l = s.threadReady ∨ l = s.threadWait)
    (h0 : getHead s.mem l ≠ 0) : { s with mem := Krypton.remove s.mem (getHead s.mem l) }.Sound := by
  obtain ⟨N, hN, hc, ht⟩ := h.links
  obtain ⟨h1, h2⟩ := ht.remove ((ht.getHead hl).resolve_left h0)
  exact h.writeLists hN hc h1 h2

/-! ### Blocks -/

theorem kmalloc_cases (h : s.kmalloc p n = some s') :
    p ≠ 0 ∧ (∀ b ∈ s.blocks, Disjoint p n b) ∧ s' = { s with blocks := (p, n) :: s.blocks } := by
  unfold kmalloc at h
  split_ifs at h with hc
  exact ⟨hc.1, hc.2, (Option.some.inj h).symm⟩

theorem Objects.alloc (h : s.Objects) (h0 : p ≠ 0) (hd : ∀ b ∈ s.blocks, Disjoint p n b) :
    { s with blocks := (p, n) :: s.blocks }.Objects where
  apart := List.pairwise_cons.2 ⟨hd, h.apart⟩
  ne_zero := List.forall_mem_cons.2 ⟨h0, h.ne_zero⟩
  base := List.mem_cons_of_mem _ h.base
  thread t ht := List.mem_cons_of_mem _ (h.thread t ht)
  nodup := h.nodup

theorem Sound.alloc (h : s.Sound) (h0 : p ≠ 0) (hd : ∀ b ∈ s.blocks, Disjoint p n b) :
    { s with blocks := (p, n) :: s.blocks }.Sound := by
  refine ⟨h.objects.alloc h0 hd, h.links, h.ports.imp fun q hq => ⟨?_, ?_, hq.law⟩, h.mentions⟩
  · obtain ⟨σ, hrep, hσ⟩ := hq.rep
    refine ⟨σ, hrep.mono (fun _ hl => hl) fun x hx => hx.imp id fun hx => ?_, hσ⟩
    exact List.mem_cons_of_mem _ hx
  · exact fun t ht p hp => List.mem_cons_of_mem _ (hq.message t ht p hp)

theorem Objects.listByte_block (h : s.Objects) {c : Nat} (hc : s.ListByte c) :
    ∃ b ∈ s.blocks, b.1 ≤ c ∧ c < b.1 + b.2 := by
  rcases hc with hc | ⟨t, ht, hc⟩
  · refine ⟨_, h.base, ?_⟩
    simp only [sizeofSysBase]; omega
  · refine ⟨_, h.thread t ht, ?_⟩
    simp only [sizeofThread]; omega

theorem Objects.ports_block (h : s.Objects) {c : Nat} (hc : h.ports.Byte c) :
    ∃ b ∈ s.blocks, b.1 ≤ c ∧ c < b.1 + b.2 := by
  rcases hc with ⟨l, rfl | ⟨t, ht, rfl⟩, hc⟩ | ⟨n, ⟨t, ht, rfl⟩ | hp, hc⟩
  · refine ⟨_, h.base, ?_⟩
    simp only [msgportList, sizeofSysBase] at hc ⊢; omega
  · refine ⟨_, h.thread t (created_sub ht), ?_⟩
    simp only [messageList, sizeofThread] at hc ⊢; omega
  · refine ⟨_, h.thread t (created_sub ht), ?_⟩
    simp only [msgPort, sizeofThread] at hc ⊢; omega
  · refine ⟨_, hp, ?_⟩
    simp only [sizeofMessage]; omega

/-- The bytes of the live blocks in which no object of the ports lies. -/
def Objects.OffPorts (h : s.Objects) (c : Nat) : Prop :=
  (∃ b ∈ s.blocks, b.1 ≤ c ∧ c < b.1 + b.2) ∧ ¬ h.ports.Byte c

/-- Only the ports have been worked on. -/
def Objects.SameOffPorts (h : s.Objects) (s' : Sys) : Prop := ∀ c, h.OffPorts c → s'.mem c = s.mem c

theorem Objects.SameOffPorts.sameLists {h : s.Objects} (hf : h.SameOffPorts s') : SameLists s s' := fun c hc =>
  hf c ⟨h.listByte_block hc, h.listByte_ports hc⟩

theorem Sound.writeFresh (h : s.Sound) (hd : ∀ b ∈ s.blocks, Disjoint p n b)
    (hm : ∀ c, ¬ (p ≤ c ∧ c < p + n) → m' c = s.mem c) : { s with mem := m' }.Sound := by
  have hb : ∀ c, (∃ b ∈ s.blocks, b.1 ≤ c ∧ c < b.1 + b.2) → m' c = s.mem c := by
    rintro c ⟨b, hb, hc⟩
    refine hm c fun hp => ?_
    have := hd b hb
    simp only [Disjoint] at this; omega
  refine ⟨⟨h.objects.apart, h.objects.ne_zero, h.objects.base, h.objects.thread, h.objects.nodup⟩,
    ?_, h.ports.imp fun q hq => ⟨?_, hq.message, hq.law⟩, h.mentions⟩
  · obtain ⟨N, hN, hc, ht⟩ := h.links
    exact ⟨N, hN, hc, ht.congr_byte fun c hc => hb c (h.objects.listByte_block (h.objects.lists_listByte hc))⟩
  · obtain ⟨σ, hrep, hσ⟩ := hq.rep
    exact ⟨σ, hrep.congr_byte fun c hc => hb c (h.objects.ports_block hc), hσ⟩

theorem Objects.fresh_message (h : s.Objects) (hd : ∀ b ∈ s.blocks, Disjoint p sizeofMessage b) :
    p ∉ h.ports.nodes := by
  rintro (⟨t, ht, rfl⟩ | hp)
  · have := hd _ (h.thread t (created_sub ht))
    simp only [Disjoint, msgPort, sizeofMessage, sizeofThread] at this; omega
  · have := hd _ hp
    simp only [Disjoint, sizeofMessage] at this; omega

/-! ### The message ports -/

theorem memcpy_apply (dest src : Buf) (i len x : Nat) :
    memcpy dest src i len x = if i ≤ x ∧ x < i + len then src x else dest x := by
  induction len generalizing dest i with
  | zero =>
    rw [if_neg (by omega)]
    rfl
  | succ len ih =>
    rw [memcpy, ih]
    rcases lt_trichotomy x i with hx | rfl | hx
    · rw [if_neg (by omega), if_neg (by omega), if_neg (by omega)]
    · rw [if_neg (by omega), if_pos rfl, if_pos (by omega)]
    · have hne : x ≠ i := by omega
      simp only [hne, if_false]
      exact if_congr (by omega) rfl rfl

theorem memcpy_matches (dest src : Buf) (len : Nat) :
    Matches (memcpy dest src 0 len) ((List.range len).map src) := by
  intro i hi
  rw [List.length_map, List.length_range] at hi
  rw [memcpy_apply, if_pos (by omega)]
  simp

theorem Links.congr_ports {h : s.Objects} {h' : s'.Objects} (hl : s.Links h)
    (e1 : s'.sysBase = s.sysBase) (e2 : s'.created = s.created) (e3 : s'.threads = s.threads)
    (hm : ∀ c, ¬ h'.ports.Byte c → s'.mem c = s.mem c) : s'.Links h' := by
  obtain ⟨N, hN, hc, ht⟩ := hl
  refine ⟨N, fun t ht => e3 ▸ hN t ht, fun t ht => hc t (e2 ▸ ht), ?_⟩
  have ht' : Typed (h'.lists N fun t ht => e3 ▸ hN t ht) s.mem :=
    ht.relayout (by simp only [Objects.lists, threadReady, threadWait, e1]) fun _ => Iff.rfl
  exact ht'.congr_byte fun c hc => hm c (h'.lists_ports hc)

/-- The state behind the queueing of a message in `_msg_post`. -/
def queued (s : Sys) (t p : Nat) (buf : Buf) (payload : List Byte) : Sys :=
  { s with
    msgBuf := fun x => if x = p then buf else s.msgBuf x
    mem := addTail s.mem (messageList t) p }.record (.post t payload)

theorem messageList_inj {t t' : Nat} : messageList t = messageList t' ↔ t = t' :=
  Nat.add_right_cancel_iff

theorem Objects.messageList_ne (h : s.Objects) (ht : t ∈ s.created) : messageList t ≠ s.msgportList := by
  have := h.base_thread (created_sub ht)
  simp only [messageList, msgportList]; omega

/-- One port's queue is another: so is its list, and no other list. -/
theorem Objects.update_ports {σ : Seqs} (h : s.Objects) (ht : t ∈ s.created)
    (hσ : σ s.msgportList = some (s.created.map msgPort)) (hσt : ∀ t ∈ s.created, σ (messageList t) = some (q t))
    (xs : List Nat) : Function.update σ (messageList t) (some xs) s.msgportList = some (s.created.map msgPort) ∧
      ∀ t' ∈ s.created, Function.update σ (messageList t) (some xs) (messageList t') =
        some (Function.update q t xs t') := by
  refine ⟨?_, fun t' ht' => ?_⟩
  · rw [Function.update_of_ne (h.messageList_ne ht).symm]
    exact hσ
  · by_cases hne : t' = t
    · subst hne
      rw [Function.update_self, Function.update_self]
    · rw [Function.update_of_ne (messageList_inj.not.2 hne), Function.update_of_ne hne]
      exact hσt t' ht'

theorem Sound.queued (h : s.Sound) (ht : t ∈ s.created) {buf : Buf} {payload : List Byte}
    (hm : Matches buf payload) (hk : s.kmalloc p sizeofMessage = some s') :
    (s'.queued t p buf payload).Sound ∧ h.objects.SameOffPorts (s'.queued t p buf payload) := by
  obtain ⟨h0, hd, rfl⟩ := kmalloc_cases hk
  have hs' := h.alloc h0 hd
  obtain ⟨q, ⟨σ, hrep, hσ, hσt⟩, hmsg, hlaw⟩ := h.ports
  have hfresh : p ∉ h.objects.ports.nodes := h.objects.fresh_message hd
  have hfree : σ.Free p := fun l xs hl hp => hfresh (hrep.node l xs hl p hp)
  have hrep' : Rep hs'.objects.ports s.mem σ :=
    hrep.mono (fun _ hl => hl) fun x hx => hx.imp id (List.mem_cons_of_mem _)
  have hp : p ∈ hs'.objects.ports.nodes := .inr (List.mem_cons_self ..)
  obtain ⟨h1, h2⟩ := hrep'.addTail (hσt t ht) hp hfree
  have hq : ∀ t' ∈ s.created, p ∉ q t' := fun t' ht' => hfree _ _ (hσt t' ht')
  have hframe : ∀ c, ¬ hs'.objects.ports.Byte c → addTail s.mem (messageList t) p c = s.mem c :=
    fun c hc => h2.cell hrep' (hσt t ht) hp fun hx => hc hx.byte
  obtain ⟨hσ', hσt'⟩ := h.objects.update_ports ht hσ hσt (q t ++ [p])
  refine ⟨⟨⟨hs'.objects.apart, hs'.objects.ne_zero, hs'.objects.base, hs'.objects.thread,
    hs'.objects.nodup⟩, hs'.links.congr_ports rfl rfl rfl hframe,
    ⟨Function.update q t (q t ++ [p]), ⟨_, h1, hσ', hσt'⟩, ?_, ?_⟩, ?_⟩,
    fun c hc => hframe c fun hx => ?_⟩
  · intro t' ht' x hx
    by_cases hne : t' = t
    · subst hne
      rw [Function.update_self] at hx
      rcases List.mem_append.1 hx with hx | hx
      · exact List.mem_cons_of_mem _ (hmsg t' ht' x hx)
      · rw [List.mem_singleton.1 hx]; exact List.mem_cons_self ..
    · rw [Function.update_of_ne hne] at hx
      exact List.mem_cons_of_mem _ (hmsg t' ht' x hx)
  · intro t' ht'
    have hmap : (q t').map (fun x => if x = p then buf else s.msgBuf x) = (q t').map s.msgBuf :=
      List.map_congr_left fun x hx => if_neg (show x ≠ p from fun he => hq t' ht' (he ▸ hx))
    by_cases hne : t' = t
    · subst hne
      rw [Function.update_self]
      show PortLaw t' ((q t' ++ [p]).map fun x => if x = p then buf else s.msgBuf x) _
      rw [List.map_append, hmap, List.map_singleton, if_pos rfl]
      exact (hlaw t' ht').post hm
    · rw [Function.update_of_ne hne]
      show PortLaw t' ((q t').map fun x => if x = p then buf else s.msgBuf x) _
      rw [hmap]
      exact (hlaw t' ht').other fun he => hne he.symm
  · exact List.forall_mem_cons.2 ⟨created_sub ht, h.mentions⟩
  · obtain ⟨⟨b, hb, hbc⟩, hoff⟩ := hc
    have hpb := hd b hb
    simp only [Disjoint, sizeofMessage] at hpb
    -- the new message is the only new object
    rcases hx with hx | ⟨n, hn, hnc⟩
    · exact hoff (.inl hx)
    · rcases hn with hn | hn
      · exact hoff (.inr ⟨n, .inl hn, hnc⟩)
      · rcases List.mem_cons.1 hn with he | hn
        · obtain rfl := (Prod.mk.inj he).1
          omega
        · exact hoff (.inr ⟨n, .inr hn, hnc⟩)

/-- `_msg_retrieve` reads the head of the running thread's port. -/
theorem Ports.getHead {h : s.Objects} (hq : s.Ports h q) (ht : t ∈ s.created) :
    getHead s.mem (messageList t) = (q t).headD 0 := by
  obtain ⟨σ, hrep, -, hσ⟩ := hq.rep
  exact hrep.getHead_eq (hσ t ht)

theorem Ports.ne_zero {h : s.Objects} (hq : s.Ports h q) (ht : t ∈ s.created) : ∀ p ∈ q t, p ≠ 0 :=
  fun p hp => h.ne_zero _ (hq.message t ht p hp)

theorem Ports.head_buf {h : s.Objects} (hq : s.Ports h q) (ht : t ∈ s.created) :
    (if (q t).headD 0 = 0 then none else some (s.msgBuf ((q t).headD 0))) =
      ((q t).map s.msgBuf).head? := by
  have h0 := hq.ne_zero ht
  cases hqt : q t with
  | nil => rfl
  | cons p ps =>
    have hp : p ≠ 0 := h0 p (by rw [hqt]; exact List.mem_cons_self ..)
    simp [hp]

theorem Sound.msgRetrieve (h : s.Sound) (hr : s.runningThread ∈ s.threads) (ptr : Word) :
    (s.msgRetrieve ptr).Sound := by
  exact ⟨⟨h.objects.apart, h.objects.ne_zero, h.objects.base, h.objects.thread, h.objects.nodup⟩,
    h.links, h.ports.imp fun q hq => ⟨hq.rep, hq.message, fun t ht => (hq.law t ht).retrieved _ _⟩,
    List.forall_mem_cons.2 ⟨hr, h.mentions⟩⟩

theorem Objects.kfree (h : s.Objects) (hp : s.Message p) : (s.kfree p).Objects := by
  have hb : s.sysBase ≠ p := by have := h.base_message hp; omega
  have ht : ∀ t ∈ s.threads, t ≠ p := fun t ht => by have := h.thread_message ht hp; omega
  exact ⟨h.apart.filter _, fun b hb => h.ne_zero b (List.mem_filter.1 hb).1,
    List.mem_filter.2 ⟨h.base, decide_eq_true hb⟩,
    fun t hx => List.mem_filter.2 ⟨h.thread t hx, decide_eq_true (ht t hx)⟩, h.nodup⟩

theorem message_kfree {x : Nat} : (s.kfree p).Message x ↔ s.Message x ∧ x ≠ p := by
  simp only [Message, Sys.kfree, List.mem_filter, decide_eq_true_eq]

/-- The state behind the deletion of the first message `p` in `_msg_cycle`. -/
def deleted (s : Sys) (p : Nat) : Sys :=
  ({ s with mem := (removeHead s.mem (messageList s.runningThread)).2 }.kfree p).record
    (.cycle s.runningThread (s.msgBuf p))

theorem Sound.deleted (h : s.Sound) (hq : s.Ports h.objects q) (ht : s.runningThread ∈ s.created)
    {ps : List Nat} (hqt : q s.runningThread = p :: ps) :
    (s.deleted p).Sound ∧ h.objects.SameOffPorts (s.deleted p) := by
  obtain ⟨⟨σ, hrep, hσ, hσt⟩, hmsg, hlaw⟩ := hq
  set r := s.runningThread with hr_def
  have hr : σ (messageList r) = some (p :: ps) := hqt ▸ hσt r ht
  obtain ⟨-, h2, h3⟩ := hrep.removeHead_cons hr
  have hpm : s.Message p := hmsg r ht p (by rw [hqt]; exact List.mem_cons_self ..)
  have hobj : (s.deleted p).Objects := by
    obtain ⟨h1, h2, h3, h4, h5⟩ := h.objects.kfree hpm
    exact ⟨h1, h2, h3, h4, h5⟩
  have hps : p ∉ ps := (List.nodup_cons.1 (hrep.nodup _ _ hr)).1
  have hother : ∀ l xs, l ≠ messageList r → σ l = some xs → p ∉ xs := fun l xs hne hl hp =>
    hne (hrep.owner_unique hl hr hp (List.mem_cons_self ..))
  have hgone : ∀ l xs, Function.update σ (messageList r) (some ps) l = some xs → p ∉ xs := by
    intro l xs hl
    by_cases hne : l = messageList r
    · rw [hne, Function.update_self] at hl
      exact Option.some.inj hl ▸ hps
    · rw [Function.update_of_ne hne] at hl
      exact hother l xs hne hl
  have hrep' : Rep hobj.ports (s.deleted p).mem (Function.update σ (messageList r) (some ps)) := by
    refine h2.relayout (fun l xs hl => h2.head l xs hl) fun l xs hl n hn => ?_
    have hnp : n ≠ p := fun he => hgone l xs hl (he ▸ hn)
    rcases h2.node l xs hl n hn with hx | hx
    · exact .inl hx
    · exact .inr (message_kfree.2 ⟨hx, hnp⟩)
  have hq' : ∀ t ∈ s.created, t ≠ r → q t = Function.update q r ps t := fun t _ hne =>
    (Function.update_of_ne hne _ _).symm
  have hframe : h.objects.SameOffPorts (s.deleted p) := fun c hc =>
    h3.cell hrep hr (.inr hpm) fun hx => hc.2 hx.byte
  obtain ⟨hσ', hσt'⟩ := h.objects.update_ports ht hσ hσt ps
  refine ⟨⟨hobj, ?_, ⟨Function.update q r ps, ⟨_, hrep', hσ', hσt'⟩, ?_, ?_⟩, ?_⟩, hframe⟩
  · have hL : (s.deleted p).Links hobj := by
      obtain ⟨N, hN, hc, hty⟩ := h.links
      refine ⟨N, hN, hc, ?_⟩
      have := hty.congr_byte fun c hc => hframe.sameLists c (h.objects.lists_listByte hc)
      exact this.relayout rfl fun _ => Iff.rfl
    exact hL
  · intro t' ht' x hx
    by_cases hne : t' = r
    · rw [hne, Function.update_self] at hx
      refine message_kfree.2 ⟨hmsg r ht x (by rw [hqt]; exact List.mem_cons_of_mem _ hx), ?_⟩
      exact fun he => hps (he ▸ hx)
    · rw [← hq' t' ht' hne] at hx
      refine message_kfree.2 ⟨hmsg t' ht' x hx, fun he => ?_⟩
      exact hother _ _ (messageList_inj.not.2 hne) (hσt t' ht') (he ▸ hx)
  · intro t' ht'
    by_cases hne : t' = r
    · have := hlaw r ht
      rw [hqt] at this
      rw [hne, Function.update_self]
      exact this.cycle
    · rw [← hq' t' ht' hne]
      exact (hlaw t' ht').other fun he => hne he.symm
  · exact List.forall_mem_cons.2 ⟨created_sub ht, h.mentions⟩

theorem msgCycle_nil {h : s.Objects} (hq : s.Ports h q) (ht : s.runningThread ∈ s.created)
    (hqt : q s.runningThread = []) : s.msgCycle = s := by
  obtain ⟨σ, hrep, -, hσ⟩ := hq.rep
  have hr := hσ _ ht
  rw [hqt] at hr
  unfold Sys.msgCycle
  rw [hrep.removeHead_nil hr]
  rfl

theorem msgCycle_cons {h : s.Objects} (hq : s.Ports h q) (ht : s.runningThread ∈ s.created)
    {ps : List Nat} (hqt : q s.runningThread = p :: ps) : s.msgCycle = s.deleted p := by
  obtain ⟨σ, hrep, -, hσ⟩ := hq.rep
  have hr := hσ _ ht
  rw [hqt] at hr
  have hp0 : p ≠ 0 := hq.ne_zero ht p (by rw [hqt]; exact List.mem_cons_self ..)
  unfold Sys.msgCycle Sys.deleted
  simp only [(hrep.removeHead_cons hr).1, hp0, if_false]

theorem Sound.msgCycle (h : s.Sound) (ht : s.runningThread ∈ s.created) : s.msgCycle.Sound := by
  obtain ⟨q, hq⟩ := h.ports
  cases hqt : q s.runningThread with
  | nil => rwa [msgCycle_nil hq ht hqt]
  | cons p ps =>
    rw [msgCycle_cons hq ht hqt]
    exact (h.deleted hq ht hqt).1

/-! ### `create_thread` -/

/-- Memory with the node of a new descriptor filled in. -/
def descriptorMem (m : Mem) (p q : Nat) (pri : Word) : Mem :=
  (((zeroBlock m p sizeofThread).set (p + 16) q).set (p + 12) pri.toNat).set (p + 8) 5

theorem descriptorMem_of_not_mem {c : Nat} (q : Nat) (pri : Word) (hc : ¬ (p ≤ c ∧ c < p + sizeofThread)) :
    descriptorMem m p q pri c = m c := by
  simp only [sizeofThread] at hc
  unfold descriptorMem
  rw [Mem.set_ne _ _ (by omega), Mem.set_ne _ _ (by omega), Mem.set_ne _ _ (by omega)]
  exact if_neg hc

/-- And with its port at the head of `msgport_list` and the port's list made. -/
def portsMem (s : Sys) (p q : Nat) (a : ThreadArgs) : Mem :=
  newList (addHead (descriptorMem s.mem p q a.priority) s.msgportList (msgPort p)) (messageList p)

/-- The descriptor `create_thread` makes. -/
def newThread (s : Sys) (a : ThreadArgs) : Thread where
  userEsp := a.userStack - 8
  pageDirectory := s.actPageDirectory
  threadFlags := tsReady ||| tbLaunch
  initialEip := a.fn
  kernelEsp := 0
  uid := a.uid
  initKernelEsp := a.kernelStack
  sigWait := 0
  sigRecvd := 0
  numMsg := 0

theorem createThread_cases {q : Nat} {a : ThreadArgs} (h : s.createThread fuel p q a = some s') :
    (p ≠ 0 ∧ ∀ b ∈ s.blocks, Disjoint p sizeofThread b) ∧
      (q ≠ 0 ∧ ∀ b ∈ (p, sizeofThread) :: s.blocks, Disjoint q (a.name.length + 1) b) ∧
      ∃ m', enqueue fuel (s.portsMem p q a) s.threadReady p = some m' ∧
        s' = { s with
          mem := m'
          thread := fun x => if x = p then s.newThread a else s.thread x
          text := fun x => if x = q then a.name else s.text x
          user := fun x => if x = a.userStack - 8 then a.args else
            if x = a.userStack - 4 then a.atExit else s.user x
          blocks := (q, a.name.length + 1) :: (p, sizeofThread) :: s.blocks
          created := p :: s.created } := by
  unfold createThread at h
  obtain ⟨s₁, h1, h⟩ := Option.bind_eq_some_iff.1 h
  obtain ⟨hp0, hpd, rfl⟩ := kmalloc_cases h1
  obtain ⟨s₂, h2, h⟩ := Option.bind_eq_some_iff.1 h
  obtain ⟨hq0, hqd, rfl⟩ := kmalloc_cases h2
  obtain ⟨s₃, h3, h⟩ := Option.bind_eq_some_iff.1 h
  obtain ⟨m', hm', rfl⟩ := Option.map_eq_some_iff.1 h3
  refine ⟨⟨hp0, hpd⟩, ⟨hq0, hqd⟩, m', hm', (Option.some.inj h).symm.trans ?_⟩
  have hth : ∀ th : Thread, (fun x => if x = p then th else if x = p then zeroThread else s.thread x) =
      fun x => if x = p then th else s.thread x := fun th => funext fun x => by split_ifs <;> rfl
  simp only [setThread, hth, if_true]
  rfl

theorem Objects.fresh_thread (h : s.Objects) (hd : ∀ b ∈ s.blocks, Disjoint p sizeofThread b) :
    p ∉ s.threads := fun hp => by
  have := hd _ (h.thread p hp)
  simp only [Disjoint, sizeofThread] at this; omega

/-- The state of `create_thread` in front of `add_head`, with the new thread counted in. -/
def described (s : Sys) (p r : Nat) (a : ThreadArgs) : Sys :=
  { s with
    mem := descriptorMem s.mem p r a.priority
    blocks := (r, a.name.length + 1) :: (p, sizeofThread) :: s.blocks
    created := p :: s.created }

/-- What `create_thread` has set up when it puts the thread on `thread_ready`: the new port is a node
of `msgport_list` and its message list is empty. -/
structure Described (s d : Sys) (h : d.Objects) (p : Nat) (m : Mem) : Prop where
  fresh : p ∉ s.threads
  frame : ∀ c, s.ListByte c → m c = s.mem c
  links : ∃ (N : Set Nat) (hN : ∀ t ∈ N, t ∈ d.threads), (∀ t ∈ s.created, t ∈ N) ∧
    Typed (h.lists N hN) m
  ports : ∃ (σ : Seqs) (q : Nat → List Nat), Rep h.ports m σ ∧
    σ d.msgportList = some (d.created.map msgPort) ∧ (∀ t ∈ d.created, σ (messageList t) = some (q t)) ∧
    (∀ t ∈ d.created, ∀ x ∈ q t, d.Message x) ∧ ∀ t ∈ d.created, PortLaw t ((q t).map s.msgBuf) s.log

theorem Sound.described_objects {r : Nat} {a : ThreadArgs} (h : s.Sound) (hp0 : p ≠ 0)
    (hpd : ∀ b ∈ s.blocks, Disjoint p sizeofThread b) (hr0 : r ≠ 0)
    (hrd : ∀ b ∈ (p, sizeofThread) :: s.blocks, Disjoint r (a.name.length + 1) b) : (s.described p r a).Objects := by
  obtain ⟨o1, o2, o3, o4, o5⟩ := ((h.alloc hp0 hpd).alloc hr0 hrd).objects
  exact ⟨o1, o2, o3, List.forall_mem_cons.2 ⟨List.mem_cons_of_mem _ (List.mem_cons_self ..), o4⟩,
    List.nodup_cons.2 ⟨h.objects.fresh_thread hpd, o5⟩⟩

/-- The new port is put in front of the others, and its list is made empty. -/
theorem Objects.portsMem_rep {σ : Seqs} {r : Nat} {a : ThreadArgs} (h : (s.described p r a).Objects)
    (hrep : Rep h.ports (descriptorMem s.mem p r a.priority) σ)
    (hσ : σ s.msgportList = some (s.created.map msgPort)) (hp : σ.Free (msgPort p)) :
    Rep h.ports (s.portsMem p r a) (Function.update (Function.update σ s.msgportList
        (some (msgPort p :: s.created.map msgPort))) (messageList p) (some [])) ∧
      ∀ c, ¬ h.ports.Byte c → s.portsMem p r a c = descriptorMem s.mem p r a.priority c := by
  have hn : msgPort p ∈ h.ports.nodes := .inl ⟨p, List.mem_cons_self .., rfl⟩
  have hl : messageList p ∈ h.ports.heads := .inr ⟨p, List.mem_cons_self .., rfl⟩
  obtain ⟨h4, f4⟩ := hrep.addHead hσ hn hp
  obtain ⟨h5, f5⟩ := h4.newList hl
  refine ⟨h5, fun c hc => ?_⟩
  have hb : ∀ k < 12, c ≠ messageList p + k := fun k hk he => hc (he ▸ (Layout.Fwd.head hl).byte hk)
  unfold portsMem
  rw [f5 c (hb 0 (by omega)) (hb 4 (by omega)) (hb 8 (by omega))]
  exact f4.cell hrep hσ hn fun hx => hc hx.byte

theorem Sound.described {r : Nat} {a : ThreadArgs} (h : s.Sound) (hp0 : p ≠ 0)
    (hpd : ∀ b ∈ s.blocks, Disjoint p sizeofThread b) (hr0 : r ≠ 0)
    (hrd : ∀ b ∈ (p, sizeofThread) :: s.blocks, Disjoint r (a.name.length + 1) b) :
    ∃ hobj : (s.described p r a).Objects, Described s (s.described p r a) hobj p (s.portsMem p r a) ∧
      ∀ c, ¬ hobj.ports.Byte c → s.portsMem p r a c = descriptorMem s.mem p r a.priority c := by
  have h1 := h.writeFresh hpd fun c hc => descriptorMem_of_not_mem r a.priority hc
  have h3 := (h1.alloc hp0 hpd).alloc hr0 hrd
  have hpt : p ∉ s.threads := h.objects.fresh_thread hpd
  have hpc : p ∉ s.created := fun hp => hpt (created_sub hp)
  have hobj : (s.described p r a).Objects := h.described_objects hp0 hpd hr0 hrd
  obtain ⟨q, ⟨σ, hrep, hσ, hσt⟩, hmsg, hlaw⟩ := h3.ports
  replace hσ : σ s.msgportList = some (s.created.map msgPort) := hσ
  replace hσt : ∀ t ∈ s.created, σ (messageList t) = some (q t) := hσt
  have hpn : msgPort p ∉ h3.objects.ports.nodes := by
    rintro (⟨t, ht, he⟩ | hx)
    · have hpt' : p = t := Nat.add_right_cancel_iff.1 he
      exact hpc (hpt' ▸ ht)
    · rcases h3.objects.meet hx (List.mem_cons_of_mem _ (List.mem_cons_self ..)) with he | he
      · exact absurd (Prod.mk.inj he).2 (by decide)
      · simp only [msgPort, sizeofMessage, sizeofThread] at he; omega
  have hrep1 : Rep hobj.ports (descriptorMem s.mem p r a.priority) σ := by
    refine hrep.mono (fun l hl => ?_) fun n hn => ?_
    · exact hl.imp id fun ⟨t, ht, he⟩ => ⟨t, List.mem_cons_of_mem _ ht, he⟩
    · exact hn.imp (fun ⟨t, ht, he⟩ => ⟨t, List.mem_cons_of_mem _ ht, he⟩) id
  obtain ⟨h5, hframe⟩ := hobj.portsMem_rep hrep1 hσ fun l xs hx hp => hpn (hrep.node l xs hx _ hp)
  have hne : messageList p ≠ s.msgportList := hobj.messageList_ne (List.mem_cons_self ..)
  have htp : ∀ t ∈ s.created, t ≠ p := fun t ht he => hpc (he ▸ ht)
  refine ⟨hobj, ⟨hpt, fun c hc => ?_, ?_, _, Function.update q p [], h5, ?_, ?_, ?_, ?_⟩, hframe⟩
  · obtain ⟨b, hb, hbc⟩ := h.objects.listByte_block hc
    have hc' : (s.described p r a).ListByte c := hc.imp id fun ⟨t, ht, h⟩ => ⟨t, List.mem_cons_of_mem _ ht, h⟩
    rw [hframe c (hobj.listByte_ports hc')]
    refine descriptorMem_of_not_mem _ _ fun hp => ?_
    have := hpd b hb
    simp only [Disjoint] at this; omega
  · obtain ⟨N, hN, hcN, hty⟩ := h3.links
    refine ⟨N, fun t ht => List.mem_cons_of_mem _ (hN t ht), hcN, ?_⟩
    have hty1 : Typed (hobj.lists N fun t ht => List.mem_cons_of_mem _ (hN t ht))
        (descriptorMem s.mem p r a.priority) := hty.relayout rfl fun _ => Iff.rfl
    exact hty1.congr_byte fun c hc => hframe c (hobj.lists_ports hc)
  · show Function.update (Function.update σ s.msgportList _) (messageList p) _ s.msgportList =
      some (msgPort p :: s.created.map msgPort)
    rw [Function.update_of_ne hne.symm, Function.update_self]
  · refine List.forall_mem_cons.2 ⟨?_, fun t ht => ?_⟩
    · rw [Function.update_self, Function.update_self]
    · have htm : messageList t ≠ s.msgportList := h.objects.messageList_ne ht
      rw [Function.update_of_ne (messageList_inj.not.2 (htp t ht)), Function.update_of_ne htm,
        Function.update_of_ne (htp t ht)]
      exact hσt t ht
  · refine List.forall_mem_cons.2 ⟨?_, fun t ht => ?_⟩
    · rw [Function.update_self]; simp
    · rw [Function.update_of_ne (htp t ht)]
      exact hmsg t ht
  · refine List.forall_mem_cons.2 ⟨?_, fun t ht => ?_⟩
    · obtain ⟨e1, e2, -⟩ := absent (t := p) True 0 fun e he => fun hep => hpt (hep ▸ h.mentions e he)
      rw [Function.update_self]
      exact ⟨by rw [e1, e2]; exact .nil⟩
    · rw [Function.update_of_ne (htp t ht)]
      exact hlaw t ht

theorem Sound.create {r : Nat} {a : ThreadArgs} (h : s.Sound)
    (hc : s.createThread fuel p r a = some s') : s'.Sound := by
  obtain ⟨⟨hp0, hpd⟩, ⟨hr0, hrd⟩, m', hm', rfl⟩ := createThread_cases hc
  obtain ⟨hobj, hd, -⟩ := h.described hp0 hpd hr0 hrd
  obtain ⟨N, hN, hcN, hty⟩ := hd.links
  obtain ⟨σ, q, hrep, hσ, hσt, hmsg, hlaw⟩ := hd.ports
  have hN' : ∀ t ∈ insert p N, t ∈ (s.described p r a).threads := by
    rintro t (rfl | ht)
    · exact List.mem_cons_self ..
    · exact hN t ht
  have hL : (hobj.lists N hN).Adds (hobj.lists (insert p N) hN') p := ⟨rfl, fun _ => Iff.rfl⟩
  obtain ⟨h6, f6⟩ := hty.enqueue hL (.inl rfl) hm'
  refine ⟨⟨hobj.apart, hobj.ne_zero, hobj.base, hobj.thread, hobj.nodup⟩, ⟨insert p N, hN', ?_, h6⟩,
    ⟨q, ⟨σ, ?_, hσ, hσt⟩, hmsg, hlaw⟩, fun e he => List.mem_cons_of_mem _ (h.mentions e he)⟩
  · exact List.forall_mem_cons.2 ⟨.inl rfl, fun t ht => .inr (hcN t ht)⟩
  · exact hrep.congr_byte fun c hc => f6 c fun hx => hobj.lists_ports hx.byte hc

end Sys
end Krypton
