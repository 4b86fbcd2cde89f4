import Krypton.Context

/-!
# The state `init` leaves

`init` sets up empty lists and one running thread, so the invariant holds when the first thread is
created (`Booted.inv`) and from there on in every run (`reach_inv`).
-/

namespace Krypton

open Sys

/-- Memory after the list set-up of `init`, for the `sys_base` at `b` and the kernel thread at `k`. -/
def bootMem (m : Mem) (b k name : Nat) : Mem :=
  let m := newList m (b + 52)
  let m := newList m (b + 112)
  let m := newList m (b + 64)
  let m := newList m (b + 76)
  let m := newList m (b + 40)
  let m := newList m (b + 124)
  let m := newList m (b + 88)
  let m := newList m (b + 100)
  newList (((m.set (k + 16) name).set (k + 12) 0).set (k + 8) 5) (msgPort k)

theorem newList_apply (m : Mem) (l c : Nat) : newList m l c =
    if c = l + 8 then l else if c = l + 4 then 0 else if c = l then l + 4 else m c := rfl

theorem newList_of_ne {m : Mem} {l c : Nat} (h : c < l ∨ l + 12 ≤ c) : newList m l c = m c := by
  rw [newList_apply, if_neg (by omega), if_neg (by omega), if_neg (by omega)]

theorem newList_nil (m : Mem) (l : Nat) : IsList (newList m l) l [] := by
  refine ⟨List.isChain_pair.2 ⟨?_, ?_⟩, ?_⟩
  · show newList m l l = l + 4
    rw [newList_apply, if_neg (by omega), if_neg (by omega), if_pos rfl]
  · exact if_pos rfl
  · show newList m l (l + 4) = 0
    rw [newList_apply, if_neg (by omega), if_pos rfl]

theorem IsList.nil_congr {m m' : Mem} {l : Nat} (h : IsList m l [])
    (hc : ∀ c, l ≤ c → c < l + 12 → m' c = m c) : IsList m' l [] := by
  refine h.congr (fun x hx => ?_) (fun x hx => ?_) (hc _ (by omega) (by omega))
  · obtain rfl := List.mem_singleton.1 hx
    exact hc _ (by omega) (by omega)
  · obtain rfl := List.mem_singleton.1 hx
    exact hc _ (by omega) (by omega)

theorem IsList.nil_newList {m : Mem} {l l' : Nat} (h : IsList m l []) (ha : l + 12 ≤ l' ∨ l' + 12 ≤ l) :
    IsList (newList m l') l [] :=
  h.nil_congr fun c h1 h2 => newList_of_ne (by omega)

theorem bootMem_isList (m : Mem) {b k : Nat} (name : Nat) (hk : k + 113 ≤ b ∨ b + 156 ≤ k) :
    IsList (bootMem m b k name) (b + 76) [] ∧ IsList (bootMem m b k name) (b + 88) [] ∧
      IsList (bootMem m b k name) (b + 100) [] := by
  have hstore : ∀ (m : Mem) l, b ≤ l → l + 12 ≤ b + 156 → IsList m l [] →
      IsList (newList (((m.set (k + 16) name).set (k + 12) 0).set (k + 8) 5) (msgPort k)) l [] := by
    intro m l h1 h2 h
    refine h.nil_congr fun c h3 h4 => ?_
    rw [newList_of_ne (by unfold msgPort; omega), Mem.set_ne _ _ (by omega), Mem.set_ne _ _ (by omega),
      Mem.set_ne _ _ (by omega)]
  refine ⟨hstore _ _ (by omega) (by omega) ?_, hstore _ _ (by omega) (by omega) ?_,
    hstore _ _ (by omega) (by omega) ?_⟩
  · exact ((((newList_nil _ _).nil_newList (by omega)).nil_newList (by omega)).nil_newList
      (by omega)).nil_newList (by omega)
  · exact (newList_nil _ _).nil_newList (by omega)
  · exact newList_nil _ _

theorem init_cases {s s' : Sys} {pd stack : Word} {name k : Nat} (h : s.init pd name k stack = some s') :
    k ≠ 0 ∧ (∀ b ∈ s.blocks, Disjoint k sizeofThread b) ∧ s' = { s with
      mem := bootMem s.mem s.sysBase k name
      thread := fun x => if x = k then { s.thread k with
        threadFlags := tsRun, uid := 0, initKernelEsp := stack + 4000, pageDirectory := pd } else s.thread x
      kernelThread := k
      runningThread := k
      sysFlags := 0
      forbidCounter := 1
      kReenter := -1
      stdTsQuantum := Krypton.stdTsQuantum
      tsCurrCount := Krypton.stdTsQuantum
      actPageDirectory := pd
      esp0 := stack + 4000
      blocks := (k, sizeofThread) :: s.blocks } := by
  obtain ⟨s₁, h1, h2⟩ := Option.bind_eq_some_iff.1 h
  obtain ⟨h3, h4, rfl⟩ := kmalloc_cases h1
  refine ⟨h3, h4, (Option.some.inj h2).symm.trans ?_⟩
  have hth : ∀ a b : Thread, (fun x => if x = k then a else if x = k then b else s.thread x) =
      fun x => if x = k then a else s.thread x := fun a b => funext fun x => by split_ifs <;> rfl
  simp only [setThread, if_true, hth]
  rfl

/-- What the proofs use of the state `init` leaves. -/
structure Fresh (s : Sys) : Prop where
  created : s.created = []
  log : s.log = []
  blocks : s.blocks = [(s.kernelThread, sizeofThread), (s.sysBase, sizeofSysBase)]
  kernel_ne : s.kernelThread ≠ 0
  base_ne : s.sysBase ≠ 0
  apart : s.kernelThread + 113 ≤ s.sysBase ∨ s.sysBase + 156 ≤ s.kernelThread
  ports : IsList s.mem s.msgportList []
  ready : IsList s.mem s.threadReady []
  wait : IsList s.mem s.threadWait []
  running : s.runningThread = s.kernelThread
  kReenter : s.kReenter = -1
  flags : s.running.threadFlags = tsRun
  sysFlags : s.sysFlags = 0

theorem Booted.fresh {c : Config} (h : Booted c) : Fresh c.sys ∧ c.mode = .ring3 := by
  obtain ⟨s, pd, name, k, stack, hb0, hblocks, hcreated, hlog, hinit, hmode⟩ := h
  obtain ⟨hk0, hk, he⟩ := init_cases hinit
  have hkb : k + 113 ≤ s.sysBase ∨ s.sysBase + 156 ≤ k :=
    hk (s.sysBase, 156) (by rw [hblocks]; simp [sizeofSysBase])
  obtain ⟨l1, l2, l3⟩ := bootMem_isList s.mem name hkb
  refine ⟨?_, hmode⟩
  rw [he]
  exact ⟨hcreated, hlog, by rw [hblocks], hk0, hb0, hkb, l1, l2, l3, rfl, rfl,
    by simp [Sys.running], rfl⟩

theorem IsList.nil_links {m : Mem} {l : Nat} (h : IsList m l []) :
    m.next l = l + 4 ∧ m.prev (l + 4) = l ∧ m.tail l = 0 :=
  ⟨(h.neighbours [] l (l + 4) [] rfl).1, (h.neighbours [] l (l + 4) [] rfl).2, h.tail⟩

/-- Empty lists over any layout that has their headers. -/
theorem Rep.nil {L : Layout} {m : Mem} {H : List Nat} (hH : ∀ l ∈ H, l ∈ L.heads ∧ IsList m l []) :
    Rep L m fun l => if l ∈ H then some [] else none := by
  have hnil : ∀ l xs, (if l ∈ H then some [] else none) = some xs → l ∈ H ∧ xs = ([] : List Nat) := by
    intro l xs hl
    split_ifs at hl with h
    exact ⟨h, (Option.some.inj hl).symm⟩
  refine ⟨fun l xs hl => (hH l (hnil l xs hl).1).1, fun l xs hl => ?_, fun l xs hl => ?_, fun l xs hl => ?_,
    fun l l' xs xs' hl _ _ => ?_⟩
  · rw [(hnil l xs hl).2]; simp
  · rw [(hnil l xs hl).2]; exact (hH l (hnil l xs hl).1).2
  · rw [(hnil l xs hl).2]; exact List.nodup_nil
  · rw [(hnil l xs hl).2]; exact List.disjoint_nil_left _

namespace Fresh
variable {s : Sys}

theorem threads (h : Fresh s) : s.threads = [s.kernelThread] := by
  unfold Sys.threads
  rw [h.created]; rfl

theorem objects (h : Fresh s) : s.Objects where
  apart := by
    rw [h.blocks]
    refine List.pairwise_pair.2 ?_
    have := h.apart
    simp only [sizeofThread, sizeofSysBase]; omega
  ne_zero := by
    rw [h.blocks]
    simpa using ⟨h.kernel_ne, h.base_ne⟩
  base := by rw [h.blocks]; simp
  thread := by
    rw [h.blocks, h.threads]
    simp
  nodup := by rw [h.threads]; exact List.nodup_singleton _

theorem links (h : Fresh s) : s.Links h.objects := by
  obtain ⟨r1, r2, r3⟩ := h.ready.nil_links
  obtain ⟨w1, w2, w3⟩ := h.wait.nil_links
  refine ⟨∅, fun t ht => ht.elim, fun t ht => ?_, ?_, ?_, ?_⟩
  · rw [h.created] at ht; cases ht
  · rintro x ((rfl | rfl) | hx)
    · rw [r1]; exact .tail (.inl rfl)
    · rw [w1]; exact .tail (.inr rfl)
    · exact hx.elim
  · rintro y (hy | ⟨l, rfl | rfl, rfl⟩)
    · exact hy.elim
    · rw [r2]; exact .head (.inl rfl)
    · rw [w2]; exact .head (.inr rfl)
  · rintro l (rfl | rfl)
    · exact r3
    · exact w3

theorem sound (h : Fresh s) : s.Sound := by
  have hrep : Rep h.objects.ports s.mem fun l => if l ∈ [s.msgportList] then some [] else none := by
    refine Rep.nil fun l hl => ?_
    obtain rfl := List.mem_singleton.1 hl
    exact ⟨.inl rfl, h.ports⟩
  have hno : ∀ t, t ∉ s.created := fun t ht => by rw [h.created] at ht; cases ht
  refine ⟨h.objects, h.links, ⟨fun _ => [], ⟨_, hrep, ?_, fun t ht => absurd ht (hno t)⟩,
    fun t ht => absurd ht (hno t), fun t ht => absurd ht (hno t)⟩, fun e he => ?_⟩
  · rw [h.created]; simp
  · rw [h.log] at he; cases he

theorem context (h : Fresh s) : s.Context True := by
  refine ⟨by rw [h.running]; exact kernel_mem, fun t ht => ?_⟩
  rw [h.threads, List.mem_singleton] at ht
  obtain rfl := ht
  have hf : (s.thread s.kernelThread).threadFlags = tsRun := h.running ▸ h.flags
  rw [h.created, h.log]
  refine ⟨⟨fun _ => ⟨trivial, h.running.symm⟩, fun _ => ?_⟩, ?_, ⟨fun hx => ?_, fun hx => ?_⟩,
    fun _ hr => absurd ⟨trivial, h.running.symm⟩ hr, trivial⟩
  · rw [hf]; decide
  · rw [hf]; decide
  · rw [hf] at hx; exact absurd hx (by decide)
  · exact absurd hx.1 List.not_mem_nil

end Fresh

theorem Booted.inv {c : Config} (h : Booted c) : Inv c := by
  obtain ⟨hf, hm⟩ := h.fresh
  exact ⟨⟨hf.sound, hf.context.running, .inl ⟨hm, hf.kReenter⟩⟩, hf.context.on_iff (by simp [hm])⟩

variable {c₀ c : Config} {ok : Config → Nat × Event → Prop} {P : Config → Prop}

/-- The machine is consistent as long as the kernel thread leaves its port alone. -/
theorem reach_consistent (h : Reach step NoStrayCycle c₀ c) (h₀ : Booted c₀) : Consistent c :=
  h.inv h₀.inv.toConsistent fun _ _ _ hi hok hs => hi.step hok hs

/-- The invariant holds in every run in which the launch path is not interrupted either. -/
theorem reach_inv (h : Reach step KeepsContexts c₀ c) (h₀ : Booted c₀) : Inv c :=
  h.inv h₀.inv fun _ _ _ hi hok hs => hi.step hok hs

theorem reach_regular (h : Reach step Regular c₀ c) (h₀ : Booted c₀) : Inv c :=
  reach_inv (h.mono fun _ _ => Regular.keeps) h₀

/-- The invariant rule for a property that is kept in states with `Inv`. -/
theorem reach_keeps (h : Reach step ok c₀ c) (h₀ : Booted c₀) (hok : ∀ c e, ok c e → KeepsContexts c e) (hstart : P c₀)
    (hstep : ∀ c e c', Inv c → P c → ok c e → step c e = some c' → P c') : P c := by
  refine (h.inv (P := fun c => Inv c ∧ P c) ⟨h₀.inv, hstart⟩ ?_).2
  rintro c e c' ⟨hi, hp⟩ he hs
  exact ⟨hi.step (hok c e he) hs, hstep c e c' hi hp he hs⟩

/-! ### A concrete machine -/

/-- Zeroed memory with `sys_base` at 4096. -/
def zeroSys : Sys where
  mem := fun _ => 0
  thread := fun _ => zeroThread
  msgBuf := fun _ _ => 0
  text := fun _ => []
  user := fun _ => 0
  sysBase := 4096
  kernelThread := 0
  sysFlags := 0
  runningThread := 0
  kReenter := 0
  stdTsQuantum := 0
  tsCurrCount := 0
  forbidCounter := 0
  actPageDirectory := 0
  systemTick := 0
  esp := 0
  cr3 := 0
  esp0 := 0
  blocks := [(4096, sizeofSysBase)]
  created := []
  log := []

/-- The machine booted from it, with the kernel thread at 8192. -/
def bootZero : Config := ⟨(zeroSys.init 4096 0 8192 40000).getD zeroSys, .ring3⟩

theorem bootZero_booted : Booted bootZero :=
  ⟨zeroSys, 4096, 0, 8192, 40000, by decide, rfl, rfl, rfl, rfl, rfl⟩

/-- Memory in which the block of the kernel thread, as `kmalloc` returns it, has the kernel thread itself as the head
of `message_list` and, as the node behind that, the word in front of `thread_ready`. -/
def straySys : Sys :=
  { zeroSys with mem := fun a => if a = 8192 then 4180 else if a = 8272 then 8192 else if a = 8276 then 8280 else 0 }

/-- The machine booted from it. -/
def bootStray : Config := ⟨(straySys.init 4096 0 8192 40000).getD straySys, .ring3⟩

theorem bootStray_booted : Booted bootStray :=
  ⟨straySys, 4096, 0, 8192, 40000, by decide, rfl, rfl, rfl, rfl, rfl⟩

/-- `create_thread` of a privileged thread at `p`. -/
def create (p : Nat) (pri : Word) : Nat × Event :=
  (8, .create p (p + 200) ⟨p, 0, 0, 50000, 60000, [], 0, pri⟩)

/-- An interrupt handler that posts four bytes to `t`. -/
def post (t p : Nat) : Nat × Event := (8, .irq (.device [.post t p (fun _ => 65) 4]))

def call (eax ebx : Word) : Nat × Event := (8, .syscall eax ebx)

def tick : Nat × Event := (8, .irq .timer)

/-- The loop of `switch_threads` goes on behind `hlt`; if it ends there, the handlers run in front of the decrement of
`k_reenter`. -/
def wakeWith (hs : List Handler) : Nat × Event := (8, .wake ⟨[], [], [], hs, []⟩)

end Krypton
