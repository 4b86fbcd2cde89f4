import Krypton.Gates
import Krypton.Lib.Pic

/-!
# `idt.c`, `panic.c`: the interrupt controllers

The kernel with the two controllers: the writes of `init_idt`, the ends of interrupt of `irq_handler` and the masks of
`panic`. Devices raise lines at any time; the processor takes an interrupt in ring 3, in the idle loop, on the way from
there to ring 3 and in the last loop of `panic`, and ring-3 code may execute any `int n` between, also those whose stub
ends an interrupt that is not there. In every run nothing is in service when interrupts are on, so a request waits only
for those before it (`requests_served`); after a panic a key reboots unless the panic was in the handler of the keyboard
(`reboots_iff`).
-/

namespace Krypton

/-- The writes of `init_idt`. -/
def initIdtPorts : List (Nat × Byte) :=
  [(0x20, 0x11), (0xA0, 0x11), (0x21, 0x20), (0xA1, 0x28), (0x21, 0x04), (0xA1, 0x02), (0x21, 0x01), (0xA1, 0x01),
    (0x21, 0x0), (0xA1, 0x0)]

/-- The writes of `irq_handler`. -/
def irqPorts (intNo : Nat) : List (Nat × Byte) := (if intNo ≥ 40 then [(0xA0, 0x20)] else []) ++ [(0x20, 0x20)]

/-- The writes behind the handler of a stub: `idt_handler` makes none. -/
def stubPorts : Stub → List (Nat × Byte)
  | .isr _ => []
  | .irq n => irqPorts (Stub.irq n).intNo

/-- The writes of `panic`. -/
def panicPorts : List (Nat × Byte) := [(0x21, 0xFD), (0xA1, 0xFF)]

/-- A line is raised by its device, or its interrupt is taken. -/
inductive Line
  | raised (n : Nat)
  | taken (n : Nat)

/-- The line has been raised since it was last taken. -/
def Waiting (n : Nat) : List Line → Prop
  | [] => False
  | .raised m :: l => m = n ∨ Waiting n l
  | .taken m :: l => m ≠ n ∧ Waiting n l

instance decidableWaiting (n : Nat) : ∀ l, Decidable (Waiting n l)
  | [] => isFalse id
  | .raised m :: l =>
    have := decidableWaiting n l
    inferInstanceAs (Decidable (m = n ∨ Waiting n l))
  | .taken m :: l =>
    have := decidableWaiting n l
    inferInstanceAs (Decidable (m ≠ n ∧ Waiting n l))

structure Board where
  kernel : Kernel
  pics : Pics
  /-- History, newest first. -/
  log : List Line
  /-- The line whose handler panicked, if it was a line's. -/
  panickedIn : Option Nat
  /-- `keyboard_reset_on_panic` has been called. -/
  rebooted : Bool

inductive IrqEvent
  | raise (n : Nat)
  | interrupt (fuel : Nat) (r : Regs)
  /-- An `int n` of ring-3 code, or its fault `n`. -/
  | softInt (fuel : Nat) (n : Byte) (r : Regs)
  /-- Ring-3 code does anything else. -/
  | code (sys : Sys)
  /-- `hlt` in the idle loop ends: the loop goes on, is on its way out, or has led to ring 3. -/
  | wake (c : Config)

namespace Board

/-- Behind a stub: the kernel has panicked, or the entry ends with the writes `ports` and goes back to `mode`. -/
def finish (b : Board) (k : Kernel) (mode : Mode) (ports : List (Nat × Byte)) (line : Option Nat) : Board :=
  if k.panicked then
    { b with kernel := { k with mode := .kernel }, pics := b.pics.outbs panicPorts, panickedIn := line }
  else { b with kernel := { k with toConfig := k.sys.dispatch mode }, pics := b.pics.outbs ports }

/-- `irq_handler` behind the stub of vector `v`. -/
def take (b : Board) (fuel : Nat) (r : Regs) (v : Nat) : Option Board :=
  if b.kernel.panicked then
    -- the one handler left is that of the keyboard
    if v = 33 then some { b with rebooted := true } else none
  else
    let k := if b.kernel.mode = .ring3 then b.kernel.setSys b.kernel.sys.trap else b.kernel
    (k.irqHandler fuel v r).map fun k => b.finish k b.kernel.mode (irqPorts v) (some (v - 32))

def step (b : Board) : IrqEvent → Option Board
  | .raise n =>
    if n < 16 ∧ n ≠ 2 then some { b with pics := b.pics.raise n, log := .raised n :: b.log } else none
  | .interrupt fuel r =>
    if b.kernel.panicked ∨ b.kernel.mode ≠ .kernel then
      b.pics.inta.bind fun a => take { b with pics := a.2, log := .taken (a.1 - 32) :: b.log } fuel r a.1
    else none
  | .softInt fuel n r =>
    if b.kernel.panicked = false ∧ b.kernel.mode = .ring3 then do
      let stub ← (entryGate n.toNat).base
      let k ← (b.kernel.setSys b.kernel.sys.trap).runStub fuel r stub
      some (b.finish k .ring3 (stubPorts stub) none)
    else none
  | .code sys =>
    if b.kernel.panicked = false ∧ b.kernel.mode = .ring3 then some { b with kernel := b.kernel.setSys sys } else none
  | .wake c =>
    if b.kernel.panicked = false ∧ b.kernel.mode = .idle ∧ c.mode ≠ .kernel then
      some { b with kernel := { b.kernel with toConfig := c } }
    else none

/-- The board behind `init_idt`, whatever the controllers were doing before. -/
structure Started (b : Board) : Prop where
  pics : ∃ p : Pics, b.pics = p.outbs initIdtPorts
  log : b.log = []
  panicked : b.kernel.panicked = false
  rebooted : b.rebooted = false

/-! ### The ports -/

section
variable {p : Pics} {n : Nat}

theorem Pics.outbs_irqPorts (p : Pics) (n : Nat) : p.outbs (irqPorts (32 + n)) = p.eoi n := by
  unfold irqPorts Pics.eoi
  by_cases hn : n < 8
  · rw [if_neg (by omega), if_pos hn]
    rfl
  · rw [if_pos (by omega), if_neg hn]
    rfl

/-- The lines of the master and of the slave in service while line `n` is. -/
def serviceLine (n : Nat) : Nat := if n < 8 then n else 2

end

/-- The writes of `init_idt` give the vectors 32 to 47 to the lines, whatever the controllers were doing. -/
structure Wired (p : Pics) : Prop where
  master : p.master.base = 0x20
  slave : p.slave.base = 0x28

theorem Wired.vector {p : Pics} (h : Wired p) (n : Nat) : p.vector n = 32 + n := by
  unfold Pics.vector Pic.vector
  rw [h.master, h.slave]
  split_ifs
  · rfl
  · show 40 + (n - 8) = _
    omega

theorem initIdtPorts_open (p : Pics) :
    (p.outbs initIdtPorts).Open ∧ Wired (p.outbs initIdtPorts) ∧ ∀ n, (p.outbs initIdtPorts).pending n = false := by
  refine ⟨⟨⟨rfl, rfl, fun i => ?_, fun i => rfl⟩, ⟨rfl, rfl, fun i => ?_, fun i => rfl⟩, rfl, rfl, rfl⟩, ⟨rfl, rfl⟩,
    fun n => ?_⟩
  · exact BitVec.getLsbD_zero ..
  · exact BitVec.getLsbD_zero ..
  · unfold Pics.pending
    split_ifs <;> rfl

/-- Before a panic. -/
structure Quiet (b : Board) : Prop where
  panicked : b.kernel.panicked = false
  rebooted : b.rebooted = false
  pics : b.pics.Open
  wired : Wired b.pics
  waiting : ∀ n < 16, n ≠ 2 → (b.pics.pending n = true ↔ Waiting n b.log)

/-- After one: the keyboard's line is open, and what was in service stays in service. -/
structure Halted (b : Board) : Prop where
  panicked : b.kernel.panicked = true
  wired : Wired b.pics
  cascade : b.pics.master.cascade = 4
  masterMask : ∀ i < 8, b.pics.master.imr i = decide (i ≠ 1)
  slaveMask : ∀ i < 8, b.pics.slave.imr i = true
  service : b.rebooted = false → ∀ i < 8, (b.pics.master.isr i = true ↔ b.panickedIn.map serviceLine = some i)
  line : ∀ n ∈ b.panickedIn, n ≠ 0 ∧ n ≠ 2

theorem Started.quiet {b : Board} (h : b.Started) : Quiet b := by
  obtain ⟨⟨p, hp⟩, hlog, hpan, hre⟩ := h
  obtain ⟨hopen, hwired, hpend⟩ := initIdtPorts_open p
  refine ⟨hpan, hre, hp ▸ hopen, hp ▸ hwired, fun n _ _ => ?_⟩
  rw [hp, hpend, hlog]
  exact iff_of_false (by simp) id

/-! ### The steps -/

section
variable {b b' : Board} {fuel n v : Nat} {r : Regs} {k k' : Kernel} {e : IrqEvent}

theorem panicPorts_halts (p : Pics) (hm : p.master.expects = []) (hs : p.slave.expects = []) :
    let p' := p.outbs panicPorts
    (∀ i < 8, p'.master.imr i = decide (i ≠ 1)) ∧ (∀ i < 8, p'.slave.imr i = true) ∧
      p'.master.isr = p.master.isr ∧ p'.master.cascade = p.master.cascade ∧ p'.master.base = p.master.base ∧
      p'.slave.base = p.slave.base := by
  have hdata : ∀ (q : Pic) (v : Byte), q.expects = [] → q.data v = { q with imr := fun i => v.getLsbD i } := by
    intro q v hq
    unfold Pic.data
    rw [hq]
  have hp : p.outbs panicPorts = { master := p.master.data 0xFD, slave := p.slave.data 0xFF } := rfl
  have hbits : ∀ i : Fin 8, (0xFD : Byte).getLsbD i = decide (i.val ≠ 1) ∧ (0xFF : Byte).getLsbD i = true := by decide
  dsimp only
  rw [hp, hdata _ _ hm, hdata _ _ hs]
  exact ⟨fun i hi => (hbits ⟨i, hi⟩).1, fun i hi => (hbits ⟨i, hi⟩).2, rfl, rfl, rfl, rfl⟩

/-- A panic from a state where only the line `n` is in service, or none. -/
theorem finish_halts {line : Option Nat} (b : Board) (hk : k.panicked = true) (hw : Wired b.pics)
    (hm : b.pics.master.expects = []) (hs : b.pics.slave.expects = []) (hc : b.pics.master.cascade = 4)
    (hisr : ∀ i < 8, (b.pics.master.isr i = true ↔ line.map serviceLine = some i)) (hl : ∀ n ∈ line, n ≠ 0 ∧ n ≠ 2)
    (mode : Mode) (ports : List (Nat × Byte)) : Halted (b.finish k mode ports line) := by
  obtain ⟨h1, h2, h3, h4, h5, h6⟩ := panicPorts_halts b.pics hm hs
  unfold finish
  rw [if_pos hk]
  exact ⟨hk, ⟨h5.trans hw.master, h6.trans hw.slave⟩, h4.trans hc, h1, h2, fun _ i hi => by rw [h3]; exact hisr i hi, hl⟩

theorem timer_returns (h : k.irqHandler fuel 32 r = some k') : k'.panicked = k.panicked := by
  have hcall : (k.setSys k.sys.enter).call "Unhandled hardware interrupt.\n" fuel r (some .timerCallback) = some k' := h
  obtain ⟨k₁, h1, h2⟩ := Kernel.call_some hcall
  obtain rfl := Option.some.inj h1
  unfold Kernel.reschedule at h2
  split_ifs at h2 with hp
  · exact Option.some.inj h2 ▸ rfl
  · obtain ⟨s, -, rfl⟩ := Option.map_eq_some_iff.1 h2
    rfl

namespace Quiet

/-- What the processor is told: the first waiting line, and its vector. -/
theorem inta (h : Quiet b) :
    b.pics.inta = (Pics.order.find? b.pics.pending).map fun n => (32 + n, b.pics.ack n) := by
  rw [h.pics.inta]
  simp only [h.wired.vector]

theorem find_waiting (h : Quiet b) :
    Pics.order.find? b.pics.pending = Pics.order.find? fun n => decide (Waiting n b.log) := by
  refine List.find?_congr fun n hn => ?_
  obtain ⟨h16, h2⟩ := Pics.mem_order.1 hn
  exact Bool.eq_iff_iff.2 ((h.waiting n h16 h2).trans decide_eq_true_iff.symm)

theorem raise (h : Quiet b) (h2 : n ≠ 2) : Quiet { b with pics := b.pics.raise n, log := .raised n :: b.log } := by
  refine ⟨h.panicked, h.rebooted, h.pics.raise h2, ?_, fun m hm h2m => ?_⟩
  · show Wired (b.pics.raise n)
    unfold Pics.raise
    split_ifs <;> exact ⟨h.wired.master, h.wired.slave⟩
  · show (b.pics.raise n).pending m = true ↔ n = m ∨ Waiting m b.log
    rw [Pics.pending_raise, ← h.waiting m hm h2m]
    by_cases he : m = n
    · rw [if_pos he]
      exact iff_of_true rfl (.inl he.symm)
    · rw [if_neg he]
      exact ⟨.inr, fun hx => hx.resolve_left fun hn => he hn.symm⟩

theorem drop (h : Quiet b) (h2 : n ≠ 2) : Quiet { b with pics := b.pics.drop n, log := .taken n :: b.log } := by
  refine ⟨h.panicked, h.rebooted, h.pics.drop h2, ?_, fun m hm h2m => ?_⟩
  · show Wired (b.pics.drop n)
    unfold Pics.drop
    split_ifs <;> exact ⟨h.wired.master, h.wired.slave⟩
  · show (b.pics.drop n).pending m = true ↔ n ≠ m ∧ Waiting m b.log
    rw [Pics.pending_drop, ← h.waiting m hm h2m]
    by_cases he : m = n
    · rw [if_pos he]
      exact iff_of_false (by simp) fun hx => hx.1 he.symm
    · rw [if_neg he]
      exact ⟨fun hx => ⟨fun hn => he hn.symm, hx⟩, And.right⟩

theorem ofKernel (h : Quiet b) (hk : k.panicked = false) : Quiet { b with kernel := k } :=
  ⟨hk, h.rebooted, h.pics, h.wired, h.waiting⟩

theorem interrupt (h : Quiet b) (hn : n ∈ Pics.order)
    (ht : take { b with pics := b.pics.ack n, log := .taken n :: b.log } fuel r (32 + n) = some b') :
    Quiet b' ∨ Halted b' := by
  obtain ⟨h16, h2⟩ := Pics.mem_order.1 hn
  unfold take at ht
  rw [if_neg (by rw [h.panicked]; simp)] at ht
  obtain ⟨k', hk', rfl⟩ := Option.map_eq_some_iff.1 ht
  cases hp : k'.panicked with
  | false =>
    left
    unfold finish
    rw [if_neg (by rw [hp]; simp)]
    dsimp only
    rw [Pics.outbs_irqPorts, h.pics.ack_eoi h16]
    exact (h.drop h2).ofKernel hp
  | true =>
    right
    have hack : Wired (b.pics.ack n) ∧ (b.pics.ack n).master.expects = [] ∧ (b.pics.ack n).slave.expects = [] ∧
        (b.pics.ack n).master.cascade = 4 ∧
        ∀ i < 8, ((b.pics.ack n).master.isr i = true ↔ some (serviceLine n) = some i) := by
      have hisr : ∀ j i, (b.pics.master.ack j).isr i = true ↔ some j = some i := by
        intro j i
        show Function.update b.pics.master.isr j (!b.pics.master.autoEoi) i = true ↔ _
        rw [h.pics.master.autoEoi, Function.update_apply, h.pics.master.isr, Option.some.injEq]
        split_ifs with he
        · exact iff_of_true rfl he.symm
        · exact iff_of_false (by simp) fun hx => he hx.symm
      unfold Pics.ack serviceLine
      split_ifs
      · exact ⟨⟨h.wired.master, h.wired.slave⟩, h.pics.master.expects, h.pics.slave.expects, h.pics.masterCascade,
          fun i _ => hisr _ i⟩
      · exact ⟨⟨h.wired.master, h.wired.slave⟩, h.pics.master.expects, h.pics.slave.expects, h.pics.masterCascade,
          fun i _ => hisr _ i⟩
    obtain ⟨hw, hm, hs, hc, hisr⟩ := hack
    refine finish_halts _ hp hw hm hs hc ?_ ?_ _ _
    · rw [Nat.add_sub_cancel_left]
      exact hisr
    · rw [Nat.add_sub_cancel_left]
      intro m hm
      obtain rfl := Option.some.inj hm
      refine ⟨fun h0 => ?_, h2⟩
      subst h0
      have hret := timer_returns hk'
      rw [hp] at hret
      have hk : b.kernel.panicked = false := h.panicked
      split_ifs at hret
      · exact Bool.noConfusion (hret.trans hk)
      · exact Bool.noConfusion (hret.trans hk)

end Quiet

theorem Quiet.step (h : Quiet b) (hs : b.step e = some b') : Quiet b' ∨ Halted b' := by
  cases e with
  | raise n =>
    obtain ⟨⟨-, h2⟩, he⟩ := Option.ite_none_right_eq_some.1 hs
    exact .inl (Option.some.inj he ▸ h.raise h2)
  | interrupt fuel r =>
    obtain ⟨-, he⟩ := Option.ite_none_right_eq_some.1 hs
    obtain ⟨⟨v, p⟩, ha, ht⟩ := Option.bind_eq_some_iff.1 he
    rw [h.inta] at ha
    obtain ⟨n, hn, heq⟩ := Option.map_eq_some_iff.1 ha
    obtain ⟨rfl, rfl⟩ := Prod.mk.inj heq
    dsimp only at ht
    rw [Nat.add_sub_cancel_left] at ht
    exact h.interrupt (List.mem_of_find?_eq_some hn) ht
  | softInt fuel n r =>
    obtain ⟨-, he⟩ := Option.ite_none_right_eq_some.1 hs
    obtain ⟨stub, -, he⟩ := Option.bind_eq_some_iff.1 he
    obtain ⟨k', -, he⟩ := Option.bind_eq_some_iff.1 he
    obtain rfl := Option.some.inj he
    cases hp : k'.panicked with
    | true =>
      refine .inr (finish_halts b hp h.wired h.pics.master.expects h.pics.slave.expects h.pics.masterCascade
        (fun i _ => ?_) (by simp) _ _)
      rw [h.pics.master.isr]
      exact iff_of_false (by simp) (by simp)
    | false =>
      left
      unfold finish
      rw [if_neg (by rw [hp]; simp)]
      -- a forged end of interrupt ends nothing
      have hports : b.pics.outbs (stubPorts stub) = b.pics := by
        cases stub with
        | isr n => rfl
        | irq n => exact (Pics.outbs_irqPorts b.pics n).trans (h.pics.eoi n)
      rw [hports]
      exact h.ofKernel hp
  | code sys =>
    obtain ⟨hm, he⟩ := Option.ite_none_right_eq_some.1 hs
    exact .inl (Option.some.inj he ▸ h.ofKernel hm.1)
  | wake c =>
    obtain ⟨hm, he⟩ := Option.ite_none_right_eq_some.1 hs
    exact .inl (Option.some.inj he ▸ h.ofKernel hm.1)

theorem Halted.step (h : Halted b) (hs : b.step e = some b') : Halted b' := by
  have hp : ¬ b.kernel.panicked = false := by rw [h.panicked]; simp
  cases e with
  | raise n =>
    obtain ⟨-, he⟩ := Option.ite_none_right_eq_some.1 hs
    obtain rfl := Option.some.inj he
    obtain ⟨h1, h2, h3, h4, h5, h6, h7⟩ := h
    unfold Pics.raise
    split_ifs <;> exact ⟨h1, ⟨h2.master, h2.slave⟩, h3, h4, h5, h6, h7⟩
  | interrupt fuel r =>
    obtain ⟨-, he⟩ := Option.ite_none_right_eq_some.1 hs
    obtain ⟨⟨v, p⟩, ha, ht⟩ := Option.bind_eq_some_iff.1 he
    unfold take at ht
    rw [if_pos h.panicked] at ht
    obtain ⟨-, ht⟩ := Option.ite_none_right_eq_some.1 ht
    obtain rfl := Option.some.inj ht
    obtain ⟨i, -, ha⟩ := Option.bind_eq_some_iff.1 ha
    have hkeep : (p.master.base = b.pics.master.base ∧ p.master.cascade = b.pics.master.cascade ∧
        p.master.imr = b.pics.master.imr) ∧ p.slave.base = b.pics.slave.base ∧ p.slave.imr = b.pics.slave.imr := by
      split_ifs at ha
      · obtain ⟨j, -, ha⟩ := Option.map_eq_some_iff.1 ha
        obtain rfl := (Prod.mk.inj ha).2
        exact ⟨⟨rfl, rfl, rfl⟩, rfl, rfl⟩
      · obtain rfl := (Prod.mk.inj (Option.some.inj ha)).2
        exact ⟨⟨rfl, rfl, rfl⟩, rfl, rfl⟩
    obtain ⟨⟨hb, hc, hi⟩, hb', hi'⟩ := hkeep
    refine ⟨h.panicked, ⟨hb.trans h.wired.master, hb'.trans h.wired.slave⟩, hc.trans h.cascade, fun j hj => ?_,
      fun j hj => ?_, fun hx => Bool.noConfusion hx, h.line⟩
    · rw [← h.masterMask j hj, ← hi]
    · rw [← h.slaveMask j hj, ← hi']
  | softInt fuel n r => exact absurd (Option.ite_none_right_eq_some.1 hs).1.1 hp
  | code sys => exact absurd (Option.ite_none_right_eq_some.1 hs).1.1 hp
  | wake c => exact absurd (Option.ite_none_right_eq_some.1 hs).1.1 hp

theorem quiet_or_halted {b₀ : Board} (h₀ : b₀.Started) (hr : Reach step (fun _ _ => True) b₀ b) :
    Quiet b ∨ Halted b :=
  hr.inv (P := fun b => Quiet b ∨ Halted b) (.inl h₀.quiet) fun _ _ _ hi _ hs =>
    hi.elim (fun h => h.step hs) fun h => .inr (h.step hs)

/-- When interrupts are on nothing is in service: the processor is told of the first line that waits, and its vector leads
to the stub of that line. No request is lost, and none is served twice. -/
theorem requests_served {b₀ : Board} (h₀ : b₀.Started) (hr : Reach step (fun _ _ => True) b₀ b)
    (hp : b.kernel.panicked = false) :
    (∀ i, b.pics.master.isr i = false ∧ b.pics.slave.isr i = false) ∧
      b.pics.inta.map Prod.fst = (Pics.order.find? fun n => decide (Waiting n b.log)).map (32 + ·) ∧
      ∀ a ∈ b.pics.inta, (initIdt a.1).base = some (.irq (a.1 - 32)) := by
  have hq : Quiet b := (quiet_or_halted h₀ hr).resolve_right fun h => by
    rw [h.panicked] at hp
    exact Bool.noConfusion hp
  refine ⟨fun i => ⟨hq.pics.master.isr i, hq.pics.slave.isr i⟩, ?_, fun a ha => ?_⟩
  · rw [hq.inta, Option.map_map, hq.find_waiting]
    rfl
  · rw [hq.inta] at ha
    obtain ⟨n, hn, rfl⟩ := Option.map_eq_some_iff.1 ha
    obtain ⟨h16, -⟩ := Pics.mem_order.1 (List.mem_of_find?_eq_some hn)
    have hall : ∀ n : Fin 16, (initIdt (32 + n)).base = some (.irq n) := by decide +kernel
    show (initIdt (32 + n)).base = some (.irq (32 + n - 32))
    rw [Nat.add_sub_cancel_left]
    exact hall ⟨n, h16⟩

theorem serviceLine_eq_one : serviceLine n = 1 ↔ n = 1 := by
  unfold serviceLine
  split_ifs <;> omega

/-- The keyboard's request after a panic. -/
theorem Halted.key (h : Halted b) (hre : b.rebooted = false) :
    (b.pics.raise 1).inta.map Prod.fst = if b.panickedIn = some 1 then none else some 33 := by
  set m := (b.pics.raise 1).driven with hm
  have hisr : ∀ i < 8, (m.isr i = true ↔ b.panickedIn.map serviceLine = some i) := h.service hre
  have himr : ∀ i < 8, m.imr i = decide (i ≠ 1) := h.masterMask
  have hirr : m.irr 1 = true := rfl
  have h0 : (m.isr 0 || (m.irr 0 && !m.imr 0)) = false := by
    have hs : ¬ m.isr 0 = true := by
      rw [hisr 0 (by omega)]
      intro hx
      obtain ⟨n, hn, he⟩ := Option.map_eq_some_iff.1 hx
      obtain ⟨hn0, -⟩ := h.line n hn
      unfold serviceLine at he
      split_ifs at he
      exact hn0 he
    rw [himr 0 (by omega), Bool.eq_false_iff.2 hs]
    simp
  have h1 : (m.isr 1 || (m.irr 1 && !m.imr 1)) = true := by
    rw [himr 1 (by omega), hirr]
    simp
  have hreq : m.request = if b.panickedIn = some 1 then none else some 1 := by
    have hfind : (Pic.lines.find? fun i => m.isr i || (m.irr i && !m.imr i)) = some 1 := by
      show (0 :: 1 :: List.range' 2 6).find? _ = _
      rw [List.find?_cons, h0, List.find?_cons, h1]
    have h11 : m.isr 1 = true ↔ b.panickedIn = some 1 := by
      rw [hisr 1 (by omega), Option.map_eq_some_iff]
      constructor
      · rintro ⟨n, hn, he⟩
        rw [hn, serviceLine_eq_one.1 he]
      · exact fun hx => ⟨1, hx, rfl⟩
    unfold Pic.request
    rw [hfind]
    by_cases hx : b.panickedIn = some 1
    · rw [if_pos hx, Option.filter_some, h11.2 hx]
      rfl
    · rw [if_neg hx, Option.filter_some, Bool.eq_false_iff.2 fun hy => hx (h11.1 hy)]
      rfl
  have hcas : (b.pics.raise 1).cascaded 1 = false := by
    have hc : (b.pics.raise 1).master.cascade = 4 := h.cascade
    unfold Pics.cascaded
    rw [hc]
    rfl
  have hvec : (b.pics.raise 1).master.vector 1 = 33 := by
    have hb : (b.pics.raise 1).master.base = 0x20 := h.wired.master
    unfold Pic.vector
    rw [hb]
    rfl
  unfold Pics.inta
  rw [hreq]
  by_cases hx : b.panickedIn = some 1
  · rw [if_pos hx, if_pos hx]
    rfl
  · rw [if_neg hx, if_neg hx, Option.bind_some, hcas, if_neg (by simp), Option.map_some, hvec]

/-- "Press any key to reboot!": after a panic a key does so unless the panic was in the handler of the keyboard, which has
not ended its interrupt. -/
theorem reboots_iff {b₀ : Board} (h₀ : b₀.Started) (hr : Reach step (fun _ _ => True) b₀ b)
    (hp : b.kernel.panicked = true) (hre : b.rebooted = false) :
    (∃ b' fuel r b'', b.step (.raise 1) = some b' ∧ b'.step (.interrupt fuel r) = some b'' ∧ b''.rebooted = true) ↔
      b.panickedIn ≠ some 1 := by
  have hh : Halted b := (quiet_or_halted h₀ hr).resolve_left fun h => by
    rw [h.panicked] at hp
    exact Bool.noConfusion hp
  have hkey := hh.key hre
  constructor
  · rintro ⟨b', fuel, r, b'', h1, h2, -⟩ hx
    obtain rfl := Option.some.inj h1
    obtain ⟨-, h2⟩ := Option.ite_none_right_eq_some.1 h2
    obtain ⟨a, ha, -⟩ := Option.bind_eq_some_iff.1 h2
    rw [if_pos hx] at hkey
    exact absurd (hkey.symm.trans (congrArg (Option.map Prod.fst) ha)) (by simp)
  · intro hx
    rw [if_neg hx] at hkey
    obtain ⟨⟨v, p⟩, ha, rfl⟩ := Option.map_eq_some_iff.1 hkey
    refine ⟨_, 0, ⟨0, 0, [], [], 0, 0⟩, { b with pics := p, log := .taken 1 :: .raised 1 :: b.log, rebooted := true },
      rfl, ?_, rfl⟩
    refine (if_pos (.inl hp)).trans ?_
    show Option.bind (b.pics.raise 1).inta _ = _
    rw [ha, Option.bind_some]
    exact (if_pos hp).trans (if_pos rfl)

end

/-! ### A board -/

/-- Controllers with all lines masked and in service. -/
def wildPic : Pic := ⟨0x08, 0, true, [.mode], fun _ => true, fun _ => true, fun _ => true⟩

def bootBoard : Board :=
  ⟨⟨bootZero, ⟨fun _ => 0, 0, 0, 0, fun _ => 0, []⟩, false⟩, Pics.outbs ⟨wildPic, wildPic⟩ initIdtPorts, [], none, false⟩

theorem bootBoard_started : bootBoard.Started := ⟨⟨⟨wildPic, wildPic⟩, rfl⟩, rfl, rfl, rfl⟩

/-- Lines 5 and 12 are raised. -/
def raisedBoard : Board := (exec step bootBoard [.raise 5, .raise 12]).getD bootBoard

/-- Line 12 is the slave's, and comes first. -/
theorem requests_served_raised : raisedBoard.pics.inta.map Prod.fst = some 44 :=
  (requests_served bootBoard_started (reach_exec (exec_getD bootBoard rfl)) rfl).2.1.trans (by decide)

/-- A key is pressed, and there is no thread to send it to. -/
def keyless : List IrqEvent := [.raise 1, .interrupt 8 ⟨0, 0, [], [], 30, 0⟩]

def keylessBoard : Board := (exec step bootBoard keyless).getD bootBoard

theorem reboots_iff_keyless : ¬ ∃ b' fuel r b'', keylessBoard.step (.raise 1) = some b' ∧
    b'.step (.interrupt fuel r) = some b'' ∧ b''.rebooted = true := by
  have hrun : exec step bootBoard keyless = some keylessBoard := exec_getD bootBoard (by rfl)
  have hin : keylessBoard.panickedIn = some 1 := by rfl
  exact fun h => (reboots_iff bootBoard_started (reach_exec hrun) (by rfl) (by rfl)).1 h hin

end Board
end Krypton
