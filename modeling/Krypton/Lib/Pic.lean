import Mathlib.Data.BitVec
import Mathlib.Data.List.Find
import Mathlib.Logic.Function.Basic

/-!
# Two 8259A interrupt controllers

A controller has eight lines, line 0 first. A request stays in `irr` until it is acknowledged, then it is in service
(`isr`) until an end of interrupt, and as long as a line is in service no request of that line or a later one gets
through. The initialisation words, the mask and the unspecific end of interrupt are modelled; rotating priorities,
the specific end of interrupt, the special mask mode and polling are not, and the lines are edge triggered. The slave is
wired to line 2 of the master.
-/

namespace Krypton

/-- The initialisation words behind the first. -/
inductive Icw
  | base
  | cascade
  | mode
deriving DecidableEq

structure Pic where
  /-- The vector of line 0. -/
  base : BitVec 8
  cascade : BitVec 8
  autoEoi : Bool
  /-- The initialisation words still expected. -/
  expects : List Icw
  imr : Nat → Bool
  irr : Nat → Bool
  isr : Nat → Bool

namespace Pic

def lines : List Nat := List.range 8

/-- The unspecific end of interrupt takes the first line out of service. -/
def eoi (p : Pic) : Pic :=
  match lines.find? p.isr with
  | none => p
  | some i => { p with isr := Function.update p.isr i false }

/-- A write to the command port. -/
def command (p : Pic) (v : BitVec 8) : Pic :=
  if v.getLsbD 4 then
    { p with
      autoEoi := false
      expects := Icw.base :: ((if v.getLsbD 1 then [] else [Icw.cascade]) ++ if v.getLsbD 0 then [Icw.mode] else [])
      imr := fun _ => false
      irr := fun _ => false
      isr := fun _ => false }
  else if v = 0x20 then p.eoi
  else p

/-- A write to the data port. -/
def data (p : Pic) (v : BitVec 8) : Pic :=
  match p.expects with
  | [] => { p with imr := fun i => v.getLsbD i }
  | .base :: ws => { p with base := v &&& 0xF8, expects := ws }
  | .cascade :: ws => { p with cascade := v, expects := ws }
  | .mode :: ws => { p with autoEoi := v.getLsbD 1, expects := ws }

def raise (p : Pic) (i : Nat) : Pic := { p with irr := Function.update p.irr i true }

/-- The line whose request gets through. -/
def request (p : Pic) : Option Nat :=
  (lines.find? fun i => p.isr i || (p.irr i && !p.imr i)).filter fun i => !p.isr i

def ack (p : Pic) (i : Nat) : Pic :=
  { p with irr := Function.update p.irr i false, isr := Function.update p.isr i (!p.autoEoi) }

def vector (p : Pic) (i : Nat) : Nat := p.base.toNat + i

end Pic

structure Pics where
  master : Pic
  slave : Pic

namespace Pics

/-- Line 2 of the master is the slave's request. -/
def driven (p : Pics) : Pic := { p.master with irr := Function.update p.master.irr 2 p.slave.request.isSome }

/-- The slave answers on the line the master has it on. -/
def cascaded (p : Pics) (i : Nat) : Bool := p.master.cascade.getLsbD i && p.slave.cascade == BitVec.ofNat 8 i

def raise (p : Pics) (n : Nat) : Pics :=
  if n < 8 then { p with master := p.master.raise n } else { p with slave := p.slave.raise (n - 8) }

/-- The processor acknowledges an interrupt: its vector. -/
def inta (p : Pics) : Option (Nat × Pics) :=
  p.driven.request.bind fun i =>
    if p.cascaded i then
      p.slave.request.map fun j => (p.slave.vector j, { master := p.master.ack i, slave := p.slave.ack j })
    else some (p.master.vector i, { p with master := p.master.ack i })

def outb (p : Pics) (port : Nat) (v : BitVec 8) : Pics :=
  if port = 0x20 then { p with master := p.master.command v }
  else if port = 0x21 then { p with master := p.master.data v }
  else if port = 0xA0 then { p with slave := p.slave.command v }
  else if port = 0xA1 then { p with slave := p.slave.data v }
  else p

/-- One write after the other. -/
def outbs (p : Pics) (ws : List (Nat × BitVec 8)) : Pics := ws.foldl (fun p w => p.outb w.1 w.2) p

end Pics

/-! ### Nothing in service -/

namespace Pic

variable {p : Pic} {i : Nat}

/-- Nothing is in service and nothing is masked. -/
structure Open (p : Pic) : Prop where
  expects : p.expects = []
  autoEoi : p.autoEoi = false
  imr : ∀ i, p.imr i = false
  isr : ∀ i, p.isr i = false

theorem Open.request (h : p.Open) : p.request = lines.find? p.irr := by
  have hf : (fun i => p.isr i || (p.irr i && !p.imr i)) = p.irr := by
    funext i
    simp [h.isr, h.imr]
  unfold Pic.request
  rw [hf]
  cases hr : lines.find? p.irr with
  | none => rfl
  | some i => simp [h.isr]

/-- The end of interrupt does nothing where nothing is in service. -/
theorem Open.eoi (h : p.Open) : p.eoi = p := by
  unfold Pic.eoi
  rw [List.find?_eq_none.2 fun i _ => by simp [h.isr]]

theorem Open.ack_eoi (h : p.Open) (hi : i < 8) :
    (p.ack i).eoi = { p with irr := Function.update p.irr i false } := by
  have hisr : (p.ack i).isr = Function.update p.isr i true := by
    unfold ack
    rw [h.autoEoi]
    rfl
  have hfind : lines.find? (p.ack i).isr = some i := by
    rw [List.find?_eq_some_iff_getElem]
    refine ⟨by rw [hisr]; simp, i, by simpa [lines] using hi, by simp [lines], fun j hj => ?_⟩
    simp only [hisr, lines, List.getElem_range]
    rw [Function.update_of_ne (by omega), h.isr]
    rfl
  unfold Pic.eoi
  rw [hfind]
  have hback : Function.update (p.ack i).isr i false = p.isr := by
    rw [hisr]
    funext j
    by_cases hj : j = i
    · rw [hj, Function.update_self, h.isr]
    · rw [Function.update_of_ne hj, Function.update_of_ne hj]
  show { p.ack i with isr := Function.update (p.ack i).isr i false } = _
  rw [hback]
  rfl

theorem Open.of_irr (h : p.Open) (irr : Nat → Bool) : Open { p with irr := irr } :=
  ⟨h.expects, h.autoEoi, h.imr, h.isr⟩

end Pic

/-! ### The pair -/

namespace Pics

variable {p p' : Pics} {n v : Nat}

/-- The lines of the pair, the slave's behind the master's. -/
def pending (p : Pics) (n : Nat) : Bool := if n < 8 then p.master.irr n else p.slave.irr (n - 8)

/-- The lines of the pair, the first in service first. -/
def order : List Nat := [0, 1] ++ (Pic.lines.map (8 + ·) ++ [3, 4, 5, 6, 7])

theorem mem_order : n ∈ order ↔ n < 16 ∧ n ≠ 2 := by
  simp only [order, Pic.lines, List.mem_append, List.mem_cons, List.mem_map, List.mem_range, List.not_mem_nil, or_false]
  constructor
  · rintro ((h | h) | ⟨i, hi, rfl⟩ | h) <;> omega
  · intro h
    by_cases h8 : 8 ≤ n
    · exact .inr (.inl ⟨n - 8, by omega, by omega⟩)
    · omega

/-- Both controllers are open and the slave is where the master looks for it. -/
structure Open (p : Pics) : Prop where
  master : p.master.Open
  slave : p.slave.Open
  masterCascade : p.master.cascade = 4
  slaveCascade : p.slave.cascade = 2
  two : p.master.irr 2 = false

/-- The vector of a line of the pair. -/
def vector (p : Pics) (n : Nat) : Nat := if n < 8 then p.master.vector n else p.slave.vector (n - 8)

/-- The pair behind the acknowledgement of a line. -/
def ack (p : Pics) (n : Nat) : Pics :=
  if n < 8 then { p with master := p.master.ack n }
  else { master := p.master.ack 2, slave := p.slave.ack (n - 8) }

/-- The ends of interrupt for a line, at the slave first. -/
def eoi (p : Pics) (n : Nat) : Pics :=
  if n < 8 then { p with master := p.master.eoi }
  else { master := p.master.eoi, slave := p.slave.eoi }

/-- The request is gone. -/
def drop (p : Pics) (n : Nat) : Pics :=
  if n < 8 then { p with master := { p.master with irr := Function.update p.master.irr n false } }
  else { p with slave := { p.slave with irr := Function.update p.slave.irr (n - 8) false } }

namespace Open

theorem cascaded (h : p.Open) (hn : n < 8) : p.cascaded n = decide (n = 2) := by
  have hall : ∀ i : Fin 8, ((4 : BitVec 8).getLsbD i && (2 : BitVec 8) == BitVec.ofNat 8 i) = decide (i.val = 2) := by
    decide
  unfold Pics.cascaded
  rw [h.masterCascade, h.slaveCascade]
  exact hall ⟨n, hn⟩

/-- The first line with a request is the one the processor is told. -/
theorem inta (h : p.Open) : p.inta = (order.find? p.pending).map fun n => (p.vector n, p.ack n) := by
  have hslave : p.slave.request = Pic.lines.find? p.slave.irr := h.slave.request
  have hdriven : p.driven.request = Pic.lines.find? p.driven.irr := (h.master.of_irr _).request
  have hmaster : ∀ l : List Nat, (∀ i ∈ l, i < 8 ∧ i ≠ 2) → l.find? p.driven.irr = l.find? p.pending := by
    intro l hl
    refine List.find?_congr fun i hi => ?_
    obtain ⟨h8, h2⟩ := hl i hi
    have hirr : p.driven.irr i = p.master.irr i := Function.update_of_ne h2 ..
    unfold pending
    rw [if_pos h8, hirr]
  have htwo : [2].find? p.driven.irr = p.slave.request.map fun _ => 2 := by
    have hirr : p.driven.irr 2 = p.slave.request.isSome := by simp [driven]
    rw [List.find?_cons, hirr]
    cases p.slave.request <;> rfl
  have height : (Pic.lines.map (8 + ·)).find? p.pending = p.slave.request.map (8 + ·) := by
    rw [List.find?_map, hslave]
    refine congrArg _ (List.find?_congr fun i _ => ?_)
    show pending p (8 + i) = _
    unfold pending
    rw [if_neg (by omega), Nat.add_sub_cancel_left]
  -- a line of the master
  have hline : ∀ i, i < 8 → i ≠ 2 → (if p.cascaded i then
      p.slave.request.map fun j => (p.slave.vector j, ({ master := p.master.ack i, slave := p.slave.ack j } : Pics))
      else some (p.master.vector i, { p with master := p.master.ack i })) = some (p.vector i, p.ack i) := by
    intro i h8 h2
    rw [h.cascaded h8, if_neg (by simpa using h2)]
    unfold vector ack
    rw [if_pos h8, if_pos h8]
  unfold Pics.inta order
  rw [hdriven, List.find?_append, List.find?_append, height]
  unfold Pic.lines
  rw [show List.range 8 = [0, 1] ++ ([2] ++ [3, 4, 5, 6, 7]) from rfl, List.find?_append, List.find?_append,
    hmaster [0, 1] (by decide), hmaster [3, 4, 5, 6, 7] (by decide), htwo]
  cases hA : [0, 1].find? p.pending with
  | some i =>
    have hi : i ∈ [0, 1] := List.mem_of_find?_eq_some hA
    simp only [List.mem_cons, List.not_mem_nil, or_false] at hi
    exact hline i (by omega) (by omega)
  | none =>
    cases hs : p.slave.request with
    | some j =>
      have h2 : p.cascaded 2 = true := by rw [h.cascaded (by omega)]; rfl
      simp only [Option.none_or, Option.map_some, Option.some_or, Option.bind_some, h2, if_true]
      unfold vector ack
      rw [if_neg (by omega), if_neg (by omega), Nat.add_sub_cancel_left]
    | none =>
      cases hC : [3, 4, 5, 6, 7].find? p.pending with
      | none => rfl
      | some i =>
        have hi : i ∈ [3, 4, 5, 6, 7] := List.mem_of_find?_eq_some hC
        simp only [List.mem_cons, List.not_mem_nil, or_false] at hi
        have hl := hline i (by omega) (by omega)
        rw [hs] at hl
        exact hl

/-- A line that is acknowledged and ended is a request less, and nothing else. -/
theorem ack_eoi (h : p.Open) (hn : n < 16) : (p.ack n).eoi n = p.drop n := by
  unfold ack eoi drop
  by_cases h8 : n < 8
  · simp only [if_pos h8]
    rw [h.master.ack_eoi h8]
  · simp only [if_neg h8]
    rw [h.slave.ack_eoi (by omega), h.master.ack_eoi (by omega)]
    have hself : Function.update p.master.irr 2 false = p.master.irr := by
      rw [Function.update_eq_self_iff]
      exact h.two.symm
    rw [hself]

/-- The ends of interrupt of a line that is not in service do nothing. -/
theorem eoi (h : p.Open) (n : Nat) : p.eoi n = p := by
  unfold Pics.eoi
  rw [h.master.eoi, h.slave.eoi]
  split_ifs <;> rfl

theorem drop (h : p.Open) (h2 : n ≠ 2) : (p.drop n).Open := by
  unfold Pics.drop
  split_ifs
  · exact ⟨h.master.of_irr _, h.slave, h.masterCascade, h.slaveCascade,
      (Function.update_of_ne h2.symm ..).trans h.two⟩
  · exact ⟨h.master, h.slave.of_irr _, h.masterCascade, h.slaveCascade, h.two⟩

theorem raise (h : p.Open) (h2 : n ≠ 2) : (p.raise n).Open := by
  unfold Pics.raise
  split_ifs
  · exact ⟨h.master.of_irr _, h.slave, h.masterCascade, h.slaveCascade,
      (Function.update_of_ne h2.symm ..).trans h.two⟩
  · exact ⟨h.master, h.slave.of_irr _, h.masterCascade, h.slaveCascade, h.two⟩

end Open

theorem pending_update (p : Pics) (b : Bool) (n m : Nat) :
    pending (if n < 8 then { p with master := { p.master with irr := Function.update p.master.irr n b } }
      else { p with slave := { p.slave with irr := Function.update p.slave.irr (n - 8) b } }) m =
      if m = n then b else p.pending m := by
  unfold pending
  by_cases hn : n < 8
  · rw [if_pos hn]
    by_cases hm : m < 8
    · rw [if_pos hm, if_pos hm]
      exact Function.update_apply ..
    · rw [if_neg hm, if_neg hm, if_neg (by omega)]
  · rw [if_neg hn]
    by_cases hm : m < 8
    · rw [if_pos hm, if_pos hm, if_neg (by omega)]
    · rw [if_neg hm, if_neg hm]
      have hsub : m - 8 = n - 8 ↔ m = n := by omega
      simp only [Function.update_apply, hsub]

theorem pending_raise (p : Pics) (n m : Nat) : (p.raise n).pending m = if m = n then true else p.pending m :=
  pending_update p true n m

theorem pending_drop (p : Pics) (n m : Nat) : (p.drop n).pending m = if m = n then false else p.pending m :=
  pending_update p false n m

end Pics
end Krypton
