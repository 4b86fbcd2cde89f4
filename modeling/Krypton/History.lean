import Krypton.Message
import Mathlib.Data.List.Forall2

/-!
# Reading the history

What the log of a run says about one thread: the payloads posted to its port and the messages it
has deleted there, both in order, whether it has been dispatched, and the stack pointer stored when
it was last switched out. `PortLaw` and `DispatchLaw` are the laws of a whole log.
-/

namespace Krypton

/-- The thread an entry is about. -/
def Ev.thread : Ev → Nat
  | .save t _ | .dispatch t .. | .block t | .post t _ | .retrieve t _ | .cycle t _ => t

/-- The buffer begins with the payload. -/
def Matches (buf : Buf) (payload : List Byte) : Prop := ∀ i (h : i < payload.length), buf i = payload[i]

/-- The payloads posted to `t`, oldest first. -/
def posted (t : Nat) : List Ev → List (List Byte)
  | [] => []
  | .post t' p :: l => posted t l ++ if t' = t then [p] else []
  | _ :: l => posted t l

/-- The buffers `t` has deleted, oldest first. -/
def cycled (t : Nat) : List Ev → List Buf
  | [] => []
  | .cycle t' b :: l => cycled t l ++ if t' = t then [b] else []
  | _ :: l => cycled t l

def Dispatched (t : Nat) : List Ev → Prop
  | [] => False
  | .dispatch t' .. :: l => t' = t ∨ Dispatched t l
  | _ :: l => Dispatched t l

instance decidableDispatched (t : Nat) : ∀ l, Decidable (Dispatched t l)
  | [] => isFalse id
  | .dispatch t' .. :: l =>
    have := decidableDispatched t l
    inferInstanceAs (Decidable (t' = t ∨ Dispatched t l))
  | .save .. :: l | .block _ :: l | .post .. :: l | .retrieve .. :: l | .cycle .. :: l =>
    decidableDispatched t l

/-- The stack pointer stored when `t` was last switched out; `none` if it runs since. -/
def lastOut (t : Nat) : List Ev → Option Word
  | [] => none
  | .save t' esp :: l => if t' = t then some esp else lastOut t l
  | .dispatch t' .. :: l => if t' = t then none else lastOut t l
  | _ :: l => lastOut t l

/-- Every dispatch of `t` went the right way: by the launch path exactly the first time, if
`create_thread` made it, and else with the stack pointer of its last switch, in both cases with the
page directory `pd`. -/
def DispatchLaw (t : Nat) (made : Prop) (pd : Word) : List Ev → Prop
  | [] => True
  | .dispatch t' launch esp cr3 :: l =>
    (t' = t → (launch = true ↔ made ∧ ¬ Dispatched t l) ∧
      (launch = false → lastOut t l = some esp) ∧ cr3 = pd) ∧ DispatchLaw t made pd l
  | _ :: l => DispatchLaw t made pd l

section
variable {t : Nat} {l es : List Ev} {e : Ev}

theorem posted_of_ne (h : e.thread ≠ t) : posted t (e :: l) = posted t l := by
  cases e <;> simp_all [posted, Ev.thread]

theorem cycled_of_ne (h : e.thread ≠ t) : cycled t (e :: l) = cycled t l := by
  cases e <;> simp_all [cycled, Ev.thread]

theorem absent (made : Prop) (pd : Word) (h : ∀ e ∈ l, e.thread ≠ t) :
    posted t l = [] ∧ cycled t l = [] ∧ ¬ Dispatched t l ∧ DispatchLaw t made pd l := by
  induction l with
  | nil => exact ⟨rfl, rfl, id, trivial⟩
  | cons e l ih =>
    obtain ⟨he, hl⟩ := List.forall_mem_cons.1 h
    obtain ⟨h1, h2, h3, h4⟩ := ih hl
    refine ⟨(posted_of_ne he).trans h1, (cycled_of_ne he).trans h2, ?_, ?_⟩
    · cases e <;> simp_all [Dispatched, Ev.thread]
    · cases e <;> simp_all [DispatchLaw, Ev.thread]

end

/-- Entries of the message ports and of the wait list: the dispatcher wrote none of them. -/
def Ev.Quiet : Ev → Prop
  | .save .. | .dispatch .. => False
  | _ => True

section
variable {t : Nat} {es : List Ev}

theorem quiet_append (l : List Ev) (made : Prop) (pd : Word) (h : ∀ e ∈ es, e.Quiet) :
    (Dispatched t (es ++ l) ↔ Dispatched t l) ∧ lastOut t (es ++ l) = lastOut t l ∧
      (DispatchLaw t made pd (es ++ l) ↔ DispatchLaw t made pd l) := by
  induction es with
  | nil => exact ⟨Iff.rfl, rfl, Iff.rfl⟩
  | cons e es ih =>
    obtain ⟨he, hes⟩ := List.forall_mem_cons.1 h
    cases e <;> first | exact he.elim | exact ih hes

end

/-! ### The law of one port -/

/-- The law of a port that holds the buffers `bufs`: what was deleted and what is there are the
payloads posted, in order. -/
structure PortLaw (t : Nat) (bufs : List Buf) (l : List Ev) : Prop where
  fifo : List.Forall₂ Matches (cycled t l ++ bufs) (posted t l)

namespace PortLaw
variable {t : Nat} {bufs : List Buf} {buf : Buf} {l : List Ev} {e : Ev} {payload : List Byte}

theorem post (h : PortLaw t bufs l) (hm : Matches buf payload) :
    PortLaw t (bufs ++ [buf]) (.post t payload :: l) where
  fifo := by
    simp only [posted, cycled, if_true]
    rw [← List.append_assoc]
    exact List.rel_append h.fifo (.cons hm .nil)

theorem cycle (h : PortLaw t (buf :: bufs) l) : PortLaw t bufs (.cycle t buf :: l) where
  fifo := by
    simp only [posted, cycled, if_true]
    rw [List.append_assoc]
    exact h.fifo

theorem retrieved (h : PortLaw t bufs l) (t' : Nat) (b : Option Buf) : PortLaw t bufs (.retrieve t' b :: l) := ⟨h.fifo⟩

theorem other (h : PortLaw t bufs l) (he : e.thread ≠ t) : PortLaw t bufs (e :: l) where
  fifo := by rw [posted_of_ne he, cycled_of_ne he]; exact h.fifo

end PortLaw

end Krypton
