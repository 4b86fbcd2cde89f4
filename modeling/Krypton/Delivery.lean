import Krypton.ExecListRun
import Krypton.PortCount

/-!
# What a port delivers

The payloads posted to a thread are those of the events of the run (`sent`), and the messages it has deleted are the
ones its calls of `_msg_cycle` found at the head of its list (`removed`). `_msg_post` and `_msg_cycle` log the same
(`step_history`), so the law of the port, which is about the log, is one about the run (`port_fifo`).
-/

namespace Krypton

open Sys

variable {c c' c₀ : Config} {t : Nat} {e : Nat × Event} {es : List (Nat × Event)}

/-- The payloads the events post to `t`, oldest first. -/
def sent (t : Nat) (es : List (Nat × Event)) : List (List Byte) := es.flatMap fun e => e.2.sent t

/-- The buffers `t` deletes in the run from `c`, oldest first. -/
def removed (t : Nat) : Config → List (Nat × Event) → List Buf
  | _, [] => []
  | c, e :: es => c.removes t e.2 ++ (step c e).elim [] fun c' => removed t c' es

/-- One step adds to the history of `t` what its event posts and removes. -/
theorem step_history (hi : Consistent c) (hok : NoStrayCycle c e) (hs : step c e = some c') :
    posted t c'.sys.log = posted t c.sys.log ++ e.2.sent t ∧
      cycled t c'.sys.log = cycled t c.sys.log ++ c.removes t e.2 := by
  obtain ⟨fuel, ev⟩ := e
  by_cases hcreate : ∃ p q a, ev = .create p q a
  · obtain ⟨p, q, a, rfl⟩ := hcreate
    cases step_cases hs with
    | create hm hc =>
      obtain ⟨-, -, m', -, rfl⟩ := createThread_cases hc
      exact ⟨(List.append_nil _).symm, (List.append_nil _).symm⟩
  · have htally := step_tally (t := t) hi hok (fun p q a he => absurd ⟨p, q, a, he⟩ hcreate) hs
    exact ⟨htally.posted, htally.cycled⟩

theorem exec_history (hi : Consistent c₀) (hm : Meets step NoStrayCycle c₀ es) (h : exec step c₀ es = some c) :
    posted t c.sys.log = posted t c₀.sys.log ++ sent t es ∧
      cycled t c.sys.log = cycled t c₀.sys.log ++ removed t c₀ es := by
  induction es generalizing c₀ with
  | nil =>
    obtain rfl := Option.some.inj h
    exact ⟨(List.append_nil _).symm, (List.append_nil _).symm⟩
  | cons e es ih =>
    obtain ⟨c₁, h1, h2⟩ := Option.bind_eq_some_iff.1 h
    obtain ⟨hp, hc⟩ := step_history (t := t) hi hm.1 h1
    obtain ⟨hps, hcs⟩ := ih (hi.step hm.1 h1) (hm.2 c₁ h1) h2
    have hsent : sent t (e :: es) = e.2.sent t ++ sent t es := List.flatMap_cons
    have hremoved : removed t c₀ (e :: es) = c₀.removes t e.2 ++ removed t c₁ es := by
      show c₀.removes t e.2 ++ (step c₀ e).elim [] _ = _
      rw [h1]
      rfl
    rw [hps, hp, hcs, hc, hsent, hremoved, List.append_assoc, List.append_assoc]
    exact ⟨rfl, rfl⟩

/-- The first of the buffers that are left begins with the first payload that is left. -/
theorem head_left {bufs rest : List Buf} {ps : List (List Byte)} (h : List.Forall₂ Matches (bufs ++ rest) ps) :
    Option.Rel Matches rest.head? (ps.drop bufs.length).head? := by
  have hd := List.forall₂_drop bufs.length h
  rw [List.drop_left] at hd
  generalize ps.drop bufs.length = left at hd
  cases hd with
  | nil => exact .none
  | cons hab _ => exact .some hab

/-- **Message ports are loss-free FIFOs.** In every run, the buffers that a created thread has deleted and then those of
the messages on its list are the payloads posted to it, in order. `_msg_retrieve` returns the message with the oldest
payload that is not deleted, or `NULL` if there is none, and removes nothing; an oversized post and a `_msg_cycle` on an
empty port change nothing. -/
theorem port_fifo (hm : Meets step NoStrayCycle c₀ es) (h : exec step c₀ es = some c) (h₀ : Booted c₀)
    (ht : t ∈ c.sys.created) :
    ∃ q, Holds c.sys.mem (messageList t) q ∧
      List.Forall₂ Matches (removed t c₀ es ++ q.map c.sys.msgBuf) (sent t es) ∧
      Option.Rel Matches (q.map c.sys.msgBuf).head? ((sent t es).drop (removed t c₀ es).length).head? ∧
      (q.headD 0 = 0 ↔ q = []) ∧
      (c.sys.runningThread = t → ∀ ptr,
        (c.sys.msgRetrieve ptr).user ptr = BitVec.ofNat 32 (q.headD 0) ∧
        (c.sys.msgRetrieve ptr).mem = c.sys.mem ∧ (c.sys.msgRetrieve ptr).msgBuf = c.sys.msgBuf ∧
        (c.sys.msgRetrieve ptr).blocks = c.sys.blocks) ∧
      (∀ fuel p src (bufSz : BitVec 16), bufSz.toNat > maxMsgSz →
        c.sys.msgPost fuel t p src bufSz = some c.sys) ∧
      (c.sys.runningThread = t → q = [] → c.sys.msgCycle = c.sys) := by
  have hi := reach_consistent (reach_exec_meets hm h) h₀
  obtain ⟨q, hq⟩ := hi.sound.ports
  obtain ⟨σ, hrep, -, hσ⟩ := hq.rep
  obtain ⟨hp, hc⟩ := exec_history (t := t) h₀.inv.toConsistent hm h
  rw [h₀.fresh.1.log] at hp hc
  have hfifo := (hq.law t ht).fifo
  rw [hp, hc] at hfifo
  refine ⟨q t, hrep.holds (hσ t ht), hfifo, head_left hfifo, ⟨fun h0 => ?_, fun hnil => by rw [hnil]; rfl⟩,
    fun hr ptr => ⟨?_, rfl, rfl, rfl⟩, fun fuel p src bufSz hsz => if_pos hsz, fun hr hnil => ?_⟩
  · cases hqt : q t with
    | nil => rfl
    | cons p ps =>
      rw [hqt] at h0
      exact absurd h0 (hq.ne_zero ht p (by rw [hqt]; exact List.mem_cons_self ..))
  · show (if ptr = ptr then BitVec.ofNat 32 (getHead c.sys.mem (messageList c.sys.runningThread)) else _) = _
    rw [if_pos rfl, hr, hq.getHead ht]
  · exact msgCycle_nil hq (hr ▸ ht) (hr ▸ hnil)

/-- Two posts to a thread that waits, one while the processor idles and one when the loop has ended; it takes the first
message. -/
def delivery : List (Nat × Event) :=
  [create 12288 15, (8, .permit)] ++ List.replicate 11 tick ++
    [call 0 1, call 0 1, post 12288 14000, wakeWith [.device [.post 12288 14200 (fun _ => 66) 2]], call 2 50100, call 3 0]

def deliveredTo : Config := (exec step bootZero delivery).getD bootZero

theorem port_fifo_deliveredTo : ∃ q, Holds deliveredTo.sys.mem (messageList 12288) q ∧
    List.Forall₂ Matches (removed 12288 bootZero delivery ++ q.map deliveredTo.sys.msgBuf) [[65, 65, 65, 65], [66, 66]] ∧
    (removed 12288 bootZero delivery).length = 1 := by
  have hsome : (exec step bootZero delivery).isSome := by decide +kernel
  have hmeets : Meets step NoStrayCycle bootZero delivery := by decide +kernel
  obtain ⟨q, h1, h2, -⟩ :=
    port_fifo hmeets (exec_getD bootZero hsome) bootZero_booted (t := 12288) (by decide +kernel)
  have hsent : sent 12288 delivery = [[65, 65, 65, 65], [66, 66]] := by rfl
  rw [hsent] at h2
  exact ⟨q, h1, h2, by decide +kernel⟩

end Krypton
