import Krypton.Context

/-!
# The words of `sys_base` that no handler writes

Between the first line of a handler and the dispatcher `k_reenter`, `forbid_counter` and `std_ts_quantum` stay as
they are, in every state; `NEED_TASK_SWITCH` is set by `wait` and by `schedule` only.
-/

namespace Krypton
namespace Sys

structure Steady (s s' : Sys) : Prop where
  kReenter : s'.kReenter = s.kReenter := by rfl
  forbid : s'.forbidCounter = s.forbidCounter := by rfl
  quantum : s'.stdTsQuantum = s.stdTsQuantum := by rfl

variable {s s' s'' : Sys} {fuel t p : Nat} {eax ebx flags : Word}

theorem Steady.refl (s : Sys) : Steady s s := {}

theorem Steady.trans (h : Steady s s') (h' : Steady s' s'') : Steady s s'' :=
  ⟨h'.kReenter.trans h.kReenter, h'.forbid.trans h.forbid, h'.quantum.trans h.quantum⟩

theorem signal_steady (h : s.signal fuel t flags = some s') : Steady s s' := by
  rcases signal_cases h with ⟨-, rfl⟩ | ⟨-, m', -, rfl⟩
  · exact .refl _
  · exact {}

theorem msgPost_steady {src : Buf} {bufSz : BitVec 16} (h : s.msgPost fuel t p src bufSz = some s') :
    Steady s s' := by
  rcases msgPost_cases h with ⟨-, rfl⟩ | ⟨-, s₁, h1, h2⟩
  · exact .refl _
  · obtain ⟨-, -, rfl⟩ := kmalloc_cases h1
    obtain ⟨hk, hf, hq⟩ := signal_steady h2
    exact ⟨hk, hf, hq⟩

theorem msgCycle_steady (s : Sys) : Steady s s.msgCycle := by
  unfold msgCycle
  dsimp only
  split_ifs
  · exact {}
  · exact {}

theorem timerCallback_steady (s : Sys) : Steady s s.timerCallback := by
  obtain ⟨tick, count, flags, he⟩ := timerCallback_eq s
  rw [he]
  exact {}

theorem waitForFlags_steady (h : s.waitForFlags fuel flags = some s') : Steady s s' := by
  obtain ⟨m', -, rfl⟩ := waitForFlags_cases h
  exact {}

theorem syscall_steady (h : s.syscall fuel eax ebx = some s') : Steady s s' := by
  unfold Sys.syscall at h
  split_ifs at h
  · cases h; exact .refl _
  · exact waitForFlags_steady h
  · cases h; exact .refl _
  · cases h; exact {}
  · cases h; exact s.msgCycle_steady
  · cases h; exact .refl _

theorem schedule_steady (h : s.schedule fuel = some s') : Steady s s' := by
  have hrequeue : s.requeue fuel = some s' → Steady s s' := by
    intro hr
    obtain ⟨m', -, rfl⟩ := requeue_cases hr
    exact {}
  unfold Sys.schedule at h
  split_ifs at h
  · cases h; exact .refl _
  · exact hrequeue h
  · exact hrequeue h
  · cases h; exact .refl _

theorem reschedule_steady (h : s.reschedule fuel = some s') : Steady s s' := by
  unfold Sys.reschedule at h
  split_ifs at h
  · obtain ⟨hk, hf, hq⟩ := schedule_steady h
    exact ⟨hk, hf, hq⟩
  · cases h; exact .refl _

theorem act_steady {a : Act} (hk : s.InHandler) (h : s.act fuel a = some s') : Steady s s' := by
  cases a with
  | post t p src bufSz => exact msgPost_steady (Option.ite_none_right_eq_some.1 h).2
  | signal t flags => exact signal_steady (Option.ite_none_right_eq_some.1 h).2
  | print =>
    cases (nestedPrint_eq hk).symm.trans h
    exact .refl _

theorem InHandler.steady (hk : s.InHandler) (h : Steady s s') : s'.InHandler := by
  unfold InHandler
  rw [h.kReenter]
  exact hk

theorem acts_steady {as : List Act} (hk : s.InHandler) (h : s.acts fuel as = some s') : Steady s s' := by
  induction as generalizing s with
  | nil => cases h; exact .refl _
  | cons a as ih =>
    obtain ⟨s₁, h1, h2⟩ := Option.bind_eq_some_iff.1 h
    have h3 := act_steady hk h1
    exact h3.trans (ih (hk.steady h3) h2)

theorem handle_steady {d : Handler} (hk : s.InHandler) (h : s.handle fuel d = some s') : Steady s s' := by
  cases d with
  | timer => cases h; exact s.timerCallback_steady
  | device as => exact acts_steady hk h

theorem idtHandler_steady (h : s.idtHandler fuel eax ebx = some s') : Steady s.enter s' := by
  obtain ⟨s₁, h1, h2⟩ := Option.bind_eq_some_iff.1 h
  exact (syscall_steady h1).trans (reschedule_steady h2)

theorem irqHandler_steady {d : Handler} (hk : s.enter.InHandler) (h : s.irqHandler fuel d = some s') :
    Steady s.enter s' := by
  obtain ⟨s₁, h1, h2⟩ := Option.bind_eq_some_iff.1 h
  exact (handle_steady hk h1).trans (reschedule_steady h2)

end Sys
end Krypton
