import Mathlib.Logic.Basic

/-!
# Runs of a partial step function

`Reach step ok s₀ s`: `s` is reached from `s₀` by steps that all meet `ok`. `exec` runs a list of
events; every state it returns is reached (`reach_exec_meets`). `Reach.inv` is the invariant rule, and
`Reach.mono` weakens the condition on the steps. Where the condition on a step is exactly that it keeps a property,
`always_iff_meets` says the same of runs.
-/

namespace Krypton

variable {σ ε : Type*} {step : σ → ε → Option σ} {ok ok' : σ → ε → Prop} {s₀ s s' : σ}

/-- The states reached from `s₀` by steps `e` taken in states `s` with `ok s e`. -/
inductive Reach (step : σ → ε → Option σ) (ok : σ → ε → Prop) (s₀ : σ) : σ → Prop
  | start : Reach step ok s₀ s₀
  | next {s s' : σ} (e : ε) : Reach step ok s₀ s → ok s e → step s e = some s' → Reach step ok s₀ s'

/-- The state after a list of events, `none` if one of them cannot happen. -/
def exec (step : σ → ε → Option σ) : σ → List ε → Option σ
  | s, [] => some s
  | s, e :: es => (step s e).bind fun s' => exec step s' es

theorem exec_getD {es : List ε} (d : σ) (h : (exec step s es).isSome) :
    exec step s es = some ((exec step s es).getD d) := by
  obtain ⟨s', hs⟩ := Option.isSome_iff_exists.1 h
  rw [hs]
  rfl

theorem exec_append (es es' : List ε) :
    exec step s (es ++ es') = (exec step s es).bind fun s' => exec step s' es' := by
  induction es generalizing s with
  | nil => rfl
  | cons e es ih => simp only [List.cons_append, exec, ih, Option.bind_assoc]

/-- Every event of the list meets `ok` in the state it is taken in. -/
def Meets (step : σ → ε → Option σ) (ok : σ → ε → Prop) : σ → List ε → Prop
  | _, [] => True
  | s, e :: es => ok s e ∧ ∀ s', step s e = some s' → Meets step ok s' es

instance decidableMeets [∀ s e, Decidable (ok s e)] : ∀ s es, Decidable (Meets step ok s es)
  | _, [] => isTrue trivial
  | s, e :: es =>
    match h : step s e with
    | none => decidable_of_iff (ok s e) ⟨fun hok => ⟨hok, by simp [h]⟩, And.left⟩
    | some s' =>
      have := decidableMeets s' es
      decidable_of_iff (ok s e ∧ Meets step ok s' es) (by simp [Meets, h])

theorem Meets.mono {es : List ε} (h : Meets step ok s es) (hok : ∀ s e, ok s e → ok' s e) : Meets step ok' s es := by
  induction es generalizing s with
  | nil => trivial
  | cons e es ih => exact ⟨hok s e h.1, fun s' hs => ih (h.2 s' hs)⟩

/-- The property holds in every state of the run. -/
def Always (step : σ → ε → Option σ) (P : σ → Prop) : σ → List ε → Prop
  | s, [] => P s
  | s, e :: es => P s ∧ ∀ s', step s e = some s' → Always step P s' es

theorem Always.head {P : σ → Prop} {es : List ε} (h : Always step P s es) : P s := by
  cases es with
  | nil => exact h
  | cons e es => exact h.1

theorem always_iff_meets {I P : σ → Prop} {es : List ε} (hI : ∀ s e s', I s → P s → P s' → step s e = some s' → I s')
    (hP : ∀ s e s', I s → P s → step s e = some s' → (P s' ↔ ok s e)) (hi : I s) (hs : P s)
    (h : exec step s es = some s') : Always step P s es ↔ Meets step ok s es := by
  induction es generalizing s with
  | nil => exact iff_of_true hs trivial
  | cons e es ih =>
    obtain ⟨s₁, hs₁, hes⟩ := Option.bind_eq_some_iff.1 h
    have hok := hP s e s₁ hi hs hs₁
    constructor
    · rintro ⟨-, hall⟩
      have hp := (hall s₁ hs₁).head
      have hi₁ := hI s e s₁ hi hs hp hs₁
      refine ⟨hok.1 hp, fun s₂ hs₂ => ?_⟩
      obtain rfl := Option.some.inj (hs₁.symm.trans hs₂)
      exact (ih hi₁ hp hes).1 (hall s₁ hs₁)
    · rintro ⟨hoke, hall⟩
      refine ⟨hs, fun s₂ hs₂ => ?_⟩
      obtain rfl := Option.some.inj (hs₁.symm.trans hs₂)
      have hp := hok.2 hoke
      exact (ih (hI s e s₁ hi hs hp hs₁) hp hes).2 (hall s₁ hs₁)

namespace Reach

/-- The invariant rule: what holds at the start and is kept by every allowed step always holds. -/
theorem inv {P : σ → Prop} (h : Reach step ok s₀ s) (h₀ : P s₀)
    (hstep : ∀ s e s', P s → ok s e → step s e = some s' → P s') : P s := by
  induction h with
  | start => exact h₀
  | next e _ hok hs ih => exact hstep _ e _ ih hok hs

theorem mono (h : Reach step ok s₀ s) (hok : ∀ s e, ok s e → ok' s e) : Reach step ok' s₀ s := by
  induction h with
  | start => exact .start
  | next e _ he hs ih => exact ih.next e (hok _ _ he) hs

theorem trans {s₁ : σ} (h : Reach step ok s₀ s₁) (h' : Reach step ok s₁ s) : Reach step ok s₀ s := by
  induction h' with
  | start => exact h
  | next e _ he hs ih => exact ih.next e he hs

end Reach

theorem reach_exec_meets {es : List ε} (hm : Meets step ok s es) (h : exec step s es = some s') :
    Reach step ok s s' := by
  induction es generalizing s with
  | nil => cases h; exact .start
  | cons e es ih =>
    obtain ⟨s₁, hs₁, hes⟩ := Option.bind_eq_some_iff.1 h
    exact (Reach.start.next e hm.1 hs₁).trans (ih (hm.2 s₁ hs₁) hes)

theorem reach_exec_forall {es : List ε} {p : ε → Prop} (hp : ∀ e ∈ es, p e) (h : exec step s es = some s') :
    Reach step (fun _ e => p e) s s' := by
  refine reach_exec_meets ?_ h
  clear h
  induction es generalizing s with
  | nil => trivial
  | cons e es ih =>
    obtain ⟨he, hes⟩ := List.forall_mem_cons.1 hp
    exact ⟨he, fun _ _ => ih hes⟩

theorem reach_exec {es : List ε} (h : exec step s es = some s') : Reach step (fun _ _ => True) s s' :=
  reach_exec_forall (fun _ _ => trivial) h

end Krypton
