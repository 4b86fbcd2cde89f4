import Mathlib.Data.List.Basic

/-!
# Computations that note what they do

A `Traced` computation on states `σ` returns a value, a state and the list of what it noted on the way. The simp set
takes the three apart over `pure`, `>>=` and `if`; `Noting` is a single action with its note.

A `Stopping` one may end early, with a reason. `Follows` says that a `Stopping` computation does what a `Traced` one
does, on related states, as long as what is noted is good; it composes along `>>=`.
-/

namespace Krypton

def Traced (σ ε α : Type) : Type := σ → α × σ × List ε

namespace Traced
variable {σ ε α β : Type} {s : σ}

def val (w : Traced σ ε α) (s : σ) : α := (w s).1
def state (w : Traced σ ε α) (s : σ) : σ := (w s).2.1
def notes (w : Traced σ ε α) (s : σ) : List ε := (w s).2.2

instance : Monad (Traced σ ε) where
  pure a := fun s => (a, s, [])
  bind w f := fun s => ((f (w.val s)).val (w.state s), (f (w.val s)).state (w.state s),
    w.notes s ++ (f (w.val s)).notes (w.state s))

/-- One action, noted as `e`. -/
def Noting (e : ε) (f : σ → α × σ) : Traced σ ε α := fun s => ((f s).1, (f s).2, [e])

/-- One action that is not noted. -/
def Silent (f : σ → α × σ) : Traced σ ε α := fun s => ((f s).1, (f s).2, [])

variable {w w' : Traced σ ε α} {f : α → Traced σ ε β} {g : σ → α × σ}

-- In brackets, or `simp` takes these for definitional and leaves the instance of an `if` behind its condition.
@[simp] theorem val_pure (a : α) : (pure a : Traced σ ε α).val s = a := (rfl)
@[simp] theorem state_pure (a : α) : (pure a : Traced σ ε α).state s = s := (rfl)
@[simp] theorem notes_pure (a : α) : (pure a : Traced σ ε α).notes s = [] := (rfl)

@[simp] theorem val_bind : (w >>= f).val s = (f (w.val s)).val (w.state s) := (rfl)
@[simp] theorem state_bind : (w >>= f).state s = (f (w.val s)).state (w.state s) := (rfl)
@[simp] theorem notes_bind : (w >>= f).notes s = w.notes s ++ (f (w.val s)).notes (w.state s) := (rfl)

@[simp] theorem val_silent : (Silent g : Traced σ ε α).val s = (g s).1 := (rfl)
@[simp] theorem state_silent : (Silent g : Traced σ ε α).state s = (g s).2 := (rfl)
@[simp] theorem notes_silent : (Silent g : Traced σ ε α).notes s = [] := (rfl)

@[simp] theorem val_ite {c : Prop} [Decidable c] : (if c then w else w').val s = if c then w.val s else w'.val s :=
  apply_ite (val · s) c w w'

@[simp] theorem state_ite {c : Prop} [Decidable c] :
    (if c then w else w').state s = if c then w.state s else w'.state s :=
  apply_ite (state · s) c w w'

@[simp] theorem notes_ite {c : Prop} [Decidable c] :
    (if c then w else w').notes s = if c then w.notes s else w'.notes s :=
  apply_ite (notes · s) c w w'

theorem forall_notes_bind {P : ε → Prop} : (∀ x ∈ (w >>= f).notes s, P x) ↔
    (∀ x ∈ w.notes s, P x) ∧ ∀ x ∈ (f (w.val s)).notes (w.state s), P x := by
  rw [notes_bind, List.forall_mem_append]

end Traced

/-! ### Computations that may stop -/

/-- One that may stop early, for a reason in `ρ`. -/
abbrev Stopping (σ ε ρ : Type) : Type → Type := ExceptT ρ (Traced σ ε)

namespace Stopping
variable {σ τ ε ρ α β : Type} {s : σ} {t t' : τ} {a : α} {r : ρ} {ns : List ε}

theorem bind_ok {w : Stopping τ ε ρ α} {f : α → Stopping τ ε ρ β} (h : w t = (.ok a, t', ns)) :
    (w >>= f) t = ((f a t').1, (f a t').2.1, ns ++ (f a t').2.2) := by
  simp only [bind, ExceptT.bind, ExceptT.mk, ExceptT.bindCont, Traced.val, Traced.state, Traced.notes, h]

theorem bind_error {w : Stopping τ ε ρ α} {f : α → Stopping τ ε ρ β} (h : w t = (.error r, t', ns)) :
    (w >>= f) t = (.error r, t', ns) := by
  simp only [bind, ExceptT.bind, ExceptT.mk, ExceptT.bindCont, Traced.val, Traced.state, Traced.notes, h]
  simp only [pure, List.append_nil]

/-- What is noted by a sequence is noted by its first part or, where that does not stop, by its second. -/
theorem notes_bind {w : Stopping τ ε ρ α} {f : α → Stopping τ ε ρ β} {P : ε → Prop} (hw : ∀ t, ∀ x ∈ (w t).2.2, P x)
    (hf : ∀ a t, ∀ x ∈ (f a t).2.2, P x) (t : τ) : ∀ x ∈ ((w >>= f) t).2.2, P x := by
  have hn := hw t
  rcases h : w t with ⟨r | a, t', ns⟩
  · rw [h] at hn
    rw [bind_error h]
    exact hn
  · rw [h] at hn
    rw [bind_ok h]
    intro x hx
    exact (List.mem_append.1 hx).elim (hn x) (hf _ _ x)

theorem mem_bind {w : Stopping τ ε ρ α} (f : α → Stopping τ ε ρ β) {t : τ} {x : ε} (hx : x ∈ (w t).2.2) :
    x ∈ ((w >>= f) t).2.2 := by
  rcases h : w t with ⟨r | a, t', ns⟩
  · rw [h] at hx
    rw [bind_error h]
    exact hx
  · rw [h] at hx
    rw [bind_ok h]
    exact List.mem_append_left _ hx

end Stopping

/-- `w'` does what `w` does, on states that `R` relates, where all that `w` notes is `good`. -/
def Follows {σ τ ε ρ α : Type} (good : ε → Prop) (R : σ → τ → Prop) (w : Traced σ ε α) (w' : Stopping τ ε ρ α) : Prop :=
  ∀ s t, R s t → (∀ x ∈ w.notes s, good x) →
    ∃ t', w' t = (.ok (w.val s), t', w.notes s) ∧ R (w.state s) t'

namespace Follows
variable {σ τ ε ρ α β : Type} {good : ε → Prop} {R : σ → τ → Prop} {w w₁ : Traced σ ε α} {w' w₁' : Stopping τ ε ρ α}

theorem pure (a : α) : Follows good R (Pure.pure a : Traced σ ε α) (Pure.pure a : Stopping τ ε ρ α) :=
  fun _ t hR _ => ⟨t, rfl, hR⟩

theorem bind {f : α → Traced σ ε β} {f' : α → Stopping τ ε ρ β} (h : Follows good R w w')
    (hf : ∀ a, Follows good R (f a) (f' a)) : Follows good R (w >>= f) (w' >>= f') := by
  intro s t hR hgood
  rw [Traced.notes_bind] at hgood
  obtain ⟨t₁, h1, hR₁⟩ := h s t hR fun x hx => hgood x (List.mem_append_left _ hx)
  obtain ⟨t₂, h2, hR₂⟩ := hf (w.val s) (w.state s) t₁ hR₁ fun x hx => hgood x (List.mem_append_right _ hx)
  refine ⟨t₂, ?_, hR₂⟩
  rw [Stopping.bind_ok h1, h2, Traced.val_bind, Traced.notes_bind]

/-- One part at a time, where what follows is told from the state it starts in. -/
theorem andThen {γ : Type} {f : α → Traced σ ε γ} {f' : α → Stopping τ ε ρ β} {s : σ} {t : τ} {o : Except ρ β}
    {P : τ → Prop} (h : Follows good R w w') (hR : R s t) (hgood : ∀ x ∈ w.notes s, good x)
    (hf : ∀ t', R (w.state s) t' → ∃ u, f' (w.val s) t' = (o, u, (f (w.val s)).notes (w.state s)) ∧ P u) :
    ∃ u, (w' >>= f') t = (o, u, (w >>= f).notes s) ∧ P u := by
  obtain ⟨t', h1, hR'⟩ := h s t hR hgood
  obtain ⟨u, h2, hP⟩ := hf t' hR'
  refine ⟨u, ?_, hP⟩
  rw [Stopping.bind_ok h1, h2, Traced.notes_bind]

theorem ite {c : Prop} [Decidable c] (h : Follows good R w w') (h' : Follows good R w₁ w₁') :
    Follows good R (if c then w else w₁) (if c then w' else w₁') := by
  split_ifs
  · exact h
  · exact h'

end Follows
end Krypton
