import Mathlib.Data.List.Chain
import Mathlib.Data.List.Nodup

/-!
# Doubly linked chains

A chain of addresses of any type, threaded through a forward map `nx` and a backward map `pv`:
`Linked nx pv l` says that neighbours in `l` point at each other. Linking a node in and unlinking
one change each map at two places; `Linked.link` and `Linked.unlink` are these two edits, and
`Linked.congr` moves a chain to maps that agree on it. A chain between two fixed ends is
determined by `nx` alone (`Linked.unique`).
-/

namespace Krypton

variable {α : Type*} {nx pv nx' pv' : α → α}

/-- Neighbours in `l` point at each other: `nx` forwards, `pv` backwards. -/
def Linked (nx pv : α → α) (l : List α) : Prop :=
  l.IsChain fun a b => nx a = b ∧ pv b = a

/-- A pair of neighbours of a duplicate-free list is met nowhere else in it. -/
theorem nodup_neighbours {l₁ l₂ : List α} {a b : α} (h : (l₁ ++ a :: b :: l₂).Nodup) :
    a ≠ b ∧ (∀ x ∈ l₁, x ≠ a ∧ x ≠ b) ∧ ∀ x ∈ l₂, x ≠ a ∧ x ≠ b := by
  grind

namespace Linked

theorem append_cons_cons {l₁ l₂ : List α} {a b : α} :
    Linked nx pv (l₁ ++ a :: b :: l₂) ↔
      Linked nx pv (l₁ ++ [a]) ∧ (nx a = b ∧ pv b = a) ∧ Linked nx pv (b :: l₂) :=
  List.isChain_append_cons_cons

/-- `nx` of every node but the last and `pv` of every node but the first are read. -/
theorem congr {l : List α} (h : Linked nx pv l) (hn : ∀ x ∈ l.dropLast, nx' x = nx x)
    (hp : ∀ x ∈ l.tail, pv' x = pv x) : Linked nx' pv' l := by
  rw [Linked, List.isChain_iff_forall_rel_of_append_cons_cons] at h ⊢
  intro a b l₁ l₂ heq
  obtain ⟨h1, h2⟩ := h heq
  refine ⟨(hn a ?_).trans h1, (hp b ?_).trans h2⟩
  · rw [heq, List.dropLast_append_of_ne_nil (by simp)]; simp
  · rw [heq]; cases l₁ <;> simp

theorem dropLast_seam {l₁ l₂ : List α} {a b : α} :
    (l₁ ++ a :: b :: l₂).dropLast = l₁ ++ a :: (b :: l₂).dropLast := by
  rw [List.dropLast_append_of_ne_nil (by simp), List.dropLast_cons_cons]

theorem mem_tail_seam {l₁ l₂ : List α} {a b x : α} (h : x ∈ (l₁ ++ [a]).tail ∨ x ∈ b :: l₂) :
    x ∈ (l₁ ++ a :: b :: l₂).tail := by
  cases l₁ <;> simp at h ⊢ <;> tauto

/-- The two halves of a chain survive a change that spares every pair but the one at the seam. -/
theorem halves {l₁ l₂ : List α} {a b : α} (hl : Linked nx pv (l₁ ++ [a])) (hr : Linked nx pv (b :: l₂))
    (hnd : (l₁ ++ a :: b :: l₂).Nodup)
    (hn : ∀ x ∈ (l₁ ++ a :: b :: l₂).dropLast, x ≠ a → nx' x = nx x)
    (hp : ∀ x ∈ (l₁ ++ a :: b :: l₂).tail, x ≠ b → pv' x = pv x) :
    Linked nx' pv' (l₁ ++ [a]) ∧ Linked nx' pv' (b :: l₂) := by
  obtain ⟨hab, h₁, h₂⟩ := nodup_neighbours hnd
  rw [dropLast_seam] at hn
  refine ⟨hl.congr (fun x hx => ?_) fun x hx => ?_, hr.congr (fun x hx => ?_) fun x hx => ?_⟩
  · rw [List.dropLast_concat] at hx
    exact hn x (by simp [hx]) (h₁ x hx).1
  · refine hp x (mem_tail_seam (.inl hx)) ?_
    rcases List.mem_append.1 (List.mem_of_mem_tail hx) with hx | hx
    · exact (h₁ x hx).2
    · rw [List.mem_singleton.1 hx]; exact hab
  · refine hn x (by simp [hx]) ?_
    rcases List.mem_cons.1 (List.dropLast_subset _ hx) with rfl | hx
    · exact hab.symm
    · exact (h₂ x hx).1
  · exact hp x (mem_tail_seam (.inr (List.mem_of_mem_tail hx))) (h₂ x hx).2

/-- Linking `n` in between the neighbours `a` and `b`. -/
theorem link {l₁ l₂ : List α} {a b n : α} (h : Linked nx pv (l₁ ++ a :: b :: l₂))
    (hnd : (l₁ ++ a :: b :: l₂).Nodup)
    (hn : ∀ x ∈ (l₁ ++ a :: b :: l₂).dropLast, x ≠ a → nx' x = nx x)
    (hp : ∀ x ∈ (l₁ ++ a :: b :: l₂).tail, x ≠ b → pv' x = pv x) (han : nx' a = n) (hna : pv' n = a)
    (hnb : nx' n = b) (hbn : pv' b = n) : Linked nx' pv' (l₁ ++ a :: n :: b :: l₂) := by
  obtain ⟨hl, -, hr⟩ := append_cons_cons.1 h
  obtain ⟨hl, hr⟩ := halves hl hr hnd hn hp
  exact append_cons_cons.2 ⟨hl, ⟨han, hna⟩, List.isChain_cons_cons.2 ⟨⟨hnb, hbn⟩, hr⟩⟩

theorem unlink {l₁ l₂ : List α} {a b n : α} (h : Linked nx pv (l₁ ++ a :: n :: b :: l₂))
    (hnd : (l₁ ++ a :: b :: l₂).Nodup)
    (hn : ∀ x ∈ (l₁ ++ a :: b :: l₂).dropLast, x ≠ a → nx' x = nx x)
    (hp : ∀ x ∈ (l₁ ++ a :: b :: l₂).tail, x ≠ b → pv' x = pv x) (hab : nx' a = b) (hba : pv' b = a) :
    Linked nx' pv' (l₁ ++ a :: b :: l₂) := by
  obtain ⟨hl, -, hr⟩ := append_cons_cons.1 h
  obtain ⟨hl, hr⟩ := halves hl (List.isChain_cons_cons.1 hr).2 hnd hn hp
  exact append_cons_cons.2 ⟨hl, ⟨hab, hba⟩, hr⟩

theorem nx_eq {l₁ l₂ : List α} {a b : α} (h : Linked nx pv (l₁ ++ a :: b :: l₂)) : nx a = b :=
  (append_cons_cons.1 h).2.1.1

theorem pv_eq {l₁ l₂ : List α} {a b : α} (h : Linked nx pv (l₁ ++ a :: b :: l₂)) : pv b = a :=
  (append_cons_cons.1 h).2.1.2

theorem unique {a t : α} : ∀ {xs ys : List α}, Linked nx pv (a :: (xs ++ [t])) →
    Linked nx pv' (a :: (ys ++ [t])) → t ∉ xs → t ∉ ys → xs = ys := by
  intro xs
  induction xs generalizing a with
  | nil =>
    rintro (_ | ⟨y, ys⟩) hx hy - ht
    · rfl
    · have h1 := (List.isChain_cons_cons.1 hx).1.1
      have h2 := (List.isChain_cons_cons.1 hy).1.1
      exact absurd (h1.symm.trans h2) fun he => ht (by simp [he])
  | cons x xs ih =>
    rintro (_ | ⟨y, ys⟩) hx hy htx hty
    · have h1 := (List.isChain_cons_cons.1 hx).1.1
      have h2 := (List.isChain_cons_cons.1 hy).1.1
      exact absurd (h2.symm.trans h1) fun he => htx (by simp [he])
    · obtain ⟨⟨rfl, -⟩, hx⟩ := List.isChain_cons_cons.1 hx
      obtain ⟨⟨rfl, -⟩, hy⟩ := List.isChain_cons_cons.1 hy
      rw [ih hx hy (fun h => htx (by simp [h])) fun h => hty (by simp [h])]

/-- A chain that ends visits nothing twice. -/
theorem nodup {a t : α} {xs : List α} (h : Linked nx pv (a :: (xs ++ [t]))) (ht : t ∉ xs) : xs.Nodup := by
  induction xs generalizing a with
  | nil => exact List.nodup_nil
  | cons x xs ih =>
    obtain ⟨-, hx⟩ := List.isChain_cons_cons.1 h
    have htx : t ∉ xs := fun hm => ht (List.mem_cons_of_mem _ hm)
    refine List.nodup_cons.2 ⟨fun hm => ?_, ih hx htx⟩
    -- the same chain would begin at both places of `x`
    obtain ⟨ys, zs, rfl⟩ := List.append_of_mem hm
    have hz : Linked nx pv (x :: (zs ++ [t])) := by
      have hs : x :: (ys ++ x :: zs ++ [t]) = (x :: ys) ++ x :: (zs ++ [t]) := by simp
      exact (hs ▸ hx : List.IsChain _ _).right_of_append
    have he := unique hx hz htx fun hm => htx (by simp [hm])
    have := congrArg List.length he
    simp at this
    omega

end Linked
end Krypton
