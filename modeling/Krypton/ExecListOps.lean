import Krypton.ExecListRep
import Mathlib.Data.List.Sort

/-!
# What each function of `list.c` does to the sequences

One lemma for each function: `add_head`, `add_tail`, `remove_head`, `remove` and `enqueue` are pure
list operations on the sequence of their list, `get_head` and `get_next` read it. Each insertion is a
`splice` and each removal an `unsplice`, so words outside the link words of the layout are kept
(`*_of_not_cell`).
-/

namespace Krypton

/-- The order `enqueue` keeps: `a` may stand in front of `b`. -/
def Mem.ByPri (m : Mem) (a b : Nat) : Prop := m.pri a ≥ m.pri b

instance (m : Mem) (a b : Nat) : Decidable (m.ByPri a b) := inferInstanceAs (Decidable (_ ≥ _))

namespace Rep
variable {L : Layout} {m m' : Mem} {σ : Seqs} {l n x c fuel : Nat} {xs ys : List Nat}

/-! ### Reading -/

theorem head_eq (h : Rep L m σ) (hl : σ l = some xs) : m.head l = xs.headD (l + 4) := by
  have hlist := h.isList _ _ hl
  cases xs with
  | nil => exact (hlist.neighbours [] l (l + 4) [] rfl).1
  | cons x xs => exact (hlist.neighbours [] l x (xs ++ [l + 4]) rfl).1

theorem tailPrev_eq (h : Rep L m σ) (hl : σ l = some xs) {l₁ : List Nat} {a : Nat}
    (ha : l :: xs = l₁ ++ [a]) : m.tailPrev l = a :=
  ((h.isList _ _ hl).neighbours l₁ a (l + 4) []
    (by rw [← List.cons_append, ha, List.append_assoc]; rfl)).2

theorem next_eq (h : Rep L m σ) (hl : σ l = some (xs ++ x :: ys)) : m.next x = ys.headD (l + 4) := by
  have hlist := h.isList _ _ hl
  cases ys with
  | nil => exact (hlist.neighbours (l :: xs) x (l + 4) [] (by simp)).1
  | cons y ys => exact (hlist.neighbours (l :: xs) x y (ys ++ [l + 4]) (by simp)).1

theorem prev_eq (h : Rep L m σ) (hl : σ l = some (xs ++ x :: ys)) {l₁ : List Nat} {a : Nat}
    (ha : l :: xs = l₁ ++ [a]) : m.prev x = a :=
  ((h.isList _ _ hl).neighbours l₁ a x (ys ++ [l + 4])
    (by rw [List.append_assoc, ← List.cons_append, ha]; simp)).2

theorem next_tail (h : Rep L m σ) (hl : σ l = some xs) : m.next (l + 4) = 0 :=
  (h.isList _ _ hl).tail

theorem headD_ne_zero (h : Rep L m σ) (xs : List Nat) (hl : σ l = some (xs ++ ys)) :
    ys.headD (l + 4) ≠ 0 := by
  cases ys with
  | nil => simp
  | cons y ys => exact L.node_ne y (h.node _ _ hl y (by simp))

/-- The word `get_head` and `get_next` test: `NULL` exactly behind the last node. -/
theorem next_headD (h : Rep L m σ) (xs : List Nat) (hl : σ l = some (xs ++ ys)) :
    m.next (ys.headD (l + 4)) = 0 ↔ ys = [] := by
  cases ys with
  | nil => simpa using h.next_tail hl
  | cons y ys =>
    have := (h.next_eq hl).symm ▸ h.headD_ne_zero (xs ++ [y]) (by simpa using hl)
    simpa using this

theorem getHead_eq (h : Rep L m σ) (hl : σ l = some xs) : getHead m l = xs.headD 0 := by
  have h1 := h.next_headD [] hl
  have h2 := h.head_eq hl
  have h3 := L.head_ne l (h.head _ _ hl)
  unfold getHead
  rw [h2]
  cases xs <;> simp_all

theorem getNext_eq (h : Rep L m σ) (hl : σ l = some (xs ++ x :: ys)) :
    getNext m x = ys.headD 0 := by
  have hl' : σ l = some (xs ++ [x] ++ ys) := by simpa using hl
  have h1 := h.next_headD _ hl'
  have h2 := h.headD_ne_zero _ hl'
  have h3 := L.node_ne x (h.node _ _ hl x (by simp))
  unfold getNext
  rw [h.next_eq hl]
  cases ys <;> simp_all

end Rep

/-! ### Writing -/

/-- Outside the link words of list `l` (nodes `xs`) and of node `n`, memory is the same. -/
def Frame (m m' : Mem) (l n : Nat) (xs : List Nat) : Prop :=
  ∀ c, c ∉ l :: xs → (∀ y ∈ xs ++ [l + 4], c ≠ y + 4) → c ≠ n → c ≠ n + 4 → m' c = m c

theorem frame_splice {m : Mem} {l n a b : Nat} {xs : List Nat} (ha : a ∈ l :: xs)
    (hb : b ∈ xs ++ [l + 4]) : Frame m (splice m a n b) l n xs := by
  intro c h1 h2 h3 h4
  have h5 : c ≠ a := fun h => h1 (h ▸ ha)
  simp only [splice, Mem.set_apply, h2 b hb, h3, h4, h5, if_false]

theorem frame_unsplice {m : Mem} {l n a b : Nat} {xs : List Nat} (ha : a ∈ l :: xs)
    (hb : b ∈ xs ++ [l + 4]) : Frame m (unsplice m a b) l n xs := by
  intro c h1 h2 _ _
  have h5 : c ≠ a := fun h => h1 (h ▸ ha)
  simp only [unsplice, Mem.set_apply, h2 b hb, h5, if_false]

theorem Frame.cell {L : Layout} {m m' : Mem} {σ : Seqs} {l n c : Nat} {xs : List Nat}
    (hf : Frame m m' l n xs) (h : Rep L m σ) (hl : σ l = some xs) (hn : n ∈ L.nodes)
    (hc : ¬ L.Cell c) : m' c = m c := by
  refine hf c (fun hx => hc (h.fwd hl c hx).cell) (fun y hy he => hc (he ▸ (h.bwd hl y hy).cell))
    (fun he => hc (he ▸ (Layout.Fwd.node hn).cell)) fun he => hc (he ▸ (Layout.Bwd.node hn).cell)

namespace Rep
variable {L : Layout} {m m' : Mem} {σ : Seqs} {l n x c fuel : Nat} {xs ys : List Nat}

theorem addHead_eq (h : Rep L m σ) (hl : σ l = some xs) (hn : n ∈ L.nodes) :
    addHead m l n = Krypton.splice m l n (m.head l) := by
  have h1 := Layout.head_ne_node (h.head _ _ hl) hn
  have h2 := Layout.tail_ne_node (h.head _ _ hl) hn
  have h3 := (Layout.Fwd.head (h.head _ _ hl)).ne_bwd (.node hn)
  have hb : L.Bwd (m.head l) := h.head_eq hl ▸ h.bwd hl _ (by cases xs <;> simp)
  have h4 := (Layout.Fwd.head (h.head _ _ hl)).ne_bwd hb
  simp only [addHead, Krypton.splice, Mem.setNext, Mem.setPrev, Mem.setHead, Mem.head,
    Mem.set_apply, h1, h3, if_false]
  exact Mem.set_comm _ _ _ h4.symm

theorem addHead (h : Rep L m σ) (hl : σ l = some xs) (hn : n ∈ L.nodes) (hfree : σ.Free n) :
    Rep L (addHead m l n) (Function.update σ l (some (n :: xs))) ∧
      Frame m (addHead m l n) l n xs := by
  rw [h.addHead_eq hl hn, h.head_eq hl]
  obtain ⟨b, l₂, hb⟩ := exists_first (l + 4) xs
  have hb' : xs.headD (l + 4) = b := by cases xs <;> simp_all
  rw [hb']
  exact ⟨h.splice [] xs hl hn hfree (List.nil_append _).symm hb,
    frame_splice (by simp) (by rw [hb]; simp)⟩

theorem addTail_eq (h : Rep L m σ) (hl : σ l = some xs) (hn : n ∈ L.nodes) :
    addTail m l n = Krypton.splice m (m.tailPrev l) n (l + 4) := by
  have h1 := Layout.head_ne_node (h.head _ _ hl) hn
  have h3 : l + 8 ≠ n := (((Layout.Fwd.node hn).ne_bwd (.tail (h.head _ _ hl)))).symm
  have h4 : l + 4 ≠ n := Layout.tail_ne_node (h.head _ _ hl) hn
  have h5 : l + 8 ≠ n + 4 := fun he => h4 (by omega)
  obtain ⟨l₁, a, ha⟩ := exists_last l xs
  have hfa : L.Fwd (m.tailPrev l) := h.tailPrev_eq hl ha ▸ h.fwd hl a (by rw [ha]; simp)
  have h6 : m.tailPrev l ≠ n + 4 := hfa.ne_bwd (.node hn)
  simp only [Mem.tailPrev] at h6
  simp only [addTail, Krypton.splice, Mem.setNext, Mem.setPrev, Mem.setTailPrev, Mem.tailPrev,
    Mem.set_apply, h3, h5, if_false]

theorem addTail (h : Rep L m σ) (hl : σ l = some xs) (hn : n ∈ L.nodes) (hfree : σ.Free n) :
    Rep L (addTail m l n) (Function.update σ l (some (xs ++ [n]))) ∧
      Frame m (addTail m l n) l n xs := by
  obtain ⟨l₁, a, ha⟩ := exists_last l xs
  rw [h.addTail_eq hl hn, h.tailPrev_eq hl ha]
  exact ⟨h.splice xs [] (by simpa using hl) hn hfree ha rfl,
    frame_splice (by rw [ha]; simp) (by simp)⟩

theorem remove (h : Rep L m σ) (hl : σ l = some (xs ++ n :: ys)) :
    Rep L (remove m n) (Function.update σ l (some (xs ++ ys))) ∧
      Frame m (remove m n) l n (xs ++ n :: ys) := by
  obtain ⟨l₁, a, ha⟩ := exists_last l xs
  obtain ⟨b, l₂, hb⟩ := exists_first (l + 4) ys
  have ⟨hal, hbl⟩ : a ∈ l :: (xs ++ n :: ys) ∧ b ∈ xs ++ n :: ys ++ [l + 4] := by
    simpa using neighbours_mem ha hb [n]
  have hn : n ∈ L.nodes := h.node _ _ hl n (by simp)
  have hnx : m.next n = b := by
    rw [h.next_eq hl]; cases ys <;> simp_all
  have hpv : m.prev n = a := h.prev_eq hl ha
  have hna : n ≠ a := by
    have := h.chain_nodup hl
    grind
  have heq : Krypton.remove m n = Krypton.unsplice m a b := by
    have h1 : n + 4 ≠ a := ((h.fwd hl a hal).ne_bwd (.node hn)).symm
    simp only [Mem.next, Mem.prev] at hnx hpv
    simp only [Krypton.remove, Krypton.unsplice, Mem.setNext, Mem.setPrev, Mem.next, Mem.prev,
      Mem.set_apply, hnx, hpv, h1, hna, if_false]
  rw [heq]
  exact ⟨h.unsplice xs ys hl ha hb, frame_unsplice hal hbl⟩

/-- `remove_head` on an empty list returns `NULL` and writes nothing. -/
theorem removeHead_nil (h : Rep L m σ) (hl : σ l = some []) : removeHead m l = (0, m) := by
  have : m.next (m.head l) = 0 := by
    rw [h.head_eq hl]; exact (h.next_headD [] hl).2 rfl
  simp [removeHead, this]

theorem removeHead_cons (h : Rep L m σ) (hl : σ l = some (x :: xs)) :
    (removeHead m l).1 = x ∧ Rep L (removeHead m l).2 (Function.update σ l (some xs)) ∧
      Frame m (removeHead m l).2 l x (x :: xs) := by
  obtain ⟨b, l₂, hb⟩ := exists_first (l + 4) xs
  have hbl : b ∈ x :: xs ++ [l + 4] := by
    have : b ∈ xs ++ [l + 4] := by rw [hb]; simp
    simp at this ⊢; tauto
  have hx : L.Fwd x := h.fwd hl x (by simp)
  have hhead : m.head l = x := h.head_eq hl
  have hnx : m.next x = b := by
    rw [h.next_eq (show σ l = some ([] ++ x :: xs) from hl)]; cases xs <;> simp_all
  have hb0 : b ≠ 0 := (h.bwd hl b hbl).ne_zero
  have heq : Krypton.removeHead m l = (x, Krypton.unsplice m l b) := by
    have h1 : x ≠ b + 4 := hx.ne_bwd (h.bwd hl b hbl)
    have h2 : l ≠ b + 4 := (Layout.Fwd.head (h.head _ _ hl)).ne_bwd (h.bwd hl b hbl)
    simp only [Mem.next, Mem.head] at hnx hhead
    simp only [Krypton.removeHead, Krypton.unsplice, Mem.setPrev, Mem.setHead, Mem.next, Mem.head,
      Mem.set_apply, hhead, hnx, h1, h2, hb0, ne_eq, not_false_eq_true, if_true, if_false]
    rw [Mem.set_comm _ _ _ h2]
  rw [heq]
  exact ⟨rfl, h.unsplice [] xs hl (List.nil_append _).symm hb, frame_unsplice (by simp) hbl⟩

/-! ### `enqueue` -/

theorem insertBefore_eq (h : Rep L m σ) (hl : σ l = some (xs ++ x :: ys)) (hn : n ∈ L.nodes)
    (hfree : σ.Free n) : insertBefore m x n = Krypton.splice m (m.prev x) n x := by
  obtain ⟨l₁, a, ha⟩ := exists_last l xs
  have hpv := h.prev_eq hl ha
  have hx : x ∈ L.nodes := h.node _ _ hl x (by simp)
  have hfa : L.Fwd a := h.fwd hl a (by
    have : a ∈ l :: xs := by rw [ha]; simp
    simp at this ⊢; tauto)
  have hnx : n ≠ x := fun he => hfree _ _ hl (by simp [he])
  have h1 : x + 4 ≠ n := ((Layout.Fwd.node hn).ne_bwd (.node hx)).symm
  have h2 : x + 4 ≠ n + 4 := by omega
  have h3 : x + 4 ≠ a := (hfa.ne_bwd (.node hx)).symm
  simp only [insertBefore, Krypton.splice, Mem.setNext, Mem.setPrev, Mem.prev, Mem.set_apply, h1,
    h2, if_false]

/-- The loop of `enqueue`, reached behind the nodes `xs` and in front of `ys`. -/
theorem enqueueLoop (h : Rep L m σ) (xs ys : List Nat) (hn : n ∈ L.nodes) (hfree : σ.Free n)
    (hr : enqueueLoop l n fuel m (ys.headD 0) = some m') (hl : σ l = some (xs ++ ys)) :
    Rep L m' (Function.update σ l (some (xs ++ ys.orderedInsert m.ByPri n))) ∧
      Frame m m' l n (xs ++ ys) := by
  induction fuel generalizing xs ys with
  | zero => simp [Krypton.enqueueLoop] at hr
  | succ fuel ih =>
    cases ys with
    | nil =>
      rw [List.append_nil] at hl
      simp only [Krypton.enqueueLoop, List.headD_nil, if_true, Option.some.injEq] at hr
      rw [← hr]
      simpa using h.addTail hl hn hfree
    | cons y ys =>
      have hy : y ≠ 0 := L.node_ne y (h.node _ _ hl y (by simp))
      rw [List.headD_cons, Krypton.enqueueLoop, if_neg hy] at hr
      by_cases hp : m.pri n ≥ m.pri y
      · rw [if_pos hp, Option.some.injEq, h.insertBefore_eq hl hn hfree] at hr
        obtain ⟨l₁, a, ha⟩ := exists_last l xs
        rw [List.orderedInsert_cons, if_pos (show m.ByPri n y from hp), ← hr, h.prev_eq hl ha]
        refine ⟨h.splice xs (y :: ys) hl hn hfree ha (List.cons_append ..), frame_splice ?_ (by simp)⟩
        have : a ∈ l :: xs := by rw [ha]; simp
        simp at this ⊢; tauto
      · rw [if_neg hp, h.getNext_eq hl] at hr
        rw [List.orderedInsert_cons, if_neg (show ¬ m.ByPri n y from hp)]
        simpa using ih (xs ++ [y]) ys hr (by simpa using hl)

theorem enqueueLoop_isSome (h : Rep L m σ) (xs ys : List Nat) (hl : σ l = some (xs ++ ys)) (hf : ys.length < fuel) :
    (Krypton.enqueueLoop l n fuel m (ys.headD 0)).isSome := by
  induction fuel generalizing xs ys with
  | zero => simp at hf
  | succ fuel ih =>
    cases ys with
    | nil => simp [Krypton.enqueueLoop]
    | cons y ys =>
      rw [List.headD_cons, Krypton.enqueueLoop]
      split_ifs
      · rfl
      · rfl
      · rw [h.getNext_eq hl]
        exact ih (xs ++ [y]) ys (by simpa using hl) (by simpa using hf)

/-- `enqueue` inserts by priority: in front of the first node that is not above. -/
theorem enqueue (h : Rep L m σ) (hl : σ l = some xs) (hn : n ∈ L.nodes) (hfree : σ.Free n)
    (hr : enqueue fuel m l n = some m') :
    Rep L m' (Function.update σ l (some (xs.orderedInsert m.ByPri n))) ∧ Frame m m' l n xs := by
  rw [Krypton.enqueue, h.getHead_eq hl] at hr
  exact h.enqueueLoop [] xs hn hfree hr hl

theorem enqueue_isSome (h : Rep L m σ) (hl : σ l = some xs) (hf : xs.length < fuel) :
    (Krypton.enqueue fuel m l n).isSome := by
  rw [Krypton.enqueue, h.getHead_eq hl]
  exact h.enqueueLoop_isSome [] xs hl hf

/-! ### `new_list` -/

/-- `new_list` makes the header an empty list; nodes it held are on no list any more. -/
theorem newList (h : Rep L m σ) (hl : l ∈ L.heads) :
    Rep L (newList m l) (Function.update σ l (some [])) ∧
      ∀ c, c ≠ l → c ≠ l + 4 → c ≠ l + 8 → newList m l c = m c := by
  have hf : ∀ c, c ≠ l → c ≠ l + 4 → c ≠ l + 8 → Krypton.newList m l c = m c := by
    intro c h1 h2 h3
    simp only [Krypton.newList, Mem.setHead, Mem.setTail, Mem.setTailPrev, Mem.set_apply, h1, h2, h3,
      if_false]
  have hnew : IsList (Krypton.newList m l) l [] := by
    refine ⟨List.isChain_pair.2 ⟨?_, ?_⟩, ?_⟩ <;>
      simp [Krypton.newList, Mem.setHead, Mem.setTail, Mem.setTailPrev, Mem.set_apply, Mem.next,
        Mem.prev, Mem.tail]
  have hold : ∀ l' xs', l' ≠ l → σ l' = some xs' → IsList (Krypton.newList m l) l' xs' := by
    intro l' xs' hne hl'
    have hh := h.head _ _ hl'
    have hap := L.heads_apart _ hh _ hl hne
    refine (h.isList _ _ hl').congr (fun x hx => hf x ?_ ?_ ?_) (fun y hy => hf _ ?_ ?_ ?_)
      (hf _ (by omega) (by omega) (by omega))
    · rcases List.mem_cons.1 hx with rfl | hx
      · exact hne
      · exact (Layout.head_ne_node hl (h.node _ _ hl' x hx)).symm
    · exact (h.fwd hl' x hx).ne_tail hl
    · exact (h.fwd hl' x hx).ne_bwd (.tail hl)
    · exact ((Layout.Fwd.head hl).ne_bwd (h.bwd hl' y hy)).symm
    · exact fun he => (h.bwd hl' y hy).ne_head hl (by omega)
    · rcases List.mem_append.1 hy with hy | hy
      · exact fun he => Layout.tail_ne_node hl (h.node _ _ hl' y hy) (by omega)
      · simp at hy; omega
  refine ⟨⟨?_, ?_, ?_, ?_, ?_⟩, hf⟩
  · intro l' xs' h'
    by_cases hne : l' = l
    · exact hne ▸ hl
    · exact h.head _ _ (by simpa [hne] using h')
  · intro l' xs' h'
    by_cases hne : l' = l
    · subst hne; simp at h'; subst h'; simp
    · exact h.node _ _ (by simpa [hne] using h')
  · intro l' xs' h'
    by_cases hne : l' = l
    · subst hne; simp at h'; subst h'; exact hnew
    · exact hold _ _ hne (by simpa [hne] using h')
  · intro l' xs' h'
    by_cases hne : l' = l
    · subst hne; simp at h'; subst h'; exact List.nodup_nil
    · exact h.nodup _ _ (by simpa [hne] using h')
  · intro l' l'' xs' xs'' h' h'' hne'
    by_cases h1 : l' = l
    · subst h1; simp at h'; subst h'; exact List.disjoint_nil_left _
    by_cases h2 : l'' = l
    · subst h2; simp at h''; subst h''; exact List.disjoint_nil_right _
    exact h.disj _ _ _ _ (by simpa [h1] using h') (by simpa [h2] using h'') hne'

end Rep

end Krypton
