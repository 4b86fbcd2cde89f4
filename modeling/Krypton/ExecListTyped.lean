import Krypton.ExecListRep

/-!
# Links of the right kind

A list that has been corrupted (a node linked twice, or unlinked while on no list) represents no
sequence, but its links still have a kind: a `next` word holds a node or a tail sentinel, a `prev`
word a node or a header. `Typed` is this much; `enqueue` and `remove` keep it whatever state
the lists are in, and it is enough for `get_head` to return a node or `NULL`.
-/

namespace Krypton

/-- `L'` is `L` with the node `n`. -/
structure Layout.Adds (L L' : Layout) (n : Nat) : Prop where
  heads : L'.heads = L.heads
  nodes : ∀ x, x ∈ L'.nodes ↔ x = n ∨ x ∈ L.nodes

namespace Layout.Adds
variable {L L' : Layout} {n x y : Nat}

theorem node (h : L.Adds L' n) : n ∈ L'.nodes := (h.nodes n).2 (.inl rfl)

theorem fwd (h : L.Adds L' n) (hx : L.Fwd x) : L'.Fwd x :=
  hx.imp (fun hx => h.heads ▸ hx) fun hx => (h.nodes x).2 (.inr hx)

theorem bwd (h : L.Adds L' n) (hy : L.Bwd y) : L'.Bwd y :=
  hy.imp (fun hy => (h.nodes y).2 (.inr hy)) fun hy => h.heads ▸ hy

theorem fwd_or (h : L.Adds L' n) (hx : L'.Fwd x) : x = n ∨ L.Fwd x := by
  rcases hx with hx | hx
  · exact .inr (.inl (h.heads ▸ hx))
  · exact ((h.nodes x).1 hx).imp_right .inr

theorem bwd_or (h : L.Adds L' n) (hy : L'.Bwd y) : y = n ∨ L.Bwd y := by
  rcases hy with hy | hy
  · exact ((h.nodes y).1 hy).imp_right .inl
  · exact .inr (.inr (h.heads ▸ hy))

end Layout.Adds

/-- Only link words of `L` differ. -/
def SameOff (L : Layout) (m m' : Mem) : Prop := ∀ c, ¬ L.Cell c → m' c = m c

namespace SameOff
variable {L : Layout} {m m' : Mem} {x y v : Nat}

theorem refl : SameOff L m m := fun _ _ => rfl

theorem setNext (hm : SameOff L m m') (hx : L.Fwd x) : SameOff L m (m'.setNext x v) := fun c hc =>
  (Mem.set_ne m' v (show c ≠ x from fun he => hc (he ▸ hx.cell))).trans (hm c hc)

theorem setPrev (hm : SameOff L m m') (hy : L.Bwd y) : SameOff L m (m'.setPrev y v) := fun c hc =>
  (Mem.set_ne m' v (show c ≠ y + 4 from fun he => hc (he ▸ hy.cell))).trans (hm c hc)

end SameOff

structure Typed (L : Layout) (m : Mem) : Prop where
  next : ∀ x, L.Fwd x → L.Bwd (m.next x)
  prev : ∀ y, L.Bwd y → L.Fwd (m.prev y)
  tail : ∀ l ∈ L.heads, m.tail l = 0

namespace Typed
variable {L L' : Layout} {m m' : Mem} {l n x y v w fuel : Nat}

theorem congr (h : Typed L m) (hc : ∀ c, L.Cell c → m' c = m c)
    (ht : ∀ l ∈ L.heads, m' (l + 4) = m (l + 4)) : Typed L m' where
  next x hx := by
    have := h.next x hx
    rwa [Mem.next, ← hc x hx.cell] at this
  prev y hy := by
    have := h.prev y hy
    rwa [Mem.prev, ← hc _ hy.cell] at this
  tail l hl := (ht l hl).trans (h.tail l hl)

/-! ### Reading -/

theorem node_or_null (h : Typed L m) (hx : L.Bwd x) (h0 : m.next x ≠ 0) : x ∈ L.nodes := by
  rcases hx with hx | ⟨l, hl, rfl⟩
  · exact hx
  · exact absurd (h.tail l hl) h0

theorem getHead (h : Typed L m) (hl : l ∈ L.heads) : getHead m l = 0 ∨ getHead m l ∈ L.nodes := by
  unfold Krypton.getHead
  split_ifs with h0
  · exact .inr (h.node_or_null (h.next l (.head hl)) h0.2)
  · exact .inl rfl

theorem getNext (h : Typed L m) (hn : n ∈ L.nodes) : getNext m n = 0 ∨ getNext m n ∈ L.nodes := by
  unfold Krypton.getNext
  split_ifs with h0
  · exact .inr (h.node_or_null (h.next n (.node hn)) h0.2.2)
  · exact .inl rfl

/-! ### Writing one link -/

theorem mem_nodes {z : Nat} {xs : List Nat} (h : Typed L m) (hx : L.Fwd x)
    (hl : Linked m.next m.prev (x :: (xs ++ [z]))) (hne : ∀ y ∈ xs, ∀ l ∈ L.heads, y ≠ l + 4) :
    ∀ y ∈ xs, y ∈ L.nodes := by
  induction xs generalizing x with
  | nil => exact fun y hy => absurd hy List.not_mem_nil
  | cons y ys ih =>
    obtain ⟨⟨hnext, -⟩, hrest⟩ := List.isChain_cons_cons.1 hl
    have hy : y ∈ L.nodes := by
      rcases h.next x hx with hb | ⟨l, hl, he⟩
      · exact hnext ▸ hb
      · exact absurd (hnext.symm.trans he) (hne y (List.mem_cons_self ..) l hl)
    refine List.forall_mem_cons.2 ⟨hy, ih (.node hy) hrest ?_⟩
    exact fun z hz => hne z (List.mem_cons_of_mem _ hz)

theorem setNext (h : Typed L m) (hx : L.Fwd x) (hv : L.Bwd v) : Typed L (m.setNext x v) where
  next x' hx' := by
    unfold Mem.next Mem.setNext
    rw [Mem.set_apply]
    split_ifs
    · exact hv
    · exact h.next x' hx'
  prev y hy := by
    unfold Mem.prev Mem.setNext
    rw [Mem.set_ne _ _ (hx.ne_bwd hy).symm]
    exact h.prev y hy
  tail l hl := by
    unfold Mem.tail Mem.setNext
    rw [Mem.set_ne _ _ (hx.ne_tail hl).symm]
    exact h.tail l hl

theorem setPrev (h : Typed L m) (hy : L.Bwd y) (hv : L.Fwd v) : Typed L (m.setPrev y v) where
  next x hx := by
    unfold Mem.next Mem.setPrev
    rw [Mem.set_ne _ _ (hx.ne_bwd hy)]
    exact h.next x hx
  prev y' hy' := by
    unfold Mem.prev Mem.setPrev
    rw [Mem.set_apply]
    split_ifs
    · exact hv
    · exact h.prev y' hy'
  tail l hl := by
    unfold Mem.tail Mem.setPrev
    rw [Mem.set_ne _ _ (fun he => hy.ne_head hl (by omega))]
    exact h.tail l hl

/-- Writing both links of a node makes it one of the typed nodes. -/
theorem add (h : Typed L m) (hL : L.Adds L' n) (hv : L'.Bwd v) (hw : L'.Fwd w) :
    Typed L' ((m.setNext n v).setPrev n w) where
  next x hx := by
    unfold Mem.next Mem.setPrev Mem.setNext
    rw [Mem.set_ne _ _ (hx.ne_bwd (.node hL.node)), Mem.set_apply]
    split_ifs with hxn
    · exact hv
    · exact hL.bwd (h.next x ((hL.fwd_or hx).resolve_left hxn))
  prev y hy := by
    unfold Mem.prev Mem.setPrev Mem.setNext
    rw [Mem.set_apply]
    split_ifs with hyn
    · exact hw
    · rw [Mem.set_ne _ _ ((Layout.Fwd.node hL.node).ne_bwd hy).symm]
      exact hL.fwd (h.prev y ((hL.bwd_or hy).resolve_left (by omega)))
  tail l hl := by
    have h1 : l + 4 ≠ n := Layout.tail_ne_node hl hL.node
    have h2 : l + 4 ≠ n + 4 := fun he => Layout.head_ne_node hl hL.node (by omega)
    unfold Mem.tail Mem.setPrev Mem.setNext
    rw [Mem.set_ne _ _ h2, Mem.set_ne _ _ h1]
    exact h.tail l (hL.heads ▸ hl)

/-! ### Writing a list -/

theorem addTail (h : Typed L m) (hL : L.Adds L' n) (hl : l ∈ L.heads) :
    Typed L' (addTail m l n) ∧ SameOff L' m (addTail m l n) := by
  have hl' : l ∈ L'.heads := hL.heads ▸ hl
  have ht : L'.Bwd (l + 4) := .tail hl'
  have hn : L'.Fwd n := .node hL.node
  have hp : (m.setNext n (l + 4)).tailPrev l = m.prev (l + 4) :=
    Mem.set_ne _ _ (hn.ne_bwd ht).symm
  have h2 : Typed L' ((m.setNext n (l + 4)).setPrev n (m.prev (l + 4))) :=
    h.add hL ht (hL.fwd (h.prev _ (.tail hl)))
  have s2 : SameOff L' m ((m.setNext n (l + 4)).setPrev n (m.prev (l + 4))) :=
    (SameOff.refl.setNext hn).setPrev (.node hL.node)
  have hq : L'.Fwd (((m.setNext n (l + 4)).setPrev n (m.prev (l + 4))).tailPrev l) := h2.prev _ ht
  unfold Krypton.addTail
  simp only [hp]
  exact ⟨(h2.setNext hq (.node hL.node)).setPrev ht hn, (s2.setNext hq).setPrev ht⟩

theorem insertBefore (h : Typed L m) (hL : L.Adds L' n) (hx : x ∈ L.nodes) :
    Typed L' (insertBefore m x n) ∧ SameOff L' m (insertBefore m x n) := by
  have hx' : L'.Bwd x := hL.bwd (.node hx)
  have hn : L'.Fwd n := .node hL.node
  have hp : (m.setNext n x).prev x = m.prev x := Mem.set_ne _ _ (hn.ne_bwd hx').symm
  have h2 : Typed L' ((m.setNext n x).setPrev n (m.prev x)) :=
    h.add hL hx' (hL.fwd (h.prev _ (.node hx)))
  have s2 : SameOff L' m ((m.setNext n x).setPrev n (m.prev x)) :=
    (SameOff.refl.setNext hn).setPrev (.node hL.node)
  have hq : L'.Fwd (((m.setNext n x).setPrev n (m.prev x)).prev x) := h2.prev _ hx'
  unfold Krypton.insertBefore
  simp only [hp]
  exact ⟨(h2.setNext hq (.node hL.node)).setPrev hx' hn, (s2.setNext hq).setPrev hx'⟩

theorem enqueueLoop (h : Typed L m) (hL : L.Adds L' n) (hl : l ∈ L.heads) (hx : x = 0 ∨ x ∈ L.nodes)
    (hr : enqueueLoop l n fuel m x = some m') : Typed L' m' ∧ SameOff L' m m' := by
  induction fuel generalizing x with
  | zero => simp [Krypton.enqueueLoop] at hr
  | succ fuel ih =>
    unfold Krypton.enqueueLoop at hr
    split_ifs at hr with h0 hp
    · cases hr
      exact h.addTail hL hl
    · cases hr
      exact h.insertBefore hL (hx.resolve_left h0)
    · exact ih (h.getNext (hx.resolve_left h0)) hr

theorem enqueue (h : Typed L m) (hL : L.Adds L' n) (hl : l ∈ L.heads)
    (hr : enqueue fuel m l n = some m') : Typed L' m' ∧ SameOff L' m m' :=
  h.enqueueLoop hL hl (h.getHead hl) hr

theorem remove (h : Typed L m) (hn : n ∈ L.nodes) :
    Typed L (remove m n) ∧ SameOff L m (remove m n) := by
  have hp : L.Fwd (m.prev n) := h.prev n (.node hn)
  have h1 : Typed L (m.setNext (m.prev n) (m.next n)) := h.setNext hp (h.next n (.node hn))
  have hq := h1.next n (.node hn)
  exact ⟨h1.setPrev hq (h1.prev n (.node hn)), (SameOff.refl.setNext hp).setPrev hq⟩

end Typed

end Krypton
