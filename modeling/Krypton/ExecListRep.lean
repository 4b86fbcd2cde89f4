import Krypton.ExecList
import Krypton.Lib.Linked
import Mathlib.Data.Set.Basic
import Mathlib.Tactic.Tauto

/-!
# Lists as sequences of nodes

A list header and its nodes form one doubly linked chain `l :: xs ++ [l + 4]` whose ends are the two
sentinels overlaid on the header (`IsList`). `Rep L m σ` describes a whole memory of lists: `σ` gives
the sequence of every list set up so far, all over the disjoint objects of the layout `L`.

Every function of `list.c` either links one node in (`splice`) or unlinks one (`unsplice`), so
`Rep.splice` and `Rep.unsplice` carry all the insertions and removals.
-/

namespace Krypton

/-- The objects a family of lists is made of: headers of 12 bytes and nodes of 20, all disjoint. -/
structure Layout where
  heads : Set Nat
  nodes : Set Nat
  head_ne : ∀ h ∈ heads, h ≠ 0
  node_ne : ∀ n ∈ nodes, n ≠ 0
  heads_apart : ∀ h ∈ heads, ∀ h' ∈ heads, h ≠ h' → h + 12 ≤ h' ∨ h' + 12 ≤ h
  nodes_apart : ∀ n ∈ nodes, ∀ n' ∈ nodes, n ≠ n' → n + 20 ≤ n' ∨ n' + 20 ≤ n
  apart : ∀ h ∈ heads, ∀ n ∈ nodes, h + 12 ≤ n ∨ n + 20 ≤ h

namespace Layout
variable {L : Layout} {x y n l : Nat}

/-- What has a `next` word that takes part in a chain: nodes and head sentinels. -/
def Fwd (L : Layout) (x : Nat) : Prop := x ∈ L.heads ∨ x ∈ L.nodes

/-- What has a `prev` word that takes part in a chain: nodes and tail sentinels. -/
def Bwd (L : Layout) (x : Nat) : Prop := x ∈ L.nodes ∨ ∃ h ∈ L.heads, x = h + 4

/-- The link words of a layout. -/
def Cell (L : Layout) (c : Nat) : Prop := L.Fwd c ∨ ∃ y, L.Bwd y ∧ c = y + 4

theorem Fwd.node (h : n ∈ L.nodes) : L.Fwd n := .inr h
theorem Fwd.head (h : l ∈ L.heads) : L.Fwd l := .inl h
theorem Bwd.node (h : n ∈ L.nodes) : L.Bwd n := .inl h
theorem Bwd.tail (h : l ∈ L.heads) : L.Bwd (l + 4) := .inr ⟨l, h, rfl⟩
theorem Fwd.cell (h : L.Fwd x) : L.Cell x := .inl h
theorem Bwd.cell (h : L.Bwd y) : L.Cell (y + 4) := .inr ⟨y, h, rfl⟩

theorem Bwd.ne_zero (h : L.Bwd y) : y ≠ 0 := by
  rcases h with h | ⟨h, -, rfl⟩
  · exact L.node_ne y h
  · omega

theorem Fwd.ne_zero (h : L.Fwd x) : x ≠ 0 := h.elim (L.head_ne x) (L.node_ne x)

theorem head_ne_node (hl : l ∈ L.heads) (hn : n ∈ L.nodes) : l ≠ n := by
  have := L.apart l hl n hn; omega

theorem tail_ne_node (hl : l ∈ L.heads) (hn : n ∈ L.nodes) : l + 4 ≠ n := by
  have := L.apart l hl n hn; omega

theorem Fwd.ne_tail (h : L.Fwd x) (hl : l ∈ L.heads) : x ≠ l + 4 := by
  rcases h with h | h
  · intro he; have := L.heads_apart x h l hl (by omega); omega
  · exact (tail_ne_node hl h).symm

theorem Bwd.ne_head (h : L.Bwd y) (hl : l ∈ L.heads) : y ≠ l := by
  rcases h with h | ⟨h, hh, rfl⟩
  · exact (head_ne_node hl h).symm
  · exact ((Fwd.head hl).ne_tail hh).symm

/-- No word is the `next` word of one object and the `prev` word of another. -/
theorem Fwd.ne_bwd (hx : L.Fwd x) (hy : L.Bwd y) : x ≠ y + 4 := by
  rintro rfl
  rcases hx with hx | hx <;> rcases hy with hy | ⟨h, hh, rfl⟩
  · have := L.apart _ hx _ hy; omega
  · have := L.heads_apart _ hx _ hh (by omega); omega
  · have := L.nodes_apart _ hx _ hy (by omega); omega
  · have := L.apart _ hh _ hx; omega

theorem not_cell_field {k : Nat} (hn : n ∈ L.nodes) (hk : 8 ≤ k) (hk' : k < 20) : ¬ L.Cell (n + k) := by
  rintro ((h | h) | ⟨y, h | ⟨h, hh, rfl⟩, he⟩)
  · have := L.apart _ h _ hn; omega
  · have := L.nodes_apart _ h _ hn (by omega); omega
  · by_cases hy : y = n
    · omega
    · have := L.nodes_apart _ h _ hn hy; omega
  · have := L.apart _ hh _ hn; omega

theorem not_cell_tail (hl : l ∈ L.heads) : ¬ L.Cell (l + 4) := by
  rintro (h | ⟨y, h, he⟩)
  · exact h.ne_tail hl rfl
  · exact h.ne_head hl (by omega)

end Layout

/-- The header at `l` holds the nodes `xs`: the sentinels and the nodes form one chain. -/
structure IsList (m : Mem) (l : Nat) (xs : List Nat) : Prop where
  linked : Linked m.next m.prev (l :: (xs ++ [l + 4]))
  tail : m.tail l = 0

/-- The sequence of every list that has been set up. -/
abbrev Seqs := Nat → Option (List Nat)

/-- The node is on none of the lists. -/
def Seqs.Free (σ : Seqs) (n : Nat) : Prop := ∀ l xs, σ l = some xs → n ∉ xs

theorem Seqs.Free.none (n : Nat) : Seqs.Free (fun _ => .none) n := fun _ _ hl => by cases hl

theorem Seqs.Free.update {σ : Seqs} {l n : Nat} {xs : List Nat} (h : σ.Free n) (hn : n ∉ xs) :
    Seqs.Free (Function.update σ l (some xs)) n := by
  intro l' ys hl
  rcases eq_or_ne l' l with rfl | hne
  · rw [Function.update_self] at hl
    exact Option.some.inj hl ▸ hn
  · rw [Function.update_of_ne hne] at hl
    exact h l' ys hl

/-- Memory `m` holds exactly the lists `σ`, over the objects of `L`. -/
structure Rep (L : Layout) (m : Mem) (σ : Seqs) : Prop where
  head : ∀ l xs, σ l = some xs → l ∈ L.heads
  node : ∀ l xs, σ l = some xs → ∀ n ∈ xs, n ∈ L.nodes
  isList : ∀ l xs, σ l = some xs → IsList m l xs
  nodup : ∀ l xs, σ l = some xs → xs.Nodup
  disj : ∀ l l' xs xs', σ l = some xs → σ l' = some xs' → l ≠ l' → xs.Disjoint xs'

/-! ### Linking in and unlinking -/

/-- `n` linked in between `a` and `b`. -/
def splice (m : Mem) (a n b : Nat) : Mem := (((m.set n b).set (n + 4) a).set a n).set (b + 4) n

/-- `a` and `b` made neighbours. -/
def unsplice (m : Mem) (a b : Nat) : Mem := (m.set a b).set (b + 4) a

section
variable {L : Layout} {m m' : Mem} {a b n x y l c : Nat}

theorem next_splice (hn : n ∈ L.nodes) (hb : L.Bwd b) (hx : L.Fwd x) :
    (splice m a n b).next x = if x = a then n else if x = n then b else m.next x := by
  have h1 : x ≠ b + 4 := hx.ne_bwd hb
  have h2 : x ≠ n + 4 := hx.ne_bwd (.node hn)
  simp only [splice, Mem.next, Mem.set_apply, h1, h2, if_false]

theorem prev_splice (ha : L.Fwd a) (hn : n ∈ L.nodes) (hy : L.Bwd y) :
    (splice m a n b).prev y = if y = b then n else if y = n then a else m.prev y := by
  have h1 : y + 4 ≠ a := (ha.ne_bwd hy).symm
  have h2 : y + 4 ≠ n := ((Layout.Fwd.node hn).ne_bwd hy).symm
  simp only [splice, Mem.prev, Mem.set_apply, h1, h2, if_false, Nat.add_right_cancel_iff]

theorem splice_of_not_cell (ha : L.Fwd a) (hn : n ∈ L.nodes) (hb : L.Bwd b) (hc : ¬ L.Cell c) :
    splice m a n b c = m c := by
  have h1 : c ≠ n := fun h => hc (h ▸ (Layout.Fwd.node hn).cell)
  have h2 : c ≠ n + 4 := fun h => hc (h ▸ (Layout.Bwd.node hn).cell)
  have h3 : c ≠ a := fun h => hc (h ▸ ha.cell)
  have h4 : c ≠ b + 4 := fun h => hc (h ▸ hb.cell)
  simp only [splice, Mem.set_apply, h1, h2, h3, h4, if_false]

theorem next_unsplice (hb : L.Bwd b) (hx : L.Fwd x) :
    (unsplice m a b).next x = if x = a then b else m.next x := by
  have h1 : x ≠ b + 4 := hx.ne_bwd hb
  simp only [unsplice, Mem.next, Mem.set_apply, h1, if_false]

theorem prev_unsplice (ha : L.Fwd a) (hy : L.Bwd y) :
    (unsplice m a b).prev y = if y = b then a else m.prev y := by
  have h1 : y + 4 ≠ a := (ha.ne_bwd hy).symm
  simp only [unsplice, Mem.prev, Mem.set_apply, h1, if_false, Nat.add_right_cancel_iff]

theorem unsplice_of_not_cell (ha : L.Fwd a) (hb : L.Bwd b) (hc : ¬ L.Cell c) :
    unsplice m a b c = m c := by
  have h3 : c ≠ a := fun h => hc (h ▸ ha.cell)
  have h4 : c ≠ b + 4 := fun h => hc (h ▸ hb.cell)
  simp only [unsplice, Mem.set_apply, h3, h4, if_false]

end

namespace IsList
variable {L : Layout} {m : Mem} {l : Nat} {xs ys : List Nat}

theorem congr {m' : Mem} (h : IsList m l xs) (hn : ∀ x ∈ l :: xs, m'.next x = m.next x)
    (hp : ∀ x ∈ xs ++ [l + 4], m'.prev x = m.prev x) (ht : m'.tail l = m.tail l) : IsList m' l xs :=
  ⟨h.linked.congr (by rw [← List.cons_append, List.dropLast_concat]; exact hn) hp, ht.trans h.tail⟩

theorem unique (hx : IsList m l xs) (hy : IsList m l ys) (htx : l + 4 ∉ xs) (hty : l + 4 ∉ ys) :
    xs = ys :=
  hx.linked.unique hy.linked htx hty

theorem mem_of_head (h : IsList m l xs) (hx : m.head l = x) (hne : x ≠ l + 4) : x ∈ xs := by
  cases xs with
  | nil =>
    have h1 : m.next l = l + 4 := (List.isChain_cons_cons.1 h.linked).1.1
    exact absurd (hx.symm.trans h1) hne
  | cons y ys =>
    have h1 : m.next l = y := (List.isChain_cons_cons.1 h.linked).1.1
    exact List.mem_cons.2 (.inl (hx.symm.trans h1))

theorem neighbours (h : IsList m l xs) (l₁ : List Nat) (a b : Nat) (l₂ : List Nat)
    (hxs : l :: (xs ++ [l + 4]) = l₁ ++ a :: b :: l₂) : m.next a = b ∧ m.prev b = a :=
  ⟨(hxs ▸ h.linked).nx_eq, (hxs ▸ h.linked).pv_eq⟩

end IsList

theorem exists_last (l : Nat) (xs : List Nat) : ∃ l₁ a, l :: xs = l₁ ++ [a] :=
  ⟨_, _, (List.dropLast_append_getLast (List.cons_ne_nil l xs)).symm⟩

theorem exists_first (t : Nat) (ys : List Nat) : ∃ b l₂, ys ++ [t] = b :: l₂ := by
  cases ys <;> simp

theorem neighbours_mem {l t a b : Nat} {xs ys l₁ l₂ : List Nat} (ha : l :: xs = l₁ ++ [a]) (hb : ys ++ [t] = b :: l₂)
    (zs : List Nat) : a ∈ l :: (xs ++ zs ++ ys) ∧ b ∈ xs ++ zs ++ ys ++ [t] := by
  have hal : a ∈ l :: xs := by rw [ha]; simp
  have hbl : b ∈ ys ++ [t] := by rw [hb]; simp
  constructor
  · rw [List.append_assoc, ← List.cons_append]
    exact List.mem_append_left _ hal
  · rw [List.append_assoc]
    exact List.mem_append_right _ hbl

namespace Rep
variable {L : Layout} {m m' : Mem} {σ : Seqs} {l l' n a b : Nat} {xs ys l₁ l₂ : List Nat}

theorem fwd (h : Rep L m σ) (hl : σ l = some xs) : ∀ x ∈ l :: xs, L.Fwd x := by
  intro x hx
  rcases List.mem_cons.1 hx with rfl | hx
  · exact .head (h.head _ _ hl)
  · exact .node (h.node _ _ hl x hx)

theorem bwd (h : Rep L m σ) (hl : σ l = some xs) : ∀ x ∈ xs ++ [l + 4], L.Bwd x := by
  intro x hx
  rcases List.mem_append.1 hx with hx | hx
  · exact .node (h.node _ _ hl x hx)
  · rw [List.mem_singleton.1 hx]; exact .tail (h.head _ _ hl)

theorem tail_notMem (h : Rep L m σ) (hl : σ l = some xs) : l + 4 ∉ xs := fun hx =>
  Layout.tail_ne_node (h.head _ _ hl) (h.node _ _ hl _ hx) rfl

theorem chain_nodup (h : Rep L m σ) (hl : σ l = some xs) : (l :: (xs ++ [l + 4])).Nodup := by
  have hx : l ∉ xs := fun hx => Layout.head_ne_node (h.head _ _ hl) (h.node _ _ hl _ hx) rfl
  have ht := h.tail_notMem hl
  have hnd := h.nodup _ _ hl
  grind

theorem owner_unique (h : Rep L m σ) {xs' : List Nat} (hl : σ l = some xs) (hl' : σ l' = some xs')
    (hn : n ∈ xs) (hn' : n ∈ xs') : l = l' :=
  by_contra fun hne => h.disj _ _ _ _ hl hl' hne hn hn'

/-- `Rep` reads the link words and the tail words of the lists only. -/
theorem congr (h : Rep L m σ) (hn : ∀ x, L.Fwd x → m'.next x = m.next x)
    (hp : ∀ x, L.Bwd x → m'.prev x = m.prev x) (ht : ∀ l ∈ L.heads, m'.tail l = m.tail l) :
    Rep L m' σ where
  head := h.head
  node := h.node
  isList l xs hl := (h.isList l xs hl).congr (fun x hx => hn x (h.fwd hl x hx))
    (fun x hx => hp x (h.bwd hl x hx)) (ht l (h.head l xs hl))
  nodup := h.nodup
  disj := h.disj

theorem congr_cell (h : Rep L m σ) (hc : ∀ c, L.Cell c → m' c = m c)
    (ht : ∀ l ∈ L.heads, m' (l + 4) = m (l + 4)) : Rep L m' σ :=
  h.congr (fun _ hx => hc _ hx.cell) (fun _ hx => hc _ hx.cell) ht

/-- An edit that touches `next` only at `a` and `n`, `prev` only at `n` and `b`, where `a` and `b`
are on list `l` and `n` is on no other list, keeps every other list. -/
theorem edit (h : Rep L m σ) (hl : σ l = some xs) (hxs : IsList m' l ys)
    (hys : ∀ x ∈ ys, x ∈ L.nodes) (hnd : ys.Nodup) (ha : a ∈ l :: xs) (hb : b ∈ xs ++ [l + 4])
    (hn : n ∈ L.nodes) (hfree : ∀ l' xs', σ l' = some xs' → l' ≠ l → n ∉ xs')
    (hsub : ∀ x ∈ ys, x ∈ xs ∨ x = n)
    (hnx : ∀ x, L.Fwd x → x ≠ a → x ≠ n → m'.next x = m.next x)
    (hpv : ∀ x, L.Bwd x → x ≠ b → x ≠ n → m'.prev x = m.prev x)
    (ht : ∀ l ∈ L.heads, m'.tail l = m.tail l) :
    Rep L m' (Function.update σ l (some ys)) := by
  have hothers : ∀ l' xs', l' ≠ l → σ l' = some xs' → IsList m' l' xs' := by
    intro l' xs' hne hl'
    have hnn : n ∉ l' :: (xs' ++ [l' + 4]) := by
      have h1 := Layout.head_ne_node (h.head _ _ hl') hn
      have h2 := Layout.tail_ne_node (h.head _ _ hl') hn
      have h3 := hfree l' xs' hl' hne
      grind
    refine (h.isList _ _ hl').congr (fun x hx => hnx x (h.fwd hl' x hx) ?_ ?_)
      (fun x hx => hpv x (h.bwd hl' x hx) ?_ ?_) (ht l' (h.head _ _ hl'))
    · rintro rfl
      rcases List.mem_cons.1 ha with rfl | ha
      · rcases List.mem_cons.1 hx with rfl | hx
        · exact hne rfl
        · exact Layout.head_ne_node (h.head _ _ hl) (h.node _ _ hl' _ hx) rfl
      · rcases List.mem_cons.1 hx with rfl | hx
        · exact Layout.head_ne_node (h.head _ _ hl') (h.node _ _ hl _ ha) rfl
        · exact h.disj _ _ _ _ hl hl' hne.symm ha hx
    · rintro rfl; exact hnn (by simp at hx ⊢; tauto)
    · rintro rfl
      rcases List.mem_append.1 hb with hb | hb <;> rcases List.mem_append.1 hx with hx | hx
      · exact h.disj _ _ _ _ hl hl' hne.symm hb hx
      · rw [List.mem_singleton.1 hx] at hb
        exact Layout.tail_ne_node (h.head _ _ hl') (h.node _ _ hl _ hb) rfl
      · rw [List.mem_singleton.1 hb] at hx
        exact Layout.tail_ne_node (h.head _ _ hl) (h.node _ _ hl' _ hx) rfl
      · simp at hb hx; omega
    · rintro rfl; exact hnn (by simp at hx ⊢; tauto)
  have hdisj : ∀ l' xs', l' ≠ l → σ l' = some xs' → ys.Disjoint xs' := by
    intro l' xs' hne hl' x hx hx'
    rcases hsub x hx with hx | rfl
    · exact h.disj _ _ _ _ hl hl' hne.symm hx hx'
    · exact hfree l' xs' hl' hne hx'
  refine ⟨?_, ?_, ?_, ?_, ?_⟩
  · intro l' xs' h'
    by_cases hl' : l' = l
    · exact hl' ▸ h.head _ _ hl
    · exact h.head _ _ (by simpa [hl'] using h')
  · intro l' xs' h' x hx
    by_cases hl' : l' = l
    · subst hl'; simp at h'; subst h'; exact hys x hx
    · exact h.node _ _ (by simpa [hl'] using h') x hx
  · intro l' xs' h'
    by_cases hl' : l' = l
    · subst hl'; simp at h'; subst h'; exact hxs
    · exact hothers _ _ hl' (by simpa [hl'] using h')
  · intro l' xs' h'
    by_cases hl' : l' = l
    · subst hl'; simp at h'; subst h'; exact hnd
    · exact h.nodup _ _ (by simpa [hl'] using h')
  · intro l' l'' xs' xs'' h' h'' hne
    by_cases hl' : l' = l
    · subst hl'; simp at h'; subst h'
      exact hdisj l'' xs'' hne.symm (by simpa [hne.symm] using h'')
    · have hσ : σ l' = some xs' := by simpa [hl'] using h'
      by_cases hl'' : l'' = l
      · subst hl''; simp at h''; subst h''
        exact (hdisj l' xs' hl' hσ).symm
      · exact h.disj _ _ _ _ hσ (by simpa [hl''] using h'') hne

theorem dropLast_chain {l : Nat} {xs : List Nat} : (l :: (xs ++ [l + 4])).dropLast = l :: xs := by
  rw [← List.cons_append, List.dropLast_concat]

theorem splice (h : Rep L m σ) (xs ys : List Nat) (hl : σ l = some (xs ++ ys)) (hn : n ∈ L.nodes) (hfree : σ.Free n)
    (ha : l :: xs = l₁ ++ [a]) (hb : ys ++ [l + 4] = b :: l₂) :
    Rep L (splice m a n b) (Function.update σ l (some (xs ++ n :: ys))) := by
  have ⟨hal, hbl⟩ : a ∈ l :: (xs ++ ys) ∧ b ∈ xs ++ ys ++ [l + 4] := by
    simpa using neighbours_mem ha hb []
  have hfa : L.Fwd a := h.fwd hl a hal
  have hbb : L.Bwd b := h.bwd hl b hbl
  have hnl : ∀ x ∈ l :: (xs ++ ys ++ [l + 4]), x ≠ n := by
    have h1 := Layout.head_ne_node (h.head _ _ hl) hn
    have h2 := Layout.tail_ne_node (h.head _ _ hl) hn
    have h3 := hfree _ _ hl
    grind
  have hchain : l :: (xs ++ ys ++ [l + 4]) = l₁ ++ a :: b :: l₂ := by
    rw [List.append_assoc, hb, ← List.cons_append, ha]; simp
  have htail : ∀ l ∈ L.heads, (Krypton.splice m a n b).tail l = m.tail l := fun l' hl' =>
    splice_of_not_cell hfa hn hbb (Layout.not_cell_tail hl')
  have hlist : IsList (Krypton.splice m a n b) l (xs ++ n :: ys) := by
    refine ⟨?_, (htail l (h.head _ _ hl)).trans (h.isList _ _ hl).tail⟩
    have heq : l :: (xs ++ n :: ys ++ [l + 4]) = l₁ ++ a :: n :: b :: l₂ := by
      rw [List.append_assoc, List.cons_append, hb, ← List.cons_append, ha]; simp
    have hlk := (h.isList _ _ hl).linked
    have hnd := h.chain_nodup hl
    rw [hchain] at hlk hnd
    rw [heq]
    refine hlk.link hnd (fun x hx hxa => ?_) (fun x hx hxb => ?_) ?_ ?_ ?_ ?_
    · rw [← hchain, dropLast_chain] at hx
      rw [next_splice hn hbb (h.fwd hl x hx), if_neg hxa, if_neg (hnl x (by simp at hx ⊢; tauto))]
    · rw [← hchain] at hx
      rw [prev_splice hfa hn (h.bwd hl x hx), if_neg hxb, if_neg (hnl x (List.mem_of_mem_tail hx))]
    · rw [next_splice hn hbb hfa, if_pos rfl]
    · rw [prev_splice hfa hn (.node hn), if_neg (hnl b (by simp at hbl ⊢; tauto)).symm, if_pos rfl]
    · rw [next_splice hn hbb (.node hn), if_neg (hnl a (by simp at hal ⊢; tauto)).symm, if_pos rfl]
    · rw [prev_splice hfa hn hbb, if_pos rfl]
  refine h.edit hl hlist (fun x hx => ?_) ?_ hal hbl hn (fun l' xs' hl' _ => hfree l' xs' hl')
    (fun x hx => ?_) (fun x hx hxa hxn => ?_) (fun x hx hxb hxn => ?_) htail
  · have := h.node _ _ hl x
    grind
  · have h1 := h.nodup _ _ hl
    have h2 := hfree _ _ hl
    grind
  · simp at hx ⊢; tauto
  · rw [next_splice hn hbb hx, if_neg hxa, if_neg hxn]
  · rw [prev_splice hfa hn hx, if_neg hxb, if_neg hxn]

theorem unsplice (h : Rep L m σ) (xs ys : List Nat) (hl : σ l = some (xs ++ n :: ys)) (ha : l :: xs = l₁ ++ [a])
    (hb : ys ++ [l + 4] = b :: l₂) :
    Rep L (unsplice m a b) (Function.update σ l (some (xs ++ ys))) := by
  have ⟨hal, hbl⟩ : a ∈ l :: (xs ++ n :: ys) ∧ b ∈ xs ++ n :: ys ++ [l + 4] := by
    simpa using neighbours_mem ha hb [n]
  have hfa : L.Fwd a := h.fwd hl a hal
  have hbb : L.Bwd b := h.bwd hl b hbl
  have hn : n ∈ L.nodes := h.node _ _ hl n (by simp)
  have hchain : l :: (xs ++ ys ++ [l + 4]) = l₁ ++ a :: b :: l₂ := by
    rw [List.append_assoc, hb, ← List.cons_append, ha]; simp
  have hchain' : l :: (xs ++ n :: ys ++ [l + 4]) = l₁ ++ a :: n :: b :: l₂ := by
    rw [List.append_assoc, List.cons_append, hb, ← List.cons_append, ha]; simp
  have htail : ∀ l ∈ L.heads, (Krypton.unsplice m a b).tail l = m.tail l := fun l' hl' =>
    unsplice_of_not_cell hfa hbb (Layout.not_cell_tail hl')
  have hlist : IsList (Krypton.unsplice m a b) l (xs ++ ys) := by
    refine ⟨?_, (htail l (h.head _ _ hl)).trans (h.isList _ _ hl).tail⟩
    have hlk := (h.isList _ _ hl).linked
    have hnd := h.chain_nodup hl
    rw [hchain'] at hlk hnd
    rw [hchain]
    refine hlk.unlink (by grind) (fun x hx hxa => ?_) (fun x hx hxb => ?_) ?_ ?_
    · rw [← hchain, dropLast_chain] at hx
      rw [next_unsplice hbb (h.fwd hl x (by simp at hx ⊢; tauto)), if_neg hxa]
    · rw [← hchain, List.tail_cons] at hx
      rw [prev_unsplice hfa (h.bwd hl x (by simp at hx ⊢; tauto)), if_neg hxb]
    · rw [next_unsplice hbb hfa, if_pos rfl]
    · rw [prev_unsplice hfa hbb, if_pos rfl]
  have hnd := h.nodup _ _ hl
  refine h.edit hl hlist (fun x hx => ?_) (by grind) hal hbl hn (fun l' xs' hl' hne => ?_)
    (fun x hx => ?_) (fun x hx hxa _ => ?_) (fun x hx hxb _ => ?_) htail
  · have := h.node _ _ hl x
    grind
  · exact h.disj _ _ _ _ hl hl' hne.symm (by simp)
  · simp at hx ⊢; tauto
  · rw [next_unsplice hbb hx, if_neg hxa]
  · rw [prev_unsplice hfa hx, if_neg hxb]

end Rep

end Krypton
