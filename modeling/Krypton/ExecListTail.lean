import Krypton.ExecListRun

/-!
# `list.c` from the tail

In an empty list `tailPrev` is the header, so `remove_tail` takes the header for the last node. `get_prev` tests the
`prev` words and returns the `next` word.
-/

namespace Krypton

namespace Rep
variable {L : Layout} {m m' : Mem} {σ : Seqs} {l a b x z fuel : Nat} {xs ys : List Nat}

/-! ### `remove_tail` -/

theorem removeTail_eq (h : Rep L m σ) (hl : σ l = some (xs ++ [x])) :
    removeTail m l = (x, Krypton.remove m x) := by
  have htail : m.tailPrev l = x := h.tailPrev_eq hl (rfl : _ = l :: xs ++ [x])
  have hx : x ≠ 0 := L.node_ne x (h.node _ _ hl x (by simp))
  unfold removeTail Krypton.remove
  rw [htail, if_pos hx]

theorem removeTail_concat (h : Rep L m σ) (hl : σ l = some (xs ++ [x])) :
    (removeTail m l).1 = x ∧ Rep L (removeTail m l).2 (Function.update σ l (some xs)) := by
  have hr := (h.remove hl).1
  rw [List.append_nil] at hr
  rw [h.removeTail_eq hl]
  exact ⟨rfl, hr⟩

theorem removeTail_nil (h : Rep L m σ) (hl : σ l = some []) : (removeTail m l).1 = l := by
  have htail : m.tailPrev l = l := h.tailPrev_eq hl (rfl : _ = [] ++ [l])
  have hl0 : l ≠ 0 := L.head_ne l (h.head _ _ hl)
  unfold removeTail
  rw [htail, if_pos hl0]

/-! ### `get_tail` and `get_prev` -/

theorem getTail_eq (h : Rep L m σ) (hl : σ l = some xs) : getTail m l = xs.getLastD 0 := by
  have h1 := h.next_headD [] hl
  have h2 := h.head_eq hl
  have h3 := L.head_ne l (h.head _ _ hl)
  unfold getTail
  rw [h2]
  rcases xs.eq_nil_or_concat' with rfl | ⟨ys, z, rfl⟩
  · rw [if_neg fun h4 => h4.2 (h1.2 rfl)]
    rfl
  · have htail : m.tailPrev l = z := h.tailPrev_eq hl (rfl : _ = l :: ys ++ [z])
    rw [if_pos ⟨h3, fun h4 => by simpa using h1.1 h4⟩, htail]
    simp

/-- In front of the first node lies the header, whose `prev` word is `tail`. -/
theorem getPrev_first (h : Rep L m σ) (hl : σ l = some (x :: xs)) : getPrev m x = 0 := by
  have hl' : σ l = some ([] ++ x :: xs) := hl
  have hprev : m.prev x = l := h.prev_eq hl' (rfl : _ = [] ++ [l])
  have htail : m.prev l = 0 := (h.isList _ _ hl).tail
  unfold getPrev
  rw [if_neg]
  rintro ⟨-, -, h1⟩
  rw [hprev] at h1
  exact h1 htail

theorem getPrev_eq (h : Rep L m σ) (hl : σ l = some (xs ++ a :: b :: ys)) : getPrev m b = ys.headD (l + 4) := by
  have hl' : σ l = some ((xs ++ [a]) ++ b :: ys) := by simpa using hl
  obtain ⟨l₁, c, hc⟩ := exists_last l xs
  have hcl : c ∈ l :: (xs ++ a :: b :: ys) := by
    have : c ∈ l :: xs := by rw [hc]; simp
    simp at this ⊢; tauto
  have hb : b ≠ 0 := L.node_ne b (h.node _ _ hl b (by simp))
  have ha : a ≠ 0 := L.node_ne a (h.node _ _ hl a (by simp))
  have hc0 : c ≠ 0 := (h.fwd hl c hcl).ne_zero
  have hpb : m.prev b = a := h.prev_eq hl' (rfl : _ = l :: xs ++ [a])
  have hpa : m.prev a = c := h.prev_eq hl hc
  unfold getPrev
  rw [hpb, hpa, if_pos ⟨hb, ha, hc0⟩]
  exact h.next_eq hl'

theorem getPrev_tail (h : Rep L m σ) (hl : σ l = some xs) : getPrev m (l + 4) = 0 := by
  unfold getPrev
  split_ifs
  · exact h.next_tail hl
  · rfl

/-- From the last of several nodes the walk goes to the tail sentinel and ends. -/
theorem walk_getPrev (h : Rep L m σ) (hl : σ l = some (xs ++ [a, z])) (hw : walk (getPrev m) 0 fuel z = some ys) :
    ys = [z, l + 4] := by
  have hz : z ≠ 0 := L.node_ne z (h.node _ _ hl z (by simp))
  have hl4 : l + 4 ≠ 0 := by omega
  have h1 : getPrev m z = l + 4 := h.getPrev_eq (hl : σ l = some (xs ++ a :: z :: []))
  have h2 := h.getPrev_tail hl
  rcases fuel with _ | _ | _ | fuel
  · cases hw
  · simp [walk, hz] at hw
  · simp [walk, hz, h1] at hw
  · simpa [walk, hz, h1, hl4, h2] using hw.symm

end Rep

/-! ### Both ends -/

inductive ListEnd
  | head
  | tail
deriving DecidableEq

/-- `remove_head` or `remove_tail`. -/
def ListEnd.take (m : Mem) (l : Nat) : ListEnd → Nat × Mem
  | head => removeHead m l
  | tail => removeTail m l

/-- Calls at the ends given, with the nodes they return. -/
def drain (l : Nat) : Mem → List ListEnd → List Nat × Mem
  | m, [] => ([], m)
  | m, e :: ends =>
    let r := e.take m l
    let d := drain l r.2 ends
    (if r.1 = 0 then d.1 else r.1 :: d.1, d.2)

namespace Rep
variable {L : Layout} {m : Mem} {σ : Seqs} {l : Nat} {xs : List Nat}

/-- A drain yields each node once exactly if `remove_tail` is not called when the list is empty. -/
theorem drain_perm_iff (h : Rep L m σ) (hl : σ l = some xs) (ends : List ListEnd) (hlen : xs.length ≤ ends.length) :
    (drain l m ends).1.Perm xs ↔ .tail ∉ ends.drop xs.length := by
  induction ends generalizing m σ xs with
  | nil =>
    obtain rfl : xs = [] := List.length_eq_zero_iff.1 (Nat.le_zero.1 hlen)
    simp [drain]
  | cons e ends ih =>
    cases e with
    | head =>
      cases xs with
      | nil =>
        have hr : ListEnd.head.take m l = (0, m) := h.removeHead_nil hl
        simpa [drain, hr] using ih h hl (by simp)
      | cons x xs =>
        have hx : x ≠ 0 := L.node_ne x (h.node _ _ hl x (by simp))
        obtain ⟨h1, h2, -⟩ := h.removeHead_cons hl
        have hrest : (drain l (removeHead m l).2 ends).1.Perm xs ↔ .tail ∉ ends.drop xs.length :=
          ih h2 (Function.update_self ..) (Nat.le_of_succ_le_succ hlen)
        have hd : (drain l m (.head :: ends)).1 = x :: (drain l (removeHead m l).2 ends).1 := by
          simp [drain, ListEnd.take, h1, hx]
        rw [hd, List.perm_cons, hrest]
        rfl
    | tail =>
      rcases xs.eq_nil_or_concat' with rfl | ⟨xs, x, rfl⟩
      · -- the header is returned
        have hr : (ListEnd.tail.take m l).1 = l := h.removeTail_nil hl
        have hl0 : l ≠ 0 := L.head_ne l (h.head _ _ hl)
        simp [drain, hr, hl0]
      · have hx : x ≠ 0 := L.node_ne x (h.node _ _ hl x (by simp))
        obtain ⟨h1, h2⟩ := h.removeTail_concat hl
        rw [List.length_append, List.length_singleton] at hlen ⊢
        have hrest : (drain l (removeTail m l).2 ends).1.Perm xs ↔ .tail ∉ ends.drop xs.length :=
          ih h2 (Function.update_self ..) (Nat.le_of_succ_le_succ hlen)
        have hd : (drain l m (.tail :: ends)).1 = x :: (drain l (removeTail m l).2 ends).1 := by
          simp [drain, ListEnd.take, h1, hx]
        rw [hd, (List.perm_append_singleton x xs).congr_right, List.perm_cons, hrest]
        rfl

end Rep

/-- What `remove_tail` is to do: the last node is returned and taken off; an empty list returns `NULL` and nothing is
written. -/
structure TailRemoved (m : Mem) (l : Nat) (xs : List Nat) : Prop where
  ret : (removeTail m l).1 = xs.getLastD 0
  holds : Holds (removeTail m l).2 l xs.dropLast
  silent : xs = [] → (removeTail m l).2 = m

/-- Runs in which `remove_tail`, too, is called, but not on an empty list. -/
inductive TailRun (L : Layout) (m₀ : Mem) : Mem → Seqs → Prop
  | start : TailRun L m₀ m₀ fun _ => none
  | call {m m' : Mem} {σ : Seqs} {r : Nat} (fuel : Nat) (o : Op) : TailRun L m₀ m σ → o.Pre L σ →
      o.exec fuel m = some (r, m') → TailRun L m₀ m' (o.act m.ByPri σ)
  | removeTail {m : Mem} {σ : Seqs} {l : Nat} {xs : List Nat} : TailRun L m₀ m σ → σ l = some xs → xs ≠ [] →
      TailRun L m₀ (removeTail m l).2 (Function.update σ l (some xs.dropLast))

variable {L : Layout} {m₀ m : Mem} {σ : Seqs} {l : Nat} {xs : List Nat}

theorem TailRun.rep (h : TailRun L m₀ m σ) : Rep L m σ := by
  induction h with
  | start => exact ⟨by simp, by simp, by simp, by simp, by simp⟩
  | call fuel o _ hpre hex ih => exact (ih.call hpre hex).1
  | @removeTail m σ l xs _ hl hne ih =>
    obtain ⟨ys, z, rfl⟩ := xs.eq_nil_or_concat'.resolve_left hne
    rw [List.dropLast_concat]
    exact (ih.removeTail_concat hl).2

theorem Rep.tailRemoved_iff (h : Rep L m σ) (hl : σ l = some xs) : TailRemoved m l xs ↔ xs ≠ [] := by
  constructor
  · rintro hr rfl
    have hl0 : l ≠ 0 := L.head_ne l (h.head _ _ hl)
    exact hl0 ((h.removeTail_nil hl).symm.trans hr.ret)
  · intro hne
    obtain ⟨ys, z, rfl⟩ := xs.eq_nil_or_concat'.resolve_left hne
    obtain ⟨h1, h2⟩ := h.removeTail_concat hl
    refine ⟨by simpa using h1, ?_, fun he => absurd he hne⟩
    rw [List.dropLast_concat]
    exact h2.holds (by simp)

/-- **`remove_tail` mirrors `remove_head` on a list that is not empty.** While it is called on such lists only, every
list stays well formed, and it fails on exactly the empty ones; a drain from both ends yields each node once exactly if
no `remove_tail` comes when the list is empty. -/
theorem remove_tail_mirrors_iff (h : TailRun L m₀ m σ) (hl : σ l = some xs) :
    Holds m l xs ∧ (TailRemoved m l xs ↔ xs ≠ []) ∧
      ∀ ends : List ListEnd, xs.length ≤ ends.length →
        ((drain l m ends).1.Perm xs ↔ .tail ∉ ends.drop xs.length) :=
  ⟨h.rep.holds hl, h.rep.tailRemoved_iff hl, h.rep.drain_perm_iff hl⟩

theorem tailRun_empty : TailRun twoLists (fun _ => 0) (newList (fun _ => 0) 100)
    (Function.update (fun _ => none) 100 (some [])) :=
  TailRun.start.call 0 (.newList 100) (by simp [Op.Pre, twoLists]) rfl

theorem tailRun_one : TailRun twoLists (fun _ => 0) (addTail (newList (fun _ => 0) 100) 100 200)
    (Function.update (Function.update (fun _ => none) 100 (some [])) 100 (some [200])) :=
  tailRun_empty.call 0 (.addTail 100 200) ⟨⟨_, rfl⟩, by simp [twoLists], (Seqs.Free.none _).update (by simp)⟩ rfl

theorem tailRun_two : TailRun twoLists (fun _ => 0) (addTail (addTail (newList (fun _ => 0) 100) 100 200) 100 220)
    (Function.update (Function.update (Function.update (fun _ => none) 100 (some [])) 100 (some [200])) 100
      (some [200, 220])) :=
  tailRun_one.call 0 (.addTail 100 220)
    ⟨⟨_, rfl⟩, by simp [twoLists], ((Seqs.Free.none _).update (by simp)).update (by simp)⟩ rfl

theorem remove_tail_mirrors_iff_two :
    TailRemoved (addTail (addTail (newList (fun _ => 0) 100) 100 200) 100 220) 100 [200, 220] ∧
    (drain 100 (addTail (addTail (newList (fun _ => 0) 100) 100 200) 100 220) [.tail, .head, .head]).1.Perm
      [200, 220] := by
  obtain ⟨-, h1, h2⟩ := @remove_tail_mirrors_iff _ _ _ _ 100 [200, 220] tailRun_two rfl
  exact ⟨h1.2 (by decide), (h2 [.tail, .head, .head] (by decide)).2 (by decide)⟩

/-- The empty list at 100 yields 100. -/
theorem remove_tail_takes_header : ¬ ∀ (L : Layout) (m₀ m : Mem) (σ : Seqs) (l : Nat) (xs : List Nat),
    TailRun L m₀ m σ → σ l = some xs → TailRemoved m l xs := by
  intro h
  have hret := (h _ _ _ _ 100 [] tailRun_empty rfl).ret
  exact absurd (hret.symm.trans (tailRun_empty.rep.removeTail_nil rfl)) (by decide)

/-- The walk from the tail is the list backwards only if there is no second node to go to. -/
theorem Rep.walk_reverses_iff (h : Rep L m σ) (hl : σ l = some xs) :
    (∃ fuel, walk (getPrev m) 0 fuel (getTail m l) = some xs.reverse) ↔ xs.length ≤ 1 := by
  constructor
  · rintro ⟨fuel, hw⟩
    by_contra hlen
    obtain ⟨p, a, z, rfl⟩ : ∃ p a z, xs = p ++ [a, z] := by
      rcases xs.eq_nil_or_concat' with rfl | ⟨ys, z, rfl⟩
      · simp at hlen
      rcases ys.eq_nil_or_concat' with rfl | ⟨p, a, rfl⟩
      · simp at hlen
      · exact ⟨p, a, z, by simp⟩
    rw [h.getTail_eq hl, show (p ++ [a, z]).getLastD 0 = z by simp] at hw
    have hmem : l + 4 ∈ (p ++ [a, z]).reverse := by
      rw [h.walk_getPrev hl hw]
      simp
    exact h.tail_notMem hl (List.mem_reverse.1 hmem)
  · intro hlen
    rw [h.getTail_eq hl]
    match xs, hlen with
    | [], _ => exact ⟨1, rfl⟩
    | [x], _ =>
      have hx : x ≠ 0 := L.node_ne x (h.node _ _ hl x (by simp))
      refine ⟨2, ?_⟩
      simp [walk, hx, h.getPrev_first hl]

theorem Rep.neighbours_iff (h : Rep L m σ) (hl : σ l = some xs) :
    (∀ p a b q, xs = p ++ a :: b :: q → (getNext m a = b ↔ getPrev m b = a)) ↔ xs.length ≤ 1 := by
  constructor
  · intro hlaw
    by_contra hlen
    match xs, hlen with
    | [], hlen => simp at hlen
    | [x], hlen => simp at hlen
    | a :: b :: q, _ =>
      have hl' : σ l = some ([] ++ a :: b :: q) := hl
      have hnext : getNext m a = b := h.getNext_eq hl'
      have hprev := (hlaw [] a b q rfl).1 hnext
      rw [h.getPrev_eq hl'] at hprev
      -- the node behind `b`, or the tail sentinel, is not the one in front of it
      have hnd := h.nodup _ _ hl
      have htail := h.tail_notMem hl
      cases q with
      | nil => simp_all
      | cons c q => simp_all
  · rintro hlen p a b q rfl
    simp at hlen
    omega

/-- **`get_prev` does not lead back.** Both the walk and the law of neighbours hold in lists of at most one node
only. -/
theorem get_prev_reverses_iff (h : Rep L m σ) (hl : σ l = some xs) :
    Holds m l xs ∧
      ((∃ fuel, walk (getPrev m) 0 fuel (getTail m l) = some xs.reverse) ↔ xs.length ≤ 1) ∧
      ((∀ p a b q, xs = p ++ a :: b :: q → (getNext m a = b ↔ getPrev m b = a)) ↔ xs.length ≤ 1) :=
  ⟨h.holds hl, h.walk_reverses_iff hl, h.neighbours_iff hl⟩

theorem get_prev_reverses_iff_one :
    ∃ fuel, walk (getPrev (addTail (newList (fun _ => 0) 100) 100 200)) 0 fuel
      (getTail (addTail (newList (fun _ => 0) 100) 100 200) 100) = some [200] :=
  (@get_prev_reverses_iff _ _ _ 100 [200] tailRun_one.rep rfl).2.1.2 (by decide)

/-- Two nodes: the walk visits the second and the tail sentinel. -/
theorem get_prev_finds_sentinel : ¬ ∀ (L : Layout) (m : Mem) (σ : Seqs) (l : Nat) (xs : List Nat),
    Rep L m σ → σ l = some xs → ∃ fuel, walk (getPrev m) 0 fuel (getTail m l) = some xs.reverse := by
  intro h
  obtain ⟨fuel, hw⟩ := h _ _ _ 100 [200, 220] tailRun_two.rep rfl
  rw [@Rep.getTail_eq _ _ _ 100 [200, 220] tailRun_two.rep rfl] at hw
  exact absurd (@Rep.walk_getPrev _ _ _ 100 _ _ _ [] _ tailRun_two.rep rfl hw) (by decide)

end Krypton
