import Krypton.ExecListOps

/-!
# Runs of the list functions refine operations on sequences

Any number of lists and nodes share one memory. `Op.act` says what each function does to the
sequences, `Op.exec` runs it, and `ListRun` is every order of calls in which a node is inserted
only when on no list and removed only when on one.
-/

namespace Krypton

/-- A call to one of the functions. -/
inductive Op
  | newList (l : Nat)
  | addHead (l n : Nat)
  | addTail (l n : Nat)
  | enqueue (l n : Nat)
  | removeHead (l : Nat)
  | remove (n : Nat)

namespace Op

/-- The call on memory: the returned node (`0` for none) and the new memory. -/
def exec (fuel : Nat) (m : Mem) : Op → Option (Nat × Mem)
  | newList l => some (0, Krypton.newList m l)
  | addHead l n => some (0, Krypton.addHead m l n)
  | addTail l n => some (0, Krypton.addTail m l n)
  | enqueue l n => (Krypton.enqueue fuel m l n).map fun m => (0, m)
  | removeHead l => some (Krypton.removeHead m l)
  | remove n => some (0, Krypton.remove m n)

/-- When the caller may make the call. -/
def Pre (L : Layout) (σ : Seqs) : Op → Prop
  | newList l => l ∈ L.heads
  | addHead l n | addTail l n | enqueue l n => (∃ xs, σ l = some xs) ∧ n ∈ L.nodes ∧ σ.Free n
  | removeHead l => ∃ xs, σ l = some xs
  | remove n => ∃ l xs, σ l = some xs ∧ n ∈ xs

/-- The call on sequences. `le a b`: `a` may stand in front of `b`. -/
def act (le : Nat → Nat → Prop) [DecidableRel le] (σ : Seqs) : Op → Seqs
  | newList l => Function.update σ l (some [])
  | addHead l n => Function.update σ l ((σ l).map (n :: ·))
  | addTail l n => Function.update σ l ((σ l).map (· ++ [n]))
  | enqueue l n => Function.update σ l ((σ l).map (·.orderedInsert le n))
  | removeHead l => Function.update σ l ((σ l).map List.tail)
  | remove n => fun l => (σ l).map (·.erase n)

/-- What the call returns: the first node for `remove_head`, `0` if there is none. -/
def ret (σ : Seqs) : Op → Nat
  | removeHead l => ((σ l).getD []).headD 0
  | _ => 0

/-- The link words of list `l` with nodes `xs`. -/
def LinkWord (l : Nat) (xs : List Nat) (c : Nat) : Prop :=
  c ∈ l :: xs ∨ ∃ y ∈ xs ++ [l + 4], c = y + 4

/-- The words the call may write: those of its own list and of its own node. -/
def Writes (σ : Seqs) (c : Nat) : Op → Prop
  | newList l => c = l ∨ c = l + 4 ∨ c = l + 8
  | addHead l n | addTail l n | enqueue l n =>
    ∃ xs, σ l = some xs ∧ (LinkWord l xs c ∨ c = n ∨ c = n + 4)
  | removeHead l => ∃ xs, σ l = some xs ∧ xs ≠ [] ∧ LinkWord l xs c
  | remove n => ∃ l xs, σ l = some xs ∧ n ∈ xs ∧ LinkWord l xs c

end Op

/-- The memories and sequences reached from any memory `m₀` by allowed calls. -/
inductive ListRun (L : Layout) (m₀ : Mem) : Mem → Seqs → Prop
  | start : ListRun L m₀ m₀ fun _ => none
  | call {m m' : Mem} {σ : Seqs} {r : Nat} (fuel : Nat) (o : Op) : ListRun L m₀ m σ → o.Pre L σ →
      o.exec fuel m = some (r, m') → ListRun L m₀ m' (o.act m.ByPri σ)

/-- Following `nx` from `x` up to `stop`; `none` if the fuel does not reach it. -/
def walk (nx : Nat → Nat) (stop : Nat) : Nat → Nat → Option (List Nat)
  | 0, _ => none
  | fuel + 1, x => if x = stop then some [] else (walk nx stop fuel (nx x)).map (x :: ·)

/-- The header at `l` holds the sequence `xs`, read in both directions. -/
structure Holds (m : Mem) (l : Nat) (xs : List Nat) : Prop where
  nodup : xs.Nodup
  forward : ∃ fuel, walk (getNext m) 0 fuel (getHead m l) = some xs
  backward : ∃ fuel, walk m.prev l fuel (m.tailPrev l) = some xs.reverse

/-- What a call in `m` with sequences `σ` must do, whatever fuel it ends with. -/
structure Refines (m : Mem) (σ : Seqs) (o : Op) : Prop where
  returns : ∃ fuel r m', o.exec fuel m = some (r, m')
  ret : ∀ fuel r m', o.exec fuel m = some (r, m') → r = o.ret σ
  holds : ∀ fuel r m', o.exec fuel m = some (r, m') →
    ∀ l xs, o.act m.ByPri σ l = some xs → Holds m' l xs
  frame : ∀ fuel r m', o.exec fuel m = some (r, m') → ∀ c, ¬ o.Writes σ c → m' c = m c
  sorted : ∀ fuel r m' l n xs, o = .enqueue l n → o.exec fuel m = some (r, m') → σ l = some xs →
    xs.Pairwise m.ByPri → (xs.orderedInsert m.ByPri n).Pairwise m'.ByPri

namespace Rep
variable {L : Layout} {m m' : Mem} {σ : Seqs} {l n r fuel : Nat} {xs ys : List Nat}

theorem walk_getNext (h : Rep L m σ) (xs ys : List Nat) (hl : σ l = some (xs ++ ys)) :
    walk (getNext m) 0 (ys.length + 1) (ys.headD 0) = some ys := by
  induction ys generalizing xs with
  | nil => rfl
  | cons y ys ih =>
    have hy : y ≠ 0 := L.node_ne y (h.node _ _ hl y (by simp))
    rw [List.headD_cons, List.length_cons, walk, if_neg hy, h.getNext_eq hl,
      ih (xs ++ [y]) (by simpa using hl)]
    rfl

theorem walk_prev (h : Rep L m σ) (xs ys : List Nat) (hl : σ l = some (xs ++ ys)) {l₁ : List Nat}
    {a : Nat} (ha : l :: xs = l₁ ++ [a]) : walk m.prev l (xs.length + 1) a = some xs.reverse := by
  induction xs using List.reverseRecOn generalizing ys l₁ a with
  | nil =>
    obtain ⟨-, he⟩ : l₁ = [] ∧ [a] = [l] := by
      simpa using List.append_eq_singleton_iff.1 ha.symm
    obtain rfl : a = l := by simpa using he
    simp [walk]
  | append_singleton xs x ih =>
    have ha' : (l :: xs) ++ [x] = l₁ ++ [a] := by simpa using ha
    obtain rfl : x = a := by simpa using (List.append_inj' ha' rfl).2
    have hx : x ≠ l := (Layout.head_ne_node (h.head _ _ hl) (h.node _ _ hl x (by simp))).symm
    obtain ⟨l₁, a, ha⟩ := exists_last l xs
    have hl' : σ l = some (xs ++ x :: ys) := by simpa using hl
    rw [List.length_append, List.length_singleton, walk, if_neg hx, h.prev_eq hl' ha,
      ih (x :: ys) hl' ha]
    simp

theorem holds (h : Rep L m σ) (hl : σ l = some xs) : Holds m l xs := by
  obtain ⟨l₁, a, ha⟩ := exists_last l xs
  refine ⟨h.nodup _ _ hl, ⟨xs.length + 1, ?_⟩, ⟨xs.length + 1, ?_⟩⟩
  · rw [h.getHead_eq hl]; exact h.walk_getNext [] xs hl
  · rw [h.tailPrev_eq hl ha]; exact h.walk_prev xs [] (by simpa using hl) ha

theorem erase_eq_update (h : Rep L m σ) (hl : σ l = some (xs ++ n :: ys)) :
    (fun l => (σ l).map (·.erase n)) = Function.update σ l (some (xs ++ ys)) := by
  funext l'
  by_cases hne : l' = l
  · subst hne
    have hx : n ∉ xs := by have := h.nodup _ _ hl; grind
    simp [hl, List.erase_append_right _ hx]
  · rw [Function.update_of_ne hne]
    cases hl' : σ l' with
    | none => rfl
    | some xs' =>
      have : n ∉ xs' := fun hn => hne (h.owner_unique hl hl' (by simp) hn).symm
      simp [List.erase_of_not_mem this]

end Rep

theorem Frame.of_not_writes {m m' : Mem} {l n c : Nat} {xs : List Nat} (hf : Frame m m' l n xs)
    (hc : ¬ (Op.LinkWord l xs c ∨ c = n ∨ c = n + 4)) : m' c = m c := by
  simp only [Op.LinkWord, not_or, not_exists, not_and] at hc
  exact hf c hc.1.1 hc.1.2 hc.2.1 hc.2.2

namespace Rep
variable {L : Layout} {m m' : Mem} {σ : Seqs} {l n r fuel : Nat} {xs ys : List Nat}

/-- One allowed call: the sequences change as `Op.act` says, and nothing else is written. -/
theorem call (h : Rep L m σ) {o : Op} (hpre : o.Pre L σ) (hex : o.exec fuel m = some (r, m')) :
    Rep L m' (o.act m.ByPri σ) ∧ r = o.ret σ ∧ ∀ c, ¬ o.Writes σ c → m' c = m c := by
  cases o with
  | newList l =>
    simp only [Op.exec, Option.some.injEq, Prod.mk.injEq] at hex
    obtain ⟨rfl, rfl⟩ := hex
    obtain ⟨h1, h2⟩ := h.newList hpre
    refine ⟨h1, rfl, fun c hc => ?_⟩
    simp only [Op.Writes, not_or] at hc
    exact h2 c hc.1 hc.2.1 hc.2.2
  | addHead l n =>
    simp only [Op.exec, Option.some.injEq, Prod.mk.injEq] at hex
    obtain ⟨rfl, rfl⟩ := hex
    obtain ⟨⟨xs, hl⟩, hn, hfree⟩ := hpre
    obtain ⟨h1, h2⟩ := h.addHead hl hn hfree
    exact ⟨by simpa [Op.act, hl] using h1, rfl, fun c hc => h2.of_not_writes fun hw => hc ⟨xs, hl, hw⟩⟩
  | addTail l n =>
    simp only [Op.exec, Option.some.injEq, Prod.mk.injEq] at hex
    obtain ⟨rfl, rfl⟩ := hex
    obtain ⟨⟨xs, hl⟩, hn, hfree⟩ := hpre
    obtain ⟨h1, h2⟩ := h.addTail hl hn hfree
    exact ⟨by simpa [Op.act, hl] using h1, rfl, fun c hc => h2.of_not_writes fun hw => hc ⟨xs, hl, hw⟩⟩
  | enqueue l n =>
    simp only [Op.exec, Option.map_eq_some_iff, Prod.mk.injEq] at hex
    obtain ⟨m₁, he, rfl, rfl⟩ := hex
    obtain ⟨⟨xs, hl⟩, hn, hfree⟩ := hpre
    obtain ⟨h1, h2⟩ := h.enqueue hl hn hfree he
    exact ⟨by simpa [Op.act, hl] using h1, rfl, fun c hc => h2.of_not_writes fun hw => hc ⟨xs, hl, hw⟩⟩
  | removeHead l =>
    obtain ⟨xs, hl⟩ := hpre
    simp only [Op.exec, Option.some.injEq] at hex
    cases xs with
    | nil =>
      rw [h.removeHead_nil hl, Prod.mk.injEq] at hex
      obtain ⟨rfl, rfl⟩ := hex
      refine ⟨?_, by simp [Op.ret, hl], fun c _ => rfl⟩
      have : (Op.removeHead l).act m.ByPri σ = σ := by simp [Op.act, hl]
      rwa [this]
    | cons x xs =>
      obtain ⟨h1, h2, h3⟩ := h.removeHead_cons hl
      rw [hex] at h1 h2 h3
      refine ⟨by simpa [Op.act, hl] using h2, by simpa [Op.ret, hl] using h1, fun c hc => ?_⟩
      refine h3.of_not_writes fun hw => hc ⟨_, hl, by simp, ?_⟩
      rcases hw with hw | rfl | rfl
      · exact hw
      · exact .inl (by simp)
      · exact .inr ⟨x, by simp, rfl⟩
  | remove n =>
    simp only [Op.exec, Option.some.injEq, Prod.mk.injEq] at hex
    obtain ⟨rfl, rfl⟩ := hex
    obtain ⟨l, xs, hl, hn⟩ := hpre
    obtain ⟨xs, ys, rfl⟩ := List.append_of_mem hn
    obtain ⟨h1, h2⟩ := h.remove hl
    refine ⟨?_, rfl, fun c hc => h2.of_not_writes fun hw => hc ⟨l, _, hl, hn, ?_⟩⟩
    · rwa [Op.act, h.erase_eq_update hl]
    rcases hw with hw | rfl | rfl
    · exact hw
    · exact .inl (by simp)
    · exact .inr ⟨n, by simp, rfl⟩

/-- Every allowed call returns: only `enqueue` loops, and the list it walks ends. -/
theorem call_returns (h : Rep L m σ) {o : Op} (hpre : o.Pre L σ) :
    ∃ fuel r m', o.exec fuel m = some (r, m') := by
  cases o with
  | enqueue l n =>
    obtain ⟨⟨xs, hl⟩, -, -⟩ := hpre
    obtain ⟨m', hm'⟩ := Option.isSome_iff_exists.1
      (h.enqueue_isSome (n := n) hl (Nat.lt_succ_self xs.length))
    exact ⟨xs.length + 1, 0, m', by simpa [Op.exec] using hm'⟩
  | _ => exact ⟨0, _, _, rfl⟩

/-- The calls write link words and tail words of the layout only. -/
theorem writes_cell (h : Rep L m σ) {o : Op} (hpre : o.Pre L σ) {c : Nat} (hw : o.Writes σ c) :
    L.Cell c ∨ ∃ l ∈ L.heads, c = l + 4 := by
  have hlink : ∀ l xs, σ l = some xs → Op.LinkWord l xs c → L.Cell c := by
    rintro l xs hl (hx | ⟨y, hy, rfl⟩)
    · exact (h.fwd hl _ hx).cell
    · exact (h.bwd hl y hy).cell
  have hnode : ∀ n ∈ L.nodes, c = n ∨ c = n + 4 → L.Cell c := by
    rintro n hn (rfl | rfl)
    · exact (Layout.Fwd.node hn).cell
    · exact (Layout.Bwd.node hn).cell
  cases o with
  | newList l =>
    rcases hw with rfl | rfl | rfl
    · exact .inl (Layout.Fwd.head hpre).cell
    · exact .inr ⟨l, hpre, rfl⟩
    · exact .inl (Layout.Bwd.tail hpre).cell
  | addHead l n | addTail l n | enqueue l n =>
    obtain ⟨xs, hl, hw | hw⟩ := hw
    · exact .inl (hlink _ _ hl hw)
    · exact .inl (hnode n hpre.2.1 hw)
  | removeHead l =>
    obtain ⟨xs, hl, -, hw⟩ := hw
    exact .inl (hlink _ _ hl hw)
  | remove n =>
    obtain ⟨l, xs, hl, -, hw⟩ := hw
    exact .inl (hlink _ _ hl hw)

theorem pri_call (h : Rep L m σ) {o : Op} (hpre : o.Pre L σ) (hex : o.exec fuel m = some (r, m'))
    {n : Nat} (hn : n ∈ L.nodes) : m'.pri n = m.pri n := by
  have := (h.call hpre hex).2.2 (n + 12) fun hw => ?_
  · simp only [Mem.pri, this]
  rcases h.writes_cell hpre hw with hc | ⟨l, hl, he⟩
  · exact Layout.not_cell_field hn (by omega) (by omega) hc
  · have := L.apart l hl n hn
    omega

end Rep

instance (m : Mem) : Std.Total m.ByPri := ⟨fun a b => le_total (m.pri b) (m.pri a)⟩
instance (m : Mem) : IsTrans Nat m.ByPri := ⟨fun _ _ _ h1 h2 => le_trans h2 h1⟩

variable {L : Layout} {m₀ m : Mem} {σ : Seqs}

theorem ListRun.rep (h : ListRun L m₀ m σ) : Rep L m σ := by
  induction h with
  | start => exact ⟨by simp, by simp, by simp, by simp, by simp⟩
  | call fuel o _ hpre hex ih => exact (ih.call hpre hex).1

/-- **Exec lists refine sequences.** In every memory reached, each header holds the sequence `σ`
gives it, no node is on two lists, and every further call acts on the sequences as named, returns
what it should and writes nothing else. -/
theorem listRun_refines (h : ListRun L m₀ m σ) :
    (∀ l xs, σ l = some xs → Holds m l xs) ∧
      (∀ l l' xs xs', σ l = some xs → σ l' = some xs' → l ≠ l' → xs.Disjoint xs') ∧
      ∀ o : Op, o.Pre L σ → Refines m σ o := by
  have hR := h.rep
  refine ⟨fun l xs hl => hR.holds hl, hR.disj, fun o hpre => ⟨hR.call_returns hpre, ?_, ?_, ?_, ?_⟩⟩
  · exact fun fuel r m' hex => (hR.call hpre hex).2.1
  · exact fun fuel r m' hex l xs hl => (hR.call hpre hex).1.holds hl
  · exact fun fuel r m' hex => (hR.call hpre hex).2.2
  · rintro fuel r m' l n xs rfl hex hl hs
    refine (hs.orderedInsert n).imp_of_mem fun {a b} ha hb hab => ?_
    have hnode : ∀ x ∈ xs.orderedInsert m.ByPri n, x ∈ L.nodes := by
      intro x hx
      rcases (List.mem_orderedInsert _).1 hx with rfl | hx
      · exact hpre.2.1
      · exact hR.node _ _ hl x hx
    simpa only [Mem.ByPri, hR.pri_call hpre hex (hnode a ha), hR.pri_call hpre hex (hnode b hb)] using hab

/-- Two lists at 100 and 112, three nodes. -/
def twoLists : Layout where
  heads := {100, 112}
  nodes := {200, 220, 240}
  head_ne := by simp
  node_ne := by simp
  heads_apart := by simp
  nodes_apart := by simp
  apart := by simp

theorem listRun_refines_twoLists :
    Holds (addTail (addHead (newList (fun _ => 0) 100) 100 200) 100 220) 100 [200, 220] := by
  have h₀ : ListRun twoLists (fun _ => 0) (fun _ => 0) _ := .start
  have h₁ := h₀.call 0 (.newList 100) (by simp [Op.Pre, twoLists]) rfl
  have h₂ := h₁.call 0 (.addHead 100 200) ⟨⟨_, rfl⟩, by simp [twoLists], (Seqs.Free.none _).update (by simp)⟩ rfl
  have h₃ := h₂.call 0 (.addTail 100 220)
    ⟨⟨_, rfl⟩, by simp [twoLists], ((Seqs.Free.none _).update (by simp)).update (by simp)⟩ rfl
  exact (listRun_refines h₃).1 100 _ rfl

end Krypton
