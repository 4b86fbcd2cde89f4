import Mathlib.Data.List.Chain
import Mathlib.Tactic.Ring

/-!
# Chunks that tile an interval

A list of chunks, each in use or free, laid out one behind the other from an address on. `starts` are the addresses
of the chunks and `blocks` the addresses and lengths of those in use. Blocks are disjoint from one another, and from
the first bytes of every other chunk. In a `Tidy` list no two free chunks are neighbours and the last one is in use;
`release` gives a chunk back and keeps that.
-/

namespace Krypton

structure Chunk where
  len : Nat
  used : Bool
deriving DecidableEq

namespace Tiling

def size (cs : List Chunk) : Nat := (cs.map Chunk.len).sum

/-- The address of the last chunk, `p` if there is none. -/
def back : Nat → Nat → List Chunk → Nat
  | p, _, [] => p
  | _, a, c :: cs => back a (a + c.len) cs

def starts : Nat → List Chunk → List Nat
  | _, [] => []
  | a, c :: cs => a :: starts (a + c.len) cs

def blocks : Nat → List Chunk → List (Nat × Nat)
  | _, [] => []
  | a, c :: cs => (if c.used then [(a, c.len)] else []) ++ blocks (a + c.len) cs

variable {a p k n x h : Nat} {c : Chunk} {xs ys cs : List Chunk}

@[simp] theorem size_nil : size [] = 0 := rfl

@[simp] theorem size_cons : size (c :: cs) = c.len + size cs := rfl

@[simp] theorem size_append : size (xs ++ ys) = size xs + size ys := by
  simp [size]

theorem length_le_size (hk : ∀ c ∈ cs, k ≤ c.len) : k * cs.length ≤ size cs := by
  induction cs with
  | nil => exact Nat.zero_le _
  | cons c cs ih =>
    obtain ⟨hc, hcs⟩ := List.forall_mem_cons.1 hk
    have := ih hcs
    rw [size_cons, List.length_cons, Nat.mul_succ]
    omega

theorem back_append (p a : Nat) (xs ys : List Chunk) :
    back p a (xs ++ ys) = back (back p a xs) (a + size xs) ys := by
  induction xs generalizing p a with
  | nil => rfl
  | cons c xs ih =>
    show back a (a + c.len) (xs ++ ys) = _
    rw [ih, size_cons, Nat.add_assoc]
    rfl

theorem back_concat (p a : Nat) (xs : List Chunk) (c : Chunk) : back p a (xs ++ [c]) = a + size xs := by
  rw [back_append]
  rfl

theorem back_bounds (hk : ∀ c ∈ cs, k ≤ c.len) (p a : Nat) :
    (cs = [] ∧ back p a cs = p) ∨ (cs ≠ [] ∧ a ≤ back p a cs ∧ back p a cs + k ≤ a + size cs) := by
  rcases List.eq_nil_or_concat cs with rfl | ⟨zs, c, rfl⟩
  · exact .inl ⟨rfl, rfl⟩
  · rw [List.concat_eq_append] at hk ⊢
    have hc : k ≤ c.len := hk c (by simp)
    rw [back_concat, size_append, size_cons, size_nil]
    exact .inr ⟨by simp, by omega, by omega⟩

theorem starts_append (a : Nat) (xs ys : List Chunk) : starts a (xs ++ ys) = starts a xs ++ starts (a + size xs) ys := by
  induction xs generalizing a with
  | nil => rfl
  | cons c xs ih =>
    show a :: starts (a + c.len) (xs ++ ys) = _
    rw [ih, size_cons, Nat.add_assoc]
    rfl

theorem mem_starts_middle (a : Nat) (xs : List Chunk) (c : Chunk) (ys : List Chunk) :
    a + size xs ∈ starts a (xs ++ c :: ys) := by
  rw [starts_append]
  exact List.mem_append_right _ List.mem_cons_self

theorem mem_starts_right {x : Nat} (hx : x ∈ starts (a + size xs) ys) : x ∈ starts a (xs ++ ys) := by
  rw [starts_append]
  exact List.mem_append_right _ hx

theorem back_mem_starts (a : Nat) (hc : cs ≠ []) : back 0 a cs ∈ starts a cs := by
  rcases List.eq_nil_or_concat cs with rfl | ⟨zs, c, rfl⟩
  · exact absurd rfl hc
  · rw [List.concat_eq_append, back_concat]
    exact mem_starts_middle ..

theorem starts_split {x : Nat} (hx : x ∈ starts a cs) : ∃ xs c ys, cs = xs ++ c :: ys ∧ x = a + size xs := by
  induction cs generalizing a with
  | nil => cases hx
  | cons c cs ih =>
    rcases List.mem_cons.1 hx with rfl | hx
    · exact ⟨[], c, cs, rfl, rfl⟩
    · obtain ⟨xs, d, ys, rfl, rfl⟩ := ih hx
      exact ⟨c :: xs, d, ys, rfl, by rw [size_cons, Nat.add_assoc]⟩

theorem blocks_append (a : Nat) (xs ys : List Chunk) :
    blocks a (xs ++ ys) = blocks a xs ++ blocks (a + size xs) ys := by
  induction xs generalizing a with
  | nil => rfl
  | cons c xs ih =>
    show _ ++ blocks (a + c.len) (xs ++ ys) = _
    rw [ih, size_cons, Nat.add_assoc, ← List.append_assoc]
    rfl

theorem mem_starts (hk : ∀ c ∈ cs, k ≤ c.len) (h : x ∈ starts a cs) : a ≤ x ∧ x + k ≤ a + size cs := by
  induction cs generalizing a with
  | nil => cases h
  | cons c cs ih =>
    obtain ⟨hc, hcs⟩ := List.forall_mem_cons.1 hk
    rw [size_cons]
    rcases List.mem_cons.1 h with rfl | h
    · omega
    · have := ih hcs h
      omega

theorem mem_blocks (h : (x, n) ∈ blocks a cs) : a ≤ x ∧ x + n ≤ a + size cs := by
  induction cs generalizing a with
  | nil => cases h
  | cons c cs ih =>
    rw [size_cons]
    rcases List.mem_append.1 h with h | h
    · split_ifs at h with hu
      · obtain ⟨rfl, rfl⟩ := Prod.mk.inj (List.mem_singleton.1 h)
        omega
      · cases h
    · have := ih h
      omega

theorem blocks_sub_starts (h : (x, n) ∈ blocks a cs) : x ∈ starts a cs := by
  induction cs generalizing a with
  | nil => cases h
  | cons c cs ih =>
    rcases List.mem_append.1 h with h | h
    · split_ifs at h with hu
      · obtain ⟨rfl, -⟩ := Prod.mk.inj (List.mem_singleton.1 h)
        exact List.mem_cons_self
      · cases h
    · exact List.mem_cons_of_mem _ (ih h)

theorem blocks_pairwise (a : Nat) (cs : List Chunk) : (blocks a cs).Pairwise fun x y => x.1 + x.2 ≤ y.1 := by
  induction cs generalizing a with
  | nil => exact .nil
  | cons c cs ih =>
    refine List.pairwise_append.2 ⟨?_, ih _, fun x hx y hy => ?_⟩
    · split_ifs
      · exact List.pairwise_singleton ..
      · exact .nil
    · split_ifs at hx
      · obtain rfl := List.mem_singleton.1 hx
        exact (mem_blocks hy).1
      · cases hx

/-- The first `k` bytes of a chunk lie outside every other block. -/
theorem starts_blocks (hk : ∀ c ∈ cs, k ≤ c.len) (hx : x ∈ starts a cs) (hb : (h, n) ∈ blocks a cs) :
    x = h ∨ x + k ≤ h ∨ h + n ≤ x := by
  induction cs generalizing a with
  | nil => cases hx
  | cons c cs ih =>
    obtain ⟨hc, hcs⟩ := List.forall_mem_cons.1 hk
    rcases List.mem_cons.1 hx with rfl | hx
    · rcases List.mem_append.1 hb with hb | hb
      · split_ifs at hb
        · obtain ⟨rfl, -⟩ := Prod.mk.inj (List.mem_singleton.1 hb)
          exact .inl rfl
        · cases hb
      · have := (mem_blocks hb).1
        omega
    · rcases List.mem_append.1 hb with hb | hb
      · split_ifs at hb
        · obtain ⟨rfl, rfl⟩ := Prod.mk.inj (List.mem_singleton.1 hb)
          have := (mem_starts hcs hx).1
          omega
        · cases hb
      · exact ih hcs hx hb

theorem blocks_apart {g j : Nat} (hg : (g, j) ∈ blocks a cs) (hh : (h, n) ∈ blocks a cs) :
    (g, j) = (h, n) ∨ g + j ≤ h ∨ h + n ≤ g := by
  have hp : (blocks a cs).Pairwise fun x y => x.1 + x.2 ≤ y.1 ∨ y.1 + y.2 ≤ x.1 :=
    (blocks_pairwise a cs).imp fun h => .inl h
  have hs : Std.Symm fun x y : Nat × Nat => x.1 + x.2 ≤ y.1 ∨ y.1 + y.2 ≤ x.1 := ⟨fun _ _ h => h.symm⟩
  by_cases he : (g, j) = (h, n)
  · exact .inl he
  · exact .inr (hp.forall hg hh he)

theorem blocks_split (hb : (h, n) ∈ blocks a cs) : ∃ xs ys, cs = xs ++ ⟨n, true⟩ :: ys ∧ h = a + size xs := by
  induction cs generalizing a with
  | nil => cases hb
  | cons c cs ih =>
    rcases List.mem_append.1 hb with hb | hb
    · split_ifs at hb with hu
      · obtain ⟨rfl, rfl⟩ := Prod.mk.inj (List.mem_singleton.1 hb)
        exact ⟨[], cs, by rw [← hu]; rfl, rfl⟩
      · cases hb
    · obtain ⟨xs, ys, rfl, rfl⟩ := ih hb
      exact ⟨c :: xs, ys, rfl, by rw [size_cons, Nat.add_assoc]⟩

/-! ### Tidy lists -/

/-- No two free chunks are neighbours, and the last chunk is in use. -/
structure Tidy (cs : List Chunk) : Prop where
  apart : cs.IsChain fun c d => c.used ∨ d.used
  last : ∀ xs c, cs = xs ++ [c] → c.used

theorem Tidy.nil : Tidy [] := ⟨.nil, fun _ _ h => absurd h (by simp)⟩

theorem Tidy.concat (h : Tidy xs) (hc : c.used) : Tidy (xs ++ [c]) := by
  refine ⟨List.isChain_append.2 ⟨h.apart, .singleton _, ?_⟩, fun ys d he => ?_⟩
  · rintro x - y hy
    obtain rfl := Option.some.inj hy
    exact .inr hc
  · obtain ⟨-, he⟩ := List.append_inj' he rfl
    exact List.singleton_inj.1 he ▸ hc

/-- A free chunk is taken. -/
theorem Tidy.take (h : Tidy (xs ++ ⟨n, false⟩ :: ys)) : Tidy (xs ++ ⟨n, true⟩ :: ys) := by
  obtain ⟨h1, h2⟩ := h
  rw [List.isChain_append] at h1
  obtain ⟨hx, hy, hxy⟩ := h1
  refine ⟨List.isChain_append.2 ⟨hx, ?_, fun x hx y hy => ?_⟩, fun zs c he => ?_⟩
  · cases ys with
    | nil => exact .singleton _
    | cons d ys => exact List.isChain_cons_cons.2 ⟨.inl rfl, (List.isChain_cons_cons.1 hy).2⟩
  · obtain rfl := Option.some.inj hy
    exact .inr rfl
  · rcases List.eq_nil_or_concat ys with rfl | ⟨ys, d, rfl⟩
    · obtain ⟨-, he⟩ := List.append_inj' he rfl
      exact List.singleton_inj.1 he ▸ rfl
    · have hd : d.used := h2 (xs ++ ⟨n, false⟩ :: ys) d (by simp)
      have he : (xs ++ ⟨n, true⟩ :: ys) ++ [d] = zs ++ [c] := by simpa using he
      obtain ⟨-, he⟩ := List.append_inj' he rfl
      exact List.singleton_inj.1 he ▸ hd

theorem Tidy.suffix (h : Tidy (xs ++ c :: ys)) : Tidy ys := by
  refine ⟨(List.isChain_append.1 h.apart).2.1.tail, fun zs d he => h.last (xs ++ c :: zs) d ?_⟩
  rw [he]
  simp

/-! ### Giving a chunk back -/

/-- A free chunk of length `n` and what follows it, with a free successor made part of it. -/
def absorb (n : Nat) : List Chunk → Nat × List Chunk
  | ⟨k, false⟩ :: ys => (n + k, ys)
  | ys => (n, ys)

/-- What precedes a free chunk of length `n` and the chunk, made part of a free predecessor. -/
def joinPrev (xs : List Chunk) (n : Nat) : List Chunk × Nat :=
  match xs.getLast? with
  | some ⟨k, false⟩ => (xs.dropLast, k + n)
  | _ => (xs, n)

/-- The chunk of length `n` between `xs` and `ys` is given back; at the end of the list it is dropped. -/
def release (xs : List Chunk) (n : Nat) (ys : List Chunk) : List Chunk :=
  let r := absorb n ys
  let l := joinPrev xs r.1
  if r.2 = [] then l.1 else l.1 ++ ⟨l.2, false⟩ :: r.2

theorem absorb_free (n k : Nat) (ys : List Chunk) : absorb n (⟨k, false⟩ :: ys) = (n + k, ys) := rfl

theorem joinPrev_free (xs : List Chunk) (k n : Nat) : joinPrev (xs ++ [⟨k, false⟩]) n = (xs, k + n) := by
  simp [joinPrev]

theorem joinPrev_used (xs : List Chunk) (k n : Nat) :
    joinPrev (xs ++ [⟨k, true⟩]) n = (xs ++ [⟨k, true⟩], n) := by
  simp [joinPrev]

theorem absorb_size (n : Nat) (ys : List Chunk) : (absorb n ys).1 + size (absorb n ys).2 = n + size ys := by
  rcases ys with _ | ⟨⟨k, u⟩, ys⟩
  · rfl
  · cases u with
    | false => simp [absorb_free, Nat.add_assoc]
    | true => rfl

theorem absorb_blocks (a n : Nat) (ys : List Chunk) :
    blocks (a + (absorb n ys).1) (absorb n ys).2 = blocks (a + n) ys := by
  rcases ys with _ | ⟨⟨k, u⟩, ys⟩
  · rfl
  · cases u with
    | false => rw [absorb_free, ← Nat.add_assoc]; rfl
    | true => rfl

theorem absorb_le (n : Nat) (ys : List Chunk) : n ≤ (absorb n ys).1 := by
  rcases ys with _ | ⟨⟨k, _ | _⟩, ys⟩
  · exact Nat.le_refl _
  · exact Nat.le_add_right ..
  · exact Nat.le_refl _

theorem absorb_mem (h : c ∈ (absorb n ys).2) : c ∈ ys := by
  rcases ys with _ | ⟨⟨k, _ | _⟩, ys⟩
  · exact h
  · exact List.mem_cons_of_mem _ h
  · exact h

theorem Tidy.absorb (h : Tidy ys) (n : Nat) :
    Tidy (absorb n ys).2 ∧ ∀ c ∈ (Tiling.absorb n ys).2.head?, c.used := by
  rcases ys with _ | ⟨⟨k, u⟩, ys⟩
  · exact ⟨.nil, by rintro _ ⟨⟩⟩
  · cases u with
    | false =>
      have hs : Tidy ([] ++ ⟨k, false⟩ :: ys) := h
      refine ⟨hs.suffix, fun d hd => ?_⟩
      cases ys with
      | nil => cases hd
      | cons e ys =>
        obtain rfl := Option.some.inj hd
        exact ((List.isChain_cons_cons.1 h.apart).1).resolve_left Bool.noConfusion
    | true =>
      refine ⟨h, fun d hd => ?_⟩
      obtain rfl := Option.some.inj hd
      rfl

theorem joinPrev_size (xs : List Chunk) (n : Nat) : size (joinPrev xs n).1 + (joinPrev xs n).2 = size xs + n := by
  rcases List.eq_nil_or_concat xs with rfl | ⟨xs, ⟨k, u⟩, rfl⟩
  · rfl
  · cases u with
    | false => simp [joinPrev_free, Nat.add_assoc]
    | true => rw [List.concat_eq_append, joinPrev_used]

theorem joinPrev_blocks (a n : Nat) (xs : List Chunk) : blocks a (joinPrev xs n).1 = blocks a xs := by
  rcases List.eq_nil_or_concat xs with rfl | ⟨xs, ⟨k, u⟩, rfl⟩
  · rfl
  · cases u with
    | false => simp [joinPrev_free, blocks_append, blocks]
    | true => rw [List.concat_eq_append, joinPrev_used]

theorem joinPrev_mem (h : c ∈ (joinPrev xs n).1) : c ∈ xs := by
  rcases List.eq_nil_or_concat xs with rfl | ⟨xs, ⟨k, u⟩, rfl⟩
  · exact h
  · rw [List.concat_eq_append] at h ⊢
    cases u with
    | false =>
      rw [joinPrev_free] at h
      exact List.mem_append_left _ h
    | true => rwa [joinPrev_used] at h

theorem joinPrev_le (xs : List Chunk) (n : Nat) : n ≤ (joinPrev xs n).2 := by
  rcases List.eq_nil_or_concat xs with rfl | ⟨xs, ⟨k, u⟩, rfl⟩
  · exact Nat.le_refl _
  · rw [List.concat_eq_append]
    cases u with
    | false => rw [joinPrev_free]; exact Nat.le_add_left ..
    | true => rw [joinPrev_used]

theorem Tidy.joinPrev (h : xs.IsChain fun c d => c.used ∨ d.used) (n : Nat) : Tidy (joinPrev xs n).1 := by
  rcases List.eq_nil_or_concat xs with rfl | ⟨xs, ⟨k, u⟩, rfl⟩
  · exact .nil
  · rw [List.concat_eq_append] at h ⊢
    obtain ⟨h1, -, h2⟩ := List.isChain_append.1 h
    cases u with
    | false =>
      rw [joinPrev_free]
      refine ⟨h1, fun ys c he => ?_⟩
      have he : xs = ys ++ [c] := he
      rw [he] at h2
      exact (h2 c (by simp) _ rfl).resolve_right Bool.noConfusion
    | true =>
      rw [joinPrev_used]
      refine ⟨h, fun ys c he => ?_⟩
      obtain ⟨-, he⟩ := List.append_inj' he rfl
      exact List.singleton_inj.1 he ▸ rfl

theorem Tidy.release (h : Tidy (xs ++ ⟨n, true⟩ :: ys)) : Tidy (release xs n ys) := by
  obtain ⟨hr, hhead⟩ := h.suffix.absorb n
  have hl := Tidy.joinPrev (List.isChain_append.1 h.apart).1 (Tiling.absorb n ys).1
  unfold Tiling.release
  dsimp only
  set l := Tiling.joinPrev xs (Tiling.absorb n ys).1
  split_ifs with he
  · exact hl
  · obtain ⟨d, zs, hd⟩ := List.exists_cons_of_ne_nil he
    rw [hd] at hr hhead ⊢
    have hdu : d.used := hhead d rfl
    refine ⟨List.isChain_append.2 ⟨hl.apart, List.isChain_cons_cons.2 ⟨.inr hdu, hr.apart⟩, ?_⟩, ?_⟩
    · rintro x hx y hy
      obtain rfl := Option.some.inj hy
      obtain ⟨us, hus⟩ := List.getLast?_eq_some_iff.1 hx
      exact .inl (hl.last us x hus)
    · intro us c hus
      rcases List.eq_nil_or_concat zs with rfl | ⟨zs, e, rfl⟩
      · have he : (l.1 ++ [⟨l.2, false⟩]) ++ [d] = us ++ [c] := by simpa using hus
        obtain ⟨-, he⟩ := List.append_inj' he rfl
        exact List.singleton_inj.1 he ▸ hdu
      · rw [List.concat_eq_append] at hus hr
        have he : e.used := hr.last (d :: zs) e (by simp)
        have hc : (l.1 ++ ⟨l.2, false⟩ :: d :: zs) ++ [e] = us ++ [c] := by simpa using hus
        obtain ⟨-, hc⟩ := List.append_inj' hc rfl
        exact List.singleton_inj.1 hc ▸ he

theorem absorb_ne_nil (ht : Tidy (xs ++ c :: ys)) (hy : ys ≠ []) (n : Nat) : (absorb n ys).2 ≠ [] := by
  rcases ys with _ | ⟨⟨k, u⟩, ys⟩
  · exact absurd rfl hy
  · cases u with
    | true => exact List.cons_ne_nil _ _
    | false =>
      rintro (rfl : ys = [])
      exact absurd (ht.last (xs ++ [c]) ⟨k, false⟩ (by simp)) Bool.noConfusion

theorem absorb_starts {x : Nat} (hx : x ∈ starts a (xs ++ ⟨(absorb n ys).1, false⟩ :: (absorb n ys).2)) :
    x ∈ starts a (xs ++ ⟨n, false⟩ :: ys) := by
  rw [starts_append] at hx ⊢
  refine (List.mem_append.1 hx).elim (List.mem_append_left _) fun hx => List.mem_append_right _ ?_
  rcases List.mem_cons.1 hx with rfl | hx
  · exact List.mem_cons_self
  · refine List.mem_cons_of_mem _ ?_
    rcases ys with _ | ⟨⟨k, u⟩, ys⟩
    · exact hx
    · cases u with
      | true => exact hx
      | false =>
        refine List.mem_cons_of_mem _ ?_
        dsimp only
        rw [Nat.add_assoc]
        exact hx

theorem joinPrev_starts {x : Nat} (ys : List Chunk) (hx : x ∈ starts a (joinPrev xs n).1) : x ∈ starts a (xs ++ ys) := by
  obtain ⟨zs, hz⟩ : ∃ zs, xs = (joinPrev xs n).1 ++ zs := by
    rcases List.eq_nil_or_concat xs with rfl | ⟨xs, ⟨k, u⟩, rfl⟩
    · exact ⟨[], rfl⟩
    · rw [List.concat_eq_append]
      cases u with
      | true => exact ⟨[], by rw [joinPrev_used, List.append_nil]⟩
      | false => exact ⟨_, by rw [joinPrev_free]⟩
  rw [hz, List.append_assoc, starts_append]
  exact List.mem_append_left _ hx

theorem joinPrev_start (a n : Nat) (xs : List Chunk) (c : Chunk) (ys : List Chunk) :
    a + size (joinPrev xs n).1 ∈ starts a (xs ++ c :: ys) := by
  rcases List.eq_nil_or_concat xs with rfl | ⟨xs, ⟨k, u⟩, rfl⟩
  · exact List.mem_cons_self
  · rw [List.concat_eq_append]
    cases u with
    | true =>
      rw [joinPrev_used]
      exact mem_starts_middle ..
    | false =>
      rw [joinPrev_free, List.append_assoc]
      exact mem_starts_middle ..

theorem release_size_le (xs : List Chunk) (n : Nat) (ys : List Chunk) :
    size (release xs n ys) ≤ size xs + (n + size ys) := by
  have h1 := joinPrev_size xs (absorb n ys).1
  have h2 := absorb_size n ys
  unfold release
  dsimp only
  split_ifs
  · omega
  · simp only [size_append, size_cons]
    omega

theorem release_blocks (a : Nat) (xs : List Chunk) (n : Nat) (ys : List Chunk) :
    blocks a (release xs n ys) = blocks a xs ++ blocks (a + size xs + n) ys := by
  have h1 := joinPrev_size xs (absorb n ys).1
  have h2 := joinPrev_blocks a (absorb n ys).1 xs
  have h3 := absorb_blocks (a + size xs) n ys
  unfold release
  dsimp only
  split_ifs with he
  · rw [h2, ← h3, he]
    simp [blocks]
  · rw [blocks_append, h2, ← h3]
    show _ ++ ([] ++ blocks (a + size _ + _) _) = _
    rw [List.nil_append, Nat.add_assoc a, h1, Nat.add_assoc]

end Tiling
end Krypton
