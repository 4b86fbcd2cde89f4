import Mathlib.Data.List.Nodup

/-!
# A stack kept in its own elements

An element that is freed while all pages are full is not stored, it becomes the next page; a page never leaves.
-/

namespace Krypton

/-- `stored` has the newest element first, `pages` the newest page last. -/
structure PagedStack (α : Type*) where
  stored : List α
  pages : List α

namespace PagedStack

def empty {α : Type*} : PagedStack α := ⟨[], []⟩

/-- `c` is the number of elements in a page. -/
def free {α : Type*} (c : Nat) (A : PagedStack α) (x : α) : PagedStack α :=
  if A.stored.length = c * A.pages.length then { A with pages := A.pages ++ [x] }
  else { A with stored := x :: A.stored }

def alloc {α : Type*} (A : PagedStack α) : PagedStack α := { A with stored := A.stored.tail }

/-- No element is in two places. -/
def Apart {α : Type*} (A : PagedStack α) : Prop := (A.stored ++ A.pages).Nodup

variable {α : Type*} {A : PagedStack α} {c : Nat} {x : α}

theorem free_full (h : A.stored.length = c * A.pages.length) : A.free c x = ⟨A.stored, A.pages ++ [x]⟩ := if_pos h

theorem free_room (h : A.stored.length ≠ c * A.pages.length) : A.free c x = ⟨x :: A.stored, A.pages⟩ := if_neg h

theorem alloc_nil (h : A.stored = []) : A.alloc = A := by
  obtain ⟨stored, pages⟩ := A
  cases h
  rfl

theorem Apart.alloc (h : A.Apart) : A.alloc.Apart :=
  h.sublist ((List.tail_sublist A.stored).append_right A.pages)

/-- A new element goes to one of the two lists. -/
theorem Apart.free (h : A.Apart) (hs : x ∉ A.stored) (hp : x ∉ A.pages) : (A.free c x).Apart := by
  have hx : x ∉ A.stored ++ A.pages := fun hm => (List.mem_append.1 hm).elim hs hp
  have hcons : (x :: (A.stored ++ A.pages)).Nodup := List.nodup_cons.2 ⟨hx, h⟩
  unfold Apart
  by_cases hfull : A.stored.length = c * A.pages.length
  · rw [free_full hfull, ← List.append_assoc]
    exact (List.perm_append_singleton x (A.stored ++ A.pages)).nodup_iff.2 hcons
  · rw [free_room hfull]
    exact hcons

/-- Where a new element is no page, the pages stay apart from it. -/
theorem notMem_free {y : α} (hy : y ∉ A.pages) (hne : x ≠ y) : y ∉ (A.free c x).pages := by
  by_cases hfull : A.stored.length = c * A.pages.length
  · rw [free_full hfull]
    intro hm
    rcases List.mem_append.1 hm with hm | hm
    · exact hy hm
    · exact hne (List.mem_singleton.1 hm).symm
  · rw [free_room hfull]
    exact hy

theorem length_free : A.stored.length ≤ (A.free c x).stored.length := by
  by_cases hfull : A.stored.length = c * A.pages.length
  · exact Nat.le_of_eq (by rw [free_full hfull])
  · rw [free_room hfull]
    exact Nat.le_succ _

theorem free_slot {i : Nat} (hi : i < A.stored.length) : (A.free c x).stored.reverse[i]? = A.stored.reverse[i]? := by
  by_cases hfull : A.stored.length = c * A.pages.length
  · rw [free_full hfull]
  · rw [free_room hfull, List.reverse_cons, List.getElem?_append_left]
    rwa [List.length_reverse]

end PagedStack
end Krypton
