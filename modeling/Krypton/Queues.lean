import Krypton.Handlers

/-!
# `thread_ready` and `thread_wait` as sequences

`Queues rs ws`: the two lists of the scheduler are well formed and hold `rs` and `ws`. This is the
description of the lists in runs in which no thread is ever put on a second list; there is one
lemma for each call of `enqueue` and `remove` in the scheduler.
-/

namespace Krypton
namespace Sys
variable {s s' : Sys} {rs ws : List Nat} {m' : Mem} {n t fuel : Nat}

def twoSeqs (s : Sys) (rs ws : List Nat) : Seqs := fun l =>
  if l = s.threadReady then some rs else if l = s.threadWait then some ws else none

theorem ready_ne_wait : s.threadReady ≠ s.threadWait := by
  unfold threadReady threadWait
  omega

theorem twoSeqs_ready : s.twoSeqs rs ws s.threadReady = some rs := if_pos rfl

theorem twoSeqs_wait : s.twoSeqs rs ws s.threadWait = some ws := by
  unfold twoSeqs
  rw [if_neg ready_ne_wait.symm, if_pos rfl]

theorem twoSeqs_cases {l : Nat} {xs : List Nat} (h : s.twoSeqs rs ws l = some xs) :
    (l = s.threadReady ∧ xs = rs) ∨ (l = s.threadWait ∧ xs = ws) := by
  unfold twoSeqs at h
  split_ifs at h with h1 h2
  · exact .inl ⟨h1, (Option.some.inj h).symm⟩
  · exact .inr ⟨h2, (Option.some.inj h).symm⟩

theorem update_ready (xs : List Nat) :
    Function.update (s.twoSeqs rs ws) s.threadReady (some xs) = s.twoSeqs xs ws := by
  funext l
  unfold twoSeqs
  by_cases h : l = s.threadReady
  · rw [h, Function.update_self, if_pos rfl]
  · rw [Function.update_of_ne h, if_neg h, if_neg h]

theorem update_wait (xs : List Nat) :
    Function.update (s.twoSeqs rs ws) s.threadWait (some xs) = s.twoSeqs rs xs := by
  funext l
  unfold twoSeqs
  by_cases h : l = s.threadWait
  · rw [h, Function.update_self, if_neg ready_ne_wait.symm, if_pos rfl]
  · rw [Function.update_of_ne h, if_neg h, if_neg h]

/-- The layout of the two lists over all threads. -/
abbrev Objects.all (h : s.Objects) : Layout := h.lists {t | t ∈ s.threads} fun _ => id

structure Queues (s : Sys) (rs ws : List Nat) : Prop where
  objects : s.Objects
  rep : Rep objects.all s.mem (s.twoSeqs rs ws)

namespace Queues

theorem mem_ready (h : s.Queues rs ws) : ∀ t ∈ rs, t ∈ s.threads := h.rep.node _ _ twoSeqs_ready
theorem mem_wait (h : s.Queues rs ws) : ∀ t ∈ ws, t ∈ s.threads := h.rep.node _ _ twoSeqs_wait
theorem nodup_wait (h : s.Queues rs ws) : ws.Nodup := h.rep.nodup _ _ twoSeqs_wait

theorem isList_ready (h : s.Queues rs ws) : IsList s.mem s.threadReady rs :=
  h.rep.isList _ _ twoSeqs_ready

theorem isList_wait (h : s.Queues rs ws) : IsList s.mem s.threadWait ws :=
  h.rep.isList _ _ twoSeqs_wait

theorem getHead (h : s.Queues rs ws) : getHead s.mem s.threadReady = rs.headD 0 :=
  h.rep.getHead_eq twoSeqs_ready

theorem ne_zero (h : s.Queues rs ws) (ht : t ∈ s.threads) : t ≠ 0 :=
  h.objects.ne_zero _ (h.objects.thread t ht)

theorem getHead_eq_zero (h : s.Queues rs ws) : Krypton.getHead s.mem s.threadReady = 0 ↔ rs = [] := by
  rw [h.getHead]
  cases rs with
  | nil => simp
  | cons x xs => simpa using h.ne_zero (h.mem_ready x (List.mem_cons_self ..))

/-- The queues in another state with the same links. -/
theorem congr (h : s.Queues rs ws) (h' : s'.Objects) (hb : s'.sysBase = s.sysBase)
    (ht : ∀ t ∈ s.threads, t ∈ s'.threads) (hm : SameLists s s') : s'.Queues rs ws := by
  have hr : s'.threadReady = s.threadReady := by unfold threadReady; rw [hb]
  have hw : s'.threadWait = s.threadWait := by unfold threadWait; rw [hb]
  have hσ : s'.twoSeqs rs ws = s.twoSeqs rs ws := by unfold twoSeqs; rw [hr, hw]
  refine ⟨h', ?_⟩
  rw [hσ]
  have h1 : Rep h.objects.all s'.mem (s.twoSeqs rs ws) :=
    h.rep.congr_byte fun c hc => hm c (h.objects.lists_listByte hc)
  refine h1.relayout (fun l xs hl => ?_) fun l xs hl n hn => ht n (h1.node l xs hl n hn)
  rcases twoSeqs_cases hl with ⟨rfl, -⟩ | ⟨rfl, -⟩
  · exact .inl hr.symm
  · exact .inr hw.symm

/-- The same memory. -/
theorem same (h : s.Queues rs ws) (hb : s'.blocks = s.blocks) (hs : s'.sysBase = s.sysBase)
    (ht : s'.threads = s.threads) (hm : s'.mem = s.mem) : s'.Queues rs ws :=
  h.congr (h.objects.congr hb hs ht) hs (fun t hx => ht ▸ hx) fun c _ => by rw [hm]

theorem write (h : s.Queues rs ws) {rs' ws' : List Nat}
    (hr : Rep h.objects.all m' (s.twoSeqs rs' ws')) : { s with mem := m' }.Queues rs' ws' :=
  ⟨⟨h.objects.apart, h.objects.ne_zero, h.objects.base, h.objects.thread, h.objects.nodup⟩, hr⟩

theorem free (hr : n ∉ rs) (hw : n ∉ ws) : (s.twoSeqs rs ws).Free n := by
  intro l xs hl
  rcases twoSeqs_cases hl with ⟨-, rfl⟩ | ⟨-, rfl⟩
  · exact hr
  · exact hw

/-- What is on no list is on no list twice. -/
theorem nodup (h : s.Queues rs ws) {out : List Nat} (hp : (out ++ (rs ++ ws)).Perm s.threads) :
    (out ++ (rs ++ ws)).Nodup :=
  hp.nodup_iff.2 h.objects.nodup

theorem out_notMem (h : s.Queues rs ws) (hp : ([n] ++ (rs ++ ws)).Perm s.threads) : n ∉ rs ∧ n ∉ ws := by
  have hn : n ∉ rs ++ ws := (List.nodup_cons.1 (h.nodup hp)).1
  rwa [List.mem_append, not_or] at hn

theorem pri_of_frame (h : s.Queues rs ws) {l : Nat} {xs : List Nat} (hf : Frame s.mem m' l n xs)
    (hl : s.twoSeqs rs ws l = some xs) (hn : n ∈ s.threads) (ht : t ∈ s.threads) :
    m'.pri t = s.mem.pri t := by
  unfold Mem.pri
  rw [hf.cell h.rep hl hn (Layout.not_cell_field ht (by omega) (by omega))]

theorem enqueue_ready (h : s.Queues rs ws) (hn : n ∈ s.threads) (hr : n ∉ rs) (hw : n ∉ ws)
    (he : enqueue fuel s.mem s.threadReady n = some m') :
    { s with mem := m' }.Queues (rs.orderedInsert s.mem.ByPri n) ws ∧
      ∀ t ∈ s.threads, m'.pri t = s.mem.pri t := by
  obtain ⟨h1, h2⟩ := h.rep.enqueue twoSeqs_ready hn (free hr hw) he
  rw [update_ready] at h1
  exact ⟨h.write h1, fun t ht => h.pri_of_frame h2 twoSeqs_ready hn ht⟩

theorem enqueue_wait (h : s.Queues rs ws) (hn : n ∈ s.threads) (hr : n ∉ rs) (hw : n ∉ ws)
    (he : enqueue fuel s.mem s.threadWait n = some m') :
    { s with mem := m' }.Queues rs (ws.orderedInsert s.mem.ByPri n) ∧
      ∀ t ∈ s.threads, m'.pri t = s.mem.pri t := by
  obtain ⟨h1, h2⟩ := h.rep.enqueue twoSeqs_wait hn (free hr hw) he
  rw [update_wait] at h1
  exact ⟨h.write h1, fun t ht => h.pri_of_frame h2 twoSeqs_wait hn ht⟩

theorem remove_wait (h : s.Queues rs ws) (hn : n ∈ ws) :
    { s with mem := remove s.mem n }.Queues rs (ws.erase n) ∧
      ∀ t ∈ s.threads, (remove s.mem n).pri t = s.mem.pri t := by
  obtain ⟨xs, ys, rfl⟩ := List.append_of_mem hn
  obtain ⟨h1, h2⟩ := h.rep.remove twoSeqs_wait
  rw [update_wait] at h1
  have hx : n ∉ xs := fun hx => by
    have := List.nodup_append.1 h.nodup_wait
    exact this.2.2 n hx n (List.mem_cons_self ..) rfl
  rw [List.erase_append_right _ hx, List.erase_cons_head]
  exact ⟨h.write h1, fun t ht => h.pri_of_frame h2 twoSeqs_wait (h.mem_wait n hn) ht⟩

theorem remove_ready (h : s.Queues (n :: rs) ws) : { s with mem := remove s.mem n }.Queues rs ws ∧
    ∀ t ∈ s.threads, (remove s.mem n).pri t = s.mem.pri t := by
  have hl : s.twoSeqs (n :: rs) ws s.threadReady = some ([] ++ n :: rs) := twoSeqs_ready
  obtain ⟨h1, h2⟩ := h.rep.remove hl
  rw [update_ready] at h1
  exact ⟨h.write h1, fun t ht => h.pri_of_frame h2 hl (h.mem_ready n (List.mem_cons_self ..)) ht⟩

theorem wakeUp (h : s.Queues rs ws) {out : List Nat} (hp : (out ++ (rs ++ ws)).Perm s.threads) (ht : t ∈ ws)
    (he : enqueue fuel (remove s.mem t) s.threadReady t = some m') :
    { s with mem := m' }.Queues (rs.orderedInsert (remove s.mem t).ByPri t) (ws.erase t) ∧
      (out ++ (rs.orderedInsert (remove s.mem t).ByPri t ++ ws.erase t)).Perm s.threads ∧ t ∉ ws.erase t ∧
      ∀ x ∈ s.threads, m'.pri x = s.mem.pri x ∧ (remove s.mem t).pri x = s.mem.pri x := by
  have hnd := List.nodup_append.1 (List.nodup_append.1 (h.nodup hp)).2.1
  have htr : t ∉ rs := fun hr => hnd.2.2 t hr t ht rfl
  have hte : t ∉ ws.erase t := fun he => (hnd.2.1.mem_erase_iff.1 he).1 rfl
  obtain ⟨hrem, hpri⟩ := h.remove_wait ht
  obtain ⟨hq, hpri'⟩ := hrem.enqueue_ready (h.mem_wait t ht) htr hte he
  refine ⟨hq, ?_, hte, fun x hx => ⟨(hpri' x hx).trans (hpri x hx), hpri x hx⟩⟩
  refine List.Perm.trans (List.Perm.append_left out ?_) hp
  refine ((List.perm_orderedInsert _ _ _).append_right _).trans ?_
  refine List.Perm.trans ?_ (List.Perm.append_left rs (List.perm_cons_erase ht).symm)
  exact List.perm_middle.symm

theorem enqueue_ready_isSome (h : s.Queues rs ws) (hf : rs.length < fuel) :
    (enqueue fuel s.mem s.threadReady n).isSome := h.rep.enqueue_isSome twoSeqs_ready hf

theorem enqueue_wait_isSome (h : s.Queues rs ws) (hf : ws.length < fuel) :
    (enqueue fuel s.mem s.threadWait n).isSome := h.rep.enqueue_isSome twoSeqs_wait hf

end Queues
end Sys
end Krypton
