import Krypton.Queues
import Krypton.Boot
import Krypton.ExecListRun

/-!
# `common.c`, `thread.c`: threads by name

`strcmp` stops at a difference with both pointers behind it, so what it answers is decided by the characters that
follow. `find_thread` compares the running thread's name and then the names along `thread_wait` and `thread_ready`.
-/

namespace Krypton
namespace Sys

/-! ### `strcmp` -/

/-- What the comment of `strcmp` says: characters are ordered as numbers, strings as in a dictionary. -/
structure Compares (a b : List Byte) : Prop where
  eq : strcmp a b = 0 ↔ a = b
  lt : strcmp a b = -1 ↔ a < b
  gt : strcmp a b = 1 ↔ b < a

/-- One string begins the other, or at the first difference the one that is first ends and the other goes on, or the
one that is last goes on. -/
def Comparable (a b : List Byte) : Prop :=
  a <+: b ∨ b <+: a ∨ ∃ p x y as bs, x ≠ y ∧ a = p ++ x :: as ∧ b = p ++ y :: bs ∧
    (x < y ∧ as = [] ∧ bs ≠ [] ∨ y < x ∧ as ≠ [])

section
variable {a b p as bs : List Byte} {x y : Byte}

theorem strcmp_append (hp : ∀ c ∈ p, c ≠ 0) (a b : List Byte) : strcmp (p ++ a) (p ++ b) = strcmp a b := by
  induction p with
  | nil => rfl
  | cons c p ih =>
    have hc : c ≠ 0 := hp c (by simp)
    rw [List.cons_append, List.cons_append, strcmp, if_pos ⟨hc, hc⟩, if_pos rfl]
    exact ih fun d hd => hp d (by simp [hd])

theorem strcmp_self (ha : ∀ c ∈ a, c ≠ 0) : strcmp a a = 0 := by
  have h := strcmp_append ha [] []
  rwa [List.append_nil] at h

theorem strcmp_longer (ha : ∀ c ∈ a, c ≠ 0) (hy : y ≠ 0) : strcmp a (a ++ y :: bs) = -1 := by
  have h := strcmp_append ha [] (y :: bs)
  rw [List.append_nil] at h
  rw [h, strcmp]
  · exact (if_neg fun h => hy h.2).trans (if_pos rfl)
  · simp

theorem strcmp_extends (hb : ∀ c ∈ b, c ≠ 0) (hx : x ≠ 0) : strcmp (b ++ x :: as) b = 1 := by
  have h := strcmp_append hb (x :: as) []
  rw [List.append_nil] at h
  rw [h, strcmp]
  · exact (if_neg fun h => hx h.1).trans (if_neg hx)
  · simp

theorem strcmp_differ (hp : ∀ c ∈ p, c ≠ 0) (hx : x ≠ 0) (hy : y ≠ 0) (hne : x ≠ y) :
    strcmp (p ++ x :: as) (p ++ y :: bs) = strcmpEnd (as.headD 0) (bs.headD 0) := by
  rw [strcmp_append hp, strcmp, if_pos ⟨hx, hy⟩, if_neg hne]

theorem headD_eq_zero (ha : ∀ c ∈ a, c ≠ 0) : a.headD 0 = 0 ↔ a = [] := by
  cases a with
  | nil => simp
  | cons c a => simpa using ha c (by simp)

theorem strcmpEnd_eq (has : ∀ c ∈ as, c ≠ 0) (hbs : ∀ c ∈ bs, c ≠ 0) :
    strcmpEnd (as.headD 0) (bs.headD 0) = if as = [] ∧ bs = [] then 0 else if as = [] then -1 else 1 := by
  unfold strcmpEnd
  simp only [headD_eq_zero has, headD_eq_zero hbs]

/-- Two strings are equal, one is a proper prefix of the other, or there is a first difference. -/
theorem first_difference (a b : List Byte) :
    a = b ∨ (∃ y bs, b = a ++ y :: bs) ∨ (∃ x as, a = b ++ x :: as) ∨
      ∃ p x y as bs, x ≠ y ∧ a = p ++ x :: as ∧ b = p ++ y :: bs := by
  induction a generalizing b with
  | nil =>
    cases b with
    | nil => exact .inl rfl
    | cons y bs => exact .inr (.inl ⟨y, bs, rfl⟩)
  | cons x as ih =>
    cases b with
    | nil => exact .inr (.inr (.inl ⟨x, as, rfl⟩))
    | cons y bs =>
      by_cases hne : x = y
      · subst hne
        rcases ih bs with rfl | ⟨y, cs, rfl⟩ | ⟨z, cs, rfl⟩ | ⟨p, u, v, cs, ds, huv, rfl, rfl⟩
        · exact .inl rfl
        · exact .inr (.inl ⟨y, cs, rfl⟩)
        · exact .inr (.inr (.inl ⟨z, cs, rfl⟩))
        · exact .inr (.inr (.inr ⟨x :: p, u, v, cs, ds, huv, rfl, rfl⟩))
      · exact .inr (.inr (.inr ⟨[], x, y, as, bs, hne, rfl, rfl⟩))

theorem append_lt_append (p a b : List Byte) : p ++ a < p ++ b ↔ a < b := by
  induction p with
  | nil => rfl
  | cons c p ih =>
    rw [List.cons_append, List.cons_append, List.cons_lt_cons_iff, ih]
    simp

theorem lt_append_cons (a : List Byte) (y : Byte) (bs : List Byte) : a < a ++ y :: bs := by
  have h := (append_lt_append a [] (y :: bs)).2 (List.nil_lt_cons y bs)
  rwa [List.append_nil] at h

theorem differ_lt (hne : x ≠ y) : p ++ x :: as < p ++ y :: bs ↔ x < y := by
  rw [append_lt_append, List.cons_lt_cons_iff]
  exact ⟨fun h => h.elim id fun h => absurd h.1 hne, .inl⟩

theorem Compares.of_lt (h : strcmp a b = -1) (hlt : a < b) : Compares a b := by
  have hne : a ≠ b := fun he => List.lt_irrefl b (he ▸ hlt)
  have hgt : ¬ b < a := List.lt_asymm hlt
  constructor <;> simp [h, hne, hlt, hgt]

theorem Compares.of_gt (h : strcmp a b = 1) (hgt : b < a) : Compares a b := by
  have hne : a ≠ b := fun he => List.lt_irrefl b (he ▸ hgt)
  have hlt : ¬ a < b := List.lt_asymm hgt
  constructor <;> simp [h, hne, hlt, hgt]

theorem Compares.self (ha : ∀ c ∈ a, c ≠ 0) : Compares a a := by
  have h := strcmp_self ha
  have hlt : ¬ a < a := List.lt_irrefl a
  constructor <;> simp [h, hlt]

theorem Compares.append (ha : ∀ c ∈ a, c ≠ 0) (hb : ∀ c ∈ b, c ≠ 0) :
    Compares a (a ++ b) ∧ Compares (a ++ b) a := by
  cases b with
  | nil =>
    rw [List.append_nil]
    exact ⟨.self ha, .self ha⟩
  | cons y bs =>
    have hy := hb y (by simp)
    exact ⟨.of_lt (strcmp_longer ha hy) (lt_append_cons a y bs), .of_gt (strcmp_extends ha hy) (lt_append_cons a y bs)⟩

theorem strcmp_differ_eq (ha : ∀ c ∈ p ++ x :: as, c ≠ 0) (hb : ∀ c ∈ p ++ y :: bs, c ≠ 0) (hne : x ≠ y) :
    strcmp (p ++ x :: as) (p ++ y :: bs) = if as = [] ∧ bs = [] then 0 else if as = [] then -1 else 1 := by
  have hx : x ≠ 0 := ha x (by simp)
  have hy : y ≠ 0 := hb y (by simp)
  rw [strcmp_differ (fun c hc => ha c (by simp [hc])) hx hy hne]
  exact strcmpEnd_eq (fun c hc => ha c (by simp [hc])) fun c hc => hb c (by simp [hc])

theorem Compares.comparable (ha : ∀ c ∈ a, c ≠ 0) (hb : ∀ c ∈ b, c ≠ 0) (h : Compares a b) : Comparable a b := by
  rcases first_difference a b with rfl | ⟨y, bs, rfl⟩ | ⟨x, as, rfl⟩ | ⟨p, x, y, as, bs, hne, rfl, rfl⟩
  · exact .inl List.prefix_rfl
  · exact .inl (List.prefix_append a _)
  · exact .inr (.inl (List.prefix_append b _))
  · refine .inr (.inr ⟨p, x, y, as, bs, hne, rfl, rfl, ?_⟩)
    have hval := strcmp_differ_eq ha hb hne
    rcases Nat.lt_or_gt_of_ne (BitVec.toNat_ne.1 hne) with hlt | hgt
    · have h1 := h.lt.2 ((differ_lt hne).2 hlt)
      rw [hval] at h1
      split_ifs at h1 with h2 h3
      · exact .inl ⟨hlt, h3, fun h4 => h2 ⟨h3, h4⟩⟩
    · have h1 := h.gt.2 ((differ_lt hne.symm).2 hgt)
      refine .inr ⟨hgt, fun has => ?_⟩
      rw [hval, if_pos has] at h1
      split_ifs at h1
      cases h1

theorem Comparable.compares (ha : ∀ c ∈ a, c ≠ 0) (hb : ∀ c ∈ b, c ≠ 0) (h : Comparable a b) : Compares a b := by
  rcases h with ⟨bs, rfl⟩ | ⟨as, rfl⟩ | ⟨p, x, y, as, bs, hne, rfl, rfl, hlt | hgt⟩
  · exact (Compares.append ha fun c hc => hb c (by simp [hc])).1
  · exact (Compares.append hb fun c hc => ha c (by simp [hc])).2
  · obtain ⟨hxy, has, hbs⟩ := hlt
    have hval := strcmp_differ_eq ha hb hne
    rw [if_neg fun h => hbs h.2, if_pos has] at hval
    exact .of_lt hval ((differ_lt hne).2 hxy)
  · obtain ⟨hyx, has⟩ := hgt
    have hval := strcmp_differ_eq ha hb hne
    rw [if_neg fun h => has h.1, if_neg has] at hval
    exact .of_gt hval ((differ_lt hne.symm).2 hyx)

theorem strcmp_eq_zero (ha : ∀ c ∈ a, c ≠ 0) (hb : ∀ c ∈ b, c ≠ 0) :
    strcmp a b = 0 ↔ a = b ∨ ∃ p x y, a = p ++ [x] ∧ b = p ++ [y] := by
  constructor
  · intro h
    rcases first_difference a b with rfl | ⟨y, bs, rfl⟩ | ⟨x, as, rfl⟩ | ⟨p, x, y, as, bs, hne, rfl, rfl⟩
    · exact .inl rfl
    · rw [strcmp_longer ha (hb y (by simp))] at h
      cases h
    · rw [strcmp_extends hb (ha x (by simp))] at h
      cases h
    · rw [strcmp_differ_eq ha hb hne] at h
      split_ifs at h with h1 h2
      · exact .inr ⟨p, x, y, by rw [h1.1], by rw [h1.2]⟩
      · cases h
  · rintro (rfl | ⟨p, x, y, rfl, rfl⟩)
    · exact strcmp_self ha
    · by_cases hne : x = y
      · rw [hne]
        exact strcmp_self hb
      · rw [strcmp_differ_eq ha hb hne]
        rfl

end

/-- **`strcmp` orders strings only by what follows the first difference.** Two names match although they differ when
the difference is in the last character of both. -/
theorem strcmp_compares_iff {a b : List Byte} (ha : ∀ c ∈ a, c ≠ 0) (hb : ∀ c ∈ b, c ≠ 0) :
    (Compares a b ↔ Comparable a b) ∧
      (strcmp a b = 0 ↔ a = b ∨ ∃ p x y, a = p ++ [x] ∧ b = p ++ [y]) :=
  ⟨⟨Compares.comparable ha hb, Comparable.compares ha hb⟩, strcmp_eq_zero ha hb⟩

/-- "task1" and "task2". -/
theorem strcmp_compares_iff_tasks : strcmp [116, 97, 115, 107, 49] [116, 97, 115, 107, 50] = 0 ∧
    ¬ Comparable [116, 97, 115, 107, 49] [116, 97, 115, 107, 50] := by
  have h := strcmp_compares_iff (a := [116, 97, 115, 107, 49]) (b := [116, 97, 115, 107, 50]) (by decide) (by decide)
  refine ⟨h.2.2 (.inr ⟨[116, 97, 115, 107], 49, 50, rfl, rfl⟩), fun hc => ?_⟩
  exact absurd ((h.1.2 hc).eq.1 (by decide)) (by decide)

theorem strcmp_last_character :
    ¬ ∀ a b : List Byte, (∀ c ∈ a, c ≠ 0 ∧ c.toNat < 128) → (∀ c ∈ b, c ≠ 0 ∧ c.toNat < 128) → Compares a b := by
  intro h
  have hc := h [116, 97, 115, 107, 49] [116, 97, 115, 107, 50] (by decide) (by decide)
  exact absurd (hc.eq.1 (by decide)) (by decide)

/-! ### `find_thread` -/

section
variable {s s' : Sys} {fuel t : Nat} {name : List Byte}

theorem permit_forbid (s : Sys) : s.forbid.permit = s := by
  unfold permit forbid
  simp

theorem findThread_sys (h : s.findThread fuel name = some (t, s')) : s' = s := by
  unfold findThread at h
  split_ifs at h
  · cases h
    rfl
  · obtain ⟨x, -, h1⟩ := Option.bind_eq_some_iff.1 h
    split_ifs at h1
    · cases h1
      exact permit_forbid s
    · obtain ⟨y, -, h2⟩ := Option.bind_eq_some_iff.1 h1
      cases h2
      exact permit_forbid s

theorem findLoop_congr (hm : s'.mem = s.mem) (ht : s'.text = s.text) :
    s'.findLoop name fuel t = s.findLoop name fuel t := by
  induction fuel generalizing t with
  | zero => rfl
  | succ fuel ih =>
    unfold findLoop nodeName
    simp only [hm, ht, ih]

theorem findThread_fst : (s.findThread fuel name).map Prod.fst =
    if strcmp (s.nodeName s.runningThread) name = 0 then some s.runningThread
    else (s.findLoop name fuel (getHead s.mem s.threadWait)).bind fun thread =>
      if thread ≠ 0 then some thread else s.findLoop name fuel (getHead s.mem s.threadReady) := by
  have hloop : ∀ x, s.forbid.findLoop name fuel x = s.findLoop name fuel x := fun x => findLoop_congr rfl rfl
  unfold findThread
  simp only [hloop]
  split_ifs
  · rfl
  · show Option.map Prod.fst ((s.findLoop name fuel (getHead s.mem s.threadWait)).bind _) = _
    cases s.findLoop name fuel (getHead s.mem s.threadWait) with
    | none => rfl
    | some x =>
      simp only [Option.bind_some]
      split_ifs
      · rfl
      · show Option.map Prod.fst ((s.findLoop name fuel (getHead s.mem s.threadReady)).bind _) = _
        cases s.findLoop name fuel (getHead s.mem s.threadReady) <;> rfl

def named (s : Sys) (name : List Byte) (t : Nat) : Bool := strcmp (s.nodeName t) name = 0

/-- `findLoop` with the nodes whose names it compares. -/
def findLoopLog (s : Sys) (name : List Byte) : Nat → Nat → Option (Nat × List Nat)
  | 0, _ => none
  | fuel + 1, thread =>
    if thread = 0 then some (0, [])
    else if strcmp (s.nodeName thread) name = 0 then some (thread, [thread])
    else (findLoopLog s name fuel (getNext s.mem thread)).map fun r => (r.1, thread :: r.2)

/-- `find_thread` with the listed nodes whose names it compares. -/
def findThreadLog (fuel : Nat) (s : Sys) (name : List Byte) : Option (Nat × List Nat) :=
  if strcmp (s.nodeName s.runningThread) name = 0 then some (s.runningThread, [])
  else do
    let w ← s.findLoopLog name fuel (getHead s.mem s.threadWait)
    if w.1 ≠ 0 then some w
    else do
      let r ← s.findLoopLog name fuel (getHead s.mem s.threadReady)
      some (r.1, w.2 ++ r.2)

theorem findLoopLog_fst : (s.findLoopLog name fuel t).map Prod.fst = s.findLoop name fuel t := by
  induction fuel generalizing t with
  | zero => rfl
  | succ fuel ih =>
    unfold findLoopLog findLoop
    split_ifs
    · rfl
    · rfl
    · rw [Option.map_map, ← ih]
      rfl

theorem findThreadLog_fst : (s.findThreadLog fuel name).map Prod.fst = (s.findThread fuel name).map Prod.fst := by
  rw [findThread_fst]
  unfold findThreadLog
  split_ifs
  · rfl
  · rw [← findLoopLog_fst, ← findLoopLog_fst]
    cases s.findLoopLog name fuel (getHead s.mem s.threadWait) with
    | none => rfl
    | some w =>
      simp only [Option.bind_eq_bind, Option.bind_some, Option.map_some]
      split_ifs
      · rfl
      · cases s.findLoopLog name fuel (getHead s.mem s.threadReady) <;> rfl

/-- A walk from a node on compares a beginning of the rest of its list, and returns the first node of the name. -/
theorem findLoopLog_eq {L : Layout} {σ : Seqs} {l : Nat} (name : List Byte) (h : Rep L s.mem σ) (xs ys : List Nat)
    (hl : σ l = some (xs ++ ys)) (hf : ys.length < fuel) :
    ∃ seen, s.findLoopLog name fuel (ys.headD 0) = some ((ys.find? (s.named name)).getD 0, seen) ∧ seen <+: ys := by
  induction ys generalizing xs fuel with
  | nil =>
    obtain ⟨fuel, rfl⟩ := Nat.exists_eq_succ_of_ne_zero (Nat.ne_of_gt hf)
    exact ⟨[], rfl, List.prefix_rfl⟩
  | cons y ys ih =>
    obtain ⟨fuel, rfl⟩ := Nat.exists_eq_succ_of_ne_zero (Nat.ne_of_gt (Nat.zero_lt_of_lt hf))
    have hy : y ≠ 0 := L.node_ne y (h.node _ _ hl y (by simp))
    rw [List.headD_cons, findLoopLog, if_neg hy, List.find?_cons]
    by_cases hn : strcmp (s.nodeName y) name = 0
    · have hy' : s.named name y = true := decide_eq_true hn
      rw [if_pos hn, hy']
      exact ⟨[y], rfl, ys, rfl⟩
    · have hy' : s.named name y = false := decide_eq_false hn
      obtain ⟨seen, hs, hpre⟩ := ih (xs ++ [y]) (by simpa using hl) (by simpa using hf)
      rw [if_neg hn, hy', h.getNext_eq hl, hs]
      exact ⟨y :: seen, rfl, List.cons_prefix_cons.2 ⟨rfl, hpre⟩⟩

theorem findThreadLog_eq {L : Layout} {σ : Seqs} {ws rs : List Nat} (name : List Byte) (h : Rep L s.mem σ)
    (hw : σ s.threadWait = some ws) (hr : σ s.threadReady = some rs) (hfw : ws.length < fuel)
    (hfr : rs.length < fuel) : ∃ seen, s.findThreadLog fuel name = some
      (if s.named name s.runningThread then s.runningThread else ((ws ++ rs).find? (s.named name)).getD 0, seen) ∧
      seen.Sublist (ws ++ rs) := by
  unfold findThreadLog
  by_cases hn : strcmp (s.nodeName s.runningThread) name = 0
  · have hn' : s.named name s.runningThread = true := decide_eq_true hn
    rw [if_pos hn, if_pos hn']
    exact ⟨[], rfl, List.nil_sublist _⟩
  · have hn' : ¬ s.named name s.runningThread = true := fun hx => hn (of_decide_eq_true hx)
    obtain ⟨w, hlw, hpw⟩ := findLoopLog_eq name h [] ws hw hfw
    obtain ⟨r, hlr, hpr⟩ := findLoopLog_eq name h [] rs hr hfr
    rw [if_neg hn, if_neg hn', h.getHead_eq hw, hlw, Option.bind_eq_bind, Option.bind_some, List.find?_append]
    cases hx : ws.find? (s.named name) with
    | some t =>
      -- the walk of `thread_wait` ends at a node, which is not `NULL`
      have ht : t ≠ 0 := L.node_ne t (h.node _ _ hw t (List.mem_of_find?_eq_some hx))
      exact ⟨w, if_pos ht, hpw.sublist.trans (List.sublist_append_left ..)⟩
    | none =>
      refine ⟨w ++ r, ?_, hpw.sublist.append hpr.sublist⟩
      rw [if_neg (by simp), h.getHead_eq hr, hlr]
      rfl

end

/-- **`find_thread` searches everything, once.** The running thread if its name matches, else the first match along
`thread_wait` and then `thread_ready`, else `NULL`; no listed thread is compared twice, the state is as it was, and
the result is no list header unless `running_thread` is. -/
theorem find_thread_searches {s : Sys} {L : Layout} {σ : Seqs} {ws rs : List Nat} {fuel : Nat} (name : List Byte)
    (h : Rep L s.mem σ) (hw : σ s.threadWait = some ws) (hr : σ s.threadReady = some rs)
    (hfw : ws.length < fuel) (hfr : rs.length < fuel) :
    ∃ t seen, s.findThread fuel name = some (t, s) ∧ s.findThreadLog fuel name = some (t, seen) ∧
      t = (if s.named name s.runningThread then s.runningThread
        else ((ws ++ rs).find? (s.named name)).getD 0) ∧
      seen.Nodup ∧ (∀ x ∈ seen, x ∈ ws ++ rs) ∧ ∀ l ∈ L.heads, s.runningThread ≠ l → t ≠ l := by
  obtain ⟨seen, hlog, hsub⟩ := findThreadLog_eq name h hw hr hfw hfr
  obtain ⟨⟨t, s'⟩, hrun, ht⟩ : ∃ r, s.findThread fuel name = some r ∧ r.1 = _ :=
    Option.map_eq_some_iff.1 (findThreadLog_fst.symm.trans (congrArg (Option.map Prod.fst) hlog))
  obtain rfl : s' = s := findThread_sys hrun
  have hnodup : (ws ++ rs).Nodup :=
    (h.nodup _ _ hw).append (h.nodup _ _ hr) (h.disj _ _ _ _ hw hr ready_ne_wait.symm)
  dsimp only at ht
  rw [← ht] at hlog
  refine ⟨t, seen, hrun, hlog, ht, hnodup.sublist hsub, fun x hx => hsub.subset hx, fun l hl hne => ?_⟩
  rw [ht]
  split_ifs
  · exact hne
  · cases hx : (ws ++ rs).find? (s'.named name) with
    | none => exact (L.head_ne l hl).symm
    | some x =>
      have hnode : x ∈ L.nodes := by
        rcases List.mem_append.1 (List.mem_of_find?_eq_some hx) with hm | hm
        · exact h.node _ _ hw x hm
        · exact h.node _ _ hr x hm
      exact (Layout.head_ne_node hl hnode).symm

/-- "BB" and "CCC" wait at 9000 and 9200, and "DD" and "A" are ready at 9400 and 9600. -/
def namedFour (x : Nat) : Nat :=
  if x = 9016 then 1 else if x = 9216 then 2 else if x = 9416 then 3 else if x = 9616 then 4 else 0

def fourNamed : Sys := { zeroSys with
  mem := addTail (addTail (addTail (addTail (newList (newList namedFour 4184) 4196) 4196 9000) 4196 9200) 4184 9400) 4184 9600
  text := fun x => if x = 1 then [66, 66] else if x = 2 then [67, 67, 67] else if x = 3 then [68, 68]
    else if x = 4 then [65] else [] }

def fourLayout : Layout where
  heads := {4184, 4196}
  nodes := {9000, 9200, 9400, 9600}
  head_ne := by simp
  node_ne := by simp
  heads_apart := by simp
  nodes_apart := by simp
  apart := by simp

/-- The last of the ready threads is found, and so is the second of those that wait. -/
theorem find_thread_searches_four : ∃ seen seen' : List Nat, fourNamed.findThread 3 [65] = some (9600, fourNamed) ∧
    fourNamed.findThreadLog 3 [65] = some (9600, seen) ∧ seen.Nodup ∧
    fourNamed.findThread 3 [67, 67, 67] = some (9200, fourNamed) ∧
    fourNamed.findThreadLog 3 [67, 67, 67] = some (9200, seen') ∧ seen'.Nodup := by
  have f₂ : ∀ n, Seqs.Free (Function.update (Function.update (fun _ => none) 4184 (some [])) 4196 (some [])) n := fun n =>
    ((Seqs.Free.none n).update (by simp)).update (by simp)
  have h₀ : ListRun fourLayout namedFour _ _ := .start
  have h₁ := h₀.call 0 (.newList 4184) (by simp [Op.Pre, fourLayout]) rfl
  have h₂ := h₁.call 0 (.newList 4196) (by simp [Op.Pre, fourLayout]) rfl
  have h₃ := h₂.call 0 (.addTail 4196 9000) ⟨⟨[], rfl⟩, by simp [fourLayout], f₂ _⟩ rfl
  have h₄ := h₃.call 0 (.addTail 4196 9200) ⟨⟨[9000], rfl⟩, by simp [fourLayout], (f₂ _).update (by simp)⟩ rfl
  have h₅ := h₄.call 0 (.addTail 4184 9400)
    ⟨⟨[], rfl⟩, by simp [fourLayout], ((f₂ _).update (by simp)).update (by simp)⟩ rfl
  have h₆ := h₅.call 0 (.addTail 4184 9600)
    ⟨⟨[9400], rfl⟩, by simp [fourLayout], (((f₂ _).update (by simp)).update (by simp)).update (by simp)⟩ rfl
  obtain ⟨t, seen, hrun, hlog, ht, hnd, -⟩ :=
    @find_thread_searches fourNamed _ _ [9000, 9200] [9400, 9600] 3 [65] h₆.rep rfl rfl (by decide) (by decide)
  obtain ⟨t', seen', hrun', hlog', ht', hnd', -⟩ :=
    @find_thread_searches fourNamed _ _ [9000, 9200] [9400, 9600] 3 [67, 67, 67] h₆.rep rfl rfl (by decide) (by decide)
  obtain rfl : t = 9600 := ht
  obtain rfl : t' = 9200 := ht'
  exact ⟨seen, seen', hrun, hlog, hnd, hrun', hlog', hnd'⟩

end Sys
end Krypton
