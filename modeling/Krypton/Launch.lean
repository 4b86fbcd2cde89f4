import Krypton.Runs
import Krypton.Stable

/-!
# Launching a thread

`dispatch` loads `esp` from offset 40 of the descriptor, `kernel_esp`, on both of its paths, and the launch path
pushes the frame for `iret` there. `create_thread` stores the stack it is given at offset 48, `init_kernel_esp`, only,
so a thread that was never switched out is launched with the zero `memset` left in `kernel_esp`.
-/

namespace Krypton

open Sys

/-- The words the launch path pushes from `esp` down, by address; the flags are pushed twice. -/
def launchFrame (th : Thread) (esp eflags : Word) : List (Word × Word) :=
  [(esp - 4, 0x23), (esp - 8, th.userEsp), (esp - 12, eflags ||| 0x200), (esp - 16, 0x1B),
    (esp - 20, th.initialEip)]

/-- The five words below the top of a stack. -/
def belowTop (top : Word) : List Word := [top - 4, top - 8, top - 12, top - 16, top - 20]

/-- A thread still to be launched does not run and was never switched out. -/
def Thread.Unlaunched (th : Thread) : Prop :=
  Has th.threadFlags tbLaunch → th.kernelEsp = 0 ∧ ¬ Has th.threadFlags tsRun

theorem Thread.Unlaunched.keeps {th th' : Thread} (h : th.Unlaunched) (hk : th.Keeps th') : th'.Unlaunched := by
  intro hl
  obtain ⟨h0, hr⟩ := h (hk.launch.1 hl)
  exact ⟨hk.kernelEsp.trans h0, fun hx => hr (hk.run.1 hx)⟩

namespace Sys
variable {s s' : Sys} {fuel p q : Nat}

structure Launching (s : Sys) : Prop where
  thread : ∀ t ∈ s.threads, (s.thread t).Unlaunched
  law : ∀ t esp cr3, Ev.dispatch t true esp cr3 ∈ s.log → esp = 0

namespace Launching

theorem quiet (h : s.Launching) (hq : Quiet s s') : s'.Launching := by
  obtain ⟨es, hes, hqs⟩ := hq.log
  constructor
  · intro t ht
    rw [hq.threads_eq] at ht
    exact (h.thread t ht).keeps (hq.threads t)
  · intro t esp cr3 hx
    rw [hes] at hx
    rcases List.mem_append.1 hx with hx | hx
    · exact (hqs _ hx).elim
    · exact h.law t esp cr3 hx

theorem switchOut (h : s.Launching) (hc : s.Context True) : s.switchOut.Launching := by
  rw [switchOut_eq hc.has_run]
  constructor
  · intro t ht
    show (if t = s.runningThread then s.running.out s.esp else s.thread t : Thread).Unlaunched
    split_ifs with he
    · -- the running thread has been launched
      intro hl
      have hl' : Has s.running.threadFlags tbLaunch := (has_and_keep (by decide)).1 hl
      exact absurd hc.has_run (h.thread _ hc.running hl').2
    · exact h.thread t ht
  · intro t esp cr3 hx
    rcases List.mem_cons.1 hx with hx | hx
    · cases hx
    · exact h.law t esp cr3 hx

theorem switchRun (h : s.Launching) (hr : s.runningThread ∈ s.threads) : s.switchRun.resume.Launching := by
  rw [switchRun_resume]
  constructor
  · intro t ht
    show (if t = s.runningThread then s.running.into else s.thread t : Thread).Unlaunched
    split_ifs with he
    · exact fun hl => absurd hl ThreadOk.launch_into
    · exact h.thread t ht
  · intro t esp cr3 hx
    rcases List.mem_cons.1 hx with hx | hx
    · obtain ⟨-, hl, hesp, -⟩ := Ev.dispatch.inj hx
      rw [hesp]
      exact (h.thread _ hr (of_decide_eq_true hl.symm)).1
    · exact h.law t esp cr3 hx

theorem create {a : ThreadArgs} (h : s.Launching) (hc : s.createThread fuel p q a = some s') : s'.Launching := by
  obtain ⟨-, -, m', -, rfl⟩ := createThread_cases hc
  refine ⟨fun t ht => ?_, h.law⟩
  show (if t = p then s.newThread a else s.thread t : Thread).Unlaunched
  split_ifs with he
  · have hrun : ¬ Has (tsReady ||| tbLaunch) tsRun := by decide
    exact fun _ => ⟨rfl, hrun⟩
  · exact h.thread t ((List.mem_cons.1 ht).resolve_left he)

theorem stableQuiet : StableQuiet Launching where
  store h e := ⟨fun t ht => by
    rw [e.thread]
    rw [threads, e.created, e.kernelThread] at ht
    exact h.thread t ht, fun t esp cr3 hx => h.law t esp cr3 (e.log ▸ hx)⟩
  quiet h hq := h.quiet hq
  switchOut hc h := h.switchOut hc
  switchTo h _ := ⟨h.thread, h.law⟩
  switchRun h hr := h.switchRun hr
  create _ h hc := h.create hc

end Launching
end Sys

variable {c c' c₀ c₁ : Config}

theorem Booted.launching (h : Booted c) : c.sys.Launching := by
  obtain ⟨hf, -⟩ := h.fresh
  constructor
  · intro t ht hl
    rw [hf.threads, List.mem_singleton] at ht
    have hflags := hf.flags
    unfold Sys.running at hflags
    rw [ht, ← hf.running, hflags] at hl
    exact absurd hl (by decide)
  · intro t esp cr3 hx
    rw [hf.log] at hx
    cases hx

/-- **Launching on a stack.** A thread made by `create_thread` has the stack it was given as `init_kernel_esp`, but
whenever it is launched `esp` is 0: it is the top of that stack, and the frame lies right below the top, if and
only if `kernel_stack` was `NULL`. -/
theorem launched_at_zero {fuel p q : Nat} {a : ThreadArgs} (h : Reach step KeepsContexts c₀ c)
    (h₀ : Booted c₀) (hc : step c (fuel, .create p q a) = some c₁)
    (h₁ : Reach step KeepsContexts c₁ c') :
    (c₁.sys.thread p).initKernelEsp = a.kernelStack ∧
      ∀ l₁ l₂ esp cr3, c'.sys.log = l₁ ++ .dispatch p true esp cr3 :: l₂ → esp = 0 ∧
        (esp = a.kernelStack ↔ a.kernelStack = 0) ∧
        ∀ eflags, (launchFrame (c'.sys.thread p) esp eflags).map Prod.fst = belowTop a.kernelStack ↔
          a.kernelStack = 0 := by
  have hkeeps : KeepsContexts c (fuel, .create p q a) := ⟨trivial, trivial⟩
  have hall := (h.next _ hkeeps hc).trans h₁
  refine ⟨?_, fun l₁ l₂ esp cr3 hlog => ?_⟩
  · cases step_cases hc with
    | create hm hs =>
      obtain ⟨-, -, m', -, rfl⟩ := createThread_cases hs
      exact congrArg Thread.initKernelEsp (if_pos rfl)
  · have hlaunching := Launching.stableQuiet.stable.reach hall h₀ (fun _ _ => id) h₀.launching
    obtain rfl : esp = 0 := hlaunching.law p esp cr3 (by rw [hlog]; simp)
    refine ⟨rfl, eq_comm, fun eflags => ?_⟩
    unfold launchFrame belowTop
    constructor
    · intro hx
      have h4 : (0 : Word) - 4 = a.kernelStack - 4 := (List.cons.inj hx).1
      exact (BitVec.sub_left_inj 4 |>.1 h4).symm
    · intro hx
      rw [hx]
      rfl

/-- A thread with the kernel stack 60000 is made and launched at the end of the first time slice. -/
def firstLaunch : List (Nat × Event) := (8, .permit) :: List.replicate 11 tick

def made : Config := (step bootZero (create 12288 5)).getD bootZero

def launched : Config := (exec step made firstLaunch).getD made

theorem launched_at_zero_made : (made.sys.thread 12288).initKernelEsp = 60000 ∧
    ((0 : Word) = 60000 ↔ (60000 : Word) = 0) := by
  have hmade : step bootZero (create 12288 5) = some made := by rfl
  have hrun : Reach step KeepsContexts made launched :=
    reach_exec_meets (by decide +kernel) (by rfl : exec step made firstLaunch = some launched)
  obtain ⟨h1, h2⟩ := launched_at_zero .start bootZero_booted hmade hrun
  exact ⟨h1, (h2 [] launched.sys.log.tail 0 4096 (by rfl)).2.1⟩

/-- It is launched with `esp` 0, and the first word of the frame goes to the last word of the address space. -/
theorem launch_off_stack : Reach step (fun _ _ => True) bootZero launched ∧ Booted bootZero ∧
    launched.sys.runningThread = 12288 ∧ (launched.sys.thread 12288).initKernelEsp = 60000 ∧
    launched.sys.log = .dispatch 12288 true 0 4096 :: launched.sys.log.tail ∧ launched.sys.esp = 0 ∧
    (launchFrame (launched.sys.thread 12288) launched.sys.esp 0).map Prod.fst ≠ belowTop 60000 := by
  have hmade : step bootZero (create 12288 5) = some made := by rfl
  have hrun : Reach step (fun _ _ => True) made launched :=
    reach_exec (by rfl : exec step made firstLaunch = some launched)
  refine ⟨(Reach.start.next _ trivial hmade).trans hrun, bootZero_booted, ?_, ?_, rfl, ?_, ?_⟩
  all_goals decide +kernel

end Krypton
