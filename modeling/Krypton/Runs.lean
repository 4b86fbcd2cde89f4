import Krypton.Boot

/-!
# Contexts in every run

Contexts are stored and loaded in pairs (`context_roundtrip`) as long as the kernel thread leaves its port alone and
the launch path is not interrupted (`KeepsContexts`).
-/

namespace Krypton

open Sys

variable {c₀ c : Config} {t : Nat}

theorem DispatchLaw.entry {made : Prop} {pd esp cr3 : Word} {launch : Bool} {l₁ l₂ : List Ev}
    (h : DispatchLaw t made pd (l₁ ++ .dispatch t launch esp cr3 :: l₂)) :
    (launch = true ↔ made ∧ ¬ Dispatched t l₂) ∧ (launch = false → lastOut t l₂ = some esp) ∧ cr3 = pd := by
  induction l₁ with
  | nil => exact h.1 rfl
  | cons e l₁ ih => cases e <;> first | exact ih h | exact ih h.2

/-- **Context save and restore round-trip.** At every outermost entry exactly the running thread
has `TS_RUN`; a thread is launched exactly at its first dispatch, if `create_thread` made it; every
other dispatch loads the stack pointer stored when the thread was last switched out; and every
dispatch loads the thread's own page directory. -/
theorem context_roundtrip (h : Reach step KeepsContexts c₀ c) (h₀ : Booted c₀) :
    (c.mode = .ring3 → c.sys.runningThread ∈ c.sys.threads ∧
      ∀ t ∈ c.sys.threads, Has (c.sys.thread t).threadFlags tsRun ↔ t = c.sys.runningThread) ∧
    ∀ t l₁ l₂ launch esp cr3, c.sys.log = l₁ ++ .dispatch t launch esp cr3 :: l₂ →
      t ∈ c.sys.threads ∧ (launch = true ↔ t ∈ c.sys.created ∧ ¬ Dispatched t l₂) ∧
      (launch = false → lastOut t l₂ = some esp) ∧ cr3 = (c.sys.thread t).pageDirectory := by
  have hi := reach_inv h h₀
  refine ⟨fun hm => ⟨hi.context.running, fun t ht => ?_⟩, fun t l₁ l₂ launch esp cr3 hlog => ?_⟩
  · rw [(hi.context.thread t ht).run]
    simp [hm]
  · have ht : t ∈ c.sys.threads := hi.sound.mentions (.dispatch t launch esp cr3) (by rw [hlog]; simp)
    exact ⟨ht, (hlog ▸ (hi.context.thread t ht).law).entry⟩

/-- A thread of priority 15 is launched and waits for a message; the kernel thread waits as well, and a handler posts
while the processor idles and again when the loop has ended. -/
def relaunch : List (Nat × Event) :=
  [create 12288 15, (8, .permit)] ++ List.replicate 11 tick ++
    [call 0 1, call 0 1, tick, post 12288 14000, wakeWith [.timer, .device [.post 12288 14200 (fun _ => 65) 4]]]

def relaunched : Config := (exec step bootZero relaunch).getD bootZero

theorem context_roundtrip_relaunched :
    lastOut 12288 relaunched.sys.log.tail = some 59936 ∧
      (Has (relaunched.sys.thread 12288).threadFlags tsRun ↔ 12288 = relaunched.sys.runningThread) := by
  have hmeets : Meets step KeepsContexts bootZero relaunch := by decide +kernel
  have hrun : Reach step KeepsContexts bootZero relaunched :=
    reach_exec_meets hmeets (by rfl : exec step bootZero relaunch = some relaunched)
  obtain ⟨h1, h2⟩ := context_roundtrip hrun bootZero_booted
  refine ⟨(h2 12288 [] relaunched.sys.log.tail false 59936 4096 (by rfl)).2.2.1 rfl, ?_⟩
  exact (h1 rfl).2 12288 (by decide +kernel)

/-- The kernel thread takes a message off its port, and 11 timer interrupts later its time slice is over. -/
def stray : List (Nat × Event) := [(8, .permit), call 3 0] ++ List.replicate 11 tick

def strayed : Config := (exec step bootStray stray).getD bootStray

/-- The scheduler dispatches the list header in the kernel thread's descriptor, which has never been switched out. -/
theorem context_strayed : Reach step (fun _ _ => True) bootStray strayed ∧ Booted bootStray ∧ strayed.mode = .ring3 ∧
    strayed.sys.runningThread ∉ strayed.sys.threads ∧
    ∃ l, strayed.sys.log = .dispatch strayed.sys.runningThread false 0 0 :: l ∧
      lastOut strayed.sys.runningThread l = none := by
  have hx : exec step bootStray stray = some strayed := by rfl
  exact ⟨reach_exec hx, bootStray_booted, by rfl, by decide +kernel, strayed.sys.log.tail, by rfl, by rfl⟩

end Krypton
