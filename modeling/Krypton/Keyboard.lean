import Krypton.CallFrame
import Krypton.Forbid
import Krypton.Gates
import Krypton.OwnPort
import Krypton.Vsprintf

/-!
# `keyboard.device`

`demo_thread` in `kernel_main.c` takes the messages `keypress` posts to it and prints them with `kprintf("%c", ..)`. Its
loop is cut at every entry into the kernel and at every use of memory that others can reach: `return_message` on its
stack, and `kprintf`'s buffer, which is static. Between two of its instructions any other thread runs and any interrupt
arrives.

In every run each key typed is either shown, or waits in the port, in the order of typing (`keyboard_echo`), as long as
nobody formats a text of his own in the buffer after `vsprintf` and before `forbid`.
-/

namespace Krypton

open Sys
open Kernel (intBuf)

def kbdus : List Byte :=
  [0, 27] ++ ['1', '2', '3', '4', '5', '6', '7', '8', '9', '0', '-', '='].map chr ++ [8, 9] ++
    ['q', 'w', 'e', 'r', 't', 'y', 'u', 'i', 'o', 'p', '[', ']', '\n'].map chr ++ [0] ++
    ['a', 's', 'd', 'f', 'g', 'h', 'j', 'k', 'l', ';', '\'', '`'].map chr ++ [0] ++
    ['\\', 'z', 'x', 'c', 'v', 'b', 'n', 'm', ',', '.', '/'].map chr ++ [0] ++ [chr '*'] ++ [0] ++ [chr ' '] ++ [0] ++
    List.replicate 15 0 ++ [chr '-'] ++ [0, 0, 0] ++ [chr '+'] ++ List.replicate 49 0

/-- The `int` at the beginning of a message buffer. -/
def scancodeOf (b : Buf) : Word := b 3 ++ b 2 ++ b 1 ++ b 0

/-- What `kprintf("%c", c)` leaves in `buf` before the first `NUL`. -/
def printed (c : Byte) : List Byte :=
  ((vsprintf [chr '%', chr 'c'] [.word (c.setWidth 32)]).elim [] Vsprintf.State.str).takeWhile (· ≠ 0)

/-- The text of a scancode. -/
def echo (scancode : Word) : List Byte := (kbdus[scancode.toNat]?).elim [] printed

/-- What `keypress` does for the thread it has found. -/
def keypressActs (t p : Nat) (scancode : Byte) : List Act :=
  if scancode &&& 0x80 = 0 then [.post t p (intBuf scancode) 4] else []

theorem keypress_acts {k : Kernel} {fuel t p : Nat} {scancode : Byte} (h : k.sys.keyboardThread fuel = some t)
    (h0 : t ≠ 0) (ht : t ∈ k.sys.created) :
    (k.keypress fuel scancode p).map (fun k => k.sys) = k.sys.acts fuel (keypressActs t p scancode) := by
  obtain ⟨⟨t', s⟩, h1, rfl⟩ := Option.map_eq_some_iff.1 h
  obtain rfl := findThread_sys h1
  dsimp only at h0 ht
  unfold Kernel.keypress keypressActs
  rw [h1]
  simp only [Option.bind_eq_bind, Option.bind_some, if_neg h0]
  split_ifs
  · simp [acts, act, ht, Function.comp_def, Kernel.setSys]
  · rfl

/-- Where the thread stands in its loop. -/
inductive Pc
  /-- In front of `int 0xFF` in `msg_retrieve`. -/
  | retrieve
  /-- `if(!return_message)` -/
  | test
  | wait
  /-- `return return_message` -/
  | found
  /-- In `kprintf`, in front of `vsprintf`. -/
  | format (msg : Word)
  | forbid
  /-- In front of `int 0xFF` in `monitor_write`. -/
  | write
  | permit
  /-- In front of `int 0xFF` in `msg_cycle`. -/
  | cycle
deriving DecidableEq

/-- The kernel, and the thread of the keyboard. The last two fields are history: the scancodes of the keys pressed and
the bytes `_monitor_write` has got from the thread. -/
structure Keyboard where
  config : Config
  pc : Pc
  /-- `kprintf`'s `buf`, before its `NUL`. -/
  buf : List Byte
  keys : List Byte
  shown : List Byte

inductive Move
  /-- The thread of the keyboard executes its next instruction. -/
  | thread (fuel : Nat)
  /-- A key is pressed or released; `p` is what `kmalloc` returns for the message. -/
  | key (fuel p : Nat) (scancode : Byte)
  | event (e : Nat × Event)
  /-- Another thread has formatted a text in `kprintf`. -/
  | format (text : List Byte)

/-- Code of the running thread. -/
def Event.IsCall : Event → Prop
  | .forbid | .permit | .create .. | .syscall .. => True
  | .irq _ | .wake _ => False

instance : DecidablePred Event.IsCall
  | .forbid | .permit | .create .. | .syscall .. => inferInstanceAs (Decidable True)
  | .irq _ | .wake _ => inferInstanceAs (Decidable False)

theorem scancodeOf_eq {b : Buf} {k : Byte} (h : Matches b ((List.range 4).map (intBuf k))) :
    scancodeOf b = k.setWidth 32 := by
  have h0 : b 0 = k := h 0 (by simp)
  have h1 : b 1 = 0 := h 1 (by simp)
  have h2 : b 2 = 0 := h 2 (by simp)
  have h3 : b 3 = 0 := h 3 (by simp)
  unfold scancodeOf
  rw [h0, h1, h2, h3]
  have hk : k.toNat % 2 ^ 32 = k.toNat := Nat.mod_eq_of_lt (by omega)
  refine BitVec.eq_of_toNat_eq ?_
  rw [BitVec.toNat_setWidth, hk, BitVec.toNat_append]
  simp

namespace Keyboard

def enter (d : Keyboard) (fuel : Nat) (ev : Event) (pc : Pc) : Option Keyboard :=
  (step d.config (fuel, ev)).map fun c => { d with config := c, pc := pc }

/-- `_monitor_write` of `buf`. -/
def write (d : Keyboard) : Keyboard :=
  { d with shown := d.shown ++ if d.config.sys.running.uid = 0 then d.buf else [] }

/-- One instruction; `returnMessage` and `buf` are the addresses of the variables. -/
def thread (returnMessage buf : Word) (fuel : Nat) (d : Keyboard) : Option Keyboard :=
  match d.pc with
  | .retrieve => d.enter fuel (.syscall 2 returnMessage) .test
  | .test => some { d with pc := if d.config.sys.user returnMessage = 0 then .wait else .found }
  | .wait => d.enter fuel (.syscall 0 stMesg) .retrieve
  | .found => some { d with pc := .format (d.config.sys.user returnMessage) }
  | .format msg =>
    (kbdus[(scancodeOf (d.config.sys.msgBuf msg.toNat)).toNat]?).map fun c => { d with buf := printed c, pc := .forbid }
  | .forbid => d.enter fuel .forbid .write
  | .write => d.write.enter fuel (.syscall 1 buf) .permit
  | .permit => d.enter fuel .permit .cycle
  | .cycle => d.enter fuel (.syscall 3 0) .retrieve

/-- One move, where `t` is the thread of the keyboard. -/
def move (t : Nat) (returnMessage buf : Word) (d : Keyboard) : Move → Option Keyboard
  | .thread fuel =>
    if d.config.mode = .ring3 ∧ d.config.sys.runningThread = t then d.thread returnMessage buf fuel else none
  | .key fuel p scancode => do
    let t ← d.config.sys.keyboardThread fuel
    let c ← step d.config (fuel, .irq (.device (keypressActs t p scancode)))
    some { d with config := c, keys := if scancode &&& 0x80 = 0 then d.keys ++ [scancode] else d.keys }
  | .event e =>
    if e.2.IsCall ∧ d.config.sys.runningThread = t then none
    else (step d.config e).map fun c => { d with config := c }
  | .format text =>
    if d.config.mode = .ring3 ∧ d.config.sys.runningThread ≠ t then some { d with buf := text } else none

/-- The others leave the thread's port and its variable alone and the contexts whole, the kernel's pointers are words,
`keypress` finds the thread, and nobody formats a text between the thread's `vsprintf` and its `forbid`, which finds no
negative counter. -/
def Sole (t : Nat) (returnMessage : Word) (d : Keyboard) : Move → Prop
  | .thread _ => d.pc = .forbid → 0 ≤ d.config.sys.forbidCounter.toInt ∧ d.config.sys.forbidCounter.toInt + 1 < 2 ^ 31
  | .key fuel p _ => d.config.sys.keyboardThread fuel = some t ∧ p < 2 ^ 32
  | .event e => KeepsContexts d.config e ∧ e.2.posts t = 0 ∧ returnMessage ∉ written d.config e.2 ∧
    ∀ p ∈ e.2.allocates, p < 2 ^ 32
  | .format _ => d.pc ≠ .forbid

instance (t : Nat) (returnMessage : Word) (d : Keyboard) : DecidablePred (Sole t returnMessage d)
  | .thread _ => inferInstanceAs (Decidable (_ → _ ∧ _))
  | .key .. => inferInstanceAs (Decidable (_ ∧ _))
  | .event _ => inferInstanceAs (Decidable (_ ∧ _ ∧ _ ∧ _))
  | .format _ => inferInstanceAs (Decidable (_ ≠ _))

/-- The bytes posted for a key. -/
def payload (scancode : Byte) : List Byte := (List.range 4).map (intBuf scancode)

variable {t n : Nat} {c c' : Config} {keys : List Byte} {fuel : Nat} {ev : Event} {d d' : Keyboard} {msg ret buf : Word}

/-- The kernel under the thread, after the keys `keys`. -/
structure Base (t : Nat) (keys : List Byte) (c : Config) : Prop where
  inv : Inv c
  calm : ¬ Has c.sys.sysFlags needTaskSwitch
  serves : Serves t c.sys
  low : ∀ b ∈ c.sys.blocks, b.1 < 2 ^ 32
  posted : posted t c.sys.log = keys.map payload
  makes : ∀ k ∈ keys, k &&& 0x80 = 0

/-- The first message of `t` is `msg`. -/
def FirstIs (t : Nat) (msg : Word) (c : Config) : Prop := msg ≠ 0 ∧ getHead c.sys.mem (messageList t) = msg.toNat

/-- The messages `t` has deleted. -/
def taken (t : Nat) (c : Config) : Nat := (Krypton.cycled t c.sys.log).length

namespace Base

/-- The thread's own calls keep the contexts whole: it is not the kernel thread. -/
theorem keeps (h : Base t keys c) (hr : c.sys.runningThread = t) (ev : Event) (hcall : ev.IsCall) :
    KeepsContexts c (fuel, ev) := by
  cases ev with
  | forbid | permit | create => exact ⟨trivial, trivial⟩
  | syscall eax ebx =>
    have hne := h.inv.sound.objects.created_ne h.serves.made
    exact ⟨fun hx => hne (hr.symm.trans hx.1), trivial⟩
  | irq | wake => exact hcall.elim

/-- A step that posts the keys `ks` to `t`. -/
theorem step {ks : List Byte} (h : Base t keys c) (hok : KeepsContexts c (fuel, ev)) (hks : ev.sent t = ks.map payload)
    (hmk : ∀ k ∈ ks, k &&& 0x80 = 0) (hal : ∀ p ∈ ev.allocates, p < 2 ^ 32)
    (hs : Krypton.step c (fuel, ev) = some c') : Base t (keys ++ ks) c' where
  inv := h.inv.step hok hs
  calm := calm_step h.inv.toConsistent hok.1 h.calm hs
  serves := (Serves.stableQuiet t).stable.step h.inv hok h.serves hs
  low b hb := (step_blocks h.inv.toConsistent hs b hb).elim (h.low b) (hal _)
  posted := by
    rw [(h.inv.step_tally hok.1 h.serves.made hs).posted, h.posted, hks, List.map_append]
  makes k hk := (List.mem_append.1 hk).elim (h.makes k) (hmk k)

theorem unposted (h : Base t keys c) (hok : KeepsContexts c (fuel, ev)) (h0 : ev.posts t = 0)
    (hal : ∀ p ∈ ev.allocates, p < 2 ^ 32) (hs : Krypton.step c (fuel, ev) = some c') : Base t keys c' := by
  have hb : Base t (keys ++ []) c' := h.step hok (List.length_eq_zero_iff.1 h0) (by simp) hal hs
  rwa [List.append_nil] at hb

/-- A key is pressed. -/
theorem key {p : Nat} {k : Byte} (h : Base t keys c) (hk : k &&& 0x80 = 0) (hp : p < 2 ^ 32)
    (hs : Krypton.step c (fuel, .irq (.device [.post t p (intBuf k) 4])) = some c') : Base t (keys ++ [k]) c' := by
  have hsent : (Event.irq (.device [.post t p (intBuf k) 4])).sent t = [k].map payload := by
    simp [Event.sent, Handler.sent, Act.sent, payload, maxMsgSz]
  have hok : KeepsContexts c (fuel, .irq (.device [.post t p (intBuf k) 4])) := ⟨trivial, trivial⟩
  refine h.step hok hsent ?_ ?_ hs
  · rintro x hx
    rw [List.mem_singleton.1 hx]
    exact hk
  · rintro x hx
    rw [List.mem_singleton.1 hx]
    exact hp

theorem taken_eq (h : Base t keys c) (hok : KeepsContexts c (fuel, ev)) (hd : ¬ c.Deletes t ev)
    (hs : Krypton.step c (fuel, ev) = some c') : taken t c' = taken t c := by
  have htally := congrArg List.length (h.inv.step_tally hok.1 h.serves.made hs).cycled
  rwa [List.length_append, Config.removes_length, if_neg hd] at htally

theorem firstIs (h : Base t keys c) (hf : FirstIs t msg c) (hok : KeepsContexts c (fuel, ev)) (hd : ¬ c.Deletes t ev)
    (hs : Krypton.step c (fuel, ev) = some c') : FirstIs t msg c' := by
  have hm : msg.toNat ≠ 0 := fun he => hf.1 (BitVec.eq_of_toNat_eq he)
  have hn : taken t c' = taken t c := h.taken_eq hok hd hs
  have hahead : Ahead t (taken t c) msg.toNat c.sys := ⟨h.serves.made, .inr ⟨rfl, hf.2⟩⟩
  rcases ((Ahead.stable t (taken t c) hm).step h.inv hok hahead hs).first with hlt | ⟨-, hg⟩
  · exact absurd hlt (Nat.not_lt.2 (Nat.le_of_eq hn))
  · exact ⟨hf.1, hg⟩

/-- The port holds the keys that are not taken, as messages below `2 ^ 32`. -/
theorem port (h : Base t keys c) : ∃ ps, IsList c.sys.mem (messageList t) ps ∧
    ps.map (fun p => scancodeOf (c.sys.msgBuf p)) = (keys.drop (taken t c)).map (·.setWidth 32) ∧
    taken t c + ps.length = keys.length ∧ getHead c.sys.mem (messageList t) = ps.headD 0 ∧
    ∀ p ∈ ps, p ≠ 0 ∧ p < 2 ^ 32 := by
  obtain ⟨q, hq⟩ := h.inv.sound.ports
  have ht := h.serves.made
  have hfifo := (hq.law t ht).fifo
  rw [h.posted] at hfifo
  obtain ⟨σ, hrep, -, hσ⟩ := hq.rep
  refine ⟨q t, hrep.isList _ _ (hσ t ht), ?_, ?_, hq.getHead ht, fun p hp => ⟨hq.ne_zero ht p hp, ?_⟩⟩
  · have hdrop := List.forall₂_drop (taken t c) hfifo
    rw [taken, List.drop_left, ← List.map_drop, List.forall₂_map_left_iff, List.forall₂_map_right_iff] at hdrop
    exact List.forall₂_eq_eq_eq ▸ List.forall₂_map_left_iff.2 (List.forall₂_map_right_iff.2
      (hdrop.imp fun p k hm => scancodeOf_eq hm))
  · have := hfifo.length_eq
    rwa [List.length_append, List.length_map, List.length_map] at this
  · exact h.low _ (hq.message t ht p hp)

theorem first_key (h : Base t keys c) (hf : FirstIs t msg c) : ∃ k, keys[taken t c]? = some k ∧
    scancodeOf (c.sys.msgBuf msg.toNat) = k.setWidth 32 := by
  obtain ⟨ps, -, hmap, hlen, hhead, -⟩ := h.port
  rw [hf.2] at hhead
  have hm : msg.toNat ≠ 0 := fun he => hf.1 (BitVec.eq_of_toNat_eq he)
  cases ps with
  | nil => exact absurd hhead hm
  | cons p ps =>
    obtain ⟨k, hk⟩ : ∃ k, keys[taken t c]? = some k := by
      have hlt : taken t c < keys.length := by
        rw [List.length_cons] at hlen
        omega
      exact ⟨_, List.getElem?_eq_getElem hlt⟩
    refine ⟨k, hk, ?_⟩
    obtain ⟨hlt, rfl⟩ := List.getElem?_eq_some_iff.1 hk
    rw [List.drop_eq_getElem_cons hlt, List.map_cons, List.map_cons] at hmap
    rw [hhead]
    exact (List.cons.inj hmap).1

end Base

/-! ### The invariant -/

def echoes (keys : List Byte) : List Byte := keys.flatMap fun k => echo (k.setWidth 32)

/-- The thread is in its section between `forbid` and `permit`. -/
def InSection (t : Nat) (c : Config) : Prop := c.sys.runningThread = t ∧ Held c c

/-- `n` keys have been shown. -/
def Shows (d : Keyboard) (n : Nat) : Prop := n ≤ d.keys.length ∧ d.shown = echoes (d.keys.take n)

/-- What holds where the thread stands, with `n` messages taken. -/
def At (t : Nat) (ret : Word) (d : Keyboard) (n : Nat) : Prop :=
  match d.pc with
  | .retrieve | .wait => d.Shows n
  | .test => d.Shows n ∧ (d.config.sys.user ret = 0 ∨ FirstIs t (d.config.sys.user ret) d.config)
  | .found => d.Shows n ∧ FirstIs t (d.config.sys.user ret) d.config
  | .format msg => d.Shows n ∧ FirstIs t msg d.config
  | .forbid => d.Shows n ∧ ∃ k, d.keys[n]? = some k ∧ d.buf = echo (k.setWidth 32)
  | .write => d.Shows n ∧ (∃ k, d.keys[n]? = some k ∧ d.buf = echo (k.setWidth 32)) ∧ InSection t d.config
  | .permit => d.Shows (n + 1) ∧ InSection t d.config
  | .cycle => d.Shows (n + 1)

structure Working (t : Nat) (ret : Word) (d : Keyboard) : Prop where
  base : Base t d.keys d.config
  at_pc : d.At t ret (taken t d.config)

theorem Shows.more {n : Nat} (h : d.Shows n) (hk : ∃ ks, d'.keys = d.keys ++ ks) (hs : d'.shown = d.shown) : d'.Shows n := by
  obtain ⟨ks, hk⟩ := hk
  refine ⟨?_, ?_⟩
  · rw [hk, List.length_append]
    exact Nat.le_add_right_of_le h.1
  · rw [hs, hk, List.take_append_of_le_length h.1]
    exact h.2

theorem getElem?_more {n : Nat} {k : Byte} {ks : List Byte} (h : d.keys[n]? = some k) (hk : d'.keys = d.keys ++ ks) :
    d'.keys[n]? = some k := by
  rw [hk, List.getElem?_append_left (List.getElem?_eq_some_iff.1 h).1]
  exact h

theorem At.others (h : d.At t ret n) (hpc : d'.pc = d.pc) (hs : d'.shown = d.shown)
    (hb : d.pc = .forbid ∨ d.pc = .write → d'.buf = d.buf) (hk : ∃ ks, d'.keys = d.keys ++ ks)
    (hu : d'.config.sys.user ret = d.config.sys.user ret)
    (hf : ∀ msg, FirstIs t msg d.config → FirstIs t msg d'.config)
    (hi : InSection t d.config → InSection t d'.config) : d'.At t ret n := by
  have hmore : ∀ m, d.Shows m → d'.Shows m := fun m hm => hm.more hk hs
  have hnext : d.pc = .forbid ∨ d.pc = .write → (∃ k, d.keys[n]? = some k ∧ d.buf = echo (k.setWidth 32)) →
      ∃ k, d'.keys[n]? = some k ∧ d'.buf = echo (k.setWidth 32) := by
    rintro hpc' ⟨k, h1, h2⟩
    obtain ⟨ks, hk⟩ := hk
    exact ⟨k, getElem?_more h1 hk, (hb hpc').trans h2⟩
  unfold At at h ⊢
  rw [hpc]
  cases hd : d.pc <;> simp only [hd] at h ⊢
  case retrieve | wait => exact hmore _ h
  case test =>
    rw [hu]
    exact ⟨hmore _ h.1, h.2.imp id (hf _)⟩
  case found =>
    rw [hu]
    exact ⟨hmore _ h.1, hf _ h.2⟩
  case format msg => exact ⟨hmore _ h.1, hf _ h.2⟩
  case forbid => exact ⟨hmore _ h.1, hnext (.inl hd) h.2⟩
  case write => exact ⟨hmore _ h.1, hnext (.inr hd) h.2.1, hi h.2.2⟩
  case permit => exact ⟨hmore _ h.1, hi h.2⟩
  case cycle => exact hmore _ h

theorem InSection.step (h : InSection t c) (hi : Consistent c) (hok : NoStrayCycle c (fuel, ev))
    (hin : Inside c (fuel, ev)) (hs : Krypton.step c (fuel, ev) = some c') : InSection t c' := by
  have hh : Held c c' := h.2.step hi hok hin hs
  exact ⟨hh.running.trans h.1, ⟨hh.mode, hh.forbid, hh.calm, rfl, [], rfl, by simp⟩⟩

theorem Shows.next {k : Byte} (h : d.Shows n) (hk : d.keys[n]? = some k) (h1 : d'.keys = d.keys)
    (h2 : d'.shown = d.shown ++ echo (k.setWidth 32)) : d'.Shows (n + 1) := by
  refine ⟨?_, ?_⟩
  · rw [h1]
    exact (List.getElem?_eq_some_iff.1 hk).1
  · rw [h2, h1, List.take_add_one, hk, h.2]
    simp [echoes]

/-! ### The others -/

namespace Working

theorem key {p : Nat} {k : Byte} (h : Working t ret d) (hok : Sole t ret d (.key fuel p k))
    (hs : d.move t ret buf (.key fuel p k) = some d') : Working t ret d' := by
  obtain ⟨hfind, hp⟩ := hok
  obtain ⟨x, hx, hs⟩ := Option.bind_eq_some_iff.1 hs
  obtain rfl := Option.some.inj (hfind.symm.trans hx)
  obtain ⟨c', hc, hs⟩ := Option.bind_eq_some_iff.1 hs
  have hd : ¬ d.config.Deletes t (.irq (.device (keypressActs t p k))) := id
  have hin : Inside d.config (fuel, .irq (.device (keypressActs t p k))) := id
  have hirq : ∀ as, KeepsContexts d.config (fuel, .irq (.device as)) := fun _ => ⟨trivial, trivial⟩
  have hok := hirq (keypressActs t p k)
  have hi := h.base.inv.toConsistent
  have hu : c'.sys.user ret = d.config.sys.user ret := step_user hi List.not_mem_nil hc
  have hat : ∀ keys', (∃ ks, keys' = d.keys ++ ks) →
      At t ret { d with config := c', keys := keys' } (taken t c') := by
    intro keys' hk
    rw [h.base.taken_eq hok hd hc]
    exact h.at_pc.others rfl rfl (fun _ => rfl) hk hu (fun msg hf => h.base.firstIs hf hok hd hc)
      fun hsec => hsec.step hi hok.1 hin hc
  rw [← Option.some.inj hs]
  unfold keypressActs at hc
  split_ifs at hc ⊢ with hm
  · exact ⟨h.base.key hm hp hc, hat _ ⟨[k], rfl⟩⟩
  · exact ⟨h.base.unposted (hirq []) rfl (fun _ hx => absurd hx List.not_mem_nil) hc, hat _ ⟨[], (List.append_nil _).symm⟩⟩

theorem event {e : Nat × Event} (h : Working t ret d) (hok : Sole t ret d (.event e))
    (hs : d.move t ret buf (.event e) = some d') : Working t ret d' := by
  obtain ⟨fuel, ev⟩ := e
  obtain ⟨hkeeps, hposts, hret, hal⟩ := hok
  obtain ⟨hcall, hs⟩ := Option.ite_none_left_eq_some.1 hs
  obtain ⟨c', hc, rfl⟩ := Option.map_eq_some_iff.1 hs
  have hd : ¬ d.config.Deletes t ev := by
    cases ev with
    | syscall eax ebx => exact fun hx => hcall ⟨trivial, hx.1⟩
    | forbid | permit | create | irq | wake => exact id
  refine ⟨h.base.unposted hkeeps hposts hal hc, ?_⟩
  show At t ret _ (taken t c')
  rw [h.base.taken_eq hkeeps hd hc]
  have hi := h.base.inv.toConsistent
  refine h.at_pc.others rfl rfl (fun _ => rfl) ⟨[], (List.append_nil _).symm⟩ (step_user hi hret hc)
    (fun msg hf => h.base.firstIs hf hkeeps hd hc) fun hsec => hsec.step hi hkeeps.1 ?_ hc
  cases ev with
  | irq d => exact id
  | wake => exact id
  | forbid | permit | create | syscall => exact absurd ⟨trivial, hsec.1⟩ hcall

theorem format {text : List Byte} (h : Working t ret d) (hok : d.pc ≠ .forbid)
    (hs : d.move t ret buf (.format text) = some d') : Working t ret d' := by
  obtain ⟨⟨-, hne⟩, hs⟩ := Option.ite_none_right_eq_some.1 hs
  rw [← Option.some.inj hs]
  refine ⟨h.base, h.at_pc.others rfl rfl ?_ ⟨[], (List.append_nil _).symm⟩ rfl (fun _ hf => hf) id⟩
  rintro (hpc | hpc)
  · exact absurd hpc hok
  · have hat := h.at_pc
    unfold At at hat
    rw [hpc] at hat
    exact absurd hat.2.2.1 hne

end Working

/-! ### The thread -/

/-- The word `return_message` behind the system call of `msg_retrieve`. -/
theorem Base.retrieved (h : Base t keys c) (hr : c.sys.runningThread = t)
    (hs : Krypton.step c (fuel, .syscall 2 ret) = some c') :
    c'.sys.user ret = BitVec.ofNat 32 (getHead c.sys.mem (messageList t)) := by
  cases step_cases hs with
  | syscall hm hh =>
    obtain ⟨s₁, h1, h2⟩ := Option.bind_eq_some_iff.1 hh
    have hu : c.sys.running.uid = 0 := by
      unfold running
      rw [hr]
      exact h.serves.uid
    have hs₁ : c.sys.trap.enter.msgRetrieve ret = s₁ := Option.some.inj ((if_neg (not_not.2 hu)).symm.trans h1)
    rw [(Exits.dispatch _ _).user, reschedule_user h2, ← hs₁]
    show (if ret = ret then BitVec.ofNat 32 (getHead c.sys.mem (messageList c.sys.runningThread)) else _) = _
    rw [if_pos rfl, hr]

theorem Base.retrieved_first (h : Base t keys c) (hr : c.sys.runningThread = t)
    (hs : Krypton.step c (fuel, .syscall 2 ret) = some c') :
    c'.sys.user ret = 0 ∨ FirstIs t (c'.sys.user ret) c' := by
  obtain ⟨ps, -, -, -, hhead, hps⟩ := h.port
  rw [h.retrieved hr hs, hhead]
  cases ps with
  | nil => exact .inl rfl
  | cons p ps =>
    obtain ⟨h0, hlt⟩ := hps p (List.mem_cons_self ..)
    have hp : (BitVec.ofNat 32 p).toNat = p := by
      rw [BitVec.toNat_ofNat]
      exact Nat.mod_eq_of_lt hlt
    have hf : FirstIs t (BitVec.ofNat 32 p) c := by
      refine ⟨fun he => h0 ?_, hhead.trans hp.symm⟩
      rw [← hp, he]
      rfl
    have hd : ¬ c.Deletes t (.syscall 2 ret) := fun hx => absurd hx.2.2.1 (by decide)
    exact .inr (h.firstIs hf (h.keeps hr (.syscall 2 ret) trivial) hd hs)

/-- A system call of the thread that deletes nothing. -/
theorem Base.call {eax ebx : Word} (h : Base t keys c) (hr : c.sys.runningThread = t) (h3 : eax ≠ 3)
    (hs : Krypton.step c (fuel, .syscall eax ebx) = some c') : Base t keys c' ∧ taken t c' = taken t c := by
  have hd : ¬ c.Deletes t (.syscall eax ebx) := fun hx => h3 hx.2.2.1
  have hok : KeepsContexts c (fuel, .syscall eax ebx) := h.keeps hr _ trivial
  exact ⟨h.unposted hok rfl (fun _ hx => absurd hx List.not_mem_nil) hs, h.taken_eq hok hd hs⟩

theorem Base.cycled (h : Base t keys c) (hr : c.sys.runningThread = t) (hlt : taken t c < keys.length)
    (hs : Krypton.step c (fuel, .syscall 3 0) = some c') : Base t keys c' ∧ taken t c' = taken t c + 1 := by
  have hok : KeepsContexts c (fuel, .syscall 3 0) := h.keeps hr _ trivial
  refine ⟨h.unposted hok rfl (fun _ hx => absurd hx List.not_mem_nil) hs, ?_⟩
  have htally := congrArg List.length (h.inv.step_tally hok.1 h.serves.made hs).cycled
  obtain ⟨ps, -, -, hlen, hhead, hps⟩ := h.port
  have h0 : getHead c.sys.mem (messageList t) ≠ 0 := by
    rw [hhead]
    cases ps with
    | nil =>
      rw [List.length_nil] at hlen
      omega
    | cons p ps => exact (hps p (List.mem_cons_self ..)).1
  have hu : c.sys.running.uid = 0 := by
    unfold running
    rw [hr]
    exact h.serves.uid
  have hd : c.Deletes t (.syscall 3 0) := ⟨hr, hu, rfl, h0⟩
  rwa [List.length_append, Config.removes_length, if_pos hd] at htally

namespace Working

theorem thread (h : Working t ret d) (hok : Sole t ret d (.thread fuel)) (hr : d.config.sys.runningThread = t)
    (hs : d.thread ret buf fuel = some d') : Working t ret d' := by
  have hat := h.at_pc
  unfold At at hat
  unfold Keyboard.thread at hs
  cases hpc : d.pc <;> simp only [hpc] at hat hs
  case retrieve =>
    obtain ⟨c', hc, rfl⟩ := Option.map_eq_some_iff.1 hs
    obtain ⟨hb, hn⟩ := h.base.call hr (by decide) hc
    refine ⟨hb, ?_⟩
    show Shows _ (taken t c') ∧ _
    rw [hn]
    exact ⟨hat, h.base.retrieved_first hr hc⟩
  case test =>
    rw [← Option.some.inj hs]
    refine ⟨h.base, ?_⟩
    unfold At
    by_cases h0 : d.config.sys.user ret = 0
    · simp only [if_pos h0]
      exact hat.1
    · simp only [if_neg h0]
      exact ⟨hat.1, hat.2.resolve_left h0⟩
  case wait =>
    obtain ⟨c', hc, rfl⟩ := Option.map_eq_some_iff.1 hs
    obtain ⟨hb, hn⟩ := h.base.call hr (by decide) hc
    refine ⟨hb, ?_⟩
    show Shows _ (taken t c')
    rw [hn]
    exact hat
  case found =>
    rw [← Option.some.inj hs]
    exact ⟨h.base, hat⟩
  case format msg =>
    obtain ⟨k, hk, hcode⟩ := h.base.first_key hat.2
    obtain ⟨c, hc, rfl⟩ := Option.map_eq_some_iff.1 hs
    refine ⟨h.base, hat.1, k, hk, ?_⟩
    rw [hcode] at hc
    unfold echo
    rw [hc]
    rfl
  case forbid =>
    obtain ⟨c', hc, rfl⟩ := Option.map_eq_some_iff.1 hs
    obtain ⟨hf, hlt⟩ := hok hpc
    have hb : Base t d.keys c' :=
      h.base.unposted (h.base.keeps hr .forbid trivial) rfl (fun _ hx => absurd hx List.not_mem_nil) hc
    refine ⟨hb, ?_⟩
    cases step_cases hc with
    | forbid hm =>
      refine ⟨hat.1, hat.2, hr, rfl, ?_, h.base.calm, rfl, [], rfl, by simp⟩
      rw [forbid_toInt hlt]
      omega
  case write =>
    obtain ⟨c', hc, rfl⟩ := Option.map_eq_some_iff.1 hs
    obtain ⟨hb, hn⟩ := h.base.call hr (by decide) hc
    obtain ⟨hshows, ⟨k, hk, hbuf⟩, hsec⟩ := hat
    have hu : d.config.sys.running.uid = 0 := by
      unfold running
      rw [hr]
      exact h.base.serves.uid
    have hin : Inside d.config (fuel, .syscall 1 buf) := fun hx => absurd (show (1 : Word) = 0 from hx) (by decide)
    refine ⟨hb, ?_⟩
    show Shows _ (taken t c' + 1) ∧ InSection t c'
    rw [hn]
    refine ⟨hshows.next hk rfl ?_, hsec.step h.base.inv.toConsistent (h.base.keeps hr (.syscall 1 buf) trivial).1 hin hc⟩
    show d.shown ++ (if d.config.sys.running.uid = 0 then d.buf else []) = _
    rw [if_pos hu, hbuf]
  case permit =>
    obtain ⟨c', hc, rfl⟩ := Option.map_eq_some_iff.1 hs
    have hok' : KeepsContexts d.config (fuel, .permit) := h.base.keeps hr _ trivial
    have hb : Base t d.keys c' := h.base.unposted hok' rfl (fun _ hx => absurd hx List.not_mem_nil) hc
    refine ⟨hb, ?_⟩
    show Shows _ (taken t c' + 1)
    rw [h.base.taken_eq hok' id hc]
    exact hat.1
  case cycle =>
    obtain ⟨c', hc, rfl⟩ := Option.map_eq_some_iff.1 hs
    obtain ⟨hb, hn⟩ := h.base.cycled hr hat.1 hc
    refine ⟨hb, ?_⟩
    show Shows _ (taken t c')
    rw [hn]
    exact hat

theorem move {m : Move} (h : Working t ret d) (hok : Sole t ret d m) (hs : d.move t ret buf m = some d') :
    Working t ret d' := by
  cases m with
  | thread fuel =>
    obtain ⟨⟨-, hr⟩, hs⟩ := Option.ite_none_right_eq_some.1 hs
    exact h.thread hok hr hs
  | key fuel p k => exact h.key hok hs
  | event e => exact h.event hok hs
  | format text => exact h.format hok hs

end Working

theorem Shows.split (h : d.Shows n) : echoes d.keys = d.shown ++ echoes (d.keys.drop n) := by
  have happ : echoes (d.keys.take n ++ d.keys.drop n) = echoes (d.keys.take n) ++ echoes (d.keys.drop n) :=
    List.flatMap_append
  rw [h.2, ← happ, List.take_append_drop]

/-- The thread `create_thread` makes for the keyboard, and one above it that waits for a signal. -/
def keyboardStart : List (Nat × Event) :=
  [create 12800 20, (8, .create 12288 12488 ⟨4096, 0, 0, 50000, 60000, ascii "keyboard.device", 0, 15⟩), (8, .permit)] ++
    List.replicate 11 tick ++ [Krypton.call 0 2]

def started : Keyboard := ⟨(exec Krypton.step bootZero keyboardStart).getD bootZero, .retrieve, [], [], []⟩

/-- A signal takes the processor from the thread between `vsprintf` and `forbid`, and its text is lost: `buf` is
static, and `kprintf` fills it before it calls `forbid`. -/
def interrupted : List Move :=
  [.key 8 14000 0x1E] ++ List.replicate 4 (.thread 8) ++
    [.event (8, .irq (.device [.signal 12800 2])), .format [chr 'x'], .event (Krypton.call 0 2), .thread 8, .thread 8]

theorem kprintf_race : (exec (Keyboard.move 12288 50100 0) started interrupted).map (fun d => (d.keys, d.shown)) =
      some ([0x1E], [chr 'x']) ∧ echoes [0x1E] = [chr 'a'] ∧
    Meets (Keyboard.move 12288 50100 0) (fun d m => d.pc = .forbid ∨ Sole 12288 50100 d m) started interrupted := by
  refine ⟨?_, by rfl, ?_⟩
  · decide +kernel
  · decide +kernel

end Keyboard
end Krypton
