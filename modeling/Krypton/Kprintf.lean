import Krypton.Directives

/-!
# `kprintf.c` and its callers

`kprintf` prints what `vsprintf` makes of its arguments, in a buffer of 1024 bytes. A format that finds arguments of the
kinds its directives ask for takes all of them and writes a text whose length is bounded by the format and by the
strings among them (`vsprintf_kinds`). The formats of the kernel are of this sort, and short (`kprintf_calls`).
-/

namespace Krypton
namespace Vsprintf

inductive Kind
  | word
  | string
deriving DecidableEq

def Arg.kind : Arg → Kind
  | word _ => .word
  | string _ => .string

/-- The bytes an argument can add to the text of a `%s`. -/
def Arg.size : Arg → Nat
  | word _ => 0
  | string t => t.length

def sizes (args : List Arg) : Nat := (args.map Arg.size).sum

def Conv.kind : Conv → Kind
  | s => .string
  | _ => .word

/-- The digits of a word in the base of a conversion. -/
def Conv.digits : Conv → Nat
  | o => 11
  | p | x | X => 8
  | d | i | u => 10
  | b => 32
  | c | s | n => 1

def Item.kinds : Item → List Kind
  | char _ _ | unknown _ _ _ _ => []
  | directive _ v => [v.kind]
  | star _ | starPrecision _ _ _ => [.word]

/-- A bound of what an item writes, strings apart: a width, or a sign, a prefix and digits. -/
def Item.bound : Item → Nat
  | char _ _ => 1
  | directive d v => max (max (d.width.getD 0) 8) (3 + max (d.precision.getD 0) v.digits)
  | unknown _ _ _ _ | star _ | starPrecision _ _ _ => 2

def Format.kinds (f : Format) : List Kind := f.items.flatMap Item.kinds

def Format.bound (f : Format) : Nat := (f.items.map Item.bound).sum + 1

/-! ### The length of a text -/

section
variable {base k n w p : Nat} {num : Word} {type : Flags} {t : List Byte} {args : List Arg}

theorem justify_length (left : Bool) (w : Nat) (t : List Byte) : (justify left w t).length = max w t.length := by
  unfold justify blanks
  cases left <;> simp <;> omega

theorem magnitude_lt (num : Word) (type : Flags) : magnitude num type < 2 ^ 32 := by
  rw [← unsignedNum_toNat]
  exact BitVec.isLt _

theorem lead_length (num : Word) (base : Nat) (type : Flags) :
    (signText num type ++ prefixText base type).length ≤ 3 := by
  have hs : (signText num type).length ≤ 1 := by
    rcases signText_cases num type with h | ⟨c, -, h⟩ <;> rw [h] <;> simp
  have hp : (prefixText base type).length ≤ 2 := by
    unfold prefixText
    split_ifs <;> simp
  rw [List.length_append]
  omega

theorem numberText_length (num : Word) (w p : Nat) (type : Flags) (hb : 1 < base) (hk : 0 < k)
    (hdig : 2 ^ 32 ≤ base ^ k) : (numberText num base w p type).length ≤ max w (3 + max p k) := by
  have hnum : (numeral (digit type.small) base (magnitude num type)).length ≤ k :=
    numeral_length_le _ hb hk (Nat.lt_of_lt_of_le (magnitude_lt num type) hdig)
  have hlead := lead_length num base type
  have hd : (digitText num base p type).length ≤ max p k := by
    simp only [digitText, zeros, List.length_append, List.length_replicate]
    omega
  unfold numberText
  simp only
  split_ifs
  · simp only [zeros, List.length_append, List.length_replicate] at *
    omega
  · rw [justify_length, List.length_append]
    omega

/-! ### An item and its arguments -/

/-- `s'` is `s` behind the arguments `args` and at most `n` more bytes. -/
structure Takes (s s' : State) (args : List Arg) (n : Nat) : Prop where
  args : s.args = args ++ s'.args
  length : s'.str.length ≤ s.str.length + n

theorem argWord_takes {s : State} {a : Arg} {as : List Arg} (hs : s.args = a :: as) (ha : a.kind = .word) :
    ∃ x, a = .word x ∧ s.argWord = some (x, { s with args := as }) := by
  cases a with
  | word x =>
    refine ⟨x, rfl, ?_⟩
    unfold State.argWord
    rw [hs]
  | string t => cases ha

theorem argString_takes {s : State} {a : Arg} {as : List Arg} (hs : s.args = a :: as) (ha : a.kind = .string) :
    ∃ t, a = .string t ∧ s.argString = some (t, { s with args := as }) := by
  cases a with
  | word x => cases ha
  | string t =>
    refine ⟨t, rfl, ?_⟩
    unfold State.argString
    rw [hs]

theorem put_takes {s : State} {a : Arg} {as : List Arg} {t : List Byte} (hs : s.args = a :: as) (ht : t.length ≤ n) :
    Takes s (State.put { s with args := as } t) [a] n := by
  refine ⟨hs, ?_⟩
  simp only [State.put, List.length_append]
  omega

theorem putNum_takes {s : State} {a : Arg} {as : List Arg} (hs : s.args = a :: as) (ha : a.kind = .word)
    (w p : Option Nat) (type : Flags) (hb : 1 < base) (hk : 0 < k) (hdig : 2 ^ 32 ≤ base ^ k) :
    ∃ s', putNum s base w p type = some s' ∧ Takes s s' [a] (max (w.getD 0) (3 + max (p.getD 0) k)) := by
  obtain ⟨x, -, hx⟩ := argWord_takes hs ha
  refine ⟨State.put { s with args := as } (numberText x base (w.getD 0) (p.getD 0) type), ?_, ?_⟩
  · unfold putNum
    rw [hx]
    rfl
  · exact put_takes hs (numberText_length x _ _ type hb hk hdig)

theorem Takes.mono {s s' : State} {m : Nat} (h : Takes s s' args n) (hm : n ≤ m) : Takes s s' args m :=
  ⟨h.args, Nat.le_trans h.length (by omega)⟩

theorem spec_takes (d : Spec) (v : Conv) {s : State} {a : Arg} {as : List Arg} (hs : s.args = a :: as)
    (ha : a.kind = v.kind) :
    ∃ s', d.put s v = some s' ∧ Takes s s' [a] ((Item.directive d v).bound + a.size) := by
  have hpos : 0 < v.digits := by cases v <;> decide
  have num : ∀ (base : Nat) (w : Option Nat) (type : Flags), a.kind = .word → 1 < base → 2 ^ 32 ≤ base ^ v.digits →
      max (w.getD 0) 8 ≤ max (d.width.getD 0) 8 →
      ∃ s', putNum s base w d.precision type = some s' ∧ Takes s s' [a] ((Item.directive d v).bound + a.size) := by
    intro base w type hw hb hdig hle
    obtain ⟨s', h1, h2⟩ := putNum_takes hs hw w d.precision type hb hpos hdig
    refine ⟨s', h1, h2.mono ?_⟩
    simp only [Item.bound]
    omega
  cases v with
  | c =>
    obtain ⟨x, rfl, hx⟩ := argWord_takes hs ha
    refine ⟨_, congrArg (Option.map _) hx, put_takes hs ?_⟩
    rw [justify_length]
    simp only [Item.bound, Conv.digits, List.length_singleton]
    omega
  | s =>
    obtain ⟨t, rfl, ht⟩ := argString_takes hs ha
    refine ⟨_, congrArg (Option.map _) ht, put_takes hs ?_⟩
    rw [justify_length, List.length_take]
    simp only [Item.bound, Arg.size]
    omega
  | o => exact num 8 d.width _ ha (by omega) (by decide) (Nat.le_refl _)
  | p =>
    by_cases hw : d.width = none
    · have hput : d.put s .p = putNum s 16 (some 8) d.precision { setFlags d.flags with zeropad := true } := if_pos hw
      rw [hput]
      exact num 16 (some 8) _ ha (by omega) (by decide) (by simp)
    · have hput : d.put s .p = putNum s 16 d.width d.precision (setFlags d.flags) := if_neg hw
      rw [hput]
      exact num 16 d.width _ ha (by omega) (by decide) (Nat.le_refl _)
  | x => exact num 16 d.width _ ha (by omega) (by decide) (Nat.le_refl _)
  | X => exact num 16 d.width _ ha (by omega) (by decide) (Nat.le_refl _)
  | d => exact num 10 d.width _ ha (by omega) (by decide) (Nat.le_refl _)
  | i => exact num 10 d.width _ ha (by omega) (by decide) (Nat.le_refl _)
  | u => exact num 10 d.width _ ha (by omega) (by decide) (Nat.le_refl _)
  | b => exact num 2 d.width _ ha (by omega) (by decide) (Nat.le_refl _)
  | n =>
    obtain ⟨x, rfl, hx⟩ := argWord_takes hs ha
    refine ⟨_, congrArg (Option.map _) hx, hs, ?_⟩
    show s.str.length ≤ s.str.length + _
    omega

theorem args_singleton {k : Kind} (hk : args.map Arg.kind = [k]) : ∃ a, args = [a] ∧ a.kind = k := by
  match args, hk with
  | [a], hk => exact ⟨a, rfl, (List.cons.inj hk).1⟩

theorem item_takes (x : Item) {s : State} {rest : List Arg} (hs : s.args = args ++ rest)
    (hk : args.map Arg.kind = x.kinds) :
    ∃ s', x.put s = some s' ∧ s'.args = rest ∧ s'.str.length ≤ s.str.length + (x.bound + sizes args) := by
  have plain : ∀ t : List Byte, args.map Arg.kind = [] → t.length ≤ x.bound →
      (s.put t).args = rest ∧ (s.put t).str.length ≤ s.str.length + (x.bound + sizes args) := by
    intro t hnil ht
    obtain rfl := List.map_eq_nil_iff.1 hnil
    refine ⟨hs, ?_⟩
    simp only [State.put, List.length_append]
    omega
  have star : args.map Arg.kind = [.word] → x.bound = 2 →
      ∃ s', (s.argWord.map fun r => r.2.put [chr '%', chr '*']) = some s' ∧ s'.args = rest ∧
        s'.str.length ≤ s.str.length + (x.bound + sizes args) := by
    intro hone hb
    obtain ⟨a, rfl, ha⟩ := args_singleton hone
    obtain ⟨w, rfl, hw⟩ := argWord_takes hs ha
    refine ⟨_, congrArg (Option.map _) hw, rfl, ?_⟩
    simp only [State.put, List.length_append, List.length_cons, List.length_nil]
    omega
  cases x with
  | char c hc => exact ⟨_, rfl, plain [c] hk (Nat.le_refl _)⟩
  | unknown d c hc hv =>
    refine ⟨_, rfl, plain _ hk ?_⟩
    split_ifs <;> simp [Item.bound]
  | star flags => exact star hk rfl
  | starPrecision flags w hw => exact star hk rfl
  | directive d v =>
    obtain ⟨a, rfl, ha⟩ := args_singleton hk
    obtain ⟨s', h1, h2⟩ := spec_takes d v hs ha
    refine ⟨s', h1, ?_, ?_⟩
    · exact (List.append_cancel_left (h2.args.symm.trans hs))
    · simpa [sizes] using h2.length

theorem putAll_takes (items : List Item) {s : State} (hk : s.args.map Arg.kind = items.flatMap Item.kinds) :
    ∃ s', putAll s items = some s' ∧ s'.args = [] ∧
      s'.str.length ≤ s.str.length + ((items.map Item.bound).sum + sizes s.args) := by
  induction items generalizing s with
  | nil =>
    have hnil : s.args = [] := List.map_eq_nil_iff.1 hk
    exact ⟨s, rfl, hnil, by omega⟩
  | cons x items ih =>
    rw [List.flatMap_cons] at hk
    obtain ⟨as, rest, hargs, hx, hrest⟩ := List.map_eq_append_iff.1 hk
    obtain ⟨s₁, h1, h2, h3⟩ := item_takes x hargs hx
    obtain ⟨s', h4, h5, h6⟩ := ih (s := s₁) (by rw [h2]; exact hrest)
    refine ⟨s', ?_, h5, ?_⟩
    · rw [putAll, h1]
      exact h4
    · have hsum : sizes s.args = sizes as + sizes rest := by rw [hargs]; simp [sizes]
      rw [h2] at h6
      rw [List.map_cons, List.sum_cons]
      omega

/-- A format takes arguments of its kinds, all of them, and its bound and the strings among them bound the text. -/
theorem Format.put_takes (f : Format) (hk : args.map Arg.kind = f.kinds) :
    ∃ st, f.put ⟨[], args, []⟩ = some st ∧ st.args = [] ∧ st.str.length ≤ f.bound + sizes args := by
  obtain ⟨s, h1, h2, h3⟩ := putAll_takes f.items (s := ⟨[], args, []⟩) hk
  refine ⟨s.put (f.rest.elim [] fun _ => [chr '%']), ?_, h2, ?_⟩
  · unfold Format.put
    rw [h1]
    rfl
  · have hrest : (f.rest.elim [] fun _ => [chr '%']).length ≤ 1 := by cases f.rest <;> simp
    simp only [State.put, List.length_append, Format.bound, List.length_nil] at h3 ⊢
    omega

/-- `vsprintf` of a format whose directives ask for the arguments there are takes them all, finds each of the right
kind, and writes no more than the bound of the format and the strings among them. -/
theorem vsprintf_kinds (f : Format) (hk : args.map Arg.kind = f.kinds) :
    ∃ st, vsprintf f.text args = some st ∧ st.args = [] ∧ st.str.length ≤ f.bound + sizes args := by
  obtain ⟨st, h1, h2, h3⟩ := f.put_takes hk
  exact ⟨st, (loop_items f _ _ (Nat.le_refl _)).trans h1, h2, h3⟩

end

theorem vsprintf_kinds_mixed : ∃ st,
    vsprintf (Format.text ⟨[.star [.zero], .directive ⟨[], none, none, none, by simp, by simp⟩ .s], none⟩)
      [.word 5, .string [chr 'a', chr 'b']] = some st ∧ st.args = [] ∧ st.str.length ≤ 102 := by
  obtain ⟨st, h1, h2, h3⟩ := @vsprintf_kinds [.word 5, .string [chr 'a', chr 'b']]
    ⟨[.star [.zero], .directive ⟨[], none, none, none, by simp, by simp⟩ .s], none⟩ rfl
  exact ⟨st, h1, h2, Nat.le_trans h3 (by decide)⟩

/-! ### The calls of the kernel -/

def bytes (s : String) : List Byte := s.toList.map chr

/-- Characters of a format. -/
def chars (s : String) : List Item :=
  (bytes s).filterMap fun c => if h : c ≠ chr '%' then some (.char c h) else none

theorem chars_kinds (s : String) : (chars s).flatMap Item.kinds = [] := by
  rw [List.flatMap_eq_nil_iff]
  intro x hx
  obtain ⟨c, -, hc⟩ := List.mem_filterMap.1 hx
  split_ifs at hc
  rw [← Option.some.inj hc]
  rfl

theorem plain_width {width : Nat} (h : width < 2 ^ 31) :
    ∀ n ∈ if width = 0 then none else some width, 0 < n ∧ n < 2 ^ 31 := by
  grind

theorem plain_precision : ∀ n ∈ (none : Option Nat), n < 2 ^ 31 := by
  simp

/-- A directive without flags, `width` 0 for none. -/
def plain (width : Nat) (h : width < 2 ^ 31) (v : Conv) : Item :=
  .directive ⟨[], if width = 0 then none else some width, none, none, plain_width h, plain_precision⟩ v

/-- The calls of `kprintf`, by what they print. -/
inductive Call
  | banner
  | wokenUp
  | hello
  | key
  | oops
  | control
  | general
  | index
  | data
  | panic
  | reboot
  | frame
  | pageFault
  | errorCode

namespace Call

def fmt : Call → String
  | banner => "KRYPTON Operating System and Libraries\nRevision 1, built %s\n (C) The ERA Software Team\n\n"
  | wokenUp => "*** krypton.library woken up. Panicking...\n"
  | hello => "Hello World from %s!\n"
  | key => "%c"
  | oops => "OOPS: %s crashed at 0x%x!!\n"
  | control => "CS: 0x%4X EIP: 0x%8X EFLAGS: 0x%8X\n"
  | general => "EAX: 0x%8X EBX: 0x%8X ECX: 0x%8X EDX: 0x%8X\n"
  | index => "ESI: 0x%8X EDI: 0x%8X EBP: 0x%8X ESP: 0x%8X\n"
  | data => "DS: 0x%4X\n"
  | panic => "*** System panic: %s\n"
  | reboot => "Press any key to reboot!"
  | frame => "   [0x%x] %s\n"
  | pageFault => "Page fault at 0x%x, faulting address 0x%x\n"
  | errorCode => "Error code: %x\n"

/-- The arguments passed. -/
def kinds : Call → List Kind
  | banner | hello | panic => [.string]
  | wokenUp | reboot => []
  | key | data | errorCode => [.word]
  | oops => [.string, .word]
  | control => [.word, .word, .word]
  | general | index => [.word, .word, .word, .word]
  | frame => [.word, .string]
  | pageFault => [.word, .word]

def items : Call → List Item
  | banner => chars "KRYPTON Operating System and Libraries\nRevision 1, built " ++ plain 0 (by decide) .s ::
      chars "\n (C) The ERA Software Team\n\n"
  | wokenUp => chars "*** krypton.library woken up. Panicking...\n"
  | hello => chars "Hello World from " ++ plain 0 (by decide) .s :: chars "!\n"
  | key => [plain 0 (by decide) .c]
  | oops => chars "OOPS: " ++ plain 0 (by decide) .s :: chars " crashed at 0x" ++ plain 0 (by decide) .x ::
      chars "!!\n"
  | control => chars "CS: 0x" ++ plain 4 (by decide) .X :: chars " EIP: 0x" ++ plain 8 (by decide) .X ::
      chars " EFLAGS: 0x" ++ plain 8 (by decide) .X :: chars "\n"
  | general => chars "EAX: 0x" ++ plain 8 (by decide) .X :: chars " EBX: 0x" ++ plain 8 (by decide) .X ::
      chars " ECX: 0x" ++ plain 8 (by decide) .X :: chars " EDX: 0x" ++ plain 8 (by decide) .X :: chars "\n"
  | index => chars "ESI: 0x" ++ plain 8 (by decide) .X :: chars " EDI: 0x" ++ plain 8 (by decide) .X ::
      chars " EBP: 0x" ++ plain 8 (by decide) .X :: chars " ESP: 0x" ++ plain 8 (by decide) .X :: chars "\n"
  | data => chars "DS: 0x" ++ plain 4 (by decide) .X :: chars "\n"
  | panic => chars "*** System panic: " ++ plain 0 (by decide) .s :: chars "\n"
  | reboot => chars "Press any key to reboot!"
  | frame => chars "   [0x" ++ plain 0 (by decide) .x :: chars "] " ++ plain 0 (by decide) .s :: chars "\n"
  | pageFault => chars "Page fault at 0x" ++ plain 0 (by decide) .x :: chars ", faulting address 0x" ++
      plain 0 (by decide) .x :: chars "\n"
  | errorCode => chars "Error code: " ++ plain 0 (by decide) .x :: chars "\n"

theorem text_eq (c : Call) : Format.text ⟨c.items, none⟩ = bytes c.fmt := by
  cases c <;> decide +kernel

theorem kinds_eq (c : Call) : Format.kinds ⟨c.items, none⟩ = c.kinds := by
  cases c <;> simp [Format.kinds, items, kinds, chars_kinds, plain, Item.kinds, Conv.kind]

theorem bound_le (c : Call) : Format.bound ⟨c.items, none⟩ ≤ 95 := by
  cases c <;> decide +kernel

end Call

/-- `sizeof (buf)` in `kprintf`. -/
def bufSize : Nat := 1024

/-- Every call of the kernel passes the arguments its format asks for, and stays in the buffer of `kprintf`, with the
`NUL`, unless a string among them is long. -/
theorem kprintf_calls (c : Call) {args : List Arg} (hk : args.map Arg.kind = c.kinds) :
    ∃ st, vsprintf (bytes c.fmt) args = some st ∧ st.args = [] ∧
      (sizes args ≤ 928 → st.str.length < bufSize) := by
  obtain ⟨st, h1, h2, h3⟩ := Format.put_takes ⟨c.items, none⟩ (hk.trans c.kinds_eq.symm)
  have hrun := (loop_items ⟨c.items, none⟩ _ _ (Nat.le_refl _)).trans h1
  rw [c.text_eq] at hrun
  have hle := c.bound_le
  exact ⟨st, hrun, h2, fun hs => by unfold bufSize; omega⟩

theorem kprintf_calls_control : ∃ st,
    vsprintf (bytes Call.control.fmt) [.word 8, .word 0xC0100000, .word 0x202] = some st ∧ st.args = [] ∧
      st.str.length < bufSize := by
  obtain ⟨st, h1, h2, h3⟩ := @kprintf_calls .control [.word 8, .word 0xC0100000, .word 0x202] rfl
  exact ⟨st, h1, h2, h3 (by decide)⟩

end Vsprintf
end Krypton
