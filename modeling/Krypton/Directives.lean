import Krypton.NumberText

/-!
# Formats

A format is a list of items: characters, directives with their flags, width, precision and qualifier, and what is no
directive. `Item.text` is how an item is written and `Item.put` what it means. `vsprintf` of the text of a format does
what its items do, one after the other (`vsprintf_format`): it reads back every directive as it was written, takes the
arguments from left to right and writes nothing else. A `*` is never a width: `vsprintf` takes the argument for it and
then meets the `*` again as a conversion it does not know.
-/

namespace Krypton
namespace Vsprintf

inductive FlagChar
  | minus
  | plus
  | space
  | hash
  | zero
deriving DecidableEq

inductive Qualifier
  | h
  | l
  | L
deriving DecidableEq

inductive Conv
  | c
  | s
  | o
  | p
  | x
  | X
  | d
  | i
  | u
  | b
  | n
deriving DecidableEq

def FlagChar.letter : FlagChar → Byte
  | minus => chr '-'
  | plus => chr '+'
  | space => chr ' '
  | hash => chr '#'
  | zero => chr '0'

def FlagChar.set (f : Flags) : FlagChar → Flags
  | minus => { f with left := true }
  | plus => { f with plus := true }
  | space => { f with space := true }
  | hash => { f with special := true }
  | zero => { f with zeropad := true }

def Qualifier.letter : Qualifier → Byte
  | h => chr 'h'
  | l => chr 'l'
  | L => chr 'L'

def Conv.letter : Conv → Byte
  | c => chr 'c'
  | s => chr 's'
  | o => chr 'o'
  | p => chr 'p'
  | x => chr 'x'
  | X => chr 'X'
  | d => chr 'd'
  | i => chr 'i'
  | u => chr 'u'
  | b => chr 'b'
  | n => chr 'n'

/-- A directive up to its conversion. A width does not begin with a zero, which would be a flag, and the numbers fit
`int`. -/
structure Spec where
  flags : List FlagChar
  width : Option Nat
  precision : Option Nat
  qualifier : Option Qualifier
  width_ok : ∀ n ∈ width, 0 < n ∧ n < 2 ^ 31
  precision_ok : ∀ n ∈ precision, n < 2 ^ 31

/-- No flag, width, precision or qualifier begins with `c`. -/
structure Plain (c : Byte) : Prop where
  flag : ∀ f : FlagChar, c ≠ f.letter
  digit : ¬ isDigit c
  star : c ≠ chr '*'
  dot : c ≠ chr '.'
  qualifier : ∀ q : Qualifier, c ≠ q.letter

inductive Item
  | char (c : Byte) (h : c ≠ chr '%')
  | directive (d : Spec) (v : Conv)
  /-- A directive with a conversion that is none, such as `%`. -/
  | unknown (d : Spec) (c : Byte) (h : Plain c) (hv : ∀ v : Conv, c ≠ v.letter)
  /-- `*` for a width. -/
  | star (flags : List FlagChar)
  /-- `*` for a precision. -/
  | starPrecision (flags : List FlagChar) (width : Option Nat) (width_ok : ∀ n ∈ width, 0 < n ∧ n < 2 ^ 31)

/-- Items, and a directive that the string breaks off in. -/
structure Format where
  items : List Item
  rest : Option Spec

/-! ### How a format is written -/

def decimal (n : Nat) : List Byte := numeral (digit false) 10 n

def flagText (flags : List FlagChar) : List Byte := flags.map FlagChar.letter

def widthText (w : Option Nat) : List Byte := w.elim [] decimal

def precisionText (p : Option Nat) : List Byte := p.elim [] fun n => chr '.' :: decimal n

def qualifierText (q : Option Qualifier) : List Byte := q.elim [] fun q => [q.letter]

def Spec.text (d : Spec) : List Byte :=
  chr '%' :: (flagText d.flags ++ (widthText d.width ++ (precisionText d.precision ++ qualifierText d.qualifier)))

def Item.text : Item → List Byte
  | char c _ => [c]
  | directive d v => d.text ++ [v.letter]
  | unknown d c _ _ => d.text ++ [c]
  | star flags => chr '%' :: (flagText flags ++ [chr '*'])
  | starPrecision flags width _ => chr '%' :: (flagText flags ++ (widthText width ++ [chr '.', chr '*']))

def Format.text (f : Format) : List Byte := f.items.flatMap Item.text ++ f.rest.elim [] Spec.text

/-! ### What it means -/

def setFlags (flags : List FlagChar) : Flags := flags.foldl FlagChar.set .none

/-- The next argument as a number. -/
def putNum (s : State) (base : Nat) (width precision : Option Nat) (type : Flags) : Option State :=
  s.argWord.map fun r => r.2.put (numberText r.1 base (width.getD 0) (precision.getD 0) type)

def Spec.put (d : Spec) (s : State) (v : Conv) : Option State :=
  let type := setFlags d.flags
  match v with
  | .c => s.argWord.map fun r => r.2.put (justify type.left (d.width.getD 0) [r.1.setWidth 8])
  | .s =>
    s.argString.map fun r => r.2.put (justify type.left (d.width.getD 0) (r.1.take (d.precision.getD r.1.length)))
  | .o => putNum s 8 d.width d.precision type
  | .p =>
    -- without a width the address has eight digits
    if d.width = none then putNum s 16 (some 8) d.precision { type with zeropad := true }
    else putNum s 16 d.width d.precision type
  | .x => putNum s 16 d.width d.precision { type with small := true }
  | .X => putNum s 16 d.width d.precision type
  | .d | .i => putNum s 10 d.width d.precision { type with sign := true }
  | .u => putNum s 10 d.width d.precision type
  | .b => putNum s 2 d.width d.precision type
  | .n => s.argWord.map fun r => { r.2 with stores := (r.1, r.2.str.length) :: r.2.stores }

def Item.put (s : State) : Item → Option State
  | char c _ => some (s.put [c])
  | directive d v => d.put s v
  | unknown _ c _ _ => some (s.put (if c = chr '%' then [c] else [chr '%', c]))
  | star _ | starPrecision _ _ _ => s.argWord.map fun r => r.2.put [chr '%', chr '*']

/-- The items one after the other. -/
def putAll : State → List Item → Option State
  | s, [] => some s
  | s, x :: xs => (x.put s).bind fun s => putAll s xs

def Format.put (f : Format) (s : State) : Option State :=
  (putAll s f.items).map fun s => s.put (f.rest.elim [] fun _ => [chr '%'])

/-! ### The parts of a directive are read back -/

section
variable {rest : List Byte} {c : Byte}

theorem flagLoop_cons (f : Flags) (x : FlagChar) (rest : List Byte) :
    flagLoop f (x.letter :: rest) = flagLoop (x.set f) rest := by
  cases x <;> rfl

theorem flagLoop_stop (f : Flags) (h : ∀ c ∈ rest.head?, ∀ x : FlagChar, c ≠ x.letter) : flagLoop f rest = (f, rest) := by
  cases rest with
  | nil => rfl
  | cons c rest =>
    have hc : ∀ x : FlagChar, c ≠ x.letter := h c rfl
    exact (if_neg (hc .minus)).trans <| (if_neg (hc .plus)).trans <| (if_neg (hc .space)).trans <|
      (if_neg (hc .hash)).trans (if_neg (hc .zero))

theorem flagLoop_text (flags : List FlagChar) (h : ∀ c ∈ rest.head?, ∀ x : FlagChar, c ≠ x.letter) :
    flagLoop .none (flagText flags ++ rest) = (setFlags flags, rest) := by
  unfold setFlags
  generalize Flags.none = f
  induction flags generalizing f with
  | nil => exact flagLoop_stop f h
  | cons x flags ih => exact (flagLoop_cons f x _).trans (ih _)

theorem isDigit_digit {i : Nat} (hi : i < 10) : isDigit (digit false i) ∧ (digit false i).toNat - 48 = i := by
  unfold isDigit digit
  rw [if_pos hi]
  simp
  omega

theorem skipAtoi_digits {s : List Byte} (hs : ∀ c ∈ s, ∃ i < 10, c = digit false i)
    (h : ∀ c ∈ rest.head?, ¬ isDigit c) (v : Nat) :
    skipAtoi v (s ++ rest) = (readNumeral digitValue 10 v s, rest) := by
  induction s generalizing v with
  | nil =>
    cases rest with
    | nil => rfl
    | cons c rest => exact if_neg (h c rfl)
  | cons c s ih =>
    obtain ⟨i, hi, rfl⟩ := hs c (by simp)
    obtain ⟨hd, hv⟩ := isDigit_digit hi
    rw [List.cons_append, skipAtoi, if_pos hd, hv, ih fun c hc => hs c (by simp [hc]), readNumeral,
      digitValue_digit false (by omega)]

theorem atoi_decimal {n : Nat} (hn : n < 2 ^ 31) (h : ∀ c ∈ rest.head?, ¬ isDigit c) :
    atoi (decimal n ++ rest) = some ((n : Int), rest) := by
  have hread : skipAtoi 0 (decimal n ++ rest) = (n, rest) := by
    unfold decimal
    rw [skipAtoi_digits (fun c hc => exists_of_mem_numeral (by omega) hc) h,
      readNumeral_numeral (by omega) fun i hi => digitValue_digit false (by omega)]
  unfold atoi
  rw [hread]
  exact if_pos hn

/-- A numeral begins with a digit, and with a zero only if it is 0. -/
theorem decimal_head (n : Nat) : ∃ i s, i < 10 ∧ (n ≠ 0 → i ≠ 0) ∧ decimal n = digit false i :: s := by
  by_cases hn : n = 0
  · exact ⟨0, [], by omega, fun h => absurd hn h, by rw [hn]; rfl⟩
  · obtain ⟨i, s, hi, hlt, hs⟩ := numeral_head (digit false) (by omega : 1 < 10) hn
    exact ⟨i, s, hlt, fun _ => hi, hs⟩

theorem digit_ne_flag {i : Nat} (hi : i < 10) (h0 : i ≠ 0) (x : FlagChar) : digit false i ≠ x.letter := by
  obtain ⟨⟨hd, -⟩, hv⟩ := isDigit_digit hi
  intro he
  rw [he] at hd hv
  cases x with
  | zero => exact h0 (hv.symm.trans (by decide))
  | _ => exact absurd hd (by decide)

variable {flags : Flags} {w p : Option Nat} {st : State}

/-- `n`, or -1 for none. -/
def ofOption (n : Option Nat) : Int := n.elim (-1) fun n => n

theorem ofOption_toNat (n : Option Nat) : (ofOption n).toNat = n.getD 0 := by
  cases n <;> rfl

theorem getWidth_text (hw : ∀ n ∈ w, 0 < n ∧ n < 2 ^ 31) (hd : ∀ c ∈ rest.head?, ¬ isDigit c)
    (hs : ∀ c ∈ rest.head?, c ≠ chr '*') :
    getWidth flags (widthText w ++ rest) st = some (ofOption w, flags, rest, st) := by
  cases w with
  | none =>
    cases rest with
    | nil => rfl
    | cons c rest => exact (if_neg (hd c rfl)).trans (if_neg (hs c rfl))
  | some n =>
    have hatoi : atoi (decimal n ++ rest) = some ((n : Int), rest) := atoi_decimal (hw n rfl).2 hd
    obtain ⟨i, t, hi, -, ht⟩ := decimal_head n
    show getWidth flags (decimal n ++ rest) st = _
    rw [ht] at hatoi ⊢
    refine (if_pos (isDigit_digit hi).1).trans ?_
    exact congrArg (fun o => Option.bind o fun r => some (r.1, flags, r.2, st)) hatoi

theorem getPrecision_text (hp : ∀ n ∈ p, n < 2 ^ 31) (hd : ∀ c ∈ rest.head?, ¬ isDigit c)
    (hdot : p = none → ∀ c ∈ rest.head?, c ≠ chr '.') :
    getPrecision (precisionText p ++ rest) st = some (ofOption p, rest, st) := by
  cases p with
  | none =>
    cases rest with
    | nil => rfl
    | cons c rest => exact if_neg (hdot rfl c rfl)
  | some n =>
    have hatoi : atoi (decimal n ++ rest) = some ((n : Int), rest) := atoi_decimal (hp n rfl) hd
    obtain ⟨i, t, hi, -, ht⟩ := decimal_head n
    show getPrecision (chr '.' :: (decimal n ++ rest)) st = _
    rw [ht] at hatoi ⊢
    have hdig : isDigit (digit false i) := (isDigit_digit hi).1
    rw [List.cons_append] at hatoi ⊢
    unfold getPrecision
    simp only [if_true, if_pos hdig, hatoi]
    show some ((if (n : Int) < 0 then 0 else (n : Int)), rest, st) = _
    rw [if_neg (by omega)]
    rfl

theorem skipQualifier_text (q : Option Qualifier) (h : ∀ c ∈ rest.head?, ∀ q : Qualifier, c ≠ q.letter) :
    skipQualifier (qualifierText q ++ rest) = rest := by
  cases q with
  | none =>
    cases rest with
    | nil => rfl
    | cons c rest =>
      refine if_neg ?_
      rintro (hc | hc | hc)
      · exact h c rfl .h hc
      · exact h c rfl .l hc
      · exact h c rfl .L hc
  | some q => cases q <;> rfl

/-! ### A directive is read back -/

theorem forall_head_append {P : Byte → Prop} {s : List Byte} (hs : ∀ c ∈ s.head?, P c) (hr : ∀ c ∈ rest.head?, P c) :
    ∀ c ∈ (s ++ rest).head?, P c := by
  cases s with
  | nil => exact hr
  | cons c s => exact hs

theorem qualifier_plain (q : Qualifier) :
    (∀ x : FlagChar, q.letter ≠ x.letter) ∧ ¬ isDigit q.letter ∧ q.letter ≠ chr '*' ∧ q.letter ≠ chr '.' := by
  cases q <;> refine ⟨fun x => ?_, by decide, by decide, by decide⟩ <;> cases x <;> decide

/-- The conversion letters begin nothing else. -/
theorem Conv.plain (v : Conv) : Plain v.letter := by
  cases v <;>
    exact ⟨fun x => by cases x <;> decide, by decide, by decide, by decide, fun q => by cases q <;> decide⟩

theorem head_width (hw : ∀ n ∈ w, 0 < n ∧ n < 2 ^ 31) : ∀ c ∈ (widthText w).head?, ∀ x : FlagChar, c ≠ x.letter := by
  intro c hc x
  cases w with
  | none => exact nomatch hc
  | some n =>
    obtain ⟨i, s, hi, h0, hs⟩ := decimal_head n
    change c ∈ (decimal n).head? at hc
    rw [hs] at hc
    obtain rfl := Option.some.inj hc
    exact digit_ne_flag hi (h0 (hw n rfl).1.ne') x

/-- What follows a directive's qualifier, seen from its precision, its width and its flags. -/
theorem Spec.heads (d : Spec) (h : ∀ c ∈ rest.head?, Plain c) :
    let t := qualifierText d.qualifier ++ rest
    (∀ c ∈ t.head?, ¬ isDigit c ∧ c ≠ chr '.') ∧
      (∀ c ∈ (precisionText d.precision ++ t).head?, ¬ isDigit c ∧ c ≠ chr '*') ∧
      ∀ c ∈ (widthText d.width ++ (precisionText d.precision ++ t)).head?, ∀ x : FlagChar, c ≠ x.letter := by
  have hq : ∀ {P : Byte → Prop}, (∀ q : Qualifier, P q.letter) → (∀ c, Plain c → P c) →
      ∀ c ∈ (qualifierText d.qualifier ++ rest).head?, P c := by
    intro P h1 h2
    refine forall_head_append ?_ fun c hc => h2 c (h c hc)
    cases d.qualifier with
    | none => exact fun c hc => nomatch hc
    | some q =>
      intro c hc
      obtain rfl := Option.some.inj hc
      exact h1 q
  have hp : ∀ {P : Byte → Prop}, P (chr '.') → ∀ c ∈ (precisionText d.precision).head?, P c := by
    intro P hdot c hc
    cases hp : d.precision with
    | none => rw [hp] at hc; exact nomatch hc
    | some n =>
      rw [hp] at hc
      obtain rfl := Option.some.inj hc
      exact hdot
  refine ⟨hq (fun q => ⟨(qualifier_plain q).2.1, (qualifier_plain q).2.2.2⟩) fun c hc => ⟨hc.digit, hc.dot⟩,
    forall_head_append (hp ⟨by decide, by decide⟩)
      (hq (fun q => ⟨(qualifier_plain q).2.1, (qualifier_plain q).2.2.1⟩) fun c hc => ⟨hc.digit, hc.star⟩),
    forall_head_append (head_width d.width_ok) (forall_head_append (hp fun x => by cases x <;> decide)
      (hq (fun q => (qualifier_plain q).1) fun c hc => hc.flag))⟩

/-- One turn of the loop reads a directive and leaves what follows it. -/
theorem loop_spec (d : Spec) (h : ∀ c ∈ rest.head?, Plain c) (n : Nat) (st : State) :
    loop (n + 1) (d.text ++ rest) st =
      match rest with
      | [] => some (st.put [chr '%'])
      | c :: fmt =>
        (convert st (setFlags d.flags) (ofOption d.width) (ofOption d.precision) c).bind fun s => loop n fmt s := by
  obtain ⟨h3, h2, h1⟩ := d.heads h
  have ht : d.text ++ rest = chr '%' :: (flagText d.flags ++ (widthText d.width ++ (precisionText d.precision ++
      (qualifierText d.qualifier ++ rest)))) := by
    simp [Spec.text, List.append_assoc]
  rw [ht, loop, if_neg (fun hx => hx rfl), flagLoop_text d.flags h1]
  dsimp only
  rw [getWidth_text d.width_ok (fun c hc => (h2 c hc).1) fun c hc => (h2 c hc).2]
  simp only [Option.bind_eq_bind, Option.bind_some]
  rw [getPrecision_text d.precision_ok (fun c hc => (h3 c hc).1) fun _ c hc => (h3 c hc).2]
  simp only [Option.bind_some]
  rw [skipQualifier_text d.qualifier fun c hc => (h c hc).qualifier]
  cases rest <;> rfl

/-! ### The conversions -/

theorem number_put (st : State) {base : Nat} (h2 : 2 ≤ base) (h36 : base ≤ 36) (type : Flags) (w p : Option Nat) :
    st.number base (ofOption w) (ofOption p) type = putNum st base w p type := by
  unfold State.number putNum
  cases hw : st.argWord with
  | none => rfl
  | some r =>
    obtain ⟨x, s⟩ := r
    simp only [Option.bind_eq_bind, Option.bind_some, Option.map_some]
    rw [number_eq s.str x _ _ type h2 h36, ofOption_toNat, ofOption_toNat]
    rfl

theorem padBefore_twice (str t : List Byte) (left : Bool) (w : Option Nat) (ht : t.length = 1) :
    (padBefore ((if ¬ left then padBefore str (ofOption w) else (str, ofOption w)).1 ++ t)
      (if ¬ left then padBefore str (ofOption w) else (str, ofOption w)).2).1 = str ++ justify left (w.getD 0) t := by
  have hw : (ofOption w - 1).toNat = w.getD 0 - 1 := by rw [← ofOption_toNat]; omega
  have h0 : (min (ofOption w - 1) 0 - 1).toNat = 0 := by omega
  cases left <;> simp [padBefore, justify, blanks, hw, h0, ht]

theorem padFrom_twice (str t : List Byte) (left : Bool) (w : Option Nat) :
    (padFrom ((if ¬ left then padFrom str t.length (ofOption w) else (str, ofOption w)).1 ++ t) t.length
      (if ¬ left then padFrom str t.length (ofOption w) else (str, ofOption w)).2).1 =
      str ++ justify left (w.getD 0) t := by
  have hw : (ofOption w - t.length).toNat = w.getD 0 - t.length := by rw [← ofOption_toNat]; omega
  have h0 : (min (ofOption w) t.length - 1 - (t.length : Int)).toNat = 0 := by omega
  cases left <;> simp [padFrom, justify, blanks, hw, h0]

theorem cut_length (t : List Byte) (p : Option Nat) :
    (if ofOption p < 0 then (t.length : Int) else if (t.length : Int) > ofOption p then ofOption p else t.length) =
      (t.take (p.getD t.length)).length := by
  cases p with
  | none => simp [ofOption]
  | some n =>
    simp only [ofOption, Option.elim_some, Option.getD_some, List.length_take]
    split_ifs <;> omega

theorem char_put (st : State) (type : Flags) (w : Option Nat) :
    st.char type (ofOption w) = st.argWord.map fun r => r.2.put (justify type.left (w.getD 0) [r.1.setWidth 8]) := by
  unfold State.char
  cases st.argWord with
  | none => rfl
  | some r =>
    have hpad := padBefore_twice r.2.str [r.1.setWidth 8] type.left w rfl
    exact congrArg (fun str => some ({ r.2 with str := str } : State)) hpad

theorem string_put (st : State) (type : Flags) (w p : Option Nat) :
    st.string type (ofOption w) (ofOption p) =
      st.argString.map fun r => r.2.put (justify type.left (w.getD 0) (r.1.take (p.getD r.1.length))) := by
  unfold State.string
  cases st.argString with
  | none => rfl
  | some r =>
    obtain ⟨t, s⟩ := r
    have hpad := padFrom_twice s.str (t.take (p.getD t.length)) type.left w
    have htake : t.take (t.take (p.getD t.length)).length = t.take (p.getD t.length) := by simp [List.take_eq_take_iff]
    simp only [Option.bind_eq_bind, Option.bind_some, Option.map_some, cut_length, Int.toNat_natCast, htake]
    exact congrArg (fun str => some ({ s with str := str } : State)) hpad

theorem convert_letter (d : Spec) (st : State) (v : Conv) :
    convert st (setFlags d.flags) (ofOption d.width) (ofOption d.precision) v.letter = d.put st v := by
  have num : ∀ {base : Nat} (type : Flags), 2 ≤ base → base ≤ 36 →
      st.number base (ofOption d.width) (ofOption d.precision) type = putNum st base d.width d.precision type :=
    fun type h2 h36 => number_put st h2 h36 type _ _
  cases v with
  | c => exact char_put st _ _
  | s => exact string_put st _ _ _
  | o => exact num _ (by omega) (by omega)
  | p =>
    show (if ofOption d.width = -1 then _ else _) = if d.width = none then _ else _
    cases hw : d.width with
    | none => exact number_put st (by omega) (by omega) _ (some 8) d.precision
    | some n =>
      have hn : ofOption (some n) ≠ -1 := by simp [ofOption]
      rw [if_neg hn, if_neg (by simp), ← hw]
      exact num _ (by omega) (by omega)
  | x => exact num _ (by omega) (by omega)
  | X => exact num _ (by omega) (by omega)
  | d => exact num _ (by omega) (by omega)
  | i => exact num _ (by omega) (by omega)
  | u => exact num _ (by omega) (by omega)
  | b => exact num _ (by omega) (by omega)
  | n =>
    show Option.bind st.argWord _ = Option.map _ st.argWord
    cases st.argWord <;> rfl

theorem convert_unknown (st : State) (flags : Flags) (w p : Int) (hv : ∀ v : Conv, c ≠ v.letter) :
    convert st flags w p c = some (st.put (if c = chr '%' then [c] else [chr '%', c])) := by
  have hdi : ¬ (c = chr 'd' ∨ c = chr 'i') := fun h => h.elim (hv .d) (hv .i)
  unfold convert
  refine (if_neg (hv .c)).trans <| (if_neg (hv .s)).trans <| (if_neg (hv .o)).trans <| (if_neg (hv .p)).trans <|
    (if_neg (hv .x)).trans <| (if_neg (hv .X)).trans <| (if_neg hdi).trans <| (if_neg (hv .u)).trans <|
    (if_neg (hv .b)).trans <| (if_neg (hv .n)).trans ?_
  by_cases hc : c = chr '%'
  · rw [if_neg (fun h => h hc), if_pos hc]
  · rw [if_pos hc, if_neg hc]

/-! ### Formats -/

theorem loop_char (hc : c ≠ chr '%') (n : Nat) (fmt : List Byte) (st : State) :
    loop (n + 1) (c :: fmt) st = loop n fmt (st.put [c]) := if_pos hc

theorem convert_star (n : Nat) (fmt : List Byte) (st : State) (flags : Flags) (w p : Int) :
    ((convert st flags w p (chr '*')).bind fun s => loop n fmt s) = loop n fmt (st.put [chr '%', chr '*']) := by
  have hstar : ∀ v : Conv, chr '*' ≠ v.letter := fun v => by cases v <;> decide
  rw [convert_unknown _ _ _ _ hstar]
  rfl

theorem loop_star (flags : List FlagChar) (n : Nat) (fmt : List Byte) (st : State) :
    loop (n + 1) (chr '%' :: (flagText flags ++ chr '*' :: fmt)) st =
      st.argWord.bind fun r => loop n fmt (r.2.put [chr '%', chr '*']) := by
  have hflags : ∀ c ∈ (chr '*' :: fmt).head?, ∀ x : FlagChar, c ≠ x.letter := by
    intro c hc x
    obtain rfl := Option.some.inj hc
    cases x <;> decide
  have hw : getWidth (setFlags flags) (chr '*' :: fmt) st = st.argWord.bind fun r =>
      if r.1.toInt < 0 then some (-r.1.toInt, { setFlags flags with left := true }, chr '*' :: fmt, r.2)
      else some (r.1.toInt, setFlags flags, chr '*' :: fmt, r.2) := by
    unfold getWidth
    dsimp only
    rw [if_neg (by decide), if_pos rfl]
    rfl
  rw [loop, if_neg (fun hx => hx rfl), flagLoop_text flags hflags]
  dsimp only
  rw [hw]
  cases st.argWord with
  | none => rfl
  | some r =>
    simp only [Option.bind_some]
    split_ifs
    · exact convert_star n fmt r.2 { setFlags flags with left := true } (-r.1.toInt) (-1)
    · exact convert_star n fmt r.2 (setFlags flags) r.1.toInt (-1)

theorem loop_starPrecision (flags : List FlagChar) {w : Option Nat} (hw : ∀ n ∈ w, 0 < n ∧ n < 2 ^ 31) (n : Nat)
    (fmt : List Byte) (st : State) :
    loop (n + 1) (chr '%' :: (flagText flags ++ (widthText w ++ chr '.' :: chr '*' :: fmt))) st =
      st.argWord.bind fun r => loop n fmt (r.2.put [chr '%', chr '*']) := by
  have hflags : ∀ c ∈ (widthText w ++ chr '.' :: chr '*' :: fmt).head?, ∀ x : FlagChar, c ≠ x.letter :=
    forall_head_append (head_width hw) fun c hc x => by
      obtain rfl := Option.some.inj hc
      cases x <;> decide
  have hdot : ∀ c ∈ (chr '.' :: chr '*' :: fmt).head?, ¬ isDigit c ∧ c ≠ chr '*' := by
    intro c hc
    obtain rfl := Option.some.inj hc
    decide
  have hp : getPrecision (chr '.' :: chr '*' :: fmt) st = st.argWord.bind fun r =>
      some (if r.1.toInt < 0 then 0 else r.1.toInt, chr '*' :: fmt, r.2) := by
    unfold getPrecision
    dsimp only
    rw [if_pos rfl, if_neg (by decide), if_pos rfl]
    cases st.argWord <;> rfl
  rw [loop, if_neg (fun hx => hx rfl), flagLoop_text flags hflags]
  dsimp only
  rw [getWidth_text hw (fun c hc => (hdot c hc).1) fun c hc => (hdot c hc).2]
  simp only [Option.bind_eq_bind, Option.bind_some]
  rw [hp]
  cases st.argWord with
  | none => rfl
  | some r => exact convert_star n fmt r.2 (setFlags flags) (ofOption w) (if r.1.toInt < 0 then 0 else r.1.toInt)

theorem State.put_nil (st : State) : st.put [] = st := by
  unfold State.put
  rw [List.append_nil]

theorem Item.text_length (x : Item) : 0 < x.text.length := by
  cases x <;> simp [Item.text, Spec.text]

theorem loop_items (f : Format) (n : Nat) (st : State) (hn : f.text.length ≤ n) : loop n f.text st = f.put st := by
  obtain ⟨items, rest⟩ := f
  induction items generalizing n st with
  | nil =>
    cases rest with
    | none =>
      have hput : Format.put ⟨[], none⟩ st = some (st.put []) := rfl
      rw [hput, State.put_nil]
      cases n <;> rfl
    | some d =>
      cases n with
      | zero => simp [Format.text, Spec.text] at hn
      | succ n =>
        have h := @loop_spec [] d (fun c hc => nomatch hc) n st
        rw [List.append_nil] at h
        exact h
  | cons x items ih =>
    have htext : Format.text ⟨x :: items, rest⟩ = x.text ++ Format.text ⟨items, rest⟩ := by
      simp [Format.text]
    have hput : Format.put ⟨x :: items, rest⟩ st = (x.put st).bind fun s => Format.put ⟨items, rest⟩ s := by
      unfold Format.put
      rw [putAll]
      cases x.put st <;> rfl
    rw [htext, List.length_append] at hn
    rw [htext, hput]
    -- an item is not empty, and the loop behind it has turns enough
    obtain ⟨n, rfl⟩ : ∃ m, n = m + 1 := ⟨n - 1, by have := x.text_length; omega⟩
    have hrest : (Format.text ⟨items, rest⟩).length ≤ n := by have := x.text_length; omega
    have hrun : (fun s => loop n (Format.text ⟨items, rest⟩) s) = fun s => Format.put ⟨items, rest⟩ s :=
      funext fun s => ih n s hrest
    cases x with
    | char c hc => exact (loop_char hc n _ st).trans (ih n (st.put [c]) hrest)
    | directive d v =>
      have hv : ∀ c ∈ (v.letter :: Format.text ⟨items, rest⟩).head?, Plain c := by
        intro c hc
        obtain rfl := Option.some.inj hc
        exact v.plain
      have h := loop_spec d hv n st
      dsimp only at h
      rw [convert_letter, hrun] at h
      simp only [Item.text, List.append_assoc, List.cons_append, List.nil_append]
      exact h
    | unknown d c hc hv =>
      have hp : ∀ c' ∈ (c :: Format.text ⟨items, rest⟩).head?, Plain c' := by
        intro c' hc'
        obtain rfl := Option.some.inj hc'
        exact hc
      have h := loop_spec d hp n st
      dsimp only at h
      rw [convert_unknown _ _ _ _ hv, hrun] at h
      simp only [Item.text, List.append_assoc, List.cons_append, List.nil_append]
      exact h
    | star flags =>
      have h := loop_star flags n (Format.text ⟨items, rest⟩) st
      rw [← hrun]
      simp only [Item.text, Item.put, List.append_assoc, List.cons_append, List.nil_append]
      rw [h]
      cases st.argWord <;> rfl
    | starPrecision flags w hw =>
      have h := loop_starPrecision flags hw n (Format.text ⟨items, rest⟩) st
      rw [← hrun]
      simp only [Item.text, Item.put, List.append_assoc, List.cons_append, List.nil_append]
      rw [h]
      cases st.argWord <;> rfl

/-- `vsprintf` of a format writes what its items write, from left to right, and returns the length of that. -/
theorem vsprintf_format (f : Format) (args : List Arg) : vsprintf f.text args = f.put ⟨[], args, []⟩ :=
  loop_items f _ _ (Nat.le_refl _)

end

end Vsprintf
end Krypton
