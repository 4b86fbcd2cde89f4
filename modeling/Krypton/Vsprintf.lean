import Krypton.Lib.Numeral
import Krypton.Sys

/-!
# `vsprintf.c`

`number` and `vsprintf`. What stands between `buf` and `str` is the list `str`, a string is the list of its bytes before
the `NUL`, and the arguments are a list. The `int` arithmetic is exact. A function is `none` where the C is undefined:
an argument is missing or is of the other kind, a width in the format does not fit `int`, or `number` writes behind
`tmp`.
-/

namespace Krypton

def chr (c : Char) : Byte := BitVec.ofNat 8 c.toNat

namespace Vsprintf

/-- What `va_arg` can find. -/
inductive Arg
  /-- An `int`, an `unsigned long` or a pointer. -/
  | word (w : Word)
  | string (s : List Byte)
deriving DecidableEq

/-- The bits of `flags`. -/
structure Flags where
  zeropad : Bool
  sign : Bool
  plus : Bool
  space : Bool
  left : Bool
  special : Bool
  small : Bool
deriving DecidableEq

def Flags.none : Flags := ⟨false, false, false, false, false, false, false⟩

def isDigit (c : Byte) : Prop := 48 ≤ c.toNat ∧ c.toNat ≤ 57

instance (c : Byte) : Decidable (isDigit c) := inferInstanceAs (Decidable (_ ∧ _))

/-- `skip_atoi`, with `i` so far. -/
def skipAtoi : Nat → List Byte → Nat × List Byte
  | i, [] => (i, [])
  | i, c :: s => if isDigit c then skipAtoi (i * 10 + (c.toNat - 48)) s else (i, c :: s)

/-! ### `number` -/

/-- `digits[i]`. -/
def digit (small : Bool) (i : Nat) : Byte :=
  if i < 10 then BitVec.ofNat 8 (48 + i)
  else if small then BitVec.ofNat 8 (97 + (i - 10))
  else BitVec.ofNat 8 (65 + (i - 10))

/-- The loop over `num`, with `room` bytes of `tmp` left; `do_div` is unsigned. -/
def fillTmp (digits : Nat → Byte) (base : Nat) : Nat → Nat → Option (List Byte)
  | _, 0 => some []
  | 0, _ + 1 => none
  | room + 1, num + 1 => (fillTmp digits base room ((num + 1) / base)).map (digits ((num + 1) % base) :: ·)

/-- `tmp`, the last digit first. -/
def digitsOf (digits : Nat → Byte) (base : Nat) (num : Word) : Option (List Byte) :=
  if num = 0 then some [chr '0'] else fillTmp digits base 36 num.toNat

/-- `while (size-- > 0) *str++ = c;` -/
def padWhile (str : List Byte) (c : Byte) (size : Int) : List Byte × Int :=
  (str ++ List.replicate size.toNat c, min size 0 - 1)

/-- `size` less the sign and the prefix of the base. -/
def roomFor (sign : Byte) (base : Nat) (size : Int) (type : Flags) : Int :=
  let size := if sign ≠ 0 then size - 1 else size
  if type.special then if base = 16 then size - 2 else if base = 8 then size - 1 else size
  else size

/-- The sign and the prefix of the base. -/
def putLead (str : List Byte) (sign : Byte) (base : Nat) (type : Flags) : List Byte :=
  let str := if sign ≠ 0 then str ++ [sign] else str
  if type.special then
    if base = 8 then str ++ [chr '0'] else if base = 16 then str ++ [chr '0', digit type.small 33] else str
  else str

/-- `number` behind the loop over `num`. -/
def putNumber (str : List Byte) (sign c : Byte) (base : Nat) (size precision : Int) (type : Flags) (tmp : List Byte) :
    List Byte :=
  let i : Int := tmp.length
  let precision := if i > precision then i else precision
  let size := size - precision
  let (str, size) := if ¬ (type.zeropad ∨ type.left) then padWhile str (chr ' ') size else (str, size)
  let str := putLead str sign base type
  let (str, size) := if ¬ type.left then padWhile str c size else (str, size)
  let str := str ++ List.replicate (precision - i).toNat (chr '0')
  let str := str ++ tmp.reverse
  (padWhile str (chr ' ') size).1

def number (str : List Byte) (num : Word) (base : Nat) (size precision : Int) (type : Flags) : Option (List Byte) :=
  let digits := digit type.small
  let type := if type.left then { type with zeropad := false } else type
  if base < 2 ∨ base > 36 then none
  else do
    let c := if type.zeropad then chr '0' else chr ' '
    let (sign, num) :=
      if type.sign ∧ num.toInt < 0 then (chr '-', -num)
      else (if type.plus then chr '+' else if type.space then chr ' ' else 0, num)
    let size := roomFor sign base size type
    let tmp ← digitsOf digits base num
    some (putNumber str sign c base size precision type tmp)

/-! ### `vsprintf` -/

structure State where
  str : List Byte
  args : List Arg
  /-- What `%n` stores, newest first. -/
  stores : List (Word × Nat)

namespace State

def put (s : State) (t : List Byte) : State := { s with str := s.str ++ t }

def argWord (s : State) : Option (Word × State) :=
  match s.args with
  | .word w :: args => some (w, { s with args := args })
  | _ => none

def argString (s : State) : Option (List Byte × State) :=
  match s.args with
  | .string t :: args => some (t, { s with args := args })
  | _ => none

/-- `str = number (str, va_arg (args, unsigned long), ...)`. -/
def number (s : State) (base : Nat) (size precision : Int) (type : Flags) : Option State := do
  let (w, s) ← s.argWord
  let str ← Vsprintf.number s.str w base size precision type
  some { s with str := str }

end State

/-- The flags behind a `%`. -/
def flagLoop : Flags → List Byte → Flags × List Byte
  | f, [] => (f, [])
  | f, c :: fmt =>
    if c = chr '-' then flagLoop { f with left := true } fmt
    else if c = chr '+' then flagLoop { f with plus := true } fmt
    else if c = chr ' ' then flagLoop { f with space := true } fmt
    else if c = chr '#' then flagLoop { f with special := true } fmt
    else if c = chr '0' then flagLoop { f with zeropad := true } fmt
    else (f, c :: fmt)

/-- A number of the format, if it fits `int`. -/
def atoi (fmt : List Byte) : Option (Int × List Byte) :=
  let r := skipAtoi 0 fmt
  if r.1 < 2 ^ 31 then some (r.1, r.2) else none

/-- The field width, and the flags with what a negative one adds. `fmt` stays at a `*`. -/
def getWidth (flags : Flags) (fmt : List Byte) (s : State) : Option (Int × Flags × List Byte × State) :=
  match fmt with
  | [] => some (-1, flags, [], s)
  | c :: _ =>
    if isDigit c then do
      let (fieldWidth, fmt) ← atoi fmt
      some (fieldWidth, flags, fmt, s)
    else if c = chr '*' then do
      let (w, s) ← s.argWord
      if w.toInt < 0 then some (-w.toInt, { flags with left := true }, fmt, s)
      else some (w.toInt, flags, fmt, s)
    else some (-1, flags, fmt, s)

/-- The precision; behind the dot `fmt` stays at a `*`. -/
def getPrecision (fmt : List Byte) (s : State) : Option (Int × List Byte × State) :=
  match fmt with
  | [] => some (-1, [], s)
  | c :: rest =>
    if c = chr '.' then do
      let (precision, fmt, s) ←
        match rest with
        | [] => some (-1, [], s)
        | d :: _ =>
          if isDigit d then (atoi rest).map fun r => (r.1, r.2, s)
          else if d = chr '*' then s.argWord.map fun r => (r.1.toInt, rest, r.2)
          else some (-1, rest, s)
      some (if precision < 0 then 0 else precision, fmt, s)
    else some (-1, fmt, s)

def skipQualifier : List Byte → List Byte
  | [] => []
  | c :: fmt => if c = chr 'h' ∨ c = chr 'l' ∨ c = chr 'L' then fmt else c :: fmt

/-- `while (--field_width > 0) *str++ = ' ';` -/
def padBefore (str : List Byte) (fieldWidth : Int) : List Byte × Int :=
  (str ++ List.replicate (fieldWidth - 1).toNat (chr ' '), min (fieldWidth - 1) 0)

/-- `while (len < field_width--) *str++ = ' ';` -/
def padFrom (str : List Byte) (len fieldWidth : Int) : List Byte × Int :=
  (str ++ List.replicate (fieldWidth - len).toNat (chr ' '), min fieldWidth len - 1)

namespace State

/-- Case `c`. -/
def char (s : State) (flags : Flags) (fieldWidth : Int) : Option State := do
  let (w, s) ← s.argWord
  let r := if ¬ flags.left then padBefore s.str fieldWidth else (s.str, fieldWidth)
  let str := r.1 ++ [w.setWidth 8]
  some { s with str := (padBefore str r.2).1 }

/-- Case `s`. -/
def string (s : State) (flags : Flags) (fieldWidth precision : Int) : Option State := do
  let (t, s) ← s.argString
  let len : Int := if precision < 0 then t.length else if t.length > precision then precision else t.length
  let r := if ¬ flags.left then padFrom s.str len fieldWidth else (s.str, fieldWidth)
  let str := r.1 ++ t.take len.toNat
  some { s with str := (padFrom str len r.2).1 }

end State

/-- The conversion `c`. -/
def convert (s : State) (flags : Flags) (fieldWidth precision : Int) (c : Byte) : Option State :=
  if c = chr 'c' then s.char flags fieldWidth
  else if c = chr 's' then s.string flags fieldWidth precision
  else if c = chr 'o' then s.number 8 fieldWidth precision flags
  else if c = chr 'p' then
    if fieldWidth = -1 then s.number 16 8 precision { flags with zeropad := true }
    else s.number 16 fieldWidth precision flags
  else if c = chr 'x' then s.number 16 fieldWidth precision { flags with small := true }
  else if c = chr 'X' then s.number 16 fieldWidth precision flags
  else if c = chr 'd' ∨ c = chr 'i' then s.number 10 fieldWidth precision { flags with sign := true }
  else if c = chr 'u' then s.number 10 fieldWidth precision flags
  else if c = chr 'b' then s.number 2 fieldWidth precision flags
  else if c = chr 'n' then do
    let (ip, s) ← s.argWord
    some { s with stores := (ip, s.str.length) :: s.stores }
  else if c ≠ chr '%' then some (s.put [chr '%', c])
  else some (s.put [c])

/-- The loop over `fmt`; the number bounds its turns. -/
def loop : Nat → List Byte → State → Option State
  | _, [], s => some s
  | 0, _ :: _, _ => none
  | n + 1, c :: fmt, s =>
    if c ≠ chr '%' then loop n fmt (s.put [c])
    else do
      let (flags, fmt) := flagLoop .none fmt
      let (fieldWidth, flags, fmt, s) ← getWidth flags fmt s
      let (precision, fmt, s) ← getPrecision fmt s
      match skipQualifier fmt with
      -- the string ends in the directive: `--fmt`
      | [] => some (s.put [chr '%'])
      | c :: fmt => do
        let s ← convert s flags fieldWidth precision c
        loop n fmt s

end Vsprintf

/-- What `vsprintf` writes to `buf` before the `NUL`, of which it returns the length, and what it leaves. -/
def vsprintf (fmt : List Byte) (args : List Vsprintf.Arg) : Option Vsprintf.State :=
  Vsprintf.loop fmt.length fmt ⟨[], args, []⟩

end Krypton
