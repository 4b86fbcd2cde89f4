import Krypton.Vsprintf

/-!
# What `number` writes

`number` is a loop over the digits between five loops that pad. `numberText` says what they write together, and
`NumberField` what a reader sees: blanks, the sign, the prefix of the base and digits that read back as the number.
`tmp` is never full: there are 32 bits and the base is at least 2.
-/

namespace Krypton
namespace Vsprintf

variable {base room n : Nat} {num : Word} {size precision : Int} {type : Flags} {str out : List Byte} {small : Bool}

def blanks (n : Nat) : List Byte := List.replicate n (chr ' ')
def zeros (n : Nat) : List Byte := List.replicate n (chr '0')

/-- The number has a minus sign. -/
def Negative (num : Word) (type : Flags) : Prop := type.sign = true ∧ num.toInt < 0

instance (num : Word) (type : Flags) : Decidable (Negative num type) := inferInstanceAs (Decidable (_ ∧ _))

def magnitude (num : Word) (type : Flags) : Nat := if type.sign then num.toInt.natAbs else num.toNat

def signText (num : Word) (type : Flags) : List Byte :=
  if Negative num type then [chr '-'] else if type.plus then [chr '+'] else if type.space then [chr ' '] else []

def prefixText (base : Nat) (type : Flags) : List Byte :=
  if type.special then
    if base = 8 then [chr '0'] else if base = 16 then [chr '0', digit type.small 33] else []
  else []

/-- The digits of the number, at least `precision` of them. -/
def digitText (num : Word) (base precision : Nat) (type : Flags) : List Byte :=
  let s := numeral (digit type.small) base (magnitude num type)
  zeros (precision - s.length) ++ s

/-- A text in a field of `width`. -/
def justify (left : Bool) (width : Nat) (t : List Byte) : List Byte :=
  if left then t ++ blanks (width - t.length) else blanks (width - t.length) ++ t

def numberText (num : Word) (base width precision : Nat) (type : Flags) : List Byte :=
  let lead := signText num type ++ prefixText base type
  let t := digitText num base precision type
  if type.zeropad ∧ ¬ type.left then lead ++ zeros (width - (lead ++ t).length) ++ t
  else justify type.left width (lead ++ t)

/-! ### Digits -/

def digitValue (c : Byte) : Nat :=
  if c.toNat < 58 then c.toNat - 48 else if c.toNat < 97 then c.toNat - 55 else c.toNat - 87

theorem digitValue_digit {i : Nat} (small : Bool) (hi : i < 36) : digitValue (digit small i) = i := by
  unfold digit digitValue
  cases small <;> split_ifs <;> simp at * <;> omega

theorem fillTmp_eq (digits : Nat → Byte) (hb : 1 < base) (h : n < base ^ room) :
    fillTmp digits base room n = some ((Nat.digits base n).map digits) := by
  induction room generalizing n with
  | zero =>
    obtain rfl : n = 0 := by simpa using h
    simp [fillTmp]
  | succ room ih =>
    cases n with
    | zero => simp [fillTmp]
    | succ n =>
      have hq : (n + 1) / base < base ^ room := by
        rw [Nat.div_lt_iff_lt_mul (by omega)]
        rwa [Nat.pow_succ] at h
      rw [fillTmp, ih hq, Nat.digits_def' hb (Nat.succ_pos n)]
      rfl

theorem word_fits (hb : 1 < base) (w : Word) : w.toNat < base ^ 36 :=
  calc w.toNat < 2 ^ 32 := w.isLt
    _ ≤ 2 ^ 36 := Nat.pow_le_pow_right (by omega) (by omega)
    _ ≤ base ^ 36 := Nat.pow_le_pow_left hb 36

theorem numeral_reverse (digits : Nat → Byte) (hn : n ≠ 0) :
    ((Nat.digits base n).map digits).reverse = numeral digits base n := (if_neg hn).symm

theorem digitsOf_eq (hb : 1 < base) (small : Bool) (w : Word) :
    ∃ tmp, digitsOf (digit small) base w = some tmp ∧ tmp.reverse = numeral (digit small) base w.toNat := by
  unfold digitsOf
  by_cases hw : w = 0
  · subst hw
    exact ⟨_, rfl, rfl⟩
  · rw [if_neg hw, fillTmp_eq _ hb (word_fits hb w)]
    exact ⟨_, rfl, numeral_reverse _ fun h => hw (BitVec.eq_of_toNat_eq h)⟩

theorem magnitude_of_negative (h : Negative num type) : (-num).toNat = magnitude num type := by
  obtain ⟨hs, hn⟩ := h
  unfold magnitude
  rw [if_pos hs]
  have := BitVec.toInt_eq_toNat_cond num
  have hlt := num.isLt
  rw [BitVec.toNat_neg]
  split_ifs at this <;> omega

theorem magnitude_of_not (h : ¬ Negative num type) : num.toNat = magnitude num type := by
  unfold magnitude
  by_cases hs : type.sign = true
  · have hn : ¬ num.toInt < 0 := fun hn => h ⟨hs, hn⟩
    have := BitVec.toInt_eq_toNat_cond num
    have hlt := num.isLt
    rw [if_pos hs]
    split_ifs at this <;> omega
  · rw [if_neg hs]

/-! ### The layout -/

theorem padding_eq (str lead tmp : List Byte) (zeropad left : Bool) (size precision : Int) :
    (let precision := max (tmp.length : Int) precision
    let size := size - lead.length - precision
    let r := if ¬ ((zeropad && !left) ∨ left) then padWhile str (chr ' ') size else (str, size)
    let r := if ¬ left then padWhile (r.1 ++ lead) (if zeropad && !left then chr '0' else chr ' ') r.2
      else (r.1 ++ lead, r.2)
    (padWhile (r.1 ++ List.replicate (precision - tmp.length).toNat (chr '0') ++ tmp.reverse) (chr ' ') r.2).1) =
      let t := zeros (precision.toNat - tmp.length) ++ tmp.reverse
      str ++ if zeropad ∧ ¬ left then lead ++ zeros (size.toNat - (lead ++ t).length) ++ t
        else justify left size.toNat (lead ++ t) := by
  have hz : (max (tmp.length : Int) precision - tmp.length).toNat = precision.toNat - tmp.length := by omega
  have hlen : (size - lead.length - max (tmp.length : Int) precision).toNat =
      size.toNat - (lead ++ (zeros (precision.toNat - tmp.length) ++ tmp.reverse)).length := by
    simp only [List.length_append, zeros, List.length_replicate, List.length_reverse]
    omega
  dsimp only
  rw [hz]
  generalize size - lead.length - max (tmp.length : Int) precision = room at hlen ⊢
  -- the loops behind the one that pads find nothing to do
  have h1 : (min room 0 - 1).toNat = 0 := by omega
  cases left <;> cases zeropad <;> simp [padWhile, h1, hlen, justify, blanks, zeros]
  rw [← List.append_assoc, List.replicate_append_replicate]

theorem signText_cases (num : Word) (type : Flags) :
    signText num type = [] ∨ ∃ c, c ≠ 0 ∧ signText num type = [c] := by
  unfold signText
  split_ifs
  · exact .inr ⟨_, by decide, rfl⟩
  · exact .inr ⟨_, by decide, rfl⟩
  · exact .inr ⟨_, by decide, rfl⟩
  · exact .inl rfl

/-- `num` behind the test of its sign. -/
def unsignedNum (num : Word) (type : Flags) : Word := if Negative num type then -num else num

theorem unsignedNum_toNat (num : Word) (type : Flags) : (unsignedNum num type).toNat = magnitude num type := by
  unfold unsignedNum
  split_ifs with h
  · exact magnitude_of_negative h
  · exact magnitude_of_not h

theorem signed_eq (num : Word) (type : Flags) :
    (if type.sign ∧ num.toInt < 0 then (chr '-', -num)
      else (if type.plus then chr '+' else if type.space then chr ' ' else 0, num)) =
      ((signText num type).headD 0, unsignedNum num type) := by
  unfold signText unsignedNum
  by_cases hneg : Negative num type
  · simp only [if_pos hneg]
    exact if_pos hneg
  · simp only [if_neg hneg]
    refine (if_neg hneg).trans ?_
    cases type.plus <;> cases type.space <;> rfl

theorem unpadded_eq (type : Flags) :
    (if type.left then { type with zeropad := false } else type) =
      { type with zeropad := type.zeropad && !type.left } := by
  obtain ⟨zeropad, sign, plus, space, left, special, small⟩ := type
  cases left <;> simp

theorem lead_eq (base : Nat) (size : Int) (num : Word) (type type' : Flags) (hsp : type'.special = type.special)
    (hsm : type'.small = type.small) :
    roomFor ((signText num type).headD 0) base size type' = size - (signText num type ++ prefixText base type).length ∧
      ∀ str, putLead str ((signText num type).headD 0) base type' =
        str ++ (signText num type ++ prefixText base type) := by
  unfold roomFor putLead prefixText
  rw [hsp, hsm]
  rcases signText_cases num type with hs | ⟨c, hc, hs⟩ <;> rw [hs] <;> cases type.special <;>
    by_cases h8 : base = 8 <;> by_cases h16 : base = 16 <;> simp_all [Int.sub_sub]

theorem number_eq (str : List Byte) (num : Word) (size precision : Int) (type : Flags) (h2 : 2 ≤ base)
    (h36 : base ≤ 36) :
    number str num base size precision type =
      some (str ++ numberText num base size.toNat precision.toNat type) := by
  have hbase : ¬ (base < 2 ∨ base > 36) := by omega
  obtain ⟨tmp, htmp, hrev⟩ := digitsOf_eq h2 type.small (unsignedNum num type)
  rw [unsignedNum_toNat] at hrev
  have hlen : (numeral (digit type.small) base (magnitude num type)).length = tmp.length := by
    rw [← hrev, List.length_reverse]
  unfold number
  rw [if_neg hbase, unpadded_eq]
  dsimp only
  rw [signed_eq]
  dsimp only
  rw [htmp]
  simp only [Option.bind_eq_bind, Option.bind_some, Option.some.injEq]
  obtain ⟨hroom, hput⟩ :=
    lead_eq base size num type { type with zeropad := type.zeropad && !type.left } rfl rfl
  rw [hroom]
  have hmax : ∀ i : Int, (if i > precision then i else precision) = max i precision := by
    intro i
    split_ifs <;> omega
  unfold putNumber
  simp only [hput, hmax]
  refine (padding_eq str _ tmp type.zeropad type.left size precision).trans ?_
  unfold numberText digitText
  simp only [hrev, hlen]

/-! ### What a reader sees -/

/-- Blanks, the sign, the prefix, digits and blanks that show `num`. -/
structure NumberField (num : Word) (base width precision : Nat) (type : Flags) (before : Nat) (ds : List Byte)
    (after : Nat) : Prop where
  digits : ∀ c ∈ ds, ∃ i < base, c = digit type.small i
  value : readNumeral digitValue base 0 ds = magnitude num type
  enough : precision ≤ ds.length
  /-- The field is as wide as asked for, or as its contents. -/
  wide : before + (signText num type ++ prefixText base type).length + ds.length + after =
    max width ((signText num type ++ prefixText base type).length +
      max precision (numeral (digit type.small) base (magnitude num type)).length)
  right : before = 0 ∨ type.left = false ∧ type.zeropad = false
  left : after = 0 ∨ type.left = true

theorem digit_zero (small : Bool) : digit small 0 = chr '0' := by
  cases small <;> rfl

theorem mem_zeros {c : Byte} (h : c ∈ zeros n) : c = digit small 0 := by
  rw [List.eq_of_mem_replicate h, digit_zero]

theorem readNumeral_zeros (n : Nat) (s : List Byte) :
    readNumeral digitValue base 0 (zeros n ++ s) = readNumeral digitValue base 0 s := by
  induction n with
  | zero => rfl
  | succ n ih =>
    have hzero : 0 * base + digitValue (chr '0') = 0 := by rw [Nat.zero_mul]; rfl
    show readNumeral digitValue base (0 * base + digitValue (chr '0')) (zeros n ++ s) = _
    rw [hzero, ih]

section
variable {m k : Nat}

theorem zeros_numeral (h2 : 2 ≤ base) (h36 : base ≤ 36) (small : Bool) (k m : Nat) :
    (∀ c ∈ zeros k ++ numeral (digit small) base m, ∃ i < base, c = digit small i) ∧
      readNumeral digitValue base 0 (zeros k ++ numeral (digit small) base m) = m := by
  constructor
  · intro c hc
    rcases List.mem_append.1 hc with hc | hc
    · exact ⟨0, by omega, mem_zeros hc⟩
    · exact exists_of_mem_numeral h2 hc
  · rw [readNumeral_zeros]
    exact readNumeral_numeral h2 (fun i hi => digitValue_digit small (by omega)) m

end

/-- Whatever the base, the width, the precision and the flags, the text shows the number: its digits read back as the
number, behind its sign and the prefix of the base. -/
theorem number_field (str : List Byte) (num : Word) (size precision : Int) (type : Flags) (h2 : 2 ≤ base)
    (h36 : base ≤ 36) :
    ∃ before ds after, NumberField num base size.toNat precision.toNat type before ds after ∧
      number str num base size precision type =
        some (str ++ (blanks before ++ (signText num type ++ prefixText base type) ++ ds ++ blanks after)) := by
  rw [number_eq str num size precision type h2 h36]
  unfold numberText
  generalize hlead : signText num type ++ prefixText base type = lead
  have hlen : (digitText num base precision.toNat type).length =
      max precision.toNat (numeral (digit type.small) base (magnitude num type)).length := by
    simp only [digitText, zeros, List.length_append, List.length_replicate]
    omega
  obtain ⟨hdig, hval⟩ := zeros_numeral h2 h36 type.small
    (precision.toNat - (numeral (digit type.small) base (magnitude num type)).length) (magnitude num type)
  change ∀ c ∈ digitText num base precision.toNat type, _ at hdig
  change readNumeral digitValue base 0 (digitText num base precision.toNat type) = _ at hval
  by_cases hz : type.zeropad = true ∧ ¬ type.left = true
  · refine ⟨0, zeros (size.toNat - (lead ++ digitText num base precision.toNat type).length) ++
      digitText num base precision.toNat type, 0, ⟨?_, ?_, ?_, ?_, .inl rfl, .inl rfl⟩, ?_⟩
    · intro c hc
      rcases List.mem_append.1 hc with hc | hc
      · exact ⟨0, by omega, mem_zeros hc⟩
      · exact hdig c hc
    · rw [readNumeral_zeros, hval]
    · rw [List.length_append, hlen]
      omega
    · rw [hlead]
      simp only [zeros, List.length_append, List.length_replicate, hlen]
      omega
    · simp [hz, blanks]
  · refine ⟨if type.left then 0 else size.toNat - (lead ++ digitText num base precision.toNat type).length,
      digitText num base precision.toNat type,
      if type.left then size.toNat - (lead ++ digitText num base precision.toNat type).length else 0,
      ⟨hdig, hval, hlen ▸ le_max_left .., ?_, ?_, ?_⟩, ?_⟩
    · rw [hlead, List.length_append, hlen]
      split_ifs <;> omega
    · cases hl : type.left
      · exact .inr ⟨rfl, by simpa [hl] using hz⟩
      · exact .inl rfl
    · cases hl : type.left
      · exact .inl rfl
      · exact .inr rfl
    · rw [if_neg hz]
      cases type.left <;> simp [justify, blanks]

theorem number_field_hex : ∃ before ds after,
    NumberField 0xBEEF 16 12 6 ⟨false, true, true, false, false, true, true⟩ before ds after ∧
      number [chr '['] 0xBEEF 16 12 6 ⟨false, true, true, false, false, true, true⟩ =
        some ([chr '['] ++ (blanks before ++ (signText 0xBEEF ⟨false, true, true, false, false, true, true⟩ ++
          prefixText 16 ⟨false, true, true, false, false, true, true⟩) ++ ds ++ blanks after)) :=
  number_field [chr '['] 0xBEEF 12 6 ⟨false, true, true, false, false, true, true⟩ (by decide) (by decide)

end Vsprintf
end Krypton
