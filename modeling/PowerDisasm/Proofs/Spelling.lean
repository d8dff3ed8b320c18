import Mathlib.Data.List.Induction
import PowerDisasm.Proofs.Instruction.Line

/-!
# The spelling of numbers

A number can be read in many spellings, since zeros may be put in front of it, but only one of them
is plain: it has no zero in front unless it is zero, and a minus sign only if it is negative. Which
texts are plain is said here by looking at the characters alone, and what a text is read as is a sum
over them. A number is always spelled as the one plain text that is read as the number.

## Main definitions

* `Numeral.IsPlain`, `Numeral.IsPlainSigned`, `Numeral.IsPlainHexadecimal`: the plain texts
* `Immediate.IsSpelled`: the plain texts of the numbers that instructions carry

## Main results

* `Numeral.eq_decimal_iff`, `Numeral.eq_signed_iff`, `Numeral.eq_hexadecimal_iff`: the spelling of a
  number is the plain text that is read as the number
* `Immediate.text_is_canonical`: the numbers in a line of assembly
-/

namespace PowerDisasm

namespace Numeral

variable {b n : Nat} {digits front : List Char} {c : Char} {text : String} {v : Int}

/-! ### Plain digits -/

/-- The bases for which the decimal digits and the letters up to `f` are enough. -/
def IsBase (b : Nat) : Prop := 1 < b ∧ b ≤ 16

theorem isBase_ten : IsBase 10 := ⟨by decide, by decide⟩

theorem isBase_sixteen : IsBase 16 := ⟨by decide, by decide⟩

/-- The digits in the order of their values, the letters in lower case. -/
def digitChars : List Char := "0123456789abcdef".toList

/-- The characters are digits of base `b`, at least one, and none of them is a superfluous zero. -/
structure IsPlain (b : Nat) (digits : List Char) : Prop where
  ne_nil : digits ≠ []
  mem_digitChars : ∀ c ∈ digits, c ∈ digitChars.take b
  eq_zero_of_head : digits.head? = some '0' → digits = ['0']

instance (b : Nat) (digits : List Char) : Decidable (IsPlain b digits) :=
  have : Decidable (∀ c ∈ digits, c ∈ digitChars.take b) := List.decidableBAll _ digits
  decidable_of_iff
    (digits ≠ [] ∧ (∀ c ∈ digits, c ∈ digitChars.take b) ∧
      (digits.head? = some '0' → digits = ['0']))
    ⟨fun ⟨hne, hmem, hzero⟩ => ⟨hne, hmem, hzero⟩,
      fun h => ⟨h.ne_nil, h.mem_digitChars, h.eq_zero_of_head⟩⟩

theorem mem_take_digitChars_iff (hb : IsBase b) :
    c ∈ digitChars.take b ↔ ∃ d < b, c = d.digitChar := by
  have hchars : digitChars = (List.range 16).map Nat.digitChar := by decide
  rw [hchars, ← List.map_take, List.take_range, Nat.min_eq_left hb.2, List.mem_map]
  simp only [List.mem_range, eq_comm]

/-- What is left of plain digits when the last is taken off is plain, unless nothing is left. -/
theorem IsPlain.of_concat (h : IsPlain b (front ++ [c])) (hfront : front ≠ []) :
    IsPlain b front ∧ front.head? ≠ some '0' := by
  have hhead : front.head? ≠ some '0' := by
    intro hzero
    have hall := h.eq_zero_of_head ((List.head?_append_of_ne_nil front hfront).trans hzero)
    have hlength := congrArg List.length hall
    rw [List.length_append, List.length_singleton, List.length_singleton] at hlength
    exact hfront (List.eq_nil_of_length_eq_zero (by omega))
  have hmem : ∀ x ∈ front, x ∈ digitChars.take b :=
    fun x hx => h.mem_digitChars x (List.mem_append_left _ hx)
  exact ⟨⟨hfront, hmem, fun hzero => absurd hzero hhead⟩, hhead⟩

/-- The digits of a number other than zero do not start with a zero. -/
theorem head?_toDigits_ne_zero (hb : IsBase b) (hn : n ≠ 0) :
    (Nat.toDigits b n).head? ≠ some '0' := by
  obtain ⟨hb, hb'⟩ := hb
  induction n using Nat.strongRecOn with
  | ind n ih =>
    rw [Nat.toDigits_eq_if hb]
    split
    case isTrue hlt =>
      have hdigit : ∀ d < 16, d ≠ 0 → d.digitChar ≠ '0' := by decide
      rw [List.head?_cons, Ne, Option.some.injEq]
      exact hdigit n (Nat.lt_of_lt_of_le hlt hb') hn
    case isFalse hlt =>
      have hquotient : n / b ≠ 0 := Nat.div_ne_zero_iff.mpr ⟨by omega, by omega⟩
      rw [List.head?_append_of_ne_nil _ Nat.toDigits_ne_nil]
      exact ih (n / b) (Nat.div_lt_self (by omega) hb) hquotient

theorem isPlain_toDigits (hb : IsBase b) (n : Nat) : IsPlain b (Nat.toDigits b n) where
  ne_nil := Nat.toDigits_ne_nil
  mem_digitChars _ hc := (mem_take_digitChars_iff hb).mpr (exists_digit_of_mem_toDigits hb.1 hc)
  eq_zero_of_head hzero := by
    by_cases hn : n = 0
    · rw [hn, Nat.toDigits_zero]
    · exact absurd hzero (head?_toDigits_ne_zero hb hn)

/-- Plain digits are the digits of the number that they are read as. -/
theorem toDigits_read (hb : IsBase b) (h : IsPlain b digits) :
    Nat.toDigits b (read b digits) = digits := by
  -- Reading goes from the left, so the induction takes the digits off on the right.
  induction digits using List.reverseRecOn with
  | nil => exact absurd rfl h.ne_nil
  | append_singleton front c ih =>
    have hmem := h.mem_digitChars c (List.mem_append_right _ List.mem_cons_self)
    obtain ⟨d, hd, rfl⟩ := (mem_take_digitChars_iff hb).mp hmem
    rw [read_concat, digitValue_digitChar d (Nat.lt_of_lt_of_le hd hb.2)]
    by_cases hfront : front = []
    · rw [hfront, List.nil_append, ← Nat.toDigits_of_lt_base hd]
      simp [read]
    · obtain ⟨hplain, hhead⟩ := h.of_concat hfront
      have hdigits := ih hplain
      have hpos : 0 < read b front := by
        refine Nat.pos_of_ne_zero fun hzero => hhead ?_
        rw [← hdigits, hzero, Nat.toDigits_zero, List.head?_cons]
      rw [← Nat.toDigits_append_toDigits hb.1 hpos hd, hdigits, Nat.toDigits_of_lt_base hd]

/-- The digits of a number are the plain ones that are read as the number. -/
theorem eq_toDigits_iff (hb : IsBase b) :
    digits = Nat.toDigits b n ↔ IsPlain b digits ∧ read b digits = n := by
  constructor
  · rintro rfl
    exact ⟨isPlain_toDigits hb n, read_toDigits hb.1 hb.2 n⟩
  · rintro ⟨hplain, rfl⟩
    exact (toDigits_read hb hplain).symm

/-- The decimal spelling of a natural number is the plain text that is read as the number. -/
theorem eq_decimal_iff : text = decimal n ↔ IsPlain 10 text.toList ∧ read 10 text.toList = n := by
  rw [← String.toList_inj, toList_decimal, eq_toDigits_iff isBase_ten]

/-- A zero in front is not plain, though the number is the same, and neither is a capital letter. -/
example : IsPlain 16 "ff".toList ∧ ¬ IsPlain 16 "0ff".toList ∧ ¬ IsPlain 16 "FF".toList := by decide

/-- Plain digits are read as zero only when they are the digit zero. -/
theorem IsPlain.read_eq_zero_iff (h : IsPlain b digits) (hb : IsBase b) :
    read b digits = 0 ↔ digits = ['0'] := by
  rw [← Nat.toDigits_zero b, eq_toDigits_iff hb, and_iff_right h]

/-! ### Integers -/

/-- The text has plain decimal digits, alone or behind a minus sign. No sign stands before zero. -/
def IsPlainSigned (text : String) : Prop :=
  ∃ digits, IsPlain 10 digits ∧
    (text.toList = digits ∨ text.toList = '-' :: digits ∧ digits ≠ ['0'])

/-- The integer that a text in decimal stands for. -/
def readSigned (text : String) : Int :=
  match text.toList with
  | '-' :: digits => -(read 10 digits)
  | digits => read 10 digits

theorem readSigned_of_minus (h : text.toList = '-' :: digits) :
    readSigned text = -(read 10 digits) := by
  rw [readSigned, h]
  rfl

theorem readSigned_of_isPlain (h : text.toList = digits) (hplain : IsPlain 10 digits) :
    readSigned text = read 10 digits := by
  rw [readSigned, h]
  split
  case h_1 rest =>
    have hminus : '-' ∈ digitChars.take 10 := hplain.mem_digitChars _ List.mem_cons_self
    exact absurd hminus (by decide)
  case h_2 => rfl

theorem toList_signed_of_neg (h : v < 0) :
    (signed v).toList = '-' :: Nat.toDigits 10 v.natAbs := by
  rw [signed_of_neg h, String.toList_append, toList_decimal]
  rfl

theorem toList_signed_of_nonneg (h : 0 ≤ v) :
    (signed v).toList = Nat.toDigits 10 v.natAbs := by
  rw [signed_of_nonneg h, toList_decimal]

theorem isPlainSigned_signed (v : Int) : IsPlainSigned (signed v) := by
  obtain ⟨hplain, hread⟩ := (eq_toDigits_iff isBase_ten).mp (rfl : _ = Nat.toDigits 10 v.natAbs)
  refine ⟨_, hplain, ?_⟩
  rcases Int.lt_or_le v 0 with hv | hv
  · refine .inr ⟨toList_signed_of_neg hv, ?_⟩
    rw [Ne, ← hplain.read_eq_zero_iff isBase_ten, hread]
    omega
  · exact .inl (toList_signed_of_nonneg hv)

theorem readSigned_signed (v : Int) : readSigned (signed v) = v := by
  obtain ⟨hplain, hread⟩ := (eq_toDigits_iff isBase_ten).mp (rfl : _ = Nat.toDigits 10 v.natAbs)
  rcases Int.lt_or_le v 0 with hv | hv
  · rw [readSigned_of_minus (toList_signed_of_neg hv), hread]
    omega
  · rw [readSigned_of_isPlain (toList_signed_of_nonneg hv) hplain, hread]
    omega

/-- A plain text is the spelling of the integer that it is read as. -/
theorem signed_readSigned (h : IsPlainSigned text) : signed (readSigned text) = text := by
  obtain ⟨digits, hplain, hlist | ⟨hlist, hzero⟩⟩ := h
  · apply String.toList_injective
    rw [readSigned_of_isPlain hlist hplain, toList_signed_of_nonneg (Int.natCast_nonneg _),
      Int.natAbs_natCast, toDigits_read isBase_ten hplain, hlist]
  · have hpos : 0 < read 10 digits :=
      Nat.pos_of_ne_zero (mt (hplain.read_eq_zero_iff isBase_ten).mp hzero)
    apply String.toList_injective
    rw [readSigned_of_minus hlist, toList_signed_of_neg (by omega), Int.natAbs_neg,
      Int.natAbs_natCast, toDigits_read isBase_ten hplain, hlist]

/-- The spelling of an integer is the plain text that is read as the integer. -/
theorem eq_signed_iff : text = signed v ↔ IsPlainSigned text ∧ readSigned text = v := by
  constructor
  · rintro rfl
    exact ⟨isPlainSigned_signed v, readSigned_signed v⟩
  · rintro ⟨hplain, rfl⟩
    exact (signed_readSigned hplain).symm

/-! ### Hexadecimal -/

/-- The text has plain hexadecimal digits behind the mark `0x`. -/
def IsPlainHexadecimal (text : String) : Prop :=
  ∃ digits, IsPlain 16 digits ∧ text.toList = '0' :: 'x' :: digits

/-- The number that a text in hexadecimal stands for, the two characters of the mark left out. -/
def readHexadecimal (text : String) : Nat := read 16 (text.toList.drop 2)

/-- The hexadecimal spelling of a number is the plain text that is read as the number. -/
theorem eq_hexadecimal_iff :
    text = hexadecimal n ↔ IsPlainHexadecimal text ∧ readHexadecimal text = n := by
  rw [← String.toList_inj, toList_hexadecimal]
  constructor
  · intro hlist
    obtain ⟨hplain, hread⟩ := (eq_toDigits_iff isBase_sixteen).mp rfl
    refine ⟨⟨_, hplain, hlist⟩, ?_⟩
    rw [readHexadecimal, hlist]
    exact hread
  · rintro ⟨⟨digits, hplain, hlist⟩, hread⟩
    rw [readHexadecimal, hlist] at hread
    rw [hlist, (eq_toDigits_iff isBase_sixteen).mpr ⟨hplain, hread⟩]

end Numeral

namespace Immediate

/-- The text is the plain one that is read as the number, in decimal for a signed number and in
hexadecimal for a field of bits. -/
def IsSpelled : Immediate → String → Prop
  | signed v, text => Numeral.IsPlainSigned text ∧ Numeral.readSigned text = v.toInt
  | unsigned v, text => Numeral.IsPlainHexadecimal text ∧ Numeral.readHexadecimal text = v.toNat

theorem eq_text_iff {v : Immediate} {text : String} : text = v.text ↔ v.IsSpelled text := by
  cases v with
  | signed v => exact Numeral.eq_signed_iff
  | unsigned v => exact Numeral.eq_hexadecimal_iff

/-- A signed number is printed as the one plain decimal text that is read as it, down to the least
number of its type, and so is the displacement of a load or store, between the separator and the
parenthesis. A field of bits is printed as the one plain hexadecimal text that is read as it.
Therefore the text of an immediate operand tells both the notation and the number. -/
theorem text_is_canonical :
    (∀ (v : Int32) (text : String),
      text = (signed v).text ↔
        Numeral.IsPlainSigned text ∧ Numeral.readSigned text = v.toInt) ∧
    (∀ (m : String) (data base : RegisterRef) (d : Int32) (pc : Address)
        (symbols : Option SymbolTable),
      ((Instruction.memory m data base d).disassemble pc symbols).value =
        Mnemonic.pad m ++ (Layout.power.classify.name data).value ++ ", " ++ (signed d).text ++
          "(" ++ (Layout.power.classify.name base).value ++ ")") ∧
    (∀ (v : UInt32) (text : String),
      text = (unsigned v).text ↔
        Numeral.IsPlainHexadecimal text ∧ Numeral.readHexadecimal text = v.toNat) ∧
    ∀ v w : Immediate, v.text = w.text ↔ v = w := by
  refine ⟨fun v text => ?_, fun m data base d pc symbols => ?_, fun v text => ?_, fun v w => ?_⟩
  · exact eq_text_iff
  · exact Instruction.value_disassemble_memory m data base d pc symbols
  · exact eq_text_iff
  · exact ⟨text_injective, congrArg Immediate.text⟩

/-- The least number of the type has a magnitude of its own, and no bits are one digit. -/
example : (signed Int32.minValue).text = "-2147483648" ∧ (unsigned 0).text = "0x0" ∧
    (unsigned 0xDEADBEEF).text = "0xdeadbeef" := by decide

end Immediate

end PowerDisasm
