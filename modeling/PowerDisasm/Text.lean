/-!
# Numerals and the mnemonic column

Numbers are spelled in decimal, with a minus sign in front of the negative ones, or in hexadecimal
behind a leading `0x`. A mnemonic is left-justified in a column whose width counts characters and
not bytes, and one more space follows it whether it fits the column or not.

## Main definitions

* `Numeral.decimal`, `Numeral.hexadecimal`, `Numeral.signed`: the spellings of a number
* `Mnemonic.pad`: a mnemonic padded to the column, with the space that ends it
-/

namespace PowerDisasm

namespace Numeral

/-- The decimal digits of `n`, the most significant one first; zero is the single digit `0`. -/
def decimal (n : Nat) : String := String.ofList (Nat.toDigits 10 n)

/-- The mark `0x` and the hexadecimal digits of `n`, the letters in lower case. -/
def hexadecimal (n : Nat) : String := "0x" ++ String.ofList (Nat.toDigits 16 n)

/-- The decimal digits of the magnitude of `v`, after a minus sign when `v` is negative. The
magnitude is a natural number, so the least value of a fixed-width type needs no care. -/
def signed (v : Int) : String :=
  if v < 0 then "-" ++ decimal v.natAbs else decimal v.natAbs

@[simp] theorem toList_decimal (n : Nat) : (decimal n).toList = Nat.toDigits 10 n := by
  simp [decimal]

@[simp] theorem toList_hexadecimal (n : Nat) :
    (hexadecimal n).toList = '0' :: 'x' :: Nat.toDigits 16 n := by
  simp [hexadecimal]

theorem signed_of_nonneg {v : Int} (h : 0 ≤ v) : signed v = decimal v.natAbs := by
  simp [signed, Int.not_lt.mpr h]

theorem signed_of_neg {v : Int} (h : v < 0) : signed v = "-" ++ decimal v.natAbs := by
  simp [signed, h]

/-- Reading the decimal digits of a number gives the number back. -/
theorem value_toDigits_ten (n : Nat) : Nat.ofDigitChars 10 (decimal n).toList 0 = n := by
  simp

theorem decimal_ne_empty (n : Nat) : decimal n ≠ "" := by
  intro h
  have : Nat.toDigits 10 n = [] := by simpa using congrArg String.toList h
  exact Nat.toDigits_ne_nil this

theorem isDigit_of_mem_decimal {n : Nat} {c : Char} (h : c ∈ (decimal n).toList) :
    c.isDigit = true :=
  Nat.isDigit_of_mem_toDigits (b := 10) (by decide) (by decide) (by simpa using h)

theorem decimal_injective {m n : Nat} (h : decimal m = decimal n) : m = n := by
  rw [← value_toDigits_ten m, h, value_toDigits_ten]

end Numeral

namespace Mnemonic

/-- The least number of characters a mnemonic takes up in a line. -/
def width : Nat := 10

/-- The mnemonic followed by spaces up to the width of the column, and one space more. A mnemonic
wider than the column is kept whole. -/
def pad (mnemonic : String) : String :=
  String.ofList (mnemonic.toList.rightpad width ' ' ++ [' '])

theorem toList_pad (mnemonic : String) :
    (pad mnemonic).toList =
      mnemonic.toList ++ List.replicate (width - mnemonic.length) ' ' ++ [' '] := by
  simp [pad, List.rightpad, String.length_toList]

/-- A padded mnemonic is one character longer than the wider of the name and the column. -/
theorem length_pad (mnemonic : String) :
    (pad mnemonic).length = max mnemonic.length width + 1 := by
  rw [← String.length_toList, pad, String.toList_ofList, List.length_append, List.length_rightpad,
    String.length_toList, Nat.max_comm, List.length_singleton]

end Mnemonic

end PowerDisasm
