import PowerDisasm.Proofs.Delimited

/-!
# Reading numerals back

A numeral in a base up to sixteen is read by taking its digits from the left, each one added to the
base times what was read before. Reading undoes the spelling, so numbers that are spelled alike are
equal. No decimal numeral has the letter of the mark `0x` in it, so the two notations never meet.

## Main results

* `Numeral.read_toDigits`: reading gives back the number that was spelled
* `Numeral.hexadecimal_injective`, `Numeral.signed_injective`: different numbers are spelled
  differently
* `Numeral.signed_ne_hexadecimal`: no number is spelled alike in the two notations
-/

namespace PowerDisasm

namespace Numeral

/-- The value of a digit, decimal or one of the letters from `a` on. -/
def digitValue (c : Char) : Nat := if c.isDigit then c.toNat - 48 else c.toNat - 87

/-- The number that digits in base `b` stand for. -/
def read (b : Nat) (digits : List Char) : Nat :=
  digits.foldl (fun n c => b * n + digitValue c) 0

theorem digitValue_digitChar : ∀ d < 16, digitValue d.digitChar = d := by decide

theorem isAlphanum_digitChar : ∀ d < 16, d.digitChar.isAlphanum = true := by decide

theorem not_isAlpha_digitChar : ∀ d < 10, d.digitChar.isAlpha = false := by decide

theorem read_concat (b : Nat) (digits : List Char) (c : Char) :
    read b (digits ++ [c]) = b * read b digits + digitValue c := by
  simp [read, List.foldl_append]

/-- Reading the digits of a number gives the number back. -/
theorem read_toDigits {b : Nat} (hb : 1 < b) (hb' : b ≤ 16) (n : Nat) :
    read b (Nat.toDigits b n) = n := by
  induction n using Nat.strongRecOn with
  | ind n ih =>
    rw [Nat.toDigits_eq_if hb]
    split
    case isTrue h => simpa [read] using digitValue_digitChar n (by omega)
    case isFalse h =>
      have hmod : n % b < 16 := Nat.lt_of_lt_of_le (Nat.mod_lt n (by omega)) hb'
      rw [read_concat, ih (n / b) (Nat.div_lt_self (by omega) hb), digitValue_digitChar _ hmod]
      exact Nat.div_add_mod n b

theorem toDigits_injective {b : Nat} (hb : 1 < b) (hb' : b ≤ 16) {m n : Nat}
    (h : Nat.toDigits b m = Nat.toDigits b n) : m = n := by
  rw [← read_toDigits hb hb' m, h, read_toDigits hb hb']

theorem hexadecimal_injective {m n : Nat} (h : hexadecimal m = hexadecimal n) : m = n := by
  have hlist := congrArg String.toList h
  simp only [toList_hexadecimal, List.cons.injEq, true_and] at hlist
  exact toDigits_injective (by omega) (by omega) hlist

/-! ### The characters of a numeral -/

theorem exists_digit_of_mem_toDigits {b : Nat} (hb : 1 < b) {n : Nat} {c : Char}
    (h : c ∈ Nat.toDigits b n) : ∃ d < b, c = d.digitChar := by
  induction n using Nat.strongRecOn with
  | ind n ih =>
    rw [Nat.toDigits_eq_if hb] at h
    split at h
    case isTrue hn => exact ⟨n, hn, List.mem_singleton.mp h⟩
    case isFalse hn =>
      rcases List.mem_append.mp h with h | h
      · exact ih (n / b) (Nat.div_lt_self (by omega) hb) h
      · exact ⟨n % b, Nat.mod_lt n (by omega), List.mem_singleton.mp h⟩

theorem isWordChar_of_mem_toDigits {b : Nat} (hb : 1 < b) (hb' : b ≤ 16) {n : Nat} {c : Char}
    (h : c ∈ Nat.toDigits b n) : IsWordChar c := by
  obtain ⟨d, hd, rfl⟩ := exists_digit_of_mem_toDigits hb h
  exact .inl (isAlphanum_digitChar d (Nat.lt_of_lt_of_le hd hb'))

theorem isWord_decimal (n : Nat) : IsWord (decimal n) := by
  refine ⟨decimal_ne_empty n, fun c hc => ?_⟩
  rw [toList_decimal] at hc
  exact isWordChar_of_mem_toDigits (by omega) (by omega) hc

theorem isWord_hexadecimal (n : Nat) : IsWord (hexadecimal n) := by
  refine ⟨ne_empty_of_mem (c := 'x') (by simp), fun c hc => ?_⟩
  rw [toList_hexadecimal, List.mem_cons, List.mem_cons] at hc
  rcases hc with rfl | rfl | hc
  · decide
  · decide
  · exact isWordChar_of_mem_toDigits (by omega) (by omega) hc

/-- A number in decimal notation starts with a digit. -/
theorem toList_decimal_eq_cons (n : Nat) :
    ∃ d < 10, ∃ rest, (decimal n).toList = d.digitChar :: rest := by
  rw [toList_decimal]
  cases hdigits : Nat.toDigits 10 n with
  | nil => exact absurd hdigits Nat.toDigits_ne_nil
  | cons c rest =>
    have hmem : c ∈ Nat.toDigits 10 n := by
      rw [hdigits]
      exact List.mem_cons_self
    obtain ⟨d, hd, rfl⟩ := exists_digit_of_mem_toDigits (by omega) hmem
    exact ⟨d, hd, rest, rfl⟩

theorem not_startsWithLetter_decimal (n : Nat) : ¬ StartsWithLetter (decimal n) := by
  obtain ⟨d, hd, rest, hlist⟩ := toList_decimal_eq_cons n
  simp [StartsWithLetter, hlist, not_isAlpha_digitChar d hd]

theorem decimal_ne_minus_append (n : Nat) (s : String) : decimal n ≠ "-" ++ s := by
  obtain ⟨d, hd, rest, hlist⟩ := toList_decimal_eq_cons n
  intro h
  have hminus := congrArg String.toList h
  rw [hlist, String.toList_append] at hminus
  have hhead : d.digitChar = '-' := (List.cons.inj hminus).1
  have hdigit : ∀ d < 10, d.digitChar ≠ '-' := by decide
  exact hdigit d hd hhead

/-! ### Signed numbers -/

/-- Different integers have different signed numerals. -/
theorem signed_injective {v w : Int} (h : signed v = signed w) : v = w := by
  -- Where the signs differ, one numeral begins with the minus sign and the other with a digit.
  rcases Int.lt_or_le v 0 with hv | hv <;> rcases Int.lt_or_le w 0 with hw | hw
  · rw [signed_of_neg hv, signed_of_neg hw, String.append_right_inj] at h
    have := decimal_injective h
    omega
  · rw [signed_of_neg hv, signed_of_nonneg hw] at h
    exact absurd h.symm (decimal_ne_minus_append _ _)
  · rw [signed_of_nonneg hv, signed_of_neg hw] at h
    exact absurd h (decimal_ne_minus_append _ _)
  · rw [signed_of_nonneg hv, signed_of_nonneg hw] at h
    have := decimal_injective h
    omega

theorem eq_minus_or_isDigit_of_mem_signed {v : Int} {c : Char} (h : c ∈ (signed v).toList) :
    c = '-' ∨ c.isDigit = true := by
  rcases Int.lt_or_le v 0 with hv | hv
  · rw [signed_of_neg hv, String.toList_append, List.mem_append] at h
    rcases h with h | h
    · exact .inl (by simpa using h)
    · exact .inr (isDigit_of_mem_decimal h)
  · rw [signed_of_nonneg hv] at h
    exact .inr (isDigit_of_mem_decimal h)

theorem isWord_signed (v : Int) : IsWord (signed v) := by
  rcases Int.lt_or_le v 0 with hv | hv
  · constructor
    · simp [signed_of_neg hv]
    · intro c hc
      rcases eq_minus_or_isDigit_of_mem_signed hc with rfl | hdigit
      · decide
      · exact .inl (by simp [Char.isAlphanum, hdigit])
  · rw [signed_of_nonneg hv]
    exact isWord_decimal _

theorem not_startsWithLetter_signed (v : Int) : ¬ StartsWithLetter (signed v) := by
  rcases Int.lt_or_le v 0 with hv | hv
  · simp [StartsWithLetter, signed_of_neg hv]
  · rw [signed_of_nonneg hv]
    exact not_startsWithLetter_decimal _

theorem signed_ne_hexadecimal (v : Int) (n : Nat) : signed v ≠ hexadecimal n := by
  intro h
  have hx : 'x' ∈ (signed v).toList := by simp [h]
  have hnot : ¬ ('x' = '-' ∨ 'x'.isDigit = true) := by decide
  exact hnot (eq_minus_or_isDigit_of_mem_signed hx)

end Numeral

end PowerDisasm
