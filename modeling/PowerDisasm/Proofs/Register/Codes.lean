import PowerDisasm.Proofs.Register.Names

/-!
# Special purpose registers looked up

A code may stand in a word of any width, and an index of the miscellaneous bank is read as such a
word. Both the special register at a place of the bank and the name that is printed for the place
look up the index. The table of names is read by position, and a register has the name that stands
at its code. These ways agree: what is found belongs to the whole number and not to its lowest
bits, and where the number is no code the word is given back as it came, the table is said to be
too short, and the placeholder is printed.

## Main results

* `SpecialRegister.ofWord_eq_error_iff`: the words that are given back
* `SpecialRegister.forall_ofWord_toWord_iff`: the widths in which every code can be written
* `Register.special?_eq_some_iff`, `Register.text_eq_name_iff`: the registers of the bank, and how
  they are printed
* `SpecialRegister.look_ups_agree`: all the look-ups together
-/

namespace PowerDisasm

namespace SpecialRegister

variable {w : Nat} {v u : BitVec w} {i : UInt64} {s : SpecialRegister}

/-- A word is given back when it is no code, and then it is given back as it came. -/
theorem ofWord_eq_error_iff :
    ofWord v = .error u ↔ u = v ∧ ∀ s : SpecialRegister, v.toNat ≠ s.code.toNat := by
  constructor
  · intro h
    refine ⟨ofWord_eq_error h, fun s hs => ?_⟩
    rw [ofWord_eq_ok_iff.mpr hs] at h
    cases h
  · rintro ⟨rfl, hnone⟩
    cases hresult : ofWord u with
    | ok s => exact absurd (ofWord_eq_ok_iff.mp hresult) (hnone s)
    | error u' => rw [ofWord_eq_error hresult]

/-! ### Codes written as words -/

theorem toNat_toWord (h : 2 ≤ w) (s : SpecialRegister) : (s.toWord w).toNat = s.code.toNat := by
  have hroom : 2 ^ 2 ≤ 2 ^ w := Nat.pow_le_pow_right (by decide) h
  have hcode : s.code.toNat < 4 := s.code_lt_length_names
  rw [toWord, BitVec.toNat_ofNat, Nat.mod_eq_of_lt (by omega)]

/-- Registers are found again by their codes just when the word has the two bits that the highest
code takes. -/
theorem forall_ofWord_toWord_iff : (∀ s, ofWord (toWord w s) = .ok s) ↔ 2 ≤ w := by
  constructor
  · intro h
    have hhighest : (toWord w .ctr).toNat = 3 := ofWord_eq_ok_iff.mp (h .ctr)
    have hbound := (toWord w .ctr).isLt
    by_contra hnarrow
    have hroom : 2 ^ w ≤ 2 ^ 1 := Nat.pow_le_pow_right (by decide) (by omega)
    omega
  · intro h s
    exact ofWord_eq_ok_iff.mpr (toNat_toWord h s)

/-! ### The table of names -/

/-- At the position of a code stands the name of its register. -/
theorem nameAt_of_ofWord_eq_ok (h : ofWord i.toBitVec = .ok s) : nameAt i = .ok s.name := by
  have hvalue : i.toNat = s.code.toNat := ofWord_eq_ok_iff.mp h
  have hposition : i = s.code.toUInt64 := UInt64.toNat_inj.mp (by simpa using hvalue)
  rw [hposition, nameAt_code]

/-- Any other position lies behind the end of the table. -/
theorem nameAt_of_ofWord_eq_error {e : BitVec 64} (h : ofWord i.toBitVec = .error e) :
    nameAt i = .error ⟨count, i.toNat⟩ := by
  obtain ⟨-, hnone⟩ := ofWord_eq_error_iff.mp h
  have hbehind : ¬ i.toNat < 4 := by
    rw [← exists_code_eq_iff]
    rintro ⟨s, hs⟩
    exact hnone s hs
  have hmissing : names[i.toNat]? = none := List.getElem?_eq_none (Nat.not_lt.mp hbehind)
  rw [nameAt, hmissing]
  rfl

end SpecialRegister

/-! ### Places in the bank -/

namespace Register

variable {r : Register} {s : SpecialRegister}

/-- A register is a special one when its index is a code and its bank is the miscellaneous one. -/
theorem special?_eq_some_iff :
    r.special? = some s ↔ r.bank = .misc ∧ r.index.toNat = s.code.toNat := by
  obtain ⟨bank, i⟩ := r
  cases bank with
  | misc =>
    rw [and_iff_right rfl]
    exact SpecialRegister.ofIndex?_eq_some_iff
  | integer => simp [special?]
  | float => simp [special?]

/-- The name of a special register is printed for that register only. -/
theorem text_eq_name_iff : r.text = s.name ↔ r.special? = some s := by
  constructor
  · intro h
    rw [← text_code, text_eq_text_iff] at h
    rcases h with rfl | ⟨-, -, hle⟩
    · exact special?_eq_some_iff.mpr ⟨rfl, by simp⟩
    · have hcode : s.code.toNat < 4 := s.code_lt_length_names
      have hbehind : 4 ≤ s.code.toNat := by simpa [UInt16.le_iff_toNat_le] using hle
      omega
  · exact text_of_special

end Register

namespace SpecialRegister

/-- The four special purpose registers have the codes 0 to 3. A word of any width is read as a
register just when its value is the code of that register, and every other word is given back as it
came; from two bits on, every register is read back from its own code. An index of the
miscellaneous bank is read as any other word. The table of names gives at a position the name of
the register that the position is read as, and where it is read as none the look-up fails with the
length of the table and the position. A register of a bank is special just when it lies in the
miscellaneous bank and its index is the code. It is printed by the name of a special register just
when it is that register, and as the placeholder just when it lies in the miscellaneous bank and is
no special register. -/
theorem look_ups_agree :
    all.map (fun s => (s.code.toNat, s.name)) = [(0, "cr"), (1, "xer"), (2, "lr"), (3, "ctr")] ∧
    (∀ (w : Nat) (v : BitVec w),
      (∀ s, ofWord v = .ok s ↔ v.toNat = s.code.toNat) ∧
      ∀ u, ofWord v = .error u ↔ u = v ∧ ∀ s : SpecialRegister, v.toNat ≠ s.code.toNat) ∧
    (∀ w, (∀ s, ofWord (toWord w s) = .ok s) ↔ 2 ≤ w) ∧
    (∀ (i : UInt16) (s : SpecialRegister), ofIndex? i = some s ↔ ofWord i.toBitVec = .ok s) ∧
    (∀ i : UInt64,
      match ofWord i.toBitVec with
      | .ok s => nameAt i = .ok s.name
      | .error _ => nameAt i = .error ⟨4, i.toNat⟩) ∧
    ∀ r : Register,
      (∀ s, r.special? = some s ↔ r.bank = .misc ∧ r.index.toNat = s.code.toNat) ∧
      (∀ s, r.name.value = s.name ↔ r.special? = some s) ∧
      (r.name.value = Register.placeholder ↔ r.bank = .misc ∧ r.special? = none) := by
  refine ⟨rfl, fun w v => ⟨fun s => ofWord_eq_ok_iff, fun u => ofWord_eq_error_iff⟩,
    fun w => forall_ofWord_toWord_iff, fun i s => ?_, fun i => ?_, fun r =>
      ⟨fun s => Register.special?_eq_some_iff, fun s => Register.text_eq_name_iff,
        Register.text_eq_placeholder_iff⟩⟩
  · rw [ofIndex?_eq_some_iff, ofWord_eq_ok_iff, UInt16.toNat_toBitVec]
  · cases hresult : ofWord i.toBitVec with
    | ok s => exact nameAt_of_ofWord_eq_ok hresult
    | error e => exact nameAt_of_ofWord_eq_error hresult

/-- Words whose lowest byte is a code are not mistaken for it. -/
example : ofWord (258 : BitVec 32) = .error 258 ∧
    ofWord (2 ^ 32 + 2 : BitVec 64) = .error (2 ^ 32 + 2) := by decide

end SpecialRegister

end PowerDisasm
