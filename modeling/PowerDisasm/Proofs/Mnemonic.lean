import Mathlib.Data.List.DropRight
import PowerDisasm.Proofs.Delimited

/-!
# The padding of a mnemonic

Padding adds spaces at the end of a mnemonic, as many as the column still has room for and one
more. Within the column, spaces that a mnemonic ends with are not told from the padding. A mnemonic
that is wider than the column has one space added whatever it ends with, so it is read back whole.

## Main results

* `Mnemonic.trimmed_pad`, `Mnemonic.pad_trimmed`: padding and trimming undo each other
* `Mnemonic.eq_of_pad_append_eq`: a mnemonic without spaces ends at the first space of a line
* `Mnemonic.padding_is_exact`: the padding of every mnemonic, and which mnemonics are padded alike
-/

namespace PowerDisasm

namespace Mnemonic

/-- A text without the spaces at its end. Other blank characters are not taken off. -/
def trimmed (text : String) : String := String.ofList (text.toList.rdropWhile (· = ' '))

/-! ### How many spaces are added -/

/-- The width is a number of characters, so the spaces are as many as the characters that the
mnemonic lacks, and one more. -/
theorem toList_pad_eq_append_replicate (mnemonic : String) :
    (pad mnemonic).toList =
      mnemonic.toList ++ List.replicate (width - mnemonic.length + 1) ' ' := by
  rw [toList_pad, List.append_assoc, ← List.replicate_succ']

/-- Behind the mnemonic there is at least one space. -/
theorem toList_pad_eq_cons (mnemonic : String) :
    (pad mnemonic).toList =
      mnemonic.toList ++ ' ' :: List.replicate (width - mnemonic.length) ' ' := by
  rw [toList_pad_eq_append_replicate, List.replicate_succ]

/-- The same in integers, in which the difference is negative for a mnemonic far wider than the
column. -/
theorem pad_eq_append (mnemonic : String) :
    pad mnemonic = mnemonic ++
      String.ofList (List.replicate (max 1 (11 - (mnemonic.length : Int))).toNat ' ') := by
  have hcount : (max 1 (11 - (mnemonic.length : Int))).toNat = width - mnemonic.length + 1 := by
    have hwidth : width = 10 := rfl
    omega
  apply String.toList_injective
  rw [toList_pad_eq_append_replicate, hcount, String.toList_append, String.toList_ofList]

/-- A mnemonic that fills the column has one space added. -/
theorem toList_pad_of_width_le {mnemonic : String} (h : width ≤ mnemonic.length) :
    (pad mnemonic).toList = mnemonic.toList ++ [' '] := by
  rw [toList_pad_eq_append_replicate, Nat.sub_eq_zero_of_le h]
  rfl

/-- A mnemonic without spaces ends at the first space of the line. -/
theorem eq_of_pad_append_eq {m n s t : String} (hm : ' ' ∉ m.toList) (hn : ' ' ∉ n.toList)
    (h : pad m ++ s = pad n ++ t) : m = n ∧ s = t := by
  have hlist := congrArg String.toList h
  rw [String.toList_append, String.toList_append, toList_pad_eq_cons, toList_pad_eq_cons,
    List.append_assoc, List.append_assoc] at hlist
  have hmn := String.toList_injective (Delimited.split_first hm hn hlist).1
  subst hmn
  exact ⟨rfl, (String.append_right_inj _).mp h⟩

/-! ### Spaces at the end -/

theorem toList_trimmed (text : String) :
    (trimmed text).toList = text.toList.rdropWhile (· = ' ') := String.toList_ofList

/-- What is taken off are spaces. -/
theorem exists_toList_eq_trimmed_append (text : String) :
    ∃ k, text.toList = (trimmed text).toList ++ List.replicate k ' ' := by
  have hspaces : ∀ c ∈ text.toList.rtakeWhile (· = ' '), c = ' ' := by
    intro c hc
    simpa using List.mem_rtakeWhile_imp hc
  refine ⟨(text.toList.rtakeWhile (· = ' ')).length, ?_⟩
  rw [toList_trimmed, ← List.eq_replicate_iff.mpr ⟨rfl, hspaces⟩,
    List.rdropWhile_append_rtakeWhile]

/-- Spaces added at the end are taken off again. -/
theorem rdropWhile_append_replicate (l : List Char) (k : Nat) :
    (l ++ List.replicate k ' ').rdropWhile (· = ' ') = l.rdropWhile (· = ' ') := by
  induction k with
  | zero => rw [List.replicate_zero, List.append_nil]
  | succ k ih =>
    rw [List.replicate_succ', ← List.append_assoc, List.rdropWhile_concat]
    simpa using ih

/-- Padding does not change what stands in front of the spaces at the end. -/
theorem trimmed_pad (mnemonic : String) : trimmed (pad mnemonic) = trimmed mnemonic := by
  apply String.toList_injective
  rw [toList_trimmed, toList_trimmed, toList_pad_eq_append_replicate, rdropWhile_append_replicate]

/-- Within the column, spaces at the end of a mnemonic take the place of padding. -/
theorem pad_trimmed {mnemonic : String} (h : mnemonic.length ≤ width) :
    pad (trimmed mnemonic) = pad mnemonic := by
  obtain ⟨k, hk⟩ := exists_toList_eq_trimmed_append mnemonic
  have hlength : mnemonic.length = (trimmed mnemonic).length + k := by
    have := congrArg List.length hk
    rwa [List.length_append, List.length_replicate, String.length_toList,
      String.length_toList] at this
  have hspaces : width - (trimmed mnemonic).length + 1 = k + (width - mnemonic.length + 1) := by
    omega
  apply String.toList_injective
  rw [toList_pad_eq_append_replicate, toList_pad_eq_append_replicate, hspaces,
    ← List.replicate_append_replicate, ← List.append_assoc, ← hk]

/-! ### Mnemonics that are padded alike -/

/-- Mnemonics that are padded alike fit into the column together, or are equally long. -/
theorem length_of_pad_eq {a b : String} (h : pad a = pad b) :
    max a.length width = max b.length width := by
  have hlength := congrArg String.length h
  rw [length_pad, length_pad] at hlength
  exact Nat.succ.inj hlength

/-- A mnemonic wider than the column is padded like no other. -/
theorem eq_of_pad_eq {a b : String} (h : pad a = pad b) (ha : width < a.length) : a = b := by
  have hlength := length_of_pad_eq h
  have hb : width ≤ b.length := by omega
  have hlist := congrArg String.toList h
  rw [toList_pad_of_width_le (Nat.le_of_lt ha), toList_pad_of_width_le hb] at hlist
  exact String.toList_injective (List.append_cancel_right hlist)

theorem pad_eq_pad_iff {a b : String} :
    pad a = pad b ↔
      a = b ∨ a.length ≤ width ∧ b.length ≤ width ∧ trimmed a = trimmed b := by
  constructor
  · intro h
    have hlength := length_of_pad_eq h
    rcases Nat.lt_or_ge width a.length with ha | ha
    · exact .inl (eq_of_pad_eq h ha)
    · have htrimmed := congrArg trimmed h
      rw [trimmed_pad, trimmed_pad] at htrimmed
      exact .inr ⟨ha, by omega, htrimmed⟩
  · rintro (rfl | ⟨ha, hb, htrimmed⟩)
    · rfl
    · calc
        pad a = pad (trimmed a) := (pad_trimmed ha).symm
        _ = pad (trimmed b) := by rw [htrimmed]
        _ = pad b := pad_trimmed hb

/-- Padding adds one space to a mnemonic for each character that it has less than eleven, and always
at least one, so that it comes to one character more than the wider of the mnemonic and the column,
however many bytes these characters are stored in. Two mnemonics are padded alike just when they are
the same, or neither is wider than the column and they are the same up to spaces at the end. -/
theorem padding_is_exact :
    (∀ m : String,
      pad m = m ++ String.ofList (List.replicate (max 1 (11 - (m.length : Int))).toNat ' ') ∧
      (pad m).length = max m.length 10 + 1) ∧
    ∀ a b : String, pad a = pad b ↔
      a = b ∨ a.length ≤ 10 ∧ b.length ≤ 10 ∧ trimmed a = trimmed b :=
  ⟨fun m => ⟨pad_eq_append m, length_pad m⟩, fun _ _ => pad_eq_pad_iff⟩

/-- A space at the end is told from the padding only as the eleventh character, and for an empty
mnemonic the whole column is padding. -/
example : pad "fnmaddsxx" = pad "fnmaddsxx " ∧ pad "fnmaddsxxx" ≠ pad "fnmaddsxxx " ∧
    pad "" = "           " := by decide

end Mnemonic

end PowerDisasm
