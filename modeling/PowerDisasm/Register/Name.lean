import PowerDisasm.Diagnostic
import PowerDisasm.Register.Basic
import PowerDisasm.Sink.Basic

/-!
# The names of registers

A register is written to a sink as the letter of its bank and the index in decimal, or by the name
of its own that a special purpose register has. The other registers of the miscellaneous bank are
all written as one placeholder, and since the text no longer tells them apart the index is reported
first. A name is what is written of a register to a sink without a limit, and a list of operands is
made up of names.

## Main definitions

* `Register.format`: write a register to a sink
* `Register.name`: the name of a register, with the report of a missing one
* `Classifier.name`, `Classifier.appendNames`: the names of references, single and in a list

## Main results

* `Register.name_of_letter?`, `Register.name_of_special`, `Register.name_of_isUnnamed`: the names
* `Register.log_name`: a report is made just for the places without a name
* `Register.format_eq_write_name`: a register is written like the text that is its name
-/

namespace PowerDisasm

namespace Register

/-- What is printed for a register that has no name. -/
def placeholder : String := "unknown_reg"

/-- Write a register to a sink. A letter and the digits behind it are two texts, of which the second
is written only when the first fits. A missing name is reported before the placeholder is written,
whether there is room for it or not. Tells whether everything was written. -/
def format (r : Register) (s : Sink) : Logged (Bool × Sink) :=
  match r.bank with
  | .integer => return s.writeAll ["r", Numeral.decimal r.index.toNat]
  | .float => return s.writeAll ["f", Numeral.decimal r.index.toNat]
  | .misc =>
    match SpecialRegister.ofIndex? r.index with
    | some special => return s.write special.name
    | none => do
      Logged.report (.unnamed r.index)
      return s.write placeholder

/-- The name of a register in assembly text. -/
def name (r : Register) : Logged String := do
  let (_, s) ← r.format (Sink.empty none)
  return s.text

/-! ### How registers are written -/

theorem format_of_letter? {r : Register} {letter : String} (h : r.bank.letter? = some letter)
    (s : Sink) : r.format s = pure (s.write (letter ++ Numeral.decimal r.index.toNat)) := by
  obtain ⟨bank, index⟩ := r
  have hjoin : String.join [letter, Numeral.decimal index.toNat] =
      letter ++ Numeral.decimal index.toNat := by simp
  rw [← hjoin, ← Sink.writeAll_eq_write_join]
  cases bank with
  | integer =>
    cases h
    rfl
  | float =>
    cases h
    rfl
  | misc => cases h

theorem format_of_special {r : Register} {special : SpecialRegister}
    (h : r.special? = some special) (s : Sink) : r.format s = pure (s.write special.name) := by
  obtain ⟨bank, index⟩ := r
  cases bank with
  | misc =>
    have hindex : SpecialRegister.ofIndex? index = some special := h
    simp only [format, hindex]
  | integer => cases h
  | float => cases h

theorem format_of_isUnnamed {r : Register} (h : r.IsUnnamed) (s : Sink) :
    r.format s = ⟨s.write placeholder, [.unnamed r.index]⟩ := by
  obtain ⟨bank, index⟩ := r
  obtain ⟨rfl, hnone⟩ := h
  have hindex : SpecialRegister.ofIndex? index = none := hnone
  simp only [format, hindex]
  rfl

/-- Every register belongs to a bank with a letter, or has a name of its own, or has none. -/
theorem letter_or_special_or_unnamed (r : Register) :
    (∃ letter, r.bank.letter? = some letter) ∨ (∃ special, r.special? = some special) ∨
      r.IsUnnamed := by
  obtain ⟨bank, index⟩ := r
  cases bank with
  | integer => exact .inl ⟨"r", rfl⟩
  | float => exact .inl ⟨"f", rfl⟩
  | misc =>
    cases h : special? ⟨.misc, index⟩ with
    | none => exact .inr (.inr ⟨rfl, h⟩)
    | some special => exact .inr (.inl ⟨special, rfl⟩)

/-! ### The names -/

/-- What is written of a text to a sink without a limit is the text. -/
theorem name_of_format {r : Register} {text : String} {log : List Event}
    (h : r.format (Sink.empty none) = ⟨(Sink.empty none).write text, log⟩) :
    r.name = ⟨text, log⟩ := by
  rw [name, h, Sink.write_empty_none]
  exact Logged.ext rfl (List.append_nil log)

theorem name_of_letter? {r : Register} {letter : String} (h : r.bank.letter? = some letter) :
    r.name = pure (letter ++ Numeral.decimal r.index.toNat) :=
  name_of_format (format_of_letter? h _)

theorem name_of_special {r : Register} {special : SpecialRegister}
    (h : r.special? = some special) : r.name = pure special.name :=
  name_of_format (format_of_special h _)

theorem name_of_isUnnamed {r : Register} (h : r.IsUnnamed) :
    r.name = ⟨placeholder, [.unnamed r.index]⟩ :=
  name_of_format (format_of_isUnnamed h _)

/-- A report is made just for a register without a name, and it tells the index. -/
theorem log_name (r : Register) :
    r.name.log = if r.IsUnnamed then [.unnamed r.index] else [] := by
  rcases r.letter_or_special_or_unnamed with ⟨letter, h⟩ | ⟨special, h⟩ | h
  · have hnamed : ¬ r.IsUnnamed := by
      rintro ⟨hmisc, -⟩
      rw [hmisc] at h
      cases h
    rw [name_of_letter? h, Logged.log_pure, if_neg hnamed]
  · have hnamed : ¬ r.IsUnnamed := by
      rintro ⟨-, hnone⟩
      rw [hnone] at h
      cases h
    rw [name_of_special h, Logged.log_pure, if_neg hnamed]
  · rw [name_of_isUnnamed h, if_pos h]

/-- A register is written to a sink like the text that is its name, and the reports are those of the
name, whether there is room for it or not. -/
theorem format_eq_write_name (r : Register) (s : Sink) : r.format s = s.write <$> r.name := by
  rcases r.letter_or_special_or_unnamed with ⟨letter, h⟩ | ⟨special, h⟩ | h
  · rw [format_of_letter? h, name_of_letter? h, map_pure]
  · rw [format_of_special h, name_of_special h, map_pure]
  · rw [format_of_isUnnamed h, name_of_isUnnamed h]
    exact Logged.ext (by simp) (by simp)

end Register

/-! ### Names of references -/

namespace Classifier

/-- The name of the register that `ref` stands for. -/
def name (classify : Classifier) (ref : RegisterRef) : Logged String := (classify ref).name

/-- What stands between two items of an operand list. -/
def separator : String := ", "

/-- The text `onto`, and behind it the names of `refs` with a separator between each two. The first
name follows `onto` immediately, whatever `onto` ends with. -/
def appendNames (classify : Classifier) (onto : String) : List RegisterRef → Logged String
  | [] => pure onto
  | ref :: refs => do
    let first ← classify.name ref
    refs.foldlM (fun text next => do return text ++ separator ++ (← classify.name next))
      (onto ++ first)

@[simp] theorem appendNames_nil (classify : Classifier) (onto : String) :
    classify.appendNames onto [] = pure onto := rfl

theorem appendNames_singleton (classify : Classifier) (onto : String) (ref : RegisterRef) :
    classify.appendNames onto [ref] = do return onto ++ (← classify.name ref) := rfl

end Classifier

end PowerDisasm
