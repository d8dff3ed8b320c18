import PowerDisasm.Proofs.Layout.Banks
import PowerDisasm.Proofs.Spelling

/-!
# What is reported about an instruction

Disassembly reports one event for the instruction and one for every operand shown that has no name.
Which operands these are can be told from their numbers: the names end four numbers behind the start
of the miscellaneous bank. That place may lie past the end of the row, so it is calculated as a
natural number, which does not wrap around.

## Main definitions

* `Instruction.unnamedOperands`: the operands shown that have no name
* `Instruction.announcement`, `Instruction.notices`: the records of a disassembly

## Main results

* `Layout.isUnnamed_classify_iff`: which numbers stand for registers without a name
* `Instruction.log_disassemble_eq`, `Instruction.records_disassemble`: the events of a disassembly,
  and its records
* `Event.eq_message_disassembling_iff`, `Event.eq_message_unnamed_iff`: how events read
* `Instruction.disassembly_reports_exactly`: the reports of one instruction and of many, and what
  they depend on
-/

namespace PowerDisasm

namespace Layout

variable {l : Layout} {ref : RegisterRef}

/-- From four behind the start of the miscellaneous bank on, registers have no name. -/
theorem isUnnamed_classify_iff :
    (l.classify ref).IsUnnamed ↔ l.miscStart.toNat + 4 ≤ ref.number.toNat := by
  obtain ⟨hplace, hstop⟩ := l.holds_classify ref
  have horder := l.toNat_floatStart_le
  have hfour : (4 : UInt16).toNat = 4 := rfl
  rw [Register.isUnnamed_iff, UInt16.le_iff_toNat_le, hfour]
  cases hbank : (l.classify ref).bank with
  | integer =>
    rw [hbank, stop] at hstop
    simp only [reduceCtorEq, false_and, false_iff]
    omega
  | float =>
    rw [hbank, stop] at hstop
    simp only [reduceCtorEq, false_and, false_iff]
    omega
  | misc =>
    rw [hbank, start] at hplace
    simp only [true_and]
    omega

/-- The index of such a register is the distance from the start of the bank. -/
theorem toNat_index_of_isUnnamed (h : (l.classify ref).IsUnnamed) :
    (l.classify ref).index.toNat = ref.number.toNat - l.miscStart.toNat := by
  obtain ⟨hplace, -⟩ := l.holds_classify ref
  rw [h.1, start] at hplace
  omega

theorem index_of_isUnnamed (h : (l.classify ref).IsUnnamed) :
    (l.classify ref).index = ref.number - l.miscStart := by
  have hstart : l.miscStart ≤ ref.number :=
    UInt16.le_iff_toNat_le.mpr (by have := isUnnamed_classify_iff.mp h; omega)
  apply UInt16.toNat_inj.mp
  rw [toNat_index_of_isUnnamed h, UInt16.toNat_sub_of_le _ _ hstart]

end Layout

namespace Event

/-! ### How events read -/

variable {mnemonic text : String} {pc : UInt64} {index : UInt16}

/-- The line about an instruction ends in the plain hexadecimal text of its address. -/
theorem eq_message_disassembling_iff :
    text = (disassembling mnemonic pc).message ↔
      ∃ address, text = "disassembling " ++ mnemonic ++ " at " ++ address ∧
        Numeral.IsPlainHexadecimal address ∧ Numeral.readHexadecimal address = pc.toNat := by
  simp only [← Numeral.eq_hexadecimal_iff, exists_eq_right]
  rfl

/-- The line about a register without a name ends in the plain decimal text of its index. -/
theorem eq_message_unnamed_iff :
    text = (unnamed index).message ↔
      ∃ digits, text = "no name for misc register " ++ digits ∧
        Numeral.IsPlain 10 digits.toList ∧ Numeral.read 10 digits.toList = index.toNat := by
  simp only [← Numeral.eq_decimal_iff, exists_eq_right]
  rfl

theorem eq_record_iff {e : Event} {r : Record} :
    r = e.record ↔ r.level = e.level ∧ r.message = e.message := by
  constructor
  · rintro rfl
    exact ⟨rfl, rfl⟩
  · rintro ⟨hlevel, hmessage⟩
    rw [record, ← hlevel, ← hmessage]

end Event

namespace Instruction

/-! ### The operands without names -/

/-- The operands that the line of an instruction shows; a bare instruction shows none of its own. -/
def shown : Instruction → List RegisterRef
  | bare _ => []
  | i => i.operands

/-- The operands shown whose number lies at least four behind the start of the miscellaneous bank,
in order, and as often as they are shown. -/
def unnamedOperands (i : Instruction) : List RegisterRef :=
  i.shown.filter fun ref => i.operation.layout.miscStart.toNat + 4 ≤ ref.number.toNat

/-- The record with which the disassembly of an instruction at `pc` begins. -/
def announcement (i : Instruction) (pc : Address) : Record :=
  ⟨.trace, "disassembling " ++ i.mnemonic ++ " at " ++ Numeral.hexadecimal pc.toNat⟩

/-- The records of the operands without names. The index in a record is how far the number lies
behind the start of the miscellaneous bank. -/
def notices (i : Instruction) : List Record :=
  i.unnamedOperands.map fun ref =>
    ⟨.debug, "no name for misc register " ++
      Numeral.decimal (ref.number.toNat - i.operation.layout.miscStart.toNat)⟩

/-- The names of a list of operands are reported where they are missing. -/
theorem flatMap_log_name (l : Layout) (refs : List RegisterRef) :
    (refs.flatMap fun ref => (l.classify ref).name.log) =
      (refs.filter fun ref => l.miscStart.toNat + 4 ≤ ref.number.toNat).map fun ref =>
        .unnamed (ref.number - l.miscStart) := by
  induction refs with
  | nil => rfl
  | cons ref refs ih =>
    rw [List.flatMap_cons, Register.log_name, ih]
    by_cases h : l.miscStart.toNat + 4 ≤ ref.number.toNat
    · have hunnamed := Layout.isUnnamed_classify_iff.mpr h
      rw [if_pos hunnamed, Layout.index_of_isUnnamed hunnamed,
        List.filter_cons_of_pos (by simpa using h)]
      rfl
    · rw [if_neg (mt Layout.isUnnamed_classify_iff.mp h),
        List.filter_cons_of_neg (by simpa using h)]
      rfl

theorem log_disassemble_of_shown {i : Instruction} (hform : i.form ≠ .bare)
    (hshown : i.shown = i.operands) (pc : Address) (symbols : Option SymbolTable) :
    (i.disassemble pc symbols).log =
      .disassembling i.mnemonic pc ::
        i.unnamedOperands.map fun ref => .unnamed (ref.number - i.operation.layout.miscStart) := by
  rw [log_disassemble hform, registers, List.flatMap_map, flatMap_log_name, unnamedOperands, hshown]

/-- The events of a disassembly, in every form. -/
theorem log_disassemble_eq (i : Instruction) (pc : Address) (symbols : Option SymbolTable) :
    (i.disassemble pc symbols).log =
      .disassembling i.mnemonic pc ::
        i.unnamedOperands.map fun ref => .unnamed (ref.number - i.operation.layout.miscStart) := by
  cases i with
  | bare op => rfl
  | register op => exact log_disassemble_of_shown Form.noConfusion rfl pc symbols
  | immediate name operands value =>
    exact log_disassemble_of_shown Form.noConfusion rfl pc symbols
  | memory name data base displacement =>
    exact log_disassemble_of_shown Form.noConfusion rfl pc symbols

/-! ### The records -/

/-- A disassembly makes the record of the instruction and then those of its operands without
names. -/
theorem records_disassemble (i : Instruction) (pc : Address) (symbols : Option SymbolTable) :
    (i.disassemble pc symbols).records = i.announcement pc :: i.notices := by
  rw [Logged.records, log_disassemble_eq, List.map_cons, List.map_map, notices]
  refine congrArg (i.announcement pc :: ·) (List.map_congr_left fun ref hmem => ?_)
  have hunnamed := Layout.isUnnamed_classify_iff.mpr (of_decide_eq_true (List.mem_filter.mp hmem).2)
  rw [← Layout.toNat_index_of_isUnnamed hunnamed, Layout.index_of_isUnnamed hunnamed]
  rfl

/-- The debug records of a disassembly are those of the operands without names. -/
theorem filter_debug_records (i : Instruction) (pc : Address) (symbols : Option SymbolTable) :
    (i.disassemble pc symbols).records.filter (·.level = .debug) = i.notices := by
  have hlevel : ¬ (i.announcement pc).level = .debug := Level.noConfusion
  have hnotices : ∀ r ∈ i.notices, r.level = .debug := by
    intro r hr
    obtain ⟨ref, -, rfl⟩ := List.mem_map.mp hr
    rfl
  rw [records_disassemble, List.filter_cons_of_neg (by simpa using hlevel)]
  exact List.filter_eq_self.mpr (by simpa using hnotices)

/-- As many operands are without names as are printed as the placeholder. -/
theorem length_unnamedOperands (i : Instruction) :
    i.unnamedOperands.length =
      i.shown.countP fun ref => (i.operation.registerName ref).value = Register.placeholder := by
  rw [unnamedOperands, ← List.countP_eq_length_filter]
  refine List.countP_congr fun ref _ => ?_
  have hiff := Register.text_eq_placeholder_iff (r := i.operation.layout.classify ref)
  rw [Layout.isUnnamed_classify_iff] at hiff
  rw [decide_eq_true_iff, decide_eq_true_iff]
  exact hiff.symm

/-- Rendered by itself, an instruction has the line that it has at every address. A bare one is
rendered without a record, and the others as at address zero. -/
theorem render_eq (i : Instruction) (pc : Address) (symbols : Option SymbolTable) :
    i.render =
      if i.form = .bare then ⟨(i.disassemble pc symbols).value, []⟩ else i.disassemble 0 none := by
  cases i <;> rfl

theorem records_render (i : Instruction) :
    i.render.records = if i.form = .bare then [] else i.announcement 0 :: i.notices := by
  rw [i.render_eq 0 none]
  split
  · rfl
  · exact i.records_disassemble 0 none

/-- The events of a disassembly are that of the instruction, with its address, and then one for each
operand shown that lies at least four behind the start of the miscellaneous bank, with the distance
from the start. They are recorded in this order, with the numbers in plain hexadecimal and in plain
decimal. The records of operands are as many as there are operands printed as the placeholder.
Neither the line nor the records of operands depend on the address or the symbols. Rendering an
instruction by itself gives the same line, with the records of address zero or, for a bare
instruction, with none. Over a list of instructions, the lines and the records are those of each in
turn. -/
theorem disassembly_reports_exactly :
    (∀ (mnemonic : String) (pc : Address) (r : Record),
      r = (Event.disassembling mnemonic pc).record ↔ r.level = .trace ∧
        ∃ address, r.message = "disassembling " ++ mnemonic ++ " at " ++ address ∧
          Numeral.IsPlainHexadecimal address ∧ Numeral.readHexadecimal address = pc.toNat) ∧
    (∀ (index : UInt16) (r : Record),
      r = (Event.unnamed index).record ↔ r.level = .debug ∧
        ∃ digits, r.message = "no name for misc register " ++ digits ∧
          Numeral.IsPlain 10 digits.toList ∧ Numeral.read 10 digits.toList = index.toNat) ∧
    (∀ (i : Instruction) (pc : Address) (symbols : Option SymbolTable),
      (i.disassemble pc symbols).log = .disassembling i.mnemonic pc ::
        i.unnamedOperands.map (fun ref => .unnamed (ref.number - i.operation.layout.miscStart)) ∧
      (i.disassemble pc symbols).records = i.announcement pc :: i.notices ∧
      (i.disassemble pc symbols).records.countP (·.level = .debug) =
        i.shown.countP (fun ref => (i.operation.registerName ref).value = "unknown_reg") ∧
      (∀ (pc' : Address) (symbols' : Option SymbolTable),
        (i.disassemble pc' symbols').value = (i.disassemble pc symbols).value ∧
        (i.disassemble pc' symbols').records.filter (·.level = .debug) =
          (i.disassemble pc symbols).records.filter (·.level = .debug)) ∧
      i.render =
        if i.form = .bare then ⟨(i.disassemble pc symbols).value, []⟩
        else i.disassemble 0 none) ∧
    (∀ (program : List (Address × Instruction)) (symbols : Option SymbolTable),
      (listing program symbols).value =
        program.map (fun (pc, i) => (i.disassemble pc symbols).value) ∧
      (listing program symbols).records =
        program.flatMap fun (pc, i) => i.announcement pc :: i.notices) ∧
    ∀ instructions : List Instruction,
      (instructions.mapM render).records =
        instructions.flatMap fun i =>
          if i.form = .bare then [] else i.announcement 0 :: i.notices := by
  refine ⟨fun mnemonic pc r => ?_, fun index r => ?_, fun i pc symbols =>
    ⟨i.log_disassemble_eq pc symbols, i.records_disassemble pc symbols, ?_,
      fun pc' symbols' => ⟨?_, ?_⟩, i.render_eq pc symbols⟩,
    fun program symbols => ⟨Logged.value_mapM _ _, ?_⟩, fun instructions => ?_⟩
  · rw [← Event.eq_message_disassembling_iff]
    exact Event.eq_record_iff
  · rw [← Event.eq_message_unnamed_iff]
    exact Event.eq_record_iff
  · rw [List.countP_eq_length_filter, filter_debug_records, notices, List.length_map,
      length_unnamedOperands]
    rfl
  · rw [value_disassemble, value_disassemble]
  · rw [filter_debug_records, filter_debug_records]
  · rw [listing, Logged.records_mapM]
    simp only [records_disassemble]
  · rw [Logged.records_mapM]
    simp only [records_render]

/-- A register without a name is printed and reported in its place. -/
example :
    (register { mnemonic := "mr", operands := [⟨31⟩, ⟨68⟩, ⟨32⟩] }).disassemble 0x1000 none =
      ⟨"mr         r31, unknown_reg, f0", [.disassembling "mr" 0x1000, .unnamed 4]⟩ := by decide

/-- When the miscellaneous bank holds fewer than five registers, each of them has a name. -/
example :
    (register ⟨"mr", [⟨65535⟩, ⟨65533⟩], ⟨0, 65533, by decide⟩⟩).unnamedOperands = [] ∧
      (register ⟨"mr", [⟨65535⟩, ⟨65533⟩, ⟨65535⟩], ⟨0, 65531, by decide⟩⟩).unnamedOperands =
        [⟨65535⟩, ⟨65535⟩] := by decide

end Instruction

end PowerDisasm
