import PowerDisasm.Proofs.Spelling

/-!
# The text of every form

What is written behind the padded mnemonic depends on the form. A load or store would be written
without its operands if they were not two, which never happens because it is made with two. Every
line starts with the line of the bare instruction, and a line that does not go on behind it lists no
items: it belongs to a bare instruction, or to a register instruction without operands.

## Main results

* `Operation.appendMemoryOperands_eq_iff`: when a load or store would be written without operands
* `Instruction.value_disassemble_eq_toBare_iff`: which lines end where that of the bare instruction
  does
* `Instruction.disassemble_follows_form`: the text of every form, and how it starts
-/

namespace PowerDisasm

/-- Nothing is written for the operands of a load or store just when there are not two. -/
theorem Operation.appendMemoryOperands_eq_iff (op : Operation) (displacement : Int32)
    (onto : String) :
    (op.appendMemoryOperands displacement onto).value = onto ↔ op.operands.length ≠ 2 := by
  rw [Ne, List.length_eq_two]
  unfold appendMemoryOperands
  split
  case h_1 data base htwo =>
    constructor
    · intro h
      have hlength := congrArg String.length h
      have hclosing : ")".length = 1 := rfl
      simp only [Logged.value_bind, Logged.value_pure, String.length_append] at hlength
      omega
    · intro h
      exact absurd ⟨data, base, htwo⟩ h
  case h_2 hother =>
    simp only [Logged.value_pure, true_iff]
    rintro ⟨data, base, htwo⟩
    exact hother data base htwo

namespace Instruction

/-! ### The line of the bare instruction -/

/-- The bare instruction shows the padded mnemonic, wherever it stands. -/
theorem value_disassemble_toBare (i : Instruction) (pc : Address) (symbols : Option SymbolTable) :
    (i.toBare.disassemble pc symbols).value = Mnemonic.pad i.mnemonic := rfl

/-- The forms that list no items. -/
theorem items_eq_nil_iff {i : Instruction} :
    i.items = [] ↔ i.form = .bare ∨ i.form = .register ∧ i.operands = [] := by
  cases i with
  | bare op => exact iff_of_true rfl (.inl rfl)
  | register op => simp [items, registers, form]
  | immediate name operands value => simp [items, form]
  | memory name data base displacement => simp [items, form]

/-- The lines that end where the line of the bare instruction does. -/
theorem value_disassemble_eq_toBare_iff {i : Instruction} {pc pc' : Address}
    {symbols symbols' : Option SymbolTable} :
    (i.disassemble pc symbols).value = (i.toBare.disassemble pc' symbols').value ↔
      i.form = .bare ∨ i.form = .register ∧ i.operands = [] := by
  rw [value_disassemble, value_disassemble_toBare, ← items_eq_nil_iff,
    ← Delimited.separated_eq_empty_iff fun _ => isItem_of_mem_items]
  constructor
  · intro h
    exact (String.append_right_inj _).mp (h.trans String.append_empty.symm)
  · intro h
    rw [h, String.append_empty]

/-! ### The forms with operands -/

theorem value_disassemble_register (op : Operation) (pc : Address) (symbols : Option SymbolTable) :
    ((register op).disassemble pc symbols).value =
      Mnemonic.pad op.mnemonic ++
        ", ".intercalate (op.operands.map fun ref => (op.registerName ref).value) := by
  rw [value_disassemble, items, registers, List.map_map]
  rfl

theorem value_disassemble_immediate (m : String) (refs : List RegisterRef) (v : Immediate)
    (pc : Address) (symbols : Option SymbolTable) :
    ((immediate m refs v).disassemble pc symbols).value =
      Mnemonic.pad m ++ ", ".intercalate
        ((refs.map fun ref => (Layout.power.classify.name ref).value) ++ [v.text]) := by
  rw [value_disassemble, items, registers, List.map_map]
  rfl

/-- The text of every form. A bare instruction shows its padded mnemonic. Behind it a register
instruction shows the names of its operands with separators between them, and an immediate
instruction the same list with its number as the last item. A load or store has just two operands,
so they are always written: one name and a memory operand. The number and the displacement are
spelled as the one plain text that is read as them. Each line starts with the line of the
bare instruction, and goes on behind it unless it is of that form itself, or a register instruction
without operands. -/
theorem disassemble_follows_form (pc : Address) (symbols : Option SymbolTable) :
    (∀ op : Operation, ((bare op).disassemble pc symbols).value = Mnemonic.pad op.mnemonic) ∧
    (∀ op : Operation, ((register op).disassemble pc symbols).value =
      Mnemonic.pad op.mnemonic ++
        ", ".intercalate (op.operands.map fun ref => (op.registerName ref).value)) ∧
    (∀ (m : String) (refs : List RegisterRef) (v : Immediate),
      ((immediate m refs v).disassemble pc symbols).value =
        Mnemonic.pad m ++ ", ".intercalate
          ((refs.map fun ref => (Layout.power.classify.name ref).value) ++ [v.text])) ∧
    (∀ (m : String) (data base : RegisterRef) (d : Int32),
      (memory m data base d).operands = [data, base] ∧
      (∀ onto, ((memory m data base d).operation.appendMemoryOperands d onto).value ≠ onto) ∧
      ((memory m data base d).disassemble pc symbols).value =
        Mnemonic.pad m ++ (Layout.power.classify.name data).value ++ ", " ++
          Numeral.signed d.toInt ++ "(" ++ (Layout.power.classify.name base).value ++ ")") ∧
    (∀ (v : Immediate) (text : String), text = v.text ↔ v.IsSpelled text) ∧
    (∀ (d : Int32) (text : String), text = Numeral.signed d.toInt ↔
      Numeral.IsPlainSigned text ∧ Numeral.readSigned text = d.toInt) ∧
    ∀ (i : Instruction) (pc' : Address) (symbols' : Option SymbolTable),
      (∃ rest, (i.disassemble pc symbols).value =
        (i.toBare.disassemble pc' symbols').value ++ rest) ∧
      ((i.disassemble pc symbols).value = (i.toBare.disassemble pc' symbols').value ↔
        i.form = .bare ∨ i.form = .register ∧ i.operands = []) := by
  refine ⟨fun op => rfl, fun op => value_disassemble_register op pc symbols,
    fun m refs v => value_disassemble_immediate m refs v pc symbols,
    fun m data base d =>
      ⟨rfl, fun onto => ?_, value_disassemble_memory m data base d pc symbols⟩,
    fun v text => Immediate.eq_text_iff, fun d text => Numeral.eq_signed_iff,
    fun i pc' symbols' => ⟨⟨_, i.value_disassemble pc symbols⟩, value_disassemble_eq_toBare_iff⟩⟩
  rw [Ne, Operation.appendMemoryOperands_eq_iff]
  exact fun hnot => hnot rfl

/-- With no operand in front of it, the number stands alone. -/
example : ((immediate "sc" [] (.unsigned 1)).disassemble 0 none).value = "sc         0x1" ∧
    ((memory "lwz" ⟨3⟩ ⟨1⟩ (-8)).disassemble 0 none).value = "lwz        r3, -8(r1)" := by decide

end Instruction

end PowerDisasm
