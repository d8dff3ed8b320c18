import PowerDisasm.Instruction.Disassembly
import PowerDisasm.Proofs.Register.Names

/-!
# The parts of a line

Whatever the form of an instruction, its line is the padded mnemonic followed by a list of items
with separators between them: names of registers, these and a number, or one name and a memory
operand. A number starts with no letter as the names do, and a memory operand is not a word at all.
So the items tell the form and the number, and they tell the registers as far as names do.

## Main definitions

* `Instruction.form`, `Instruction.registers`: what is shown, and the operands resolved
* `Instruction.items`: what the line lists behind the mnemonic

## Main results

* `Instruction.value_disassemble`, `Instruction.log_disassemble`: the line and its reports
* `Instruction.items_eq_items_iff`: equal items mean one form and registers that are alike
-/

namespace PowerDisasm

namespace Immediate

/-- Immediate operands are printed alike only when they are the same number in the same
notation. -/
theorem text_injective {v w : Immediate} (h : v.text = w.text) : v = w := by
  cases v with
  | signed v =>
    cases w with
    | signed w => rw [Int32.toInt_inj.mp (Numeral.signed_injective h)]
    | unsigned w => exact absurd h (Numeral.signed_ne_hexadecimal _ _)
  | unsigned v =>
    cases w with
    | signed w => exact absurd h.symm (Numeral.signed_ne_hexadecimal _ _)
    | unsigned w => rw [UInt32.toNat_inj.mp (Numeral.hexadecimal_injective h)]

theorem isWord_text (v : Immediate) : IsWord v.text := by
  cases v with
  | signed v => exact Numeral.isWord_signed _
  | unsigned v => exact Numeral.isWord_hexadecimal _

theorem not_startsWithLetter_text (v : Immediate) : ¬ StartsWithLetter v.text := by
  cases v with
  | signed v => exact Numeral.not_startsWithLetter_signed _
  | unsigned v => simp [text, StartsWithLetter]

end Immediate

namespace Instruction

/-- How an instruction is written, with the number that it carries. -/
inductive Form
  | bare
  | register
  | immediate (value : Immediate)
  | memory (displacement : Int32)
  deriving DecidableEq

/-- The form of an instruction. -/
def form : Instruction → Form
  | bare _ => .bare
  | register _ => .register
  | immediate _ _ value => .immediate value
  | memory _ _ _ displacement => .memory displacement

/-- The registers that the operands of an instruction stand for. -/
def registers (i : Instruction) : List Register := i.operands.map i.operation.layout.classify

/-- A memory operand: the displacement, and in parentheses the register it is counted from. -/
def place (displacement : Int32) (base : Register) : String :=
  Numeral.signed displacement.toInt ++ "(" ++ base.text ++ ")"

/-- The items that the line of an instruction lists behind the mnemonic. -/
def items : Instruction → List String
  | bare _ => []
  | register op => (register op).registers.map Register.text
  | immediate mnemonic operands value =>
    (immediate mnemonic operands value).registers.map Register.text ++ [value.text]
  | memory _ data base displacement =>
    [(Layout.power.classify data).text, place displacement (Layout.power.classify base)]

/-- An instruction is its form, its mnemonic, its operands and their layout. -/
theorem eq_of_parts {a b : Instruction} (hform : a.form = b.form)
    (hmnemonic : a.mnemonic = b.mnemonic) (hoperands : a.operands = b.operands)
    (hlayout : a.operation.layout = b.operation.layout) : a = b := by
  have hop : a.operation = b.operation := by
    cases hop : a.operation
    cases hop' : b.operation
    simp_all [mnemonic, operands]
  cases a <;> cases b <;> simp_all [form, operation]

/-! ### The line of an instruction -/

/-- The line is the padded mnemonic and the items. -/
theorem value_disassemble (i : Instruction) (pc : Address) (symbols : Option SymbolTable) :
    (i.disassemble pc symbols).value =
      Mnemonic.pad i.mnemonic ++ Classifier.separator.intercalate i.items := by
  cases i with
  | bare op => simp [disassemble, Operation.heading, items, mnemonic, operation]
  | register op =>
    have hlist := op.layout.classify.value_appendNames (Mnemonic.pad op.mnemonic) op.operands
    rw [items, registers, List.map_map]
    exact hlist
  | immediate name operands value =>
    have hlist := Layout.power.classify.value_appendNames (Mnemonic.pad name) operands
    rw [items, registers, List.map_map]
    -- The separator before the number is written just when a name stands before it.
    cases operands with
    | nil => simp [disassemble, Operation.heading, Operation.appendOperands, mnemonic, operation,
        operands]
    | cons ref refs =>
      have hne : (ref :: refs).map (Register.text ∘ Layout.power.classify) ≠ [] := by simp
      change (Layout.power.classify.appendNames (Mnemonic.pad name) (ref :: refs)).value ++
        Classifier.separator ++ value.text = _
      rw [hlist, String.append_assoc, String.append_assoc]
      change _ = Mnemonic.pad name ++ Classifier.separator.intercalate
        ((ref :: refs).map (Register.text ∘ Layout.power.classify) ++ [value.text])
      rw [String.intercalate_append_of_ne_nil hne (by simp), String.intercalate_singleton,
        String.append_assoc]
      rfl
  | memory name data base displacement =>
    simp only [items, String.intercalate_cons_cons, String.intercalate_singleton, place,
      ← String.append_assoc]
    rfl

theorem value_disassemble_memory (m : String) (data base : RegisterRef) (d : Int32) (pc : Address)
    (symbols : Option SymbolTable) :
    ((memory m data base d).disassemble pc symbols).value =
      Mnemonic.pad m ++ (Layout.power.classify.name data).value ++ ", " ++
        Numeral.signed d.toInt ++ "(" ++ (Layout.power.classify.name base).value ++ ")" := rfl

/-- The reports are that of the disassembly and then those of the names. -/
theorem log_disassemble {i : Instruction} (h : i.form ≠ .bare) (pc : Address)
    (symbols : Option SymbolTable) :
    (i.disassemble pc symbols).log =
      .disassembling i.mnemonic pc :: i.registers.flatMap fun r => r.name.log := by
  cases i with
  | bare op => exact absurd rfl h
  | register op =>
    rw [registers, List.flatMap_map, ← Classifier.log_appendNames _ (Mnemonic.pad op.mnemonic)]
    rfl
  | immediate name operands value =>
    rw [registers, List.flatMap_map, ← Classifier.log_appendNames _ (Mnemonic.pad name)]
    cases operands with
    | nil => rfl
    | cons ref refs =>
      exact congrArg (_ :: ·) (List.append_nil _)
  | memory name data base displacement =>
    simp [disassemble, Operation.heading, Operation.appendMemoryOperands, Operation.registerName,
      Classifier.name, registers, operands, operation, mnemonic]

/-! ### Items read back -/

theorem toList_place (displacement : Int32) (base : Register) :
    (place displacement base).toList =
      (Numeral.signed displacement.toInt).toList ++ '(' :: (base.text.toList ++ [')']) := by
  simp [place]

theorem not_isWord_place (displacement : Int32) (base : Register) :
    ¬ IsWord (place displacement base) := by
  intro hword
  have hnone := hword.notMem (c := '(') (by decide)
  rw [toList_place] at hnone
  simp at hnone

theorem isItem_place (displacement : Int32) (base : Register) :
    IsItem (place displacement base) := by
  have hnumber := (Numeral.isWord_signed displacement.toInt).isItem
  have hbase := base.isWord_text.isItem
  refine ⟨ne_empty_of_mem (c := '(') (by simp [toList_place]), ?_⟩
  rw [toList_place]
  simp [hnumber.2, hbase.2]

/-- The parenthesis ends the displacement, and what is in the parentheses is a name. -/
theorem place_eq_place_iff {v w : Int32} {r s : Register} :
    place v r = place w s ↔ v = w ∧ r.Alike s := by
  constructor
  · intro h
    have hlist := congrArg String.toList h
    rw [toList_place, toList_place] at hlist
    have hv := (Numeral.isWord_signed v.toInt).notMem (c := '(') (by decide)
    have hw := (Numeral.isWord_signed w.toInt).notMem (c := '(') (by decide)
    obtain ⟨hnumber, hrest⟩ := Delimited.split_first hv hw hlist
    have hvalue := Numeral.signed_injective (String.toList_injective hnumber)
    have htext := String.toList_injective (List.append_cancel_right hrest)
    exact ⟨Int32.toInt_inj.mp hvalue, Register.text_eq_text_iff.mp htext⟩
  · rintro ⟨rfl, hrs⟩
    rw [place, place, Register.text_eq_text_iff.mpr hrs]

theorem isItem_of_mem_items {i : Instruction} {x : String} (h : x ∈ i.items) : IsItem x := by
  cases i with
  | bare op => cases h
  | register op => exact Register.isItem_of_mem_map_text h
  | immediate name operands value =>
    rcases List.mem_append.mp h with h | h
    · exact Register.isItem_of_mem_map_text h
    · rw [List.mem_singleton.mp h]
      exact value.isWord_text.isItem
  | memory name data base displacement =>
    rcases List.mem_cons.mp h with rfl | h
    · exact (Register.isWord_text _).isItem
    · rw [List.mem_singleton.mp h]
      exact isItem_place _ _

/-- A number that ends a list of items is not a name. -/
private theorem names_ne_names_concat (rs ss : List Register) (v : Immediate) :
    rs.map Register.text ≠ ss.map Register.text ++ [v.text] := by
  intro h
  have hmem : v.text ∈ rs.map Register.text := h ▸ List.mem_append_right _ List.mem_cons_self
  obtain ⟨r, -, hr⟩ := List.mem_map.mp hmem
  exact v.not_startsWithLetter_text (hr ▸ r.startsWithLetter_text)

/-- A memory operand is not a name. -/
private theorem names_ne_place (rs : List Register) (x : String) (d : Int32) (r : Register) :
    rs.map Register.text ≠ [x, place d r] := by
  intro h
  have hmem : place d r ∈ rs.map Register.text := by
    rw [h]
    exact List.mem_cons_of_mem _ List.mem_cons_self
  obtain ⟨s, -, hs⟩ := List.mem_map.mp hmem
  exact not_isWord_place d r (hs ▸ s.isWord_text)

/-- A memory operand is not a number either. -/
private theorem names_concat_ne_place (rs : List Register) (v : Immediate) (x : String) (d : Int32)
    (r : Register) : rs.map Register.text ++ [v.text] ≠ [x, place d r] := by
  intro h
  have hlast : v.text = place d r := by
    have := congrArg List.getLast? h
    simpa using this
  exact not_isWord_place d r (hlast ▸ v.isWord_text)

/-- The items of an instruction that shows its operands tell the form, and the registers as far as
names do. -/
theorem form_and_alike_of_items_eq {a b : Instruction} (ha : a.form ≠ .bare) (hb : b.form ≠ .bare)
    (h : a.items = b.items) :
    a.form = b.form ∧ List.Forall₂ Register.Alike a.registers b.registers := by
  -- Lists of two different forms differ in what stands at their end.
  cases a with
  | bare op => exact absurd rfl ha
  | register op =>
    cases b with
    | bare op' => exact absurd rfl hb
    | register op' => exact ⟨rfl, Register.map_text_eq_map_text_iff.mp h⟩
    | immediate name operands value => exact absurd h (names_ne_names_concat _ _ _)
    | memory name data base displacement => exact absurd h (names_ne_place _ _ _ _)
  | immediate name operands value =>
    cases b with
    | bare op' => exact absurd rfl hb
    | register op' => exact absurd h.symm (names_ne_names_concat _ _ _)
    | immediate name' operands' value' =>
      obtain ⟨hnames, hlast⟩ := List.append_inj' h rfl
      have hvalue := Immediate.text_injective (List.cons.inj hlast).1
      exact ⟨congrArg Form.immediate hvalue, Register.map_text_eq_map_text_iff.mp hnames⟩
    | memory name' data base displacement => exact absurd h (names_concat_ne_place _ _ _ _ _)
  | memory name data base displacement =>
    cases b with
    | bare op' => exact absurd rfl hb
    | register op' => exact absurd h.symm (names_ne_place _ _ _ _)
    | immediate name' operands value => exact absurd h.symm (names_concat_ne_place _ _ _ _ _)
    | memory name' data' base' displacement' =>
      obtain ⟨hdata, hrest⟩ := List.cons.inj h
      obtain ⟨hvalue, hbase⟩ := place_eq_place_iff.mp (List.cons.inj hrest).1
      have hdata := Register.text_eq_text_iff.mp hdata
      exact ⟨congrArg Form.memory hvalue, .cons hdata (.cons hbase .nil)⟩

theorem items_eq_of_form_of_alike {a b : Instruction} (hform : a.form = b.form)
    (halike : List.Forall₂ Register.Alike a.registers b.registers) : a.items = b.items := by
  have hnames := Register.map_text_eq_map_text_iff.mpr halike
  cases a <;> cases b <;> try cases hform
  case bare.bare.refl => rfl
  case register.register.refl => exact hnames
  case immediate.immediate.refl => exact congrArg (· ++ [_]) hnames
  case memory.memory.refl _ data base displacement _ data' base' =>
    obtain ⟨hdata, hrest⟩ := List.forall₂_cons.mp halike
    obtain ⟨hbase, -⟩ := List.forall₂_cons.mp hrest
    have hplace := (place_eq_place_iff (v := displacement)).mpr ⟨rfl, hbase⟩
    exact congrArg₂ (fun x y => [x, y]) (Register.text_eq_text_iff.mpr hdata) hplace

/-- Two instructions that show operands list the same items just when they have the same form, with
the same number, and their registers are alike one by one. -/
theorem items_eq_items_iff {a b : Instruction} (ha : a.form ≠ .bare) (hb : b.form ≠ .bare) :
    a.items = b.items ↔ a.form = b.form ∧ List.Forall₂ Register.Alike a.registers b.registers :=
  ⟨form_and_alike_of_items_eq ha hb, fun h => items_eq_of_form_of_alike h.1 h.2⟩

end Instruction

end PowerDisasm
