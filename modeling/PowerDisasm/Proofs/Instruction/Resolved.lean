import PowerDisasm.Instruction.Draft
import PowerDisasm.Proofs.Layout.Banks
import PowerDisasm.Proofs.Spelling

/-!
# Operands are printed as what they were given as

An operand that is given as a register, and not as a number, is resolved by a layout and later
printed under the same layout. The number in between leaves no trace: what is printed is the name of
the register that was given. So a draft is resolved just when its operands are, and the line of the
instruction can be read off the draft.

## Main definitions

* `Register.spelling`, `Operand.spelling`: the name of a register, spelled out by bank and index,
  and the name that an operand asks for
* `Operand.Resolves`: the layout has the register that an operand gives

## Main results

* `Operand.map_text_of_resolveAll`: resolved operands are printed as they were given
* `Draft.resolve_eq_ok_iff`, `Draft.resolve_eq_error_iff`: which instruction a draft is resolved to,
  and which error is reported instead
* `Draft.value_disassemble_of_resolve`: the line of a resolved draft
* `Instruction.disassemble_resolved`: the lines of instructions with resolved operands
-/

namespace PowerDisasm

/-! ### Spelling -/

/-- The name of a register, spelled out by bank and index. -/
def Register.spelling (r : Register) : String :=
  match r.bank with
  | .integer => "r" ++ Numeral.decimal r.index.toNat
  | .float => "f" ++ Numeral.decimal r.index.toNat
  | .misc =>
    match r.index.toNat with
    | 0 => "cr"
    | 1 => "xer"
    | 2 => "lr"
    | 3 => "ctr"
    | _ => "unknown_reg"

theorem Register.text_eq_spelling (r : Register) : r.text = r.spelling := by
  rcases r.exhaust with ⟨i, rfl⟩ | ⟨i, rfl⟩ | ⟨s, rfl⟩ | hunnamed
  · exact text_integer i
  · exact text_float i
  · rw [text_code]
    cases s <;> rfl
  · rw [text_of_isUnnamed hunnamed]
    obtain ⟨bank, i⟩ := r
    obtain ⟨rfl, hle⟩ := isUnnamed_iff.mp hunnamed
    obtain ⟨k, hk⟩ := Nat.exists_eq_add_of_le' (UInt16.le_iff_toNat_le.mp hle)
    have hindex : i.toNat = k + 4 := hk
    simp only [spelling, hindex]
    rfl

/-! ### Resolved operands -/

namespace Operand

variable {l : Layout} {o : Operand} {ref : RegisterRef}

/-- The layout has the register that the operand gives. -/
def Resolves (l : Layout) (o : Operand) : Prop := ∃ ref, o.resolve l = .ok ref

/-- The name that an operand asks for. Only for an operand given by its number does it depend on the
layout. -/
def spelling (l : Layout) : Operand → String
  | .reference ref => (l.classify ref).spelling
  | .gpr index => "r" ++ Numeral.decimal index.toNat
  | .fpr index => "f" ++ Numeral.decimal index.toNat
  | .special r => r.name
  | .register r => r.spelling

/-- A resolved operand is printed as it was given. -/
theorem text_classify_of_resolve (h : o.resolve l = .ok ref) :
    (l.classify ref).text = o.spelling l := by
  cases o with
  | reference given =>
    cases h
    exact Register.text_eq_spelling _
  | gpr index =>
    have hclassify : l.classify ref = ⟨.integer, index⟩ := Layout.classify_of_reference h
    rw [hclassify, Register.text_integer, spelling]
  | fpr index =>
    have hclassify : l.classify ref = ⟨.float, index⟩ := Layout.classify_of_reference h
    rw [hclassify, Register.text_float, spelling]
  | special r =>
    have hclassify : l.classify ref = ⟨.misc, r.code.toUInt16⟩ := Layout.classify_of_reference h
    rw [hclassify, Register.text_code, spelling]
  | register r =>
    have hclassify : l.classify ref = r := Layout.classify_of_reference h
    rw [hclassify, Register.text_eq_spelling, spelling]

/-- Operands that are resolved are printed as they were given. -/
theorem map_text_of_resolveAll {os : List Operand} {refs : List RegisterRef}
    (h : resolveAll l os = .ok refs) :
    refs.map (fun ref => (l.classify ref).text) = os.map (spelling l) := by
  have hpairs : List.Forall₂ (fun o ref => o.resolve l = .ok ref) os refs := mapM_eq_ok_iff.mp h
  rw [← List.forall₂_eq_eq_eq, List.forall₂_map_left_iff, List.forall₂_map_right_iff]
  exact (hpairs.imp fun _ _ => text_classify_of_resolve).flip

/-- A list of operands is resolved when each of them is. -/
theorem exists_resolveAll_eq_ok_iff {os : List Operand} :
    (∃ refs, resolveAll l os = .ok refs) ↔ ∀ o ∈ os, o.Resolves l := exists_mapM_eq_ok_iff

end Operand

/-! ### Drafts -/

namespace Draft

variable {d : Draft} {i : Instruction}

/-- The name of the operation. -/
def mnemonic : Draft → String
  | bare m _ _ | register m _ _ | immediate m _ _ | memory m _ _ _ => m

/-- The layout that resolves the operands, which is that of the architecture where none is given. -/
def layout : Draft → Layout
  | bare _ _ l | register _ _ l => l
  | immediate .. | memory .. => .power

/-- The operands to be resolved. -/
def operands : Draft → List Operand
  | bare _ os _ | register _ os _ | immediate _ os _ => os
  | memory _ data base _ => [data, base]

/-- The form of the instruction that a draft describes. -/
def form : Draft → Instruction.Form
  | bare .. => .bare
  | register .. => .register
  | immediate _ _ v => .immediate v
  | memory _ _ _ d => .memory d

/-- The items that the line of the instruction is to list. -/
def items : Draft → List String
  | bare .. => []
  | register _ os l => os.map (Operand.spelling l)
  | immediate _ os v => os.map (Operand.spelling .power) ++ [v.text]
  | memory _ data base d =>
    [data.spelling .power, Numeral.signed d.toInt ++ "(" ++ base.spelling .power ++ ")"]

/-- To resolve a draft is to resolve its operands. -/
theorem map_operands_resolve (d : Draft) :
    d.resolve.map Instruction.operands = Operand.resolveAll d.layout d.operands := by
  cases d with
  | bare m os l =>
    rw [resolve, layout, operands]
    cases Operand.resolveAll l os <;> rfl
  | register m os l =>
    rw [resolve, layout, operands]
    cases Operand.resolveAll l os <;> rfl
  | immediate m os v =>
    rw [resolve, layout, operands]
    cases Operand.resolveAll .power os <;> rfl
  | memory m data base d =>
    rw [resolve, layout, operands, Operand.resolveAll, List.mapM_cons, List.mapM_cons,
      List.mapM_nil]
    cases data.resolve .power with
    | error e => rfl
    | ok first => cases base.resolve .power <;> rfl

/-- Only the operands of a draft are replaced. -/
theorem eq_of_resolve (h : d.resolve = .ok i) :
    i.form = d.form ∧ i.mnemonic = d.mnemonic ∧ i.operation.layout = d.layout := by
  cases d with
  | bare m os l =>
    obtain ⟨refs, -, hi⟩ := bind_eq_ok_iff.mp h
    cases hi
    exact ⟨rfl, rfl, rfl⟩
  | register m os l =>
    obtain ⟨refs, -, hi⟩ := bind_eq_ok_iff.mp h
    cases hi
    exact ⟨rfl, rfl, rfl⟩
  | immediate m os v =>
    obtain ⟨refs, -, hi⟩ := bind_eq_ok_iff.mp h
    cases hi
    exact ⟨rfl, rfl, rfl⟩
  | memory m data base v =>
    obtain ⟨first, -, hrest⟩ := bind_eq_ok_iff.mp h
    obtain ⟨second, -, hi⟩ := bind_eq_ok_iff.mp hrest
    cases hi
    exact ⟨rfl, rfl, rfl⟩

/-- A draft is resolved to the instruction of the same form and mnemonic that has the resolved
operands and their layout. -/
theorem resolve_eq_ok_iff :
    d.resolve = .ok i ↔ i.form = d.form ∧ i.mnemonic = d.mnemonic ∧ i.operation.layout = d.layout ∧
      Operand.resolveAll d.layout d.operands = .ok i.operands := by
  constructor
  · intro h
    obtain ⟨hform, hmnemonic, hlayout⟩ := eq_of_resolve h
    refine ⟨hform, hmnemonic, hlayout, ?_⟩
    rw [← map_operands_resolve, h]
    rfl
  · rintro ⟨hform, hmnemonic, hlayout, hoperands⟩
    rw [← map_operands_resolve] at hoperands
    cases hresult : d.resolve with
    | error e =>
      rw [hresult] at hoperands
      cases hoperands
    | ok i' =>
      rw [hresult] at hoperands
      obtain ⟨hform', hmnemonic', hlayout'⟩ := eq_of_resolve hresult
      rw [Instruction.eq_of_parts (hform'.trans hform.symm) (hmnemonic'.trans hmnemonic.symm)
        (Except.ok.inj hoperands) (hlayout'.trans hlayout.symm)]

/-- The error of a draft is that of its first operand that the layout does not have. -/
theorem resolve_eq_error_iff {e : LayoutError} :
    d.resolve = .error e ↔ Operand.resolveAll d.layout d.operands = .error e := by
  rw [← map_operands_resolve]
  cases d.resolve <;> simp [Except.map]

/-- A draft can be resolved when the layout has all the registers that its operands give. -/
theorem exists_resolve_eq_ok_iff :
    (∃ i, d.resolve = .ok i) ↔ ∀ o ∈ d.operands, o.Resolves d.layout := by
  rw [← Operand.exists_resolveAll_eq_ok_iff, ← map_operands_resolve]
  cases d.resolve <;> simp [Except.map]

/-- Of two operands that do not exist the first is the one told of. -/
example : (memory "stw" (.gpr 32) (.fpr 40) 0).resolve =
    .error (.indexOutOfRange .integer 32 32) := rfl

theorem items_of_resolve (h : d.resolve = .ok i) : i.items = d.items := by
  cases d with
  | bare m os l =>
    obtain ⟨refs, -, hi⟩ := bind_eq_ok_iff.mp h
    cases hi
    rfl
  | register m os l =>
    obtain ⟨refs, hrefs, hi⟩ := bind_eq_ok_iff.mp h
    cases hi
    rw [items, ← Operand.map_text_of_resolveAll hrefs, Instruction.items, Instruction.registers,
      List.map_map]
    rfl
  | immediate m os v =>
    obtain ⟨refs, hrefs, hi⟩ := bind_eq_ok_iff.mp h
    cases hi
    rw [items, ← Operand.map_text_of_resolveAll hrefs, Instruction.items, Instruction.registers,
      List.map_map]
    rfl
  | memory m data base v =>
    obtain ⟨first, hfirst, hrest⟩ := bind_eq_ok_iff.mp h
    obtain ⟨second, hsecond, hi⟩ := bind_eq_ok_iff.mp hrest
    cases hi
    rw [items, ← Operand.text_classify_of_resolve hfirst,
      ← Operand.text_classify_of_resolve hsecond]
    rfl

/-- The line of a resolved draft shows each operand as it was given. -/
theorem value_disassemble_of_resolve (h : d.resolve = .ok i) (pc : Address)
    (symbols : Option SymbolTable) :
    (i.disassemble pc symbols).value =
      Mnemonic.pad d.mnemonic ++ ", ".intercalate d.items := by
  rw [Instruction.value_disassemble, items_of_resolve h, (resolve_eq_ok_iff.mp h).2.1]
  rfl

end Draft

namespace Instruction

/-- Whatever the layout, operands that can be resolved are resolved, and the line of the instruction
shows each of them as it was given, whether by bank and index or in another way. The same is true of
an instruction with a number behind the operands, and of one with a memory operand, under the layout
of the architecture. The numbers are spelled as the plain texts that are read as them. A fixed-point
or floating-point register can be given unless its index is past its bank, and a special purpose
register unless it would lie past the end of the row, where the first of them never lies. -/
theorem disassemble_resolved :
    (∀ (l : Layout) (m : String) (os : List Operand), (∀ o ∈ os, o.Resolves l) →
      ∃ refs, Operand.resolveAll l os = .ok refs ∧ ∀ pc symbols,
        ((register ⟨m, refs, l⟩).disassemble pc symbols).value =
          Mnemonic.pad m ++ ", ".intercalate (os.map (Operand.spelling l))) ∧
    (∀ (m : String) (os : List Operand) (v : Immediate), (∀ o ∈ os, o.Resolves .power) →
      ∃ refs, Operand.resolveAll .power os = .ok refs ∧ ∀ pc symbols,
        ((immediate m refs v).disassemble pc symbols).value =
          Mnemonic.pad m ++ ", ".intercalate (os.map (Operand.spelling .power) ++ [v.text])) ∧
    (∀ (m : String) (data base : Operand) (d : Int32), data.Resolves .power → base.Resolves .power →
      ∃ refData refBase, data.resolve .power = .ok refData ∧ base.resolve .power = .ok refBase ∧
        ∀ pc symbols, ((memory m refData refBase d).disassemble pc symbols).value =
          Mnemonic.pad m ++ ", ".intercalate [data.spelling .power,
            Numeral.signed d.toInt ++ "(" ++ base.spelling .power ++ ")"]) ∧
    ((∀ (n : Nat) (text : String), text = Numeral.decimal n ↔
        Numeral.IsPlain 10 text.toList ∧ Numeral.read 10 text.toList = n) ∧
      (∀ (d : Int32) (text : String), text = Numeral.signed d.toInt ↔
        Numeral.IsPlainSigned text ∧ Numeral.readSigned text = d.toInt) ∧
      ∀ (v : Immediate) (text : String), text = v.text ↔ v.IsSpelled text) ∧
    ∀ l : Layout,
      (∀ index, (∃ e, l.gpr index = .error e) ↔ l.floatStart.toNat ≤ index.toNat) ∧
      (∀ index, (∃ e, l.fpr index = .error e) ↔
        l.miscStart.toNat - l.floatStart.toNat ≤ index.toNat) ∧
      (∀ r, (∃ e, l.special r = .error e) ↔ 65535 < l.miscStart.toNat + r.code.toNat) ∧
      ∃ ref, l.special .cr = .ok ref := by
  refine ⟨fun l m os hos => ?_, fun m os v hos => ?_, fun m data base d hdata hbase => ?_,
    ⟨fun n text => Numeral.eq_decimal_iff, fun d text => Numeral.eq_signed_iff,
      fun v text => Immediate.eq_text_iff⟩,
    fun l => ⟨fun _ => Layout.exists_gpr_eq_error_iff, fun _ => Layout.exists_fpr_eq_error_iff,
      fun _ => Layout.exists_special_eq_error_iff, l.exists_special_cr_eq_ok⟩⟩
  · obtain ⟨refs, hrefs⟩ := Operand.exists_resolveAll_eq_ok_iff.mpr hos
    have hdraft : (Draft.register m os l).resolve = .ok (register ⟨m, refs, l⟩) :=
      Draft.resolve_eq_ok_iff.mpr ⟨rfl, rfl, rfl, hrefs⟩
    have hline := Draft.value_disassemble_of_resolve hdraft
    exact ⟨refs, hrefs, hline⟩
  · obtain ⟨refs, hrefs⟩ := Operand.exists_resolveAll_eq_ok_iff.mpr hos
    have hdraft : (Draft.immediate m os v).resolve = .ok (immediate m refs v) :=
      Draft.resolve_eq_ok_iff.mpr ⟨rfl, rfl, rfl, hrefs⟩
    have hline := Draft.value_disassemble_of_resolve hdraft
    exact ⟨refs, hrefs, hline⟩
  · obtain ⟨refData, hrefData⟩ := hdata
    obtain ⟨refBase, hrefBase⟩ := hbase
    have hrefs : Operand.resolveAll .power [data, base] = .ok [refData, refBase] :=
      mapM_eq_ok_iff.mpr (.cons hrefData (.cons hrefBase .nil))
    have hdraft : (Draft.memory m data base d).resolve = .ok (memory m refData refBase d) :=
      Draft.resolve_eq_ok_iff.mpr ⟨rfl, rfl, rfl, hrefs⟩
    have hline := Draft.value_disassemble_of_resolve hdraft
    exact ⟨refData, refBase, hrefData, hrefBase, hline⟩

/-- The row may end behind the second special purpose register, and an operand list may name that
one twice. Under the layout of the architecture the row ends with a register without a name, and a
displacement may be the least number of its type. -/
theorem disassemble_resolved_of_short_bank :
    (let l : Layout := ⟨1, 65534, by decide⟩
    let os : List Operand := [.register ⟨.misc, 1⟩, .gpr 0, .special .cr, .register ⟨.misc, 1⟩]
    (∀ o ∈ os, o.Resolves l) ∧ ∃ refs, Operand.resolveAll l os = .ok refs ∧
      ((register ⟨"mtspr", refs, l⟩).disassemble 0 none).value =
        "mtspr      xer, r0, cr, xer") ∧
    (let os : List Operand := [.fpr 31, .register ⟨.misc, 65471⟩]
    (∀ o ∈ os, o.Resolves .power) ∧ ∃ refs, Operand.resolveAll .power os = .ok refs ∧
      ((immediate "mtfsfi" refs (.unsigned 0xF0)).disassemble 64 none).value =
        "mtfsfi     f31, unknown_reg, 0xf0") ∧
    (Operand.gpr 31).Resolves .power ∧ (Operand.special .ctr).Resolves .power ∧
      ∃ refData refBase, (Operand.gpr 31).resolve .power = .ok refData ∧
        (Operand.special .ctr).resolve .power = .ok refBase ∧
        ((memory "lwz" refData refBase Int32.minValue).disassemble 64 none).value =
          "lwz        r31, -2147483648(ctr)" := by
  obtain ⟨hregister, himmediate, hmemory, -⟩ := disassemble_resolved
  refine ⟨?_, ?_, ?_⟩
  · have hos : ∀ o ∈ [Operand.register ⟨.misc, 1⟩, .gpr 0, .special .cr, .register ⟨.misc, 1⟩],
        o.Resolves ⟨1, 65534, by decide⟩ := by
      intro o ho
      simp only [List.mem_cons, List.not_mem_nil, or_false] at ho
      rcases ho with rfl | rfl | rfl | rfl
      · exact ⟨⟨65535⟩, rfl⟩
      · exact ⟨⟨0⟩, rfl⟩
      · exact ⟨⟨65534⟩, rfl⟩
      · exact ⟨⟨65535⟩, rfl⟩
    obtain ⟨refs, hrefs, hline⟩ := hregister ⟨1, 65534, by decide⟩ "mtspr" _ hos
    exact ⟨hos, refs, hrefs, (hline 0 none).trans (by decide)⟩
  · have hos : ∀ o ∈ [Operand.fpr 31, .register ⟨.misc, 65471⟩], o.Resolves .power := by
      intro o ho
      simp only [List.mem_cons, List.not_mem_nil, or_false] at ho
      rcases ho with rfl | rfl
      · exact ⟨⟨63⟩, rfl⟩
      · exact ⟨⟨65535⟩, rfl⟩
    obtain ⟨refs, hrefs, hline⟩ := himmediate "mtfsfi" _ (.unsigned 0xF0) hos
    exact ⟨hos, refs, hrefs, (hline 64 none).trans (by decide)⟩
  · have hdata : (Operand.gpr 31).Resolves .power := ⟨⟨31⟩, rfl⟩
    have hbase : (Operand.special .ctr).Resolves .power := ⟨⟨67⟩, rfl⟩
    obtain ⟨refData, refBase, hrefData, hrefBase, hline⟩ :=
      hmemory "lwz" _ _ Int32.minValue hdata hbase
    exact ⟨hdata, hbase, refData, refBase, hrefData, hrefBase, (hline 64 none).trans (by decide)⟩

end Instruction

end PowerDisasm
