import PowerDisasm.Proofs.Instruction.Line
import PowerDisasm.Proofs.Layout.Banks

/-!
# Operands moved to another layout

When the register file is laid out anew, the registers stay and their numbers change. An operand is
moved by way of the register that it stands for, which fails where a bank is shorter in the new
layout, and a moved operand can always be moved back. A line of assembly shows registers and not
numbers, and so do its reports. Neither tells whether the operands have been moved.

## Main definitions

* `Layout.translate`, `Layout.translateAll`: an operand, and a list of operands, moved from one
  layout to another

## Main results

* `Layout.translateAll_eq_ok_iff`, `Layout.translateAll_comm`: moved operands stand for the same
  registers, and can be moved back
* `Instruction.disassemble_translated`: when operands can be moved, and what stays the same
-/

namespace PowerDisasm

namespace Layout

variable {l l' : Layout} {ref ref' : RegisterRef} {refs refs' : List RegisterRef}

/-- The number under `l'` of the register that `ref` stands for under `l`. -/
def translate (l l' : Layout) (ref : RegisterRef) : Except LayoutError RegisterRef :=
  l'.reference (l.classify ref).bank (l.classify ref).index

/-- The operands of a list moved from `l` to `l'`; the first that cannot be moved decides. -/
def translateAll (l l' : Layout) (refs : List RegisterRef) :
    Except LayoutError (List RegisterRef) :=
  refs.mapM (l.translate l')

/-- An operand is moved to the number that stands for the same register. -/
theorem translate_eq_ok_iff :
    l.translate l' ref = .ok ref' ↔ l'.classify ref' = l.classify ref := by
  rw [translate, reference_eq_ok_iff, classify_eq_iff]

/-- An operand can be moved when its index is below the count of the bank in the new layout. -/
theorem exists_translate_eq_ok_iff :
    (∃ ref', l.translate l' ref = .ok ref') ↔
      (l.classify ref).index.toNat < (l'.count (l.classify ref).bank).toNat :=
  exists_reference_eq_ok_iff_lt

/-- Moved operands stand for the same registers one by one. -/
theorem translateAll_eq_ok_iff :
    l.translateAll l' refs = .ok refs' ↔ refs'.map l'.classify = refs.map l.classify := by
  simp only [translateAll, mapM_eq_ok_iff, translate_eq_ok_iff]
  rw [← List.forall₂_eq_eq_eq, List.forall₂_map_left_iff, List.forall₂_map_right_iff]
  exact ⟨List.Forall₂.flip, List.Forall₂.flip⟩

/-- What has been moved from one layout to another can be moved back, and only that. -/
theorem translateAll_comm :
    l.translateAll l' refs = .ok refs' ↔ l'.translateAll l refs' = .ok refs := by
  rw [translateAll_eq_ok_iff, translateAll_eq_ok_iff, eq_comm]

/-- A list can be moved when every one of its operands can. -/
theorem exists_translateAll_eq_ok_iff :
    (∃ refs', l.translateAll l' refs = .ok refs') ↔
      ∀ ref ∈ refs, (l.classify ref).index.toNat < (l'.count (l.classify ref).bank).toNat := by
  simp only [translateAll, exists_mapM_eq_ok_iff, exists_translate_eq_ok_iff]

end Layout

namespace Instruction

/-- Register instructions of one mnemonic whose operands stand for the same registers, each under
its own layout, have the same line and make the same reports. -/
theorem disassemble_register_congr {a b : Operation} (hmnemonic : a.mnemonic = b.mnemonic)
    (hregisters : (register a).registers = (register b).registers) (pc : Address)
    (symbols : Option SymbolTable) :
    (register a).disassemble pc symbols = (register b).disassemble pc symbols := by
  have hmnemonic : (register a).mnemonic = (register b).mnemonic := hmnemonic
  apply Logged.ext
  · rw [value_disassemble, value_disassemble, items, items, hmnemonic, hregisters]
  · rw [log_disassemble Form.noConfusion, log_disassemble Form.noConfusion, hmnemonic, hregisters]

/-- The operands of a list can be moved from one layout to another just when the index of each is
below the count of its bank in the new layout. An instruction with the moved operands under the new
layout then has the same line, and makes the same reports, as the instruction with the old ones
under the old layout, whatever its mnemonic, its address and the symbols. Moving the operands back
succeeds, and gives the old ones. -/
theorem disassemble_translated (l l' : Layout) (refs : List RegisterRef) :
    ((∃ refs', l.translateAll l' refs = .ok refs') ↔
      ∀ ref ∈ refs, (l.classify ref).index.toNat < (l'.count (l.classify ref).bank).toNat) ∧
    ∀ refs', l.translateAll l' refs = .ok refs' →
      (∀ (m : String) (pc : Address) (symbols : Option SymbolTable),
        (register ⟨m, refs', l'⟩).disassemble pc symbols =
          (register ⟨m, refs, l⟩).disassemble pc symbols) ∧
      l'.translateAll l refs' = .ok refs := by
  refine ⟨Layout.exists_translateAll_eq_ok_iff, fun refs' h => ⟨fun m pc symbols => ?_, ?_⟩⟩
  · have hregisters : (register ⟨m, refs', l'⟩).registers = (register ⟨m, refs, l⟩).registers :=
      Layout.translateAll_eq_ok_iff.mp h
    exact disassemble_register_congr (a := ⟨m, refs', l'⟩) (b := ⟨m, refs, l⟩) rfl hregisters pc
      symbols
  · exact Layout.translateAll_comm.mp h

/-- Operands of each bank, moved so far up that the last lies at the end of the row, where it still
has no name and still is reported with its index. -/
theorem disassemble_translated_to_end_of_row :
    let l : Layout := ⟨2, 4, by decide⟩
    let l' : Layout := ⟨65529, 65531, by decide⟩
    let refs : List RegisterRef := [⟨1⟩, ⟨8⟩, ⟨3⟩, ⟨8⟩]
    let refs' : List RegisterRef := [⟨1⟩, ⟨65535⟩, ⟨65530⟩, ⟨65535⟩]
    l.translateAll l' refs = .ok refs' ∧
      (register ⟨"mr", refs', l'⟩).disassemble 64 none =
        ⟨"mr         r1, unknown_reg, f1, unknown_reg",
          [.disassembling "mr" 64, .unnamed 4, .unnamed 4]⟩ ∧
      l'.translateAll l refs' = .ok refs := by
  intro l l' refs refs'
  have hmoved : l.translateAll l' refs = .ok refs' :=
    Layout.translateAll_eq_ok_iff.mpr (by decide)
  obtain ⟨hline, hback⟩ := (disassemble_translated l l' refs).2 refs' hmoved
  exact ⟨hmoved, (hline "mr" 64 none).trans (by decide), hback⟩

end Instruction

end PowerDisasm
