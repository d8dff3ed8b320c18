import PowerDisasm.Instruction.Basic

/-!
# Instructions before their operands are resolved

Whoever writes down an instruction may give a register operand by its number in the register file,
or by what the register is. The latter depends on the layout and fails when the register is not
there. A draft is an instruction with operands given in any of these ways, and the layout that
resolves them is the one that the instruction keeps.

## Main definitions

* `Operand`, `Operand.resolve`: a register operand as it may be given, and the reference it means
* `Operand.resolveAll`: the references of an operand list, or the error of the first that has none
* `Draft`, `Draft.resolve`: an instruction with operands still to be resolved, and the instruction
-/

namespace PowerDisasm

/-- A register operand as it may be given: by its reference, as a fixed-point, floating-point or
special purpose register, or by bank and index. -/
inductive Operand
  | reference (ref : RegisterRef)
  | gpr (index : UInt16)
  | fpr (index : UInt16)
  | special (register : SpecialRegister)
  | register (register : Register)
  deriving DecidableEq

namespace Operand

/-- The reference that an operand means in a register file of the given layout. A reference is taken
as it is. -/
def resolve (l : Layout) : Operand → Except LayoutError RegisterRef
  | .reference ref => .ok ref
  | .gpr index => l.gpr index
  | .fpr index => l.fpr index
  | .special r => l.special r
  | .register r => l.reference r.bank r.index

/-- The references of an operand list, worked out from the front; the first that fails decides. -/
def resolveAll (l : Layout) (operands : List Operand) : Except LayoutError (List RegisterRef) :=
  operands.mapM (resolve l)

end Operand

/-- An instruction whose register operands are still to be resolved. -/
inductive Draft
  | bare (mnemonic : String) (operands : List Operand) (layout : Layout)
  | register (mnemonic : String) (operands : List Operand) (layout : Layout)
  | immediate (mnemonic : String) (operands : List Operand) (value : Immediate)
  | memory (mnemonic : String) (data base : Operand) (displacement : Int32)
  deriving DecidableEq

namespace Draft

/-- The instruction that a draft describes. Operands are resolved from the first to the last, and
the first that fails decides. -/
def resolve : Draft → Except LayoutError Instruction
  | bare mnemonic operands layout => do
    return .bare { mnemonic, operands := ← Operand.resolveAll layout operands, layout }
  | register mnemonic operands layout => do
    return .register { mnemonic, operands := ← Operand.resolveAll layout operands, layout }
  | immediate mnemonic operands value => do
    return .immediate mnemonic (← Operand.resolveAll .power operands) value
  | memory mnemonic data base displacement => do
    return .memory mnemonic (← data.resolve .power) (← base.resolve .power) displacement

end Draft

end PowerDisasm
