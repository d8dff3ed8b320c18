import PowerDisasm.Layout

/-!
# Decoded instructions

Every instruction consists of an operation, which is a mnemonic with register operands and the
layout that gives them meaning, and of a form, which says how the operands are written. Immediate
and memory instructions always have the layout of the architecture.

## Main definitions

* `Immediate`, `Immediate.text`: a number carried by an instruction, and its text
* `Operation`: what all instructions have
* `Instruction`: an operation in one of four forms
* `Instruction.toBare`: the bare instruction of the same operation
-/

namespace PowerDisasm

/-- A number carried by an instruction. Arithmetic takes it as signed, logic as a field of bits. -/
inductive Immediate
  | signed (value : Int32)
  | unsigned (value : UInt32)
  deriving DecidableEq

/-- An immediate operand in assembly text: a signed number in decimal, bits in hexadecimal. -/
def Immediate.text : Immediate → String
  | .signed value => Numeral.signed value.toInt
  | .unsigned value => Numeral.hexadecimal value.toNat

/-- A mnemonic with its register operands, in the order in which they are written, and the layout
that gives them meaning. -/
structure Operation where
  mnemonic : String
  operands : List RegisterRef
  layout : Layout := .power
  deriving DecidableEq

/-- A decoded instruction. Behind the mnemonic it shows nothing, or its register operands, or these
and a number, or one register and a memory operand, which is made up of a displacement and a second
register. A load or store has two operands by construction. -/
inductive Instruction
  | bare (operation : Operation)
  | register (operation : Operation)
  | immediate (mnemonic : String) (operands : List RegisterRef) (value : Immediate)
  | memory (mnemonic : String) (data base : RegisterRef) (displacement : Int32)
  deriving DecidableEq

namespace Instruction

/-- What an instruction is apart from its form. -/
def operation : Instruction → Operation
  | bare op => op
  | register op => op
  | immediate mnemonic operands _ => { mnemonic, operands }
  | memory mnemonic data base _ => { mnemonic, operands := [data, base] }

/-- The instruction of the same operation that shows only its mnemonic. -/
def toBare (i : Instruction) : Instruction := .bare i.operation

/-- The name of the operation. -/
def mnemonic (i : Instruction) : String := i.operation.mnemonic

/-- The register operands, in the order in which they are written. -/
def operands (i : Instruction) : List RegisterRef := i.operation.operands

/-- How many register operands there are. -/
def operandCount (i : Instruction) : Nat := i.operands.length

/-- The register operand at a position. -/
def operand? (i : Instruction) (position : UInt64) : Option RegisterRef :=
  i.operands[position.toNat]?

end Instruction

end PowerDisasm
