import PowerDisasm.Instruction.Basic
import PowerDisasm.Register.Name
import PowerDisasm.Symbol.Table

/-!
# Instructions as assembly text

A line of assembly is the padded mnemonic followed by the operands in the way of the instruction's
form. Making it is reported with the place of the instruction, and then every operand that has no
name is. An instruction can also be rendered without a place: that is the line of an instruction at
address zero, except that a bare instruction then gives its mnemonic without any report.

## Main definitions

* `Instruction.disassemble`: the line for an instruction at an address
* `Instruction.render`: the line for an instruction by itself
* `Instruction.listing`: the lines of a program
-/

namespace PowerDisasm

/-- The start of the line for an operation at `pc`: its padded mnemonic. The disassembly is reported
here. -/
def Operation.heading (op : Operation) (pc : Address) : Logged String := do
  Logged.report (.disassembling op.mnemonic pc)
  return Mnemonic.pad op.mnemonic

/-- The text `onto` with the names of an operation's operands appended. -/
def Operation.appendOperands (op : Operation) (onto : String) : Logged String :=
  op.layout.classify.appendNames onto op.operands

/-- The name of a register reference under the layout of an operation. -/
def Operation.registerName (op : Operation) (ref : RegisterRef) : Logged String :=
  op.layout.classify.name ref

/-- The text `onto` with the operands of a load or store appended: the register that is loaded or
stored, and in parentheses, behind the displacement, the register that the address starts from. An
operation with more or fewer than two operands has nothing appended. -/
def Operation.appendMemoryOperands (op : Operation) (displacement : Int32) (onto : String) :
    Logged String :=
  match op.operands with
  | [data, base] => do
    let data ← op.registerName data
    let base ← op.registerName base
    return onto ++ data ++ Classifier.separator ++ Numeral.signed displacement.toInt ++ "(" ++
      base ++ ")"
  | _ => return onto

namespace Instruction

/-- The line of assembly for the instruction at `pc`. The symbols are there for operands that mean
addresses, which none of the forms has. -/
def disassemble (i : Instruction) (pc : Address) (_symbols : Option SymbolTable) :
    Logged String := do
  let op := i.operation
  let heading ← op.heading pc
  match i with
  | bare _ => return heading
  | register _ => op.appendOperands heading
  | immediate _ operands value =>
    let listed ← op.appendOperands heading
    if operands.isEmpty then return listed ++ value.text
    else return listed ++ Classifier.separator ++ value.text
  | memory _ _ _ displacement => op.appendMemoryOperands displacement heading

/-- The line of assembly for the instruction by itself. -/
def render : Instruction → Logged String
  | bare op => return Mnemonic.pad op.mnemonic
  | i => i.disassemble 0 none

/-- The lines of a program, each instruction with its address, from the first to the last. -/
def listing (program : List (Address × Instruction)) (symbols : Option SymbolTable) :
    Logged (List String) :=
  program.mapM fun (pc, i) => i.disassemble pc symbols

end Instruction

end PowerDisasm
