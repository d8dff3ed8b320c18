import PowerDisasm.Text
import PowerDisasm.Diagnostic
import PowerDisasm.Register.Special
import PowerDisasm.Register.Basic
import PowerDisasm.Sink.Basic
import PowerDisasm.Register.Name
import PowerDisasm.Sink.Request
import PowerDisasm.Layout
import PowerDisasm.Symbol.Table
import PowerDisasm.Symbol.Cursor
import PowerDisasm.Instruction.Basic
import PowerDisasm.Instruction.Draft
import PowerDisasm.Instruction.Disassembly
import PowerDisasm.Proofs.Delimited
import PowerDisasm.Proofs.Numeral
import PowerDisasm.Proofs.Mnemonic
import PowerDisasm.Proofs.Register.Names
import PowerDisasm.Proofs.Register.Codes
import PowerDisasm.Proofs.Layout.Banks
import PowerDisasm.Proofs.Layout.Order
import PowerDisasm.Proofs.Symbol.Contents
import PowerDisasm.Proofs.Symbol.Nearest
import PowerDisasm.Proofs.Symbol.Walk
import PowerDisasm.Proofs.Symbol.Extensional
import PowerDisasm.Proofs.Sink.Session
import PowerDisasm.Proofs.Sink.Truncation
import PowerDisasm.Proofs.Sink.Readback
import PowerDisasm.Proofs.Instruction.Line
import PowerDisasm.Proofs.Spelling
import PowerDisasm.Proofs.Instruction.Forms
import PowerDisasm.Proofs.Instruction.Recovery
import PowerDisasm.Proofs.Instruction.Reports
import PowerDisasm.Proofs.Instruction.Resolved
import PowerDisasm.Proofs.Instruction.Translation
import PowerDisasm.Proofs.WordArithmetic
