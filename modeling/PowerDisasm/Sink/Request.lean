import PowerDisasm.Register.Name

/-!
# Working with one sink over time

Names of references are written into a sink one after the other, with nothing between them. More
generally a session of requests shares one classifier and one sink: two kinds of request write to
the sink, the others only ask for a name, for a list of names or for a register.

## Main definitions

* `Sink.print`, `Sink.printAll`: write the names of register references
* `Sink.Request`, `Sink.Reply`: what can be asked and what is answered
* `Sink.serve`, `Sink.serveAll`: answer one request, or several in order
-/

namespace PowerDisasm

namespace Sink

/-- Write the register that a reference stands for. Tells whether all of it was written. -/
def print (classify : Classifier) (s : Sink) (ref : RegisterRef) : Logged (Bool × Sink) :=
  (classify ref).format s

/-- Write the registers that references stand for. One that does not fit does not keep the next from
being tried. Tells of each whether all of it was written. -/
def printAll (classify : Classifier) (s : Sink) : List RegisterRef → Logged (List Bool × Sink)
  | [] => pure ([], s)
  | ref :: refs => do
    let (done, s) ← s.print classify ref
    let (rest, s) ← s.printAll classify refs
    return (done :: rest, s)

/-- A name is written like any other text, and the reports are those of the name. -/
theorem print_eq_write_name (classify : Classifier) (s : Sink) (ref : RegisterRef) :
    s.print classify ref = s.write <$> classify.name ref :=
  (classify ref).format_eq_write_name s

/-- What can be asked of a classifier and a sink: to write a text or a name, or to give a name, a
text with names appended, or a register. -/
inductive Request
  | text (text : String)
  | print (ref : RegisterRef)
  | name (ref : RegisterRef)
  | list (onto : String) (refs : List RegisterRef)
  | classify (ref : RegisterRef)
  deriving DecidableEq

/-- The answer to a request: whether everything was written, or what was asked for. -/
inductive Reply
  | written (complete : Bool)
  | text (text : String)
  | register (register : Register)
  deriving DecidableEq

/-- Answer a request; the sink afterwards comes with the reply. -/
def serve (classify : Classifier) (s : Sink) : Request → Logged (Reply × Sink)
  | .text text =>
    let (complete, s) := s.write text
    return (.written complete, s)
  | .print ref => do
    let (complete, s) ← s.print classify ref
    return (.written complete, s)
  | .name ref => do
    return (.text (← classify.name ref), s)
  | .list onto refs => do
    return (.text (← classify.appendNames onto refs), s)
  | .classify ref => return (.register (classify ref), s)

/-- Answer requests one after the other. Each answer comes with the sink after it, and with the
reports made on the way to it. -/
def serveAll (classify : Classifier) (s : Sink) : List Request → List (Logged (Reply × Sink))
  | [] => []
  | r :: rs =>
    let answer := s.serve classify r
    answer :: answer.value.2.serveAll classify rs

end Sink

end PowerDisasm
