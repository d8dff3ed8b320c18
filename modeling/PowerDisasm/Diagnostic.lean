import PowerDisasm.Text

/-!
# What disassembly reports

Rendering assembly yields text, and besides it reports two kinds of event: that an instruction is
being disassembled, and that a register has no name. `Logged α` pairs a value with the events that
were reported while it was worked out. The value never depends on the log, so either half of a
computation can be reasoned about alone.

## Main definitions

* `Event`: what can be reported
* `Record`, `Event.record`: a report as it is read, a level and a line of text
* `Logged`: a value and its log
* `Logged.records`: the log as it is read
-/

namespace PowerDisasm

/-! ### Events -/

/-- How prominent a report is: `trace` follows the ordinary course of work, `debug` marks something
that may deserve a look. -/
inductive Level
  | trace
  | debug
  deriving DecidableEq

/-- The word for a level. -/
def Level.text : Level → String
  | .trace => "trace"
  | .debug => "debug"

/-- Something that happens while assembly text is made: the instruction at `pc` is about to be
rendered, or the register at an index of the miscellaneous bank turns out to have no name. -/
inductive Event
  | disassembling (mnemonic : String) (pc : UInt64)
  | unnamed (index : UInt16)
  deriving DecidableEq

/-- A report as it is read. -/
structure Record where
  level : Level
  message : String
  deriving DecidableEq

namespace Event

/-- The progress of disassembly is traced; a missing name is worth a debug report. -/
def level : Event → Level
  | disassembling .. => .trace
  | unnamed _ => .debug

/-- The line of text that tells of an event. Addresses are in hexadecimal and indices in decimal. -/
def message : Event → String
  | disassembling mnemonic pc =>
    "disassembling " ++ mnemonic ++ " at " ++ Numeral.hexadecimal pc.toNat
  | unnamed index => "no name for misc register " ++ Numeral.decimal index.toNat

/-- The report of an event. -/
def record (e : Event) : Record := ⟨e.level, e.message⟩

end Event

/-! ### Values with a log -/

/-- A value together with the events reported on the way to it, the earliest first. -/
structure Logged (α : Type) where
  value : α
  log : List Event
  deriving DecidableEq

namespace Logged

variable {α β : Type}

instance : Monad Logged where
  pure a := ⟨a, []⟩
  bind x f := ⟨(f x.value).value, x.log ++ (f x.value).log⟩

/-- Report `e`, and nothing else. -/
def report (e : Event) : Logged Unit := ⟨(), [e]⟩

/-- The log as it is read. -/
def records (x : Logged α) : List Record := x.log.map Event.record

@[simp] theorem value_pure (a : α) : (pure a : Logged α).value = a := rfl

@[simp] theorem log_pure (a : α) : (pure a : Logged α).log = [] := rfl

@[simp] theorem value_bind (x : Logged α) (f : α → Logged β) :
    (x >>= f).value = (f x.value).value := rfl

@[simp] theorem log_bind (x : Logged α) (f : α → Logged β) :
    (x >>= f).log = x.log ++ (f x.value).log := rfl

@[simp] theorem value_map (f : α → β) (x : Logged α) : (f <$> x).value = f x.value := rfl

@[simp] theorem log_report (e : Event) : (report e).log = [e] := rfl

@[simp] theorem log_map (f : α → β) (x : Logged α) : (f <$> x).log = x.log :=
  List.append_nil _

@[ext] theorem ext {x y : Logged α} (hv : x.value = y.value) (hl : x.log = y.log) : x = y := by
  cases x
  cases y
  simp_all

instance : LawfulMonad Logged := LawfulMonad.mk' Logged
  (fun _ => ext rfl (log_map _ _))
  (fun _ _ => ext rfl (List.nil_append _))
  (fun _ _ _ => ext rfl (List.append_assoc _ _ _))

/-- The values of a list worked out item by item. -/
theorem value_mapM (f : α → Logged β) (l : List α) :
    (l.mapM f).value = l.map fun a => (f a).value := by
  induction l with
  | nil => simp
  | cons a l ih => simp [ih]

/-- The logs of a list worked out item by item follow each other in the order of the list. -/
theorem log_mapM (f : α → Logged β) (l : List α) :
    (l.mapM f).log = l.flatMap fun a => (f a).log := by
  induction l with
  | nil => simp
  | cons a l ih => simp [ih]

theorem records_mapM (f : α → Logged β) (l : List α) :
    (l.mapM f).records = l.flatMap fun a => (f a).records := by
  rw [records, log_mapM, List.map_flatMap]
  rfl

end Logged

end PowerDisasm
