import PowerDisasm.Register.Basic

/-!
# Layouts of the register file

A register file is one row of 65536 numbered registers, which a layout cuts at two places into the
three banks: the integer registers come first, then the floating-point registers, then everything
else. Within a bank the index counts from zero. So a layout turns numbers into registers, and
registers into numbers as far as the banks reach.

## Main definitions

* `Layout`, `Layout.ofStarts`: two cuts in order
* `Layout.count`: how many registers a bank holds
* `Layout.classify`: the register that a number stands for
* `Layout.reference`: the number of a register, unless the bank ends before it
-/

namespace PowerDisasm

/-- What can be wrong: the cuts of a layout are out of order, or a bank holds only `count` registers
and the index is not below that. -/
inductive LayoutError
  | overlapping (floatStart miscStart : UInt16)
  | indexOutOfRange (bank : Bank) (index : UInt16) (count : UInt32)
  deriving DecidableEq

/-- The sentence that tells of an error. -/
def LayoutError.message : LayoutError → String
  | .overlapping floatStart miscStart =>
    "floating-point registers start at " ++ Numeral.hexadecimal floatStart.toNat ++
      ", past the misc registers at " ++ Numeral.hexadecimal miscStart.toNat
  | .indexOutOfRange bank index count =>
    bank.text ++ " register index " ++ Numeral.decimal index.toNat ++
      " is out of range, the class holds " ++ Numeral.decimal count.toNat ++ " registers"

/-- A layout of the register file: the numbers at which the floating-point and the miscellaneous
registers start. -/
structure Layout where
  floatStart : UInt16
  miscStart : UInt16
  floatStart_le_miscStart : floatStart ≤ miscStart
  deriving DecidableEq

namespace Layout

/-- The layout with the given cuts. -/
def ofStarts (floatStart miscStart : UInt16) : Except LayoutError Layout :=
  if h : floatStart ≤ miscStart then .ok ⟨floatStart, miscStart, h⟩
  else .error (.overlapping floatStart miscStart)

/-- The layout of the architecture, with thirty-two fixed-point and thirty-two floating-point
registers. -/
def power : Layout := ⟨32, 64, by decide⟩

instance : Inhabited Layout := ⟨power⟩

/-- The number of the first register of a bank. -/
def start (l : Layout) : Bank → UInt16
  | .integer => 0
  | .float => l.floatStart
  | .misc => l.miscStart

/-- How many registers a bank holds. The miscellaneous bank may hold all 65536, which is one more
than an index can say, so the count is a wider word. -/
def count (l : Layout) : Bank → UInt32
  | .integer => l.floatStart.toUInt32
  | .float => (l.miscStart - l.floatStart).toUInt32
  | .misc => 65536 - l.miscStart.toUInt32

/-- The register that a reference stands for: the bank between whose cuts its number falls, and the
distance from the start of the bank. -/
def classify (l : Layout) : Classifier := fun ref =>
  if ref.number < l.floatStart then ⟨.integer, ref.number⟩
  else if ref.number < l.miscStart then ⟨.float, ref.number - l.floatStart⟩
  else ⟨.misc, ref.number - l.miscStart⟩

/-- The reference to the register at an index of a bank. -/
def reference (l : Layout) (bank : Bank) (index : UInt16) : Except LayoutError RegisterRef :=
  if index.toUInt32 < l.count bank then .ok ⟨l.start bank + index⟩
  else .error (.indexOutOfRange bank index (l.count bank))

/-- The reference to a fixed-point register. -/
def gpr (l : Layout) (index : UInt16) : Except LayoutError RegisterRef := l.reference .integer index

/-- The reference to a floating-point register. -/
def fpr (l : Layout) (index : UInt16) : Except LayoutError RegisterRef := l.reference .float index

/-- The reference to a special purpose register. -/
def special (l : Layout) (r : SpecialRegister) : Except LayoutError RegisterRef :=
  l.reference .misc r.code.toUInt16

/-- The layout is made just when the cuts are in order, and then it has these cuts. -/
theorem ofStarts_eq_ok_iff {f m : UInt16} {l : Layout} :
    ofStarts f m = .ok l ↔ l.floatStart = f ∧ l.miscStart = m := by
  obtain ⟨f', m', h⟩ := l
  unfold ofStarts
  split
  case isTrue => simp [eq_comm]
  case isFalse hn =>
    constructor
    · intro e
      cases e
    · rintro ⟨rfl, rfl⟩
      exact absurd h hn

end Layout

end PowerDisasm
