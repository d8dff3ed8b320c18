import PowerDisasm.Register.Special

/-!
# Registers and references

The registers of the Power architecture come in three banks, and a register is a bank with an index
in it. A decoder knows registers by bare numbers only, whose meaning depends on how the register
file is laid out. A classifier gives the meaning: it says for every reference which register it
stands for. Nothing else is asked of it, so that any function serves.

## Main definitions

* `Bank`, `Register`: the banks, and a register resolved to its place in one
* `Register.special?`: the special purpose register at a place
* `Register.IsUnnamed`: the place is one of the miscellaneous bank that has no name
* `RegisterRef`: a register as a decoder knows it
* `Classifier`: a register for every reference
-/

namespace PowerDisasm

/-! ### Banks -/

/-- The bank a register belongs to: the fixed-point registers, the floating-point registers, or the
special purpose registers with every index behind them. -/
inductive Bank
  | integer
  | float
  | misc
  deriving DecidableEq

namespace Bank

/-- The banks, in the order in which a register file holds them. -/
def all : List Bank := [.integer, .float, .misc]

/-- The word for a bank. -/
def text : Bank → String
  | .integer => "integer"
  | .float => "float"
  | .misc => "misc"

/-- The letter that names the registers of a bank together with their index; the miscellaneous bank
has none. -/
def letter? : Bank → Option String
  | .integer => some "r"
  | .float => some "f"
  | .misc => none

/-- The bank of the given word. -/
def ofText? (word : String) : Option Bank := all.find? (·.text == word)

theorem ofText?_text (b : Bank) : ofText? b.text = some b := by cases b <;> decide

end Bank

/-! ### Registers -/

/-- A register, resolved to its bank and its index in the bank. -/
structure Register where
  bank : Bank
  index : UInt16
  deriving DecidableEq

namespace Register

/-- The special purpose register that this is, if it is one that has a name. -/
def special? (r : Register) : Option SpecialRegister :=
  match r.bank with
  | .misc => SpecialRegister.ofIndex? r.index
  | .integer | .float => none

/-- The register is one of the miscellaneous bank that has no name. -/
def IsUnnamed (r : Register) : Prop := r.bank = .misc ∧ r.special? = none

instance (r : Register) : Decidable r.IsUnnamed := inferInstanceAs (Decidable (_ ∧ _))

end Register

/-! ### References -/

/-- A register as a decoder knows it: a number whose bank and index are not yet resolved. -/
structure RegisterRef where
  number : UInt16
  deriving DecidableEq

namespace RegisterRef

instance : LE RegisterRef := ⟨fun a b => a.number ≤ b.number⟩

instance : LT RegisterRef := ⟨fun a b => a.number < b.number⟩

instance (a b : RegisterRef) : Decidable (a ≤ b) :=
  inferInstanceAs (Decidable (a.number ≤ b.number))

instance (a b : RegisterRef) : Decidable (a < b) :=
  inferInstanceAs (Decidable (a.number < b.number))

/-- References are compared by their numbers. -/
instance : Ord RegisterRef := ⟨fun a b => compare a.number b.number⟩

theorem le_def {a b : RegisterRef} : a ≤ b ↔ a.number ≤ b.number := Iff.rfl

theorem lt_def {a b : RegisterRef} : a < b ↔ a.number < b.number := Iff.rfl

/-- References in ascending order. -/
def sort (refs : List RegisterRef) : List RegisterRef := refs.mergeSort (· ≤ ·)

/-- How each reference of a list compares with the one after it. -/
def neighbours (refs : List RegisterRef) : List Ordering := List.zipWith compare refs refs.tail

end RegisterRef

/-! ### Classifiers -/

/-- A way to resolve register references. It is total: every reference stands for one register. -/
abbrev Classifier := RegisterRef → Register

namespace Classifier

/-- Every reference stands for the register of one bank that has the number of the reference as its
index. -/
def uniform (bank : Bank) : Classifier := fun ref => ⟨bank, ref.number⟩

/-- References stand for the entries of a non-empty table, which starts again at its end. -/
def cyclic (table : List Register) (h : table ≠ []) : Classifier := fun ref =>
  table.get ⟨ref.number.toNat % table.length, Nat.mod_lt _ (List.length_pos_iff.mpr h)⟩

end Classifier

end PowerDisasm
