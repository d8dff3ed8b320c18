import PowerDisasm.Text

/-!
# Special purpose registers

The miscellaneous bank starts with four registers that have names: the condition register, the
fixed-point exception register, the link register and the count register. Their codes are their
indices in the bank. A code may come in a word of any width, and a word that does not fit in a byte
is no code, whatever its low byte is. The names stand in a table at the positions of the codes.

## Main definitions

* `SpecialRegister`, `SpecialRegister.code`: the named registers and their codes
* `SpecialRegister.ofByte?`, `SpecialRegister.ofWord`, `SpecialRegister.ofIndex?`: reading a code
* `SpecialRegister.nameAt`, `SpecialRegister.name`: reading the table of names

## Main results

* `SpecialRegister.byte?_eq_some_iff`: a word is narrowed only to the byte of the same value
* `SpecialRegister.ofWord_eq_ok_iff`: a word is read as the register whose code it is
-/

namespace PowerDisasm

/-- The registers of the miscellaneous bank that have a name. -/
inductive SpecialRegister
  | cr
  | xer
  | lr
  | ctr
  deriving DecidableEq

/-- A look-up behind the end of a table, with the length of the table and the position that was
asked for. -/
structure OutOfBounds where
  length : Nat
  index : Nat
  deriving DecidableEq

/-- What is said about a look-up behind the end of a table. -/
def OutOfBounds.message (e : OutOfBounds) : String :=
  "index out of bounds: the len is " ++ Numeral.decimal e.length ++ " but the index is " ++
    Numeral.decimal e.index

namespace SpecialRegister

/-- The named registers, in the order of their codes. -/
def all : List SpecialRegister := [.cr, .xer, .lr, .ctr]

/-- How many registers have a name. -/
def count : Nat := all.length

/-- The code of a register, which is its index in the miscellaneous bank. -/
def code : SpecialRegister → UInt8
  | .cr => 0
  | .xer => 1
  | .lr => 2
  | .ctr => 3

/-- The code of a register as a word of width `w`. -/
def toWord (w : Nat) (r : SpecialRegister) : BitVec w := BitVec.ofNat w r.code.toNat

/-! ### The table of names -/

/-- The names, in the order of the codes. -/
def names : List String := ["cr", "xer", "lr", "ctr"]

/-- The name at a position of the table of names. -/
def nameAt (index : UInt64) : Except OutOfBounds String :=
  match names[index.toNat]? with
  | some n => .ok n
  | none => .error ⟨names.length, index.toNat⟩

theorem code_lt_length_names (r : SpecialRegister) : r.code.toNat < names.length := by
  cases r <;> decide

/-- The name of a register in assembly text, which the table holds at the position of its code. -/
def name (r : SpecialRegister) : String := names.get ⟨r.code.toNat, r.code_lt_length_names⟩

/-- The register of the given name. -/
def ofName? (word : String) : Option SpecialRegister := all.find? (·.name == word)

theorem nameAt_code (r : SpecialRegister) : nameAt r.code.toUInt64 = .ok r.name := by
  cases r <;> rfl

theorem name_mem_names (r : SpecialRegister) : r.name ∈ names := List.get_mem _ _

theorem ofName?_name (r : SpecialRegister) : ofName? r.name = some r := by
  cases r <;> decide

/-! ### Reading a code -/

/-- The register of a code that is given as a byte. -/
def ofByte? (b : UInt8) : Option SpecialRegister :=
  if b = 0 then some .cr
  else if b = 1 then some .xer
  else if b = 2 then some .lr
  else if b = 3 then some .ctr
  else none

/-- The byte that has the same value as `v`, if there is one. -/
def byte? {w : Nat} (v : BitVec w) : Option UInt8 :=
  if v.toNat < UInt8.size then some (UInt8.ofNat v.toNat) else none

/-- The register whose code is `v`. A word that is no code is given back as it came. -/
def ofWord {w : Nat} (v : BitVec w) : Except (BitVec w) SpecialRegister :=
  match (byte? v).bind ofByte? with
  | some r => .ok r
  | none => .error v

/-- The named register at an index of the miscellaneous bank. -/
def ofIndex? (index : UInt16) : Option SpecialRegister :=
  (ofWord index.toBitVec).toOption

theorem ofByte?_eq_some_iff {b : UInt8} {r : SpecialRegister} :
    ofByte? b = some r ↔ r.code = b := by
  unfold ofByte?
  cases r <;> grind [code]

/-- A word is narrowed to the byte of the same value. Where there is no such byte nothing is cut
off to make one. -/
theorem byte?_eq_some_iff {w : Nat} {v : BitVec w} {b : UInt8} :
    byte? v = some b ↔ v.toNat = b.toNat := by
  unfold byte?
  split
  case isTrue h =>
    rw [Option.some.injEq, ← UInt8.toNat_inj, UInt8.toNat_ofNat', Nat.mod_eq_of_lt h]
  case isFalse h =>
    have hbyte : b.toNat < UInt8.size := b.toNat_lt
    constructor
    · intro e
      cases e
    · intro e
      omega

/-- A word is read as a register just when its value is the code of that register. -/
theorem ofWord_eq_ok_iff {w : Nat} {v : BitVec w} {r : SpecialRegister} :
    ofWord v = .ok r ↔ v.toNat = r.code.toNat := by
  have key : (byte? v).bind ofByte? = some r ↔ v.toNat = r.code.toNat := by
    rw [Option.bind_eq_some_iff]
    simp only [byte?_eq_some_iff, ofByte?_eq_some_iff, exists_eq_right']
  rw [← key, ofWord]
  cases (byte? v).bind ofByte? <;> simp

/-- A word that is no code is the error of reading it. -/
theorem ofWord_eq_error {w : Nat} {v u : BitVec w} (h : ofWord v = .error u) : u = v := by
  unfold ofWord at h
  split at h <;> simp_all

/-- An index of the miscellaneous bank has a name just when it is a code. -/
theorem ofIndex?_eq_some_iff {i : UInt16} {r : SpecialRegister} :
    ofIndex? i = some r ↔ i.toNat = r.code.toNat := by
  rw [← UInt16.toNat_toBitVec, ← ofWord_eq_ok_iff, ofIndex?]
  cases ofWord i.toBitVec <;> simp [Except.toOption]

end SpecialRegister

end PowerDisasm
