/-!
# Symbol tables

A symbol table gives names to addresses, at most one to each, and keeps its entries in the order of
the addresses. Besides the name at an address one can ask for the nearest symbol at or below it,
which is the symbol that the address belongs to.

## Main definitions

* `SymbolTable`: entries in strictly ascending order of their addresses
* `SymbolTable.insert`, `SymbolTable.extend`, `SymbolTable.ofList`: adding symbols
* `SymbolTable.find?`, `SymbolTable.nearest?`: the two look-ups

## Main results

* `SymbolTable.find?_insert`, `SymbolTable.replaced_insert`: what is found after an insertion, and
  what an insertion gives back
-/

namespace PowerDisasm

/-- A place in memory. -/
abbrev Address := UInt64

/-- An address and its name. -/
abbrev SymbolEntry := Address × String

/-- Names for addresses, in the order of the addresses. -/
structure SymbolTable where
  toList : List SymbolEntry
  ascending : toList.Pairwise fun a b => a.1 < b.1
  deriving DecidableEq

namespace SymbolTable

/-- The table without symbols. -/
def empty : SymbolTable := ⟨[], .nil⟩

instance : Inhabited SymbolTable := ⟨empty⟩

/-- How many symbols a table holds. -/
def size (t : SymbolTable) : Nat := t.toList.length

/-- The table holds no symbol. -/
def isEmpty (t : SymbolTable) : Bool := t.toList.isEmpty

/-- The name at exactly the given address. -/
def find? (t : SymbolTable) (address : Address) : Option String := t.toList.lookup address

/-- The name of the last symbol that starts at or below an address, and how far the address lies
behind the start. -/
def nearest? (t : SymbolTable) (address : Address) : Option (String × UInt64) :=
  (t.toList.takeWhile (·.1 ≤ address)).getLast?.map fun (start, name) => (name, address - start)

/-! ### Insertion -/

/-- Put a symbol in its place among entries in ascending order. An entry at the same address makes
room for it, and its name is given back. -/
def place (address : Address) (name : String) :
    List SymbolEntry → Option String × List SymbolEntry
  | [] => (none, [(address, name)])
  | (start, held) :: rest =>
    if address < start then (none, (address, name) :: (start, held) :: rest)
    else if address = start then (some held, (address, name) :: rest)
    else
      let (replaced, rest) := place address name rest
      (replaced, (start, held) :: rest)

/-- After a symbol is placed there are its own entry and entries that were there before. -/
theorem mem_place {address : Address} {name : String} {l : List SymbolEntry} {e : SymbolEntry}
    (h : e ∈ (place address name l).2) : e = (address, name) ∨ e ∈ l := by
  induction l with
  | nil => exact .inl (List.mem_singleton.mp h)
  | cons x rest ih =>
    obtain ⟨start, held⟩ := x
    rw [place] at h
    split at h
    · exact List.mem_cons.mp h
    · split at h
      · rcases List.mem_cons.mp h with h | h
        · exact .inl h
        · exact .inr (List.mem_cons_of_mem _ h)
      · rcases List.mem_cons.mp h with rfl | h
        · exact .inr List.mem_cons_self
        · rcases ih h with h | h
          · exact .inl h
          · exact .inr (List.mem_cons_of_mem _ h)

/-- Placing a symbol keeps the order. -/
theorem ascending_place (address : Address) (name : String) {l : List SymbolEntry}
    (h : l.Pairwise fun a b => a.1 < b.1) :
    (place address name l).2.Pairwise fun a b => a.1 < b.1 := by
  induction l with
  | nil => exact List.pairwise_singleton _ _
  | cons x rest ih =>
    obtain ⟨start, held⟩ := x
    obtain ⟨head, tail⟩ := List.pairwise_cons.mp h
    rw [place]
    split
    case isTrue below =>
      refine List.pairwise_cons.mpr ⟨fun e he => ?_, h⟩
      rcases List.mem_cons.mp he with rfl | he
      · exact below
      · exact UInt64.lt_trans below (head e he)
    case isFalse above =>
      split
      case isTrue same =>
        subst same
        exact List.pairwise_cons.mpr ⟨head, tail⟩
      case isFalse different =>
        have gap : start < address :=
          UInt64.lt_of_le_of_ne (UInt64.not_lt.mp above) (Ne.symm different)
        refine List.pairwise_cons.mpr ⟨fun e he => ?_, ih tail⟩
        rcases mem_place he with rfl | he
        · exact gap
        · exact head e he

/-- Name an address. The name it had before is given back along with the new table. -/
def insert (t : SymbolTable) (address : Address) (name : String) : Option String × SymbolTable :=
  let placed := place address name t.toList
  (placed.1, ⟨placed.2, ascending_place address name t.ascending⟩)

/-- Name addresses one after the other; of two names for one address the later remains. -/
def extend (t : SymbolTable) (symbols : List SymbolEntry) : SymbolTable :=
  symbols.foldl (fun t e => (t.insert e.1 e.2).2) t

/-- The table of the given symbols; of two names for one address the later remains. -/
def ofList (symbols : List SymbolEntry) : SymbolTable := empty.extend symbols

/-! ### What is found -/

@[simp] theorem find?_empty (address : Address) : empty.find? address = none := rfl

theorem lookup_cons_of_ne {address start : Address} (h : address ≠ start) (name : String)
    (rest : List SymbolEntry) : ((start, name) :: rest).lookup address = rest.lookup address := by
  simp [List.lookup_cons, beq_false_of_ne h]

/-- Below the first of its entries a table holds nothing. -/
theorem lookup_eq_none_of_forall_lt {l : List SymbolEntry} {address : Address}
    (h : ∀ e ∈ l, address < e.1) : l.lookup address = none := by
  refine List.lookup_eq_none_iff.mpr fun e he => ?_
  rw [bne_iff_ne]
  exact UInt64.ne_of_lt (h e he)

/-- What a placed symbol replaces is what was found at its address. -/
theorem replaced_place (address : Address) (name : String) {l : List SymbolEntry}
    (h : l.Pairwise fun a b => a.1 < b.1) : (place address name l).1 = l.lookup address := by
  induction l with
  | nil => rfl
  | cons x rest ih =>
    obtain ⟨start, held⟩ := x
    obtain ⟨head, tail⟩ := List.pairwise_cons.mp h
    rw [place]
    split
    case isTrue below =>
      rw [lookup_cons_of_ne (UInt64.ne_of_lt below)]
      exact (lookup_eq_none_of_forall_lt fun e he => UInt64.lt_trans below (head e he)).symm
    case isFalse =>
      split
      case isTrue same => rw [same, List.lookup_cons_self]
      case isFalse different => rw [lookup_cons_of_ne different, ← ih tail]

/-- A placed symbol is found at its address; elsewhere nothing changes. -/
theorem lookup_place (address : Address) (name : String) {l : List SymbolEntry} (x : Address) :
    (place address name l).2.lookup x = if x = address then some name else l.lookup x := by
  induction l with
  | nil =>
    by_cases hx : x = address
    · rw [if_pos hx, hx, place, List.lookup_cons_self]
    · rw [if_neg hx, place, lookup_cons_of_ne hx]
  | cons y rest ih =>
    obtain ⟨start, held⟩ := y
    rw [place]
    split
    · by_cases hx : x = address
      · rw [if_pos hx, hx, List.lookup_cons_self]
      · rw [if_neg hx, lookup_cons_of_ne hx]
    · split
      case isTrue same =>
        by_cases hx : x = address
        · rw [if_pos hx, hx, List.lookup_cons_self]
        · rw [if_neg hx, lookup_cons_of_ne hx, lookup_cons_of_ne (same ▸ hx)]
      case isFalse different =>
        by_cases hs : x = start
        · have hx : x ≠ address := fun e => different (e ▸ hs)
          rw [if_neg hx, hs, List.lookup_cons_self, List.lookup_cons_self]
        · rw [lookup_cons_of_ne hs, lookup_cons_of_ne hs]
          exact ih

/-- An insertion gives back the name that was found at the address before. -/
theorem replaced_insert (t : SymbolTable) (address : Address) (name : String) :
    (t.insert address name).1 = t.find? address :=
  replaced_place address name t.ascending

/-- After an insertion the new name is found at its address, and at every other address what was
found before. -/
theorem find?_insert (t : SymbolTable) (address : Address) (name : String) (x : Address) :
    (t.insert address name).2.find? x = if x = address then some name else t.find? x :=
  lookup_place address name x

end SymbolTable

end PowerDisasm
