import Mathlib.Data.List.Sort
import PowerDisasm.Proofs.Symbol.Walk

/-!
# Tables that hold the same names are equal

The entries of a table are ordered by address, and no address has two, so tables that find the same
names are equal as values, however they came about. Of the symbols that went into a table only the
last at each address counts.

## Main results

* `SymbolTable.ext_find?`: a table is determined by the names that are found in it
* `SymbolTable.lastName_eq_some_iff`: where each address comes once, each symbol is the last
* `SymbolTable.ofList_eq_of_perm_toList`: the entries of a table, in any order, make up the table
* `SymbolTable.eq_iff_same_names`: equal tables in terms of look-ups, of entries and of what was
  written
-/

namespace PowerDisasm

namespace SymbolTable

variable {t u : SymbolTable} {symbols more : List SymbolEntry}

instance : Std.Irrefl fun a b : SymbolEntry => a.1 < b.1 := ⟨fun a => UInt64.lt_irrefl a.1⟩

instance : Std.Antisymm fun a b : SymbolEntry => a.1 < b.1 :=
  ⟨fun _ _ hab hba => absurd hba (UInt64.lt_asymm hab)⟩

theorem ext_toList (h : t.toList = u.toList) : t = u := by
  cases t
  cases u
  cases h
  rfl

/-- Tables in which the same names are found are equal. -/
theorem ext_find? (h : ∀ address, t.find? address = u.find? address) : t = u := by
  have hmem : ∀ e : SymbolEntry, e ∈ t.toList ↔ e ∈ u.toList := by
    rintro ⟨address, name⟩
    rw [mem_toList_iff, mem_toList_iff, h]
  apply ext_toList
  exact t.ascending.eq_of_mem_iff u.ascending hmem

/-! ### What was written -/

theorem ofList_eq_ofList_iff :
    ofList symbols = ofList more ↔
      ∀ address, lastName symbols address = lastName more address := by
  simp only [← find?_ofList]
  constructor
  · intro h address
    rw [h]
  · exact ext_find?

/-- Histories end in one table when what they have written since its creation comes to the same. -/
theorem replay_eq_replay_iff {history history' : List Edit} :
    replay history = replay history' ↔
      ∀ address, lastName (written history) address = lastName (written history') address := by
  rw [replay_eq_ofList, replay_eq_ofList, ofList_eq_ofList_iff]

/-- Symbols that were just written change nothing when they are written again. -/
theorem extend_extend_self (t : SymbolTable) (symbols : List SymbolEntry) :
    (t.extend symbols).extend symbols = t.extend symbols := by
  apply ext_find?
  intro address
  rw [find?_extend, find?_extend, ← Option.or_assoc, Option.or_self]

/-- Where each address comes once, each symbol is the last at its address. -/
theorem lastName_eq_some_iff (h : (symbols.map Prod.fst).Nodup) {address : Address}
    {name : String} : lastName symbols address = some name ↔ (address, name) ∈ symbols := by
  induction symbols with
  | nil => simp [lastName_nil]
  | cons e rest ih =>
    obtain ⟨start, held⟩ := e
    rw [List.map_cons, List.nodup_cons] at h
    rw [lastName_cons, List.mem_cons, ← ih h.2]
    by_cases hstart : address = start
    · subst hstart
      have hnone : lastName rest address = none := by
        rw [← Option.not_isSome_iff_eq_none, isSome_lastName_iff]
        exact h.1
      simp [hnone, eq_comm]
    · simp [hstart]

/-- The entries of a table, written in any order, make up the table again. -/
theorem ofList_eq_of_perm_toList (h : symbols.Perm t.toList) : ofList symbols = t := by
  have hnodup : (symbols.map Prod.fst).Nodup :=
    (h.map Prod.fst).nodup_iff.mpr t.nodup_map_fst_toList
  apply ext_find?
  intro address
  ext name
  rw [find?_ofList, lastName_eq_some_iff hnodup, h.mem_iff, mem_toList_iff]

/-- Two tables are equal just when the same names are found in them at every address, and just when
the same symbols are drawn from them in the same order. Two histories end in equal tables just when
each address has the same last name in what they have written, and so do two lists that tables are
made from. A table made from two lists one after the other is the table of the first extended by the
second, a second extension by the same list changes nothing, and the symbols drawn from a table,
from its front or from its back, make up an equal table. -/
theorem eq_iff_same_names :
    (∀ t u : SymbolTable,
      (t = u ↔ ∀ address, t.find? address = u.find? address) ∧
      (t = u ↔ t.cursor.drain .front = u.cursor.drain .front)) ∧
    (∀ history history' : List Edit, replay history = replay history' ↔
      ∀ address, lastName (written history) address = lastName (written history') address) ∧
    (∀ symbols more : List SymbolEntry,
      (ofList symbols = ofList more ↔
        ∀ address, lastName symbols address = lastName more address) ∧
      ofList (symbols ++ more) = (ofList symbols).extend more) ∧
    ∀ t : SymbolTable,
      (∀ symbols : List SymbolEntry, (t.extend symbols).extend symbols = t.extend symbols) ∧
      ofList (t.cursor.drain .front) = t ∧
      ofList (t.cursor.drain .back) = t := by
  refine ⟨fun t u => ⟨⟨?_, ext_find?⟩, ?_⟩, fun history history' => replay_eq_replay_iff,
    fun symbols more => ⟨ofList_eq_ofList_iff, extend_append empty symbols more⟩,
    fun t => ⟨t.extend_extend_self, ?_, ?_⟩⟩
  · rintro rfl address
    rfl
  · rw [Cursor.drain_front, Cursor.drain_front]
    exact ⟨congrArg toList, ext_toList⟩
  · rw [Cursor.drain_front]
    exact ofList_eq_of_perm_toList (.refl _)
  · rw [Cursor.drain_back]
    exact ofList_eq_of_perm_toList (List.reverse_perm _)

/-- A name that was replaced and the order of the other addresses leave no trace. -/
example :
    ofList [(2, "b"), (1, "x"), (3, "c"), (1, "a")] = ofList [(3, "c"), (1, "a"), (2, "b")] := by
  decide

end SymbolTable

end PowerDisasm
