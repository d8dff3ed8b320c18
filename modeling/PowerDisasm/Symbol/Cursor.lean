import PowerDisasm.Symbol.Table

/-!
# Walking a symbol table from both ends

A cursor over a table gives out the symbols one by one, from the front in ascending order of their
addresses and from the back in descending order. Both ends draw on the same stock, and when they
meet nothing is left for either.

## Main definitions

* `SymbolTable.Cursor`: the symbols not given out yet
* `SymbolTable.Cursor.next?`, `SymbolTable.Cursor.walk`: one step from an end, and several
* `SymbolTable.Cursor.drain`: all the symbols drawn from one end
-/

namespace PowerDisasm

namespace SymbolTable

/-- The two ends of a table, the lowest address in front. -/
inductive End
  | front
  | back
  deriving DecidableEq

/-- A place between the ends of a table, as the symbols that are still to be drawn, from the lowest
address up. -/
structure Cursor where
  remaining : List SymbolEntry
  deriving DecidableEq

/-- A cursor that has drawn nothing yet. -/
def cursor (t : SymbolTable) : Cursor := ⟨t.toList⟩

namespace Cursor

/-- Draw the next symbol from an end; there is none once all are drawn. -/
def next? (c : Cursor) : End → Option SymbolEntry × Cursor
  | .front => (c.remaining.head?, ⟨c.remaining.tail⟩)
  | .back => (c.remaining.getLast?, ⟨c.remaining.dropLast⟩)

/-- What is drawn step by step, each step from the end it names. -/
def walk (c : Cursor) : List End → List (Option SymbolEntry)
  | [] => []
  | e :: es => (c.next? e).1 :: (c.next? e).2.walk es

/-- A step that draws a symbol leaves fewer of them. -/
theorem length_lt_of_next?_eq {c rest : Cursor} {e : End} {symbol : SymbolEntry}
    (h : c.next? e = (some symbol, rest)) : rest.remaining.length < c.remaining.length := by
  have hne : c.remaining ≠ [] := by
    intro hnil
    cases e <;> simp [next?, hnil] at h
  have hpos := List.length_pos_iff.mpr hne
  have hrest : rest = (c.next? e).2 := by rw [h]
  cases e with
  | front =>
    rw [hrest, next?, List.length_tail]
    omega
  | back =>
    rw [hrest, next?, List.length_dropLast]
    omega

/-- The symbols drawn from one end, in the order in which they are drawn, until none is left. -/
def drain (c : Cursor) (e : End) : List SymbolEntry :=
  match _h : c.next? e with
  | (none, _) => []
  | (some symbol, rest) => symbol :: rest.drain e
termination_by c.remaining.length
decreasing_by exact length_lt_of_next?_eq _h

theorem drain_of_next?_eq_none {c rest : Cursor} {e : End} (h : c.next? e = (none, rest)) :
    c.drain e = [] := by
  rw [drain]
  split
  case h_1 => rfl
  case h_2 hsome =>
    rw [h] at hsome
    cases hsome

theorem drain_of_next?_eq_some {c rest : Cursor} {e : End} {symbol : SymbolEntry}
    (h : c.next? e = (some symbol, rest)) : c.drain e = symbol :: rest.drain e := by
  rw [drain]
  split
  case h_1 hnone =>
    rw [h] at hnone
    cases hnone
  case h_2 hsome =>
    rw [h] at hsome
    cases hsome
    rfl

/-- A walk answers every step. -/
theorem length_walk (c : Cursor) (path : List End) : (c.walk path).length = path.length := by
  induction path generalizing c with
  | nil => rfl
  | cons e es ih => rw [walk, List.length_cons, List.length_cons, ih]

/-- Once all symbols are drawn, no step from either end draws another. -/
theorem walk_of_remaining_eq_nil {c : Cursor} (h : c.remaining = []) (path : List End) :
    c.walk path = List.replicate path.length none := by
  induction path generalizing c with
  | nil => rfl
  | cons e es ih =>
    have next : c.next? e = (none, ⟨[]⟩) := by cases e <;> simp [next?, h]
    rw [walk, next, ih rfl, List.length_cons, List.replicate_succ]

end Cursor

end SymbolTable

end PowerDisasm
