import Mathlib.Data.List.ReduceOption
import PowerDisasm.Proofs.Symbol.Contents
import PowerDisasm.Symbol.Cursor

/-!
# Walks that meet between the ends

Whatever the order in which the two ends of a cursor take turns, the symbols still to be drawn are
the middle of the table: as many are missing in front as were drawn from the front, and as many
behind as were drawn from the back. One step keeps this, and then every walk does.

## Main definitions

* `SymbolTable.Cursor.after`: the cursor at the end of a walk
* `SymbolTable.middle`: entries without some in front and some behind

## Main results

* `SymbolTable.Cursor.remaining_next?`, `SymbolTable.Cursor.remaining_after`: the middle is left, by
  a step and by a walk
* `SymbolTable.Cursor.perm_after`: what is drawn and what remains make up the table
* `SymbolTable.walk_from_both_ends`: the answer to every step of every walk
-/

namespace PowerDisasm

namespace SymbolTable

/-! ### The middle of a list -/

/-- What is left of `entries` when `front` of them are taken away in front and `back` of them
behind. It is empty when there are no more than these. -/
def middle (entries : List SymbolEntry) (front back : Nat) : List SymbolEntry :=
  (entries.drop front).take (entries.length - (front + back))

variable {entries : List SymbolEntry} {front back : Nat}

theorem middle_zero_zero (entries : List SymbolEntry) : middle entries 0 0 = entries := by
  rw [middle, List.drop_zero, Nat.add_zero, Nat.sub_zero, List.take_length]

theorem length_middle : (middle entries front back).length = entries.length - (front + back) := by
  rw [middle, List.length_take, List.length_drop]
  omega

theorem tail_middle : (middle entries front back).tail = middle entries (front + 1) back := by
  have hlength : entries.length - (front + back) - 1 = entries.length - (front + 1 + back) := by
    omega
  rw [middle, middle, ← List.drop_one, List.drop_take, List.drop_drop, hlength]

theorem dropLast_middle :
    (middle entries front back).dropLast = middle entries front (back + 1) := by
  have hlength : min (entries.length - (front + back) - 1) (entries.length - (front + back)) =
      entries.length - (front + (back + 1)) := by
    omega
  rw [List.dropLast_eq_take, length_middle, middle, List.take_take, hlength, middle]

theorem getElem?_middle {i : Nat} (h : i < entries.length - (front + back)) :
    (middle entries front back)[i]? = entries[front + i]? := by
  rw [middle, List.getElem?_take_of_lt h, List.getElem?_drop]

/-- The ends have met when nothing is left between them. -/
theorem middle_eq_nil_iff : middle entries front back = [] ↔ entries.length ≤ front + back := by
  rw [← List.length_eq_zero_iff, length_middle, Nat.sub_eq_zero_iff_le]

namespace Cursor

variable (c : Cursor) (e : End) (path more : List End)

/-! ### One end alone -/

/-- From the front the symbols are drawn in the order of the table. -/
theorem drain_front : c.drain .front = c.remaining := by
  obtain ⟨entries⟩ := c
  induction entries with
  | nil => exact drain_of_next?_eq_none rfl
  | cons x rest ih =>
    have hnext : next? ⟨x :: rest⟩ .front = (some x, ⟨rest⟩) := rfl
    rw [drain_of_next?_eq_some hnext, ih]

/-- From the back they are drawn in the opposite order. -/
theorem drain_back : c.drain .back = c.remaining.reverse := by
  obtain ⟨entries⟩ := c
  induction entries using List.reverseRecOn with
  | nil => exact drain_of_next?_eq_none rfl
  | append_singleton rest x ih =>
    have hnext : next? ⟨rest ++ [x]⟩ .back = (some x, ⟨rest⟩) := by simp [next?]
    rw [drain_of_next?_eq_some hnext, ih, List.reverse_concat]

/-! ### Walks -/

/-- The cursor at the end of a walk. -/
def after : Cursor := path.foldl (fun c e => (c.next? e).2) c

theorem after_concat : c.after (path ++ [e]) = ((c.after path).next? e).2 := by
  rw [after, List.foldl_append]
  rfl

/-- A walk goes on from where its first part ended. -/
theorem walk_append : c.walk (path ++ more) = c.walk path ++ (c.after path).walk more := by
  induction path generalizing c with
  | nil => rfl
  | cons e path ih =>
    rw [List.cons_append, walk, ih, walk, List.cons_append]
    rfl

/-- The answer to a step depends on the steps before it only. -/
theorem getElem?_walk :
    (c.walk (path ++ e :: more))[path.length]? = some ((c.after path).next? e).1 := by
  rw [walk_append, List.getElem?_append_right (Nat.le_of_eq (c.length_walk path)), length_walk,
    Nat.sub_self]
  rfl

/-- A step leaves the middle that is shorter by one at its end. -/
theorem remaining_next? {c : Cursor} (h : c.remaining = middle entries front back) :
    (c.next? e).2.remaining =
      match e with
      | .front => middle entries (front + 1) back
      | .back => middle entries front (back + 1) := by
  cases e with
  | front => rw [next?, h, tail_middle]
  | back => rw [next?, h, dropLast_middle]

/-- A walk leaves the middle that is shorter at each end by the steps from there. -/
theorem remaining_after :
    (c.after path).remaining =
      middle c.remaining (path.count End.front) (path.count End.back) := by
  induction path using List.reverseRecOn with
  | nil => exact (middle_zero_zero _).symm
  | append_singleton path e ih =>
    rw [after_concat, remaining_next? e ih, List.count_append, List.count_append]
    cases e <;> rfl

theorem count_front_add_count_back : path.count End.front + path.count End.back = path.length := by
  induction path with
  | nil => rfl
  | cons e path ih => cases e <;> simp <;> omega

theorem length_remaining_after :
    (c.after path).remaining.length = c.remaining.length - path.length := by
  rw [remaining_after, length_middle, count_front_add_count_back]

/-- After fewer steps than there are symbols, a step from the front draws the one behind those
drawn from the front. -/
theorem exists_getElem?_walk_front (h : path.length < c.remaining.length) :
    ∃ x, c.remaining[path.count End.front]? = some x ∧
      (c.walk (path ++ .front :: more))[path.length]? = some (some x) := by
  have hcount := count_front_add_count_back path
  have hplace : path.count End.front < c.remaining.length := by omega
  refine ⟨_, List.getElem?_eq_getElem hplace, ?_⟩
  rw [getElem?_walk, next?, List.head?_eq_getElem?, remaining_after, getElem?_middle (by omega),
    Nat.add_zero, List.getElem?_eq_getElem hplace]

/-- After fewer steps than there are symbols, a step from the back draws the one before those drawn
from the back. -/
theorem exists_getElem?_walk_back (h : path.length < c.remaining.length) :
    ∃ x, c.remaining[c.remaining.length - 1 - path.count End.back]? = some x ∧
      (c.walk (path ++ .back :: more))[path.length]? = some (some x) := by
  have hcount := count_front_add_count_back path
  have hplace : c.remaining.length - 1 - path.count End.back < c.remaining.length := by omega
  have hlast : path.count End.front +
      (c.remaining.length - (path.count End.front + path.count End.back) - 1) =
        c.remaining.length - 1 - path.count End.back := by
    omega
  refine ⟨_, List.getElem?_eq_getElem hplace, ?_⟩
  rw [getElem?_walk, next?, List.getLast?_eq_getElem?, remaining_after, length_middle,
    getElem?_middle (by omega), hlast, List.getElem?_eq_getElem hplace]

/-- After as many steps as there are symbols no step draws any. -/
theorem getElem?_walk_eq_none (h : c.remaining.length ≤ path.length) :
    (c.walk (path ++ e :: more))[path.length]? = some none := by
  have hnil : (c.after path).remaining = [] := by
    rw [remaining_after, middle_eq_nil_iff, count_front_add_count_back]
    exact h
  rw [walk_append, List.getElem?_append_right (Nat.le_of_eq (c.length_walk path)),
    walk_of_remaining_eq_nil hnil, length_walk, Nat.sub_self]
  rfl

/-! ### What is drawn -/

/-- A step takes the symbol that it draws from those that remain. -/
theorem perm_next? : ((c.next? e).1.toList ++ (c.next? e).2.remaining).Perm c.remaining := by
  obtain ⟨entries⟩ := c
  cases e with
  | front => cases entries <;> simp [next?]
  | back =>
    rcases List.eq_nil_or_concat entries with rfl | ⟨rest, x, rfl⟩
    · exact .nil
    · simpa [next?] using (List.perm_append_singleton x rest).symm

/-- The symbols drawn in a walk and those that remain are together the ones that there were. -/
theorem perm_after :
    ((c.walk path).reduceOption ++ (c.after path).remaining).Perm c.remaining := by
  induction path generalizing c with
  | nil => exact .refl _
  | cons e path ih =>
    have hcons : (c.walk (e :: path)).reduceOption =
        (c.next? e).1.toList ++ ((c.next? e).2.walk path).reduceOption := by
      rw [walk, ← List.singleton_append, List.reduceOption_append, List.reduceOption_singleton]
    rw [hcons, List.append_assoc]
    exact ((ih _).append_left _).trans (c.perm_next? e)

/-- Every step draws a symbol until all are drawn. -/
theorem length_reduceOption_walk :
    (c.walk path).reduceOption.length = min path.length c.remaining.length := by
  have hlength := (c.perm_after path).length_eq
  rw [List.length_append, length_remaining_after] at hlength
  omega

end Cursor

/-! ### Walking a table -/

theorem length_remaining_cursor (t : SymbolTable) : t.cursor.remaining.length = t.size := rfl

theorem nodup_toList (t : SymbolTable) : t.toList.Nodup := t.nodup_map_fst_toList.of_map

/-- From the front a table is drawn in strictly ascending order of the addresses, and what is drawn
are the names that are found, as many as its size says; from the back it is drawn in the opposite
order. When the two ends take turns in any way, and fewer symbols than the size have been drawn, the
next step from the front draws the symbol behind as many as there were steps from the front, and the
next from the back the symbol before as many as there were steps from the back. Once as many have
been drawn as the size says, all later steps draw none. So no walk draws a symbol twice, or one that
is not in the table, and a walk with at least as many steps as the table has symbols draws each of
them once. -/
theorem walk_from_both_ends (t : SymbolTable) :
    let entries := t.cursor.drain .front
    ((entries.Pairwise fun a b => a.1 < b.1) ∧
      (∀ (a : Address) (name : String), (a, name) ∈ entries ↔ t.find? a = some name) ∧
      entries.length = t.size ∧
      t.cursor.drain .back = entries.reverse) ∧
    (∀ earlier later : List End,
      let drawn := (t.cursor.walk earlier).reduceOption
      let answer (e : End) := (t.cursor.walk (earlier ++ e :: later))[earlier.length]?
      (drawn.length < t.size →
        (∃ x, entries[earlier.count End.front]? = some x ∧ answer .front = some (some x)) ∧
        ∃ x, entries[t.size - 1 - earlier.count End.back]? = some x ∧
          answer .back = some (some x)) ∧
      (t.size ≤ drawn.length → ∀ e, answer e = some none)) ∧
    ∀ path : List End,
      let drawn := (t.cursor.walk path).reduceOption
      drawn.Nodup ∧ drawn ⊆ entries ∧ (t.size ≤ path.length → drawn.Perm entries) := by
  intro entries
  have hentries : entries = t.toList := t.cursor.drain_front
  have hsize := t.length_remaining_cursor
  have hlength (path : List End) := t.cursor.length_reduceOption_walk path
  refine ⟨?_, fun earlier later => ⟨fun hfewer => ?_, fun hall e => ?_⟩, fun path => ?_⟩
  · rw [hentries]
    exact ⟨t.ascending, fun a name => t.mem_toList_iff, rfl, t.cursor.drain_back⟩
  · have hshort : earlier.length < t.cursor.remaining.length := by
      have hdrawn := hlength earlier
      omega
    rw [hentries]
    exact ⟨t.cursor.exists_getElem?_walk_front earlier later hshort,
      t.cursor.exists_getElem?_walk_back earlier later hshort⟩
  · have hlong : t.cursor.remaining.length ≤ earlier.length := by
      have hdrawn := hlength earlier
      omega
    exact t.cursor.getElem?_walk_eq_none e earlier later hlong
  · have hperm := t.cursor.perm_after path
    have hnodup := hperm.nodup_iff.mpr t.nodup_toList
    refine ⟨hnodup.of_append_left, fun x hx => ?_, fun hlong => ?_⟩
    · rw [hentries]
      exact hperm.subset (List.mem_append_left _ hx)
    · -- So many steps leave nothing, and then all that there was has been drawn.
      have hleft := t.cursor.length_remaining_after path
      have hnone : (t.cursor.after path).remaining = [] := by
        rw [← List.length_eq_zero_iff, hleft, hsize]
        exact Nat.sub_eq_zero_of_le hlong
      rw [hnone, List.append_nil] at hperm
      rw [hentries]
      exact hperm

/-- The ends meet at the symbol in the middle, and it is drawn by the one that comes first. -/
theorem walk_from_both_ends_of_three :
    let t := ofList [(3, "c"), (1, "a"), (2, "b")]
    (t.cursor.walk [.back, .front]).reduceOption.length < t.size ∧
      (∃ x, (t.cursor.drain .front)[1]? = some x ∧
        (t.cursor.walk [.back, .front, .front, .back])[2]? = some (some x)) ∧
      t.size ≤ (t.cursor.walk [.back, .front, .front]).reduceOption.length ∧
      (t.cursor.walk [.back, .front, .front, .back])[3]? = some none ∧
      t.size ≤ [End.back, .front, .front, .back].length ∧
      (t.cursor.walk [.back, .front, .front, .back]).reduceOption.Perm (t.cursor.drain .front) := by
  intro t
  have hfewer : (t.cursor.walk [.back, .front]).reduceOption.length < t.size := by decide
  have hall : t.size ≤ (t.cursor.walk [.back, .front, .front]).reduceOption.length := by decide
  have hlong : t.size ≤ [End.back, .front, .front, .back].length := by decide
  obtain ⟨-, hsteps, hpaths⟩ := t.walk_from_both_ends
  exact ⟨hfewer, ((hsteps [.back, .front] [.back]).1 hfewer).1, hall,
    (hsteps [.back, .front, .front] []).2 hall .back, hlong, (hpaths _).2.2 hlong⟩

end SymbolTable

end PowerDisasm
