import Mathlib.Data.UInt
import PowerDisasm.Proofs.Symbol.Contents

/-!
# The nearest symbol at or below an address

An address belongs to the last symbol that starts at or below it, which is a symbol that starts
there and after which, up to the address, no other starts. There is at most one, and the look-up
finds it if there is one. A new symbol takes over the addresses from its own up to the next symbol:
every other address is below the new symbol, or cut off from it by a symbol that starts in between.

## Main definitions

* `SymbolTable.IsNearest`: a symbol starts at or below an address and no other comes between
* `SymbolTable.ClearTo`: no symbol starts behind one address up to another

## Main results

* `SymbolTable.nearest?_eq_none_iff`, `SymbolTable.nearest?_eq_some_iff`: what the look-up finds
* `SymbolTable.IsNearest.start_le_start`, `SymbolTable.IsNearest.exists_nearest?_of_le`: a higher
  address belongs to a symbol too, and to no lower one
* `SymbolTable.nearest?_is_floor`: the look-up in terms of the names at single addresses
* `SymbolTable.nearest?_insert`: the look-up after an insertion
-/

namespace PowerDisasm

namespace SymbolTable

variable {t : SymbolTable} {x y start start' : Address} {name name' : String} {offset : UInt64}

/-- The symbol at `start` is the nearest one at or below `x`: no symbol starts behind it up to
`x`. -/
structure IsNearest (t : SymbolTable) (x start : Address) (name : String) : Prop where
  start_le : start ≤ x
  found : t.find? start = some name
  gap : ∀ s, start < s → s ≤ x → t.find? s = none

theorem IsNearest.find?_ne_none (h : t.IsNearest x start name) : t.find? start ≠ none := by
  rw [h.found]
  exact Option.some_ne_none name

/-- A higher address belongs to the same symbol or to a higher one. -/
theorem IsNearest.start_le_start (h : t.IsNearest x start name) (h' : t.IsNearest y start' name')
    (hxy : x ≤ y) : start ≤ start' := by
  by_contra hlt
  have hbelow := UInt64.le_trans h.start_le hxy
  exact h.find?_ne_none (h'.gap start (UInt64.not_le.mp hlt) hbelow)

theorem IsNearest.unique (h : t.IsNearest x start name) (h' : t.IsNearest x start' name') :
    start = start' ∧ name = name' := by
  have hle := h.start_le_start h' (UInt64.le_refl x)
  have hge := h'.start_le_start h (UInt64.le_refl x)
  have hstart : start = start' := UInt64.le_antisymm hle hge
  subst hstart
  exact ⟨rfl, Option.some.inj (h.found.symm.trans h'.found)⟩

/-! ### The symbols up to an address -/

/-- The symbols that start at or below an address, in the order of their addresses. -/
def upTo (t : SymbolTable) (x : Address) : List SymbolEntry := t.toList.filter (·.1 ≤ x)

theorem mem_upTo_iff : (start, name) ∈ t.upTo x ↔ t.find? start = some name ∧ start ≤ x := by
  rw [upTo, List.mem_filter, mem_toList_iff, decide_eq_true_iff]

theorem ascending_upTo (t : SymbolTable) (x : Address) :
    (t.upTo x).Pairwise fun a b => a.1 < b.1 :=
  t.ascending.filter _

/-- Entries in ascending order start with those up to an address. -/
private theorem takeWhile_le_eq_filter {l : List SymbolEntry}
    (h : l.Pairwise fun a b => a.1 < b.1) (x : Address) :
    l.takeWhile (·.1 ≤ x) = l.filter (·.1 ≤ x) := by
  induction l with
  | nil => rfl
  | cons e rest ih =>
    obtain ⟨head, tail⟩ := List.pairwise_cons.mp h
    by_cases he : e.1 ≤ x
    · rw [List.takeWhile_cons_of_pos (by simpa using he),
        List.filter_cons_of_pos (by simpa using he), ih tail]
    · -- Once an entry starts above the address, all the rest do.
      have habove : ∀ f ∈ e :: rest, ¬ f.1 ≤ x := by
        intro f hf
        rcases List.mem_cons.mp hf with rfl | hf
        · exact he
        · exact UInt64.not_le.mpr (UInt64.lt_trans (UInt64.not_le.mp he) (head f hf))
      rw [List.takeWhile_cons_of_neg (by simpa using he)]
      exact (List.filter_eq_nil_iff.mpr (by simpa using habove)).symm

theorem nearest?_eq_map_upTo (t : SymbolTable) (x : Address) :
    t.nearest? x = (t.upTo x).getLast?.map fun (start, name) => (name, x - start) := by
  rw [nearest?, takeWhile_le_eq_filter t.ascending, upTo]

/-- The last of the symbols up to an address is the nearest. -/
theorem isNearest_of_getLast?_upTo (h : (t.upTo x).getLast? = some (start, name)) :
    t.IsNearest x start name := by
  obtain ⟨below, hsplit⟩ := List.getLast?_eq_some_iff.mp h
  have hmem : (start, name) ∈ t.upTo x := by
    rw [hsplit]
    exact List.mem_append_right _ List.mem_cons_self
  obtain ⟨hfound, hle⟩ := mem_upTo_iff.mp hmem
  refine ⟨hle, hfound, fun s hgt hsx => ?_⟩
  cases hs : t.find? s with
  | none => rfl
  | some other =>
    -- A symbol behind it would be among those up to the address, and come later in the list.
    have hother : (s, other) ∈ t.upTo x := mem_upTo_iff.mpr ⟨hs, hsx⟩
    have hascending := t.ascending_upTo x
    rw [hsplit] at hother hascending
    rcases List.mem_append.mp hother with hbelow | hlast
    · have hlt : s < start :=
        (List.pairwise_append.mp hascending).2.2 _ hbelow _ List.mem_cons_self
      exact absurd hlt (UInt64.lt_asymm hgt)
    · have hsame : s = start := congrArg Prod.fst (List.mem_singleton.mp hlast)
      exact absurd hgt (hsame ▸ UInt64.lt_irrefl s)

/-! ### The look-up -/

/-- Nothing is found just when no symbol starts at or below the address. -/
theorem nearest?_eq_none_iff : t.nearest? x = none ↔ ∀ s ≤ x, t.find? s = none := by
  rw [nearest?_eq_map_upTo, Option.map_eq_none_iff, List.getLast?_eq_none_iff]
  constructor
  · intro hnil s hs
    refine Option.eq_none_iff_forall_ne_some.mpr fun name hname => ?_
    have hmem : (s, name) ∈ t.upTo x := mem_upTo_iff.mpr ⟨hname, hs⟩
    rw [hnil] at hmem
    cases hmem
  · intro hnone
    refine List.eq_nil_iff_forall_not_mem.mpr fun ⟨s, name⟩ hmem => ?_
    obtain ⟨hfound, hle⟩ := mem_upTo_iff.mp hmem
    rw [hnone s hle] at hfound
    cases hfound

/-- What is found is the nearest symbol, with the distance from its start. -/
theorem exists_isNearest_of_nearest? (h : t.nearest? x = some (name, offset)) :
    ∃ start, t.IsNearest x start name ∧ offset = x - start := by
  rw [nearest?_eq_map_upTo, Option.map_eq_some_iff] at h
  obtain ⟨⟨start, held⟩, hlast, hpair⟩ := h
  obtain ⟨rfl, rfl⟩ := Prod.mk.inj hpair
  exact ⟨start, isNearest_of_getLast?_upTo hlast, rfl⟩

/-- The nearest symbol is found. -/
theorem IsNearest.nearest?_eq (h : t.IsNearest x start name) :
    t.nearest? x = some (name, x - start) := by
  cases hresult : t.nearest? x with
  | none =>
    have hnone := nearest?_eq_none_iff.mp hresult start h.start_le
    exact absurd hnone h.find?_ne_none
  | some result =>
    obtain ⟨start', hnearest, hoffset⟩ := exists_isNearest_of_nearest? hresult
    obtain ⟨rfl, hname⟩ := h.unique hnearest
    rw [Option.some.injEq, Prod.ext_iff]
    exact ⟨hname.symm, hoffset⟩

/-- A name and a distance are found just when the nearest symbol has that name and starts that far
below the address. -/
theorem nearest?_eq_some_iff :
    t.nearest? x = some (name, offset) ↔ offset ≤ x ∧ t.IsNearest x (x - offset) name := by
  constructor
  · intro h
    obtain ⟨start, hnearest, rfl⟩ := exists_isNearest_of_nearest? h
    rw [sub_sub_self]
    exact ⟨UInt64.sub_le hnearest.start_le, hnearest⟩
  · rintro ⟨-, hnearest⟩
    rw [hnearest.nearest?_eq, sub_sub_self]

/-- A symbol that starts at the address itself is the nearest. -/
theorem isNearest_self_iff : t.IsNearest x x name ↔ t.find? x = some name := by
  constructor
  · exact IsNearest.found
  · intro hfound
    refine ⟨UInt64.le_refl x, hfound, fun s hgt hle => ?_⟩
    exact absurd hgt (UInt64.not_lt.mpr hle)

/-- Where one address has a nearest symbol, every higher one has, and it starts no lower. -/
theorem IsNearest.exists_nearest?_of_le (h : t.IsNearest x start name) (hxy : x ≤ y) :
    ∃ name' offset', t.nearest? y = some (name', offset') ∧ start ≤ y - offset' := by
  cases hy : t.nearest? y with
  | none =>
    have hbelow := UInt64.le_trans h.start_le hxy
    exact absurd (nearest?_eq_none_iff.mp hy start hbelow) h.find?_ne_none
  | some result =>
    obtain ⟨name', offset'⟩ := result
    obtain ⟨-, hnearest⟩ := nearest?_eq_some_iff.mp hy
    exact ⟨name', offset', rfl, h.start_le_start hnearest hxy⟩

/-- The look-up at `x` finds nothing just when no symbol starts at or below `x`. It finds a name at
a distance just when the distance is at most `x`, the symbol that starts so far below `x` has the
name, and none starts between there and `x`, with `x` itself included. A name is found at `x`
exactly when it is found at distance zero. When something is found for an address, something is
found for every higher one, and its start is not lower. -/
theorem nearest?_is_floor (t : SymbolTable) (x : Address) :
    (t.nearest? x = none ↔ ∀ s ≤ x, t.find? s = none) ∧
    (∀ (name : String) (offset : UInt64), t.nearest? x = some (name, offset) ↔
      offset ≤ x ∧ t.find? (x - offset) = some name ∧
        ∀ s, x - offset < s → s ≤ x → t.find? s = none) ∧
    (∀ name, t.find? x = some name ↔ t.nearest? x = some (name, 0)) ∧
    ∀ y, x ≤ y → ∀ (name : String) (offset : UInt64), t.nearest? x = some (name, offset) →
      ∃ name' offset', t.nearest? y = some (name', offset') ∧ x - offset ≤ y - offset' := by
  refine ⟨nearest?_eq_none_iff, fun name offset => ?_, fun name => ?_, ?_⟩
  · rw [nearest?_eq_some_iff]
    constructor
    · rintro ⟨hle, hnearest⟩
      exact ⟨hle, hnearest.found, hnearest.gap⟩
    · rintro ⟨hle, hfound, hgap⟩
      exact ⟨hle, UInt64.sub_le hle, hfound, hgap⟩
  · rw [nearest?_eq_some_iff, UInt64.sub_zero, isNearest_self_iff]
    exact ⟨fun hfound => ⟨UInt64.zero_le, hfound⟩, And.right⟩
  · intro y hxy name offset hx
    obtain ⟨-, hnearest⟩ := nearest?_eq_some_iff.mp hx
    exact hnearest.exists_nearest?_of_le hxy

/-- Between two symbols at the ends of the address space every address belongs to the first, and the
address behind it to the second, which starts higher. -/
theorem nearest?_is_floor_at_ends :
    let t := ofList [(0xFFFFFFFFFFFFFFFF, "last"), (0, "first")]
    let x : Address := 0xFFFFFFFFFFFFFFFE
    (x ≤ x + 1 ∧ t.nearest? x = some ("first", x)) ∧
      t.nearest? (x + 1) = some ("last", 0) ∧
      ∃ name offset, t.nearest? (x + 1) = some (name, offset) ∧ x - x ≤ x + 1 - offset := by
  intro t x
  have hle : x ≤ x + 1 := by decide
  have hfirst : t.nearest? x = some ("first", x) := by decide
  obtain ⟨-, -, -, hrise⟩ := t.nearest?_is_floor x
  exact ⟨⟨hle, hfirst⟩, by decide, hrise (x + 1) hle "first" x hfirst⟩

/-! ### Insertion -/

variable {a : Address} {held : String}

/-- No symbol starts behind `a` up to `x`. -/
def ClearTo (t : SymbolTable) (a x : Address) : Prop := ∀ s, a < s → s ≤ x → t.find? s = none

-- There are too many addresses to look at each, but only entries can be in the way.
instance (t : SymbolTable) (a x : Address) : Decidable (t.ClearTo a x) :=
  decidable_of_iff (∀ e ∈ t.toList, a < e.1 → ¬ e.1 ≤ x) <| by
    constructor
    · intro hentries s hgt hle
      refine Option.eq_none_iff_forall_ne_some.mpr fun name hname => ?_
      exact hentries (s, name) (t.mem_toList_iff.mpr hname) hgt hle
    · rintro hclear ⟨s, name⟩ he hgt hle
      rw [mem_toList_iff, hclear s hgt hle] at he
      cases he

/-- Nothing starts behind `a` up to `x` just when `a` is not below the symbol that `x` belongs to.
-/
theorem IsNearest.clearTo_iff (h : t.IsNearest x start held) : t.ClearTo a x ↔ start ≤ a := by
  constructor
  · intro hclear
    by_contra hlt
    exact h.find?_ne_none (hclear start (UInt64.not_le.mp hlt) h.start_le)
  · intro hle s hgt hsx
    exact h.gap s (UInt64.lt_of_le_of_lt hle hgt) hsx

/-- A symbol that is put elsewhere leaves the nearest symbol in place. -/
theorem IsNearest.insert (h : t.IsNearest x start held) (helsewhere : ¬ (start ≤ a ∧ a ≤ x))
    (name : String) : (t.insert a name).2.IsNearest x start held := by
  refine ⟨h.start_le, ?_, fun s hgt hsx => ?_⟩
  · have hne : start ≠ a := by
      rintro rfl
      exact helsewhere ⟨UInt64.le_refl start, h.start_le⟩
    rw [find?_insert, if_neg hne, h.found]
  · have hne : s ≠ a := by
      rintro rfl
      exact helsewhere ⟨UInt64.le_of_lt hgt, hsx⟩
    rw [find?_insert, if_neg hne, h.gap s hgt hsx]

/-- A new symbol with nothing behind it up to `x` is the nearest symbol of `x`. -/
theorem isNearest_insert_self (hle : a ≤ x) (hclear : t.ClearTo a x) (name : String) :
    (t.insert a name).2.IsNearest x a name := by
  refine ⟨hle, ?_, fun s hgt hsx => ?_⟩
  · rw [find?_insert, if_pos rfl]
  · rw [find?_insert, if_neg (UInt64.ne_of_lt hgt).symm, hclear s hgt hsx]

/-- Where no symbol was at or below `x`, a symbol above `x` does not change that. -/
theorem nearest?_insert_of_eq_none (h : t.nearest? x = none) (hlt : ¬ a ≤ x) (name : String) :
    (t.insert a name).2.nearest? x = none := by
  refine nearest?_eq_none_iff.mpr fun s hs => ?_
  have hne : s ≠ a := by
    rintro rfl
    exact hlt hs
  rw [find?_insert, if_neg hne, nearest?_eq_none_iff.mp h s hs]

/-- After an insertion at `a` the addresses that belong to the new symbol are those from `a` on
behind which no symbol of the table starts before they are reached. For every other address the
look-up gives what it gave before. -/
theorem nearest?_insert (t : SymbolTable) (a : Address) (name : String) (x : Address) :
    (t.insert a name).2.nearest? x =
      if a ≤ x ∧ t.ClearTo a x then some (name, x - a) else t.nearest? x := by
  split
  case isTrue h => exact (isNearest_insert_self h.1 h.2 name).nearest?_eq
  case isFalse h =>
    cases hbefore : t.nearest? x with
    | none =>
      have hnone := nearest?_eq_none_iff.mp hbefore
      exact nearest?_insert_of_eq_none hbefore (fun hle => h ⟨hle, fun s _ => hnone s⟩) name
    | some result =>
      obtain ⟨held, offset⟩ := result
      obtain ⟨start, hnearest, rfl⟩ := exists_isNearest_of_nearest? hbefore
      rw [hnearest.clearTo_iff] at h
      exact (hnearest.insert (fun hbetween => h hbetween.symm) name).nearest?_eq

/-- A symbol between two others takes over the addresses up to the second, and a new name at an old
address the addresses of the old name. -/
example :
    let t := ofList [(0x10, "low"), (0x40, "high")]
    let u := (t.insert 0x20 "new").2
    u.nearest? 0x1F = some ("low", 0xF) ∧ u.nearest? 0x3F = some ("new", 0x1F) ∧
      u.nearest? 0x40 = some ("high", 0) ∧
      (t.insert 0x10 "renamed").2.nearest? 0x1F = some ("renamed", 0xF) := by decide

end SymbolTable

end PowerDisasm
