import Mathlib.Data.Finset.Card
import Mathlib.Data.List.Induction
import PowerDisasm.Symbol.Table

/-!
# What a symbol table holds

Seen from outside, a symbol table is a finite map from addresses to names, and its size is the
number of the addresses. Extending it by a list of symbols overrides it by the last name that the
list gives to an address. So after any history of changes the table is the one collected from the
symbols written since it was last created: one step keeps this, and then every run does.

## Main definitions

* `SymbolTable.lastName`: the last name that a list of symbols gives to an address
* `SymbolTable.perform`, `SymbolTable.replay`: one change to a table, and a history of changes
* `SymbolTable.written`: the symbols written since the table was created

## Main results

* `SymbolTable.find?_extend`, `SymbolTable.find?_ofList`: what is found after an extension
* `SymbolTable.perform_ofList`, `SymbolTable.replay_eq_ofList`: a table is what was written to it,
  after a step and after a run
* `SymbolTable.replay_refines_map`: at the end of every history the table is the finite map of the
  last names written
-/

namespace PowerDisasm

namespace SymbolTable

/-- The name in the last of the symbols that name the address. -/
def lastName (symbols : List SymbolEntry) (address : Address) : Option String :=
  (symbols.filter (·.1 = address)).getLast?.map Prod.snd

theorem lastName_nil (address : Address) : lastName [] address = none := rfl

/-- A symbol at the front counts only when no later one names its address. -/
theorem lastName_cons (e : SymbolEntry) (symbols : List SymbolEntry) (address : Address) :
    lastName (e :: symbols) address =
      (lastName symbols address).or (if address = e.1 then some e.2 else none) := by
  unfold lastName
  by_cases h : e.1 = address
  · rw [List.filter_cons_of_pos (by simpa using h), if_pos h.symm, List.getLast?_cons]
    cases (symbols.filter (·.1 = address)).getLast? <;> rfl
  · rw [List.filter_cons_of_neg (by simpa using h), if_neg (Ne.symm h), Option.or_none]

theorem isSome_lastName_iff {symbols : List SymbolEntry} {address : Address} :
    (lastName symbols address).isSome ↔ address ∈ symbols.map Prod.fst := by
  induction symbols with
  | nil => simp [lastName_nil]
  | cons e symbols ih =>
    rw [lastName_cons, Option.isSome_or, Bool.or_eq_true, ih, List.map_cons, List.mem_cons]
    by_cases h : address = e.1 <;> simp [h]

section Contents

variable (t : SymbolTable)

/-- The entries of a table are the addresses with the names that are found there. -/
theorem mem_toList_iff {address : Address} {name : String} :
    (address, name) ∈ t.toList ↔ t.find? address = some name := by
  rw [find?, List.lookup_eq_some_iff]
  constructor
  · intro hmem
    obtain ⟨below, above, hsplit⟩ := List.append_of_mem hmem
    have hascending := t.ascending
    rw [hsplit, List.pairwise_append] at hascending
    refine ⟨below, above, hsplit, fun e he => ?_⟩
    have hlt : e.1 < address := hascending.2.2 e he _ List.mem_cons_self
    exact bne_iff_ne.mpr (UInt64.ne_of_lt hlt).symm
  · rintro ⟨below, above, hsplit, -⟩
    rw [hsplit]
    exact List.mem_append_right _ List.mem_cons_self

/-! ### Extension -/

theorem extend_nil : t.extend [] = t := rfl

theorem extend_cons (e : SymbolEntry) (symbols : List SymbolEntry) :
    t.extend (e :: symbols) = (t.insert e.1 e.2).2.extend symbols := rfl

theorem extend_append (symbols more : List SymbolEntry) :
    t.extend (symbols ++ more) = (t.extend symbols).extend more :=
  List.foldl_append

/-- After an extension the last of the new names is found, and where there is none what was found
before. -/
theorem find?_extend (symbols : List SymbolEntry) (address : Address) :
    (t.extend symbols).find? address = (lastName symbols address).or (t.find? address) := by
  -- The first symbol is inserted before the rest, so the induction is over every table.
  induction symbols generalizing t with
  | nil => simp [extend_nil, lastName_nil]
  | cons e symbols ih =>
    rw [extend_cons, ih, find?_insert, lastName_cons, Option.or_assoc]
    by_cases h : address = e.1 <;> simp [h]

theorem find?_ofList (symbols : List SymbolEntry) (address : Address) :
    (ofList symbols).find? address = lastName symbols address := by
  rw [ofList, find?_extend, find?_empty, Option.or_none]

/-! ### The domain -/

/-- The addresses that have a name. -/
def addresses : Finset Address := (t.toList.map Prod.fst).toFinset

theorem mem_addresses_iff (address : Address) :
    address ∈ t.addresses ↔ (t.find? address).isSome := by
  rw [addresses, List.mem_toFinset, find?, List.lookup_isSome_iff, List.mem_map]
  exact exists_congr fun e => and_congr_right fun _ => eq_comm.trans beq_iff_eq.symm

/-- No address has two entries. -/
theorem nodup_map_fst_toList : (t.toList.map Prod.fst).Nodup :=
  List.pairwise_map.mpr (t.ascending.imp fun h => UInt64.ne_of_lt h)

/-- The entries are as many as the addresses. -/
theorem size_eq_card : t.size = t.addresses.card := by
  rw [addresses, List.toFinset_card_of_nodup t.nodup_map_fst_toList, List.length_map, size]

theorem isEmpty_iff : t.isEmpty = true ↔ t.size = 0 := by
  rw [isEmpty, size, List.isEmpty_iff, List.length_eq_zero_iff]

theorem addresses_insert (address : Address) (name : String) :
    (t.insert address name).2.addresses = Insert.insert address t.addresses := by
  ext x
  rw [mem_addresses_iff, find?_insert, Finset.mem_insert, mem_addresses_iff]
  by_cases h : x = address <;> simp [h]

theorem addresses_ofList (symbols : List SymbolEntry) :
    (ofList symbols).addresses = (symbols.map Prod.fst).toFinset := by
  ext x
  rw [mem_addresses_iff, find?_ofList, isSome_lastName_iff, List.mem_toFinset]

/-- An insertion adds an entry just when it gives back no name. -/
theorem size_insert (address : Address) (name : String) :
    (t.insert address name).2.size =
      t.size + if (t.insert address name).1 = none then 1 else 0 := by
  have hmem := t.mem_addresses_iff address
  rw [size_eq_card, size_eq_card, addresses_insert, replaced_insert]
  cases hfind : t.find? address with
  | none =>
    have hnew : address ∉ t.addresses := by simp [hmem, hfind]
    rw [Finset.card_insert_of_notMem hnew, if_pos rfl]
  | some held =>
    have hold : address ∈ t.addresses := by simp [hmem, hfind]
    rw [Finset.insert_eq_of_mem hold, if_neg (by simp), Nat.add_zero]

end Contents

/-! ### Histories -/

/-- A change to a table: symbols are inserted, one or several, or the table is made anew, from a
list or empty. -/
inductive Edit
  | insert (address : Address) (name : String)
  | extend (symbols : List SymbolEntry)
  | collect (symbols : List SymbolEntry)
  | clear
  deriving DecidableEq

/-- Make a change. The reply is the name that an insertion replaces; the other changes have none. -/
def perform (t : SymbolTable) : Edit → Option String × SymbolTable
  | .insert address name => t.insert address name
  | .extend symbols => (none, t.extend symbols)
  | .collect symbols => (none, ofList symbols)
  | .clear => (none, empty)

/-- The table after the changes of a history, which starts from the empty table. -/
def replay (history : List Edit) : SymbolTable :=
  history.foldl (fun t e => (t.perform e).2) empty

/-- What has been written since the last creation, when `symbols` had been before the change. -/
def Edit.write (symbols : List SymbolEntry) : Edit → List SymbolEntry
  | .insert address name => symbols ++ [(address, name)]
  | .extend more => symbols ++ more
  | .collect fresh => fresh
  | .clear => []

/-- The symbols written in a history since the table was last created, the earliest first. -/
def written (history : List Edit) : List SymbolEntry := history.foldl Edit.write []

theorem replay_concat (history : List Edit) (e : Edit) :
    replay (history ++ [e]) = ((replay history).perform e).2 := by
  rw [replay, List.foldl_append]
  rfl

theorem written_concat (history : List Edit) (e : Edit) :
    written (history ++ [e]) = e.write (written history) := by
  rw [written, List.foldl_append]
  rfl

/-- A step keeps a table equal to the one collected from what was written. -/
theorem perform_ofList (symbols : List SymbolEntry) (e : Edit) :
    ((ofList symbols).perform e).2 = ofList (e.write symbols) := by
  cases e with
  | insert address name => exact (extend_append empty symbols [(address, name)]).symm
  | extend more => exact (extend_append empty symbols more).symm
  | collect fresh => rfl
  | clear => rfl

/-- At the end of a history stands the table of what was written. -/
theorem replay_eq_ofList (history : List Edit) : replay history = ofList (written history) := by
  induction history using List.reverseRecOn with
  | nil => rfl
  | append_singleton history e ih => rw [replay_concat, written_concat, ih, perform_ofList]

/-- After every history the table is the finite map of what was written since its creation. An
address has the last name written there, the size is the number of the addresses written, and a
table is empty just when its size is zero. An insertion that comes next replies with the name found
before it, changes what is found at no other address, and adds one to the size just when it replies
with none. -/
theorem replay_refines_map (history : List Edit) :
    (∀ a, (replay history).find? a = lastName (written history) a) ∧
    (replay history).size = ((written history).map Prod.fst).toFinset.card ∧
    ((replay history).isEmpty = true ↔ (replay history).size = 0) ∧
    ∀ (a : Address) (name : String),
      let reply := ((replay history).perform (.insert a name)).1
      let after := replay (history ++ [.insert a name])
      reply = (replay history).find? a ∧
      (∀ x, after.find? x = if x = a then some name else (replay history).find? x) ∧
      after.size = (replay history).size + if reply = none then 1 else 0 := by
  refine ⟨fun a => ?_, ?_, isEmpty_iff _, fun a name => ?_⟩
  · rw [replay_eq_ofList, find?_ofList]
  · rw [replay_eq_ofList, size_eq_card, addresses_ofList]
  · rw [replay_concat]
    exact ⟨replaced_insert _ a name, find?_insert _ a name, size_insert _ a name⟩

/-- A name written twice in one extension replaces itself, and a creation forgets all of it. -/
example :
    (replay [.insert 1 "a", .extend [(2, "b"), (2, "c")]]).find? 2 = some "c" ∧
      (replay [.insert 1 "a", .clear, .insert 2 "b"]).find? 1 = none := by decide

end SymbolTable

end PowerDisasm
