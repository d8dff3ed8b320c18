import PowerDisasm.Register.Name

/-!
# Text with delimiters

A line of assembly is put together from words and from delimiters that no word contains. Such a text
comes apart in one way at the first place of a delimiter, and in one way at the last. A text that
joins items with the separator of an operand list is split into the items where the separator is
found, since no item has a comma, and the items can be read back as long as none is empty.

## Main definitions

* `IsWord`, `IsItem`: a text of word characters, and a text that may stand between separators
* `StartsWithLetter`, `StartsWithDigit`, `ContinuesWord`: how a text starts

## Main results

* `Delimited.split_first`, `Delimited.split_last`, `Delimited.split_run`, `Delimited.split_word`:
  where a text comes apart
* `Delimited.toList_split_separated`: searching a text for separators finds the items between them
* `Delimited.separated_inj`: a list of items is determined by the text that joins them
-/

namespace PowerDisasm

/-- The characters of names and numbers: letters, digits, the underscore and the minus sign. -/
def IsWordChar (c : Char) : Prop := c.isAlphanum = true ∨ c = '_' ∨ c = '-'

instance (c : Char) : Decidable (IsWordChar c) := inferInstanceAs (Decidable (_ ∨ _))

/-- A word: a text that is not empty and has word characters only. -/
def IsWord (s : String) : Prop := s ≠ "" ∧ ∀ c ∈ s.toList, IsWordChar c

-- The characters are gone through one by one, since there are too many in the type to try all.
instance (s : String) : Decidable (IsWord s) :=
  @instDecidableAnd _ _ inferInstance (List.decidableBAll IsWordChar s.toList)

/-- What may stand in a list between separators: a text that is not empty and has no comma. -/
def IsItem (s : String) : Prop := s ≠ "" ∧ ',' ∉ s.toList

/-- The text starts with a letter. Names do, and numbers do not. -/
def StartsWithLetter (s : String) : Prop := s.toList.head?.any Char.isAlpha = true

instance (s : String) : Decidable (StartsWithLetter s) := inferInstanceAs (Decidable (_ = _))

/-- The text starts with a decimal digit, so that a numeral in front of it would go on. -/
def StartsWithDigit (s : String) : Prop := s.toList.head?.any Char.isDigit = true

/-- The text starts with a word character, so that a word in front of it would go on. -/
def ContinuesWord (s : String) : Prop := s.toList.head?.any (fun c => IsWordChar c) = true

instance (s : String) : Decidable (ContinuesWord s) := inferInstanceAs (Decidable (_ = _))

theorem ne_empty_of_mem {s : String} {c : Char} (h : c ∈ s.toList) : s ≠ "" := by
  rintro rfl
  simp at h

theorem IsWord.notMem {s : String} (h : IsWord s) {c : Char} (hc : ¬ IsWordChar c) :
    c ∉ s.toList :=
  fun hmem => hc (h.2 c hmem)

theorem IsWord.isItem {s : String} (h : IsWord s) : IsItem s :=
  ⟨h.1, h.notMem (by decide)⟩

theorem IsWord.append {s t : String} (hs : IsWord s) (ht : IsWord t) : IsWord (s ++ t) := by
  refine ⟨fun h => hs.1 (String.append_eq_empty_iff.mp h).1, fun c hc => ?_⟩
  rw [String.toList_append, List.mem_append] at hc
  exact hc.elim (hs.2 c) (ht.2 c)

theorem StartsWithLetter.append {s : String} (h : StartsWithLetter s) (t : String) :
    StartsWithLetter (s ++ t) := by
  unfold StartsWithLetter at h ⊢
  cases hlist : s.toList with
  | nil => simp [hlist] at h
  | cons c rest => simpa [hlist] using h

/-- Letters lie above the digits. -/
theorem not_isDigit_of_isAlpha {c : Char} (h : c.isAlpha = true) : ¬ c.isDigit = true := by
  have habove : 'A'.toNat ≤ c.toNat := by
    rcases Bool.or_eq_true_iff.mp h with hupper | hlower
    · exact UInt32.le_iff_toNat_le.mp (of_decide_eq_true hupper).1
    · have hle := UInt32.le_iff_toNat_le.mp (of_decide_eq_true (Bool.and_eq_true_iff.mp hlower).1)
      exact Nat.le_trans (by decide) hle
  intro hdigit
  have hbelow := Nat.le_trans habove (Char.isDigit_iff_toNat.mp hdigit).2
  exact absurd hbelow (by decide)

theorem StartsWithLetter.not_startsWithDigit {s : String} (h : StartsWithLetter s) :
    ¬ StartsWithDigit s := by
  unfold StartsWithLetter at h
  unfold StartsWithDigit
  cases hhead : s.toList.head? with
  | none => simp
  | some c =>
    rw [hhead] at h
    exact not_isDigit_of_isAlpha h

namespace Delimited

variable {α : Type} {d : α} {l₁ l₂ t₁ t₂ : List α}

/-- Two texts that agree, and that are split at the first place of a delimiter, are split alike. -/
theorem split_first (h₁ : d ∉ l₁) (h₂ : d ∉ l₂) (h : l₁ ++ d :: t₁ = l₂ ++ d :: t₂) :
    l₁ = l₂ ∧ t₁ = t₂ := by
  induction l₁ generalizing l₂ with
  | nil =>
    cases l₂ with
    | nil => exact ⟨rfl, (List.cons.inj h).2⟩
    | cons y l₂ =>
      have hhead : d = y := (List.cons.inj h).1
      exact absurd (hhead ▸ List.mem_cons_self) h₂
  | cons x l₁ ih =>
    cases l₂ with
    | nil =>
      have hhead : x = d := (List.cons.inj h).1
      exact absurd (hhead ▸ List.mem_cons_self) h₁
    | cons y l₂ =>
      obtain ⟨rfl, htail⟩ := List.cons.inj h
      have hsplit := ih (List.not_mem_of_not_mem_cons h₁) (List.not_mem_of_not_mem_cons h₂) htail
      exact ⟨congrArg (x :: ·) hsplit.1, hsplit.2⟩

/-- The same at the last place of the delimiter, which is the first when read backwards. -/
theorem split_last (h₁ : d ∉ t₁) (h₂ : d ∉ t₂) (h : l₁ ++ d :: t₁ = l₂ ++ d :: t₂) :
    l₁ = l₂ ∧ t₁ = t₂ := by
  have hrev : t₁.reverse ++ d :: l₁.reverse = t₂.reverse ++ d :: l₂.reverse := by
    simpa using congrArg List.reverse h
  have hsplit := split_first (by simpa using h₁) (by simpa using h₂) hrev
  exact ⟨List.reverse_inj.mp hsplit.2, List.reverse_inj.mp hsplit.1⟩

/-- The same behind a run of characters of one kind that the rest does not continue. -/
theorem split_run {p : α → Bool} (hl₁ : ∀ c ∈ l₁, p c = true) (hl₂ : ∀ c ∈ l₂, p c = true)
    (ht₁ : ¬ t₁.head?.any p = true) (ht₂ : ¬ t₂.head?.any p = true)
    (h : l₁ ++ t₁ = l₂ ++ t₂) : l₁ = l₂ ∧ t₁ = t₂ := by
  have hstop : ∀ t : List α, ¬ t.head?.any p = true → t.takeWhile p = [] := by
    intro t ht
    cases t with
    | nil => rfl
    | cons c t => exact List.takeWhile_cons_of_neg ht
  have hrun := congrArg (List.takeWhile p) h
  rw [List.takeWhile_append_of_pos hl₁, List.takeWhile_append_of_pos hl₂, hstop t₁ ht₁,
    hstop t₂ ht₂, List.append_nil, List.append_nil] at hrun
  rw [hrun] at h
  exact ⟨hrun, List.append_cancel_left h⟩

/-- A word ends where the text behind it does not continue it. -/
theorem split_word {s s' t t' : String} (hs : IsWord s) (hs' : IsWord s') (ht : ¬ ContinuesWord t)
    (ht' : ¬ ContinuesWord t') (h : s ++ t = s' ++ t') : s = s' ∧ t = t' := by
  have hlist := congrArg String.toList h
  rw [String.toList_append, String.toList_append] at hlist
  obtain ⟨hword, hrest⟩ := split_run (fun c hc => decide_eq_true (hs.2 c hc))
    (fun c hc => decide_eq_true (hs'.2 c hc)) ht ht' hlist
  exact ⟨String.toList_injective hword, String.toList_injective hrest⟩

/-! ### Splitting at separators -/

section Search

open String.Slice String.Slice.Pattern.Model

variable {s : String.Slice} {start stop pos : s.Pos} {front item rest : String}

/-- No separator begins inside a text without a comma. -/
private theorem not_matchesAt_separator (hitem : ',' ∉ item.toList)
    (hstart : start.Splits front (item ++ rest)) (hstop : stop.Splits (front ++ item) rest)
    (hle : start ≤ pos) (hlt : pos < stop) : ¬ MatchesAt Classifier.separator pos := by
  rw [ForwardStringSearcher.matchesAt_iff_splits]
  rintro ⟨before, behind, hpos⟩
  obtain ⟨read, rfl, -⟩ := (hstart.le_iff_exists_eq_append hpos).mp hle
  obtain ⟨left, hleft, hsplit, htail⟩ := (hpos.lt_iff_exists_eq_append hstop).mp hlt
  rw [String.append_assoc, String.append_right_inj] at hsplit
  apply hitem
  rw [hsplit, String.toList_append, List.mem_append]
  right
  cases hlist : left.toList with
  | nil => exact absurd (String.toList_injective hlist) hleft
  | cons c cs =>
    have hhead := congrArg String.toList htail
    rw [String.toList_append, String.toList_append, hlist] at hhead
    have hc : ',' = c := (List.cons.inj hhead).1
    rw [hc]
    exact List.mem_cons_self

/-- A search that starts where an item does goes on where it stops, and has passed over the item. -/
private theorem exists_modelSplit_eq [StrictPatternModel Classifier.separator]
    (hitem : ',' ∉ item.toList) (hstart : start.Splits front (item ++ rest))
    (hstop : stop.Splits (front ++ item) rest) :
    ∃ hle : start ≤ stop,
      Pattern.Model.split Classifier.separator start start (Std.le_refl start) =
        Pattern.Model.split Classifier.separator start stop hle ∧
      (s.subslice start stop hle).copy = item := by
  have hle : start ≤ stop := (hstart.le_iff_exists_eq_append hstop).mpr ⟨item, rfl, rfl⟩
  obtain ⟨_, hcopy⟩ := copy_slice_eq_iff_splits.mpr ⟨front, rest, hstart, hstop⟩
  refine ⟨hle, ?_, ?_⟩
  · exact split_eq_of_not_matchesAt stop hle fun pos => not_matchesAt_separator hitem hstart hstop
  · rw [Subslice.copy_eq, Function.comp_apply, toSlice_subslice, hcopy]

private theorem map_copy_modelSplit [StrictPatternModel Classifier.separator] {items : List String}
    (hne : items ≠ []) (hitems : ∀ x ∈ items, ',' ∉ x.toList)
    (hstart : start.Splits front (Classifier.separator.intercalate items)) :
    (Pattern.Model.split Classifier.separator start start (Std.le_refl start)).map Subslice.copy =
      items := by
  -- From item to item the start moves on behind the separator between them.
  induction items generalizing start front with
  | nil => exact absurd rfl hne
  | cons item items ih =>
    obtain ⟨hitem, hrest⟩ := List.forall_mem_cons.mp hitems
    cases items with
    | nil =>
      have hstop := splits_endPos s
      rw [String.intercalate_singleton, ← String.append_empty (s := item)] at hstart
      rw [hstart.eq_append, String.append_empty] at hstop
      obtain ⟨_, hpassed, hcopy⟩ := exists_modelSplit_eq hitem hstart hstop
      rw [hpassed, split_endPos, List.map_singleton, hcopy]
    | cons next items =>
      rw [String.intercalate_cons_cons, String.append_assoc] at hstart
      have hstop := hstart.splits_rotateRight
      have hnext := hstop.splits_rotateRight
      have hmatch := ForwardStringSearcher.isLongestMatchAt_iff_splits.mpr ⟨_, _, hstop, hnext⟩
      obtain ⟨_, hpassed, hcopy⟩ := exists_modelSplit_eq hitem hstart hstop
      rw [hpassed, split_eq_of_isLongestMatchAt hmatch, List.map_cons, hcopy,
        ih (List.cons_ne_nil _ _) hrest hnext]

/-- Splitting the text that joins items at the separators gives the items back. -/
theorem toList_split_separated {items : List String} (hne : items ≠ [])
    (hitems : ∀ x ∈ items, ',' ∉ x.toList) :
    ((Classifier.separator.intercalate items).split Classifier.separator).toList.map copy =
      items := by
  have hseparator : Classifier.separator ≠ "" := by decide
  have := ForwardStringSearcher.strictPatternModel hseparator
  have := ForwardStringSearcher.lawfulToForwardSearcherModel hseparator
  have hstart := splits_startPos (Classifier.separator.intercalate items).toSlice
  rw [String.copy_toSlice] at hstart
  rw [String.split_eq_split_toSlice, toList_split_eq_splitToSubslice,
    Pattern.toList_splitToSubslice_eq_modelSplit, List.map_map]
  exact map_copy_modelSplit hne hitems hstart

end Search

/-! ### Lists of items -/

/-- Items leave a text, since none of them is empty. -/
theorem separated_eq_empty_iff {xs : List String} (hxs : ∀ x ∈ xs, IsItem x) :
    Classifier.separator.intercalate xs = "" ↔ xs = [] := by
  cases xs with
  | nil => exact iff_of_true rfl rfl
  | cons x rest =>
    have hx := (hxs x List.mem_cons_self).1
    cases rest with
    | nil => simpa using hx
    | cons y rest =>
      rw [String.intercalate_cons_cons, String.append_assoc, String.append_eq_empty_iff]
      exact iff_of_false (fun h => hx h.1) (List.cons_ne_nil _ _)

/-- The items of a list can be read back from the text that joins them. -/
theorem separated_inj {xs ys : List String} (hxs : ∀ x ∈ xs, IsItem x)
    (hys : ∀ y ∈ ys, IsItem y) :
    Classifier.separator.intercalate xs = Classifier.separator.intercalate ys ↔ xs = ys := by
  refine ⟨fun h => ?_, congrArg _⟩
  have hempty : xs = [] ↔ ys = [] := by
    rw [← separated_eq_empty_iff hxs, ← separated_eq_empty_iff hys, h]
  by_cases hne : xs = []
  · rw [hne, hempty.mp hne]
  · calc
      xs = ((Classifier.separator.intercalate xs).split Classifier.separator).toList.map
          String.Slice.copy := (toList_split_separated hne fun x hx => (hxs x hx).2).symm
      _ = ys := by
        rw [h]
        exact toList_split_separated (mt hempty.mpr hne) fun y hy => (hys y hy).2

end Delimited

end PowerDisasm
