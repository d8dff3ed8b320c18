import PowerDisasm.Proofs.Sink.Truncation

/-!
# A run of names read back

Names that are printed one after the other have nothing between them, and yet it can be told where
one ends and the next begins. A name is a letter with a numeral behind it, or one of five words,
none of which begins another or begins like a numbered name. A numeral goes on as far as there are
digits, and it stops where the next name starts, since every name starts with a letter.

## Main results

* `Register.text_append_injective`: a text in which the first name ends in one place only
* `Register.join_text_eq_join_text_iff`: which lists of names make up the same text
* `Sink.value_printAll_cyclic`: any list of registers is printed in some run
* `Sink.printed_names_decode`: what a run of prints leaves, and how it is read
-/

namespace PowerDisasm

namespace Register

variable {r s : Register} {rs ss : List Register} {t u : String}

/-! ### The two kinds of names -/

/-- The names that are not numbered. -/
def words : List String := placeholder :: SpecialRegister.names

/-- None of the words begins another. -/
theorem eq_of_begins_of_mem_words :
    ∀ v ∈ words, ∀ w ∈ words, v.toList <+: w.toList → v = w := by decide

/-- No word begins with the letter of a numbered name. -/
theorem head?_of_mem_words :
    ∀ w ∈ words, w.toList.head? ∉ [none, some 'r', some 'f'] := by decide

/-- The text is one of the letters of the numbered banks with a numeral behind it. -/
def IsNumbered (text : String) : Prop :=
  ∃ letter n, (letter = 'r' ∨ letter = 'f') ∧ text.toList = letter :: (Numeral.decimal n).toList

theorem isNumbered_or_mem_words (r : Register) : IsNumbered r.text ∨ r.text ∈ words := by
  refine text_cases (P := fun name => IsNumbered name ∨ name ∈ words) r
    (fun letter n hletter => .inl ?_) (fun s => .inr ?_) (.inr List.mem_cons_self)
  · rcases hletter with rfl | rfl
    · exact ⟨'r', n, .inl rfl, String.toList_append⟩
    · exact ⟨'f', n, .inr rfl, String.toList_append⟩
  · exact List.mem_cons_of_mem _ s.name_mem_names

/-- A text does not begin with a letter of a numbered name and with a word. -/
theorem cons_ne_word_append {letter : Char} {w : String} (hletter : letter = 'r' ∨ letter = 'f')
    (hw : w ∈ words) (l₁ l₂ : List Char) : letter :: l₁ ≠ w.toList ++ l₂ := by
  intro h
  have hhead := head?_of_mem_words w hw
  have hsame := congrArg List.head? h
  rw [List.head?_cons, List.head?_append] at hsame
  cases hfirst : w.toList.head? with
  | none => simp [hfirst] at hhead
  | some c =>
    rw [hfirst, Option.some_or, Option.some.injEq] at hsame
    rcases hletter with rfl | rfl <;> simp [hfirst, ← hsame] at hhead

/-! ### Where a name ends -/

/-- A text tells the name that it begins with, if no digit follows the name. -/
theorem text_append_injective (ht : ¬ StartsWithDigit t) (hu : ¬ StartsWithDigit u)
    (h : r.text ++ t = s.text ++ u) : r.text = s.text ∧ t = u := by
  have hlist := congrArg String.toList h
  rw [String.toList_append, String.toList_append] at hlist
  suffices htext : r.text = s.text by
    rw [htext, String.append_right_inj] at h
    exact ⟨htext, h⟩
  apply String.toList_injective
  rcases r.isNumbered_or_mem_words with ⟨letter, m, hletter, hr⟩ | hr <;>
    rcases s.isNumbered_or_mem_words with ⟨letter', n, hletter', hs⟩ | hs
  · rw [hr, hs] at hlist
    obtain ⟨hsame, hrest⟩ := List.cons.inj hlist
    obtain ⟨hdigits, -⟩ := Delimited.split_run (fun _ => Numeral.isDigit_of_mem_decimal)
      (fun _ => Numeral.isDigit_of_mem_decimal) ht hu hrest
    rw [hr, hs, hsame, hdigits]
  · rw [hr] at hlist
    exact absurd hlist (cons_ne_word_append hletter hs _ _)
  · rw [hs] at hlist
    exact absurd hlist.symm (cons_ne_word_append hletter' hr _ _)
  · have hbegins : r.text.toList <+: s.text.toList ++ u.toList := hlist ▸ List.prefix_append _ _
    rcases List.prefix_or_prefix_of_prefix hbegins (List.prefix_append _ _) with hrs | hsr
    · exact congrArg String.toList (eq_of_begins_of_mem_words _ hr _ hs hrs)
    · exact congrArg String.toList (eq_of_begins_of_mem_words _ hs _ hr hsr).symm

/-! ### Runs of names -/

theorem join_text_cons_ne_empty (r : Register) (rs : List Register) :
    String.join ((r :: rs).map text) ≠ "" := by
  intro h
  rw [List.map_cons, String.join_cons, String.append_eq_empty_iff] at h
  exact r.isWord_text.1 h.1

/-- A numeral is not continued by the names behind it. -/
theorem not_startsWithDigit_join_text (rs : List Register) :
    ¬ StartsWithDigit (String.join (rs.map text)) := by
  cases rs with
  | nil => simp [StartsWithDigit]
  | cons r rs =>
    rw [List.map_cons, String.join_cons]
    exact (r.startsWithLetter_text.append _).not_startsWithDigit

/-- Lists of names make up the same text just when the registers are alike one by one. -/
theorem join_text_eq_join_text_iff :
    String.join (rs.map text) = String.join (ss.map text) ↔ List.Forall₂ Alike rs ss := by
  constructor
  · intro h
    induction rs generalizing ss with
    | nil =>
      cases ss with
      | nil => exact .nil
      | cons s ss => exact absurd h.symm (join_text_cons_ne_empty s ss)
    | cons r rs ih =>
      cases ss with
      | nil => exact absurd h (join_text_cons_ne_empty r rs)
      | cons s ss =>
        rw [List.map_cons, List.map_cons, String.join_cons, String.join_cons] at h
        obtain ⟨htext, hrest⟩ := text_append_injective (not_startsWithDigit_join_text rs)
          (not_startsWithDigit_join_text ss) h
        exact .cons (text_eq_text_iff.mp htext) (ih hrest)
  · intro h
    rw [map_text_eq_map_text_iff.mpr h]

end Register

namespace Sink

/-- Any registers, up to as many as there are references, are printed in some run. -/
theorem value_printAll_cyclic {table : List Register} (hne : table ≠ [])
    (hlength : table.length ≤ UInt16.size) :
    ∃ refs, ((empty none).printAll (Classifier.cyclic table hne) refs).value =
      (List.replicate table.length true, ⟨none, String.join (table.map Register.text)⟩) := by
  obtain ⟨refs, hrefs⟩ := Classifier.exists_map_cyclic_eq hne hlength
  have hcount : refs.length = table.length := by
    rw [← List.length_map (Classifier.cyclic table hne), hrefs]
  have hnames : (Classifier.cyclic table hne).joinNames refs =
      String.join (table.map Register.text) := by
    rw [← congrArg (List.map Register.text) hrefs, List.map_map]
    rfl
  refine ⟨refs, ?_⟩
  rw [value_printAll_of_capacity_eq_none rfl, hcount, hnames]
  simp [empty]

/-- Names that follow each other without anything between them can be told apart: two lists of
registers make up the same text just when they are alike one by one. Such a text is what is added to
a sink without a limit when registers are printed into it one after the other, and every one is
written completely. No name is empty, and none has a space, a comma or a parenthesis in it. -/
theorem printed_names_decode :
    (∀ rs ss : List Register,
      String.join (rs.map fun r => r.name.value) = String.join (ss.map fun s => s.name.value) ↔
        List.Forall₂ Register.Alike rs ss) ∧
    (∀ (classify : Classifier) (onto : String) (refs : List RegisterRef),
      ((⟨none, onto⟩ : Sink).printAll classify refs).value =
        (List.replicate refs.length true,
          ⟨none, onto ++ String.join ((refs.map classify).map fun r => r.name.value)⟩)) ∧
    ∀ r : Register, r.name.value ≠ "" ∧ ' ' ∉ r.name.value.toList ∧ ',' ∉ r.name.value.toList ∧
      '(' ∉ r.name.value.toList ∧ ')' ∉ r.name.value.toList := by
  refine ⟨fun rs ss => Register.join_text_eq_join_text_iff, fun classify onto refs => ?_,
    fun r => ?_⟩
  · rw [value_printAll_of_capacity_eq_none rfl, List.map_map]
    rfl
  · have hword : IsWord r.name.value := r.isWord_text
    exact ⟨hword.1, hword.notMem (by decide), hword.notMem (by decide), hword.notMem (by decide),
      hword.notMem (by decide)⟩

/-- The letter that ends a word does not start a numbered name. -/
example :
    ((empty none).printAll (Classifier.uniform .misc) [⟨0⟩, ⟨2⟩, ⟨1⟩]).value.2.text =
      "crlrxer" := by
  decide

end Sink

end PowerDisasm
