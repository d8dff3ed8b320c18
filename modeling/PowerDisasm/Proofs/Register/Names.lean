import Mathlib.Data.List.Forall2
import PowerDisasm.Proofs.Numeral

/-!
# Register names read back

The name of a register is enough to find the register again, unless it is the placeholder, which
stands for every register of the miscellaneous bank from index 4 on. Those are told apart by their
reports. No name has a comma, so a list of names is what the separators cut it into.

## Main definitions

* `Register.text`, `Register.ofText?`: the name without the report, and the register of a name
* `Register.Alike`: two registers that their names do not tell apart

## Main results

* `Register.ofText?_text`: reading a name gives the register back, and the placeholder gives none
* `Register.text_eq_text_iff`: equal names mean registers that are alike
* `Register.eq_of_forall₂_alike`: registers that are alike and make the same reports are the same
* `Classifier.exists_map_cyclic_eq`: every list of registers is what some references stand for
* `Classifier.appendNames_reads_back`: what is written behind a text, and how it is read
-/

namespace PowerDisasm

namespace SpecialRegister

theorem head?_name_ne (s : SpecialRegister) :
    s.name.toList.head? ≠ some 'r' ∧ s.name.toList.head? ≠ some 'f' := by
  cases s <;> decide

/-- The letters of the numbered banks begin no special name. -/
theorem ofName?_append_eq_none {letter : String} (hletter : letter = "r" ∨ letter = "f")
    (s : String) : ofName? (letter ++ s) = none := by
  refine List.find?_eq_none.mpr fun special _ hname => ?_
  have hhead := congrArg (·.toList.head?) (of_decide_eq_true hname)
  rcases hletter with rfl | rfl
  · exact special.head?_name_ne.1 (by simpa using hhead)
  · exact special.head?_name_ne.2 (by simpa using hhead)

/-- The codes are the numbers below four. -/
theorem exists_code_eq_iff {n : Nat} : (∃ s : SpecialRegister, n = s.code.toNat) ↔ n < 4 := by
  constructor
  · rintro ⟨s, rfl⟩
    cases s <;> decide
  · intro h
    match n, h with
    | 0, _ => exact ⟨.cr, rfl⟩
    | 1, _ => exact ⟨.xer, rfl⟩
    | 2, _ => exact ⟨.lr, rfl⟩
    | 3, _ => exact ⟨.ctr, rfl⟩

end SpecialRegister

namespace Register

/-- The name of a register as it is printed. -/
def text (r : Register) : String := r.name.value

/-- Two registers that are printed alike: they are the same, or both lie behind the named registers
of the miscellaneous bank. -/
def Alike (r s : Register) : Prop :=
  r = s ∨ (r.bank = .misc ∧ 4 ≤ r.index) ∧ (s.bank = .misc ∧ 4 ≤ s.index)

instance (r s : Register) : Decidable (r.Alike s) := inferInstanceAs (Decidable (_ ∨ _))

theorem special?_misc_eq_none_iff {i : UInt16} : special? ⟨.misc, i⟩ = none ↔ 4 ≤ i := by
  have hsome : (∃ s, special? ⟨.misc, i⟩ = some s) ↔ i.toNat < 4 := by
    rw [← SpecialRegister.exists_code_eq_iff]
    exact exists_congr fun s => SpecialRegister.ofIndex?_eq_some_iff
  have hle : 4 ≤ i ↔ ¬ i.toNat < 4 := by
    rw [UInt16.le_iff_toNat_le, Nat.not_lt]
    rfl
  rw [hle, ← hsome, ← Option.not_isSome_iff_eq_none, Option.isSome_iff_exists]

theorem isUnnamed_iff {r : Register} : r.IsUnnamed ↔ r.bank = .misc ∧ 4 ≤ r.index := by
  obtain ⟨bank, i⟩ := r
  constructor
  · rintro ⟨rfl, hnone⟩
    exact ⟨rfl, special?_misc_eq_none_iff.mp hnone⟩
  · rintro ⟨rfl, hle⟩
    exact ⟨rfl, special?_misc_eq_none_iff.mpr hle⟩

/-- The four ways in which a register can be printed. -/
theorem exhaust (r : Register) :
    (∃ i, r = ⟨.integer, i⟩) ∨ (∃ i, r = ⟨.float, i⟩) ∨
      (∃ s : SpecialRegister, r = ⟨.misc, s.code.toUInt16⟩) ∨ r.IsUnnamed := by
  obtain ⟨bank, i⟩ := r
  cases bank with
  | integer => exact .inl ⟨i, rfl⟩
  | float => exact .inr (.inl ⟨i, rfl⟩)
  | misc =>
    cases hs : special? ⟨.misc, i⟩ with
    | none => exact .inr (.inr (.inr ⟨rfl, hs⟩))
    | some s =>
      have hcode : i.toNat = s.code.toNat := SpecialRegister.ofIndex?_eq_some_iff.mp hs
      have hi : i = s.code.toUInt16 := UInt16.toNat_inj.mp (by simpa using hcode)
      exact .inr (.inr (.inl ⟨s, by rw [hi]⟩))

@[simp] theorem text_integer (i : UInt16) :
    text ⟨.integer, i⟩ = "r" ++ Numeral.decimal i.toNat := by
  rw [text, name_of_letter? rfl, Logged.value_pure]

@[simp] theorem text_float (i : UInt16) :
    text ⟨.float, i⟩ = "f" ++ Numeral.decimal i.toNat := by
  rw [text, name_of_letter? rfl, Logged.value_pure]

theorem text_of_special {r : Register} {s : SpecialRegister} (h : r.special? = some s) :
    r.text = s.name := by
  rw [text, name_of_special h, Logged.value_pure]

@[simp] theorem text_code (s : SpecialRegister) : text ⟨.misc, s.code.toUInt16⟩ = s.name :=
  text_of_special (SpecialRegister.ofIndex?_eq_some_iff.mpr (by simp))

theorem text_of_isUnnamed {r : Register} (h : r.IsUnnamed) : r.text = placeholder := by
  rw [text, name_of_isUnnamed h]

/-! ### The words of the names -/

/-- What holds of a letter in front of a numeral, of the special names and of the placeholder holds
of every name. -/
theorem text_cases {P : String → Prop} (r : Register)
    (numbered : ∀ letter n, letter = "r" ∨ letter = "f" → P (letter ++ Numeral.decimal n))
    (special : ∀ s : SpecialRegister, P s.name) (unnamed : P placeholder) : P r.text := by
  rcases r.exhaust with ⟨i, rfl⟩ | ⟨i, rfl⟩ | ⟨s, rfl⟩ | hr
  · rw [text_integer]
    exact numbered "r" _ (.inl rfl)
  · rw [text_float]
    exact numbered "f" _ (.inr rfl)
  · rw [text_code]
    exact special s
  · rw [text_of_isUnnamed hr]
    exact unnamed

theorem isWord_text (r : Register) : IsWord r.text := by
  refine r.text_cases (fun letter n hletter => ?_) (fun s => ?_) (by decide)
  · have hword : IsWord letter := by
      rcases hletter with rfl | rfl <;> decide
    exact hword.append (Numeral.isWord_decimal n)
  · cases s <;> decide

theorem startsWithLetter_text (r : Register) : StartsWithLetter r.text := by
  refine r.text_cases (fun letter n hletter => ?_) (fun s => ?_) (by decide)
  · have hstart : StartsWithLetter letter := by
      rcases hletter with rfl | rfl <;> decide
    exact hstart.append _
  · cases s <;> decide

/-! ### Reading a name -/

/-- The register of a name. The placeholder is the name of no register. -/
def ofText? (text : String) : Option Register :=
  match SpecialRegister.ofName? text with
  | some s => some ⟨.misc, s.code.toUInt16⟩
  | none =>
    match text.toList with
    | 'r' :: digits => some ⟨.integer, UInt16.ofNat (Numeral.read 10 digits)⟩
    | 'f' :: digits => some ⟨.float, UInt16.ofNat (Numeral.read 10 digits)⟩
    | _ => none

/-- Reading the name of a register gives the register back. -/
theorem ofText?_text (r : Register) : ofText? r.text = if r.IsUnnamed then none else some r := by
  -- The first letter decides the bank, once it is known that no special name begins with it.
  have hread (i : UInt16) : UInt16.ofNat (Numeral.read 10 (Nat.toDigits 10 i.toNat)) = i := by
    rw [Numeral.read_toDigits (by omega) (by omega), UInt16.ofNat_toNat]
  rcases r.exhaust with ⟨i, rfl⟩ | ⟨i, rfl⟩ | ⟨s, rfl⟩ | hr
  · have hnamed : ¬ IsUnnamed ⟨.integer, i⟩ := fun h => Bank.noConfusion h.1
    rw [ofText?, text_integer, SpecialRegister.ofName?_append_eq_none (.inl rfl), if_neg hnamed]
    simp [hread]
  · have hnamed : ¬ IsUnnamed ⟨.float, i⟩ := fun h => Bank.noConfusion h.1
    rw [ofText?, text_float, SpecialRegister.ofName?_append_eq_none (.inr rfl), if_neg hnamed]
    simp [hread]
  · have hnamed : ¬ IsUnnamed ⟨.misc, s.code.toUInt16⟩ := by
      cases s <;> decide
    rw [ofText?, text_code, SpecialRegister.ofName?_name, if_neg hnamed]
  · rw [text_of_isUnnamed hr, if_pos hr]
    decide

/-- The placeholder is printed just for the registers without a name. -/
theorem text_eq_placeholder_iff {r : Register} : r.text = placeholder ↔ r.IsUnnamed := by
  constructor
  · intro h
    by_contra hnamed
    have hread := r.ofText?_text
    rw [h, if_neg hnamed] at hread
    have hnone : ofText? placeholder = none := by decide
    rw [hnone] at hread
    cases hread
  · exact text_of_isUnnamed

/-- Two registers are printed alike just when they are alike. -/
theorem text_eq_text_iff {r s : Register} : r.text = s.text ↔ r.Alike s := by
  constructor
  · intro h
    have hread := congrArg ofText? h
    rw [ofText?_text, ofText?_text] at hread
    by_cases hr : r.IsUnnamed <;> by_cases hs : s.IsUnnamed
    · exact .inr ⟨isUnnamed_iff.mp hr, isUnnamed_iff.mp hs⟩
    · simp [hr, hs] at hread
    · simp [hr, hs] at hread
    · rw [if_neg hr, if_neg hs] at hread
      exact .inl (Option.some.inj hread)
  · rintro (rfl | ⟨hr, hs⟩)
    · rfl
    · rw [text_of_isUnnamed (isUnnamed_iff.mpr hr), text_of_isUnnamed (isUnnamed_iff.mpr hs)]

/-! ### Lists of registers -/

theorem isItem_of_mem_map_text {rs : List Register} {x : String} (h : x ∈ rs.map text) :
    IsItem x := by
  obtain ⟨r, -, rfl⟩ := List.mem_map.mp h
  exact r.isWord_text.isItem

theorem map_text_eq_map_text_iff {rs ss : List Register} :
    rs.map text = ss.map text ↔ List.Forall₂ Alike rs ss := by
  rw [← List.forall₂_eq_eq_eq, List.forall₂_map_left_iff, List.forall₂_map_right_iff]
  simp only [text_eq_text_iff]

/-- What the names leave open the reports decide. -/
theorem eq_of_forall₂_alike {rs ss : List Register} (h : List.Forall₂ Alike rs ss)
    (hlog : (rs.flatMap fun r => r.name.log) = ss.flatMap fun s => s.name.log) : rs = ss := by
  induction h with
  | nil => rfl
  | @cons r s rs ss hrs _ ih =>
    rw [List.flatMap_cons, List.flatMap_cons] at hlog
    rcases hrs with rfl | ⟨hr, hs⟩
    · rw [ih (List.append_cancel_left hlog)]
    · -- Both are printed as the placeholder, and the first report of each side is about them.
      rw [log_name, log_name, if_pos (isUnnamed_iff.mpr hr), if_pos (isUnnamed_iff.mpr hs)] at hlog
      obtain ⟨hhead, htail⟩ := List.cons.inj hlog
      have hindex : r.index = s.index := Event.unnamed.inj hhead
      have hrs : r = s := by
        cases r
        cases s
        simp_all
      rw [hrs, ih htail]

end Register

namespace Classifier

section Text

variable (classify : Classifier) (onto : String)

/-- Behind the first of several names the list goes on after a separator. -/
theorem appendNames_cons_cons (ref next : RegisterRef) (refs : List RegisterRef) :
    classify.appendNames onto (ref :: next :: refs) =
      classify.name ref >>= fun first =>
        classify.appendNames (onto ++ first ++ separator) (next :: refs) := by
  simp [appendNames]

/-- The names of a list are joined by separators. -/
theorem value_appendNames (refs : List RegisterRef) :
    (classify.appendNames onto refs).value =
      onto ++ separator.intercalate (refs.map fun ref => (classify ref).text) := by
  -- The text in front grows from step to step, so the induction is over every such text.
  induction refs generalizing onto with
  | nil => simp
  | cons ref refs ih =>
    cases refs with
    | nil => simp [appendNames_singleton, name, Register.text]
    | cons next refs =>
      rw [appendNames_cons_cons, Logged.value_bind, ih]
      simp only [List.map_cons, String.intercalate_cons_cons, String.append_assoc]
      rfl

/-- The reports of a list are those of its names, in order. -/
theorem log_appendNames (refs : List RegisterRef) :
    (classify.appendNames onto refs).log = refs.flatMap fun ref => (classify ref).name.log := by
  induction refs generalizing onto with
  | nil => simp
  | cons ref refs ih =>
    cases refs with
    | nil => simp [appendNames_singleton, name]
    | cons next refs =>
      rw [appendNames_cons_cons, Logged.log_bind, ih, List.flatMap_cons]
      rfl

end Text

/-! ### Lists read back -/

/-- Any registers, up to as many as there are references, are what some references stand for. -/
theorem exists_map_cyclic_eq {table : List Register} (hne : table ≠ [])
    (hlength : table.length ≤ UInt16.size) :
    ∃ refs : List RegisterRef, refs.map (cyclic table hne) = table := by
  refine ⟨(List.range table.length).map fun n => ⟨UInt16.ofNat n⟩,
    List.ext_getElem (by simp) fun n _ hn => ?_⟩
  have hplace : (UInt16.ofNat n).toNat % table.length = n := by
    rw [UInt16.toNat_ofNat_of_lt' (by omega), Nat.mod_eq_of_lt hn]
  simp only [List.getElem_map, List.getElem_range, cyclic, List.get_eq_getElem, hplace]

variable {classify : Classifier} {refs more : List RegisterRef}

theorem isItem_of_mem_names {x : String} (h : x ∈ refs.map fun ref => (classify ref).text) :
    IsItem x := by
  have hmem : x ∈ (refs.map classify).map Register.text := by rwa [List.map_map]
  exact Register.isItem_of_mem_map_text hmem

/-- A list of names leaves a text just when there is a name in it. -/
theorem separated_names_eq_empty_iff :
    separator.intercalate (refs.map fun ref => (classify ref).text) = "" ↔ refs = [] := by
  rw [Delimited.separated_eq_empty_iff fun _ => isItem_of_mem_names, List.map_eq_nil_iff]

/-- The names are found between the separators. -/
theorem toList_split_names (hne : refs ≠ []) :
    let names := refs.map fun ref => (classify ref).text
    ((separator.intercalate names).split separator).toList.map String.Slice.copy = names :=
  Delimited.toList_split_separated (mt List.map_eq_nil_iff.mp hne)
    fun _ hx => (isItem_of_mem_names hx).2

/-- Lists leave the same text behind `onto` just when they are lists of registers that are alike. -/
theorem value_appendNames_eq_iff {onto : String} :
    (classify.appendNames onto refs).value = (classify.appendNames onto more).value ↔
      List.Forall₂ (fun ref next => (classify ref).Alike (classify next)) refs more := by
  rw [value_appendNames, value_appendNames, String.append_right_inj,
    Delimited.separated_inj (fun _ => isItem_of_mem_names) fun _ => isItem_of_mem_names,
    ← List.forall₂_map_right_iff, ← List.forall₂_map_left_iff,
    ← Register.map_text_eq_map_text_iff, List.map_map, List.map_map]
  rfl

/-- A list that comes in two parts, neither of them empty, has a separator written between them. -/
theorem appendNames_append (hrefs : refs ≠ []) (hmore : more ≠ []) (onto : String) :
    classify.appendNames onto (refs ++ more) =
      classify.appendNames onto refs >>= fun text =>
        classify.appendNames (text ++ separator) more := by
  apply Logged.ext
  · rw [Logged.value_bind, value_appendNames, value_appendNames, value_appendNames, List.map_append,
      String.intercalate_append_of_ne_nil (mt List.map_eq_nil_iff.mp hrefs)
        (mt List.map_eq_nil_iff.mp hmore)]
    simp only [String.append_assoc]
  · rw [Logged.log_bind, log_appendNames, log_appendNames, log_appendNames, List.flatMap_append]

/-- Behind any text a list of names is written as the names with a separator between each two, and
reported as the names are. It leaves nothing just when it has no names, and otherwise the names are
what is found between the separators. So two lists leave the same text just when the registers they
name are alike one by one, and a list may be written in two parts with a separator between them. -/
theorem appendNames_reads_back (classify : Classifier) (onto : String) :
    (∀ refs : List RegisterRef,
      let names := refs.map fun ref => (classify.name ref).value
      let listed := ", ".intercalate names
      (classify.appendNames onto refs).value = onto ++ listed ∧
      ((classify.appendNames onto refs).log = refs.flatMap fun ref => (classify.name ref).log) ∧
      (listed = "" ↔ refs = []) ∧
      (refs ≠ [] → (listed.split ", ").toList.map String.Slice.copy = names)) ∧
    (∀ refs more : List RegisterRef,
      (classify.appendNames onto refs).value = (classify.appendNames onto more).value ↔
        List.Forall₂ (fun ref next => (classify ref).Alike (classify next)) refs more) ∧
    ∀ refs more : List RegisterRef, refs ≠ [] → more ≠ [] →
      classify.appendNames onto (refs ++ more) =
        classify.appendNames onto refs >>= fun text =>
          classify.appendNames (text ++ ", ") more := by
  refine ⟨fun refs => ⟨?_, ?_, ?_, ?_⟩, fun refs more => value_appendNames_eq_iff,
    fun refs more hrefs hmore => appendNames_append hrefs hmore onto⟩
  · exact classify.value_appendNames onto refs
  · exact classify.log_appendNames onto refs
  · exact separated_names_eq_empty_iff
  · exact toList_split_names

/-- Behind a text that ends in a separator itself, and with a placeholder among the names. -/
theorem appendNames_reads_back_of_placeholder :
    let classify := uniform .misc
    (([⟨0⟩, ⟨9⟩] : List RegisterRef) ≠ [] ∧ ([⟨2⟩] : List RegisterRef) ≠ []) ∧
      ("cr, unknown_reg".split ", ").toList.map String.Slice.copy = ["cr", "unknown_reg"] ∧
      classify.appendNames "r1, " [⟨0⟩, ⟨9⟩, ⟨2⟩] =
        ⟨"r1, cr, unknown_reg, lr", [.unnamed 9]⟩ := by
  intro classify
  have hrefs : ([⟨0⟩, ⟨9⟩] : List RegisterRef) ≠ [] := by decide
  have hmore : ([⟨2⟩] : List RegisterRef) ≠ [] := by decide
  obtain ⟨hlist, -, happend⟩ := appendNames_reads_back classify "r1, "
  obtain ⟨-, -, -, hsplit⟩ := hlist [⟨0⟩, ⟨9⟩]
  exact ⟨⟨hrefs, hmore⟩, hsplit hrefs, (happend _ _ hrefs hmore).trans (by decide)⟩

end Classifier

end PowerDisasm
