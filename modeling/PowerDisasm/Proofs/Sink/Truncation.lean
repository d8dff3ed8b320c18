import Mathlib.Algebra.Ring.Nat
import PowerDisasm.Proofs.Register.Names
import PowerDisasm.Proofs.Sink.Session

/-!
# Names printed into a sink until it is full

Names of registers consist of characters that take up one byte each. So a name that does not fit
leaves the sink full, and a run of names is written as far as the single text that they make up.
Compared with a sink without a limit, a sink of bounded size cuts off what is past its capacity and
does nothing else. With characters of several bytes the text of the sink might have a gap: where one
of them does not fit, there may be room for a shorter one later.

## Main results

* `Sink.isFull_of_write_eq_false`, `Sink.IsFull.printAll`: a name that does not fit fills the sink,
  and then nothing more is written
* `Sink.value_printAll_eq_write`: a run of names is written like the text they make up
* `Sink.printAll_truncates`: a run with a sink of bounded size and without a limit
-/

namespace PowerDisasm

/-! ### Characters of one byte -/

/-- A text whose characters take up one byte each. -/
def IsAscii (text : String) : Prop := ∀ c ∈ text.toList, c.utf8Size = 1

instance (text : String) : Decidable (IsAscii text) :=
  List.decidableBAll (fun c : Char => c.utf8Size = 1) text.toList

theorem IsAscii.append {s t : String} (hs : IsAscii s) (ht : IsAscii t) : IsAscii (s ++ t) := by
  intro c hc
  rw [String.toList_append, List.mem_append] at hc
  exact hc.elim (hs c) (ht c)

theorem Numeral.isAscii_decimal (n : Nat) : IsAscii (decimal n) := by
  have hdigits : ∀ d < 10, d.digitChar.utf8Size = 1 := by decide
  intro c hc
  rw [toList_decimal] at hc
  obtain ⟨d, hd, rfl⟩ := exists_digit_of_mem_toDigits (by omega) hc
  exact hdigits d hd

/-- Every name of a register is such a text. -/
theorem Register.isAscii_text (r : Register) : IsAscii r.text := by
  refine r.text_cases (fun letter n hletter => ?_) (fun s => ?_) (by decide)
  · have hascii : IsAscii letter := by
      rcases hletter with rfl | rfl <;> decide
    exact hascii.append (Numeral.isAscii_decimal n)
  · cases s <;> decide

/-- Such a text has as many bytes as characters. -/
theorem IsAscii.utf8ByteSize_eq {text : String} (h : IsAscii text) :
    text.utf8ByteSize = text.toList.length := by
  have key : ∀ cs : List Char, (∀ c ∈ cs, c.utf8Size = 1) →
      (String.ofList cs).utf8ByteSize = cs.length := by
    intro cs hcs
    induction cs with
    | nil => rfl
    | cons c cs ih =>
      obtain ⟨hc, hrest⟩ := List.forall_mem_cons.mp hcs
      rw [Sink.utf8ByteSize_ofList_cons, hc, ih hrest, List.length_cons, Nat.add_comm]
  rw [← key text.toList h, String.ofList_toList]

/-- The first characters of such a text are the first bytes. -/
theorem IsAscii.toUTF8_take {text : String} (h : IsAscii text) (k : Nat) :
    (String.ofList (text.toList.take k)).toUTF8 =
      text.toUTF8.extract 0 (min k text.utf8ByteSize) := by
  have hfront : IsAscii (String.ofList (text.toList.take k)) := by
    intro c hc
    rw [String.toList_ofList] at hc
    exact h c (List.mem_of_mem_take hc)
  have hsize : min k text.utf8ByteSize = (String.ofList (text.toList.take k)).utf8ByteSize := by
    rw [hfront.utf8ByteSize_eq, h.utf8ByteSize_eq, String.toList_ofList, List.length_take]
  have hsplit : text.toByteArray = (String.ofList (text.toList.take k)).toByteArray ++
      (String.ofList (text.toList.drop k)).toByteArray := by
    rw [← String.toByteArray_append, ← String.ofList_append, List.take_append_drop,
      String.ofList_toList]
  rw [String.toUTF8_eq_toByteArray, String.toUTF8_eq_toByteArray, hsize, hsplit,
    ByteArray.extract_append_eq_left String.size_toByteArray.symm]

/-! ### The text of a run -/

namespace Classifier

variable (classify : Classifier)

/-- The names of references, one after the other with nothing between them. -/
def joinNames (refs : List RegisterRef) : String :=
  String.join (refs.map fun ref => (classify.name ref).value)

theorem joinNames_nil : classify.joinNames [] = "" := rfl

theorem joinNames_cons (ref : RegisterRef) (refs : List RegisterRef) :
    classify.joinNames (ref :: refs) = (classify.name ref).value ++ classify.joinNames refs :=
  String.join_cons

theorem isAscii_value_name (ref : RegisterRef) : IsAscii (classify.name ref).value :=
  (classify ref).isAscii_text

theorem value_name_ne_empty (ref : RegisterRef) : (classify.name ref).value ≠ "" :=
  (classify ref).isWord_text.1

theorem isAscii_joinNames (refs : List RegisterRef) : IsAscii (classify.joinNames refs) := by
  induction refs with
  | nil => exact fun c hc => absurd hc List.not_mem_nil
  | cons ref refs ih =>
    rw [joinNames_cons]
    exact (classify.isAscii_value_name ref).append ih

theorem utf8ByteSize_joinNames (refs : List RegisterRef) :
    (classify.joinNames refs).utf8ByteSize =
      (refs.map fun ref => (classify.name ref).value.utf8ByteSize).sum := by
  induction refs with
  | nil => rfl
  | cons ref refs ih =>
    rw [joinNames_cons, String.utf8ByteSize_append, ih, List.map_cons, List.sum_cons]

end Classifier

namespace Sink

variable {s : Sink} {classify : Classifier}

/-! ### Full sinks -/

/-- A sink is full when it has no room for any character. -/
def IsFull (s : Sink) : Prop := ∀ c, ¬ s.HasRoom c

/-- Where a single byte does not fit, nothing does. -/
theorem isFull_of_not_hasRoom {c : Char} (hc : c.utf8Size = 1) (h : ¬ s.HasRoom c) : s.IsFull := by
  intro d hd
  apply h
  intro n hn
  have hroom := hd n hn
  have hpos := d.utf8Size_pos
  omega

theorem IsFull.write (h : s.IsFull) (text : String) : s.write text = (decide (text = ""), s) := by
  rw [Sink.write]
  cases hlist : text.toList with
  | nil =>
    have hempty : text = "" := String.toList_injective hlist
    rw [hempty]
    rfl
  | cons c cs =>
    have hne : text ≠ "" := ne_empty_of_mem (c := c) (hlist ▸ List.mem_cons_self)
    rw [writeChars, if_neg (h c), decide_eq_false hne]

/-- A text of one-byte characters that does not fit leaves the sink full. -/
theorem isFull_of_write_eq_false {text : String} (hascii : IsAscii text)
    (h : (s.write text).1 = false) : (s.write text).2.IsFull := by
  suffices key : ∀ (cs : List Char) (t : Sink), (∀ c ∈ cs, c.utf8Size = 1) →
      (t.writeChars cs).1 = false → (t.writeChars cs).2.IsFull from key _ s hascii h
  intro cs
  induction cs with
  | nil =>
    intro t _ hfalse
    cases hfalse
  | cons c cs ih =>
    intro t hcs hfalse
    obtain ⟨hc, hrest⟩ := List.forall_mem_cons.mp hcs
    rw [writeChars] at hfalse ⊢
    split
    case isTrue hroom =>
      rw [if_pos hroom] at hfalse
      exact ih (t.push c) hrest hfalse
    case isFalse hroom => exact isFull_of_not_hasRoom hc hroom

/-! ### Runs of names -/

/-- A run writes the first name and goes on with the sink that this leaves. -/
theorem value_printAll_cons (s : Sink) (classify : Classifier) (ref : RegisterRef)
    (refs : List RegisterRef) :
    (s.printAll classify (ref :: refs)).value =
      ((s.write (classify.name ref).value).1 ::
          ((s.write (classify.name ref).value).2.printAll classify refs).value.1,
        ((s.write (classify.name ref).value).2.printAll classify refs).value.2) := by
  rw [printAll, print_eq_write_name]
  rfl

/-- The reports of a run are those of the names, whatever the sink. -/
theorem log_printAll (s : Sink) (classify : Classifier) (refs : List RegisterRef) :
    (s.printAll classify refs).log = refs.flatMap fun ref => (classify.name ref).log := by
  induction refs generalizing s with
  | nil => rfl
  | cons ref refs ih =>
    rw [printAll, Logged.log_bind, Logged.log_bind, ih, print_eq_write_name, Logged.log_map,
      List.flatMap_cons, Logged.log_pure, List.append_nil]

/-- A run goes on with the sink that its first part leaves. -/
theorem value_printAll_append (s : Sink) (classify : Classifier) (refs more : List RegisterRef) :
    (s.printAll classify (refs ++ more)).value =
      ((s.printAll classify refs).value.1 ++
          ((s.printAll classify refs).value.2.printAll classify more).value.1,
        ((s.printAll classify refs).value.2.printAll classify more).value.2) := by
  induction refs generalizing s with
  | nil => rfl
  | cons ref refs ih =>
    rw [List.cons_append, value_printAll_cons, ih, value_printAll_cons, List.cons_append]

/-- Nothing is printed into a full sink. -/
theorem IsFull.printAll (h : s.IsFull) (refs : List RegisterRef) :
    (s.printAll classify refs).value = (List.replicate refs.length false, s) := by
  induction refs with
  | nil => rfl
  | cons ref refs ih =>
    rw [value_printAll_cons, h.write, ih, decide_eq_false (classify.value_name_ne_empty ref)]
    rfl

/-- A run of names is written like the text that they make up, and each name completely just when
the text up to its end is. -/
theorem value_printAll_eq_write (s : Sink) (classify : Classifier) (refs : List RegisterRef) :
    (s.printAll classify refs).value =
      ((List.range refs.length).map fun k => (s.write (classify.joinNames (refs.take (k + 1)))).1,
        (s.write (classify.joinNames refs)).2) := by
  induction refs generalizing s with
  | nil => rfl
  | cons ref refs ih =>
    rw [value_printAll_cons, List.length_cons, List.range_succ_eq_map, List.map_cons, List.map_map]
    simp only [Function.comp_def, List.take_succ_cons, List.take_zero, Classifier.joinNames_cons,
      Classifier.joinNames_nil, String.append_empty, write_append]
    cases hfirst : (s.write (classify.name ref).value).1 with
    | true => simp [ih]
    | false =>
      -- The sink is full, and the text that the names make up ends where the first one does.
      have hfull := isFull_of_write_eq_false (classify.isAscii_value_name ref) hfirst
      simp [hfull.printAll]

/-- Once a name of a run did not fit, the sink is full. -/
theorem isFull_of_false_mem_printAll {refs : List RegisterRef}
    (h : false ∈ (s.printAll classify refs).value.1) :
    (s.printAll classify refs).value.2.IsFull := by
  induction refs generalizing s with
  | nil => exact absurd h List.not_mem_nil
  | cons ref refs ih =>
    rw [value_printAll_cons] at h ⊢
    rcases List.mem_cons.mp h with hfirst | hrest
    · have hfull := isFull_of_write_eq_false (classify.isAscii_value_name ref) hfirst.symm
      simp only [hfull.printAll]
      exact hfull
    · exact ih hrest

/-- Once a name of a run did not fit, none of the later ones is written, not even in part. -/
theorem value_printAll_append_of_false_mem {refs : List RegisterRef}
    (h : false ∈ (s.printAll classify refs).value.1) (more : List RegisterRef) :
    (s.printAll classify (refs ++ more)).value =
      ((s.printAll classify refs).value.1 ++ List.replicate more.length false,
        (s.printAll classify refs).value.2) := by
  rw [value_printAll_append, (isFull_of_false_mem_printAll h).printAll]

/-! ### Bounded and unlimited sinks -/

/-- Of one-byte characters as many fit as there are bytes of room. -/
theorem fit_eq_take {cs : List Char} (h : ∀ c ∈ cs, c.utf8Size = 1) (room : Nat) :
    fit room cs = cs.take room := by
  induction cs generalizing room with
  | nil => rw [fit, List.take_nil]
  | cons c cs ih =>
    obtain ⟨hc, hrest⟩ := List.forall_mem_cons.mp h
    rw [fit, hc]
    cases room with
    | zero => rfl
    | succ room =>
      rw [if_pos (Nat.le_add_left 1 room), Nat.add_sub_cancel, ih hrest, List.take_succ_cons]

/-- What an empty sink keeps of a text of one-byte characters. -/
theorem write_empty_of_isAscii {text : String} (h : IsAscii text) (c : Nat) :
    (empty (some c)).write text =
      (decide (text.utf8ByteSize ≤ c), ⟨some c, String.ofList (text.toList.take c)⟩) := by
  have hroom : c - (empty (some c)).text.utf8ByteSize = c := Nat.sub_zero c
  rw [write, writeChars_eq_fit rfl, hroom, fit_eq_take h, h.utf8ByteSize_eq]
  simp [empty, List.take_eq_self_iff]

/-- What a run leaves in an empty sink with room for `c` bytes, and which names are written
completely. -/
theorem value_printAll_empty (classify : Classifier) (c : Nat) (refs : List RegisterRef) :
    ((empty (some c)).printAll classify refs).value =
      ((List.range refs.length).map fun k =>
          decide ((classify.joinNames (refs.take (k + 1))).utf8ByteSize ≤ c),
        ⟨some c, String.ofList ((classify.joinNames refs).toList.take c)⟩) := by
  rw [value_printAll_eq_write]
  simp only [write_empty_of_isAscii (classify.isAscii_joinNames _)]

/-- Without a limit every name is written. -/
theorem value_printAll_of_capacity_eq_none (h : s.capacity = none) (refs : List RegisterRef) :
    (s.printAll classify refs).value =
      (List.replicate refs.length true, { s with text := s.text ++ classify.joinNames refs }) := by
  rw [value_printAll_eq_write]
  simp only [write_of_capacity_eq_none h, List.map_const', List.length_range]

/-- A run of names printed into an empty sink with room for `c` bytes, compared with the same run
printed without a limit, where every name is written and the text is made up of the names. The
bounded sink holds the first `c` bytes of that text, or all of it when there are no more. A name is
written completely just when it and the names before it take up no more than `c` bytes together.
Once a name was not, none of the later ones is, and the sink stays as it is. Both runs make the same
reports. -/
theorem printAll_truncates (classify : Classifier) (c : Nat) (refs : List RegisterRef) :
    let bounded (refs : List RegisterRef) := (empty (some c)).printAll classify refs
    let unlimited := (empty none).printAll classify refs
    let whole := unlimited.value.2.text
    unlimited.value.1 = List.replicate refs.length true ∧
      whole = String.join (refs.map fun ref => (classify.name ref).value) ∧
      (bounded refs).value.2.text.toUTF8 = whole.toUTF8.extract 0 (min c whole.utf8ByteSize) ∧
      (bounded refs).value.1 = (List.range refs.length).map (fun k =>
        decide (((refs.take (k + 1)).map fun ref => (classify.name ref).value.utf8ByteSize).sum
          ≤ c)) ∧
      (∀ k, false ∈ (bounded (refs.take k)).value.1 →
        (bounded refs).value =
          ((bounded (refs.take k)).value.1 ++ List.replicate (refs.length - k) false,
            (bounded (refs.take k)).value.2)) ∧
      (bounded refs).log = unlimited.log := by
  intro bounded unlimited whole
  have hunlimited : unlimited.value =
      (List.replicate refs.length true, ⟨none, "" ++ classify.joinNames refs⟩) :=
    value_printAll_of_capacity_eq_none rfl refs
  have hwhole : whole = classify.joinNames refs := by
    change unlimited.value.2.text = _
    rw [hunlimited, String.empty_append]
  have hbounded := value_printAll_empty classify c refs
  refine ⟨congrArg Prod.fst hunlimited, hwhole, ?_, ?_, ?_, ?_⟩
  · change ((empty (some c)).printAll classify refs).value.2.text.toUTF8 = _
    rw [hbounded, hwhole]
    exact (classify.isAscii_joinNames refs).toUTF8_take c
  · simp only [Classifier.utf8ByteSize_joinNames] at hbounded
    exact congrArg Prod.fst hbounded
  · intro k hfailed
    have hrun := value_printAll_append_of_false_mem hfailed (refs.drop k)
    rwa [List.take_append_drop, List.length_drop] at hrun
  · calc
      (bounded refs).log = refs.flatMap fun ref => (classify.name ref).log := log_printAll _ _ _
      _ = unlimited.log := (log_printAll _ _ _).symm

/-- A name cut in the middle is the last of which anything is written. -/
theorem printAll_truncates_inside_placeholder :
    let bounded (refs : List RegisterRef) :=
      (empty (some 4)).printAll (Classifier.uniform .misc) refs
    false ∈ (bounded [⟨0⟩, ⟨9⟩]).value.1 ∧
      (bounded [⟨0⟩, ⟨9⟩, ⟨2⟩, ⟨0⟩]).value = ([true, false, false, false], ⟨some 4, "crun"⟩) := by
  intro bounded
  have hfailed : false ∈ (bounded [⟨0⟩, ⟨9⟩]).value.1 := by decide
  obtain ⟨-, -, -, -, hrest, -⟩ :=
    printAll_truncates (Classifier.uniform .misc) 4 [⟨0⟩, ⟨9⟩, ⟨2⟩, ⟨0⟩]
  exact ⟨hfailed, (hrest 2 hfailed).trans (by decide)⟩

end Sink

end PowerDisasm
