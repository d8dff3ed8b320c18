import Mathlib.Data.List.Forall2
import PowerDisasm.Layout
import PowerDisasm.Proofs.Numeral

/-!
# Banks as segments of the row

A bank is a segment of the row of registers, and a register of the bank lies at the start plus its
index. This makes one relation between numbers and registers, and both functions of a layout are
readings of it: `classify` from the number to the register, and `reference` from the register to the
number. So they are inverse. A register has no number just when its index is not below the count of
its bank, which is just when no number stands for it.

## Main definitions

* `Layout.Holds`: a register is the one at a number

## Main results

* `Layout.classify_eq_iff`, `Layout.reference_eq_ok_iff`: the two readings of the relation
* `Layout.exists_gpr_eq_error_iff`, `Layout.exists_fpr_eq_error_iff`,
  `Layout.exists_special_eq_error_iff`: the registers that a layout does not have
* `mapM_eq_ok_iff`, `exists_mapM_eq_ok_iff`: lists of numbers and registers
* `LayoutError.message_injective`: the message of an error tells the error
* `Layout.reference_inverse_classify`: the layouts there are, and what they do in both directions
-/

namespace PowerDisasm

/-- A reference is nothing but its number. -/
theorem RegisterRef.ext_toNat {a b : RegisterRef} (h : a.number.toNat = b.number.toNat) :
    a = b := by
  cases a
  cases b
  rw [RegisterRef.mk.injEq]
  exact UInt16.toNat_inj.mp h

/-! ### Results that may be errors -/

section Results

variable {α β ε : Type} {f : α → Except ε β} {l : List α} {out : List β}

theorem bind_eq_ok_iff {x : Except ε α} {b : β} :
    x >>= f = .ok b ↔ ∃ a, x = .ok a ∧ f a = .ok b := by
  cases x <;> simp [bind, Except.bind]

theorem mapM_cons_eq_ok_iff {a : α} :
    (a :: l).mapM f = .ok out ↔ ∃ b rest, f a = .ok b ∧ l.mapM f = .ok rest ∧ out = b :: rest := by
  simp only [List.mapM_cons, bind_eq_ok_iff, pure, Except.pure, Except.ok.injEq]
  constructor
  · rintro ⟨b, hfirst, rest, hrest, rfl⟩
    exact ⟨b, rest, hfirst, hrest, rfl⟩
  · rintro ⟨b, rest, hfirst, hrest, rfl⟩
    exact ⟨b, hfirst, rest, hrest, rfl⟩

/-- A list is worked out when each of its items is. -/
theorem mapM_eq_ok_iff : l.mapM f = .ok out ↔ List.Forall₂ (fun a b => f a = .ok b) l out := by
  induction l generalizing out with
  | nil => simp [pure, Except.pure, eq_comm]
  | cons a l ih => simp only [mapM_cons_eq_ok_iff, ih, List.forall₂_cons_left_iff]

theorem exists_mapM_eq_ok_iff : (∃ out, l.mapM f = .ok out) ↔ ∀ a ∈ l, ∃ b, f a = .ok b := by
  induction l with
  | nil => simp [pure, Except.pure]
  | cons a l ih =>
    rw [List.forall_mem_cons, ← ih]
    constructor
    · rintro ⟨out, h⟩
      obtain ⟨b, rest, hfirst, hrest, -⟩ := mapM_cons_eq_ok_iff.mp h
      exact ⟨⟨b, hfirst⟩, ⟨rest, hrest⟩⟩
    · rintro ⟨⟨b, hfirst⟩, ⟨rest, hrest⟩⟩
      exact ⟨b :: rest, mapM_cons_eq_ok_iff.mpr ⟨b, rest, hfirst, hrest, rfl⟩⟩

end Results

/-! ### What an error tells -/

theorem Bank.isWord_text (b : Bank) : IsWord b.text := by cases b <;> decide

theorem Bank.text_injective {b c : Bank} (h : b.text = c.text) : b = c := by
  have hfound := congrArg Bank.ofText? h
  rwa [ofText?_text, ofText?_text, Option.some.injEq] at hfound

namespace LayoutError

variable {s s' phrase phrase' t t' : String}

/-- A phrase of a message starts with a space or a comma, where the word in front of it ends. -/
def IsPhrase (phrase : String) : Prop :=
  phrase.toList.head? = some ' ' ∨ phrase.toList.head? = some ','

instance (phrase : String) : Decidable (IsPhrase phrase) := inferInstanceAs (Decidable (_ ∨ _))

theorem IsPhrase.not_continuesWord (h : IsPhrase phrase) (t : String) :
    ¬ ContinuesWord (phrase ++ t) := by
  rw [ContinuesWord, String.toList_append, List.head?_append]
  rcases h with h | h <;> rw [h, Option.some_or] <;> decide

theorem split_phrase (hs : IsWord s) (hs' : IsWord s') (hphrase : IsPhrase phrase)
    (hphrase' : IsPhrase phrase') (h : s ++ (phrase ++ t) = s' ++ (phrase' ++ t')) :
    s = s' ∧ phrase ++ t = phrase' ++ t' :=
  Delimited.split_word hs hs' (hphrase.not_continuesWord t) (hphrase'.not_continuesWord t') h

/-- The first word tells the kind of an error: it is the word for a bank, or it is not. -/
theorem message_overlapping_ne (f m : UInt16) (bank : Bank) (i : UInt16) (n : UInt32) :
    (overlapping f m).message ≠ (indexOutOfRange bank i n).message := by
  intro h
  have hword :
      "floating-point registers start at " = "floating-point" ++ " registers start at " := by decide
  unfold message at h
  simp only [hword, String.append_assoc] at h
  obtain ⟨hbank, -⟩ := split_phrase (by decide) bank.isWord_text (by decide) (by decide) h
  cases bank <;> exact absurd hbank (by decide)

/-- The message of an error tells the error. -/
theorem message_injective {e e' : LayoutError} (h : e.message = e'.message) : e = e' := by
  cases e with
  | overlapping f m =>
    cases e' with
    | overlapping f' m' =>
      unfold message at h
      simp only [String.append_assoc, String.append_right_inj] at h
      obtain ⟨hf, hrest⟩ := split_phrase (Numeral.isWord_hexadecimal _)
        (Numeral.isWord_hexadecimal _) (by decide) (by decide) h
      have hm := (String.append_right_inj _).mp hrest
      rw [UInt16.toNat_inj.mp (Numeral.hexadecimal_injective hf),
        UInt16.toNat_inj.mp (Numeral.hexadecimal_injective hm)]
    | indexOutOfRange bank i n => exact absurd h (message_overlapping_ne _ _ _ _ _)
  | indexOutOfRange bank i n =>
    cases e' with
    | overlapping f m => exact absurd h.symm (message_overlapping_ne _ _ _ _ _)
    | indexOutOfRange bank' i' n' =>
      unfold message at h
      simp only [String.append_assoc] at h
      obtain ⟨hbank, hrest⟩ := split_phrase bank.isWord_text bank'.isWord_text (by decide)
        (by decide) h
      obtain ⟨hi, hrest⟩ := split_phrase (Numeral.isWord_decimal _) (Numeral.isWord_decimal _)
        (by decide) (by decide) ((String.append_right_inj _).mp hrest)
      obtain ⟨hn, -⟩ := Delimited.split_word (Numeral.isWord_decimal _) (Numeral.isWord_decimal _)
        (by decide) (by decide) ((String.append_right_inj _).mp hrest)
      rw [Bank.text_injective hbank, UInt16.toNat_inj.mp (Numeral.decimal_injective hi),
        UInt32.toNat_inj.mp (Numeral.decimal_injective hn)]

/-- The message repeats everything that the error holds. -/
example : (overlapping 64 32).message =
      "floating-point registers start at 0x40, past the misc registers at 0x20" ∧
    (indexOutOfRange .float 32 32).message =
      "float register index 32 is out of range, the class holds 32 registers" := ⟨rfl, rfl⟩

end LayoutError

namespace Layout

variable {l : Layout} {ref : RegisterRef} {bank : Bank} {index : UInt16}

/-- The number at which a bank ends, which is not part of it. -/
def stop (l : Layout) : Bank → Nat
  | .integer => l.floatStart.toNat
  | .float => l.miscStart.toNat
  | .misc => 65536

/-- The register `r` lies at the number of `ref`: as far behind the start of its bank as its index
says, and before the end of the bank. -/
def Holds (l : Layout) (ref : RegisterRef) (r : Register) : Prop :=
  (l.start r.bank).toNat + r.index.toNat = ref.number.toNat ∧ ref.number.toNat < l.stop r.bank

theorem toNat_floatStart_le (l : Layout) : l.floatStart.toNat ≤ l.miscStart.toNat :=
  UInt16.le_iff_toNat_le.mp l.floatStart_le_miscStart

theorem toNat_start_le_stop (l : Layout) (bank : Bank) : (l.start bank).toNat ≤ l.stop bank := by
  have horder := l.toNat_floatStart_le
  have hrow := l.miscStart.toNat_lt
  cases bank with
  | integer => exact Nat.zero_le _
  | float => exact horder
  | misc => exact Nat.le_of_lt hrow

theorem stop_le (l : Layout) (bank : Bank) : l.stop bank ≤ 65536 := by
  have hfloat := l.floatStart.toNat_lt
  have hmisc := l.miscStart.toNat_lt
  cases bank with
  | integer => exact Nat.le_of_lt hfloat
  | float => exact Nat.le_of_lt hmisc
  | misc => exact Nat.le_refl _

/-- The count of a bank is the length of its segment. -/
theorem toNat_count (l : Layout) (bank : Bank) :
    (l.count bank).toNat = l.stop bank - (l.start bank).toNat := by
  cases bank with
  | integer => simp [count, stop, start]
  | float =>
    rw [count, UInt16.toNat_toUInt32, UInt16.toNat_sub_of_le _ _ l.floatStart_le_miscStart]
    rfl
  | misc =>
    have hrow := l.miscStart.toNat_lt
    have hle : l.miscStart.toUInt32 ≤ 65536 := by
      rw [UInt32.le_iff_toNat_le, UInt16.toNat_toUInt32]
      exact Nat.le_of_lt hrow
    rw [count, UInt32.toNat_sub_of_le _ _ hle, UInt16.toNat_toUInt32]
    rfl

/-- An index is one of the bank when the register lies before the end of the segment. -/
theorem index_lt_count_iff :
    index.toUInt32 < l.count bank ↔ (l.start bank).toNat + index.toNat < l.stop bank := by
  have hsegment := l.toNat_start_le_stop bank
  rw [UInt32.lt_iff_toNat_lt, UInt16.toNat_toUInt32, toNat_count]
  omega

/-! ### The two readings -/

/-- Every number stands for the register that lies there. -/
theorem holds_classify (l : Layout) (ref : RegisterRef) : l.Holds ref (l.classify ref) := by
  have hrow := ref.number.toNat_lt
  unfold classify
  split
  case isTrue hfloat =>
    exact ⟨Nat.zero_add _, UInt16.lt_iff_toNat_lt.mp hfloat⟩
  case isFalse hfloat =>
    have hstart : l.floatStart ≤ ref.number := UInt16.not_lt.mp hfloat
    split
    case isTrue hmisc =>
      refine ⟨?_, UInt16.lt_iff_toNat_lt.mp hmisc⟩
      have hle := UInt16.le_iff_toNat_le.mp hstart
      rw [UInt16.toNat_sub_of_le _ _ hstart]
      exact Nat.add_sub_cancel' hle
    case isFalse hmisc =>
      have hstart : l.miscStart ≤ ref.number := UInt16.not_lt.mp hmisc
      refine ⟨?_, hrow⟩
      have hle := UInt16.le_iff_toNat_le.mp hstart
      rw [UInt16.toNat_sub_of_le _ _ hstart]
      exact Nat.add_sub_cancel' hle

/-- The segments do not overlap, so no two registers lie at one number. -/
theorem Holds.unique {r s : Register} (hr : l.Holds ref r) (hs : l.Holds ref s) : r = s := by
  obtain ⟨bank, index⟩ := r
  obtain ⟨bank', index'⟩ := s
  obtain ⟨hplace, hstop⟩ := hr
  obtain ⟨hplace', hstop'⟩ := hs
  have horder := l.toNat_floatStart_le
  have hbank : bank = bank' := by
    cases bank <;> cases bank' <;> first | rfl | (simp only [start, stop] at *; omega)
  subst hbank
  have hindex : index = index' :=
    UInt16.toNat_inj.mp (Nat.add_left_cancel (hplace.trans hplace'.symm))
  rw [hindex]

/-- The register at a number is the one that the number stands for. -/
theorem classify_eq_iff {r : Register} : l.classify ref = r ↔ l.Holds ref r := by
  constructor
  · rintro rfl
    exact l.holds_classify ref
  · exact (l.holds_classify ref).unique

/-- A number is given for a register just when the register lies there. -/
theorem reference_eq_ok_iff :
    l.reference bank index = .ok ref ↔ l.Holds ref ⟨bank, index⟩ := by
  have hstop := l.stop_le bank
  unfold reference Holds
  split
  case isTrue h =>
    rw [index_lt_count_iff] at h
    -- The sum stays below the end of the row, so the word does not wrap around.
    have hsum : (l.start bank + index).toNat = (l.start bank).toNat + index.toNat := by
      rw [UInt16.toNat_add]
      exact Nat.mod_eq_of_lt (Nat.lt_of_lt_of_le h hstop)
    constructor
    · intro hok
      cases hok
      exact ⟨hsum.symm, hsum ▸ h⟩
    · rintro ⟨hplace, -⟩
      have hnumber : l.start bank + index = ref.number :=
        UInt16.toNat_inj.mp (hsum.trans hplace)
      rw [hnumber]
  case isFalse h =>
    rw [index_lt_count_iff] at h
    constructor
    · intro herror
      cases herror
    · rintro ⟨hplace, hlt⟩
      exact absurd (hplace ▸ hlt) h

/-- No number is given just when the index is not below the count, and the error says so. -/
theorem reference_eq_error_iff {e : LayoutError} :
    l.reference bank index = .error e ↔
      (l.count bank).toNat ≤ index.toNat ∧ e = .indexOutOfRange bank index (l.count bank) := by
  have hcount : index.toUInt32 < l.count bank ↔ ¬ (l.count bank).toNat ≤ index.toNat := by
    rw [UInt32.lt_iff_toNat_lt, UInt16.toNat_toUInt32, Nat.not_le]
  unfold reference
  split
  case isTrue h =>
    constructor
    · intro hok
      cases hok
    · rintro ⟨hle, -⟩
      exact absurd hle (hcount.mp h)
  case isFalse h =>
    have hle : (l.count bank).toNat ≤ index.toNat := Decidable.not_not.mp (mt hcount.mpr h)
    simp [hle, eq_comm]

/-- Different numbers stand for different registers. -/
theorem classify_injective {ref ref' : RegisterRef} (h : l.classify ref = l.classify ref') :
    ref = ref' := by
  obtain ⟨hplace, -⟩ := l.holds_classify ref
  obtain ⟨hplace', -⟩ := l.holds_classify ref'
  rw [h] at hplace
  exact RegisterRef.ext_toNat (hplace.symm.trans hplace')

/-! ### Which registers there are -/

theorem classify_of_reference (h : l.reference bank index = .ok ref) :
    l.classify ref = ⟨bank, index⟩ :=
  classify_eq_iff.mpr (reference_eq_ok_iff.mp h)

/-- A layout has the registers whose index is below the count of the bank. -/
theorem exists_reference_eq_ok_iff_lt :
    (∃ ref, l.reference bank index = .ok ref) ↔ index.toNat < (l.count bank).toNat := by
  rw [← UInt16.toNat_toUInt32, ← UInt32.lt_iff_toNat_lt]
  unfold reference
  split
  case isTrue h => simp [h]
  case isFalse h => simp [h]

/-- A layout lacks the registers whose index is not below the length of the bank. -/
theorem exists_reference_eq_error_iff_le :
    (∃ e, l.reference bank index = .error e) ↔
      l.stop bank - (l.start bank).toNat ≤ index.toNat := by
  simp only [reference_eq_error_iff, toNat_count, exists_and_left, exists_eq, and_true]

theorem exists_gpr_eq_error_iff :
    (∃ e, l.gpr index = .error e) ↔ l.floatStart.toNat ≤ index.toNat :=
  exists_reference_eq_error_iff_le

theorem exists_fpr_eq_error_iff :
    (∃ e, l.fpr index = .error e) ↔ l.miscStart.toNat - l.floatStart.toNat ≤ index.toNat :=
  exists_reference_eq_error_iff_le

/-- A special purpose register is lacking when it would lie past the end of the row. -/
theorem exists_special_eq_error_iff {r : SpecialRegister} :
    (∃ e, l.special r = .error e) ↔ 65535 < l.miscStart.toNat + r.code.toNat := by
  have hrow := l.miscStart.toNat_lt
  rw [special, exists_reference_eq_error_iff_le, UInt8.toNat_toUInt16, stop, start]
  omega

/-- The first register of the miscellaneous bank is never lacking. -/
theorem exists_special_cr_eq_ok (l : Layout) : ∃ ref, l.special .cr = .ok ref := by
  cases hresult : l.special .cr with
  | ok ref => exact ⟨ref, rfl⟩
  | error e =>
    have hpast := exists_special_eq_error_iff.mp ⟨e, hresult⟩
    have hrow := l.miscStart.toNat_lt
    have hcode : SpecialRegister.cr.code.toNat = 0 := rfl
    omega

/-! ### The two directions are inverse -/

/-- Cuts out of order are refused, and the error repeats them. -/
theorem ofStarts_eq_error_iff {f m : UInt16} {e : LayoutError} :
    ofStarts f m = .error e ↔ m < f ∧ e = .overlapping f m := by
  unfold ofStarts
  split
  case isTrue h =>
    constructor
    · intro hok
      cases hok
    · rintro ⟨hlt, -⟩
      exact absurd h (UInt16.not_le.mpr hlt)
  case isFalse h => simp [UInt16.not_le.mp h, eq_comm]

theorem exists_ofStarts_eq_ok_iff {f m : UInt16} :
    (∃ l, ofStarts f m = .ok l) ↔ f ≤ m := by
  constructor
  · rintro ⟨l, hl⟩
    obtain ⟨rfl, rfl⟩ := ofStarts_eq_ok_iff.mp hl
    exact l.floatStart_le_miscStart
  · intro h
    exact ⟨⟨f, m, h⟩, ofStarts_eq_ok_iff.mpr ⟨rfl, rfl⟩⟩

/-- A register fails to have a number just when no number stands for it. -/
theorem exists_reference_eq_error_iff {l : Layout} {bank : Bank} {index : UInt16} :
    (∃ e, l.reference bank index = .error e) ↔ ∀ ref, l.classify ref ≠ ⟨bank, index⟩ := by
  constructor
  · rintro ⟨e, herror⟩ ref hclassify
    have hok := reference_eq_ok_iff.mpr (classify_eq_iff.mp hclassify)
    rw [hok] at herror
    cases herror
  · intro hnone
    cases hresult : l.reference bank index with
    | error e => exact ⟨e, rfl⟩
    | ok ref =>
      have hclassify := classify_eq_iff.mpr (reference_eq_ok_iff.mp hresult)
      exact absurd hclassify (hnone ref)

/-- Layouts are made from the cuts that are in order, and refused for all others with both cuts
reported. Under each of them `reference` and `classify` are inverse: a register has the number `ref`
just when `ref` stands for it. A register has none just when its index is not below the count of its
bank, which the error reports, and that is when no number stands for it. -/
theorem reference_inverse_classify :
    (∀ f m : UInt16, (∃ l, ofStarts f m = .ok l) ↔ f ≤ m) ∧
    (∀ (f m : UInt16) (l : Layout), ofStarts f m = .ok l ↔ l.floatStart = f ∧ l.miscStart = m) ∧
    (∀ (f m : UInt16) (e : LayoutError),
      ofStarts f m = .error e ↔ m < f ∧ e = .overlapping f m) ∧
    ∀ l : Layout,
      (∀ (bank : Bank) (index : UInt16) (ref : RegisterRef),
        l.reference bank index = .ok ref ↔ l.classify ref = ⟨bank, index⟩) ∧
      (∀ ref : RegisterRef,
        l.reference (l.classify ref).bank (l.classify ref).index = .ok ref) ∧
      ∀ (bank : Bank) (index : UInt16),
        (∀ e : LayoutError, l.reference bank index = .error e ↔
          (l.count bank).toNat ≤ index.toNat ∧ e = .indexOutOfRange bank index (l.count bank)) ∧
        ((∃ e, l.reference bank index = .error e) ↔ ∀ ref, l.classify ref ≠ ⟨bank, index⟩) := by
  refine ⟨fun f m => exists_ofStarts_eq_ok_iff, fun f m l => ofStarts_eq_ok_iff,
    fun f m e => ofStarts_eq_error_iff, fun l => ⟨?_, ?_, ?_⟩⟩
  · intro bank index ref
    rw [reference_eq_ok_iff, classify_eq_iff]
  · intro ref
    exact reference_eq_ok_iff.mpr (l.holds_classify ref)
  · intro bank index
    exact ⟨fun e => reference_eq_error_iff, exists_reference_eq_error_iff⟩

/-- The last number of the row is a register of its own when the last cut is there, and the next
index is refused. The sum of start and index would have wrapped around. -/
example :
    let l : Layout := ⟨0, 65535, by decide⟩
    l.reference .misc 0 = .ok ⟨65535⟩ ∧
      l.reference .misc 1 = .error (.indexOutOfRange .misc 1 1) := ⟨rfl, rfl⟩

end Layout

end PowerDisasm
