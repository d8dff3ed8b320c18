import Mathlib.Data.Set.Card
import Mathlib.Order.Interval.Finset.Nat
import Mathlib.Tactic.TFAE
import PowerDisasm.Proofs.Layout.Banks

/-!
# The order of the row

The banks follow each other in the row, and the indices of a bank count up from its start. So the
order of the numbers is the order of the registers that they stand for, first by bank and then by
index, and a list of references may be sorted with a layout or without. A layout is known by what it
does: its cuts can be recovered from the counts of the banks, these from what the numbers stand for,
and that from the numbers that registers are given.

## Main results

* `RegisterRef.eq_sort_iff`, `RegisterRef.sort_eq_self_iff`: what sorting a list of references
  means, and which lists are sorted
* `Layout.bank_classify_eq_iff`, `Layout.ncard_bank`: the numbers of a bank, and how many they are
* `Layout.classify_preserves_order`: the banks of a layout, and the order of numbers and registers
* `Layout.equality_is_observational`: equality of layouts in terms of their answers
-/

namespace PowerDisasm

/-! ### Orders -/

/-- How many banks a register file holds before this one. -/
def Bank.rank : Bank → Nat
  | .integer => 0
  | .float => 1
  | .misc => 2

theorem Bank.rank_injective {b c : Bank} (h : b.rank = c.rank) : b = c := by
  revert h
  cases b <;> cases c <;> decide

namespace Register

/-- A register is before another when its bank is, or when it has the lower index in the same
bank. -/
instance : LT Register :=
  ⟨fun r s => r.bank.rank < s.bank.rank ∨ r.bank = s.bank ∧ r.index < s.index⟩

instance : LE Register := ⟨fun r s => r < s ∨ r = s⟩

instance (r s : Register) : Decidable (r < s) := inferInstanceAs (Decidable (_ ∨ _))

instance (r s : Register) : Decidable (r ≤ s) := inferInstanceAs (Decidable (_ ∨ _))

theorem lt_def {r s : Register} :
    r < s ↔ r.bank.rank < s.bank.rank ∨ r.bank = s.bank ∧ r.index < s.index := Iff.rfl

theorem le_def {r s : Register} : r ≤ s ↔ r < s ∨ r = s := Iff.rfl

end Register

namespace RegisterRef

/-- References are compared as the natural numbers that they are. -/
theorem lt_iff_toNat_lt {a b : RegisterRef} : a < b ↔ a.number.toNat < b.number.toNat :=
  UInt16.lt_iff_toNat_lt

theorem le_iff_toNat_le {a b : RegisterRef} : a ≤ b ↔ a.number.toNat ≤ b.number.toNat :=
  UInt16.le_iff_toNat_le

theorem le_antisymm {a b : RegisterRef} (hab : a ≤ b) (hba : b ≤ a) : a = b :=
  ext_toNat (Nat.le_antisymm (le_iff_toNat_le.mp hab) (le_iff_toNat_le.mp hba))

theorem sort_perm (refs : List RegisterRef) : (sort refs).Perm refs := List.mergeSort_perm _ _

theorem pairwise_sort (refs : List RegisterRef) : (sort refs).Pairwise (· ≤ ·) := by
  have htrans : ∀ a b c : RegisterRef, decide (a ≤ b) → decide (b ≤ c) → decide (a ≤ c) := by
    simp only [decide_eq_true_eq, le_iff_toNat_le]
    intro a b c
    exact Nat.le_trans
  have htotal : ∀ a b : RegisterRef, decide (a ≤ b) || decide (b ≤ a) := by
    simp only [Bool.or_eq_true, decide_eq_true_eq, le_iff_toNat_le]
    intro a b
    exact Nat.le_total _ _
  have hpairwise := List.pairwise_mergeSort htrans htotal refs
  simp only [decide_eq_true_eq] at hpairwise
  exact hpairwise

/-- Sorting gives the one rearrangement of a list that is in ascending order. -/
theorem eq_sort_iff {out refs : List RegisterRef} :
    out = sort refs ↔ out.Perm refs ∧ out.Pairwise (· ≤ ·) := by
  constructor
  · rintro rfl
    exact ⟨sort_perm refs, pairwise_sort refs⟩
  · rintro ⟨hperm, hascending⟩
    exact (hperm.trans (sort_perm refs).symm).eq_of_pairwise (fun _ _ _ _ => le_antisymm)
      hascending (pairwise_sort refs)

theorem compare_eq_gt_iff {a b : RegisterRef} : compare a b = .gt ↔ ¬ a ≤ b := by
  rw [le_def, UInt16.not_le]
  exact Std.compare_eq_gt (a := a.number) (b := b.number)

instance : @Trans RegisterRef RegisterRef RegisterRef (· ≤ ·) (· ≤ ·) (· ≤ ·) :=
  ⟨fun hab hbc => UInt16.le_trans hab hbc⟩

theorem gt_notMem_neighbours_iff {refs : List RegisterRef} :
    .gt ∉ neighbours refs ↔ refs.IsChain (· ≤ ·) := by
  induction refs with
  | nil => simp [neighbours]
  | cons a refs ih =>
    cases refs with
    | nil => simp [neighbours]
    | cons b refs =>
      have hfirst : neighbours (a :: b :: refs) = compare a b :: neighbours (b :: refs) := rfl
      rw [hfirst, List.mem_cons, not_or, ih, List.isChain_cons_cons, eq_comm, compare_eq_gt_iff,
        Decidable.not_not]

/-- A list is in order just when none of its references is greater than the next. -/
theorem sort_eq_self_iff {refs : List RegisterRef} : sort refs = refs ↔ .gt ∉ neighbours refs := by
  rw [eq_comm, eq_sort_iff, gt_notMem_neighbours_iff, List.isChain_iff_pairwise,
    and_iff_right (List.Perm.refl refs)]

end RegisterRef

namespace Layout

variable {l : Layout} {ref a b : RegisterRef} {bank : Bank} {index : UInt16}

/-! ### The numbers of a bank -/

theorem start_add_count (l : Layout) (bank : Bank) :
    (l.start bank).toNat + (l.count bank).toNat = l.stop bank := by
  rw [toNat_count]
  exact Nat.add_sub_cancel' (l.toNat_start_le_stop bank)

/-- A register stands at the place that is its index behind the start of its bank, if the bank is
that long. -/
theorem classify_eq_mk_iff :
    l.classify ref = ⟨bank, index⟩ ↔
      ref.number.toNat = (l.start bank).toNat + index.toNat ∧
        index.toNat < (l.count bank).toNat := by
  rw [classify_eq_iff, Holds, ← start_add_count]
  constructor
  · rintro ⟨hplace, hlt⟩
    rw [← hplace] at hlt
    exact ⟨hplace.symm, Nat.lt_of_add_lt_add_left hlt⟩
  · rintro ⟨hplace, hlt⟩
    rw [hplace]
    exact ⟨rfl, Nat.add_lt_add_left hlt _⟩

/-- The numbers of a bank are those from its start on, as many as the bank has registers. -/
theorem bank_classify_eq_iff :
    (l.classify ref).bank = bank ↔
      (l.start bank).toNat ≤ ref.number.toNat ∧
        ref.number.toNat < (l.start bank).toNat + (l.count bank).toNat := by
  rw [start_add_count]
  constructor
  · rintro rfl
    obtain ⟨hplace, hstop⟩ := l.holds_classify ref
    exact ⟨by omega, hstop⟩
  · rintro ⟨hstart, hstop⟩
    have hindex : (ref.number - l.start bank).toNat = ref.number.toNat - (l.start bank).toNat :=
      UInt16.toNat_sub_of_le _ _ (UInt16.le_iff_toNat_le.mpr hstart)
    have hholds : l.Holds ref ⟨bank, ref.number - l.start bank⟩ :=
      ⟨by rw [hindex]; exact Nat.add_sub_cancel' hstart, hstop⟩
    rw [classify_eq_iff.mpr hholds]

/-- A bank has as many numbers as its count says. -/
theorem ncard_bank (l : Layout) (bank : Bank) :
    {ref | (l.classify ref).bank = bank}.ncard = (l.count bank).toNat := by
  have hrow := l.stop_le bank
  have hsegment := l.start_add_count bank
  have hbij : Set.BijOn (fun ref : RegisterRef => ref.number.toNat)
      {ref | (l.classify ref).bank = bank}
      (Finset.Ico (l.start bank).toNat ((l.start bank).toNat + (l.count bank).toNat)) := by
    refine ⟨?_, ?_, ?_⟩
    · intro ref href
      rw [Finset.mem_coe, Finset.mem_Ico]
      exact bank_classify_eq_iff.mp href
    · intro ref _ ref' _ hnumber
      exact RegisterRef.ext_toNat hnumber
    · intro n hn
      have hplace := Finset.mem_Ico.mp (Finset.mem_coe.mp hn)
      have hword : n < 65536 := by omega
      have hnumber : (UInt16.ofNat n).toNat = n := UInt16.toNat_ofNat_of_lt' hword
      refine ⟨⟨UInt16.ofNat n⟩, bank_classify_eq_iff.mpr ?_, hnumber⟩
      rwa [hnumber]
  rw [hbij.ncard_eq, Set.ncard_coe_finset, Nat.card_Ico, Nat.add_sub_cancel_left]

/-- The banks make up the whole row. -/
theorem sum_count (l : Layout) :
    (l.count .integer).toNat + (l.count .float).toNat + (l.count .misc).toNat = 65536 := by
  have hcuts := l.toNat_floatStart_le
  have hrow := l.miscStart.toNat_lt
  have hzero : (0 : UInt16).toNat = 0 := rfl
  simp only [toNat_count, stop, start, hzero]
  omega

/-! ### The order of the numbers -/

/-- A bank stops at or before the start of every later one. -/
theorem stop_le_start_of_rank_lt {c : Bank} (h : bank.rank < c.rank) :
    l.stop bank ≤ (l.start c).toNat := by
  have hcuts := l.toNat_floatStart_le
  cases bank <;> cases c
  case integer.float => exact Nat.le_refl _
  case integer.misc => exact hcuts
  case float.misc => exact Nat.le_refl _
  all_goals exact absurd h (by decide)

/-- Numbers are ordered as the registers are that they stand for. -/
theorem classify_lt_classify_iff : l.classify a < l.classify b ↔ a < b := by
  obtain ⟨hplace, hstop⟩ := l.holds_classify a
  obtain ⟨hplace', hstop'⟩ := l.holds_classify b
  rw [Register.lt_def, RegisterRef.lt_iff_toNat_lt]
  constructor
  · rintro (hrank | ⟨hbank, hindex⟩)
    · have hbefore := stop_le_start_of_rank_lt (l := l) hrank
      omega
    · have hindex := UInt16.lt_iff_toNat_lt.mp hindex
      rw [hbank] at hplace
      omega
  · intro hlt
    -- The lower number cannot be in the later bank, which starts behind all of the other.
    rcases Nat.lt_trichotomy (l.classify a).bank.rank (l.classify b).bank.rank with h | h | h
    · exact .inl h
    · have hbank := Bank.rank_injective h
      rw [hbank] at hplace
      exact .inr ⟨hbank, UInt16.lt_iff_toNat_lt.mpr (by omega)⟩
    · have hbefore := stop_le_start_of_rank_lt (l := l) h
      omega

theorem classify_le_classify_iff : l.classify a ≤ l.classify b ↔ a ≤ b := by
  rw [Register.le_def, classify_lt_classify_iff, RegisterRef.lt_iff_toNat_lt,
    RegisterRef.le_iff_toNat_le, Nat.le_iff_lt_or_eq]
  refine or_congr_right ⟨?_, ?_⟩
  · intro h
    rw [classify_injective h]
  · intro h
    rw [RegisterRef.ext_toNat h]

/-- Under every layout the numbers of a bank are a segment of the row, as long as the count of the
bank, in which the indices count up from zero. The segments make up the whole row, and numbers are
ordered as the registers are that they stand for, first by bank and then by index. So a list of
references sorted by the registers is the list sorted by the numbers, and there is no other way to
sort it. -/
theorem classify_preserves_order (l : Layout) :
    (∀ bank : Bank,
      (∀ ref : RegisterRef, (l.classify ref).bank = bank ↔
        (l.start bank).toNat ≤ ref.number.toNat ∧
          ref.number.toNat < (l.start bank).toNat + (l.count bank).toNat) ∧
      {ref | (l.classify ref).bank = bank}.ncard = (l.count bank).toNat ∧
      ∀ (ref : RegisterRef) (index : UInt16), l.classify ref = ⟨bank, index⟩ ↔
        ref.number.toNat = (l.start bank).toNat + index.toNat ∧
          index.toNat < (l.count bank).toNat) ∧
    (l.count .integer).toNat + (l.count .float).toNat + (l.count .misc).toNat = 65536 ∧
    (∀ a b : RegisterRef, a < b ↔ l.classify a < l.classify b) ∧
    ∀ refs : List RegisterRef,
      RegisterRef.sort refs = refs.mergeSort (fun a b => l.classify a ≤ l.classify b) ∧
      ∀ out : List RegisterRef, out = RegisterRef.sort refs ↔
        out.Perm refs ∧ out.Pairwise (fun a b => l.classify a ≤ l.classify b) := by
  refine ⟨fun bank => ⟨fun ref => bank_classify_eq_iff, l.ncard_bank bank,
    fun ref index => classify_eq_mk_iff⟩, l.sum_count, fun a b => classify_lt_classify_iff.symm,
    fun refs => ⟨?_, fun out => ?_⟩⟩
  · simp only [classify_le_classify_iff]
    rfl
  · simp only [classify_le_classify_iff]
    exact RegisterRef.eq_sort_iff

/-- When a bank is empty, the next one starts in its place. -/
example :
    let l : Layout := ⟨1, 1, by decide⟩
    l.classify ⟨0⟩ < l.classify ⟨1⟩ ∧ (l.classify ⟨1⟩).bank = .misc ∧ l.count .float = 0 := by
  decide

/-! ### Layouts that do the same -/

variable {m : Layout}

theorem ext_toNat (hfloat : l.floatStart.toNat = m.floatStart.toNat)
    (hmisc : l.miscStart.toNat = m.miscStart.toNat) : l = m := by
  cases l
  cases m
  rw [mk.injEq]
  exact ⟨UInt16.toNat_inj.mp hfloat, UInt16.toNat_inj.mp hmisc⟩

/-- Layouts with banks of the same lengths are equal. -/
theorem ext_count (h : ∀ bank, l.count bank = m.count bank) : l = m := by
  have hstop (bank : Bank) (hstart : (l.start bank).toNat = (m.start bank).toNat) :
      l.stop bank = m.stop bank := by
    rw [← start_add_count, ← start_add_count, hstart, h bank]
  have hfloat : l.floatStart.toNat = m.floatStart.toNat := hstop .integer rfl
  have hmisc : l.miscStart.toNat = m.miscStart.toNat := hstop .float hfloat
  exact ext_toNat hfloat hmisc

/-- The count of a bank can be found by counting the numbers that stand for its registers. -/
theorem count_eq_of_classify_eq (h : ∀ ref, l.classify ref = m.classify ref) (bank : Bank) :
    l.count bank = m.count bank := by
  apply UInt32.toNat_inj.mp
  calc
    (l.count bank).toNat = {ref | (l.classify ref).bank = bank}.ncard := (l.ncard_bank bank).symm
    _ = {ref | (m.classify ref).bank = bank}.ncard := by simp only [h]
    _ = (m.count bank).toNat := m.ncard_bank bank

/-- A number stands for the register that is given the number. -/
theorem classify_eq_of_reference_eq
    (h : ∀ bank index, l.reference bank index = m.reference bank index) (ref : RegisterRef) :
    l.classify ref = m.classify ref := by
  have hl : l.reference (l.classify ref).bank (l.classify ref).index = .ok ref :=
    reference_eq_ok_iff.mpr (l.holds_classify ref)
  rw [h] at hl
  exact (classify_of_reference hl).symm

/-- Two layouts are equal when every number stands for the same register under both, when their
banks have the same counts, or when every register is given the same number or is refused with the
same count. -/
theorem equality_is_observational (l m : Layout) :
    List.TFAE [
      l = m,
      ∀ ref : RegisterRef, l.classify ref = m.classify ref,
      ∀ bank : Bank, l.count bank = m.count bank,
      ∀ (bank : Bank) (index : UInt16), l.reference bank index = m.reference bank index] := by
  tfae_have 1 → 4 := by
    rintro rfl bank index
    rfl
  tfae_have 4 → 2 := classify_eq_of_reference_eq
  tfae_have 2 → 3 := count_eq_of_classify_eq
  tfae_have 3 → 1 := ext_count
  tfae_finish

/-- Without integer registers the first cut shows only between the other two banks. -/
example :
    let l : Layout := ⟨0, 1, by decide⟩
    let m : Layout := ⟨0, 0, by decide⟩
    l.count .integer = m.count .integer ∧ l.classify ⟨0⟩ ≠ m.classify ⟨0⟩ := by decide

end Layout

end PowerDisasm
