import PowerDisasm.Proofs.Layout.Banks
import PowerDisasm.Proofs.Symbol.Nearest

/-!
# Words that never wrap around

Numbers of registers, counts of registers and addresses are words, in which a sum may lose its
highest bit and a difference may come out as if one had been borrowed. Neither ever happens. A
difference is only taken from a number that is not the smaller one, and a sum only when the register
is known to lie in its bank, hence in the row. Everything is said in integers here, in which a
difference that is too low would be negative.

## Main results

* `words_calculate_exactly`: all the calculations, with what keeps them exact
-/

namespace PowerDisasm

namespace Layout

/-- The index of a number is the distance from the start of its bank. -/
theorem int_index_classify (l : Layout) (ref : RegisterRef) :
    ((l.classify ref).index.toNat : Int) =
      ref.number.toNat - (l.start (l.classify ref).bank).toNat := by
  obtain ⟨hplace, -⟩ := l.holds_classify ref
  omega

/-- The count of a bank is the distance between its ends. -/
theorem int_count (l : Layout) (bank : Bank) :
    ((l.count bank).toNat : Int) = l.stop bank - (l.start bank).toNat := by
  have hsegment := l.toNat_start_le_stop bank
  rw [toNat_count]
  omega

/-- The number of a register is the sum of the start of its bank and its index. -/
theorem int_number_of_reference {l : Layout} {bank : Bank} {index : UInt16} {ref : RegisterRef}
    (h : l.reference bank index = .ok ref) :
    (ref.number.toNat : Int) = (l.start bank).toNat + index.toNat := by
  have hplace : (l.start bank).toNat + index.toNat = ref.number.toNat :=
    (reference_eq_ok_iff.mp h).1
  omega

end Layout

/-- The nearest symbol starts at or below the address, so the distance is the difference. -/
theorem SymbolTable.IsNearest.int_offset {t : SymbolTable} {x start : Address} {name : String}
    (h : t.IsNearest x start name) : ((x - start).toNat : Int) = x.toNat - start.toNat := by
  have hle := UInt64.le_iff_toNat_le.mp h.start_le
  rw [UInt64.toNat_sub_of_le _ _ h.start_le]
  omega

/-- The cuts of every layout that is made are in order, those of the architecture and of the default
too; cuts out of order make none. Under every layout the index of a number is the integer that is
left when the start of the bank is taken away, the counts of the banks are the differences of the
cuts and of the end of the row, and a register that is given a number has the sum of the start and
the index; a register that is given none is past the count, and no sum is taken for it. In every
table the distance from an address to its nearest symbol is their difference. -/
theorem words_calculate_exactly :
    (∀ f m : UInt16,
      match Layout.ofStarts f m with
      | .ok l => l.floatStart.toNat ≤ l.miscStart.toNat
      | .error _ => m.toNat < f.toNat) ∧
    Layout.power.floatStart.toNat ≤ Layout.power.miscStart.toNat ∧
    (default : Layout).floatStart.toNat ≤ (default : Layout).miscStart.toNat ∧
    (∀ l : Layout,
      (∀ ref : RegisterRef,
        ((l.classify ref).index.toNat : Int) =
          ref.number.toNat - (l.start (l.classify ref).bank).toNat) ∧
      ((l.count .integer).toNat : Int) = l.floatStart.toNat ∧
      ((l.count .float).toNat : Int) = l.miscStart.toNat - l.floatStart.toNat ∧
      ((l.count .misc).toNat : Int) = 65536 - l.miscStart.toNat ∧
      ∀ (bank : Bank) (index : UInt16),
        match l.reference bank index with
        | .ok ref => (ref.number.toNat : Int) = (l.start bank).toNat + index.toNat
        | .error _ => (l.count bank).toNat ≤ index.toNat) ∧
    ∀ (t : SymbolTable) (x : Address),
      match t.nearest? x with
      | some (name, offset) =>
        ∃ start, t.IsNearest x start name ∧ (offset.toNat : Int) = x.toNat - start.toNat
      | none => ∀ s ≤ x, t.find? s = none := by
  refine ⟨fun f m => ?_, Layout.power.toNat_floatStart_le, Layout.toNat_floatStart_le default,
    fun l => ⟨l.int_index_classify, ?_, ?_, ?_, fun bank index => ?_⟩, fun t x => ?_⟩
  · cases hresult : Layout.ofStarts f m with
    | ok l => exact l.toNat_floatStart_le
    | error e => exact UInt16.lt_iff_toNat_lt.mp (Layout.ofStarts_eq_error_iff.mp hresult).1
  · simpa [Layout.stop, Layout.start] using l.int_count .integer
  · exact l.int_count .float
  · exact l.int_count .misc
  · cases hresult : l.reference bank index with
    | ok ref => exact Layout.int_number_of_reference hresult
    | error e => exact (Layout.reference_eq_error_iff.mp hresult).1
  · cases hresult : t.nearest? x with
    | none => exact SymbolTable.nearest?_eq_none_iff.mp hresult
    | some result =>
      obtain ⟨name, offset⟩ := result
      obtain ⟨start, hnearest, rfl⟩ := SymbolTable.exists_isNearest_of_nearest? hresult
      exact ⟨start, hnearest, hnearest.int_offset⟩

/-- One bank may hold the whole row, and then its count is more than an index can say. -/
example : ((⟨0, 0, by decide⟩ : Layout).count .misc).toNat = 65536 := by decide

end PowerDisasm
