import PowerDisasm.Proofs.Instruction.Line
import PowerDisasm.Proofs.Layout.Banks
import PowerDisasm.Proofs.Mnemonic

/-!
# What a line tells about its instruction

When the mnemonic holds no space, it ends at the first one in the line, and behind the padding
stand the items, which tell the form, the number, and the registers as far as names do. With the
reports the line tells everything, whatever the mnemonic is: the first record ends in the address,
which holds no space, so it can be cut off even when the mnemonic looks like such an ending itself,
and the other records tell the registers without names.

## Main results

* `Event.record_injective`: a record tells its event
* `Instruction.value_disassemble_eq_iff`: which instructions have the same line
* `Instruction.disassemble_lossless`: the line and its records tell the instruction and its place
-/

namespace PowerDisasm

namespace Event

/-- A text behind ` at ` has a space right before it. -/
theorem toList_append_at (s t : String) :
    (s ++ " at " ++ t).toList = (s ++ " at").toList ++ ' ' :: t.toList := by
  have hat : " at ".toList = " at".toList ++ [' '] := by decide
  simp only [String.toList_append, hat, List.append_assoc, List.singleton_append]

theorem toList_message_disassembling (mnemonic : String) (pc : UInt64) :
    (message (.disassembling mnemonic pc)).toList =
      ("disassembling " ++ mnemonic ++ " at").toList ++
        ' ' :: (Numeral.hexadecimal pc.toNat).toList :=
  toList_append_at _ _

/-- What is read of an event tells the event. -/
theorem record_injective {e e' : Event} (h : e.record = e'.record) : e = e' := by
  have hlevel : e.level = e'.level := congrArg Record.level h
  have hmessage : e.message = e'.message := congrArg Record.message h
  cases e with
  | disassembling mnemonic pc =>
    cases e' with
    | disassembling mnemonic' pc' =>
      have hlist := congrArg String.toList hmessage
      rw [toList_message_disassembling, toList_message_disassembling] at hlist
      -- The address is what stands behind the last space, since the mnemonic may hold others.
      have hpc := (Numeral.isWord_hexadecimal pc.toNat).notMem (c := ' ') (by decide)
      have hpc' := (Numeral.isWord_hexadecimal pc'.toNat).notMem (c := ' ') (by decide)
      obtain ⟨hfront, haddress⟩ := Delimited.split_last hpc hpc' hlist
      have hnat := Numeral.hexadecimal_injective (String.toList_injective haddress)
      have hfront := String.toList_injective hfront
      rw [String.append_left_inj, String.append_right_inj] at hfront
      rw [hfront, UInt64.toNat_inj.mp hnat]
    | unnamed index' => cases hlevel
  | unnamed index =>
    cases e' with
    | disassembling mnemonic' pc' => cases hlevel
    | unnamed index' =>
      have hnumber := (String.append_right_inj _).mp hmessage
      rw [UInt16.toNat_inj.mp (Numeral.decimal_injective hnumber)]

end Event

theorem Logged.log_eq_of_records_eq {α β : Type} {x : Logged α} {y : Logged β}
    (h : x.records = y.records) : x.log = y.log :=
  List.map_injective_iff.mpr (fun _ _ => Event.record_injective) h

namespace Instruction

/-- Equal lists of items are equal texts behind the mnemonic, and the other way around. -/
theorem separated_items_eq_iff {a b : Instruction} (ha : a.form ≠ .bare) (hb : b.form ≠ .bare) :
    Classifier.separator.intercalate a.items = Classifier.separator.intercalate b.items ↔
      a.form = b.form ∧ List.Forall₂ Register.Alike a.registers b.registers := by
  rw [Delimited.separated_inj (fun _ => isItem_of_mem_items) fun _ => isItem_of_mem_items,
    items_eq_items_iff ha hb]

/-- Two instructions that show their operands, and whose mnemonics hold no space, have the same line
just when they have the same form with the same number, the same mnemonic, and operands that are
alike one by one under their layouts. Where they stand and which symbols are at hand is of no
importance. -/
theorem value_disassemble_eq_iff (a b : Instruction) (ha : a.form ≠ .bare) (hb : b.form ≠ .bare)
    (hma : ' ' ∉ a.mnemonic.toList) (hmb : ' ' ∉ b.mnemonic.toList) (p q : Address)
    (s t : Option SymbolTable) :
    (a.disassemble p s).value = (b.disassemble q t).value ↔
      a.form = b.form ∧ a.mnemonic = b.mnemonic ∧ a.operandCount = b.operandCount ∧
        List.Forall₂ Register.Alike a.registers b.registers := by
  rw [value_disassemble, value_disassemble]
  constructor
  · intro h
    obtain ⟨hmnemonic, hitems⟩ := Mnemonic.eq_of_pad_append_eq hma hmb h
    obtain ⟨hform, halike⟩ := (separated_items_eq_iff ha hb).mp hitems
    have hcount : a.operandCount = b.operandCount := by
      have hlength := halike.length_eq
      rwa [registers, registers, List.length_map, List.length_map] at hlength
    exact ⟨hform, hmnemonic, hcount, halike⟩
  · rintro ⟨hform, hmnemonic, -, halike⟩
    rw [hmnemonic, (separated_items_eq_iff ha hb).mpr ⟨hform, halike⟩]

/-- Registers without names print alike under any layout. -/
theorem value_disassemble_eq_of_unnamed :
    let a : Instruction := .register ⟨"mfspr", [⟨3⟩, ⟨12⟩], ⟨8, 8, by decide⟩⟩
    let b : Instruction := .register ⟨"mfspr", [⟨3⟩, ⟨200⟩], .power⟩
    (a.form ≠ .bare ∧ b.form ≠ .bare) ∧
      (' ' ∉ a.mnemonic.toList ∧ ' ' ∉ b.mnemonic.toList) ∧
      (a.disassemble 0 none).value = (b.disassemble 64 (some .empty)).value := by
  refine ⟨by decide, by decide, ?_⟩
  refine (value_disassemble_eq_iff _ _ (by decide) (by decide) (by decide) (by decide) _ _ _ _).mpr
    ⟨rfl, rfl, rfl, ?_⟩
  exact .cons (by decide) (.cons (by decide) .nil)

/-- Under one layout the line and the records of two instructions that show their operands are the
same just when the instructions are the same and stand at the same place. -/
theorem disassemble_lossless (a b : Instruction) (ha : a.form ≠ .bare) (hb : b.form ≠ .bare)
    (hlayout : a.operation.layout = b.operation.layout) (p q : Address)
    (s t : Option SymbolTable) :
    ((a.disassemble p s).value = (b.disassemble q t).value ∧
      (a.disassemble p s).records = (b.disassemble q t).records) ↔ p = q ∧ a = b := by
  constructor
  · rintro ⟨hvalue, hrecords⟩
    have hlog := Logged.log_eq_of_records_eq hrecords
    rw [log_disassemble ha, log_disassemble hb] at hlog
    obtain ⟨hfirst, hreports⟩ := List.cons.inj hlog
    obtain ⟨hmnemonic, hplace⟩ := Event.disassembling.inj hfirst
    -- The mnemonics are the same now, so the padding can be taken off both lines.
    rw [value_disassemble, value_disassemble, hmnemonic, String.append_right_inj] at hvalue
    obtain ⟨hform, halike⟩ := (separated_items_eq_iff ha hb).mp hvalue
    have hregisters := Register.eq_of_forall₂_alike halike hreports
    have hoperands : a.operands = b.operands := by
      rw [registers, registers, hlayout] at hregisters
      exact List.map_injective_iff.mpr (fun _ _ => Layout.classify_injective) hregisters
    exact ⟨hplace, eq_of_parts hform hmnemonic hoperands hlayout⟩
  · rintro ⟨rfl, rfl⟩
    exact ⟨by rw [value_disassemble, value_disassemble],
      by rw [Logged.records, Logged.records, log_disassemble ha, log_disassemble ha]⟩

/-- The line and the records do not depend on the symbols, also for a mnemonic that ends like the
first record does and for registers without names. -/
theorem disassemble_lossless_of_address_in_mnemonic :
    let a : Instruction := .immediate "b at 0x1" [⟨70⟩, ⟨71⟩] (.unsigned 0)
    (a.form ≠ .bare ∧ a.operation.layout = a.operation.layout) ∧
      (a.disassemble 1 none).value = (a.disassemble 1 (some .empty)).value ∧
      (a.disassemble 1 none).records = (a.disassemble 1 (some .empty)).records :=
  ⟨⟨by decide, rfl⟩, (disassemble_lossless _ _ (by decide) (by decide) rfl _ _ _ _).mpr ⟨rfl, rfl⟩⟩

/-- Two registers without names have one line and different records, and a mnemonic that ends like
the first record does not pass for an address. -/
example :
    let a : Instruction := .register { mnemonic := "b", operands := [⟨70⟩] }
    let b : Instruction := .register { mnemonic := "b", operands := [⟨71⟩] }
    let c : Instruction := .register { mnemonic := "b at 0x1", operands := [⟨70⟩] }
    (a.disassemble 1 none).value = (b.disassemble 1 none).value ∧
      (a.disassemble 1 none).records ≠ (b.disassemble 1 none).records ∧
      (a.disassemble 1 none).records ≠ (c.disassemble 1 none).records := by decide

end Instruction

end PowerDisasm
