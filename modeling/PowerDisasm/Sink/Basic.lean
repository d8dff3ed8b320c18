/-!
# Sinks of bounded size

A sink collects text up to a capacity in bytes, or without limit. A text is written character by
character, and writing stops at the first character that does not fit. What came before it is kept,
and the sink stays open: a later and shorter character may still find room. Texts written in a row
are written like the one text that they make up.

## Main definitions

* `Sink`: a capacity and the text collected so far
* `Sink.write`, `Sink.writeAll`: write a text, or several in a row, as far as they fit

## Main results

* `Sink.prefix_text_write`: writing only ever adds to the text
* `Sink.write_of_capacity_eq_none`: without a limit all of a text is written
* `Sink.writeAll_eq_write_join`: texts in a row are written like their join
-/

namespace PowerDisasm

/-- A place to write text to, with room for `capacity` bytes in all, or without limit. -/
structure Sink where
  capacity : Option Nat
  text : String
  deriving DecidableEq

namespace Sink

/-- An empty sink. -/
def empty (capacity : Option Nat) : Sink := ⟨capacity, ""⟩

/-- There is still room for the character. -/
def HasRoom (s : Sink) (c : Char) : Prop :=
  ∀ n ∈ s.capacity, s.text.utf8ByteSize + c.utf8Size ≤ n

instance (s : Sink) (c : Char) : Decidable (s.HasRoom c) :=
  match h : s.capacity with
  | none => isTrue (by simp [HasRoom, h])
  | some n => decidable_of_iff (s.text.utf8ByteSize + c.utf8Size ≤ n) (by simp [HasRoom, h])

/-- Add one character to the text. -/
def push (s : Sink) (c : Char) : Sink := { s with text := s.text.push c }

@[simp] theorem text_push (s : Sink) (c : Char) : (s.push c).text = s.text.push c := rfl

/-- Write characters until one does not fit. Tells whether all were written. -/
def writeChars (s : Sink) : List Char → Bool × Sink
  | [] => (true, s)
  | c :: cs => if s.HasRoom c then (s.push c).writeChars cs else (false, s)

/-- Write a text until a character does not fit. Tells whether all of it was written. -/
def write (s : Sink) (text : String) : Bool × Sink := s.writeChars text.toList

/-- Write texts one after the other until one does not fit. Tells whether all of them were
written. -/
def writeAll (s : Sink) : List String → Bool × Sink
  | [] => (true, s)
  | text :: texts =>
    let (complete, s) := s.write text
    if complete then s.writeAll texts else (false, s)

theorem prefix_text_writeChars (s : Sink) (cs : List Char) :
    s.text.toList <+: (s.writeChars cs).2.text.toList := by
  induction cs generalizing s with
  | nil => exact List.prefix_rfl
  | cons c cs ih =>
    rw [writeChars]
    split
    · have step : s.text.toList <+: (s.push c).text.toList := by
        rw [text_push, String.toList_push]
        exact List.prefix_append _ _
      exact step.trans (ih (s.push c))
    · exact List.prefix_rfl

/-- Writing only ever adds to the text. -/
theorem prefix_text_write (s : Sink) (text : String) :
    s.text.toList <+: (s.write text).2.text.toList :=
  prefix_text_writeChars s _

/-! ### Texts in a row -/

theorem writeChars_append (s : Sink) (cs ds : List Char) :
    s.writeChars (cs ++ ds) =
      if (s.writeChars cs).1 then (s.writeChars cs).2.writeChars ds
      else (false, (s.writeChars cs).2) := by
  induction cs generalizing s with
  | nil => rfl
  | cons c cs ih =>
    rw [List.cons_append, writeChars, writeChars]
    split
    case isTrue => exact ih (s.push c)
    case isFalse => rfl

/-- Writing two texts, the second only when the first fits, is writing the one they make up. -/
theorem write_append (s : Sink) (text more : String) :
    s.write (text ++ more) =
      if (s.write text).1 then (s.write text).2.write more else (false, (s.write text).2) := by
  rw [write, String.toList_append]
  exact s.writeChars_append _ _

/-- However a text is cut into pieces, they are written like the text. -/
theorem writeAll_eq_write_join (s : Sink) (texts : List String) :
    s.writeAll texts = s.write (String.join texts) := by
  induction texts generalizing s with
  | nil => rfl
  | cons text texts ih =>
    rw [String.join_cons, write_append, writeAll, ← ih]

/-! ### Sinks without a limit -/

theorem hasRoom_of_capacity_eq_none {s : Sink} (h : s.capacity = none) (c : Char) :
    s.HasRoom c := by
  simp [HasRoom, h]

/-- Without a limit all of a text is written. -/
theorem write_of_capacity_eq_none {s : Sink} (h : s.capacity = none) (text : String) :
    s.write text = (true, { s with text := s.text ++ text }) := by
  suffices key : ∀ (cs : List Char) (t : Sink), t.capacity = none →
      t.writeChars cs = (true, { t with text := t.text ++ String.ofList cs }) by
    rw [write, key _ _ h, String.ofList_toList]
  intro cs
  induction cs with
  | nil =>
    intro t _
    rw [writeChars, String.ofList_nil, String.append_empty]
  | cons c cs ih =>
    intro t ht
    rw [writeChars, if_pos (hasRoom_of_capacity_eq_none ht c), ih (t.push c) ht]
    simp [push, String.ext_iff]

theorem write_empty_none (text : String) : (empty none).write text = (true, ⟨none, text⟩) := by
  rw [write_of_capacity_eq_none rfl]
  simp [empty]

end Sink

end PowerDisasm
