import Mathlib.Data.List.Infix
import PowerDisasm.Sink.Request

/-!
# Sessions with a sink of bounded size

A sink with a capacity takes of every text the longest beginning for which there is room, and tells
whether that was the whole text. In a session one request after the other is answered, each with the
sink that the one before left. One request keeps the sink within its capacity and only adds to its
text, and then every session does.

## Main definitions

* `Sink.IsLongestFit`: a text is the longest beginning of another that fits
* `Sink.final`: the sink at the end of a session
* `Sink.IsBounded`: a sink has a capacity and is within it

## Main results

* `Sink.write_eq_fit`: what a write keeps and what it replies
* `Sink.IsBounded.serve`, `Sink.IsBounded.final`: the bound is kept by a request, and by a session
* `Sink.served_within_capacity`: what each request of a session does to a sink of bounded size
-/

namespace PowerDisasm

namespace Sink

variable {classify : Classifier} {s : Sink} {n : Nat}

/-! ### The longest beginning that fits -/

/-- The characters in front of the first that does not fit into what the ones before it leave of the
room. -/
def fit (room : Nat) : List Char → List Char
  | [] => []
  | c :: cs => if c.utf8Size ≤ room then c :: fit (room - c.utf8Size) cs else []

/-- The longest beginning of `text` that takes up at most `room` bytes is `kept`. -/
structure IsLongestFit (room : Nat) (text kept : String) : Prop where
  begins : kept.toList <+: text.toList
  fits : kept.utf8ByteSize ≤ room
  longest : ∀ other : String, other.toList <+: text.toList → other.utf8ByteSize ≤ room →
    other.toList <+: kept.toList

theorem utf8ByteSize_ofList_cons (c : Char) (cs : List Char) :
    (String.ofList (c :: cs)).utf8ByteSize = c.utf8Size + (String.ofList cs).utf8ByteSize := by
  rw [String.ofList_cons, String.utf8ByteSize_append, String.utf8ByteSize_singleton]

theorem fit_begins (room : Nat) (cs : List Char) : fit room cs <+: cs := by
  induction cs generalizing room with
  | nil => exact List.prefix_rfl
  | cons c cs ih =>
    rw [fit]
    split
    · exact (List.prefix_cons_inj c).mpr (ih _)
    · exact List.nil_prefix

theorem utf8ByteSize_fit_le (room : Nat) (cs : List Char) :
    (String.ofList (fit room cs)).utf8ByteSize ≤ room := by
  induction cs generalizing room with
  | nil => exact Nat.zero_le room
  | cons c cs ih =>
    rw [fit]
    split
    case isTrue hroom =>
      have hrest := ih (room - c.utf8Size)
      rw [utf8ByteSize_ofList_cons]
      omega
    case isFalse => exact Nat.zero_le room

/-- A beginning that fits is no longer than the one that is kept. -/
theorem begins_fit {room : Nat} {cs ds : List Char} (hbegins : ds <+: cs)
    (hfits : (String.ofList ds).utf8ByteSize ≤ room) : ds <+: fit room cs := by
  induction cs generalizing room ds with
  | nil => exact hbegins
  | cons c cs ih =>
    rcases List.prefix_cons_iff.mp hbegins with rfl | ⟨rest, rfl, hrest⟩
    · exact List.nil_prefix
    · rw [utf8ByteSize_ofList_cons] at hfits
      rw [fit, if_pos (by omega)]
      exact (List.prefix_cons_inj c).mpr (ih hrest (by omega))

theorem isLongestFit_fit (room : Nat) (text : String) :
    IsLongestFit room text (String.ofList (fit room text.toList)) where
  begins := by
    rw [String.toList_ofList]
    exact fit_begins room text.toList
  fits := utf8ByteSize_fit_le room text.toList
  longest other hbegins hfits := by
    rw [String.toList_ofList]
    exact begins_fit hbegins (by rwa [String.ofList_toList])

/-! ### What a write keeps -/

theorem writeChars_eq_fit (h : s.capacity = some n) (cs : List Char) :
    s.writeChars cs =
      (decide (fit (n - s.text.utf8ByteSize) cs = cs),
        { s with text := s.text ++ String.ofList (fit (n - s.text.utf8ByteSize) cs) }) := by
  induction cs generalizing s with
  | nil => simp [writeChars, fit]
  | cons c cs ih =>
    -- A character takes up at least one byte, so a full sink has no room for it.
    have hroom : s.HasRoom c ↔ c.utf8Size ≤ n - s.text.utf8ByteSize := by
      have hpos := c.utf8Size_pos
      simp only [HasRoom, h, Option.mem_some_iff, forall_eq']
      omega
    rw [writeChars, fit]
    by_cases hc : s.HasRoom c
    · have hrest : n - (s.push c).text.utf8ByteSize =
          n - s.text.utf8ByteSize - c.utf8Size := by
        rw [text_push, String.utf8ByteSize_push]
        omega
      rw [if_pos hc, if_pos (hroom.mp hc), ih (s := s.push c) h, hrest]
      simp [push, String.ext_iff]
    · rw [if_neg hc, if_neg (mt hroom.mpr hc)]
      simp

/-- A sink with a capacity keeps of a text what fits, and tells whether that is all of it. -/
theorem write_eq_fit (h : s.capacity = some n) (text : String) :
    ∃ kept, IsLongestFit (n - s.text.utf8ByteSize) text kept ∧
      s.write text = (decide (kept = text), { s with text := s.text ++ kept }) := by
  refine ⟨_, isLongestFit_fit _ text, ?_⟩
  rw [write, writeChars_eq_fit h]
  simp [String.ext_iff]

/-! ### The course of a session -/

/-- The sink that comes with the last answer of a session, or the first sink when nothing is
asked. -/
def final (classify : Classifier) (s : Sink) (requests : List Request) : Sink :=
  ((s.serveAll classify requests).getLast?.map fun answer => answer.value.2).getD s

theorem final_cons (r : Request) (requests : List Request) :
    s.final classify (r :: requests) = (s.serve classify r).value.2.final classify requests := by
  rw [final, serveAll, List.getLast?_cons, final]
  cases ((s.serve classify r).value.2.serveAll classify requests).getLast? <;> rfl

/-- A session goes on with the sink that its first part leaves. -/
theorem serveAll_append (requests more : List Request) :
    s.serveAll classify (requests ++ more) =
      s.serveAll classify requests ++ (s.final classify requests).serveAll classify more := by
  induction requests generalizing s with
  | nil => rfl
  | cons r requests ih =>
    rw [List.cons_append, serveAll, ih, serveAll, final_cons, List.cons_append]

/-! ### One request -/

theorem serve_text (classify : Classifier) (s : Sink) (text : String) :
    s.serve classify (.text text) = ⟨(.written (s.write text).1, (s.write text).2), []⟩ := rfl

theorem serve_print (classify : Classifier) (s : Sink) (ref : RegisterRef) :
    s.serve classify (.print ref) =
      ⟨(.written (s.write (classify.name ref).value).1, (s.write (classify.name ref).value).2),
        (classify.name ref).log⟩ := by
  rw [serve, print_eq_write_name]
  exact Logged.ext rfl (by simp)

/-- A request writes one text or leaves the sink as it is. -/
theorem serve_cases (classify : Classifier) (s : Sink) (r : Request) :
    (∃ text, (s.serve classify r).value.2 = (s.write text).2) ∨
      (s.serve classify r).value.2 = s := by
  cases r with
  | text text => exact .inl ⟨text, rfl⟩
  | print ref => exact .inl ⟨(classify.name ref).value, by rw [serve_print]⟩
  | name ref => exact .inr rfl
  | list onto refs => exact .inr rfl
  | classify ref => exact .inr rfl

/-- Whatever is asked, the text of the sink only grows. -/
theorem prefix_text_serve (classify : Classifier) (s : Sink) (r : Request) :
    s.text.toList <+: (s.serve classify r).value.2.text.toList := by
  rcases s.serve_cases classify r with ⟨text, hwrite⟩ | hsame
  · rw [hwrite]
    exact s.prefix_text_write text
  · rw [hsame]

/-! ### Staying within the capacity -/

/-- The sink has room for `n` bytes in all, and its text takes up no more. -/
structure IsBounded (n : Nat) (s : Sink) : Prop where
  capacity_eq : s.capacity = some n
  size_le : s.text.utf8ByteSize ≤ n

theorem isBounded_empty (n : Nat) : (empty (some n)).IsBounded n := ⟨rfl, Nat.zero_le n⟩

theorem IsBounded.write (h : s.IsBounded n) (text : String) : (s.write text).2.IsBounded n := by
  obtain ⟨kept, hkept, hwrite⟩ := write_eq_fit h.capacity_eq text
  rw [hwrite]
  refine ⟨h.capacity_eq, ?_⟩
  have hroom := hkept.fits
  have hsize := h.size_le
  rw [String.utf8ByteSize_append]
  omega

/-- A request keeps a sink within its capacity. -/
theorem IsBounded.serve (h : s.IsBounded n) (classify : Classifier) (r : Request) :
    (s.serve classify r).value.2.IsBounded n := by
  rcases s.serve_cases classify r with ⟨text, hwrite⟩ | hsame
  · rw [hwrite]
    exact h.write text
  · rwa [hsame]

/-- A session keeps a sink within its capacity. -/
theorem IsBounded.final (h : s.IsBounded n) (classify : Classifier) (requests : List Request) :
    (s.final classify requests).IsBounded n := by
  induction requests generalizing s with
  | nil => exact h
  | cons r requests ih =>
    rw [final_cons]
    exact ih (h.serve classify r)

/-- At every point of every session with a sink that starts empty and has room for `c` bytes, the
text takes up no more than that, and the next request only adds to it. A text that is to be written
is kept as far as it fits, and the reply tells whether that is all of it. The name of a register is
written just so, and the reports made are those of the name. All other requests leave the sink as
it is. -/
theorem served_within_capacity (classify : Classifier) (c : Nat) (earlier : List Request)
    (r : Request) (later : List Request) :
    let start := empty (some c)
    let before := start.final classify earlier
    let answer := before.serve classify r
    let after := answer.value.2
    start.serveAll classify (earlier ++ r :: later) =
        start.serveAll classify earlier ++ answer :: after.serveAll classify later ∧
      before.text.utf8ByteSize ≤ c ∧ after.text.utf8ByteSize ≤ c ∧
      before.text.toList <+: after.text.toList ∧
      match r with
      | .text text =>
        ∃ kept, IsLongestFit (c - before.text.utf8ByteSize) text kept ∧
          after.text = before.text ++ kept ∧ answer.value.1 = .written (kept = text)
      | .print ref =>
        let name := classify.name ref
        answer.log = name.log ∧
          ∃ kept, IsLongestFit (c - before.text.utf8ByteSize) name.value kept ∧
            after.text = before.text ++ kept ∧ answer.value.1 = .written (kept = name.value)
      | .name _ | .list _ _ | .classify _ => after = before := by
  intro start before answer after
  have hbefore : before.IsBounded c := (isBounded_empty c).final classify earlier
  have hafter : after.IsBounded c := hbefore.serve classify r
  refine ⟨serveAll_append earlier (r :: later), hbefore.size_le, hafter.size_le,
    prefix_text_serve classify before r, ?_⟩
  cases r with
  | text text =>
    obtain ⟨kept, hkept, hwrite⟩ := write_eq_fit hbefore.capacity_eq text
    have hanswer := before.serve_text classify text
    rw [hwrite] at hanswer
    exact ⟨kept, hkept, congrArg (fun x => x.value.2.text) hanswer,
      congrArg (fun x => x.value.1) hanswer⟩
  | print ref =>
    obtain ⟨kept, hkept, hwrite⟩ := write_eq_fit hbefore.capacity_eq (classify.name ref).value
    have hanswer := before.serve_print classify ref
    rw [hwrite] at hanswer
    exact ⟨congrArg Logged.log hanswer, kept, hkept,
      congrArg (fun x => x.value.2.text) hanswer, congrArg (fun x => x.value.1) hanswer⟩
  | name ref => rfl
  | list onto refs => rfl
  | classify ref => rfl

/-- Where a character of three bytes does not fit a shorter one may, and a name is reported although
there is no room for it. -/
example :
    ((empty (some 4)).serveAll (Classifier.uniform .misc)
      [.print ⟨2⟩, .text "€", .text "é", .print ⟨9⟩]).map (fun a => (a.value, a.log)) =
      [((.written true, ⟨some 4, "lr"⟩), []), ((.written false, ⟨some 4, "lr"⟩), []),
        ((.written true, ⟨some 4, "lré"⟩), []),
        ((.written false, ⟨some 4, "lré"⟩), [.unnamed 9])] :=
  by decide

end Sink

end PowerDisasm
