import Swordfish.Basic
import Swordfish.Lib.Delimited

/-!
# The command tokenizer

`CommandTokenizer` (`daemon-src/include/command_tokenizer.hpp`,
`daemon-src/src/command_tokenizer.cpp`): the lines of a byte stream that arrives in parts. Its
iterator walks over the lines that have arrived, and keeps what is behind the last of them when it
gets to the end.
-/

namespace Swordfish
open Delimited

/-- The end of a line. -/
def crlf : Str := text "\r\n"

/-- The data member of `CommandTokenizer`. -/
structure CommandTokenizer where
  remainder_ : Str
  deriving DecidableEq, Repr

/-- `CommandTokenizer::iterator`. Its pointer `remainder_` is null, and its `offset_` is `npos`, at
the end and nowhere else. -/
inductive CommandTokenizer.Iterator where
  | here (token_ : Str) (offset_ : Nat)
  | end_
  deriving DecidableEq, Repr

namespace CommandTokenizer

/-- The constructor `CommandTokenizer()`. -/
def init : CommandTokenizer := { remainder_ := [] }

/-- `CommandTokenizer::append`. -/
def append (t : CommandTokenizer) (buff : Str) : CommandTokenizer :=
  { remainder_ := t.remainder_ ++ buff }

namespace Iterator

/-- The constructor `iterator(remainder)` (`command_tokenizer.cpp:14-22`). -/
def ofRemainder (remainder : Str) : Iterator :=
  match find crlf remainder 0 with
  | some offset => .here (remainder.take offset) (offset + 2)
  | none => .end_

/-- `iterator::operator ++` (`command_tokenizer.cpp:44-61`); the first result is the string
`remainder_` points to, which is cut when the end is reached. -/
def next (remainder : Str) : Iterator → Str × Iterator
  | .here _ offset =>
      match find crlf remainder offset with
      | some x => (remainder, .here ((remainder.drop offset).take (x - offset)) (x + 2))
      | none => (remainder.drop offset, .end_)
  | .end_ => (remainder, .end_)

end Iterator

/-- `CommandTokenizer::begin`. -/
def begin_ (t : CommandTokenizer) : Iterator := .ofRemainder t.remainder_

/-! ## What is ahead of an iterator -/

/-- The offset lies within the string. -/
def Iterator.Within (remainder : Str) : Iterator → Prop
  | .here _ offset => offset ≤ remainder.length
  | .end_ => True

/-- The lines from the iterator on, and what will be left behind them. -/
def Iterator.ahead (remainder : Str) : Iterator → List Str × Str
  | .here token offset =>
      (token :: (cut crlf (remainder.drop offset)).1, (cut crlf (remainder.drop offset)).2)
  | .end_ => ([], remainder)

theorem crlf_ne_nil : crlf ≠ [] := by decide

theorem crlf_length : crlf.length = 2 := rfl

/-- At the start of an iteration all lines are ahead. -/
theorem Iterator.ofRemainder_spec (remainder : Str) :
    (Iterator.ofRemainder remainder).Within remainder ∧
      (Iterator.ofRemainder remainder).ahead remainder = cut crlf remainder := by
  unfold Iterator.ofRemainder
  cases h : find crlf remainder 0 with
  | none => exact ⟨trivial, (cut_of_find_none h).symm⟩
  | some offset => exact ⟨find_le h, (cut_of_find_some crlf_ne_nil h).symm⟩

/-- `++` goes to the next line, or cuts the string behind the last one. -/
theorem Iterator.next_spec {remainder token : Str} {offset : Nat}
    (hwithin : offset ≤ remainder.length) {r : Str} {x : Iterator}
    (h : Iterator.next remainder (.here token offset) = (r, x)) :
    x.Within r ∧ x.ahead r = cut crlf (remainder.drop offset) := by
  simp only [Iterator.next, find_drop hwithin] at h
  cases hfind : find crlf (remainder.drop offset) 0 with
  | none =>
    simp only [hfind, Option.map_none] at h
    cases h
    exact ⟨trivial, (cut_of_find_none hfind).symm⟩
  | some i =>
    simp only [hfind, Option.map_some] at h
    cases h
    have hle := find_le hfind
    rw [List.length_drop, crlf_length] at hle
    have hdrop : remainder.drop (i + offset + 2) =
        (remainder.drop offset).drop (i + crlf.length) := by
      rw [List.drop_drop, crlf_length]
      congr 1
      omega
    refine ⟨by simp only [Iterator.Within]; omega, ?_⟩
    rw [cut_of_find_some crlf_ne_nil hfind, Iterator.ahead, hdrop, Nat.add_sub_cancel]

/-- The lines of a stream do not depend on where it is cut into parts. -/
theorem cut_remainder_append (s r : Str) :
    cut crlf (s ++ r) = ((cut crlf s).1 ++ (cut crlf ((cut crlf s).2 ++ r)).1,
      (cut crlf ((cut crlf s).2 ++ r)).2) :=
  cut_append crlf_ne_nil s r

end CommandTokenizer

end Swordfish
