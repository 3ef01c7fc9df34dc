import Swordfish.Basic
import Swordfish.Lib.Delimited

/-!
# Commands

`Command` (`daemon-src/include/command.hpp`, `daemon-src/src/command.cpp`): the words of a line,
of which the first is the name and the others are the arguments.
-/

namespace Swordfish

/-- The separator of the words of a line. -/
def spacebar : UInt8 := 32

/-- The data member of `Command`. -/
structure Command where
  args_ : List Str
  deriving DecidableEq, Repr

namespace Command

/-- The constructor, with `parse_command` (`command.cpp:16-24`): `boost::split` at spaces with
`token_compress_on`. -/
def ofLine (cmdLine : Str) : Command := { args_ := Delimited.words spacebar cmdLine }

/-- `Command::name`. -/
def name (c : Command) : Str := c.args_.head?.getD (text "unknown")

/-- `Command::argc`. -/
def argc (c : Command) : Nat := c.args_.length - 1

/-- `Command::at`, which throws when `x` is no argument. -/
def at_ (c : Command) (x : Nat) (h : x < c.argc) : Str :=
  c.args_.get ⟨x + 1, by rw [argc] at h; omega⟩

/-- The arguments, from `arg_begin` to `arg_end`. -/
def arguments (c : Command) : List Str := if c.argc ≠ 0 then c.args_.tail else []

/-- No argument of a line contains a space. -/
theorem not_mem_arguments {line arg : Str} (h : arg ∈ (ofLine line).arguments) :
    spacebar ∉ arg := by
  unfold arguments at h
  split at h
  · exact Delimited.not_mem_words (List.mem_of_mem_tail h)
  · cases h

end Command

end Swordfish
