import Swordfish.Storage.Commands

/-!
# The words of a command

What `Command` (`command.cpp:16-54`) makes of a line of words: spaces between two words are one,
but spaces at the start of the line give it an empty name, and spaces at its end an empty argument,
which `get_val` looks up like any other.
-/

namespace Swordfish.Command
open Delimited

/-- All pieces but the first are arguments. -/
theorem arguments_eq_tail (c : Command) : c.arguments = c.args_.tail := by
  unfold arguments argc
  rcases c with ⟨_ | ⟨name, _ | ⟨arg, args⟩⟩⟩ <;> rfl

theorem map_arg_ofArguments (clock : Nat → TimeType × TimeType) (args : List Str) :
    (Storage.Lookup.ofArguments clock args).map Storage.Lookup.arg = args := by
  rw [Storage.Lookup.ofArguments, List.map_map]
  exact List.zipIdx_map_fst 0 args

/-- The words of a line, exactly: the name of its command is the first word, the arguments are the
others and `get_val` looks up no empty argument, if and only if there is no space in front of the
first word and none behind the last. -/
theorem ofLine_layout_iff (clock : Nat → TimeType × TimeType) (lead : Nat)
    (first : Word spacebar) (rest : List (Nat × Word spacebar)) (trail : Nat) :
    ((ofLine (layout lead first rest trail)).name = first.chars ∧
      (ofLine (layout lead first rest trail)).arguments = rest.map (·.2.chars) ∧
      ∀ x ∈ Storage.Lookup.ofArguments clock (ofLine (layout lead first rest trail)).arguments,
        x.arg ≠ []) ↔ lead = 0 ∧ trail = 0 := by
  have hargs : (ofLine (layout lead first rest trail)).args_ =
      phantom lead ++ first.chars :: (rest.map (·.2.chars) ++ phantom trail) :=
    words_layout lead first rest trail
  rw [arguments_eq_tail, name, hargs]
  constructor
  · rintro ⟨hname, harguments, -⟩
    cases lead with
    | succ lead => exact absurd hname.symm first.nonempty
    | zero =>
      have hphantom : rest.map (·.2.chars) ++ phantom trail = rest.map (·.2.chars) := harguments
      exact ⟨rfl, phantom_eq_nil_iff.mp (List.append_right_eq_self.mp hphantom)⟩
  · rintro ⟨rfl, rfl⟩
    have hrest : (phantom 0 ++ first.chars ::
        (rest.map (fun p : Nat × Word spacebar => p.2.chars) ++ phantom 0)).tail =
          rest.map (fun p => p.2.chars) := List.append_nil _
    refine ⟨rfl, hrest, fun x hx => ?_⟩
    have hmem := List.mem_map_of_mem (f := Storage.Lookup.arg) hx
    rw [map_arg_ofArguments, hrest] at hmem
    obtain ⟨p, -, hp⟩ := List.mem_map.mp hmem
    rw [← hp]
    exact p.2.nonempty

/-- The first word of the line `"get k "`. -/
def wordGet : Word spacebar := ⟨text "get", by decide, by decide⟩

/-- Its second word. -/
def wordK : Word spacebar := ⟨text "k", by decide, by decide⟩

/-- `"get k "`, with a space behind the last word, has an empty argument; it is looked up, and
queued. -/
theorem ofLine_trailing_space :
    layout 0 wordGet [(0, wordK)] 1 = text "get k " ∧
      (ofLine (layout 0 wordGet [(0, wordK)] 1)).arguments ≠ [wordK.chars] ∧
      ∃ s res, (Storage.init 0 10 100 100 1)._do .plain (fun _ => (1, 1)) 1
        (ofLine (layout 0 wordGet [(0, wordK)] 1)) = .ok (s, res) ∧
          s.queue_.queue_ = [text "k", []] :=
  ⟨by decide, by decide, _, _, rfl, by decide⟩

end Swordfish.Command
