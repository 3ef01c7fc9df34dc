import Swordfish.Connection.Tokenizer
import Swordfish.Lib.While

/-!
# The lines of a stream

A tokenizer that is fed a stream in chunks, with one iteration from `begin` to `end` after each of
them (`tests/test_command_tokenizer.cpp:105-157`), against the stream cut at once: the tokens are
the pieces between the ends of lines, and `remainder` is what is behind the last of them.
-/

namespace Swordfish
open Delimited

namespace CommandTokenizer

/-- A loop over the tokens: the string of the tokenizer, the iterator, and the tokens so far. -/
structure Scan where
  remainder_ : Str
  it : Iterator
  tokens : List Str
  deriving DecidableEq, Repr

namespace Scan

/-- `it = ct.begin()`. -/
def start (t : CommandTokenizer) : Scan :=
  { remainder_ := t.remainder_, it := t.begin_, tokens := [] }

/-- `it != ct.end()`. -/
def More (s : Scan) : Prop := s.it ≠ .end_

instance : DecidablePred More := fun s => inferInstanceAs (Decidable (s.it ≠ .end_))

/-- One round: `*it`, and `++it`. -/
def round (s : Scan) : Scan :=
  match s.it with
  | .here token offset =>
      let (remainder, it) := (Iterator.here token offset).next s.remainder_
      { remainder_ := remainder, it := it, tokens := s.tokens ++ [token] }
  | .end_ => s

end Scan

/-- One iteration from `begin` to `end`, when it takes at most the rounds given: the tokenizer
after it, and its tokens. -/
def iterate (rounds : Nat) (t : CommandTokenizer) : Option (CommandTokenizer × List Str) :=
  match While.exec Scan.More Scan.round rounds (.start t) with
  | some s => some (⟨s.remainder_⟩, s.tokens)
  | none => none

/-- The tokenizer after these chunks, with an iteration after each, and the tokens of all
iterations. -/
def feed (rounds : Nat) (t : CommandTokenizer) :
    List Str → Option (CommandTokenizer × List Str)
  | [] => some (t, [])
  | chunk :: chunks =>
      match (t.append chunk).iterate rounds with
      | some (t, tokens) => (t.feed rounds chunks).map (fun r => (r.1, tokens ++ r.2))
      | none => none

namespace Scan

/-- The offset of the iterator lies within the string. -/
def Within (s : Scan) : Prop := s.it.Within s.remainder_

theorem start_within (t : CommandTokenizer) : (start t).Within :=
  (Iterator.ofRemainder_spec t.remainder_).1

/-- A round hands out the first token that is ahead. -/
theorem round_spec {s : Scan} (hs : s.Within) :
    s.round.Within ∧
      s.round.tokens ++ (s.round.it.ahead s.round.remainder_).1 =
        s.tokens ++ (s.it.ahead s.remainder_).1 ∧
      (s.round.it.ahead s.round.remainder_).2 = (s.it.ahead s.remainder_).2 ∧
      (s.round.it.ahead s.round.remainder_).1.length = (s.it.ahead s.remainder_).1.length - 1 := by
  obtain ⟨remainder, it, tokens⟩ := s
  cases it with
  | end_ => exact ⟨trivial, rfl, rfl, rfl⟩
  | here token offset =>
    obtain ⟨hwithin, hahead⟩ := @Iterator.next_spec remainder token offset hs
      ((Iterator.here token offset).next remainder).1
      ((Iterator.here token offset).next remainder).2 rfl
    refine ⟨hwithin, ?_, ?_, ?_⟩
    · change tokens ++ [token] ++ _ = tokens ++ _
      rw [round, hahead, List.append_assoc]
      rfl
    · rw [round, hahead]
      rfl
    · rw [round, hahead]
      rfl

theorem iterate_within {s : Scan} (hs : s.Within) (k : Nat) : (round^[k] s).Within :=
  Function.Iterate.rec Within hs (fun _ h => (round_spec h).1) k

/-- A loop with enough rounds hands out what is ahead, and leaves what is behind it. -/
theorem exec_eq {s : Scan} (hs : s.Within) {rounds : Nat}
    (hrounds : (s.it.ahead s.remainder_).1.length ≤ rounds) :
    While.exec More round rounds s =
      some ⟨(s.it.ahead s.remainder_).2, .end_, s.tokens ++ (s.it.ahead s.remainder_).1⟩ := by
  induction rounds generalizing s with
  | zero =>
    obtain ⟨remainder, it, tokens⟩ := s
    cases it with
    | here token offset => cases hrounds
    | end_ =>
      have hend : ¬ More ⟨remainder, .end_, tokens⟩ := not_not.mpr rfl
      rw [While.exec_of_not_cond hend]
      simp [Iterator.ahead]
  | succ rounds ih =>
    by_cases hmore : s.More
    · obtain ⟨hwithin, htokens, hrest, hlength⟩ := round_spec hs
      rw [While.exec_succ_of_cond hmore, ih hwithin (by omega), htokens, hrest]
    · obtain ⟨remainder, it, tokens⟩ := s
      rw [While.exec_of_not_cond hmore]
      obtain rfl : it = .end_ := not_not.mp hmore
      simp [Iterator.ahead]

end Scan

/-- An iteration hands out the lines, and leaves what is behind the last of them. -/
theorem iterate_eq (t : CommandTokenizer) {rounds : Nat} (h : t.remainder_.length ≤ rounds) :
    t.iterate rounds = some (⟨(cut crlf t.remainder_).2⟩, (cut crlf t.remainder_).1) := by
  have hahead : (Scan.start t).it.ahead (Scan.start t).remainder_ = cut crlf t.remainder_ :=
    (Iterator.ofRemainder_spec t.remainder_).2
  have hrounds : ((Scan.start t).it.ahead (Scan.start t).remainder_).1.length ≤ rounds := by
    rw [hahead]
    exact Nat.le_trans (length_cut_le crlf_ne_nil _) h
  rw [iterate, Scan.exec_eq (Scan.start_within t) hrounds, hahead]
  rfl

/-- The chunks are cut like the text they make up behind what was left before. -/
theorem feed_eq {rounds : Nat} {chunks : List Str} {rest : Str} (hrest : cut crlf rest = ([], rest))
    (h : rest.length + chunks.flatten.length ≤ rounds) :
    feed rounds ⟨rest⟩ chunks =
      some (⟨(cut crlf (rest ++ chunks.flatten)).2⟩, (cut crlf (rest ++ chunks.flatten)).1) := by
  induction chunks generalizing rest with
  | nil =>
    rw [List.flatten_nil, List.append_nil, hrest]
    rfl
  | cons chunk chunks ih =>
    rw [List.flatten_cons, List.length_append] at h
    have hfits : (rest ++ chunk).length ≤ rounds := by
      rw [List.length_append]
      omega
    have hfirst := iterate_eq ⟨rest ++ chunk⟩ hfits
    have hleft := length_rest_le crlf_ne_nil (rest ++ chunk)
    rw [List.length_append] at hleft
    have hlater := ih (cut_rest crlf_ne_nil (rest ++ chunk)) (by omega)
    simp only [feed, append, hfirst, hlater, Option.map_some]
    rw [List.flatten_cons, ← List.append_assoc, cut_remainder_append (rest ++ chunk)]

/-- The tokenizer equals its reference split: with an iteration after each chunk, the tokens are
the pieces of the text cut at the leftmost ends of lines that do not overlap, none of them contains
the end of a line, and `remainder` is what is behind the last of them; tokens and remainder
reproduce the text. Every iteration ends, and every offset lies within the string. -/
theorem feed_reference (chunks : List Str) :
    (∃ n, ∀ rounds, n ≤ rounds → feed rounds .init chunks =
      some (⟨(cut crlf chunks.flatten).2⟩, (cut crlf chunks.flatten).1)) ∧
    (∀ token ∈ (cut crlf chunks.flatten).1, ¬ crlf <:+: token) ∧
    ¬ crlf <:+: (cut crlf chunks.flatten).2 ∧
    ((cut crlf chunks.flatten).1.map (· ++ crlf)).flatten ++ (cut crlf chunks.flatten).2 =
      chunks.flatten ∧
    ∀ (t : CommandTokenizer) (k : Nat), (Scan.round^[k] (.start t)).Within := by
  refine ⟨⟨chunks.flatten.length, fun rounds h => ?_⟩, (not_infix_cut crlf_ne_nil _).1,
    (not_infix_cut crlf_ne_nil _).2, join_cut crlf_ne_nil _, fun t k => ?_⟩
  · rw [← Nat.zero_add chunks.flatten.length] at h
    have hstart : cut crlf ([] : Str) = ([], []) := rfl
    exact feed_eq hstart h
  · exact Scan.iterate_within (Scan.start_within t) k

/-- A CR and an LF in different chunks, behind a CR of the line. -/
example : feed 8 .init [text "a\r", text "\r", text "\nb"] =
    some (⟨text "b"⟩, [text "a\r"]) := by decide

end CommandTokenizer

end Swordfish
