import Swordfish.Connection.Worker
import Swordfish.Storage.Commands

/-!
# Reads and lines

A connection against its byte stream: what a worker does does not depend on how the stream is cut
into reads. After the reads so far it has done what the lines so far ask for, and keeps what is
behind the last of them.
-/

namespace Swordfish
open Delimited

variable {σ : Type} {_do : Handler σ}

/-! ## A stream, processed at once -/

/-- The commands of some lines, up to the first `quit`. -/
def upToQuit (lines : List Str) : List Command :=
  (lines.map Command.ofLine).takeWhile (fun command => command.name ≠ text "quit")

/-- Some line is a `quit`. -/
def Quits (lines : List Str) : Prop := ∃ line ∈ lines, (Command.ofLine line).name = text "quit"

instance : DecidablePred Quits := fun lines =>
  inferInstanceAs (Decidable (∃ line ∈ lines, _))

/-- The responses to some commands, one after the other, and what they leave. -/
def Worker.answers (_do : Handler σ) (p : Process σ) : List Command → Process σ × List Str
  | [] => (p, [])
  | command :: commands =>
      let (p, response) := Worker.respond _do p command
      let (p, responses) := Worker.answers _do p commands
      (p, response :: responses)

theorem upToQuit_of_quits {lines : List Str} (h : Quits lines) (later : List Str) :
    upToQuit (lines ++ later) = upToQuit lines := by
  induction lines with
  | nil =>
    obtain ⟨line, hmem, -⟩ := h
    cases hmem
  | cons line lines ih =>
    by_cases hquit : (Command.ofLine line).name = text "quit"
    · simp [upToQuit, hquit]
    · have hrest : Quits lines := by
        obtain ⟨line', hmem, hname⟩ := h
        rcases List.mem_cons.mp hmem with rfl | hmem
        · exact absurd hname hquit
        · exact ⟨line', hmem, hname⟩
      have := ih hrest
      simp only [upToQuit, List.cons_append, List.map_cons, ne_eq, decide_not] at this ⊢
      rw [List.takeWhile_cons_of_pos (by simpa using hquit),
        List.takeWhile_cons_of_pos (by simpa using hquit), this]

theorem upToQuit_of_not_quits {lines : List Str} (h : ¬ Quits lines) (later : List Str) :
    upToQuit (lines ++ later) = upToQuit lines ++ upToQuit later := by
  have hall : ∀ command ∈ lines.map Command.ofLine,
      decide (command.name ≠ text "quit") = true := by
    intro command hcommand
    obtain ⟨line, hline, rfl⟩ := List.mem_map.mp hcommand
    exact decide_eq_true (fun hname => h ⟨line, hline, hname⟩)
  rw [upToQuit, upToQuit, upToQuit, List.map_append, List.takeWhile_append_of_pos hall,
    List.takeWhile_eq_self_iff.mpr hall]

theorem Worker.answers_append (_do : Handler σ) (p : Process σ) (xs ys : List Command) :
    Worker.answers _do p (xs ++ ys) =
      ((Worker.answers _do (Worker.answers _do p xs).1 ys).1,
        (Worker.answers _do p xs).2 ++ (Worker.answers _do (Worker.answers _do p xs).1 ys).2) := by
  induction xs generalizing p with
  | nil => rfl
  | cons x xs ih =>
    simp only [List.cons_append, Worker.answers, ih]

theorem Worker.answers_length (_do : Handler σ) (p : Process σ) (commands : List Command) :
    (Worker.answers _do p commands).2.length = commands.length := by
  induction commands generalizing p with
  | nil => rfl
  | cons command commands ih =>
    simp only [Worker.answers, List.length_cons, ih]

/-- What executes the commands answers with `END` at the end, or not at all. -/
def Framed (_do : Handler σ) : Prop :=
  ∀ s command, (_do s command).2 = [] ∨ text "END\r\n" <:+ (_do s command).2

theorem Worker.respond_framed (hdo : Framed _do) (p : Process σ) (command : Command) :
    text "END\r\n" <:+ (Worker.respond _do p command).2 := by
  have hend : ∀ response : Str, response = [] ∨ text "END\r\n" <:+ response →
      text "END\r\n" <:+ if response = [] then text "END\r\n" else response := by
    intro response h
    split
    · exact List.suffix_refl _
    · rename_i hne
      exact h.resolve_left hne
  simp only [Worker.respond]
  apply hend
  split
  · exact Or.inr (List.suffix_append _ _)
  · exact hdo p.state command

theorem Worker.answers_framed (hdo : Framed _do) (p : Process σ) (commands : List Command) :
    ∀ response ∈ (Worker.answers _do p commands).2, text "END\r\n" <:+ response := by
  induction commands generalizing p with
  | nil =>
    intro response h
    cases h
  | cons command commands ih =>
    intro response h
    rcases List.mem_cons.mp h with rfl | h
    · exact Worker.respond_framed hdo p command
    · exact ih _ response h

/-! ## Lines processed -/

namespace Connection

/-- What the connection `c` has become when these lines are done: it has executed and answered
them up to the first `quit`, and without one it reads again and keeps what is behind them. -/
structure Processed (_do : Handler σ) (c : Connection σ) (lines : List Str) (rest : Str)
    (c' : Connection σ) : Prop where
  executed : c'.executed = c.executed ++ upToQuit lines
  process : c'.process = (Worker.answers _do c.process (upToQuit lines)).1
  written : c'.written = c.written ++ (Worker.answers _do c.process (upToQuit lines)).2
  reading : c'.reading = true ↔ ¬ Quits lines
  carried : ¬ Quits lines → c'.tokenizer_.remainder_ = rest

theorem not_quits_nil : ¬ Quits [] := by
  rintro ⟨line, hmem, -⟩
  cases hmem

/-- Without a line, the worker reads again. -/
theorem processed_nil (c : Connection σ) :
    Processed _do c [] c.tokenizer_.remainder_ { c with reading := true } where
  executed := (List.append_nil _).symm
  process := rfl
  written := (List.append_nil _).symm
  reading := iff_of_true rfl not_quits_nil
  carried _ := rfl

/-- At a `quit` the worker stops. -/
theorem processed_quit {c : Connection σ} (hclosed : c.reading = false) {line : Str}
    (hquit : (Command.ofLine line).name = text "quit") (lines : List Str) (rest : Str) :
    Processed _do c (line :: lines) rest c := by
  have hquits : Quits (line :: lines) := ⟨line, List.mem_cons_self, hquit⟩
  have hnone : upToQuit (line :: lines) = [] := by simp [upToQuit, hquit]
  constructor
  · rw [hnone, List.append_nil]
  · rw [hnone]
    rfl
  · rw [hnone]
    exact (List.append_nil _).symm
  · exact iff_of_false (by rw [hclosed]; exact Bool.false_ne_true) (not_not.mpr hquits)
  · exact fun h => absurd hquits h

/-- A line that is not a `quit` is executed and answered before the others. -/
theorem processed_cons {c c' : Connection σ} {line : Str}
    (hquit : (Command.ofLine line).name ≠ text "quit") {lines : List Str} {rest : Str}
    (tokenizer : CommandTokenizer)
    (h : Processed _do
      { c with
        process := (Worker.respond _do c.process (Command.ofLine line)).1
        tokenizer_ := tokenizer
        executed := c.executed ++ [Command.ofLine line]
        written := c.written ++ [(Worker.respond _do c.process (Command.ofLine line)).2] }
      lines rest c') : Processed _do c (line :: lines) rest c' := by
  have hcons : upToQuit (line :: lines) = Command.ofLine line :: upToQuit lines := by
    simp [upToQuit, hquit]
  have hquits : Quits (line :: lines) ↔ Quits lines := by simp [Quits, hquit]
  constructor
  · rw [h.executed, hcons, List.append_assoc]
    rfl
  · rw [h.process, hcons]
    rfl
  · rw [h.written, hcons, List.append_assoc]
    rfl
  · rw [hquits]
    exact h.reading
  · rw [hquits]
    exact h.carried

/-- Lines done in two parts, of which the first has no `quit`. -/
theorem Processed.append {c c₁ c₂ : Connection σ} {lines later : List Str} {rest rest' : Str}
    (h : Processed _do c lines rest c₁) (hquits : ¬ Quits lines) (tokenizer : CommandTokenizer)
    (hlater : Processed _do { c₁ with tokenizer_ := tokenizer, reading := false } later rest' c₂) :
    Processed _do c (lines ++ later) rest' c₂ := by
  have hiff : Quits (lines ++ later) ↔ Quits later := by
    simp only [Quits] at hquits
    simp [Quits, or_and_right, exists_or, hquits]
  constructor
  · rw [hlater.executed, upToQuit_of_not_quits hquits]
    change c₁.executed ++ _ = _
    rw [h.executed, List.append_assoc]
  · rw [hlater.process, upToQuit_of_not_quits hquits, Worker.answers_append, ← h.process]
  · rw [hlater.written, upToQuit_of_not_quits hquits, Worker.answers_append, ← h.process]
    change c₁.written ++ _ = _
    rw [h.written, List.append_assoc]
  · rw [hiff]
    exact hlater.reading
  · rw [hiff]
    exact hlater.carried

/-- Behind a `quit` further lines change nothing. -/
theorem Processed.append_of_quits {c c₁ : Connection σ} {lines : List Str} {rest : Str}
    (h : Processed _do c lines rest c₁) (hquits : Quits lines) (later : List Str) (rest' : Str) :
    Processed _do c (lines ++ later) rest' c₁ := by
  have hmore : Quits (lines ++ later) := by
    obtain ⟨line, hmem, hname⟩ := hquits
    exact ⟨line, List.mem_append_left _ hmem, hname⟩
  constructor
  · rw [upToQuit_of_quits hquits, h.executed]
  · rw [upToQuit_of_quits hquits, h.process]
  · rw [upToQuit_of_quits hquits, h.written]
  · exact iff_of_false (fun hopen => h.reading.mp hopen hquits) (not_not.mpr hmore)
  · exact fun hnot => absurd hmore hnot

/-! ## Reads -/

/-- The loop of `on_read` does the lines ahead of its iterator. -/
theorem onReadLoop_spec {lines : List Str} {rest : Str} {rounds : Nat} {c : Connection σ}
    {x : CommandTokenizer.Iterator} (hclosed : c.reading = false)
    (hwithin : x.Within c.tokenizer_.remainder_)
    (hahead : x.ahead c.tokenizer_.remainder_ = (lines, rest)) (hrounds : lines.length < rounds) :
    ∃ c', onReadLoop _do rounds c x = some c' ∧ Processed _do c lines rest c' := by
  obtain ⟨rounds, rfl⟩ := Nat.exists_eq_succ_of_ne_zero (Nat.ne_of_gt (Nat.zero_lt_of_lt hrounds))
  induction lines generalizing rounds c x with
  | nil =>
    cases x with
    | here token offset => cases hahead
    | end_ =>
      cases hahead
      exact ⟨_, rfl, processed_nil c⟩
  | cons line lines ih =>
    cases x with
    | end_ => cases hahead
    | here token offset =>
      simp only [CommandTokenizer.Iterator.ahead, Prod.mk.injEq, List.cons.injEq] at hahead
      obtain ⟨⟨rfl, hlines⟩, hrest⟩ := hahead
      by_cases hquit : (Command.ofLine token).name = text "quit"
      · refine ⟨c, ?_, processed_quit hclosed hquit lines rest⟩
        simp only [onReadLoop, Worker.round, hquit, if_true]
      · obtain ⟨⟨remainder, x⟩, hnext⟩ :
            ∃ r, CommandTokenizer.Iterator.next c.tokenizer_.remainder_ (.here token offset) = r :=
          ⟨_, rfl⟩
        obtain ⟨hwithin', hahead'⟩ := CommandTokenizer.Iterator.next_spec hwithin hnext
        have hmore := Nat.lt_of_succ_lt_succ hrounds
        obtain ⟨rounds, rfl⟩ :=
          Nat.exists_eq_succ_of_ne_zero (Nat.ne_of_gt (Nat.zero_lt_of_lt hmore))
        obtain ⟨c', hrun, hdone⟩ := ih
          (c := { c with
            process := (Worker.respond _do c.process (Command.ofLine token)).1
            tokenizer_ := ⟨remainder⟩
            executed := c.executed ++ [Command.ofLine token]
            written := c.written ++ [(Worker.respond _do c.process (Command.ofLine token)).2] })
          hclosed hwithin' (by rw [hahead', ← hlines, ← hrest]) rounds hmore
        refine ⟨c', ?_, processed_cons hquit ⟨remainder⟩ hdone⟩
        rw [← hrun]
        conv_lhs => rw [onReadLoop]
        simp only [Worker.round, hquit, if_false, hnext]

/-- A read does the lines that are complete with it. -/
theorem onRead_spec (c : Connection σ) (bytes : Str) :
    ∃ c', c.onRead _do bytes = some c' ∧
      Processed _do
        { c with tokenizer_ := c.tokenizer_.append bytes, reading := false }
        (cut crlf (c.tokenizer_.remainder_ ++ bytes)).1
        (cut crlf (c.tokenizer_.remainder_ ++ bytes)).2 c' := by
  obtain ⟨hwithin, hahead⟩ :=
    CommandTokenizer.Iterator.ofRemainder_spec (c.tokenizer_.remainder_ ++ bytes)
  refine onReadLoop_spec rfl hwithin hahead ?_
  exact Nat.lt_succ_of_le (length_cut_le CommandTokenizer.crlf_ne_nil _)

/-- The connection after some reads has done the lines of the stream they make up. -/
theorem serve_spec {c₀ c : Connection σ} {stream : Str}
    (h : Processed _do c₀ (cut crlf stream).1 (cut crlf stream).2 c) (reads : List Str) :
    ∃ c', c.serve _do reads = some c' ∧
      Processed _do c₀ (cut crlf (stream ++ reads.flatten)).1
        (cut crlf (stream ++ reads.flatten)).2 c' := by
  induction reads generalizing c stream with
  | nil =>
    rw [List.flatten_nil, List.append_nil]
    exact ⟨c, rfl, h⟩
  | cons bytes reads ih =>
    rw [List.flatten_cons, ← List.append_assoc]
    by_cases hquits : Quits (cut crlf stream).1
    · have hstopped : ¬ c.reading = true := fun hopen => h.reading.mp hopen hquits
      refine ⟨c, by rw [serve, if_neg hstopped], ?_⟩
      rw [List.append_assoc, CommandTokenizer.cut_remainder_append]
      exact h.append_of_quits hquits _ _
    · obtain ⟨c₁, hread, hdone⟩ := @onRead_spec _ _do c bytes
      rw [h.carried hquits] at hdone
      have hboth := h.append hquits (c.tokenizer_.append bytes) hdone
      have hcut := CommandTokenizer.cut_remainder_append stream bytes
      have hstart : Processed _do c₀ (cut crlf (stream ++ bytes)).1
          (cut crlf (stream ++ bytes)).2 c₁ := by
        rw [hcut]
        exact hboth
      obtain ⟨c', hserve, hall⟩ := ih hstart
      refine ⟨c', ?_, hall⟩
      rw [serve, if_pos (h.reading.mpr hquits), hread]
      exact hserve

/-- A connection does not depend on how its stream is cut into reads. After any reads, of any
number of bytes, the commands executed are those of the lines of the whole stream up to the first
`quit`, the process and the responses are those of executing them in order, and there is one
response for each. If what executes the commands answers with `END` at the end or not at all, as
`Storage::_do` does, then every response ends with `END`. -/
theorem serve_stream (_do : Handler σ) (p : Process σ) (reads : List Str) :
    ∃ c, (init p).serve _do reads = some c ∧
      c.executed = upToQuit (cut crlf reads.flatten).1 ∧
      (c.process, c.written) = Worker.answers _do p (upToQuit (cut crlf reads.flatten).1) ∧
      c.written.length = c.executed.length ∧
      (Framed _do → ∀ response ∈ c.written, text "END\r\n" <:+ response) ∧
      ∀ (env : Env) (clock : Nat → TimeType × TimeType) (now : TimeType) (s t : Storage)
        (command : Command) (res : Str),
        s._do env clock now command = .ok (t, res) → res = [] ∨ text "END\r\n" <:+ res := by
  have hstart : Processed _do (init p) (cut crlf []).1 (cut crlf []).2 (init p) :=
    processed_nil (init p)
  obtain ⟨c, hserve, h⟩ := serve_spec hstart reads
  rw [List.nil_append] at h
  have hwritten : c.written = (Worker.answers _do p (upToQuit (cut crlf reads.flatten).1)).2 := by
    rw [h.written]
    rfl
  have hexecuted : c.executed = upToQuit (cut crlf reads.flatten).1 := by
    rw [h.executed]
    rfl
  refine ⟨c, hserve, hexecuted, Prod.ext h.process hwritten, ?_, ?_, ?_⟩
  · rw [hwritten, hexecuted, Worker.answers_length]
  · intro hframed
    rw [hwritten]
    exact Worker.answers_framed hframed p _
  · exact fun env clock now s t command res => Storage._do_framed

end Connection

end Swordfish
