import Swordfish.Connection.Command
import Swordfish.Connection.Tokenizer

/-!
# A connection

`Worker::on_read` (`daemon-src/src/worker.cpp:69-123`): the commands in the bytes that a client
sends, and their responses. What executes a command is a parameter, `Storage::_do` in the daemon;
`log_level` and `quit` are the worker's own. Logging is left out, but for its level.
-/

namespace Swordfish

/-- `LogLevel::type`. -/
inductive LogLevel where
  | emerg
  | alert
  | crit
  | error
  | warn
  | notice
  | info
  | debug
  deriving DecidableEq, Repr

/-- `LogLevel::text2level` (`log_level.hpp:32-42`). -/
def LogLevel.text2level (x : Str) : LogLevel :=
  if x = text "EMERG" ∨ x = text "EMERGENCY" then .emerg
  else if x = text "ALERT" ∨ x = text "ALERT" then .alert
  else if x = text "CRIT" ∨ x = text "CRITICAL" then .crit
  else if x = text "ERROR" ∨ x = text "ERROR" then .error
  else if x = text "WARN" ∨ x = text "WARNING" then .warn
  else if x = text "NOTICE" ∨ x = text "NOTICE" then .notice
  else if x = text "INFO" ∨ x = text "INFORMATIONAL" then .info
  else .debug

/-- What commands act on: the state behind `_do`, and the level of the logger. -/
structure Process (σ : Type) where
  state : σ
  level : LogLevel
  deriving DecidableEq, Repr

/-- `Storage::_do`, from the worker's side. -/
abbrev Handler (σ : Type) := σ → Command → σ × Str

namespace Worker

variable {σ : Type} (_do : Handler σ)

/-- A command that is not `quit`: what it does, and the response that is written. -/
def respond (p : Process σ) (command : Command) : Process σ × Str :=
  let (p, response) :=
    if command.name = text "log_level" then
      let (p, response) :=
        if h : command.argc = 1 then
          ({ p with level := LogLevel.text2level (command.at_ 0 (by omega)) }, text "OK\r\n")
        else (p, text "ERROR\r\n")
      (p, response ++ text "END\r\n")
    else
      let (state, response) := _do p.state command
      ({ p with state := state }, response)
  (p, if response = [] then text "END\r\n" else response)

/-- What a round of the loop in `on_read` comes to. -/
inductive Round (σ : Type) where
  | readAgain
  | quit
  | write (command : Command) (p : Process σ) (response : Str)

/-- One round of the loop in `on_read`, up to the write. -/
def round (p : Process σ) : CommandTokenizer.Iterator → Round σ
  | .end_ => .readAgain
  | .here token _ =>
      let command := Command.ofLine token
      if command.name = text "quit" then .quit
      else
        let (p, response) := respond _do p command
        .write command p response

end Worker

/-- A connection and what was done on it: the worker's tokenizer, whether a read is pending, the
commands that were executed and the responses that were written. -/
structure Connection (σ : Type) where
  process : Process σ
  tokenizer_ : CommandTokenizer
  reading : Bool
  executed : List Command
  written : List Str
  deriving DecidableEq, Repr

namespace Connection

variable {σ : Type} (_do : Handler σ)

/-- A connection after `Worker::run`. -/
def init (p : Process σ) : Connection σ :=
  { process := p, tokenizer_ := .init, reading := true, executed := [], written := [] }

/-- The loop of `on_read` from the iterator `x`, when it takes at most the rounds given. No write
fails. -/
def onReadLoop : Nat → Connection σ → CommandTokenizer.Iterator → Option (Connection σ)
  | 0, _, _ => none
  | rounds + 1, c, x =>
      match Worker.round _do c.process x with
      | .readAgain => some { c with reading := true }
      | .quit => some c
      | .write command p response =>
          let (remainder, x) := x.next c.tokenizer_.remainder_
          onReadLoop rounds
            { c with
              process := p
              tokenizer_ := ⟨remainder⟩
              executed := c.executed ++ [command]
              written := c.written ++ [response] } x

/-- `Worker::on_read` for a read that has brought `bytes`: every round but the last takes a line,
so there are no more rounds than bytes and one. -/
def onRead (c : Connection σ) (bytes : Str) : Option (Connection σ) :=
  let tokenizer := c.tokenizer_.append bytes
  onReadLoop _do (tokenizer.remainder_.length + 1)
    { c with tokenizer_ := tokenizer, reading := false } tokenizer.begin_

/-- The connection after these reads; once no read is pending the rest is not received. -/
def serve (c : Connection σ) : List Str → Option (Connection σ)
  | [] => some c
  | bytes :: reads =>
      if c.reading then
        match c.onRead _do bytes with
        | some c => c.serve reads
        | none => none
      else some c

end Connection

/-! ## What commands keep -/

section
variable {σ : Type} {I : σ → Prop} {_do : Handler σ}

theorem Worker.respond_state (hdo : ∀ s command, I s → I (_do s command).1) {p : Process σ}
    (hp : I p.state) (command : Command) : I (Worker.respond _do p command).1.state := by
  unfold Worker.respond
  by_cases hlevel : command.name = text "log_level"
  · by_cases hargc : command.argc = 1
    · simpa [hlevel, hargc] using hp
    · simpa [hlevel, hargc] using hp
  · simpa [hlevel] using hdo p.state command hp

/-- What every command keeps, a read keeps. -/
theorem Connection.onReadLoop_state (hdo : ∀ s command, I s → I (_do s command).1) {rounds : Nat}
    {c d : Connection σ} {x : CommandTokenizer.Iterator} (hc : I c.process.state)
    (h : Connection.onReadLoop _do rounds c x = some d) : I d.process.state := by
  induction rounds generalizing c x with
  | zero => cases h
  | succ rounds ih =>
    cases x with
    | end_ =>
      cases h
      exact hc
    | here token offset =>
      by_cases hquit : (Command.ofLine token).name = text "quit"
      · simp only [Connection.onReadLoop, Worker.round, hquit, if_true, Option.some.injEq] at h
        subst h
        exact hc
      · simp only [Connection.onReadLoop, Worker.round, hquit, if_false] at h
        exact ih (Worker.respond_state hdo hc _) h

end

end Swordfish
