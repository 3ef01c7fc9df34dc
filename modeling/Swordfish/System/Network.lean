import Swordfish.Connection.Response
import Swordfish.Connection.Split
import Swordfish.System.Steps

/-!
# The daemon and its connections

The workers of all connections on the system of `System/Model`, in any interleaving. A worker
(`daemon-src/src/worker.cpp:69-123`) cuts what it reads into lines and executes one command after
the other: `get` is a client of the system, `stats` runs `refresh_stats` figure by figure, and each
of their operations on the store, the queue or the statistics is a step of its own.
`boost::asio::write` throws when the peer has reset the connection; nothing catches it, and the
process ends.

A worker goes on here without a thread that is free, and a write always returns, so that every run
with threads is a run of this network (`WorkerPool.run_network`), but not the other way: what can
go on with the threads there are is in `System/WorkerPool`.
-/

namespace Swordfish
open Delimited

/-! ## `refresh_stats`, figure by figure -/

/-- The figures that `Storage::refresh_stats` (`storage.cpp:89-98`) moves, in its order. -/
inductive Figure where
  | storageSize
  | deleted
  | queueSize
  | gets
  | valuesSize
  | updates
  deriving DecidableEq, Repr

namespace Figure

/-- The call that reads the figure. -/
def read (s : Storage) : Figure → Storage × UInt32
  | storageSize => (s, s.storage_.getStorageSize)
  | deleted => ({ s with storage_ := s.storage_.getDeleted.1 }, s.storage_.getDeleted.2)
  | queueSize => (s, s.queue_.size)
  | gets => ({ s with storage_ := s.storage_.getGets.1 }, s.storage_.getGets.2)
  | valuesSize => (s, s.storage_.getValuesSize)
  | updates => ({ s with storage_ := s.storage_.getUpdates.1 }, s.storage_.getUpdates.2)

/-- The setter that takes it. -/
def set (x : Stats) (n : UInt32) : Figure → Stats
  | storageSize => x.setStorageSize n
  | deleted => x.setDeleted n
  | queueSize => x.setQueueSize n
  | gets => x.setGets n
  | valuesSize => x.setValuesSize n
  | updates => x.setUpdates n

/-- The figure after it. -/
def next : Figure → Option Figure
  | storageSize => some deleted
  | deleted => some queueSize
  | queueSize => some gets
  | gets => some valuesSize
  | valuesSize => some updates
  | updates => none

end Figure

/-- Where a worker stands in `Storage::get_stats`. -/
inductive StatsPc where
  | read (f : Figure)
  | set (f : Figure) (n : UInt32)
  | print
  deriving DecidableEq, Repr

/-- Where it stands behind the setter of a figure. -/
def StatsPc.behind (f : Figure) : StatsPc :=
  match f.next with
  | some f => .read f
  | none => .print

/-- One step of `Storage::get_stats`; at the end it has its result. -/
def StatsPc.step (s : Storage) (now : TimeType) : StatsPc → Storage × (StatsPc ⊕ Str)
  | .read f => ((f.read s).1, .inl (.set f (f.read s).2))
  | .set f n => ({ s with stats_ := f.set s.stats_ n }, .inl (.behind f))
  | .print => (s, .inr (s.stats_.get now))

/-! ## A worker -/

/-- Where a worker stands: `async_read_some` is pending, or it is in the loop of `on_read` with
its iterator, before a round, in a command, or before the write; or there is no further read. -/
inductive WorkerPc where
  | reading
  | handling (x : CommandTokenizer.Iterator)
  | getting (x : CommandTokenizer.Iterator)
  | reporting (x : CommandTokenizer.Iterator) (pc : StatsPc)
  | writing (x : CommandTokenizer.Iterator) (response : Str)
  | closed
  deriving DecidableEq, Repr

/-- A worker and its connection: what has come on it, the commands that were begun, and the
responses that were written. -/
structure Session where
  pc : WorkerPc
  tokenizer_ : CommandTokenizer
  isReset : Bool
  received : Str
  executed : List Command
  written : List Str
  deriving DecidableEq, Repr

/-- A worker after `Worker::run`. -/
def Session.start : Session :=
  { pc := .reading
    tokenizer_ := .init
    isReset := false
    received := []
    executed := []
    written := [] }

theorem Command.argc_pos {command : Command} (h : command.argc = 1) : 0 < command.argc :=
  h ▸ Nat.one_pos

/-- The branch of `log_level` (`worker.cpp:89-100`): the new level, and the response. -/
def Worker.logLevel (level : LogLevel) (command : Command) : LogLevel × Str :=
  if h : command.argc = 1 then
    (LogLevel.text2level (command.at_ 0 (Command.argc_pos h)), text "OK\r\n" ++ text "END\r\n")
  else (level, text "ERROR\r\n" ++ text "END\r\n")

/-! ## The network -/

/-- The process with its connections, by number. -/
structure Network where
  sys : Sys
  level : LogLevel
  sessions : Nat → Session
  terminated : Bool

/-- What can happen next: a read ends, with bytes or with an error; a peer resets its connection; a
worker goes on; or the filler, its library, the timer or the destructor of the server does. -/
inductive Network.Move where
  | onRead (c : Nat) (result : Option Str)
  | reset (c : Nat)
  | go (c : Nat) (now refresh : TimeType)
  | daemon (action : Action)
  deriving DecidableEq, Repr

namespace Network

/-- The process after `create_server`. -/
def start (storage : Storage) (level : LogLevel) : Network :=
  { sys := .init storage
    level := level
    sessions := fun _ => .start
    terminated := false }

def setSession (n : Network) (c : Nat) (session : Session) : Network :=
  { n with sessions := Function.update n.sessions c session }

/-- A round of the loop in `on_read` (`worker.cpp:76-105`), up to the first operation of its
command. -/
def round (cfg : FillerConfig) (env : Env) (n : Network) (c : Nat) :
    CommandTokenizer.Iterator → Except Halt Network
  | .end_ => .ok (n.setSession c { n.sessions c with pc := .reading })
  | .here token offset =>
      let command := Command.ofLine token
      let x : CommandTokenizer.Iterator := .here token offset
      if command.name = text "quit" then
        .ok (n.setSession c { n.sessions c with pc := .closed })
      else
        let session : Session :=
          { n.sessions c with executed := (n.sessions c).executed ++ [command] }
        if command.name = text "log_level" then
          let (level, response) := Worker.logLevel n.level command
          .ok ({ n with level := level }.setSession c { session with pc := .writing x response })
        else if command.name = text "stats" then
          .ok (n.setSession c { session with pc := .reporting x (.read .storageSize) })
        else if command.name = text "get" then
          match n.sys.step cfg env (.request c command.arguments) with
          | .ok sys => .ok ({ n with sys := sys }.setSession c { session with pc := .getting x })
          | .error halt => .error halt
        else .ok (n.setSession c { session with pc := .writing x (text "END\r\n") })

/-- A worker goes on. -/
def work (cfg : FillerConfig) (env : Env) (n : Network) (c : Nat) (now refresh : TimeType) :
    Except Halt Network :=
  match (n.sessions c).pc with
  | .reading => .error .blocked
  | .handling x => n.round cfg env c x
  | .getting x =>
      match (n.sys.clients c).step env n.sys.storage now refresh c with
      | .error halt => .error halt
      | .ok (storage, y, event) =>
          let sys :=
            { n.sys with
              storage := storage
              clients := Function.update n.sys.clients c y
              log := History.record event n.sys.log }
          let pc :=
            match event with
            | some (.sent _ _ response) => .writing x response
            | _ => .getting x
          .ok ({ n with sys := sys }.setSession c { n.sessions c with pc := pc })
  | .reporting x pc =>
      let (storage, result) := pc.step n.sys.storage now
      let pc :=
        match result with
        | .inl pc => .reporting x pc
        | .inr response => .writing x response
      .ok ({ n with sys := { n.sys with storage := storage } }.setSession c
        { n.sessions c with pc := pc })
  | .writing x response =>
      if (n.sessions c).isReset then .ok { n with terminated := true }
      else
        let (remainder, x) := x.next (n.sessions c).tokenizer_.remainder_
        .ok (n.setSession c
          { n.sessions c with
            pc := .handling x
            tokenizer_ := ⟨remainder⟩
            written := (n.sessions c).written ++ [response] })
  | .closed => .error .blocked

/-- One move. No thread has to be free for it, and no write blocks. -/
def step (cfg : FillerConfig) (env : Env) (n : Network) (move : Move) : Except Halt Network :=
  if n.terminated then .error .blocked
  else
    match move with
    | .onRead c result =>
        match (n.sessions c).pc, result with
        | .reading, some bytes =>
            let tokenizer := (n.sessions c).tokenizer_.append bytes
            .ok (n.setSession c
              { n.sessions c with
                pc := .handling tokenizer.begin_
                tokenizer_ := tokenizer
                received := (n.sessions c).received ++ bytes })
        | .reading, none => .ok (n.setSession c { n.sessions c with pc := .closed })
        | _, _ => .error .blocked
    | .reset c => .ok (n.setSession c { n.sessions c with isReset := true })
    | .go c now refresh => n.work cfg env c now refresh
    | .daemon action =>
        match action with
        | .request _ _ | .client _ _ _ => .error .blocked
        | _ =>
            match n.sys.step cfg env action with
            | .ok sys => .ok { n with sys := sys }
            | .error halt => .error halt

/-- The moves one after the other. -/
def run (cfg : FillerConfig) (env : Env) (n : Network) (moves : List Move) : Except Halt Network :=
  Run.exec (step cfg env) n moves

/-! ## What a move can do -/

variable {cfg : FillerConfig} {env : Env}

@[simp] theorem setSession_sys (n : Network) (c : Nat) (session : Session) :
    (n.setSession c session).sys = n.sys := rfl

@[simp] theorem setSession_sessions (n : Network) (c : Nat) (session : Session) :
    (n.setSession c session).sessions = Function.update n.sessions c session := rfl

/-- The session of `c` after it has begun a command. -/
def begin_ (n : Network) (c : Nat) (command : Command) (pc : WorkerPc) : Session :=
  { n.sessions c with
    pc := pc
    executed := (n.sessions c).executed ++ [command] }

/-- Everything a round of the loop in `on_read` can do. -/
inductive RoundCase (n : Network) (c : Nat) : CommandTokenizer.Iterator → Network → Prop
  | readAgain : RoundCase n c .end_ (n.setSession c { n.sessions c with pc := .reading })
  | quit {token : Str} {offset : Nat} (hname : (Command.ofLine token).name = text "quit") :
      RoundCase n c (.here token offset) (n.setSession c { n.sessions c with pc := .closed })
  | logLevel {token : Str} {offset : Nat} (hquit : (Command.ofLine token).name ≠ text "quit")
      (hname : (Command.ofLine token).name = text "log_level") :
      RoundCase n c (.here token offset)
        ({ n with level := (Worker.logLevel n.level (Command.ofLine token)).1 }.setSession c
          (n.begin_ c (Command.ofLine token)
            (.writing (.here token offset)
              (Worker.logLevel n.level (Command.ofLine token)).2)))
  | stats {token : Str} {offset : Nat} (hquit : (Command.ofLine token).name ≠ text "quit")
      (hname : (Command.ofLine token).name = text "stats") :
      RoundCase n c (.here token offset)
        (n.setSession c
          (n.begin_ c (Command.ofLine token)
            (.reporting (.here token offset) (.read .storageSize))))
  | get {token : Str} {offset : Nat} (hquit : (Command.ofLine token).name ≠ text "quit")
      (hname : (Command.ofLine token).name = text "get") (hidle : (n.sys.clients c).pc = .idle) :
      RoundCase n c (.here token offset)
        ({ n with
            sys := { n.sys with
              clients := Function.update n.sys.clients c
                (.start (Command.ofLine token).arguments) } }.setSession c
          (n.begin_ c (Command.ofLine token) (.getting (.here token offset))))
  | other {token : Str} {offset : Nat} (hquit : (Command.ofLine token).name ≠ text "quit")
      (hlevel : (Command.ofLine token).name ≠ text "log_level")
      (hstats : (Command.ofLine token).name ≠ text "stats")
      (hget : (Command.ofLine token).name ≠ text "get") :
      RoundCase n c (.here token offset)
        (n.setSession c
          (n.begin_ c (Command.ofLine token) (.writing (.here token offset) (text "END\r\n"))))

theorem round_cases {n m : Network} {c : Nat} {x : CommandTokenizer.Iterator}
    (h : n.round cfg env c x = .ok m) : RoundCase n c x m := by
  cases x with
  | end_ =>
    cases h
    exact .readAgain
  | here token offset =>
    simp only [round] at h
    by_cases hquit : (Command.ofLine token).name = text "quit"
    · simp only [hquit, if_true, Except.ok.injEq] at h
      subst h
      exact .quit hquit
    simp only [hquit, if_false] at h
    by_cases hlevel : (Command.ofLine token).name = text "log_level"
    · simp only [hlevel, if_true, Except.ok.injEq] at h
      subst h
      exact .logLevel hquit hlevel
    simp only [hlevel, if_false] at h
    by_cases hstats : (Command.ofLine token).name = text "stats"
    · simp only [hstats, if_true, Except.ok.injEq] at h
      subst h
      exact .stats hquit hstats
    simp only [hstats, if_false] at h
    by_cases hget : (Command.ofLine token).name = text "get"
    · simp only [hget, if_true, Sys.step] at h
      cases hidle : (n.sys.clients c).pc with
      | idle =>
        simp only [hidle, Except.ok.injEq] at h
        subst h
        exact .get hquit hget hidle
      | lookup | sizeTest key | push key | setQueueSize size =>
        simp only [hidle] at h
        cases h
    · simp only [hget, if_false, Except.ok.injEq] at h
      subst h
      exact .other hquit hlevel hstats hget

/-- Everything a worker can do when it goes on. -/
inductive WorkCase (env : Env) (n : Network) (c : Nat) (now refresh : TimeType) : Network → Prop
  | round {x : CommandTokenizer.Iterator} {m : Network} (hpc : (n.sessions c).pc = .handling x)
      (h : RoundCase n c x m) : WorkCase env n c now refresh m
  | getting {x : CommandTokenizer.Iterator} {storage : Storage} {y : Client}
      (hpc : (n.sessions c).pc = .getting x)
      (h : ClientCase env n.sys.storage now refresh c (n.sys.clients c) (storage, y, none)) :
      WorkCase env n c now refresh
        ({ n with
            sys := { n.sys with
              storage := storage
              clients := Function.update n.sys.clients c y } }.setSession c
          { n.sessions c with pc := .getting x })
  | got {x : CommandTokenizer.Iterator} (hpc : (n.sessions c).pc = .getting x)
      (hlookup : (n.sys.clients c).pc = .lookup) (hargs : (n.sys.clients c).args = []) :
      WorkCase env n c now refresh
        ({ n with
            sys := { n.sys with
              clients := Function.update n.sys.clients c .idle
              log := .sent c (n.sys.clients c).items
                ((n.sys.clients c).res ++ text "END\r\n") :: n.sys.log } }.setSession c
          { n.sessions c with
            pc := .writing x ((n.sys.clients c).res ++ text "END\r\n") })
  | read {x : CommandTokenizer.Iterator} {f : Figure}
      (hpc : (n.sessions c).pc = .reporting x (.read f)) :
      WorkCase env n c now refresh
        ({ n with sys := { n.sys with storage := (f.read n.sys.storage).1 } }.setSession c
          { n.sessions c with pc := .reporting x (.set f (f.read n.sys.storage).2) })
  | set {x : CommandTokenizer.Iterator} {f : Figure} {k : UInt32}
      (hpc : (n.sessions c).pc = .reporting x (.set f k)) :
      WorkCase env n c now refresh
        ({ n with
            sys := { n.sys with
              storage := { n.sys.storage with
                stats_ := f.set n.sys.storage.stats_ k } } }.setSession c
          { n.sessions c with pc := .reporting x (.behind f) })
  | print {x : CommandTokenizer.Iterator} (hpc : (n.sessions c).pc = .reporting x .print) :
      WorkCase env n c now refresh
        (n.setSession c { n.sessions c with pc := .writing x (n.sys.storage.stats_.get now) })
  | write {x y : CommandTokenizer.Iterator} {response remainder : Str}
      (hpc : (n.sessions c).pc = .writing x response) (hpresent : (n.sessions c).isReset = false)
      (hnext : x.next (n.sessions c).tokenizer_.remainder_ = (remainder, y)) :
      WorkCase env n c now refresh
        (n.setSession c
          { n.sessions c with
            pc := .handling y
            tokenizer_ := ⟨remainder⟩
            written := (n.sessions c).written ++ [response] })
  | broken {x : CommandTokenizer.Iterator} {response : Str}
      (hpc : (n.sessions c).pc = .writing x response) (hreset : (n.sessions c).isReset = true) :
      WorkCase env n c now refresh { n with terminated := true }

theorem work_cases {n m : Network} {c : Nat} {now refresh : TimeType}
    (h : n.work cfg env c now refresh = .ok m) : WorkCase env n c now refresh m := by
  unfold work at h
  cases hpc : (n.sessions c).pc with
  | reading =>
    rw [hpc] at h
    cases h
  | closed =>
    rw [hpc] at h
    cases h
  | handling x =>
    rw [hpc] at h
    exact .round hpc (round_cases h)
  | getting x =>
    simp only [hpc] at h
    cases hstep : (n.sys.clients c).step env n.sys.storage now refresh c with
    | error halt =>
      rw [hstep] at h
      cases h
    | ok r =>
      simp only [hstep, Except.ok.injEq] at h
      subst h
      obtain ⟨storage, y, event⟩ := r
      have hcase := Client.step_cases hstep
      cases event with
      | none => exact .getting hpc hcase
      | some e =>
        cases hcase with
        | answer hlookup hargs => exact .got hpc hlookup hargs
  | reporting x pc =>
    simp only [hpc] at h
    cases pc with
    | read f =>
      cases h
      exact .read hpc
    | set f k =>
      cases h
      exact .set hpc
    | print =>
      cases h
      exact .print hpc
  | writing x response =>
    simp only [hpc] at h
    by_cases hreset : (n.sessions c).isReset = true
    · rw [if_pos hreset] at h
      cases h
      exact .broken hpc hreset
    · rw [if_neg hreset] at h
      obtain ⟨⟨remainder, y⟩, hnext⟩ :
          ∃ r, x.next (n.sessions c).tokenizer_.remainder_ = r := ⟨_, rfl⟩
      rw [hnext] at h
      cases h
      exact .write hpc (Bool.not_eq_true _ ▸ hreset) hnext

/-- Everything a move can do. -/
inductive StepCase (cfg : FillerConfig) (env : Env) (n : Network) : Move → Network → Prop
  | receive {c : Nat} (bytes : Str) (hpc : (n.sessions c).pc = .reading) :
      StepCase cfg env n (.onRead c (some bytes))
        (n.setSession c
          { n.sessions c with
            pc := .handling ((n.sessions c).tokenizer_.append bytes).begin_
            tokenizer_ := (n.sessions c).tokenizer_.append bytes
            received := (n.sessions c).received ++ bytes })
  | readFails {c : Nat} (hpc : (n.sessions c).pc = .reading) :
      StepCase cfg env n (.onRead c none) (n.setSession c { n.sessions c with pc := .closed })
  | reset (c : Nat) :
      StepCase cfg env n (.reset c) (n.setSession c { n.sessions c with isReset := true })
  | go {c : Nat} {now refresh : TimeType} {m : Network} (h : WorkCase env n c now refresh m) :
      StepCase cfg env n (.go c now refresh) m
  | daemon {action : Action} {sys : Sys} (h : SysCase cfg env n.sys action sys)
      (hclients : sys.clients = n.sys.clients) :
      StepCase cfg env n (.daemon action) { n with sys := sys }

theorem step_cases {n m : Network} {move : Move} (h : n.step cfg env move = .ok m) :
    n.terminated = false ∧ StepCase cfg env n move m := by
  unfold step at h
  by_cases hlive : n.terminated = true
  · rw [if_pos hlive] at h
    cases h
  refine ⟨Bool.not_eq_true _ ▸ hlive, ?_⟩
  rw [if_neg hlive] at h
  cases move with
  | onRead c result =>
    cases hpc : (n.sessions c).pc with
    | reading =>
      cases result with
      | some bytes =>
        simp only [hpc, Except.ok.injEq] at h
        subst h
        exact .receive bytes hpc
      | none =>
        simp only [hpc, Except.ok.injEq] at h
        subst h
        exact .readFails hpc
    | handling x | getting x | reporting x pc | writing x response | closed =>
      simp only [hpc] at h
      cases h
  | reset c =>
    cases h
    exact .reset c
  | go c now refresh => exact .go (work_cases h)
  | daemon action =>
    have hdaemon : ∀ sys, n.sys.step cfg env action = .ok sys → sys.clients = n.sys.clients →
        m = { n with sys := sys } → StepCase cfg env n (.daemon action) m := by
      rintro sys hsys hclients rfl
      exact .daemon (Sys.step_cases hsys) hclients
    cases action with
    | request c args => cases h
    | client c now refresh => cases h
    | filler now | isFillerAlive answer | getVals ret vals | expirate | shutdown =>
      simp only at h
      split at h
      · rename_i sys hsys
        cases h
        have hclients : sys.clients = n.sys.clients := by
          cases Sys.step_cases hsys
          all_goals rfl
        exact hdaemon sys hsys hclients rfl
      · cases h

end Network

end Swordfish
