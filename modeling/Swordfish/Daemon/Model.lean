import Mathlib.Logic.Function.Basic
import Swordfish.Connection.Worker
import Swordfish.Lib.Run

/-!
# The daemon

`Daemon` (`daemon-src/src/daemon.cpp`) with `Server` and `Worker`. The `io_service` lives as long as
the daemon, and with it the handlers that are queued there; a server and its storage live from one
reload to the next. Objects are numbered by the call of `create_server` that makes them, and a
handler names the object that its pointer or reference leads to. The filler and its thread are left
out, no write fails, and `general.workers` is not zero: some thread runs the service
(`Configured` has the daemon without threads).
-/

namespace Swordfish

/-- `Server`: `accepting` is a pending `async_accept` of its acceptor, into the socket of
`worker_`. -/
structure Server where
  storage_ : Nat
  worker_ : Nat
  accepting : Bool
  deriving DecidableEq, Repr

/-- `Worker`: `reading` is a pending `async_read_some` of its socket. -/
structure Worker where
  storage_ : Nat
  tokenizer_ : CommandTokenizer
  reading : Bool
  deriving DecidableEq, Repr

/-- The constructor `Worker`. -/
def Worker.create (storage : Nat) : Worker :=
  { storage_ := storage, tokenizer_ := .init, reading := false }

/-- `Worker::run`. -/
def Worker.run (w : Worker) : Worker := { w with reading := true }

/-- A handler in the queue of the `io_service`. -/
inductive Completion where
  | onAccept (server : Nat) (error : Bool)
  | onRead (worker : Nat) (result : Option Str)
  | onExit
  | onConfig
  | onExpirate
  deriving DecidableEq, Repr

/-- The signals that `set_signal_handlers` sets a handler for, but for SIGSEGV. -/
inductive Signal where
  | SIGTERM
  | SIGINT
  | SIGUSR1
  | SIGUSR2
  deriving DecidableEq, Repr

/-- What `dispatch_signal_handler` (`daemon.cpp:124-134`) dispatches. -/
def Signal.handler : Signal → Completion
  | .SIGTERM | .SIGINT => .onExit
  | .SIGUSR1 => .onConfig
  | .SIGUSR2 => .onExpirate

/-- What the daemon finds outside: what a storage does, and the storage and the log level that the
configuration gives each time. -/
structure Environment (σ : Type) where
  _do : Handler σ
  expirate : σ → σ
  storage : Nat → σ
  level : Nat → LogLevel

/-- The daemon. A number stands for no object before `create_server` makes it, and after
`reset_server` has deleted it. -/
structure Daemon (σ : Type) where
  done_ : Bool
  storage_ : Option Nat
  server_ : Option Nat
  created : Nat
  storages : Nat → Option σ
  servers : Nat → Option Server
  workers : List Worker
  level : LogLevel
  queue : List Completion
  stopped : Bool

namespace Daemon

variable {σ : Type} (env : Environment σ)

/-- The constructor `Daemon`. -/
def init : Daemon σ :=
  { done_ := false
    storage_ := none
    server_ := none
    created := 0
    storages := fun _ => none
    servers := fun _ => none
    workers := []
    level := .debug
    queue := []
    stopped := false }

/-- `delete server_`: the destructor of the acceptor queues the handler of its pending accept, with
`operation_aborted`. -/
def deleteServer (s : Daemon σ) (g : Nat) : Daemon σ :=
  { s with
    servers := Function.update s.servers g none
    queue :=
      match s.servers g with
      | some server => if server.accepting then s.queue ++ [.onAccept g true] else s.queue
      | none => s.queue }

/-- `delete storage_`. -/
def deleteStorage (s : Daemon σ) (g : Nat) : Daemon σ :=
  { s with storages := Function.update s.storages g none }

/-- `Daemon::reset_server` (`daemon.cpp:211-237`). -/
def resetServer (s : Daemon σ) : Daemon σ :=
  let s :=
    match s.server_ with
    | some g => { s with stopped := true }.deleteServer g
    | none => s
  match s.storage_ with
  | some g => s.deleteStorage g
  | none => s

/-- `Daemon::create_server` (`daemon.cpp:183-209`), with the constructor of `Server`. -/
def createServer (s : Daemon σ) : Daemon σ :=
  let s := s.resetServer
  { s with
    storage_ := some s.created
    server_ := some s.created
    created := s.created + 1
    storages := Function.update s.storages s.created (some (env.storage s.created))
    servers := Function.update s.servers s.created
      (some { storage_ := s.created, worker_ := s.workers.length, accepting := true })
    workers := s.workers ++ [Worker.create s.created]
    level := env.level s.created }

/-- The start of `Server::run`: `service_.reset()`, and the threads. -/
def serverRun (s : Daemon σ) : Daemon σ := { s with stopped := false }

/-- The daemon in its first `server_->run()`. -/
def start : Daemon σ := (createServer env init).serverRun

/-- Why a move is refused. -/
inductive Refusal where
  /-- It uses an object that has been deleted. -/
  | deleted
  | impossible
  deriving DecidableEq, Repr

/-- `Server::on_accept` (`server.cpp:32-47`). -/
def onAccept (s : Daemon σ) (g : Nat) (error : Bool) : Except Refusal (Daemon σ) :=
  match s.servers g with
  | none => .error .deleted
  | some server =>
      if error then
        .ok { s with
              servers := Function.update s.servers g (some { server with accepting := true }) }
      else
        .ok { s with
              servers := Function.update s.servers g
                (some { server with worker_ := s.workers.length, accepting := true })
              workers := s.workers.modify server.worker_ Worker.run ++
                [Worker.create server.storage_] }

/-- `Storage::_do` through a reference; a deleted storage is left alone. -/
def derefDo (_do : Handler σ) : Handler (Option σ)
  | some state, command =>
      let (state, response) := _do state command
      (some state, response)
  | none, _ => (none, [])

/-- `Worker::on_read` (`worker.cpp:69-123`). Only `log_level` and `quit` do without the storage. -/
def onRead (s : Daemon σ) (w : Nat) (result : Option Str) : Except Refusal (Daemon σ) :=
  match s.workers[w]?, result with
  | none, _ => .error .impossible
  | some _, none => .ok s
  | some worker, some bytes =>
      match Connection.onRead (derefDo env._do)
        { process := { state := s.storages worker.storage_, level := s.level }
          tokenizer_ := worker.tokenizer_
          reading := false
          executed := []
          written := [] } bytes with
      | none => .error .impossible
      | some c =>
          if (s.storages worker.storage_).isNone ∧
              ∃ command ∈ c.executed, command.name ≠ text "log_level" then .error .deleted
          else
            .ok { s with
                  storages := Function.update s.storages worker.storage_ c.process.state
                  level := c.process.level
                  workers := s.workers.set w
                    { worker with tokenizer_ := c.tokenizer_, reading := c.reading } }

/-- A handler is executed. `server_` and `storage_` are used by the daemon's own. -/
def invoke (s : Daemon σ) : Completion → Except Refusal (Daemon σ)
  | .onAccept g error => s.onAccept g error
  | .onRead w result => s.onRead env w result
  | .onExit => .ok { s with done_ := true, stopped := true }
  | .onConfig => .ok { s with stopped := true }
  | .onExpirate =>
      match s.storage_ with
      | some g =>
          .ok { s with
                storages := Function.update s.storages g ((s.storages g).map env.expirate) }
      | none => .error .impossible

/-- The server whose acceptor has a pending accept. -/
def acceptor (s : Daemon σ) : Option (Nat × Server) := do
  let g ← s.server_
  let server ← s.servers g
  if server.accepting then some (g, server) else none

/-- Nothing is queued and nothing is pending: `io_service::run` returns by itself. -/
def OutOfWork (s : Daemon σ) : Prop :=
  s.queue = [] ∧ s.acceptor = none ∧ ∀ worker ∈ s.workers, worker.reading = false

instance (s : Daemon σ) : Decidable s.OutOfWork := inferInstanceAs (Decidable (_ ∧ _ ∧ _))

/-- What can happen. -/
inductive Move where
  /-- The pending accept ends, with a client or with an error. -/
  | accept (error : Bool)
  /-- A pending read ends, with bytes or with an error. -/
  | read (worker : Nat) (result : Option Str)
  /-- A signal comes, to a thread inside `service_.run()` or to another one. -/
  | signal (sig : Signal) (inside : Bool)
  /-- A thread executes a handler that is queued. -/
  | execute (handler : Completion)
  /-- `server_->run()` has returned, and the loop of `Daemon::run` goes on. -/
  | reload
  deriving DecidableEq, Repr

/-- One move. `dispatch` executes its handler at once on a thread of the service, and queues it
otherwise. -/
def step (s : Daemon σ) : Move → Except Refusal (Daemon σ)
  | .accept error =>
      match s.stopped, s.acceptor with
      | false, some (g, server) =>
          .ok { s with
                servers := Function.update s.servers g (some { server with accepting := false })
                queue := s.queue ++ [.onAccept g error] }
      | _, _ => .error .impossible
  | .read w result =>
      match s.stopped, s.workers[w]? with
      | false, some worker =>
          if worker.reading then
            .ok { s with
                  workers := s.workers.set w { worker with reading := false }
                  queue := s.queue ++ [.onRead w result] }
          else .error .impossible
      | _, _ => .error .impossible
  | .signal sig inside =>
      if inside then
        if s.stopped then .error .impossible else s.invoke env sig.handler
      else .ok { s with queue := s.queue ++ [sig.handler] }
  | .execute handler =>
      if s.stopped = false ∧ handler ∈ s.queue then
        { s with queue := s.queue.erase handler }.invoke env handler
      else .error .impossible
  | .reload =>
      if (s.stopped ∨ s.OutOfWork) ∧ s.done_ = false then .ok (s.createServer env).serverRun
      else .error .impossible

/-! ## What a step does -/

/-- Everything a step can do. -/
inductive StepCase (s : Daemon σ) : Move → Daemon σ → Prop
  | accept {g : Nat} {server : Server} (error : Bool) (hserver_ : s.server_ = some g)
      (hserver : s.servers g = some server) :
      StepCase s (.accept error)
        { s with
          servers := Function.update s.servers g (some { server with accepting := false })
          queue := s.queue ++ [.onAccept g error] }
  | read {w : Nat} {worker : Worker} (result : Option Str) (hworker : s.workers[w]? = some worker) :
      StepCase s (.read w result)
        { s with
          workers := s.workers.set w { worker with reading := false }
          queue := s.queue ++ [.onRead w result] }
  | dispatch {sig : Signal} {t : Daemon σ} (h : s.invoke env sig.handler = .ok t) :
      StepCase s (.signal sig true) t
  | post (sig : Signal) :
      StepCase s (.signal sig false) { s with queue := s.queue ++ [sig.handler] }
  | execute {handler : Completion} {t : Daemon σ} (hmem : handler ∈ s.queue)
      (h : { s with queue := s.queue.erase handler }.invoke env handler = .ok t) :
      StepCase s (.execute handler) t
  | reload (hreturned : s.stopped = true ∨ s.OutOfWork) (hdone : s.done_ = false) :
      StepCase s .reload (s.createServer env).serverRun

variable {env} {s t : Daemon σ}

theorem acceptor_eq_some {g : Nat} {server : Server} :
    s.acceptor = some (g, server) ↔
      s.server_ = some g ∧ s.servers g = some server ∧ server.accepting = true := by
  simp only [acceptor, Option.bind_eq_bind, Option.bind_eq_some_iff]
  constructor
  · rintro ⟨g', hserver_, server', hserver, haccepting⟩
    split at haccepting
    · cases haccepting
      exact ⟨hserver_, hserver, ‹_›⟩
    · cases haccepting
  · rintro ⟨hserver_, hserver, haccepting⟩
    exact ⟨g, hserver_, server, hserver, by rw [if_pos haccepting]⟩

theorem step_cases {move : Move} (h : s.step env move = .ok t) : StepCase env s move t := by
  cases move with
  | accept error =>
    simp only [step] at h
    split at h
    · rename_i g server _ hacceptor
      cases h
      obtain ⟨hserver_, hserver, -⟩ := acceptor_eq_some.mp hacceptor
      exact .accept error hserver_ hserver
    · cases h
  | read w result =>
    simp only [step] at h
    split at h
    · rename_i worker _ hworker
      split at h
      · cases h
        exact .read result hworker
      · cases h
    · cases h
  | signal sig inside =>
    cases inside with
    | true =>
      simp only [step, if_true] at h
      split at h
      · cases h
      · exact .dispatch h
    | false =>
      cases h
      exact .post sig
  | execute handler =>
    simp only [step] at h
    split at h
    · rename_i hexecute
      exact .execute hexecute.2 h
    · cases h
  | reload =>
    simp only [step] at h
    split at h
    · rename_i hreload
      cases h
      exact .reload hreload.1 hreload.2
    · cases h

end Daemon

end Swordfish
