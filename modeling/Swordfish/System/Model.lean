import Mathlib.Logic.Function.Basic
import Swordfish.Lib.History
import Swordfish.Storage.Model

/-!
# The daemon at work

The clients' `get` commands, the filler loop and the expirations on one `Storage`, in any
interleaving. Every operation of the store, of the queue and of the statistics is one step; so is
a call of the filler library. A client runs `Storage::get_val` (`storage.cpp:108-125`), the filler
runs `AbstractFiller::operator()` (`abstract_filler.cpp:63-102`), and the daemon may expirate
(`Daemon::on_expirate`) or shut the filler down at any time. The log holds what an observer of the
run sees: the answers of `get_vals`, the calls of `add_item` and the responses.
-/

namespace Swordfish

/-- What an observer sees of a run. -/
inductive Event where
  | fetched (keys : List Str) (ret : Bool) (vals : List Str)
  | addItem (key val : Str)
  | sent (client : Nat) (items : List (Str × Str)) (res : Str)
  deriving DecidableEq, Repr

/-- Why an action is not a step of the system: it is not possible in the state, or the process
fails in it. -/
inductive Halt where
  | blocked
  | failed (failure : Failure)
  deriving DecidableEq, Repr

/-! ## A client -/

/-- Where a client stands in `get_val`: between requests, at the lookup of its next argument, or
in the steps of `push_key`. -/
inductive ClientPc where
  | idle
  | lookup
  | sizeTest (key : Str)
  | push (key : Str)
  | setQueueSize (size : UInt32)
  deriving DecidableEq, Repr

/-- A client in `get_val`: the arguments it has not looked up, `res`, and the items that
`res_append` has put into it. -/
structure Client where
  pc : ClientPc
  args : List Str
  res : Str
  items : List (Str × Str)
  deriving DecidableEq, Repr

namespace Client

/-- A client between requests. -/
def idle : Client := { pc := .idle, args := [], res := [], items := [] }

/-- A client at the start of `get_val`. -/
def start (args : List Str) : Client := { pc := .lookup, args := args, res := [], items := [] }

/-- One step of client `c`. `now` and `refresh` are the readings of the clock in a lookup. -/
def step (env : Env) (s : Storage) (now refresh : TimeType) (c : Nat) (x : Client) :
    Except Halt (Storage × Client × Option Event) :=
  match x.pc with
  | .idle => .error .blocked
  | .lookup =>
      match x.args with
      | [] => .ok (s, idle, some (.sent c x.items (x.res ++ text "END\r\n")))
      | arg :: args =>
          match s.storage_.get env now refresh arg [] with
          | .error failure => .error (.failed failure)
          | .ok (storage, out) =>
              let pc := if out.ret then .lookup else .sizeTest out.normalizedKey
              let x :=
                if out.val ≠ [] then
                  { pc := pc
                    args := args
                    res := Storage.resAppend arg out.val x.res
                    items := x.items ++ [(arg, out.val)] }
                else { x with pc := pc, args := args }
              .ok ({ s with storage_ := storage }, x, none)
  | .sizeTest key =>
      let pc := if s.queue_.size.toUInt64 < s.maxQueueSize_ then .push key else .lookup
      .ok (s, { x with pc := pc }, none)
  | .push key =>
      let (queue, size) := s.queue_.push key
      .ok ({ s with queue_ := queue }, { x with pc := .setQueueSize size }, none)
  | .setQueueSize size =>
      .ok ({ s with stats_ := s.stats_.setQueueSize size }, { x with pc := .lookup }, none)

end Client

/-! ## The filler -/

/-- Where the filler stands in its loop. `t` is the local of that name; the last four points are
the loop over the fetched values, at the pair `i`, and the steps of `add_item` in it. -/
inductive FillerPc where
  | loop
  | fullTest
  | expirate
  | aliveTest (t : UInt64)
  | queueTest (t : UInt64)
  | sizeTest (t : UInt64)
  | pop (t : UInt64)
  | fetchTest
  | askAlive
  | fetch
  | pair (i : Nat)
  | capacityTest (i : Nat) (key val : Str)
  | evict (i : Nat) (key val : Str)
  | add (i : Nat) (key val : Str)
  | stopped
  deriving DecidableEq, Repr

/-- What the filler was configured with: whether the library has `is_filler_alive`, and
`max_fill_size_`. -/
structure FillerConfig where
  isFillerAlive : Bool
  maxFillSize_ : UInt64
  deriving DecidableEq, Repr

/-- The locals of `AbstractFiller::operator()`. -/
structure Filler where
  pc : FillerPc
  keys : List Str
  vals : List Str
  deriving DecidableEq, Repr

namespace Filler

/-- The filler thread before its first round. -/
def start : Filler := { pc := .loop, keys := [], vals := [] }

/-- The tests of the loop, which only decide where it goes on. The subtraction is that of
`size_t`, and `t--` compares before it subtracts. -/
def test (cfg : FillerConfig) (s : Storage) (isAlive : Bool) (f : Filler) : Option FillerPc :=
  match f.pc with
  | .loop => some (if isAlive then .fullTest else .stopped)
  | .fullTest =>
      some (if s.maxStorageSize_ - s.storageSize = 0 then .expirate
        else .aliveTest cfg.maxFillSize_)
  | .aliveTest t => some (if t ≠ 0 ∧ isAlive then .queueTest (t - 1) else .fetchTest)
  | .queueTest t => some (if s.queue_.size ≠ 0 then .sizeTest t else .fetchTest)
  | .sizeTest t => some (if s.maxStorageSize_ - s.storageSize > 0 then .pop t else .fetchTest)
  | .fetchTest =>
      some (if f.keys = [] then .loop else if cfg.isFillerAlive then .askAlive else .fetch)
  | .capacityTest i key val => some (if s.Full then .evict i key val else .add i key val)
  | _ => none

/-- One step of the filler; `now` is the reading of the clock in `add`. The calls of the library
are steps of their own. -/
def step (cfg : FillerConfig) (env : Env) (s : Storage) (isAlive : Bool) (now : TimeType)
    (f : Filler) : Except Halt (Storage × Filler × Option Event) :=
  match f.test cfg s isAlive with
  | some pc => .ok (s, { f with pc := pc }, none)
  | none =>
      match f.pc with
      | .expirate => .ok (s.expirate, { f with pc := .aliveTest cfg.maxFillSize_ }, none)
      | .pop t =>
          let (queue, key) := s.queue_.waitAndPop
          let keys := if key ≠ [] then f.keys ++ [key] else f.keys
          .ok ({ s with queue_ := queue }, { f with pc := .aliveTest t, keys := keys }, none)
      | .pair i =>
          match f.keys[i]?, f.vals[i]? with
          | some key, some val =>
              .ok (s, { f with pc := .capacityTest (i + 1) key val }, some (.addItem key val))
          | _, _ => .ok (s, { f with pc := .loop, keys := [] }, none)
      | .evict i key val => .ok (s.expirate, { f with pc := .capacityTest i key val }, none)
      | .add i key val =>
          match s.storage_.add env now key val with
          | .error failure => .error (.failed failure)
          | .ok storage => .ok ({ s with storage_ := storage }, { f with pc := .pair i }, none)
      | _ => .error .blocked

end Filler

/-! ## The system -/

/-- The state of the daemon: the storage, its clients, the filler thread, the flag that stops it,
and the log, the newest event first. -/
structure Sys where
  storage : Storage
  clients : Nat → Client
  filler : Filler
  isAlive_ : Bool
  log : List Event

/-- What can happen next. -/
inductive Action where
  | request (c : Nat) (args : List Str)
  | client (c : Nat) (now refresh : TimeType)
  | filler (now : TimeType)
  | isFillerAlive (answer : Bool)
  | getVals (ret : Bool) (vals : List Str)
  | expirate
  | shutdown
  deriving DecidableEq, Repr

namespace Sys

/-- The daemon after `create_server`, before the first client. -/
def init (storage : Storage) : Sys :=
  { storage := storage
    clients := fun _ => .idle
    filler := .start
    isAlive_ := true
    log := [] }

/-- One step. `getVals ret vals` is a call of the library's function that returns `ret` and leaves
`vals` in its output vector. -/
def step (cfg : FillerConfig) (env : Env) (s : Sys) : Action → Except Halt Sys
  | .request c args =>
      match (s.clients c).pc with
      | .idle => .ok { s with clients := Function.update s.clients c (.start args) }
      | _ => .error .blocked
  | .client c now refresh =>
      match (s.clients c).step env s.storage now refresh c with
      | .error halt => .error halt
      | .ok (storage, x, event) =>
          .ok { s with
            storage := storage
            clients := Function.update s.clients c x
            log := History.record event s.log }
  | .filler now =>
      match s.filler.step cfg env s.storage s.isAlive_ now with
      | .error halt => .error halt
      | .ok (storage, f, event) =>
          .ok { s with
            storage := storage
            filler := f
            log := History.record event s.log }
  | .isFillerAlive answer =>
      match s.filler.pc with
      | .askAlive =>
          .ok { s with filler := { s.filler with pc := if answer then .fetch else .loop } }
      | _ => .error .blocked
  | .getVals ret vals =>
      match s.filler.pc with
      | .fetch =>
          .ok { s with
            filler := { s.filler with pc := .pair 0, vals := vals }
            log := .fetched s.filler.keys ret vals :: s.log }
      | _ => .error .blocked
  | .expirate => .ok { s with storage := s.storage.expirate }
  | .shutdown => .ok { s with isAlive_ := false }

/-- The actions one after the other. -/
def run (cfg : FillerConfig) (env : Env) (s : Sys) (actions : List Action) : Except Halt Sys :=
  Run.exec (step cfg env) s actions

end Sys

/-! ## Scripts of actions for concrete runs -/

/-- Client 0 asks for a key that is not stored, and is answered. -/
def askScript (now : TimeType) (key : Str) : List Action :=
  .request 0 [key] :: List.replicate 5 (.client 0 now now)

/-- A filler that fetches one key at a time goes from the start of a round, with a key in the
queue, through its call of `get_vals`. -/
def fetchScript (now : TimeType) (ret : Bool) (vals : List Str) : List Action :=
  List.replicate 8 (.filler now) ++ [.getVals ret vals]

end Swordfish
