import Swordfish.Daemon.Config
import Swordfish.Daemon.Signals
import Swordfish.Daemon.Survival
import Swordfish.System.Serial

/-!
# The configuration in force

The daemon with its configuration file, which anybody may rewrite at any time. `on_config` rereads
it and stops the service, and `create_server` takes it up. The process can end in the middle of
this: `Config::reload` throws when the file cannot be read, and a write to a client that has gone
throws, both on a thread of the service, where nothing catches it; `create_server` throws when the
file names no filler or the port is taken, which ends `Daemon::run`; `exit(1)` is called when the
plugin cannot be loaded, and by a filler thread that was not configured. Otherwise it ends when the
loop of `Daemon::run` is left after a SIGTERM or a SIGINT. With no worker threads `Server::run`
returns at once: no handler is executed any more, and the loop goes round by itself. The keys that
the filler fetches and adds are left out.
-/

namespace Swordfish
open DHashmap

/-- How the process ends. -/
inductive Ending where
  /-- `Config::reload` throws in `on_config`. -/
  | unread (error : ReadError)
  /-- A write throws in `on_read`. -/
  | brokenWrite
  /-- `Config::filler` throws in `create_server`. -/
  | badPath
  /-- `exit(1)` where the plugin is loaded. -/
  | load (exit : Plugin.Exit)
  /-- The acceptor throws in `create_server`. -/
  | portTaken
  /-- `exit(1)` in the filler thread. -/
  | unconfigured
  /-- `Daemon::run` returns. -/
  | done
  deriving DecidableEq, Repr

/-- The machine: what is outside the store, the libraries, and whether a port can be bound at a
time. -/
structure Host (γ α : Type) where
  base : Env
  linker : Plugin.Linker γ α
  binds : TimeType → UInt16 → Bool

/-- The daemon, with what it has of the plugin, `workers_` of its server, and the file. -/
structure Configured (γ α : Type) where
  daemon : Daemon Storage
  plugin : Plugin.State γ α
  cfg_ : Config
  workers_ : UInt64
  file : Config.File
  ended : Option Ending

/-- What can happen. -/
inductive Configured.Move where
  /-- The file is rewritten. -/
  | rewrite (file : Config.File)
  /-- A move of the daemon. -/
  | serve (now refresh : TimeType) (move : Daemon.Move)
  /-- A thread executes `on_read`, and the client it writes to has gone. -/
  | hangUp (now refresh : TimeType) (worker : Nat) (bytes : Str)
  /-- The filler thread makes its first test. -/
  | filler
  /-- The loop of `Daemon::run` goes round. -/
  | reload (now : TimeType)
  /-- The loop of `Daemon::run` is left. -/
  | finish
  deriving DecidableEq, Repr

namespace Config

/-- The storage that `create_server` makes. -/
def storage (c : Config) (now : TimeType) : Storage :=
  .init now c.storageTtl.toNat c.storageSize c.fillerQueueSize c.storageExpirateSize

/-- What `create_server` reads for the storage and the filler, when there is a filler. -/
def round (c : Config) (filler : Str) (now : TimeType) : Plugin.Round :=
  { config :=
      { filler := filler
        fillerFunction := c.fillerFunction
        maxFillSize := c.maxFillSize
        storageTtl := c.storageTtl.toNat
        storageSize := c.storageSize
        fillerQueueSize := c.fillerQueueSize
        storageExpirateSize := c.storageExpirateSize }
    now := now }

end Config

namespace Daemon

/-- A signal that comes to a thread outside the service needs no thread inside. -/
def Move.isPost : Move → Bool
  | .signal _ inside => !inside
  | .accept _ | .read _ _ | .execute _ | .reload => false

/-- With these bytes `on_read` writes to the client: the first line is no `quit`. -/
def writes {σ : Type} (s : Daemon σ) (w : Nat) (bytes : Str) : Bool :=
  match s.workers[w]? with
  | none => false
  | some worker =>
      match (worker.tokenizer_.append bytes).begin_ with
      | .end_ => false
      | .here token _ => (Command.ofLine token).name ≠ text "quit"

end Daemon

namespace Configured

variable {γ α : Type}

/-- What the daemon finds outside, with this configuration and these readings of the clock. -/
def environment (plugin : Env) (cfg_ : Config) (now refresh : TimeType) : Environment Storage :=
  { _do := Storage.handler plugin now refresh
    expirate := Storage.expirate
    storage := fun _ => cfg_.storage now
    level := fun _ => cfg_.logLevel }

/-- The environment of a daemon, whose store calls the functions that it has loaded. -/
def outside (host : Host γ α) (c : Configured γ α) (now refresh : TimeType) :
    Environment Storage :=
  environment (c.plugin.env host.base) c.cfg_ now refresh

/-- `Daemon::create_server` (`daemon.cpp:183-209`) and the start of `Server::run`. `reset_server`
joins the filler thread of the round before. -/
def createServer (host : Host γ α) (now : TimeType) (c : Configured γ α) : Configured γ α :=
  if c.plugin.configured then
    match c.cfg_.filler with
    | none => { c with ended := some .badPath }
    | some filler =>
        match Plugin.linkServer host.linker c.plugin (c.cfg_.round filler now) with
        | .error exit => { c with ended := some (.load exit) }
        | .ok plugin =>
            if host.binds now c.cfg_.port then
              { c with
                daemon := (c.daemon.createServer (c.outside host now now)).serverRun
                plugin := plugin
                workers_ := c.cfg_.workers }
            else { c with ended := some .portTaken }
  else { c with ended := some .unconfigured }

/-- The daemon after its constructor, when the file at `path` holds `tree`. -/
def init (path : Str) (tree : Ptree) : Configured γ α :=
  { daemon := .init
    plugin := Plugin.init
    cfg_ := { path_ := path, tree_ := tree }
    workers_ := 0
    file := some (some tree)
    ended := none }

/-- The daemon in its first `server_->run()`. -/
def start (host : Host γ α) (path : Str) (tree : Ptree) (now : TimeType) : Configured γ α :=
  createServer host now (init path tree)

/-- `server_->run()` returns. -/
def Returns (c : Configured γ α) : Prop :=
  c.workers_ = 0 ∨ c.daemon.stopped = true ∨ c.daemon.OutOfWork

instance (c : Configured γ α) : Decidable c.Returns := inferInstanceAs (Decidable (_ ∨ _ ∨ _))

/-- One move of a daemon that has not ended. The handler `on_config` rereads the file before it
stops the service, and `~Daemon` joins the filler thread. -/
def move (host : Host γ α) (c : Configured γ α) : Move → Except Daemon.Refusal (Configured γ α)
  | .rewrite file => .ok { c with file := file }
  | .serve now refresh move =>
      if move = .reload ∨ (c.workers_ = 0 ∧ move.isPost = false) then .error .impossible
      else
        match c.daemon.step (c.outside host now refresh) move with
        | .error refusal => .error refusal
        | .ok daemon =>
            if move.executes .onConfig then
              match c.cfg_.reload c.file with
              | .error error => .ok { c with ended := some (.unread error) }
              | .ok cfg_ => .ok { c with daemon := daemon, cfg_ := cfg_ }
            else .ok { c with daemon := daemon }
  | .hangUp now refresh w bytes =>
      if c.workers_ = 0 ∨ c.daemon.writes w bytes = false then .error .impossible
      else
        match c.daemon.step (c.outside host now refresh) (.execute (.onRead w (some bytes))) with
        | .error refusal => .error refusal
        | .ok _ => .ok { c with ended := some .brokenWrite }
  | .filler => .ok (if c.plugin.configured then c else { c with ended := some .unconfigured })
  | .reload now =>
      if c.Returns ∧ c.daemon.done_ = false then .ok (c.createServer host now)
      else .error .impossible
  | .finish =>
      if c.Returns ∧ c.daemon.done_ = true then
        .ok { c with ended := some (if c.plugin.configured then .done else .unconfigured) }
      else .error .impossible

/-- One move. -/
def step (host : Host γ α) (c : Configured γ α) (m : Move) :
    Except Daemon.Refusal (Configured γ α) :=
  if c.ended.isSome then .error .impossible else c.move host m

/-! ## What a step does -/

variable {host : Host γ α} {c d : Configured γ α} {path : Str} {tree : Ptree} {now : TimeType}

/-- What `create_server` makes of a daemon when it returns. -/
def created (host : Host γ α) (now : TimeType) (c : Configured γ α) (plugin : Plugin.State γ α) :
    Configured γ α :=
  { c with
    daemon := (c.daemon.createServer (c.outside host now now)).serverRun
    plugin := plugin
    workers_ := c.cfg_.workers }

/-- Everything `create_server` can do. -/
inductive CreateCase (host : Host γ α) (now : TimeType) (c : Configured γ α) :
    Configured γ α → Prop
  | unconfigured (hconfigured : c.plugin.configured = false) :
      CreateCase host now c { c with ended := some .unconfigured }
  | badPath (hconfigured : c.plugin.configured = true) (hfiller : c.cfg_.filler = none) :
      CreateCase host now c { c with ended := some .badPath }
  | load {filler : Str} {exit : Plugin.Exit} (hconfigured : c.plugin.configured = true)
      (hfiller : c.cfg_.filler = some filler)
      (hlink : Plugin.linkServer host.linker c.plugin (c.cfg_.round filler now) = .error exit) :
      CreateCase host now c { c with ended := some (.load exit) }
  | portTaken (hbinds : host.binds now c.cfg_.port = false) :
      CreateCase host now c { c with ended := some .portTaken }
  | created {filler : Str} {plugin : Plugin.State γ α} (hconfigured : c.plugin.configured = true)
      (hfiller : c.cfg_.filler = some filler)
      (hlink : Plugin.linkServer host.linker c.plugin (c.cfg_.round filler now) = .ok plugin)
      (hbinds : host.binds now c.cfg_.port = true) :
      CreateCase host now c (c.created host now plugin)

theorem createServer_cases (host : Host γ α) (now : TimeType) (c : Configured γ α) :
    CreateCase host now c (c.createServer host now) := by
  unfold createServer
  split
  · rename_i hconfigured
    cases hfiller : c.cfg_.filler with
    | none => exact .badPath hconfigured hfiller
    | some filler =>
      dsimp only
      cases hlink : Plugin.linkServer host.linker c.plugin (c.cfg_.round filler now) with
      | error exit => exact .load hconfigured hfiller hlink
      | ok plugin =>
        dsimp only
        split
        · rename_i hbinds
          exact .created hconfigured hfiller hlink hbinds
        · rename_i hbinds
          exact .portTaken (by simpa using hbinds)
  · rename_i hconfigured
    exact .unconfigured (by simpa using hconfigured)

/-- Everything a step can do. -/
inductive StepCase (host : Host γ α) (c : Configured γ α) : Move → Configured γ α → Prop
  | rewrite (file : Config.File) : StepCase host c (.rewrite file) { c with file := file }
  | serve {now refresh : TimeType} {move : Daemon.Move} {daemon : Daemon Storage}
      (hmove : move ≠ .reload) (hpost : c.workers_ = 0 → move.isPost = true)
      (hstep : c.daemon.step (c.outside host now refresh) move = .ok daemon)
      (hconfig : move.executes .onConfig = false) :
      StepCase host c (.serve now refresh move) { c with daemon := daemon }
  | reread {now refresh : TimeType} {move : Daemon.Move} {daemon : Daemon Storage} {tree : Ptree}
      (hmove : move ≠ .reload) (hpost : c.workers_ = 0 → move.isPost = true)
      (hstep : c.daemon.step (c.outside host now refresh) move = .ok daemon)
      (hconfig : move.executes .onConfig = true) (hfile : c.file = some (some tree)) :
      StepCase host c (.serve now refresh move)
        { c with daemon := daemon, cfg_ := { c.cfg_ with tree_ := tree } }
  | unread {now refresh : TimeType} {move : Daemon.Move} {error : ReadError}
      (hpost : c.workers_ = 0 → move.isPost = true) (hconfig : move.executes .onConfig = true)
      (hfile : c.file.join = none) :
      StepCase host c (.serve now refresh move) { c with ended := some (.unread error) }
  | hangUp {now refresh : TimeType} {w : Nat} {bytes : Str} (hworkers : c.workers_ ≠ 0) :
      StepCase host c (.hangUp now refresh w bytes) { c with ended := some .brokenWrite }
  | filler (hconfigured : c.plugin.configured = true) : StepCase host c .filler c
  | unconfigured (hconfigured : c.plugin.configured = false) :
      StepCase host c .filler { c with ended := some .unconfigured }
  | reload {now : TimeType} {d : Configured γ α} (hdone : c.daemon.done_ = false)
      (hcreate : CreateCase host now c d) : StepCase host c (.reload now) d
  | finish (ending : Ending) (hdone : c.daemon.done_ = true) :
      StepCase host c .finish { c with ended := some ending }

theorem move_cases {m : Move} (h : c.move host m = .ok d) : StepCase host c m d := by
  cases m with
  | rewrite file =>
    cases h
    exact .rewrite file
  | serve now refresh move =>
    simp only [Configured.move] at h
    split at h
    · cases h
    · rename_i hpossible
      obtain ⟨hmove, hpost⟩ := not_or.mp hpossible
      have hpost' : c.workers_ = 0 → move.isPost = true := fun hzero => by
        cases hisPost : move.isPost with
        | true => rfl
        | false => exact absurd ⟨hzero, hisPost⟩ hpost
      split at h
      · cases h
      · rename_i daemon hstep
        cases hconfig : move.executes .onConfig with
        | false =>
          rw [hconfig] at h
          cases h
          exact .serve hmove hpost' hstep hconfig
        | true =>
          rw [if_pos hconfig] at h
          cases hread : c.cfg_.reload c.file with
          | error error =>
            rw [hread] at h
            cases h
            exact .unread hpost' hconfig (Config.join_of_reload_error hread)
          | ok cfg_ =>
            rw [hread] at h
            cases h
            obtain ⟨tree, hfile, rfl⟩ := Config.reload_ok.mp hread
            exact .reread hmove hpost' hstep hconfig hfile
  | hangUp now refresh w bytes =>
    simp only [Configured.move] at h
    split at h
    · cases h
    · rename_i hpossible
      split at h
      · cases h
      · cases h
        exact .hangUp (not_or.mp hpossible).1
  | filler =>
    simp only [Configured.move, Except.ok.injEq] at h
    cases hconfigured : c.plugin.configured with
    | true =>
      rw [if_pos hconfigured] at h
      subst h
      exact .filler hconfigured
    | false =>
      rw [if_neg (by simp [hconfigured])] at h
      subst h
      exact .unconfigured hconfigured
  | reload now =>
    simp only [Configured.move] at h
    split at h
    · rename_i hreload
      cases h
      exact .reload hreload.2 (createServer_cases host now c)
    · cases h
  | finish =>
    simp only [Configured.move] at h
    split at h
    · rename_i hfinish
      cases h
      exact .finish _ hfinish.2
    · cases h

theorem step_cases {m : Move} (h : c.step host m = .ok d) :
    c.ended = none ∧ StepCase host c m d := by
  unfold step at h
  split at h
  · cases h
  · rename_i hended
    exact ⟨by simpa using hended, move_cases h⟩

/-! ## What decides the configuration -/

/-- The content of the file, what was read of it last, and what the present server was created
from. -/
structure Registers where
  file : Config.File
  read : Config
  used : Config
  deriving DecidableEq, Repr

/-- The registers at the start. -/
def Registers.start (path : Str) (tree : Ptree) : Registers :=
  { file := some (some tree)
    read := { path_ := path, tree_ := tree }
    used := { path_ := path, tree_ := tree } }

/-- A SIGUSR1 that is handled reads the file, and a reload uses what was read. -/
def Registers.next (r : Registers) : Move → Registers
  | .rewrite file => { r with file := file }
  | .serve _ _ move =>
      if move.executes .onConfig then
        { r with read := { r.read with tree_ := r.file.join.getD r.read.tree_ } }
      else r
  | .reload _ => { r with used := r.read }
  | .hangUp _ _ _ _ | .filler | .finish => r

end Configured

namespace Config

variable {γ α : Type}

/-- A library and a function in it are named. -/
def NamesPlugin (c : Config) : Prop := (∃ filler ∈ c.filler, filler ≠ []) ∧ c.fillerFunction ≠ []

/-- A server can be created when the store has its functions: a filler is named, its library loads,
and the port can be bound. -/
def Loads (host : Host γ α) (now : TimeType) (c : Config) : Prop :=
  ∃ filler, c.filler = some filler ∧ (c.round filler now).Fills host.linker ∧
    host.binds now c.port = true

/-- The first server can be created: the library also has the functions for the store. -/
def Starts (host : Host γ α) (now : TimeType) (c : Config) : Prop :=
  c.Loads host now ∧ ∀ filler ∈ c.filler, filler ≠ [] → (c.round filler now).Hashes host.linker

end Config

namespace Configured

variable {γ α : Type} {host : Host γ α} {c d : Configured γ α} {path : Str} {tree : Ptree}
  {now : TimeType}

/-- The move ends the process: a SIGUSR1 is handled and the file cannot be read; a write throws;
the filler thread was not configured when it starts or is joined; a server is to be created and
cannot; or the loop is left. -/
def Registers.Breaks (host : Host γ α) (r : Registers) : Move → Prop
  | .rewrite _ => False
  | .serve _ _ move => move.executes .onConfig = true ∧ r.file.join = none
  | .hangUp _ _ _ _ => True
  | .filler => ¬ r.used.NamesPlugin
  | .reload now => ¬ (r.used.NamesPlugin ∧ r.read.Loads host now)
  | .finish => True

/-- No move ends the process. -/
def Registers.Intact (host : Host γ α) (r : Registers) : List Move → Prop
  | [] => True
  | move :: moves => ¬ r.Breaks host move ∧ (r.next move).Intact host moves

theorem Registers.intact_concat {r : Registers} {moves : List Move} {move : Move} :
    r.Intact host (moves ++ [move]) ↔
      r.Intact host moves ∧ ¬ (moves.foldl Registers.next r).Breaks host move := by
  induction moves generalizing r with
  | nil => simp [Intact]
  | cons first moves ih =>
    rw [List.cons_append, Intact, ih, Intact, List.foldl_cons, and_assoc]

end Configured

/-! ## What a move leaves of the storages -/

/-- The storage was created from this configuration, whatever was done on it since. -/
structure Storage.Follows (plugin : Env) (cfg_ : Config) (s : Storage) : Prop where
  interned : Interned plugin s.storage_
  ttl : s.storage_.ttl_ = cfg_.storageTtl.toNat
  size : s.maxStorageSize_ = cfg_.storageSize
  queue : s.maxQueueSize_ = cfg_.fillerQueueSize
  expirate : s.expirateSize_ = cfg_.storageExpirateSize

namespace Storage

variable {plugin : Env} {cfg_ : Config} {s : Storage}

theorem Follows.handler (h : s.Follows plugin cfg_) (now refresh : TimeType) (command : Command) :
    (Storage.handler plugin now refresh s command).1.Follows plugin cfg_ := by
  obtain ⟨hdo, hinterned⟩ := handler_ok h.interned now refresh command
  generalize Storage.handler plugin now refresh s command = r at hdo hinterned ⊢
  obtain ⟨t, res⟩ := r
  unfold _do at hdo
  split at hdo
  · cases hdo
    exact ⟨hinterned, h.ttl, h.size, h.queue, h.expirate⟩
  · split at hdo
    · obtain ⟨items, hlookups, -⟩ := getVal_ok.mp hdo
      obtain ⟨t', items', hlookups', hlooked⟩ := lookups_looked h.interned
        (Lookup.ofArguments (fun _ => (now, refresh)) command.arguments) []
      obtain ⟨rfl, -⟩ := Prod.mk.inj (Except.ok.inj (hlookups.symm.trans hlookups'))
      obtain ⟨-, hsize, hexpirate⟩ := lookups_calls hlookups
      exact ⟨hinterned, hlooked.ttl.trans h.ttl, hsize.trans h.size, hlooked.limit.trans h.queue,
        hexpirate.trans h.expirate⟩
    · cases hdo
      exact h

theorem Follows.expirate_ (h : s.Follows plugin cfg_) : s.expirate.Follows plugin cfg_ :=
  ⟨expirate_interned h.interned _, h.ttl, h.size, h.queue, h.expirate⟩

theorem storage_follows (plugin : Env) (cfg_ : Config) (now : TimeType) :
    (cfg_.storage now).Follows plugin cfg_ :=
  ⟨interned_init plugin _, rfl, rfl, rfl, rfl⟩

end Storage

namespace Daemon

variable {σ : Type} {env : Environment σ} {s t : Daemon σ} {I : σ → Prop}

/-- What every command and every expiration keeps, a handler keeps of each storage. -/
theorem invoke_storage (hdo : ∀ x command, I x → I (env._do x command).1)
    (hexpirate : ∀ x, I x → I (env.expirate x)) {handler : Completion}
    (h : s.invoke env handler = .ok t) :
    t.storage_ = s.storage_ ∧
      ∀ k x, s.storages k = some x → I x → ∃ y, t.storages k = some y ∧ I y := by
  have hsame : ∀ k x, s.storages k = some x → I x → ∃ y, s.storages k = some y ∧ I y :=
    fun k x hk hx => ⟨x, hk, hx⟩
  cases handler with
  | onAccept g error =>
    simp only [invoke, onAccept] at h
    split at h
    · cases h
    · split at h
      · cases h
        exact ⟨rfl, hsame⟩
      · cases h
        exact ⟨rfl, hsame⟩
  | onRead w result =>
    simp only [invoke, onRead] at h
    split at h
    · cases h
    · cases h
      exact ⟨rfl, hsame⟩
    · rename_i worker bytes hworker
      split at h
      · cases h
      · rename_i c hread
        split at h
        · cases h
        · cases h
          refine ⟨rfl, fun k x hk hx => ?_⟩
          dsimp only
          by_cases hown : k = worker.storage_
          · subst hown
            rw [Function.update_self]
            refine Connection.onReadLoop_state (I := fun state => ∃ y, state = some y ∧ I y) ?_
              ⟨x, hk, hx⟩ hread
            rintro _ command ⟨y, rfl, hy⟩
            exact ⟨_, rfl, hdo y command hy⟩
          · rw [Function.update_of_ne hown]
            exact ⟨x, hk, hx⟩
  | onExit =>
    cases h
    exact ⟨rfl, hsame⟩
  | onConfig =>
    cases h
    exact ⟨rfl, hsame⟩
  | onExpirate =>
    simp only [invoke] at h
    split at h
    · rename_i g hg
      cases h
      refine ⟨rfl, fun k x hk hx => ?_⟩
      dsimp only
      by_cases hown : k = g
      · subst hown
        rw [Function.update_self, hk]
        exact ⟨_, rfl, hexpirate x hx⟩
      · rw [Function.update_of_ne hown]
        exact ⟨x, hk, hx⟩
    · cases h

theorem StepCase.storage (hdo : ∀ x command, I x → I (env._do x command).1)
    (hexpirate : ∀ x, I x → I (env.expirate x)) {move : Move} (h : StepCase env s move t)
    (hmove : move ≠ .reload) :
    t.storage_ = s.storage_ ∧
      ∀ k x, s.storages k = some x → I x → ∃ y, t.storages k = some y ∧ I y := by
  cases h with
  | accept error hserver_ hserver => exact ⟨rfl, fun k x hk hx => ⟨x, hk, hx⟩⟩
  | read result hworker => exact ⟨rfl, fun k x hk hx => ⟨x, hk, hx⟩⟩
  | dispatch hinvoke => exact invoke_storage hdo hexpirate hinvoke
  | post sig => exact ⟨rfl, fun k x hk hx => ⟨x, hk, hx⟩⟩
  | execute hmem hinvoke =>
    have hkept := invoke_storage hdo hexpirate hinvoke
    exact hkept
  | reload hreturned hdone => exact absurd rfl hmove

/-- The flags after a move, by the handler that it executes. -/
theorem StepCase.flags {move : Move} (h : StepCase env s move t) (hmove : move ≠ .reload) :
    t.done_ = (s.done_ || move.executes .onExit) ∧
      t.stopped = (s.stopped || (move.executes .onExit || move.executes .onConfig)) := by
  cases h with
  | accept error hserver_ hserver => simp [Move.executes]
  | read result hworker => simp [Move.executes]
  | dispatch hinvoke =>
    have hinvoked := invoke_invoked hinvoke
    exact ⟨by simpa [Move.executes] using hinvoked.done_,
      by simpa [Move.executes] using hinvoked.stopped⟩
  | post sig => simp [Move.executes]
  | execute hmem hinvoke =>
    have hinvoked := invoke_invoked hinvoke
    exact ⟨by simpa [Move.executes] using hinvoked.done_,
      by simpa [Move.executes] using hinvoked.stopped⟩
  | reload hreturned hdone => exact absurd rfl hmove

/-- A signal that is posted executes nothing. -/
theorem Move.executes_of_isPost {move : Move} (h : move.isPost = true) (handler : Completion) :
    move.executes handler = false := by
  cases move with
  | signal sig inside =>
    cases inside with
    | true => cases h
    | false => rfl
  | accept error => cases h
  | read w result => cases h
  | execute handler => cases h
  | reload => cases h

theorem deleteServer_queue (s : Daemon σ) (g : Nat) :
    (s.deleteServer g).queue = s.queue ∨
      (s.deleteServer g).queue = s.queue ++ [.onAccept g true] := by
  unfold deleteServer
  dsimp only
  split
  · split
    · exact Or.inr rfl
    · exact Or.inl rfl
  · exact Or.inl rfl

/-- What `reset_server` deletes leaves the flag of the loop, and queues at most an accept. -/
theorem resetServer_kept (s : Daemon σ) :
    s.resetServer.done_ = s.done_ ∧ (s.resetServer.queue = s.queue ∨
      ∃ g, s.resetServer.queue = s.queue ++ [.onAccept g true]) := by
  unfold resetServer
  cases s.server_ with
  | none =>
    dsimp only
    split
    · exact ⟨rfl, Or.inl rfl⟩
    · exact ⟨rfl, Or.inl rfl⟩
  | some g =>
    dsimp only
    have hqueue := deleteServer_queue { s with stopped := true } g
    split
    · exact ⟨rfl, hqueue.imp_right (fun h => ⟨g, h⟩)⟩
    · exact ⟨rfl, hqueue.imp_right (fun h => ⟨g, h⟩)⟩

/-- The signals that wait are still there behind `create_server`. -/
theorem createServer_count (env : Environment σ) (s : Daemon σ) (sig : Signal) :
    (s.createServer env).queue.count sig.handler = s.queue.count sig.handler := by
  show s.resetServer.queue.count _ = _
  rcases (resetServer_kept s).2 with hsame | ⟨g, happend⟩
  · rw [hsame]
  · rw [happend, count_concat_of_ne s.queue (handler_ne_onAccept sig g true).symm]

end Daemon

namespace Configured

variable {γ α : Type} {host : Host γ α} {c d : Configured γ α} {path : Str} {tree : Ptree}
  {now : TimeType}

/-! ## The configuration in force -/

/-- The storage, the threads and the filler are those that a configuration asks for; the filler has
the functions of the library that was found when the server was created. -/
structure InForce (host : Host γ α) (cfg_ : Config) (c : Configured γ α) : Prop where
  storage : ∃ g s, c.daemon.storage_ = some g ∧ c.daemon.storages g = some s ∧
    s.Follows (c.plugin.env host.base) cfg_
  workers_ : c.workers_ = cfg_.workers
  filler_ : ∃ path now filler, cfg_.filler = some path ∧ c.plugin.filler_ = some filler ∧
    Plugin.Filler host.linker (cfg_.round path now) filler

/-- What holds until the process ends: the present server is the one of `used`, which is what was
read last unless the service is stopped; without threads, nobody stops it; and a named library has
set the static pointers. -/
structure Live (host : Host γ α) (r : Registers) (c : Configured γ α) : Prop where
  inForce : InForce host r.used c
  fresh : c.daemon.stopped = false → r.used = r.read
  idle : c.workers_ = 0 → c.daemon.stopped = false ∧ c.daemon.done_ = false
  clear : c.plugin.dlerror = false
  hashing : r.used.NamesPlugin → c.plugin.Hashing

/-- The registers follow the daemon. -/
structure Tracks (host : Host γ α) (r : Registers) (c : Configured γ α) : Prop where
  file : c.file = r.file
  cfg_ : c.cfg_ = r.read
  live : c.ended = none → Live host r c

theorem namesPlugin_iff {cfg_ : Config} {filler : Str} (h : cfg_.filler = some filler) :
    (cfg_.round filler now).NamesPlugin ↔ cfg_.NamesPlugin := by
  refine and_congr_left' ⟨fun hne => ⟨filler, h, hne⟩, ?_⟩
  rintro ⟨filler', hfiller', hne⟩
  rw [h] at hfiller'
  cases hfiller'
  exact hne

/-- The filler thread of a server is the one that its configuration asks for. -/
theorem Live.configured_iff {r : Registers} (h : Live host r c) :
    c.plugin.configured = true ↔ r.used.NamesPlugin := by
  obtain ⟨path, now, filler, hpath, hfiller, hmade⟩ := h.inForce.filler_
  rw [Plugin.State.configured, hfiller, Option.all_some, hmade.configured_, namesPlugin_iff hpath]

/-- A move of the daemon leaves what is in force. -/
theorem InForce.serve {used : Config} {now refresh : TimeType} {move : Daemon.Move}
    {daemon : Daemon Storage} (h : InForce host used c)
    (hstep : c.daemon.step (c.outside host now refresh) move = .ok daemon)
    (hmove : move ≠ .reload) (cfg_' : Config) :
    InForce host used { c with daemon := daemon, cfg_ := cfg_' } where
  storage := by
    obtain ⟨g, s, hg, hs, hfollows⟩ := h.storage
    obtain ⟨hstorage_, hkept⟩ := (Daemon.step_cases hstep).storage
      (I := Storage.Follows (c.plugin.env host.base) used)
      (fun s command hs => hs.handler now refresh command) (fun s hs => hs.expirate_) hmove
    obtain ⟨t, ht, hfollows'⟩ := hkept g s hs hfollows
    exact ⟨g, t, hstorage_.trans hg, ht, hfollows'⟩
  workers_ := h.workers_
  filler_ := h.filler_

/-- A server that was just created is one of what was read last. -/
theorem Live.created {r : Registers} {filler : Str} {plugin : Plugin.State γ α}
    (hcfg_ : c.cfg_ = r.read) (hdone : c.daemon.done_ = false)
    (hfiller : c.cfg_.filler = some filler)
    (hsettles : Plugin.Settles host.linker c.plugin (c.cfg_.round filler now) plugin) :
    Live host { r with used := r.read } (c.created host now plugin) where
  inForce := by
    obtain ⟨f, hf, hmade⟩ := hsettles.filler_
    refine hcfg_ ▸ ⟨⟨_, _, rfl, Function.update_self .., ?_⟩, rfl, filler, now, f, hfiller, hf,
      hmade⟩
    exact Storage.storage_follows _ c.cfg_ now
  fresh _ := rfl
  idle _ := ⟨rfl, by
    show (c.daemon.resetServer).done_ = false
    rw [(Daemon.resetServer_kept _).1]
    exact hdone⟩
  clear := hsettles.clear
  hashing hnames := hsettles.hashing ((namesPlugin_iff hfiller).mpr (hcfg_ ▸ hnames)).1

/-- `create_server` returns exactly when the filler thread before was configured, and a filler is
named, its library fits and the port can be bound. -/
theorem CreateCase.tracks {r : Registers} (h : CreateCase host now c d) (hended : c.ended = none)
    (hfile : c.file = r.file) (hcfg_ : c.cfg_ = r.read) (hdone : c.daemon.done_ = false)
    (hclear : c.plugin.dlerror = false)
    (hpointers : c.plugin.configured = true → c.plugin.Hashing ∨ c.plugin.Blank) :
    Tracks host { r with used := r.read } d ∧
      (d.ended = none ↔ c.plugin.configured = true ∧ r.read.Loads host now ∧
        ∀ filler ∈ r.read.filler, filler ≠ [] →
          c.plugin.Hashing ∨ (r.read.round filler now).Hashes host.linker) := by
  have hend : ∀ ending : Ending,
      Tracks host { r with used := r.read } { c with ended := some ending } :=
    fun ending => ⟨hfile, hcfg_, fun h => by cases h⟩
  cases h with
  | unconfigured hconfigured =>
    refine ⟨hend _, iff_of_false (fun h => by cases h) (fun h => ?_)⟩
    rw [hconfigured] at h
    exact Bool.false_ne_true h.1
  | badPath hconfigured hfiller =>
    refine ⟨hend _, iff_of_false (fun h => by cases h) ?_⟩
    rintro ⟨-, ⟨filler, hfiller', -⟩, -⟩
    rw [← hcfg_, hfiller] at hfiller'
    cases hfiller'
  | @load filler exit hconfigured hfiller hlink =>
    refine ⟨hend _, iff_of_false (fun h => by cases h) ?_⟩
    rintro ⟨-, ⟨filler', hfiller', hfills, -⟩, hhash⟩
    rw [← hcfg_] at hfiller' hfills hhash
    obtain rfl : filler = filler' := Option.some.inj (hfiller.symm.trans hfiller')
    rcases Plugin.linkServer_cases host.linker hclear (hpointers hconfigured)
      (c.cfg_.round filler now) with ⟨-, t, ht, -⟩ | ⟨hnot, -⟩
    · rw [hlink] at ht
      cases ht
    · exact hnot ⟨hfills, hhash filler hfiller⟩
  | portTaken hbinds =>
    refine ⟨hend _, iff_of_false (fun h => by cases h) ?_⟩
    rintro ⟨-, ⟨filler, -, -, hbinds'⟩, -⟩
    rw [← hcfg_, hbinds] at hbinds'
    cases hbinds'
  | @created filler plugin hconfigured hfiller hlink hbinds =>
    rcases Plugin.linkServer_cases host.linker hclear (hpointers hconfigured)
      (c.cfg_.round filler now) with ⟨hfits, t, ht, hsettles⟩ | ⟨-, exit, hexit⟩
    · rw [hlink] at ht
      cases ht
      refine ⟨⟨hfile, hcfg_, fun _ => .created hcfg_ hdone hfiller hsettles⟩,
        iff_of_true hended ⟨hconfigured, ?_, ?_⟩⟩
      · exact hcfg_ ▸ ⟨filler, hfiller, hfits.1, hbinds⟩
      · intro filler' hfiller' hne
        rw [← hcfg_] at hfiller' ⊢
        obtain rfl : filler = filler' := Option.some.inj (hfiller.symm.trans hfiller')
        exact hfits.2 hne
    · rw [hlink] at hexit
      cases hexit

/-- A move of the daemon that rereads nothing. -/
theorem Live.serve {r : Registers} {now refresh : TimeType} {move : Daemon.Move}
    {daemon : Daemon Storage} (h : Live host r c) (hmove : move ≠ .reload)
    (hpost : c.workers_ = 0 → move.isPost = true)
    (hstep : c.daemon.step (c.outside host now refresh) move = .ok daemon)
    (hconfig : move.executes .onConfig = false) : Live host r { c with daemon := daemon } := by
  obtain ⟨hdone, hstopped⟩ := (Daemon.step_cases hstep).flags hmove
  rw [hconfig, Bool.or_false] at hstopped
  refine ⟨h.inForce.serve hstep hmove c.cfg_, ?_, ?_, h.clear, h.hashing⟩
  · intro hrunning
    rw [hstopped, Bool.or_eq_false_iff] at hrunning
    exact h.fresh hrunning.1
  · intro hzero
    have hexit := Daemon.Move.executes_of_isPost (hpost hzero) .onExit
    rw [hdone, hstopped, hexit, Bool.or_false, Bool.or_false]
    exact h.idle hzero

/-- A move that rereads the file stops the service, so a thread is there, and what is in force is
what was. -/
theorem Live.reread {r : Registers} {now refresh : TimeType} {move : Daemon.Move}
    {daemon : Daemon Storage} (h : Live host r c) (hmove : move ≠ .reload)
    (hpost : c.workers_ = 0 → move.isPost = true)
    (hstep : c.daemon.step (c.outside host now refresh) move = .ok daemon)
    (hconfig : move.executes .onConfig = true) (read cfg_ : Config) :
    Live host { r with read := read } { c with daemon := daemon, cfg_ := cfg_ } := by
  obtain ⟨-, hstopped⟩ := (Daemon.step_cases hstep).flags hmove
  refine ⟨h.inForce.serve hstep hmove cfg_, ?_, ?_, h.clear, h.hashing⟩
  · intro hrunning
    rw [hstopped, hconfig, Bool.or_true, Bool.or_true] at hrunning
    cases hrunning
  · intro hzero
    rw [Daemon.Move.executes_of_isPost (hpost hzero)] at hconfig
    cases hconfig

/-- A move that ends the process leaves the registers. -/
theorem Tracks.ends {r : Registers} {P : Prop} (h : Tracks host r c) (ending : Ending) (hP : P) :
    Tracks host r { c with ended := some ending } ∧
      (({ c with ended := some ending } : Configured γ α).ended = none ↔ ¬ P) := by
  refine ⟨⟨h.file, h.cfg_, fun hnone => ?_⟩, iff_of_false (fun hnone => ?_) (not_not.mpr hP)⟩
  · cases hnone
  · cases hnone

theorem StepCase.tracks {r : Registers} {m : Move} (h : StepCase host c m d)
    (hended : c.ended = none) (hc : Tracks host r c) :
    Tracks host (r.next m) d ∧ (d.ended = none ↔ ¬ r.Breaks host m) := by
  have hlive := hc.live hended
  cases h with
  | rewrite file =>
    refine ⟨⟨rfl, hc.cfg_, fun _ => ⟨⟨hlive.inForce.storage, hlive.inForce.workers_,
      hlive.inForce.filler_⟩, hlive.fresh, hlive.idle, hlive.clear, hlive.hashing⟩⟩, ?_⟩
    exact iff_of_true hended id
  | @serve now refresh move daemon hmove hpost hstep hconfig =>
    have hnext : r.next (.serve now refresh move) = r := by
      simp [Registers.next, hconfig]
    rw [hnext]
    refine ⟨⟨hc.file, hc.cfg_, fun _ => hlive.serve hmove hpost hstep hconfig⟩,
      iff_of_true hended ?_⟩
    rintro ⟨hconfig', -⟩
    rw [hconfig] at hconfig'
    cases hconfig'
  | @reread now refresh move daemon tree hmove hpost hstep hconfig hfile =>
    have hread : r.file.join = some tree := by
      rw [← hc.file, hfile]
      rfl
    have hnext : r.next (.serve now refresh move) =
        { r with read := { r.read with tree_ := tree } } := by
      simp [Registers.next, hconfig, hread]
    rw [hnext]
    refine ⟨⟨hc.file, ?_, fun _ => hlive.reread hmove hpost hstep hconfig _ _⟩,
      iff_of_true hended ?_⟩
    · rw [hc.cfg_]
    · rintro ⟨-, hnone⟩
      rw [hread] at hnone
      cases hnone
  | @unread now refresh move error hpost hconfig hfile =>
    have hread : r.file.join = none := hc.file ▸ hfile
    have hnext : r.next (.serve now refresh move) = r := by
      simp [Registers.next, hconfig, hread]
    rw [hnext]
    exact hc.ends _ ⟨hconfig, hread⟩
  | hangUp hworkers => exact hc.ends _ trivial
  | filler hconfigured =>
    exact ⟨hc, iff_of_true hended (not_not.mpr (hlive.configured_iff.mp hconfigured))⟩
  | unconfigured hconfigured =>
    refine hc.ends _ ?_
    intro hnames
    rw [hlive.configured_iff.mpr hnames] at hconfigured
    cases hconfigured
  | @reload now d hdone hcreate =>
    have hpointers : c.plugin.configured = true → c.plugin.Hashing :=
      fun hconfigured => hlive.hashing (hlive.configured_iff.mp hconfigured)
    obtain ⟨htracks, hiff⟩ := hcreate.tracks hended hc.file hc.cfg_ hdone hlive.clear
      (fun hconfigured => Or.inl (hpointers hconfigured))
    refine ⟨htracks, hiff.trans ?_⟩
    show _ ↔ ¬ ¬ (r.used.NamesPlugin ∧ r.read.Loads host now)
    rw [not_not, hlive.configured_iff]
    refine and_congr_right (fun hnames => and_iff_left (fun filler _ _ => Or.inl ?_))
    exact hlive.hashing hnames
  | finish ending hdone => exact hc.ends _ trivial

theorem start_tracks (host : Host γ α) (path : Str) (tree : Ptree) (now : TimeType) :
    Tracks host (.start path tree) (start host path tree now) ∧
      ((start host path tree now).ended = none ↔
        Config.Starts host now { path_ := path, tree_ := tree }) := by
  obtain ⟨htracks, hiff⟩ := (createServer_cases host now (init path tree)).tracks
    (r := .start path tree) rfl rfl rfl rfl rfl (fun _ => Or.inr ⟨rfl, rfl⟩)
  refine ⟨htracks, hiff.trans ((and_iff_right rfl).trans (and_congr_right (fun _ => ?_)))⟩
  have hnot : ¬ (init path tree : Configured γ α).plugin.Hashing := by
    rintro ⟨hsome, -⟩
    cases hsome
  simp only [or_iff_right hnot]
  exact Iff.rfl

theorem run_tracks {moves : List Move}
    (h : Run.exec (step host) (start host path tree now) moves = .ok c) :
    Tracks host (moves.foldl Registers.next (.start path tree)) c ∧
      (c.ended = none ↔ Config.Starts host now { path_ := path, tree_ := tree } ∧
        (Registers.start path tree).Intact host moves) := by
  refine Run.exec_induction (P := fun moves c =>
    Tracks host (moves.foldl Registers.next (.start path tree)) c ∧
      (c.ended = none ↔ Config.Starts host now { path_ := path, tree_ := tree } ∧
        (Registers.start path tree).Intact host moves)) ?_ ?_ h
  · obtain ⟨htracks, hended⟩ := start_tracks host path tree now
    refine ⟨htracks, hended.trans ?_⟩
    exact (and_iff_left trivial).symm
  · intro moves s move t hrun ih hstep
    obtain ⟨htracks, hended⟩ := ih
    obtain ⟨hs, hcase⟩ := step_cases hstep
    obtain ⟨htracks', hended'⟩ := hcase.tracks hs htracks
    rw [List.foldl_append]
    refine ⟨htracks', ?_⟩
    rw [hended', Registers.intact_concat, ← and_assoc, ← hended]
    exact (and_iff_right hs).symm

/-- The daemon is three registers, as far as its configuration goes: the file, what was read of it
last, and what is in force. However often the file is rewritten, whatever clients and signals come,
and over any number of reloads: the process goes on exactly as long as the first server could be
created, every SIGUSR1 that is handled finds a file that can be read, every further server can be
created, the filler threads that start or are joined were configured, no write finds its client
gone and the loop is not left; until then the storage, the threads and the filler are those of the
configuration in force, which is the one that was read last unless the service is stopped for the
next. -/
theorem run_inForce {moves : List Move}
    (h : Run.exec (step host) (start host path tree now) moves = .ok c) :
    (c.ended = none ↔ Config.Starts host now { path_ := path, tree_ := tree } ∧
        (Registers.start path tree).Intact host moves) ∧
      c.cfg_ = (moves.foldl Registers.next (.start path tree)).read ∧
      (c.ended = none →
        InForce host (moves.foldl Registers.next (.start path tree)).used c ∧
          (c.daemon.stopped = false → (moves.foldl Registers.next (.start path tree)).used =
            (moves.foldl Registers.next (.start path tree)).read)) := by
  obtain ⟨htracks, hended⟩ := run_tracks h
  exact ⟨hended, htracks.cfg_, fun hlive =>
    ⟨(htracks.live hlive).inForce, (htracks.live hlive).fresh⟩⟩

/-- A file that names a plugin, and this number of workers. -/
def withWorkers (n : Nat) : Ptree :=
  [(text "general.filler", text "/keep.so"), (text "general.workers", text (toString n))]

/-- A machine with two plugins, on which every port is free. -/
def machine : Host (List Str → List Str) Unit :=
  { base := .plain
    linker := { forgets := true, dlopen := fun _ => Plugin.libraries }
    binds := fun _ _ => true }

/-- The file is rewritten and reread, and once more while the service stops; the server is one of
what was read. -/
theorem run_inForce_reread :
    ∃ c, Run.exec (step machine) (start machine (text "swordfish.ini") (withWorkers 3) 0)
        [.filler, .rewrite (some (some (withWorkers 5))), .serve 1 1 (.signal .SIGUSR1 true),
          .rewrite (some (some (withWorkers 7))), .reload 2] = .ok c ∧
      InForce machine { path_ := text "swordfish.ini", tree_ := withWorkers 5 } c := by
  obtain ⟨c, hrun, hended⟩ := Run.yields_iff.mp
    (by decide +kernel : Run.Yields (step machine) (fun c => c.ended = none)
      (start machine (text "swordfish.ini") (withWorkers 3) 0)
      [.filler, .rewrite (some (some (withWorkers 5))), .serve 1 1 (.signal .SIGUSR1 true),
        .rewrite (some (some (withWorkers 7))), .reload 2])
  exact ⟨c, hrun, ((run_inForce hrun).2.2 hended).1⟩

/-! ## No workers -/

/-- What a daemon without threads keeps. -/
structure Deaf (c d : Configured γ α) : Prop where
  workers_ : d.workers_ = 0
  cfg_ : d.cfg_ = c.cfg_
  done_ : d.daemon.done_ = false

/-- The signals that a move sends. -/
def Move.sends (handler : Completion) : Move → Bool
  | .serve _ _ move => move.sends handler
  | .rewrite _ | .hangUp _ _ _ _ | .filler | .reload _ | .finish => false

/-- What can end a daemon without threads: it is left without a plugin, or cannot create one more
server. -/
def Ending.Unheard : Ending → Prop
  | .unconfigured | .load _ | .portTaken => True
  | .unread _ | .brokenWrite | .badPath | .done => False

/-- What a move leaves of a daemon without threads. -/
structure Unheard (c d : Configured γ α) (m : Move) : Prop where
  deaf : Deaf c d
  queue (sig : Signal) : d.daemon.queue.count sig.handler =
    c.daemon.queue.count sig.handler + (if m.sends sig.handler then 1 else 0)
  ended : ∀ ending ∈ d.ended, Ending.Unheard ending

/-- A daemon without threads that ends is left as it was. -/
theorem Unheard.end_ {m : Move} (hzero : c.workers_ = 0) (hdone : c.daemon.done_ = false)
    (hsends : ∀ handler, m.sends handler = false) {ending : Ending} (h : Ending.Unheard ending) :
    Unheard c { c with ended := some ending } m where
  deaf := ⟨hzero, rfl, hdone⟩
  queue sig := by simp [hsends]
  ended ending' hending' := by
    cases hending'
    exact h

theorem CreateCase.unheard (h : CreateCase host now c d) (hended : c.ended = none)
    (hzero : c.workers_ = 0) (hdone : c.daemon.done_ = false) {filler : Str}
    (hfiller : c.cfg_.filler = some filler) (hworkers : c.cfg_.workers = 0) :
    Unheard c d (.reload now) := by
  cases h with
  | unconfigured hconfigured => exact .end_ hzero hdone (fun _ => rfl) trivial
  | badPath hconfigured hfiller' =>
    rw [hfiller] at hfiller'
    cases hfiller'
  | load hconfigured hfiller' hlink => exact .end_ hzero hdone (fun _ => rfl) trivial
  | portTaken hbinds => exact .end_ hzero hdone (fun _ => rfl) trivial
  | created hconfigured hfiller' hlink hbinds =>
    refine ⟨⟨hworkers, rfl, ?_⟩, fun sig => ?_, fun ending hending => ?_⟩
    · show (c.daemon.resetServer).done_ = false
      rw [(Daemon.resetServer_kept _).1]
      exact hdone
    · exact Daemon.createServer_count (c.outside host now now) c.daemon sig
    · change ending ∈ c.ended at hending
      rw [hended] at hending
      cases hending

theorem StepCase.unheard {m : Move} (h : StepCase host c m d) (hended : c.ended = none)
    (hzero : c.workers_ = 0) (hdone : c.daemon.done_ = false) {filler : Str}
    (hfiller : c.cfg_.filler = some filler) (hworkers : c.cfg_.workers = 0) : Unheard c d m := by
  have hgoes : ∀ ending ∈ c.ended, Ending.Unheard ending := by
    intro ending hending
    rw [hended] at hending
    cases hending
  cases h with
  | rewrite file => exact ⟨⟨hzero, rfl, hdone⟩, fun _ => rfl, hgoes⟩
  | @serve now refresh move daemon hmove hpost hstep hconfig =>
    obtain ⟨hdone', -⟩ := (Daemon.step_cases hstep).flags hmove
    rw [Daemon.Move.executes_of_isPost (hpost hzero), Bool.or_false] at hdone'
    refine ⟨⟨hzero, rfl, hdone'.trans hdone⟩, fun sig => ?_, hgoes⟩
    cases move with
    | signal sig' inside =>
      have hinside : inside = false := by simpa [Daemon.Move.isPost] using hpost hzero
      subst hinside
      cases hstep
      by_cases hsame : sig'.handler = sig.handler
      · simp [Move.sends, Daemon.Move.sends, hsame]
      · simp [Move.sends, Daemon.Move.sends, hsame,
          Daemon.count_concat_of_ne c.daemon.queue hsame]
    | accept error => cases hpost hzero
    | read w result => cases hpost hzero
    | execute handler => cases hpost hzero
    | reload => exact absurd rfl hmove
  | reread hmove hpost hstep hconfig hfile =>
    rw [Daemon.Move.executes_of_isPost (hpost hzero)] at hconfig
    cases hconfig
  | unread hpost hconfig hfile =>
    rw [Daemon.Move.executes_of_isPost (hpost hzero)] at hconfig
    cases hconfig
  | hangUp hworkers' => exact absurd hzero hworkers'
  | filler hconfigured => exact ⟨⟨hzero, rfl, hdone⟩, fun _ => rfl, hgoes⟩
  | unconfigured hconfigured => exact .end_ hzero hdone (fun _ => rfl) trivial
  | reload hdone' hcreate => exact hcreate.unheard hended hzero hdone hfiller hworkers
  | finish ending hdone' =>
    rw [hdone] at hdone'
    cases hdone'

/-- A daemon that comes up without worker threads never hears again: from then on, whatever is sent
to it and however the file is corrected, no handler is executed, so that every signal waits, the
file is not reread and the loop of `Daemon::run` is not left. It ends only when the filler thread
was not configured, or one more server cannot be created; and as long as it has not ended the loop
can go round, which it survives exactly when the configuration still names a plugin that loads and
a port that can be bound. -/
theorem run_withoutWorkers {moves later : List Move}
    (h : Run.exec (step host) (start host path tree now) moves = .ok c)
    (hended : c.ended = none) (hzero : c.workers_ = 0)
    (hlater : Run.exec (step host) c later = .ok d) :
    Deaf c d ∧
      (∀ sig : Signal, d.daemon.queue.count sig.handler =
        c.daemon.queue.count sig.handler + later.countP (Move.sends sig.handler)) ∧
      (∀ ending ∈ d.ended, Ending.Unheard ending) ∧
      (d.ended = none → ∀ now, ∃ e, d.step host (.reload now) = .ok e ∧
        (e.ended = none ↔ c.cfg_.NamesPlugin ∧ c.cfg_.Loads host now)) := by
  have htracks := (run_tracks h).1
  have hlive := htracks.live hended
  obtain ⟨hstopped, hdone⟩ := hlive.idle hzero
  have hused : _ = c.cfg_ := (hlive.fresh hstopped).trans htracks.cfg_.symm
  obtain ⟨filler, -, -, hfiller, -⟩ := hlive.inForce.filler_
  rw [hused] at hfiller
  have hworkers : c.cfg_.workers = 0 := by
    rw [← hused, ← hlive.inForce.workers_]
    exact hzero
  have hrun : Deaf c d ∧ (∀ sig : Signal, d.daemon.queue.count sig.handler =
      c.daemon.queue.count sig.handler + later.countP (Move.sends sig.handler)) ∧
      ∀ ending ∈ d.ended, Ending.Unheard ending := by
    refine Run.exec_induction (P := fun later d => Deaf c d ∧ (∀ sig : Signal,
      d.daemon.queue.count sig.handler =
        c.daemon.queue.count sig.handler + later.countP (Move.sends sig.handler)) ∧
      ∀ ending ∈ d.ended, Ending.Unheard ending) ?_ ?_ hlater
    · refine ⟨⟨hzero, rfl, hdone⟩, fun _ => rfl, fun ending hending => ?_⟩
      rw [hended] at hending
      cases hending
    · intro later s move t _ ih hstep
      obtain ⟨hdeaf, hcount, -⟩ := ih
      obtain ⟨hs, hcase⟩ := step_cases hstep
      have hnext := hcase.unheard hs hdeaf.workers_ hdeaf.done_ (hdeaf.cfg_ ▸ hfiller)
        (hdeaf.cfg_ ▸ hworkers)
      refine ⟨⟨hnext.deaf.workers_, hnext.deaf.cfg_.trans hdeaf.cfg_, hnext.deaf.done_⟩,
        fun sig => ?_, hnext.ended⟩
      rw [hnext.queue sig, hcount sig, List.countP_append, List.countP_singleton, Nat.add_assoc]
  obtain ⟨hdeaf, hcount, hends⟩ := hrun
  refine ⟨hdeaf, hcount, hends, fun hd now => ?_⟩
  have hall := Run.exec_append_ok.mpr ⟨c, h, hlater⟩
  have hreload : d.step host (.reload now) = .ok (d.createServer host now) := by
    have hreturns : d.Returns := Or.inl hdeaf.workers_
    simp only [step, move, hd, hdeaf.done_, hreturns, Option.isSome_none, Bool.false_eq_true,
      if_false, and_self, if_true]
  refine ⟨_, hreload, ?_⟩
  obtain ⟨htracks', -⟩ := run_tracks hall
  obtain ⟨-, hiff⟩ := (step_cases hreload).2.tracks hd htracks'
  have hlive' := htracks'.live hd
  obtain ⟨hstopped', -⟩ := hlive'.idle hdeaf.workers_
  have hfresh := hlive'.fresh hstopped'
  rw [hiff]
  show ¬ ¬ (Config.NamesPlugin _ ∧ Config.Loads host now _) ↔ _
  rw [not_not, hfresh, ← htracks'.cfg_, hdeaf.cfg_]

/-- The file asks for no workers, and is corrected too late: a SIGUSR1 and a SIGTERM wait, and the
next server has no threads either. -/
theorem run_withoutWorkers_corrected :
    ∃ c d, Run.exec (step machine) (start machine (text "swordfish.ini") (withWorkers 3) 0)
        [.rewrite (some (some (withWorkers 0))), .serve 1 1 (.signal .SIGUSR1 true), .reload 2] =
          .ok c ∧
      Run.exec (step machine) c
        [.rewrite (some (some (withWorkers 3))), .serve 3 3 (.signal .SIGUSR1 false),
          .serve 3 3 (.signal .SIGTERM false), .reload 3] = .ok d ∧
      d.workers_ = 0 ∧ d.cfg_.tree_ = withWorkers 0 := by
  obtain ⟨c, hrun, hended, hzero, htree, hyields⟩ := Run.yields_iff.mp
    (by decide +kernel : Run.Yields (step machine) (fun c => c.ended = none ∧ c.workers_ = 0 ∧
      c.cfg_.tree_ = withWorkers 0 ∧ Run.Yields (step machine) (fun _ => True) c
        [.rewrite (some (some (withWorkers 3))), .serve 3 3 (.signal .SIGUSR1 false),
          .serve 3 3 (.signal .SIGTERM false), .reload 3])
      (start machine (text "swordfish.ini") (withWorkers 3) 0)
      [.rewrite (some (some (withWorkers 0))), .serve 1 1 (.signal .SIGUSR1 true), .reload 2])
  obtain ⟨d, hlater, -⟩ := Run.yields_iff.mp hyields
  have hdeaf := (run_withoutWorkers hrun hended hzero hlater).1
  exact ⟨c, d, hrun, hlater, hdeaf.workers_, by rw [hdeaf.cfg_, htree]⟩

end Configured

end Swordfish
