import Mathlib.Logic.Function.Basic
import Swordfish.Lib.Lifetime
import Swordfish.Lib.Run

/-!
# The owning pointers

`Daemon` (`daemon-src/src/daemon.cpp`) has four owning pointers, which `reset_server` deletes and
`create_server` makes again, with an exception between any two of its calls; `~Daemon` resets once
more. Objects are numbered by the call of `create_server` that makes them. What they do is left
out: only what is made, called and deleted is logged.
-/

namespace Swordfish.Ownership

open Lifetime

/-- The owning pointers of `Daemon` (`daemon.hpp`). -/
inductive Member where
  | storage_
  | filler_
  | fillerThread_
  | server_
  deriving DecidableEq, Repr

/-- What the pointer owned after one call of `create_server`. -/
structure Object where
  member : Member
  round : Nat
  deriving DecidableEq, Repr

/-- The calls that `create_server` makes after `reset_server`. -/
inductive Call where
  | storageTtl
  | storageSize
  | fillerQueueSize
  | storageExpirateSize
  | newStorage
  | filler
  | configureStorage
  | getConfig
  | newFiller
  | fillerAgain
  | fillerFunction
  | maxFillSize
  | configureFiller
  | newThread
  | port
  | workers
  | newServer
  deriving DecidableEq, Repr

/-- The calls of `create_server` (`daemon.cpp:183-209`) in their order. -/
def Call.all : List Call :=
  [.storageTtl, .storageSize, .fillerQueueSize, .storageExpirateSize, .newStorage,
    .filler, .configureStorage,
    .getConfig, .newFiller,
    .fillerAgain, .fillerFunction, .maxFillSize, .configureFiller,
    .newThread,
    .port, .workers, .newServer]

/-- Where the main thread is: at the head of the loop of `Daemon::run`, in `server_->run()`, after
`Daemon::run`, after `~Daemon`. -/
inductive Phase where
  | looping
  | serving
  | ended
  | destroyed
  deriving DecidableEq, Repr

/-- The pointers, with what was done through them. `rounds` counts the calls of `create_server`,
`running` are the filler threads that have not been joined, and `clients` the servers that have
accepted a client. -/
structure Pointers where
  pointer : Member → Option Nat
  done_ : Bool
  stopped : Bool
  phase : Phase
  rounds : Nat
  running : List Nat
  clients : List Nat
  log : List (Event Object)

namespace Pointers

/-- The constructor `Daemon`. -/
def init : Pointers :=
  { pointer := fun _ => none
    done_ := false
    stopped := false
    phase := .looping
    rounds := 0
    running := []
    clients := []
    log := [] }

/-- `service_.stop()`. -/
def stop (s : Pointers) : Pointers := { s with stopped := true }

/-- A method of the object is called. -/
def callObject (s : Pointers) (o : Object) : Pointers := { s with log := s.log ++ [.called o] }

/-- A method is called through the pointer. -/
def call (s : Pointers) (m : Member) : Pointers :=
  match s.pointer m with
  | some g => s.callObject ⟨m, g⟩
  | none => s

/-- `delete` of the pointer, which keeps its value. -/
def delete (s : Pointers) (m : Member) : Pointers :=
  match s.pointer m with
  | some g => { s with log := s.log ++ [.deleted ⟨m, g⟩] }
  | none => s

/-- The pointer is set to a new object. -/
def new (s : Pointers) (m : Member) : Pointers :=
  { s with
    pointer := Function.update s.pointer m (some s.rounds)
    log := s.log ++ [.created ⟨m, s.rounds⟩] }

/-- `filler_thread_->join()`. -/
def join (s : Pointers) (g : Nat) : Pointers :=
  { s.call .fillerThread_ with running := s.running.filter (· ≠ g) }

/-- The filler thread is stopped and deleted (`daemon.cpp:213-219`). -/
def stopThread (s : Pointers) : Pointers :=
  match s.pointer .fillerThread_ with
  | some g => ((s.call .filler_).join g).delete .fillerThread_
  | none => s

/-- The server is stopped and deleted (`daemon.cpp:222-226`). -/
def stopServer (s : Pointers) : Pointers :=
  match s.pointer .server_ with
  | some _ => (s.call .server_).stop.delete .server_
  | none => s

/-- `Daemon::reset_server` (`daemon.cpp:211-237`). -/
def resetServer (s : Pointers) : Pointers :=
  (s.stopThread.stopServer.delete .filler_).delete .storage_

/-- The method that a call of `create_server` begins with. -/
def enter (s : Pointers) : Call → Pointers
  | .configureStorage => s.call .storage_
  | .configureFiller => s.call .filler_
  | _ => s

/-- What a call of `create_server` leaves when it returns. The filler, its thread and the server
are made for the storage and the filler of the same round. -/
def complete (s : Pointers) : Call → Pointers
  | .newStorage => s.new .storage_
  | .newFiller => s.new .filler_
  | .newThread => { s.new .fillerThread_ with running := s.rounds :: s.running }
  | .newServer => s.new .server_
  | _ => s

/-- The calls are made until one throws. -/
def perform (fails : Option Call) (s : Pointers) : List Call → Pointers × Bool
  | [] => (s, true)
  | c :: cs =>
      let s := s.enter c
      if fails = some c then (s, false) else perform fails (s.complete c) cs

/-- `Daemon::create_server` (`daemon.cpp:183-209`): `fails` is the call that throws. -/
def createServer (s : Pointers) (fails : Option Call) : Pointers × Bool :=
  let (s, created) := s.resetServer.perform fails Call.all
  ({ s with rounds := s.rounds + 1 }, created)

/-- The body of the loop of `Daemon::run` (`daemon.cpp:52-64`), up to `service_.reset()` in
`server_->run()`; an exception of `create_server` ends the loop. -/
def round (s : Pointers) (fails : Option Call) : Pointers :=
  match s.createServer fails with
  | (s, true) => { s.call .server_ with stopped := false, phase := .serving }
  | (s, false) => { s with phase := .ended }

/-- What can happen. -/
inductive Move where
  /-- The loop of `Daemon::run` makes a server, or `create_server` throws in the call. -/
  | round (fails : Option Call)
  /-- `init_logger` throws. -/
  | loggerThrows
  /-- `server_->run()` returns. -/
  | returned
  | onExit
  | onConfig
  | onExpirate
  /-- The `io_service` executes `Server::on_accept`, which the server of the round asked for. -/
  | onAccept (round : Nat) (error : Bool)
  /-- The `io_service` executes `Worker::on_read` with a command, for a client of the server of the
  round. -/
  | onRead (round : Nat)
  /-- The filler thread of the round goes on with `AbstractFiller::operator()`. -/
  | fillerWorks (round : Nat)
  /-- `~Daemon`. -/
  | destroy
  deriving DecidableEq, Repr

/-- When the move can come. Handlers are executed inside `server_->run()`, and a server asks for the
next `on_accept` as soon as it is made. -/
def Enabled (s : Pointers) : Move → Prop
  | .round _ | .loggerThrows => s.phase = .looping ∧ s.done_ = false
  | .returned => s.phase = .serving ∧ s.stopped = true
  | .onExit | .onConfig | .onExpirate => s.phase = .serving
  | .onAccept g _ => s.phase = .serving ∧ .created ⟨.server_, g⟩ ∈ s.log
  | .onRead g => s.phase = .serving ∧ g ∈ s.clients
  | .fillerWorks g => s.phase ≠ .destroyed ∧ g ∈ s.running
  | .destroy => s.phase = .ended ∨ (s.phase = .looping ∧ s.done_ = true)

instance (s : Pointers) : (move : Move) → Decidable (s.Enabled move)
  | .round _ | .loggerThrows | .returned | .onAccept .. | .onRead _ | .fillerWorks _ =>
      inferInstanceAs (Decidable (_ ∧ _))
  | .onExit | .onConfig | .onExpirate => inferInstanceAs (Decidable (_ = _))
  | .destroy => inferInstanceAs (Decidable (_ ∨ _))

/-- What the move does. -/
def apply (s : Pointers) : Move → Pointers
  | .round fails => s.round fails
  | .loggerThrows => { s with phase := .ended }
  | .returned => { s with phase := .looping }
  | .onExit => { (s.call .server_).stop with done_ := true }
  | .onConfig => (s.call .server_).stop
  | .onExpirate => s.call .storage_
  | .onAccept g error =>
      { s.callObject ⟨.server_, g⟩ with clients := if error then s.clients else g :: s.clients }
  | .onRead g => s.callObject ⟨.storage_, g⟩
  | .fillerWorks g => (s.callObject ⟨.filler_, g⟩).callObject ⟨.storage_, g⟩
  | .destroy => { s.resetServer with phase := .destroyed }

/-- One move. -/
def step (s : Pointers) (move : Move) : Except Unit Pointers :=
  if s.Enabled move then .ok (s.apply move) else .error ()

/-! ## What is left alone -/

variable {s t u : Pointers}

/-- What was made and what is owned stay as they are, and the log goes on. -/
structure Frame (s t : Pointers) : Prop where
  pointer : t.pointer = s.pointer
  rounds : t.rounds = s.rounds
  clients : t.clients = s.clients
  created : ∀ o, .created o ∈ t.log ↔ .created o ∈ s.log
  log : s.log <+: t.log

theorem Frame.refl (s : Pointers) : Frame s s where
  pointer := rfl
  rounds := rfl
  clients := rfl
  created _ := Iff.rfl
  log := List.prefix_refl s.log

theorem Frame.trans (h : Frame s t) (h' : Frame t u) : Frame s u where
  pointer := h'.pointer.trans h.pointer
  rounds := h'.rounds.trans h.rounds
  clients := h'.clients.trans h.clients
  created o := (h'.created o).trans (h.created o)
  log := h.log.trans h'.log

theorem frame_callObject (s : Pointers) (o : Object) : Frame s (s.callObject o) :=
  { Frame.refl s with
    created := fun o' => by simp [callObject]
    log := List.prefix_append .. }

theorem frame_call (s : Pointers) (m : Member) : Frame s (s.call m) := by
  unfold call
  split
  · exact frame_callObject s _
  · exact .refl s

theorem frame_delete (s : Pointers) (m : Member) : Frame s (s.delete m) := by
  unfold delete
  split
  · exact { Frame.refl s with created := fun o' => by simp, log := List.prefix_append .. }
  · exact .refl s

theorem frame_stopThread (s : Pointers) : Frame s s.stopThread := by
  unfold stopThread
  split
  · rename_i g _
    have hjoin : Frame (s.call .filler_) ((s.call .filler_).join g) :=
      { frame_call (s.call .filler_) .fillerThread_ with }
    exact ((frame_call s .filler_).trans hjoin).trans (frame_delete _ .fillerThread_)
  · exact .refl s

theorem frame_stopServer (s : Pointers) : Frame s s.stopServer := by
  unfold stopServer
  split
  · have hstop : Frame (s.call .server_) (s.call .server_).stop := { Frame.refl _ with }
    exact ((frame_call s .server_).trans hstop).trans (frame_delete _ .server_)
  · exact .refl s

theorem frame_resetServer (s : Pointers) : Frame s s.resetServer :=
  (((frame_stopThread s).trans (frame_stopServer _)).trans (frame_delete _ .filler_)).trans
    (frame_delete _ .storage_)

/-! ## What is deleted -/

theorem deleted_callObject (s : Pointers) (o o' : Object) :
    .deleted o ∈ (s.callObject o').log ↔ .deleted o ∈ s.log := by
  simp [callObject]

theorem deleted_call (s : Pointers) (m : Member) (o : Object) :
    .deleted o ∈ (s.call m).log ↔ .deleted o ∈ s.log := by
  unfold call
  split
  · exact deleted_callObject s o _
  · exact Iff.rfl

theorem deleted_delete (s : Pointers) (m : Member) (o : Object) :
    .deleted o ∈ (s.delete m).log ↔
      .deleted o ∈ s.log ∨ (o.member = m ∧ s.pointer m = some o.round) := by
  unfold delete
  split
  · rename_i g hg
    obtain ⟨m', g'⟩ := o
    simp [hg, eq_comm]
  · rename_i hg
    simp [hg]

theorem deleted_stopThread (s : Pointers) (o : Object) :
    .deleted o ∈ s.stopThread.log ↔
      .deleted o ∈ s.log ∨
        (o.member = .fillerThread_ ∧ s.pointer .fillerThread_ = some o.round) := by
  unfold stopThread
  split
  · rename_i g hg
    rw [deleted_delete, join, deleted_call, deleted_call, (frame_call _ _).pointer,
      (frame_call _ _).pointer]
  · rename_i hg
    simp [hg]

theorem deleted_stopServer (s : Pointers) (o : Object) :
    .deleted o ∈ s.stopServer.log ↔
      .deleted o ∈ s.log ∨ (o.member = .server_ ∧ s.pointer .server_ = some o.round) := by
  unfold stopServer
  split
  · rename_i g hg
    rw [deleted_delete, stop, deleted_call, (frame_call _ _).pointer]
  · rename_i hg
    simp [hg]

/-- `reset_server` deletes what the pointers own. -/
theorem deleted_resetServer (s : Pointers) (o : Object) :
    .deleted o ∈ s.resetServer.log ↔
      .deleted o ∈ s.log ∨ s.pointer o.member = some o.round := by
  simp only [resetServer, deleted_delete, deleted_stopServer, deleted_stopThread,
    (frame_delete _ _).pointer, (frame_stopServer _).pointer, (frame_stopThread _).pointer]
  obtain ⟨m, g⟩ := o
  cases m <;> simp

/-- What the pointer owns has not been deleted. -/
def Live (s : Pointers) (m : Member) : Prop :=
  ∀ g, s.pointer m = some g → .deleted ⟨m, g⟩ ∉ s.log

theorem clean_call {m : Member} (h : Clean s.log) (hlive : s.Live m) : Clean (s.call m).log := by
  unfold call
  split
  · rename_i g hg
    exact h.concat (hlive g hg)
  · exact h

theorem clean_delete {m : Member} (h : Clean s.log) (hlive : s.Live m) :
    Clean (s.delete m).log := by
  unfold delete
  split
  · rename_i g hg
    exact h.concat (hlive g hg)
  · exact h

theorem live_call {m m' : Member} (h : s.Live m) : (s.call m').Live m := by
  intro g hg
  rw [(frame_call s m').pointer] at hg
  rw [deleted_call]
  exact h g hg

theorem clean_stopThread (h : Clean s.log) (hlive : ∀ m, s.Live m) : Clean s.stopThread.log := by
  unfold stopThread
  split
  · have hfiller := clean_call h (hlive .filler_)
    have hthread := clean_call hfiller (live_call (hlive .fillerThread_))
    exact clean_delete hthread (live_call (live_call (hlive .fillerThread_)))
  · exact h

theorem clean_stopServer (h : Clean s.log) (hlive : s.Live .server_) : Clean s.stopServer.log := by
  unfold stopServer
  split
  · exact clean_delete (clean_call h hlive) (live_call hlive)
  · exact h

/-- `reset_server` is clean as long as no pointer dangles. -/
theorem clean_resetServer (h : Clean s.log) (hlive : ∀ m, s.Live m) :
    Clean s.resetServer.log := by
  have hother : ∀ m, m ≠ .fillerThread_ → s.stopThread.Live m := by
    intro m hm g hg
    rw [(frame_stopThread s).pointer] at hg
    rw [deleted_stopThread]
    rintro (hdeleted | ⟨heq, -⟩)
    · exact hlive m g hg hdeleted
    · exact hm heq
  have hserver : Clean s.stopThread.stopServer.log :=
    clean_stopServer (clean_stopThread h hlive) (hother .server_ (by decide))
  have hrest : ∀ m, m ≠ .fillerThread_ → m ≠ .server_ → s.stopThread.stopServer.Live m := by
    intro m hm hm' g hg
    rw [(frame_stopServer _).pointer] at hg
    rw [deleted_stopServer]
    rintro (hdeleted | ⟨heq, -⟩)
    · exact hother m hm g hg hdeleted
    · exact hm' heq
  refine clean_delete (clean_delete hserver (hrest .filler_ (by decide) (by decide))) ?_
  intro g hg
  rw [(frame_delete _ _).pointer] at hg
  rw [deleted_delete]
  rintro (hdeleted | ⟨heq, -⟩)
  · exact hrest .storage_ (by decide) (by decide) g hg hdeleted
  · cases heq

/-- `reset_server` cannot be clean when `server_` dangles. -/
theorem live_of_clean_resetServer (h : Clean s.resetServer.log) : s.Live .server_ := by
  intro g hg
  have hstop : Clean s.stopThread.stopServer.log :=
    h.of_prefix ((frame_delete s.stopThread.stopServer .filler_).trans
      (frame_delete _ .storage_)).log
  have hg' : s.stopThread.pointer .server_ = some g := by rw [(frame_stopThread s).pointer, hg]
  simp only [stopServer, hg', call, callObject, stop, delete] at hstop
  have hcalled := hstop.of_append.allowed
  exact fun hdeleted => hcalled ((frame_stopThread s).log.mem hdeleted)

theorem running_call (s : Pointers) (m : Member) : (s.call m).running = s.running := by
  unfold call
  split <;> rfl

theorem running_delete (s : Pointers) (m : Member) : (s.delete m).running = s.running := by
  unfold delete
  split <;> rfl

theorem running_stopServer (s : Pointers) : s.stopServer.running = s.running := by
  unfold stopServer
  split
  · rw [running_delete, stop, running_call]
  · rfl

/-- `reset_server` joins the thread that `filler_thread_` owns. -/
theorem running_resetServer (h : ∀ g ∈ s.running, s.pointer .fillerThread_ = some g) :
    s.resetServer.running = [] := by
  rw [resetServer, running_delete, running_delete, running_stopServer, stopThread]
  split
  · rename_i g hg
    rw [running_delete, join, running_call, List.filter_eq_nil_iff]
    intro g' hg'
    have heq := (h g' hg').symm.trans hg
    simpa using heq
  · rename_i hg
    apply List.eq_nil_iff_forall_not_mem.mpr
    intro g hmem
    cases (h g hmem).symm.trans hg

/-! ## What a round makes -/

/-- What a round logs when no call throws. -/
def made (g : Nat) : List (Event Object) :=
  [.created ⟨.storage_, g⟩, .called ⟨.storage_, g⟩, .created ⟨.filler_, g⟩, .called ⟨.filler_, g⟩,
    .created ⟨.fillerThread_, g⟩, .created ⟨.server_, g⟩]

theorem mem_made {o : Object} {g : Nat} (h : .created o ∈ made g) : o.round = g := by
  simp only [made, List.mem_cons, Event.created.injEq, List.not_mem_nil, reduceCtorEq, false_or,
    or_false] at h
  rcases h with rfl | rfl | rfl | rfl <;> rfl

theorem perform_none (s : Pointers) :
    s.perform none Call.all =
      ({ s with
          pointer := fun _ => some s.rounds
          running := s.rounds :: s.running
          log := s.log ++ made s.rounds }, true) := by
  have hpointer : ∀ p : Member → Option Nat, ∀ g,
      Function.update (Function.update (Function.update (Function.update p .storage_ g) .filler_ g)
        .fillerThread_ g) .server_ g = fun _ => g := by
    intro p g
    funext m
    cases m <;> simp
  simp [perform, Call.all, enter, complete, new, call, callObject, made, hpointer]

theorem frame_enter (s : Pointers) (c : Call) : Frame s (s.enter c) := by
  cases c with
  | configureStorage => exact frame_call s .storage_
  | configureFiller => exact frame_call s .filler_
  | _ => exact .refl s

/-- Only the last call of `create_server` sets `server_`. -/
theorem server_complete (s : Pointers) {c : Call} (hc : c ≠ .newServer) :
    (s.complete c).pointer .server_ = s.pointer .server_ := by
  cases c with
  | newServer => exact absurd rfl hc
  | _ => rfl

theorem log_complete (s : Pointers) (c : Call) : s.log <+: (s.complete c).log := by
  cases c <;> first | exact List.prefix_refl _ | exact List.prefix_append ..

theorem log_perform (fails : Option Call) (s : Pointers) (calls : List Call) :
    s.log <+: (s.perform fails calls).1.log := by
  induction calls generalizing s with
  | nil => exact List.prefix_refl s.log
  | cons c cs ih =>
    simp only [perform]
    split
    · exact (frame_enter s c).log
    · exact ((frame_enter s c).log.trans (log_complete _ c)).trans (ih _)

/-- A round that throws leaves `server_` as `reset_server` has left it. -/
theorem server_perform {c : Call} {calls : List Call} (hcalls : .newServer ∉ calls)
    (hmem : c ∈ calls ++ [.newServer]) (s : Pointers) :
    (s.perform (some c) (calls ++ [.newServer])).2 = false ∧
      (s.perform (some c) (calls ++ [.newServer])).1.pointer .server_ = s.pointer .server_ := by
  induction calls generalizing s with
  | nil =>
    cases List.mem_singleton.mp hmem
    exact ⟨rfl, rfl⟩
  | cons d ds ih =>
    have hd : d ≠ .newServer := fun heq => hcalls (heq ▸ List.mem_cons_self)
    have hds : .newServer ∉ ds := fun h => hcalls (List.mem_cons_of_mem d h)
    simp only [List.cons_append, perform]
    split
    · exact ⟨rfl, by rw [(frame_enter s d).pointer]⟩
    · rename_i hne
      have hrest : c ∈ ds ++ [.newServer] := by
        rcases List.mem_cons.mp hmem with heq | hrest
        · exact absurd (congrArg some heq) hne
        · exact hrest
      obtain ⟨hthrown, hserver⟩ := ih hds hrest ((s.enter d).complete d)
      refine ⟨hthrown, hserver.trans ?_⟩
      rw [server_complete _ hd, (frame_enter s d).pointer]

theorem mem_all (c : Call) : c ∈ Call.all := by
  cases c <;> decide

/-- The first round so far: nothing has been deleted. -/
structure First (s : Pointers) : Prop where
  clean : Clean s.log
  rounds : s.rounds = 0
  owned : ∀ m g, s.pointer m = some g → g = 0
  deleted : ∀ o, .deleted o ∉ s.log
  created : ∀ o, .created o ∈ s.log → o.round = 0
  running : ∀ g ∈ s.running, s.pointer .fillerThread_ = some g
  clients : s.clients = []

theorem First.live (h : First s) (m : Member) : s.Live m := fun _ _ => h.deleted _

theorem First.call (h : First s) (m : Member) : First (s.call m) where
  clean := clean_call h.clean (h.live m)
  rounds := (frame_call s m).rounds.trans h.rounds
  owned m' g hg := by
    rw [(frame_call s m).pointer] at hg
    exact h.owned m' g hg
  deleted o := by
    rw [deleted_call]
    exact h.deleted o
  created o ho := h.created o (((frame_call s m).created o).mp ho)
  running g hg := by
    rw [running_call] at hg
    rw [(frame_call s m).pointer]
    exact h.running g hg
  clients := (frame_call s m).clients.trans h.clients

theorem First.new (h : First s) (m : Member) : First (s.new m) := by
  have hself : ∀ m' g, s.pointer m' = some g → (s.new m).pointer m' = some g := by
    intro m' g hg
    rcases eq_or_ne m' m with rfl | hne
    · simp [Pointers.new, h.rounds, h.owned m' g hg]
    · simp [Pointers.new, hne, hg]
  refine ⟨h.clean.concat trivial, h.rounds, ?_, ?_, ?_, ?_, h.clients⟩
  · intro m' g hg
    rcases eq_or_ne m' m with rfl | hne
    · simpa [Pointers.new, h.rounds, eq_comm] using hg
    · exact h.owned m' g (by simpa [Pointers.new, hne] using hg)
  · intro o
    simpa [Pointers.new] using h.deleted o
  · intro o ho
    rcases List.mem_append.mp ho with hbefore | hnew
    · exact h.created o hbefore
    · cases List.mem_singleton.mp hnew
      exact h.rounds
  · intro g hg
    exact hself .fillerThread_ g (h.running g hg)

theorem First.enter (h : First s) (c : Call) : First (s.enter c) := by
  cases c with
  | configureStorage => exact h.call .storage_
  | configureFiller => exact h.call .filler_
  | _ => exact h

theorem First.complete (h : First s) (c : Call) : First (s.complete c) := by
  cases c with
  | newStorage => exact h.new .storage_
  | newFiller => exact h.new .filler_
  | newThread =>
    refine { h.new .fillerThread_ with running := fun g hg => ?_ }
    rcases List.mem_cons.mp hg with rfl | hmem
    · simp [Pointers.complete, Pointers.new]
    · exact (h.new .fillerThread_).running g hmem
  | newServer => exact h.new .server_
  | _ => exact h

theorem First.perform (h : First s) (fails : Option Call) (calls : List Call) :
    First (s.perform fails calls).1 := by
  induction calls generalizing s with
  | nil => exact h
  | cons c cs ih =>
    simp only [Pointers.perform]
    split
    · exact h.enter c
    · exact ih ((h.enter c).complete c)

/-! ## What a careful run keeps -/

/-- What a move of a run has to meet. -/
def Careful (s : Pointers) : Move → Prop
  | .round fails => fails = none ∨ s.rounds = 0
  | .onAccept g _ | .onRead g => g + 1 = s.rounds
  | _ => True

instance (s : Pointers) : (move : Move) → Decidable (s.Careful move)
  | .round _ => inferInstanceAs (Decidable (_ ∨ _))
  | .onAccept .. | .onRead _ => inferInstanceAs (Decidable (_ = _))
  | .loggerThrows | .returned | .onExit | .onConfig | .onExpirate | .fillerWorks _ | .destroy =>
      isTrue trivial

/-- The pointers own what the last round has made, and all that an earlier round has made has been
deleted. -/
structure Inv (s : Pointers) : Prop where
  clean : Clean s.log
  owned : ∀ m g, s.pointer m = some g → g + 1 = s.rounds
  older : ∀ o, .deleted o ∈ s.log → o.round + 1 < s.rounds
  gone : ∀ o : Object, o.round + 1 < s.rounds → .deleted o ∈ s.log
  created : ∀ o, .created o ∈ s.log → o.round < s.rounds
  running : ∀ g ∈ s.running, s.pointer .fillerThread_ = some g
  clients : ∀ g ∈ s.clients, g < s.rounds
  served : s.phase ≠ .ended → s.rounds ≠ 0 → ∀ m, s.pointer m ≠ none

theorem inv_init : Inv init where
  clean := clean_nil
  owned m g hg := by cases hg
  older o ho := by cases ho
  gone o ho := absurd ho (Nat.not_lt_zero _)
  created o ho := by cases ho
  running g hg := by cases hg
  clients g hg := by cases hg
  served _ hrounds := absurd rfl hrounds

/-- What the last round has made has not been deleted. -/
theorem Inv.last (h : Inv s) {o : Object} (ho : o.round + 1 = s.rounds) :
    .deleted o ∉ s.log := by
  intro hdeleted
  have hlt := h.older o hdeleted
  omega

theorem Inv.live (h : Inv s) (m : Member) : s.Live m := fun g hg => h.last (h.owned m g hg)

/-- A method of an object of the last round is called. -/
theorem Inv.callObject (h : Inv s) {o : Object} (ho : o.round + 1 = s.rounds) :
    Inv (s.callObject o) :=
  { h with
    clean := h.clean.concat (h.last ho)
    older := fun o' ho' => h.older o' ((deleted_callObject s o' o).mp ho')
    gone := fun o' ho' => (deleted_callObject s o' o).mpr (h.gone o' ho')
    created := fun o' ho' => h.created o' (((frame_callObject s o).created o').mp ho') }

theorem Inv.call (h : Inv s) (m : Member) : Inv (s.call m) := by
  unfold Pointers.call
  split
  · rename_i g hg
    exact h.callObject (h.owned m g hg)
  · exact h

/-- What a round finds after `reset_server`. -/
structure Reset (s : Pointers) : Prop where
  clean : Clean s.log
  older : ∀ o, .deleted o ∈ s.log → o.round < s.rounds
  created : ∀ o, .created o ∈ s.log → o.round < s.rounds
  running : s.running = []
  clients : ∀ g ∈ s.clients, g < s.rounds

theorem Inv.reset (h : Inv s) : Reset s.resetServer := by
  have hframe := frame_resetServer s
  refine ⟨clean_resetServer h.clean h.live, ?_, ?_, running_resetServer h.running, ?_⟩
  · intro o ho
    rw [hframe.rounds]
    rcases (deleted_resetServer s o).mp ho with hdeleted | howned
    · have hlt := h.older o hdeleted
      omega
    · have hlast := h.owned o.member o.round howned
      omega
  · intro o ho
    rw [hframe.rounds]
    exact h.created o ((hframe.created o).mp ho)
  · rw [hframe.rounds, hframe.clients]
    exact h.clients

/-- All that the rounds have made is deleted. -/
theorem Inv.gone_resetServer (h : Inv s) (hphase : s.phase ≠ .ended) {o : Object}
    (ho : o.round < s.rounds) : .deleted o ∈ s.resetServer.log := by
  rw [deleted_resetServer]
  rcases Nat.lt_or_eq_of_le ho with hlt | heq
  · exact .inl (h.gone o hlt)
  · obtain ⟨g, hg⟩ := Option.ne_none_iff_exists'.mp (h.served hphase (by omega) o.member)
    have hlast := h.owned o.member g hg
    obtain rfl : o.round = g := by omega
    exact .inr hg

/-- A round that throws in no call makes everything anew. -/
theorem Inv.round_none (h : Inv s) (hphase : s.phase ≠ .ended) : Inv (s.round none) := by
  have hreset := h.reset
  have hrounds : s.resetServer.rounds = s.rounds := (frame_resetServer s).rounds
  have hfresh : ∀ m, .deleted ⟨m, s.rounds⟩ ∉ s.resetServer.log := by
    intro m hdeleted
    have hlt := hreset.older _ hdeleted
    rw [hrounds] at hlt
    exact Nat.lt_irrefl _ hlt
  have hmade : Inv
      { s.resetServer with
        pointer := fun _ => some s.rounds
        running := [s.rounds]
        log := s.resetServer.log ++ made s.rounds
        rounds := s.rounds + 1
        stopped := false
        phase := .serving } := by
    constructor
    · exact clean_append.mpr ⟨hreset.clean, by simp [made, Legal, Allowed, hfresh]⟩
    · intro m g hg
      cases hg
      rfl
    · intro o ho
      have hbefore : .deleted o ∈ s.resetServer.log := by simpa [made] using ho
      have hlt := hreset.older o hbefore
      rw [hrounds] at hlt
      exact Nat.succ_lt_succ hlt
    · intro o ho
      exact List.mem_append_left _ (h.gone_resetServer hphase (Nat.lt_of_succ_lt_succ ho))
    · intro o ho
      rcases List.mem_append.mp ho with hbefore | hnew
      · have hlt := hreset.created o hbefore
        rw [hrounds] at hlt
        exact Nat.lt_succ_of_lt hlt
      · exact Nat.lt_succ_of_le (Nat.le_of_eq (mem_made hnew))
    · intro g hg
      rw [List.mem_singleton.mp hg]
    · intro g hg
      have hlt := hreset.clients g hg
      rw [hrounds] at hlt
      exact Nat.lt_succ_of_lt hlt
    · exact fun _ _ _ => Option.some_ne_none _
  have hserved := hmade.call .server_
  simpa only [round, createServer, perform_none, hrounds, hreset.running, Pointers.call,
    Pointers.callObject] using hserved

theorem Reset.first (h : Reset s) (hrounds : s.rounds = 0)
    (howned : ∀ m g, s.pointer m = some g → g = 0) : First s where
  clean := h.clean
  rounds := hrounds
  owned := howned
  deleted o ho := by
    have hlt := h.older o ho
    omega
  created o ho := by
    have hlt := h.created o ho
    omega
  running g hg := by
    rw [h.running] at hg
    cases hg
  clients := by
    apply List.eq_nil_iff_forall_not_mem.mpr
    intro g hg
    have hlt := h.clients g hg
    omega

/-- The round that throws leaves the loop, and `server_` as `reset_server` has left it. -/
theorem round_some (s : Pointers) (c : Call) :
    s.round (some c) =
        { (s.resetServer.perform (some c) Call.all).1 with
          rounds := (s.resetServer.perform (some c) Call.all).1.rounds + 1
          phase := .ended } ∧
      (s.round (some c)).pointer .server_ = s.pointer .server_ := by
  have hlast : Call.newServer ∉ Call.all.dropLast := by decide
  obtain ⟨hthrown, hserver⟩ := server_perform hlast (mem_all c) s.resetServer
  have hthrown' : (s.resetServer.perform (some c) Call.all).2 = false := hthrown
  have heq : s.round (some c) =
      { (s.resetServer.perform (some c) Call.all).1 with
        rounds := (s.resetServer.perform (some c) Call.all).1.rounds + 1
        phase := .ended } := by
    simp only [round, createServer, hthrown']
  refine ⟨heq, ?_⟩
  rw [heq, ← (frame_resetServer s).pointer]
  exact hserver

/-- The first round may throw: all that it has made is still owned. -/
theorem Inv.round_first (h : Inv s) (hrounds : s.rounds = 0) (c : Call) :
    Inv (s.round (some c)) := by
  have hfirst : First s.resetServer := by
    refine h.reset.first ((frame_resetServer s).rounds.trans hrounds) ?_
    intro m g hg
    rw [(frame_resetServer s).pointer] at hg
    have hlast := h.owned m g hg
    omega
  have hmade := hfirst.perform (some c) Call.all
  rw [(round_some s c).1]
  constructor
  · exact hmade.clean
  · intro m g hg
    dsimp only
    rw [hmade.rounds, hmade.owned m g hg]
  · exact fun o ho => absurd ho (hmade.deleted o)
  · intro o ho
    dsimp only at ho
    rw [hmade.rounds] at ho
    omega
  · intro o ho
    dsimp only
    rw [hmade.created o ho]
    exact Nat.succ_pos _
  · exact hmade.running
  · intro g hg
    dsimp only at hg
    rw [hmade.clients] at hg
    cases hg
  · exact fun hphase => absurd rfl hphase

/-- `~Daemon` will delete a server that has been deleted. -/
structure Doomed (s : Pointers) : Prop where
  phase : s.phase = .ended
  server : ∃ g, s.pointer .server_ = some g ∧ .deleted ⟨.server_, g⟩ ∈ s.log

/-- A later round that throws leaves `server_` dangling. -/
theorem Inv.doomed (h : Inv s) (hphase : s.phase ≠ .ended) (hrounds : s.rounds ≠ 0) (c : Call) :
    Doomed (s.round (some c)) := by
  obtain ⟨heq, hserver⟩ := round_some s c
  obtain ⟨g, hg⟩ := Option.ne_none_iff_exists'.mp (h.served hphase hrounds .server_)
  refine ⟨by rw [heq], g, hserver.trans hg, ?_⟩
  rw [heq]
  apply (log_perform (some c) s.resetServer Call.all).mem
  rw [deleted_resetServer]
  exact .inr hg

/-! ## Runs -/

theorem step_eq_ok {move : Move} : s.step move = .ok t ↔ s.Enabled move ∧ t = s.apply move := by
  unfold step
  split
  · rename_i henabled
    simp [henabled, eq_comm]
  · rename_i henabled
    simp [henabled]

theorem log_createServer (s : Pointers) (fails : Option Call) :
    s.log <+: (s.createServer fails).1.log :=
  (frame_resetServer s).log.trans (log_perform fails s.resetServer Call.all)

/-- The log only grows. -/
theorem log_apply (s : Pointers) (move : Move) : s.log <+: (s.apply move).log := by
  cases move with
  | round fails =>
    have hlog := log_createServer s fails
    simp only [apply, round]
    split
    · rename_i r heq
      rw [heq] at hlog
      exact hlog.trans (frame_call r .server_).log
    · rename_i r heq
      rw [heq] at hlog
      exact hlog
  | loggerThrows => exact List.prefix_refl s.log
  | returned => exact List.prefix_refl s.log
  | onExit => exact (frame_call s .server_).log
  | onConfig => exact (frame_call s .server_).log
  | onExpirate => exact (frame_call s .storage_).log
  | onAccept g error => exact (frame_callObject s _).log
  | onRead g => exact (frame_callObject s _).log
  | fillerWorks g => exact (frame_callObject s _).log.trans (frame_callObject _ _).log
  | destroy => exact (frame_resetServer s).log

/-- A careful move but `~Daemon` keeps the invariant. -/
theorem Inv.apply (h : Inv s) {move : Move} (henabled : s.Enabled move) (hcareful : s.Careful move)
    (hmove : move ≠ .destroy) : Inv (s.apply move) := by
  cases move with
  | round fails =>
    cases fails with
    | none =>
      apply h.round_none
      rw [henabled.1]
      decide
    | some c =>
      rcases hcareful with hnone | hrounds
      · cases hnone
      · exact h.round_first hrounds c
  | loggerThrows => exact { h with served := fun hphase => absurd rfl hphase }
  | returned =>
    have hserved : s.phase ≠ .ended := by
      rw [henabled.1]
      decide
    exact { h with served := fun _ => h.served hserved }
  | onExit => exact { h.call .server_ with }
  | onConfig => exact { h.call .server_ with }
  | onExpirate => exact h.call .storage_
  | onAccept g error =>
    have hcalled := h.callObject (o := ⟨.server_, g⟩) hcareful
    refine { hcalled with clients := fun g' hg' => ?_ }
    have hclients : g' ∈ if error then s.clients else g :: s.clients := hg'
    split at hclients
    · exact h.clients g' hclients
    · rcases List.mem_cons.mp hclients with rfl | hmem
      · exact h.created _ henabled.2
      · exact h.clients g' hmem
  | onRead g => exact h.callObject (o := ⟨.storage_, g⟩) hcareful
  | fillerWorks g =>
    have hround : g + 1 = s.rounds := h.owned .fillerThread_ g (h.running g henabled.2)
    exact (h.callObject (o := ⟨.filler_, g⟩) hround).callObject (o := ⟨.storage_, g⟩) hround
  | destroy => exact absurd rfl hmove

/-- A move that is not careful calls what has been deleted, or leaves `server_` dangling. -/
theorem Inv.careless (h : Inv s) {move : Move} (henabled : s.Enabled move)
    (hcareless : ¬ s.Careful move) : Doomed (s.apply move) ∨ ¬ Clean (s.apply move).log := by
  cases move with
  | round fails =>
    obtain ⟨hfails, hrounds⟩ := not_or.mp hcareless
    obtain ⟨c, rfl⟩ := Option.ne_none_iff_exists'.mp hfails
    refine .inl (h.doomed ?_ hrounds c)
    rw [henabled.1]
    decide
  | onAccept g error =>
    have hlt : g < s.rounds := h.created _ henabled.2
    have hdeleted := h.gone ⟨.server_, g⟩ (Nat.lt_of_le_of_ne hlt hcareless)
    exact .inr (fun hclean => hclean.allowed hdeleted)
  | onRead g =>
    have hlt : g < s.rounds := h.clients g henabled.2
    have hdeleted := h.gone ⟨.storage_, g⟩ (Nat.lt_of_le_of_ne hlt hcareless)
    exact .inr (fun hclean => hclean.allowed hdeleted)
  | _ => exact absurd trivial hcareless

/-- Only `~Daemon` comes after a round that has thrown, whatever the filler thread does. -/
theorem Doomed.apply (h : Doomed s) {move : Move} (henabled : s.Enabled move) :
    Doomed (s.apply move) ∨ ¬ Clean (s.apply move).log := by
  obtain ⟨g, hg, hdeleted⟩ := h.server
  cases move with
  | fillerWorks k =>
    refine .inl ⟨h.phase, g, hg, ?_⟩
    exact (log_apply s (.fillerWorks k)).mem hdeleted
  | destroy => exact .inr (fun hclean => live_of_clean_resetServer hclean g hg hdeleted)
  | round fails => cases h.phase.symm.trans henabled.1
  | loggerThrows => cases h.phase.symm.trans henabled.1
  | returned => cases h.phase.symm.trans henabled.1
  | onExit => cases h.phase.symm.trans henabled
  | onConfig => cases h.phase.symm.trans henabled
  | onExpirate => cases h.phase.symm.trans henabled
  | onAccept k error => cases h.phase.symm.trans henabled.1
  | onRead k => cases h.phase.symm.trans henabled.1

/-- Nothing comes after `~Daemon`. -/
theorem not_enabled_destroyed (h : s.phase = .destroyed) (move : Move) : ¬ s.Enabled move := by
  cases move <;> simp [Enabled, h]

/-- A run whose moves were all careful keeps the invariant until `~Daemon`, which is clean; a run
with another move cannot be clean when it ends. -/
theorem run_cases {moves : List Move} (hrun : Run.exec step init moves = .ok s) :
    (Run.Every step Careful init moves ∧ Clean s.log ∧ (s.phase = .destroyed ∨ Inv s)) ∨
      (¬ Run.Every step Careful init moves ∧ (Doomed s ∨ ¬ Clean s.log)) := by
  refine Run.exec_induction
    (P := fun moves s =>
      (Run.Every step Careful init moves ∧ Clean s.log ∧ (s.phase = .destroyed ∨ Inv s)) ∨
        (¬ Run.Every step Careful init moves ∧ (Doomed s ∨ ¬ Clean s.log))) ?_ ?_ hrun
  · exact .inl ⟨trivial, clean_nil, .inr inv_init⟩
  · intro moves s move t hmoves hcases hstep
    obtain ⟨henabled, rfl⟩ := step_eq_ok.mp hstep
    rw [Run.every_concat hmoves]
    rcases hcases with ⟨hevery, -, hdestroyed | hinv⟩ | ⟨hevery, hdoomed | hdirty⟩
    · exact absurd henabled (not_enabled_destroyed hdestroyed move)
    · by_cases hcareful : s.Careful move
      · refine .inl ⟨⟨hevery, hcareful⟩, ?_⟩
        by_cases hmove : move = .destroy
        · subst hmove
          exact ⟨clean_resetServer hinv.clean hinv.live, .inl rfl⟩
        · have hnext := hinv.apply henabled hcareful hmove
          exact ⟨hnext.clean, .inr hnext⟩
      · exact .inr ⟨fun hboth => hcareful hboth.2, hinv.careless henabled hcareful⟩
    · exact .inr ⟨fun hboth => hevery hboth.1, hdoomed.apply henabled⟩
    · refine .inr ⟨fun hboth => hevery hboth.1, .inr (fun hclean => hdirty ?_)⟩
      exact hclean.of_prefix (log_apply s move)

/-- Every object is deleted at most once and left alone afterwards if and only if `create_server`
throws in no round but the first, and no handler of an earlier round is executed. -/
theorem run_clean_iff {moves : List Move} (hrun : Run.exec step init moves = .ok s)
    (hend : s.phase = .destroyed) :
    Clean s.log ↔ Run.Every step Careful init moves := by
  rcases run_cases hrun with ⟨hevery, hclean, -⟩ | ⟨hevery, hdoomed | hdirty⟩
  · exact iff_of_true hclean hevery
  · cases hdoomed.phase.symm.trans hend
  · exact iff_of_false hdirty hevery

/-- A reload in between, and every thread at work. -/
theorem run_clean_reload :
    ∃ s, Run.exec step init
        [.round none, .onAccept 0 false, .onRead 0, .fillerWorks 0, .onConfig, .returned,
          .round none, .onExpirate, .onExit, .returned, .destroy] = .ok s ∧
      s.phase = .destroyed ∧ Clean s.log := by
  obtain ⟨s, hrun, hend⟩ := Run.yields_iff.mp (by decide +kernel : Run.Yields step
    (fun s => s.phase = .destroyed) init
    [.round none, .onAccept 0 false, .onRead 0, .fillerWorks 0, .onConfig, .returned,
      .round none, .onExpirate, .onExit, .returned, .destroy])
  exact ⟨s, hrun, hend, (run_clean_iff hrun hend).mpr (by decide +kernel)⟩

/-- The reloaded configuration names no filler: `~Daemon` deletes again what the second round has
deleted. -/
theorem run_deleted_twice :
    ∃ s, Run.exec step init
        [.round none, .onConfig, .returned, .round (some .filler), .destroy] = .ok s ∧
      s.phase = .destroyed ∧ ¬ Clean s.log := by
  obtain ⟨s, hrun, hend, hcount⟩ := Run.yields_iff.mp (by decide +kernel : Run.Yields step
    (fun s => s.phase = .destroyed ∧ s.log.count (.deleted ⟨.server_, 0⟩) = 2) init
    [.round none, .onConfig, .returned, .round (some .filler), .destroy])
  refine ⟨s, hrun, hend, fun hclean => ?_⟩
  have honce := hclean.deleted_once ⟨.server_, 0⟩
  omega

end Pointers

end Swordfish.Ownership
