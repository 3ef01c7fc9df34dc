import Swordfish.Daemon.Config
import Swordfish.Lib.Run

/-!
# The log

The core of the log library with the sinks that `logger.cpp` registers there: `Daemon::init_logger`
(`daemon-src/src/daemon.cpp:72-97`) on the main thread, before each server, and
`logger_set_severity_level`, which any worker calls for a `log_level` command. Records come from
every thread at any time, also from the filler while `init_logger` runs; a record is filtered and
delivered as the core is when it is opened. What the core does with a record when it has no sink is
left out, and the standard output stays open.
-/

namespace Swordfish

/-- The number of a level (`log_level.hpp:18-27`): the lower, the more severe. -/
def LogLevel.toNat : LogLevel → Nat
  | emerg => 0
  | alert => 1
  | crit => 2
  | error => 3
  | warn => 4
  | notice => 5
  | info => 6
  | debug => 7

/-- Where a record can go. -/
inductive Destination where
  | stdout
  | file (path : Str)
  | syslog
  deriving DecidableEq, Repr

/-- What a sink feeds: a `text_ostream_backend`, by its address, or a `syslog_backend`. -/
inductive Backend where
  | text (addr : Nat)
  | syslog
  deriving DecidableEq, Repr

/-- A `synchronous_sink`. -/
structure Sink where
  addr : Nat
  backend : Backend
  deriving DecidableEq, Repr

/-- The core, the streams of each text backend, and the pointers of `logger.cpp:28-31`. -/
structure Logger where
  sinks : List Sink
  filter : Option LogLevel
  streams : Nat → List Destination
  allocated : Nat
  textStreamBackend : Option Nat
  syslogBackend : Bool
  textStreamSink : Option Sink
  syslogSink : Option Sink

namespace Logger

/-- The process before the first call. -/
def init : Logger :=
  { sinks := []
    filter := none
    streams := fun _ => []
    allocated := 0
    textStreamBackend := none
    syslogBackend := false
    textStreamSink := none
    syslogSink := none }

/-- `core::reset_filter`. -/
def resetFilter (l : Logger) : Logger := { l with filter := none }

/-- `core::set_filter` with `Severity <= level`. -/
def setFilter (l : Logger) (level : LogLevel) : Logger := { l with filter := some level }

/-- The first half of `logger_backends_init_start` (`logger.cpp:128-132`). -/
def removeTextSink (l : Logger) : Logger :=
  match l.textStreamSink with
  | some sink =>
      { l with sinks := l.sinks.erase sink, textStreamSink := none, textStreamBackend := none }
  | none => l

/-- The second half (`logger.cpp:134-138`). -/
def removeSyslogSink (l : Logger) : Logger :=
  match l.syslogSink with
  | some sink =>
      { l with sinks := l.sinks.erase sink, syslogSink := none, syslogBackend := false }
  | none => l

/-- `logger_syslog_sink_init`. -/
def syslogSinkInit (l : Logger) : Logger := { l with syslogBackend := true }

/-- `add_stream` on the text backend, which is made if there is none (`logger.cpp:81-85`). -/
def addStream (l : Logger) (destination : Destination) : Logger :=
  match l.textStreamBackend with
  | some a =>
      { l with streams := Function.update l.streams a (l.streams a ++ [destination]) }
  | none =>
      { l with
        streams := Function.update l.streams l.allocated [destination]
        allocated := l.allocated + 1
        textStreamBackend := some l.allocated }

/-- `logger_stdout_sink_init`. -/
def stdoutSinkInit (l : Logger) : Logger := l.addStream .stdout

/-- `logger_file_sink_init`: `opened` is what `check_file` returns. -/
def fileSinkInit (l : Logger) (path : Str) (opened : Bool) : Logger :=
  if opened then l.addStream (.file path) else l

/-- The first half of `logger_backends_init_commit` (`logger.cpp:147-163`). -/
def commitTextSink (l : Logger) : Logger :=
  match l.textStreamBackend with
  | some a =>
      { l with
        sinks := l.sinks ++ [⟨l.allocated, .text a⟩]
        allocated := l.allocated + 1
        textStreamSink := some ⟨l.allocated, .text a⟩ }
  | none => l

/-- The second half (`logger.cpp:165-180`). -/
def commitSyslogSink (l : Logger) : Logger :=
  if l.syslogBackend then
    { l with
      sinks := l.sinks ++ [⟨l.allocated, .syslog⟩]
      allocated := l.allocated + 1
      syslogSink := some ⟨l.allocated, .syslog⟩ }
  else l

/-- The destinations of a sink. -/
def destinations (l : Logger) (sink : Sink) : List Destination :=
  match sink.backend with
  | .text a => l.streams a
  | .syslog => [.syslog]

/-- The destinations of all sinks. -/
def targets (l : Logger) : List Destination := l.sinks.flatMap l.destinations

/-- The filter lets a record of this severity through. -/
def Passes (l : Logger) (severity : LogLevel) : Prop :=
  ∀ level ∈ l.filter, severity.toNat ≤ level.toNat

instance (l : Logger) (severity : LogLevel) : Decidable (l.Passes severity) :=
  inferInstanceAs (Decidable (∀ level ∈ l.filter, _))

/-- Where a record of this severity goes, each destination as often as it is written there. -/
def deliver (l : Logger) (severity : LogLevel) : List Destination :=
  if l.Passes severity then l.targets else []

end Logger

/-! ## The daemon's calls -/

/-- Where the main thread stands in `init_logger`, or that it is in `server_->run()`. -/
inductive InitPc where
  | removeText
  | removeSyslog
  | syslog
  | stdout
  | file
  | resetFilter
  | setFilter
  | commitText
  | commitSyslog
  | running
  deriving DecidableEq, Repr

/-- The log, with the local `fl` of `init_logger`, and the levels of the workers that are between
`reset_filter` and `set_filter`. -/
structure Logging where
  logger : Logger
  pc : InitPc
  cfg_ : Config
  fl : Bool
  pending : List LogLevel

namespace Logging

/-- What happens: `init_logger` goes on; a worker resets the filter for a level, and sets it; or the
loop of `Daemon::run` calls `init_logger` for the next server. -/
inductive Move where
  | go (opened : Bool)
  | resetFilter (level : LogLevel)
  | setFilter (i : Nat)
  | reload (cfg_ : Config)
  deriving DecidableEq, Repr

/-- The first call of `init_logger`. -/
def start (cfg_ : Config) : Logging :=
  { logger := .init, pc := .removeText, cfg_ := cfg_, fl := false, pending := [] }

/-- One move, or an error when it cannot come. `Server::run` joins its workers before it returns. -/
def step (s : Logging) : Move → Except Unit Logging
  | .go opened =>
      match s.pc with
      | .removeText => .ok { s with logger := s.logger.removeTextSink, pc := .removeSyslog }
      | .removeSyslog => .ok { s with logger := s.logger.removeSyslogSink, pc := .syslog }
      | .syslog =>
          .ok { s with
            logger := if s.cfg_.isLogSyslog then s.logger.syslogSinkInit else s.logger
            pc := .stdout }
      | .stdout =>
          .ok { s with
            logger := if s.cfg_.isLogStdout then s.logger.stdoutSinkInit else s.logger
            pc := .file }
      | .file =>
          if s.cfg_.isLogFile then
            .ok { s with
              logger := s.logger.fileSinkInit s.cfg_.logFilePath opened
              fl := opened
              pc := .resetFilter }
          else .ok { s with pc := .resetFilter }
      | .resetFilter => .ok { s with logger := s.logger.resetFilter, pc := .setFilter }
      | .setFilter =>
          .ok { s with logger := s.logger.setFilter s.cfg_.logLevel, pc := .commitText }
      | .commitText => .ok { s with logger := s.logger.commitTextSink, pc := .commitSyslog }
      | .commitSyslog => .ok { s with logger := s.logger.commitSyslogSink, pc := .running }
      | .running => .error ()
  | .resetFilter level =>
      if s.pc = .running then
        .ok { s with logger := s.logger.resetFilter, pending := s.pending ++ [level] }
      else .error ()
  | .setFilter i =>
      match s.pending[i]? with
      | some level =>
          .ok { s with logger := s.logger.setFilter level, pending := s.pending.eraseIdx i }
      | none => .error ()
  | .reload cfg_ =>
      if s.pc = .running ∧ s.pending = [] then
        .ok { s with pc := .removeText, cfg_ := cfg_, fl := false }
      else .error ()

/-- The level that a move sets. -/
def sets (s : Logging) : Move → Option LogLevel
  | .go _ => if s.pc = .setFilter then some s.cfg_.logLevel else none
  | .setFilter i => s.pending[i]?
  | .resetFilter _ | .reload _ => none

/-- The stream that a configuration asks for on the standard output. -/
def stdoutStreams (cfg_ : Config) : List Destination := if cfg_.isLogStdout then [.stdout] else []

/-- The stream that it asks for to a file, which was opened or was not. -/
def fileStreams (cfg_ : Config) (fl : Bool) : List Destination :=
  if cfg_.isLogFile && fl then [.file cfg_.logFilePath] else []

/-- Its streams. -/
def streams (cfg_ : Config) (fl : Bool) : List Destination :=
  stdoutStreams cfg_ ++ fileStreams cfg_ fl

/-- All destinations that a configuration asks for. -/
def destinations (cfg_ : Config) (fl : Bool) : List Destination :=
  streams cfg_ fl ++ if cfg_.isLogSyslog then [.syslog] else []

end Logging

/-! ## Sinks and backends -/

namespace Logger

variable {l m : Logger} {text syslog on : Bool} {streams : List Destination}

/-- The text backend has these streams, or is absent for want of a stream. Its sink is there once
it is committed. -/
inductive TextSide (l : Logger) : Bool → List Destination → Prop
  | absent {done : Bool} (hbackend : l.textStreamBackend = none) (hsink : l.textStreamSink = none) :
      TextSide l done []
  | waiting {a : Nat} {streams : List Destination} (hbackend : l.textStreamBackend = some a)
      (ha : a < l.allocated) (hstreams : l.streams a = streams) (hsink : l.textStreamSink = none) :
      TextSide l false streams
  | committed {a addr : Nat} {streams : List Destination} (hbackend : l.textStreamBackend = some a)
      (ha : a < l.allocated) (hstreams : l.streams a = streams)
      (hsink : l.textStreamSink = some ⟨addr, .text a⟩) : TextSide l true streams

/-- The same for the backend of the system log, which is there or not. -/
inductive SyslogSide (l : Logger) : Bool → Bool → Prop
  | absent {done : Bool} (hbackend : l.syslogBackend = false) (hsink : l.syslogSink = none) :
      SyslogSide l done false
  | waiting (hbackend : l.syslogBackend = true) (hsink : l.syslogSink = none) :
      SyslogSide l false true
  | committed {addr : Nat} (hbackend : l.syslogBackend = true)
      (hsink : l.syslogSink = some ⟨addr, .syslog⟩) : SyslogSide l true true

/-- Both sides, and the sinks of the core are those that the pointers lead to. -/
structure Sides (l : Logger) (text : Bool) (streams : List Destination) (syslog on : Bool) :
    Prop where
  textSide : TextSide l text streams
  syslogSide : SyslogSide l syslog on
  sinks : l.sinks = l.textStreamSink.toList ++ l.syslogSink.toList

theorem Sides.init (text syslog : Bool) : Sides init text [] syslog false :=
  ⟨.absent rfl rfl, .absent rfl rfl, rfl⟩

theorem TextSide.of_same (h : TextSide l text streams)
    (hbackend : m.textStreamBackend = l.textStreamBackend)
    (hsink : m.textStreamSink = l.textStreamSink) (hstreams : m.streams = l.streams)
    (hallocated : l.allocated ≤ m.allocated) : TextSide m text streams := by
  cases h with
  | absent hbackend' hsink' => exact .absent (hbackend.trans hbackend') (hsink.trans hsink')
  | waiting hbackend' ha hstreams' hsink' =>
    exact .waiting (hbackend.trans hbackend') (Nat.lt_of_lt_of_le ha hallocated)
      (hstreams ▸ hstreams') (hsink.trans hsink')
  | committed hbackend' ha hstreams' hsink' =>
    exact .committed (hbackend.trans hbackend') (Nat.lt_of_lt_of_le ha hallocated)
      (hstreams ▸ hstreams') (hsink.trans hsink')

theorem SyslogSide.of_same (h : SyslogSide l syslog on)
    (hbackend : m.syslogBackend = l.syslogBackend) (hsink : m.syslogSink = l.syslogSink) :
    SyslogSide m syslog on := by
  cases h with
  | absent hbackend' hsink' => exact .absent (hbackend.trans hbackend') (hsink.trans hsink')
  | waiting hbackend' hsink' => exact .waiting (hbackend.trans hbackend') (hsink.trans hsink')
  | committed hbackend' hsink' => exact .committed (hbackend.trans hbackend') (hsink.trans hsink')

theorem TextSide.sink_eq_none (h : TextSide l false streams) : l.textStreamSink = none := by
  cases h with
  | absent hbackend hsink => exact hsink
  | waiting hbackend ha hstreams hsink => exact hsink

theorem SyslogSide.sink_eq_none (h : SyslogSide l false on) : l.syslogSink = none := by
  cases h with
  | absent hbackend hsink => exact hsink
  | waiting hbackend hsink => exact hsink

/-- Before the commit there is no sink. -/
theorem Sides.sinks_eq_nil (h : Sides l false streams false on) : l.sinks = [] := by
  rw [h.sinks, h.textSide.sink_eq_none, h.syslogSide.sink_eq_none]
  rfl

/-- What is committed is where records go. -/
theorem Sides.targets (h : Sides l text streams syslog on) :
    l.targets = (if text then streams else []) ++ if syslog && on then [.syslog] else [] := by
  have htext : l.textStreamSink.toList.flatMap l.destinations = if text then streams else [] := by
    cases h.textSide with
    | absent hbackend hsink => simp [hsink]
    | waiting hbackend ha hstreams hsink => simp [hsink]
    | committed hbackend ha hstreams hsink => simp [hsink, destinations, hstreams]
  have hsyslog : l.syslogSink.toList.flatMap l.destinations =
      if syslog && on then [.syslog] else [] := by
    cases h.syslogSide with
    | absent hbackend hsink => simp [hsink]
    | waiting hbackend hsink => simp [hsink]
    | committed hbackend hsink => simp [hsink, destinations]
  rw [Logger.targets, h.sinks, List.flatMap_append, htext, hsyslog]

/-- The filter is none of the sinks' business. -/
theorem Sides.withFilter (h : Sides l text streams syslog on) (filter : Option LogLevel) :
    Sides { l with filter := filter } text streams syslog on :=
  ⟨h.textSide.of_same rfl rfl rfl (Nat.le_refl _), h.syslogSide.of_same rfl rfl, h.sinks⟩

theorem removeTextSink_sinks (h : l.sinks = []) : l.removeTextSink.sinks = [] := by
  unfold Logger.removeTextSink
  split
  · rw [h]
    rfl
  · exact h

@[simp] theorem removeTextSink_filter (l : Logger) : l.removeTextSink.filter = l.filter := by
  unfold Logger.removeTextSink
  split <;> rfl

@[simp] theorem removeSyslogSink_filter (l : Logger) : l.removeSyslogSink.filter = l.filter := by
  unfold Logger.removeSyslogSink
  split <;> rfl

@[simp] theorem addStream_filter (l : Logger) (destination : Destination) :
    (l.addStream destination).filter = l.filter := by
  unfold Logger.addStream
  split <;> rfl

@[simp] theorem fileSinkInit_filter (l : Logger) (path : Str) (opened : Bool) :
    (l.fileSinkInit path opened).filter = l.filter := by
  unfold fileSinkInit
  split
  · exact addStream_filter l _
  · rfl

@[simp] theorem commitTextSink_filter (l : Logger) : l.commitTextSink.filter = l.filter := by
  unfold Logger.commitTextSink
  split <;> rfl

@[simp] theorem commitSyslogSink_filter (l : Logger) : l.commitSyslogSink.filter = l.filter := by
  unfold Logger.commitSyslogSink
  split <;> rfl

theorem Sides.removeTextSink (h : Sides l true streams syslog on) :
    Sides l.removeTextSink false [] syslog on := by
  have hsinks := h.sinks
  cases h.textSide with
  | absent hbackend hsink =>
    rw [Logger.removeTextSink, hsink]
    exact ⟨.absent hbackend hsink, h.syslogSide, hsinks⟩
  | @committed a addr streams hbackend ha hstreams hsink =>
    rw [hsink] at hsinks
    have herase : l.sinks.erase ⟨addr, .text a⟩ = l.syslogSink.toList := by
      rw [hsinks]
      exact List.erase_cons_head ..
    simp only [Logger.removeTextSink, hsink]
    exact ⟨.absent rfl rfl, h.syslogSide.of_same rfl rfl, herase⟩

theorem Sides.removeSyslogSink (h : Sides l false streams true on) :
    Sides l.removeSyslogSink false streams false false := by
  have hsinks := h.sinks
  cases h.syslogSide with
  | absent hbackend hsink =>
    rw [Logger.removeSyslogSink, hsink]
    exact ⟨h.textSide, .absent hbackend hsink, hsinks⟩
  | @committed addr hbackend hsink =>
    rw [hsink, h.textSide.sink_eq_none] at hsinks
    have herase : l.sinks.erase ⟨addr, .syslog⟩ = l.textStreamSink.toList ++ [] := by
      rw [hsinks, h.textSide.sink_eq_none]
      exact List.erase_cons_head ..
    simp only [Logger.removeSyslogSink, hsink]
    exact ⟨h.textSide.of_same rfl rfl rfl (Nat.le_refl _), .absent rfl rfl, herase⟩

theorem Sides.syslogSinkInit (h : Sides l text streams false false) :
    Sides l.syslogSinkInit text streams false true :=
  ⟨h.textSide.of_same rfl rfl rfl (Nat.le_refl _), .waiting rfl h.syslogSide.sink_eq_none, h.sinks⟩

theorem Sides.addStream (h : Sides l false streams syslog on) (destination : Destination) :
    Sides (l.addStream destination) false (streams ++ [destination]) syslog on := by
  cases h.textSide with
  | absent hbackend hsink =>
    simp only [Logger.addStream, hbackend]
    refine ⟨.waiting rfl (Nat.lt_succ_self _) ?_ hsink, h.syslogSide.of_same rfl rfl, h.sinks⟩
    exact Function.update_self ..
  | @waiting a streams hbackend ha hstreams hsink =>
    simp only [Logger.addStream, hbackend]
    refine ⟨.waiting rfl ha ?_ hsink, h.syslogSide.of_same rfl rfl, h.sinks⟩
    rw [← hstreams]
    exact Function.update_self ..

theorem Sides.commitTextSink (h : Sides l false streams false on) :
    Sides l.commitTextSink true streams false on := by
  have hnone := h.syslogSide.sink_eq_none
  cases h.textSide with
  | absent hbackend hsink =>
    simp only [Logger.commitTextSink, hbackend]
    exact ⟨.absent hbackend hsink, h.syslogSide, h.sinks⟩
  | @waiting a streams hbackend ha hstreams hsink =>
    simp only [Logger.commitTextSink, hbackend]
    refine ⟨.committed rfl (Nat.lt_succ_of_lt ha) hstreams rfl,
      h.syslogSide.of_same rfl rfl, ?_⟩
    rw [h.sinks_eq_nil, hnone]
    rfl

theorem Sides.commitSyslogSink (h : Sides l text streams false on) :
    Sides l.commitSyslogSink text streams true on := by
  cases h.syslogSide with
  | absent hbackend hsink =>
    simp only [Logger.commitSyslogSink, hbackend]
    exact ⟨h.textSide, .absent hbackend hsink, h.sinks⟩
  | waiting hbackend hsink =>
    simp only [Logger.commitSyslogSink, hbackend, if_true]
    refine ⟨h.textSide.of_same rfl rfl rfl (Nat.le_succ _), .committed rfl rfl, ?_⟩
    have hsinks : l.sinks = l.textStreamSink.toList := by
      rw [h.sinks, hsink]
      exact List.append_nil _
    show l.sinks ++ _ = l.textStreamSink.toList ++ _
    rw [hsinks]
    rfl

end Logger

namespace Logging

variable {s t : Logging} {last : Option LogLevel}

/-! ## What a move does -/

/-- Everything a move can do. -/
inductive StepCase (s : Logging) : Move → Logging → Prop
  | removeText {opened : Bool} (hpc : s.pc = .removeText) :
      StepCase s (.go opened) { s with logger := s.logger.removeTextSink, pc := .removeSyslog }
  | removeSyslog {opened : Bool} (hpc : s.pc = .removeSyslog) :
      StepCase s (.go opened) { s with logger := s.logger.removeSyslogSink, pc := .syslog }
  | syslog {opened : Bool} (hpc : s.pc = .syslog) :
      StepCase s (.go opened)
        { s with
          logger := if s.cfg_.isLogSyslog then s.logger.syslogSinkInit else s.logger
          pc := .stdout }
  | stdout {opened : Bool} (hpc : s.pc = .stdout) :
      StepCase s (.go opened)
        { s with
          logger := if s.cfg_.isLogStdout then s.logger.stdoutSinkInit else s.logger
          pc := .file }
  | file {opened : Bool} (hpc : s.pc = .file) (hfile : s.cfg_.isLogFile = true) :
      StepCase s (.go opened)
        { s with
          logger := s.logger.fileSinkInit s.cfg_.logFilePath opened
          fl := opened
          pc := .resetFilter }
  | noFile {opened : Bool} (hpc : s.pc = .file) (hfile : s.cfg_.isLogFile = false) :
      StepCase s (.go opened) { s with pc := .resetFilter }
  | filterOff {opened : Bool} (hpc : s.pc = .resetFilter) :
      StepCase s (.go opened) { s with logger := s.logger.resetFilter, pc := .setFilter }
  | filterOn {opened : Bool} (hpc : s.pc = .setFilter) :
      StepCase s (.go opened)
        { s with logger := s.logger.setFilter s.cfg_.logLevel, pc := .commitText }
  | commitText {opened : Bool} (hpc : s.pc = .commitText) :
      StepCase s (.go opened) { s with logger := s.logger.commitTextSink, pc := .commitSyslog }
  | commitSyslog {opened : Bool} (hpc : s.pc = .commitSyslog) :
      StepCase s (.go opened) { s with logger := s.logger.commitSyslogSink, pc := .running }
  | resetFilter (level : LogLevel) (hpc : s.pc = .running) :
      StepCase s (.resetFilter level)
        { s with logger := s.logger.resetFilter, pending := s.pending ++ [level] }
  | setFilter {i : Nat} {level : LogLevel} (hlevel : s.pending[i]? = some level) :
      StepCase s (.setFilter i)
        { s with logger := s.logger.setFilter level, pending := s.pending.eraseIdx i }
  | reload (cfg_ : Config) (hpc : s.pc = .running) (hpending : s.pending = []) :
      StepCase s (.reload cfg_) { s with pc := .removeText, cfg_ := cfg_, fl := false }

theorem step_cases {move : Move} (h : s.step move = .ok t) : StepCase s move t := by
  cases move with
  | go opened =>
    simp only [step] at h
    cases hpc : s.pc with
    | removeText =>
      rw [hpc] at h
      cases h
      exact .removeText hpc
    | removeSyslog =>
      rw [hpc] at h
      cases h
      exact .removeSyslog hpc
    | syslog =>
      rw [hpc] at h
      cases h
      exact .syslog hpc
    | stdout =>
      rw [hpc] at h
      cases h
      exact .stdout hpc
    | file =>
      rw [hpc] at h
      dsimp only at h
      split at h
      · rename_i hfile
        cases h
        exact .file hpc hfile
      · rename_i hfile
        cases h
        exact .noFile hpc (Bool.eq_false_iff.mpr hfile)
    | resetFilter =>
      rw [hpc] at h
      cases h
      exact .filterOff hpc
    | setFilter =>
      rw [hpc] at h
      cases h
      exact .filterOn hpc
    | commitText =>
      rw [hpc] at h
      cases h
      exact .commitText hpc
    | commitSyslog =>
      rw [hpc] at h
      cases h
      exact .commitSyslog hpc
    | running =>
      rw [hpc] at h
      cases h
  | resetFilter level =>
    simp only [step] at h
    split at h
    · rename_i hpc
      cases h
      exact .resetFilter level hpc
    · cases h
  | setFilter i =>
    simp only [step] at h
    split at h
    · rename_i level hlevel
      cases h
      exact .setFilter hlevel
    · cases h
  | reload cfg_ =>
    simp only [step] at h
    split at h
    · rename_i hreload
      cases h
      exact .reload cfg_ hreload.1 hreload.2
    · cases h

/-! ## Where `init_logger` stands -/

/-- What has been built of the configuration, or is still to be removed of the one before. -/
def Phase (s : Logging) : Prop :=
  match s.pc with
  | .removeText => ∃ cfg_ fl, s.logger.Sides true (streams cfg_ fl) true cfg_.isLogSyslog
  | .removeSyslog => ∃ on, s.logger.Sides false [] true on
  | .syslog => s.logger.Sides false [] false false
  | .stdout => s.logger.Sides false [] false s.cfg_.isLogSyslog
  | .file => s.logger.Sides false (stdoutStreams s.cfg_) false s.cfg_.isLogSyslog
  | .resetFilter | .setFilter | .commitText =>
      s.logger.Sides false (streams s.cfg_ s.fl) false s.cfg_.isLogSyslog
  | .commitSyslog => s.logger.Sides true (streams s.cfg_ s.fl) false s.cfg_.isLogSyslog
  | .running => s.logger.Sides true (streams s.cfg_ s.fl) true s.cfg_.isLogSyslog

/-- The filter: there is none before the first, and between the two calls of a worker or of
`init_logger`, which has no sinks then. Otherwise it is the one that was set last. -/
structure Filtered (last : Option LogLevel) (s : Logging) : Prop where
  pending : s.pc ≠ .running → s.pending = []
  off : s.logger.filter = none → s.pending ≠ [] ∨ s.logger.sinks = []
  on : s.pc = .commitText ∨ s.pc = .commitSyslog ∨ s.pc = .running ∧ s.pending = [] →
    s.logger.filter ≠ none
  last : ∀ level, s.logger.filter = some level → last = some level

theorem start_phase (cfg_ : Config) : Phase (start cfg_) ∧ Filtered none (start cfg_) := by
  refine ⟨⟨{ path_ := [], tree_ := [] }, false, Logger.Sides.init true true⟩, ?_⟩
  refine ⟨fun _ => rfl, fun _ => Or.inr rfl, ?_, fun level hlevel => by cases hlevel⟩
  rintro (hpc | hpc | ⟨hpc, -⟩) <;> cases hpc

/-- A worker's calls leave the sinks. -/
theorem Phase.withFilter (hs : Phase s) (filter : Option LogLevel) (pending : List LogLevel) :
    Phase { s with logger := { s.logger with filter := filter }, pending := pending } := by
  unfold Phase at hs ⊢
  dsimp only
  cases hpc : s.pc with
  | removeText =>
    rw [hpc] at hs
    obtain ⟨cfg_, fl, hsides⟩ := hs
    exact ⟨cfg_, fl, hsides.withFilter filter⟩
  | removeSyslog =>
    rw [hpc] at hs
    obtain ⟨on, hsides⟩ := hs
    exact ⟨on, hsides.withFilter filter⟩
  | syslog | stdout | file | resetFilter | setFilter | commitText | commitSyslog | running =>
    rw [hpc] at hs
    exact hs.withFilter filter

theorem Phase.at_ (hs : Phase s) {pc : InitPc} (hpc : s.pc = pc) : Phase { s with pc := pc } := by
  subst hpc
  exact hs

/-- Every move of `init_logger` does what its phase says. -/
theorem StepCase.phase {move : Move} (h : StepCase s move t) (hs : Phase s) : Phase t := by
  cases h with
  | removeText hpc =>
    obtain ⟨cfg_, fl, hsides⟩ := hs.at_ hpc
    exact ⟨_, hsides.removeTextSink⟩
  | removeSyslog hpc =>
    obtain ⟨on, hsides⟩ := hs.at_ hpc
    exact hsides.removeSyslogSink
  | syslog hpc =>
    have hsides : s.logger.Sides false [] false false := hs.at_ hpc
    show Logger.Sides (if s.cfg_.isLogSyslog then s.logger.syslogSinkInit else s.logger) false []
      false s.cfg_.isLogSyslog
    cases s.cfg_.isLogSyslog with
    | true => exact hsides.syslogSinkInit
    | false => exact hsides
  | stdout hpc =>
    have hsides : s.logger.Sides false [] false s.cfg_.isLogSyslog := hs.at_ hpc
    show Logger.Sides (if s.cfg_.isLogStdout then s.logger.stdoutSinkInit else s.logger) false
      (if s.cfg_.isLogStdout then [.stdout] else []) false s.cfg_.isLogSyslog
    cases s.cfg_.isLogStdout with
    | true => exact hsides.addStream .stdout
    | false => exact hsides
  | @file opened hpc hfile =>
    have hsides : s.logger.Sides false (stdoutStreams s.cfg_) false s.cfg_.isLogSyslog :=
      hs.at_ hpc
    show Logger.Sides (s.logger.fileSinkInit s.cfg_.logFilePath opened) false
      (stdoutStreams s.cfg_ ++ fileStreams s.cfg_ opened) false s.cfg_.isLogSyslog
    rw [fileStreams, hfile]
    cases opened with
    | true => exact hsides.addStream _
    | false =>
      rw [Bool.and_false, if_neg Bool.false_ne_true, List.append_nil]
      exact hsides
  | noFile hpc hfile =>
    show Logger.Sides s.logger false (stdoutStreams s.cfg_ ++ fileStreams s.cfg_ s.fl) false
      s.cfg_.isLogSyslog
    rw [fileStreams, hfile, Bool.false_and, if_neg Bool.false_ne_true, List.append_nil]
    exact hs.at_ hpc
  | filterOff hpc => exact Logger.Sides.withFilter (hs.at_ hpc) none
  | filterOn hpc => exact Logger.Sides.withFilter (hs.at_ hpc) (some s.cfg_.logLevel)
  | commitText hpc => exact Logger.Sides.commitTextSink (hs.at_ hpc)
  | commitSyslog hpc => exact Logger.Sides.commitSyslogSink (hs.at_ hpc)
  | resetFilter level hpc => exact hs.withFilter none _
  | setFilter hlevel => exact hs.withFilter _ _
  | reload cfg_ hpc hpending => exact ⟨s.cfg_, s.fl, hs.at_ hpc⟩

/-! ## The filter -/

/-- While `init_logger` builds, there are no sinks. -/
theorem Phase.sinks_eq_nil (hs : Phase s) (h : s.pc ≠ .removeText ∧ s.pc ≠ .removeSyslog ∧
    s.pc ≠ .commitSyslog ∧ s.pc ≠ .running) : s.logger.sinks = [] := by
  unfold Phase at hs
  obtain ⟨hremove, hremove', hcommit, hrunning⟩ := h
  cases hpc : s.pc with
  | removeText => exact absurd hpc hremove
  | removeSyslog => exact absurd hpc hremove'
  | commitSyslog => exact absurd hpc hcommit
  | running => exact absurd hpc hrunning
  | syslog | stdout | file | resetFilter | setFilter | commitText =>
    rw [hpc] at hs
    exact hs.sinks_eq_nil

/-- A move of `init_logger` that leaves the filter as it is: while there is none it must leave no
sink, and it can only get to its last calls with one. -/
theorem Filtered.go {pc : InitPc} {opened : Bool} (hs : Filtered last s) (hpc : s.pc = pc)
    (hrunning : pc ≠ .running) (hset : pc ≠ .setFilter) (hpending : t.pending = s.pending)
    (hfilter : t.logger.filter = s.logger.filter)
    (hoff : s.logger.filter = none → t.logger.sinks = [])
    (hon : t.pc = .commitText ∨ t.pc = .commitSyslog ∨ t.pc = .running →
      s.logger.filter ≠ none) : Filtered ((s.sets (.go opened)).or last) t := by
  subst hpc
  rw [sets, if_neg hset, Option.none_or]
  refine ⟨fun _ => hpending.trans (hs.pending hrunning),
    fun hnone => Or.inr (hoff (hfilter ▸ hnone)), ?_,
    fun level hlevel => hs.last level (hfilter ▸ hlevel)⟩
  intro hlate
  rw [hfilter]
  apply hon
  rcases hlate with hcommit | hcommit | ⟨hdone, -⟩
  · exact Or.inl hcommit
  · exact Or.inr (Or.inl hcommit)
  · exact Or.inr (Or.inr hdone)

theorem StepCase.filtered {move : Move} (h : StepCase s move t) (ht : Phase t)
    (hs : Filtered last s) : Filtered ((s.sets move).or last) t := by
  cases h with
  | removeText hpc =>
    refine hs.go hpc (by decide) (by decide) rfl (Logger.removeTextSink_filter _) ?_ (by simp)
    intro hnone
    apply Logger.removeTextSink_sinks
    exact (hs.off hnone).resolve_left (fun hne => hne (hs.pending (by simp [hpc])))
  | removeSyslog hpc =>
    exact hs.go hpc (by decide) (by decide) rfl (Logger.removeSyslogSink_filter _)
      (fun _ => ht.sinks_eq_nil (by simp)) (by simp)
  | syslog hpc =>
    refine hs.go hpc (by decide) (by decide) rfl ?_ (fun _ => ht.sinks_eq_nil (by simp)) (by simp)
    dsimp only
    split <;> rfl
  | stdout hpc =>
    refine hs.go hpc (by decide) (by decide) rfl ?_ (fun _ => ht.sinks_eq_nil (by simp)) (by simp)
    dsimp only
    split
    · exact Logger.addStream_filter _ _
    · rfl
  | file hpc hfile =>
    exact hs.go hpc (by decide) (by decide) rfl (Logger.fileSinkInit_filter _ _ _)
      (fun _ => ht.sinks_eq_nil (by simp)) (by simp)
  | noFile hpc hfile =>
    exact hs.go hpc (by decide) (by decide) rfl rfl (fun _ => ht.sinks_eq_nil (by simp)) (by simp)
  | filterOff hpc =>
    rw [sets, if_neg (by simp [hpc]), Option.none_or]
    have hpending := hs.pending (by simp [hpc])
    refine ⟨fun _ => hpending, fun _ => Or.inr (ht.sinks_eq_nil (by simp)), by simp, ?_⟩
    intro level hlevel
    cases hlevel
  | filterOn hpc =>
    rw [sets, if_pos hpc, Option.some_or]
    have hpending := hs.pending (by simp [hpc])
    refine ⟨fun _ => hpending, (fun hnone => by cases hnone),
      fun _ => Option.some_ne_none _, ?_⟩
    intro level hlevel
    exact hlevel
  | commitText hpc =>
    have hon := hs.on (Or.inl hpc)
    exact hs.go hpc (by decide) (by decide) rfl (Logger.commitTextSink_filter _)
      (fun hnone => absurd hnone hon) (fun _ => hon)
  | commitSyslog hpc =>
    have hon := hs.on (Or.inr (Or.inl hpc))
    exact hs.go hpc (by decide) (by decide) rfl (Logger.commitSyslogSink_filter _)
      (fun hnone => absurd hnone hon) (fun _ => hon)
  | resetFilter level hpc =>
    refine ⟨fun hne => absurd hpc hne, fun _ => Or.inl (by simp), ?_, (fun _ h => by cases h)⟩
    rintro (hpc' | hpc' | ⟨-, hnone⟩)
    · cases hpc.symm.trans hpc'
    · cases hpc.symm.trans hpc'
    · simp at hnone
  | @setFilter i level hlevel =>
    have hpc : s.pc = .running := by
      by_contra hne
      rw [hs.pending hne] at hlevel
      cases hlevel
    refine ⟨fun hne => absurd hpc hne, (fun h => by cases h), fun _ => Option.some_ne_none level,
      ?_⟩
    intro level' hlevel'
    rw [sets, hlevel]
    exact hlevel'
  | reload cfg_ hpc hpending => exact ⟨fun _ => hpending, hs.off, by simp, hs.last⟩

/-! ## Where records go -/

/-- The level that was set last. -/
def lastSet (levels : List (Option LogLevel)) : Option LogLevel :=
  levels.foldl (fun last level => level.or last) none

theorem run_phase {cfg_ : Config} {moves : List Move}
    (h : Run.exec step (start cfg_) moves = .ok s) :
    Phase s ∧ Filtered (lastSet (Run.observe step sets (start cfg_) moves)) s := by
  refine Run.exec_induction (P := fun moves s =>
    Phase s ∧ Filtered (lastSet (Run.observe step sets (start cfg_) moves)) s) ?_ ?_ h
  · exact start_phase cfg_
  · intro moves s move t hrun ih hstep
    have hcase := step_cases hstep
    have hphase := hcase.phase ih.1
    refine ⟨hphase, ?_⟩
    rw [lastSet, Run.observe_concat hrun, List.foldl_append]
    exact hcase.filtered hphase ih.2

theorem streams_nodup (cfg_ : Config) (fl : Bool) :
    (streams cfg_ fl).Nodup ∧ .syslog ∉ streams cfg_ fl := by
  unfold streams stdoutStreams fileStreams
  split <;> split <;> simp

/-- No destination is there twice, at any time. -/
theorem Phase.targets_nodup (hs : Phase s) : s.logger.targets.Nodup := by
  have hnodup : ∀ {text syslog on : Bool} {ds : List Destination}, ds.Nodup ∧ .syslog ∉ ds →
      s.logger.Sides text ds syslog on → s.logger.targets.Nodup := by
    intro text syslog on ds hds hsides
    rw [hsides.targets]
    cases text <;> cases syslog <;> cases on <;> simp [List.nodup_append, hds]
    exact fun d hd heq => hds.2 (heq ▸ hd)
  unfold Phase at hs
  cases hpc : s.pc with
  | removeText =>
    rw [hpc] at hs
    obtain ⟨cfg_, fl, hsides⟩ := hs
    exact hnodup (streams_nodup cfg_ fl) hsides
  | removeSyslog =>
    rw [hpc] at hs
    obtain ⟨on, hsides⟩ := hs
    exact hnodup (by simp) hsides
  | syslog | stdout =>
    rw [hpc] at hs
    exact hnodup (by simp) hs
  | file =>
    rw [hpc] at hs
    refine hnodup ?_ hs
    unfold stdoutStreams
    split <;> simp
  | resetFilter | setFilter | commitText | commitSyslog | running =>
    rw [hpc] at hs
    exact hnodup (streams_nodup s.cfg_ s.fl) hs

/-- Whatever level commands of the clients, however interleaved, and whatever reloads: a record goes
to no destination twice. While no worker is in the middle of a level command and `init_logger` is
done, it goes to all destinations of the present configuration, or to none when it is above the
level that was set last. At any other time, one that is above the level goes anywhere only between
the two calls of a worker, since `init_logger` has no sinks between its own. -/
theorem run_deliver {cfg_ : Config} {moves : List Move}
    (h : Run.exec step (start cfg_) moves = .ok s) (severity : LogLevel) :
    (s.logger.deliver severity).Nodup ∧
      (s.pc = .running → s.pending = [] →
        ∃ level, lastSet (Run.observe step sets (start cfg_) moves) = some level ∧
          s.logger.deliver severity =
            if severity.toNat ≤ level.toNat then destinations s.cfg_ s.fl else []) ∧
      (s.logger.deliver severity ≠ [] → s.pending = [] →
        ∃ level, lastSet (Run.observe step sets (start cfg_) moves) = some level ∧
          severity.toNat ≤ level.toNat) := by
  obtain ⟨hphase, hfiltered⟩ := run_phase h
  have hdeliver : ∀ level, s.logger.filter = some level → s.logger.deliver severity =
      if severity.toNat ≤ level.toNat then s.logger.targets else [] := by
    intro level hlevel
    simp [Logger.deliver, Logger.Passes, hlevel]
  refine ⟨?_, ?_, ?_⟩
  · unfold Logger.deliver
    split
    · exact hphase.targets_nodup
    · exact List.nodup_nil
  · intro hpc hpending
    obtain ⟨level, hlevel⟩ :=
      Option.ne_none_iff_exists'.mp (hfiltered.on (Or.inr (Or.inr ⟨hpc, hpending⟩)))
    refine ⟨level, hfiltered.last level hlevel, ?_⟩
    unfold Phase at hphase
    rw [hpc] at hphase
    rw [hdeliver level hlevel, hphase.targets]
    rfl
  · intro hne hpending
    cases hfilter : s.logger.filter with
    | none =>
      have hsinks := (hfiltered.off hfilter).resolve_left (fun h => h hpending)
      refine absurd ?_ hne
      simp [Logger.deliver, Logger.targets, hsinks]
    | some level =>
      refine ⟨level, hfiltered.last level hfilter, ?_⟩
      by_contra hlt
      rw [hdeliver level hfilter, if_neg hlt] at hne
      exact hne rfl

/-- A configuration that asks for records up to errors, on the standard output and in a file. -/
def errorsOnly : Config :=
  { path_ := text "swordfish.ini"
    tree_ := [(text "logging.log_level", text "ERROR"), (text "logging.log_stdout", text "on"),
      (text "logging.log_file", text "on"), (text "logging.log_file_path", text "sf.log")] }

/-- `init_logger` twice, with a level command of a client in between. -/
def levelScript : List Move :=
  List.replicate 9 (.go true) ++ [.resetFilter .crit, .setFilter 0, .reload errorsOnly] ++
    List.replicate 9 (.go true)

theorem run_deliver_twice :
    ∃ s, Run.exec step (start errorsOnly) levelScript = .ok s ∧
      s.logger.deliver .error = [.stdout, .file (text "sf.log")] ∧
      s.logger.deliver .warn = [] := by
  obtain ⟨s, hrun, hpc, hpending, hlast, hcfg, hfl⟩ := Run.yields_iff.mp
    (by decide +kernel : Run.Yields step (fun s => s.pc = .running ∧ s.pending = [] ∧
      lastSet (Run.observe step sets (start errorsOnly) levelScript) = some .error ∧
      s.cfg_ = errorsOnly ∧ s.fl = true) (start errorsOnly) levelScript)
  refine ⟨s, hrun, ?_, ?_⟩
  · obtain ⟨level, hlevel, hdeliver⟩ := (run_deliver hrun .error).2.1 hpc hpending
    obtain rfl := Option.some.inj (hlevel.symm.trans hlast)
    rw [hdeliver, hcfg, hfl]
    decide +kernel
  · obtain ⟨level, hlevel, hdeliver⟩ := (run_deliver hrun .warn).2.1 hpc hpending
    obtain rfl := Option.some.inj (hlevel.symm.trans hlast)
    rw [hdeliver]
    rfl

/-- Both levels are for errors, and a debug record is written in the middle of the command. -/
example : Run.Yields step (fun s => s.logger.deliver .debug = [.stdout, .file (text "sf.log")])
    (start errorsOnly) (List.replicate 9 (.go true) ++ [.resetFilter .error]) := by
  decide +kernel

end Logging

end Swordfish
