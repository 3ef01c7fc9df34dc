import Swordfish.Connection.Response
import Swordfish.Connection.Worker

/-!
# The configuration

`Config` (`daemon-src/src/cfg.cpp`): its accessors, over the tree that `read_ini` makes of the file.
Numbers are extracted from a string stream, and one that is not extracted as a whole counts as
missing: the default is taken without a word. Whatever else the tree holds, settings that it states
are read back.
-/

namespace Swordfish

/-- `boost::property_tree::ptree`: the data by their paths. -/
abbrev Ptree := List (Str × Str)

namespace Ptree

/-- `std::isspace` in the classic locale. -/
def isSpace (b : UInt8) : Bool := b = 32 || (9 ≤ b && b ≤ 13)

/-- The sign in front of a number, whether it is a minus, and the text behind it. -/
def sign : Str → Bool × Str
  | 43 :: s => (false, s)
  | 45 :: s => (true, s)
  | s => (false, s)

/-- What `operator>>` extracts of an unsigned integer: the magnitude, negated modulo its type. -/
def magnitude (bits : Nat) (negative : Bool) (n : Nat) : Nat :=
  if negative then (2 ^ bits - n) % 2 ^ bits else n

/-- `operator>>` for an unsigned integer of so many bits: the number and the text behind it. It
fails without a digit, and when the magnitude is too large for the type. -/
def extract (bits : Nat) (s : Str) : Option (Nat × Str) :=
  let (negative, s) := sign (s.dropWhile isSpace)
  let digits := s.takeWhile isDigit
  if digits = [] ∨ 2 ^ bits ≤ decimal digits then none
  else some (magnitude bits negative (decimal digits), s.dropWhile isDigit)

/-- `stream_translator::get_value`: nothing but spaces may stand behind the number. -/
def getValue (bits : Nat) (data : Str) : Option Nat :=
  match extract bits data with
  | some (n, rest) => if rest.dropWhile isSpace = [] then some n else none
  | none => none

/-- `ptree::get` for an unsigned integer, with a default. -/
def getUnsigned (tree : Ptree) (bits : Nat) (path : Str) (n : Nat) : Nat :=
  ((tree.lookup path).bind (getValue bits)).getD n

/-- `ptree::get` for a string, with a default. -/
def getString (tree : Ptree) (path data : Str) : Str := (tree.lookup path).getD data

end Ptree

/-- `Config`. -/
structure Config where
  path_ : Str
  tree_ : Ptree
  deriving DecidableEq, Repr

/-- Why a configuration is not read: `Config::file_not_found`, or `ini_parser_error`. -/
inductive ReadError where
  | fileNotFound (name : Str)
  | iniParserError
  deriving DecidableEq, Repr

namespace Config

/-- A file as the stream finds it: it cannot be opened, or `read_ini` refuses it, or makes a tree
of it. -/
abbrev File := Option (Option Ptree)

/-- `Config::reload` (`cfg.cpp:19-28`). `read_ini` replaces the tree only when it is done. -/
def reload (c : Config) (file : File) : Except ReadError Config :=
  match file with
  | none => .error (.fileNotFound c.path_)
  | some none => .error .iniParserError
  | some (some tree) => .ok { c with tree_ := tree }

/-- The constructor `Config(path)`. -/
def ofPath (path : Str) (file : File) : Except ReadError Config :=
  Config.reload { path_ := path, tree_ := [] } file

/-- An accessor for a `size_t`. -/
def getSize (c : Config) (path : Str) (n : Nat) : UInt64 := .ofNat (c.tree_.getUnsigned 64 path n)

/-- An accessor for a switch. -/
def isOn (c : Config) (path : Str) : Bool := c.tree_.getString path (text "off") = text "on"

/-- `Config::port`. -/
def port (c : Config) : UInt16 := .ofNat (c.tree_.getUnsigned 16 (text "general.port") 9696)

/-- `Config::workers`. -/
def workers (c : Config) : UInt64 := c.getSize (text "general.workers") 3

/-- `Config::filler`, the one accessor without a default: `ptree_bad_path` is thrown. -/
def filler (c : Config) : Option Str := c.tree_.lookup (text "general.filler")

/-- `Config::filler_function`. -/
def fillerFunction (c : Config) : Str :=
  c.tree_.getString (text "general.filler_function") (text "get_values_from_outside")

/-- `Config::storage_size`. -/
def storageSize (c : Config) : UInt64 := c.getSize (text "general.storage_size") 1000

/-- `Config::filler_queue_size`. -/
def fillerQueueSize (c : Config) : UInt64 := c.getSize (text "general.filler_queue_size") 1048576

/-- `Config::max_fill_size`. -/
def maxFillSize (c : Config) : UInt64 := c.getSize (text "general.max_fill_size") 10

/-- `Config::storage_expirate_size`: an eighth of the storage by default. -/
def storageExpirateSize (c : Config) : UInt64 :=
  c.getSize (text "general.storage_expirate_size") (c.storageSize >>> 3).toNat

/-- `Config::storage_ttl`. -/
def storageTtl (c : Config) : UInt64 := c.getSize (text "general.storage_ttl") 10

/-- `Config::log_level`. -/
def logLevel (c : Config) : LogLevel :=
  .text2level (c.tree_.getString (text "logging.log_level") (text "DEBUG"))

/-- `Config::is_log_file`. -/
def isLogFile (c : Config) : Bool := c.isOn (text "logging.log_file")

/-- `Config::is_log_syslog`. -/
def isLogSyslog (c : Config) : Bool := c.isOn (text "logging.log_syslog")

/-- `Config::is_log_stdout`. -/
def isLogStdout (c : Config) : Bool := c.isOn (text "logging.log_stdout")

/-- `Config::log_file_path`. -/
def logFilePath (c : Config) : Str :=
  c.tree_.getString (text "logging.log_file_path") (text "swordfish.log")

end Config

/-! ## What reads as a number -/

namespace Ptree

/-- A text of elements that `p` accepts, up to an element that it refuses or the end. -/
theorem span_append {p : UInt8 → Bool} {l rest : Str} (hl : ∀ b ∈ l, p b = true)
    (hrest : ∀ b ∈ rest.head?, p b = false) :
    (l ++ rest).takeWhile p = l ∧ (l ++ rest).dropWhile p = rest := by
  cases rest with
  | nil =>
    rw [List.append_nil]
    exact ⟨List.takeWhile_eq_self_iff.mpr hl, List.dropWhile_eq_nil_iff.mpr hl⟩
  | cons a rest => exact span_append_cons hl (hrest a rfl) rest

/-- What stands in front of the digits: spaces, then at most a sign. -/
inductive Front : Bool → Str → Prop
  | plain {spaces : Str} (h : ∀ b ∈ spaces, isSpace b = true) : Front false spaces
  | plus {spaces : Str} (h : ∀ b ∈ spaces, isSpace b = true) : Front false (spaces ++ [43])
  | minus {spaces : Str} (h : ∀ b ∈ spaces, isSpace b = true) : Front true (spaces ++ [45])

theorem isSpace_of_isDigit {b : UInt8} (h : isDigit b = true) : isSpace b = false := by
  simp only [isDigit, decide_eq_true_eq, UInt8.le_iff_toNat_le] at h
  simp only [isSpace, Bool.or_eq_false_iff, Bool.and_eq_false_iff, decide_eq_false_iff_not,
    ← UInt8.toNat_inj, UInt8.le_iff_toNat_le]
  have h48 : (48 : UInt8).toNat = 48 := rfl
  have h32 : (32 : UInt8).toNat = 32 := rfl
  have h13 : (13 : UInt8).toNat = 13 := rfl
  omega

/-- In front of a digit, the spaces and the sign are taken. -/
theorem sign_front {negative : Bool} {front : Str} (h : Front negative front) {d : UInt8}
    (hd : isDigit d = true) (s : Str) :
    sign ((front ++ d :: s).dropWhile isSpace) = (negative, d :: s) := by
  cases h with
  | @plain spaces hspaces =>
    have hdrop := (span_append_cons hspaces (isSpace_of_isDigit hd) s).2
    have hplus : d ≠ 43 := by
      rintro rfl
      cases hd
    have hminus : d ≠ 45 := by
      rintro rfl
      cases hd
    rw [hdrop]
    unfold sign
    split
    · rename_i heq
      exact absurd (List.cons.inj heq).1 hplus
    · rename_i heq
      exact absurd (List.cons.inj heq).1 hminus
    · rfl
  | @plus spaces hspaces =>
    have hdrop := (span_append_cons hspaces (a := 43) (by decide) (d :: s)).2
    rw [List.append_assoc, List.singleton_append, hdrop]
    rfl
  | @minus spaces hspaces =>
    have hdrop := (span_append_cons hspaces (a := 45) (by decide) (d :: s)).2
    rw [List.append_assoc, List.singleton_append, hdrop]
    rfl

/-- Every text starts with spaces and at most a sign. -/
theorem front_of_sign (s : Str) :
    ∃ front, Front (sign (s.dropWhile isSpace)).1 front ∧
      s = front ++ (sign (s.dropWhile isSpace)).2 := by
  have hspaces : ∀ b ∈ s.takeWhile isSpace, isSpace b = true :=
    fun b hb => List.mem_takeWhile_imp hb
  have hsplit : s = s.takeWhile isSpace ++ s.dropWhile isSpace :=
    List.takeWhile_append_dropWhile.symm
  generalize s.takeWhile isSpace = spaces at hspaces hsplit
  generalize s.dropWhile isSpace = rest at hsplit
  unfold sign
  split
  · exact ⟨_, .plus hspaces, by simpa using hsplit⟩
  · exact ⟨_, .minus hspaces, by simpa using hsplit⟩
  · exact ⟨_, .plain hspaces, hsplit⟩

/-- The data that read as a number, exactly: spaces, at most one sign, digits whose value the type
can hold, and spaces. -/
theorem getValue_eq_some {bits : Nat} {data : Str} {n : Nat} :
    getValue bits data = some n ↔
      ∃ negative front digits spaces, Front negative front ∧
        (digits ≠ [] ∧ ∀ b ∈ digits, isDigit b = true) ∧ (∀ b ∈ spaces, isSpace b = true) ∧
        data = front ++ (digits ++ spaces) ∧ decimal digits < 2 ^ bits ∧
        n = magnitude bits negative (decimal digits) := by
  constructor
  · intro h
    obtain ⟨front, hfront, hdata⟩ := front_of_sign data
    unfold getValue extract at h
    generalize sign (data.dropWhile isSpace) = signed at h hfront hdata
    obtain ⟨negative, s⟩ := signed
    dsimp only at h hfront hdata
    by_cases hfail : s.takeWhile isDigit = [] ∨ 2 ^ bits ≤ decimal (s.takeWhile isDigit)
    · rw [if_pos hfail] at h
      cases h
    · rw [if_neg hfail] at h
      dsimp only at h
      obtain ⟨hne, hlt⟩ := not_or.mp hfail
      split at h
      · rename_i hspaces
        refine ⟨negative, front, s.takeWhile isDigit, s.dropWhile isDigit, hfront,
          ⟨hne, fun b hb => List.mem_takeWhile_imp hb⟩, List.dropWhile_eq_nil_iff.mp hspaces, ?_,
          Nat.not_le.mp hlt, (Option.some.inj h).symm⟩
        rw [List.takeWhile_append_dropWhile]
        exact hdata
      · cases h
  · rintro ⟨negative, front, digits, spaces, hfront, ⟨hne, hdigits⟩, hspaces, rfl, hlt, rfl⟩
    obtain ⟨d, more, rfl⟩ := List.exists_cons_of_ne_nil hne
    have hsign := sign_front hfront (hdigits d List.mem_cons_self) (more ++ spaces)
    have hbehind : ∀ b ∈ spaces.head?, isDigit b = false := by
      intro b hb
      cases hdigit : isDigit b with
      | false => rfl
      | true =>
        have hspace := hspaces b (List.mem_of_head? hb)
        rw [isSpace_of_isDigit hdigit] at hspace
        cases hspace
    obtain ⟨htake, hdrop⟩ := span_append hdigits hbehind
    unfold getValue extract
    rw [List.cons_append] at htake hdrop ⊢
    rw [hsign]
    dsimp only
    rw [htake, hdrop, if_neg (not_or.mpr ⟨hne, Nat.not_le.mpr hlt⟩)]
    dsimp only
    rw [if_pos (List.dropWhile_eq_nil_iff.mpr hspaces)]

/-- A number of the type is read back. -/
theorem getValue_toString {bits n : Nat} (h : n < 2 ^ bits) :
    getValue bits (text (toString n)) = some n := by
  obtain ⟨hne, hdigits, hdecimal⟩ := digits_spec n
  refine getValue_eq_some.mpr ⟨false, [], text (toString n), [], .plain (by simp), ⟨hne, hdigits⟩,
    by simp, by simp, ?_, ?_⟩
  · rw [hdecimal]
    exact h
  · rw [hdecimal]
    rfl

end Ptree

/-! ## Settings -/

/-- The name of a level, as the enumeration spells it. -/
def LogLevel.name : LogLevel → Str
  | emerg => text "EMERG"
  | alert => text "ALERT"
  | crit => text "CRIT"
  | error => text "ERROR"
  | warn => text "WARN"
  | notice => text "NOTICE"
  | info => text "INFO"
  | debug => text "DEBUG"

theorem LogLevel.text2level_name (level : LogLevel) : text2level level.name = level := by
  cases level <;> decide

/-- Everything that a configuration says. -/
structure Settings where
  port : UInt16
  workers : UInt64
  filler : Str
  fillerFunction : Str
  storageSize : UInt64
  fillerQueueSize : UInt64
  maxFillSize : UInt64
  storageExpirateSize : UInt64
  storageTtl : UInt64
  logLevel : LogLevel
  isLogFile : Bool
  isLogSyslog : Bool
  isLogStdout : Bool
  logFilePath : Str
  deriving DecidableEq, Repr

/-- What the accessors return, when none of them throws. -/
def Config.settings (c : Config) : Option Settings :=
  c.filler.map fun filler =>
    { port := c.port
      workers := c.workers
      filler := filler
      fillerFunction := c.fillerFunction
      storageSize := c.storageSize
      fillerQueueSize := c.fillerQueueSize
      maxFillSize := c.maxFillSize
      storageExpirateSize := c.storageExpirateSize
      storageTtl := c.storageTtl
      logLevel := c.logLevel
      isLogFile := c.isLogFile
      isLogSyslog := c.isLogSyslog
      isLogStdout := c.isLogStdout
      logFilePath := c.logFilePath }

/-- How a switch is written. -/
def Settings.switch (on : Bool) : Str := if on then text "on" else text "off"

/-- The settings as the file states them. -/
def Settings.tree (s : Settings) : Ptree :=
  [(text "general.port", text (toString s.port.toNat)),
    (text "general.workers", text (toString s.workers.toNat)),
    (text "general.filler", s.filler),
    (text "general.filler_function", s.fillerFunction),
    (text "general.storage_size", text (toString s.storageSize.toNat)),
    (text "general.filler_queue_size", text (toString s.fillerQueueSize.toNat)),
    (text "general.max_fill_size", text (toString s.maxFillSize.toNat)),
    (text "general.storage_expirate_size", text (toString s.storageExpirateSize.toNat)),
    (text "general.storage_ttl", text (toString s.storageTtl.toNat)),
    (text "logging.log_level", s.logLevel.name),
    (text "logging.log_file", switch s.isLogFile),
    (text "logging.log_syslog", switch s.isLogSyslog),
    (text "logging.log_stdout", switch s.isLogStdout),
    (text "logging.log_file_path", s.logFilePath)]

namespace Config

variable {c : Config} {path : Str}

theorem reload_ok {file : File} {d : Config} :
    c.reload file = .ok d ↔ ∃ tree, file = some (some tree) ∧ d = { c with tree_ := tree } := by
  rcases file with _ | _ | tree
  · simp [reload]
  · simp [reload]
  · simp [reload, eq_comm]

theorem join_of_reload_error {file : File} {error : ReadError} (h : c.reload file = .error error) :
    file.join = none := by
  rcases file with _ | _ | tree
  · rfl
  · rfl
  · cases h

theorem getSize_of_lookup {x : UInt64} (h : c.tree_.lookup path = some (text (toString x.toNat)))
    (n : Nat) : c.getSize path n = x := by
  rw [getSize, Ptree.getUnsigned, h, Option.bind_some, Ptree.getValue_toString x.toNat_lt]
  exact UInt64.ofNat_toNat

theorem isOn_of_lookup {on : Bool} (h : c.tree_.lookup path = some (Settings.switch on)) :
    c.isOn path = on := by
  rw [isOn, Ptree.getString, h]
  cases on <;> decide

theorem getString_of_lookup {data : Str} (h : c.tree_.lookup path = some data) (dflt : Str) :
    c.tree_.getString path dflt = data := by
  rw [Ptree.getString, h]
  rfl

/-- When the tree that `read_ini` made states all the settings, they are read back, in whatever
order it states them and whatever else it holds. -/
theorem settings_of_tree {s : Settings} (h : ∀ p ∈ s.tree, c.tree_.lookup p.1 = some p.2) :
    c.settings = some s := by
  simp only [Settings.tree, List.forall_mem_cons] at h
  obtain ⟨hport, hworkers, hfiller, hfunction, hsize, hqueue, hfill, hexpirate, httl, hlevel, hfile,
    hsyslog, hstdout, hpath, -⟩ := h
  have hport' : c.port = s.port := by
    rw [port, Ptree.getUnsigned, hport, Option.bind_some, Ptree.getValue_toString s.port.toNat_lt]
    exact UInt16.ofNat_toNat
  have hlevel' : c.logLevel = s.logLevel := by
    rw [logLevel, getString_of_lookup hlevel]
    exact s.logLevel.text2level_name
  unfold settings
  rw [filler, hfiller, Option.map_some, hport', hlevel', workers, getSize_of_lookup hworkers,
    fillerFunction, getString_of_lookup hfunction, storageSize, getSize_of_lookup hsize,
    fillerQueueSize, getSize_of_lookup hqueue, maxFillSize, getSize_of_lookup hfill,
    storageExpirateSize, getSize_of_lookup hexpirate, storageTtl, getSize_of_lookup httl,
    isLogFile, isOn_of_lookup hfile, isLogSyslog, isOn_of_lookup hsyslog, isLogStdout,
    isOn_of_lookup hstdout, logFilePath, getString_of_lookup hpath]

/-- Settings that differ from every default. -/
def otherSettings : Settings :=
  { port := 11211
    workers := 5
    filler := text "libfiller.so"
    fillerFunction := text "fill"
    storageSize := 18446744073709551615
    fillerQueueSize := 0
    maxFillSize := 1
    storageExpirateSize := 4096
    storageTtl := 3
    logLevel := .crit
    isLogFile := true
    isLogSyslog := true
    isLogStdout := true
    logFilePath := text "/var/log/swordfish.log" }

/-- The file states them the other way round, behind a line that nobody reads. -/
theorem settings_of_tree_reverse :
    ({ path_ := text "swordfish.ini"
       tree_ := (text "logging.log_file_rot_size", text "10") :: otherSettings.tree.reverse } :
      Config).settings = some otherSettings :=
  settings_of_tree (by decide +kernel)

/-- With a comment behind it (`swordfish.ini`), the size of the queue is the default. -/
example : ({ path_ := text "swordfish.ini"
             tree_ := [(text "general.filler_queue_size",
               text "10000 ; size of queue in bytes")] } : Config).fillerQueueSize = 1048576 := by
  decide

end Config

end Swordfish
