import Swordfish.System.Asked

/-!
# The plugin library

`Daemon::create_server` (`daemon-src/src/daemon.cpp:183-209`) loads the configured library twice:
`DHashmap::configure_func` (`dhashmap.cpp:25-56`) takes `custom_hash` and `normalize_key` from it,
and `AbstractFiller::Configure` (`abstract_filler.cpp:30-61`) the function that fetches values. The
first two are kept in static pointers, which are assigned only while they are null, so they stay
those of the first round. No store closes its handle, so a library that was opened stays loaded, and
its path stands for it from then on. Logging and the results of both functions, which no caller
reads, are left out, and so are the filler thread and the server.
-/

namespace Swordfish.Plugin

variable {γ α : Type}

/-- What `dlsym` finds in a library: the functions under the names that the sources fix, and those
of the type `get_vals_type` under the names they are exported under. -/
structure Library (γ α : Type) where
  customHash : Option (Str → UInt64)
  normalizeKey : Option (Str → Str)
  isFillerAlive : Option α
  function : Str → Option γ

/-- What `create_server` reads from the configuration for the storage and the filler. -/
structure Config where
  filler : Str
  fillerFunction : Str
  maxFillSize : UInt64
  storageTtl : Nat
  storageSize : UInt64
  fillerQueueSize : UInt64
  storageExpirateSize : UInt64
  deriving DecidableEq, Repr

/-- A call of `create_server`: the configuration it reads, and the clock when it makes the
statistics. -/
structure Round where
  config : Config
  now : TimeType
  deriving DecidableEq, Repr

/-- A `Storage`, with the members of its `DHashmap` that `configure_func` assigns. -/
structure PluggedStorage (γ α : Type) where
  storage : Storage
  libHandle_ : Option (Library γ α)
  configured_ : Bool

/-- The members of `AbstractFiller` that `Configure` assigns. -/
structure AbstractFiller (γ α : Type) where
  getVals : Option γ
  isFillerAlive : Option α
  libHandle_ : Option (Library γ α)
  maxFillSize_ : UInt64
  configured_ : Bool

/-- The process: the static pointers of `DHashmap` (`dhashmap.cpp:14-15`), whether `dlerror` has an
error to return, and what `Daemon` points to. -/
structure State (γ α : Type) where
  __customHash__ : Option (Str → UInt64)
  __normalizeKey__ : Option (Str → Str)
  dlerror : Bool
  storage_ : Option (PluggedStorage γ α)
  filler_ : Option (AbstractFiller γ α)

/-- The calls of `exit(1)`: the library, or a function of it, cannot be loaded. -/
inductive Exit where
  | lib
  | func
  deriving DecidableEq, Repr

/-- The process before the first round. -/
def init : State γ α :=
  { __customHash__ := none
    __normalizeKey__ := none
    dlerror := false
    storage_ := none
    filler_ := none }

/-- `new Storage`. -/
def PluggedStorage.create (r : Round) : PluggedStorage γ α :=
  { storage := .init r.now r.config.storageTtl r.config.storageSize r.config.fillerQueueSize
      r.config.storageExpirateSize
    libHandle_ := none
    configured_ := false }

/-- `new AbstractFiller`, whose pointers are not set yet. -/
def AbstractFiller.create : AbstractFiller γ α :=
  { getVals := none
    isFillerAlive := none
    libHandle_ := none
    maxFillSize_ := 0
    configured_ := false }

/-- `dhashmap.cpp:42-43`; a symbol that is missing is an error of `dlsym`. -/
def State.loadCustomHash (p : State γ α) (lib : Library γ α) : State γ α :=
  match p.__customHash__ with
  | none =>
      { p with
        __customHash__ := lib.customHash
        dlerror := p.dlerror || lib.customHash.isNone }
  | some _ => p

/-- `dhashmap.cpp:45-46`. -/
def State.loadNormalizeKey (p : State γ α) (lib : Library γ α) : State γ α :=
  match p.__normalizeKey__ with
  | none =>
      { p with
        __normalizeKey__ := lib.normalizeKey
        dlerror := p.dlerror || lib.normalizeKey.isNone }
  | some _ => p

variable (dlopen : Str → Option (Library γ α))

/-- `DHashmap::configure_func` (`dhashmap.cpp:25-56`), with the check made by `dlerror()`, which
clears the error. -/
def PluggedStorage.configure (p : State γ α) (s : PluggedStorage γ α) (libpath : Str) :
    Except Exit (State γ α × PluggedStorage γ α) :=
  if libpath = [] then .ok (p, s)
  else
    match s.libHandle_.or (dlopen libpath) with
    | none => .error .lib
    | some lib =>
        let p := (p.loadCustomHash lib).loadNormalizeKey lib
        if p.dlerror || p.__normalizeKey__.isNone || p.__customHash__.isNone then .error .func
        else
          .ok ({ p with dlerror := false },
            { s with libHandle_ := some lib, configured_ := true })

/-- `AbstractFiller::Configure` (`abstract_filler.cpp:30-61`). -/
def AbstractFiller.configure (p : State γ α) (f : AbstractFiller γ α) (libpath funcname : Str)
    (maxFillSize : UInt64) : Except Exit (State γ α × AbstractFiller γ α) :=
  if libpath = [] ∨ funcname = [] then .ok (p, f)
  else
    match dlopen libpath with
    | none => .error .lib
    | some lib =>
        if p.dlerror || (lib.function funcname).isNone || lib.isFillerAlive.isNone then
          .error .func
        else
          .ok ({ p with dlerror := false },
            { f with
              getVals := lib.function funcname
              isFillerAlive := lib.isFillerAlive
              libHandle_ := some lib
              maxFillSize_ := if maxFillSize ≠ 0 then maxFillSize else 10
              configured_ := true })

/-- `Daemon::reset_server`: the storage and the filler are deleted, the static pointers stay. -/
def resetServer (p : State γ α) : State γ α := { p with storage_ := none, filler_ := none }

/-- `Daemon::create_server` (`daemon.cpp:183-209`). -/
def createServer (p : State γ α) (r : Round) : Except Exit (State γ α) :=
  match (PluggedStorage.create r).configure dlopen (resetServer p) r.config.filler with
  | .error exit => .error exit
  | .ok (p, storage) =>
      match AbstractFiller.create.configure dlopen p r.config.filler r.config.fillerFunction
          r.config.maxFillSize with
      | .error exit => .error exit
      | .ok (p, filler) => .ok { p with storage_ := some storage, filler_ := some filler }

/-- What a store hashes and normalizes with: the static pointers. -/
def State.env (base : Env) (p : State γ α) : Env :=
  { base with customHash := p.__customHash__, normalizeKey := p.__normalizeKey__ }

/-- What it would hash and normalize with if they were the library's functions. -/
def Library.env (base : Env) (lib : Library γ α) : Env :=
  { base with customHash := lib.customHash, normalizeKey := lib.normalizeKey }

/-- What the filler thread was configured with. -/
def AbstractFiller.config (f : AbstractFiller γ α) : FillerConfig :=
  { isFillerAlive := f.isFillerAlive.isSome, maxFillSize_ := f.maxFillSize_ }

/-- The configuration names a library and a function in it. -/
def Round.NamesPlugin (r : Round) : Prop := r.config.filler ≠ [] ∧ r.config.fillerFunction ≠ []

/-- The library is in use: its functions hash and normalize, its `funcname` fetches, and in every
run of the clients and the filler on the new storage, the keys that wait for the filler or were
passed to `get_vals` are its normal forms of what clients asked for. -/
structure Uses (base : Env) (lib : Library γ α) (funcname : Str) (p : State γ α) : Prop where
  env : p.env base = lib.env base
  getVals : ∃ filler ∈ p.filler_, filler.getVals.isSome ∧ filler.getVals = lib.function funcname
  queued : ∀ storage ∈ p.storage_, ∀ filler ∈ p.filler_, ∀ actions s,
    Sys.run filler.config (p.env base) (.init storage.storage) actions = .ok s →
      ∀ key, s.Queued key → ∃ arg, Asked actions arg ∧ key = (lib.env base).normalize arg

/-! ## One round -/

variable {dlopen} {p t : State γ α}

/-- What `create_server` leaves, when it returns. -/
structure Created (p : State γ α) (r : Round) (lib : Library γ α) (t : State γ α) : Prop where
  customHash : t.__customHash__ = p.__customHash__.or lib.customHash
  normalizeKey : t.__normalizeKey__ = p.__normalizeKey__.or lib.normalizeKey
  loaded : t.__customHash__.isSome ∧ t.__normalizeKey__.isSome
  storage_ : ∀ storage ∈ t.storage_, storage.storage = .init r.now r.config.storageTtl
    r.config.storageSize r.config.fillerQueueSize r.config.storageExpirateSize
  filler_ : ∃ filler ∈ t.filler_, filler.getVals.isSome ∧
    filler.getVals = lib.function r.config.fillerFunction

@[simp] theorem loadCustomHash_customHash (p : State γ α) (lib : Library γ α) :
    (p.loadCustomHash lib).__customHash__ = p.__customHash__.or lib.customHash := by
  unfold State.loadCustomHash
  cases h : p.__customHash__ with
  | none => rfl
  | some f => exact h

@[simp] theorem loadCustomHash_normalizeKey (p : State γ α) (lib : Library γ α) :
    (p.loadCustomHash lib).__normalizeKey__ = p.__normalizeKey__ := by
  unfold State.loadCustomHash
  split <;> rfl

@[simp] theorem loadNormalizeKey_customHash (p : State γ α) (lib : Library γ α) :
    (p.loadNormalizeKey lib).__customHash__ = p.__customHash__ := by
  unfold State.loadNormalizeKey
  split <;> rfl

@[simp] theorem loadNormalizeKey_normalizeKey (p : State γ α) (lib : Library γ α) :
    (p.loadNormalizeKey lib).__normalizeKey__ = p.__normalizeKey__.or lib.normalizeKey := by
  unfold State.loadNormalizeKey
  cases h : p.__normalizeKey__ with
  | none => rfl
  | some f => exact h

/-- A static pointer that is set stays, and one that is null is set from the library. -/
theorem configure_storage {s s' : PluggedStorage γ α} {libpath : Str} {lib : Library γ α}
    (hname : libpath ≠ []) (hhandle : s.libHandle_ = none) (hopen : dlopen libpath = some lib)
    (h : s.configure dlopen p libpath = .ok (t, s')) :
    t.__customHash__ = p.__customHash__.or lib.customHash ∧
      t.__normalizeKey__ = p.__normalizeKey__.or lib.normalizeKey ∧
      (t.__customHash__.isSome ∧ t.__normalizeKey__.isSome) ∧ s'.storage = s.storage := by
  simp only [PluggedStorage.configure, if_neg hname, hhandle, hopen, Option.none_or] at h
  split at h
  · cases h
  · rename_i hloaded
    cases h
    simp only [Bool.or_eq_true, not_or, Bool.not_eq_true, Option.isNone_eq_false_iff] at hloaded
    refine ⟨?_, ?_, ⟨hloaded.2, hloaded.1.2⟩, rfl⟩
    · simp
    · simp

/-- The filler takes its functions from the library each time. -/
theorem configure_filler {f f' : AbstractFiller γ α} {libpath funcname : Str}
    {maxFillSize : UInt64} {lib : Library γ α} (hname : libpath ≠ []) (hfunc : funcname ≠ [])
    (hopen : dlopen libpath = some lib)
    (h : f.configure dlopen p libpath funcname maxFillSize = .ok (t, f')) :
    t = { p with dlerror := false } ∧ f'.getVals.isSome ∧ f'.getVals = lib.function funcname := by
  simp only [AbstractFiller.configure, hname, hfunc, or_self, if_false, hopen] at h
  split at h
  · cases h
  · rename_i hloaded
    cases h
    simp only [Bool.or_eq_true, not_or, Bool.not_eq_true, Option.isNone_eq_false_iff] at hloaded
    exact ⟨rfl, hloaded.1.2, rfl⟩

theorem createServer_created {r : Round} {lib : Library γ α} (hname : r.NamesPlugin)
    (hopen : dlopen r.config.filler = some lib) (h : createServer dlopen p r = .ok t) :
    Created p r lib t := by
  unfold createServer at h
  split at h
  · cases h
  · rename_i q storage hstorage
    split at h
    · cases h
    · rename_i q' filler hfiller
      cases h
      obtain ⟨hhash, hnormalize, hloaded, hnew⟩ := configure_storage hname.1 rfl hopen hstorage
      obtain ⟨rfl, hfound, hvals⟩ := configure_filler hname.1 hname.2 hopen hfiller
      refine ⟨hhash, hnormalize, hloaded, ?_, filler, rfl, hfound, hvals⟩
      intro storage' hmem
      cases hmem
      exact hnew

/-- A library is there to be opened when `create_server` returns. -/
theorem createServer_opens {r : Round} (hname : r.NamesPlugin)
    (h : createServer dlopen p r = .ok t) : ∃ lib, dlopen r.config.filler = some lib := by
  unfold createServer at h
  split at h
  · cases h
  · rename_i q storage hstorage
    cases hopen : dlopen r.config.filler with
    | none =>
      simp only [PluggedStorage.configure, if_neg hname.1, PluggedStorage.create, hopen,
        Option.or_none] at hstorage
      cases hstorage
    | some lib => exact ⟨lib, rfl⟩

/-- The library exports all that `create_server` looks up in it. -/
structure Library.Complete (lib : Library γ α) (funcname : Str) : Prop where
  customHash : lib.customHash.isSome
  normalizeKey : lib.normalizeKey.isSome
  isFillerAlive : lib.isFillerAlive.isSome
  function : (lib.function funcname).isSome

theorem load_dlerror {lib : Library γ α} {funcname : Str} (hlib : lib.Complete funcname)
    (hclear : p.dlerror = false) :
    ((p.loadCustomHash lib).loadNormalizeKey lib).dlerror = false := by
  have hhash : (p.loadCustomHash lib).dlerror = false := by
    unfold State.loadCustomHash
    split
    · simp [hclear, hlib.customHash]
    · exact hclear
  unfold State.loadNormalizeKey
  split
  · simp [hhash, hlib.normalizeKey]
  · exact hhash

theorem configure_storage_returns {s : PluggedStorage γ α} {libpath funcname : Str}
    {lib : Library γ α} (hname : libpath ≠ []) (hhandle : s.libHandle_ = none)
    (hopen : dlopen libpath = some lib) (hlib : lib.Complete funcname)
    (hclear : p.dlerror = false) :
    ∃ t s', s.configure dlopen p libpath = .ok (t, s') ∧ t.dlerror = false := by
  have hhash : (p.__customHash__.or lib.customHash).isNone = false := by
    simp [hlib.customHash]
  have hnormalize : (p.__normalizeKey__.or lib.normalizeKey).isNone = false := by
    simp [hlib.normalizeKey]
  simp only [PluggedStorage.configure, if_neg hname, hhandle, hopen, Option.none_or,
    load_dlerror hlib hclear, loadNormalizeKey_normalizeKey, loadNormalizeKey_customHash,
    loadCustomHash_normalizeKey, loadCustomHash_customHash, hhash, hnormalize]
  exact ⟨_, _, rfl, rfl⟩

theorem configure_filler_returns (f : AbstractFiller γ α) (maxFillSize : UInt64)
    {libpath funcname : Str} {lib : Library γ α} (hname : libpath ≠ []) (hfunc : funcname ≠ [])
    (hopen : dlopen libpath = some lib) (hlib : lib.Complete funcname)
    (hclear : p.dlerror = false) :
    ∃ t f', f.configure dlopen p libpath funcname maxFillSize = .ok (t, f') := by
  have hfunction : (lib.function funcname).isNone = false := by
    simp [hlib.function]
  have halive : lib.isFillerAlive.isNone = false := by
    simp [hlib.isFillerAlive]
  simp only [AbstractFiller.configure, hname, hfunc, or_self, if_false, hopen, hclear, hfunction,
    halive]
  exact ⟨_, _, rfl⟩

/-- With a complete library, `create_server` returns. -/
theorem createServer_returns {r : Round} {lib : Library γ α} (hname : r.NamesPlugin)
    (hopen : dlopen r.config.filler = some lib) (hlib : lib.Complete r.config.fillerFunction)
    (hclear : p.dlerror = false) :
    ∃ t, createServer dlopen p r = .ok t ∧ t.dlerror = false := by
  obtain ⟨q, storage, hstorage, herror⟩ := configure_storage_returns (p := resetServer p)
    (s := .create r) hname.1 rfl hopen hlib hclear
  obtain ⟨q', filler, hfiller⟩ := configure_filler_returns .create r.config.maxFillSize hname.1
    hname.2 hopen hlib herror
  obtain ⟨rfl, -, -⟩ := configure_filler hname.1 hname.2 hopen hfiller
  simp only [createServer, hstorage, hfiller]
  exact ⟨_, rfl, rfl⟩

/-! ## All rounds -/

/-- The static pointers are those of the first library, and the filler has the function of the
last. -/
structure Linked (dlopen : Str → Option (Library γ α)) (rounds : List Round) (t : State γ α) :
    Prop where
  first : ∀ r ∈ rounds.head?, ∃ lib, dlopen r.config.filler = some lib ∧
    t.__customHash__ = lib.customHash ∧ t.__normalizeKey__ = lib.normalizeKey
  loaded : rounds ≠ [] → t.__customHash__.isSome ∧ t.__normalizeKey__.isSome
  last : ∀ r ∈ rounds.getLast?, ∃ lib, dlopen r.config.filler = some lib ∧
    ∃ filler ∈ t.filler_, filler.getVals.isSome ∧
      filler.getVals = lib.function r.config.fillerFunction
  empty : ∀ storage ∈ t.storage_, storage.storage.queue_.queue_ = []

/-- One more round: the first one sets the static pointers, and no other one changes them. -/
theorem Linked.concat {rounds : List Round} {r : Round} {lib : Library γ α}
    (h : Linked dlopen rounds p) (hstart : rounds = [] → p = init)
    (hopen : dlopen r.config.filler = some lib) (hnew : Created p r lib t) :
    Linked dlopen (rounds ++ [r]) t where
  first r' hr' := by
    cases rounds with
    | nil =>
      cases hr'
      obtain rfl := hstart rfl
      exact ⟨lib, hopen, hnew.customHash, hnew.normalizeKey⟩
    | cons first rest =>
      obtain ⟨lib', hopen', hhash, hnormalize⟩ := h.first r' hr'
      obtain ⟨hhash', hnormalize'⟩ := h.loaded (List.cons_ne_nil first rest)
      refine ⟨lib', hopen', ?_, ?_⟩
      · rw [hnew.customHash, Option.or_of_isSome hhash', hhash]
      · rw [hnew.normalizeKey, Option.or_of_isSome hnormalize', hnormalize]
  loaded _ := hnew.loaded
  last r' hr' := by
    rw [List.getLast?_concat] at hr'
    cases hr'
    exact ⟨lib, hopen, hnew.filler_⟩
  empty storage hstorage := by
    rw [hnew.storage_ storage hstorage]
    rfl

theorem run_linked {rounds : List Round} (hnames : ∀ r ∈ rounds, r.NamesPlugin)
    (h : Run.exec (createServer dlopen) init rounds = .ok t) : Linked dlopen rounds t := by
  refine Run.exec_induction
    (P := fun rounds t => (∀ r ∈ rounds, r.NamesPlugin) →
      Linked dlopen rounds t ∧ (rounds = [] → t = init)) ?_ ?_ h hnames |>.1
  · intro _
    refine ⟨⟨?_, ?_, ?_, ?_⟩, fun _ => rfl⟩
    · intro r hr
      cases hr
    · intro hne
      exact absurd rfl hne
    · intro r hr
      cases hr
    · intro storage hstorage
      cases hstorage
  · intro rounds p r t hrun ih hstep hnames
    have hname : r.NamesPlugin := hnames r (List.mem_append_right _ List.mem_cons_self)
    obtain ⟨hp, hstart⟩ := ih (fun r' hr' => hnames r' (List.mem_append_left _ hr'))
    obtain ⟨lib, hopen⟩ := createServer_opens hname hstep
    refine ⟨hp.concat hstart hopen (createServer_created hname hopen hstep), fun hempty => ?_⟩
    simp at hempty

/-- Reloads to complete libraries never end the process. -/
theorem run_returns {rounds : List Round}
    (hlibs : ∀ r ∈ rounds, r.NamesPlugin ∧ ∃ lib, dlopen r.config.filler = some lib ∧
      lib.Complete r.config.fillerFunction) :
    ∃ t, Run.exec (createServer dlopen) init rounds = .ok t := by
  have hreturns : ∀ p : State γ α, p.dlerror = false →
      ∃ t, Run.exec (createServer dlopen) p rounds = .ok t := by
    induction rounds with
    | nil => exact fun p _ => ⟨p, rfl⟩
    | cons r rest ih =>
      intro p hclear
      obtain ⟨hname, lib, hopen, hlib⟩ := hlibs r List.mem_cons_self
      obtain ⟨q, hq, hclear'⟩ := createServer_returns hname hopen hlib hclear
      obtain ⟨t, ht⟩ := ih (fun r' hr' => hlibs r' (List.mem_cons_of_mem r hr')) q hclear'
      exact ⟨t, Run.exec_cons_ok.mpr ⟨q, hq, ht⟩⟩
  exact hreturns init rfl

/-- Reloads, exactly: after any rounds whose configurations name plugins, the last library is the
one in use if and only if its `custom_hash` and its `normalize_key` are those of the first. -/
theorem reload_uses_last_iff (base : Env) {rounds : List Round} {first last : Round}
    {lib₁ libₙ : Library γ α} (hnames : ∀ r ∈ rounds, r.NamesPlugin)
    (hfirst : rounds.head? = some first) (hlast : rounds.getLast? = some last)
    (hopen₁ : dlopen first.config.filler = some lib₁)
    (hopenₙ : dlopen last.config.filler = some libₙ)
    (hrun : Run.exec (createServer dlopen) init rounds = .ok t) :
    Uses base libₙ last.config.fillerFunction t ↔
      lib₁.customHash = libₙ.customHash ∧ lib₁.normalizeKey = libₙ.normalizeKey := by
  have hlinked : Linked dlopen rounds t := run_linked hnames hrun
  obtain ⟨lib, hopen, hhash, hnormalize⟩ := hlinked.first first hfirst
  obtain rfl : lib₁ = lib := Option.some.inj (hopen₁.symm.trans hopen)
  obtain ⟨lib', hopen', filler, hfiller, hfound, hvals⟩ := hlinked.last last hlast
  obtain rfl : libₙ = lib' := Option.some.inj (hopenₙ.symm.trans hopen')
  have henv : t.env base = libₙ.env base ↔
      lib₁.customHash = libₙ.customHash ∧ lib₁.normalizeKey = libₙ.normalizeKey := by
    simp [State.env, Library.env, hhash, hnormalize]
  rw [← henv]
  constructor
  · intro huses
    exact huses.env
  · intro heq
    refine ⟨heq, ⟨filler, hfiller, hfound, hvals⟩, ?_⟩
    intro storage hstorage filler' _ actions s hsys key hkey
    obtain ⟨arg, harg, hnormal⟩ := run_asked (hlinked.empty storage hstorage) hsys hkey
    exact ⟨arg, harg, heq ▸ hnormal⟩

/-- A plugin that maps letters to lower case, and one that keeps keys as they are. -/
def lowering : Library (List Str → List Str) Unit :=
  { customHash := some boostHash
    normalizeKey := some (List.map (fun c => if 65 ≤ c ∧ c ≤ 90 then c + 32 else c))
    isFillerAlive := some ()
    function := fun name => if name = text "get_values_from_outside" then some id else none }

def keeping : Library (List Str → List Str) Unit := { lowering with normalizeKey := some id }

def libraries (path : Str) : Option (Library (List Str → List Str) Unit) :=
  if path = text "/lower.so" then some lowering
  else if path = text "/keep.so" then some keeping
  else none

/-- A round with the library at the path. -/
def roundOf (now : TimeType) (path : Str) : Round :=
  { config :=
      { filler := path
        fillerFunction := text "get_values_from_outside"
        maxFillSize := 1
        storageTtl := 10
        storageSize := 100
        fillerQueueSize := 100
        storageExpirateSize := 1 }
    now := now }

/-- A reload that leaves the plugin as it is. -/
theorem reload_uses_last_same :
    ∃ t, Run.exec (createServer libraries) init
        [roundOf 0 (text "/lower.so"), roundOf 5 (text "/lower.so")] = .ok t ∧
      Uses .plain lowering (text "get_values_from_outside") t := by
  obtain ⟨t, hrun, -⟩ := Run.yields_iff.mp (by decide +kernel :
    Run.Yields (createServer libraries) (fun _ => True) init
      [roundOf 0 (text "/lower.so"), roundOf 5 (text "/lower.so")])
  have hnames : ∀ r ∈ [roundOf 0 (text "/lower.so"), roundOf 5 (text "/lower.so")],
      r.NamesPlugin := by
    unfold Round.NamesPlugin
    decide
  refine ⟨t, hrun, ?_⟩
  exact (reload_uses_last_iff .plain hnames rfl rfl rfl rfl hrun).mpr ⟨rfl, rfl⟩

/-- A client asks for `K` after a reload to the plugin that keeps keys as they are, and the filler
fetches `k` with it. -/
theorem reload_keeps_first_normalize :
    ∃ t, Run.exec (createServer libraries) init
        [roundOf 0 (text "/lower.so"), roundOf 5 (text "/keep.so")] = .ok t ∧
      (∃ storage ∈ t.storage_, ∃ filler ∈ t.filler_, ∃ s,
        Sys.run filler.config (t.env .plain) (.init storage.storage)
          (askScript 6 (text "K") ++ List.replicate 8 (.filler 6) ++
            [.isFillerAlive true, .getVals true [text "v"]]) = .ok s ∧
        .fetched [text "k"] true [text "v"] ∈ s.log) ∧
      ¬ Uses .plain keeping (text "get_values_from_outside") t := by
  obtain ⟨t, hrun, storage, hstorage, filler, hfiller, hsys⟩ :=
    Run.yields_iff.mp (by decide +kernel : Run.Yields (createServer libraries)
      (fun t => ∃ storage ∈ t.storage_, ∃ filler ∈ t.filler_,
        Run.Yields (Sys.step filler.config (t.env .plain))
          (fun s => .fetched [text "k"] true [text "v"] ∈ s.log) (.init storage.storage)
          (askScript 6 (text "K") ++ List.replicate 8 (.filler 6) ++
            [.isFillerAlive true, .getVals true [text "v"]]))
      init [roundOf 0 (text "/lower.so"), roundOf 5 (text "/keep.so")])
  obtain ⟨s, hactions, hfetched⟩ := Run.yields_iff.mp hsys
  refine ⟨t, hrun, ⟨storage, hstorage, filler, hfiller, s, hactions, hfetched⟩, fun huses => ?_⟩
  obtain ⟨arg, hasked, hkey⟩ := huses.queued storage hstorage filler hfiller _ s hactions (text "k")
    (Or.inr ⟨_, _, _, hfetched, List.mem_singleton.mpr rfl⟩)
  -- the plugin in the configuration would have kept the key, and nobody asked for it
  obtain rfl : text "k" = arg := hkey
  exact absurd hasked (by unfold Asked; decide)

end Swordfish.Plugin
