import Swordfish.Daemon.Plugin

/-!
# Which plugins a daemon survives

A round of `create_server` ends the process when the library or a function of it cannot be loaded,
and when it is left without a plugin: the filler thread that it starts calls `exit(1)` unless
`Configure` went through (`abstract_filler.cpp:65-69`). `DHashmap::configure_func` looks
`custom_hash` and `normalize_key` up only while its static pointers are null, so after the first
library no other one has to export them; `AbstractFiller::Configure` looks `is_filler_alive` up
every time, and refuses a library without it, although the filler loop has a branch for that case
(`abstract_filler.cpp:85`). It asks `dlerror` once for two lookups, so where a lookup that succeeds
forgets the error of the one before, a library without the function passes.
-/

namespace Swordfish.Plugin

variable {γ α : Type}

/-- What the machine decides: whether a call of `dlopen` or `dlsym` that succeeds forgets the error
of an earlier one, and the library that is found under a path at a time. -/
structure Linker (γ α : Type) where
  forgets : Bool
  dlopen : TimeType → Str → Option (Library γ α)

/-- What a call of `dlopen` or `dlsym` leaves for `dlerror`. -/
def State.dlCall (forgets : Bool) (p : State γ α) (missing : Bool) : State γ α :=
  { p with dlerror := (p.dlerror && !forgets) || missing }

/-- `dhashmap.cpp:42-43`. -/
def State.linkCustomHash (forgets : Bool) (p : State γ α) (lib : Library γ α) : State γ α :=
  match p.__customHash__ with
  | none => { p.dlCall forgets lib.customHash.isNone with __customHash__ := lib.customHash }
  | some _ => p

/-- `dhashmap.cpp:45-46`. -/
def State.linkNormalizeKey (forgets : Bool) (p : State γ α) (lib : Library γ α) : State γ α :=
  match p.__normalizeKey__ with
  | none => { p.dlCall forgets lib.normalizeKey.isNone with __normalizeKey__ := lib.normalizeKey }
  | some _ => p

variable (linker : Linker γ α)

/-- `DHashmap::configure_func` (`dhashmap.cpp:25-56`). -/
def PluggedStorage.link (now : TimeType) (p : State γ α) (s : PluggedStorage γ α) (libpath : Str) :
    Except Exit (State γ α × PluggedStorage γ α) :=
  if libpath = [] then .ok (p, s)
  else
    match s.libHandle_.or (linker.dlopen now libpath) with
    | none => .error .lib
    | some lib =>
        let p := if s.libHandle_.isNone then p.dlCall linker.forgets false else p
        let p := (p.linkCustomHash linker.forgets lib).linkNormalizeKey linker.forgets lib
        if p.dlerror || p.__normalizeKey__.isNone || p.__customHash__.isNone then .error .func
        else
          .ok ({ p with dlerror := false },
            { s with libHandle_ := some lib, configured_ := true })

/-- `AbstractFiller::Configure` (`abstract_filler.cpp:30-61`). -/
def AbstractFiller.link (now : TimeType) (p : State γ α) (f : AbstractFiller γ α)
    (libpath funcname : Str) (maxFillSize : UInt64) :
    Except Exit (State γ α × AbstractFiller γ α) :=
  if libpath = [] ∨ funcname = [] then .ok (p, f)
  else
    match linker.dlopen now libpath with
    | none => .error .lib
    | some lib =>
        let p := p.dlCall linker.forgets false
        let p := p.dlCall linker.forgets (lib.function funcname).isNone
        let p := p.dlCall linker.forgets lib.isFillerAlive.isNone
        if p.dlerror then .error .func
        else
          .ok ({ p with dlerror := false },
            { f with
              getVals := lib.function funcname
              isFillerAlive := lib.isFillerAlive
              libHandle_ := some lib
              maxFillSize_ := if maxFillSize ≠ 0 then maxFillSize else 10
              configured_ := true })

/-- `Daemon::create_server` (`daemon.cpp:183-209`), as far as the filler thread. -/
def linkServer (p : State γ α) (r : Round) : Except Exit (State γ α) :=
  match (PluggedStorage.create r).link linker r.now (resetServer p) r.config.filler with
  | .error exit => .error exit
  | .ok (p, storage) =>
      match AbstractFiller.create.link linker r.now p r.config.filler r.config.fillerFunction
          r.config.maxFillSize with
      | .error exit => .error exit
      | .ok (p, filler) => .ok { p with storage_ := some storage, filler_ := some filler }

/-- `configured_` of the filler, when there is one. -/
def State.configured (p : State γ α) : Bool := p.filler_.all (·.configured_)

/-- How a round ends the process: `exit(1)` of `create_server`, or of the filler thread. -/
inductive RoundExit where
  | load (exit : Exit)
  | unconfigured
  deriving DecidableEq, Repr

/-- A round, with the test that the filler thread starts with (`abstract_filler.cpp:65-69`). The
thread runs at the latest when `reset_server` joins it. -/
def round (p : State γ α) (r : Round) : Except RoundExit (State γ α) :=
  match linkServer linker p r with
  | .error exit => .error (.load exit)
  | .ok p => if p.configured then .ok p else .error .unconfigured

variable {linker} {p q t : State γ α} {r : Round}

theorem State.dlCall_stays (p : State γ α) (missing : Bool) :
    p.dlCall false missing = { p with dlerror := p.dlerror || missing } := by
  simp [State.dlCall]

theorem State.linkCustomHash_stays (p : State γ α) (lib : Library γ α) :
    p.linkCustomHash false lib = p.loadCustomHash lib := by
  unfold State.linkCustomHash State.loadCustomHash
  cases p.__customHash__ with
  | none =>
    exact congrArg (fun p => { p with __customHash__ := lib.customHash }) (p.dlCall_stays _)
  | some f => rfl

theorem State.linkNormalizeKey_stays (p : State γ α) (lib : Library γ α) :
    p.linkNormalizeKey false lib = p.loadNormalizeKey lib := by
  unfold State.linkNormalizeKey State.loadNormalizeKey
  cases p.__normalizeKey__ with
  | none =>
    exact congrArg (fun p => { p with __normalizeKey__ := lib.normalizeKey }) (p.dlCall_stays _)
  | some f => rfl

theorem PluggedStorage.link_stays (h : linker.forgets = false) (now : TimeType) (p : State γ α)
    (s : PluggedStorage γ α) (libpath : Str) :
    s.link linker now p libpath = s.configure (linker.dlopen now) p libpath := by
  unfold PluggedStorage.link PluggedStorage.configure
  by_cases hname : libpath = []
  · rw [if_pos hname, if_pos hname]
  rw [if_neg hname, if_neg hname]
  cases s.libHandle_.or (linker.dlopen now libpath) with
  | none => rfl
  | some lib =>
    have hopened : (if s.libHandle_.isNone then p.dlCall false false else p) = p := by
      simp [State.dlCall]
    simp only [h, hopened, State.linkCustomHash_stays, State.linkNormalizeKey_stays]

theorem AbstractFiller.link_stays (h : linker.forgets = false) (now : TimeType) (p : State γ α)
    (f : AbstractFiller γ α) (libpath funcname : Str) (maxFillSize : UInt64) :
    f.link linker now p libpath funcname maxFillSize =
      f.configure (linker.dlopen now) p libpath funcname maxFillSize := by
  unfold AbstractFiller.link AbstractFiller.configure
  by_cases hname : libpath = [] ∨ funcname = []
  · rw [if_pos hname, if_pos hname]
  rw [if_neg hname, if_neg hname]
  cases linker.dlopen now libpath with
  | none => rfl
  | some lib => simp only [h, State.dlCall_stays, Bool.or_false]

/-- When errors stay until `dlerror` is called, this is `create_server` as it is above. -/
theorem linkServer_of_not_forgets (h : linker.forgets = false) (p : State γ α) (r : Round) :
    linkServer linker p r = createServer (linker.dlopen r.now) p r := by
  have hstorage := PluggedStorage.link_stays h r.now (resetServer p) (.create r) r.config.filler
  cases hs : (PluggedStorage.create r).configure (linker.dlopen r.now) (resetServer p)
      r.config.filler with
  | error exit => simp only [linkServer, createServer, hstorage, hs]
  | ok q =>
    have hfiller := AbstractFiller.link_stays h r.now q.1 .create r.config.filler
      r.config.fillerFunction r.config.maxFillSize
    cases hf : AbstractFiller.create.configure (linker.dlopen r.now) q.1 r.config.filler
        r.config.fillerFunction r.config.maxFillSize with
    | error exit => simp only [linkServer, createServer, hstorage, hs, hfiller, hf]
    | ok t => simp only [linkServer, createServer, hstorage, hs, hfiller, hf]

/-- Both static pointers are set. -/
def State.Hashing (p : State γ α) : Prop := p.__customHash__.isSome ∧ p.__normalizeKey__.isSome

/-- Neither of them is. -/
def State.Blank (p : State γ α) : Prop := p.__customHash__ = none ∧ p.__normalizeKey__ = none

/-- Whatever the round names can be loaded, and exports what the filler looks up: `is_filler_alive`,
and the function too where errors are not forgotten. -/
def Round.Fills (linker : Linker γ α) (r : Round) : Prop :=
  r.config.filler ≠ [] → ∃ lib, linker.dlopen r.now r.config.filler = some lib ∧
    (r.config.fillerFunction ≠ [] → lib.isFillerAlive.isSome ∧
      (linker.forgets = false → (lib.function r.config.fillerFunction).isSome))

/-- The library of the round exports what the store looks up. -/
def Round.Hashes (linker : Linker γ α) (r : Round) : Prop :=
  ∃ lib, linker.dlopen r.now r.config.filler = some lib ∧ lib.customHash.isSome ∧
    lib.normalizeKey.isSome

/-! ## The store -/

/-- What `configure_func` makes of a library that can be opened. A pointer that is null and cannot
be set is an error, whether `dlerror` still knows of it or not. -/
theorem link_storage_eq {s : PluggedStorage γ α} {now : TimeType} {libpath : Str}
    {lib : Library γ α} (hname : libpath ≠ []) (hhandle : s.libHandle_ = none)
    (hopen : linker.dlopen now libpath = some lib) (hclear : p.dlerror = false) :
    s.link linker now p libpath =
      if (p.__customHash__.or lib.customHash).isSome ∧
          (p.__normalizeKey__.or lib.normalizeKey).isSome then
        .ok ({ p with
            __customHash__ := p.__customHash__.or lib.customHash
            __normalizeKey__ := p.__normalizeKey__.or lib.normalizeKey
            dlerror := false },
          { s with libHandle_ := some lib, configured_ := true })
      else .error .func := by
  obtain ⟨customHash, normalizeKey, dlerror, storage_, filler_⟩ := p
  obtain rfl : dlerror = false := hclear
  simp only [PluggedStorage.link, if_neg hname, hhandle, hopen, Option.none_or]
  cases customHash <;> cases normalizeKey <;> cases hhash : lib.customHash <;>
    cases hnormalize : lib.normalizeKey <;>
    simp [State.linkCustomHash, State.linkNormalizeKey, State.dlCall, hhash, hnormalize]

/-! ## The filler -/

/-- What `Configure` makes of a library that can be opened. -/
theorem link_filler_eq {f : AbstractFiller γ α} {now : TimeType} {libpath funcname : Str}
    {maxFillSize : UInt64} {lib : Library γ α} (hname : libpath ≠ []) (hfunc : funcname ≠ [])
    (hopen : linker.dlopen now libpath = some lib) (hclear : p.dlerror = false) :
    f.link linker now p libpath funcname maxFillSize =
      if lib.isFillerAlive.isSome ∧
          (linker.forgets = false → (lib.function funcname).isSome) then
        .ok ({ p with dlerror := false },
          { f with
            getVals := lib.function funcname
            isFillerAlive := lib.isFillerAlive
            libHandle_ := some lib
            maxFillSize_ := if maxFillSize ≠ 0 then maxFillSize else 10
            configured_ := true })
      else .error .func := by
  simp only [AbstractFiller.link, hname, hfunc, or_self, if_false, hopen, State.dlCall, hclear]
  cases linker.forgets <;> cases lib.function funcname <;> cases lib.isFillerAlive <;> simp

/-! ## One round -/

/-- `create_server` returns from here: what the round names exports what is looked up. -/
def Round.Fits (linker : Linker γ α) (p : State γ α) (r : Round) : Prop :=
  r.Fills linker ∧ (r.config.filler ≠ [] → p.Hashing ∨ r.Hashes linker)

/-- The filler of a round: it is configured when the round names a plugin, and then has the
functions of the library that was found. -/
structure Filler (linker : Linker γ α) (r : Round) (f : AbstractFiller γ α) : Prop where
  configured_ : f.configured_ = true ↔ r.NamesPlugin
  maxFillSize_ : r.NamesPlugin → f.maxFillSize_ =
    if r.config.maxFillSize ≠ 0 then r.config.maxFillSize else 10
  linked : r.NamesPlugin → ∃ lib, linker.dlopen r.now r.config.filler = some lib ∧
    f.getVals = lib.function r.config.fillerFunction ∧ f.isFillerAlive = lib.isFillerAlive

/-- What a round leaves of the static pointers and the filler. -/
structure Settles (linker : Linker γ α) (p : State γ α) (r : Round) (t : State γ α) : Prop where
  clear : t.dlerror = false
  kept : r.config.filler = [] → t.__customHash__ = p.__customHash__ ∧
    t.__normalizeKey__ = p.__normalizeKey__
  hashing : r.config.filler ≠ [] → t.Hashing
  filler_ : ∃ filler, t.filler_ = some filler ∧ Filler linker r filler

/-- A store that is configured with a library has both functions, from it or from before. -/
theorem hashing_or_iff {lib : Library γ α} (hp : p.Hashing ∨ p.Blank) :
    (p.__customHash__.or lib.customHash).isSome ∧ (p.__normalizeKey__.or lib.normalizeKey).isSome ↔
      p.Hashing ∨ lib.customHash.isSome ∧ lib.normalizeKey.isSome := by
  rcases hp with ⟨hhash, hnormalize⟩ | ⟨hhash, hnormalize⟩
  · rw [Option.or_of_isSome hhash, Option.or_of_isSome hnormalize]
    exact iff_of_true ⟨hhash, hnormalize⟩ (Or.inl ⟨hhash, hnormalize⟩)
  · rw [hhash, hnormalize, Option.none_or, Option.none_or]
    have hnot : ¬ p.Hashing := by
      rintro ⟨hsome, -⟩
      rw [hhash] at hsome
      cases hsome
    exact (or_iff_right hnot).symm

/-- A filler that is not configured. -/
theorem filler_create (hnot : ¬ r.NamesPlugin) : Filler linker r .create where
  configured_ := iff_of_false Bool.false_ne_true hnot
  maxFillSize_ hnames := absurd hnames hnot
  linked hnames := absurd hnames hnot

theorem linkServer_of_empty (hname : r.config.filler = []) (hclear : p.dlerror = false) :
    ∃ t, linkServer linker p r = .ok t ∧ Settles linker p r t := by
  refine ⟨{ p with storage_ := some (.create r), filler_ := some .create }, ?_, hclear,
    fun _ => ⟨rfl, rfl⟩, fun hne => absurd hname hne, _, rfl, ?_⟩
  · simp [linkServer, PluggedStorage.link, AbstractFiller.link, hname, resetServer]
  · exact filler_create (fun hnames => hnames.1 hname)

/-- The filler's part of a round with a library. -/
theorem link_filler_cases {lib : Library γ α} (hname : r.config.filler ≠ [])
    (hopen : linker.dlopen r.now r.config.filler = some lib) (hclear : q.dlerror = false) :
    (r.Fills linker ∧ ∃ t filler, AbstractFiller.create.link linker r.now q r.config.filler
        r.config.fillerFunction r.config.maxFillSize = .ok (t, filler) ∧
        t.dlerror = false ∧ t.__customHash__ = q.__customHash__ ∧
        t.__normalizeKey__ = q.__normalizeKey__ ∧ Filler linker r filler) ∨
      ¬ r.Fills linker ∧ AbstractFiller.create.link linker r.now q r.config.filler
        r.config.fillerFunction r.config.maxFillSize = .error .func := by
  by_cases hfunc : r.config.fillerFunction = []
  · left
    refine ⟨fun _ => ⟨lib, hopen, fun hne => absurd hfunc hne⟩, q, .create, ?_, hclear, rfl, rfl,
      filler_create (fun hnames => hnames.2 hfunc)⟩
    rw [AbstractFiller.link, if_pos (Or.inr hfunc)]
  rw [link_filler_eq hname hfunc hopen hclear]
  by_cases hexports : lib.isFillerAlive.isSome ∧
      (linker.forgets = false → (lib.function r.config.fillerFunction).isSome)
  · left
    rw [if_pos hexports]
    refine ⟨fun _ => ⟨lib, hopen, fun _ => hexports⟩, _, _, rfl, rfl, rfl, rfl,
      iff_of_true rfl ⟨hname, hfunc⟩, fun _ => rfl, fun _ => ⟨lib, hopen, rfl, rfl⟩⟩
  · right
    refine ⟨fun hfills => ?_, if_neg hexports⟩
    obtain ⟨lib', hlib', hexports'⟩ := hfills hname
    rw [hopen] at hlib'
    cases hlib'
    exact hexports (hexports' hfunc)

/-- The store's part of a round with a library. -/
theorem link_storage_cases {lib : Library γ α} (hname : r.config.filler ≠ [])
    (hopen : linker.dlopen r.now r.config.filler = some lib) (hclear : p.dlerror = false)
    (hp : p.Hashing ∨ p.Blank) :
    ((p.Hashing ∨ r.Hashes linker) ∧ ∃ q storage, (PluggedStorage.create r).link linker r.now
        (resetServer p) r.config.filler = .ok (q, storage) ∧ q.dlerror = false ∧ q.Hashing) ∨
      ¬ (p.Hashing ∨ r.Hashes linker) ∧ (PluggedStorage.create r).link linker r.now
        (resetServer p) r.config.filler = .error .func := by
  have hexports : r.Hashes linker ↔ lib.customHash.isSome ∧ lib.normalizeKey.isSome := by
    constructor
    · rintro ⟨lib', hlib', hexports⟩
      rw [hopen] at hlib'
      cases hlib'
      exact hexports
    · exact fun hexports => ⟨lib, hopen, hexports⟩
  have hset : _ ↔ p.Hashing ∨ r.Hashes linker :=
    (hashing_or_iff (p := resetServer p) hp).trans (or_congr_right hexports.symm)
  have hlink := link_storage_eq (s := PluggedStorage.create r) (p := resetServer p) hname rfl
    hopen hclear
  by_cases hboth : p.Hashing ∨ r.Hashes linker
  · left
    rw [if_pos (hset.mpr hboth)] at hlink
    exact ⟨hboth, _, _, hlink, rfl, hset.mpr hboth⟩
  · right
    rw [if_neg (fun h => hboth (hset.mp h))] at hlink
    exact ⟨hboth, hlink⟩

/-- `create_server` returns when the round fits, and ends the process otherwise. -/
theorem linkServer_cases (linker : Linker γ α) (hclear : p.dlerror = false)
    (hp : p.Hashing ∨ p.Blank) (r : Round) :
    (r.Fits linker p ∧ ∃ t, linkServer linker p r = .ok t ∧ Settles linker p r t) ∨
      ¬ r.Fits linker p ∧ ∃ exit, linkServer linker p r = .error exit := by
  by_cases hname : r.config.filler = []
  · left
    exact ⟨⟨fun hne => absurd hname hne, fun hne => absurd hname hne⟩,
      linkServer_of_empty hname hclear⟩
  cases hopen : linker.dlopen r.now r.config.filler with
  | none =>
    right
    refine ⟨?_, .lib, ?_⟩
    · rintro ⟨hfills, -⟩
      obtain ⟨lib, hlib, -⟩ := hfills hname
      rw [hopen] at hlib
      cases hlib
    · simp [linkServer, PluggedStorage.link, PluggedStorage.create, hname, hopen]
  | some lib =>
    rcases link_storage_cases hname hopen hclear hp with
      ⟨hhash, q, storage, hstorage, hclear', hset⟩ | ⟨hnot, hstorage⟩
    · rcases link_filler_cases hname hopen hclear' with
        ⟨hfills, t, filler, hlink, hclear'', hhash', hnormalize, hfiller⟩ | ⟨hnot, hlink⟩
      · left
        refine ⟨⟨hfills, fun _ => hhash⟩, ?_⟩
        simp only [linkServer, hstorage, hlink]
        refine ⟨_, rfl, hclear'', fun hempty => absurd hempty hname, fun _ => ?_, filler, rfl,
          hfiller⟩
        unfold State.Hashing
        dsimp only
        rw [hhash', hnormalize]
        exact hset
      · right
        refine ⟨fun hfits => hnot hfits.1, .func, ?_⟩
        simp only [linkServer, hstorage, hlink]
    · right
      refine ⟨fun hfits => hnot (hfits.2 hname), .func, ?_⟩
      simp only [linkServer, hstorage]

/-- The round goes on: `create_server` returns, and the filler thread does not end the process. -/
def Round.GoesOn (linker : Linker γ α) (p : State γ α) (r : Round) : Prop :=
  r.NamesPlugin ∧ r.Fills linker ∧ (p.Hashing ∨ r.Hashes linker)

theorem round_cases (linker : Linker γ α) (hclear : p.dlerror = false)
    (hp : p.Hashing ∨ p.Blank) (r : Round) :
    (r.GoesOn linker p ∧ ∃ t, round linker p r = .ok t ∧ t.dlerror = false ∧ t.Hashing) ∨
      ¬ r.GoesOn linker p ∧ ∃ exit, round linker p r = .error exit := by
  rcases linkServer_cases linker hclear hp r with ⟨hfits, t, hlink, hsettles⟩ | ⟨hnot, exit, hlink⟩
  · obtain ⟨filler, hfiller, hmade⟩ := hsettles.filler_
    have hconfigured : t.configured = filler.configured_ := by
      rw [State.configured, hfiller]
      rfl
    by_cases hnames : r.NamesPlugin
    · left
      refine ⟨⟨hnames, hfits.1, hfits.2 hnames.1⟩, t, ?_, hsettles.clear,
        hsettles.hashing hnames.1⟩
      simp only [round, hlink, hconfigured, hmade.configured_.mpr hnames, if_true]
    · right
      have hfalse : filler.configured_ = false := by
        simpa using mt hmade.configured_.mp hnames
      refine ⟨fun hgoes => hnames hgoes.1, .unconfigured, ?_⟩
      simp [round, hlink, hconfigured, hfalse]
  · right
    refine ⟨fun hgoes => hnot ⟨hgoes.2.1, fun _ => hgoes.2.2⟩, .load exit, ?_⟩
    simp only [round, hlink]

/-! ## All rounds -/

theorem rounds_survive_iff {rounds : List Round} (hclear : p.dlerror = false)
    (hp : p.Hashing ∨ p.Blank) :
    (∃ t, Run.exec (round linker) p rounds = .ok t) ↔
      (∀ r ∈ rounds, r.NamesPlugin ∧ r.Fills linker) ∧
        (p.Hashing ∨ ∀ r ∈ rounds.head?, r.Hashes linker) := by
  induction rounds generalizing p with
  | nil =>
    refine iff_of_true ⟨p, rfl⟩ ⟨?_, Or.inr ?_⟩
    · intro r hr
      cases hr
    · intro r hr
      cases hr
  | cons r rounds ih =>
    have hhead : (∀ r' ∈ (r :: rounds).head?, r'.Hashes linker) ↔ r.Hashes linker := by simp
    rw [List.forall_mem_cons, hhead]
    rcases round_cases linker hclear hp r with
      ⟨⟨hnames, hfills, hhash⟩, q, hq, hclear', hset⟩ | ⟨hnot, exit, hexit⟩
    · have hrun : (∃ t, Run.exec (round linker) p (r :: rounds) = .ok t) ↔
          ∃ t, Run.exec (round linker) q rounds = .ok t := by
        simp only [Run.exec, hq]
      rw [hrun, ih hclear' (Or.inl hset)]
      constructor
      · rintro ⟨hrest, -⟩
        exact ⟨⟨⟨hnames, hfills⟩, hrest⟩, hhash⟩
      · rintro ⟨⟨-, hrest⟩, -⟩
        exact ⟨hrest, Or.inl hset⟩
    · refine iff_of_false ?_ ?_
      · rintro ⟨t, ht⟩
        obtain ⟨q, hq, -⟩ := Run.exec_cons_ok.mp ht
        rw [hexit] at hq
        cases hq
      · rintro ⟨⟨⟨hnames, hfills⟩, -⟩, hhash⟩
        exact hnot ⟨hnames, hfills, hhash⟩

/-- The plugins a daemon survives, exactly: no round ends the process, neither in `create_server`
nor in the filler thread, if and only if each of them names a library and a function in it, the
library can be loaded and exports `is_filler_alive`, and the function too unless the lookup of the
one forgets that the other was missing, and the first library also exports `custom_hash` and
`normalize_key`. -/
theorem run_survives_iff (linker : Linker γ α) (rounds : List Round) :
    (∃ t, Run.exec (round linker) init rounds = .ok t) ↔
      (∀ r ∈ rounds, r.NamesPlugin ∧ r.Fills linker) ∧
        ∀ r ∈ rounds.head?, r.Hashes linker := by
  rw [rounds_survive_iff rfl (Or.inr ⟨rfl, rfl⟩)]
  have hnot : ¬ (init : State γ α).Hashing := by
    rintro ⟨hsome, -⟩
    cases hsome
  rw [or_iff_right hnot]

end Swordfish.Plugin
