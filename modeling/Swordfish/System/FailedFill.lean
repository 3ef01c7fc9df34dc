import Swordfish.System.Steps

/-!
# Fills that fail

`keys` is cleared at the end of every round that called `get_vals`; `vals` never is, and the
result of `get_vals` is ignored. A call that fails and leaves `vals` as it received it is harmless
as long as `vals` is empty, that is, before the first call that succeeds. After it, the values of
an earlier round are stored under the keys of this one.
-/

namespace Swordfish

variable {cfg : FillerConfig} {env : Env}

/-- The most recent call of `get_vals`: its keys, its result and the values it left. -/
def lastFetch : List Event → Option (List Str × Bool × List Str)
  | [] => none
  | .fetched keys ret vals :: _ => some (keys, ret, vals)
  | .addItem _ _ :: before | .sent _ _ _ :: before => lastFetch before

/-- A call of `get_vals` that succeeded. -/
def Event.Succeeded : Event → Prop
  | .fetched _ ret _ => ret = true
  | _ => False

instance : DecidablePred Event.Succeeded
  | .fetched _ ret _ => inferInstanceAs (Decidable (ret = true))
  | .addItem _ _ | .sent _ _ _ => isFalse id

/-- Some call of `get_vals` in the log succeeded. -/
def HasFetched (log : List Event) : Prop := ∃ e ∈ log, e.Succeeded

instance : DecidablePred HasFetched := fun log =>
  inferInstanceAs (Decidable (∃ e ∈ log, e.Succeeded))

/-- An `add_item(key, val)` stores what the call of `get_vals` of its round returned for `key`. -/
def Event.SameRound (before : List Event) : Event → Prop
  | .addItem key val =>
      ∃ keys vals, lastFetch before = some (keys, true, vals) ∧ (key, val) ∈ keys.zip vals
  | _ => True

/-- The contract of `get_vals`: on success one value for each key, on failure `vals` as it was. -/
def Action.Honours (s : Sys) : Action → Prop
  | .getVals ret vals =>
      if ret then vals.length = s.filler.keys.length else vals = s.filler.vals
  | _ => True

instance (s : Sys) : DecidablePred (Action.Honours s)
  | .getVals ret vals =>
      inferInstanceAs (Decidable
        (if ret then vals.length = s.filler.keys.length else vals = s.filler.vals))
  | .request _ _ | .client _ _ _ | .filler _ | .isFillerAlive _ | .expirate | .shutdown =>
      isTrue trivial

/-- The call of `get_vals` fails after an earlier one has succeeded. -/
def Action.FailsLate (s : Sys) : Action → Prop
  | .getVals ret _ => ret = false ∧ HasFetched s.log
  | _ => False

instance (s : Sys) : DecidablePred (Action.FailsLate s)
  | .getVals ret _ => inferInstanceAs (Decidable (ret = false ∧ HasFetched s.log))
  | .request _ _ | .client _ _ _ | .filler _ | .isFillerAlive _ | .expirate | .shutdown =>
      isFalse id

/-! ## The invariant -/

/-- What the filler's locals have to do with the calls of `get_vals`. `cold` is why an early
failure stores nothing, `warm` why a late one does. -/
structure Filling (s : Sys) : Prop where
  cold : ¬ HasFetched s.log → s.filler.vals = []
  warm : HasFetched s.log → s.filler.vals ≠ []
  batch : s.filler.pc = .askAlive ∨ s.filler.pc = .fetch → s.filler.keys ≠ []

/-- The filler stores the values of this round, or has none. -/
def SameRound (s : Sys) : Prop :=
  s.filler.pc.Storing →
    s.filler.vals = [] ∨ lastFetch s.log = some (s.filler.keys, true, s.filler.vals)

/-- A step that logs no call of `get_vals` leaves the record of these calls as it was. -/
theorem fetches_record (log : List Event) {event : Option Event}
    (h : ∀ keys ret vals, event ≠ some (.fetched keys ret vals)) :
    (HasFetched (History.record event log) ↔ HasFetched log) ∧
      lastFetch (History.record event log) = lastFetch log := by
  cases event with
  | none => exact ⟨Iff.rfl, rfl⟩
  | some e =>
    cases e with
    | fetched keys ret vals => exact absurd rfl (h keys ret vals)
    | addItem key val => simp [HasFetched, History.record, Event.Succeeded, lastFetch]
    | sent c items res => simp [HasFetched, History.record, Event.Succeeded, lastFetch]

theorem ClientCase.sent {s : Storage} {now refresh : TimeType} {c : Nat} {x : Client}
    {r : Storage × Client × Option Event} (h : ClientCase env s now refresh c x r) :
    ∀ e, r.2.2 = some e → ∃ items res, e = .sent c items res := by
  intro e he
  cases h with
  | answer hpc hargs =>
    cases he
    exact ⟨_, _, rfl⟩
  | found hpc hargs hget hval => cases he
  | silent hpc hargs hget hval => cases he
  | sizeTest hpc => cases he
  | push hpc => cases he
  | setQueueSize hpc => cases he

/-- A step of the filler keeps `vals`, and keeps `keys` in the loop over the fetched values. What
it logs is the pair at which it stands. -/
theorem FillerCase.locals {s : Storage} {isAlive : Bool} {now : TimeType} {f : Filler}
    {r : Storage × Filler × Option Event} (h : FillerCase cfg env s isAlive now f r) :
    r.2.1.vals = f.vals ∧ (r.2.1.pc.Storing → f.pc.Storing ∧ r.2.1.keys = f.keys) ∧
      (r.2.1.pc = .askAlive ∨ r.2.1.pc = .fetch → r.2.1.keys ≠ []) ∧
      ∀ e, r.2.2 = some e → f.pc.Storing ∧
        ∃ key val, e = .addItem key val ∧ (key, val) ∈ f.keys.zip f.vals := by
  cases h with
  | @test pc htest =>
    refine ⟨rfl, fun hpc => ⟨(Filler.storing_of_test htest hpc).1, rfl⟩, fun hask => ?_, ?_⟩
    · exact Filler.keys_ne_nil_of_test (f := f) htest hask
    · intro e he
      cases he
  | expirate hpc => simp [FillerPc.Storing]
  | pop hpc => simp [FillerPc.Storing]
  | @addItem i key val hpc hkey hval =>
    have hstoring : f.pc.Storing := by rw [hpc]; trivial
    refine ⟨rfl, fun _ => ⟨hstoring, rfl⟩, by simp, fun e he => ?_⟩
    cases he
    refine ⟨hstoring, key, val, rfl, ?_⟩
    exact List.mem_of_getElem? (List.getElem?_zip_eq_some.mpr ⟨hkey, hval⟩)
  | roundEnd hpc hend => simp [FillerPc.Storing]
  | evict hpc =>
    have hstoring : f.pc.Storing := by rw [hpc]; trivial
    exact ⟨rfl, fun _ => ⟨hstoring, rfl⟩, by simp, fun e he => by cases he⟩
  | add hpc hadd =>
    have hstoring : f.pc.Storing := by rw [hpc]; trivial
    exact ⟨rfl, fun _ => ⟨hstoring, rfl⟩, by simp, fun e he => by cases he⟩

/-- A client does not call `get_vals`. -/
theorem ClientCase.no_fetch {s : Storage} {now refresh : TimeType} {c : Nat} {x : Client}
    {r : Storage × Client × Option Event} (h : ClientCase env s now refresh c x r) :
    ∀ keys ret vals, r.2.2 ≠ some (.fetched keys ret vals) := by
  intro keys ret vals he
  obtain ⟨items, res, heq⟩ := h.sent _ he
  cases heq

/-- The steps of the filler between the calls of the library do not call `get_vals`. -/
theorem FillerCase.no_fetch {s : Storage} {isAlive : Bool} {now : TimeType} {f : Filler}
    {r : Storage × Filler × Option Event} (h : FillerCase cfg env s isAlive now f r) :
    ∀ keys ret vals, r.2.2 ≠ some (.fetched keys ret vals) := by
  intro keys ret vals he
  obtain ⟨-, key, val, heq, -⟩ := h.locals.2.2.2 _ he
  cases heq

theorem filling_init (storage : Storage) : Filling (.init storage) where
  cold _ := rfl
  warm h := by
    obtain ⟨e, hmem, -⟩ := h
    cases hmem
  batch h := by rcases h with h | h <;> cases h

/-- Every step whose `get_vals` honours its contract keeps the invariant. -/
theorem SysCase.filling {s t : Sys} {action : Action} (h : SysCase cfg env s action t)
    (hcontract : action.Honours s) (hs : Filling s) : Filling t := by
  cases h with
  | request args hpc => exact ⟨hs.cold, hs.warm, hs.batch⟩
  | @client c now refresh storage x event h =>
    have hlog := (fetches_record s.log h.no_fetch).1
    exact ⟨fun hnot => hs.cold (mt hlog.mpr hnot), fun hhas => hs.warm (hlog.mp hhas), hs.batch⟩
  | @filler now storage f event h =>
    obtain ⟨hvals, -, hbatch, -⟩ := h.locals
    have hlog := (fetches_record s.log h.no_fetch).1
    refine ⟨fun hnot => ?_, fun hhas => ?_, hbatch⟩
    · exact hvals.trans (hs.cold (mt hlog.mpr hnot))
    · exact fun hnil => hs.warm (hlog.mp hhas) (hvals.symm.trans hnil)
  | isFillerAlive answer hpc => exact ⟨hs.cold, hs.warm, fun _ => hs.batch (Or.inl hpc)⟩
  | getVals ret vals hpc =>
    have hkeys := hs.batch (Or.inr hpc)
    cases ret with
    | true =>
      have hlength : vals.length = s.filler.keys.length := by simpa [Action.Honours] using hcontract
      have hvals : vals ≠ [] := by
        intro hnil
        rw [hnil] at hlength
        exact hkeys (List.length_eq_zero_iff.mp hlength.symm)
      refine ⟨fun hnot => ?_, fun _ => hvals, fun h => by rcases h with h | h <;> cases h⟩
      exact absurd ⟨_, List.mem_cons_self, rfl⟩ hnot
    | false =>
      have hvals : vals = s.filler.vals := by simpa [Action.Honours] using hcontract
      have hlog : HasFetched (.fetched s.filler.keys false vals :: s.log) ↔ HasFetched s.log := by
        simp [HasFetched, Event.Succeeded]
      refine ⟨fun hnot => ?_, fun hhas => ?_, fun h => by rcases h with h | h <;> cases h⟩
      · exact hvals.trans (hs.cold (mt hlog.mpr hnot))
      · exact fun hnil => hs.warm (hlog.mp hhas) (hvals.symm.trans hnil)
  | expirate => exact ⟨hs.cold, hs.warm, hs.batch⟩
  | shutdown => exact ⟨hs.cold, hs.warm, hs.batch⟩

/-- Every step in which `get_vals` honours its contract, and does not fail late, keeps the filler
at the values of its round. -/
theorem SysCase.sameRound {s t : Sys} {action : Action} (h : SysCase cfg env s action t)
    (hcontract : action.Honours s) (hearly : ¬ action.FailsLate s) (hs : Filling s)
    (hround : SameRound s) : SameRound t := by
  cases h with
  | request args hpc => exact hround
  | @client c now refresh storage x event h =>
    have hlast := (fetches_record s.log h.no_fetch).2
    intro hpc
    change _ ∨ lastFetch (History.record event s.log) = _
    rw [hlast]
    exact hround hpc
  | @filler now storage f event h =>
    obtain ⟨hvals, hkeys, -, -⟩ := h.locals
    have hlast := (fetches_record s.log h.no_fetch).2
    intro hpc
    obtain ⟨hstoring, hsame⟩ := hkeys hpc
    change f.vals = [] ∨ lastFetch (History.record event s.log) = some (f.keys, true, f.vals)
    change f.vals = s.filler.vals at hvals
    change f.keys = s.filler.keys at hsame
    rw [hlast, hvals, hsame]
    exact hround hstoring
  | isFillerAlive answer hpc =>
    intro hstoring
    cases answer <;> cases hstoring
  | getVals ret vals hpc =>
    intro _
    cases ret with
    | true => exact Or.inr rfl
    | false =>
      have hvals : vals = s.filler.vals := by simpa [Action.Honours] using hcontract
      exact Or.inl (hvals.trans (hs.cold (fun hhas => hearly ⟨rfl, hhas⟩)))
  | expirate => exact hround
  | shutdown => exact hround

theorem SysCase.explained {s t : Sys} {action : Action} (h : SysCase cfg env s action t)
    (hround : SameRound s) (hs : History.Explained Event.SameRound s.log) :
    History.Explained Event.SameRound t.log := by
  cases h with
  | request args hpc => exact hs
  | client h =>
    refine History.explained_record hs (fun e he => ?_)
    obtain ⟨items, res, rfl⟩ := h.sent e he
    trivial
  | filler h =>
    refine History.explained_record hs (fun e he => ?_)
    obtain ⟨-, -, -, hevent⟩ := h.locals
    obtain ⟨hstoring, key, val, rfl, hpair⟩ := hevent e he
    rcases hround hstoring with hnil | hlast
    · rw [hnil, List.zip_nil_right] at hpair
      cases hpair
    · exact ⟨_, _, hlast, hpair⟩
  | isFillerAlive answer hpc => exact hs
  | getVals ret vals hpc => exact ⟨trivial, hs⟩
  | expirate => exact hs
  | shutdown => exact hs

/-! ## Runs -/

/-- The invariant after a run in which `get_vals` honours its contract. -/
theorem run_filling {storage : Storage} {actions : List Action} {s : Sys}
    (h : Sys.run cfg env (.init storage) actions = .ok s)
    (hcontract : Run.Every (Sys.step cfg env) (fun s action => action.Honours s) (.init storage)
      actions) : Filling s :=
  Run.every_induction (P := fun _ s => Filling s) (filling_init storage)
    (fun _ _ _ _ _ hs hop hstep => (Sys.step_cases hstep).filling hop hs) h hcontract

/-- Failed fills store nothing wrong in every run, of the filler with any clients and
expirations, in which no call of `get_vals` fails after an earlier one has succeeded: every
`add_item(key, val)` has the value that the call of `get_vals` of its round returned for `key`. -/
theorem fills_sameRound {storage : Storage} {actions : List Action} {s : Sys}
    (h : Sys.run cfg env (.init storage) actions = .ok s)
    (hcontract : Run.Every (Sys.step cfg env) (fun s action => action.Honours s) (.init storage)
      actions)
    (hearly : Run.Every (Sys.step cfg env) (fun s action => ¬ action.FailsLate s) (.init storage)
      actions) :
    ∀ after key val before, s.log = after ++ .addItem key val :: before →
      ∃ keys vals, lastFetch before = some (keys, true, vals) ∧ (key, val) ∈ keys.zip vals := by
  have hinv : SameRound s ∧ History.Explained Event.SameRound s.log := by
    refine Run.every_induction
      (C := fun s action => action.Honours s ∧ ¬ action.FailsLate s)
      (P := fun actions s =>
        Run.Every (Sys.step cfg env) (fun s action => action.Honours s) (.init storage) actions →
          SameRound s ∧ History.Explained Event.SameRound s.log) ?_ ?_ h ?_ hcontract
    · exact fun _ => ⟨fun hpc => hpc.elim, trivial⟩
    · intro actions s action t hrun ih hop hstep hevery
      have hbefore := ((Run.every_concat hrun).mp hevery).1
      obtain ⟨hround, hexplained⟩ := ih hbefore
      have hcase := Sys.step_cases hstep
      have hfilling := run_filling hrun hbefore
      exact ⟨hcase.sameRound hop.1 hop.2 hfilling hround, hcase.explained hround hexplained⟩
    · exact Run.every_and.mpr ⟨hcontract, hearly⟩
  intro after key val before hlog
  exact History.explained_iff.mp hinv.2 after _ before hlog

/-- The first fetch of `"k"` fails, the second returns `"v"`, which is stored. -/
theorem fills_sameRound_early :
    ∃ s before, Sys.run ⟨false, 1⟩ .plain (.init (.init 0 10 100 100 1))
        (askScript 0 [107] ++ fetchScript 1 false [] ++ [.filler 1] ++ askScript 2 [107] ++
          fetchScript 3 true [[118]] ++ [.filler 3]) = .ok s ∧
      s.log = .addItem [107] [118] :: before ∧
      ∃ keys vals, lastFetch before = some (keys, true, vals) ∧
        ([107], [118]) ∈ keys.zip vals := by
  obtain ⟨s, hrun, hlog⟩ := Run.yields_iff.mp (by decide +kernel :
    Run.Yields (Sys.step ⟨false, 1⟩ .plain)
      (fun s => s.log =
        [.addItem [107] [118], .fetched [[107]] true [[118]], .sent 0 [] (text "END\r\n"),
          .fetched [[107]] false [], .sent 0 [] (text "END\r\n")])
      (.init (.init 0 10 100 100 1))
      (askScript 0 [107] ++ fetchScript 1 false [] ++ [.filler 1] ++ askScript 2 [107] ++
        fetchScript 3 true [[118]] ++ [.filler 3]))
  exact ⟨s, _, hrun, hlog,
    fills_sameRound hrun (by decide +kernel) (by decide +kernel) [] _ _ _ hlog⟩

/-- A late failure does store a value of an earlier round: the filler's next step is an `add_item`
with the first key of this round and the first value left in `vals`. -/
theorem late_failure_stores {storage : Storage} {actions : List Action} {s : Sys}
    (h : Sys.run cfg env (.init storage) actions = .ok s)
    (hcontract : Run.Every (Sys.step cfg env) (fun s action => action.Honours s) (.init storage)
      actions) (hpc : s.filler.pc = .fetch) (hlate : HasFetched s.log) (now : TimeType) :
    ∃ key val t, Sys.run cfg env s [.getVals false s.filler.vals, .filler now] = .ok t ∧
      t.log = .addItem key val :: .fetched s.filler.keys false s.filler.vals :: s.log := by
  have hs := run_filling h hcontract
  obtain ⟨key, keys, hkeys⟩ := List.exists_cons_of_ne_nil (hs.batch (Or.inr hpc))
  obtain ⟨val, vals, hvals⟩ := List.exists_cons_of_ne_nil (hs.warm hlate)
  refine ⟨key, val, ?_⟩
  simp [Sys.run, Run.exec, Sys.step, hpc, Filler.step, Filler.test, hkeys, hvals, History.record]

/-- The fetch of `"k"` succeeds with `"v"`, then the fetch of `"l"` fails: the filler stores `"v"`
under `"l"`. -/
theorem failed_fill_stores_stale :
    ∃ s before, Sys.run ⟨false, 1⟩ .plain (.init (.init 0 10 100 100 1))
        (askScript 0 [107] ++ fetchScript 1 true [[118]] ++ List.replicate 4 (.filler 1) ++
          askScript 2 [108] ++ fetchScript 3 false [[118]] ++ [.filler 3]) = .ok s ∧
      Run.Every (Sys.step ⟨false, 1⟩ .plain) (fun s action => action.Honours s)
        (.init (.init 0 10 100 100 1))
        (askScript 0 [107] ++ fetchScript 1 true [[118]] ++ List.replicate 4 (.filler 1) ++
          askScript 2 [108] ++ fetchScript 3 false [[118]] ++ [.filler 3]) ∧
      s.log = .addItem [108] [118] :: before ∧
      lastFetch before = some ([[108]], false, [[118]]) := by
  obtain ⟨s, hrun, hlog⟩ := Run.yields_iff.mp (by decide +kernel :
    Run.Yields (Sys.step ⟨false, 1⟩ .plain)
      (fun s => s.log =
        [.addItem [108] [118], .fetched [[108]] false [[118]], .sent 0 [] (text "END\r\n"),
          .addItem [107] [118], .fetched [[107]] true [[118]], .sent 0 [] (text "END\r\n")])
      (.init (.init 0 10 100 100 1))
      (askScript 0 [107] ++ fetchScript 1 true [[118]] ++ List.replicate 4 (.filler 1) ++
        askScript 2 [108] ++ fetchScript 3 false [[118]] ++ [.filler 3]))
  exact ⟨s, _, hrun, by decide +kernel, hlog, rfl⟩

end Swordfish
