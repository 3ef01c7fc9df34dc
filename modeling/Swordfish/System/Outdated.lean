import Swordfish.System.LifeCycle

/-!
# The value of a stored key

`add` gives a stored key another value only when some key holds that value already
(`dhashmap.cpp:172-183`). A value that no key holds goes into `values_`, and the key keeps its own
with a new time (`dhashmap.cpp:209-215`). So a change that the library reports reaches the clients
only by way of another key, or after the key has been evicted.
-/

namespace Swordfish
open DHashmap

variable {cfg : FillerConfig} {env : Env} {s t : Sys} {action : Action} {key val : Str}

/-- The pair that the step adds to the store. -/
def Sys.adds (s : Sys) : Action → Option (Str × Str)
  | .filler _ =>
      match s.filler.pc with
      | .add _ key val => some (key, val)
      | _ => none
  | _ => none

/-- The filler adds, for `key`, another value than `val` that some key holds. -/
def Sys.Replaces (key val : Str) (s : Sys) (action : Action) : Prop :=
  ∃ pair ∈ s.adds action, pair.1 = key ∧ pair.2 ≠ val ∧ pair.2 ∈ s.storage.storage_.heldValues

instance (key val : Str) (s : Sys) (action : Action) : Decidable (s.Replaces key val action) :=
  inferInstanceAs (Decidable (∃ pair ∈ s.adds action, _))

/-! ## One step -/

theorem Sys.adds_of_pc {i : Nat} {now : TimeType} (hpc : s.filler.pc = .add i key val) :
    s.adds (.filler now) = some (key, val) := by
  simp only [Sys.adds, hpc]

theorem Sys.adds_eq_some (h : s.adds action = some (key, val)) :
    ∃ now i, action = .filler now ∧ s.filler.pc = .add i key val := by
  cases action with
  | filler now =>
    simp only [Sys.adds] at h
    split at h
    · rename_i i key' val' hpc
      cases h
      exact ⟨now, i, rfl, hpc⟩
    · cases h
  | request c args | client c now refresh | isFillerAlive answer | getVals ret vals | expirate
    | shutdown => cases h

/-- What is added under a key with a value that is held, is stored. -/
theorem SysCase.value_of_adds (h : SysCase cfg env s action t)
    (hw : Interned env s.storage.storage_) (hadds : s.adds action = some (key, val))
    (hheld : val ∈ s.storage.storage_.heldValues) {e : KeyType}
    (he : e ∈ t.storage.storage_.keys_.entries) (hkey : e.key_ = key) : e.value_.item = val := by
  obtain ⟨now, i, rfl, hpc⟩ := Sys.adds_eq_some hadds
  cases h with
  | filler h =>
    cases h with
    | @add i' key' val' storage hpc' hadd =>
      cases hpc.symm.trans hpc'
      obtain ⟨u, hu, hcase⟩ := add_cases hw now key val
      obtain rfl : storage = u := Except.ok.inj (hadd.symm.trans hu)
      obtain ⟨e', he', hkey', hown⟩ := hcase.own
      obtain rfl : e' = e := MultiIndex.eq_of_key_eq he' he (hkey'.trans hkey.symm)
      cases hown with
      | unchanged hmem hval => exact hval
      | stored hclean hother httl hval => exact hval
      | refreshed hreplaces hit hkey'' heq => exact absurd hheld hreplaces.2
    | test htest => simp [Filler.test, hpc] at htest
    | expirate hpc' | pop hpc' | addItem hpc' hpair hval | roundEnd hpc' hend | evict hpc' =>
      cases hpc.symm.trans hpc'

/-- The value of a key that stays stored changes in one way only. -/
theorem SysCase.holds_iff (h : SysCase cfg env s action t) (hw : Interned env s.storage.storage_)
    (hs : Holds s.storage.storage_ key val) (hstored : t.Stored key) :
    Holds t.storage.storage_ key val ↔ ¬ s.Replaces key val action := by
  obtain ⟨it, hit, hkey, hval⟩ := hs
  obtain ⟨e, he, hkey'⟩ := hstored
  constructor
  · rintro ⟨e', he', hkey'', hval'⟩ ⟨⟨key', val'⟩, hadds, rfl, hne, hheld⟩
    exact hne ((h.value_of_adds hw hadds hheld he' hkey'').symm.trans hval')
  · intro hkeeps
    refine ⟨e, he, hkey', ?_⟩
    cases h.entry hw he hkey' with
    | kept hmem hstale =>
      rw [MultiIndex.eq_of_key_eq hmem hit (hkey'.trans hkey.symm)]
      exact hval
    | touched hlookup hit' hkey'' hfresh heq =>
      rw [heq, MultiIndex.eq_of_key_eq hit' hit (hkey''.trans hkey.symm)]
      exact hval
    | @added i now val' haction hpc hown =>
      subst haction
      have hfilled : val' ≠ val → val' ∉ s.storage.storage_.heldValues :=
        fun hne hheld => hkeeps ⟨(key, val'), Sys.adds_of_pc hpc, rfl, hne, hheld⟩
      cases hown with
      | unchanged hmem hval' =>
        rw [MultiIndex.eq_of_key_eq hmem hit (hkey'.trans hkey.symm)]
        exact hval
      | stored hclean hother httl hval' =>
        -- the key is stored, so the value that it is given is held
        by_contra hne
        rw [hval'] at hne
        exact hclean ⟨⟨it, hit, hkey⟩, hfilled hne⟩
      | refreshed hreplaces hit' hkey'' heq =>
        rw [heq, MultiIndex.eq_of_key_eq hit' hit (hkey''.trans hkey.symm)]
        exact hval

/-! ## Runs -/

namespace Sys

/-- When the library's changes reach the clients, exactly: in every run in which no expiration takes
a key, it keeps its value all the time if and only if the filler never adds another value for it
that some key holds at that moment, whatever else the library says of it. -/
theorem run_keepsValue_iff {start : TimeType} {ttl : Nat}
    {maxStorageSize maxQueueSize expirateSize : UInt64} {before actions : List Action}
    (hbefore : run cfg env (.init (.init start ttl maxStorageSize maxQueueSize expirateSize))
      before = .ok s)
    (hholds : Holds s.storage.storage_ key val) (h : run cfg env s actions = .ok t)
    (hstored : Run.Every (step cfg env) (fun s _ => s.Stored key) s actions)
    (hend : t.Stored key) :
    (Run.Every (step cfg env) (fun s _ => Holds s.storage.storage_ key val) s actions ∧
        Holds t.storage.storage_ key val) ↔
      Run.Every (step cfg env) (fun s action => ¬ s.Replaces key val action) s actions := by
  have hprovenance : Provenance env s := run_provenance hbefore
  clear hbefore
  induction actions generalizing s with
  | nil =>
    cases h
    exact iff_of_true ⟨trivial, hholds⟩ trivial
  | cons action actions ih =>
    obtain ⟨u, hstep, hrest⟩ := Run.exec_cons_ok.mp h
    obtain ⟨hu, hstored⟩ := Run.every_state_next hstep hrest hstored hend
    have hcase := step_cases hstep
    have hnext := hcase.holds_iff hprovenance.stored.interned hholds hu
    constructor
    · rintro ⟨hevery, hlast⟩
      obtain ⟨hkept, hevery⟩ := Run.every_state_next
        (I := fun s : Sys => Holds s.storage.storage_ key val) hstep hrest hevery hlast
      have hlater := ih hkept hrest hstored (hcase.provenance hprovenance)
      exact (Run.every_cons hstep).mpr ⟨hnext.mp hkept, hlater.mp ⟨hevery, hlast⟩⟩
    · intro hkeeps
      obtain ⟨hkeep, hkeeps⟩ := (Run.every_cons hstep).mp hkeeps
      have hkept := hnext.mpr hkeep
      have hlater := ih hkept hrest hstored (hcase.provenance hprovenance)
      obtain ⟨hevery, hlast⟩ := hlater.mpr hkeeps
      exact ⟨(Run.every_cons hstep).mpr ⟨hholds, hevery⟩, hlast⟩

/-- The key is stored with `"v"`; at 20 the library says `"w"`, which is fetched and added. -/
def changeScript : List Action :=
  askScript 20 [107] ++ fetchScript 21 true [[119]] ++ List.replicate 4 (.filler 21)

/-- No key holds `"w"`, so the key still has `"v"`. -/
theorem run_keepsValue_iff_changed :
    ∃ s t, run ⟨false, 1⟩ .plain (.init (.init 0 10 100 100 1)) storeScript = .ok s ∧
      run ⟨false, 1⟩ .plain s changeScript = .ok t ∧ t.filler.vals = [[119]] ∧
      t.filler.pc = .loop ∧ Holds t.storage.storage_ [107] [118] := by
  obtain ⟨s, hs, hholds, hyields, hstored, hkeeps⟩ := Run.yields_iff.mp (by decide +kernel :
    Run.Yields (step ⟨false, 1⟩ .plain)
      (fun s => Holds s.storage.storage_ [107] [118] ∧
        Run.Yields (step ⟨false, 1⟩ .plain)
          (fun t => t.Stored [107] ∧ t.filler.vals = [[119]] ∧ t.filler.pc = .loop) s
          changeScript ∧
        Run.Every (step ⟨false, 1⟩ .plain) (fun s _ => s.Stored [107]) s changeScript ∧
        Run.Every (step ⟨false, 1⟩ .plain)
          (fun s action => ¬ s.Replaces [107] [118] action) s changeScript)
      (.init (.init 0 10 100 100 1)) storeScript)
  obtain ⟨t, ht, hend, hvals, hpc⟩ := Run.yields_iff.mp hyields
  have hkept := (run_keepsValue_iff hs hholds ht hstored hend).mpr hkeeps
  exact ⟨s, t, hs, ht, hvals, hpc, hkept.2⟩

end Sys

end Swordfish
