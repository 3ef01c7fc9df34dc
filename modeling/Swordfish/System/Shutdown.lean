import Swordfish.System.Progress

/-!
# The filler winds down

`reset_server` clears `is_alive_` and joins the filler thread (`daemon.cpp:211-237`). The loop looks
at the flag at its head and before each pop only, so the filler still finishes its round. Whatever
the other threads do meanwhile, it takes a bounded number of steps to the end: a rank of the points
of the loop falls with each step but for the evictions of `add_item`, and each of those takes an
entry from the store, unless there is none or evictions free nothing.
-/

namespace Swordfish
open DHashmap

variable {cfg : FillerConfig} {env : Env}

/-! ## How many entries the store has -/

theorem DHashmap.length_insertKey_le (env : Env) (s : DHashmap) (now : TimeType) (key : Str)
    (value : MapItem) :
    (s.insertKey env now key value).keys_.entries.length ≤ s.keys_.entries.length + 1 :=
  MultiIndex.length_insertAt_le _ _ _

theorem DHashmap.length_updateTtl (s : DHashmap) (now : TimeType) (key : Str) :
    (s.updateTtl now key).keys_.entries.length = s.keys_.entries.length :=
  List.length_map _

/-- A lookup neither adds nor removes an entry. -/
theorem DHashmap.GetCase.length_eq {s : DHashmap} {now refresh : TimeType} {_key val : Str}
    {r : DHashmap × GetResult} (h : GetCase env s now refresh _key val r) :
    r.1.keys_.entries.length = s.keys_.entries.length := by
  cases h with
  | missing habsent => rfl
  | fresh hit hkey hfresh => exact length_updateTtl s.countGet refresh _
  | stale hit hkey hstale => rfl

/-- `add` stores one entry more at most. -/
theorem DHashmap.AddCase.length_le {s t : DHashmap} {now : TimeType} {key val : Str}
    (h : AddCase env s now key val t) :
    t.keys_.entries.length ≤ s.keys_.entries.length + 1 := by
  cases h with
  | noChanges hit hkey hval => exact Nat.le_succ _
  | @replaceValue it holder hit hkey hval hholder hfound =>
    have herase := MultiIndex.length_erase_le s.keys_ it.key_
    exact (length_insertKey_le env _ now it.key_ holder.value_).trans (Nat.succ_le_succ herase)
  | addKey habsent hholder hfound => exact length_insertKey_le env s.allocate now key _
  | refreshKey hit hkey hnew =>
    have hlength := length_updateTtl s.allocate now key
    exact hlength.trans_le (Nat.le_succ _)
  | addPair habsent hnew => exact length_insertKey_le env _ now key _

theorem DHashmap.length_expirate (s : DHashmap) (n : UInt64) :
    (s.expirate n).keys_.entries.length = s.keys_.entries.length - s.expirateCount n :=
  List.length_drop

theorem DHashmap.length_expirate_lt {s : DHashmap} {n : UInt64} (hn : n ≠ 0)
    (hs : s.keys_.entries ≠ []) :
    (s.expirate n).keys_.entries.length < s.keys_.entries.length := by
  have hcount := expirateCount_pos (UInt64.pos_iff_ne_zero.mpr hn) hs
  have hpos := List.length_pos_iff.mpr hs
  rw [length_expirate]
  omega

/-- The number of keys that the storage holds. -/
def Storage.held (s : Storage) : Nat := s.storage_.keys_.entries.length

theorem Storage.held_expirate_le (s : Storage) : s.expirate.held ≤ s.held := by
  show (s.storage_.expirate s.expirateSize_).keys_.entries.length ≤ _
  rw [length_expirate]
  exact Nat.sub_le _ _

theorem ClientCase.held_eq {s t : Storage} {now refresh : TimeType} {c : Nat} {x y : Client}
    {event : Option Event} (h : ClientCase env s now refresh c x (t, y, event))
    (hw : Interned env s.storage_) : t.held = s.held := by
  have hget : ∀ {arg : Str} {storage : DHashmap} {out : GetResult},
      s.storage_.get env now refresh arg [] = .ok (storage, out) →
      storage.keys_.entries.length = s.held := by
    intro arg storage out hget
    obtain ⟨r, hr, hcase⟩ := get_cases hw now refresh arg []
    obtain rfl : (storage, out) = r := Except.ok.inj (hget.symm.trans hr)
    exact hcase.length_eq
  cases h with
  | answer hpc hargs => rfl
  | found hpc hargs hfound hval => exact hget hfound
  | silent hpc hargs hsilent hval => exact hget hsilent
  | sizeTest hpc => rfl
  | push hpc => rfl
  | setQueueSize hpc => rfl

/-! ## The rank of the points of the loop -/

/-- How far the point is from the end once `is_alive_` is cleared, with `batch` keys in `keys`. -/
def FillerPc.rank (batch : Nat) : FillerPc → Nat
  | .stopped => 0
  | .loop => 1
  | .pair i => 5 * (batch - i) + 2
  | .add i _ _ | .evict i _ _ => 5 * (batch - i) + 5
  | .capacityTest i _ _ => 5 * (batch - i) + 6
  | .fetch => 5 * batch + 3
  | .askAlive => 5 * batch + 4
  | .fetchTest => 5 * batch + 5
  | .aliveTest _ => 5 * batch + 6
  | .expirate => 5 * batch + 7
  | .fullTest => 5 * batch + 8
  | .pop _ => 5 * batch + 12
  | .sizeTest _ => 5 * batch + 13
  | .queueTest _ => 5 * batch + 14

theorem FillerPc.rank_le (batch : Nat) (pc : FillerPc) : pc.rank batch ≤ 5 * batch + 14 := by
  cases pc <;> simp only [FillerPc.rank] <;> omega

/-- Every test of the loop gets nearer to the end, when the flag is cleared. -/
theorem Filler.rank_of_test {s : Storage} {f : Filler} {pc : FillerPc}
    (h : f.test cfg s false = some pc) (batch : Nat) :
    pc.rank batch + 1 ≤ f.pc.rank batch := by
  unfold Filler.test at h
  cases hpc : f.pc with
  | loop | aliveTest t =>
    rw [hpc] at h
    simp at h
    subst h
    simp only [FillerPc.rank]
    omega
  | fullTest | queueTest t | sizeTest t | capacityTest i key val =>
    rw [hpc] at h
    simp only [Option.some.injEq] at h
    subst h
    split <;> simp only [FillerPc.rank] <;> omega
  | fetchTest =>
    rw [hpc] at h
    simp only [Option.some.injEq] at h
    subst h
    split
    · simp only [FillerPc.rank]
      omega
    · split <;> simp only [FillerPc.rank] <;> omega
  | expirate | pop t | askAlive | fetch | pair i | evict i key val | add i key val | stopped =>
    rw [hpc] at h
    cases h

/-- The eviction that takes no entry, because the store is empty or evictions free nothing, and the
test that follows it. -/
def Filler.futileSteps (s : Storage) (f : Filler) : Nat :=
  match f.pc with
  | .evict _ _ _ => if s.storage_.keys_.entries = [] ∨ s.expirateSize_ = 0 then 2 else 0
  | _ => 0

/-- A step of the filler lowers its rank, except where it takes entries from the store. -/
theorem FillerCase.rank_le {s t : Storage} {now : TimeType} {f g : Filler} {event : Option Event}
    (h : FillerCase cfg env s false now f (t, g, event)) (hw : Interned env s.storage_) :
    1 + (g.pc.rank g.keys.length + 2 * t.held) ≤
      f.pc.rank f.keys.length + 2 * s.held + f.futileSteps s := by
  cases h with
  | @test pc htest =>
    have hrank := Filler.rank_of_test htest f.keys.length
    show 1 + (pc.rank f.keys.length + 2 * s.held) ≤ _
    omega
  | expirate hpc =>
    have hheld := s.held_expirate_le
    simp only [hpc, FillerPc.rank]
    omega
  | @pop t hpc =>
    have hkeys : (if s.queue_.waitAndPop.2 ≠ [] then f.keys ++ [s.queue_.waitAndPop.2]
        else f.keys).length ≤ f.keys.length + 1 := by
      split
      · rw [List.length_append, List.length_singleton]
      · exact Nat.le_succ _
    simp only [hpc, FillerPc.rank]
    show 1 + (_ + 2 * s.held) ≤ _
    omega
  | @addItem i key val hpc hkey hval =>
    -- the pair that is taken is one less before the end of the batch
    have hless := (List.getElem?_eq_some_iff.mp hkey).1
    simp only [hpc, FillerPc.rank]
    omega
  | roundEnd hpc hend =>
    simp only [hpc, FillerPc.rank]
    omega
  | evict hpc =>
    simp only [hpc, FillerPc.rank, Filler.futileSteps]
    split
    · have hheld := s.held_expirate_le
      omega
    · rename_i hfrees
      obtain ⟨hentries, hsize⟩ := not_or.mp hfrees
      have hheld : s.expirate.held < s.held := length_expirate_lt hsize hentries
      omega
  | @add i key val storage hpc hadd =>
    obtain ⟨u, hu, hcase⟩ := add_cases hw now key val
    obtain rfl : storage = u := Except.ok.inj (hadd.symm.trans hu)
    have hheld : storage.keys_.entries.length ≤ s.held + 1 := hcase.length_le
    simp only [hpc, FillerPc.rank]
    show 1 + (_ + 2 * storage.keys_.entries.length) ≤ _
    omega

/-! ## The pops and the calls of `get_vals` that are left -/

/-- The key that the step pops from the queue. -/
def FillerPc.pops : FillerPc → Nat
  | .pop _ => 1
  | _ => 0

/-- The pops that are left once `is_alive_` is cleared: one past the test of the flag. -/
def FillerPc.popsLeft : FillerPc → Nat
  | .queueTest _ | .sizeTest _ | .pop _ => 1
  | _ => 0

/-- The calls of `get_vals` that are left once `is_alive_` is cleared: that of the round, unless it
has been made. -/
def FillerPc.fetchesLeft : FillerPc → Nat
  | .stopped | .loop | .pair _ | .capacityTest _ _ _ | .evict _ _ _ | .add _ _ _ => 0
  | _ => 1

theorem FillerPc.popsLeft_le_one (pc : FillerPc) : pc.popsLeft ≤ 1 := by
  cases pc <;> simp [FillerPc.popsLeft]

theorem FillerPc.fetchesLeft_le_one (pc : FillerPc) : pc.fetchesLeft ≤ 1 := by
  cases pc <;> simp [FillerPc.fetchesLeft]

theorem Filler.left_of_test {s : Storage} {f : Filler} {pc : FillerPc}
    (h : f.test cfg s false = some pc) :
    f.pc.pops + pc.popsLeft ≤ f.pc.popsLeft ∧ pc.fetchesLeft ≤ f.pc.fetchesLeft := by
  unfold Filler.test at h
  cases hpc : f.pc with
  | loop | aliveTest t =>
    rw [hpc] at h
    simp at h
    subst h
    exact ⟨Nat.le_refl _, Nat.le_refl _⟩
  | fullTest | queueTest t | sizeTest t | capacityTest i key val =>
    rw [hpc] at h
    simp only [Option.some.injEq] at h
    subst h
    split <;> simp [FillerPc.pops, FillerPc.popsLeft, FillerPc.fetchesLeft]
  | fetchTest =>
    rw [hpc] at h
    simp only [Option.some.injEq] at h
    subst h
    split
    · exact ⟨Nat.le_refl _, Nat.zero_le _⟩
    · split <;> exact ⟨Nat.le_refl _, Nat.le_refl _⟩
  | expirate | pop t | askAlive | fetch | pair i | evict i key val | add i key val | stopped =>
    rw [hpc] at h
    cases h

namespace Sys

/-- A step of the filler or of its library. -/
def ownSteps (_ : Sys) (action : Action) : Nat := if action.OfFiller then 1 else 0

/-- The steps of the filler that are lost to an eviction without effect. -/
def futileSteps (s : Sys) : Action → Nat
  | .filler _ => s.filler.futileSteps s.storage
  | _ => 0

/-- A key popped from the queue. -/
def pops (s : Sys) : Action → Nat
  | .filler _ => s.filler.pc.pops
  | _ => 0

/-- A call of `get_vals`. -/
def fetches (_ : Sys) : Action → Nat
  | .getVals _ _ => 1
  | _ => 0

/-- What the filler has before it: the rank of its point, and two steps for each entry that it may
have to evict. -/
def potential (s : Sys) : Nat := s.filler.pc.rank s.filler.keys.length + 2 * s.storage.held

variable {s t : Sys} {action : Action}

/-- The flag stays cleared. -/
theorem SysCase.isAlive_eq (h : SysCase cfg env s action t) (hshut : s.isAlive_ = false) :
    t.isAlive_ = false := by
  cases h with
  | request args hpc | client hclient | filler hfiller | isFillerAlive answer hpc
    | getVals ret vals hpc | expirate => exact hshut
  | shutdown => rfl

theorem SysCase.potential_le (h : SysCase cfg env s action t)
    (hw : Interned env s.storage.storage_) (hshut : s.isAlive_ = false) :
    s.ownSteps action + t.potential ≤ s.potential + s.futileSteps action := by
  cases h with
  | request args hpc | shutdown =>
    show 0 + s.potential ≤ s.potential + 0
    omega
  | @client c now refresh storage x event hclient =>
    have hheld := hclient.held_eq hw
    show 0 + (s.filler.pc.rank s.filler.keys.length + 2 * storage.held) ≤ s.potential + 0
    rw [hheld]
    show 0 + s.potential ≤ s.potential + 0
    omega
  | filler hfiller =>
    rw [hshut] at hfiller
    exact hfiller.rank_le hw
  | isFillerAlive answer hpc =>
    show 1 + (_ + 2 * s.storage.held) ≤ s.filler.pc.rank s.filler.keys.length + _ + 0
    rw [hpc]
    cases answer <;> simp only [FillerPc.rank, if_true, Bool.false_eq_true, if_false] <;> omega
  | getVals ret vals hpc =>
    show 1 + (_ + 2 * s.storage.held) ≤ s.filler.pc.rank s.filler.keys.length + _ + 0
    simp only [hpc, FillerPc.rank]
    omega
  | expirate =>
    have hheld := s.storage.held_expirate_le
    show 0 + (s.filler.pc.rank s.filler.keys.length + 2 * s.storage.expirate.held) ≤
      s.filler.pc.rank s.filler.keys.length + 2 * s.storage.held + 0
    omega

theorem SysCase.left_le (h : SysCase cfg env s action t) (hshut : s.isAlive_ = false) :
    s.pops action + t.filler.pc.popsLeft ≤ s.filler.pc.popsLeft ∧
      s.fetches action + t.filler.pc.fetchesLeft ≤ s.filler.pc.fetchesLeft := by
  cases h with
  | request args hpc | shutdown | client hclient | expirate =>
    exact ⟨Nat.le_of_eq (Nat.zero_add _), Nat.le_of_eq (Nat.zero_add _)⟩
  | filler hfiller =>
    rw [hshut] at hfiller
    cases hfiller with
    | test htest =>
      obtain ⟨hpops, hfetches⟩ := Filler.left_of_test htest
      exact ⟨hpops, (Nat.zero_add _).trans_le hfetches⟩
    | expirate hpc | pop hpc | addItem hpc hkey hval | roundEnd hpc hend | evict hpc
      | add hpc hadd =>
      simp only [pops, fetches, hpc, FillerPc.pops, FillerPc.popsLeft, FillerPc.fetchesLeft]
      omega
  | isFillerAlive answer hpc =>
    cases answer <;> simp [pops, fetches, hpc, FillerPc.popsLeft, FillerPc.fetchesLeft]
  | getVals ret vals hpc => simp [pops, fetches, hpc, FillerPc.popsLeft, FillerPc.fetchesLeft]

/-- Only at the end of the loop has the filler no step to take: nothing else stops it. -/
theorem exists_ownStep_iff (hw : Interned env s.storage.storage_) :
    (∃ action t, action.OfFiller ∧ step cfg env s action = .ok t) ↔ s.filler.pc ≠ .stopped := by
  constructor
  · rintro ⟨action, t, hown, hstep⟩ hpc
    cases step_cases hstep with
    | request args hidle | client hclient | expirate | shutdown => cases hown
    | isFillerAlive answer hask => cases hpc.symm.trans hask
    | getVals ret vals hfetch => cases hpc.symm.trans hfetch
    | filler hfiller =>
      cases hfiller with
      | test htest => simp [Filler.test, hpc] at htest
      | expirate hpc' | pop hpc' | addItem hpc' hkey hval | roundEnd hpc' hend | evict hpc'
        | add hpc' hadd => cases hpc.symm.trans hpc'
  · intro hpc
    have hfiller : (∃ r, s.filler.step cfg env s.storage s.isAlive_ 0 = .ok r) →
        ∃ action t, action.OfFiller ∧ step cfg env s action = .ok t := by
      rintro ⟨r, hr⟩
      have hstep : step cfg env s (.filler 0) = .ok { s with
          storage := r.1
          filler := r.2.1
          log := History.record r.2.2 s.log } := by
        simp only [step, hr]
      exact ⟨.filler 0, _, trivial, hstep⟩
    cases hcase : s.filler.pc with
    | askAlive =>
      have hstep : step cfg env s (.isFillerAlive true) =
          .ok { s with filler := { s.filler with pc := .fetch } } := by
        simp only [step, hcase, if_true]
      exact ⟨.isFillerAlive true, _, trivial, hstep⟩
    | fetch =>
      have hstep : step cfg env s (.getVals true []) = .ok { s with
          filler := { s.filler with pc := .pair 0, vals := [] }
          log := .fetched s.filler.keys true [] :: s.log } := by
        simp only [step, hcase]
      exact ⟨.getVals true [], _, trivial, hstep⟩
    | stopped => exact absurd hcase hpc
    | loop | fullTest | aliveTest t | queueTest t | sizeTest t | fetchTest
      | capacityTest i key val | expirate | pop t | evict i key val =>
      apply hfiller
      simp [Filler.step, Filler.test, hcase]
    | pair i =>
      apply hfiller
      cases hkey : s.filler.keys[i]? with
      | none => simp [Filler.step, Filler.test, hcase, hkey]
      | some key =>
        cases hval : s.filler.vals[i]? with
        | none => simp [Filler.step, Filler.test, hcase, hkey, hval]
        | some val => simp [Filler.step, Filler.test, hcase, hkey, hval]
    | add i key val =>
      obtain ⟨storage, hadd, -⟩ := add_cases hw 0 key val
      apply hfiller
      simp [Filler.step, Filler.test, hcase, hadd]

/-! ## Runs -/

/-- A reachable state in which the filler has been shut down. -/
def ShutDown (cfg : FillerConfig) (env : Env) (s : Sys) : Prop :=
  s.isAlive_ = false ∧ ∃ now ttl maxStorageSize maxQueueSize expirateSize actions,
    run cfg env (.init (.init now ttl maxStorageSize maxQueueSize expirateSize)) actions = .ok s

theorem ShutDown.interned (h : ShutDown cfg env s) : Interned env s.storage.storage_ := by
  obtain ⟨-, now, ttl, maxStorageSize, maxQueueSize, expirateSize, actions, hrun⟩ := h
  exact (run_provenance hrun).stored.interned

theorem ShutDown.next (h : ShutDown cfg env s) (hstep : step cfg env s action = .ok t) :
    ShutDown cfg env t := by
  obtain ⟨hshut, now, ttl, maxStorageSize, maxQueueSize, expirateSize, actions, hrun⟩ := h
  refine ⟨SysCase.isAlive_eq (step_cases hstep) hshut, now, ttl, maxStorageSize, maxQueueSize,
    expirateSize, actions ++ [action], ?_⟩
  exact Run.exec_concat_ok.mpr ⟨s, hrun, hstep⟩

/-- The keys `"k"` and `"l"` are asked for; the filler has popped the first when it is shut down. -/
def shutdownScript : List Action :=
  .request 0 [[107], [108]] :: List.replicate 9 (.client 0 0 0) ++
    List.replicate 6 (.filler 0) ++ [.shutdown]

/-- The filler finishes its round, with a client that asks for another key in between. -/
def windDownScript : List Action :=
  List.replicate 2 (.filler 0) ++ [.isFillerAlive true, .request 0 [[109]], .getVals true [[97]]] ++
    List.replicate 5 (.filler 0)

/-- The filler thread ends: once it is shut down, it and its library take at most five steps for
each key of its batch, two for each key that the storage holds and fourteen more, whatever all
others do, except for the steps that are lost to evictions without effect. And they are never kept
from their next step before the loop is left. -/
theorem run_stops {more : List Action} (h : ShutDown cfg env s)
    (hmore : run cfg env s more = .ok t) :
    Run.total (step cfg env) ownSteps s more ≤
        5 * s.filler.keys.length + 2 * s.storage.held + 14 +
          Run.total (step cfg env) futileSteps s more ∧
      ((∃ action u, action.OfFiller ∧ step cfg env t action = .ok u) ↔ t.filler.pc ≠ .stopped) := by
  have hnext : ∀ s action t, ShutDown cfg env s → step cfg env s action = .ok t →
      ShutDown cfg env t ∧
        s.ownSteps action + t.potential ≤ s.potential + s.futileSteps action :=
    fun s action t hs hstep =>
      ⟨hs.next hstep, SysCase.potential_le (step_cases hstep) hs.interned hs.1⟩
  have hcost : Run.total (step cfg env) ownSteps s more + t.potential ≤
      s.potential + Run.total (step cfg env) futileSteps s more :=
    Run.total_le_of_potential hnext h hmore
  have hstart : s.potential = s.filler.pc.rank s.filler.keys.length + 2 * s.storage.held := rfl
  have hrank := FillerPc.rank_le s.filler.keys.length s.filler.pc
  have hend : ShutDown cfg env t :=
    Run.exec_invariant (fun _ _ _ hs hstep => hs.next hstep) h hmore
  refine ⟨?_, exists_ownStep_iff hend.interned⟩
  omega

/-- It is shut down with a key in its batch: it fetches and stores the key, and ends. -/
theorem run_stops_popped :
    ∃ s t, run ⟨true, 5⟩ .plain (.init (.init 0 10 100 100 1)) shutdownScript = .ok s ∧
      run ⟨true, 5⟩ .plain s windDownScript = .ok t ∧
      Run.total (step ⟨true, 5⟩ .plain) ownSteps s windDownScript ≤ 19 ∧
      ¬ ∃ action u, action.OfFiller ∧ step ⟨true, 5⟩ .plain t action = .ok u := by
  obtain ⟨s, hrun, hshut, hkeys, hheld, hfutile, hend⟩ := Run.yields_iff.mp (by decide +kernel :
    Run.Yields (step ⟨true, 5⟩ .plain)
      (fun s => s.isAlive_ = false ∧ s.filler.keys.length = 1 ∧ s.storage.held = 0 ∧
        Run.total (step ⟨true, 5⟩ .plain) futileSteps s windDownScript = 0 ∧
        Run.Yields (step ⟨true, 5⟩ .plain) (fun t => t.filler.pc = .stopped) s windDownScript)
      (.init (.init 0 10 100 100 1)) shutdownScript)
  obtain ⟨t, hmore, hstopped⟩ := Run.yields_iff.mp hend
  obtain ⟨hsteps, hlast⟩ := run_stops ⟨hshut, 0, 10, 100, 100, 1, shutdownScript, hrun⟩ hmore
  rw [hkeys, hheld, hfutile] at hsteps
  exact ⟨s, t, hrun, hmore, hsteps, fun hown => hlast.mp hown hstopped⟩

/-- Once the filler is shut down, it pops one key more from the queue at most, and calls `get_vals`
once more at most, in every interleaving. -/
theorem run_windsDown {more : List Action} (h : ShutDown cfg env s)
    (hmore : run cfg env s more = .ok t) :
    Run.total (step cfg env) pops s more ≤ 1 ∧ Run.total (step cfg env) fetches s more ≤ 1 := by
  have hleft : ∀ s action t, ShutDown cfg env s → step cfg env s action = .ok t →
      s.pops action + t.filler.pc.popsLeft ≤ s.filler.pc.popsLeft ∧
        s.fetches action + t.filler.pc.fetchesLeft ≤ s.filler.pc.fetchesLeft :=
    fun s action t hs hstep => SysCase.left_le (step_cases hstep) hs.1
  have hpops : Run.total (step cfg env) pops s more ≤ s.filler.pc.popsLeft :=
    Run.total_le_of_measure (I := ShutDown cfg env) (fun s action t hs hstep =>
      ⟨hs.next hstep, (hleft s action t hs hstep).1⟩) h hmore
  have hfetches : Run.total (step cfg env) fetches s more ≤ s.filler.pc.fetchesLeft :=
    Run.total_le_of_measure (I := ShutDown cfg env) (fun s action t hs hstep =>
      ⟨hs.next hstep, (hleft s action t hs hstep).2⟩) h hmore
  exact ⟨hpops.trans s.filler.pc.popsLeft_le_one, hfetches.trans s.filler.pc.fetchesLeft_le_one⟩

/-- In the same run nothing more is popped, and there is one call of `get_vals`. -/
theorem run_windsDown_popped :
    ∃ s, run ⟨true, 5⟩ .plain (.init (.init 0 10 100 100 1)) shutdownScript = .ok s ∧
      Run.total (step ⟨true, 5⟩ .plain) pops s windDownScript ≤ 1 ∧
      Run.total (step ⟨true, 5⟩ .plain) fetches s windDownScript ≤ 1 := by
  obtain ⟨s, hrun, hshut, hend⟩ := Run.yields_iff.mp (by decide +kernel :
    Run.Yields (step ⟨true, 5⟩ .plain)
      (fun s => s.isAlive_ = false ∧
        Run.Yields (step ⟨true, 5⟩ .plain) (fun _ => True) s windDownScript)
      (.init (.init 0 10 100 100 1)) shutdownScript)
  obtain ⟨t, hmore, -⟩ := Run.yields_iff.mp hend
  exact ⟨s, hrun, run_windsDown ⟨hshut, 0, 10, 100, 100, 1, shutdownScript, hrun⟩ hmore⟩

end Sys

end Swordfish
