import Swordfish.Lib.UpgradableMutex

/-!
# Readers and writers

The lock protocol of `DHashmap` and `Stats`: each call is the sequence of its lock and unlock
steps, with the guarded code between them. `write_scoped_lock` takes the mutex by
`lock_upgradable` and never upgrades it to an exclusive ownership, so it excludes other writers,
and no reader.
-/

namespace Swordfish.Locks
open UpgradableMutex

/-- `DHashmap::mutex_` and `Stats::mutex_`. -/
inductive Mutex where
  | dhashmap
  | stats
  deriving DecidableEq, Repr

/-- The lock and unlock steps of a piece of code. -/
abbrev Script := List (Instr Mutex)

/-- The scope of a `read_scoped_lock` (`dhashmap.hpp:174-190`, `stats.hpp:43-59`). -/
def readScopedLock (m : Mutex) (guarded : Script) : Script :=
  .lock m .sharable :: guarded ++ [.unlock m .sharable]

/-- The scope of a `write_scoped_lock` (`dhashmap.hpp:192-208`, `stats.hpp:61-77`). -/
def writeScopedLock (m : Mutex) (guarded : Script) : Script :=
  .lock m .upgradable :: guarded ++ [.unlock m .upgradable]

/-- A call of a method of `DHashmap` or `Stats`; `stale` tells whether `get` finds its key with a
time that is over. -/
inductive Call where
  | expirate
  | get (stale : Bool)
  | add
  | getStorageSize
  | getKeysSize
  | getValuesSize
  | getDeleted
  | getGets
  | getUpdates
  | statsGet
  | setStartTime
  | setStorageSize
  | setValuesSize
  | setDeleted
  | setQueueSize
  | setGets
  | setUpdates
  | reset
  deriving DecidableEq, Repr

/-- The scopes of each method (`dhashmap.cpp:58-272`, `stats.cpp:12-95`). -/
def Call.script : Call → Script
  | .expirate => writeScopedLock .dhashmap [.body]
  | .get stale =>
      writeScopedLock .dhashmap [.body] ++
        readScopedLock .dhashmap
          (.body :: if stale then writeScopedLock .dhashmap [.body] else [.body])
  | .add => writeScopedLock .dhashmap [.body]
  | .getStorageSize => readScopedLock .dhashmap [.body]
  | .getKeysSize => readScopedLock .dhashmap [.body]
  | .getValuesSize => readScopedLock .dhashmap [.body]
  | .getDeleted => readScopedLock .dhashmap [.body]
  | .getGets => writeScopedLock .dhashmap [.body]
  | .getUpdates => writeScopedLock .dhashmap [.body]
  | .statsGet => readScopedLock .stats [.body]
  | .setStartTime => writeScopedLock .stats [.body]
  | .setStorageSize => writeScopedLock .stats [.body]
  | .setValuesSize => writeScopedLock .stats [.body]
  | .setDeleted => writeScopedLock .stats [.body]
  | .setQueueSize => writeScopedLock .stats [.body]
  | .setGets => writeScopedLock .stats [.body]
  | .setUpdates => writeScopedLock .stats [.body]
  | .reset => writeScopedLock .stats [.body]

/-- The call has a section guarded by a `read_scoped_lock` on `m`. -/
def Call.Reads (c : Call) (m : Mutex) : Prop := .lock m .sharable ∈ c.script

/-- The call has a section guarded by a `write_scoped_lock` on `m`. -/
def Call.Writes (c : Call) (m : Mutex) : Prop := .lock m .upgradable ∈ c.script

instance (c : Call) (m : Mutex) : Decidable (c.Reads m) :=
  inferInstanceAs (Decidable (_ ∈ c.script))

instance (c : Call) (m : Mutex) : Decidable (c.Writes m) :=
  inferInstanceAs (Decidable (_ ∈ c.script))

/-- Threads that make these calls, one after the other. -/
def programs {ι : Type} (calls : ι → List Call) : ι → Script :=
  fun i => (calls i).flatMap Call.script

section Threads

variable {ι : Type}

/-- The thread is inside a section guarded by a `read_scoped_lock` on `m`. -/
def InRead (s : ι → Thread Mutex) (i : ι) (m : Mutex) : Prop := (m, .sharable) ∈ (s i).held

/-- The thread is inside a section guarded by a `write_scoped_lock` on `m`. -/
def InWrite (s : ι → Thread Mutex) (i : ι) (m : Mutex) : Prop := (m, .upgradable) ∈ (s i).held

/-- While a thread is inside a write section, no other thread is inside a section on the same
mutex. -/
def Excluded (s : ι → Thread Mutex) : Prop :=
  ∀ m i j, i ≠ j → InWrite s i m → ¬ InRead s j m ∧ ¬ InWrite s j m

end Threads

/-! ## The scripts -/

/-- A call never waits for itself, and gives back what it takes. -/
theorem Call.clear (c : Call) : Clear [] c.script ∧ after [] c.script = [] := by
  cases c with
  | get stale =>
    cases stale <;>
      simp [Call.script, readScopedLock, writeScopedLock, Clear, after, Compatible]
  | expirate | add | getGets | getUpdates | setStartTime | setStorageSize | setValuesSize
    | setDeleted | setQueueSize | setGets | setUpdates | reset =>
    simp [Call.script, writeScopedLock, Clear, after, Compatible]
  | getStorageSize | getKeysSize | getValuesSize | getDeleted | statsGet =>
    simp [Call.script, readScopedLock, Clear, after, Compatible]

theorem clear_calls (calls : List Call) :
    Clear [] (calls.flatMap Call.script) ∧ after [] (calls.flatMap Call.script) = [] := by
  induction calls with
  | nil => exact ⟨trivial, rfl⟩
  | cons c calls ih =>
    obtain ⟨hclear, hafter⟩ := c.clear
    rw [List.flatMap_cons, clear_append, after_append, hafter]
    exact ⟨⟨hclear, ih.1⟩, ih.2⟩

/-- A call enters its read section without any other ownership. -/
theorem Call.reads_split {c : Call} {m : Mutex} (h : c.Reads m) :
    ∃ front rest, c.script = front ++ .lock m .sharable :: rest ∧ after [] front = [] := by
  cases c with
  | get stale =>
    have hm : m = .dhashmap := by
      cases stale <;> simpa [Call.Reads, Call.script, readScopedLock, writeScopedLock] using h
    subst hm
    exact ⟨writeScopedLock .dhashmap [.body], _, rfl, rfl⟩
  | getStorageSize | getKeysSize | getValuesSize | getDeleted | statsGet =>
    simp only [Call.Reads, Call.script, readScopedLock, List.cons_append, List.mem_cons,
      List.mem_append, Instr.lock.injEq, reduceCtorEq, List.not_mem_nil, and_true, or_false] at h
    subst h
    exact ⟨[], _, rfl, rfl⟩
  | expirate | add | getGets | getUpdates | setStartTime | setStorageSize | setValuesSize
    | setDeleted | setQueueSize | setGets | setUpdates | reset =>
    simp [Call.Reads, Call.script, writeScopedLock] at h

/-! ## The protocol -/

variable {ι : Type} [DecidableEq ι]

omit [DecidableEq ι] in
/-- What a thread locks, one of its calls locks. -/
theorem lock_mem_programs {calls : ι → List Call} {i : ι} {m : Mutex} {mode : Mode} :
    .lock m mode ∈ programs calls i ↔ ∃ c ∈ calls i, .lock m mode ∈ c.script :=
  List.mem_flatMap

/-- A thread that makes a call with a section on `m` can run alone up to it, while the others are
sharable owners at most. -/
theorem enter_section {calls : ι → List Call} {s : ι → Thread Mutex} {i : ι}
    (hstart : s i = start (programs calls) i) {c : Call} (hc : c ∈ calls i)
    {front rest : Script} {m : Mutex} {mode : Mode}
    (hscript : c.script = front ++ .lock m mode :: rest)
    (hothers : ∀ j ≠ i, ∀ p ∈ (s j).held, p.2 = .sharable) :
    ∃ todo, Relation.ReflTransGen Step s
      (Function.update s i ⟨todo, (m, mode) :: after [] front⟩) := by
  obtain ⟨before, later, hsplit⟩ := List.append_of_mem hc
  have hprogram : programs calls i =
      (before.flatMap Call.script ++ front ++ [.lock m mode]) ++
        (rest ++ later.flatMap Call.script) := by
    rw [programs, hsplit, List.flatMap_append, List.flatMap_cons, hscript]
    simp [List.append_assoc]
  have hclear : Clear [] (before.flatMap Call.script ++ front ++ [.lock m mode]) := by
    have hall : Clear [] (programs calls i) := (clear_calls (calls i)).1
    rw [hprogram] at hall
    exact (clear_append.mp hall).1
  have hafter : after [] (before.flatMap Call.script ++ front ++ [.lock m mode]) =
      (m, mode) :: after [] front := by
    rw [after_append, after_append, (clear_calls before).2]
    rfl
  have hheld : (s i).held = [] := by rw [hstart]; rfl
  have hrun := run_alone (s := s) (i := i) _ (rest ++ later.flatMap Call.script)
    (by rw [hstart]; exact hprogram) (by rw [hheld]; exact hclear) hothers
  rw [hheld, hafter] at hrun
  exact ⟨_, hrun⟩

/-- A reader and a writer of one mutex can be inside their sections at the same time. -/
theorem overlap_reachable (calls : ι → List Call) {m : Mutex} {i j : ι} (hij : i ≠ j) {w r : Call}
    (hw : w ∈ calls i) (hwrites : w.Writes m) (hr : r ∈ calls j) (hreads : r.Reads m) :
    ∃ s, Reachable (programs calls) s ∧ InWrite s i m ∧ InRead s j m := by
  obtain ⟨front, rest, hscript, hafter⟩ := Call.reads_split hreads
  obtain ⟨todo, hreader⟩ := enter_section (s := start (programs calls)) rfl hr hscript
    (fun k _ p hp => by cases hp)
  rw [hafter] at hreader
  obtain ⟨front', rest', hscript'⟩ := List.append_of_mem hwrites
  obtain ⟨todo', hwriter⟩ := enter_section
    (s := Function.update (start (programs calls)) j ⟨todo, [(m, .sharable)]⟩)
    (by rw [Function.update_of_ne hij]) hw hscript' (fun k hk p hp => by
      rcases eq_or_ne k j with rfl | hkj
      · rw [Function.update_self] at hp
        rw [List.mem_singleton.mp hp]
      · rw [Function.update_of_ne hkj] at hp
        cases hp)
  refine ⟨_, hreader.trans hwriter, ?_, ?_⟩
  · rw [InWrite, Function.update_self]
    exact List.mem_cons_self
  · rw [InRead, Function.update_of_ne hij.symm, Function.update_self]
    exact List.mem_cons_self

/-- Readers and writers, exactly: threads that make these calls exclude each other in every
interleaving if and only if no mutex has a thread that writes under it and another that reads
under it. Writers always exclude each other. -/
theorem excluded_iff (calls : ι → List Call) :
    (∀ s, Reachable (programs calls) s → Excluded s) ↔
      ∀ m i j, i ≠ j → (∃ c ∈ calls i, c.Writes m) → ¬ ∃ c ∈ calls j, c.Reads m := by
  constructor
  · rintro hexcluded m i j hij ⟨w, hw, hwrites⟩ ⟨r, hr, hreads⟩
    obtain ⟨s, hs, hwrite, hread⟩ := overlap_reachable calls hij hw hwrites hr hreads
    exact (hexcluded s hs m i j hij hwrite).1 hread
  · intro hcalls s hs m i j hij hwrite
    refine ⟨fun hread => ?_, hs.upgradable_unique m i j hij hwrite⟩
    apply hcalls m i j hij
    · exact lock_mem_programs.mp (hs.lock_mem hwrite)
    · exact lock_mem_programs.mp (hs.lock_mem hread)

/-- One thread in `get` and another in `add`: both are inside their sections on
`DHashmap::mutex_`. -/
theorem get_overlaps_add :
    ∃ s, Reachable (programs (fun i : Bool => if i then [.add] else [.get false])) s ∧
      InWrite s true .dhashmap ∧ InRead s false .dhashmap ∧ ¬ Excluded s := by
  obtain ⟨s, hs, hwrite, hread⟩ := overlap_reachable
    (fun i : Bool => if i then [.add] else [.get false]) (m := .dhashmap)
    (i := true) (j := false) (by decide) (w := .add) (by decide) (by decide)
    (r := .get false) (by decide) (by decide)
  exact ⟨s, hs, hwrite, hread, fun h => (h _ _ _ (by decide) hwrite).1 hread⟩

end Swordfish.Locks
