import Swordfish.Threads.Deadlock

/-!
# The sections of a call

`Locks.Call` gives the sections of a method as a list, and `Method.code` its code with branches and
loops. The two agree: what the code locks and unlocks on its ways to its end are the lists of the
calls of that method.
-/

namespace Swordfish.Threads
open LockProgram

/-- The method that is called. -/
def Method.ofCall : Locks.Call → Method
  | .expirate => .expirate
  | .get _ => .get
  | .add => .add
  | .getStorageSize => .getStorageSize
  | .getKeysSize => .getKeysSize
  | .getValuesSize => .getValuesSize
  | .getDeleted => .getDeleted
  | .getGets => .getGets
  | .getUpdates => .getUpdates
  | .statsGet => .statsGet
  | .setStartTime => .setStartTime
  | .setStorageSize => .setStorageSize
  | .setValuesSize => .setValuesSize
  | .setDeleted => .setDeleted
  | .setQueueSize => .setQueueSize
  | .setGets => .setGets
  | .setUpdates => .setUpdates
  | .reset => .reset

/-- A step of the lock protocol on the mutexes of all classes; what is guarded is left out. -/
def ofStep : UpgradableMutex.Instr Locks.Mutex → Option (UpgradableMutex.Instr Mutex)
  | .lock m mode => some (.lock (.upgradable m) mode)
  | .unlock m mode => some (.unlock (.upgradable m) mode)
  | .body => none

variable {m : Locks.Mutex} {guarded : Script} {k : List Script}
  {xs : List (UpgradableMutex.Instr Mutex)}

/-- The lock and unlock of a section. -/
def sectionOf (m : Locks.Mutex) (mode : UpgradableMutex.Mode) :
    List (UpgradableMutex.Instr Mutex) :=
  [.lock (.upgradable m) mode, .unlock (.upgradable m) mode]

theorem locks_readScopedLock (h : guarded.lockFree = true) :
    LockProgram.Locks [readScopedLock m guarded] xs ↔ xs = sectionOf m .sharable := by
  refine (locks_section h).trans ?_
  simp [sectionOf]

theorem locks_writeScopedLock (h : guarded.lockFree = true) :
    LockProgram.Locks [writeScopedLock m guarded] xs ↔ xs = sectionOf m .upgradable := by
  refine (locks_section h).trans ?_
  simp [sectionOf]

/-- `DHashmap::get` has two ways: only for a stale entry it takes the nested write section. -/
theorem locks_get :
    LockProgram.Locks [DHashmap.get] xs ↔
      ∃ stale, xs = (Locks.Call.get stale).script.filterMap ofStep := by
  have hbody : body.lockFree = true := rfl
  have hgets : (increment .gets).lockFree = true := rfl
  have hupdates : (increment .updates).lockFree = true := rfl
  have hfresh : (Locks.Call.get false).script.filterMap ofStep =
      sectionOf .dhashmap .upgradable ++ sectionOf .dhashmap .sharable := rfl
  have hstale : (Locks.Call.get true).script.filterMap ofStep =
      sectionOf .dhashmap .upgradable ++ .lock (.upgradable .dhashmap) .sharable ::
        sectionOf .dhashmap .upgradable ++ [.unlock (.upgradable .dhashmap) .sharable] := rfl
  rw [Bool.exists_bool, hfresh, hstale]
  simp only [DHashmap.get, writeScopedLock, readScopedLock, Code.block, locks_seq, locks_lock,
    locks_unlock, locks_choice, locks_of_lockFree hbody, locks_of_lockFree hgets,
    locks_of_lockFree hupdates, locks_nil, sectionOf]
  constructor
  · rintro ⟨_, rfl, _, rfl, _, rfl, ⟨_, rfl, rfl⟩ | ⟨_, rfl, rfl⟩ | ⟨_, rfl, _, rfl, _, rfl, rfl⟩⟩
    · exact Or.inl rfl
    · exact Or.inl rfl
    · exact Or.inr rfl
  · rintro (rfl | rfl)
    · exact ⟨_, rfl, _, rfl, _, rfl, Or.inl ⟨_, rfl, rfl⟩⟩
    · exact ⟨_, rfl, _, rfl, _, rfl, Or.inr (Or.inr ⟨_, rfl, _, rfl, _, rfl, rfl⟩)⟩

/-- A method is called in one way, but for `get`. -/
theorem exists_call_iff {call : Locks.Call} (hget : ∀ stale, call ≠ .get stale)
    {P : Locks.Call → Prop} :
    (∃ c, Method.ofCall c = Method.ofCall call ∧ P c) ↔ P call := by
  refine ⟨?_, fun h => ⟨call, rfl, h⟩⟩
  rintro ⟨c, hc, h⟩
  cases call <;> cases c <;> first | exact h | exact absurd rfl (hget _) | cases hc

/-- The two models of the locks agree: what the code of a method locks and unlocks, on all of its
ways, are the sections of its calls. -/
theorem locks_code_iff (call : Locks.Call) :
    LockProgram.Locks [(Method.ofCall call).code] xs ↔
      ∃ c, Method.ofCall c = Method.ofCall call ∧ xs = c.script.filterMap ofStep := by
  cases call with
  | get stale =>
    rw [Method.ofCall, Method.code, locks_get]
    constructor
    · rintro ⟨stale', h⟩
      exact ⟨.get stale', rfl, h⟩
    · rintro ⟨c, hc, h⟩
      cases c <;> first | exact ⟨_, h⟩ | cases hc
  | getStorageSize | getKeysSize | getValuesSize =>
    rw [exists_call_iff (fun _ => Locks.Call.noConfusion)]
    exact locks_readScopedLock rfl
  | statsGet =>
    rw [exists_call_iff (fun _ => Locks.Call.noConfusion)]
    exact locks_seq.trans ((locks_of_lockFree rfl).trans (locks_readScopedLock rfl))
  | getDeleted =>
    rw [exists_call_iff (fun _ => Locks.Call.noConfusion)]
    refine locks_seq.trans (locks_act.trans (locks_seq.trans ((locks_section rfl).trans ?_)))
    simp only [Code.block, locks_act, locks_nil]
    exact exists_eq_right
  | expirate =>
    rw [exists_call_iff (fun _ => Locks.Call.noConfusion)]
    refine locks_seq.trans (locks_act.trans (locks_seq.trans ((locks_section rfl).trans ?_)))
    simp only [Code.block, locks_act, locks_nil]
    exact exists_eq_right
  | add | getGets | getUpdates | setStartTime | setStorageSize | setValuesSize | setDeleted
    | setQueueSize | setGets | setUpdates | reset =>
    rw [exists_call_iff (fun _ => Locks.Call.noConfusion)]
    exact locks_writeScopedLock rfl

end Swordfish.Threads
