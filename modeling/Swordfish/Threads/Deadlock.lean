import Swordfish.Lib.LockOrder
import Swordfish.Threads.Operations

/-!
# No deadlock

The only lock that is taken under another is the nested write section of `DHashmap::get`, whose
read section is an ownership that the request does not wait for. So the locks have an order, and
whatever the threads do, one of them can go on.
-/

namespace Swordfish.Threads
open LockProgram
open UpgradableMutex (Mode)

/-- A method of one of the classes. -/
inductive Method where
  | expirate | get | add | getStorageSize | getKeysSize | getValuesSize
  | getDeleted | getGets | getUpdates
  | statsGet | setStartTime | setStorageSize | setValuesSize | setDeleted | setQueueSize
  | setGets | setUpdates | reset
  | push | empty | waitAndPop | size | sizeB
  | _do | addItem | resetStats | popKey | pushKey | storageExpirate | queueSize | storageSize
  | refreshStats | getStats | getVal
  | operator | isAlive | shutdown
  deriving DecidableEq, Repr

/-- What the method runs. -/
def Method.code : Method → Script
  | .expirate => DHashmap.expirate
  | .get => DHashmap.get
  | .add => DHashmap.add
  | .getStorageSize => DHashmap.getStorageSize
  | .getKeysSize => DHashmap.getKeysSize
  | .getValuesSize => DHashmap.getValuesSize
  | .getDeleted => DHashmap.getDeleted
  | .getGets => DHashmap.getGets
  | .getUpdates => DHashmap.getUpdates
  | .statsGet => Stats.get
  | .setStartTime => Stats.setStartTime
  | .setStorageSize => Stats.setStorageSize
  | .setValuesSize => Stats.setValuesSize
  | .setDeleted => Stats.setDeleted
  | .setQueueSize => Stats.setQueueSize
  | .setGets => Stats.setGets
  | .setUpdates => Stats.setUpdates
  | .reset => Stats.reset
  | .push => Queue.push
  | .empty => Queue.empty
  | .waitAndPop => Queue.waitAndPop
  | .size => Queue.size
  | .sizeB => Queue.sizeB
  | ._do => Storage._do
  | .addItem => Storage.addItem
  | .resetStats => Storage.resetStats
  | .popKey => Storage.popKey
  | .pushKey => Storage.pushKey
  | .storageExpirate => Storage.expirate
  | .queueSize => Storage.queueSize
  | .storageSize => Storage.storageSize
  | .refreshStats => Storage.refreshStats
  | .getStats => Storage.getStats
  | .getVal => Storage.getVal
  | .operator => AbstractFiller.operator
  | .isAlive => AbstractFiller.isAlive
  | .shutdown => AbstractFiller.shutdown

/-- The locks that the methods take. -/
def taken : Mutex × Mode → Bool
  | (.upgradable _, .sharable) => true
  | (.upgradable _, .upgradable) => true
  | (.upgradable _, .exclusive) => false
  | (.queue, mode) => mode = .exclusive
  | (.state, mode) => mode = .exclusive

/-- Their order: a sharable ownership comes before the others. -/
def rank (lock : Mutex × Mode) : Nat := if lock.2 = .sharable then 0 else 1

/-- No request waits for an owner of a lower rank: a mutex that has sharable owners has no
exclusive ones. -/
theorem rank_le_of_conflicts (m : Mutex) (request owner : Mode)
    (hrequest : taken (m, request) = true) (howner : taken (m, owner) = true)
    (hconflict : Conflicts request owner) :
    rank (m, request) ≤ rank (m, owner) := by
  cases request with
  | sharable => exact Nat.zero_le _
  | upgradable =>
    rcases hconflict with rfl | rfl
    · exact Nat.le_refl 1
    · exact Nat.le_refl 1
  | exclusive =>
    cases m with
    | upgradable m => cases hrequest
    | queue | state =>
      have hexclusive : owner = .exclusive := of_decide_eq_true howner
      subst hexclusive
      exact Nat.le_refl 1

def lockOrder : LockOrder Mutex where
  allowed := taken
  rank := rank
  bound := 1
  rank_le lock := by
    unfold rank
    split <;> omega
  conflict := rank_le_of_conflicts

/-- Every method takes its locks in order, and gives back what it takes. -/
theorem leaves_code (method : Method) : method.code.leaves lockOrder.check [] = some [] := by
  cases method <;> rfl

variable {ι : Type} [Fintype ι] [DecidableEq ι]

/-- The threads, with every counter at zero. -/
def start : LockProgram.State ι Mutex Act Counters Local :=
  LockProgram.init
    { value := fun _ => 0
      removed := 0
      increments := fun _ => 0 }
    (fun _ =>
      { read := 0
        amount := 0
        carries := none
        uncounted := false
        inside := false })

/-- No deadlock: whatever methods any number of threads run, in any interleaving of their steps, in
every reachable state in which some thread is inside a method one such thread can take its next
step, and no thread waits, directly or through other threads, for itself. -/
theorem methods_progress {moves : List (ι × Move Method)}
    {s : LockProgram.State ι Mutex Act Counters Local}
    (h : Run.exec (LockProgram.step Act.exec Method.code) start moves = .ok s) :
    ((∃ i, s.todo i ≠ []) →
      ∃ j t, s.todo j ≠ [] ∧ LockProgram.step Act.exec Method.code s (j, .go true) = .ok t) ∧
      ∀ i, ¬ Relation.TransGen (Waits s) i i := by
  constructor
  · rintro ⟨i, hbusy⟩
    exact run_progress leaves_code h hbusy
  · exact (ordered_of_run leaves_code h).not_waits_self

/-- A `get` that found an old value waits with its read section open, for an `expirate` that is
inside its write section. -/
theorem methods_progress_nested :
    ∃ s : LockProgram.State Bool Mutex Act Counters Local,
      Run.exec (LockProgram.step Act.exec Method.code) start
        ((false, .start .get) :: List.replicate 15 (false, .go true) ++
          List.replicate 7 (false, .go false) ++
          (true, .start .expirate) :: List.replicate 5 (true, .go true)) = .ok s ∧
      LockProgram.step Act.exec Method.code s (false, .go true) matches .error .waits ∧
      (∃ j t, s.todo j ≠ [] ∧
        LockProgram.step Act.exec Method.code s (j, .go true) = .ok t) ∧
      ¬ Relation.TransGen (Waits s) false false := by
  obtain ⟨s, hrun, hbusy, hwaits⟩ := Run.yields_iff.mp
    (by decide : Run.Yields (LockProgram.step Act.exec Method.code)
      (fun s : LockProgram.State Bool Mutex Act Counters Local =>
        (s.todo false).length = 3 ∧
          LockProgram.step Act.exec Method.code s (false, .go true) matches .error .waits)
      start
      ((false, .start .get) :: List.replicate 15 (false, .go true) ++
        List.replicate 7 (false, .go false) ++
        (true, .start .expirate) :: List.replicate 5 (true, .go true)))
  refine ⟨s, hrun, hwaits, ?_, (methods_progress hrun).2 false⟩
  exact (methods_progress hrun).1 ⟨false, List.ne_nil_of_length_pos (by omega)⟩

end Swordfish.Threads
