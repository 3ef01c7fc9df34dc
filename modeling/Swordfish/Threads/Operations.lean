import Swordfish.Lib.LockProgram
import Swordfish.Locks.Exclusion

/-!
# The operations as threads run them

Every method of `DHashmap`, `Stats`, `Queue`, `Storage` and `AbstractFiller`, as the locks it takes
and gives back and the counters it touches. A read and a write of a counter are two instructions,
and what touches no counter is `body`. Conditions are not evaluated: a branch may go either way,
and a loop may end after any round.
-/

namespace Swordfish.Threads
open LockProgram
open UpgradableMutex (Mode)

/-- `DHashmap::mutex_` and `Stats::mutex_`, which are upgradable, `Queue::mutex_` and
`AbstractFiller::state_mutex_`. -/
inductive Mutex where
  | upgradable (m : Locks.Mutex)
  | queue
  | state
  deriving DecidableEq, Repr

/-- `deleted_`, `gets_` and `updates_`, which `DHashmap` and `Stats` both have. -/
inductive Counter where
  | deleted
  | gets
  | updates
  deriving DecidableEq, Repr

/-- A counter of `DHashmap`, or one of `Stats`. -/
inductive Place where
  | dhashmap (counter : Counter)
  | stats (counter : Counter)
  deriving DecidableEq, Repr

/-- The counters, and what has been counted: the keys that `expirate` has erased, and the
increments of each counter of `DHashmap`. -/
structure Counters where
  value : Place → UInt32
  removed : Nat
  increments : Counter → Nat

/-- The data of a thread: the counter it has read, the amount it passes from `get_deleted`,
`get_gets` or `get_updates` to `set_deleted`, `set_gets` or `set_updates`, and the counter it
belongs to, whether it has erased a key and not yet counted it, and whether it is inside
`expirate` or `get_deleted`. -/
structure Local where
  read : UInt32
  amount : UInt32
  carries : Option Counter
  uncounted : Bool
  inside : Bool
  deriving DecidableEq, Repr

/-- What an instruction does that is not one of locks. -/
inductive Act where
  | body
  | enter
  | leave
  | erase
  | read (place : Place)
  | increment (counter : Counter)
  | take (counter : Counter)
  | zero
  | add (counter : Counter)
  | reset
  deriving DecidableEq, Repr

/-- `++`, `= 0` and `+=` write what was read before, changed. -/
def Act.exec (a : Act) (s : Counters) (l : Local) : Counters × Local :=
  match a with
  | .body => (s, l)
  | .enter => (s, { l with inside := true })
  | .leave => (s, { l with inside := false })
  | .erase => ({ s with removed := s.removed + 1 }, { l with uncounted := true })
  | .read place => (s, { l with read := s.value place })
  | .increment counter =>
      ({ s with
          value := Function.update s.value (.dhashmap counter) (l.read + 1)
          increments := Function.update s.increments counter (s.increments counter + 1) },
        { l with uncounted := if counter = .deleted then false else l.uncounted })
  | .take counter =>
      ({ s with value := Function.update s.value (.dhashmap counter) 0 },
        { l with amount := l.read, carries := some counter })
  | .zero => (s, { l with amount := 0 })
  | .add counter =>
      ({ s with value := Function.update s.value (.stats counter) (l.read + l.amount) },
        { l with amount := 0, carries := none })
  | .reset =>
      ({ s with
          value := fun
            | .dhashmap counter => s.value (.dhashmap counter)
            | .stats _ => 0 }, l)

/-- The code of a method. -/
abbrev Script := Code Mutex Act

def body : Script := .instr (.act .body)

/-- The scope of a `read_scoped_lock` (`dhashmap.hpp:174-190`, `stats.hpp:43-59`). -/
def readScopedLock (m : Locks.Mutex) (guarded : Script) : Script :=
  .block [.instr (.lock (.upgradable m) .sharable), guarded,
    .instr (.unlock (.upgradable m) .sharable)]

/-- The scope of a `write_scoped_lock` (`dhashmap.hpp:192-208`, `stats.hpp:61-77`). -/
def writeScopedLock (m : Locks.Mutex) (guarded : Script) : Script :=
  .block [.instr (.lock (.upgradable m) .upgradable), guarded,
    .instr (.unlock (.upgradable m) .upgradable)]

/-- The scope of a `boost::mutex::scoped_lock`. -/
def scopedLock (m : Mutex) (guarded : Script) : Script :=
  .block [.instr (.lock m .exclusive), guarded, .instr (.unlock m .exclusive)]

/-- `++x`. -/
def increment (counter : Counter) : Script :=
  .block [.instr (.act (.read (.dhashmap counter))), .instr (.act (.increment counter))]

/-- `uint ret = x; x = 0; return ret`. -/
def take (counter : Counter) : Script :=
  .block [.instr (.act (.read (.dhashmap counter))), .instr (.act (.take counter))]

/-- `x += count`. -/
def add (counter : Counter) : Script :=
  .block [.instr (.act (.read (.stats counter))), .instr (.act (.add counter))]

namespace DHashmap

/-- `DHashmap::expirate` (`dhashmap.cpp:58-95`). -/
def expirate : Script :=
  .block [.instr (.act .enter),
    writeScopedLock .dhashmap
      (.block [body,
        .loop (.block [body, .instr (.act .erase), increment .deleted, body]),
        body]),
    .instr (.act .leave)]

/-- `DHashmap::get` (`dhashmap.cpp:97-152`): the key is missing, or its value is fresh, or it has
to be updated. -/
def get : Script :=
  .block [body,
    writeScopedLock .dhashmap (increment .gets),
    readScopedLock .dhashmap
      (.block [body,
        .choice body
          (.block [body,
            .choice body (.block [body, writeScopedLock .dhashmap (increment .updates)])])])]

/-- `DHashmap::add` (`dhashmap.cpp:155-227`). -/
def add : Script := writeScopedLock .dhashmap body

/-- `DHashmap::get_storage_size` (`dhashmap.cpp:229-233`). -/
def getStorageSize : Script := readScopedLock .dhashmap body

/-- `DHashmap::get_keys_size` (`dhashmap.cpp:235-239`). -/
def getKeysSize : Script := readScopedLock .dhashmap body

/-- `DHashmap::get_values_size` (`dhashmap.cpp:241-245`). -/
def getValuesSize : Script := readScopedLock .dhashmap body

/-- `DHashmap::get_deleted` (`dhashmap.cpp:248-254`). -/
def getDeleted : Script :=
  .block [.instr (.act .enter), readScopedLock .dhashmap (take .deleted), .instr (.act .leave)]

/-- `DHashmap::get_gets` (`dhashmap.cpp:257-263`). -/
def getGets : Script := writeScopedLock .dhashmap (take .gets)

/-- `DHashmap::get_updates` (`dhashmap.cpp:266-272`). -/
def getUpdates : Script := writeScopedLock .dhashmap (take .updates)

end DHashmap

namespace Stats

/-- `Stats::get` (`stats.cpp:12-36`). -/
def get : Script := .block [body, readScopedLock .stats body]

/-- A setter that assigns. -/
def assign : Script := writeScopedLock .stats body

/-- A setter that adds. -/
def count (counter : Counter) : Script := writeScopedLock .stats (add counter)

/-- `Stats::set_start_time` (`stats.cpp:38-42`). -/
def setStartTime : Script := assign

/-- `Stats::set_storage_size` (`stats.cpp:45-49`). -/
def setStorageSize : Script := assign

/-- `Stats::set_values_size` (`stats.cpp:51-55`). -/
def setValuesSize : Script := assign

/-- `Stats::set_deleted` (`stats.cpp:57-61`). -/
def setDeleted : Script := count .deleted

/-- `Stats::set_queue_size` (`stats.cpp:64-68`). -/
def setQueueSize : Script := assign

/-- `Stats::set_gets` (`stats.cpp:71-75`). -/
def setGets : Script := count .gets

/-- `Stats::set_updates` (`stats.cpp:78-82`). -/
def setUpdates : Script := count .updates

/-- `Stats::reset` (`stats.cpp:85-95`). -/
def reset : Script := writeScopedLock .stats (.block [body, .instr (.act .reset), body])

end Stats

namespace Queue

/-- `Queue::push` (`queue.cpp:18-33`): the lock is given back before `notify_one`. -/
def push : Script := .block [scopedLock .queue body, body]

/-- `Queue::empty` (`queue.cpp:35-39`). -/
def empty : Script := scopedLock .queue body

/-- `Queue::wait_and_pop` (`queue.cpp:41-57`). -/
def waitAndPop : Script := scopedLock .queue body

/-- `Queue::size` (`queue.cpp:59-63`). -/
def size : Script := scopedLock .queue body

/-- `Queue::size_b` (`queue.cpp:65-69`). -/
def sizeB : Script := scopedLock .queue body

end Queue

namespace Storage

/-- `Storage::expirate` (`storage.cpp:83-86`). -/
def expirate : Script := DHashmap.expirate

/-- `Storage::storage_size` (`storage.hpp:48`). -/
def storageSize : Script := DHashmap.getStorageSize

/-- `Storage::queue_size` (`storage.cpp:62-65`). -/
def queueSize : Script := Queue.size

/-- `Storage::pop_key` (`storage.cpp:68-71`). -/
def popKey : Script := Queue.waitAndPop

/-- `Storage::push_key` (`storage.cpp:74-81`). -/
def pushKey : Script := .ifAll [Queue.size] (.block [Queue.push, Stats.setQueueSize]) body

/-- `Storage::add_item` (`storage.cpp:39-47`). -/
def addItem : Script :=
  .block [.whileAll [DHashmap.getStorageSize] (.block [expirate, body]), DHashmap.add]

/-- `Storage::reset_stats` (`storage.cpp:50-59`). -/
def resetStats : Script :=
  .block [body, Stats.setStartTime, DHashmap.getStorageSize, Stats.setStorageSize,
    .instr (.act .zero), Stats.setDeleted, Queue.size, Stats.setQueueSize,
    .instr (.act .zero), Stats.setGets, DHashmap.getValuesSize, Stats.setValuesSize]

/-- `Storage::refresh_stats` (`storage.cpp:89-98`). -/
def refreshStats : Script :=
  .block [body, DHashmap.getStorageSize, Stats.setStorageSize,
    DHashmap.getDeleted, Stats.setDeleted, Queue.size, Stats.setQueueSize,
    DHashmap.getGets, Stats.setGets, DHashmap.getValuesSize, Stats.setValuesSize,
    DHashmap.getUpdates, Stats.setUpdates]

/-- `Storage::get_stats` (`storage.cpp:101-105`). -/
def getStats : Script := .block [refreshStats, Stats.get]

/-- `Storage::get_val` (`storage.cpp:108-125`). -/
def getVal : Script :=
  .block [body,
    .loop (.block [body, DHashmap.get, .choice body .skip, .choice pushKey .skip]),
    body]

/-- `Storage::_do` (`storage.cpp:20-36`). -/
def _do : Script := .block [body, .choice getStats (.choice getVal .skip)]

end Storage

namespace AbstractFiller

/-- `AbstractFiller::is_alive` (`abstract_filler.cpp:104-108`). -/
def isAlive : Script := scopedLock .state body

/-- `AbstractFiller::Shutdown` (`abstract_filler.cpp:17-23`). -/
def shutdown : Script := .block [body, scopedLock .state body]

/-- `AbstractFiller::operator()` (`abstract_filler.cpp:63-102`). -/
def operator : Script :=
  .block [body,
    .whileAll [isAlive]
      (.block [body,
        .ifAll [Storage.storageSize] Storage.expirate .skip,
        body,
        .whileAll [body, isAlive, Storage.queueSize, Storage.storageSize]
          (.block [body, Storage.popKey, body]),
        .ifAll [body, body]
          (.block [body, .whileAll [body, body] Storage.addItem, body])
          body]),
    body]

end AbstractFiller

end Swordfish.Threads
