import Mathlib.Algebra.GroupWithZero.Nat
import Swordfish.Basic

/-!
# The refill queue

`Queue` (`daemon-src/include/queue.hpp`, `daemon-src/src/queue.cpp`): the keys that wait for the
filler, without repetitions. Each operation runs under `mutex_`, so here it is one function.
-/

namespace Swordfish

/-- The data members of `Queue`. -/
structure Queue where
  queue_ : List Str
  currSize_ : UInt64
  deriving DecidableEq, Repr

namespace Queue

/-- The constructor `Queue()`. -/
def init : Queue := { queue_ := [], currSize_ := 0 }

/-- `Queue::size`. -/
def size (q : Queue) : UInt32 := UInt32.ofNat q.queue_.length

/-- `Queue::size_b`: the 64-bit counter through a 32-bit result. -/
def sizeB (q : Queue) : UInt32 := q.currSize_.toUInt32

/-- `Queue::push` (`queue.cpp:18-33`); it returns the new size. -/
def push (q : Queue) (data : Str) : Queue × UInt32 :=
  let q :=
    if data ∈ q.queue_ then q
    else { queue_ := q.queue_ ++ [data], currSize_ := q.currSize_ + strLength data }
  (q, q.size)

/-- `Queue::wait_and_pop` (`queue.cpp:41-57`); it does not wait, and clears `data` when the queue
is empty. -/
def waitAndPop (q : Queue) : Queue × Str :=
  match q.queue_ with
  | [] => (q, [])
  | data :: rest => ({ queue_ := rest, currSize_ := q.currSize_ - strLength data }, data)

/-- What a test of the size reads: the number of keys modulo `2 ^ 32`. -/
theorem toNat_size (q : Queue) : q.size.toUInt64.toNat = q.queue_.length % 2 ^ 32 := by
  rw [UInt32.toNat_toUInt64, size, UInt32.toNat_ofNat']

end Queue

end Swordfish
