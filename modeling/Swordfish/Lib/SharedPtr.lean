import Mathlib.Data.List.Nodup
import Mathlib.Data.List.Perm.Basic
import Mathlib.Tactic.Common

/-!
# Reference-counted objects

A shared pointer owns an object, a weak pointer only names it. An object has an identity
(`addr`) and contents that are never written after construction, so both travel with every
pointer to it. Which objects are alive is a fact about the program's state: the list of the
objects its shared pointers own at that moment (`owners`, one element for each shared pointer).
-/

namespace SharedPtr

variable {α : Type}

/-- An object on the heap: its identity and its immutable contents. -/
structure Object (α : Type) where
  addr : Nat
  item : α
  deriving DecidableEq, Repr

/-- A weak pointer: it names an object and does not keep it alive. -/
structure WeakPtr (α : Type) where
  target : Object α
  deriving DecidableEq, Repr

/-- The number of shared pointers that own the object. -/
def useCount (owners : List (Object α)) (p : Object α) : Nat :=
  owners.countP (fun q => q.addr == p.addr)

/-- `lock`: a shared pointer to the object while some shared pointer still owns it. -/
def WeakPtr.lock (owners : List (Object α)) (w : WeakPtr α) : Option (Object α) :=
  if useCount owners w.target = 0 then none else some w.target

/-- Some shared pointer owns the object. -/
def Alive (owners : List (Object α)) (p : Object α) : Prop := ∃ q ∈ owners, q.addr = p.addr

instance (owners : List (Object α)) (p : Object α) : Decidable (Alive owners p) :=
  inferInstanceAs (Decidable (∃ q ∈ owners, q.addr = p.addr))

theorem useCount_eq_zero_iff {owners : List (Object α)} {p : Object α} :
    useCount owners p = 0 ↔ ¬ Alive owners p := by
  simp [useCount, Alive, List.countP_eq_zero]

theorem useCount_cons (q : Object α) (owners : List (Object α)) (p : Object α) :
    useCount (q :: owners) p = useCount owners p + if q.addr = p.addr then 1 else 0 := by
  simp [useCount, List.countP_cons]

/-- The count does not depend on the order in which the owners are listed. -/
theorem useCount_perm {owners owners' : List (Object α)} (h : owners.Perm owners')
    (p : Object α) : useCount owners p = useCount owners' p :=
  h.countP_eq _

/-- An owner that is counted once is the only one. -/
theorem useCount_self_cons_eq_one_iff {owners : List (Object α)} {p : Object α} :
    useCount (p :: owners) p = 1 ↔ ¬ Alive owners p := by
  rw [useCount_cons, if_pos rfl, ← useCount_eq_zero_iff]
  omega

theorem lock_eq_some_iff {owners : List (Object α)} {w : WeakPtr α} {p : Object α} :
    w.lock owners = some p ↔ Alive owners w.target ∧ w.target = p := by
  by_cases h : Alive owners w.target <;> simp [WeakPtr.lock, useCount_eq_zero_iff, h]

theorem lock_eq_none_iff {owners : List (Object α)} {w : WeakPtr α} :
    w.lock owners = none ↔ ¬ Alive owners w.target := by
  by_cases h : Alive owners w.target <;> simp [WeakPtr.lock, useCount_eq_zero_iff, h]

theorem alive_of_mem {owners : List (Object α)} {p : Object α} (h : p ∈ owners) :
    Alive owners p :=
  ⟨p, h, rfl⟩

theorem Alive.mono {owners owners' : List (Object α)} {p : Object α}
    (h : ∀ q ∈ owners, q ∈ owners') (hp : Alive owners p) : Alive owners' p := by
  obtain ⟨q, hq, heq⟩ := hp
  exact ⟨q, h q hq, heq⟩

end SharedPtr
