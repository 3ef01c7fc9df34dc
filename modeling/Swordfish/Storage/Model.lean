import Swordfish.DHashmap.Invariant
import Swordfish.Lib.While
import Swordfish.Storage.Queue
import Swordfish.Storage.Stats

/-!
# The storage

`Storage` (`daemon-src/include/storage.hpp`, `daemon-src/src/storage.cpp`): the store with its
limit on bytes, the refill queue with its limit on keys, and the statistics. Here the operations
run one at a time, and `sleep` and logging are left out. A run of the storage is a run of its
store (`run_storage_`), so every result about the store holds of the storage.
-/

namespace Swordfish

/-- The data members of `Storage`. -/
structure Storage where
  storage_ : DHashmap
  queue_ : Queue
  stats_ : Stats
  maxStorageSize_ : UInt64
  maxQueueSize_ : UInt64
  expirateSize_ : UInt64

/-- Where a call stops without returning: the process fails, or the loop of `add_item` is still
running after the rounds it was given. -/
inductive Stop where
  | failed (failure : Failure)
  | running
  deriving DecidableEq, Repr

namespace Storage

/-- The constructor `Storage(ttl, max_storage_size, max_queue_size, expirate_size)` at `now`. -/
def init (now : TimeType) (ttl : Nat) (maxStorageSize maxQueueSize expirateSize : UInt64) :
    Storage :=
  { storage_ := .init ttl
    queue_ := .init
    stats_ := .reset now
    maxStorageSize_ := maxStorageSize
    maxQueueSize_ := maxQueueSize
    expirateSize_ := expirateSize }

/-- `Storage::expirate`. -/
def expirate (s : Storage) : Storage :=
  { s with storage_ := s.storage_.expirate s.expirateSize_ }

/-- `Storage::storage_size`, through the 32-bit result of `get_storage_size`. -/
def storageSize (s : Storage) : UInt64 := s.storage_.getStorageSize.toUInt64

/-- The condition of the loop in `add_item`: `get_storage_size() >= max_storage_size_`. -/
def Full (s : Storage) : Prop := s.maxStorageSize_ ≤ s.storageSize

instance : DecidablePred Full := fun s =>
  inferInstanceAs (Decidable (s.maxStorageSize_ ≤ s.storageSize))

/-- `Storage::add_item` (`storage.cpp:39-47`), when its loop takes at most `rounds` rounds. -/
def addItem (env : Env) (s : Storage) (rounds : Nat) (now : TimeType) (key val : Str) :
    Except Stop Storage :=
  match While.exec Full expirate rounds s with
  | some s =>
      match s.storage_.add env now key val with
      | .ok storage => .ok { s with storage_ := storage }
      | .error failure => .error (.failed failure)
  | none => .error .running

/-- `Storage::push_key` (`storage.cpp:74-81`). -/
def pushKey (s : Storage) (key : Str) : Storage :=
  if s.queue_.size.toUInt64 < s.maxQueueSize_ then
    let (queue, size) := s.queue_.push key
    { s with queue_ := queue, stats_ := s.stats_.setQueueSize size }
  else s

/-- `Storage::res_append` (`storage.cpp:128-137`). -/
def resAppend (arg value result : Str) : Str :=
  result ++ text "VALUE " ++ arg ++ text " 0 " ++ text (toString value.length) ++ text "\r\n" ++
    value ++ text "\r\n"

/-- An argument of a `get` command, with the readings of the clock that its lookup makes. -/
structure Lookup where
  arg : Str
  now : TimeType
  refresh : TimeType
  deriving DecidableEq, Repr

/-- One round of the loop in `Storage::get_val` (`storage.cpp:112-121`). -/
def lookup (env : Env) (s : Storage) (x : Lookup) (res : Str) : Except Stop (Storage × Str) :=
  match s.storage_.get env x.now x.refresh x.arg [] with
  | .error failure => .error (.failed failure)
  | .ok (storage, out) =>
      let s := { s with storage_ := storage }
      let res := if out.val ≠ [] then resAppend x.arg out.val res else res
      .ok (if out.ret then s else s.pushKey out.normalizedKey, res)

/-- The loop in `Storage::get_val`. -/
def lookups (env : Env) (s : Storage) (res : Str) : List Lookup → Except Stop (Storage × Str)
  | [] => .ok (s, res)
  | x :: xs =>
      match s.lookup env x res with
      | .ok (s, res) => s.lookups env res xs
      | .error stop => .error stop

/-- `Storage::get_val` (`storage.cpp:108-125`). -/
def getVal (env : Env) (s : Storage) (args : List Lookup) : Except Stop (Storage × Str) :=
  match s.lookups env [] args with
  | .ok (s, res) => .ok (s, res ++ text "END\r\n")
  | .error stop => .error stop

/-! ## Runs -/

/-- A call on the storage. -/
inductive Op where
  | addItem (rounds : Nat) (now : TimeType) (key val : Str)
  | getVal (args : List Lookup)
  | expirate
  deriving DecidableEq, Repr

/-- One call. -/
def step (env : Env) (s : Storage) : Op → Except Stop Storage
  | .addItem rounds now key val => s.addItem env rounds now key val
  | .getVal args => (s.getVal env args).map Prod.fst
  | .expirate => .ok s.expirate

/-- The calls one after the other. -/
def run (env : Env) (s : Storage) (ops : List Op) : Except Stop Storage :=
  Run.exec (step env) s ops

/-! ## The storage as a run of its store -/

/-- The calls on the store that a call on the storage makes. -/
def Op.calls (s : Storage) : Op → List DHashmap.Op
  | .addItem rounds now key val =>
      List.replicate (While.rounds Full Storage.expirate rounds s) (.expirate s.expirateSize_) ++
        [.add now key val]
  | .getVal args => args.map (fun x => .get x.now x.refresh x.arg)
  | .expirate => [.expirate s.expirateSize_]

/-- The calls on the store that a run makes. -/
def calls (env : Env) (s : Storage) (ops : List Op) : List DHashmap.Op :=
  (Run.observe (step env) (fun s op => op.calls s) s ops).flatten

variable {env : Env} {s t : Storage}

/-- What a test of the size reads: the counter modulo `2 ^ 32`. -/
theorem toNat_storageSize (s : Storage) :
    s.storageSize.toNat = s.storage_.storageSize.toNat % 2 ^ 32 := by
  rw [storageSize, DHashmap.getStorageSize, UInt32.toNat_toUInt64, UInt64.toNat_toUInt32]

@[simp] theorem pushKey_storage_ (s : Storage) (key : Str) :
    (s.pushKey key).storage_ = s.storage_ := by
  unfold pushKey
  split <;> rfl

@[simp] theorem pushKey_maxStorageSize_ (s : Storage) (key : Str) :
    (s.pushKey key).maxStorageSize_ = s.maxStorageSize_ := by
  unfold pushKey
  split <;> rfl

@[simp] theorem pushKey_expirateSize_ (s : Storage) (key : Str) :
    (s.pushKey key).expirateSize_ = s.expirateSize_ := by
  unfold pushKey
  split <;> rfl

theorem pushKey_queue_ (s : Storage) (key : Str) :
    (s.pushKey key).queue_.queue_ =
      if key ∉ s.queue_.queue_ ∧ s.queue_.size.toUInt64 < s.maxQueueSize_ then
        s.queue_.queue_ ++ [key]
      else s.queue_.queue_ := by
  unfold pushKey Queue.push
  by_cases hroom : s.queue_.size.toUInt64 < s.maxQueueSize_
  · by_cases hmem : key ∈ s.queue_.queue_
    · simp [hroom, hmem]
    · simp [hroom, hmem]
  · simp [hroom]

@[simp] theorem pushKey_maxQueueSize_ (s : Storage) (key : Str) :
    (s.pushKey key).maxQueueSize_ = s.maxQueueSize_ := by
  unfold pushKey
  split <;> rfl

/-- The members that no call changes. -/
def SameLimits (s t : Storage) : Prop :=
  t.maxStorageSize_ = s.maxStorageSize_ ∧ t.expirateSize_ = s.expirateSize_

theorem iterate_expirate (env : Env) (s : Storage) (n : Nat) :
    DHashmap.run env s.storage_ (List.replicate n (.expirate s.expirateSize_)) =
        .ok (expirate^[n] s).storage_ ∧ SameLimits s (expirate^[n] s) := by
  induction n generalizing s with
  | zero => exact ⟨rfl, rfl, rfl⟩
  | succ n ih => exact ih s.expirate

/-- `add_item` returns when its loop ends and `add` does not fail. -/
theorem addItem_ok {rounds : Nat} {now : TimeType} {key val : Str} :
    s.addItem env rounds now key val = .ok t ↔
      ∃ u storage, While.exec Full expirate rounds s = some u ∧
        u.storage_.add env now key val = .ok storage ∧ t = { u with storage_ := storage } := by
  unfold addItem
  cases While.exec Full expirate rounds s with
  | none => simp
  | some u =>
    simp only [Option.some.injEq, exists_and_left, exists_eq_left']
    cases u.storage_.add env now key val with
    | error failure => simp
    | ok storage => simp [eq_comm]

/-- `add_item` is a number of rounds of `expirate`, and one `add`. -/
theorem addItem_calls {rounds : Nat} {now : TimeType} {key val : Str}
    (h : s.addItem env rounds now key val = .ok t) :
    DHashmap.run env s.storage_ ((Op.addItem rounds now key val).calls s) = .ok t.storage_ ∧
      SameLimits s t := by
  obtain ⟨u, storage, hloop, hadd, rfl⟩ := addItem_ok.mp h
  have hu := While.exec_eq_iterate hloop
  obtain ⟨hrun, hlimits⟩ := iterate_expirate env s (While.rounds Full expirate rounds s)
  rw [← hu] at hrun hlimits
  exact ⟨Run.exec_concat_ok.mpr ⟨_, hrun, hadd⟩, hlimits⟩

/-- A lookup is one `get`, and a push unless the `get` finds the key fresh. -/
theorem lookup_ok {x : Lookup} {res res' : Str} :
    s.lookup env x res = .ok (t, res') ↔
      ∃ storage out, s.storage_.get env x.now x.refresh x.arg [] = .ok (storage, out) ∧
        t = (if out.ret then { s with storage_ := storage }
          else pushKey { s with storage_ := storage } out.normalizedKey) ∧
        res' = if out.val ≠ [] then resAppend x.arg out.val res else res := by
  unfold lookup
  cases s.storage_.get env x.now x.refresh x.arg [] with
  | error failure => simp
  | ok r =>
    obtain ⟨storage, out⟩ := r
    simp only [Except.ok.injEq, Prod.mk.injEq]
    constructor
    · rintro ⟨rfl, rfl⟩
      exact ⟨storage, out, ⟨rfl, rfl⟩, rfl, rfl⟩
    · rintro ⟨_, _, ⟨rfl, rfl⟩, rfl, rfl⟩
      exact ⟨rfl, rfl⟩

/-- The first lookup, and the others on what it leaves. -/
theorem lookups_cons_ok {x : Lookup} {xs : List Lookup} {res res' : Str} :
    s.lookups env res (x :: xs) = .ok (t, res') ↔
      ∃ u res'', s.lookup env x res = .ok (u, res'') ∧ u.lookups env res'' xs = .ok (t, res') := by
  rw [lookups]
  cases s.lookup env x res with
  | error stop => simp
  | ok r =>
    obtain ⟨u, res''⟩ := r
    simp [Prod.ext_iff, and_assoc]

theorem getVal_ok {args : List Lookup} {res : Str} :
    s.getVal env args = .ok (t, res) ↔
      ∃ items, s.lookups env [] args = .ok (t, items) ∧ res = items ++ text "END\r\n" := by
  unfold getVal
  cases s.lookups env [] args with
  | error stop => simp
  | ok r =>
    obtain ⟨u, items⟩ := r
    simp only [Except.ok.injEq, Prod.mk.injEq]
    constructor
    · rintro ⟨rfl, rfl⟩
      exact ⟨items, ⟨rfl, rfl⟩, rfl⟩
    · rintro ⟨_, ⟨rfl, rfl⟩, rfl⟩
      exact ⟨rfl, rfl⟩

theorem step_getVal_ok {args : List Lookup} :
    step env s (.getVal args) = .ok t ↔ ∃ items, s.lookups env [] args = .ok (t, items) := by
  rw [step, getVal]
  cases s.lookups env [] args with
  | error stop => simp [Except.map]
  | ok r =>
    obtain ⟨u, items⟩ := r
    simp [Except.map]

/-- A lookup is one `get` on the store. -/
theorem lookup_calls {x : Lookup} {res res' : Str} (h : s.lookup env x res = .ok (t, res')) :
    DHashmap.step env s.storage_ (.get x.now x.refresh x.arg) = .ok t.storage_ ∧
      SameLimits s t := by
  obtain ⟨storage, out, hget, rfl, -⟩ := lookup_ok.mp h
  refine ⟨?_, ?_⟩
  · simp only [DHashmap.step, hget, Except.map]
    split <;> simp
  · split
    · exact ⟨rfl, rfl⟩
    · exact ⟨pushKey_maxStorageSize_ _ _, pushKey_expirateSize_ _ _⟩

theorem lookups_calls {args : List Lookup} {res res' : Str}
    (h : s.lookups env res args = .ok (t, res')) :
    DHashmap.run env s.storage_ (args.map (fun x => .get x.now x.refresh x.arg)) =
      .ok t.storage_ ∧ SameLimits s t := by
  induction args generalizing s res with
  | nil =>
    cases h
    exact ⟨rfl, rfl, rfl⟩
  | cons x xs ih =>
    obtain ⟨u, res'', hx, hxs⟩ := lookups_cons_ok.mp h
    obtain ⟨hstep, hlimits⟩ := lookup_calls hx
    obtain ⟨hrun, hlimits'⟩ := ih hxs
    refine ⟨Run.exec_cons_ok.mpr ⟨_, hstep, hrun⟩, ?_, ?_⟩
    · rw [hlimits'.1, hlimits.1]
    · rw [hlimits'.2, hlimits.2]

/-- One call on the storage is a run of its store. -/
theorem step_calls {op : Op} (h : step env s op = .ok t) :
    DHashmap.run env s.storage_ (op.calls s) = .ok t.storage_ ∧ SameLimits s t := by
  cases op with
  | addItem rounds now key val => exact addItem_calls h
  | getVal args =>
    obtain ⟨items, hloop⟩ := step_getVal_ok.mp h
    exact lookups_calls hloop
  | expirate =>
    cases h
    exact ⟨rfl, rfl, rfl⟩

/-- A run of the storage is a run of its store. -/
theorem run_storage_ {ops : List Op} (h : run env s ops = .ok t) :
    DHashmap.run env s.storage_ (calls env s ops) = .ok t.storage_ ∧ SameLimits s t := by
  refine Run.exec_induction
    (P := fun ops t =>
      DHashmap.run env s.storage_ (calls env s ops) = .ok t.storage_ ∧ SameLimits s t) ?_ ?_ h
  · exact ⟨rfl, rfl, rfl⟩
  · intro ops t op u hrun ih hstep
    obtain ⟨hcalls, hlimits⟩ := ih
    obtain ⟨hlast, hlimits'⟩ := step_calls hstep
    refine ⟨?_, ?_, ?_⟩
    · rw [calls, Run.observe_concat hrun, List.flatten_append, List.flatten_singleton]
      exact Run.exec_append_ok.mpr ⟨_, hcalls, hlast⟩
    · rw [hlimits'.1, hlimits.1]
    · rw [hlimits'.2, hlimits.2]

end Storage

end Swordfish
