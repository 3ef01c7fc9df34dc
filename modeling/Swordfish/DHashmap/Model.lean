import Swordfish.Basic
import Swordfish.Lib.Run
import Swordfish.Lib.SharedPtr
import Swordfish.Lib.UnorderedSet
import Swordfish.Lib.MultiIndex

/-!
# The store

`DHashmap` (`daemon-src/include/dhashmap.hpp`, `daemon-src/src/dhashmap.cpp`): keys are held in a
multi-index container ordered by `ttl_` and unique on `key_`, values are shared objects, and
`values_` is a hash set of weak references through which equal values are interned. Each
operation runs under `mutex_`, so here it is one function; logging is left out.
-/

namespace Swordfish
open SharedPtr

/-- `map_item_type`: a shared pointer to a value. -/
abbrev MapItem := Object Str

/-- `set_item_type`: a weak reference to a value. -/
abbrev SetItem := WeakPtr Str

/-- `key_type_struct` (`dhashmap.hpp:39-54`); `ttl_` is the time of the last `update_ttl`. -/
structure KeyType where
  key_ : Str
  ttl_ : TimeType
  value_ : MapItem
  deriving DecidableEq, Repr

/-- `key_type_struct::update_ttl` at time `now`. -/
def KeyType.updateTtl (now : TimeType) (e : KeyType) : KeyType := { e with ttl_ := now }

/-- The code outside the store: the two functions of the plugin library (the static pointers of
`dhashmap.cpp:14-15`, null until a library is loaded), `boost::hash`, and the place where the
index on `ttl_` links a new element. -/
structure Env where
  customHash : Option (Str → UInt64)
  normalizeKey : Option (Str → Str)
  hash : Str → UInt64
  ttlIndex : MultiIndex.LinkRule TimeType

/-- `__normalize_key__`, or the key itself when no library is loaded. -/
def Env.normalize (env : Env) (key : Str) : Str :=
  match env.normalizeKey with
  | some f => f key
  | none => key

/-- `boost::hash<std::string>`: `hash_combine` over the characters, each a signed `char`. -/
def boostHash (x : Str) : UInt64 :=
  x.foldl (fun (seed : UInt64) c =>
    seed ^^^ (c.toInt8.toInt64.toUInt64 + (0x9e3779b9 : UInt64) + (seed <<< 6) + (seed >>> 2))) 0

/-- A store without a plugin library, whose index on `ttl_` is in order. -/
def Env.plain : Env :=
  { customHash := none
    normalizeKey := none
    hash := boostHash
    ttlIndex := .upperBound }

/-- The places where the process stops: `abort()` in `DHashmap::get`, the null pointer
dereferenced in `DHashmap::add`, and `abort()` in `dhm_hash`. -/
inductive Failure where
  | valueRefOnlyInKeys
  | nullFound
  | expiredHash
  deriving DecidableEq, Repr

/-- `dhm_hash::operator()` (`dhashmap.hpp:79-96`). -/
def dhmHash (env : Env) (owners : List MapItem) (x : SetItem) : Except Failure UInt64 :=
  match x.lock owners with
  | some po =>
      match env.customHash with
      | some customHash => .ok (customHash po.item)
      | none => .ok (env.hash po.item)
  | none => .error .expiredHash

/-- `dhm_equal_to::operator()` (`dhashmap.hpp:59-73`). -/
def dhmEqualTo (owners : List MapItem) (x y : SetItem) : Bool :=
  match x.lock owners, y.lock owners with
  | some pox, some poy => pox.item == poy.item
  | _, _ => false

/-- `normalized_hash::operator()` (`dhashmap.hpp:102-119`). -/
def normalizedHash (env : Env) (x : Str) : UInt64 := env.hash (env.normalize x)

/-- The data members of `DHashmap`. `nextAddr` is the allocator: the identity that the next
`new item_t` gets. -/
structure DHashmap where
  ttl_ : Nat
  keys_ : MultiIndex KeyType.key_
  values_ : UnorderedSet UInt64 SetItem
  deleted_ : UInt32
  gets_ : UInt32
  updates_ : UInt32
  storageSize : UInt64
  nextAddr : Nat

namespace DHashmap

/-- The constructor `DHashmap(ttl)`. -/
def init (ttl : Nat) : DHashmap :=
  { ttl_ := ttl
    keys_ := .empty
    values_ := []
    deleted_ := 0
    gets_ := 0
    updates_ := 0
    storageSize := 0
    nextAddr := 0 }

/-- The shared pointers in `keys_`. -/
def owners (s : DHashmap) : List MapItem := s.keys_.entries.map (·.value_)

/-- The allocator after a `new item_t`. -/
def allocate (s : DHashmap) : DHashmap := { s with nextAddr := s.nextAddr + 1 }

/-- `inc_storage_size`. -/
def incStorageSize (s : DHashmap) (size : UInt64) : DHashmap :=
  { s with storageSize := s.storageSize + size }

/-- `dec_storage_size`. -/
def decStorageSize (s : DHashmap) (size : UInt64) : DHashmap :=
  { s with storageSize := s.storageSize - size }

/-- `keys_.get<hashmap_key_tag>().find(key)`: equal hash and equal key. -/
def findKey (env : Env) (s : DHashmap) (key : Str) : Option KeyType :=
  s.keys_.entries.find?
    (fun e => normalizedHash env e.key_ == normalizedHash env key && e.key_ == key)

/-- `values_.find(x)` while `owners` are the shared pointers of the process. -/
def findValue (env : Env) (s : DHashmap) (owners : List MapItem) (x : SetItem) :
    Except Failure (Option (UnorderedSet.Node UInt64 SetItem)) := do
  let h ← dhmHash env owners x
  return s.values_.find (dhmEqualTo owners) h x

/-- `values_.insert(x)`. -/
def insertValue (env : Env) (s : DHashmap) (owners : List MapItem) (x : SetItem) :
    Except Failure DHashmap := do
  let h ← dhmHash env owners x
  return { s with values_ := s.values_.insert (dhmEqualTo owners) h x }

/-- `values_.erase(x)`. -/
def eraseValue (env : Env) (s : DHashmap) (owners : List MapItem) (x : SetItem) :
    Except Failure DHashmap := do
  let h ← dhmHash env owners x
  return { s with values_ := s.values_.erase (dhmEqualTo owners) h x }

/-- `keys_.insert(key_type_struct(key, value))`; the constructor stamps the time. -/
def insertKey (env : Env) (s : DHashmap) (now : TimeType) (key : Str) (value : MapItem) :
    DHashmap :=
  let place := env.ttlIndex.place s.nextAddr (s.keys_.entries.map (·.ttl_)) now
  { s with keys_ := s.keys_.insertAt place { key_ := key, ttl_ := now, value_ := value } }

/-- `it->update_ttl()` on the entry of `key`: `ttl_` is mutable and is written in place, the
index on it is not told. -/
def updateTtl (s : DHashmap) (now : TimeType) (key : Str) : DHashmap :=
  { s with keys_ := s.keys_.write key (KeyType.updateTtl now) (fun _ => rfl) }

/-- What `DHashmap::get` gives back: its result, and the out-parameters `val` and
`normalized_key`. -/
structure GetResult where
  ret : Bool
  val : Str
  normalizedKey : Str
  deriving DecidableEq, Repr

/-- `DHashmap::get` (`dhashmap.cpp:97-152`). `val` is the caller's string; `now` and `refresh`
are the readings of the clock in the comparison and in `update_ttl`. -/
def get (env : Env) (s : DHashmap) (now refresh : TimeType) (_key val : Str) :
    Except Failure (DHashmap × GetResult) := do
  let key := env.normalize _key
  let s := { s with gets_ := s.gets_ + 1 }
  match s.findKey env key with
  | some it =>
      match ← s.findValue env s.owners ⟨it.value_⟩ with
      | none => throw .valueRefOnlyInKeys
      | some _ =>
          let val := it.value_.item
          if now < it.ttl_ + s.ttl_ then
            return (s.updateTtl refresh it.key_, ⟨true, val, key⟩)
          else
            return ({ s with updates_ := s.updates_ + 1 }, ⟨false, val, key⟩)
  | none => return (s, ⟨false, val, key⟩)

/-- `DHashmap::add` (`dhashmap.cpp:155-227`); it returns `true` on every path. `new_item` and
`found` are shared pointers while the function runs, and die with it. -/
def add (env : Env) (s : DHashmap) (now : TimeType) (key val : Str) : Except Failure DHashmap := do
  let newItem : MapItem := ⟨s.nextAddr, val⟩
  let s := s.allocate
  match ← s.findValue env (newItem :: s.owners) ⟨newItem⟩ with
  | some inSet =>
      match inSet.item.lock (newItem :: s.owners) with
      | some found =>
          match s.findKey env key with
          | some it =>
              if it.value_.addr ≠ found.addr then
                let owners := found :: newItem :: s.owners
                let s ←
                  if useCount owners it.value_ = 1 then
                    (s.decStorageSize (strLength it.value_.item)).eraseValue env owners ⟨it.value_⟩
                  else pure s
                let s := { s with keys_ := s.keys_.erase it.key_ }
                return s.insertKey env now key found
              else return s
          | none => return (s.insertKey env now key found).incStorageSize (strLength key)
      | none => throw .nullFound
  | none =>
      match s.findKey env key with
      | some it =>
          let s := s.updateTtl now it.key_
          let s ← s.insertValue env (newItem :: s.owners) ⟨newItem⟩
          return s.incStorageSize (strLength newItem.item)
      | none =>
          let s ← s.insertValue env (newItem :: s.owners) ⟨newItem⟩
          let s := s.insertKey env now key newItem
          return s.incStorageSize (strLength newItem.item + strLength key)

/-- The loop of `DHashmap::expirate` over the index on `ttl_`: how many entries it erases, and
the bytes it counts for them. `++it` after `erase(it)` is read as the step to the entry that
followed the erased one. -/
def expirateLoop (expirateSize : UInt64) : List KeyType → UInt64 → Nat × UInt64
  | [], deletedBytes => (0, deletedBytes)
  | it :: rest, deletedBytes =>
      if deletedBytes < expirateSize then
        let deletedBytes := deletedBytes + strLength it.key_
        let deletedBytes :=
          if useCount ((it :: rest).map (·.value_)) it.value_ = 1 then
            deletedBytes + strLength it.value_.item
          else deletedBytes
        let (erased, deletedBytes) := expirateLoop expirateSize rest deletedBytes
        (erased + 1, deletedBytes)
      else (0, deletedBytes)

/-- `DHashmap::expirate` (`dhashmap.cpp:58-95`); it returns the new `deleted_`. -/
def expirate (s : DHashmap) (expirateSize : UInt64) : DHashmap :=
  let (erased, deletedBytes) := expirateLoop expirateSize s.keys_.entries 0
  let s := { s with keys_ := s.keys_.drop erased, deleted_ := s.deleted_ + UInt32.ofNat erased }
  let s := s.decStorageSize deletedBytes
  { s with values_ := s.values_.filter (fun n => (n.item.lock s.owners).isSome) }

/-- `get_storage_size`: the 64-bit counter through a 32-bit result. -/
def getStorageSize (s : DHashmap) : UInt32 := s.storageSize.toUInt32

/-- `get_values_size`. -/
def getValuesSize (s : DHashmap) : UInt32 := UInt32.ofNat s.values_.length

/-- `get_deleted`: the count since the last call. -/
def getDeleted (s : DHashmap) : DHashmap × UInt32 := ({ s with deleted_ := 0 }, s.deleted_)

/-- `get_gets`. -/
def getGets (s : DHashmap) : DHashmap × UInt32 := ({ s with gets_ := 0 }, s.gets_)

/-- `get_updates`. -/
def getUpdates (s : DHashmap) : DHashmap × UInt32 := ({ s with updates_ := 0 }, s.updates_)

/-! ## The calls on the byte counter

The same functions again, with a log of the calls of `inc_storage_size` and `dec_storage_size`
that they make. Erasing the log gives the functions above. -/

/-- A call of `inc_storage_size` with the bytes it adds, or of `dec_storage_size` with the counter
it finds and the bytes it subtracts. -/
inductive CounterCall where
  | inc (bytes : Nat)
  | dec (current size : UInt64)
  deriving DecidableEq, Repr

/-- `DHashmap::add` with its calls on the counter. -/
def addCounted (env : Env) (s : DHashmap) (now : TimeType) (key val : Str) :
    Except Failure (DHashmap × List CounterCall) := do
  let newItem : MapItem := ⟨s.nextAddr, val⟩
  let s := s.allocate
  match ← s.findValue env (newItem :: s.owners) ⟨newItem⟩ with
  | some inSet =>
      match inSet.item.lock (newItem :: s.owners) with
      | some found =>
          match s.findKey env key with
          | some it =>
              if it.value_.addr ≠ found.addr then
                let owners := found :: newItem :: s.owners
                let (s, calls) ←
                  if useCount owners it.value_ = 1 then do
                    let t ←
                      (s.decStorageSize (strLength it.value_.item)).eraseValue env owners
                        ⟨it.value_⟩
                    pure (t, [.dec s.storageSize (strLength it.value_.item)])
                  else pure (s, [])
                let s := { s with keys_ := s.keys_.erase it.key_ }
                return (s.insertKey env now key found, calls)
              else return (s, [])
          | none =>
              return ((s.insertKey env now key found).incStorageSize (strLength key),
                [.inc key.length])
      | none => throw .nullFound
  | none =>
      match s.findKey env key with
      | some it =>
          let s := s.updateTtl now it.key_
          let s ← s.insertValue env (newItem :: s.owners) ⟨newItem⟩
          return (s.incStorageSize (strLength newItem.item), [.inc newItem.item.length])
      | none =>
          let s ← s.insertValue env (newItem :: s.owners) ⟨newItem⟩
          let s := s.insertKey env now key newItem
          return (s.incStorageSize (strLength newItem.item + strLength key),
            [.inc (newItem.item.length + key.length)])

/-- `DHashmap::expirate` with its call on the counter. -/
def expirateCounted (s : DHashmap) (expirateSize : UInt64) : DHashmap × List CounterCall :=
  let (erased, deletedBytes) := expirateLoop expirateSize s.keys_.entries 0
  let s := { s with keys_ := s.keys_.drop erased, deleted_ := s.deleted_ + UInt32.ofNat erased }
  let calls := [.dec s.storageSize deletedBytes]
  let s := s.decStorageSize deletedBytes
  ({ s with values_ := s.values_.filter (fun n => (n.item.lock s.owners).isSome) }, calls)

/-- The log of `add` is on the side. -/
theorem addCounted_fst (env : Env) (s : DHashmap) (now : TimeType) (key val : Str) :
    (s.addCounted env now key val).map Prod.fst = s.add env now key val := by
  unfold addCounted add
  simp only [bind, Except.bind, pure, Except.pure]
  cases findValue env s.allocate (⟨s.nextAddr, val⟩ :: s.allocate.owners) ⟨⟨s.nextAddr, val⟩⟩ with
  | error failure => rfl
  | ok inSet =>
    cases inSet with
    | none =>
      simp only
      cases s.allocate.findKey env key with
      | none =>
        simp only
        cases insertValue env s.allocate (⟨s.nextAddr, val⟩ :: s.allocate.owners)
          ⟨⟨s.nextAddr, val⟩⟩ <;> rfl
      | some it =>
        simp only
        cases insertValue env (s.allocate.updateTtl now it.key_)
          (⟨s.nextAddr, val⟩ :: (s.allocate.updateTtl now it.key_).owners)
          ⟨⟨s.nextAddr, val⟩⟩ <;> rfl
    | some inSet =>
      simp only
      cases inSet.item.lock (⟨s.nextAddr, val⟩ :: s.allocate.owners) with
      | none => rfl
      | some found =>
        simp only
        cases s.allocate.findKey env key with
        | none => rfl
        | some it =>
          simp only
          by_cases hother : it.value_.addr ≠ found.addr
          · simp only [hother, ne_eq, not_false_eq_true, if_true]
            by_cases hcount :
                useCount (found :: ⟨s.nextAddr, val⟩ :: s.allocate.owners) it.value_ = 1
            · simp only [hcount, if_true]
              cases eraseValue env (s.allocate.decStorageSize (strLength it.value_.item))
                (found :: ⟨s.nextAddr, val⟩ :: s.allocate.owners) ⟨it.value_⟩ <;> rfl
            · simp only [hcount, if_false]
              rfl
          · simp only [hother, if_false]
            rfl

/-! ## Runs -/

/-- A call on the store, with the readings of the clock that it makes. -/
inductive Op where
  | add (now : TimeType) (key val : Str)
  | get (now refresh : TimeType) (key : Str)
  | expirate (expirateSize : UInt64)
  deriving DecidableEq, Repr

/-- One call. -/
def step (env : Env) (s : DHashmap) : Op → Except Failure DHashmap
  | .add now key val => s.add env now key val
  | .get now refresh key => (s.get env now refresh key []).map Prod.fst
  | .expirate expirateSize => .ok (s.expirate expirateSize)

/-- One call, with the calls on the counter so far. -/
def stepCounted (env : Env) (s : DHashmap × List CounterCall) :
    Op → Except Failure (DHashmap × List CounterCall)
  | .add now key val =>
      (s.1.addCounted env now key val).map (fun r => (r.1, s.2 ++ r.2))
  | .get now refresh key => (s.1.get env now refresh key []).map (fun r => (r.1, s.2))
  | .expirate expirateSize =>
      let r := s.1.expirateCounted expirateSize
      .ok (r.1, s.2 ++ r.2)

/-- The calls one after the other. -/
def run (env : Env) (s : DHashmap) (ops : List Op) : Except Failure DHashmap :=
  Run.exec (step env) s ops

/-- The calls one after the other, with their calls on the counter. -/
def runCounted (env : Env) (s : DHashmap) (ops : List Op) :
    Except Failure (DHashmap × List CounterCall) :=
  Run.exec (stepCounted env) (s, []) ops

end DHashmap

end Swordfish
