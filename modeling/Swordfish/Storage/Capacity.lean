import Swordfish.Storage.CacheFull

/-!
# The capacity test

`add_item` (`storage.cpp:39-47`) evicts until `get_storage_size() < max_storage_size_`. The counter
and the limit are of type `size_t`; `get_storage_size` (`dhashmap.cpp:229-233`) returns a `uint`, so
the test reads the low 32 bits of the counter. The limit is kept all the same while the counter fits
them.
-/

namespace Swordfish
open DHashmap

namespace Storage

variable {env : Env} {s t : Storage}

/-- The store is below the limit where the loop of `add_item` ends, and `storage_.add` is called. -/
def AddsBelowLimit (s : Storage) : Op → Prop
  | .addItem rounds _ _ _ =>
      ∀ t, While.exec Full expirate rounds s = some t → t.storage_.storageSize < t.maxStorageSize_
  | _ => True

/-- When `add_item` begins, the counter stands below `2 ^ 32`, so that the `uint` that is read is
the counter, and it has not wrapped below the bytes that the store holds. -/
def CounterFits (s : Storage) : Op → Prop
  | .addItem _ _ _ _ =>
      s.storage_.heldBytes ≤ s.storage_.storageSize.toNat ∧ s.storage_.storageSize.toNat < 2 ^ 32
  | _ => True

instance (s : Storage) : DecidablePred s.CounterFits
  | .addItem _ _ _ _ => inferInstanceAs (Decidable (_ ∧ _))
  | .getVal _ | .expirate => isTrue trivial

/-- The evictions of an `add_item` keep the counter where the test reads all of it, so the test
means what it says when it lets the loop end. -/
theorem addsBelowLimit_of_fits (hw : Interned env s.storage_) {op : Op} (h : CounterFits s op) :
    AddsBelowLimit s op := by
  cases op with
  | addItem rounds now key val =>
    intro t hexec
    obtain ⟨hheld, hsmall⟩ := h
    obtain ⟨k, -, -, hnot, rfl⟩ := While.exec_eq_some_iff.mp hexec
    have ht := (counted_of_held hw hheld hsmall).iterate k
    have hfits := ht.small
    have hwide : (Storage.expirate^[k] s).storage_.heldBytes +
        (s.storage_.storageSize.toNat - s.storage_.heldBytes) < 2 ^ 64 := by omega
    rw [ht.full_iff, Nat.not_le] at hnot
    rw [UInt64.lt_iff_toNat_lt, ht.counter, UInt64.toNat_ofNat', Nat.mod_eq_of_lt hwide]
    exact hnot
  | getVal args => trivial
  | expirate => trivial

/-- Where the test asks for no eviction, the counter has to fit a limit of at most `2 ^ 32`. -/
theorem addsBelowLimit_iff_of_room {rounds : Nat} {now : TimeType} {key val : Str} (h : ¬ Full s)
    (hmax : s.maxStorageSize_.toNat ≤ 2 ^ 32) :
    AddsBelowLimit s (.addItem rounds now key val) ↔ s.storage_.storageSize.toNat < 2 ^ 32 := by
  have hread : s.storage_.storageSize.toNat % 2 ^ 32 < s.maxStorageSize_.toNat := by
    rw [← toNat_storageSize, ← UInt64.lt_iff_toNat_lt]
    exact UInt64.not_le.mp h
  have hexec : While.exec Full expirate rounds s = some s := While.exec_of_not_cond h rounds
  constructor
  · intro hlimit
    exact Nat.lt_of_lt_of_le (UInt64.lt_iff_toNat_lt.mp (hlimit s hexec)) hmax
  · intro hfits t ht
    obtain rfl : s = t := Option.some.inj (hexec.symm.trans ht)
    rw [Nat.mod_eq_of_lt hfits] at hread
    exact UInt64.lt_iff_toNat_lt.mpr hread

/-- The capacity limit: with a limit of any size, in every run in which each `add_item` finds the
counter below `2 ^ 32`, every call of `storage_.add` finds the store below `max_storage_size_`. -/
theorem run_below_limit {now : TimeType} {ttl : Nat}
    {maxStorageSize maxQueueSize expirateSize : UInt64} {ops : List Op}
    (h : Run.Every (step env) CounterFits (init now ttl maxStorageSize maxQueueSize expirateSize)
      ops) :
    Run.Every (step env) AddsBelowLimit (init now ttl maxStorageSize maxQueueSize expirateSize)
      ops := by
  refine Run.every_iff.mpr ?_
  intro front op rest t hsplit ht
  have hw : Interned env t.storage_ := run_interned (run_storage_ ht).1
  exact addsBelowLimit_of_fits hw (Run.every_iff.mp h front op rest t hsplit ht)

/-- The first `add_item` of a storage counts its key and its value. -/
theorem addItem_first (env : Env) {now₀ now : TimeType} {ttl : Nat}
    {maxStorageSize maxQueueSize expirateSize : UInt64} (hmax : 0 < maxStorageSize)
    (key val : Str) :
    ∃ t, step env (init now₀ ttl maxStorageSize maxQueueSize expirateSize)
        (.addItem 0 now key val) = .ok t ∧
      t.storage_.storageSize = strLength val + strLength key ∧
      t.maxStorageSize_ = maxStorageSize := by
  obtain ⟨storage, hadd, hcase⟩ := add_cases (interned_init env ttl) now key val
  have hnot : ¬ Full (init now₀ ttl maxStorageSize maxQueueSize expirateSize) :=
    UInt64.not_le.mpr hmax
  have hloop : While.exec Full expirate 0 _ = some _ := While.exec_of_not_cond hnot 0
  refine ⟨{ init now₀ ttl maxStorageSize maxQueueSize expirateSize with storage_ := storage },
    ?_, ?_, rfl⟩
  · exact addItem_ok.mpr ⟨_, storage, hloop, hadd, rfl⟩
  · cases hcase with
    | noChanges hit hkey hval => cases hit
    | replaceValue hit hkey hval hholder hfound => cases hit
    | addKey habsent hholder hfound => cases hholder
    | refreshKey hit hkey hnew => cases hit
    | addPair habsent hnew => exact UInt64.zero_add _

/-- Two keys are stored with a limit of 3 bytes, the second one after an eviction. -/
theorem run_below_limit_evicts :
    Run.Every (step .plain) AddsBelowLimit (init 0 10 3 100 1)
      [.addItem 5 0 [107] [97, 97], .addItem 5 1 [108] [98]] :=
  run_below_limit (by decide)

/-- A limit of 4 GiB and a value of 4 GiB: the counter stands one byte above the limit, the test
reads 1, and the next item is added without an eviction. -/
theorem run_beyond_limit :
    ¬ Run.Every (step .plain) AddsBelowLimit (init 0 10 4294967296 100 1)
      [.addItem 0 0 [107] (List.replicate (2 ^ 32) 97), .addItem 0 1 [108] [98]] := by
  obtain ⟨t, hstep, hsize, hmax⟩ := @addItem_first .plain 0 0 10 4294967296 100 1 (by decide)
    [107] (List.replicate (2 ^ 32) 97)
  have hcounter : t.storage_.storageSize = 4294967297 := by
    rw [hsize, strLength, strLength, List.length_replicate]
    decide
  rw [Run.every_cons hstep]
  rintro ⟨-, hsecond, -⟩
  have hnot : ¬ Full t := by
    rw [Full, storageSize, getStorageSize, hcounter, hmax]
    decide
  rw [addsBelowLimit_iff_of_room hnot (by rw [hmax]; decide), hcounter] at hsecond
  exact absurd hsecond (by decide)

end Storage

end Swordfish
