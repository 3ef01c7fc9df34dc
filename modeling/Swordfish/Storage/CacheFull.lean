import Swordfish.DHashmap.Accounting
import Swordfish.Storage.Model

/-!
# The loop of a full cache

`add_item` evicts until the byte counter is below `max_storage_size_`. Every round removes a key,
so the loop ends when the counter of an empty store is below the limit. An empty store counts
exactly the bytes that were leaked before: the loop ends if and only if these are below the
limit.
-/

namespace Swordfish
open DHashmap

namespace Storage

variable {env : Env} {s : Storage}

/-- The counter is the bytes held plus `leaked`, and fits in 32 bits. -/
structure Counted (env : Env) (leaked : Nat) (s : Storage) : Prop where
  interned : Interned env s.storage_
  counter : s.storage_.storageSize = UInt64.ofNat (s.storage_.heldBytes + leaked)
  small : s.storage_.heldBytes + leaked < 2 ^ 32

theorem Counted.expirate {leaked : Nat} (h : Counted env leaked s) :
    Counted env leaked s.expirate where
  interned := expirate_interned h.interned _
  counter := (StepCase.expirate s.expirateSize_).storageSize_eq h.interned h.counter
  small := by
    have hle : s.expirate.storage_.heldBytes ≤ s.storage_.heldBytes :=
      heldBytes_expirate_le s.storage_ s.expirateSize_
    have := h.small
    omega

/-- The counter is the bytes held and the rest, which nothing holds. -/
theorem counted_of_held (hw : Interned env s.storage_)
    (hheld : s.storage_.heldBytes ≤ s.storage_.storageSize.toNat)
    (hsmall : s.storage_.storageSize.toNat < 2 ^ 32) :
    Counted env (s.storage_.storageSize.toNat - s.storage_.heldBytes) s := by
  have hsum : s.storage_.heldBytes + (s.storage_.storageSize.toNat - s.storage_.heldBytes) =
      s.storage_.storageSize.toNat := Nat.add_sub_cancel' hheld
  refine ⟨hw, ?_, ?_⟩
  · rw [hsum, UInt64.ofNat_toNat]
  · rw [hsum]
    exact hsmall

theorem Counted.iterate {leaked : Nat} (h : Counted env leaked s) (n : Nat) :
    Counted env leaked (Storage.expirate^[n] s) := by
  induction n generalizing s with
  | zero => exact h
  | succ n ih => exact ih h.expirate

/-- While the counter fits in 32 bits, the test of the loop compares the bytes. -/
theorem Counted.full_iff {leaked : Nat} (h : Counted env leaked s) :
    Full s ↔ s.maxStorageSize_.toNat ≤ s.storage_.heldBytes + leaked := by
  have hsmall := h.small
  have hwide : s.storage_.heldBytes + leaked < 2 ^ 64 := by omega
  have hsize : s.storageSize.toNat = s.storage_.heldBytes + leaked := by
    rw [toNat_storageSize, h.counter, UInt64.toNat_ofNat', Nat.mod_eq_of_lt hwide,
      Nat.mod_eq_of_lt hsmall]
  unfold Full
  rw [UInt64.le_iff_toNat_le, hsize]

/-- The loop ends when the leaked bytes are below the limit: every round removes a key, and
without keys only the leaked bytes are counted. -/
theorem Counted.ends {leaked : Nat} (h : Counted env leaked s) (hexpirate : 0 < s.expirateSize_)
    (hleaked : leaked < s.maxStorageSize_.toNat) : While.Ends Full Storage.expirate s := by
  refine While.ends_of_measure
    (I := fun u => Counted env leaked u ∧ 0 < u.expirateSize_ ∧ leaked < u.maxStorageSize_.toNat)
    (fun u => u.storage_.keys_.entries.length) ?_ ?_ ⟨h, hexpirate, hleaked⟩
  · rintro u ⟨hu, hpos, hlimit⟩ -
    exact ⟨hu.expirate, hpos, hlimit⟩
  · rintro u ⟨hu, hpos, hlimit⟩ hfull
    have hkeys : u.storage_.keys_.entries ≠ [] := by
      intro hnil
      have := hu.full_iff.mp hfull
      rw [heldBytes_of_no_keys hnil] at this
      omega
    have hcount := expirateCount_pos hpos hkeys
    have hlen := List.length_pos_iff.mpr hkeys
    change (u.storage_.keys_.entries.drop (u.storage_.expirateCount u.expirateSize_)).length < _
    rw [List.length_drop]
    omega

/-- The loop does not end when the leaked bytes reach the limit. -/
theorem Counted.not_ends {leaked : Nat} (h : Counted env leaked s)
    (hleaked : s.maxStorageSize_.toNat ≤ leaked) : ¬ While.Ends Full Storage.expirate s := by
  refine While.not_ends_of_invariant
    (I := fun u => Counted env leaked u ∧ u.maxStorageSize_.toNat ≤ leaked) ?_ ?_ ⟨h, hleaked⟩
  · rintro u ⟨hu, hlimit⟩
    exact ⟨hu.expirate, hlimit⟩
  · rintro u ⟨hu, hlimit⟩
    apply hu.full_iff.mpr
    omega

/-! ## `add_item` -/

/-- `add_item` returns when its loop ends: `add` does not fail. -/
theorem Counted.addItem_iff {leaked : Nat} (h : Counted env leaked s) (now : TimeType)
    (key val : Str) :
    (∃ rounds t, s.addItem env rounds now key val = .ok t) ↔
      While.Ends Full Storage.expirate s := by
  constructor
  · rintro ⟨rounds, t, hadd⟩
    obtain ⟨u, -, hloop, -, -⟩ := addItem_ok.mp hadd
    exact ⟨rounds, u, hloop⟩
  · rintro ⟨rounds, u, hloop⟩
    have hu : Interned env u.storage_ := by
      rw [While.exec_eq_iterate hloop]
      exact (h.iterate _).interned
    obtain ⟨storage, hadd, -⟩ := add_cases hu now key val
    exact ⟨rounds, { u with storage_ := storage }, addItem_ok.mpr ⟨u, storage, hloop, hadd, rfl⟩⟩

/-- The bytes that a run has leaked: those of the values its `add_item` calls gave to stored keys
while no key held them. -/
def leakedBytes (env : Env) (ttl : Nat) (s : Storage) (ops : List Op) : Nat :=
  DHashmap.leakedBytes env ttl (calls env s ops)

theorem run_counted {now : TimeType} {ttl : Nat} {maxStorageSize maxQueueSize expirateSize : UInt64}
    {ops : List Op}
    (h : run env (init now ttl maxStorageSize maxQueueSize expirateSize) ops = .ok s)
    (hsmall : s.storage_.heldBytes +
      leakedBytes env ttl (init now ttl maxStorageSize maxQueueSize expirateSize) ops < 2 ^ 32) :
    Counted env
      (leakedBytes env ttl (init now ttl maxStorageSize maxQueueSize expirateSize) ops) s where
  interned := run_interned (run_storage_ h).1
  counter := storageSize_eq (run_storage_ h).1
  small := hsmall

/-- The cache-full loop, exactly: from every reachable state whose bytes total less than `2 ^ 32`,
`add_item` returns if and only if the bytes leaked so far are below `max_storage_size_`. -/
theorem addItem_returns_iff {now₀ : TimeType} {ttl : Nat}
    {maxStorageSize maxQueueSize expirateSize : UInt64} {ops : List Op}
    (h : run env (init now₀ ttl maxStorageSize maxQueueSize expirateSize) ops = .ok s)
    (hexpirate : 0 < expirateSize)
    (hsmall : s.storage_.heldBytes +
      leakedBytes env ttl (init now₀ ttl maxStorageSize maxQueueSize expirateSize) ops < 2 ^ 32)
    (now : TimeType) (key val : Str) :
    (∃ rounds t, s.addItem env rounds now key val = .ok t) ↔
      leakedBytes env ttl (init now₀ ttl maxStorageSize maxQueueSize expirateSize) ops <
        maxStorageSize.toNat := by
  have hcounted := run_counted h hsmall
  obtain ⟨hmax, hsize⟩ := (run_storage_ h).2
  change s.maxStorageSize_ = maxStorageSize at hmax
  change s.expirateSize_ = expirateSize at hsize
  rw [hcounted.addItem_iff]
  constructor
  · intro hends
    refine Nat.lt_of_not_le (fun hle => hcounted.not_ends ?_ hends)
    rw [hmax]
    exact hle
  · intro hlt
    apply hcounted.ends
    · rw [hsize]
      exact hexpirate
    · rw [hmax]
      exact hlt

/-- A store of 5 bytes at its limit of 5, of which 3 are leaked: the loop evicts and ends. -/
theorem addItem_returns_full :
    ∃ s, run .plain (init 0 10 5 100 1) [.addItem 0 0 [107] [97], .addItem 0 1 [107] [98, 98, 98]] =
        .ok s ∧ Full s ∧ ∃ rounds t, s.addItem .plain rounds 2 [120] [121] = .ok t :=
  ⟨_, rfl, by decide, (@addItem_returns_iff .plain _ 0 10 5 100 1
    [.addItem 0 0 [107] [97], .addItem 0 1 [107] [98, 98, 98]] rfl (by decide) (by decide)
    2 [120] [121]).mpr (by decide)⟩

/-- With a limit of 3, `add_item("k", "a")` and `add_item("k", "bbb")` leak 3 bytes, and then
`add_item("x", "y")` never returns. -/
theorem addItem_hangs :
    ∃ s, run .plain (init 0 10 3 100 1) [.addItem 0 0 [107] [97], .addItem 0 1 [107] [98, 98, 98]] =
        .ok s ∧ s.storage_.storageSize = 5 ∧
      ¬ ∃ rounds t, s.addItem .plain rounds 2 [120] [121] = .ok t := by
  refine ⟨_, rfl, by decide, ?_⟩
  have hcounted := @run_counted .plain _ 0 10 3 100 1
    [.addItem 0 0 [107] [97], .addItem 0 1 [107] [98, 98, 98]] rfl (by decide)
  rw [hcounted.addItem_iff]
  exact hcounted.not_ends (by decide)

end Storage

end Swordfish
