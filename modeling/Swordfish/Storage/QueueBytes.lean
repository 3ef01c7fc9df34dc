import Swordfish.Storage.Model

/-!
# The bytes of the queue

`max_queue_size_` is a number of bytes (`storage.hpp:66`, `cfg.hpp:66-69`), and the queue counts its
bytes; `push_key` (`storage.cpp:74-81`) compares the limit with the number of keys. This is when the
bytes are limited all the same.
-/

namespace Swordfish.Storage

/-- A call on the queue of the storage, executed alone. -/
inductive QueueCall where
  | pushKey (key : Str)
  | popKey
  deriving DecidableEq, Repr

/-- `Storage::pop_key`. -/
def popKey (s : Storage) : Storage × Str :=
  let (queue, key) := s.queue_.waitAndPop
  ({ s with queue_ := queue }, key)

/-- One call. -/
def queueStep (s : Storage) : QueueCall → Except Stop Storage
  | .pushKey key => .ok (s.pushKey key)
  | .popKey => .ok s.popKey.1

/-- The total length of some keys. -/
def keyBytes (keys : List Str) : Nat := (keys.map List.length).sum

/-- The total length of the queued keys. -/
def queuedBytes (s : Storage) : Nat := keyBytes s.queue_.queue_

/-- A key is appended only while the queued bytes are below the limit. -/
def AppendsBelow (s : Storage) : QueueCall → Prop
  | .pushKey key =>
      (s.pushKey key).queue_.queue_ ≠ s.queue_.queue_ → s.queuedBytes < s.maxQueueSize_.toNat
  | .popKey => True

/-- Where the queue has room for a new key by the number of its keys, it has room by their bytes. -/
def RoomAgrees (s : Storage) : QueueCall → Prop
  | .pushKey key =>
      key ∉ s.queue_.queue_ → s.queue_.size.toUInt64 < s.maxQueueSize_ →
        s.queuedBytes < s.maxQueueSize_.toNat
  | .popKey => True

variable {s t : Storage} {key : Str}

theorem appendsBelow_iff (s : Storage) (call : QueueCall) :
    AppendsBelow s call ↔ RoomAgrees s call := by
  cases call with
  | popKey => exact Iff.rfl
  | pushKey key =>
    rw [AppendsBelow, RoomAgrees, pushKey_queue_]
    split
    · rename_i happends
      constructor
      · exact fun h _ _ => h (by simp)
      · exact fun h _ => h happends.1 happends.2
    · rename_i hnone
      constructor
      · exact fun _ hnew hroom => absurd ⟨hnew, hroom⟩ hnone
      · exact fun _ hne => absurd rfl hne

/-- The queued bytes are at most the limit, or exceed it by less than one of these keys. -/
def BytesBounded (calls : List QueueCall) (s : Storage) : Prop :=
  s.queuedBytes ≤ s.maxQueueSize_.toNat ∨
    ∃ key, QueueCall.pushKey key ∈ calls ∧ s.queuedBytes < s.maxQueueSize_.toNat + key.length

theorem queuedBytes_popKey_le (s : Storage) : s.popKey.1.queuedBytes ≤ s.queuedBytes := by
  change keyBytes s.queue_.waitAndPop.1.queue_ ≤ keyBytes s.queue_.queue_
  unfold Queue.waitAndPop
  cases hq : s.queue_.queue_ with
  | nil => simp [hq]
  | cons data rest => simp [keyBytes]

/-- One call keeps the bound when it appends below the limit. -/
theorem queueStep_bounded {calls : List QueueCall} {call : QueueCall} (hs : BytesBounded calls s)
    (hbelow : AppendsBelow s call) (hstep : queueStep s call = .ok t) :
    BytesBounded (calls ++ [call]) t := by
  have hkeep : ∀ u : Storage, u.maxQueueSize_ = s.maxQueueSize_ → u.queuedBytes ≤ s.queuedBytes →
      BytesBounded (calls ++ [call]) u := by
    intro u hmax hle
    rw [BytesBounded, hmax]
    rcases hs with hs | ⟨key, hkey, hs⟩
    · exact Or.inl (Nat.le_trans hle hs)
    · exact Or.inr ⟨key, List.mem_append_left _ hkey, Nat.lt_of_le_of_lt hle hs⟩
  cases call with
  | popKey =>
    cases hstep
    exact hkeep s.popKey.1 rfl (queuedBytes_popKey_le s)
  | pushKey key =>
    cases hstep
    by_cases hsame : (s.pushKey key).queue_.queue_ = s.queue_.queue_
    · refine hkeep (s.pushKey key) (pushKey_maxQueueSize_ s key) (Nat.le_of_eq ?_)
      rw [queuedBytes, hsame, queuedBytes]
    · have hlimit := hbelow hsame
      have happends := pushKey_queue_ s key
      rw [if_pos (by_contra fun hnot => hsame (happends.trans (if_neg hnot)))] at happends
      refine Or.inr ⟨key, List.mem_append_right _ List.mem_cons_self, ?_⟩
      rw [queuedBytes, happends, pushKey_maxQueueSize_]
      rw [queuedBytes] at hlimit
      simp only [keyBytes, List.map_append, List.sum_append, List.map_singleton,
        List.sum_singleton] at hlimit ⊢
      omega

/-- In a run that appends below the limit the bytes stay bounded. -/
theorem run_bounded {calls : List QueueCall} (hs : s.queue_.queue_ = [])
    (hbelow : Run.Every queueStep AppendsBelow s calls)
    (h : Run.exec queueStep s calls = .ok t) : BytesBounded calls t := by
  refine Run.every_induction (P := fun calls t => BytesBounded calls t) ?_ ?_ h hbelow
  · rw [BytesBounded, queuedBytes, hs]
    exact Or.inl (Nat.zero_le _)
  · intro calls s call t _ hs hcall hstep
    exact queueStep_bounded hs hcall hstep

/-- With a limit of one the queue has room for a key only when it is empty. -/
theorem roomAgrees_of_limit_le_one (hmax : s.maxQueueSize_ ≤ 1) (hs : s.queue_.queue_.length ≤ 1)
    (call : QueueCall) : RoomAgrees s call := by
  cases call with
  | popKey => trivial
  | pushKey key =>
    intro _ hroom
    have hread := UInt64.lt_iff_toNat_lt.mp hroom
    have hone := UInt64.le_iff_toNat_le.mp hmax
    rw [Queue.toNat_size] at hread
    rw [queuedBytes]
    cases hq : s.queue_.queue_ with
    | nil => exact Nat.lt_of_le_of_lt (Nat.zero_le _) hread
    | cons data rest =>
      rw [hq, List.length_cons] at hs hread
      rw [Nat.mod_eq_of_lt (by omega)] at hread
      have hone' : s.maxQueueSize_.toNat ≤ 1 := hone
      omega

theorem queueStep_limit_one {call : QueueCall}
    (hs : s.maxQueueSize_ ≤ 1 ∧ s.queue_.queue_.length ≤ 1)
    (hstep : queueStep s call = .ok t) :
    t.maxQueueSize_ ≤ 1 ∧ t.queue_.queue_.length ≤ 1 := by
  obtain ⟨hmax, hlength⟩ := hs
  cases call with
  | popKey =>
    cases hstep
    refine ⟨hmax, ?_⟩
    change s.queue_.waitAndPop.1.queue_.length ≤ 1
    unfold Queue.waitAndPop
    cases hq : s.queue_.queue_ with
    | nil => simp [hq]
    | cons data rest =>
      rw [hq, List.length_cons] at hlength
      exact Nat.le_of_succ_le hlength
  | pushKey key =>
    cases hstep
    refine ⟨by rwa [pushKey_maxQueueSize_], ?_⟩
    rw [pushKey_queue_]
    split
    · rename_i happends
      have hroom := UInt64.lt_of_lt_of_le happends.2 hmax
      have hread := UInt64.lt_iff_toNat_lt.mp hroom
      rw [Queue.toNat_size, Nat.mod_eq_of_lt (by omega)] at hread
      rw [List.length_append, List.length_singleton]
      have hread' : s.queue_.queue_.length < 1 := hread
      omega
    · exact hlength

/-- With a limit above one, a key as long as the limit leaves room for another. -/
theorem not_appendsBelow_of_long_key (hs : s.queue_ = .init) (hmax : 1 < s.maxQueueSize_) :
    ¬ Run.Every queueStep AppendsBelow s
      [.pushKey (List.replicate s.maxQueueSize_.toNat 97), .pushKey [98]] := by
  have hone : 1 < s.maxQueueSize_.toNat := UInt64.lt_iff_toNat_lt.mp hmax
  have hempty : s.queue_.size.toUInt64 < s.maxQueueSize_ := by
    rw [hs]
    exact UInt64.lt_trans (by decide) hmax
  have hqueue : (s.pushKey (List.replicate s.maxQueueSize_.toNat 97)).queue_.queue_ =
      [List.replicate s.maxQueueSize_.toNat 97] := by
    rw [pushKey_queue_, if_pos ⟨by simp [hs, Queue.init], hempty⟩, hs]
    rfl
  rintro ⟨-, hsecond, -⟩
  have hagrees := (appendsBelow_iff _ _).mp hsecond
  have hbytes := hagrees ?_ ?_
  · rw [queuedBytes, hqueue, pushKey_maxQueueSize_] at hbytes
    simp [keyBytes] at hbytes
  · rw [hqueue, List.mem_singleton]
    intro heq
    have hlength := congrArg List.length heq
    rw [List.length_replicate, List.length_singleton] at hlength
    omega
  · rw [Queue.size, hqueue, pushKey_maxQueueSize_]
    exact hmax

/-- The queue limit in bytes, exactly. In a run of calls a key is appended only while the queued
bytes are below `max_queue_size_`, and the bytes never exceed it by a whole key, if and only if at
every push of a new key the queue that has room by the number of its keys has room by their bytes.
All runs are such only when `max_queue_size_` is at most 1. -/
theorem queuedBytes_limit_iff (now : TimeType) (ttl : Nat)
    (maxStorageSize maxQueueSize expirateSize : UInt64) :
    (∀ calls,
      (Run.Every queueStep AppendsBelow (init now ttl maxStorageSize maxQueueSize expirateSize)
          calls ∧
        ∀ front t, front <+: calls →
          Run.exec queueStep (init now ttl maxStorageSize maxQueueSize expirateSize) front = .ok t →
            BytesBounded front t) ↔
      Run.Every queueStep RoomAgrees (init now ttl maxStorageSize maxQueueSize expirateSize)
        calls) ∧
    ((∀ calls, Run.Every queueStep RoomAgrees
        (init now ttl maxStorageSize maxQueueSize expirateSize) calls) ↔ maxQueueSize ≤ 1) := by
  refine ⟨fun calls => ?_, ?_⟩
  · rw [← Run.every_congr appendsBelow_iff]
    refine ⟨And.left, fun hbelow => ⟨hbelow, ?_⟩⟩
    rintro front t ⟨rest, rfl⟩ ht
    exact run_bounded rfl ((Run.every_append ht).mp hbelow).1 ht
  · constructor
    · intro hall
      refine UInt64.not_lt.mp (fun hmax => ?_)
      refine not_appendsBelow_of_long_key (s := init now ttl maxStorageSize maxQueueSize
        expirateSize) rfl hmax ?_
      exact (Run.every_congr appendsBelow_iff).mpr (hall _)
    · intro hmax calls
      refine Run.every_iff.mpr (fun front call rest t _ ht => ?_)
      have hsmall := Run.exec_invariant
        (I := fun s : Storage => s.maxQueueSize_ ≤ 1 ∧ s.queue_.queue_.length ≤ 1)
        (fun _ _ _ hs hstep => queueStep_limit_one hs hstep) ⟨hmax, Nat.zero_le _⟩ ht
      exact roomAgrees_of_limit_le_one hsmall.1 hsmall.2 call

/-- With a limit of 4 bytes a key of 9 bytes is queued, and another behind it. -/
theorem queuedBytes_beyond_limit :
    ¬ Run.Every queueStep AppendsBelow (init 0 10 100 4 1)
      [.pushKey (text "long key!"), .pushKey (text "k")] := by
  rw [Run.every_congr appendsBelow_iff]
  rintro ⟨-, hsecond, -⟩
  exact absurd (hsecond (by decide) (by decide)) (by decide)

end Swordfish.Storage
