import Swordfish.Storage.GetVal
import Swordfish.System.Provenance
import Swordfish.System.Sequential

/-!
# A `get` command on the daemon's storage

What `get_val` does when no other thread interleaves, from every storage that the daemon can reach.
It is what its arguments ask, but for a queue of `2 ^ 32` keys: `Queue::size` is a `uint`.
-/

namespace Swordfish
open Storage DHashmap

variable {cfg : FillerConfig} {env : Env} {s : Sys}

/-- A get command, exactly: from every storage that the daemon reaches, `get_val` does what its
arguments ask if and only if `size` agrees on what is full wherever it meets a key to queue. -/
theorem getVal_reachable_iff {now : TimeType} {ttl : Nat}
    {maxStorageSize maxQueueSize expirateSize : UInt64} {actions : List Action}
    (h : Sys.run cfg env (.init (.init now ttl maxStorageSize maxQueueSize expirateSize)) actions =
      .ok s) (args : List Lookup) :
    ∃ t res, s.storage.getVal env args = .ok (t, res) ∧
      (GetValSpec env s.storage args t res ↔ SizeAgrees s.storage (wanted env s.storage args)) := by
  obtain ⟨t, res, hget, -, hspec⟩ := getVal_spec_iff (run_provenance h).stored.interned args
  exact ⟨t, res, hget, hspec⟩

/-- A key that is stored, looked up twice, and one that is not, which is queued. -/
theorem getVal_reachable_refill :
    ∃ s, Sys.run ⟨false, 1⟩ .plain (.init (.init 0 10 100 100 1))
        (askScript 0 [107] ++ fetchScript 1 true [[118]] ++ List.replicate 3 (.filler 1)) = .ok s ∧
      ∃ t res, s.storage.getVal .plain [⟨[107], 2, 2⟩, ⟨[108], 3, 3⟩, ⟨[107], 4, 4⟩] =
          .ok (t, res) ∧
        GetValSpec .plain s.storage [⟨[107], 2, 2⟩, ⟨[108], 3, 3⟩, ⟨[107], 4, 4⟩] t res := by
  obtain ⟨s, hrun, hmax, hqueue⟩ := Run.yields_iff.mp (by decide +kernel :
    Run.Yields (Sys.step ⟨false, 1⟩ .plain)
      (fun s => s.storage.maxQueueSize_ = 100 ∧ s.storage.queue_.queue_ = [])
      (.init (.init 0 10 100 100 1))
      (askScript 0 [107] ++ fetchScript 1 true [[118]] ++ List.replicate 3 (.filler 1)))
  obtain ⟨t, res, hget, hspec⟩ :=
    getVal_reachable_iff hrun [⟨[107], 2, 2⟩, ⟨[108], 3, 3⟩, ⟨[107], 4, 4⟩]
  refine ⟨s, hrun, t, res, hget, hspec.mpr (sizeAgrees_of_small_limit ?_ ?_ _)⟩
  · rw [hmax]
    decide
  · rw [hqueue]
    exact Nat.zero_le _

/-! ## A queue of `2 ^ 32` keys -/

/-- Eight letters for a number below `2 ^ 32`. -/
def letters (i : Nat) : Str := (List.range 8).map (fun j => UInt8.ofNat (97 + i / 16 ^ j % 16))

theorem mod_eq_of_digits {i j n : Nat} (h : ∀ k < n, i / 16 ^ k % 16 = j / 16 ^ k % 16) :
    i % 16 ^ n = j % 16 ^ n := by
  induction n with
  | zero => simp [Nat.mod_one]
  | succ n ih =>
    rw [Nat.mod_pow_succ, Nat.mod_pow_succ, ih (fun k hk => h k (by omega)), h n (by omega)]

theorem letters_inj {i j : Nat} (hi : i < 2 ^ 32) (hj : j < 2 ^ 32) (h : letters i = letters j) :
    i = j := by
  have hdigits : ∀ k < 8, i / 16 ^ k % 16 = j / 16 ^ k % 16 := by
    intro k hk
    have hletter := (List.map_inj_left.mp h) k (List.mem_range.mpr hk)
    have hnat := congrArg UInt8.toNat hletter
    simp only [UInt8.toNat_ofNat'] at hnat
    omega
  have hmod := mod_eq_of_digits hdigits
  rwa [Nat.mod_eq_of_lt (by omega), Nat.mod_eq_of_lt (by omega)] at hmod

/-- `2 ^ 32` keys. -/
def manyKeys : List Str := (List.range (2 ^ 32)).map letters

theorem length_manyKeys : manyKeys.length = 2 ^ 32 := by
  rw [manyKeys, List.length_map, List.length_range]

theorem nodup_manyKeys : manyKeys.Nodup := by
  refine List.Nodup.map_on (fun i hi j hj h => ?_) List.nodup_range
  exact letters_inj (List.mem_range.mp hi) (List.mem_range.mp hj) h

theorem not_mem_manyKeys {key : Str} (h : key.length ≠ 8) : key ∉ manyKeys := by
  intro hmem
  obtain ⟨i, -, rfl⟩ := List.mem_map.mp hmem
  exact h (by rw [letters, List.length_map, List.length_range])

/-- Every queue of different keys within its limit can be reached. -/
theorem exists_queue {keys : List Str} (hnodup : keys.Nodup) {limit : UInt64}
    (hroom : keys.length ≤ limit.toNat) :
    ∃ actions s, Sys.run cfg .plain (.init (.init 0 10 100 limit 1)) actions = .ok s ∧
      s.storage.queue_.queue_ = keys ∧ s.storage.maxQueueSize_ = limit ∧
      s.storage.storage_.keys_.entries = [] := by
  have hw : Interned .plain (Storage.init 0 10 100 limit 1).storage_ := interned_init .plain 10
  obtain ⟨t, res, hget, hlooked, -⟩ := getVal_spec_iff hw (keys.map (fun key => ⟨key, 0, 0⟩))
  obtain ⟨actions, items, hrun⟩ := getVal_alone cfg
    (s := .init (.init 0 10 100 limit 1)) (c := 0) rfl hget
  refine ⟨_, _, hrun, ?_, hlooked.limit, hlooked.entries⟩
  have hwanted : wanted .plain (Storage.init 0 10 100 limit 1)
      (keys.map (fun key => ⟨key, 0, 0⟩)) = keys := by
    rw [wanted_of_no_keys rfl, List.map_map]
    exact List.map_id _
  have hempty : ([] : List Str).length + keys.length ≤ limit.toNat := by
    rwa [List.length_nil, Nat.zero_add]
  have hqueue := hlooked.queue
  rw [hwanted] at hqueue
  refine hqueue.trans ?_
  have hweak : ∀ n, limit.toNat ≤ n % 2 ^ 32 → limit.toNat ≤ n :=
    fun n h => Nat.le_trans h (Nat.mod_le _ _)
  refine ((LimitedQueue.offerAll_eq_iff hweak _ _).mpr
    (LimitedQueue.agreeOn_of_room hempty)).trans ?_
  exact LimitedQueue.offerAll_of_new hnodup (fun _ _ => List.not_mem_nil) hempty

/-- A queue at its limit takes one more key when `size` says that there is room. -/
theorem getVal_beyond {keys : List Str} {limit : UInt64} {s : Storage}
    (hw : Interned .plain s.storage_) (hqueue : s.queue_.queue_ = keys)
    (hmax : s.maxQueueSize_ = limit) (hkeys : s.storage_.keys_.entries = [])
    (hfull : limit.toNat ≤ keys.length) (hpasses : ¬ limit.toNat ≤ keys.length % 2 ^ 32)
    {x : Lookup} (hnew : x.arg ∉ keys) :
    ∃ t res, s.getVal .plain [x] = .ok (t, res) ∧ ¬ GetValSpec .plain s [x] t res ∧
      t.queue_.queue_ = keys ++ [x.arg] := by
  obtain ⟨t, res, hget, hlooked, hspec⟩ := getVal_spec_iff hw [x]
  have hwanted : wanted .plain s [x] = [x.arg] := wanted_of_no_keys hkeys _
  refine ⟨t, res, hget, fun hgood => ?_, ?_⟩
  · have hagrees := hspec.mp hgood
    rw [SizeAgrees, hwanted, hqueue, hmax] at hagrees
    exact hpasses (hagrees.1 hnew hfull)
  · rw [hlooked.queue, hwanted, hqueue, hmax]
    exact if_pos ⟨hnew, hpasses⟩

/-- With `max_queue_size_` at `2 ^ 32` and as many keys queued, `get_val` queues another. -/
theorem getVal_beyond_limit :
    ∃ actions s, Sys.run ⟨false, 1⟩ .plain (.init (.init 0 10 100 4294967296 1)) actions = .ok s ∧
      s.storage.queue_.queue_ = manyKeys ∧
      ∃ t res, s.storage.getVal .plain [⟨[98], 1, 1⟩] = .ok (t, res) ∧
        ¬ GetValSpec .plain s.storage [⟨[98], 1, 1⟩] t res ∧
        t.queue_.queue_ = manyKeys ++ [[98]] := by
  have hlimit : (4294967296 : UInt64).toNat = 2 ^ 32 := by decide
  have hroom : manyKeys.length ≤ (4294967296 : UInt64).toNat := by rw [length_manyKeys, hlimit]
  obtain ⟨actions, s, hrun, hqueue, hmax, hkeys⟩ :=
    @exists_queue ⟨false, 1⟩ manyKeys nodup_manyKeys 4294967296 hroom
  refine ⟨actions, s, hrun, hqueue, ?_⟩
  apply getVal_beyond (run_provenance hrun).stored.interned hqueue hmax hkeys
  · rw [length_manyKeys, hlimit]
  · rw [length_manyKeys, hlimit]
    decide
  · exact not_mem_manyKeys (by decide)

end Swordfish
