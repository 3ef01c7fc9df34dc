import Swordfish.DHashmap.Accounting

/-!
# What one call changes

`add` (`dhashmap.cpp:155-227`) reaches past its own key when it erases an old value from the shared
set, and `expirate` (`dhashmap.cpp:58-95`) decides which values go by running use counts. Here is
what each of the two leaves of every other key and of `values_`.
-/

namespace Swordfish.DHashmap
open SharedPtr

variable {env : Env} {s t : DHashmap} {now : TimeType} {key val : Str}

/-! ## The frame of `add` -/

/-- The keys after `add` are the old ones and its own. -/
theorem AddCase.exists_key_iff (h : AddCase env s now key val t) {k : Str} :
    (∃ e ∈ t.keys_.entries, e.key_ = k) ↔ k = key ∨ ∃ e ∈ s.keys_.entries, e.key_ = k := by
  by_cases hk : k = key
  · obtain ⟨e, he, hkey, -⟩ := h.own
    exact iff_of_true ⟨e, he, hkey.trans hk.symm⟩ (Or.inl hk)
  · constructor
    · rintro ⟨e, he, rfl⟩
      exact Or.inr ⟨e, (h.mem_iff_of_ne hk).mp he, rfl⟩
    · rintro (heq | ⟨e, he, rfl⟩)
      · exact absurd heq hk
      · exact ⟨e, (h.mem_iff_of_ne hk).mpr he, rfl⟩

/-- `add` leaves the reference to another key's object in `values_`: it erases the object of its
own key, and only when no other key shares it. -/
theorem AddCase.keeps_reference (h : AddCase env s now key val t) {e : KeyType}
    (he : e ∈ s.keys_.entries) (hne : e.key_ ≠ key) {n : UnorderedSet.Node UInt64 SetItem}
    (hn : n ∈ s.values_) (htarget : n.item.target = e.value_) : n ∈ t.values_ := by
  cases h with
  | noChanges hit hkey hval => exact hn
  | @replaceValue it holder hit hkey hval hholder hfound =>
    refine mem_replaceValue_values hn (fun hsole heq => ?_)
    have hother : e.key_ ≠ it.key_ := hkey ▸ hne
    exact hsole e he hother (by rw [← htarget, heq])
  | addKey habsent hholder hfound => exact hn
  | refreshKey hit hkey hnew => exact List.mem_append_left _ hn
  | addPair habsent hnew => exact List.mem_append_left _ hn

/-- `add` touches only its own key: from every reachable store it succeeds, the keys are the old
ones and its own, and every other entry stays as it is, with its time and its object, and with
its live reference in `values_`, which a lookup of the value finds. -/
theorem add_touches_own_key {ttl : Nat} {ops : List Op} (h : run env (init ttl) ops = .ok s)
    (now : TimeType) (key val : Str) :
    ∃ t, s.add env now key val = .ok t ∧
      (∀ k, (∃ e ∈ t.keys_.entries, e.key_ = k) ↔ k = key ∨ ∃ e ∈ s.keys_.entries, e.key_ = k) ∧
      ∀ e, e.key_ ≠ key →
        (e ∈ t.keys_.entries ↔ e ∈ s.keys_.entries) ∧
        (e ∈ s.keys_.entries → ∀ n ∈ s.values_, n.item.lock s.owners = some e.value_ →
          n ∈ t.values_ ∧ n.item.lock t.owners = some e.value_) ∧
        (e ∈ s.keys_.entries → ∃ n ∈ t.values_,
          t.findValue env t.owners ⟨e.value_⟩ = .ok (some n) ∧ n.item.target = e.value_) := by
  have hw := run_interned h
  obtain ⟨t, hadd, hcase⟩ := add_cases hw now key val
  have hwt := hcase.interned hw
  refine ⟨t, hadd, fun k => hcase.exists_key_iff, fun e hne => ⟨hcase.mem_iff_of_ne hne, ?_, ?_⟩⟩
  · intro he n hn hlock
    have htarget : n.item.target = e.value_ := (lock_eq_some_iff.mp hlock).2
    have hafter : e ∈ t.keys_.entries := (hcase.mem_iff_of_ne hne).mpr he
    refine ⟨hcase.keeps_reference he hne hn htarget, lock_eq_some_iff.mpr ⟨?_, htarget⟩⟩
    exact Interned.live_of_target hafter htarget
  · intro he
    obtain ⟨n, hn, hfind, htarget⟩ := findValue_of_key hwt ((hcase.mem_iff_of_ne hne).mpr he)
    exact ⟨n, hn, hfind, htarget⟩

/-- Two keys share a value, and the first one goes over to the value of a third. -/
theorem add_touches_own_key_shared :
    ∃ s, run .plain (init 10) [.add 0 [107] [97], .add 1 [108] [97], .add 2 [109] [98]] = .ok s ∧
      ∃ t, s.add .plain 3 [107] [98] = .ok t ∧
        ∀ e, e.key_ = [108] → (e ∈ t.keys_.entries ↔ e ∈ s.keys_.entries) := by
  refine ⟨_, rfl, ?_⟩
  obtain ⟨t, hadd, -, hframe⟩ := @add_touches_own_key .plain _ 10
    [.add 0 [107] [97], .add 1 [108] [97], .add 2 [109] [98]] rfl 3 [107] [98]
  exact ⟨t, hadd, fun e he => (hframe e (by rw [he]; decide)).1⟩

/-! ## The effect of `expirate` -/

/-- The bytes that go with the first `k` entries: the lengths of their keys, and of the distinct
values that no other entry holds. -/
def freedBytes (l : List KeyType) (k : Nat) : Nat :=
  ((l.take k).map (·.key_.length)).sum +
    ∑ v ∈ valuesOf (l.take k) \ valuesOf (l.drop k), v.length

/-- What goes and what stays is all there was. -/
theorem freedBytes_add_bytesOf_drop (l : List KeyType) (k : Nat) :
    freedBytes l k + bytesOf (l.drop k) = bytesOf l := by
  have hkeys : (l.map (·.key_.length)).sum =
      ((l.take k).map (·.key_.length)).sum + ((l.drop k).map (·.key_.length)).sum := by
    rw [← List.sum_append, ← List.map_append, List.take_append_drop]
  have hvalues : valuesOf l = valuesOf (l.take k) \ valuesOf (l.drop k) ∪ valuesOf (l.drop k) := by
    rw [Finset.sdiff_union_self_eq_union, valuesOf, valuesOf, valuesOf, ← List.toFinset_append,
      ← List.map_append, List.take_append_drop]
  have hsum : ∑ v ∈ valuesOf l, v.length =
      ∑ v ∈ valuesOf (l.take k) \ valuesOf (l.drop k), v.length +
        ∑ v ∈ valuesOf (l.drop k), v.length := by
    conv_lhs => rw [hvalues]
    exact Finset.sum_union Finset.sdiff_disjoint
  rw [freedBytes, bytesOf, bytesOf, hkeys, hsum]
  omega

theorem freedBytes_zero (l : List KeyType) : freedBytes l 0 = 0 := by
  simp [freedBytes, valuesOf]

theorem freedBytes_cons_succ (e : KeyType) (l : List KeyType) (k : Nat) :
    freedBytes (e :: l) (k + 1) = headBytes e l + freedBytes l k := by
  have hwhole := freedBytes_add_bytesOf_drop (e :: l) (k + 1)
  have hrest := freedBytes_add_bytesOf_drop l k
  rw [List.drop_succ_cons, bytesOf_cons, ← headBytes] at hwhole
  omega

theorem freedBytes_le (l : List KeyType) (k : Nat) : freedBytes l k ≤ bytesOf l := by
  have := freedBytes_add_bytesOf_drop l k
  omega

/-- `k` is the least number of rounds for which `f` reaches `n`, or all of them when none does. -/
structure ShortestReaching {α : Type} [LT α] [LE α] (f : Nat → α) (n : α) (rounds k : Nat) :
    Prop where
  le_rounds : k ≤ rounds
  before : ∀ j < k, f j < n
  reached : k < rounds → n ≤ f k

/-- The loop of `expirate` stops at the shortest prefix whose bytes reach the size asked for. -/
theorem expirateLoop_shortest (n : UInt64) {l : List KeyType} (hl : ShareByValue l)
    (deletedBytes : UInt64) :
    ShortestReaching (fun j => deletedBytes + UInt64.ofNat (freedBytes l j)) n l.length
      (expirateLoop n l deletedBytes).1 := by
  induction l generalizing deletedBytes with
  | nil => exact ⟨Nat.le_refl _, fun j hj => absurd hj (Nat.not_lt_zero j),
      fun h => absurd h (Nat.lt_irrefl 0)⟩
  | cons e l ih =>
    have hshift : ∀ j, deletedBytes + UInt64.ofNat (freedBytes (e :: l) (j + 1)) =
        deletedBytes + UInt64.ofNat (headBytes e l) + UInt64.ofNat (freedBytes l j) := by
      intro j
      rw [freedBytes_cons_succ, UInt64.ofNat_add, UInt64.add_assoc]
    have hzero : deletedBytes + UInt64.ofNat (freedBytes (e :: l) 0) = deletedBytes := by
      rw [freedBytes_zero]
      exact UInt64.add_zero _
    by_cases hless : deletedBytes < n
    · have hrest := ih hl.tail (deletedBytes + UInt64.ofNat (headBytes e l))
      rw [expirateLoop_cons hl hless]
      refine ⟨Nat.succ_le_succ hrest.le_rounds, ?_, ?_⟩
      · intro j hj
        cases j with
        | zero => exact hzero.symm ▸ hless
        | succ j =>
          simp only [hshift]
          exact hrest.before j (Nat.lt_of_succ_lt_succ hj)
      · intro hmore
        simp only [hshift]
        exact hrest.reached (Nat.lt_of_succ_lt_succ hmore)
    · rw [expirateLoop, if_neg hless]
      refine ⟨Nat.zero_le _, fun j hj => absurd hj (Nat.not_lt_zero j), fun _ => ?_⟩
      simp only [hzero]
      exact UInt64.not_lt.mp hless

/-- What is left after the first `k` entries of the index on `ttl_` are gone: the entries behind
them as they were, the counter less their bytes, and in `values_` one live reference to each object
of a remaining entry and nothing else. -/
structure Removes (s t : DHashmap) (k : Nat) : Prop where
  entries : t.keys_.entries = s.keys_.entries.drop k
  counter : t.storageSize = s.storageSize - UInt64.ofNat (freedBytes s.keys_.entries k)
  live : ∀ n ∈ t.values_, ∃ e ∈ t.keys_.entries, n.item.lock t.owners = some e.value_
  registered : ∀ e ∈ t.keys_.entries, ∃ n ∈ t.values_, n.item.lock t.owners = some e.value_
  distinct : (t.values_.map (·.item.target.item)).Nodup

theorem expirateBytes_eq (hw : Interned env s) (n : UInt64) :
    s.expirateBytes n = UInt64.ofNat (freedBytes s.keys_.entries (s.expirateCount n)) := by
  have hloop := expirate_bytes hw n
  have hsplit := freedBytes_add_bytesOf_drop s.keys_.entries (s.expirateCount n)
  have hrest : (s.expirate n).heldBytes =
      bytesOf (s.keys_.entries.drop (s.expirateCount n)) := rfl
  rw [heldBytes_eq s, ← hsplit, UInt64.ofNat_add, hrest] at hloop
  exact (UInt64.add_left_inj _).mp hloop

/-- No dead reference survives the sweep. -/
theorem live_of_mem_expirate {n : UInt64} {m : UnorderedSet.Node UInt64 SetItem}
    (hm : m ∈ (s.expirate n).values_) : Live (s.expirate n) m.item := by
  rw [expirate_values_] at hm
  exact of_decide_eq_true (List.mem_filter.mp hm).2

theorem expirate_removes (hw : Interned env s) (n : UInt64) :
    Removes s (s.expirate n) (s.expirateCount n) where
  entries := rfl
  counter := congrArg (s.storageSize - ·) (expirateBytes_eq hw n)
  live m hm := by
    obtain ⟨e, he, heq⟩ := (expirate_interned hw n).holder hm (live_of_mem_expirate hm)
    exact ⟨e, he, lock_eq_some_iff.mpr ⟨live_of_mem_expirate hm, heq.symm⟩⟩
  registered e he := by
    obtain ⟨m, hm, htarget⟩ := (expirate_interned hw n).registered e he
    exact ⟨m, hm, lock_eq_some_iff.mpr ⟨Interned.live_of_target he htarget, htarget⟩⟩
  distinct := by
    refine List.pairwise_map.mpr ((expirate_interned hw n).distinct.imp_of_mem ?_)
    intro m m' hm hm' hapart
    exact hapart (live_of_mem_expirate hm) (live_of_mem_expirate hm')

/-- Freed bytes that fit the counter reach a size in the arithmetic of `size_t` when they do. -/
theorem ShortestReaching.toNat {f : Nat → Nat} {n : UInt64} {rounds k : Nat}
    (h : ShortestReaching (fun j => UInt64.ofNat (f j)) n rounds k) (hf : ∀ j, f j < 2 ^ 64) :
    ShortestReaching f n.toNat rounds k where
  le_rounds := h.le_rounds
  before j hj := by
    have := UInt64.lt_iff_toNat_lt.mp (h.before j hj)
    rwa [UInt64.toNat_ofNat', Nat.mod_eq_of_lt (hf j)] at this
  reached hk := by
    have := UInt64.le_iff_toNat_le.mp (h.reached hk)
    rwa [UInt64.toNat_ofNat', Nat.mod_eq_of_lt (hf k)] at this

/-- `expirate` frees what was asked and no more: from every reachable store it removes the shortest
prefix of the index whose freed bytes reach the size asked for, or everything. The bytes are those
of a `size_t`; while the store's own bytes fit one they are plain lengths, and the counter drops
by exactly these. -/
theorem expirate_frees {ttl : Nat} {ops : List Op} (h : run env (init ttl) ops = .ok s)
    (n : UInt64) :
    ∃ k, Removes s (s.expirate n) k ∧
      ShortestReaching (fun j => UInt64.ofNat (freedBytes s.keys_.entries j)) n
        s.keys_.entries.length k ∧
      (s.heldBytes < 2 ^ 64 →
        ShortestReaching (freedBytes s.keys_.entries) n.toNat s.keys_.entries.length k) ∧
      (s.heldBytes + leakedBytes env ttl ops < 2 ^ 64 →
        (s.expirate n).storageSize.toNat + freedBytes s.keys_.entries k =
          s.storageSize.toNat) := by
  have hw := run_interned h
  have hloop : ShortestReaching (fun j => UInt64.ofNat (freedBytes s.keys_.entries j)) n
      s.keys_.entries.length (s.expirateCount n) := by
    simpa only [UInt64.zero_add, expirateCount] using expirateLoop_shortest n hw.shareByValue 0
  refine ⟨s.expirateCount n, expirate_removes hw n, hloop, ?_, ?_⟩
  · intro hbytes
    exact hloop.toNat (fun j => Nat.lt_of_le_of_lt (freedBytes_le _ j) hbytes)
  · intro hbytes
    have hsize := storageSize_eq h
    have hsplit := freedBytes_add_bytesOf_drop s.keys_.entries (s.expirateCount n)
    rw [← heldBytes_eq] at hsplit
    rw [(expirate_removes hw n).counter, hsize, ← hsplit, Nat.add_assoc, UInt64.ofNat_add,
      UInt64.add_comm, UInt64.add_sub_cancel, ← UInt64.ofNat_add, UInt64.toNat_ofNat',
      UInt64.toNat_ofNat', Nat.mod_eq_of_lt, Nat.mod_eq_of_lt] <;> omega

/-- Two keys share a value. One byte is asked for: the first key goes, its value stays. -/
theorem expirate_frees_shared :
    ∃ s, run .plain (init 10) [.add 0 [107] [97], .add 1 [108] [97]] = .ok s ∧
      ∃ k, Removes s (s.expirate 1) k ∧
        ShortestReaching (fun j => UInt64.ofNat (freedBytes s.keys_.entries j)) 1
          s.keys_.entries.length k := by
  refine ⟨_, rfl, ?_⟩
  obtain ⟨k, hremoves, hshortest, -⟩ := @expirate_frees .plain _ 10
    [.add 0 [107] [97], .add 1 [108] [97]] rfl 1
  exact ⟨k, hremoves, hshortest⟩

end Swordfish.DHashmap
