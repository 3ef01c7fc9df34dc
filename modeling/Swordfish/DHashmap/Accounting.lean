import Mathlib.Algebra.BigOperators.Group.Finset.Basic
import Swordfish.DHashmap.Dangling

/-!
# The byte counter

`storage_size` is kept by hand: every branch of `add` and the loop of `expirate` add or subtract
the bytes they think they gain or free. Against it stands what the keys really hold, each key and
each distinct value once (`heldBytes`). The difference is what the defective branch of `add`
counted for objects that were gone when it returned (`leakedBytes`).
-/

namespace Swordfish.DHashmap
open SharedPtr

variable {env : Env} {s t : DHashmap} {now : TimeType} {key val : Str}

/-- The distinct values of a list of entries. -/
def valuesOf (l : List KeyType) : Finset Str := (l.map (·.value_.item)).toFinset

/-- The bytes of a list of entries: its keys, and its distinct values. -/
def bytesOf (l : List KeyType) : Nat :=
  (l.map (·.key_.length)).sum + ∑ v ∈ valuesOf l, v.length

/-- The bytes the store holds: all keys, and each distinct value once. -/
def heldBytes (s : DHashmap) : Nat :=
  (s.keys_.entries.map (·.key_.length)).sum + ∑ v ∈ s.heldValues, v.length

theorem heldBytes_eq (s : DHashmap) : s.heldBytes = bytesOf s.keys_.entries := rfl

theorem mem_valuesOf {l : List KeyType} {v : Str} :
    v ∈ valuesOf l ↔ ∃ e ∈ l, e.value_.item = v := by
  simp [valuesOf]

/-- The order of the entries does not matter. -/
theorem bytesOf_perm {l l' : List KeyType} (h : l.Perm l') : bytesOf l = bytesOf l' := by
  have hvalues : valuesOf l = valuesOf l' := List.toFinset_eq_of_perm _ _ (h.map _)
  rw [bytesOf, bytesOf, (h.map _).sum_eq, hvalues]

/-- An entry adds its key, and its value unless another entry has the same. -/
theorem bytesOf_cons (e : KeyType) (l : List KeyType) :
    bytesOf (e :: l) =
      e.key_.length + (if e.value_.item ∈ valuesOf l then 0 else e.value_.item.length) +
        bytesOf l := by
  have hvalues : valuesOf (e :: l) = insert e.value_.item (valuesOf l) := by
    simp [valuesOf]
  rw [bytesOf, bytesOf, hvalues, List.map_cons, List.sum_cons]
  by_cases h : e.value_.item ∈ valuesOf l
  · rw [Finset.insert_eq_of_mem h, if_pos h]
    omega
  · rw [Finset.sum_insert h, if_neg h]
    omega

theorem bytesOf_drop_le (l : List KeyType) (n : Nat) : bytesOf (l.drop n) ≤ bytesOf l := by
  induction l generalizing n with
  | nil => simp
  | cons e l ih =>
    cases n with
    | zero => exact Nat.le_refl _
    | succ n =>
      rw [List.drop_succ_cons, bytesOf_cons]
      have := ih n
      omega

theorem heldBytes_expirate_le (s : DHashmap) (n : UInt64) :
    (s.expirate n).heldBytes ≤ s.heldBytes :=
  bytesOf_drop_le s.keys_.entries _

theorem heldBytes_of_no_keys (h : s.keys_.entries = []) : s.heldBytes = 0 := by
  rw [heldBytes_eq, h]
  rfl

/-! ## What each effect of `add` holds -/

/-- A key was the only holder of its object when no other key has the same value. -/
theorem soleHolder_iff (hw : Interned env s) {it : KeyType} (hit : it ∈ s.keys_.entries) :
    SoleHolder s it ↔ it.value_.item ∉ valuesOf (s.keys_.erase it.key_).entries := by
  rw [mem_valuesOf]
  constructor
  · rintro hsole ⟨e, he, hitem⟩
    obtain ⟨he, hne⟩ := MultiIndex.mem_erase.mp he
    exact hsole e he hne (by rw [hw.value_eq he hit hitem])
  · intro hnone e he hne haddr
    exact hnone ⟨e, MultiIndex.mem_erase.mpr ⟨he, hne⟩, by rw [hw.value_eq_of_addr he hit haddr]⟩

theorem insertKey_perm {value : MapItem} (habsent : ∀ e ∈ s.keys_.entries, e.key_ ≠ key) :
    (s.insertKey env now key value).keys_.entries.Perm
      ({ key_ := key, ttl_ := now, value_ := value } :: s.keys_.entries) :=
  MultiIndex.insertAt_perm habsent

theorem replaceValue_perm {it : KeyType} {found : MapItem} :
    (s.replaceValue env now it found).keys_.entries.Perm
      ({ key_ := it.key_, ttl_ := now, value_ := found } :: (s.keys_.erase it.key_).entries) :=
  insertKey_perm (fun _ he => (MultiIndex.mem_erase.mp he).2)

theorem addKey_perm {found : MapItem} (habsent : ∀ e ∈ s.keys_.entries, e.key_ ≠ key) :
    (s.addKey env now key found).keys_.entries.Perm
      ({ key_ := key, ttl_ := now, value_ := found } :: s.keys_.entries) :=
  insertKey_perm (s := s.allocate) habsent

theorem addPair_perm (habsent : ∀ e ∈ s.keys_.entries, e.key_ ≠ key) :
    (s.addPair env now key val).keys_.entries.Perm
      ({ key_ := key, ttl_ := now, value_ := ⟨s.nextAddr, val⟩ } :: s.keys_.entries) :=
  insertKey_perm habsent

/-- A key that changes to a value other keys hold frees its old value if it was the last. -/
theorem heldBytes_replaceValue (hw : Interned env s) {it holder : KeyType}
    (hit : it ∈ s.keys_.entries) (hholder : holder ∈ s.keys_.entries)
    (hne : it.value_.item ≠ holder.value_.item) :
    (s.replaceValue env now it holder.value_).heldBytes +
        (if SoleHolder s it then it.value_.item.length else 0) = s.heldBytes := by
  have hkeep : holder.value_.item ∈ valuesOf (s.keys_.erase it.key_).entries := by
    refine mem_valuesOf.mpr ⟨holder, MultiIndex.mem_erase.mpr ⟨hholder, fun hkey => ?_⟩, rfl⟩
    exact hne (by rw [MultiIndex.eq_of_key_eq hholder hit hkey])
  have hbefore : s.heldBytes = _ :=
    (bytesOf_perm (MultiIndex.perm_cons_erase hit)).trans (bytesOf_cons _ _)
  have hafter : (s.replaceValue env now it holder.value_).heldBytes = _ :=
    (bytesOf_perm replaceValue_perm).trans (bytesOf_cons _ _)
  rw [hbefore, hafter]
  dsimp only
  rw [if_pos hkeep]
  by_cases hsole : SoleHolder s it
  · rw [if_pos hsole, if_neg ((soleHolder_iff hw hit).mp hsole)]
    omega
  · rw [if_neg hsole, if_pos (not_not.mp (mt (soleHolder_iff hw hit).mpr hsole))]
    rfl

theorem heldBytes_addKey {holder : KeyType} (habsent : ∀ e ∈ s.keys_.entries, e.key_ ≠ key)
    (hholder : holder ∈ s.keys_.entries) :
    (s.addKey env now key holder.value_).heldBytes = s.heldBytes + key.length := by
  have hafter : (s.addKey env now key holder.value_).heldBytes = _ :=
    (bytesOf_perm (addKey_perm habsent)).trans (bytesOf_cons _ _)
  have hkeep : holder.value_.item ∈ valuesOf s.keys_.entries :=
    mem_valuesOf.mpr ⟨holder, hholder, rfl⟩
  rw [hafter]
  dsimp only
  rw [if_pos hkeep, heldBytes_eq]
  omega

theorem heldBytes_addPair (habsent : ∀ e ∈ s.keys_.entries, e.key_ ≠ key)
    (hnew : val ∉ s.heldValues) :
    (s.addPair env now key val).heldBytes = s.heldBytes + (val.length + key.length) := by
  have hafter : (s.addPair env now key val).heldBytes = _ :=
    (bytesOf_perm (addPair_perm habsent)).trans (bytesOf_cons _ _)
  have hval : val ∉ valuesOf s.keys_.entries := hnew
  rw [hafter]
  dsimp only
  rw [if_neg hval, heldBytes_eq]
  omega

/-- Stamping a key changes neither keys nor values. -/
theorem heldBytes_updateTtl (s : DHashmap) (now : TimeType) (key : Str) :
    (s.updateTtl now key).heldBytes = s.heldBytes := by
  have hkeys : (s.updateTtl now key).keys_.entries.map (·.key_.length) =
      s.keys_.entries.map (·.key_.length) :=
    MultiIndex.map_write (f := KeyType.updateTtl now) (fun _ => rfl) _ (fun _ => rfl)
  have hvalues : (s.updateTtl now key).keys_.entries.map (·.value_.item) =
      s.keys_.entries.map (·.value_.item) :=
    MultiIndex.map_write (f := KeyType.updateTtl now) (fun _ => rfl) _ (fun _ => rfl)
  rw [heldBytes, heldBytes, hkeys, heldValues, heldValues, hvalues]

/-! ## What the loop of `expirate` frees -/

/-- The entries know their objects by contents and by identity alike. -/
def ShareByValue (l : List KeyType) : Prop :=
  ∀ e ∈ l, ∀ e' ∈ l, e.value_.addr = e'.value_.addr ↔ e.value_.item = e'.value_.item

theorem Interned.shareByValue (hw : Interned env s) : ShareByValue s.keys_.entries := by
  intro e he e' he'
  constructor
  · exact fun h => congrArg _ (hw.value_eq_of_addr he he' h)
  · exact fun h => congrArg _ (hw.value_eq he he' h)

theorem ShareByValue.tail {e : KeyType} {l : List KeyType} (h : ShareByValue (e :: l)) :
    ShareByValue l :=
  fun a ha b hb => h a (List.mem_cons_of_mem _ ha) b (List.mem_cons_of_mem _ hb)

/-- The bytes that go with the first of some entries: its key, and its value when none of the
others holds it. -/
def headBytes (e : KeyType) (l : List KeyType) : Nat :=
  e.key_.length + if e.value_.item ∈ valuesOf l then 0 else e.value_.item.length

/-- An entry's object is counted once when no later entry has the same value. -/
theorem ShareByValue.useCount_head_iff {e : KeyType} {l : List KeyType}
    (h : ShareByValue (e :: l)) :
    useCount ((e :: l).map (·.value_)) e.value_ = 1 ↔ e.value_.item ∉ valuesOf l := by
  rw [List.map_cons, useCount_self_cons_eq_one_iff, mem_valuesOf]
  refine not_congr ⟨?_, ?_⟩
  · rintro ⟨p, hp, haddr⟩
    obtain ⟨e', he', rfl⟩ := List.mem_map.mp hp
    exact ⟨e', he', (h e' (List.mem_cons_of_mem _ he') e List.mem_cons_self).mp haddr⟩
  · rintro ⟨e', he', hitem⟩
    exact ⟨e'.value_, List.mem_map.mpr ⟨e', he', rfl⟩,
      (h e' (List.mem_cons_of_mem _ he') e List.mem_cons_self).mpr hitem⟩

/-- One round of the loop counts the bytes of the first entry and erases it. -/
theorem expirateLoop_cons {n deletedBytes : UInt64} {e : KeyType} {l : List KeyType}
    (hl : ShareByValue (e :: l)) (hless : deletedBytes < n) :
    expirateLoop n (e :: l) deletedBytes =
      ((expirateLoop n l (deletedBytes + UInt64.ofNat (headBytes e l))).1 + 1,
        (expirateLoop n l (deletedBytes + UInt64.ofNat (headBytes e l))).2) := by
  rw [expirateLoop, if_pos hless, headBytes, strLength, strLength]
  by_cases hlast : e.value_.item ∈ valuesOf l
  · have hmore : ¬ useCount ((e :: l).map (·.value_)) e.value_ = 1 :=
      fun h => hl.useCount_head_iff.mp h hlast
    simp only [if_neg hmore, if_pos hlast, Nat.add_zero]
  · have hone : useCount ((e :: l).map (·.value_)) e.value_ = 1 := hl.useCount_head_iff.mpr hlast
    simp only [if_pos hone, if_neg hlast, UInt64.ofNat_add, UInt64.add_assoc]

/-- The loop erases a prefix and counts the bytes that the rest no longer holds. -/
theorem expirateLoop_bytes (n : UInt64) {l : List KeyType} (hl : ShareByValue l)
    (deletedBytes : UInt64) :
    (expirateLoop n l deletedBytes).2 +
        UInt64.ofNat (bytesOf (l.drop (expirateLoop n l deletedBytes).1)) =
      deletedBytes + UInt64.ofNat (bytesOf l) := by
  induction l generalizing deletedBytes with
  | nil => rfl
  | cons e l ih =>
    by_cases hless : deletedBytes < n
    · rw [expirateLoop_cons hl hless, List.drop_succ_cons, ih hl.tail, bytesOf_cons,
        UInt64.ofNat_add, ← UInt64.add_assoc]
      rfl
    · rw [expirateLoop, if_neg hless]
      rfl

theorem expirate_bytes (hw : Interned env s) (n : UInt64) :
    s.expirateBytes n + UInt64.ofNat (s.expirate n).heldBytes = UInt64.ofNat s.heldBytes := by
  have h := expirateLoop_bytes n hw.shareByValue 0
  rw [UInt64.zero_add] at h
  exact h

/-! ## The counter -/

/-- The bytes an `add` in the defective branch counts for an object that dies with the call. -/
def Op.leakedBytes (s : DHashmap) : Op → Nat
  | .add _ key val => if s.ReplacesByNew key val then val.length else 0
  | _ => 0

/-- `add` keeps the difference between the counter and the bytes held, up to its leak. -/
theorem AddCase.storageSize_eq (hw : Interned env s) (h : AddCase env s now key val t) {c : Nat}
    (hsize : s.storageSize = UInt64.ofNat (s.heldBytes + c)) :
    t.storageSize =
      UInt64.ofNat (t.heldBytes + (c + (Op.add now key val).leakedBytes s)) := by
  cases h with
  | noChanges hit hkey hval =>
    have hleak : (Op.add now key val).leakedBytes s = 0 :=
      if_neg (not_replacesByNew_of_held hit hval)
    rw [hleak]
    exact hsize
  | @replaceValue it holder hit hkey hval hholder hfound =>
    have hleak : (Op.add now key val).leakedBytes s = 0 :=
      if_neg (not_replacesByNew_of_held hholder hfound)
    have hbytes : (s.replaceValue env now it holder.value_).heldBytes + _ = _ :=
      heldBytes_replaceValue hw hit hholder (hfound.symm ▸ hval)
    have hcounter : (s.replaceValue env now it holder.value_).storageSize =
        if SoleHolder s it then s.storageSize - strLength it.value_.item
        else s.storageSize := rfl
    rw [hleak, hcounter, hsize, ← hbytes]
    by_cases hsole : SoleHolder s it
    · simp only [if_pos hsole, strLength]
      grind [UInt64.ofNat_add]
    · simp only [if_neg hsole, Nat.add_zero]
  | @addKey holder habsent hholder hfound =>
    have hleak : (Op.add now key val).leakedBytes s = 0 :=
      if_neg (not_replacesByNew_of_held hholder hfound)
    have hcounter : (s.addKey env now key holder.value_).storageSize =
        s.storageSize + strLength key := rfl
    rw [hleak, hcounter, hsize, heldBytes_addKey habsent hholder, strLength]
    grind [UInt64.ofNat_add]
  | @refreshKey it hit hkey hnew =>
    have hleak : (Op.add now key val).leakedBytes s = val.length :=
      if_pos ⟨⟨it, hit, hkey⟩, hnew⟩
    have hcounter : (s.refreshKey env now key val).storageSize =
        s.storageSize + strLength val := rfl
    have hbytes : (s.refreshKey env now key val).heldBytes = s.heldBytes :=
      heldBytes_updateTtl s.allocate now key
    rw [hleak, hcounter, hsize, hbytes, strLength]
    grind [UInt64.ofNat_add]
  | addPair habsent hnew =>
    have hleak : (Op.add now key val).leakedBytes s = 0 :=
      if_neg (not_replacesByNew_of_absent habsent)
    have hcounter : (s.addPair env now key val).storageSize =
        s.storageSize + (strLength val + strLength key) := rfl
    rw [hleak, hcounter, hsize, heldBytes_addPair habsent hnew, strLength, strLength]
    grind [UInt64.ofNat_add]

theorem GetCase.storageSize_eq {refresh : TimeType} {_key : Str} {r : DHashmap × GetResult}
    (h : GetCase env s now refresh _key val r) : r.1.storageSize = s.storageSize := by
  cases h <;> rfl

theorem GetCase.heldBytes_eq {refresh : TimeType} {_key : Str} {r : DHashmap × GetResult}
    (h : GetCase env s now refresh _key val r) : r.1.heldBytes = s.heldBytes := by
  cases h with
  | missing habsent => rfl
  | @fresh it hit hkey hfresh => exact heldBytes_updateTtl s.countGet refresh it.key_
  | stale hit hkey hstale => rfl

/-- One call keeps the difference between the counter and the bytes held, up to its leak. -/
theorem StepCase.storageSize_eq (hw : Interned env s) {op : Op} (h : StepCase env s op t)
    {c : Nat} (hsize : s.storageSize = UInt64.ofNat (s.heldBytes + c)) :
    t.storageSize = UInt64.ofNat (t.heldBytes + (c + op.leakedBytes s)) := by
  cases h with
  | add h => exact h.storageSize_eq hw hsize
  | get h =>
    rw [h.storageSize_eq, h.heldBytes_eq, hsize]
    rfl
  | expirate n =>
    have hbytes := expirate_bytes hw n
    change s.storageSize - s.expirateBytes n = UInt64.ofNat ((s.expirate n).heldBytes + c)
    rw [hsize, UInt64.ofNat_add, UInt64.ofNat_add, ← hbytes]
    grind

/-- The bytes leaked in a run from the empty store. -/
def leakedBytes (env : Env) (ttl : Nat) (ops : List Op) : Nat :=
  Run.total (step env) (fun s op => op.leakedBytes s) (init ttl) ops

/-- The law of the counter: in every reachable state it is, modulo `2 ^ 64`, the bytes held plus
the bytes leaked so far. -/
theorem storageSize_eq {ttl : Nat} {ops : List Op} (h : run env (init ttl) ops = .ok s) :
    s.storageSize = UInt64.ofNat (s.heldBytes + leakedBytes env ttl ops) := by
  refine Run.exec_induction
    (P := fun ops s => s.storageSize = UInt64.ofNat (s.heldBytes + leakedBytes env ttl ops))
    ?_ ?_ h
  · rfl
  · intro ops s op t hrun ih hstep
    have hw := run_interned hrun
    rw [(step_case_of_ok hw hstep).storageSize_eq hw ih, leakedBytes, leakedBytes,
      Run.total_concat hrun]

/-- The call is an `add` that leaks: it gives a stored key a non-empty value that no key
holds. -/
def Op.Leaks (s : DHashmap) : Op → Prop
  | .add _ key val => s.ReplacesByNew key val ∧ val ≠ []
  | _ => False

instance (s : DHashmap) : (op : Op) → Decidable (op.Leaks s)
  | .add _ key val => inferInstanceAs (Decidable (s.ReplacesByNew key val ∧ val ≠ []))
  | .get _ _ _ => isFalse id
  | .expirate _ => isFalse id

theorem leakedBytes_eq_zero_iff {op : Op} : op.leakedBytes s = 0 ↔ ¬ op.Leaks s := by
  cases op with
  | add now key val =>
    by_cases h : s.ReplacesByNew key val <;> simp [Op.leakedBytes, Op.Leaks, h]
  | get now refresh key => simp [Op.leakedBytes, Op.Leaks]
  | expirate n => simp [Op.leakedBytes, Op.Leaks]

/-- Byte accounting, exactly: after a run whose bytes total less than `2 ^ 64`, the counter equals
the lengths of all keys plus the lengths of the distinct values they hold, if and only if no call
of the run gave a stored key a non-empty value that no key held. -/
theorem storageSize_exact_iff {ttl : Nat} {ops : List Op} (h : run env (init ttl) ops = .ok s)
    (htotal : s.heldBytes + leakedBytes env ttl ops < 2 ^ 64) :
    s.storageSize.toNat = s.heldBytes ↔
      Run.Every (step env) (fun s op => ¬ op.Leaks s) (init ttl) ops := by
  have hsize := congrArg UInt64.toNat (storageSize_eq h)
  rw [UInt64.toNat_ofNat', Nat.mod_eq_of_lt htotal] at hsize
  have hzero : leakedBytes env ttl ops = 0 ↔
      Run.Every (step env) (fun s op => ¬ op.Leaks s) (init ttl) ops := by
    rw [leakedBytes, Run.total_eq_zero_iff]
    simp only [leakedBytes_eq_zero_iff]
  rw [← hzero, hsize]
  omega

/-- A key keeps its value through a fresh lookup, and shares it with a second key. -/
theorem storageSize_exact_shared :
    ∃ s, run .plain (init 10) [.add 0 [107] [97], .add 1 [108] [97], .get 2 2 [107]] = .ok s ∧
      s.storageSize.toNat = s.heldBytes :=
  ⟨_, rfl, (@storageSize_exact_iff .plain _ 10
    [.add 0 [107] [97], .add 1 [108] [97], .get 2 2 [107]] rfl (by decide)).mpr (by decide)⟩

/-- `add("k", "a")`, then `add("k", "bbb")`: the counter is 5, and the store holds the key and
its old value, 2 bytes. -/
theorem storageSize_drifts :
    ∃ s, run .plain (init 10) [.add 0 [107] [97], .add 1 [107] [98, 98, 98]] = .ok s ∧
      s.storageSize.toNat = 5 ∧ s.heldBytes = 2 :=
  ⟨_, rfl, by decide, by decide⟩

end Swordfish.DHashmap
