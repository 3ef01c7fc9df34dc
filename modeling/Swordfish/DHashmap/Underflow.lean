import Mathlib.Algebra.Order.BigOperators.Group.Finset
import Swordfish.DHashmap.Accounting

/-!
# The byte counter never wraps below zero

What `add` and `expirate` subtract from `storage_size` is computed again from the keys that are
held at that moment. It is never more than the counter: the bytes held, with those leaked, are
never more than the bytes that were added to it, and the counter is exactly their sum.
-/

namespace Swordfish.DHashmap

variable {env : Env} {s t : DHashmap} {now : TimeType} {key val : Str}

/-- The bytes passed to `inc_storage_size`. -/
def CounterCall.bytes : CounterCall → Nat
  | .inc bytes => bytes
  | .dec _ _ => 0

/-- The bytes passed to `inc_storage_size` in all. -/
def incBytes (calls : List CounterCall) : Nat := (calls.map CounterCall.bytes).sum

/-- A subtraction takes no more than the counter holds. -/
def CounterCall.Covered : CounterCall → Prop
  | .inc _ => True
  | .dec current size => size ≤ current

theorem incBytes_append (calls calls' : List CounterCall) :
    incBytes (calls ++ calls') = incBytes calls + incBytes calls' := by
  rw [incBytes, List.map_append, List.sum_append]
  rfl

/-! ## `add` -/

theorem addCalls_of_key {it : KeyType} (hit : it ∈ s.keys_.entries) (hkey : it.key_ = key) :
    s.addCalls key val =
      if val ∈ s.heldValues then
        if it.value_.item ≠ val ∧ SoleHolder s it then
          [.dec s.storageSize (strLength it.value_.item)]
        else []
      else [.inc val.length] := by
  unfold addCalls
  rw [MultiIndex.find_eq_some_iff.mpr ⟨hit, hkey⟩]

theorem addCalls_of_absent (habsent : ∀ e ∈ s.keys_.entries, e.key_ ≠ key) :
    s.addCalls key val =
      if val ∈ s.heldValues then [.inc key.length] else [.inc (val.length + key.length)] := by
  unfold addCalls
  rw [MultiIndex.find_eq_none_iff.mpr habsent]

/-- `add` adds to the counter what the store gains, and what it leaks. -/
theorem AddCase.heldBytes_le (hw : Interned env s) (h : AddCase env s now key val t) :
    t.heldBytes + (Op.add now key val).leakedBytes s ≤
      s.heldBytes + incBytes (s.addCalls key val) := by
  cases h with
  | noChanges hit hkey hval =>
    have hleak : (Op.add now key val).leakedBytes s = 0 :=
      if_neg (not_replacesByNew_of_held hit hval)
    rw [hleak]
    exact Nat.le_add_right _ _
  | @replaceValue it holder hit hkey hval hholder hfound =>
    have hleak : (Op.add now key val).leakedBytes s = 0 :=
      if_neg (not_replacesByNew_of_held hholder hfound)
    have hbytes : (s.replaceValue env now it holder.value_).heldBytes +
        (if SoleHolder s it then it.value_.item.length else 0) = s.heldBytes :=
      heldBytes_replaceValue hw hit hholder (hfound.symm ▸ hval)
    omega
  | @addKey holder habsent hholder hfound =>
    have hleak : (Op.add now key val).leakedBytes s = 0 :=
      if_neg (not_replacesByNew_of_held hholder hfound)
    have hheld : val ∈ s.heldValues := mem_heldValues.mpr ⟨holder, hholder, hfound⟩
    rw [hleak, heldBytes_addKey habsent hholder, addCalls_of_absent habsent, if_pos hheld]
    exact Nat.le_refl _
  | @refreshKey it hit hkey hnew =>
    have hleak : (Op.add now key val).leakedBytes s = val.length :=
      if_pos ⟨⟨it, hit, hkey⟩, hnew⟩
    have hbytes : (s.refreshKey env now key val).heldBytes = s.heldBytes :=
      heldBytes_updateTtl s.allocate now key
    rw [hleak, hbytes, addCalls_of_key hit hkey, if_neg hnew]
    exact Nat.le_refl _
  | addPair habsent hnew =>
    have hleak : (Op.add now key val).leakedBytes s = 0 :=
      if_neg (not_replacesByNew_of_absent habsent)
    rw [hleak, heldBytes_addPair habsent hnew, addCalls_of_absent habsent, if_neg hnew]
    exact Nat.le_refl _

theorem length_value_le_heldBytes {it : KeyType} (hit : it ∈ s.keys_.entries) :
    it.value_.item.length ≤ s.heldBytes := by
  have hmem : it.value_.item ∈ s.heldValues := mem_heldValues.mpr ⟨it, hit, rfl⟩
  have hle := Finset.single_le_sum (f := List.length) (fun _ _ => Nat.zero_le _) hmem
  exact Nat.le_trans hle (Nat.le_add_left _ _)

theorem addCalls_covered (hsize : s.heldBytes ≤ s.storageSize.toNat) :
    ∀ call ∈ s.addCalls key val, call.Covered := by
  intro call hcall
  cases hfind : s.keys_.find key with
  | none =>
    rw [addCalls_of_absent (MultiIndex.find_eq_none_iff.mp hfind)] at hcall
    split at hcall <;> rw [List.mem_singleton.mp hcall] <;> trivial
  | some it =>
    obtain ⟨hit, hkey⟩ := MultiIndex.find_eq_some_iff.mp hfind
    rw [addCalls_of_key hit hkey] at hcall
    split at hcall
    · split at hcall
      · rw [List.mem_singleton.mp hcall]
        change strLength it.value_.item ≤ s.storageSize
        rw [UInt64.le_iff_toNat_le, strLength, UInt64.toNat_ofNat']
        exact Nat.le_trans (Nat.mod_le _ _) (Nat.le_trans (length_value_le_heldBytes hit) hsize)
      · cases hcall
    · rw [List.mem_singleton.mp hcall]
      trivial

/-! ## `expirate` -/

/-- `expirate` counts bytes that were held. -/
theorem expirateBytes_le (hw : Interned env s) (n : UInt64) :
    (s.expirateBytes n).toNat ≤ s.heldBytes := by
  have hafter := heldBytes_expirate_le s n
  have hbytes := expirate_bytes hw n
  have hfreed : s.expirateBytes n = UInt64.ofNat (s.heldBytes - (s.expirate n).heldBytes) := by
    rw [UInt64.ofNat_sub hafter, ← hbytes]
    grind
  rw [hfreed, UInt64.toNat_ofNat']
  exact Nat.le_trans (Nat.mod_le _ _) (Nat.sub_le _ _)

/-! ## Runs -/

/-- The calls on the counter that one call of the store makes. -/
def Op.calls (s : DHashmap) : Op → List CounterCall
  | .add _ key val => s.addCalls key val
  | .get _ _ _ => []
  | .expirate n => [.dec s.storageSize (s.expirateBytes n)]

/-- A call never fails, and its log is known. -/
theorem stepCounted_cases (hw : Interned env s) (calls : List CounterCall) (op : Op) :
    ∃ t, stepCounted env (s, calls) op = .ok (t, calls ++ op.calls s) ∧
      step env s op = .ok t ∧ StepCase env s op t := by
  cases op with
  | add now key val =>
    obtain ⟨t, hadd, hcase⟩ := addCounted_cases hw now key val
    have hplain : s.add env now key val = .ok t := by
      rw [← addCounted_fst, hadd]
      rfl
    exact ⟨t, by rw [stepCounted, hadd]; rfl, hplain, .add hcase⟩
  | get now refresh _key =>
    obtain ⟨r, hget, hcase⟩ := get_cases hw now refresh _key []
    refine ⟨r.1, ?_, ?_, .get hcase⟩
    · rw [stepCounted, hget, Op.calls, List.append_nil]
      rfl
    · rw [step, hget]
      rfl
  | expirate n => exact ⟨_, rfl, rfl, .expirate n⟩

/-- One call adds to the counter what the store gains, and what it leaks. -/
theorem StepCase.heldBytes_le (hw : Interned env s) {op : Op} (h : StepCase env s op t) :
    t.heldBytes + op.leakedBytes s ≤ s.heldBytes + incBytes (op.calls s) := by
  cases h with
  | add h => exact h.heldBytes_le hw
  | get h =>
    rw [h.heldBytes_eq]
    exact Nat.le_add_right _ _
  | expirate n => exact Nat.le_trans (heldBytes_expirate_le s n) (Nat.le_add_right _ _)

theorem Op.calls_covered (hw : Interned env s) (hheld : s.heldBytes ≤ s.storageSize.toNat)
    (op : Op) : ∀ call ∈ op.calls s, call.Covered := by
  cases op with
  | add now key val => exact addCalls_covered hheld
  | get now refresh _key => exact fun call hcall => absurd hcall List.not_mem_nil
  | expirate n =>
    intro call hcall
    rw [List.mem_singleton.mp hcall]
    change s.expirateBytes n ≤ s.storageSize
    exact UInt64.le_iff_toNat_le.mpr (Nat.le_trans (expirateBytes_le hw n) hheld)

/-- The log is on the side. -/
theorem stepCounted_fst (r : DHashmap × List CounterCall) (op : Op) :
    (stepCounted env r op).map Prod.fst = step env r.1 op := by
  cases op with
  | add now key val =>
    rw [step, ← addCounted_fst, stepCounted]
    cases r.1.addCounted env now key val <;> rfl
  | get now refresh _key =>
    rw [step, stepCounted]
    cases r.1.get env now refresh _key [] <;> rfl
  | expirate n => rfl

/-- The run with its log is the run. -/
theorem runCounted_fst (env : Env) (s : DHashmap) (ops : List Op) :
    (runCounted env s ops).map Prod.fst = run env s ops :=
  Run.exec_map stepCounted_fst (s, []) ops

/-- What holds of the counter and the log after a run: the run itself is the one without the log,
the bytes held and leaked have been added, and while the bytes added are less than `2 ^ 64` every
subtraction was covered. -/
structure Ledger (env : Env) (ttl : Nat) (ops : List Op) (s : DHashmap)
    (calls : List CounterCall) : Prop where
  plain : run env (init ttl) ops = .ok s
  added : s.heldBytes + leakedBytes env ttl ops ≤ incBytes calls
  covered : incBytes calls < 2 ^ 64 → ∀ call ∈ calls, call.Covered

/-- The counter covers the bytes held while it has not wrapped at `2 ^ 64`. -/
theorem Ledger.heldBytes_le {ttl : Nat} {ops : List Op} {calls : List CounterCall}
    (h : Ledger env ttl ops s calls) (htotal : incBytes calls < 2 ^ 64) :
    s.heldBytes ≤ s.storageSize.toNat := by
  rw [storageSize_eq h.plain, UInt64.toNat_ofNat',
    Nat.mod_eq_of_lt (Nat.lt_of_le_of_lt h.added htotal)]
  exact Nat.le_add_right _ _

/-- One call keeps the ledger. -/
theorem Ledger.step {ttl : Nat} {ops : List Op} {calls : List CounterCall}
    (h : Ledger env ttl ops s calls) {op : Op} {r : DHashmap × List CounterCall}
    (hstep : stepCounted env (s, calls) op = .ok r) :
    Ledger env ttl (ops ++ [op]) r.1 r.2 := by
  have hw := run_interned h.plain
  obtain ⟨t, hcounted, hplain, hcase⟩ := stepCounted_cases hw calls op
  rw [hstep, Except.ok.injEq] at hcounted
  subst hcounted
  refine ⟨Run.exec_concat_ok.mpr ⟨s, h.plain, hplain⟩, ?_, ?_⟩
  · have hgain := hcase.heldBytes_le hw
    have hbefore := h.added
    rw [leakedBytes, Run.total_concat h.plain, incBytes_append]
    change s.heldBytes + Run.total (DHashmap.step env) _ _ ops ≤ _ at hbefore
    dsimp only
    omega
  · intro htotal call hcall
    rw [incBytes_append] at htotal
    have hbefore : incBytes calls < 2 ^ 64 := Nat.lt_of_le_of_lt (Nat.le_add_right _ _) htotal
    rcases List.mem_append.mp hcall with hcall | hcall
    · exact h.covered hbefore call hcall
    · exact op.calls_covered hw (h.heldBytes_le hbefore) call hcall

theorem runCounted_ledger {ttl : Nat} {ops : List Op} {r : DHashmap × List CounterCall}
    (h : runCounted env (init ttl) ops = .ok r) : Ledger env ttl ops r.1 r.2 := by
  refine Run.exec_induction (P := fun ops r => Ledger env ttl ops r.1 r.2) ?_ ?_ h
  · exact ⟨rfl, Nat.le_refl _, fun _ call hcall => absurd hcall List.not_mem_nil⟩
  · intro ops s op t _ hledger hstep
    exact hledger.step hstep

/-- The byte counter never wraps below zero: a run of calls from the empty store, with the log of
its calls on the counter, does not stop, and while the bytes passed to `inc_storage_size` are less
than `2 ^ 64` in all, no call of `dec_storage_size` subtracts more than the counter holds at that
moment. -/
theorem decStorageSize_covered (env : Env) (ttl : Nat) (ops : List Op) :
    ∃ s calls, runCounted env (init ttl) ops = .ok (s, calls) ∧
      run env (init ttl) ops = .ok s ∧
      (incBytes calls < 2 ^ 64 →
        ∀ current size, .dec current size ∈ calls → size ≤ current) := by
  obtain ⟨s, hrun, -⟩ := run_ok env ttl ops
  have hplain := runCounted_fst env (init ttl) ops
  rw [hrun] at hplain
  cases hcounted : runCounted env (init ttl) ops with
  | error failure =>
    rw [hcounted] at hplain
    cases hplain
  | ok r =>
    have hledger := runCounted_ledger hcounted
    rw [hcounted] at hplain
    cases hplain
    refine ⟨r.1, r.2, rfl, hrun, ?_⟩
    intro htotal current size hcall
    exact hledger.covered htotal _ hcall

/-- A key is given the value of another, and the store is then emptied. -/
theorem decStorageSize_covered_shared :
    ∃ s calls, runCounted .plain (init 10)
        [.add 0 [107] [97], .add 1 [108] [98, 98], .add 2 [107] [98, 98], .expirate 100] =
          .ok (s, calls) ∧
      incBytes calls = 5 ∧ CounterCall.dec 5 1 ∈ calls ∧ (1 : UInt64) ≤ 5 := by
  obtain ⟨s, calls, hrun, -, hcovered⟩ := decStorageSize_covered .plain 10
    [.add 0 [107] [97], .add 1 [108] [98, 98], .add 2 [107] [98, 98], .expirate 100]
  have hcalls : calls = [.inc 2, .inc 3, .dec 5 1, .dec 4 4] := by
    cases hrun
    rfl
  subst hcalls
  exact ⟨s, _, hrun, rfl, by decide, hcovered (by decide) 5 1 (by decide)⟩

end Swordfish.DHashmap
