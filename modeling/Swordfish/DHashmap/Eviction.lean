import Swordfish.DHashmap.Invariant

/-!
# The order of eviction

`expirate` erases from the front of the index on `ttl_`. It erases the oldest keys as long as
that index is in order. Inserting and erasing keep it in order. `get` and the branch of `add` at
`dhashmap.cpp:209-215` write the mutable `ttl_` in place instead, without telling the index, and
put it out of order unless the key they stamp has no older key behind it.
-/

namespace Swordfish.DHashmap

variable {env : Env} {s t : DHashmap} {now : TimeType} {key val : Str}

/-- The readings of the clock that a call makes, in order. -/
def Op.readings : Op → List TimeType
  | .add now _ _ => [now]
  | .get now refresh _ => [now, refresh]
  | .expirate _ => []

/-- The clock of a run never goes backwards. -/
def Clock (ops : List Op) : Prop := (ops.flatMap Op.readings).Pairwise (· ≤ ·)

instance (ops : List Op) : Decidable (Clock ops) :=
  inferInstanceAs (Decidable (List.Pairwise _ _))

/-- The index on `ttl_` is in order. -/
def InOrder (s : DHashmap) : Prop := s.keys_.InOrder KeyType.ttl_

/-- The index has a key with an earlier time than `now` behind `key`. -/
def Overtakes (s : DHashmap) (now : TimeType) (key : Str) : Prop :=
  ∃ e ∈ s.keys_.behind key, e.ttl_ < now

instance (s : DHashmap) (now : TimeType) (key : Str) : Decidable (Overtakes s now key) :=
  inferInstanceAs (Decidable (∃ e ∈ s.keys_.behind key, _))

/-- `key` is stored, and fresh at `now`. -/
def FreshAt (s : DHashmap) (now : TimeType) (key : Str) : Prop :=
  ∃ e ∈ s.keys_.entries, e.key_ = key ∧ now < e.ttl_ + s.ttl_

instance (s : DHashmap) (now : TimeType) (key : Str) : Decidable (FreshAt s now key) :=
  inferInstanceAs (Decidable (∃ e ∈ s.keys_.entries, _))

/-- The call stamps a key in place while the index has an older key behind it. -/
def Op.Misplaces (env : Env) (s : DHashmap) : Op → Prop
  | .add now key val => s.ReplacesByNew key val ∧ s.Overtakes now key
  | .get now refresh _key =>
      s.FreshAt now (env.normalize _key) ∧ s.Overtakes refresh (env.normalize _key)
  | .expirate _ => False

instance (env : Env) (s : DHashmap) : (op : Op) → Decidable (op.Misplaces env s)
  | .add now key val =>
      inferInstanceAs (Decidable (s.ReplacesByNew key val ∧ s.Overtakes now key))
  | .get now refresh _key =>
      inferInstanceAs (Decidable
        (s.FreshAt now (env.normalize _key) ∧ s.Overtakes refresh (env.normalize _key)))
  | .expirate _ => isFalse id

/-- `expirate(n)` removes no key with a later time than a key it keeps. -/
def OldestFirst (s : DHashmap) (n : UInt64) : Prop :=
  ∀ gone ∈ s.keys_.entries, gone ∉ (s.expirate n).keys_.entries →
    ∀ kept ∈ (s.expirate n).keys_.entries, gone.ttl_ ≤ kept.ttl_

instance (s : DHashmap) (n : UInt64) : Decidable (OldestFirst s n) :=
  inferInstanceAs (Decidable (∀ gone ∈ s.keys_.entries, _))

/-- A call that evicts, evicts the oldest keys. -/
def Op.EvictsOldest (s : DHashmap) : Op → Prop
  | .expirate n => s.OldestFirst n
  | _ => True

/-! ## One step -/

theorem insertKey_inOrder (h : InOrder s) (value : MapItem) :
    InOrder (s.insertKey env now key value) :=
  MultiIndex.InOrder.insertAt h (env.ttlIndex.linkPoint _ _ _)

/-- Stamping a key in place keeps the index in order when no older key stands behind it. -/
theorem updateTtl_inOrder_iff (h : InOrder s) {it : KeyType} (hit : it ∈ s.keys_.entries)
    (hnow : ∀ e ∈ s.keys_.entries, e.ttl_ ≤ now) :
    InOrder (s.updateTtl now it.key_) ↔ ¬ Overtakes s now it.key_ := by
  have hwrite := MultiIndex.inOrder_write_iff h hit (f := KeyType.updateTtl now) (fun _ => rfl) hnow
  refine hwrite.trans ?_
  simp [Overtakes, KeyType.updateTtl]

theorem AddCase.inOrder_iff (h : InOrder s) (hnow : ∀ e ∈ s.keys_.entries, e.ttl_ ≤ now)
    (hcase : AddCase env s now key val t) :
    InOrder t ↔ ¬ (Op.add now key val).Misplaces env s := by
  cases hcase with
  | noChanges hit hkey hval =>
    exact iff_of_true h (fun hmis => not_replacesByNew_of_held hit hval hmis.1)
  | @replaceValue it holder hit hkey hval hholder hfound =>
    refine iff_of_true ?_ (fun hmis => not_replacesByNew_of_held hholder hfound hmis.1)
    unfold DHashmap.replaceValue
    apply insertKey_inOrder
    exact MultiIndex.InOrder.erase h it.key_
  | @addKey holder habsent hholder hfound =>
    refine iff_of_true ?_ (fun hmis => not_replacesByNew_of_held hholder hfound hmis.1)
    exact insertKey_inOrder (s := s.allocate) h holder.value_
  | @refreshKey it hit hkey hnew =>
    subst hkey
    have hreplaces : ReplacesByNew s it.key_ val := ⟨⟨it, hit, rfl⟩, hnew⟩
    refine (updateTtl_inOrder_iff h hit hnow).trans (not_congr ?_)
    exact ⟨fun hover => ⟨hreplaces, hover⟩, fun hmis => hmis.2⟩
  | addPair habsent hnew =>
    refine iff_of_true ?_ (fun hmis => not_replacesByNew_of_absent habsent hmis.1)
    unfold DHashmap.addPair
    apply insertKey_inOrder
    exact h

theorem GetCase.inOrder_iff {refresh : TimeType} {_key : Str} {r : DHashmap × GetResult}
    (h : InOrder s) (hrefresh : ∀ e ∈ s.keys_.entries, e.ttl_ ≤ refresh)
    (hcase : GetCase env s now refresh _key val r) :
    InOrder r.1 ↔ ¬ (Op.get now refresh _key).Misplaces env s := by
  cases hcase with
  | missing habsent =>
    refine iff_of_true h (fun hmis => ?_)
    obtain ⟨e, he, hkey, -⟩ := hmis.1
    exact habsent e he hkey
  | @fresh it hit hkey hfresh =>
    have hstamp : InOrder (s.countGet.updateTtl refresh it.key_) ↔ ¬ Overtakes s refresh it.key_ :=
      updateTtl_inOrder_iff (s := s.countGet) h hit hrefresh
    rw [hkey] at hstamp
    change InOrder (s.countGet.updateTtl refresh it.key_) ↔ _
    rw [hkey]
    refine hstamp.trans (not_congr ?_)
    exact ⟨fun hover => ⟨⟨it, hit, hkey, hfresh⟩, hover⟩, fun hmis => hmis.2⟩
  | @stale it hit hkey hstale =>
    refine iff_of_true h (fun hmis => ?_)
    obtain ⟨e, he, hkey', hfresh⟩ := hmis.1
    rw [MultiIndex.eq_of_key_eq he hit (hkey'.trans hkey.symm)] at hfresh
    exact absurd hfresh (Nat.not_lt.mpr hstale)

/-- From an index in order, a call leaves it in order exactly when it stamps no key in place that
has an older key behind it. -/
theorem StepCase.inOrder_iff {op : Op} (h : InOrder s)
    (hclock : ∀ e ∈ s.keys_.entries, ∀ time ∈ op.readings, e.ttl_ ≤ time)
    (hcase : StepCase env s op t) : InOrder t ↔ ¬ op.Misplaces env s := by
  cases hcase with
  | add hcase => exact hcase.inOrder_iff h (fun e he => hclock e he _ (by simp [Op.readings]))
  | get hcase => exact hcase.inOrder_iff h (fun e he => hclock e he _ (by simp [Op.readings]))
  | expirate n => exact iff_of_true (MultiIndex.InOrder.drop h _) id

/-- On an index in order, `expirate` removes the oldest keys. -/
theorem InOrder.oldestFirst (h : InOrder s) (n : UInt64) : OldestFirst s n :=
  fun _ hgone hdropped _ hkept => MultiIndex.InOrder.le_of_drop h hgone hdropped hkept

/-- The times a call leaves in the store were there before, or it read them from the clock. -/
theorem StepCase.ttl_mem {op : Op} (hcase : StepCase env s op t) {e : KeyType}
    (he : e ∈ t.keys_.entries) :
    e.ttl_ ∈ op.readings ∨ ∃ e' ∈ s.keys_.entries, e'.ttl_ = e.ttl_ := by
  cases hcase with
  | @add now key val t hcase =>
    cases hcase with
    | noChanges hit hkey hval => exact Or.inr ⟨e, he, rfl⟩
    | replaceValue hit hkey hval hholder hfound =>
      rcases mem_replaceValue.mp he with rfl | ⟨he, -⟩
      · exact Or.inl (by simp [Op.readings])
      · exact Or.inr ⟨e, he, rfl⟩
    | addKey habsent hholder hfound =>
      rcases (mem_addKey habsent).mp he with rfl | he
      · exact Or.inl (by simp [Op.readings])
      · exact Or.inr ⟨e, he, rfl⟩
    | refreshKey hit hkey hnew =>
      rcases mem_refreshKey.mp he with ⟨he, -⟩ | ⟨it, -, -, rfl⟩
      · exact Or.inr ⟨e, he, rfl⟩
      · exact Or.inl (by simp [Op.readings, KeyType.updateTtl])
    | addPair habsent hnew =>
      rcases (mem_addPair habsent).mp he with rfl | he
      · exact Or.inl (by simp [Op.readings])
      · exact Or.inr ⟨e, he, rfl⟩
  | @get now refresh _key r hcase =>
    cases hcase with
    | missing habsent => exact Or.inr ⟨e, he, rfl⟩
    | @fresh it hit hkey hfresh =>
      rcases (MultiIndex.mem_write (f := KeyType.updateTtl refresh) (fun _ => rfl)).mp he with
        ⟨he, -⟩ | ⟨it, -, -, rfl⟩
      · exact Or.inr ⟨e, he, rfl⟩
      · exact Or.inl (by simp [Op.readings, KeyType.updateTtl])
    | stale hit hkey hstale => exact Or.inr ⟨e, he, rfl⟩
  | expirate n => exact Or.inr ⟨e, mem_expirate he, rfl⟩

/-! ## Runs -/

/-- Every time in the store was read from the clock in the run. -/
theorem run_ttl_mem {ttl : Nat} {ops : List Op} (h : run env (init ttl) ops = .ok s) {e : KeyType}
    (he : e ∈ s.keys_.entries) : e.ttl_ ∈ ops.flatMap Op.readings := by
  refine Run.exec_induction
    (P := fun ops s => ∀ e ∈ s.keys_.entries, e.ttl_ ∈ ops.flatMap Op.readings) ?_ ?_ h e he
  · intro e he
    cases he
  · intro ops s op t hrun ih hstep e he
    rw [List.flatMap_append, List.mem_append, List.flatMap_singleton]
    rcases (step_case_of_ok (run_interned hrun) hstep).ttl_mem he with hnew | ⟨e', he', heq⟩
    · exact Or.inr hnew
    · exact Or.inl (heq ▸ ih e' he')

/-- After a run whose clock never goes backwards, the next call reads no time before those in the
store. -/
theorem Clock.ttl_le {ttl : Nat} {ops : List Op} {op : Op} (hclock : Clock (ops ++ [op]))
    (h : run env (init ttl) ops = .ok s) :
    ∀ e ∈ s.keys_.entries, ∀ time ∈ op.readings, e.ttl_ ≤ time := by
  intro e he time htime
  rw [Clock, List.flatMap_append, List.flatMap_singleton, List.pairwise_append] at hclock
  exact hclock.2.2 _ (run_ttl_mem h he) _ htime

theorem Clock.prefix {ops later : List Op} (hclock : Clock (ops ++ later)) : Clock ops := by
  rw [Clock, List.flatMap_append, List.pairwise_append] at hclock
  exact hclock.1

/-- The index is in order after a run in which no call misplaces a key. -/
theorem run_inOrder {ttl : Nat} {ops : List Op} (h : run env (init ttl) ops = .ok s)
    (hclock : Clock ops)
    (hplaced : Run.Every (step env) (fun s op => ¬ op.Misplaces env s) (init ttl) ops) :
    InOrder s := by
  refine Run.every_induction (P := fun ops s => Clock ops → InOrder s) ?_ ?_ h hplaced hclock
  · exact fun _ => List.Pairwise.nil
  · intro ops s op t hrun ih hop hstep hclock
    have hcase := step_case_of_ok (run_interned hrun) hstep
    exact (hcase.inOrder_iff (ih hclock.prefix) (hclock.ttl_le hrun)).mpr hop

/-- Eviction is oldest-first in every run, under a clock that never goes backwards, in which no
call stamps a key in place while the index has an older key behind it. -/
theorem evictions_oldestFirst {ttl : Nat} {ops : List Op} (hclock : Clock ops)
    (hplaced : Run.Every (step env) (fun s op => ¬ op.Misplaces env s) (init ttl) ops) :
    Run.Every (step env) (fun s op => op.EvictsOldest s) (init ttl) ops := by
  refine Run.every_iff.mpr (fun done op later s hsplit hrun => ?_)
  subst hsplit
  cases op with
  | add now key val => trivial
  | get now refresh _key => trivial
  | expirate n =>
    have horder : InOrder s :=
      run_inOrder hrun hclock.prefix ((Run.every_append hrun).mp hplaced).1
    exact horder.oldestFirst n

/-- Two keys, of which the younger is looked up and the older is evicted. -/
theorem evictions_oldestFirst_younger :
    Run.Every (step .plain) (fun s op => op.EvictsOldest s) (init 10)
      [.add 0 [97] [120], .add 1 [98] [121], .get 2 2 [98], .expirate 1] :=
  evictions_oldestFirst (by decide) (by decide)

/-- `add("a", "x")` at 0, `add("b", "y")` at 1, and a lookup of `"a"` at 2, which stamps it in
place: `expirate(1)` removes `"a"` with time 2 and keeps `"b"` with time 1. -/
theorem expirate_removes_refreshed :
    Clock [.add 0 [97] [120], .add 1 [98] [121], .get 2 2 [97], .expirate 1] ∧
      ∃ s, run .plain (init 10) [.add 0 [97] [120], .add 1 [98] [121], .get 2 2 [97]] = .ok s ∧
        (s.keys_.entries.map fun e => (e.key_, e.ttl_)) = [([97], 2), ([98], 1)] ∧
        ((s.expirate 1).keys_.entries.map fun e => (e.key_, e.ttl_)) = [([98], 1)] ∧
        ¬ OldestFirst s 1 :=
  ⟨by decide, _, rfl, by decide, by decide, by decide⟩

end Swordfish.DHashmap
