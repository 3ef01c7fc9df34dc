import Swordfish.DHashmap.Invariant

/-!
# Dangling references in `values_`

A reference in `values_` dangles when its object is gone. Lookups do not see it, but it counts in
`get_values_size`, and `dhm_hash` aborts the process when the table applies it to such an entry.
The one branch that leaves a dangling reference behind is the one that updates an existing key
with a value that is not interned: the reference names `new_item`, which dies at the end of `add`.
-/

namespace Swordfish.DHashmap
open SharedPtr

variable {env : Env} {s t : DHashmap} {now : TimeType} {key val : Str}

/-- Every reference in `values_` is live and is the value of a key, `get_values_size` is the
number of distinct values that keys hold, and `dhm_hash` accepts every stored entry. -/
structure NoDangling (env : Env) (s : DHashmap) : Prop where
  held : ∀ n ∈ s.values_, ∃ e ∈ s.keys_.entries, n.item.lock s.owners = some e.value_
  valuesSize : s.getValuesSize = UInt32.ofNat s.heldValues.card
  hashable : ∀ n ∈ s.values_, ∃ h, dhmHash env s.owners n.item = .ok h

/-- The call is an `add` that takes the branch which leaves the key with its old value. -/
def Op.ReplacesByNew (s : DHashmap) : Op → Prop
  | .add _ key val => s.ReplacesByNew key val
  | _ => False

instance (s : DHashmap) : (op : Op) → Decidable (op.ReplacesByNew s)
  | .add _ key val => inferInstanceAs (Decidable (s.ReplacesByNew key val))
  | .get _ _ _ => isFalse id
  | .expirate _ => isFalse id

/-- Every reference is live. -/
def AllLive (s : DHashmap) : Prop := ∀ n ∈ s.values_, Live s n.item

/-- When all references are live, their contents are the held values, each once. -/
theorem card_heldValues (hw : Interned env s) (hlive : AllLive s) :
    s.heldValues.card = s.values_.length := by
  have hnodup : (s.values_.map (fun n => n.item.target.item)).Nodup := by
    refine List.pairwise_map.mpr (hw.distinct.imp_of_mem ?_)
    exact fun hn hm h => h (hlive _ hn) (hlive _ hm)
  have hset : s.heldValues = (s.values_.map (fun n => n.item.target.item)).toFinset := by
    ext v
    rw [mem_heldValues, List.mem_toFinset, List.mem_map]
    constructor
    · rintro ⟨e, he, rfl⟩
      obtain ⟨n, hn, htarget⟩ := hw.registered e he
      exact ⟨n, hn, by rw [htarget]⟩
    · rintro ⟨n, hn, rfl⟩
      obtain ⟨e, he, heq⟩ := hw.holder hn (hlive n hn)
      exact ⟨e, he, by rw [heq]⟩
  rw [hset, List.toFinset_card_of_nodup hnodup, List.length_map]

theorem noDangling_iff_allLive (hw : Interned env s) : NoDangling env s ↔ AllLive s := by
  constructor
  · intro h n hn
    obtain ⟨e, -, hlock⟩ := h.held n hn
    exact (lock_eq_some_iff.mp hlock).1
  · intro hlive
    refine ⟨?_, ?_, ?_⟩
    · intro n hn
      obtain ⟨e, he, heq⟩ := hw.holder hn (hlive n hn)
      exact ⟨e, he, lock_eq_some_iff.mpr ⟨hlive n hn, heq.symm⟩⟩
    · rw [getValuesSize, card_heldValues hw hlive]
    · intro n hn
      exact ⟨_, dhmHash_of_alive (hlive n hn)⟩

/-! ## One step -/

/-- Outside the defective branch `add` leaves no dangling reference. -/
theorem AddCase.allLive (hw : Interned env s) (h : AddCase env s now key val t)
    (hclean : ¬ ReplacesByNew s key val) (hlive : AllLive s) : AllLive t := by
  cases h with
  | noChanges hit hkey hval => exact hlive
  | @replaceValue it holder hit hkey hval hholder hfound =>
    intro n hn
    rw [replaceValue_values_] at hn
    have hmem : n ∈ s.values_ := by
      split at hn
      · exact (List.mem_filter.mp hn).1
      · exact hn
    obtain ⟨e, he, heq⟩ := hw.holder hmem (hlive n hmem)
    by_cases hown : e.key_ = it.key_
    · -- the reference is to the old value, so another key must share it
      have hit' : e = it := MultiIndex.eq_of_key_eq he hit hown
      have hshared : ¬ SoleHolder s it := by
        intro hsole
        rw [if_pos hsole] at hn
        have hne := of_decide_eq_true (List.mem_filter.mp hn).2
        exact hne (by rw [← heq, hit'])
      simp only [SoleHolder, not_forall, not_not] at hshared
      obtain ⟨e', he', hne, haddr⟩ := hshared
      exact live_iff.mpr ⟨e', mem_replaceValue.mpr (Or.inr ⟨he', hne⟩), by
        rw [haddr, ← heq, hit']⟩
    · exact live_iff.mpr ⟨e, mem_replaceValue.mpr (Or.inr ⟨he, hown⟩), by rw [heq]⟩
  | addKey habsent hholder hfound =>
    intro n hn
    obtain ⟨e, he, haddr⟩ := live_iff.mp (hlive n hn)
    exact live_iff.mpr ⟨e, (mem_addKey habsent).mpr (Or.inr he), haddr⟩
  | @refreshKey it hit hkey hnew => exact absurd ⟨⟨it, hit, hkey⟩, hnew⟩ hclean
  | addPair habsent hnew =>
    intro n hn
    change n ∈ s.values_ ++ _ at hn
    rcases List.mem_append.mp hn with hn | hn
    · obtain ⟨e, he, haddr⟩ := live_iff.mp (hlive n hn)
      exact live_iff.mpr ⟨e, (mem_addPair habsent).mpr (Or.inr he), haddr⟩
    · obtain rfl := List.mem_singleton.mp hn
      exact live_iff.mpr ⟨_, (mem_addPair habsent).mpr (Or.inl rfl), rfl⟩

/-- The defective branch leaves the reference to `new_item` dangling. -/
theorem AddCase.not_allLive (hw : Interned env s) (h : AddCase env s now key val t)
    (hreplaces : ReplacesByNew s key val) : ¬ AllLive t := by
  cases h with
  | noChanges hit hkey hval => exact absurd hreplaces (not_replacesByNew_of_held hit hval)
  | replaceValue hit hkey hval hholder hfound =>
    exact absurd hreplaces (not_replacesByNew_of_held hholder hfound)
  | addKey habsent hholder hfound => exact absurd hreplaces (not_replacesByNew_of_absent habsent)
  | addPair habsent hnew => exact absurd hreplaces (not_replacesByNew_of_absent habsent)
  | refreshKey hit hkey hnew =>
    intro hlive
    have hmem : (⟨valueHash env val, ⟨⟨s.nextAddr, val⟩⟩⟩ : UnorderedSet.Node UInt64 SetItem) ∈
        (s.refreshKey env now key val).values_ :=
      List.mem_append_right _ (List.mem_singleton.mpr rfl)
    have hnot := hw.not_alive_new val
    have howners : (s.refreshKey env now key val).owners = s.owners := updateTtl_owners _ _ _
    have := hlive _ hmem
    unfold Live at this
    rw [howners] at this
    exact hnot this

theorem StepCase.allLive_iff (hw : Interned env s) {op : Op} (h : StepCase env s op t)
    (hlive : AllLive s) : AllLive t ↔ ¬ op.ReplacesByNew s := by
  cases h with
  | add h =>
    exact ⟨fun hlive' hreplaces => h.not_allLive hw hreplaces hlive',
      fun hclean => h.allLive hw hclean hlive⟩
  | get h =>
    refine iff_of_true (fun n hn => ?_) (fun hreplaces => hreplaces)
    rw [h.values_eq] at hn
    unfold Live
    rw [h.owners_eq]
    exact hlive n hn
  | expirate n =>
    refine iff_of_true (fun m hm => ?_) (fun hreplaces => hreplaces)
    rw [expirate_values_] at hm
    exact of_decide_eq_true (List.mem_filter.mp hm).2

/-! ## Runs -/

/-- A run without a call in the defective branch ends without dangling references. -/
theorem run_allLive {ttl : Nat} {ops : List Op} (h : run env (init ttl) ops = .ok s)
    (hclean : Run.Every (step env) (fun s op => ¬ op.ReplacesByNew s) (init ttl) ops) :
    AllLive s := by
  refine Run.every_induction (P := fun _ t => AllLive t) ?_ ?_ h hclean
  · intro n hn
    exact absurd hn List.not_mem_nil
  · intro ops t op u hrun hlive hop hstep
    have hw := run_interned hrun
    exact ((step_case_of_ok hw hstep).allLive_iff hw hlive).mpr hop

/-- No dangling values, exactly: after every completed call of a run every reference in `values_`
is live and held by a key, if and only if no call of the run is an `add` that gives a stored key
a value that no key holds. -/
theorem noDangling_iff (env : Env) (ttl : Nat) (ops : List Op) :
    (∀ done rest s, ops = done ++ rest → run env (init ttl) done = .ok s → NoDangling env s) ↔
      Run.Every (step env) (fun s op => ¬ op.ReplacesByNew s) (init ttl) ops := by
  constructor
  · intro hall
    refine Run.every_iff.mpr (fun done op rest s hsplit hrun hreplaces => ?_)
    have hw := run_interned hrun
    have hlive := (noDangling_iff_allLive hw).mp (hall done (op :: rest) s hsplit hrun)
    obtain ⟨t, hstep, hcase⟩ := step_cases hw op
    have hafter : NoDangling env t :=
      hall (done ++ [op]) rest t (by rw [hsplit, List.append_assoc]; rfl)
        (Run.exec_concat_ok.mpr ⟨s, hrun, hstep⟩)
    have hlive' := (noDangling_iff_allLive (hcase.interned hw)).mp hafter
    exact (hcase.allLive_iff hw hlive).mp hlive' hreplaces
  · rintro hclean done rest s rfl hrun
    exact (noDangling_iff_allLive (run_interned hrun)).mpr
      (run_allLive hrun ((Run.every_append hrun).mp hclean).1)

/-- `add("k", "a")`, then `add("k", "b")`: `values_` is left with a reference to an object that
is gone. `get_values_size` counts two values where keys hold one, and `dhm_hash` aborts on the
entry. -/
theorem dangling_after_update :
    ∃ s, run .plain (init 10) [.add 0 [107] [97], .add 1 [107] [98]] = .ok s ∧
      ¬ NoDangling .plain s ∧ s.getValuesSize = 2 ∧ s.heldValues.card = 1 ∧
      ∃ n ∈ s.values_, n.item.lock s.owners = none ∧
        dhmHash .plain s.owners n.item = .error .expiredHash :=
  ⟨_, rfl, fun h => absurd h.valuesSize (by decide), by decide, by decide, by decide⟩

end Swordfish.DHashmap
