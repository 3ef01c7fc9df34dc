import Swordfish.DHashmap.Dangling

/-!
# The store as a finite map

What the store says of a key (`view`) against what was last added under that key. An `add` binds
its key unless it takes the branch that leaves the key with its old value, and any call may forget
bindings, but none invents or changes one.
-/

namespace Swordfish.DHashmap
open SharedPtr

variable {env : Env} {s t : DHashmap} {now : TimeType} {key val : Str}

/-- The value under a key. -/
def view (s : DHashmap) (key : Str) : Option Str := (s.keys_.find key).map (·.value_.item)

theorem view_eq_some_iff {v : Str} :
    s.view key = some v ↔ ∃ e ∈ s.keys_.entries, e.key_ = key ∧ e.value_.item = v := by
  simp [view, MultiIndex.find_eq_some_iff, and_assoc]

theorem view_init (ttl : Nat) : (init ttl).view = fun _ => none := rfl

/-! ## One step -/

/-- `add` changes the value of no other key. -/
theorem AddCase.view_of_ne (h : AddCase env s now key val t) {k : Str} (hne : k ≠ key) :
    t.view k = s.view k := by
  refine Option.ext (fun v => ?_)
  rw [view_eq_some_iff, view_eq_some_iff]
  refine exists_congr (fun e => ?_)
  constructor
  · rintro ⟨he, rfl, hval⟩
    exact ⟨(h.mem_iff_of_ne hne).mp he, rfl, hval⟩
  · rintro ⟨he, rfl, hval⟩
    exact ⟨(h.mem_iff_of_ne hne).mpr he, rfl, hval⟩

/-- After `add` its key has the new value, but in the defective branch it has the old one. -/
theorem AddCase.view_own (h : AddCase env s now key val t) :
    (¬ ReplacesByNew s key val ∧ t.view key = some val) ∨
      ReplacesByNew s key val ∧ t.view key = s.view key := by
  obtain ⟨e, he, hkey, hown⟩ := h.own
  have hview : t.view key = some e.value_.item := view_eq_some_iff.mpr ⟨e, he, hkey, rfl⟩
  cases hown with
  | unchanged hmem hval =>
    exact Or.inl ⟨not_replacesByNew_of_held hmem hval, by rw [hview, hval]⟩
  | stored hclean hother httl hval => exact Or.inl ⟨hclean, by rw [hview, hval]⟩
  | refreshed hreplaces hit hkey' heq =>
    refine Or.inr ⟨hreplaces, ?_⟩
    rw [hview, heq, KeyType.updateTtl]
    exact (view_eq_some_iff.mpr ⟨_, hit, hkey', rfl⟩).symm

theorem updateTtl_view (s : DHashmap) (now : TimeType) (key : Str) :
    (s.updateTtl now key).view = s.view := by
  have hpairs : (s.updateTtl now key).keys_.entries.map (fun e => (e.key_, e.value_.item)) =
      s.keys_.entries.map (fun e => (e.key_, e.value_.item)) :=
    MultiIndex.map_write (f := KeyType.updateTtl now) (fun _ => rfl) _ (fun _ => rfl)
  have hmem : ∀ (u : DHashmap) (k v : Str), u.view k = some v ↔
      (k, v) ∈ u.keys_.entries.map (fun e => (e.key_, e.value_.item)) := by
    intro u k v
    simp [view_eq_some_iff]
  funext k
  refine Option.ext (fun v => ?_)
  rw [hmem, hmem, hpairs]

theorem GetCase.view_eq {refresh : TimeType} {_key : Str} {r : DHashmap × GetResult}
    (h : GetCase env s now refresh _key val r) : r.1.view = s.view := by
  cases h with
  | missing habsent => rfl
  | @fresh it hit hkey hfresh => exact updateTtl_view s.countGet refresh it.key_
  | stale hit hkey hstale => rfl

/-- `expirate` forgets bindings and changes none. -/
theorem expirate_view {n : UInt64} {k v : Str} (h : (s.expirate n).view k = some v) :
    s.view k = some v := by
  obtain ⟨e, he, hkey, hval⟩ := view_eq_some_iff.mp h
  exact view_eq_some_iff.mpr ⟨e, mem_expirate he, hkey, hval⟩

/-- The call is an `add` under `key`. -/
def Op.Adds (key : Str) : Op → Prop
  | .add _ key' _ => key' = key
  | _ => False

/-- Without an `add` under it a key may be forgotten, but is not bound and keeps its value. -/
theorem StepCase.view_of_not_adds {op : Op} (h : StepCase env s op t) (hop : ¬ op.Adds key)
    {u : Str} (hu : t.view key = some u) : s.view key = some u := by
  cases h with
  | add h =>
    have hne : key ≠ _ := fun heq => hop heq.symm
    rwa [← h.view_of_ne hne]
  | get h => rwa [← h.view_eq]
  | expirate n => exact expirate_view hu

/-! ## Runs -/

/-- A stored key was added, and its value is that of the most recent `add` under it unless that
call took the defective branch. -/
theorem view_lastAdd {ttl : Nat} {ops : List Op} (h : run env (init ttl) ops = .ok s) {u : Str}
    (hu : s.view key = some u) :
    ∃ done now v later s₀, ops = done ++ .add now key v :: later ∧
      (∀ op ∈ later, ¬ op.Adds key) ∧ run env (init ttl) done = .ok s₀ ∧
      (u = v ↔ ¬ ReplacesByNew s₀ key v) := by
  refine Run.exec_induction
    (P := fun ops s => ∀ u, s.view key = some u →
      ∃ done now v later s₀, ops = done ++ .add now key v :: later ∧
        (∀ op ∈ later, ¬ op.Adds key) ∧ run env (init ttl) done = .ok s₀ ∧
        (u = v ↔ ¬ ReplacesByNew s₀ key v)) ?_ ?_ h u hu
  · intro u hu
    rw [view_init] at hu
    cases hu
  · intro ops s op t hrun ih hstep u hu
    have hcase := step_case_of_ok (run_interned hrun) hstep
    by_cases hadds : op.Adds key
    · cases hcase with
      | @add now key' val t hcase =>
        obtain rfl : key' = key := hadds
        refine ⟨ops, now, val, [], s, rfl, by simp, hrun, ?_⟩
        rcases hcase.view_own with ⟨hclean, hview⟩ | ⟨hreplaces, hview⟩
        · rw [hview, Option.some.injEq] at hu
          exact iff_of_true hu.symm hclean
        · refine iff_of_false (fun heq => ?_) (fun hclean => hclean hreplaces)
          rw [hview, heq] at hu
          obtain ⟨e, he, -, hval⟩ := view_eq_some_iff.mp hu
          exact not_replacesByNew_of_held he hval hreplaces
      | get h => exact absurd hadds id
      | expirate n => exact absurd hadds id
    · obtain ⟨done, now, v, later, s₀, hsplit, hlater, hdone, hiff⟩ :=
        ih u (hcase.view_of_not_adds hadds hu)
      refine ⟨done, now, v, later ++ [op], s₀, ?_, ?_, hdone, hiff⟩
      · rw [hsplit, List.append_assoc]
        rfl
      · intro o ho
        rcases List.mem_append.mp ho with ho | ho
        · exact hlater o ho
        · exact List.mem_singleton.mp ho ▸ hadds

/-- A `get` that finds its key sets `val` to the key's value. -/
theorem get_val {now refresh : TimeType} {r : Str} {out : GetResult} (hw : Interned env s)
    (hget : s.get env now refresh r val = .ok (t, out))
    (hfound : (s.findKey env (env.normalize r)).isSome) :
    s.view (env.normalize r) = some out.val := by
  obtain ⟨r', hget', hcase⟩ := get_cases hw now refresh r val
  rw [hget, Except.ok.injEq] at hget'
  subst hget'
  rw [findKey_eq] at hfound
  cases hcase with
  | missing habsent =>
    obtain ⟨e, he, hkey⟩ := MultiIndex.find_isSome_iff.mp hfound
    exact absurd hkey (habsent e he)
  | fresh hit hkey hfresh => exact view_eq_some_iff.mpr ⟨_, hit, hkey, rfl⟩
  | stale hit hkey hstale => exact view_eq_some_iff.mpr ⟨_, hit, hkey, rfl⟩

/-- A `get` changes no value, and what it puts into an empty `val` is the key's value. -/
theorem get_view {now refresh : TimeType} {r : Str} {out : GetResult} (hw : Interned env s)
    (hget : s.get env now refresh r [] = .ok (t, out)) :
    Interned env t ∧ t.view = s.view ∧
      (out.val ≠ [] → s.view (env.normalize r) = some out.val) := by
  obtain ⟨r', hget', hcase⟩ := get_cases hw now refresh r []
  rw [hget, Except.ok.injEq] at hget'
  subst hget'
  refine ⟨hcase.interned hw, hcase.view_eq, fun hval => ?_⟩
  cases hcase with
  | missing habsent => exact absurd rfl hval
  | fresh hit hkey hfresh => exact view_eq_some_iff.mpr ⟨_, hit, hkey, rfl⟩
  | stale hit hkey hstale => exact view_eq_some_iff.mpr ⟨_, hit, hkey, rfl⟩

/-- A binding after `add` is an old one, or the one that was added. -/
theorem add_view (hw : Interned env s) (hadd : s.add env now key val = .ok t) :
    Interned env t ∧
      ∀ k v, t.view k = some v → s.view k = some v ∨ k = key ∧ v = val := by
  obtain ⟨u, hadd', hcase⟩ := add_cases hw now key val
  rw [hadd, Except.ok.injEq] at hadd'
  subst hadd'
  refine ⟨hcase.interned hw, fun k v hv => ?_⟩
  by_cases hkey : k = key
  · subst hkey
    rcases hcase.view_own with ⟨-, hview⟩ | ⟨-, hview⟩
    · rw [hview, Option.some.injEq] at hv
      exact Or.inr ⟨rfl, hv.symm⟩
    · exact Or.inl (by rw [← hview, hv])
  · rw [hcase.view_of_ne hkey] at hv
    exact Or.inl hv

/-- The store as a finite map, exactly: when `get(r)` finds the normal form of `r`, the run has
added that key, and `val` is set to the value of the most recent such `add` if and only if that
call did not give a stored key a value that no key held. -/
theorem get_lastAdd_iff {ttl : Nat} {ops : List Op} (h : run env (init ttl) ops = .ok s)
    {now refresh : TimeType} {r : Str} {out : GetResult}
    (hget : s.get env now refresh r val = .ok (t, out))
    (hfound : (s.findKey env (env.normalize r)).isSome) :
    ∃ done now v later s₀, ops = done ++ .add now (env.normalize r) v :: later ∧
      (∀ op ∈ later, ¬ op.Adds (env.normalize r)) ∧ run env (init ttl) done = .ok s₀ ∧
      (out.val = v ↔ ¬ ReplacesByNew s₀ (env.normalize r) v) :=
  view_lastAdd h (get_val (run_interned h) hget hfound)

/-- The lookup of `"k"` after `add("k", "a")` and `add("l", "a")`. -/
theorem get_lastAdd_shared :
    ∃ s t out, run .plain (init 10) [.add 0 [107] [97], .add 1 [108] [97]] = .ok s ∧
      s.get .plain 2 2 [107] [] = .ok (t, out) ∧
      ∃ done now v later s₀,
        [Op.add 0 [107] [97], .add 1 [108] [97]] = done ++ .add now [107] v :: later ∧
          (∀ op ∈ later, ¬ op.Adds [107]) ∧ run .plain (init 10) done = .ok s₀ ∧
          (out.val = v ↔ ¬ ReplacesByNew s₀ [107] v) :=
  ⟨_, _, _, rfl, rfl, @get_lastAdd_iff .plain _ _ [] 10 [.add 0 [107] [97], .add 1 [108] [97]]
    rfl 2 2 [107] _ rfl (by decide)⟩

/-- `add("k", "a")`, then `add("k", "b")`: the lookup of `"k"` still answers `"a"`. -/
theorem get_misses_update :
    ∃ s t out, run .plain (init 10) [.add 0 [107] [97], .add 1 [107] [98]] = .ok s ∧
      s.get .plain 2 2 [107] [] = .ok (t, out) ∧
      (s.findKey .plain (Env.plain.normalize [107])).isSome ∧ out.val = [97] :=
  ⟨_, _, _, rfl, rfl, by decide, by decide⟩

end Swordfish.DHashmap
