import Swordfish.DHashmap.Invariant

/-!
# How long an added key stays fresh

The time `add` leaves on its key, and what the calls that do not touch the key leave of it. The
branch "No changes" (`dhashmap.cpp:184-186`) is the one that stamps nothing: a key that is added
again with the value it has keeps its old time.
-/

namespace Swordfish.DHashmap

variable {env : Env} {s t : DHashmap} {now : TimeType} {key val : Str}

/-- The call is an operation on `key`. -/
def Op.Touches (env : Env) (key : Str) : Op → Prop
  | .add _ key' _ => key' = key
  | .get _ _ _key => env.normalize _key = key
  | .expirate _ => False

instance (env : Env) (key : Str) : (op : Op) → Decidable (op.Touches env key)
  | .add _ key' _ => inferInstanceAs (Decidable (key' = key))
  | .get _ _ _key => inferInstanceAs (Decidable (env.normalize _key = key))
  | .expirate _ => isFalse id

/-- `key` holds `val` with a time that is over at `time`. -/
def HoldsStale (s : DHashmap) (key val : Str) (time : TimeType) : Prop :=
  ∃ e ∈ s.keys_.entries, e.key_ = key ∧ e.value_.item = val ∧ e.ttl_ + s.ttl_ ≤ time

instance (s : DHashmap) (key val : Str) (time : TimeType) :
    Decidable (HoldsStale s key val time) :=
  inferInstanceAs (Decidable (∃ e ∈ s.keys_.entries, _))

/-! ## The time to live is a constant -/

theorem AddCase.ttl_eq (h : AddCase env s now key val t) : t.ttl_ = s.ttl_ := by
  cases h <;> rfl

theorem GetCase.ttl_eq {refresh : TimeType} {_key : Str} {r : DHashmap × GetResult}
    (h : GetCase env s now refresh _key val r) : r.1.ttl_ = s.ttl_ := by
  cases h <;> rfl

theorem StepCase.ttl_eq {op : Op} (h : StepCase env s op t) : t.ttl_ = s.ttl_ := by
  cases h with
  | add h => exact h.ttl_eq
  | get h => exact h.ttl_eq
  | expirate n => rfl

/-! ## Calls that do not touch a key -/

/-- A call that does not touch a key leaves its entry as it is, or removes it. -/
theorem StepCase.entry_of_not_touches {op : Op} (h : StepCase env s op t)
    (hop : ¬ op.Touches env key) {e : KeyType} (he : e ∈ t.keys_.entries) (hkey : e.key_ = key) :
    e ∈ s.keys_.entries := by
  cases h with
  | @add now key' val t h =>
    have hne : e.key_ ≠ key' := fun heq => hop (heq.symm.trans hkey)
    exact (h.mem_iff_of_ne hne).mp he
  | @get now refresh _key r h =>
    cases h with
    | missing habsent => exact he
    | @fresh it hit hkey' hfresh =>
      rcases (MultiIndex.mem_write (f := KeyType.updateTtl refresh) (fun _ => rfl)).mp he with
        ⟨he, -⟩ | ⟨it', -, hit', rfl⟩
      · exact he
      · refine absurd ?_ hop
        change env.normalize _key = key
        rw [← hkey', ← hit']
        exact hkey
    | stale hit hkey' hstale => exact he
  | expirate n => exact mem_expirate he

/-- What a run that does not touch a key leaves under it was there before the run. -/
theorem run_entry_of_not_touches {ops : List Op} (hw : Interned env s)
    (h : run env s ops = .ok t) (hops : ∀ op ∈ ops, ¬ op.Touches env key) {e : KeyType}
    (he : e ∈ t.keys_.entries) (hkey : e.key_ = key) :
    e ∈ s.keys_.entries ∧ Interned env t ∧ t.ttl_ = s.ttl_ := by
  induction ops generalizing s with
  | nil =>
    cases h
    exact ⟨he, hw, rfl⟩
  | cons op ops ih =>
    obtain ⟨u, hstep, hrun⟩ := Run.exec_cons_ok.mp h
    have hcase := step_case_of_ok hw hstep
    obtain ⟨hu, ht, httl⟩ :=
      ih (hcase.interned hw) hrun (fun o ho => hops o (List.mem_cons_of_mem _ ho))
    refine ⟨?_, ht, httl.trans hcase.ttl_eq⟩
    exact hcase.entry_of_not_touches (hops op List.mem_cons_self) hu hkey

/-! ## The result of a lookup -/

/-- A lookup of a stored key returns `true` exactly while its time is not over, and then it is
`update_ttl` alone that changes the store. -/
theorem get_ret (hw : Interned env s) {e : KeyType} (he : e ∈ s.keys_.entries) {r : Str}
    (hkey : e.key_ = env.normalize r) (now refresh : TimeType) (val : Str) :
    ∃ t out, s.get env now refresh r val = .ok (t, out) ∧
      (out.ret = true ↔ now < e.ttl_ + s.ttl_) := by
  obtain ⟨⟨t, out⟩, hget, hcase⟩ := get_cases hw now refresh r val
  refine ⟨t, out, hget, ?_⟩
  cases hcase with
  | missing habsent => exact absurd hkey (habsent e he)
  | @fresh it hit hkey' hfresh =>
    rw [MultiIndex.eq_of_key_eq he hit (hkey.trans hkey'.symm)]
    exact iff_of_true rfl hfresh
  | @stale it hit hkey' hstale =>
    rw [MultiIndex.eq_of_key_eq he hit (hkey.trans hkey'.symm)]
    exact iff_of_false Bool.false_ne_true (Nat.not_lt.mpr hstale)

/-- The entry that `add` leaves is fresh within the time to live from `now`, unless the key had
the value already with a time that is over. -/
theorem AddCase.fresh_iff (h : AddCase env s now key val t) {e : KeyType}
    (he : e ∈ t.keys_.entries) (hkey : e.key_ = key) {time : TimeType}
    (htime : time < now + s.ttl_) :
    time < e.ttl_ + s.ttl_ ↔ ¬ HoldsStale s key val time := by
  obtain ⟨e', he', hkey', hown⟩ := h.own
  obtain rfl : e' = e := MultiIndex.eq_of_key_eq he' he (hkey'.trans hkey.symm)
  cases hown with
  | unchanged hmem hval =>
    constructor
    · rintro hlt ⟨e₀, he₀, hkey₀, -, hover⟩
      rw [MultiIndex.eq_of_key_eq he₀ hmem (hkey₀.trans hkey.symm)] at hover
      exact absurd hlt (Nat.not_lt.mpr hover)
    · intro hfresh
      refine Nat.lt_of_not_le (fun hover => hfresh ?_)
      exact ⟨e', hmem, hkey, hval, hover⟩
  | stored hclean hother httl hval =>
    rw [httl]
    refine iff_of_true htime (fun hstale => hother ?_)
    obtain ⟨e₀, he₀, hkey₀, hval₀, -⟩ := hstale
    exact ⟨e₀, he₀, hkey₀, hval₀⟩
  | refreshed hreplaces hit hkey₀ heq =>
    rw [heq]
    refine iff_of_true htime (fun hstale => ?_)
    obtain ⟨e₀, he₀, -, hval₀, -⟩ := hstale
    exact not_replacesByNew_of_held he₀ hval₀ hreplaces

end Swordfish.DHashmap
