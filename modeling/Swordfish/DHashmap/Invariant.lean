import Swordfish.DHashmap.Interning

/-!
# The invariant over runs

Every operation keeps `Interned`, so every state of every run from the empty store satisfies it,
and no run ever stops at one of the places where the process aborts.
-/

namespace Swordfish.DHashmap
open SharedPtr

variable {env : Env} {s t : DHashmap} {now : TimeType} {key val : Str}

/-! ## The entries each effect of `add` leaves -/

theorem mem_insertKey {e : KeyType} {value : MapItem}
    (habsent : ∀ e ∈ s.keys_.entries, e.key_ ≠ key) :
    e ∈ (s.insertKey env now key value).keys_.entries ↔
      e = { key_ := key, ttl_ := now, value_ := value } ∨ e ∈ s.keys_.entries :=
  MultiIndex.mem_insertAt habsent

theorem mem_replaceValue {e it : KeyType} {found : MapItem} :
    e ∈ (s.replaceValue env now it found).keys_.entries ↔
      e = { key_ := it.key_, ttl_ := now, value_ := found } ∨
        e ∈ s.keys_.entries ∧ e.key_ ≠ it.key_ := by
  unfold replaceValue
  rw [mem_insertKey (fun _ he => (MultiIndex.mem_erase.mp he).2), MultiIndex.mem_erase]

theorem mem_addKey {e : KeyType} {found : MapItem}
    (habsent : ∀ e ∈ s.keys_.entries, e.key_ ≠ key) :
    e ∈ (s.addKey env now key found).keys_.entries ↔
      e = { key_ := key, ttl_ := now, value_ := found } ∨ e ∈ s.keys_.entries :=
  mem_insertKey (s := s.allocate) habsent

theorem mem_refreshKey {e : KeyType} :
    e ∈ (s.refreshKey env now key val).keys_.entries ↔
      (e ∈ s.keys_.entries ∧ e.key_ ≠ key) ∨
        ∃ it ∈ s.keys_.entries, it.key_ = key ∧ e = it.updateTtl now :=
  MultiIndex.mem_write (f := KeyType.updateTtl now) (fun _ => rfl)

theorem mem_addPair {e : KeyType} (habsent : ∀ e ∈ s.keys_.entries, e.key_ ≠ key) :
    e ∈ (s.addPair env now key val).keys_.entries ↔
      e = { key_ := key, ttl_ := now, value_ := ⟨s.nextAddr, val⟩ } ∨ e ∈ s.keys_.entries :=
  mem_insertKey habsent

/-- `add` leaves the entries of the other keys as they are. -/
theorem AddCase.mem_iff_of_ne (h : AddCase env s now key val t) {e : KeyType}
    (hne : e.key_ ≠ key) : e ∈ t.keys_.entries ↔ e ∈ s.keys_.entries := by
  cases h with
  | noChanges hit hkey hval => exact Iff.rfl
  | replaceValue hit hkey hval hholder hfound =>
    subst hkey
    rw [mem_replaceValue]
    grind
  | addKey habsent hholder hfound =>
    rw [mem_addKey habsent]
    grind
  | refreshKey hit hkey hnew =>
    rw [mem_refreshKey]
    grind [KeyType.updateTtl]
  | addPair habsent hnew =>
    rw [mem_addPair habsent]
    grind

/-- `key` is stored with value `val`. -/
def Holds (s : DHashmap) (key val : Str) : Prop :=
  ∃ e ∈ s.keys_.entries, e.key_ = key ∧ e.value_.item = val

instance (s : DHashmap) (key val : Str) : Decidable (Holds s key val) :=
  inferInstanceAs (Decidable (∃ e ∈ s.keys_.entries, _))

/-- `key` is stored, and no key holds the value `val`: `add` then takes the branch of
`dhashmap.cpp:209-215`, which registers the new value and leaves the key with the old one. -/
def ReplacesByNew (s : DHashmap) (key val : Str) : Prop :=
  (∃ e ∈ s.keys_.entries, e.key_ = key) ∧ val ∉ s.heldValues

instance (s : DHashmap) (key val : Str) : Decidable (ReplacesByNew s key val) :=
  inferInstanceAs (Decidable ((∃ e ∈ s.keys_.entries, _) ∧ _))

theorem not_replacesByNew_of_held {e : KeyType} (he : e ∈ s.keys_.entries)
    (hval : e.value_.item = val) : ¬ ReplacesByNew s key val :=
  fun h => h.2 (mem_heldValues.mpr ⟨e, he, hval⟩)

theorem not_replacesByNew_of_absent (habsent : ∀ e ∈ s.keys_.entries, e.key_ ≠ key) :
    ¬ ReplacesByNew s key val := by
  rintro ⟨⟨e, he, hkey⟩, -⟩
  exact habsent e he hkey

/-- The entry `add` leaves under its own key. -/
inductive OwnEntry (s : DHashmap) (now : TimeType) (key val : Str) (e : KeyType) : Prop
  | unchanged (hmem : e ∈ s.keys_.entries) (hval : e.value_.item = val)
  | stored (hclean : ¬ ReplacesByNew s key val) (hother : ¬ Holds s key val) (httl : e.ttl_ = now)
      (hval : e.value_.item = val)
  | refreshed {it : KeyType} (hreplaces : ReplacesByNew s key val) (hit : it ∈ s.keys_.entries)
      (hkey : it.key_ = key) (heq : e = it.updateTtl now)

/-- `add` leaves one entry under its key. -/
theorem AddCase.own (h : AddCase env s now key val t) :
    ∃ e ∈ t.keys_.entries, e.key_ = key ∧ OwnEntry s now key val e := by
  cases h with
  | noChanges hit hkey hval => exact ⟨_, hit, hkey, .unchanged hit hval⟩
  | @replaceValue it holder hit hkey hval hholder hfound =>
    refine ⟨_, mem_replaceValue.mpr (Or.inl rfl), hkey, .stored ?_ ?_ rfl hfound⟩
    · exact not_replacesByNew_of_held hholder hfound
    · rintro ⟨e, he, hkey', hval'⟩
      rw [MultiIndex.eq_of_key_eq he hit (hkey'.trans hkey.symm)] at hval'
      exact hval hval'
  | @addKey holder habsent hholder hfound =>
    refine ⟨_, (mem_addKey habsent).mpr (Or.inl rfl), rfl, .stored ?_ ?_ rfl hfound⟩
    · exact not_replacesByNew_of_held hholder hfound
    · exact fun ⟨e, he, hkey, _⟩ => habsent e he hkey
  | @refreshKey it hit hkey hnew =>
    exact ⟨_, mem_refreshKey.mpr (Or.inr ⟨it, hit, hkey, rfl⟩), hkey,
      .refreshed ⟨⟨it, hit, hkey⟩, hnew⟩ hit hkey rfl⟩
  | addPair habsent hnew =>
    refine ⟨_, (mem_addPair habsent).mpr (Or.inl rfl), rfl, .stored ?_ ?_ rfl rfl⟩
    · exact not_replacesByNew_of_absent habsent
    · exact fun ⟨e, he, hkey, _⟩ => habsent e he hkey

/-! ## The operations keep the invariant -/

/-- A state with fewer owners and references, in which every key is still registered. -/
theorem Interned.of_sub (hw : Interned env s) (haddr : s.nextAddr ≤ t.nextAddr)
    (howners : ∀ p ∈ t.owners, p ∈ s.owners) (hvalues : t.values_.Sublist s.values_)
    (hregistered : ∀ e ∈ t.keys_.entries, ∃ n ∈ t.values_, n.item.target = e.value_) :
    Interned env t where
  keyAddr e he := by
    obtain ⟨e', he', heq⟩ := mem_owners.mp (howners _ (mem_owners.mpr ⟨e, he, rfl⟩))
    have := hw.keyAddr e' he'
    rw [← heq]
    omega
  valueAddr n hn := by
    have := hw.valueAddr n (hvalues.subset hn)
    omega
  coherent n hn m hm := hw.coherent n (hvalues.subset hn) m (hvalues.subset hm)
  hashed n hn := hw.hashed n (hvalues.subset hn)
  registered := hregistered
  distinct := (hw.distinct.sublist hvalues).imp
    (fun h hn hm => h (hn.mono howners) (hm.mono howners))

/-- A state in which one new object has been registered. -/
theorem Interned.of_append (hw : Interned env s) (hnew : val ∉ s.heldValues)
    (haddr : t.nextAddr = s.nextAddr + 1)
    (howners : ∀ p ∈ t.owners, p ∈ s.owners ∨ p = ⟨s.nextAddr, val⟩)
    (hvalues : t.values_ = s.values_ ++ [⟨valueHash env val, ⟨⟨s.nextAddr, val⟩⟩⟩]) :
    Interned env t where
  keyAddr e he := by
    rcases howners _ (mem_owners.mpr ⟨e, he, rfl⟩) with hold | heq
    · obtain ⟨e', he', heq⟩ := mem_owners.mp hold
      have := hw.keyAddr e' he'
      rw [← heq]
      omega
    · rw [heq, haddr]
      exact Nat.lt_succ_self _
  valueAddr n hn := by
    rw [hvalues, List.mem_append, List.mem_singleton] at hn
    rcases hn with hn | rfl
    · have := hw.valueAddr n hn
      omega
    · rw [haddr]
      exact Nat.lt_succ_self _
  coherent n hn m hm heq := by
    rw [hvalues, List.mem_append, List.mem_singleton] at hn hm
    rcases hn with hn | rfl <;> rcases hm with hm | rfl
    · exact hw.coherent n hn m hm heq
    · exact absurd heq (Nat.ne_of_lt (hw.valueAddr n hn))
    · exact absurd heq.symm (Nat.ne_of_lt (hw.valueAddr m hm))
    · rfl
  hashed n hn := by
    rw [hvalues, List.mem_append, List.mem_singleton] at hn
    rcases hn with hn | rfl
    · exact hw.hashed n hn
    · rfl
  registered e he := by
    rw [hvalues]
    rcases howners _ (mem_owners.mpr ⟨e, he, rfl⟩) with hold | heq
    · obtain ⟨e', he', heq⟩ := mem_owners.mp hold
      obtain ⟨n, hn, htarget⟩ := hw.registered e' he'
      exact ⟨n, List.mem_append_left _ hn, htarget.trans heq⟩
    · exact ⟨_, List.mem_append_right _ (List.mem_singleton.mpr rfl), heq.symm⟩
  distinct := by
    have hlive : ∀ n ∈ s.values_, Live t n.item → Live s n.item := by
      rintro n hn ⟨p, hp, haddr⟩
      rcases howners p hp with hp | rfl
      · exact ⟨p, hp, haddr⟩
      · exact absurd haddr.symm (Nat.ne_of_lt (hw.valueAddr n hn))
    rw [hvalues]
    refine List.pairwise_append.mpr ⟨?_, List.pairwise_singleton _ _, ?_⟩
    · exact hw.distinct.imp_of_mem
        (fun hn hm h hln hlm => h (hlive _ hn hln) (hlive _ hm hlm))
    · intro n hn m hm hln _ hitem
      obtain rfl := List.mem_singleton.mp hm
      obtain ⟨e, he, heq⟩ := hw.holder hn (hlive n hn hln)
      exact hnew (mem_heldValues.mpr ⟨e, he, by rw [heq, hitem]⟩)

theorem replaceValue_values_ (s : DHashmap) (now : TimeType) (it : KeyType) (found : MapItem) :
    (s.replaceValue env now it found).values_ =
      if SoleHolder s it then s.values_.filter (fun n => n.item.target ≠ it.value_)
      else s.values_ := rfl

/-- A registered object stays registered when a key gives up another one. -/
theorem mem_replaceValue_values {it : KeyType} {found : MapItem}
    {n : UnorderedSet.Node UInt64 SetItem} (hn : n ∈ s.values_)
    (hkeep : SoleHolder s it → n.item.target ≠ it.value_) :
    n ∈ (s.replaceValue env now it found).values_ := by
  rw [replaceValue_values_]
  split
  · rename_i hsole
    exact List.mem_filter.mpr ⟨hn, decide_eq_true (hkeep hsole)⟩
  · exact hn

theorem AddCase.interned (hw : Interned env s) (h : AddCase env s now key val t) :
    Interned env t := by
  cases h with
  | noChanges hit hkey hval =>
    exact hw.of_sub (Nat.le_succ _) (fun _ hp => hp) (List.Sublist.refl _) hw.registered
  | @replaceValue it holder hit hkey hval hholder hfound =>
    refine hw.of_sub (Nat.le_succ _) ?_ ?_ ?_
    · intro p hp
      obtain ⟨e, he, rfl⟩ := mem_owners.mp hp
      rcases mem_replaceValue.mp he with rfl | ⟨he, -⟩
      · exact mem_owners.mpr ⟨holder, hholder, rfl⟩
      · exact mem_owners.mpr ⟨e, he, rfl⟩
    · rw [replaceValue_values_]
      split
      · exact List.filter_sublist
      · exact List.Sublist.refl _
    · intro e he
      rcases mem_replaceValue.mp he with rfl | ⟨he, hne⟩
      · obtain ⟨n, hn, htarget⟩ := hw.registered holder hholder
        refine ⟨n, mem_replaceValue_values hn (fun _ heq => ?_), htarget⟩
        exact hval (by rw [← heq, htarget, hfound])
      · obtain ⟨n, hn, htarget⟩ := hw.registered e he
        refine ⟨n, mem_replaceValue_values hn (fun hsole heq => ?_), htarget⟩
        exact hsole e he hne (by rw [← htarget, heq])
  | @addKey holder habsent hholder hfound =>
    refine hw.of_sub (Nat.le_succ _) ?_ (List.Sublist.refl _) ?_
    · intro p hp
      obtain ⟨e, he, rfl⟩ := mem_owners.mp hp
      rcases (mem_addKey habsent).mp he with rfl | he
      · exact mem_owners.mpr ⟨holder, hholder, rfl⟩
      · exact mem_owners.mpr ⟨e, he, rfl⟩
    · intro e he
      rcases (mem_addKey habsent).mp he with rfl | he
      · exact hw.registered holder hholder
      · exact hw.registered e he
  | refreshKey hit hkey hnew =>
    refine hw.of_append hnew rfl ?_ rfl
    intro p hp
    obtain ⟨e, he, rfl⟩ := mem_owners.mp hp
    rcases mem_refreshKey.mp he with ⟨he, -⟩ | ⟨it, hit, -, rfl⟩
    · exact Or.inl (mem_owners.mpr ⟨e, he, rfl⟩)
    · exact Or.inl (mem_owners.mpr ⟨it, hit, rfl⟩)
  | addPair habsent hnew =>
    refine hw.of_append hnew rfl ?_ rfl
    intro p hp
    obtain ⟨e, he, rfl⟩ := mem_owners.mp hp
    rcases (mem_addPair habsent).mp he with rfl | he
    · exact Or.inr rfl
    · exact Or.inl (mem_owners.mpr ⟨e, he, rfl⟩)

/-- A state that differs in times and counters only. -/
theorem Interned.of_same_owners (hw : Interned env s) (haddr : t.nextAddr = s.nextAddr)
    (howners : t.owners = s.owners) (hvalues : t.values_ = s.values_) : Interned env t := by
  refine hw.of_sub (Nat.le_of_eq haddr.symm) (fun p hp => howners ▸ hp) (hvalues ▸ .refl _) ?_
  intro e he
  have hmem : e.value_ ∈ s.owners := howners ▸ mem_owners.mpr ⟨e, he, rfl⟩
  obtain ⟨e', he', heq⟩ := mem_owners.mp hmem
  obtain ⟨n, hn, htarget⟩ := hw.registered e' he'
  exact ⟨n, hvalues ▸ hn, htarget.trans heq⟩

section Get

variable {refresh : TimeType} {_key : Str} {r : DHashmap × GetResult}

/-- `get` changes times and counters only. -/
theorem GetCase.owners_eq (h : GetCase env s now refresh _key val r) : r.1.owners = s.owners := by
  cases h with
  | missing habsent => rfl
  | fresh hit hkey hfresh => exact updateTtl_owners _ _ _
  | stale hit hkey hstale => rfl

theorem GetCase.values_eq (h : GetCase env s now refresh _key val r) :
    r.1.values_ = s.values_ := by
  cases h <;> rfl

theorem GetCase.nextAddr_eq (h : GetCase env s now refresh _key val r) :
    r.1.nextAddr = s.nextAddr := by
  cases h <;> rfl

theorem GetCase.interned (hw : Interned env s) (h : GetCase env s now refresh _key val r) :
    Interned env r.1 :=
  hw.of_same_owners h.nextAddr_eq h.owners_eq h.values_eq

end Get

theorem mem_expirate {e : KeyType} {n : UInt64} (he : e ∈ (s.expirate n).keys_.entries) :
    e ∈ s.keys_.entries :=
  List.mem_of_mem_drop he

theorem expirate_interned (hw : Interned env s) (n : UInt64) : Interned env (s.expirate n) := by
  refine hw.of_sub (Nat.le_refl _) ?_ ?_ ?_
  · intro p hp
    obtain ⟨e, he, rfl⟩ := mem_owners.mp hp
    exact mem_owners.mpr ⟨e, mem_expirate he, rfl⟩
  · rw [expirate_values_]
    exact List.filter_sublist
  · intro e he
    obtain ⟨m, hm, htarget⟩ := hw.registered e (mem_expirate he)
    rw [expirate_values_]
    exact ⟨m, List.mem_filter.mpr ⟨hm, decide_eq_true (Interned.live_of_target he htarget)⟩,
      htarget⟩

/-- What one call does from a state that satisfies the invariant. -/
inductive StepCase (env : Env) (s : DHashmap) : Op → DHashmap → Prop
  | add {now : TimeType} {key val : Str} {t : DHashmap} (h : AddCase env s now key val t) :
      StepCase env s (.add now key val) t
  | get {now refresh : TimeType} {_key : Str} {r : DHashmap × GetResult}
      (h : GetCase env s now refresh _key [] r) : StepCase env s (.get now refresh _key) r.1
  | expirate (n : UInt64) : StepCase env s (.expirate n) (s.expirate n)

/-- A call never fails. -/
theorem step_cases (hw : Interned env s) (op : Op) :
    ∃ t, step env s op = .ok t ∧ StepCase env s op t := by
  cases op with
  | add now key val =>
    obtain ⟨t, hadd, hcase⟩ := add_cases hw now key val
    exact ⟨t, hadd, .add hcase⟩
  | get now refresh _key =>
    obtain ⟨r, hget, hcase⟩ := get_cases hw now refresh _key []
    exact ⟨r.1, by simp only [step, hget, Except.map], .get hcase⟩
  | expirate n => exact ⟨_, rfl, .expirate n⟩

theorem step_case_of_ok (hw : Interned env s) {op : Op} (h : step env s op = .ok t) :
    StepCase env s op t := by
  obtain ⟨u, hu, hcase⟩ := step_cases hw op
  rw [h, Except.ok.injEq] at hu
  exact hu ▸ hcase

theorem StepCase.interned (hw : Interned env s) {op : Op} (h : StepCase env s op t) :
    Interned env t := by
  cases h with
  | add h => exact h.interned hw
  | get h => exact h.interned hw
  | expirate n => exact expirate_interned hw n

/-! ## Runs from the empty store -/

/-- Every reachable state satisfies the invariant. -/
theorem run_interned {ttl : Nat} {ops : List Op} (h : run env (init ttl) ops = .ok s) :
    Interned env s :=
  Run.exec_invariant (I := Interned env)
    (fun _ _ _ hw hstep => (step_case_of_ok hw hstep).interned hw) (interned_init env ttl) h

/-- No run stops at a failure. -/
theorem run_ok (env : Env) (ttl : Nat) (ops : List Op) :
    ∃ s, run env (init ttl) ops = .ok s ∧ Interned env s := by
  induction ops using List.reverseRecOn with
  | nil => exact ⟨_, rfl, interned_init env ttl⟩
  | append_singleton ops op ih =>
    obtain ⟨s, hrun, hw⟩ := ih
    obtain ⟨t, hstep, hcase⟩ := step_cases hw op
    exact ⟨t, Run.exec_concat_ok.mpr ⟨s, hrun, hstep⟩, hcase.interned hw⟩

/-- Interning and the unreachable failure branches: in every reachable state every key's object
is the target of a live reference in `values_`, keys with equal values share one object, live
references have distinct contents, and no `get` or `add` fails. -/
theorem run_interning {ttl : Nat} {ops : List Op} (h : run env (init ttl) ops = .ok s) :
    (∀ e ∈ s.keys_.entries, ∃ n ∈ s.values_, n.item.lock s.owners = some e.value_) ∧
      (∀ e ∈ s.keys_.entries, ∀ e' ∈ s.keys_.entries,
        e.value_.item = e'.value_.item → e.value_ = e'.value_) ∧
      s.values_.Pairwise (Apart s) ∧
      (∀ now refresh _key val, ∃ r, s.get env now refresh _key val = .ok r) ∧
      ∀ now key val, ∃ t, s.add env now key val = .ok t := by
  have hw := run_interned h
  refine ⟨?_, ?_, hw.distinct, ?_, ?_⟩
  · intro e he
    obtain ⟨n, hn, htarget⟩ := hw.registered e he
    exact ⟨n, hn, lock_eq_some_iff.mpr ⟨Interned.live_of_target he htarget, htarget⟩⟩
  · intro e he e' he' heq
    exact hw.value_eq he he' heq
  · intro now refresh _key val
    obtain ⟨r, hget, -⟩ := get_cases hw now refresh _key val
    exact ⟨r, hget⟩
  · intro now key val
    obtain ⟨t, hadd, -⟩ := add_cases hw now key val
    exact ⟨t, hadd⟩

/-- Two keys share the value `"a"`, then the first key is given the new value `"b"`. -/
theorem run_interning_shared :
    ∃ s, run .plain (init 10) [.add 0 [107] [97], .add 1 [108] [97], .add 2 [107] [98]] = .ok s ∧
      ∀ e ∈ s.keys_.entries, ∃ n ∈ s.values_, n.item.lock s.owners = some e.value_ :=
  ⟨_, rfl, (@run_interning .plain _ 10
    [.add 0 [107] [97], .add 1 [108] [97], .add 2 [107] [98]] rfl).1⟩

end Swordfish.DHashmap
