import Mathlib.Data.Finset.Card
import Swordfish.DHashmap.Model

/-!
# The interning table

The invariant that ties `keys_` to `values_`, and what each operation does from a state that
satisfies it. Every proof about the store starts from `add_cases`, `get_cases` and the equations
of `expirate` below: no later module unfolds the operations.
-/

namespace Swordfish.DHashmap
open SharedPtr

variable {env : Env} {s : DHashmap}

/-- The hash of a value: `custom_hash`, or `boost::hash` when no library is loaded. -/
def valueHash (env : Env) (v : Str) : UInt64 :=
  match env.customHash with
  | some customHash => customHash v
  | none => env.hash v

/-- The weak reference is live: some key owns the object. -/
def Live (s : DHashmap) (x : SetItem) : Prop := Alive s.owners x.target

instance (s : DHashmap) (x : SetItem) : Decidable (Live s x) :=
  inferInstanceAs (Decidable (Alive s.owners x.target))

/-- The distinct values held by the keys. -/
def heldValues (s : DHashmap) : Finset Str := (s.keys_.entries.map (·.value_.item)).toFinset

/-- Not two live references to equal contents. -/
def Apart (s : DHashmap) (n m : UnorderedSet.Node UInt64 SetItem) : Prop :=
  Live s n.item → Live s m.item → n.item.target.item ≠ m.item.target.item

instance (s : DHashmap) : Std.Symm (Apart s) where
  symm _ _ h hm hn := (h hn hm).symm

/-- The invariant of the store. Live references in `values_` have distinct contents, every key's
object is among them, and a reference whose object is gone may stay behind. -/
structure Interned (env : Env) (s : DHashmap) : Prop where
  keyAddr : ∀ e ∈ s.keys_.entries, e.value_.addr < s.nextAddr
  valueAddr : ∀ n ∈ s.values_, n.item.target.addr < s.nextAddr
  coherent : ∀ n ∈ s.values_, ∀ m ∈ s.values_,
    n.item.target.addr = m.item.target.addr → n.item.target = m.item.target
  hashed : ∀ n ∈ s.values_, n.hash = valueHash env n.item.target.item
  registered : ∀ e ∈ s.keys_.entries, ∃ n ∈ s.values_, n.item.target = e.value_
  distinct : s.values_.Pairwise (Apart s)

/-! ## Lookups -/

theorem findKey_eq (env : Env) (s : DHashmap) (key : Str) :
    s.findKey env key = s.keys_.find key := by
  unfold findKey MultiIndex.find
  congr 1
  funext e
  by_cases h : e.key_ = key <;> simp [h]

theorem dhmHash_of_alive {owners : List MapItem} {x : SetItem} (h : Alive owners x.target) :
    dhmHash env owners x = .ok (valueHash env x.target.item) := by
  have hlock : x.lock owners = some x.target := lock_eq_some_iff.mpr ⟨h, rfl⟩
  simp only [dhmHash, hlock, valueHash]
  cases env.customHash <;> rfl

theorem dhmEqualTo_iff {owners : List MapItem} {x y : SetItem} :
    dhmEqualTo owners x y = true ↔
      Alive owners x.target ∧ Alive owners y.target ∧ x.target.item = y.target.item := by
  unfold dhmEqualTo
  by_cases hx : Alive owners x.target
  · rw [lock_eq_some_iff.mpr ⟨hx, rfl⟩]
    by_cases hy : Alive owners y.target
    · rw [lock_eq_some_iff.mpr ⟨hy, rfl⟩]
      simp [hx, hy]
    · rw [lock_eq_none_iff.mpr hy]
      simp [hy]
  · rw [lock_eq_none_iff.mpr hx]
    simp [hx]

theorem mem_owners {p : MapItem} : p ∈ s.owners ↔ ∃ e ∈ s.keys_.entries, e.value_ = p := by
  simp [owners]

theorem live_iff {x : SetItem} :
    Live s x ↔ ∃ e ∈ s.keys_.entries, e.value_.addr = x.target.addr := by
  simp [Live, Alive, owners]

theorem mem_heldValues {v : Str} :
    v ∈ s.heldValues ↔ ∃ e ∈ s.keys_.entries, e.value_.item = v := by
  simp [heldValues]

namespace Interned

/-- A live reference names the object of some key, contents included. -/
theorem holder (hw : Interned env s) {n : UnorderedSet.Node UInt64 SetItem} (hn : n ∈ s.values_)
    (hlive : Live s n.item) : ∃ e ∈ s.keys_.entries, e.value_ = n.item.target := by
  obtain ⟨e, he, haddr⟩ := live_iff.mp hlive
  obtain ⟨m, hm, htarget⟩ := hw.registered e he
  exact ⟨e, he, htarget.symm.trans (hw.coherent m hm n hn (by rw [htarget, haddr]))⟩

theorem live_of_target {n : UnorderedSet.Node UInt64 SetItem} {e : KeyType}
    (he : e ∈ s.keys_.entries) (h : n.item.target = e.value_) : Live s n.item :=
  live_iff.mpr ⟨e, he, by rw [h]⟩

/-- Live references with equal contents name the same object. -/
theorem target_eq (hw : Interned env s) {n m : UnorderedSet.Node UInt64 SetItem}
    (hn : n ∈ s.values_) (hm : m ∈ s.values_) (hln : Live s n.item) (hlm : Live s m.item)
    (h : n.item.target.item = m.item.target.item) : n.item.target = m.item.target := by
  by_cases heq : n = m
  · rw [heq]
  · exact absurd h (hw.distinct.forall hn hm heq hln hlm)

/-- The keys' objects are known by their contents. -/
theorem value_eq (hw : Interned env s) {e e' : KeyType} (he : e ∈ s.keys_.entries)
    (he' : e' ∈ s.keys_.entries) (h : e.value_.item = e'.value_.item) : e.value_ = e'.value_ := by
  obtain ⟨n, hn, htarget⟩ := hw.registered e he
  obtain ⟨n', hn', htarget'⟩ := hw.registered e' he'
  rw [← htarget, ← htarget'] at h ⊢
  exact hw.target_eq hn hn' (live_of_target he htarget) (live_of_target he' htarget') h

/-- The keys' objects are known by their identity. -/
theorem value_eq_of_addr (hw : Interned env s) {e e' : KeyType} (he : e ∈ s.keys_.entries)
    (he' : e' ∈ s.keys_.entries) (h : e.value_.addr = e'.value_.addr) : e.value_ = e'.value_ := by
  obtain ⟨n, hn, htarget⟩ := hw.registered e he
  obtain ⟨n', hn', htarget'⟩ := hw.registered e' he'
  rw [← htarget, ← htarget'] at h ⊢
  exact hw.coherent n hn n' hn' h

/-- The allocator's next identity is not in use. -/
theorem not_alive_new (hw : Interned env s) (v : Str) : ¬ Alive s.owners ⟨s.nextAddr, v⟩ := by
  rintro ⟨p, hp, haddr⟩
  obtain ⟨e, he, rfl⟩ := mem_owners.mp hp
  exact absurd haddr (Nat.ne_of_lt (hw.keyAddr e he))

end Interned

/-! ## What the operations on single members leave -/

@[simp] theorem allocate_keys_ (s : DHashmap) : s.allocate.keys_ = s.keys_ := rfl
@[simp] theorem allocate_owners (s : DHashmap) : s.allocate.owners = s.owners := rfl

@[simp] theorem updateTtl_owners (s : DHashmap) (now : TimeType) (key : Str) :
    (s.updateTtl now key).owners = s.owners :=
  MultiIndex.map_write (f := KeyType.updateTtl now) (fun _ => rfl) KeyType.value_ (fun _ => rfl)

/-! ## The empty store -/

theorem interned_init (env : Env) (ttl : Nat) : Interned env (init ttl) where
  keyAddr := by simp [init, MultiIndex.empty]
  valueAddr := by simp [init]
  coherent := by simp [init]
  hashed := by simp [init]
  registered := by simp [init, MultiIndex.empty]
  distinct := List.Pairwise.nil

/-! ## Lookups in `values_`

While `add` runs, `new_item` and `found` are owners too. Neither changes which of the stored
references are live: `new_item` has a fresh identity, `found` is owned by a key. -/

/-- The owners while `add` runs are the keys' objects, `new_item`, and objects of keys. -/
structure DuringAdd (s : DHashmap) (owners : List MapItem) : Prop where
  keep : ∀ p ∈ s.owners, p ∈ owners
  only : ∀ p ∈ owners, p ∈ s.owners ∨ p.addr = s.nextAddr

theorem duringAdd_new (s : DHashmap) (v : Str) :
    DuringAdd s ((⟨s.nextAddr, v⟩ : MapItem) :: s.owners) where
  keep p hp := List.mem_cons_of_mem _ hp
  only p hp := by
    rcases List.mem_cons.mp hp with rfl | hp
    · exact Or.inr rfl
    · exact Or.inl hp

theorem DuringAdd.cons {owners : List MapItem} (h : DuringAdd s owners) {p : MapItem}
    (hp : p ∈ s.owners) : DuringAdd s (p :: owners) where
  keep q hq := List.mem_cons_of_mem _ (h.keep q hq)
  only q hq := by
    rcases List.mem_cons.mp hq with rfl | hq
    · exact Or.inl hp
    · exact h.only q hq

theorem DuringAdd.alive_iff {owners : List MapItem} (h : DuringAdd s owners)
    (hw : Interned env s) {n : UnorderedSet.Node UInt64 SetItem} (hn : n ∈ s.values_) :
    Alive owners n.item.target ↔ Live s n.item := by
  constructor
  · rintro ⟨p, hp, haddr⟩
    rcases h.only p hp with hp | hp
    · exact ⟨p, hp, haddr⟩
    · exact absurd (haddr.symm.trans hp) (Nat.ne_of_lt (hw.valueAddr n hn))
  · exact fun hlive => hlive.mono h.keep

theorem findValue_of_alive {owners : List MapItem} {x : SetItem} (hx : Alive owners x.target) :
    s.findValue env owners x =
      .ok (s.values_.find (dhmEqualTo owners) (valueHash env x.target.item) x) := by
  simp only [findValue, dhmHash_of_alive hx]
  rfl

/-- What a lookup of contents `v` finds: the live reference to `v`, when there is one. -/
theorem findValue_spec (hw : Interned env s) {owners : List MapItem} (h : DuringAdd s owners)
    {x : SetItem} (hx : Alive owners x.target) :
    (s.findValue env owners x = .ok none ∧ x.target.item ∉ s.heldValues) ∨
      ∃ n ∈ s.values_, s.findValue env owners x = .ok (some n) ∧ Live s n.item ∧
        n.item.target.item = x.target.item := by
  have hfind : s.findValue env owners x = _ := findValue_of_alive hx
  cases hres : s.values_.find (dhmEqualTo owners) (valueHash env x.target.item) x with
  | none =>
    refine Or.inl ⟨by rw [hfind, hres], ?_⟩
    intro hheld
    obtain ⟨e, he, heq⟩ := mem_heldValues.mp hheld
    obtain ⟨n, hn, htarget⟩ := hw.registered e he
    have hitem : n.item.target.item = x.target.item := by rw [htarget, heq]
    have hlive := (h.alive_iff hw hn).mpr (Interned.live_of_target he htarget)
    have hne := UnorderedSet.find_none_iff.mp hres n hn (by rw [hw.hashed n hn, hitem])
    rw [dhmEqualTo_iff.mpr ⟨hx, hlive, hitem.symm⟩] at hne
    exact Bool.noConfusion hne
  | some n =>
    obtain ⟨hn, -, heq⟩ := UnorderedSet.find_some hres
    obtain ⟨-, hlive, hitem⟩ := dhmEqualTo_iff.mp heq
    exact Or.inr ⟨n, hn, by rw [hfind, hres], (h.alive_iff hw hn).mp hlive, hitem.symm⟩

/-- The value of a key is always found, under the identity that the key holds. -/
theorem findValue_of_key (hw : Interned env s) {e : KeyType} (he : e ∈ s.keys_.entries) :
    ∃ n ∈ s.values_, s.findValue env s.owners ⟨e.value_⟩ = .ok (some n) ∧
      n.item.target = e.value_ := by
  have hduring : DuringAdd s s.owners := ⟨fun _ hp => hp, fun _ hp => Or.inl hp⟩
  have halive : Alive s.owners e.value_ := alive_of_mem (mem_owners.mpr ⟨e, he, rfl⟩)
  rcases findValue_spec hw hduring (x := ⟨e.value_⟩) halive with ⟨-, habsent⟩ | hfound
  · exact absurd (mem_heldValues.mpr ⟨e, he, rfl⟩) habsent
  · obtain ⟨n, hn, hfind, hlive, hitem⟩ := hfound
    obtain ⟨m, hm, htarget⟩ := hw.registered e he
    have heq : n.item.target = m.item.target :=
      hw.target_eq hn hm hlive (Interned.live_of_target he htarget) (by rw [htarget, hitem])
    exact ⟨n, hn, hfind, heq.trans htarget⟩

/-- Erasing the value of a key erases the references to that key's object. -/
theorem eraseValue_of_key (hw : Interned env s) {owners : List MapItem} (h : DuringAdd s owners)
    {e : KeyType} (he : e ∈ s.keys_.entries) {t : DHashmap} (ht : t.values_ = s.values_) :
    t.eraseValue env owners ⟨e.value_⟩ =
      .ok { t with values_ := s.values_.filter (fun n => n.item.target ≠ e.value_) } := by
  have halive : Alive owners e.value_ :=
    alive_of_mem (h.keep _ (mem_owners.mpr ⟨e, he, rfl⟩))
  have herase : t.values_.erase (dhmEqualTo owners) (valueHash env e.value_.item) ⟨e.value_⟩ =
      s.values_.filter (fun n => ¬ n.item.target = e.value_) := by
    rw [ht]
    refine UnorderedSet.erase_eq_filter (fun n hn => ?_)
    constructor
    · rintro ⟨-, heq⟩
      obtain ⟨-, hlive, hitem⟩ := dhmEqualTo_iff.mp heq
      obtain ⟨m, hm, htarget⟩ := hw.registered e he
      have := hw.target_eq hn hm ((h.alive_iff hw hn).mp hlive)
        (Interned.live_of_target he htarget) (by rw [htarget, ← hitem])
      exact this.trans htarget
    · intro htarget
      refine ⟨by rw [hw.hashed n hn, htarget], dhmEqualTo_iff.mpr ⟨halive, ?_, ?_⟩⟩
      · rw [htarget]
        exact halive
      · rw [htarget]
  simp only [eraseValue, dhmHash_of_alive (x := ⟨e.value_⟩) halive]
  exact congrArg (fun values => Except.ok { t with values_ := values }) herase

/-- A value that no key holds is registered by appending a reference to it. -/
theorem insertValue_new (hw : Interned env s) {owners : List MapItem} (h : DuringAdd s owners)
    {x : SetItem} (hx : Alive owners x.target) (hv : x.target.item ∉ s.heldValues)
    {t : DHashmap} (ht : t.values_ = s.values_) :
    t.insertValue env owners x =
      .ok { t with values_ := s.values_ ++ [⟨valueHash env x.target.item, x⟩] } := by
  have hnone : t.values_.find (dhmEqualTo owners) (valueHash env x.target.item) x = none := by
    rcases findValue_spec hw h hx with ⟨hfind, -⟩ | ⟨n, hn, -, hlive, hitem⟩
    · rw [findValue_of_alive hx, Except.ok.injEq] at hfind
      rw [ht, hfind]
    · obtain ⟨e, he, heq⟩ := hw.holder hn hlive
      exact absurd (mem_heldValues.mpr ⟨e, he, by rw [heq, hitem]⟩) hv
  simp only [insertValue, dhmHash_of_alive hx]
  rw [← ht, ← UnorderedSet.insert_of_find_none hnone]
  rfl

/-! ## `add` -/

/-- No other key shares the object of `e`. -/
def SoleHolder (s : DHashmap) (e : KeyType) : Prop :=
  ∀ e' ∈ s.keys_.entries, e'.key_ ≠ e.key_ → e'.value_.addr ≠ e.value_.addr

instance (s : DHashmap) (e : KeyType) : Decidable (SoleHolder s e) :=
  inferInstanceAs (Decidable (∀ e' ∈ s.keys_.entries, _))

/-- The use count of a key's object is one when no other key shares it. The other owners while
`add` runs, `new_item` and `found`, are different objects. -/
theorem useCount_eq_one_iff {e : KeyType} (he : e ∈ s.keys_.entries) {found new : MapItem}
    (hfound : e.value_.addr ≠ found.addr) (hnew : e.value_.addr ≠ new.addr) :
    useCount (found :: new :: s.owners) e.value_ = 1 ↔ SoleHolder s e := by
  have hperm : s.owners.Perm (e.value_ :: (s.keys_.erase e.key_).entries.map (·.value_)) :=
    (MultiIndex.perm_cons_erase he).map KeyType.value_
  rw [useCount_cons, if_neg hfound.symm, useCount_cons, if_neg hnew.symm, useCount_perm hperm]
  simp only [Nat.add_zero, useCount_self_cons_eq_one_iff]
  simp only [Alive, List.mem_map, SoleHolder]
  constructor
  · intro h e' he' hkey haddr
    exact h ⟨e'.value_, ⟨e', MultiIndex.mem_erase.mpr ⟨he', hkey⟩, rfl⟩, haddr⟩
  · rintro h ⟨p, ⟨e', he', rfl⟩, haddr⟩
    obtain ⟨hmem, hkey⟩ := MultiIndex.mem_erase.mp he'
    exact h e' hmem hkey haddr

/-- The effect of `add` that gives an existing key another value that is interned already. The
old value goes when the key was its only holder. -/
def replaceValue (env : Env) (s : DHashmap) (now : TimeType) (it : KeyType) (found : MapItem) :
    DHashmap :=
  insertKey env
    { s.allocate with
      keys_ := s.keys_.erase it.key_
      values_ :=
        if SoleHolder s it then s.values_.filter (fun n => n.item.target ≠ it.value_)
        else s.values_
      storageSize :=
        if SoleHolder s it then s.storageSize - strLength it.value_.item else s.storageSize }
    now it.key_ found

/-- The effect of `add` that adds a key for a value that is interned already. -/
def addKey (env : Env) (s : DHashmap) (now : TimeType) (key : Str) (found : MapItem) : DHashmap :=
  (s.allocate.insertKey env now key found).incStorageSize (strLength key)

/-- The effect of `add` on an existing key when the value is not interned: the key keeps its old
value, and `values_` gets a reference to an object that dies with `new_item`. -/
def refreshKey (env : Env) (s : DHashmap) (now : TimeType) (key val : Str) : DHashmap :=
  { s.allocate.updateTtl now key with
    values_ := s.values_ ++ [⟨valueHash env val, ⟨⟨s.nextAddr, val⟩⟩⟩]
    storageSize := s.storageSize + strLength val }

/-- The effect of `add` that adds a new key with a new value. -/
def addPair (env : Env) (s : DHashmap) (now : TimeType) (key val : Str) : DHashmap :=
  (insertKey env
    { s.allocate with values_ := s.values_ ++ [⟨valueHash env val, ⟨⟨s.nextAddr, val⟩⟩⟩] }
    now key ⟨s.nextAddr, val⟩).incStorageSize (strLength val + strLength key)

/-- Everything `add` can do from a state that satisfies the invariant. -/
inductive AddCase (env : Env) (s : DHashmap) (now : TimeType) (key val : Str) : DHashmap → Prop
  | noChanges {it : KeyType} (hit : it ∈ s.keys_.entries) (hkey : it.key_ = key)
      (hval : it.value_.item = val) : AddCase env s now key val s.allocate
  | replaceValue {it holder : KeyType} (hit : it ∈ s.keys_.entries) (hkey : it.key_ = key)
      (hval : it.value_.item ≠ val) (hholder : holder ∈ s.keys_.entries)
      (hfound : holder.value_.item = val) :
      AddCase env s now key val (s.replaceValue env now it holder.value_)
  | addKey {holder : KeyType} (habsent : ∀ e ∈ s.keys_.entries, e.key_ ≠ key)
      (hholder : holder ∈ s.keys_.entries) (hfound : holder.value_.item = val) :
      AddCase env s now key val (s.addKey env now key holder.value_)
  | refreshKey {it : KeyType} (hit : it ∈ s.keys_.entries) (hkey : it.key_ = key)
      (hnew : val ∉ s.heldValues) : AddCase env s now key val (s.refreshKey env now key val)
  | addPair (habsent : ∀ e ∈ s.keys_.entries, e.key_ ≠ key) (hnew : val ∉ s.heldValues) :
      AddCase env s now key val (s.addPair env now key val)

/-- The calls on the byte counter that `add` makes from a state that satisfies the invariant. -/
def addCalls (s : DHashmap) (key val : Str) : List CounterCall :=
  match s.keys_.find key with
  | none =>
      if val ∈ s.heldValues then [.inc key.length] else [.inc (val.length + key.length)]
  | some it =>
      if val ∈ s.heldValues then
        if it.value_.item ≠ val ∧ SoleHolder s it then
          [.dec s.storageSize (strLength it.value_.item)]
        else []
      else [.inc val.length]

/-- The inversion lemma of `add`: it never fails, does one of five things, and its calls on the
counter are known. -/
theorem addCounted_cases (hw : Interned env s) (now : TimeType) (key val : Str) :
    ∃ t, s.addCounted env now key val = .ok (t, s.addCalls key val) ∧
      AddCase env s now key val t := by
  have hduring := duringAdd_new s val
  have halive : Alive ((⟨s.nextAddr, val⟩ : MapItem) :: s.owners) (⟨s.nextAddr, val⟩ : MapItem) :=
    alive_of_mem List.mem_cons_self
  rcases findValue_spec hw hduring (x := ⟨⟨s.nextAddr, val⟩⟩) halive with
    ⟨hfind, hnew⟩ | ⟨n, hn, hfind, hlive, hitem⟩
  · change s.allocate.findValue env _ _ = _ at hfind
    change val ∉ s.heldValues at hnew
    have hinsert : ∀ t : DHashmap, t.values_ = s.values_ → _ := fun t ht =>
      insertValue_new hw hduring (x := ⟨⟨s.nextAddr, val⟩⟩) halive hnew ht
    cases hkey : s.keys_.find key with
    | none =>
      refine ⟨_, ?_, .addPair (MultiIndex.find_eq_none_iff.mp hkey) hnew⟩
      simp only [addCounted, addCalls, findKey_eq, allocate_keys_, hkey, allocate_owners, hfind,
        hinsert s.allocate rfl, hnew, if_false]
      rfl
    | some it =>
      obtain ⟨hit, rfl⟩ := MultiIndex.find_eq_some_iff.mp hkey
      refine ⟨_, ?_, .refreshKey hit rfl hnew⟩
      simp only [addCounted, addCalls, findKey_eq, allocate_keys_, hkey, allocate_owners, hfind,
        updateTtl_owners, hinsert (s.allocate.updateTtl now it.key_) rfl, hnew, if_false]
      rfl
  · change s.allocate.findValue env _ _ = _ at hfind
    obtain ⟨holder, hholder, htarget⟩ := hw.holder hn hlive
    have hlock : n.item.lock ((⟨s.nextAddr, val⟩ : MapItem) :: s.owners) = some holder.value_ :=
      lock_eq_some_iff.mpr ⟨hlive.mono hduring.keep, htarget.symm⟩
    have hfound : holder.value_.item = val := by rw [htarget, hitem]
    have hheld : val ∈ s.heldValues := mem_heldValues.mpr ⟨holder, hholder, hfound⟩
    cases hkey : s.keys_.find key with
    | none =>
      refine ⟨_, ?_, .addKey (MultiIndex.find_eq_none_iff.mp hkey) hholder hfound⟩
      simp only [addCounted, addCalls, findKey_eq, allocate_keys_, hkey, allocate_owners, hfind,
        hheld, if_true]
      simp only [bind, Except.bind, hlock]
      rfl
    | some it =>
      obtain ⟨hit, rfl⟩ := MultiIndex.find_eq_some_iff.mp hkey
      by_cases hsame : it.value_.addr = holder.value_.addr
      · have hval : it.value_.item = val :=
          (congrArg _ (hw.value_eq_of_addr hit hholder hsame)).trans hfound
        refine ⟨_, ?_, .noChanges hit rfl hval⟩
        simp only [addCounted, addCalls, findKey_eq, allocate_keys_, hkey, allocate_owners, hfind,
          hheld, hval, ne_eq, not_true_eq_false, false_and, if_true, if_false]
        simp only [bind, Except.bind, hlock, hsame, not_true_eq_false, if_false]
        rfl
      · have hval : it.value_.item ≠ val := fun hval =>
          hsame (congrArg _ (hw.value_eq hit hholder (hval.trans hfound.symm)))
        refine ⟨_, ?_, .replaceValue hit rfl hval hholder hfound⟩
        have hfresh : it.value_.addr ≠ (⟨s.nextAddr, val⟩ : MapItem).addr :=
          Nat.ne_of_lt (hw.keyAddr it hit)
        have hcount := useCount_eq_one_iff hit hsame hfresh
        have herase := eraseValue_of_key hw
          (hduring.cons (mem_owners.mpr ⟨holder, hholder, rfl⟩)) hit
          (t := s.allocate.decStorageSize (strLength it.value_.item)) rfl
        simp only [addCounted, addCalls, findKey_eq, allocate_keys_, hkey, allocate_owners, hfind,
          hheld, hval, ne_eq, not_false_eq_true, true_and, if_true]
        simp only [bind, Except.bind, hlock, hsame, not_false_eq_true, if_true, hcount]
        by_cases hsole : SoleHolder s it
        · simp only [hsole, if_true, herase, replaceValue]
          rfl
        · simp only [hsole, if_false, replaceValue]
          rfl

/-- `add` does one of five things. -/
theorem add_cases (hw : Interned env s) (now : TimeType) (key val : Str) :
    ∃ t, s.add env now key val = .ok t ∧ AddCase env s now key val t := by
  obtain ⟨t, hadd, hcase⟩ := addCounted_cases hw now key val
  exact ⟨t, by rw [← addCounted_fst, hadd]; rfl, hcase⟩

/-! ## `get` -/

/-- `++gets_`. -/
def countGet (s : DHashmap) : DHashmap := { s with gets_ := s.gets_ + 1 }

/-- `++updates_`. -/
def countUpdate (s : DHashmap) : DHashmap := { s with updates_ := s.updates_ + 1 }

/-- Everything `get` can do from a state that satisfies the invariant. -/
inductive GetCase (env : Env) (s : DHashmap) (now refresh : TimeType) (_key val : Str) :
    DHashmap × GetResult → Prop
  | missing (habsent : ∀ e ∈ s.keys_.entries, e.key_ ≠ env.normalize _key) :
      GetCase env s now refresh _key val (s.countGet, ⟨false, val, env.normalize _key⟩)
  | fresh {it : KeyType} (hit : it ∈ s.keys_.entries) (hkey : it.key_ = env.normalize _key)
      (hfresh : now < it.ttl_ + s.ttl_) :
      GetCase env s now refresh _key val
        (s.countGet.updateTtl refresh it.key_, ⟨true, it.value_.item, env.normalize _key⟩)
  | stale {it : KeyType} (hit : it ∈ s.keys_.entries) (hkey : it.key_ = env.normalize _key)
      (hstale : it.ttl_ + s.ttl_ ≤ now) :
      GetCase env s now refresh _key val
        (s.countGet.countUpdate, ⟨false, it.value_.item, env.normalize _key⟩)

/-- The inversion lemma of `get`: it never fails, and does one of three things. -/
theorem get_cases (hw : Interned env s) (now refresh : TimeType) (_key val : Str) :
    ∃ r, s.get env now refresh _key val = .ok r ∧ GetCase env s now refresh _key val r := by
  cases hkey : s.keys_.find (env.normalize _key) with
  | none =>
    refine ⟨_, ?_, .missing (MultiIndex.find_eq_none_iff.mp hkey)⟩
    simp only [get, findKey_eq, hkey]
    rfl
  | some it =>
    obtain ⟨hit, heq⟩ := MultiIndex.find_eq_some_iff.mp hkey
    obtain ⟨n, -, hfind, -⟩ := findValue_of_key hw hit
    change s.countGet.findValue env s.countGet.owners _ = _ at hfind
    by_cases hfresh : now < it.ttl_ + s.ttl_
    · refine ⟨_, ?_, .fresh hit heq hfresh⟩
      simp only [get, findKey_eq, hkey]
      change (s.countGet.findValue env s.countGet.owners _ >>= _) = _
      rw [hfind]
      simp only [bind, Except.bind, hfresh, if_true]
      rfl
    · refine ⟨_, ?_, .stale hit heq (Nat.not_lt.mp hfresh)⟩
      simp only [get, findKey_eq, hkey]
      change (s.countGet.findValue env s.countGet.owners _ >>= _) = _
      rw [hfind]
      simp only [bind, Except.bind, hfresh, if_false]
      rfl

/-! ## `expirate` -/

/-- How many keys `expirate` erases. -/
def expirateCount (s : DHashmap) (expirateSize : UInt64) : Nat :=
  (expirateLoop expirateSize s.keys_.entries 0).1

/-- The bytes `expirate` counts for them. -/
def expirateBytes (s : DHashmap) (expirateSize : UInt64) : UInt64 :=
  (expirateLoop expirateSize s.keys_.entries 0).2

/-- `expirate` of a positive size removes at least one key. -/
theorem expirateCount_pos {n : UInt64} (hn : 0 < n) (hs : s.keys_.entries ≠ []) :
    0 < s.expirateCount n := by
  unfold expirateCount
  cases hl : s.keys_.entries with
  | nil => exact absurd hl hs
  | cons e l =>
    unfold expirateLoop
    rw [if_pos hn]
    exact Nat.succ_pos _

/-- The sweep keeps the references that are live after the keys are gone. -/
theorem expirate_values_ (s : DHashmap) (n : UInt64) :
    (s.expirate n).values_ = s.values_.filter (fun m => Live (s.expirate n) m.item) := by
  refine List.filter_congr (fun m _ => ?_)
  change (m.item.lock (s.expirate n).owners).isSome = _
  by_cases h : Live (s.expirate n) m.item
  · rw [lock_eq_some_iff.mpr ⟨h, rfl⟩]
    simp [h]
  · rw [lock_eq_none_iff.mpr h]
    simp [h]

end Swordfish.DHashmap
