import Swordfish.DHashmap.Dangling

/-!
# The table of values grows

`boost::unordered_set` takes more buckets when an insertion would go past its load factor, and then
asks `dhm_hash` (`dhashmap.hpp:79-96`) for the hash of every stored entry. On an entry whose object
is gone this aborts the process. When the table grows is its own matter, so that here the call
says it (`grows`); an implementation that keeps the hashes in its nodes never asks.
-/

namespace Swordfish.DHashmap
open SharedPtr

variable {env : Env} {s t : DHashmap} {now : TimeType} {key val : Str}

/-- The rehash of `values_` while `owners` are the shared pointers of the process. -/
def rehashValues (env : Env) (s : DHashmap) (owners : List MapItem) : Except Failure DHashmap := do
  let values ← s.values_.rehash (dhmHash env owners)
  return { s with values_ := values }

/-- `values_.insert(x)`; a new element makes the table grow when `grows` says so. -/
def insertValueGrowing (env : Env) (s : DHashmap) (owners : List MapItem) (x : SetItem)
    (grows : Bool) : Except Failure DHashmap := do
  match ← s.findValue env owners x with
  | some _ => return s
  | none =>
      let s ← if grows then s.rehashValues env owners else pure s
      s.insertValue env owners x

/-- `DHashmap::add` (`dhashmap.cpp:155-227`) on a table that grows. -/
def addGrowing (env : Env) (s : DHashmap) (now : TimeType) (key val : Str) (grows : Bool) :
    Except Failure DHashmap := do
  let newItem : MapItem := ⟨s.nextAddr, val⟩
  let s := s.allocate
  match ← s.findValue env (newItem :: s.owners) ⟨newItem⟩ with
  | some inSet =>
      match inSet.item.lock (newItem :: s.owners) with
      | some found =>
          match s.findKey env key with
          | some it =>
              if it.value_.addr ≠ found.addr then
                let owners := found :: newItem :: s.owners
                let s ←
                  if useCount owners it.value_ = 1 then
                    (s.decStorageSize (strLength it.value_.item)).eraseValue env owners ⟨it.value_⟩
                  else pure s
                let s := { s with keys_ := s.keys_.erase it.key_ }
                return s.insertKey env now key found
              else return s
          | none => return (s.insertKey env now key found).incStorageSize (strLength key)
      | none => throw .nullFound
  | none =>
      match s.findKey env key with
      | some it =>
          let s := s.updateTtl now it.key_
          let s ← s.insertValueGrowing env (newItem :: s.owners) ⟨newItem⟩ grows
          return s.incStorageSize (strLength newItem.item)
      | none =>
          let s ← s.insertValueGrowing env (newItem :: s.owners) ⟨newItem⟩ grows
          let s := s.insertKey env now key newItem
          return s.incStorageSize (strLength newItem.item + strLength key)

instance (s : DHashmap) : Decidable (AllLive s) :=
  inferInstanceAs (Decidable (∀ n ∈ s.values_, Live s n.item))

/-! ## The rehash -/

theorem dhmHash_of_dead {owners : List MapItem} {x : SetItem} (h : ¬ Alive owners x.target) :
    dhmHash env owners x = .error .expiredHash := by
  simp only [dhmHash, lock_eq_none_iff.mpr h]

/-- During an `add` the rehash changes nothing, or stops at a reference whose object is gone. -/
theorem rehashValues_eq (hw : Interned env s) {owners : List MapItem} (h : DuringAdd s owners)
    (ht : t.values_ = s.values_) :
    t.rehashValues env owners = if AllLive s then .ok t else .error .expiredHash := by
  have hhash : ∀ n ∈ s.values_, Live s n.item → dhmHash env owners n.item = .ok n.hash := by
    intro n hn hlive
    rw [dhmHash_of_alive ((h.alive_iff hw hn).mpr hlive), hw.hashed n hn]
  have hdead : ∀ n ∈ s.values_, ¬ Live s n.item →
      dhmHash env owners n.item = .error .expiredHash :=
    fun n hn hdead => dhmHash_of_dead (fun halive => hdead ((h.alive_iff hw hn).mp halive))
  rw [rehashValues, ht]
  by_cases hlive : AllLive s
  · rw [if_pos hlive, UnorderedSet.rehash_eq_self (fun n hn => hhash n hn (hlive n hn)), ← ht]
    rfl
  · have hbad : ∃ n ∈ s.values_, ¬ Live s n.item := by
      simpa only [AllLive, not_forall, exists_prop] using hlive
    obtain ⟨m, hm, hmdead⟩ := hbad
    have herror : s.values_.rehash (dhmHash env owners) = .error .expiredHash := by
      refine UnorderedSet.rehash_eq_error (fun n hn => ?_) ⟨m, hm, hdead m hm hmdead⟩
      by_cases hn' : Live s n.item
      · exact Or.inl (hhash n hn hn')
      · exact Or.inr (hdead n hn hn')
    rw [if_neg hlive, herror]
    rfl

/-- A new value is registered, unless the table grows over a dead reference. -/
theorem insertValueGrowing_new (hw : Interned env s) {owners : List MapItem}
    (h : DuringAdd s owners) {x : SetItem} (hx : Alive owners x.target)
    (hv : x.target.item ∉ s.heldValues) (ht : t.values_ = s.values_) (grows : Bool) :
    t.insertValueGrowing env owners x grows =
      if grows = true ∧ ¬ AllLive s then .error .expiredHash else t.insertValue env owners x := by
  have hfind : t.findValue env owners x = .ok none := by
    rcases findValue_spec hw h hx with ⟨hfind, -⟩ | ⟨n, hn, -, hlive, hitem⟩
    · rw [findValue_of_alive hx] at hfind ⊢
      rw [ht, hfind]
    · obtain ⟨e, he, heq⟩ := hw.holder hn hlive
      exact absurd (mem_heldValues.mpr ⟨e, he, by rw [heq, hitem]⟩) hv
  rw [insertValueGrowing, hfind]
  simp only [bind, Except.bind]
  cases grows with
  | false => simp [pure, Except.pure]
  | true =>
    simp only [if_true, true_and, rehashValues_eq hw h ht]
    by_cases hlive : AllLive s <;> simp [hlive]

/-- `add` on a table that grows is `add`, unless the value is new and some reference dangles: then
the process is aborted. -/
theorem addGrowing_eq (hw : Interned env s) (now : TimeType) (key val : Str) (grows : Bool) :
    s.addGrowing env now key val grows =
      if grows = true ∧ val ∉ s.heldValues ∧ ¬ AllLive s then .error .expiredHash
      else s.add env now key val := by
  have hduring := duringAdd_new s val
  have halive : Alive ((⟨s.nextAddr, val⟩ : MapItem) :: s.owners) (⟨s.nextAddr, val⟩ : MapItem) :=
    alive_of_mem List.mem_cons_self
  rcases findValue_spec hw hduring (x := ⟨⟨s.nextAddr, val⟩⟩) halive with
    ⟨hfind, hnew⟩ | ⟨n, hn, hfind, hlive, hitem⟩
  · change s.allocate.findValue env _ _ = _ at hfind
    change val ∉ s.heldValues at hnew
    have hinsert : ∀ t : DHashmap, t.values_ = s.values_ → _ := fun t ht =>
      insertValueGrowing_new hw hduring (x := ⟨⟨s.nextAddr, val⟩⟩) halive hnew ht grows
    cases hkey : s.keys_.find key with
    | none =>
      simp only [addGrowing, add, findKey_eq, allocate_keys_, hkey, allocate_owners, hfind,
        hinsert s.allocate rfl, hnew, not_false_eq_true, true_and]
      split <;> rfl
    | some it =>
      simp only [addGrowing, add, findKey_eq, allocate_keys_, hkey, allocate_owners, hfind,
        updateTtl_owners, hinsert (s.allocate.updateTtl now it.key_) rfl, hnew, not_false_eq_true,
        true_and]
      split <;> rfl
  · change s.allocate.findValue env _ _ = _ at hfind
    obtain ⟨e, he, heq⟩ := hw.holder hn hlive
    have hheld : val ∈ s.heldValues := mem_heldValues.mpr ⟨e, he, by rw [heq, hitem]⟩
    simp only [addGrowing, add, allocate_owners, hfind, hheld, not_true_eq_false, false_and,
      and_false, if_false]
    rfl

end Swordfish.DHashmap
