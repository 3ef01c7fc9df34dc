import Swordfish.DHashmap.Accounting
import Swordfish.DHashmap.Rehash
import Swordfish.Lib.Simulation

/-!
# The store without pointers and hashes

What the store is for, with its mechanism taken away: a cache whose entries hold their values
themselves. There is no object, no reference, no hash and no table of values. What shows of them
are the references that were left dangling, and of these only how many they are: the count is part
of `get_values_size`, and a table that grows while it is not zero aborts the process. The store is
this cache exactly, over every sequence of calls, in everything that they return and in the call
at which the process stops.
-/

namespace Swordfish

/-- A key of the cache with its value and the time of its last `update_ttl`. -/
structure Cache.Entry where
  key : Str
  ttl : TimeType
  value : Str
  deriving DecidableEq, Repr

/-- The cache. `adds` counts the calls of `add`, and `dangling` the references that were left
without an object since the last `expirate`. -/
@[ext] structure Cache where
  ttl_ : Nat
  entries : MultiIndex Cache.Entry.key
  dangling : Nat
  adds : Nat
  deleted : UInt32
  gets : UInt32
  updates : UInt32
  storageSize : UInt64

namespace Cache

/-- The cache without entries. -/
def init (ttl : Nat) : Cache :=
  { ttl_ := ttl
    entries := .empty
    dangling := 0
    adds := 0
    deleted := 0
    gets := 0
    updates := 0
    storageSize := 0 }

/-- The distinct values of a list of entries. -/
def valuesOf (l : List Entry) : Finset Str := (l.map (·.value)).toFinset

/-- `keys_.insert` of a new entry at time `now`. -/
def insert (rule : MultiIndex.LinkRule TimeType) (c : Cache) (now : TimeType) (key val : Str) :
    Cache :=
  let place := rule.place c.adds (c.entries.entries.map (·.ttl)) now
  { c with entries := c.entries.insertAt place { key := key, ttl := now, value := val } }

/-- `update_ttl` on an entry. -/
def Entry.updateTtl (now : TimeType) (e : Entry) : Entry := { e with ttl := now }

/-- `update_ttl` on the entry of a key. -/
def updateTtl (c : Cache) (now : TimeType) (key : Str) : Cache :=
  { c with entries := c.entries.write key (Entry.updateTtl now) (fun _ => rfl) }

/-- `get`: the value of a fresh entry, or that of a stale one with the answer `false`. -/
def get (normalize : Str → Str) (c : Cache) (now refresh : TimeType) (_key val : Str) :
    Cache × DHashmap.GetResult :=
  let key := normalize _key
  let c := { c with gets := c.gets + 1 }
  match c.entries.find key with
  | some e =>
      if now < e.ttl + c.ttl_ then (c.updateTtl refresh key, ⟨true, e.value, key⟩)
      else ({ c with updates := c.updates + 1 }, ⟨false, e.value, key⟩)
  | none => (c, ⟨false, val, key⟩)

/-- `add`. A stored key takes a new value when another key holds it; otherwise it keeps the old
one, is stamped, and a dangling reference stays behind. -/
def add (rule : MultiIndex.LinkRule TimeType) (c : Cache) (now : TimeType) (key val : Str) :
    Cache :=
  let held := val ∈ valuesOf c.entries.entries
  let c := { c with adds := c.adds + 1 }
  match c.entries.find key with
  | some e =>
      if e.value = val then c
      else if held then
        let rest := c.entries.erase key
        let freed := if e.value ∈ valuesOf rest.entries then 0 else strLength e.value
        insert rule { c with entries := rest, storageSize := c.storageSize - freed } now key val
      else
        let c := c.updateTtl now key
        { c with dangling := c.dangling + 1, storageSize := c.storageSize + strLength val }
  | none =>
      let c := insert rule c now key val
      let bytes := if held then strLength key else strLength val + strLength key
      { c with storageSize := c.storageSize + bytes }

/-- The entries that `expirate` erases, counted, and their bytes. -/
def sweep (expirateSize : UInt64) : List Entry → UInt64 → Nat × UInt64
  | [], bytes => (0, bytes)
  | e :: rest, bytes =>
      if bytes < expirateSize then
        let value := if e.value ∈ valuesOf rest then 0 else e.value.length
        let (erased, bytes) :=
          sweep expirateSize rest (bytes + UInt64.ofNat (e.key.length + value))
        (erased + 1, bytes)
      else (0, bytes)

/-- `expirate`. -/
def expirate (c : Cache) (expirateSize : UInt64) : Cache :=
  let (erased, bytes) := sweep expirateSize c.entries.entries 0
  { c with
    entries := c.entries.drop erased
    deleted := c.deleted + UInt32.ofNat erased
    storageSize := c.storageSize - bytes
    dangling := 0 }

/-- `get_values_size`: the distinct values, and the references that dangle. -/
def getValuesSize (c : Cache) : UInt32 :=
  UInt32.ofNat ((valuesOf c.entries.entries).card + c.dangling)

/-- `get_keys_size`. -/
def getKeysSize (c : Cache) : UInt32 := UInt32.ofNat c.entries.entries.length

end Cache

/-! ## The calls of both, with their results -/

namespace DHashmap

/-- `get_keys_size`. -/
def getKeysSize (s : DHashmap) : UInt32 := UInt32.ofNat s.keys_.entries.length

/-- A call of a member function of `DHashmap`. With an `add` goes whether the table of values has
to grow for a new element. -/
inductive Call where
  | add (now : TimeType) (key val : Str) (grows : Bool)
  | get (now refresh : TimeType) (key val : Str)
  | expirate (expirateSize : UInt64)
  | getStorageSize
  | getKeysSize
  | getValuesSize
  | getDeleted
  | getGets
  | getUpdates
  deriving DecidableEq, Repr

/-- What a call returns: the `true` of `add`, the result of `get` with its out-parameters, or a
number. -/
inductive Reply where
  | added
  | got (result : GetResult)
  | number (n : UInt32)
  deriving DecidableEq, Repr

/-- One call on the store; the replies so far are on the side. -/
def reply (env : Env) (r : DHashmap × List Reply) : Call → Except Failure (DHashmap × List Reply)
  | .add now key val grows =>
      (r.1.addGrowing env now key val grows).map (fun s => (s, r.2 ++ [.added]))
  | .get now refresh key val =>
      (r.1.get env now refresh key val).map (fun q => (q.1, r.2 ++ [.got q.2]))
  | .expirate expirateSize =>
      let s := r.1.expirate expirateSize
      .ok (s, r.2 ++ [.number s.deleted_])
  | .getStorageSize => .ok (r.1, r.2 ++ [.number r.1.getStorageSize])
  | .getKeysSize => .ok (r.1, r.2 ++ [.number r.1.getKeysSize])
  | .getValuesSize => .ok (r.1, r.2 ++ [.number r.1.getValuesSize])
  | .getDeleted => .ok (r.1.getDeleted.1, r.2 ++ [.number r.1.getDeleted.2])
  | .getGets => .ok (r.1.getGets.1, r.2 ++ [.number r.1.getGets.2])
  | .getUpdates => .ok (r.1.getUpdates.1, r.2 ++ [.number r.1.getUpdates.2])

end DHashmap

/-- The same call on the cache. The process stops when the table grows for a new value while a
reference dangles. -/
def Cache.reply (normalize : Str → Str) (rule : MultiIndex.LinkRule TimeType)
    (r : Cache × List DHashmap.Reply) :
    DHashmap.Call → Except Failure (Cache × List DHashmap.Reply)
  | .add now key val grows =>
      if grows = true ∧ val ∉ valuesOf r.1.entries.entries ∧ r.1.dangling ≠ 0 then
        .error .expiredHash
      else .ok (r.1.add rule now key val, r.2 ++ [.added])
  | .get now refresh key val =>
      let q := r.1.get normalize now refresh key val
      .ok (q.1, r.2 ++ [.got q.2])
  | .expirate expirateSize =>
      let c := r.1.expirate expirateSize
      .ok (c, r.2 ++ [.number c.deleted])
  | .getStorageSize => .ok (r.1, r.2 ++ [.number r.1.storageSize.toUInt32])
  | .getKeysSize => .ok (r.1, r.2 ++ [.number r.1.getKeysSize])
  | .getValuesSize => .ok (r.1, r.2 ++ [.number r.1.getValuesSize])
  | .getDeleted => .ok ({ r.1 with deleted := 0 }, r.2 ++ [.number r.1.deleted])
  | .getGets => .ok ({ r.1 with gets := 0 }, r.2 ++ [.number r.1.gets])
  | .getUpdates => .ok ({ r.1 with updates := 0 }, r.2 ++ [.number r.1.updates])

/-! ## What the store is, as a cache -/

/-- An entry as the cache has it. -/
def KeyType.toEntry (e : KeyType) : Cache.Entry :=
  { key := e.key_, ttl := e.ttl_, value := e.value_.item }

theorem KeyType.toEntry_key (e : KeyType) : e.toEntry.key = e.key_ := rfl

namespace DHashmap
open SharedPtr

variable {env : Env} {s t : DHashmap} {now refresh : TimeType} {key val : Str}

/-- The references in `values_` whose object is gone. -/
def danglingCount (s : DHashmap) : Nat := s.values_.countP (fun n => ¬ Live s n.item)

/-- The store without its pointers and hashes. -/
def toCache (s : DHashmap) : Cache :=
  { ttl_ := s.ttl_
    entries := s.keys_.map KeyType.toEntry KeyType.toEntry_key
    dangling := s.danglingCount
    adds := s.nextAddr
    deleted := s.deleted_
    gets := s.gets_
    updates := s.updates_
    storageSize := s.storageSize }

theorem valuesOf_toEntry (l : List KeyType) :
    Cache.valuesOf (l.map KeyType.toEntry) = valuesOf l := by
  rw [Cache.valuesOf, valuesOf, List.map_map]
  rfl

theorem toCache_find (s : DHashmap) (key : Str) :
    s.toCache.entries.find key = (s.keys_.find key).map KeyType.toEntry :=
  MultiIndex.map_find KeyType.toEntry_key s.keys_ key

/-! ## The references that dangle -/

theorem danglingCount_eq_zero_iff (s : DHashmap) : s.danglingCount = 0 ↔ AllLive s := by
  simp [danglingCount, List.countP_eq_zero, AllLive]

/-- The live references are as many as the distinct values. -/
theorem length_values_ (hw : Interned env s) :
    s.values_.length = s.heldValues.card + s.danglingCount := by
  have hlive : ∀ e ∈ s.keys_.entries, ∃ n ∈ s.values_.filter (fun n => Live s n.item),
      n.item.target = e.value_ := by
    intro e he
    obtain ⟨n, hn, htarget⟩ := hw.registered e he
    exact ⟨n, List.mem_filter.mpr ⟨hn, decide_eq_true (Interned.live_of_target he htarget)⟩,
      htarget⟩
  have hkept : Interned env { s with values_ := s.values_.filter (fun n => Live s n.item) } :=
    hw.of_sub (Nat.le_refl _) (fun _ hp => hp) List.filter_sublist hlive
  have hcard := card_heldValues hkept (fun n hn => of_decide_eq_true (List.mem_filter.mp hn).2)
  have hsplit : s.values_.length =
      s.values_.countP (fun n => Live s n.item) + s.values_.countP (fun n => ¬ Live s n.item) := by
    simpa using List.length_eq_countP_add_countP (l := s.values_) (fun n => Live s n.item)
  rw [hsplit, danglingCount, List.countP_eq_length_filter]
  exact congrArg (· + _) hcard.symm

/-- A change that leaves the same references dead leaves as many of them. -/
theorem danglingCount_eq_of_live_iff (hvalues : t.values_ = s.values_)
    (hlive : ∀ n ∈ s.values_, Live t n.item ↔ Live s n.item) :
    t.danglingCount = s.danglingCount := by
  rw [danglingCount, danglingCount, hvalues]
  apply List.countP_congr
  intro n hn
  simp [hlive n hn]

/-- After a key has taken another value, the references that were dead are the ones that are
there and dead. -/
theorem dead_replaceValue_iff (hw : Interned env s) {it holder : KeyType}
    (hit : it ∈ s.keys_.entries) (hholder : holder ∈ s.keys_.entries)
    {n : UnorderedSet.Node UInt64 SetItem} (hn : n ∈ s.values_) :
    (¬ Live (s.replaceValue env now it holder.value_) n.item ∧
      ¬ (SoleHolder s it ∧ n.item.target = it.value_)) ↔ ¬ Live s n.item := by
  constructor
  · rintro ⟨hdead, hkept⟩ hlive
    obtain ⟨e, he, heq⟩ := hw.holder hn hlive
    by_cases hkey : e.key_ = it.key_
    · obtain rfl := MultiIndex.eq_of_key_eq he hit hkey
      by_cases hsole : SoleHolder s e
      · exact hkept ⟨hsole, heq.symm⟩
      · simp only [SoleHolder, not_forall, not_not] at hsole
        obtain ⟨e', he', hne, haddr⟩ := hsole
        exact hdead (live_iff.mpr ⟨e', mem_replaceValue.mpr (Or.inr ⟨he', hne⟩), by
          rw [haddr, heq]⟩)
    · exact hdead (live_iff.mpr ⟨e, mem_replaceValue.mpr (Or.inr ⟨he, hkey⟩), by rw [heq]⟩)
  · intro hdead
    refine ⟨fun hlive => hdead ?_, fun hgone => hdead (Interned.live_of_target hit hgone.2)⟩
    obtain ⟨e, he, haddr⟩ := live_iff.mp hlive
    rcases mem_replaceValue.mp he with rfl | ⟨he, -⟩
    · exact live_iff.mpr ⟨holder, hholder, haddr⟩
    · exact live_iff.mpr ⟨e, he, haddr⟩

theorem danglingCount_replaceValue (hw : Interned env s) {it holder : KeyType}
    (hit : it ∈ s.keys_.entries) (hholder : holder ∈ s.keys_.entries) :
    (s.replaceValue env now it holder.value_).danglingCount = s.danglingCount := by
  rw [danglingCount, danglingCount, replaceValue_values_]
  have hdead : ∀ n ∈ s.values_,
      (¬ Live (s.replaceValue env now it holder.value_) n.item ∧
        ¬ (SoleHolder s it ∧ n.item.target = it.value_)) ↔ ¬ Live s n.item :=
    fun n hn => dead_replaceValue_iff hw hit hholder hn
  by_cases hsole : SoleHolder s it
  · rw [if_pos hsole, List.countP_filter]
    apply List.countP_congr
    intro n hn
    simp only [← hdead n hn, hsole, true_and, Bool.and_eq_true, decide_eq_true_eq, ne_eq]
  · rw [if_neg hsole]
    apply List.countP_congr
    intro n hn
    simp only [← hdead n hn, hsole, false_and, not_false_eq_true, and_true]

theorem danglingCount_refreshKey (hw : Interned env s) (now : TimeType) (key val : Str) :
    (s.refreshKey env now key val).danglingCount = s.danglingCount + 1 := by
  have howners : (s.refreshKey env now key val).owners = s.owners := updateTtl_owners _ _ _
  have hlive : ∀ x, Live (s.refreshKey env now key val) x ↔ Live s x := by
    intro x
    rw [Live, howners, Live]
  have hnew : ¬ Live s ⟨⟨s.nextAddr, val⟩⟩ := hw.not_alive_new val
  change (s.values_ ++ [_]).countP _ = _
  rw [List.countP_append, danglingCount]
  simp [hlive, hnew]

theorem danglingCount_addPair (hw : Interned env s)
    (habsent : ∀ e ∈ s.keys_.entries, e.key_ ≠ key) :
    (s.addPair env now key val).danglingCount = s.danglingCount := by
  have hlast : Live (s.addPair env now key val) ⟨⟨s.nextAddr, val⟩⟩ :=
    live_iff.mpr ⟨_, (mem_addPair habsent).mpr (Or.inl rfl), rfl⟩
  have hlive : ∀ n ∈ s.values_, Live (s.addPair env now key val) n.item ↔ Live s n.item := by
    intro n hn
    simp only [live_iff, mem_addPair habsent]
    constructor
    · rintro ⟨e, rfl | he, haddr⟩
      · exact absurd haddr.symm (Nat.ne_of_lt (hw.valueAddr n hn))
      · exact ⟨e, he, haddr⟩
    · rintro ⟨e, he, haddr⟩
      exact ⟨e, Or.inr he, haddr⟩
  change (s.values_ ++ [_]).countP _ = _
  rw [List.countP_append, danglingCount]
  simp only [List.countP_singleton, hlast, not_true_eq_false, decide_false, Bool.false_eq_true,
    if_false, Nat.add_zero]
  apply List.countP_congr
  intro n hn
  simp [hlive n hn]

theorem danglingCount_expirate (s : DHashmap) (n : UInt64) : (s.expirate n).danglingCount = 0 := by
  rw [danglingCount, expirate_values_, List.countP_filter, List.countP_eq_zero]
  intro m _
  simp

/-! ## The operations, one by one -/

theorem map_ttl_toEntry (l : List KeyType) :
    (l.map KeyType.toEntry).map Cache.Entry.ttl = l.map KeyType.ttl_ := by
  rw [List.map_map]
  rfl

/-- A new entry is linked at the same place. -/
theorem toCache_insertKey (s : DHashmap) (now : TimeType) (key : Str) (value : MapItem) :
    (s.insertKey env now key value).toCache.entries =
      (Cache.insert env.ttlIndex s.toCache now key value.item).entries := by
  have hplace : (s.toCache.entries.entries.map Cache.Entry.ttl) =
      s.keys_.entries.map KeyType.ttl_ := map_ttl_toEntry s.keys_.entries
  rw [Cache.insert, hplace]
  exact MultiIndex.map_insertAt KeyType.toEntry_key s.keys_ _ _

theorem toCache_updateTtl (s : DHashmap) (now : TimeType) (key : Str) :
    (s.updateTtl now key).toCache = s.toCache.updateTtl now key := by
  apply Cache.ext
  case entries =>
    have hstamp : ∀ e : KeyType, (e.updateTtl now).toEntry = e.toEntry.updateTtl now :=
      fun _ => rfl
    exact MultiIndex.map_write_image KeyType.toEntry_key hstamp (fun _ => rfl) (fun _ => rfl)
      s.keys_ key
  case dangling =>
    refine danglingCount_eq_of_live_iff rfl ?_
    intro n _
    rw [Live, updateTtl_owners, Live]
  all_goals rfl

/-- The five effects of `add`, in the cache. -/
theorem AddCase.toCache (hw : Interned env s) (h : AddCase env s now key val t) :
    t.toCache = s.toCache.add env.ttlIndex now key val := by
  have hheld : val ∈ Cache.valuesOf s.toCache.entries.entries ↔ val ∈ s.heldValues := by
    rw [DHashmap.toCache, MultiIndex.map, valuesOf_toEntry]
    exact Iff.rfl
  cases h with
  | @noChanges it hit hkey hval =>
    have hfind : s.keys_.find key = some it := MultiIndex.find_eq_some_iff.mpr ⟨hit, hkey⟩
    have hsame : it.toEntry.value = val := hval
    simp only [Cache.add, toCache_find, hfind, Option.map_some, hsame, if_true]
    rfl
  | @replaceValue it holder hit hkey hval hholder hfound =>
    subst hkey hfound
    have hfind : s.keys_.find it.key_ = some it := MultiIndex.find_eq_some_iff.mpr ⟨hit, rfl⟩
    have hother : it.toEntry.value ≠ holder.value_.item := hval
    have hmem : holder.value_.item ∈ s.heldValues := mem_heldValues.mpr ⟨holder, hholder, rfl⟩
    have hrest : s.toCache.entries.erase it.key_ =
        (s.keys_.erase it.key_).map KeyType.toEntry KeyType.toEntry_key :=
      (MultiIndex.map_erase KeyType.toEntry_key s.keys_ it.key_).symm
    have hsole : it.toEntry.value ∈ Cache.valuesOf (s.toCache.entries.erase it.key_).entries ↔
        ¬ SoleHolder s it := by
      rw [hrest, MultiIndex.map, valuesOf_toEntry, soleHolder_iff hw hit, not_not]
      exact Iff.rfl
    simp only [Cache.add, toCache_find, hfind, Option.map_some, hother, if_false, hheld, hmem,
      if_true, hsole]
    apply Cache.ext
    case entries =>
      rw [hrest]
      exact toCache_insertKey { s.allocate with keys_ := s.keys_.erase it.key_ } now it.key_
        holder.value_
    case dangling => exact danglingCount_replaceValue hw hit hholder
    case storageSize =>
      change (if SoleHolder s it then _ else _) = s.storageSize - if ¬ SoleHolder s it then _ else _
      by_cases h : SoleHolder s it
      · rw [if_pos h, if_neg (not_not.mpr h)]
        rfl
      · rw [if_neg h, if_pos h, UInt64.sub_zero]
    all_goals rfl
  | @addKey holder habsent hholder hfound =>
    subst hfound
    have hfind : s.keys_.find key = none := MultiIndex.find_eq_none_iff.mpr habsent
    have hmem : holder.value_.item ∈ s.heldValues := mem_heldValues.mpr ⟨holder, hholder, rfl⟩
    simp only [Cache.add, toCache_find, hfind, Option.map_none, hheld, hmem, if_true]
    apply Cache.ext
    case entries => exact toCache_insertKey s.allocate now key holder.value_
    case dangling =>
      refine danglingCount_eq_of_live_iff rfl ?_
      intro n _
      simp only [live_iff, mem_addKey habsent]
      constructor
      · rintro ⟨e, rfl | he, haddr⟩
        · exact ⟨holder, hholder, haddr⟩
        · exact ⟨e, he, haddr⟩
      · rintro ⟨e, he, haddr⟩
        exact ⟨e, Or.inr he, haddr⟩
    all_goals rfl
  | @refreshKey it hit hkey hnew =>
    subst hkey
    have hfind : s.keys_.find it.key_ = some it := MultiIndex.find_eq_some_iff.mpr ⟨hit, rfl⟩
    have hother : it.toEntry.value ≠ val := fun h => hnew (mem_heldValues.mpr ⟨it, hit, h⟩)
    simp only [Cache.add, toCache_find, hfind, Option.map_some, hother, if_false, hheld, hnew]
    apply Cache.ext
    case entries =>
      have hstamp := congrArg Cache.entries (toCache_updateTtl s.allocate now it.key_)
      exact hstamp
    case dangling => exact danglingCount_refreshKey hw now it.key_ val
    all_goals rfl
  | addPair habsent hnew =>
    have hfind : s.keys_.find key = none := MultiIndex.find_eq_none_iff.mpr habsent
    simp only [Cache.add, toCache_find, hfind, Option.map_none, hheld, hnew, if_false]
    apply Cache.ext
    case entries => exact toCache_insertKey s.allocate now key ⟨s.nextAddr, val⟩
    case dangling => exact danglingCount_addPair hw habsent
    all_goals rfl

theorem GetCase.toCache {_key : Str} {r : DHashmap × GetResult}
    (h : GetCase env s now refresh _key val r) :
    (r.1.toCache, r.2) = s.toCache.get env.normalize now refresh _key val := by
  cases h with
  | missing habsent =>
    have hfind := MultiIndex.find_eq_none_iff.mpr habsent
    simp only [Cache.get, toCache_find, hfind, Option.map_none]
    rfl
  | @fresh it hit hkey hfresh =>
    have hfind := MultiIndex.find_eq_some_iff.mpr ⟨hit, hkey⟩
    have hnow : now < it.toEntry.ttl + s.toCache.ttl_ := hfresh
    simp only [Cache.get, toCache_find, hfind, Option.map_some, hnow, if_true, hkey,
      toCache_updateTtl]
    rfl
  | @stale it hit hkey hstale =>
    have hfind := MultiIndex.find_eq_some_iff.mpr ⟨hit, hkey⟩
    have hnow : ¬ now < it.toEntry.ttl + s.toCache.ttl_ := Nat.not_lt.mpr hstale
    simp only [Cache.get, toCache_find, hfind, Option.map_some, hnow, if_false]
    rfl

/-- The loop of `expirate` erases as many entries in the cache, and counts the same bytes. -/
theorem expirateLoop_toEntry (n : UInt64) {l : List KeyType} (hl : ShareByValue l)
    (deletedBytes : UInt64) :
    expirateLoop n l deletedBytes = Cache.sweep n (l.map KeyType.toEntry) deletedBytes := by
  induction l generalizing deletedBytes with
  | nil => rfl
  | cons e l ih =>
    rw [List.map_cons, Cache.sweep]
    by_cases hless : deletedBytes < n
    · rw [expirateLoop_cons hl hless, if_pos hless, valuesOf_toEntry, ih hl.tail]
      rfl
    · rw [expirateLoop, if_neg hless, if_neg hless]

theorem toCache_expirate (hw : Interned env s) (n : UInt64) :
    (s.expirate n).toCache = s.toCache.expirate n := by
  have hloop := expirateLoop_toEntry n hw.shareByValue 0
  apply Cache.ext
  case dangling => exact danglingCount_expirate s n
  case entries =>
    exact (congrArg (fun q => (s.keys_.drop q.1).map KeyType.toEntry KeyType.toEntry_key)
      hloop).trans (MultiIndex.map_drop KeyType.toEntry_key s.keys_ _)
  case deleted => exact congrArg (fun q => s.deleted_ + UInt32.ofNat q.1) hloop
  case storageSize => exact congrArg (fun q => s.storageSize - q.2) hloop
  all_goals rfl

theorem toCache_getKeysSize (s : DHashmap) : s.toCache.getKeysSize = s.getKeysSize :=
  congrArg UInt32.ofNat (List.length_map _)

theorem toCache_getValuesSize (hw : Interned env s) :
    s.toCache.getValuesSize = s.getValuesSize := by
  rw [Cache.getValuesSize, getValuesSize, length_values_ hw, toCache, MultiIndex.map,
    valuesOf_toEntry]
  rfl

/-! ## Whole runs -/

/-- The state and the replies of the store, with their counterparts. -/
def IsCache (env : Env) (r : DHashmap × List Reply) (q : Cache × List Reply) : Prop :=
  Interned env r.1 ∧ (r.1.toCache, r.2) = q

/-- A table that grows stops the process in both, or in neither. -/
theorem toCache_stops_iff (s : DHashmap) (val : Str) (grows : Bool) :
    (grows = true ∧ val ∉ Cache.valuesOf s.toCache.entries.entries ∧ s.toCache.dangling ≠ 0) ↔
      grows = true ∧ val ∉ s.heldValues ∧ ¬ AllLive s := by
  have hvalues : Cache.valuesOf s.toCache.entries.entries = s.heldValues := by
    rw [toCache, MultiIndex.map, valuesOf_toEntry]
    rfl
  rw [hvalues, ← danglingCount_eq_zero_iff]
  exact Iff.rfl

/-- One call is the same call on the cache, with the same result or the same end. -/
theorem reply_inStep (env : Env) :
    Run.InStep (IsCache env) (reply env) (Cache.reply env.normalize env.ttlIndex) := by
  rintro ⟨s, replies⟩ _ call ⟨hw, rfl⟩
  cases call with
  | add now key val grows =>
    simp only [reply, Cache.reply, addGrowing_eq hw, toCache_stops_iff]
    by_cases hstops : grows = true ∧ val ∉ s.heldValues ∧ ¬ AllLive s
    · simp only [hstops, Except.map]
      exact rfl
    · obtain ⟨t, hadd, hcase⟩ := add_cases hw now key val
      simp only [hstops, if_false, hadd, Except.map]
      exact ⟨hcase.interned hw, by rw [hcase.toCache hw]⟩
  | get now refresh _key val =>
    obtain ⟨r, hget, hcase⟩ := get_cases hw now refresh _key val
    simp only [reply, hget, Except.map]
    refine ⟨hcase.interned hw, ?_⟩
    simp only [← hcase.toCache]
  | expirate n =>
    refine ⟨expirate_interned hw n, ?_⟩
    simp only [← toCache_expirate hw n]
    rfl
  | getStorageSize => exact ⟨hw, rfl⟩
  | getKeysSize =>
    refine ⟨hw, ?_⟩
    simp only [toCache_getKeysSize]
  | getValuesSize =>
    refine ⟨hw, ?_⟩
    simp only [toCache_getValuesSize hw]
  | getDeleted => exact ⟨hw.of_same_owners rfl rfl rfl, rfl⟩
  | getGets => exact ⟨hw.of_same_owners rfl rfl rfl, rfl⟩
  | getUpdates => exact ⟨hw.of_same_owners rfl rfl rfl, rfl⟩

/-- The store is a cache that holds its values itself, whatever library is loaded, wherever the
index links and whenever the table grows: every sequence of calls returns what it returns on the
cache and leaves what is left of the store, or stops at the same call as on the cache. -/
theorem run_cache (env : Env) (ttl : Nat) (calls : List Call) :
    (Run.exec (reply env) (init ttl, []) calls).map (fun r => (r.1.toCache, r.2)) =
      Run.exec (Cache.reply env.normalize env.ttlIndex) (Cache.init ttl, []) calls := by
  have hstart : IsCache env (init ttl, []) (Cache.init ttl, []) := ⟨interned_init env ttl, rfl⟩
  rcases Run.agree_iff.mp ((reply_inStep env).exec hstart calls) with
    ⟨r, q, hexec, hexec', hcase⟩ | ⟨e, hexec, hexec'⟩
  · rw [hexec, hexec', ← hcase.2]
    rfl
  · rw [hexec, hexec']
    rfl

end DHashmap

end Swordfish
