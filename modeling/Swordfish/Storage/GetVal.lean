import Swordfish.Connection.Response
import Swordfish.DHashmap.Refinement
import Swordfish.Lib.LimitedQueue

/-!
# What `get` does

`Storage::get_val` (`storage.cpp:108-125`) looks its arguments up one after the other, and each
lookup changes what the next one sees. Here is what the whole loop comes to, in terms of the
storage before it: the response, the queue and the times.
-/

namespace Swordfish.Storage
open DHashmap

variable {env : Env} {s t : Storage}

/-! ## The specification -/

/-- `ttl_` of an entry after some lookups: each that finds it fresh stamps it. -/
def stampAfter (env : Env) (ttl : Nat) (e : KeyType) (xs : List Lookup) : TimeType :=
  xs.foldl
    (fun stamp x =>
      if env.normalize x.arg = e.key_ ∧ x.now < stamp + ttl then x.refresh else stamp) e.ttl_

/-- A lookup behind the lookups `before` finds its key, and finds it fresh. -/
def FoundFresh (env : Env) (s : Storage) (before : List Lookup) (x : Lookup) : Prop :=
  ∃ e ∈ s.storage_.keys_.entries, e.key_ = env.normalize x.arg ∧
    x.now < stampAfter env s.storage_.ttl_ e before + s.storage_.ttl_

instance (env : Env) (s : Storage) (before : List Lookup) (x : Lookup) :
    Decidable (FoundFresh env s before x) :=
  inferInstanceAs (Decidable (∃ e ∈ s.storage_.keys_.entries, _))

/-- The normal forms that lookups find absent or stale, in the order of the arguments. -/
def wanted (env : Env) (s : Storage) (args : List Lookup) : List Str :=
  (args.inits.zip args).filterMap
    (fun p => if FoundFresh env s p.1 p.2 then none else some (env.normalize p.2.arg))

/-- The arguments whose normal form is stored with a value that is not empty, with the value. -/
def storedItems (env : Env) (s : Storage) (args : List Lookup) : List (Str × Str) :=
  args.filterMap (fun x =>
    match s.storage_.view (env.normalize x.arg) with
    | some val => if val ≠ [] then some (x.arg, val) else none
    | none => none)

/-- What `get_val` is to do with the storage `s`, leaving `t`. -/
structure GetValSpec (env : Env) (s : Storage) (args : List Lookup) (t : Storage) (res : Str) :
    Prop where
  response : res = itemsText (storedItems env s args) ++ text "END\r\n"
  queue : t.queue_.queue_ = s.queue_.queue_ ++
    LimitedQueue.newcomers s.maxQueueSize_.toNat s.queue_.queue_ (wanted env s args)
  entries : t.storage_.keys_.entries = s.storage_.keys_.entries.map
    (fun e => { e with ttl_ := stampAfter env s.storage_.ttl_ e args })
  values : t.storage_.values_ = s.storage_.values_
  bytes : t.storage_.storageSize = s.storage_.storageSize

/-- Where one of these keys is new to a queue at its limit, the number of queued keys modulo
`2 ^ 32`, which is what `size` returns, is at the limit too. -/
def SizeAgrees (s : Storage) (keys : List Str) : Prop :=
  LimitedQueue.AgreeOn (s.maxQueueSize_.toNat ≤ ·) (fun n => s.maxQueueSize_.toNat ≤ n % 2 ^ 32)
    s.queue_.queue_ keys

/-! ## One lookup -/

/-- What some lookups leave of the storage. -/
structure Looked (env : Env) (s : Storage) (xs : List Lookup) (t : Storage) : Prop where
  interned : Interned env t.storage_
  ttl : t.storage_.ttl_ = s.storage_.ttl_
  limit : t.maxQueueSize_ = s.maxQueueSize_
  view : t.storage_.view = s.storage_.view
  entries : t.storage_.keys_.entries = s.storage_.keys_.entries.map
    (fun e => { e with ttl_ := stampAfter env s.storage_.ttl_ e xs })
  values : t.storage_.values_ = s.storage_.values_
  bytes : t.storage_.storageSize = s.storage_.storageSize
  queue : t.queue_.queue_ = LimitedQueue.offerAll (fun n => s.maxQueueSize_.toNat ≤ n % 2 ^ 32)
    s.queue_.queue_ (wanted env s xs)

/-- The first lookup sees the storage as it is, and the others what it leaves. -/
theorem wanted_cons (env : Env) (s : Storage) (x : Lookup) (xs : List Lookup) :
    wanted env s (x :: xs) =
      wanted env s [x] ++ (xs.inits.zip xs).filterMap (fun p =>
        if FoundFresh env s (x :: p.1) p.2 then none else some (env.normalize p.2.arg)) := by
  rw [wanted, List.inits_cons, List.zip_cons_cons, List.zip_map_left, List.filterMap_cons,
    List.filterMap_map, wanted]
  by_cases hfresh : FoundFresh env s [] x
  · simp [hfresh]
  · simp [hfresh]

theorem Looked.foundFresh_iff {x : Lookup} (h : Looked env s [x] t) (before : List Lookup)
    (y : Lookup) : FoundFresh env t before y ↔ FoundFresh env s (x :: before) y := by
  unfold FoundFresh
  rw [h.entries, h.ttl]
  simp only [List.mem_map, exists_exists_and_eq_and]
  rfl

/-- Lookups compose. -/
theorem Looked.cons {u : Storage} {x : Lookup} {xs : List Lookup} (hx : Looked env s [x] t)
    (hxs : Looked env t xs u) : Looked env s (x :: xs) u where
  interned := hxs.interned
  ttl := hxs.ttl.trans hx.ttl
  limit := hxs.limit.trans hx.limit
  view := hxs.view.trans hx.view
  entries := by
    rw [hxs.entries, hx.entries, hx.ttl, List.map_map]
    rfl
  values := hxs.values.trans hx.values
  bytes := hxs.bytes.trans hx.bytes
  queue := by
    have hrest : wanted env t xs = (xs.inits.zip xs).filterMap (fun p =>
        if FoundFresh env s (x :: p.1) p.2 then none else some (env.normalize p.2.arg)) := by
      simp only [wanted, hx.foundFresh_iff]
    rw [hxs.queue, hx.queue, hx.limit, hrest, wanted_cons env s x xs,
      LimitedQueue.offerAll_append]

/-- A lookup that does not find its key fresh stamps nothing. -/
theorem entries_of_not_fresh {x : Lookup} (h : ¬ FoundFresh env s [] x) :
    s.storage_.keys_.entries = s.storage_.keys_.entries.map
      (fun e => { e with ttl_ := stampAfter env s.storage_.ttl_ e [x] }) := by
  conv_lhs => rw [← List.map_id s.storage_.keys_.entries]
  refine List.map_congr_left (fun e he => ?_)
  have hstale : ¬ (env.normalize x.arg = e.key_ ∧ x.now < e.ttl_ + s.storage_.ttl_) :=
    fun hfresh => h ⟨e, he, hfresh.1.symm, hfresh.2⟩
  simp only [stampAfter, List.foldl_cons, List.foldl_nil, if_neg hstale, id_eq]

/-- A push of `push_key` is an offer: the test compares the limit with the number of keys
modulo `2 ^ 32`. -/
theorem pushKey_offer (s : Storage) (key : Str) :
    (s.pushKey key).queue_.queue_ =
      LimitedQueue.offer (fun n => s.maxQueueSize_.toNat ≤ n % 2 ^ 32) s.queue_.queue_ key := by
  have hroom : s.queue_.size.toUInt64 < s.maxQueueSize_ ↔
      ¬ s.maxQueueSize_.toNat ≤ s.queue_.queue_.length % 2 ^ 32 := by
    rw [UInt64.lt_iff_toNat_lt, Queue.toNat_size, Nat.not_le]
  by_cases happends : key ∉ s.queue_.queue_ ∧
      ¬ s.maxQueueSize_.toNat ≤ s.queue_.queue_.length % 2 ^ 32
  · rw [pushKey_queue_, if_pos ⟨happends.1, hroom.mpr happends.2⟩]
    exact (if_pos happends).symm
  · rw [pushKey_queue_, if_neg (fun h => happends ⟨h.1, hroom.mp h.2⟩)]
    exact (if_neg happends).symm

/-- A lookup that does not find its key fresh pushes it. -/
theorem looked_of_not_fresh {x : Lookup} (hw : Interned env s.storage_)
    (hfresh : ¬ FoundFresh env s [] x) {storage : DHashmap}
    (hstorage : storage = s.storage_.countGet ∨ storage = s.storage_.countGet.countUpdate) :
    Looked env s [x] (pushKey { s with storage_ := storage } (env.normalize x.arg)) where
  interned := by
    rw [pushKey_storage_]
    rcases hstorage with rfl | rfl <;> exact hw.of_same_owners rfl rfl rfl
  ttl := by
    rw [pushKey_storage_]
    rcases hstorage with rfl | rfl <;> rfl
  limit := pushKey_maxQueueSize_ _ _
  view := by
    rw [pushKey_storage_]
    rcases hstorage with rfl | rfl <;> rfl
  entries := by
    rw [pushKey_storage_]
    rcases hstorage with rfl | rfl <;> exact entries_of_not_fresh hfresh
  values := by
    rw [pushKey_storage_]
    rcases hstorage with rfl | rfl <;> rfl
  bytes := by
    rw [pushKey_storage_]
    rcases hstorage with rfl | rfl <;> rfl
  queue := by
    have hwanted : wanted env s [x] = [env.normalize x.arg] := by
      simp [wanted, hfresh]
    rw [pushKey_offer, hwanted]
    rfl

/-- A lookup that finds its key fresh stamps it. -/
theorem looked_of_fresh {x : Lookup} (hw : Interned env s.storage_) {it : KeyType}
    (hit : it ∈ s.storage_.keys_.entries) (hkey : it.key_ = env.normalize x.arg)
    (hfresh : x.now < it.ttl_ + s.storage_.ttl_) :
    Looked env s [x] { s with storage_ := s.storage_.countGet.updateTtl x.refresh it.key_ } where
  interned := hw.of_same_owners rfl (updateTtl_owners _ _ _) rfl
  ttl := rfl
  limit := rfl
  view := updateTtl_view s.storage_.countGet x.refresh it.key_
  entries := by
    refine List.map_congr_left (fun e he => ?_)
    by_cases heq : e.key_ = it.key_
    · obtain rfl := MultiIndex.eq_of_key_eq he hit heq
      simp [stampAfter, KeyType.updateTtl, hkey, hfresh]
    · have hother : ¬ (env.normalize x.arg = e.key_ ∧ x.now < e.ttl_ + s.storage_.ttl_) :=
        fun h => heq (h.1.symm.trans hkey.symm)
      simp [stampAfter, heq, hother]
  values := rfl
  bytes := rfl
  queue := by
    have hfound : FoundFresh env s [] x := ⟨it, hit, hkey, hfresh⟩
    simp [wanted, hfound]

/-- One lookup. -/
theorem lookup_looked (hw : Interned env s.storage_) (x : Lookup) (res : Str) :
    ∃ t res', s.lookup env x res = .ok (t, res') ∧ Looked env s [x] t := by
  obtain ⟨r, hget, hcase⟩ := get_cases hw x.now x.refresh x.arg []
  simp only [lookup, hget]
  cases hcase with
  | missing habsent =>
    refine ⟨_, _, rfl, looked_of_not_fresh hw ?_ (Or.inl rfl)⟩
    rintro ⟨e, he, hkey, -⟩
    exact habsent e he hkey
  | fresh hit hkey hfresh => exact ⟨_, _, rfl, looked_of_fresh hw hit hkey hfresh⟩
  | @stale it hit hkey hstale =>
    refine ⟨_, _, rfl, looked_of_not_fresh hw ?_ (Or.inr rfl)⟩
    rintro ⟨e, he, hkey', hnow⟩
    obtain rfl := MultiIndex.eq_of_key_eq he hit (hkey'.trans hkey.symm)
    exact absurd hnow (Nat.not_lt.mpr hstale)

/-! ## The command -/

/-- The whole loop. -/
theorem lookups_looked (hw : Interned env s.storage_) (args : List Lookup) (res : Str) :
    ∃ t res', s.lookups env res args = .ok (t, res') ∧ Looked env s args t := by
  induction args generalizing s res with
  | nil =>
    refine ⟨s, res, rfl, hw, rfl, rfl, rfl, ?_, rfl, rfl, rfl⟩
    exact (List.map_id _).symm
  | cons x xs ih =>
    obtain ⟨t, res', hlookup, hx⟩ := lookup_looked hw x res
    obtain ⟨u, res'', hrest, hxs⟩ := ih hx.interned res'
    refine ⟨u, res'', ?_, hx.cons hxs⟩
    rw [lookups, hlookup]
    exact hrest

/-- What the lookups find does not depend on what they change. -/
theorem hits_eq (hw : Interned env s.storage_) (args : List Lookup) :
    s.storage_.hits env args = storedItems env s args := by
  induction args generalizing s with
  | nil => rfl
  | cons x xs ih =>
    obtain ⟨r, hget, hcase⟩ := get_cases hw x.now x.refresh x.arg []
    have hrest := ih (s := { s with storage_ := r.1 }) (hcase.interned hw)
    have hview : storedItems env { s with storage_ := r.1 } xs = storedItems env s xs := by
      simp only [storedItems, hcase.view_eq]
    have hfirst : (match s.storage_.view (env.normalize x.arg) with
        | some val => if val ≠ [] then some (x.arg, val) else none
        | none => none) = if r.2.val ≠ [] then some (x.arg, r.2.val) else none := by
      cases hcase with
      | missing habsent =>
        have hnone : s.storage_.view (env.normalize x.arg) = none := by
          rw [view, MultiIndex.find_eq_none_iff.mpr habsent]
          rfl
        rw [hnone]
        rfl
      | @fresh it hit hkey hfresh =>
        rw [view_eq_some_iff.mpr ⟨it, hit, hkey, rfl⟩]
      | @stale it hit hkey hstale =>
        rw [view_eq_some_iff.mpr ⟨it, hit, hkey, rfl⟩]
    unfold DHashmap.hits
    simp only [hget]
    rw [hrest, hview]
    conv_rhs => rw [storedItems, List.filterMap_cons, hfirst]
    by_cases hval : r.2.val = []
    · simp [hval, storedItems]
    · simp [hval, storedItems]

/-- `get_val` does what its arguments ask if and only if `size` agrees on what is full. -/
theorem getVal_spec_iff (hw : Interned env s.storage_) (args : List Lookup) :
    ∃ t res, s.getVal env args = .ok (t, res) ∧ Looked env s args t ∧
      (GetValSpec env s args t res ↔ SizeAgrees s (wanted env s args)) := by
  obtain ⟨t, res, hloop, hlooked⟩ := lookups_looked hw args []
  have hres := lookups_hits hloop
  rw [List.nil_append, hits_eq hw] at hres
  refine ⟨t, res ++ text "END\r\n", by rw [getVal, hloop], hlooked, ?_⟩
  have hweak : ∀ n, s.maxQueueSize_.toNat ≤ n % 2 ^ 32 → s.maxQueueSize_.toNat ≤ n :=
    fun n h => Nat.le_trans h (Nat.mod_le _ _)
  rw [SizeAgrees, ← LimitedQueue.offerAll_eq_iff hweak, LimitedQueue.offerAll_limit,
    ← hlooked.queue]
  constructor
  · intro hspec
    exact hspec.queue
  · intro hqueue
    exact ⟨by rw [hres], hqueue, hlooked.entries, hlooked.values, hlooked.bytes⟩

/-- Within a limit below `2 ^ 32`, `size` agrees. -/
theorem sizeAgrees_of_small_limit (hmax : s.maxQueueSize_.toNat < 2 ^ 32)
    (hqueue : s.queue_.queue_.length ≤ s.maxQueueSize_.toNat) (keys : List Str) :
    SizeAgrees s keys := by
  refine LimitedQueue.agreeOn_of_limit ?_ hqueue keys
  rw [Nat.mod_eq_of_lt hmax]

/-- Without keys all normal forms are wanted. -/
theorem wanted_of_no_keys (h : s.storage_.keys_.entries = []) (args : List Lookup) :
    wanted env s args = args.map (fun x => env.normalize x.arg) := by
  have hnone : ∀ before x, ¬ FoundFresh env s before x := by
    rintro before x ⟨e, he, -⟩
    rw [h] at he
    cases he
  have hlength : args.length ≤ args.inits.length := by
    rw [List.length_inits]
    exact Nat.le_succ _
  conv_rhs => rw [← List.map_snd_zip hlength, List.map_map]
  simp only [wanted, hnone, if_false]
  exact congrFun List.filterMap_eq_map _

end Swordfish.Storage
