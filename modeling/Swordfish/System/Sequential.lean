import Swordfish.System.Model

/-!
# The system and the sequential storage

The steps of the system against the operations of the storage: a client that runs alone does what
`Storage::get_val` does, and a filler that runs alone what `Storage::add_item` does.
-/

namespace Swordfish

variable (cfg : FillerConfig) {env : Env} {st st' : Storage}

/-! ## A client alone -/

/-- The system with this storage, and this client at `c`. -/
def Sys.withClient (s : Sys) (c : Nat) (storage : Storage) (x : Client) : Sys :=
  { s with storage := storage, clients := Function.update s.clients c x }

theorem clientStep_alone {s : Sys} {c : Nat} {x y : Client} {now refresh : TimeType}
    (h : x.step env st now refresh c = .ok (st', y, none)) :
    (s.withClient c st x).step cfg env (.client c now refresh) = .ok (s.withClient c st' y) := by
  simp only [Sys.step, Sys.withClient, Function.update_self, h, Function.update_idem,
    History.record]

/-- The steps of `push_key` are `Storage.pushKey`. -/
theorem pushKey_alone (env : Env) (s : Sys) (c : Nat) (st : Storage) (x : Client) (key : Str) :
    ∃ actions, Sys.run cfg env (s.withClient c st { x with pc := .sizeTest key }) actions =
      .ok (s.withClient c (st.pushKey key) { x with pc := .lookup }) := by
  by_cases hfull : st.queue_.size.toUInt64 < st.maxQueueSize_
  · refine ⟨List.replicate 3 (.client c 0 0), ?_⟩
    unfold Storage.pushKey
    rw [if_pos hfull]
    refine Run.exec_cons_ok.mpr ⟨_, clientStep_alone cfg rfl, ?_⟩
    rw [if_pos hfull]
    refine Run.exec_cons_ok.mpr ⟨_, clientStep_alone cfg rfl, ?_⟩
    exact Run.exec_cons_ok.mpr ⟨_, clientStep_alone cfg rfl, rfl⟩
  · refine ⟨[.client c 0 0], ?_⟩
    unfold Storage.pushKey
    rw [if_neg hfull]
    refine Run.exec_cons_ok.mpr ⟨_, clientStep_alone cfg rfl, ?_⟩
    rw [if_neg hfull]
    rfl

/-- The steps of one argument are `Storage.lookup`. -/
theorem lookup_alone (s : Sys) (c : Nat) {x : Storage.Lookup} (args : List Str) {res res' : Str}
    (items : List (Str × Str)) (h : st.lookup env x res = .ok (st', res')) :
    ∃ actions items', Sys.run cfg env (s.withClient c st ⟨.lookup, x.arg :: args, res, items⟩)
      actions = .ok (s.withClient c st' ⟨.lookup, args, res', items'⟩) := by
  obtain ⟨storage, out, hget, rfl, rfl⟩ := Storage.lookup_ok.mp h
  let items' := if out.val ≠ [] then items ++ [(x.arg, out.val)] else items
  let res' := if out.val ≠ [] then Storage.resAppend x.arg out.val res else res
  have hstep : Client.step env st x.now x.refresh c ⟨.lookup, x.arg :: args, res, items⟩ =
      .ok ({ st with storage_ := storage },
        ⟨if out.ret then .lookup else .sizeTest out.normalizedKey, args, res', items'⟩, none) := by
    simp only [Client.step, hget, res', items']
    by_cases hval : out.val = [] <;> simp [hval]
  have hfirst := clientStep_alone cfg (s := s) hstep
  cases hret : out.ret with
  | true =>
    rw [hret] at hfirst
    exact ⟨[.client c x.now x.refresh], items', Run.exec_cons_ok.mpr ⟨_, hfirst, rfl⟩⟩
  | false =>
    rw [hret] at hfirst
    obtain ⟨actions, hpush⟩ := pushKey_alone cfg env s c
      { st with storage_ := storage } ⟨.lookup, args, res', items'⟩ out.normalizedKey
    exact ⟨.client c x.now x.refresh :: actions, items',
      Run.exec_cons_ok.mpr ⟨_, hfirst, hpush⟩⟩

theorem lookups_alone (s : Sys) (c : Nat) {xs : List Storage.Lookup} {res res' : Str}
    (items : List (Str × Str)) (h : st.lookups env res xs = .ok (st', res')) :
    ∃ actions items', Sys.run cfg env
      (s.withClient c st ⟨.lookup, xs.map Storage.Lookup.arg, res, items⟩) actions =
        .ok (s.withClient c st' ⟨.lookup, [], res', items'⟩) := by
  induction xs generalizing st res items with
  | nil =>
    cases h
    exact ⟨[], items, rfl⟩
  | cons x xs ih =>
    obtain ⟨u, res'', hx, hxs⟩ := Storage.lookups_cons_ok.mp h
    obtain ⟨first, items₁, hfirst⟩ := lookup_alone cfg s c (xs.map Storage.Lookup.arg) items hx
    obtain ⟨rest, items₂, hrest⟩ := ih items₁ hxs
    exact ⟨first ++ rest, items₂, Run.exec_append_ok.mpr ⟨_, hfirst, hrest⟩⟩

/-- A client that runs alone computes `get_val`, and sends its result. -/
theorem getVal_alone {s : Sys} {c : Nat} (hidle : (s.clients c).pc = .idle)
    {xs : List Storage.Lookup} {res : Str} (h : s.storage.getVal env xs = .ok (st, res)) :
    ∃ actions items,
      Sys.run cfg env s (.request c (xs.map Storage.Lookup.arg) :: actions) =
        .ok { s.withClient c st .idle with log := .sent c items res :: s.log } := by
  obtain ⟨res', hloop, rfl⟩ := Storage.getVal_ok.mp h
  obtain ⟨actions, items, hrun⟩ := lookups_alone cfg s c [] hloop
  refine ⟨actions ++ [.client c 0 0], items, ?_⟩
  refine Run.exec_cons_ok.mpr
    ⟨s.withClient c s.storage (.start (xs.map Storage.Lookup.arg)), ?_, ?_⟩
  · simp only [Sys.step, hidle, Sys.withClient]
  · refine Run.exec_append_ok.mpr ⟨_, hrun, ?_⟩
    simp [Run.exec, Sys.step, Sys.withClient, Client.step, History.record]

/-! ## The filler alone -/

/-- The system with this storage, and the filler at this point. -/
def Sys.withFiller (s : Sys) (storage : Storage) (pc : FillerPc) : Sys :=
  { s with storage := storage, filler := { s.filler with pc := pc } }

/-- The steps of the loop in `add_item` are the loop. -/
theorem fullLoop_alone (env : Env) (s : Sys) (i : Nat) (key val : Str) {rounds : Nat}
    (h : While.exec Storage.Full Storage.expirate rounds st = some st') :
    ∃ actions, Sys.run cfg env (s.withFiller st (.capacityTest i key val)) actions =
      .ok (s.withFiller st' (.add i key val)) := by
  have htest : ∀ st : Storage, (s.withFiller st (.capacityTest i key val)).step cfg env
      (.filler 0) = .ok (s.withFiller st
        (if st.Full then .evict i key val else .add i key val)) := fun _ => rfl
  induction rounds generalizing st with
  | zero =>
    simp only [While.exec] at h
    split at h
    · cases h
    · rename_i hfull
      cases h
      refine ⟨[.filler 0], Run.exec_cons_ok.mpr ⟨_, htest st', ?_⟩⟩
      rw [if_neg hfull]
      rfl
  | succ rounds ih =>
    simp only [While.exec] at h
    split at h
    · rename_i hfull
      obtain ⟨actions, hrest⟩ := ih h
      refine ⟨.filler 0 :: .filler 0 :: actions, Run.exec_cons_ok.mpr ⟨_, htest st, ?_⟩⟩
      rw [if_pos hfull]
      exact Run.exec_cons_ok.mpr ⟨_, rfl, hrest⟩
    · rename_i hfull
      cases h
      refine ⟨[.filler 0], Run.exec_cons_ok.mpr ⟨_, htest st', ?_⟩⟩
      rw [if_neg hfull]
      rfl

/-- A filler that runs alone computes `add_item`. -/
theorem addItem_alone (s : Sys) (i : Nat) {rounds : Nat} {now : TimeType} {key val : Str}
    (h : st.addItem env rounds now key val = .ok st') :
    ∃ actions, Sys.run cfg env (s.withFiller st (.capacityTest i key val)) actions =
      .ok (s.withFiller st' (.pair i)) := by
  obtain ⟨u, storage, hloop, hadd, rfl⟩ := Storage.addItem_ok.mp h
  obtain ⟨actions, hrun⟩ := fullLoop_alone cfg env s i key val hloop
  refine ⟨actions ++ [.filler now], Run.exec_append_ok.mpr ⟨_, hrun, ?_⟩⟩
  simp only [Run.exec, Sys.step, Sys.withFiller, Filler.step, Filler.test, hadd, History.record]

end Swordfish
