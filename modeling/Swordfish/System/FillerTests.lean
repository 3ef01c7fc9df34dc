import Swordfish.System.Steps

/-!
# The tests of the filler

The loop of the filler (`abstract_filler.cpp:73-100`) tests the free space as an unsigned difference
compared with zero, and bounds a batch by a count that starts anew in every round. Here is when
the first means what it says, and when the second bounds what `get_vals` is given.
-/

namespace Swordfish

namespace Sys

variable {cfg : FillerConfig} {env : Env} {s t : Sys}

/-! ## The free space -/

/-- The tests mean what they say: a round starts with `expirate` whenever the store is at its limit
or above, and a key is popped only while the store is below it. Sizes from `2 ^ 32` on are left
out. -/
def FreeSpace (cfg : FillerConfig) (s : Sys) : Action → Prop
  | .filler _ =>
      match s.filler.pc with
      | .fullTest =>
          s.storage.storage_.storageSize.toNat < 2 ^ 32 →
            s.storage.maxStorageSize_ ≤ s.storage.storage_.storageSize →
              s.filler.test cfg s.storage s.isAlive_ = some .expirate
      | .sizeTest t =>
          s.storage.storage_.storageSize.toNat < 2 ^ 32 →
            s.filler.test cfg s.storage s.isAlive_ = some (.pop t) →
              s.storage.storage_.storageSize < s.storage.maxStorageSize_
      | _ => True
  | _ => True

/-- The store is not above its limit when the filler tests the free space. -/
def NotAbove (s : Sys) : Action → Prop
  | .filler _ =>
      match s.filler.pc with
      | .fullTest | .sizeTest _ =>
          s.storage.storage_.storageSize.toNat < 2 ^ 32 →
            s.storage.storage_.storageSize ≤ s.storage.maxStorageSize_
      | _ => True
  | _ => True

instance (cfg : FillerConfig) (s : Sys) : DecidablePred (FreeSpace cfg s)
  | .filler _ => by
      unfold FreeSpace
      dsimp only
      split <;> infer_instance
  | .request _ _ | .client _ _ _ | .isFillerAlive _ | .getVals _ _ | .expirate | .shutdown =>
      isTrue trivial

/-- A counter below `2 ^ 32` is what `storage_size` returns. -/
theorem storageSize_of_small {s : Storage} (h : s.storage_.storageSize.toNat < 2 ^ 32) :
    s.storageSize = s.storage_.storageSize := by
  apply UInt64.toNat_inj.mp
  rw [Storage.toNat_storageSize]
  exact Nat.mod_eq_of_lt h

/-- An unsigned difference is zero only between equals. -/
theorem sub_eq_zero_iff {k n : UInt64} : k - n = 0 ↔ k = n := by
  rw [UInt64.sub_eq_iff_eq_add, UInt64.zero_add]

theorem freeSpace_iff (cfg : FillerConfig) (s : Sys) (action : Action) :
    FreeSpace cfg s action ↔ NotAbove s action := by
  cases action with
  | filler now =>
    simp only [FreeSpace, NotAbove]
    cases hpc : s.filler.pc with
    | fullTest =>
      refine forall_congr' ?_
      intro hsmall
      simp only [Filler.test, hpc, storageSize_of_small hsmall, sub_eq_zero_iff]
      grind
    | sizeTest t =>
      refine forall_congr' ?_
      intro hsmall
      simp only [Filler.test, hpc, storageSize_of_small hsmall, UInt64.pos_iff_ne_zero, ne_eq,
        sub_eq_zero_iff, gt_iff_lt]
      grind
    | loop | expirate | aliveTest t | queueTest t | pop t | fetchTest | askAlive | fetch | pair i
      | capacityTest i key val | evict i key val | add i key val | stopped => exact Iff.rfl
  | request c args | client c now refresh | isFillerAlive answer | getVals ret vals | expirate
    | shutdown => exact Iff.rfl

/-- The free-space tests, exactly: in a run of the daemon every one of them means what it says if
and only if the store is never above its limit when the filler makes one. -/
theorem run_freeSpace_iff (cfg : FillerConfig) (env : Env) (s : Sys) (actions : List Action) :
    Run.Every (step cfg env) (FreeSpace cfg) s actions ↔
      Run.Every (step cfg env) NotAbove s actions :=
  Run.every_congr (freeSpace_iff cfg)

/-- With a limit of 3 bytes an item of 5 bytes is stored, and the next round neither evicts nor
stops popping. -/
theorem run_freeSpace_overshoot :
    ¬ Run.Every (step { isFillerAlive := false, maxFillSize_ := 1 } .plain)
      (FreeSpace { isFillerAlive := false, maxFillSize_ := 1 }) (init (.init 0 10 3 100 1))
      (askScript 0 [107] ++ fetchScript 0 true [[97, 97, 97, 97]] ++
        List.replicate 6 (.filler 1)) := by
  decide +kernel

/-! ## The batches -/

/-- `get_vals` is given at least one key and at most `max_fill_size_`. -/
def BatchBounded (cfg : FillerConfig) (s : Sys) : Action → Prop
  | .getVals _ _ =>
      s.filler.pc = .fetch →
        1 ≤ s.filler.keys.length ∧ s.filler.keys.length ≤ cfg.maxFillSize_.toNat
  | _ => True

/-- A key that the filler pops joins fewer than `max_fill_size_` others. -/
def RoomInBatch (cfg : FillerConfig) (s : Sys) : Action → Prop
  | .filler _ =>
      match s.filler.pc with
      | .pop _ =>
          s.storage.queue_.waitAndPop.2 ≠ [] → s.filler.keys.length < cfg.maxFillSize_.toNat
      | _ => True
  | _ => True

instance (cfg : FillerConfig) (s : Sys) : DecidablePred (BatchBounded cfg s)
  | .getVals _ _ => inferInstanceAs (Decidable (_ → _))
  | .request _ _ | .client _ _ _ | .filler _ | .isFillerAlive _ | .expirate | .shutdown =>
      isTrue trivial

instance (cfg : FillerConfig) (s : Sys) : DecidablePred (RoomInBatch cfg s)
  | .filler _ => by
      unfold RoomInBatch
      dsimp only
      split <;> infer_instance
  | .request _ _ | .client _ _ _ | .isFillerAlive _ | .getVals _ _ | .expirate | .shutdown =>
      isTrue trivial

/-- The vector of the filler holds at most `max_fill_size_` keys, and some when the library is
called. -/
structure Batched (cfg : FillerConfig) (f : Filler) : Prop where
  le_max : f.keys.length ≤ cfg.maxFillSize_.toNat
  nonempty : f.pc = .askAlive ∨ f.pc = .fetch → f.keys ≠ []

/-- A step of the filler keeps the bound when it has room for what it pops. -/
theorem fillerCase_batched {storage : Storage} {isAlive : Bool} {now : TimeType} {f : Filler}
    {r : Storage × Filler × Option Event} (h : FillerCase cfg env storage isAlive now f r)
    (hf : Batched cfg f)
    (hroom : ∀ n, f.pc = .pop n → storage.queue_.waitAndPop.2 ≠ [] →
      f.keys.length < cfg.maxFillSize_.toNat) : Batched cfg r.2.1 := by
  cases h with
  | test htest =>
    have hkeys := Filler.keys_ne_nil_of_test htest
    exact ⟨hf.le_max, hkeys⟩
  | pop hpc =>
    refine ⟨?_, by simp⟩
    by_cases hkey : storage.queue_.waitAndPop.2 = []
    · simp only [hkey, ne_eq, not_true_eq_false, if_false]
      exact hf.le_max
    · simp only [ne_eq, hkey, not_false_eq_true, if_true, List.length_append, List.length_singleton]
      exact hroom _ hpc hkey
  | roundEnd hpc hend => exact ⟨Nat.zero_le _, by simp⟩
  | expirate hpc => exact ⟨hf.le_max, by simp⟩
  | addItem hpc hkey hval => exact ⟨hf.le_max, by simp⟩
  | evict hpc => exact ⟨hf.le_max, by simp⟩
  | add hpc hadd => exact ⟨hf.le_max, by simp⟩

/-- A step keeps the bound when it has room for what it pops. -/
theorem step_batched {action : Action} (h : SysCase cfg env s action t) (hs : Batched cfg s.filler)
    (hroom : RoomInBatch cfg s action) : Batched cfg t.filler := by
  cases h with
  | filler h =>
    refine fillerCase_batched h hs ?_
    intro n hpc hkey
    simp only [RoomInBatch, hpc] at hroom
    exact hroom hkey
  | isFillerAlive answer hpc => exact ⟨hs.le_max, fun _ => hs.nonempty (Or.inl hpc)⟩
  | getVals ret vals hpc => exact ⟨hs.le_max, by simp⟩
  | request args hpc => exact hs
  | client h => exact hs
  | expirate => exact hs
  | shutdown => exact hs

/-- What follows a pop when the filler is shut down, and the library answers. -/
def lastBatch (cfg : FillerConfig) : List Action :=
  [.shutdown, .filler 0, .filler 0] ++
    (if cfg.isFillerAlive then [.isFillerAlive true] else []) ++ [.getVals true []]

/-- A batch that is too large after a pop reaches `get_vals` in some continuation. -/
theorem not_batchBounded_lastBatch {n : UInt64} (hpc : s.filler.pc = .aliveTest n)
    (hkeys : cfg.maxFillSize_.toNat < s.filler.keys.length) :
    ¬ Run.Every (step cfg env) (BatchBounded cfg) s (lastBatch cfg) := by
  have hsome : s.filler.keys ≠ [] := by
    intro hnil
    simp [hnil] at hkeys
  cases hask : cfg.isFillerAlive with
  | true =>
    simp [lastBatch, Run.Every, BatchBounded, step, Filler.step, Filler.test, hpc, hsome, hask]
    omega
  | false =>
    simp [lastBatch, Run.Every, BatchBounded, step, Filler.step, Filler.test, hpc, hsome, hask]
    omega

theorem batchBounded_of_batched (hs : Batched cfg s.filler) (action : Action) :
    BatchBounded cfg s action := by
  cases action with
  | getVals ret vals =>
    intro hpc
    exact ⟨List.length_pos_iff.mpr (hs.nonempty (Or.inr hpc)), hs.le_max⟩
  | request c args | client c now refresh | filler now | isFillerAlive answer | expirate
    | shutdown => trivial

/-- A run that has room for every key it pops keeps the bound. -/
theorem run_batched {storage : Storage} {actions : List Action}
    (hroom : Run.Every (step cfg env) (RoomInBatch cfg) (init storage) actions)
    (h : run cfg env (init storage) actions = .ok s) : Batched cfg s.filler := by
  refine Run.every_induction (P := fun _ s => Batched cfg s.filler) ?_ ?_ h hroom
  · exact ⟨Nat.zero_le _, by simp [init, Filler.start]⟩
  · intro _ s action t _ hs hfits hstep
    exact step_batched (step_cases hstep) hs hfits

/-- A pop that has no room leaves a vector above `max_fill_size_`. -/
theorem overfull_of_not_room {now : TimeType} (h : ¬ RoomInBatch cfg s (.filler now)) :
    ∃ n t, s.step cfg env (.filler now) = .ok t ∧ t.filler.pc = .aliveTest n ∧
      cfg.maxFillSize_.toNat < t.filler.keys.length := by
  cases hpc : s.filler.pc with
  | pop n =>
    simp only [RoomInBatch, hpc, Classical.not_imp, Nat.not_lt] at h
    obtain ⟨hkey, hfull⟩ := h
    have hok : ∃ t, s.step cfg env (.filler now) = .ok t := by
      simp only [step, Filler.step, Filler.test, hpc]
      exact ⟨_, rfl⟩
    obtain ⟨t, hstep⟩ := hok
    refine ⟨n, t, hstep, ?_⟩
    simp only [step, Filler.step, Filler.test, hpc, Except.ok.injEq] at hstep
    subst hstep
    refine ⟨rfl, ?_⟩
    simp only [hkey, ne_eq, not_false_eq_true, if_true, List.length_append, List.length_singleton]
    omega
  | loop | fullTest | expirate | aliveTest n | queueTest n | sizeTest n | fetchTest | askAlive
    | fetch | pair i | capacityTest i key val | evict i key val | add i key val | stopped =>
    simp [RoomInBatch, hpc] at h

/-- The bound on the batches, exactly: in a run that always has room for the key it pops, every
call of `get_vals` is given one to `max_fill_size_` keys; a run that pops a key without room for it
has a continuation from there in which a call is given more. -/
theorem run_batches (cfg : FillerConfig) (env : Env) (storage : Storage) (actions : List Action) :
    (Run.Every (step cfg env) (RoomInBatch cfg) (init storage) actions →
      Run.Every (step cfg env) (BatchBounded cfg) (init storage) actions) ∧
    (¬ Run.Every (step cfg env) (RoomInBatch cfg) (init storage) actions →
      ∃ front more, front <+: actions ∧
        ¬ Run.Every (step cfg env) (BatchBounded cfg) (init storage) (front ++ more)) := by
  constructor
  · intro hroom
    refine Run.every_iff.mpr ?_
    intro front action rest t hsplit ht
    subst hsplit
    exact batchBounded_of_batched (run_batched ((Run.every_append ht).mp hroom).1 ht) action
  · intro hnot
    obtain ⟨front, action, rest, t, hsplit, ht, hnoRoom⟩ := Run.not_every_iff.mp hnot
    cases action with
    | filler now =>
      obtain ⟨n, u, hstep, hpc, hkeys⟩ := overfull_of_not_room hnoRoom
      refine ⟨front, .filler now :: lastBatch cfg, ⟨_, hsplit.symm⟩, fun hbounded => ?_⟩
      have hrest := ((Run.every_append ht).mp hbounded).2
      exact not_batchBounded_lastBatch hpc hkeys ((Run.every_cons hstep).mp hrest).2
    | request c args | client c now refresh | isFillerAlive answer | getVals ret vals | expirate
      | shutdown => exact absurd trivial hnoRoom

/-- What the local `t` counts: until `get_vals` is called, or its library refuses, a round that has
`t` more keys to pop holds so many fewer than `max_fill_size_`. -/
def CountsDown (cfg : FillerConfig) (f : Filler) : Prop :=
  match f.pc with
  | .loop | .fullTest | .expirate | .stopped => f.keys = []
  | .aliveTest t => f.keys.length + t.toNat ≤ cfg.maxFillSize_.toNat
  | .queueTest t | .sizeTest t | .pop t => f.keys.length + t.toNat < cfg.maxFillSize_.toNat
  | .fetchTest | .askAlive | .fetch | .pair _ | .capacityTest _ _ _ | .evict _ _ _
  | .add _ _ _ => True

theorem countsDown_of_test {storage : Storage} {isAlive : Bool} {f : Filler} {pc : FillerPc}
    (h : f.test cfg storage isAlive = some pc) (hf : CountsDown cfg f) :
    CountsDown cfg { f with pc := pc } := by
  unfold Filler.test at h
  unfold CountsDown at hf
  cases hpc : f.pc with
  | loop =>
    simp only [hpc, Option.some.injEq] at h hf
    subst h
    cases isAlive <;> exact hf
  | fullTest =>
    simp only [hpc, Option.some.injEq] at h hf
    subst h
    split
    · exact hf
    · simp [CountsDown, hf]
  | aliveTest n =>
    simp only [hpc, Option.some.injEq] at h hf
    subst h
    split
    · rename_i hmore
      -- `t--` after a test that it is not zero
      have hpos : 0 < n.toNat := Nat.pos_of_ne_zero (fun hzero =>
        hmore.1 (UInt64.toNat_inj.mp hzero))
      have hone : (1 : UInt64) ≤ n := UInt64.le_iff_toNat_le.mpr hpos
      have hless : (n - 1).toNat = n.toNat - 1 := UInt64.toNat_sub_of_le n 1 hone
      simp only [CountsDown, hless]
      omega
    · trivial
  | queueTest n | sizeTest n =>
    simp only [hpc, Option.some.injEq] at h hf
    subst h
    split
    · exact hf
    · trivial
  | fetchTest =>
    simp only [hpc, Option.some.injEq] at h
    subst h
    split
    · rename_i hnone
      exact hnone
    · split <;> trivial
  | capacityTest i key val =>
    simp only [hpc, Option.some.injEq] at h
    subst h
    split <;> trivial
  | expirate | pop n | askAlive | fetch | pair i | evict i key val | add i key val | stopped =>
    simp only [hpc] at h
    cases h

theorem fillerCase_countsDown {storage : Storage} {isAlive : Bool} {now : TimeType} {f : Filler}
    {r : Storage × Filler × Option Event} (h : FillerCase cfg env storage isAlive now f r)
    (hf : CountsDown cfg f) : CountsDown cfg r.2.1 := by
  cases h with
  | test htest => exact countsDown_of_test htest hf
  | expirate hpc =>
    simp only [CountsDown, hpc] at hf
    simp [CountsDown, hf]
  | pop hpc =>
    simp only [CountsDown, hpc] at hf
    simp only [CountsDown]
    split
    · rw [List.length_append, List.length_singleton]
      omega
    · omega
  | roundEnd hpc hend => rfl
  | addItem hpc hkey hval => trivial
  | evict hpc => trivial
  | add hpc hadd => trivial

theorem step_countsDown {action : Action} (h : SysCase cfg env s action t)
    (hanswer : action ≠ .isFillerAlive false) (hs : CountsDown cfg s.filler) :
    CountsDown cfg t.filler := by
  cases h with
  | filler h => exact fillerCase_countsDown h hs
  | isFillerAlive answer hpc =>
    cases answer with
    | true => trivial
    | false => exact absurd rfl hanswer
  | getVals ret vals hpc => trivial
  | request args hpc => exact hs
  | client h => exact hs
  | expirate => exact hs
  | shutdown => exact hs

theorem roomInBatch_of_countsDown (hs : CountsDown cfg s.filler) (action : Action) :
    RoomInBatch cfg s action := by
  cases action with
  | filler now =>
    unfold CountsDown at hs
    unfold RoomInBatch
    dsimp only
    split
    · rename_i n hpc
      rw [hpc] at hs
      exact fun _ => Nat.lt_of_le_of_lt (Nat.le_add_right _ _) hs
    · trivial
  | request c args | client c now refresh | isFillerAlive answer | getVals ret vals | expirate
    | shutdown => trivial

/-- A run in which `is_filler_alive` never answers no has room for every key that it pops: a round
then starts without keys, and its count bounds what it pops. -/
theorem run_roomInBatch {storage : Storage} {actions : List Action}
    (hanswers : .isFillerAlive false ∉ actions) :
    Run.Every (step cfg env) (RoomInBatch cfg) (init storage) actions := by
  refine Run.every_iff.mpr (fun front action rest t hsplit ht => roomInBatch_of_countsDown ?_ _)
  have hfront : .isFillerAlive false ∉ front := fun hmem =>
    hanswers (hsplit ▸ List.mem_append_left _ hmem)
  revert hfront
  refine Run.exec_induction (P := fun front t => .isFillerAlive false ∉ front →
    CountsDown cfg t.filler) ?_ ?_ ht
  · exact fun _ => rfl
  · intro front s action t _ ih hstep hfront
    rw [List.mem_append, not_or, List.mem_singleton] at hfront
    exact step_countsDown (step_cases hstep) (Ne.symm hfront.2) (ih hfront.1)

/-- A filler for one key at a time that finds its library down with a key in hand. -/
def outageScript : List Action :=
  askScript 0 [107] ++ List.replicate 8 (.filler 0) ++ [.isFillerAlive false] ++
    askScript 0 [108] ++ List.replicate 8 (.filler 0) ++ [.isFillerAlive true, .getVals true []]

/-- With `max_fill_size_` at 1, a key is kept over an outage, a second one joins it, and `get_vals`
is given both. -/
theorem run_batches_outage :
    ¬ Run.Every (step { isFillerAlive := true, maxFillSize_ := 1 } .plain)
      (BatchBounded { isFillerAlive := true, maxFillSize_ := 1 }) (init (.init 0 10 100 100 1))
      outageScript := by
  decide +kernel

end Sys

end Swordfish
