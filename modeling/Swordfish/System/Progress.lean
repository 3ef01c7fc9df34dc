import Swordfish.System.Stuck

/-!
# Every queued key can be fetched

From every state in which evictions can still make room, the filler and its library alone get each
key in the queue into a call of `get_vals`: the round goes on to its next pop or to its fetch, and
each pop brings the key nearer to the head of the queue. Nothing another thread has done stands in
the way.
-/

namespace Swordfish
open DHashmap

variable {cfg : FillerConfig} {env : Env}

/-! ## An eviction frees enough -/

/-- The loop of `expirate` stops when it has enough, or when no key is left. -/
theorem DHashmap.expirateLoop_enough (n : UInt64) (l : List KeyType) (deletedBytes : UInt64) :
    n ≤ (expirateLoop n l deletedBytes).2 ∨ (expirateLoop n l deletedBytes).1 = l.length := by
  induction l generalizing deletedBytes with
  | nil => exact Or.inr rfl
  | cons e l ih =>
    rw [expirateLoop]
    by_cases hless : deletedBytes < n
    · rw [if_pos hless]
      exact (ih _).imp id (congrArg (· + 1))
    · rw [if_neg hless]
      exact Or.inl (UInt64.not_lt.mp hless)

namespace Storage

variable {s : Storage}

/-- An eviction of a storage that stands at its limit leaves it below. -/
theorem Counted.lt_expirate {leaked : Nat} (h : Counted env leaked s)
    (hexpirate : 0 < s.expirateSize_) (hleaked : leaked < s.maxStorageSize_.toNat)
    (hlimit : s.storage_.heldBytes + leaked = s.maxStorageSize_.toNat) :
    s.expirate.storage_.heldBytes + leaked < s.maxStorageSize_.toNat := by
  rcases DHashmap.expirateLoop_enough s.expirateSize_ s.storage_.keys_.entries 0 with
    hbytes | hall
  · have hle : s.expirate.storage_.heldBytes ≤ s.storage_.heldBytes :=
      heldBytes_expirate_le s.storage_ s.expirateSize_
    have hne : s.expirate.storage_.heldBytes ≠ s.storage_.heldBytes := by
      intro heq
      have hsum := expirate_bytes h.interned s.expirateSize_
      change s.storage_.expirateBytes s.expirateSize_ +
        UInt64.ofNat s.expirate.storage_.heldBytes = _ at hsum
      rw [heq, UInt64.add_eq_right] at hsum
      have hnone : s.expirateSize_ ≤ 0 := hsum ▸ hbytes
      exact UInt64.not_lt.mpr hnone hexpirate
    omega
  · have hkeys : s.expirate.storage_.keys_.entries = [] := by
      change s.storage_.keys_.entries.drop (expirateLoop _ _ 0).1 = []
      rw [hall, List.drop_length]
    rw [heldBytes_of_no_keys hkeys, Nat.zero_add]
    exact hleaked

/-- What the tests read, in terms of the bytes. -/
theorem Counted.toNat_storageSize {leaked : Nat} (h : Counted env leaked s) :
    s.storageSize.toNat = s.storage_.heldBytes + leaked := by
  have hsmall := h.small
  have hwide : s.storage_.heldBytes + leaked < 2 ^ 64 := by omega
  rw [Storage.toNat_storageSize, h.counter, UInt64.toNat_ofNat', Nat.mod_eq_of_lt hwide,
    Nat.mod_eq_of_lt hsmall]

/-- The tests for room fail exactly at the limit. -/
theorem Counted.room_iff {leaked : Nat} (h : Counted env leaked s) :
    s.maxStorageSize_ - s.storageSize = 0 ↔
      s.storage_.heldBytes + leaked = s.maxStorageSize_.toNat := by
  rw [← h.toNat_storageSize]
  constructor
  · intro hzero
    rw [UInt64.sub_eq_iff_eq_add, UInt64.zero_add] at hzero
    rw [hzero]
  · intro heq
    rw [UInt64.toNat_inj.mp heq, UInt64.sub_self]

end Storage

/-! ## The filler and its library -/

/-- What the filler and its library do. -/
def Action.OfFiller : Action → Prop
  | .filler _ | .isFillerAlive _ | .getVals _ _ => True
  | .request _ _ | .client _ _ _ | .expirate | .shutdown => False

instance : DecidablePred Action.OfFiller
  | .filler _ | .isFillerAlive _ | .getVals _ _ => isTrue trivial
  | .request _ _ | .client _ _ _ | .expirate | .shutdown => isFalse id

namespace Sys

/-- The key is in the call of `get_vals` that the filler is about to make. -/
def Asks (key : Str) (s : Sys) : Prop := s.filler.pc = .fetch ∧ key ∈ s.filler.keys

/-- The filler and its library get to ask for the key. -/
def Leads (cfg : FillerConfig) (env : Env) (key : Str) (s : Sys) : Prop :=
  Run.Reaches (Run.only Action.OfFiller Halt.blocked (step cfg env)) s (Asks key)

/-- The filler has not been shut down, and evictions make room. -/
structure Ready (env : Env) (leaked : Nat) (s : Sys) : Prop where
  counted : s.storage.Counted env leaked
  evicts : 0 < s.storage.expirateSize_
  room : leaked < s.storage.maxStorageSize_.toNat
  short : s.storage.queue_.queue_.length < 2 ^ 32
  alive : s.isAlive_ = true

variable {key : Str} {leaked : Nat} {s : Sys}

theorem leads_of_test (pc : FillerPc) (htest : s.filler.test cfg s.storage s.isAlive_ = some pc)
    (h : Leads cfg env key { s with filler := { s.filler with pc := pc } }) :
    Leads cfg env key s := by
  apply h.next (o := .filler 0)
  simp only [Run.only, Action.OfFiller, if_true, step, Filler.step, htest, History.record]

/-! ### With the key in the batch -/

theorem leads_of_fetchTest (hpc : s.filler.pc = .fetchTest) (hkey : key ∈ s.filler.keys) :
    Leads cfg env key s := by
  have hkeys : s.filler.keys ≠ [] := List.ne_nil_of_mem hkey
  have htest : s.filler.test cfg s.storage s.isAlive_ =
      some (if cfg.isFillerAlive then .askAlive else .fetch) := by
    simp only [Filler.test, hpc, if_neg hkeys]
  apply leads_of_test _ htest
  cases hask : cfg.isFillerAlive with
  | true =>
    apply Run.Reaches.next (o := .isFillerAlive true)
      (t := { s with filler := { s.filler with pc := .fetch } }) rfl
    exact Run.Reaches.refl ⟨rfl, hkey⟩
  | false => exact Run.Reaches.refl ⟨rfl, hkey⟩

theorem leads_of_pop {t : UInt64} (hpc : s.filler.pc = .pop t)
    (h : ∀ keys, s.filler.keys <+: keys →
      (s.storage.queue_.waitAndPop.2 ≠ [] → s.storage.queue_.waitAndPop.2 ∈ keys) →
      Leads cfg env key { s with
        storage := { s.storage with queue_ := s.storage.queue_.waitAndPop.1 }
        filler := { s.filler with pc := .aliveTest t, keys := keys } }) :
    Leads cfg env key s := by
  have htest : s.filler.test cfg s.storage s.isAlive_ = none := by
    simp only [Filler.test, hpc]
  by_cases hempty : s.storage.queue_.waitAndPop.2 ≠ []
  · apply (h (s.filler.keys ++ [s.storage.queue_.waitAndPop.2]) (List.prefix_append _ _)
      (fun _ => List.mem_append_right _ (List.mem_singleton_self _))).next (o := .filler 0)
    simp only [Run.only, Action.OfFiller, if_true, step, Filler.step, htest, hpc, if_pos hempty,
      History.record]
  · apply (h s.filler.keys (List.prefix_refl _) (fun hne => absurd hne hempty)).next
      (o := .filler 0)
    simp only [Run.only, Action.OfFiller, if_true, step, Filler.step, htest, hpc, if_neg hempty,
      History.record]

/-- A batch goes to the library, whatever is popped before. -/
theorem leads_of_collected {t : UInt64} (hpc : s.filler.pc = .aliveTest t)
    (hkey : key ∈ s.filler.keys) : Leads cfg env key s := by
  induction hn : t.toNat using Nat.strongRecOn generalizing s t with
  | ind n ih =>
    by_cases hmore : t ≠ 0 ∧ s.isAlive_
    · have hless : (t - 1).toNat < n := by
        have hpos := UInt64.lt_iff_toNat_lt.mp (UInt64.pos_iff_ne_zero.mpr hmore.1)
        rw [UInt64.toNat_sub_of_le t 1 (UInt64.le_iff_toNat_le.mpr hpos), ← hn]
        exact Nat.sub_lt hpos Nat.one_pos
      apply leads_of_test (.queueTest (t - 1)) (by simp only [Filler.test, hpc, if_pos hmore])
      by_cases hqueue : s.storage.queue_.size ≠ 0
      · apply leads_of_test (.sizeTest (t - 1)) (by simp only [Filler.test, if_pos hqueue])
        by_cases hroom : s.storage.maxStorageSize_ - s.storage.storageSize > 0
        · apply leads_of_test (.pop (t - 1)) (by simp only [Filler.test, if_pos hroom])
          apply leads_of_pop rfl
          intro keys hkeys _
          exact ih _ hless rfl (hkeys.subset hkey) rfl
        · apply leads_of_test .fetchTest (by simp only [Filler.test, if_neg hroom])
          exact leads_of_fetchTest rfl hkey
      · apply leads_of_test .fetchTest (by simp only [Filler.test, if_neg hqueue])
        exact leads_of_fetchTest rfl hkey
    · apply leads_of_test .fetchTest (by simp only [Filler.test, hpc, if_neg hmore])
      exact leads_of_fetchTest rfl hkey

/-! ### With the key in the queue -/

theorem Ready.filler (h : Ready env leaked s) (f : Filler) :
    Ready env leaked { s with filler := f } :=
  ⟨h.counted, h.evicts, h.room, h.short, h.alive⟩

theorem Ready.expirate (h : Ready env leaked s) (f : Filler) :
    Ready env leaked { s with storage := s.storage.expirate, filler := f } :=
  ⟨h.counted.expirate, h.evicts, h.room, h.short, h.alive⟩

theorem Ready.pop (h : Ready env leaked s) (f : Filler) :
    Ready env leaked { s with
      storage := { s.storage with queue_ := s.storage.queue_.waitAndPop.1 }, filler := f } := by
  refine ⟨⟨h.counted.interned, h.counted.counter, h.counted.small⟩, h.evicts, h.room, ?_, h.alive⟩
  have hshort := h.short
  dsimp only
  unfold Queue.waitAndPop
  split
  · exact hshort
  · rename_i head rest hqueue
    rw [hqueue, List.length_cons] at hshort
    exact Nat.lt_of_succ_lt hshort

/-- The tests find what is in the queue. -/
theorem Ready.size_ne_zero (h : Ready env leaked s) (hqueue : s.storage.queue_.queue_ ≠ []) :
    s.storage.queue_.size ≠ 0 := by
  intro hzero
  have hnat := congrArg UInt32.toNat hzero
  rw [Queue.size, UInt32.toNat_ofNat', Nat.mod_eq_of_lt h.short] at hnat
  exact hqueue (List.length_eq_zero_iff.mp hnat)

/-- What is asked of the point of the round where a key is popped. -/
def PopLeads (cfg : FillerConfig) (env : Env) (key : Str) (leaked : Nat) (queue : List Str) :
    Prop :=
  ∀ (u : Sys) (t : UInt64), Ready env leaked u → u.storage.queue_.queue_ = queue →
    u.filler.pc = .pop t → Leads cfg env key u

variable {queue : List Str}

/-- With room in the storage, a count that is not used up leads to a pop. -/
theorem leads_of_room {t : UInt64} (hpop : PopLeads cfg env key leaked queue)
    (h : Ready env leaked s) (hs : s.storage.queue_.queue_ = queue) (hne : queue ≠ [])
    (hpc : s.filler.pc = .aliveTest t) (ht : t ≠ 0)
    (hroom : s.storage.maxStorageSize_ - s.storage.storageSize ≠ 0) : Leads cfg env key s := by
  apply leads_of_test (.queueTest (t - 1))
  · simp only [Filler.test, hpc, if_pos (And.intro ht h.alive)]
  apply leads_of_test (.sizeTest (t - 1))
  · simp only [Filler.test, if_pos (h.size_ne_zero (hs ▸ hne))]
  apply leads_of_test (.pop (t - 1))
  · simp only [Filler.test, gt_iff_lt, UInt64.pos_iff_ne_zero.mpr hroom, if_true]
  exact hpop _ (t - 1) (h.filler _) hs rfl

/-- A new round makes room, and gets to a pop. -/
theorem leads_of_loop (hpop : PopLeads cfg env key leaked queue) (hfill : cfg.maxFillSize_ ≠ 0)
    (h : Ready env leaked s) (hs : s.storage.queue_.queue_ = queue) (hne : queue ≠ [])
    (hpc : s.filler.pc = .loop ∨ s.filler.pc = .fullTest) : Leads cfg env key s := by
  have hfull : ∀ u : Sys, Ready env leaked u → u.storage.queue_.queue_ = queue →
      u.filler.pc = .fullTest → Leads cfg env key u := by
    intro u hu hqueue hupc
    by_cases hlimit : u.storage.maxStorageSize_ - u.storage.storageSize = 0
    · apply leads_of_test .expirate
      · simp only [Filler.test, hupc, if_pos hlimit]
      have hless := hu.counted.lt_expirate hu.evicts hu.room (hu.counted.room_iff.mp hlimit)
      have hroom : u.storage.expirate.maxStorageSize_ - u.storage.expirate.storageSize ≠ 0 := by
        intro hzero
        exact Nat.ne_of_lt hless (hu.counted.expirate.room_iff.mp hzero)
      refine Run.Reaches.next (o := .filler 0) rfl ?_
      exact leads_of_room hpop (hu.expirate _) hqueue hne rfl hfill hroom
    · apply leads_of_test (.aliveTest cfg.maxFillSize_)
      · simp only [Filler.test, hupc, if_neg hlimit]
      exact leads_of_room hpop (hu.filler _) hqueue hne rfl hfill hlimit
  rcases hpc with hpc | hpc
  · apply leads_of_test .fullTest
    · simp only [Filler.test, hpc, h.alive, if_true]
    exact hfull _ (h.filler _) hs rfl
  · exact hfull s h hs hpc

/-- A fetch that gives nothing ends the round. -/
theorem leads_of_fetch (hpop : PopLeads cfg env key leaked queue) (hfill : cfg.maxFillSize_ ≠ 0)
    (h : Ready env leaked s) (hs : s.storage.queue_.queue_ = queue) (hne : queue ≠ [])
    (hpc : s.filler.pc = .fetch ∨ s.filler.pc = .askAlive) : Leads cfg env key s := by
  have hfetch : ∀ u : Sys, Ready env leaked u → u.storage.queue_.queue_ = queue →
      u.filler.pc = .fetch → Leads cfg env key u := by
    intro u hu hqueue hupc
    have hstep : Run.only Action.OfFiller Halt.blocked (step cfg env) u (.getVals true []) =
        .ok { u with
          filler := { u.filler with pc := .pair 0, vals := [] }
          log := .fetched u.filler.keys true [] :: u.log } := by
      simp only [Run.only, Action.OfFiller, if_true, step, hupc]
    apply Run.Reaches.next hstep
    have hend : Run.only Action.OfFiller Halt.blocked (step cfg env)
        { u with
          filler := { u.filler with pc := .pair 0, vals := [] }
          log := .fetched u.filler.keys true [] :: u.log } (.filler 0) =
        .ok { u with
          filler := { pc := .loop, keys := [], vals := [] }
          log := .fetched u.filler.keys true [] :: u.log } := by
      cases hkeys : u.filler.keys <;> simp [Run.only, Action.OfFiller, step, Filler.step,
        Filler.test, History.record, hkeys]
    apply Run.Reaches.next hend
    have hready : Ready env leaked { u with
        filler := { pc := .loop, keys := [], vals := [] }
        log := .fetched u.filler.keys true [] :: u.log } :=
      ⟨hu.counted, hu.evicts, hu.room, hu.short, hu.alive⟩
    exact leads_of_loop hpop hfill hready hqueue hne (Or.inl rfl)
  rcases hpc with hpc | hpc
  · exact hfetch s h hs hpc
  · have hstep : Run.only Action.OfFiller Halt.blocked (step cfg env) s (.isFillerAlive true) =
        .ok { s with filler := { s.filler with pc := .fetch } } := by
      simp only [Run.only, Action.OfFiller, if_true, step, hpc]
    apply Run.Reaches.next hstep
    exact hfetch _ (h.filler _) hs rfl

theorem leads_of_collect (hpop : PopLeads cfg env key leaked queue) (hfill : cfg.maxFillSize_ ≠ 0)
    (h : Ready env leaked s) (hs : s.storage.queue_.queue_ = queue) (hne : queue ≠ [])
    (hpc : s.filler.pc = .fetchTest) : Leads cfg env key s := by
  by_cases hkeys : s.filler.keys = []
  · apply leads_of_test .loop
    · simp only [Filler.test, hpc, if_pos hkeys]
    exact leads_of_loop hpop hfill (h.filler _) hs hne (Or.inl rfl)
  · apply leads_of_test (if cfg.isFillerAlive then .askAlive else .fetch)
    · simp only [Filler.test, hpc, if_neg hkeys]
    have hready := h.filler
      { s.filler with pc := if cfg.isFillerAlive then .askAlive else .fetch }
    apply leads_of_fetch hpop hfill hready hs hne
    cases cfg.isFillerAlive with
    | true => exact Or.inr rfl
    | false => exact Or.inl rfl

theorem leads_of_sizeTest {t : UInt64} (hpop : PopLeads cfg env key leaked queue)
    (hfill : cfg.maxFillSize_ ≠ 0) (h : Ready env leaked s)
    (hs : s.storage.queue_.queue_ = queue) (hne : queue ≠ []) (hpc : s.filler.pc = .sizeTest t) :
    Leads cfg env key s := by
  by_cases hroom : s.storage.maxStorageSize_ - s.storage.storageSize > 0
  · apply leads_of_test (.pop t)
    · simp only [Filler.test, hpc, if_pos hroom]
    exact hpop _ t (h.filler _) hs rfl
  · apply leads_of_test .fetchTest
    · simp only [Filler.test, hpc, if_neg hroom]
    exact leads_of_collect hpop hfill (h.filler _) hs hne rfl

theorem leads_of_queueTest {t : UInt64} (hpop : PopLeads cfg env key leaked queue)
    (hfill : cfg.maxFillSize_ ≠ 0) (h : Ready env leaked s)
    (hs : s.storage.queue_.queue_ = queue) (hne : queue ≠ []) (hpc : s.filler.pc = .queueTest t) :
    Leads cfg env key s := by
  apply leads_of_test (.sizeTest t)
  · simp only [Filler.test, hpc, if_pos (h.size_ne_zero (hs ▸ hne))]
  exact leads_of_sizeTest hpop hfill (h.filler _) hs hne rfl

theorem leads_of_aliveTest {t : UInt64} (hpop : PopLeads cfg env key leaked queue)
    (hfill : cfg.maxFillSize_ ≠ 0) (h : Ready env leaked s)
    (hs : s.storage.queue_.queue_ = queue) (hne : queue ≠ []) (hpc : s.filler.pc = .aliveTest t) :
    Leads cfg env key s := by
  by_cases ht : t = 0
  · have hused : ¬ (t ≠ 0 ∧ s.isAlive_) := fun hboth => hboth.1 ht
    apply leads_of_test .fetchTest
    · simp only [Filler.test, hpc, if_neg hused]
    exact leads_of_collect hpop hfill (h.filler _) hs hne rfl
  · apply leads_of_test (.queueTest (t - 1))
    · simp only [Filler.test, hpc, if_pos (And.intro ht h.alive)]
    exact leads_of_queueTest hpop hfill (h.filler _) hs hne rfl

/-- Wherever the filler stands in its round, but for the pairs it stores: it gets to a pop. -/
theorem leads_of_round (hpop : PopLeads cfg env key leaked queue) (hfill : cfg.maxFillSize_ ≠ 0)
    (h : Ready env leaked s) (hs : s.storage.queue_.queue_ = queue) (hne : queue ≠ [])
    (hstoring : ¬ s.filler.pc.Storing) (hstopped : s.filler.pc ≠ .stopped) :
    Leads cfg env key s := by
  cases hpc : s.filler.pc with
  | loop => exact leads_of_loop hpop hfill h hs hne (Or.inl hpc)
  | fullTest => exact leads_of_loop hpop hfill h hs hne (Or.inr hpc)
  | expirate =>
    have hstep : Run.only Action.OfFiller Halt.blocked (step cfg env) s (.filler 0) =
        .ok { s with
          storage := s.storage.expirate
          filler := { s.filler with pc := .aliveTest cfg.maxFillSize_ } } := by
      simp only [Run.only, Action.OfFiller, if_true, step, Filler.step, Filler.test, hpc,
        History.record]
    apply Run.Reaches.next hstep
    exact leads_of_aliveTest hpop hfill (h.expirate _) hs hne rfl
  | aliveTest t => exact leads_of_aliveTest hpop hfill h hs hne hpc
  | queueTest t => exact leads_of_queueTest hpop hfill h hs hne hpc
  | sizeTest t => exact leads_of_sizeTest hpop hfill h hs hne hpc
  | pop t => exact hpop s t h hs hpc
  | fetchTest => exact leads_of_collect hpop hfill h hs hne hpc
  | askAlive => exact leads_of_fetch hpop hfill h hs hne (Or.inr hpc)
  | fetch => exact leads_of_fetch hpop hfill h hs hne (Or.inl hpc)
  | pair i | capacityTest i key val | evict i key val | add i key val =>
    rw [hpc] at hstoring
    exact absurd trivial hstoring
  | stopped => exact absurd hpc hstopped

/-- Each pop brings the key nearer to the head of the queue; the induction is on what is in front
of it. -/
theorem leads_of_queued {before after : List Str} (hkey : key ≠ [])
    (hfill : cfg.maxFillSize_ ≠ 0) (h : Ready env leaked s)
    (hs : s.storage.queue_.queue_ = before ++ key :: after) (hstoring : ¬ s.filler.pc.Storing)
    (hstopped : s.filler.pc ≠ .stopped) : Leads cfg env key s := by
  induction before generalizing s with
  | nil =>
    suffices hpop : PopLeads cfg env key leaked (key :: after) by
      exact leads_of_round hpop hfill h hs (List.cons_ne_nil _ _) hstoring hstopped
    intro u t hu hqueue hpc
    apply leads_of_pop hpc
    intro keys _ hpopped
    have hhead : u.storage.queue_.waitAndPop.2 = key := by
      rw [Queue.waitAndPop, hqueue]
    rw [hhead] at hpopped
    exact leads_of_collected rfl (hpopped hkey)
  | cons first before ih =>
    suffices hpop : PopLeads cfg env key leaked (first :: (before ++ key :: after)) by
      exact leads_of_round hpop hfill h hs (List.cons_ne_nil _ _) hstoring hstopped
    intro u t hu hqueue hpc
    apply leads_of_pop hpc
    intro keys _ _
    have hrest : u.storage.queue_.waitAndPop.1.queue_ = before ++ key :: after := by
      rw [Queue.waitAndPop, hqueue]
    exact ih (hu.pop _) hrest id (by simp)

/-! ## Runs -/

theorem stopped_of_test {storage : Storage} {isAlive : Bool} {f : Filler}
    (h : f.test cfg storage isAlive = some .stopped) : isAlive = false := by
  unfold Filler.test at h
  cases hpc : f.pc with
  | loop =>
    rw [hpc] at h
    cases isAlive with
    | true => cases h
    | false => rfl
  | fullTest | aliveTest t | queueTest t | sizeTest t | capacityTest i key val =>
    rw [hpc] at h
    simp only [Option.some.injEq] at h
    split at h <;> cases h
  | fetchTest =>
    rw [hpc] at h
    simp only [Option.some.injEq] at h
    split at h
    · cases h
    · split at h <;> cases h
  | expirate | pop t | askAlive | fetch | pair i | evict i key val | add i key val | stopped =>
    rw [hpc] at h
    cases h

/-- Only a filler that has been shut down is stopped. -/
theorem run_stopped {storage : Storage} {actions : List Action}
    (h : run cfg env (.init storage) actions = .ok s) (hpc : s.filler.pc = .stopped) :
    s.isAlive_ = false := by
  refine Run.exec_invariant (I := fun s => s.filler.pc = .stopped → s.isAlive_ = false) ?_ ?_ h hpc
  · intro s action t hs hstep ht
    cases step_cases hstep with
    | request args hidle => exact hs ht
    | client hclient => exact hs ht
    | expirate => exact hs ht
    | shutdown => rfl
    | isFillerAlive answer hask => cases answer <;> cases ht
    | getVals ret vals hfetch => cases ht
    | filler hfiller =>
      cases hfiller with
      | test htest =>
        exact stopped_of_test (htest.trans (congrArg some ht))
      | expirate hexpirate | pop hpop | addItem hpair hkey hval | roundEnd hpair hend
        | evict hevict | add hadd hstored => cases ht
  · intro hinit
    cases hinit

/-- No reachable state is a dead end for a queued key: while evictions free bytes, the bytes that
are counted and held by nothing are below the limit and the filler is not shut down, the filler and
its library alone get the key into a call of `get_vals`, wherever the filler stands in its round
but for `add_item`. The byte counter and the number of keys that wait are below `2 ^ 32`, so that
`storage_size` and `queue_size` return them as they are. -/
theorem run_fetches {now : TimeType} {ttl : Nat}
    {maxStorageSize maxQueueSize expirateSize : UInt64} {actions : List Action}
    (h : run cfg env (.init (.init now ttl maxStorageSize maxQueueSize expirateSize)) actions =
      .ok s) (hkey : key ∈ s.storage.queue_.queue_) (hne : key ≠ [])
    (hfill : cfg.maxFillSize_ ≠ 0) (halive : s.isAlive_ = true)
    (hstoring : ¬ s.filler.pc.Storing) (hevicts : s.storage.expirateSize_ ≠ 0)
    (hheld : s.storage.storage_.heldBytes ≤ s.storage.storage_.storageSize.toNat)
    (hsmall : s.storage.storage_.storageSize.toNat < 2 ^ 32)
    (hroom : s.storage.storage_.storageSize.toNat - s.storage.storage_.heldBytes <
      s.storage.maxStorageSize_.toNat)
    (hshort : s.storage.queue_.queue_.length < 2 ^ 32) :
    ∃ more t, (∀ action ∈ more, action.OfFiller) ∧ run cfg env s more = .ok t ∧
      t.filler.pc = .fetch ∧ key ∈ t.filler.keys := by
  have hw : Interned env s.storage.storage_ := (run_provenance h).stored.interned
  have hready : Ready env (s.storage.storage_.storageSize.toNat - s.storage.storage_.heldBytes) s :=
    ⟨Storage.counted_of_held hw hheld hsmall, UInt64.pos_iff_ne_zero.mpr hevicts, hroom, hshort,
      halive⟩
  have hstopped : s.filler.pc ≠ .stopped := by
    intro hpc
    rw [run_stopped h hpc] at halive
    cases halive
  obtain ⟨before, after, hs⟩ := List.append_of_mem hkey
  obtain ⟨more, t, hmore, ht⟩ := leads_of_queued hne hfill hready hs hstoring hstopped
  obtain ⟨hfiller, hrun⟩ := Run.exec_only_ok.mp hmore
  exact ⟨more, t, hfiller, hrun, ht⟩

/-- Two keys are queued, and the filler fetches one at a time: it gets to the second. -/
theorem run_fetches_second :
    ∃ s more t, run ⟨true, 1⟩ .plain (.init (.init 0 10 100 100 1))
        (.request 0 [[107], [108]] :: List.replicate 9 (.client 0 0 0)) = .ok s ∧
      (∀ action ∈ more, action.OfFiller) ∧ run ⟨true, 1⟩ .plain s more = .ok t ∧
      t.filler.pc = .fetch ∧ [108] ∈ t.filler.keys := by
  obtain ⟨s, hrun, hkey, halive, hpc, hevicts, hheld, hsmall, hroom, hshort⟩ :=
    Run.yields_iff.mp (by decide +kernel :
      Run.Yields (step ⟨true, 1⟩ .plain)
        (fun s => [108] ∈ s.storage.queue_.queue_ ∧ s.isAlive_ = true ∧ s.filler.pc = .loop ∧
          s.storage.expirateSize_ ≠ 0 ∧
          s.storage.storage_.heldBytes ≤ s.storage.storage_.storageSize.toNat ∧
          s.storage.storage_.storageSize.toNat < 2 ^ 32 ∧
          s.storage.storage_.storageSize.toNat - s.storage.storage_.heldBytes <
            s.storage.maxStorageSize_.toNat ∧
          s.storage.queue_.queue_.length < 2 ^ 32)
        (.init (.init 0 10 100 100 1))
        (.request 0 [[107], [108]] :: List.replicate 9 (.client 0 0 0)))
  obtain ⟨more, t, hfetches⟩ := run_fetches hrun hkey (by decide) (by decide) halive
    (by rw [hpc]; exact id) hevicts hheld hsmall hroom hshort
  exact ⟨s, more, t, hrun, hfetches⟩

end Sys

end Swordfish
