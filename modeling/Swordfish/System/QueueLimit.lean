import Mathlib.Data.Fintype.Card
import Swordfish.System.Flow

/-!
# The limit on the queue

`push_key` tests the size of the queue and then pushes, and the mutex of the queue is free in
between. Threads that have passed the test together push together: the limit holds as long as no
push comes between the test and the push of another thread, and is exceeded by less than the number
of threads otherwise.
-/

namespace Swordfish.Flow

variable {ι : Type} [DecidableEq ι] {cfg : FillerConfig} {env : Env}

/-- The step is a push of a key that is not in the queue. -/
def Appends (s : Flow ι) : Action ι → Prop
  | .pusher i =>
      match s.pushers i with
      | .push key => key ∉ s.storage.queue_.queue_
      | _ => False
  | _ => False

instance (s : Flow ι) : DecidablePred s.Appends
  | .pusher i =>
      match h : s.pushers i with
      | .push key =>
          decidable_of_iff (newKey s.storage.queue_ key ≠ []) (by simp [Appends, h, newKey])
      | .idle | .sizeTest _ | .setQueueSize _ => isFalse (by simp [Appends, h])
  | .call _ _ | .filler _ | .isFillerAlive _ | .getVals _ _ | .others _ _ | .shutdown =>
      isFalse id

/-- The thread has passed the size test, and has not pushed. -/
def Passed : Pusher → Prop
  | .push _ => True
  | _ => False

instance : DecidablePred Passed
  | .push _ => isTrue trivial
  | .idle | .sizeTest _ | .setQueueSize _ => isFalse id

/-- No push of another thread comes between a size test and its push: a thread that appends a key
is the only one that has passed the test and has not pushed. -/
def Alone (s : Flow ι) (action : Action ι) : Prop :=
  s.Appends action → ∀ i j, Passed (s.pushers i) → Passed (s.pushers j) → i = j

/-- The size test reads the size: the queue has fewer than `2 ^ 32` keys, unless the limit is below
that anyway. -/
def SizeFits (s : Flow ι) : Action ι → Prop
  | .pusher i =>
      match s.pushers i with
      | .sizeTest _ =>
          s.storage.maxQueueSize_.toNat < 2 ^ 32 ∨ s.storage.queue_.queue_.length < 2 ^ 32
      | _ => True
  | _ => True

/-- The size test still says what it said when the thread pushes. -/
def Undisturbed (s : Flow ι) (action : Action ι) : Prop := s.Alone action ∧ s.SizeFits action

instance (s : Flow ι) : DecidablePred s.SizeFits
  | .pusher i =>
      match h : s.pushers i with
      | .sizeTest _ =>
          decidable_of_iff
            (s.storage.maxQueueSize_.toNat < 2 ^ 32 ∨ s.storage.queue_.queue_.length < 2 ^ 32)
            (by simp [SizeFits, h])
      | .idle | .push _ | .setQueueSize _ => isTrue (by simp [SizeFits, h])
  | .call _ _ | .filler _ | .isFillerAlive _ | .getVals _ _ | .others _ _ | .shutdown =>
      isTrue trivial

instance [Fintype ι] (s : Flow ι) : DecidablePred s.Alone := fun action =>
  inferInstanceAs (Decidable
    (s.Appends action → ∀ i j, Passed (s.pushers i) → Passed (s.pushers j) → i = j))

instance [Fintype ι] (s : Flow ι) : DecidablePred s.Undisturbed := fun action =>
  inferInstanceAs (Decidable (s.Alone action ∧ s.SizeFits action))

/-- The number of keys in the queue is at most the limit. -/
def WithinLimit (s : Flow ι) : Prop :=
  s.storage.queue_.queue_.length ≤ s.storage.maxQueueSize_.toNat

theorem fillerCase_limit {s : Storage} {isAlive : Bool} {now : TimeType} {f : Filler}
    {r : Storage × Filler × Option Event} (h : FillerCase cfg env s isAlive now f r) :
    r.1.maxQueueSize_ = s.maxQueueSize_ ∧ r.1.queue_.queue_.length ≤ s.queue_.queue_.length := by
  cases h with
  | pop hpc =>
    refine ⟨rfl, ?_⟩
    dsimp only
    unfold Queue.waitAndPop
    cases hq : s.queue_.queue_ with
    | nil => exact Nat.le_of_eq (congrArg List.length hq)
    | cons data rest => exact Nat.le_succ _
  | test htest => exact ⟨rfl, Nat.le_refl _⟩
  | expirate hpc => exact ⟨rfl, Nat.le_refl _⟩
  | addItem hpc hkey hval => exact ⟨rfl, Nat.le_refl _⟩
  | roundEnd hpc hend => exact ⟨rfl, Nat.le_refl _⟩
  | evict hpc => exact ⟨rfl, Nat.le_refl _⟩
  | add hpc hadd => exact ⟨rfl, Nat.le_refl _⟩

/-- Only a step that appends a key makes the queue longer. -/
theorem StepCase.length_queue {s t : Flow ι} {action : Action ι}
    (h : StepCase cfg env s action t) :
    t.storage.maxQueueSize_ = s.storage.maxQueueSize_ ∧
      (¬ s.Appends action ∧
          t.storage.queue_.queue_.length ≤ s.storage.queue_.queue_.length ∨
        s.Appends action ∧
          t.storage.queue_.queue_.length = s.storage.queue_.queue_.length + 1) := by
  cases h with
  | @push i key hpc =>
    refine ⟨rfl, ?_⟩
    simp only [Appends, hpc, push_queue_, newKey]
    by_cases hmem : key ∈ s.storage.queue_.queue_
    · simp [hmem]
    · simp [hmem]
  | filler h =>
    obtain ⟨hlimit, hlength⟩ := fillerCase_limit h
    exact ⟨hlimit, Or.inl ⟨id, hlength⟩⟩
  | sizeTest hpc | setQueueSize hpc =>
    refine ⟨rfl, Or.inl ⟨?_, Nat.le_refl _⟩⟩
    simp only [Appends, hpc, not_false_eq_true]
  | call key hpc => exact ⟨rfl, Or.inl ⟨id, Nat.le_refl _⟩⟩
  | isFillerAlive answer hpc => exact ⟨rfl, Or.inl ⟨id, Nat.le_refl _⟩⟩
  | getVals ret vals hpc => exact ⟨rfl, Or.inl ⟨id, Nat.le_refl _⟩⟩
  | others storage stats => exact ⟨rfl, Or.inl ⟨id, Nat.le_refl _⟩⟩
  | shutdown => exact ⟨rfl, Or.inl ⟨id, Nat.le_refl _⟩⟩

/-- A thread that passes the test finds the queue below its limit, while the 32-bit size is
exact. -/
theorem length_lt_of_sizeTest {s : Storage} (hsmall : s.queue_.queue_.length < 2 ^ 32)
    (htest : s.queue_.size.toUInt64 < s.maxQueueSize_) :
    s.queue_.queue_.length < s.maxQueueSize_.toNat := by
  have hlt := UInt64.lt_iff_toNat_lt.mp htest
  rwa [Queue.toNat_size, Nat.mod_eq_of_lt hsmall] at hlt

/-- The limit is kept, and there is still room for the key of any thread that has passed the test
and has not pushed. -/
structure HasRoom (s : Flow ι) : Prop where
  limit : s.WithinLimit
  passed : ∀ i, Passed (s.pushers i) →
    s.storage.queue_.queue_.length < s.storage.maxQueueSize_.toNat

/-- A thread that moves to where it has not passed the test, and a queue that is no longer than
before. -/
theorem HasRoom.update {s t : Flow ι} (hs : s.HasRoom) {i : ι} {x : Pusher}
    (hpushers : t.pushers = Function.update s.pushers i x) (hx : ¬ Passed x)
    (hlimit : t.storage.maxQueueSize_ = s.storage.maxQueueSize_)
    (hlength : t.storage.queue_.queue_.length ≤ s.storage.queue_.queue_.length) : t.HasRoom where
  limit := by
    unfold WithinLimit
    rw [hlimit]
    exact hlength.trans hs.limit
  passed j hj := by
    rw [hpushers] at hj
    rcases eq_or_ne j i with rfl | hne
    · rw [Function.update_self] at hj
      exact absurd hj hx
    · rw [Function.update_of_ne hne] at hj
      rw [hlimit]
      exact hlength.trans_lt (hs.passed j hj)

omit [DecidableEq ι] in
/-- A step that leaves the threads where they are, and a queue that is no longer than before. -/
theorem HasRoom.keep {s t : Flow ι} (hs : s.HasRoom) (hpushers : t.pushers = s.pushers)
    (hlimit : t.storage.maxQueueSize_ = s.storage.maxQueueSize_)
    (hlength : t.storage.queue_.queue_.length ≤ s.storage.queue_.queue_.length) : t.HasRoom where
  limit := by
    unfold WithinLimit
    rw [hlimit]
    exact hlength.trans hs.limit
  passed j hj := by
    rw [hlimit]
    exact hlength.trans_lt (hs.passed j (hpushers ▸ hj))

/-- An undisturbed step keeps the limit, and the room that the size tests have found. -/
theorem StepCase.hasRoom {s t : Flow ι} {action : Action ι} (h : StepCase cfg env s action t)
    (hs : s.HasRoom) (haction : s.Undisturbed action) : t.HasRoom := by
  cases h with
  | call key hpc => exact hs.update rfl id rfl (Nat.le_refl _)
  | setQueueSize hpc => exact hs.update rfl id rfl (Nat.le_refl _)
  | @sizeTest i key hpc =>
    by_cases htest : s.storage.queue_.size.toUInt64 < s.storage.maxQueueSize_
    · have hfits : s.storage.maxQueueSize_.toNat < 2 ^ 32 ∨
          s.storage.queue_.queue_.length < 2 ^ 32 := by
        have hsize := haction.2
        simp only [SizeFits, hpc] at hsize
        exact hsize
      have hsmall : s.storage.queue_.queue_.length < 2 ^ 32 :=
        hfits.elim (fun hmax => hs.limit.trans_lt hmax) id
      exact ⟨hs.limit, fun _ _ => length_lt_of_sizeTest hsmall htest⟩
    · exact hs.update rfl (by rw [if_neg htest]; exact id) rfl (Nat.le_refl _)
  | @push i key hpc =>
    have hpassed : Passed (s.pushers i) := by
      rw [hpc]
      trivial
    by_cases hmem : key ∈ s.storage.queue_.queue_
    · have hsame : (s.storage.queue_.push key).1 = s.storage.queue_ := by
        simp only [Queue.push, if_pos hmem]
      exact hs.update rfl id rfl (Nat.le_of_eq (by rw [hsame]))
    · -- the place that the test has found is taken, and nobody else counts on it
      have happends : s.Appends (.pusher i) := by
        simp only [Appends, hpc]
        exact hmem
      have hlength : (s.storage.queue_.push key).1.queue_.length =
          s.storage.queue_.queue_.length + 1 := by
        rw [push_queue_]
        simp [newKey, hmem]
      refine ⟨hlength.trans_le (hs.passed i hpassed), fun j hj => ?_⟩
      dsimp only at hj
      rcases eq_or_ne j i with rfl | hne
      · rw [Function.update_self] at hj
        exact absurd hj id
      · rw [Function.update_of_ne hne] at hj
        exact absurd (haction.1 happends j i hj hpassed) hne
  | filler h =>
    obtain ⟨hlimit, hlength⟩ := fillerCase_limit h
    exact hs.keep rfl hlimit hlength
  | isFillerAlive answer hpc => exact hs.keep rfl rfl (Nat.le_refl _)
  | getVals ret vals hpc => exact hs.keep rfl rfl (Nat.le_refl _)
  | others storage stats => exact hs.keep rfl rfl (Nat.le_refl _)
  | shutdown => exact hs.keep rfl rfl (Nat.le_refl _)

/-- The limit on the queue: in every run of any number of threads with the filler in which no push
of another thread comes between a size test and its push, the queue holds at most
`max_queue_size_` keys at every point. -/
theorem withinLimit_of_undisturbed {start : TimeType} {ttl : Nat}
    {maxStorageSize maxQueueSize expirateSize : UInt64} {actions : List (Action ι)}
    (h : Run.Every (step cfg env) Undisturbed
      (init (.init start ttl maxStorageSize maxQueueSize expirateSize)) actions) :
    ∀ front rest t, actions = front ++ rest →
      run cfg env (init (.init start ttl maxStorageSize maxQueueSize expirateSize)) front = .ok t →
      t.storage.queue_.queue_.length ≤ t.storage.maxQueueSize_.toNat := by
  rintro front rest t rfl ht
  suffices hroom : t.HasRoom from hroom.limit
  refine Run.every_induction (P := fun _ s => s.HasRoom) ?_ ?_ ht ((Run.every_append ht).mp h).1
  · exact ⟨Nat.zero_le _, fun i hi => absurd hi id⟩
  · intro _ s action t _ hs haction hstep
    exact (step_cases hstep).hasRoom hs haction

/-- Two threads push one after the other, with room for one key. -/
theorem withinLimit_of_undisturbed_sequential :
    ∃ t : Flow Bool, run { isFillerAlive := false, maxFillSize_ := 1 } .plain
        (init (.init 0 10 100 1 1))
        [.call true [107], .call false [108], .pusher true, .pusher true, .pusher true,
          .pusher false] = .ok t ∧
      t.storage.queue_.queue_.length = 1 ∧
      t.storage.queue_.queue_.length ≤ t.storage.maxQueueSize_.toNat := by
  obtain ⟨t, hrun, hone⟩ := Run.yields_iff.mp
    (by decide : Run.Yields (step { isFillerAlive := false, maxFillSize_ := 1 } .plain)
      (fun t : Flow Bool => t.storage.queue_.queue_.length = 1) (init (.init 0 10 100 1 1))
      [.call true [107], .call false [108], .pusher true, .pusher true, .pusher true,
        .pusher false])
  exact ⟨t, hrun, hone,
    withinLimit_of_undisturbed (by decide) _ [] t (List.append_nil _).symm hrun⟩

/-- Two threads test the size while the queue is empty, and both push: the queue holds 2 keys, and
its limit is 1. -/
theorem queue_exceeds_limit :
    ∃ s : Flow Bool, run { isFillerAlive := false, maxFillSize_ := 1 } .plain
        (init (.init 0 10 100 1 1))
        [.call true [107], .call false [108], .pusher true, .pusher false, .pusher true,
          .pusher false] = .ok s ∧
      s.storage.queue_.queue_.length = 2 ∧ s.storage.maxQueueSize_.toNat = 1 :=
  Run.yields_iff.mp
    (by decide : Run.Yields (step { isFillerAlive := false, maxFillSize_ := 1 } .plain)
      (fun s : Flow Bool =>
        s.storage.queue_.queue_.length = 2 ∧ s.storage.maxQueueSize_.toNat = 1)
      (init (.init 0 10 100 1 1))
      [.call true [107], .call false [108], .pusher true, .pusher false, .pusher true,
        .pusher false])

/-! ## How far it can be exceeded -/

section Bound

variable [Fintype ι]

/-- The threads that have passed the size test, and have not pushed. -/
def passed (s : Flow ι) : Finset ι := Finset.univ.filter (fun i => Passed (s.pushers i))

/-- A thread that moves and has not passed the test adds nobody. -/
theorem passed_update_subset {s t : Flow ι} {i : ι} {x : Pusher}
    (ht : t.pushers = Function.update s.pushers i x) (hx : ¬ Passed x) : t.passed ⊆ s.passed := by
  intro j hj
  rw [passed, Finset.mem_filter, ht] at hj
  rcases eq_or_ne j i with rfl | hne
  · rw [Function.update_self] at hj
    exact absurd hj.2 hx
  · rw [Function.update_of_ne hne] at hj
    exact Finset.mem_filter.mpr hj

/-- The keys in the queue and the threads about to push are together at most the limit and the
number of the other threads. -/
def Bounded (s : Flow ι) : Prop :=
  s.storage.queue_.queue_.length + s.passed.card ≤
    s.storage.maxQueueSize_.toNat + (Fintype.card ι - 1)

theorem Bounded.update {s t : Flow ι} (hs : s.Bounded) {i : ι} {x : Pusher}
    (hpushers : t.pushers = Function.update s.pushers i x) (hx : ¬ Passed x)
    (hqueue : t.storage.queue_ = s.storage.queue_)
    (hlimit : t.storage.maxQueueSize_ = s.storage.maxQueueSize_) : t.Bounded := by
  have hle := Finset.card_le_card (passed_update_subset hpushers hx)
  unfold Bounded at hs ⊢
  rw [hqueue, hlimit]
  omega

/-- One step keeps the bound. -/
theorem StepCase.bounded {s t : Flow ι} {action : Action ι} (h : StepCase cfg env s action t)
    (hsmall : s.storage.maxQueueSize_.toNat + Fintype.card ι ≤ 2 ^ 32) (hs : s.Bounded) :
    t.Bounded := by
  cases h with
  | call key hpc => exact hs.update rfl id rfl rfl
  | setQueueSize hpc => exact hs.update rfl id rfl rfl
  | @sizeTest i key hpc =>
    by_cases htest : s.storage.queue_.size.toUInt64 < s.storage.maxQueueSize_
    · have hcard : 0 < Fintype.card ι := Fintype.card_pos_iff.mpr ⟨i⟩
      have hall : ∀ u : Flow ι, u.passed.card ≤ Fintype.card ι := fun u => Finset.card_le_univ _
      unfold Bounded at hs ⊢
      have hlt := length_lt_of_sizeTest (by omega) htest
      refine Nat.le_trans (Nat.add_le_add_left (hall _) _) ?_
      dsimp only
      omega
    · exact hs.update rfl (by rw [if_neg htest]; exact id) rfl rfl
  | @push i key hpc =>
    have hmem : i ∈ s.passed :=
      Finset.mem_filter.mpr ⟨Finset.mem_univ i, by rw [hpc]; trivial⟩
    have hsubset : ∀ t : Flow ι,
        t.pushers = Function.update s.pushers i (.setQueueSize (s.storage.queue_.push key).2) →
        t.passed.card < s.passed.card := by
      intro t ht
      refine Finset.card_lt_card
        ((Finset.ssubset_iff_of_subset (passed_update_subset ht id)).mpr ⟨i, hmem, ?_⟩)
      rw [passed, Finset.mem_filter, ht, Function.update_self]
      exact fun hpassed => hpassed.2
    have hlength : (s.storage.queue_.push key).1.queue_.length ≤
        s.storage.queue_.queue_.length + 1 := by
      rw [push_queue_, List.length_append, newKey]
      split <;> simp
    unfold Bounded at hs ⊢
    have hlt := hsubset
      { s with
        storage := { s.storage with queue_ := (s.storage.queue_.push key).1 }
        pushers := Function.update s.pushers i (.setQueueSize (s.storage.queue_.push key).2)
        appended := s.appended ++ newKey s.storage.queue_ key } rfl
    dsimp only at hlt ⊢
    omega
  | filler h =>
    obtain ⟨hlimit, hlength⟩ := fillerCase_limit h
    unfold Bounded at hs ⊢
    refine Nat.le_trans (Nat.add_le_add_right hlength _) ?_
    rw [hlimit]
    exact hs
  | isFillerAlive answer hpc => exact hs
  | getVals ret vals hpc => exact hs
  | others storage stats => exact hs
  | shutdown => exact hs

/-- However the threads interleave, the queue exceeds its limit by less than their number. -/
theorem length_queue_le {start : TimeType} {ttl : Nat}
    {maxStorageSize maxQueueSize expirateSize : UInt64}
    (hsmall : maxQueueSize.toNat + Fintype.card ι ≤ 2 ^ 32) {actions : List (Action ι)}
    {s : Flow ι}
    (h : run cfg env (init (.init start ttl maxStorageSize maxQueueSize expirateSize)) actions =
      .ok s) :
    s.storage.queue_.queue_.length ≤ maxQueueSize.toNat + (Fintype.card ι - 1) := by
  have hboth : s.storage.maxQueueSize_ = maxQueueSize ∧ s.Bounded := by
    refine Run.exec_invariant (I := fun s => s.storage.maxQueueSize_ = maxQueueSize ∧ s.Bounded)
      ?_ ?_ h
    · rintro s action t ⟨hlimit, hs⟩ hstep
      have hcase := step_cases hstep
      exact ⟨hcase.length_queue.1.trans hlimit, hcase.bounded (by rw [hlimit]; exact hsmall) hs⟩
    · refine ⟨rfl, ?_⟩
      have hnone : (init (.init start ttl maxStorageSize maxQueueSize expirateSize) :
          Flow ι).passed = ∅ :=
        Finset.filter_eq_empty_iff.mpr (fun _ _ => id)
      unfold Bounded
      rw [hnone]
      exact Nat.zero_le _
  have hbounded := hboth.2
  unfold Bounded at hbounded
  rw [hboth.1] at hbounded
  exact Nat.le_trans (Nat.le_add_right _ _) hbounded

/-- Two threads that push together exceed the limit by one key, and not by more. -/
theorem length_queue_le_two :
    ∃ s : Flow Bool, run { isFillerAlive := false, maxFillSize_ := 1 } .plain
        (init (.init 0 10 100 1 1))
        [.call true [107], .call false [108], .pusher true, .pusher false, .pusher true,
          .pusher false] = .ok s ∧
      1 < s.storage.queue_.queue_.length ∧ s.storage.queue_.queue_.length ≤ 2 := by
  obtain ⟨s, hrun, hmore⟩ := Run.yields_iff.mp
    (by decide : Run.Yields (step { isFillerAlive := false, maxFillSize_ := 1 } .plain)
      (fun s : Flow Bool => 1 < s.storage.queue_.queue_.length) (init (.init 0 10 100 1 1))
      [.call true [107], .call false [108], .pusher true, .pusher false, .pusher true,
        .pusher false])
  exact ⟨s, hrun, hmore, length_queue_le (by decide) hrun⟩

end Bound

end Swordfish.Flow
