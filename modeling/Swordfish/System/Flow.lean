import Swordfish.System.Steps

/-!
# The way of a key

Any threads in `Storage::push_key`, with any keys, and the filler loop on one `Storage`, in any
interleaving; what other threads do with the store and the statistics may happen at any time. The
size test, the push and the report of the new size are steps of their own, since the mutex of the
queue is free between them. Two records follow the keys: those that `Queue::push` appended, and
the batches that were passed to `get_vals`.
-/

namespace Swordfish

/-- Where a thread stands in `push_key` (`storage.cpp:74-81`). -/
inductive Pusher where
  | idle
  | sizeTest (key : Str)
  | push (key : Str)
  | setQueueSize (size : UInt32)
  deriving DecidableEq, Repr

/-- The storage, the threads in `push_key`, the filler thread and the flag that stops it, and the
two records, in order. -/
structure Flow (ι : Type) where
  storage : Storage
  pushers : ι → Pusher
  filler : Filler
  isAlive_ : Bool
  appended : List Str
  batches : List (List Str)

instance : DecidablePred FillerPc.Storing
  | .pair _ | .capacityTest _ _ _ | .evict _ _ _ | .add _ _ _ => isTrue trivial
  | .loop | .fullTest | .expirate | .aliveTest _ | .queueTest _ | .sizeTest _ | .pop _
  | .fetchTest | .askAlive | .fetch | .stopped => isFalse id

namespace Flow

variable {ι : Type} [DecidableEq ι]

/-- What can happen next. `others` is anything that other threads do with the store and the
statistics. -/
inductive Action (ι : Type) where
  | call (i : ι) (key : Str)
  | pusher (i : ι)
  | filler (now : TimeType)
  | isFillerAlive (answer : Bool)
  | getVals (ret : Bool) (vals : List Str)
  | others (storage : DHashmap) (stats : Stats)
  | shutdown

/-- No thread is in `push_key`, and the filler is before its first round. -/
def init (storage : Storage) : Flow ι :=
  { storage := storage
    pushers := fun _ => .idle
    filler := .start
    isAlive_ := true
    appended := []
    batches := [] }

/-- The key, if `Queue::push` appends it. -/
def newKey (q : Queue) (key : Str) : List Str := if q.queue_.contains key then [] else [key]

/-- The next step of a thread in `push_key`. -/
def pusherStep (s : Flow ι) (i : ι) : Except Halt (Flow ι) :=
  match s.pushers i with
  | .idle => .error .blocked
  | .sizeTest key =>
      let pc :=
        if s.storage.queue_.size.toUInt64 < s.storage.maxQueueSize_ then .push key else .idle
      .ok { s with pushers := Function.update s.pushers i pc }
  | .push key =>
      let (queue, size) := s.storage.queue_.push key
      .ok { s with
        storage := { s.storage with queue_ := queue }
        pushers := Function.update s.pushers i (.setQueueSize size)
        appended := s.appended ++ newKey s.storage.queue_ key }
  | .setQueueSize size =>
      .ok { s with
        storage := { s.storage with stats_ := s.storage.stats_.setQueueSize size }
        pushers := Function.update s.pushers i .idle }

/-- One step. -/
def step (cfg : FillerConfig) (env : Env) (s : Flow ι) : Action ι → Except Halt (Flow ι)
  | .call i key =>
      match s.pushers i with
      | .idle => .ok { s with pushers := Function.update s.pushers i (.sizeTest key) }
      | _ => .error .blocked
  | .pusher i => s.pusherStep i
  | .filler now =>
      match s.filler.step cfg env s.storage s.isAlive_ now with
      | .error halt => .error halt
      | .ok (storage, f, _) => .ok { s with storage := storage, filler := f }
  | .isFillerAlive answer =>
      match s.filler.pc with
      | .askAlive =>
          .ok { s with filler := { s.filler with pc := if answer then .fetch else .loop } }
      | _ => .error .blocked
  | .getVals _ vals =>
      match s.filler.pc with
      | .fetch =>
          .ok { s with
            filler := { s.filler with pc := .pair 0, vals := vals }
            batches := s.batches ++ [s.filler.keys] }
      | _ => .error .blocked
  | .others storage stats =>
      .ok { s with storage := { s.storage with storage_ := storage, stats_ := stats } }
  | .shutdown => .ok { s with isAlive_ := false }

/-- The actions one after the other. -/
def run (cfg : FillerConfig) (env : Env) (s : Flow ι) (actions : List (Action ι)) :
    Except Halt (Flow ι) :=
  Run.exec (step cfg env) s actions

/-! ## What a step does -/

variable {cfg : FillerConfig} {env : Env}

/-- Everything a step can do. -/
inductive StepCase (cfg : FillerConfig) (env : Env) (s : Flow ι) : Action ι → Flow ι → Prop
  | call {i : ι} (key : Str) (hpc : s.pushers i = .idle) :
      StepCase cfg env s (.call i key)
        { s with pushers := Function.update s.pushers i (.sizeTest key) }
  | sizeTest {i : ι} {key : Str} (hpc : s.pushers i = .sizeTest key) :
      StepCase cfg env s (.pusher i)
        { s with
          pushers := Function.update s.pushers i
            (if s.storage.queue_.size.toUInt64 < s.storage.maxQueueSize_ then .push key
              else .idle) }
  | push {i : ι} {key : Str} (hpc : s.pushers i = .push key) :
      StepCase cfg env s (.pusher i)
        { s with
          storage := { s.storage with queue_ := (s.storage.queue_.push key).1 }
          pushers := Function.update s.pushers i (.setQueueSize (s.storage.queue_.push key).2)
          appended := s.appended ++ newKey s.storage.queue_ key }
  | setQueueSize {i : ι} {size : UInt32} (hpc : s.pushers i = .setQueueSize size) :
      StepCase cfg env s (.pusher i)
        { s with
          storage := { s.storage with stats_ := s.storage.stats_.setQueueSize size }
          pushers := Function.update s.pushers i .idle }
  | filler {now : TimeType} {storage : Storage} {f : Filler} {event : Option Event}
      (h : FillerCase cfg env s.storage s.isAlive_ now s.filler (storage, f, event)) :
      StepCase cfg env s (.filler now) { s with storage := storage, filler := f }
  | isFillerAlive (answer : Bool) (hpc : s.filler.pc = .askAlive) :
      StepCase cfg env s (.isFillerAlive answer)
        { s with filler := { s.filler with pc := if answer then .fetch else .loop } }
  | getVals (ret : Bool) (vals : List Str) (hpc : s.filler.pc = .fetch) :
      StepCase cfg env s (.getVals ret vals)
        { s with
          filler := { s.filler with pc := .pair 0, vals := vals }
          batches := s.batches ++ [s.filler.keys] }
  | others (storage : DHashmap) (stats : Stats) :
      StepCase cfg env s (.others storage stats)
        { s with storage := { s.storage with storage_ := storage, stats_ := stats } }
  | shutdown : StepCase cfg env s .shutdown { s with isAlive_ := false }

theorem step_cases {s t : Flow ι} {action : Action ι} (h : s.step cfg env action = .ok t) :
    StepCase cfg env s action t := by
  cases action with
  | call i key =>
    simp only [step] at h
    split at h
    · rename_i hpc
      cases h
      exact .call key hpc
    · cases h
  | pusher i =>
    simp only [step, pusherStep] at h
    cases hpc : s.pushers i with
    | idle =>
      rw [hpc] at h
      cases h
    | sizeTest key =>
      rw [hpc] at h
      cases h
      exact .sizeTest hpc
    | push key =>
      rw [hpc] at h
      cases h
      exact .push hpc
    | setQueueSize size =>
      rw [hpc] at h
      cases h
      exact .setQueueSize hpc
  | filler now =>
    simp only [step] at h
    cases hstep : s.filler.step cfg env s.storage s.isAlive_ now with
    | error halt =>
      rw [hstep] at h
      cases h
    | ok r =>
      rw [hstep] at h
      cases h
      exact .filler (Filler.step_cases hstep)
  | isFillerAlive answer =>
    simp only [step] at h
    split at h
    · rename_i hpc
      cases h
      exact .isFillerAlive answer hpc
    · cases h
  | getVals ret vals =>
    simp only [step] at h
    split at h
    · rename_i hpc
      cases h
      exact .getVals ret vals hpc
    · cases h
  | others storage stats =>
    cases h
    exact .others storage stats
  | shutdown =>
    cases h
    exact .shutdown

/-! ## Conservation -/

/-- The keys that are not empty. -/
def nonEmpty (keys : List Str) : List Str := keys.filter (· ≠ [])

/-- The local `keys` of the filler, until they have been passed to `get_vals`. -/
def inFlight (f : Filler) : List Str := if f.pc.Storing then [] else f.keys

theorem nonEmpty_append (keys keys' : List Str) :
    nonEmpty (keys ++ keys') = nonEmpty keys ++ nonEmpty keys' :=
  List.filter_append _ _

theorem inFlight_of_storing {f : Filler} (h : f.pc.Storing) : inFlight f = [] := if_pos h

theorem inFlight_of_not_storing {f : Filler} (h : ¬ f.pc.Storing) : inFlight f = f.keys := if_neg h

theorem push_queue_ (q : Queue) (key : Str) : (q.push key).1.queue_ = q.queue_ ++ newKey q key := by
  by_cases hmem : key ∈ q.queue_
  · simp [Queue.push, newKey, hmem]
  · simp [Queue.push, newKey, hmem]

/-- What is popped leaves the queue, and an empty queue gives an empty key. -/
theorem nonEmpty_waitAndPop (q : Queue) :
    nonEmpty [q.waitAndPop.2] ++ nonEmpty q.waitAndPop.1.queue_ = nonEmpty q.queue_ := by
  unfold Queue.waitAndPop
  cases hq : q.queue_ with
  | nil => simp [nonEmpty, hq]
  | cons data rest =>
    rw [← nonEmpty_append]
    rfl

/-- A test stays in the loop over the fetched values. -/
theorem storing_of_test {s : Storage} {isAlive : Bool} {f : Filler} {pc : FillerPc}
    (h : f.test cfg s isAlive = some pc) : pc.Storing ↔ f.pc.Storing := by
  refine ⟨fun hpc => (Filler.storing_of_test h hpc).1, fun hpc => ?_⟩
  unfold Filler.test at h
  cases hf : f.pc with
  | capacityTest i key val =>
    rw [hf, Option.some.injEq] at h
    subst h
    split <;> trivial
  | pair i | evict i key val | add i key val =>
    rw [hf] at h
    cases h
  | loop | fullTest | expirate | aliveTest t | queueTest t | sizeTest t | pop t | fetchTest
    | askAlive | fetch | stopped =>
    rw [hf] at hpc
    cases hpc

/-- A step of the filler takes keys from the queue and keeps them. -/
theorem fillerCase_flow {s : Storage} {isAlive : Bool} {now : TimeType} {f : Filler}
    {r : Storage × Filler × Option Event} (h : FillerCase cfg env s isAlive now f r) :
    inFlight r.2.1 ++ nonEmpty r.1.queue_.queue_ = inFlight f ++ nonEmpty s.queue_.queue_ := by
  cases h with
  | @test pc htest =>
    have hsame : inFlight { f with pc := pc } = inFlight f := by
      unfold inFlight
      simp only [storing_of_test htest]
    rw [hsame]
  | expirate hpc =>
    have hkeys : inFlight f = f.keys := inFlight_of_not_storing (by rw [hpc]; exact id)
    rw [hkeys]
    rfl
  | pop hpc =>
    have hkeys : inFlight f = f.keys := inFlight_of_not_storing (by rw [hpc]; exact id)
    rw [hkeys, ← nonEmpty_waitAndPop s.queue_, ← List.append_assoc]
    congr 1
    change (if s.queue_.waitAndPop.2 ≠ [] then _ else _) = _
    by_cases hempty : s.queue_.waitAndPop.2 = []
    · simp [nonEmpty, hempty]
    · simp [nonEmpty, hempty]
  | addItem hpc hkey hval =>
    have hnone : inFlight f = [] := inFlight_of_storing (by rw [hpc]; trivial)
    rw [hnone]
    rfl
  | roundEnd hpc hend =>
    have hnone : inFlight f = [] := inFlight_of_storing (by rw [hpc]; trivial)
    rw [hnone]
    rfl
  | evict hpc =>
    have hnone : inFlight f = [] := inFlight_of_storing (by rw [hpc]; trivial)
    rw [hnone]
    rfl
  | add hpc hadd =>
    have hnone : inFlight f = [] := inFlight_of_storing (by rw [hpc]; trivial)
    rw [hnone]
    rfl

/-- The law of the keys: the batches, what is in flight in the filler and what is in the queue are
what was appended, in order. -/
def Conserved (s : Flow ι) : Prop :=
  s.batches.flatten ++ inFlight s.filler ++ nonEmpty s.storage.queue_.queue_ = nonEmpty s.appended

omit [DecidableEq ι] in
theorem Conserved.congr {s t : Flow ι} (h : s.Conserved) (hbatches : t.batches = s.batches)
    (hfiller : inFlight t.filler = inFlight s.filler)
    (hqueue : t.storage.queue_.queue_ = s.storage.queue_.queue_)
    (happended : t.appended = s.appended) : t.Conserved := by
  unfold Conserved
  rw [hbatches, hfiller, hqueue, happended]
  exact h

/-- One step keeps the law. -/
theorem StepCase.conserved {s t : Flow ι} {action : Action ι} (h : StepCase cfg env s action t)
    (hs : s.Conserved) : t.Conserved := by
  cases h with
  | call key hpc => exact hs.congr rfl rfl rfl rfl
  | sizeTest hpc => exact hs.congr rfl rfl rfl rfl
  | @push i key hpc =>
    unfold Conserved at hs ⊢
    dsimp only
    rw [push_queue_, nonEmpty_append, nonEmpty_append, ← hs, List.append_assoc, List.append_assoc,
      List.append_assoc]
  | setQueueSize hpc => exact hs.congr rfl rfl rfl rfl
  | filler h =>
    have hflow := fillerCase_flow h
    unfold Conserved at hs ⊢
    dsimp only at hflow ⊢
    rw [List.append_assoc, hflow, ← List.append_assoc]
    exact hs
  | isFillerAlive answer hpc =>
    refine hs.congr rfl ?_ rfl rfl
    rw [inFlight_of_not_storing (f := s.filler) (by rw [hpc]; exact id)]
    cases answer <;> exact inFlight_of_not_storing id
  | getVals ret vals hpc =>
    have hkeys : inFlight s.filler = s.filler.keys :=
      inFlight_of_not_storing (by rw [hpc]; exact id)
    have hnone : inFlight { s.filler with pc := .pair 0, vals := vals } = [] := rfl
    unfold Conserved at hs ⊢
    rw [hkeys] at hs
    rw [hnone, List.append_nil, List.flatten_append, List.flatten_singleton]
    exact hs
  | others storage stats => exact hs.congr rfl rfl rfl rfl
  | shutdown => exact hs.congr rfl rfl rfl rfl

/-- Keys flow from the clients to the filler without loss, duplication or reordering: at every
point of every run, the batches passed to `get_vals`, the keys in flight in the filler and the keys
in the queue are, in order, the keys that `Queue::push` appended, the empty ones left out. -/
theorem run_conserved {start : TimeType} {ttl : Nat}
    {maxStorageSize maxQueueSize expirateSize : UInt64} {actions : List (Action ι)} {s : Flow ι}
    (h : run cfg env (init (.init start ttl maxStorageSize maxQueueSize expirateSize)) actions =
      .ok s) :
    s.batches.flatten ++ inFlight s.filler ++ nonEmpty s.storage.queue_.queue_ =
      nonEmpty s.appended := by
  refine Run.exec_invariant (I := Conserved)
    (fun _ _ _ hs hstep => (step_cases hstep).conserved hs) ?_ h
  rfl

/-- Two threads push a key and the empty key, and the filler fetches. -/
theorem run_conserved_fetch :
    ∃ s : Flow Bool, run { isFillerAlive := false, maxFillSize_ := 1 } .plain
        (init (.init 0 10 100 100 1))
        (.call true [107] :: .call false [] :: List.replicate 3 (.pusher true) ++
          List.replicate 3 (.pusher false) ++ List.replicate 8 (.filler 0) ++
          [.getVals true []]) = .ok s ∧
      s.batches = [[[107]]] ∧ s.storage.queue_.queue_ = [[]] ∧
      s.batches.flatten ++ inFlight s.filler ++ nonEmpty s.storage.queue_.queue_ =
        nonEmpty s.appended := by
  obtain ⟨s, hrun, hbatches, hqueue⟩ := Run.yields_iff.mp
    (by decide : Run.Yields (step { isFillerAlive := false, maxFillSize_ := 1 } .plain)
      (fun s : Flow Bool => s.batches = [[[107]]] ∧ s.storage.queue_.queue_ = [[]])
      (init (.init 0 10 100 100 1))
      (.call true [107] :: .call false [] :: List.replicate 3 (.pusher true) ++
        List.replicate 3 (.pusher false) ++ List.replicate 8 (.filler 0) ++
        [.getVals true []]))
  exact ⟨s, hrun, hbatches, hqueue, run_conserved hrun⟩

end Flow

end Swordfish
