import Swordfish.System.WorkerProgress

/-!
# The worker pool

The network of `System/Network` with the threads that `Server::run`
(`daemon-src/src/server.cpp:49-62`) starts on the `io_service`, `general.workers` of them. A read
that ends queues its handler, and the handler waits for a thread that is free; the thread is at work
for this connection until `on_read` returns. `boost::asio::write` with `transfer_all`
(`daemon-src/src/worker.cpp:107`) returns when the connection has taken the whole response: while
the peer reads nothing and the connection takes nothing more, it does not return. The handlers of
the acceptor and of the signals, which come back by themselves, are left out, and so is
`Server::stop`. An operation is one step here; that a thread which waits for a lock gets it is in
`Threads/Deadlock`.
-/

namespace Swordfish
open Delimited

variable {ι : Type} {cfg : FillerConfig} {env : Env}

/-- A response is to come before the handler returns. -/
def WorkerPc.writes : WorkerPc → Bool
  | .reading | .closed | .handling .end_ => false
  | .handling (.here token _) => (Command.ofLine token).name ≠ text "quit"
  | .getting _ | .reporting _ _ | .writing _ _ => true

/-- The worker is in the write of a response. -/
def WorkerPc.inWrite : WorkerPc → Bool
  | .writing _ _ => true
  | .reading | .closed | .handling _ | .getting _ | .reporting _ _ => false

namespace Network

instance (n : Network) (c : Nat) : Decidable (n.Waits c) := inferInstanceAs (Decidable (_ ∨ _))

/-- The connection that a thread is at work for after a step for `c`. -/
def handler (n : Network) (c : Nat) : Option Nat := if n.Waits c then none else some c

theorem handler_eq_some {n : Network} {c c' : Nat} :
    n.handler c = some c' ↔ ¬ n.Waits c ∧ c' = c := by
  unfold handler
  by_cases hwaits : n.Waits c
  · simp [hwaits]
  · simp [hwaits, eq_comm]

theorem waits_congr {n m : Network} {c : Nat} (h : m.sessions c = n.sessions c) :
    m.Waits c ↔ n.Waits c := by
  unfold Waits
  rw [h]

theorem work_of_step {n m : Network} {c : Nat} {now refresh : TimeType}
    (h : step cfg env n (.go c now refresh) = .ok m) : WorkCase env n c now refresh m := by
  cases (step_cases h).2 with
  | go h => exact h

/-- A worker leaves the connections of the others as they are. -/
theorem WorkCase.sessions {n m : Network} {c c' : Nat} {now refresh : TimeType}
    (h : WorkCase env n c now refresh m) (hne : c' ≠ c) : m.sessions c' = n.sessions c' := by
  cases h with
  | round hpc h =>
    cases h
    all_goals exact Function.update_of_ne hne ..
  | broken hpc hreset => rfl
  | getting hpc h | got hpc hlookup hargs | read hpc | set hpc | print hpc | write hpc hp hnext =>
    exact Function.update_of_ne hne ..

/-- No worker resets its connection. -/
theorem WorkCase.isReset {n m : Network} {c : Nat} {now refresh : TimeType}
    (h : WorkCase env n c now refresh m) :
    (m.sessions c).isReset = (n.sessions c).isReset := by
  cases h with
  | round hpc h =>
    cases h
    all_goals simp [setSession, begin_]
  | broken hpc hreset => rfl
  | getting hpc h | got hpc hlookup hargs | read hpc | set hpc | print hpc | write hpc hp hnext =>
    simp [setSession]

/-- A worker that has a response to write still has it after its step, unless the step is the
write. -/
theorem WorkCase.writes {n m : Network} {c : Nat} {now refresh : TimeType}
    (h : WorkCase env n c now refresh m) (hwrites : (n.sessions c).pc.writes = true) :
    (m.sessions c).pc.writes = true ∨
      (n.sessions c).pc.inWrite = true ∧ (n.sessions c).isReset = false := by
  cases h with
  | @round x m hpc h =>
    rw [hpc] at hwrites
    cases h with
    | readAgain => cases hwrites
    | quit hname => simp [WorkerPc.writes, hname] at hwrites
    | logLevel | stats | get | other => exact .inl (by simp [begin_, WorkerPc.writes])
  | getting hpc h | got hpc hlookup hargs | read hpc | set hpc | print hpc =>
    exact .inl (by simp [WorkerPc.writes])
  | write hpc hpresent hnext => exact .inr ⟨by rw [hpc]; rfl, hpresent⟩
  | broken hpc hreset => exact .inl hwrites

/-- A move of neither a worker nor a read leaves what the workers are at. -/
theorem step_pc {n m : Network} {move : Move} (h : step cfg env n move = .ok m)
    (hmove : (∃ c, move = .reset c) ∨ ∃ action, move = .daemon action) (c : Nat) :
    (m.sessions c).pc = (n.sessions c).pc ∧
      ((n.sessions c).isReset = true → (m.sessions c).isReset = true) := by
  rcases hmove with ⟨c', rfl⟩ | ⟨action, rfl⟩
  · cases (step_cases h).2
    rcases eq_or_ne c c' with rfl | hne
    · simp
    · simp [hne]
  · cases (step_cases h).2
    exact ⟨rfl, id⟩

end Network

/-- The process with its threads `ι`. -/
structure WorkerPool (ι : Type) where
  network : Network
  /-- The handlers of the reads that have ended, with bytes or with an error. -/
  queued : Nat → Option (Option Str)
  /-- The connection whose handler the thread executes. -/
  threads : ι → Option Nat
  /-- The peer reads nothing, and the connection takes nothing more. -/
  stalled : Nat → Bool

namespace WorkerPool

/-- What can happen next. -/
inductive Move (ι : Type) where
  /-- A read ends, and its handler is queued. -/
  | arrive (c : Nat) (result : Option Str)
  /-- A thread takes a queued handler. -/
  | invoke (t : ι) (c : Nat)
  /-- A thread goes on with its handler. -/
  | go (t : ι) (now refresh : TimeType)
  /-- The connection takes nothing more. -/
  | stalls (c : Nat)
  /-- The peer reads, and the connection takes responses again. -/
  | reads (c : Nat)
  /-- The peer resets its connection. -/
  | reset (c : Nat)
  /-- The filler, its library, the timer or the destructor of the server goes on. -/
  | daemon (action : Action)
  deriving DecidableEq, Repr

/-- The process after `Server::run` has started its threads. -/
def start (storage : Storage) (level : LogLevel) : WorkerPool ι :=
  { network := .start storage level
    queued := fun _ => none
    threads := fun _ => none
    stalled := fun _ => false }

/-- The write that the worker of `c` is in does not return. -/
def Blocks (s : WorkerPool ι) (c : Nat) : Prop :=
  (s.network.sessions c).pc.inWrite = true ∧ s.stalled c = true ∧
    (s.network.sessions c).isReset = false

instance (s : WorkerPool ι) (c : Nat) : Decidable (s.Blocks c) :=
  inferInstanceAs (Decidable (_ ∧ _))

variable [DecidableEq ι]

/-- One move. -/
def step (cfg : FillerConfig) (env : Env) (s : WorkerPool ι) :
    Move ι → Except Halt (WorkerPool ι)
  | .arrive c result =>
      if s.network.terminated = false ∧ (s.network.sessions c).pc = .reading ∧
          s.queued c = none then
        .ok { s with queued := Function.update s.queued c (some result) }
      else .error .blocked
  | .invoke t c =>
      match s.threads t, s.queued c with
      | none, some result =>
          match s.network.step cfg env (.onRead c result) with
          | .ok network =>
              .ok { s with
                network := network
                queued := Function.update s.queued c none
                threads := Function.update s.threads t (network.handler c) }
          | .error halt => .error halt
      | _, _ => .error .blocked
  | .go t now refresh =>
      match s.threads t with
      | some c =>
          if s.Blocks c then .error .blocked
          else
            match s.network.step cfg env (.go c now refresh) with
            | .ok network =>
                .ok { s with
                  network := network
                  threads := Function.update s.threads t (network.handler c) }
            | .error halt => .error halt
      | none => .error .blocked
  | .stalls c => .ok { s with stalled := Function.update s.stalled c true }
  | .reads c => .ok { s with stalled := Function.update s.stalled c false }
  | .reset c =>
      match s.network.step cfg env (.reset c) with
      | .ok network => .ok { s with network := network }
      | .error halt => .error halt
  | .daemon action =>
      match s.network.step cfg env (.daemon action) with
      | .ok network => .ok { s with network := network }
      | .error halt => .error halt

/-- The moves one after the other. -/
def run (cfg : FillerConfig) (env : Env) (s : WorkerPool ι) (moves : List (Move ι)) :
    Except Halt (WorkerPool ι) :=
  Run.exec (step cfg env) s moves

/-- Everything a move can do. -/
inductive StepCase (cfg : FillerConfig) (env : Env) (s : WorkerPool ι) :
    Move ι → WorkerPool ι → Prop
  | arrive {c : Nat} (result : Option Str) (hpc : (s.network.sessions c).pc = .reading)
      (hnone : s.queued c = none) :
      StepCase cfg env s (.arrive c result)
        { s with queued := Function.update s.queued c (some result) }
  | invoke {t : ι} {c : Nat} {result : Option Str} {network : Network} (ht : s.threads t = none)
      (hqueued : s.queued c = some result)
      (h : s.network.step cfg env (.onRead c result) = .ok network) :
      StepCase cfg env s (.invoke t c)
        { s with
          network := network
          queued := Function.update s.queued c none
          threads := Function.update s.threads t (network.handler c) }
  | go {t : ι} {c : Nat} {now refresh : TimeType} {network : Network}
      (ht : s.threads t = some c) (hreturns : ¬ s.Blocks c)
      (h : s.network.step cfg env (.go c now refresh) = .ok network) :
      StepCase cfg env s (.go t now refresh)
        { s with
          network := network
          threads := Function.update s.threads t (network.handler c) }
  | stalls (c : Nat) :
      StepCase cfg env s (.stalls c) { s with stalled := Function.update s.stalled c true }
  | reads (c : Nat) :
      StepCase cfg env s (.reads c) { s with stalled := Function.update s.stalled c false }
  | reset {c : Nat} {network : Network}
      (h : s.network.step cfg env (.reset c) = .ok network) :
      StepCase cfg env s (.reset c) { s with network := network }
  | daemon {action : Action} {network : Network}
      (h : s.network.step cfg env (.daemon action) = .ok network) :
      StepCase cfg env s (.daemon action) { s with network := network }

theorem step_cases {s s' : WorkerPool ι} {move : Move ι} (h : step cfg env s move = .ok s') :
    StepCase cfg env s move s' := by
  cases move with
  | arrive c result =>
    simp only [step] at h
    split at h
    · rename_i hcan
      cases h
      exact .arrive result hcan.2.1 hcan.2.2
    · cases h
  | invoke t c =>
    simp only [step] at h
    split at h
    · rename_i result ht hqueued
      split at h
      · rename_i network hstep
        cases h
        exact .invoke ht hqueued hstep
      · cases h
    · cases h
  | go t now refresh =>
    simp only [step] at h
    split at h
    · rename_i c ht
      split at h
      · cases h
      · rename_i hreturns
        split at h
        · rename_i network hstep
          cases h
          exact .go ht hreturns hstep
        · cases h
    · cases h
  | stalls c =>
    cases h
    exact .stalls c
  | reads c =>
    cases h
    exact .reads c
  | reset c =>
    simp only [step] at h
    split at h
    · rename_i network hstep
      cases h
      exact .reset hstep
    · cases h
  | daemon action =>
    simp only [step] at h
    split at h
    · rename_i network hstep
      cases h
      exact .daemon hstep
    · cases h

/-! ## The network under the threads -/

/-- A move of the pool is none of the network, or one. -/
theorem StepCase.network {s s' : WorkerPool ι} {move : Move ι}
    (h : StepCase cfg env s move s') :
    s'.network = s.network ∨ ∃ move', s.network.step cfg env move' = .ok s'.network := by
  cases h with
  | arrive | stalls | reads => exact .inl rfl
  | invoke _ _ h | go _ _ h | reset h | daemon h => exact .inr ⟨_, h⟩

/-- A run of the pool is one of the network. -/
theorem run_network {storage : Storage} {level : LogLevel} {moves : List (Move ι)}
    {s : WorkerPool ι} (h : run cfg env (start storage level) moves = .ok s) :
    ∃ moves', Network.run cfg env (.start storage level) moves' = .ok s.network := by
  refine Run.exec_induction
    (P := fun _ s => ∃ moves', Network.run cfg env (.start storage level) moves' = .ok s.network)
    ⟨[], rfl⟩ ?_ h
  rintro - s move s' - ⟨moves', hrun⟩ hstep
  rcases (step_cases hstep).network with hsame | ⟨move', hmove⟩
  · exact ⟨moves', hsame ▸ hrun⟩
  · exact ⟨moves' ++ [move'], Run.exec_concat_ok.mpr ⟨s.network, hrun, hmove⟩⟩

/-! ## Which thread is at work for what -/

/-- A thread is at work for the connections whose handlers have not returned, one for each. -/
structure Strands (network : Network) (threads : ι → Option Nat) : Prop where
  busy : ∀ {t c}, threads t = some c → ¬ network.Waits c
  served : ∀ {c}, ¬ network.Waits c → ∃ t, threads t = some c
  single : ∀ {t t' c}, threads t = some c → threads t' = some c → t = t'

/-- A step in the handler of `c`, which the thread `t` executes or takes. -/
theorem Strands.update {n m : Network} {threads : ι → Option Nat} (h : Strands n threads) {t : ι}
    {c : Nat} (ht : threads t = some c ∨ threads t = none ∧ n.Waits c)
    (hsessions : ∀ c', c' ≠ c → m.sessions c' = n.sessions c') :
    Strands m (Function.update threads t (m.handler c)) := by
  -- no other thread is at work for `c`
  have hother : ∀ t', t' ≠ t → threads t' ≠ some c := by
    intro t' hne ht'
    rcases ht with ht | ⟨-, hwaits⟩
    · exact hne (h.single ht' ht)
    · exact h.busy ht' hwaits
  refine ⟨fun {t' c'} ht' => ?_, fun {c'} hbusy => ?_, fun {t₁ t₂ c'} h₁ h₂ => ?_⟩
  · rcases eq_or_ne t' t with rfl | hne
    · rw [Function.update_self] at ht'
      obtain ⟨hbusy, rfl⟩ := Network.handler_eq_some.mp ht'
      exact hbusy
    · rw [Function.update_of_ne hne] at ht'
      have hc : c' ≠ c := fun hc => hother t' hne (hc ▸ ht')
      rw [Network.waits_congr (hsessions c' hc)]
      exact h.busy ht'
  · rcases eq_or_ne c' c with rfl | hc
    · exact ⟨t, by rw [Function.update_self, Network.handler_eq_some]; exact ⟨hbusy, rfl⟩⟩
    · rw [Network.waits_congr (hsessions c' hc)] at hbusy
      obtain ⟨t', ht'⟩ := h.served hbusy
      have hne : t' ≠ t := by
        rintro rfl
        rcases ht with ht | ⟨ht, -⟩
        · rw [ht] at ht'
          exact hc (Option.some.inj ht').symm
        · rw [ht] at ht'
          cases ht'
      exact ⟨t', by rw [Function.update_of_ne hne]; exact ht'⟩
  · have hself : ∀ t', t' ≠ t → Function.update threads t (m.handler c) t' = some c' →
        Function.update threads t (m.handler c) t = some c' → False := by
      intro t' hne h' hhandler
      rw [Function.update_of_ne hne] at h'
      rw [Function.update_self] at hhandler
      obtain ⟨-, rfl⟩ := Network.handler_eq_some.mp hhandler
      exact hother t' hne h'
    rcases eq_or_ne t₁ t with rfl | hne₁
    · rcases eq_or_ne t₂ t₁ with rfl | hne₂
      · rfl
      · exact (hself t₂ hne₂ h₂ h₁).elim
    · rcases eq_or_ne t₂ t with rfl | hne₂
      · exact (hself t₁ hne₁ h₁ h₂).elim
      · rw [Function.update_of_ne hne₁] at h₁
        rw [Function.update_of_ne hne₂] at h₂
        exact h.single h₁ h₂

omit [DecidableEq ι] in
/-- The threads depend on what the workers are at only. -/
theorem Strands.congr {n m : Network} {threads : ι → Option Nat} (h : Strands n threads)
    (hpc : ∀ c, (m.sessions c).pc = (n.sessions c).pc) : Strands m threads := by
  have hwaits : ∀ c, m.Waits c ↔ n.Waits c := by
    intro c
    unfold Network.Waits
    rw [hpc]
  exact
    { busy := fun ht => by
        rw [hwaits]
        exact h.busy ht
      served := fun hbusy => h.served (by rwa [hwaits] at hbusy)
      single := h.single }

/-- The invariant: the network is sound, the threads are where the handlers are, and a handler is
queued only for a connection whose worker waits for its read. -/
structure Manned (env : Env) (s : WorkerPool ι) : Prop where
  sound : Network.Sound env s.network
  strands : Strands s.network s.threads
  reading : ∀ {c}, s.queued c ≠ none → (s.network.sessions c).pc = .reading

theorem StepCase.manned {s s' : WorkerPool ι} {move : Move ι} (h : StepCase cfg env s move s')
    (hs : Manned env s) : Manned env s' := by
  have hsound : Network.Sound env s'.network := by
    rcases h.network with hsame | ⟨move', hmove⟩
    · rw [hsame]
      exact hs.sound
    · exact (Network.step_cases hmove).2.sound hs.sound
  cases h with
  | @arrive c result hpc hnone =>
    refine ⟨hsound, hs.strands, fun {c'} hqueued => ?_⟩
    rcases eq_or_ne c' c with rfl | hne
    · exact hpc
    · simp only [Function.update_of_ne hne] at hqueued
      exact hs.reading hqueued
  | @invoke t c result network ht hqueued hstep =>
    have hwaits : s.network.Waits c := .inl (hs.reading (by simp [hqueued]))
    have hsessions : ∀ c', c' ≠ c → network.sessions c' = s.network.sessions c' := by
      intro c' hne
      cases (Network.step_cases hstep).2 <;> exact Function.update_of_ne hne ..
    refine ⟨hsound, hs.strands.update (.inr ⟨ht, hwaits⟩) hsessions, fun {c'} hc' => ?_⟩
    rcases eq_or_ne c' c with rfl | hne
    · exact (hc' (Function.update_self ..)).elim
    · simp only [Function.update_of_ne hne] at hc'
      exact (congrArg Session.pc (hsessions c' hne)).trans (hs.reading hc')
  | @go t c now refresh network ht hreturns hstep =>
    have hwork : Network.WorkCase env s.network c now refresh network := Network.work_of_step hstep
    refine ⟨hsound, hs.strands.update (.inl ht) (fun c' hne => hwork.sessions hne), ?_⟩
    intro c' hc'
    have hne : c' ≠ c := by
      rintro rfl
      exact hs.strands.busy ht (.inl (hs.reading hc'))
    exact (congrArg Session.pc (hwork.sessions hne)).trans (hs.reading hc')
  | stalls | reads => exact ⟨hsound, hs.strands, hs.reading⟩
  | reset hstep =>
    have hpc := fun c => (Network.step_pc hstep (.inl ⟨_, rfl⟩) c).1
    exact ⟨hsound, hs.strands.congr hpc, fun hc => (hpc _).trans (hs.reading hc)⟩
  | daemon hstep =>
    have hpc := fun c => (Network.step_pc hstep (.inr ⟨_, rfl⟩) c).1
    exact ⟨hsound, hs.strands.congr hpc, fun hc => (hpc _).trans (hs.reading hc)⟩

/-- The thread does not come back to the service by itself: its handler has a response to write, and
the connection takes nothing more, so that the write does not return, or is reset, so that it ends
the process. -/
def Held (s : WorkerPool ι) (t : ι) : Prop :=
  ∃ c, s.threads t = some c ∧ (s.network.sessions c).pc.writes = true ∧
    (s.stalled c = true ∨ (s.network.sessions c).isReset = true)

/-- What the threads can do: which of them goes on is the choice of the scheduler, what its clock
reads is not. -/
inductive Task (ι : Type) where
  | invoke (t : ι) (c : Nat)
  | go (t : ι)
  deriving DecidableEq, Repr

/-- The move of a task, with the readings of the clock in it. -/
def Task.move : Task ι → TimeType × TimeType → Move ι
  | .invoke t c, _ => .invoke t c
  | .go t, clock => .go t clock.1 clock.2

/-- The connections but `c`, the queue of the service and the peers are as they were. -/
structure Aside (c : Nat) (s s' : WorkerPool ι) : Prop where
  sessions : ∀ {c'}, c' ≠ c → s'.network.sessions c' = s.network.sessions c'
  queued : s'.queued = s.queued
  stalled : s'.stalled = s.stalled

/-- The thread `t` is in the handler of `c`, whose peer is there and reads, or has come back from
it. -/
structure AtWork (env : Env) (t : ι) (c : Nat) (s m : WorkerPool ι) : Prop where
  manned : Manned env m
  canWork : Network.CanWork env c (s.network.sessions c).received m.network
  aside : Aside c s m
  thread : m.threads t = some c ∨ m.threads t = none ∧ m.network.Waits c

theorem step_go {s : WorkerPool ι} {t : ι} {c : Nat} {now refresh : TimeType} {n : Network}
    (ht : s.threads t = some c) (hreturns : ¬ s.Blocks c)
    (h : s.network.step cfg env (.go c now refresh) = .ok n) :
    step cfg env s (.go t now refresh) = .ok
      { s with network := n, threads := Function.update s.threads t (n.handler c) } := by
  simp only [step, ht, if_neg hreturns, h]

/-- A step of a thread whose peer is there and reads. -/
theorem AtWork.step_ok {s m : WorkerPool ι} {t : ι} {c : Nat} (h : AtWork env t c s m)
    (hreads : s.stalled c = false) (ht : m.threads t = some c) (now refresh : TimeType) :
    ∃ m', step cfg env m (.go t now refresh) = .ok m' ∧ AtWork env t c s m' ∧
      m'.network.rank c < m.network.rank c := by
  obtain ⟨n, hstep, hn, hrank⟩ : ∃ n, m.network.step cfg env (.go c now refresh) = .ok n ∧
      Network.CanWork env c (s.network.sessions c).received n ∧ n.rank c < m.network.rank c :=
    h.canWork.step_ok (h.manned.strands.busy ht) now refresh
  have hreturns : ¬ m.Blocks c := by
    rintro ⟨-, hstalled, -⟩
    rw [h.aside.stalled, hreads] at hstalled
    cases hstalled
  have hgo := step_go ht hreturns hstep
  have hwork : Network.WorkCase env m.network c now refresh n := Network.work_of_step hstep
  refine ⟨_, hgo, ⟨(step_cases hgo).manned h.manned, hn, ?_, ?_⟩, hrank⟩
  · exact ⟨fun hne => (hwork.sessions hne).trans (h.aside.sessions hne), h.aside.queued,
      h.aside.stalled⟩
  · simp only [Function.update_self, Network.handler]
    by_cases hwaits : n.Waits c
    · exact .inr ⟨if_pos hwaits, hwaits⟩
    · exact .inl (if_neg hwaits)

omit [DecidableEq ι] in
/-- A thread that is held stays so in a move that leaves its worker in its command and frees no
connection. -/
theorem Held.mono {s m : WorkerPool ι} {t : ι} (h : s.Held t) (hthread : m.threads t = s.threads t)
    (hworker : ∀ c, s.threads t = some c →
      (m.network.sessions c).pc = (s.network.sessions c).pc ∧
      ((s.network.sessions c).isReset = true → (m.network.sessions c).isReset = true) ∧
      (s.stalled c = true → m.stalled c = true)) : m.Held t := by
  obtain ⟨c, ht, hwrites, hheld⟩ := h
  obtain ⟨hpc, hreset, hstalled⟩ := hworker c ht
  exact ⟨c, hthread.trans ht, hpc ▸ hwrites, hheld.imp hstalled hreset⟩

/-- The step of a thread that is held leaves it so, or ends the process. -/
theorem Held.go {m : WorkerPool ι} {t : ι} {c : Nat} {now refresh : TimeType} {network : Network}
    (h : m.Held t) (ht : m.threads t = some c) (hreturns : ¬ m.Blocks c)
    (hwork : Network.WorkCase env m.network c now refresh network) :
    Held { m with
      network := network
      threads := Function.update m.threads t (network.handler c) } t := by
  obtain ⟨c', ht', hwrites, hheld⟩ := h
  obtain rfl : c = c' := Option.some.inj (ht.symm.trans ht')
  have hafter : (network.sessions c).pc.writes = true := by
    refine (hwork.writes hwrites).resolve_right ?_
    rintro ⟨hwrite, hpresent⟩
    have hstalled : m.stalled c = true := hheld.resolve_right (by simp [hpresent])
    exact hreturns ⟨hwrite, hstalled, hpresent⟩
  have hbusy : ¬ network.Waits c := by
    rintro (hpc | hpc) <;> simp [hpc, WorkerPc.writes] at hafter
  refine ⟨c, ?_, hafter, hheld.imp id (hwork.isReset.trans ·)⟩
  exact (Function.update_self ..).trans (Network.handler_eq_some.mpr ⟨hbusy, rfl⟩)

end WorkerPool

end Swordfish
