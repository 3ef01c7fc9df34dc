import Mathlib.Logic.Function.Basic
import Swordfish.Connection.Worker
import Swordfish.Lib.Run

/-!
# The thread pool of the server

The threads that `Server::run` (`daemon-src/src/server.cpp:49-62`) starts on the `io_service`, and
the connections that they serve together. A thread executes `Worker::on_read` for one connection at
a time, and the rounds of several threads interleave. `boost::asio::write` throws when the peer has
reset the connection: nothing between `on_read` and the function of the thread catches it, so the
process ends. `_do` is one step here.
-/

namespace Swordfish

/-- The read of a connection. -/
inductive Read where
  /-- `async_read_some` has been called, and nothing has come yet. -/
  | pending
  /-- Its handler is queued: with the bytes that came, or with an error. -/
  | ready (result : Option Str)
  /-- `on_read` is being executed, or has returned without another read. -/
  | none
  deriving DecidableEq, Repr

/-- A connection, but for what its commands act on. -/
structure Link where
  tokenizer_ : CommandTokenizer
  read : Read
  isReset : Bool
  executed : List Command
  written : List Str
  deriving DecidableEq, Repr

/-- A thread: inside `io_service::run`, in the loop of `on_read` with its iterator, or before a
write of that loop. -/
inductive ServiceThread (κ : Type) where
  | idle
  | handling (c : κ) (x : CommandTokenizer.Iterator)
  | writing (c : κ) (x : CommandTokenizer.Iterator) (response : Str)
  deriving DecidableEq, Repr

/-- The connection the thread is at work for. -/
def ServiceThread.at_ {κ : Type} : ServiceThread κ → Option κ
  | .idle => none
  | .handling c _ => some c
  | .writing c _ _ => some c

/-- The process: connections `κ`, threads `ι`. -/
structure Pool (κ ι σ : Type) where
  process : Process σ
  links : κ → Link
  threads : ι → ServiceThread κ
  terminated : Bool

namespace Pool

/-- What can happen. -/
inductive Move (κ ι : Type) where
  /-- Bytes arrive on a connection that is read. -/
  | receive (c : κ) (bytes : Str)
  /-- The read ends with an error. -/
  | readFails (c : κ)
  /-- The peer resets the connection. -/
  | reset (c : κ)
  /-- A thread takes the handler of a read that has ended. -/
  | invoke (t : ι) (c : κ)
  /-- A thread goes on with its handler. -/
  | go (t : ι)
  deriving DecidableEq, Repr

/-- Why a move is refused. -/
inductive Refusal where
  | terminated
  | impossible
  deriving DecidableEq, Repr

section
variable {κ ι σ : Type} [DecidableEq κ]

def setLink (s : Pool κ ι σ) (c : κ) (link : Link) : Pool κ ι σ :=
  { s with links := Function.update s.links c link }

@[simp] theorem setLink_links (s : Pool κ ι σ) (c : κ) (link : Link) :
    (s.setLink c link).links = Function.update s.links c link := rfl

@[simp] theorem setLink_threads (s : Pool κ ι σ) (c : κ) (link : Link) :
    (s.setLink c link).threads = s.threads := rfl

@[simp] theorem setLink_process (s : Pool κ ι σ) (c : κ) (link : Link) :
    (s.setLink c link).process = s.process := rfl

@[simp] theorem setLink_terminated (s : Pool κ ι σ) (c : κ) (link : Link) :
    (s.setLink c link).terminated = s.terminated := rfl

end

section
variable {κ ι σ : Type} [DecidableEq ι]

def setThread (s : Pool κ ι σ) (t : ι) (thread : ServiceThread κ) : Pool κ ι σ :=
  { s with threads := Function.update s.threads t thread }

@[simp] theorem setThread_links (s : Pool κ ι σ) (t : ι) (thread : ServiceThread κ) :
    (s.setThread t thread).links = s.links := rfl

@[simp] theorem setThread_threads (s : Pool κ ι σ) (t : ι) (thread : ServiceThread κ) :
    (s.setThread t thread).threads = Function.update s.threads t thread := rfl

@[simp] theorem setThread_process (s : Pool κ ι σ) (t : ι) (thread : ServiceThread κ) :
    (s.setThread t thread).process = s.process := rfl

@[simp] theorem setThread_terminated (s : Pool κ ι σ) (t : ι) (thread : ServiceThread κ) :
    (s.setThread t thread).terminated = s.terminated := rfl

end

variable {κ ι σ : Type}

section
variable [DecidableEq κ] [DecidableEq ι]

/-- A thread takes the handler of the connection `c`: `on_read`, up to its loop. -/
def onRead (s : Pool κ ι σ) (t : ι) (c : κ) : Option Str → Pool κ ι σ
  | some bytes =>
      let tokenizer := (s.links c).tokenizer_.append bytes
      (s.setLink c { s.links c with tokenizer_ := tokenizer, read := .none }).setThread t
        (.handling c tokenizer.begin_)
  | none => s.setLink c { s.links c with read := .none }

/-- A round of the loop of `on_read`, up to the write. -/
def round (_do : Handler σ) (s : Pool κ ι σ) (t : ι) (c : κ) (x : CommandTokenizer.Iterator) :
    Pool κ ι σ :=
  match Worker.round _do s.process x with
  | .readAgain => (s.setLink c { s.links c with read := .pending }).setThread t .idle
  | .quit => s.setThread t .idle
  | .write command p response =>
      (({ s with process := p } : Pool κ ι σ).setLink c
        { s.links c with executed := (s.links c).executed ++ [command] }).setThread t
        (.writing c x response)

/-- `boost::asio::write`, and `++x` when it returns. -/
def write (s : Pool κ ι σ) (t : ι) (c : κ) (x : CommandTokenizer.Iterator) (response : Str) :
    Pool κ ι σ :=
  if (s.links c).isReset then { s with terminated := true }
  else
    let (remainder, x) := x.next (s.links c).tokenizer_.remainder_
    (s.setLink c
      { s.links c with
        tokenizer_ := ⟨remainder⟩
        written := (s.links c).written ++ [response] }).setThread t (.handling c x)

/-- One move. -/
def step (_do : Handler σ) (s : Pool κ ι σ) (move : Move κ ι) : Except Refusal (Pool κ ι σ) :=
  if s.terminated then .error .terminated
  else
    match move with
    | .receive c bytes =>
        if (s.links c).read = .pending ∧ (s.links c).isReset = false then
          .ok (s.setLink c { s.links c with read := .ready (some bytes) })
        else .error .impossible
    | .readFails c =>
        if (s.links c).read = .pending then
          .ok (s.setLink c { s.links c with read := .ready none })
        else .error .impossible
    | .reset c => .ok (s.setLink c { s.links c with isReset := true })
    | .invoke t c =>
        match s.threads t, (s.links c).read with
        | .idle, .ready result => .ok (s.onRead t c result)
        | _, _ => .error .impossible
    | .go t =>
        match s.threads t with
        | .idle => .error .impossible
        | .handling c x => .ok (s.round _do t c x)
        | .writing c x response => .ok (s.write t c x response)

end

/-- Every connection is accepted and read, and every thread waits for work. -/
def start (p : Process σ) : Pool κ ι σ :=
  { process := p
    links := fun _ =>
      { tokenizer_ := .init, read := .pending, isReset := false, executed := [], written := [] }
    threads := fun _ => .idle
    terminated := false }

/-! ## One move -/

section
variable [DecidableEq κ] [DecidableEq ι] {_do : Handler σ}

/-- What a move does. -/
inductive StepCase (_do : Handler σ) (s : Pool κ ι σ) : Move κ ι → Pool κ ι σ → Prop
  | receive {c : κ} (bytes : Str) (hread : (s.links c).read = .pending) :
      StepCase _do s (.receive c bytes)
        (s.setLink c { s.links c with read := .ready (some bytes) })
  | readFails {c : κ} (hread : (s.links c).read = .pending) :
      StepCase _do s (.readFails c) (s.setLink c { s.links c with read := .ready none })
  | reset (c : κ) : StepCase _do s (.reset c) (s.setLink c { s.links c with isReset := true })
  | invoke {t : ι} {c : κ} {result : Option Str} (hidle : s.threads t = .idle)
      (hread : (s.links c).read = .ready result) :
      StepCase _do s (.invoke t c) (s.onRead t c result)
  | round {t : ι} {c : κ} {x : CommandTokenizer.Iterator} (ht : s.threads t = .handling c x) :
      StepCase _do s (.go t) (s.round _do t c x)
  | write {t : ι} {c : κ} {x : CommandTokenizer.Iterator} {response : Str}
      (ht : s.threads t = .writing c x response) :
      StepCase _do s (.go t) (s.write t c x response)

theorem step_cases {s s' : Pool κ ι σ} {move : Move κ ι} (h : step _do s move = .ok s') :
    s.terminated = false ∧ StepCase _do s move s' := by
  unfold step at h
  split at h
  · cases h
  · rename_i hlive
    refine ⟨by simpa using hlive, ?_⟩
    cases move with
    | receive c bytes =>
      simp only at h
      split at h
      · rename_i hread
        cases h
        exact .receive bytes hread.1
      · cases h
    | readFails c =>
      simp only at h
      split at h
      · rename_i hread
        cases h
        exact .readFails hread
      · cases h
    | reset c =>
      cases h
      exact .reset c
    | invoke t c =>
      simp only at h
      split at h
      · rename_i hidle hread
        cases h
        exact .invoke hidle hread
      · cases h
    | go t =>
      simp only at h
      split at h
      · cases h
      · rename_i ht
        cases h
        exact .round ht
      · rename_i ht
        cases h
        exact .write ht

/-! ## Strands -/

/-- No two threads are at work for one connection, and a connection that a thread is at work for
has no read. -/
structure Strands (s : Pool κ ι σ) : Prop where
  handled : ∀ t, ∀ c ∈ (s.threads t).at_, (s.links c).read = .none
  alone : ∀ t u, ∀ c ∈ (s.threads t).at_, c ∈ (s.threads u).at_ → t = u

omit [DecidableEq ι] in
theorem Strands.setLink {s : Pool κ ι σ} (h : s.Strands) {c : κ} {link : Link}
    (hlink : link.read = .none ∨ ∀ t, c ∉ (s.threads t).at_) : (s.setLink c link).Strands where
  handled t d hd := by
    by_cases hdc : d = c
    · subst hdc
      rw [setLink_links, Function.update_self]
      exact hlink.resolve_right (fun hfree => hfree t hd)
    · rw [setLink_links, Function.update_of_ne hdc]
      exact h.handled t d hd
  alone := h.alone

omit [DecidableEq κ] in
theorem Strands.setThread {s : Pool κ ι σ} (h : s.Strands) {t : ι} {thread : ServiceThread κ}
    (hthread : ∀ c ∈ thread.at_, (s.links c).read = .none ∧ ∀ u ≠ t, c ∉ (s.threads u).at_) :
    (s.setThread t thread).Strands where
  handled u d hd := by
    rw [setThread_threads] at hd
    by_cases hut : u = t
    · subst hut
      rw [Function.update_self] at hd
      exact (hthread d hd).1
    · rw [Function.update_of_ne hut] at hd
      exact h.handled u d hd
  alone u v d hu hv := by
    rw [setThread_threads] at hu hv
    by_cases hut : u = t
    · by_cases hvt : v = t
      · rw [hut, hvt]
      · subst hut
        rw [Function.update_self] at hu
        rw [Function.update_of_ne hvt] at hv
        exact absurd hv ((hthread d hu).2 v hvt)
    · rw [Function.update_of_ne hut] at hu
      by_cases hvt : v = t
      · subst hvt
        rw [Function.update_self] at hv
        exact absurd hu ((hthread d hv).2 u hut)
      · rw [Function.update_of_ne hvt] at hv
        exact h.alone u v d hu hv

omit [DecidableEq κ] in
/-- A thread that stays at work for its connection keeps the others away from it. -/
theorem Strands.setThread_same {s : Pool κ ι σ} (h : s.Strands) {t : ι} {thread : ServiceThread κ}
    (hsame : thread.at_ = (s.threads t).at_) : (s.setThread t thread).Strands := by
  refine h.setThread (fun c hc => ?_)
  rw [hsame] at hc
  exact ⟨h.handled t c hc, fun u hut hu => hut (h.alone u t c hu hc)⟩

omit [DecidableEq κ] in
theorem Strands.setThread_idle {s : Pool κ ι σ} (h : s.Strands) (t : ι) :
    (s.setThread t .idle).Strands := by
  refine h.setThread (fun c hc => ?_)
  cases hc

omit [DecidableEq κ] [DecidableEq ι] in
/-- A connection that has a read is no thread's. -/
theorem Strands.free {s : Pool κ ι σ} (h : s.Strands) {c : κ} (hread : (s.links c).read ≠ .none)
    (t : ι) : c ∉ (s.threads t).at_ :=
  fun hc => hread (h.handled t c hc)

omit [DecidableEq κ] [DecidableEq ι] in
theorem start_strands (p : Process σ) : (start p : Pool κ ι σ).Strands where
  handled t c hc := by cases hc
  alone t u c hc := by cases hc

theorem onRead_strands {s : Pool κ ι σ} (h : s.Strands) {t : ι} {c : κ} {result : Option Str}
    (hread : (s.links c).read = .ready result) : (s.onRead t c result).Strands := by
  have hfree : ∀ u, c ∉ (s.threads u).at_ := h.free (by simp [hread])
  cases result with
  | none => exact h.setLink (Or.inl rfl)
  | some bytes =>
    refine (h.setLink (Or.inl rfl)).setThread (fun d hd => ?_)
    have hdc : c = d := Option.some.inj hd
    subst hdc
    refine ⟨?_, fun u _ => hfree u⟩
    rw [setLink_links, Function.update_self]

theorem round_strands {s : Pool κ ι σ} (h : s.Strands) {t : ι} {c : κ}
    {x : CommandTokenizer.Iterator} (ht : s.threads t = .handling c x) :
    (s.round _do t c x).Strands := by
  have hat : c ∈ (s.threads t).at_ := by rw [ht]; rfl
  unfold round
  cases Worker.round _do s.process x with
  | readAgain =>
    -- once the thread has let go of the connection it may be read again
    refine (h.setThread_idle t).setLink (Or.inr (fun u hu => ?_))
    rw [setThread_threads] at hu
    by_cases hut : u = t
    · subst hut
      rw [Function.update_self] at hu
      cases hu
    · rw [Function.update_of_ne hut] at hu
      exact hut (h.alone u t c hu hat)
  | quit => exact h.setThread_idle t
  | write command p response =>
    have hprocess : ({ s with process := p } : Pool κ ι σ).Strands := ⟨h.handled, h.alone⟩
    apply Strands.setThread_same
    · apply hprocess.setLink
      exact Or.inl (h.handled t c hat)
    · rw [setLink_threads, ht]
      rfl

theorem write_strands {s : Pool κ ι σ} (h : s.Strands) {t : ι} {c : κ}
    {x : CommandTokenizer.Iterator} {response : Str} (ht : s.threads t = .writing c x response) :
    (s.write t c x response).Strands := by
  have hat : c ∈ (s.threads t).at_ := by rw [ht]; rfl
  unfold write
  split
  · exact ⟨h.handled, h.alone⟩
  · apply Strands.setThread_same
    · apply h.setLink
      exact Or.inl (h.handled t c hat)
    · rw [setLink_threads, ht]
      rfl

theorem StepCase.strands {s s' : Pool κ ι σ} {move : Move κ ι} (hcase : StepCase _do s move s')
    (h : s.Strands) : s'.Strands := by
  cases hcase with
  | receive bytes hread => exact h.setLink (Or.inr (h.free (by simp [hread])))
  | readFails hread => exact h.setLink (Or.inr (h.free (by simp [hread])))
  | reset c =>
    by_cases hread : (s.links c).read = .none
    · exact h.setLink (Or.inl hread)
    · exact h.setLink (Or.inr (h.free hread))
  | invoke hidle hread => exact onRead_strands h hread
  | round ht => exact round_strands h ht
  | write ht => exact write_strands h ht

end

end Pool

end Swordfish
