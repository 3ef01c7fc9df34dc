import Swordfish.Connection.Pool
import Swordfish.Connection.Split

/-!
# Broken connections

What one client's reset does to the others. A write to a connection that is reset ends the process;
as long as there is none, a thread that is free, or gets free, answers whatever comes next on the
connections whose peers are there.
-/

namespace Swordfish.Pool
open Delimited

variable {κ ι σ : Type}

/-- The connection that the move writes a response to. -/
def writesTo (s : Pool κ ι σ) : Move κ ι → Option κ
  | .go t =>
      match s.threads t with
      | .writing c _ _ => some c
      | _ => none
  | _ => none

/-- A move that writes a response finds the connection as it was: its peer has not reset it. -/
def PeerPresent (s : Pool κ ι σ) (move : Move κ ι) : Prop :=
  ∀ c ∈ s.writesTo move, (s.links c).isReset = false

instance (s : Pool κ ι σ) : DecidablePred s.PeerPresent := fun move =>
  inferInstanceAs (Decidable (∀ c ∈ s.writesTo move, _))

/-- The thread is free, or at work for a connection whose peer has not reset it. -/
def Available (s : Pool κ ι σ) (t : ι) : Prop :=
  ∀ c ∈ (s.threads t).at_, (s.links c).isReset = false

/-- These bytes are the next that `on_read` gets on `c`: they have come, or the read waits for
them. -/
def Next (s : Pool κ ι σ) (c : κ) (bytes : Str) : Prop :=
  (s.links c).read = .pending ∨ (s.links c).read = .ready (some bytes)

section
variable [DecidableEq κ] [DecidableEq ι]

/-- The bytes that come next on `c` can be answered: some thread gets free, in a state `u`, and from
there every command that is complete with them, up to a `quit`, is executed and its response is
written, and without a `quit` the connection is read again. -/
def Answerable (_do : Handler σ) (s : Pool κ ι σ) (c : κ) (bytes : Str) : Prop :=
  ∃ before u after t, Run.exec (step _do) s before = .ok u ∧ Run.exec (step _do) u after = .ok t ∧
    t.terminated = false ∧
    (t.links c).executed = (s.links c).executed ++
      upToQuit (cut crlf ((s.links c).tokenizer_.remainder_ ++ bytes)).1 ∧
    (t.links c).written = (s.links c).written ++ (Worker.answers _do u.process
      (upToQuit (cut crlf ((s.links c).tokenizer_.remainder_ ++ bytes)).1)).2 ∧
    ((t.links c).read = .pending ↔
      ¬ Quits (cut crlf ((s.links c).tokenizer_.remainder_ ++ bytes)).1)

/-- All threads run, and the later requests of every connection whose peer has not reset it are
still answered. -/
def Serves (_do : Handler σ) (s : Pool κ ι σ) : Prop :=
  s.terminated = false ∧
    ∀ c t bytes, s.Next c bytes → (s.links c).isReset = false → s.Available t →
      s.Answerable _do c bytes

/-! ## The end of the process -/

variable {_do : Handler σ}

omit [DecidableEq κ] [DecidableEq ι] in
theorem peerPresent_of_writesTo_none {s : Pool κ ι σ} {move : Move κ ι}
    (h : s.writesTo move = none) : s.PeerPresent move := by
  intro c hc
  rw [h] at hc
  cases hc

/-- The process ends with a write to a connection that is reset, and with nothing else. -/
theorem StepCase.terminated_iff {s s' : Pool κ ι σ} {move : Move κ ι}
    (h : StepCase _do s move s') (hlive : s.terminated = false) :
    s'.terminated = false ↔ s.PeerPresent move := by
  cases h with
  | receive bytes hread => exact iff_of_true hlive (peerPresent_of_writesTo_none rfl)
  | readFails hread => exact iff_of_true hlive (peerPresent_of_writesTo_none rfl)
  | reset c => exact iff_of_true hlive (peerPresent_of_writesTo_none rfl)
  | @invoke t c result hidle hread =>
    refine iff_of_true ?_ (peerPresent_of_writesTo_none rfl)
    cases result <;> exact hlive
  | @round t c x ht =>
    refine iff_of_true ?_ (peerPresent_of_writesTo_none (by simp [writesTo, ht]))
    unfold Pool.round
    cases Worker.round _do s.process x <;> exact hlive
  | @write t c x response ht =>
    have hwrites : s.writesTo (.go t) = some c := by simp [writesTo, ht]
    have hpresent : s.PeerPresent (.go t) ↔ (s.links c).isReset = false := by
      simp [PeerPresent, hwrites]
    rw [hpresent]
    unfold Pool.write
    cases hreset : (s.links c).isReset with
    | true => simp
    | false => simpa using hlive

/-- After a run the threads have their strands, and the process goes on exactly when every write
has found its peer. -/
theorem run_terminated_iff {p : Process σ} {moves : List (Move κ ι)} {s : Pool κ ι σ}
    (h : Run.exec (step _do) (start p) moves = .ok s) :
    s.Strands ∧ (s.terminated = false ↔ Run.Every (step _do) PeerPresent (start p) moves) := by
  revert h
  refine Run.exec_induction
    (P := fun moves (s : Pool κ ι σ) => s.Strands ∧
      (s.terminated = false ↔ Run.Every (step _do) PeerPresent (start p) moves))
    ⟨start_strands p, iff_of_true rfl trivial⟩ ?_
  rintro moves s move s' hrun ⟨hstrands, hlive⟩ hstep
  obtain ⟨hrunning, hcase⟩ := step_cases hstep
  refine ⟨hcase.strands hstrands, ?_⟩
  rw [hcase.terminated_iff hrunning, Run.every_concat hrun]
  exact ⟨fun hpeer => ⟨hlive.mp hrunning, hpeer⟩, fun hevery => hevery.2⟩

/-! ## A handler, to its end -/

/-- The connection `c` with the process, as `Connection` has it. -/
def connection (s : Pool κ ι σ) (c : κ) : Connection σ :=
  { process := s.process
    tokenizer_ := (s.links c).tokenizer_
    reading := decide ((s.links c).read = .pending)
    executed := (s.links c).executed
    written := (s.links c).written }

/-- The thread `t` has finished its handler for the connection `c`, which has become `d`; nothing
else has changed. -/
structure Finished (s : Pool κ ι σ) (t : ι) (c : κ) (d : Connection σ) (s' : Pool κ ι σ) :
    Prop where
  connection : s'.connection c = d
  idle : s'.threads t = .idle
  present : (s'.links c).isReset = false
  live : s'.terminated = false
  others : ∀ e ≠ c, s'.links e = s.links e

/-- The thread `t` is in the loop of `on_read` for the connection `c`, whose peer is there. -/
structure AtWork (s : Pool κ ι σ) (t : ι) (c : κ) (x : CommandTokenizer.Iterator) : Prop where
  thread : s.threads t = .handling c x
  read : (s.links c).read = .none
  present : (s.links c).isReset = false
  live : s.terminated = false

/-- A write that finds its peer. -/
theorem reaches_write {s : Pool κ ι σ} {t : ι} {c : κ} {x x' : CommandTokenizer.Iterator}
    {response remainder : Str} (ht : s.threads t = .writing c x response)
    (hread : (s.links c).read = .none) (hpresent : (s.links c).isReset = false)
    (hlive : s.terminated = false)
    (hnext : x.next (s.links c).tokenizer_.remainder_ = (remainder, x')) :
    Run.Reaches (step _do) s (fun s' => s'.AtWork t c x' ∧
      s'.connection c =
        { s.connection c with
          tokenizer_ := ⟨remainder⟩
          written := (s.links c).written ++ [response] } ∧
      ∀ e ≠ c, s'.links e = s.links e) := by
  have hgo : step _do s (.go t) = .ok (s.write t c x response) := by simp [step, hlive, ht]
  refine .next hgo (.refl ?_)
  simp only [write, hpresent, Bool.false_eq_true, if_false, hnext]
  refine ⟨⟨?_, ?_, ?_, hlive⟩, ?_, ?_⟩
  · simp
  · simp [hread]
  · simp
  · simp [connection]
  · intro e he
    simp [Function.update_of_ne he]

/-- A round that answers a command, as one step of the loop of `on_read`. -/
theorem reaches_answer {s : Pool κ ι σ} {t : ι} {c : κ} {x x' : CommandTokenizer.Iterator}
    (hwork : s.AtWork t c x) {command : Command} {p : Process σ} {response remainder : Str}
    (hround : Worker.round _do s.process x = .write command p response)
    (hnext : x.next (s.links c).tokenizer_.remainder_ = (remainder, x')) :
    Run.Reaches (step _do) s (fun s' => s'.AtWork t c x' ∧
      s'.connection c =
        { s.connection c with
          process := p
          tokenizer_ := ⟨remainder⟩
          executed := (s.links c).executed ++ [command]
          written := (s.links c).written ++ [response] } ∧
      ∀ e ≠ c, s'.links e = s.links e) := by
  have hgo : step _do s (.go t) = .ok (s.round _do t c x) := by
    simp [step, hwork.live, hwork.thread]
  obtain ⟨s₁, hs₁⟩ : ∃ s₁, s.round _do t c x = s₁ := ⟨_, rfl⟩
  rw [hs₁] at hgo
  simp only [round, hround] at hs₁
  have ht : s₁.threads t = .writing c x response := by simp [← hs₁]
  have hread : (s₁.links c).read = .none := by simp [← hs₁, hwork.read]
  have hpresent : (s₁.links c).isReset = false := by simp [← hs₁, hwork.present]
  have hlive : s₁.terminated = false := by simp [← hs₁, hwork.live]
  have hnext₁ : x.next (s₁.links c).tokenizer_.remainder_ = (remainder, x') := by
    simp [← hs₁, hnext]
  refine .next hgo ((reaches_write ht hread hpresent hlive hnext₁).mono ?_)
  rintro s' ⟨hwork', hconnection, hothers⟩
  refine ⟨hwork', ?_, ?_⟩
  · rw [hconnection]
    simp [← hs₁, connection]
  · intro e he
    rw [hothers e he]
    simp [← hs₁, Function.update_of_ne he]

/-- The moves of one thread are the loop of `on_read`, when the peer stays. -/
theorem reaches_onReadLoop {rounds : Nat} {s : Pool κ ι σ} {t : ι} {c : κ}
    {x : CommandTokenizer.Iterator} {d : Connection σ} (hwork : s.AtWork t c x)
    (hloop : Connection.onReadLoop _do rounds (s.connection c) x = some d) :
    Run.Reaches (step _do) s (Finished s t c d) := by
  induction rounds generalizing s x with
  | zero => cases hloop
  | succ rounds ih =>
    have hgo : step _do s (.go t) = .ok (s.round _do t c x) := by
      simp [step, hwork.live, hwork.thread]
    have hprocess : (s.connection c).process = s.process := rfl
    unfold Connection.onReadLoop at hloop
    rw [hprocess] at hloop
    cases hround : Worker.round _do s.process x with
    | readAgain =>
      simp only [hround, Option.some.injEq] at hloop
      subst hloop
      refine .next hgo (.refl ?_)
      simp only [round, hround]
      constructor
      · simp [connection]
      · simp
      · simp [hwork.present]
      · exact hwork.live
      · intro e he
        simp [Function.update_of_ne he]
    | quit =>
      simp only [hround, Option.some.injEq] at hloop
      subst hloop
      refine .next hgo (.refl ?_)
      simp only [round, hround]
      constructor
      · rfl
      · simp
      · exact hwork.present
      · exact hwork.live
      · exact fun e _ => rfl
    | write command p response =>
      obtain ⟨⟨remainder, x'⟩, hnext⟩ :
          ∃ r, x.next (s.links c).tokenizer_.remainder_ = r := ⟨_, rfl⟩
      have hremainder : (s.connection c).tokenizer_.remainder_ =
          (s.links c).tokenizer_.remainder_ := rfl
      simp only [hround, hremainder, hnext] at hloop
      refine (reaches_answer hwork hround hnext).trans ?_
      rintro s' ⟨hwork', hconnection, hothers⟩
      refine (ih hwork' (by rw [hconnection]; exact hloop)).mono ?_
      intro u hu
      refine ⟨hu.connection, hu.idle, hu.present, hu.live, fun e he => ?_⟩
      rw [hu.others e he, hothers e he]

variable (_do) in
/-- The loop of `on_read` ends, wherever its iterator is. -/
theorem onReadLoop_ends {c : Connection σ} (hclosed : c.reading = false)
    (x : CommandTokenizer.Iterator) :
    ∃ rounds d, Connection.onReadLoop _do rounds c x = some d := by
  by_cases hwithin : x.Within c.tokenizer_.remainder_
  · obtain ⟨d, hloop, -⟩ := Connection.onReadLoop_spec hclosed hwithin rfl (Nat.lt_succ_self _)
    exact ⟨_, d, hloop⟩
  · cases x with
    | end_ => exact absurd trivial hwithin
    | here token offset =>
      have hnone : find crlf c.tokenizer_.remainder_ offset = none :=
        find_eq_none_iff.mpr (fun j hj hle => absurd (Nat.le_trans hj hle) hwithin)
      by_cases hquit : (Command.ofLine token).name = text "quit"
      · exact ⟨1, c, by simp [Connection.onReadLoop, Worker.round, hquit]⟩
      · refine ⟨2, Option.isSome_iff_exists.mp ?_⟩
        simp [Connection.onReadLoop, Worker.round, hquit, CommandTokenizer.Iterator.next, hnone]

variable (_do) in
/-- A thread that is in the loop of `on_read` comes to its end, when the peer stays. -/
theorem AtWork.reaches_finished {s : Pool κ ι σ} {t : ι} {c : κ} {x : CommandTokenizer.Iterator}
    (hwork : s.AtWork t c x) : ∃ d, Run.Reaches (step _do) s (Finished s t c d) := by
  have hclosed : (s.connection c).reading = false := by simp [connection, hwork.read]
  obtain ⟨rounds, d, hloop⟩ := onReadLoop_ends _do hclosed x
  exact ⟨d, reaches_onReadLoop hwork hloop⟩

variable (_do) in
/-- An available thread gets free, and leaves the connections alone that have a read. -/
theorem reaches_idle {s : Pool κ ι σ} (hstrands : s.Strands) (hlive : s.terminated = false) {t : ι}
    (havailable : s.Available t) :
    Run.Reaches (step _do) s (fun s' => s'.threads t = .idle ∧ s'.terminated = false ∧
      ∀ c, (s.links c).read ≠ .none → s'.links c = s.links c) := by
  cases ht : s.threads t with
  | idle => exact .refl ⟨ht, hlive, fun c _ => rfl⟩
  | handling d x =>
    have hat : d ∈ (s.threads t).at_ := by rw [ht]; rfl
    have hread := hstrands.handled t d hat
    have hwork : s.AtWork t d x := ⟨ht, hread, havailable d hat, hlive⟩
    obtain ⟨e, hfinished⟩ := hwork.reaches_finished _do
    refine hfinished.mono (fun s' h => ⟨h.idle, h.live, fun c hc => h.others c ?_⟩)
    rintro rfl
    exact hc hread
  | writing d x response =>
    have hat : d ∈ (s.threads t).at_ := by rw [ht]; rfl
    have hread := hstrands.handled t d hat
    obtain ⟨⟨remainder, x'⟩, hnext⟩ :
        ∃ r, x.next (s.links d).tokenizer_.remainder_ = r := ⟨_, rfl⟩
    apply (reaches_write ht hread (havailable d hat) hlive hnext).trans
    rintro s₁ ⟨hwork, -, hothers⟩
    obtain ⟨e, hfinished⟩ := hwork.reaches_finished _do
    refine hfinished.mono (fun s' h => ⟨h.idle, h.live, fun c hc => ?_⟩)
    have hcd : c ≠ d := by
      rintro rfl
      exact hc hread
    rw [h.others c hcd, hothers c hcd]

/-- A free thread takes the bytes that have come, and answers them as `Connection.onRead` does. -/
theorem reaches_invoke {s : Pool κ ι σ} {t : ι} {c : κ} {bytes : Str} (ht : s.threads t = .idle)
    (hread : (s.links c).read = .ready (some bytes)) (hpresent : (s.links c).isReset = false)
    (hlive : s.terminated = false) {d : Connection σ}
    (honRead : (s.connection c).onRead _do bytes = some d) :
    Run.Reaches (step _do) s (fun s' => s'.connection c = d ∧ s'.terminated = false) := by
  have hinvoke : step _do s (.invoke t c) = .ok (s.onRead t c (some bytes)) := by
    simp [step, hlive, ht, hread]
  obtain ⟨s₁, hs₁⟩ : ∃ s₁, s.onRead t c (some bytes) = s₁ := ⟨_, rfl⟩
  rw [hs₁] at hinvoke
  have hconnection : s₁.connection c =
      { s.connection c with
        tokenizer_ := (s.connection c).tokenizer_.append bytes
        reading := false } := by
    simp [← hs₁, onRead, connection]
  have hwork : s₁.AtWork t c ((s.connection c).tokenizer_.append bytes).begin_ := by
    rw [← hs₁]
    constructor
    · simp [onRead, connection]
    · simp [onRead]
    · simp [onRead, hpresent]
    · exact hlive
  have hloop : Connection.onReadLoop _do
      (((s.connection c).tokenizer_.append bytes).remainder_.length + 1) (s₁.connection c)
      ((s.connection c).tokenizer_.append bytes).begin_ = some d := by
    rw [hconnection]
    exact honRead
  refine .next hinvoke ?_
  exact (reaches_onReadLoop hwork hloop).mono (fun s' h => ⟨h.connection, h.live⟩)

/-- The same for bytes that may still have to come. -/
theorem reaches_onRead {s : Pool κ ι σ} {t : ι} {c : κ} {bytes : Str} (ht : s.threads t = .idle)
    (hnext : s.Next c bytes) (hpresent : (s.links c).isReset = false)
    (hlive : s.terminated = false) {d : Connection σ}
    (honRead : (s.connection c).onRead _do bytes = some d) :
    Run.Reaches (step _do) s (fun s' => s'.connection c = d ∧ s'.terminated = false) := by
  rcases hnext with hread | hread
  · have hreceive : step _do s (.receive c bytes) =
        .ok (s.setLink c { s.links c with read := .ready (some bytes) }) := by
      simp [step, hlive, hread, hpresent]
    have hready : ((s.setLink c { s.links c with read := .ready (some bytes) }).links c).read =
        .ready (some bytes) := by
      simp
    have hidle : (s.setLink c { s.links c with read := .ready (some bytes) }).threads t = .idle :=
      ht
    refine .next hreceive (reaches_invoke hidle hready ?_ hlive ?_)
    · simp [hpresent]
    · simpa [connection, Connection.onRead] using honRead
  · exact reaches_invoke ht hread hpresent hlive honRead

/-- As long as the process runs, the pool serves. -/
theorem serves_of_live {s : Pool κ ι σ} (hstrands : s.Strands) (hlive : s.terminated = false) :
    s.Serves _do := by
  refine ⟨hlive, fun c t bytes hnext hpresent havailable => ?_⟩
  have hhandler : (s.links c).read ≠ .none := by
    rcases hnext with hread | hread <;> simp [hread]
  obtain ⟨moves, s₁, hrun, hidle, hlive₁, hkept⟩ := reaches_idle _do hstrands hlive havailable
  have hlink : s₁.links c = s.links c := hkept c hhandler
  obtain ⟨d, honRead, hdone⟩ := @Connection.onRead_spec _ _do (s₁.connection c) bytes
  have hnext₁ : s₁.Next c bytes := by
    unfold Next
    rw [hlink]
    exact hnext
  obtain ⟨moves', s₂, hrun', hconnection, hlive₂⟩ :=
    reaches_onRead hidle hnext₁ (by rw [hlink]; exact hpresent) hlive₁ honRead
  rw [← hconnection] at hdone
  refine ⟨moves, s₁, moves', s₂, hrun, hrun', hlive₂, ?_⟩
  rw [← hlink]
  refine ⟨hdone.executed, hdone.written, ?_⟩
  exact (decide_eq_true_iff.symm).trans hdone.reading

/-- One broken connection stops no other, exactly: after any run of any connections, requests and
resets, all threads run and the later requests of the other connections are still answered if and
only if no response of the run was written to a connection that its peer had reset. -/
theorem serves_iff {p : Process σ} {moves : List (Move κ ι)} {s : Pool κ ι σ}
    (h : Run.exec (step _do) (start p) moves = .ok s) :
    s.Serves _do ↔ Run.Every (step _do) PeerPresent (start p) moves := by
  obtain ⟨hstrands, hlive⟩ := run_terminated_iff h
  rw [← hlive]
  exact ⟨fun hserves => hserves.1, fun hrunning => serves_of_live hstrands hrunning⟩

end

/-- Two connections and two threads. The commands have no effect and no answer of their own. -/
abbrev quiet : Handler Unit := fun _ _ => ((), [])

/-- One client pipelines two commands and resets its connection between the responses, the other
waits: the process ends, and the other gets no answer any more. -/
theorem write_terminates :
    ¬ ∀ (moves : List (Move Bool Bool)) (s : Pool Bool Bool Unit),
      Run.exec (step quiet) (start ⟨(), .info⟩) moves = .ok s → s.Serves quiet := by
  intro h
  obtain ⟨s, hrun, hterminated⟩ := Run.yields_iff.mp
    (by decide : Run.Yields (step quiet) (fun s : Pool Bool Bool Unit => s.terminated = true)
      (start ⟨(), .info⟩)
      [.receive false (text "get k\r\nget l\r\n"), .invoke false false, .go false, .go false,
        .reset false, .go false, .go false])
  have hlive := (h _ s hrun).1
  rw [hterminated] at hlive
  cases hlive

/-- The other client resets its connection after its response, and the thread reads its error. -/
theorem serves_iff_reset :
    ∃ s : Pool Bool Bool Unit, Run.exec (step quiet) (start ⟨(), .info⟩)
      [.receive false (text "get k\r\n"), .invoke true false, .go true, .go true, .reset false,
        .go true, .readFails false, .invoke true false] = .ok s ∧ s.Serves quiet := by
  obtain ⟨s, hrun, -⟩ := Run.yields_iff.mp
    (by decide : Run.Yields (step quiet) (fun s : Pool Bool Bool Unit => s.terminated = false)
      (start ⟨(), .info⟩)
      [.receive false (text "get k\r\n"), .invoke true false, .go true, .go true, .reset false,
        .go true, .readFails false, .invoke true false])
  exact ⟨s, hrun, (serves_iff hrun).mpr (by decide)⟩

end Swordfish.Pool
