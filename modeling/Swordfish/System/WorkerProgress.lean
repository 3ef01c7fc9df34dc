import Swordfish.System.EndToEnd

/-!
# A handler gets to its end

What a thread does in the handler of a connection whose peer is there: no operation on the store,
the queue or the statistics refuses it, wherever the filler and the other workers stand, and each of
its steps leaves less to do. Which threads there are, and what holds them, is in
`System/WorkerPool`.
-/

namespace Swordfish
open Delimited

variable {cfg : FillerConfig} {env : Env}

/-! ## What is left to do -/

/-- The steps of a lookup from here on. -/
def ClientPc.rank : ClientPc → Nat
  | .idle => 0
  | .lookup => 1
  | .setQueueSize _ => 2
  | .push _ => 3
  | .sizeTest _ => 4

/-- The steps a client has in front of it at most. -/
def Client.rank (x : Client) : Nat := 5 * x.args.length + x.pc.rank

/-- The figures from this one on. -/
def Figure.rank : Figure → Nat
  | storageSize => 6
  | deleted => 5
  | queueSize => 4
  | gets => 3
  | valuesSize => 2
  | updates => 1

/-- The steps of `get_stats` from this one on. -/
def StatsPc.rank : StatsPc → Nat
  | .read f => 2 * f.rank + 1
  | .set f _ => 2 * f.rank
  | .print => 1

/-- The steps of a worker in its command, and one more for the next round. -/
def WorkerPc.rank (x : Client) : WorkerPc → Nat
  | .reading | .closed => 0
  | .handling _ => 1
  | .writing _ _ => 2
  | .reporting _ pc => 2 + pc.rank
  | .getting _ => 2 + x.rank

/-- More than the steps that the command of a line takes. -/
def lineRank (line : Str) : Nat := 5 * (Command.ofLine line).arguments.length + 20

/-- The steps that a worker has in front of it at most, before it waits for bytes. -/
def Session.rank (session : Session) (x : Client) : Nat :=
  (((session.ahead.map Prod.fst).getD []).map lineRank).sum + session.pc.rank x

theorem ClientPc.rank_if_lt {p : Prop} [Decidable p] {pc pc' : ClientPc} {k : Nat}
    (h : pc.rank < k) (h' : pc'.rank < k) : (if p then pc else pc').rank < k := by
  split
  · exact h
  · exact h'

theorem ClientCase.rank_lt {s t : Storage} {now refresh : TimeType} {c : Nat} {x y : Client}
    (h : ClientCase env s now refresh c x (t, y, none)) : y.rank < x.rank := by
  have hlookup : ∀ {out : DHashmap.GetResult},
      (if out.ret then ClientPc.lookup else .sizeTest out.normalizedKey).rank < 5 :=
    ClientPc.rank_if_lt (by decide) (Nat.lt_succ_self 4)
  cases h with
  | @found arg args storage out hpc hargs hget hval =>
    have hlt := @hlookup out
    simp only [Client.rank, hargs, List.length_cons]
    omega
  | @silent arg args storage out hpc hargs hget hval =>
    have hlt := @hlookup out
    simp only [Client.rank, hargs, List.length_cons]
    omega
  | @sizeTest key hpc =>
    have hlt : (if s.queue_.size.toUInt64 < s.maxQueueSize_ then ClientPc.push key
        else .lookup).rank < 4 := ClientPc.rank_if_lt (Nat.lt_succ_self 3) (by decide)
    rw [Client.rank, Client.rank, hpc]
    exact Nat.add_lt_add_left hlt _
  | push hpc =>
    rw [Client.rank, Client.rank, hpc]
    exact Nat.add_lt_add_left (Nat.lt_succ_self 2) _
  | setQueueSize hpc =>
    rw [Client.rank, Client.rank, hpc]
    exact Nat.add_lt_add_left (Nat.lt_succ_self 1) _

theorem StatsPc.rank_behind_lt (f : Figure) (n : UInt32) :
    (StatsPc.behind f).rank < (StatsPc.set f n).rank := by
  cases f <;> exact of_decide_eq_true rfl

namespace Network
open Session

/-! ## One step of the worker -/

/-- The worker has nothing to do before more bytes come. -/
def Waits (n : Network) (c : Nat) : Prop :=
  (n.sessions c).pc = .reading ∨ (n.sessions c).pc = .closed

theorem round_ok {n : Network} (hn : Sound env n) {c : Nat} {x : CommandTokenizer.Iterator}
    (hpc : (n.sessions c).pc = .handling x) : ∃ m, n.round cfg env c x = .ok m := by
  cases x with
  | end_ => exact ⟨_, rfl⟩
  | here token offset =>
    have hidle := (hn.between hpc).1
    simp only [round, Sys.step, hidle]
    split
    · exact ⟨_, rfl⟩
    · split
      · exact ⟨_, rfl⟩
      · split
        · exact ⟨_, rfl⟩
        · split <;> exact ⟨_, rfl⟩

/-- A client in `get_val` is never refused. -/
theorem client_ok {n : Network} (hn : Sound env n) {c : Nat} (hbusy : (n.sys.clients c).pc ≠ .idle)
    (now refresh : TimeType) :
    ∃ r, (n.sys.clients c).step env n.sys.storage now refresh c = .ok r := by
  unfold Client.step
  cases hpc : (n.sys.clients c).pc with
  | idle => exact absurd hpc hbusy
  | lookup =>
    cases (n.sys.clients c).args with
    | nil => exact ⟨_, rfl⟩
    | cons arg args =>
      obtain ⟨r, hget, -⟩ :=
        DHashmap.get_cases hn.provenance.stored.interned now refresh arg []
      simp only [hget]
      exact ⟨_, rfl⟩
  | sizeTest key | push key | setQueueSize size => exact ⟨_, rfl⟩

/-- A worker that does not wait for bytes can go on. -/
theorem work_ok {n : Network} (hn : Sound env n) {c : Nat} (hbusy : ¬ n.Waits c)
    (now refresh : TimeType) : ∃ m, n.work cfg env c now refresh = .ok m := by
  have hserving := hn.serving c
  unfold work
  cases hpc : (n.sessions c).pc with
  | reading => exact absurd (Or.inl hpc) hbusy
  | closed => exact absurd (Or.inr hpc) hbusy
  | handling x => exact round_ok hn hpc
  | getting x =>
    rw [Serving, hpc] at hserving
    obtain ⟨done, command, -, -, -, hx⟩ := hserving
    obtain ⟨r, hr⟩ := client_ok hn hx.busy now refresh
    simp only [hr]
    exact ⟨_, rfl⟩
  | reporting x pc => exact ⟨_, rfl⟩
  | writing x response =>
    dsimp only
    split <;> exact ⟨_, rfl⟩

/-- The steps that the worker of `c` has in front of it at most. -/
def rank (n : Network) (c : Nat) : Nat := (n.sessions c).rank (n.sys.clients c)

theorem rank_setSession (n : Network) (c : Nat) (session : Session) :
    (n.setSession c session).rank c = session.rank (n.sys.clients c) := by
  rw [rank, setSession_sessions, Function.update_self, setSession_sys]

/-- A command begins with less to do than the line before it was worth. -/
theorem rank_begin_lt {n : Network} {c : Nat} {token : Str} {offset : Nat}
    (hpc : (n.sessions c).pc = .handling (.here token offset)) {pc : WorkerPc} {x : Client}
    (hcommand : pc.InCommand (.here token offset))
    (hrank : pc.rank x ≤ lineRank token) :
    (n.begin_ c (Command.ofLine token) pc).rank x < n.rank c := by
  have hahead : (n.begin_ c (Command.ofLine token) pc).ahead =
      some (cut crlf ((n.sessions c).tokenizer_.remainder_.drop offset)) := by
    cases hcommand <;> rfl
  rw [rank, Session.rank, Session.rank, hahead, Session.ahead, hpc]
  simp only [Option.map_some, Option.getD_some, CommandTokenizer.Iterator.ahead, List.map_cons,
    List.sum_cons, WorkerPc.rank]
  change _ + pc.rank x < _
  omega

theorem RoundCase.rank_lt {n m : Network} {c : Nat} {x : CommandTokenizer.Iterator}
    (h : RoundCase n c x m) (hpc : (n.sessions c).pc = .handling x) : m.rank c < n.rank c := by
  cases h with
  | readAgain =>
    rw [rank_setSession, rank, Session.rank, Session.rank, Session.ahead, Session.ahead, hpc]
    exact Nat.lt_succ_self _
  | quit hname =>
    rw [rank_setSession, rank, Session.rank, Session.rank, Session.ahead, Session.ahead, hpc]
    exact Nat.lt_of_lt_of_le (Nat.zero_lt_one) (Nat.le_add_left _ _)
  | logLevel hquit hname =>
    rw [rank_setSession]
    exact rank_begin_lt hpc (.writing _) (by simp only [WorkerPc.rank, lineRank]; omega)
  | stats hquit hname =>
    rw [rank_setSession]
    refine rank_begin_lt hpc (.reporting _) ?_
    simp only [WorkerPc.rank, StatsPc.rank, Figure.rank, lineRank]
    omega
  | get hquit hname hidle =>
    rw [rank_setSession]
    refine rank_begin_lt hpc .getting ?_
    simp only [Function.update_self, WorkerPc.rank, Client.rank, Client.start, ClientPc.rank,
      lineRank]
    omega
  | other hquit hlevel hstats hget =>
    rw [rank_setSession]
    exact rank_begin_lt hpc (.writing _) (by simp only [WorkerPc.rank, lineRank]; omega)

/-- A worker that stays in its command has as much ahead of it. -/
theorem rank_stays_lt {n : Network} {c : Nat} {x : CommandTokenizer.Iterator} {pc : WorkerPc}
    {y : Client} (hbefore : (n.sessions c).pc.InCommand x) (hafter : pc.InCommand x)
    (hrank : pc.rank y < (n.sessions c).pc.rank (n.sys.clients c)) :
    Session.rank { n.sessions c with pc := pc } y < n.rank c := by
  rw [rank, Session.rank, Session.rank, (ahead_of_inCommand (n.sessions c) hbefore).1,
    (ahead_of_inCommand { n.sessions c with pc := pc } hafter).1]
  exact Nat.add_lt_add_left hrank _

/-- Each step of a worker whose peer is there leaves less to do. -/
theorem WorkCase.rank_lt {n m : Network} {c : Nat} {now refresh : TimeType}
    (h : WorkCase env n c now refresh m) (hn : Sound env n)
    (hpresent : (n.sessions c).isReset = false) : m.rank c < n.rank c := by
  cases h with
  | round hpc h => exact h.rank_lt hpc
  | @getting x storage y hpc h =>
    rw [rank_setSession]
    refine rank_stays_lt (hpc ▸ .getting) .getting ?_
    rw [hpc]
    simp only [Function.update_self, WorkerPc.rank]
    exact Nat.add_lt_add_left h.rank_lt 2
  | @got x hpc hlookup hargs =>
    rw [rank_setSession]
    refine rank_stays_lt (hpc ▸ .getting) (.writing _) ?_
    rw [hpc]
    simp only [WorkerPc.rank, Client.rank, hlookup, ClientPc.rank]
    omega
  | @read x f hpc =>
    rw [rank_setSession]
    refine rank_stays_lt (hpc ▸ .reporting _) (.reporting _) ?_
    rw [hpc]
    exact Nat.lt_succ_self _
  | @set x f k hpc =>
    rw [rank_setSession]
    refine rank_stays_lt (hpc ▸ .reporting _) (.reporting _) ?_
    rw [hpc]
    exact Nat.add_lt_add_left (StatsPc.rank_behind_lt f k) 2
  | @print x hpc =>
    rw [rank_setSession]
    refine rank_stays_lt (hpc ▸ .reporting _) (.writing _) ?_
    rw [hpc]
    exact Nat.lt_succ_self _
  | @write x y response remainder hpc _ hnext =>
    obtain ⟨done, lines, rest, hahead, -⟩ := (hn.follows c).lines (by simp [hpc])
    rw [rank_setSession, rank, Session.rank, Session.rank]
    cases x with
    | end_ =>
      rw [ahead, hpc] at hahead
      cases hahead
    | here token offset =>
      have hwithin := (hn.follows c).within (.here token offset) (by simp [iterator, hpc])
      have hsame := (CommandTokenizer.Iterator.next_spec hwithin hnext).2
      simp only [ahead, hpc, hsame, CommandTokenizer.Iterator.behind]
      exact Nat.lt_succ_self _
  | broken hpc hreset =>
    rw [hpresent] at hreset
    cases hreset

/-- A worker changes neither what has come on its connection nor whether its peer is there, and as
long as the peer is there the process goes on. -/
theorem WorkCase.keeps {n m : Network} {c : Nat} {now refresh : TimeType}
    (h : WorkCase env n c now refresh m) (hpresent : (n.sessions c).isReset = false) :
    (m.sessions c).received = (n.sessions c).received ∧ (m.sessions c).isReset = false ∧
      m.terminated = n.terminated := by
  cases h with
  | round hpc h => cases h <;> simp [setSession, begin_, hpresent]
  | broken hpc hreset =>
    rw [hpresent] at hreset
    cases hreset
  | getting hpc h => simp [setSession, hpresent]
  | got hpc hlookup hargs => simp [setSession, hpresent]
  | read hpc => simp [setSession, hpresent]
  | set hpc => simp [setSession, hpresent]
  | print hpc => simp [setSession, hpresent]
  | write hpc _ hnext => simp [setSession, hpresent]

/-! ## The worker alone -/

/-- The worker of `c`, whose peer is there, is in a sound state of a process that goes on. -/
structure CanWork (env : Env) (c : Nat) (received : Str) (n : Network) : Prop where
  sound : Sound env n
  present : (n.sessions c).isReset = false
  live : n.terminated = false
  received : (n.sessions c).received = received

theorem CanWork.step_ok {n : Network} {c : Nat} {received : Str} (h : CanWork env c received n)
    (hbusy : ¬ n.Waits c) (now refresh : TimeType) :
    ∃ m, step cfg env n (.go c now refresh) = .ok m ∧ CanWork env c received m ∧
      m.rank c < n.rank c := by
  obtain ⟨m, hwork⟩ : ∃ m, n.work cfg env c now refresh = .ok m :=
    work_ok h.sound hbusy now refresh
  have hcase := work_cases hwork
  obtain ⟨hreceived, hpresent, hlive⟩ := hcase.keeps h.present
  have hstep : step cfg env n (.go c now refresh) = .ok m := by
    rw [step, h.live]
    exact hwork
  exact ⟨m, hstep, ⟨hcase.sound h.sound, hpresent, hlive.trans h.live, hreceived.trans h.received⟩,
    hcase.rank_lt h.sound h.present⟩

end Network

end Swordfish
