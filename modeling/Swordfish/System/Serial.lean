import Swordfish.Storage.Commands
import Swordfish.Storage.GetVal
import Swordfish.System.WorkerProgress

/-!
# Handlers one after the other

`Connection.onRead` runs a handler as a whole, with what executes a command as a parameter; in the
network each of its operations is a step of its own. Here the two meet: with `Storage::_do` for the
parameter, a worker that goes on alone in the network comes to what `onRead` comes to. So a daemon
whose handlers run one after the other, with the filler in between, is among the interleavings.
-/

namespace Swordfish
open DHashmap

variable {cfg : FillerConfig} {env : Env} {c : Nat} {now refresh : TimeType}

/-- `Storage::_do` as a worker calls it while the clock stands still. The source reads the clock for
each argument; the handlers here are those in which all these readings are the same. -/
def Storage.handler (env : Env) (now refresh : TimeType) : Handler Storage := fun s command =>
  match s._do env (fun _ => (now, refresh)) now command with
  | .ok r => r
  | .error _ => (s, [])

namespace Worker

variable {σ : Type} {_do : Handler σ} {p : Process σ} {command : Command}

theorem respond_logLevel (h : command.name = text "log_level") :
    respond _do p command =
      ({ p with level := (logLevel p.level command).1 }, (logLevel p.level command).2) := by
  have hend : text "END\r\n" ≠ [] := by decide
  by_cases hargc : command.argc = 1
  · simp [respond, logLevel, h, hargc, hend]
  · simp [respond, logLevel, h, hargc, hend]

theorem respond_do (h : command.name ≠ text "log_level") :
    respond _do p command =
      ({ p with state := (_do p.state command).1 },
        if (_do p.state command).2 = [] then text "END\r\n" else (_do p.state command).2) := by
  simp [respond, h]

end Worker

namespace Storage

theorem ofArguments_const (args : List Str) :
    Lookup.ofArguments (fun _ => (now, refresh)) args = args.map (⟨·, now, refresh⟩) := by
  have hmap : (fun x : Str × Nat => (⟨x.1, now, refresh⟩ : Lookup)) =
      (fun arg => ⟨arg, now, refresh⟩) ∘ Prod.fst := rfl
  unfold Lookup.ofArguments
  rw [hmap, ← List.map_map, List.zipIdx_map_fst]

/-- No command fails, and each leaves the invariant. -/
theorem handler_ok {s : Storage} (hw : Interned env s.storage_) (now refresh : TimeType)
    (command : Command) :
    s._do env (fun _ => (now, refresh)) now command = .ok (handler env now refresh s command) ∧
      Interned env (handler env now refresh s command).1.storage_ := by
  have hok : ∃ r, s._do env (fun _ => (now, refresh)) now command = .ok r ∧
      Interned env r.1.storage_ := by
    unfold _do
    by_cases hstats : command.name = text "stats"
    · rw [if_pos hstats]
      exact ⟨_, rfl, hw.of_same_owners rfl rfl rfl⟩
    · rw [if_neg hstats]
      by_cases hget : command.name = text "get"
      · rw [if_pos hget]
        obtain ⟨t, res, hlookups, hlooked⟩ :=
          lookups_looked hw (Lookup.ofArguments (fun _ => (now, refresh)) command.arguments) []
        exact ⟨_, getVal_ok.mpr ⟨res, hlookups, rfl⟩, hlooked.interned⟩
      · rw [if_neg hget]
        exact ⟨_, rfl, hw⟩
  obtain ⟨r, hr, hinterned⟩ := hok
  have heq : handler env now refresh s command = r := by
    simp only [handler, hr]
  rw [heq]
  exact ⟨hr, hinterned⟩

end Storage

namespace Network

/-- A worker and its connection as `Connection.onRead` sees them. -/
def connection (n : Network) (c : Nat) : Connection Storage :=
  { process := { state := n.sys.storage, level := n.level }
    tokenizer_ := (n.sessions c).tokenizer_
    reading := (n.sessions c).pc = .reading
    executed := (n.sessions c).executed
    written := (n.sessions c).written }

/-- The network in which worker `c` has got this far in a command. -/
def advance (n : Network) (c : Nat) (storage : Storage) (x : Client) (log : List Event)
    (pc : WorkerPc) : Network :=
  { n with
    sys := { n.sys with
      storage := storage
      clients := Function.update n.sys.clients c x
      log := log } }.setSession c { n.sessions c with pc := pc }

section Advance

variable (n : Network) (c : Nat) (storage storage' : Storage) (x x' : Client)
  (log log' : List Event) (pc pc' : WorkerPc)

@[simp] theorem advance_session : (n.advance c storage x log pc).sessions c =
    { n.sessions c with pc := pc } := Function.update_self ..

@[simp] theorem advance_client : (n.advance c storage x log pc).sys.clients c = x :=
  Function.update_self ..

@[simp] theorem advance_storage : (n.advance c storage x log pc).sys.storage = storage := rfl

@[simp] theorem advance_log : (n.advance c storage x log pc).sys.log = log := rfl

@[simp] theorem advance_terminated : (n.advance c storage x log pc).terminated = n.terminated := rfl

@[simp] theorem advance_advance :
    (n.advance c storage x log pc).advance c storage' x' log' pc' =
      n.advance c storage' x' log' pc' := by
  simp [advance, setSession]

end Advance

/-- What another worker, the filler and the destructor see of the network is the same. -/
structure Beside (c : Nat) (n m : Network) : Prop where
  sessions : ∀ c', c' ≠ c → m.sessions c' = n.sessions c'
  clients : ∀ c', c' ≠ c → m.sys.clients c' = n.sys.clients c'
  filler : m.sys.filler = n.sys.filler
  isAlive_ : m.sys.isAlive_ = n.sys.isAlive_
  isReset : (m.sessions c).isReset = (n.sessions c).isReset
  terminated : m.terminated = n.terminated

theorem Beside.refl (c : Nat) (n : Network) : Beside c n n :=
  ⟨fun _ _ => rfl, fun _ _ => rfl, rfl, rfl, rfl, rfl⟩

theorem Beside.trans {n m k : Network} (h : Beside c n m) (h' : Beside c m k) : Beside c n k where
  sessions c' hne := (h'.sessions c' hne).trans (h.sessions c' hne)
  clients c' hne := (h'.clients c' hne).trans (h.clients c' hne)
  filler := h'.filler.trans h.filler
  isAlive_ := h'.isAlive_.trans h.isAlive_
  isReset := h'.isReset.trans h.isReset
  terminated := h'.terminated.trans h.terminated

/-! ## A worker alone -/

/-- Worker `c` goes on alone, while the clock stands still, and gets to `P`. -/
def Goes (cfg : FillerConfig) (env : Env) (c : Nat) (now refresh : TimeType) (n : Network)
    (P : Network → Prop) : Prop :=
  Run.Reaches (Run.only (· = .go c now refresh) Halt.blocked (step cfg env)) n P

theorem Goes.next {n m : Network} {P : Network → Prop} (hterminated : n.terminated = false)
    (hwork : n.work cfg env c now refresh = .ok m) (h : Goes cfg env c now refresh m P) :
    Goes cfg env c now refresh n P := by
  apply Run.Reaches.next (o := .go c now refresh) _ h
  simp only [Run.only, if_true, step, hterminated, Bool.false_eq_true, if_false]
  exact hwork

/-- What the invariant says holds wherever a worker gets. -/
theorem Goes.sound {n : Network} {P : Network → Prop} (hn : Sound env n)
    (h : Goes cfg env c now refresh n P) :
    Goes cfg env c now refresh n (fun m => Sound env m ∧ P m) := by
  obtain ⟨moves, m, hrun, hm⟩ := h
  have hsound : Sound env m :=
    Run.exec_invariant (I := Sound env) (fun _ _ _ hn hstep => (step_cases hstep).2.sound hn) hn
      (Run.exec_only_ok.mp hrun).2
  exact ⟨moves, m, hrun, hsound, hm⟩

section Command

variable {n : Network} {P : Network → Prop} {st st' : Storage} {log : List Event}
  {x : CommandTokenizer.Iterator}

/-! ### `get` -/

theorem goes_client {y z : Client} (hterminated : n.terminated = false)
    (hstep : y.step env st now refresh c = .ok (st', z, none))
    (h : Goes cfg env c now refresh (n.advance c st' z log (.getting x)) P) :
    Goes cfg env c now refresh (n.advance c st y log (.getting x)) P := by
  refine Goes.next hterminated ?_ h
  simp only [work, advance_session, advance_client, advance_storage, hstep]
  rw [← advance_advance n c st st' y z log log (.getting x) (.getting x)]
  simp [advance, History.record]

theorem goes_pushKey (hterminated : n.terminated = false) {y : Client} {key : Str}
    (h : Goes cfg env c now refresh
      (n.advance c (st.pushKey key) { y with pc := .lookup } log (.getting x)) P) :
    Goes cfg env c now refresh
      (n.advance c st { y with pc := .sizeTest key } log (.getting x)) P := by
  unfold Storage.pushKey at h
  by_cases hroom : st.queue_.size.toUInt64 < st.maxQueueSize_
  · rw [if_pos hroom] at h
    apply goes_client hterminated rfl
    rw [if_pos hroom]
    apply goes_client hterminated rfl
    exact goes_client hterminated rfl h
  · rw [if_neg hroom] at h
    apply goes_client hterminated rfl
    rw [if_neg hroom]
    exact h

theorem goes_lookup (hterminated : n.terminated = false) {arg : Str} {args : List Str}
    {res res' : Str} {items : List (Str × Str)}
    (hlookup : st.lookup env ⟨arg, now, refresh⟩ res = .ok (st', res'))
    (h : ∀ items', Goes cfg env c now refresh
      (n.advance c st' ⟨.lookup, args, res', items'⟩ log (.getting x)) P) :
    Goes cfg env c now refresh
      (n.advance c st ⟨.lookup, arg :: args, res, items⟩ log (.getting x)) P := by
  obtain ⟨storage, out, hget, rfl, rfl⟩ := Storage.lookup_ok.mp hlookup
  let items' := if out.val ≠ [] then items ++ [(arg, out.val)] else items
  let res' := if out.val ≠ [] then Storage.resAppend arg out.val res else res
  have hstep : Client.step env st now refresh c ⟨.lookup, arg :: args, res, items⟩ =
      .ok ({ st with storage_ := storage },
        ⟨if out.ret then .lookup else .sizeTest out.normalizedKey, args, res', items'⟩, none) := by
    simp only [Client.step, hget, res', items']
    by_cases hval : out.val = [] <;> simp [hval]
  apply goes_client hterminated hstep
  cases hret : out.ret with
  | true =>
    have hnext := h items'
    rw [hret] at hnext
    exact hnext
  | false =>
    have hnext := h items'
    rw [hret] at hnext
    exact goes_pushKey (y := ⟨.lookup, args, res', items'⟩) hterminated hnext

theorem goes_lookups (hterminated : n.terminated = false) {args : List Str} {res res' : Str}
    {items : List (Str × Str)}
    (hlookups : st.lookups env res (args.map (⟨·, now, refresh⟩)) = .ok (st', res'))
    (h : ∀ items', Goes cfg env c now refresh
      (n.advance c st' ⟨.lookup, [], res', items'⟩ log (.getting x)) P) :
    Goes cfg env c now refresh
      (n.advance c st ⟨.lookup, args, res, items⟩ log (.getting x)) P := by
  induction args generalizing st res items with
  | nil =>
    cases hlookups
    exact h items
  | cons arg args ih =>
    obtain ⟨u, res'', hx, hxs⟩ := Storage.lookups_cons_ok.mp hlookups
    exact goes_lookup hterminated hx (fun _ => ih hxs)

theorem goes_getVal (hterminated : n.terminated = false) {args : List Str} {response : Str}
    (hget : st.getVal env (args.map (⟨·, now, refresh⟩)) = .ok (st', response))
    (h : ∀ log', Goes cfg env c now refresh
      (n.advance c st' .idle log' (.writing x response)) P) :
    Goes cfg env c now refresh (n.advance c st (.start args) log (.getting x)) P := by
  obtain ⟨res, hlookups, rfl⟩ := Storage.getVal_ok.mp hget
  apply goes_lookups hterminated hlookups
  intro items
  refine Goes.next hterminated ?_ (h (.sent c items (res ++ text "END\r\n") :: log))
  simp [work, Client.step, advance, setSession, History.record]

/-! ### `stats` -/

theorem goes_report (hterminated : n.terminated = false) {y : Client} {pc pc' : StatsPc}
    (hstep : pc.step st now = (st', .inl pc'))
    (h : Goes cfg env c now refresh (n.advance c st' y log (.reporting x pc')) P) :
    Goes cfg env c now refresh (n.advance c st y log (.reporting x pc)) P := by
  refine Goes.next hterminated ?_ h
  simp [work, hstep, advance, setSession]

/-- A figure is read and set. -/
theorem goes_figure (hterminated : n.terminated = false) {y : Client} (f : Figure)
    (h : Goes cfg env c now refresh
      (n.advance c { (f.read st).1 with stats_ := f.set (f.read st).1.stats_ (f.read st).2 } y log
        (.reporting x (.behind f))) P) :
    Goes cfg env c now refresh (n.advance c st y log (.reporting x (.read f))) P := by
  apply goes_report hterminated rfl
  exact goes_report hterminated rfl h

theorem goes_print (hterminated : n.terminated = false) {y : Client}
    (h : Goes cfg env c now refresh
      (n.advance c st y log (.writing x (st.stats_.get now))) P) :
    Goes cfg env c now refresh (n.advance c st y log (.reporting x .print)) P := by
  refine Goes.next hterminated ?_ h
  simp [work, StatsPc.step, advance, setSession]

theorem goes_getStats (hterminated : n.terminated = false) {y : Client}
    (h : Goes cfg env c now refresh
      (n.advance c (st.getStats now).1 y log (.writing x (st.getStats now).2)) P) :
    Goes cfg env c now refresh
      (n.advance c st y log (.reporting x (.read .storageSize))) P := by
  apply goes_figure hterminated .storageSize
  apply goes_figure hterminated .deleted
  apply goes_figure hterminated .queueSize
  apply goes_figure hterminated .gets
  apply goes_figure hterminated .valuesSize
  apply goes_figure hterminated .updates
  exact goes_print hterminated h

end Command

/-! ### The loop of `on_read` -/

/-- The network in which the handler of `c` has come to `d`, and stands at `pc`. -/
def served (n : Network) (c : Nat) (d : Connection Storage) (x : Client) (log : List Event)
    (pc : WorkerPc) : Network :=
  { n with
    sys := { n.sys with
      storage := d.process.state
      clients := Function.update n.sys.clients c x
      log := log }
    level := d.process.level }.setSession c
      { n.sessions c with
        pc := pc
        tokenizer_ := d.tokenizer_
        executed := d.executed
        written := d.written }

section Served

variable (n : Network) (c : Nat) (d : Connection Storage) (x : Client) (log : List Event)
  (pc : WorkerPc)

@[simp] theorem served_session : (n.served c d x log pc).sessions c =
    { n.sessions c with
      pc := pc
      tokenizer_ := d.tokenizer_
      executed := d.executed
      written := d.written } := Function.update_self ..

@[simp] theorem served_client : (n.served c d x log pc).sys.clients c = x :=
  Function.update_self ..

@[simp] theorem served_storage : (n.served c d x log pc).sys.storage = d.process.state := rfl

@[simp] theorem served_level : (n.served c d x log pc).level = d.process.level := rfl

@[simp] theorem served_terminated : (n.served c d x log pc).terminated = n.terminated := rfl

@[simp] theorem served_advance (st : Storage) (y : Client) (log' : List Event) (pc' : WorkerPc) :
    (n.served c d x log pc).advance c st y log' pc' =
      n.served c { d with process := { d.process with state := st } } y log' pc' := by
  simp [served, advance, setSession]

theorem served_beside : Beside c n (n.served c d x log pc) where
  sessions c' hne := Function.update_of_ne hne ..
  clients c' hne := Function.update_of_ne hne ..
  filler := rfl
  isAlive_ := rfl
  isReset := by rw [served_session]
  terminated := rfl

end Served

theorem goes_round {n m : Network} {P : Network → Prop} {d : Connection Storage} {y : Client}
    {log : List Event} {x : CommandTokenizer.Iterator} (hterminated : n.terminated = false)
    (hround : (n.served c d y log (.handling x)).round cfg env c x = .ok m)
    (h : Goes cfg env c now refresh m P) :
    Goes cfg env c now refresh (n.served c d y log (.handling x)) P := by
  refine Goes.next hterminated ?_ h
  simp only [work, served_session]
  exact hround

section Commands

variable {n : Network} {P : Network → Prop} {d : Connection Storage} {y : Client}
  {log : List Event} {token : Str} {offset : Nat}

/-- The network in which the handler of `c` has executed a command as `Worker.respond` has it, and
has its response still to write. -/
def responded (env : Env) (now refresh : TimeType) (n : Network) (c : Nat) (d : Connection Storage)
    (y : Client) (log : List Event) (token : Str) (offset : Nat) : Network :=
  let r := Worker.respond (Storage.handler env now refresh) d.process (Command.ofLine token)
  n.served c { d with process := r.1, executed := d.executed ++ [Command.ofLine token] } y log
    (.writing (.here token offset) r.2)

theorem goes_logLevel (hterminated : n.terminated = false) (hidle : y.pc = .idle)
    (hquit : (Command.ofLine token).name ≠ text "quit")
    (hname : (Command.ofLine token).name = text "log_level")
    (h : ∀ y' log', y'.pc = .idle →
      Goes cfg env c now refresh (responded env now refresh n c d y' log' token offset) P) :
    Goes cfg env c now refresh (n.served c d y log (.handling (.here token offset))) P := by
  unfold responded at h
  rw [Worker.respond_logLevel hname] at h
  refine goes_round hterminated ?_ (h y log hidle)
  simp only [round, if_neg hquit, if_pos hname]
  simp [served, setSession]

theorem goes_stats (hterminated : n.terminated = false)
    (hw : Interned env d.process.state.storage_) (hidle : y.pc = .idle)
    (hquit : (Command.ofLine token).name ≠ text "quit")
    (hlevel : (Command.ofLine token).name ≠ text "log_level")
    (hname : (Command.ofLine token).name = text "stats")
    (h : ∀ y' log', y'.pc = .idle →
      Goes cfg env c now refresh (responded env now refresh n c d y' log' token offset) P) :
    Goes cfg env c now refresh (n.served c d y log (.handling (.here token offset))) P := by
  have hdo := (Storage.handler_ok hw now refresh (Command.ofLine token)).1
  have hresult : Storage.handler env now refresh d.process.state (Command.ofLine token) =
      d.process.state.getStats now := by
    rw [Storage._do, if_pos hname] at hdo
    exact (Except.ok.inj hdo).symm
  have hframed : (d.process.state.getStats now).2 ≠ [] :=
    List.append_ne_nil_of_right_ne_nil _ (by decide)
  unfold responded at h
  rw [Worker.respond_do hlevel, hresult, if_neg hframed] at h
  let d' : Connection Storage := { d with executed := d.executed ++ [Command.ofLine token] }
  have hround : (n.served c d y log (.handling (.here token offset))).round cfg env c
      (.here token offset) =
        .ok (n.served c d' y log (.reporting (.here token offset) (.read .storageSize))) := by
    simp only [round, if_neg hquit, if_neg hlevel, if_pos hname]
    simp [served, setSession, d']
  have hstart : (n.served c d' y log .reading).terminated = false := hterminated
  have hgoes : Goes cfg env c now refresh ((n.served c d' y log .reading).advance c
      d.process.state y log (.reporting (.here token offset) (.read .storageSize))) P := by
    apply goes_getStats hstart
    rw [served_advance]
    exact h y log hidle
  rw [served_advance] at hgoes
  exact goes_round hterminated hround hgoes

theorem goes_get (hterminated : n.terminated = false)
    (hw : Interned env d.process.state.storage_) (hidle : y.pc = .idle)
    (hquit : (Command.ofLine token).name ≠ text "quit")
    (hlevel : (Command.ofLine token).name ≠ text "log_level")
    (hstats : (Command.ofLine token).name ≠ text "stats")
    (hname : (Command.ofLine token).name = text "get")
    (h : ∀ y' log', y'.pc = .idle →
      Goes cfg env c now refresh (responded env now refresh n c d y' log' token offset) P) :
    Goes cfg env c now refresh (n.served c d y log (.handling (.here token offset))) P := by
  have hdo := (Storage.handler_ok hw now refresh (Command.ofLine token)).1
  have hval : d.process.state.getVal env
      ((Command.ofLine token).arguments.map (⟨·, now, refresh⟩)) =
        .ok (Storage.handler env now refresh d.process.state (Command.ofLine token)) := by
    rw [Storage._do, if_neg hstats, if_pos hname, Storage.ofArguments_const] at hdo
    exact hdo
  obtain ⟨storage, response, hresult⟩ : ∃ storage response,
      Storage.handler env now refresh d.process.state (Command.ofLine token) =
        (storage, response) := ⟨_, _, rfl⟩
  have hframed : response ≠ [] := by
    rw [hresult] at hval
    obtain ⟨res, -, rfl⟩ := Storage.getVal_ok.mp hval
    exact List.append_ne_nil_of_right_ne_nil _ (by decide)
  unfold responded at h
  rw [Worker.respond_do hlevel, hresult, if_neg hframed] at h
  rw [hresult] at hval
  let d' : Connection Storage := { d with executed := d.executed ++ [Command.ofLine token] }
  have hround : (n.served c d y log (.handling (.here token offset))).round cfg env c
      (.here token offset) =
        .ok (n.served c d' (.start (Command.ofLine token).arguments) log
          (.getting (.here token offset))) := by
    simp only [round, if_neg hquit, if_neg hlevel, if_neg hstats, if_pos hname, Sys.step,
      served_client, hidle]
    simp [served, setSession, d']
  have hstart : (n.served c d' y log .reading).terminated = false := hterminated
  have hgoes : Goes cfg env c now refresh ((n.served c d' y log .reading).advance c
      d.process.state (.start (Command.ofLine token).arguments) log
        (.getting (.here token offset))) P := by
    apply goes_getVal hstart hval
    intro log'
    rw [served_advance]
    exact h .idle log' rfl
  rw [served_advance] at hgoes
  exact goes_round hterminated hround hgoes

theorem goes_other (hterminated : n.terminated = false)
    (hw : Interned env d.process.state.storage_) (hidle : y.pc = .idle)
    (hquit : (Command.ofLine token).name ≠ text "quit")
    (hlevel : (Command.ofLine token).name ≠ text "log_level")
    (hstats : (Command.ofLine token).name ≠ text "stats")
    (hget : (Command.ofLine token).name ≠ text "get")
    (h : ∀ y' log', y'.pc = .idle →
      Goes cfg env c now refresh (responded env now refresh n c d y' log' token offset) P) :
    Goes cfg env c now refresh (n.served c d y log (.handling (.here token offset))) P := by
  have hdo := (Storage.handler_ok hw now refresh (Command.ofLine token)).1
  have hresult : Storage.handler env now refresh d.process.state (Command.ofLine token) =
      (d.process.state, []) := by
    rw [Storage._do, if_neg hstats, if_neg hget] at hdo
    exact (Except.ok.inj hdo).symm
  unfold responded at h
  rw [Worker.respond_do hlevel, hresult, if_pos rfl] at h
  refine goes_round hterminated ?_ (h y log hidle)
  simp only [round, if_neg hquit, if_neg hlevel, if_neg hstats, if_neg hget]
  simp [served, setSession]

/-- A command runs from its round to its write as `Worker.respond` has it. -/
theorem goes_command (hterminated : n.terminated = false)
    (hw : Interned env d.process.state.storage_) (hidle : y.pc = .idle)
    (hquit : (Command.ofLine token).name ≠ text "quit")
    (h : ∀ y' log', y'.pc = .idle →
      Goes cfg env c now refresh (responded env now refresh n c d y' log' token offset) P) :
    Goes cfg env c now refresh (n.served c d y log (.handling (.here token offset))) P := by
  by_cases hlevel : (Command.ofLine token).name = text "log_level"
  · exact goes_logLevel hterminated hidle hquit hlevel h
  by_cases hstats : (Command.ofLine token).name = text "stats"
  · exact goes_stats hterminated hw hidle hquit hlevel hstats h
  by_cases hget : (Command.ofLine token).name = text "get"
  · exact goes_get hterminated hw hidle hquit hlevel hstats hget h
  · exact goes_other hterminated hw hidle hquit hlevel hstats hget h

end Commands

/-- The write of a response, to a peer that is there. -/
theorem goes_write {n : Network} {P : Network → Prop} {d : Connection Storage} {y : Client}
    {log : List Event} {x : CommandTokenizer.Iterator} {response : Str}
    (hterminated : n.terminated = false) (hreset : (n.sessions c).isReset = false)
    (h : Goes cfg env c now refresh
      (n.served c
        { d with
          tokenizer_ := ⟨(x.next d.tokenizer_.remainder_).1⟩
          written := d.written ++ [response] } y log
        (.handling (x.next d.tokenizer_.remainder_).2)) P) :
    Goes cfg env c now refresh (n.served c d y log (.writing x response)) P := by
  refine Goes.next hterminated ?_ h
  simp [work, served, setSession, hreset]

/-- Where a worker stands when its handler has returned. -/
def waiting (reading : Bool) : WorkerPc := if reading then .reading else .closed

/-- The rounds of a handler. -/
theorem goes_onReadLoop {n : Network} {P : Network → Prop} {d d' : Connection Storage} {y : Client}
    {log : List Event} {x : CommandTokenizer.Iterator} {rounds : Nat}
    (hterminated : n.terminated = false) (hreset : (n.sessions c).isReset = false)
    (hw : Interned env d.process.state.storage_) (hidle : y.pc = .idle)
    (hreading : d.reading = false)
    (hloop : Connection.onReadLoop (Storage.handler env now refresh) rounds d x = some d')
    (h : ∀ y' log', y'.pc = .idle →
      Goes cfg env c now refresh (n.served c d' y' log' (waiting d'.reading)) P) :
    Goes cfg env c now refresh (n.served c d y log (.handling x)) P := by
  induction rounds generalizing d x y log with
  | zero => cases hloop
  | succ rounds ih =>
    cases x with
    | end_ =>
      cases hloop
      refine goes_round hterminated ?_ (h y log hidle)
      simp [round, served, setSession, waiting]
    | here token offset =>
      by_cases hquit : (Command.ofLine token).name = text "quit"
      · simp only [Connection.onReadLoop, Worker.round, hquit, if_true, Option.some.injEq] at hloop
        subst hloop
        refine goes_round hterminated ?_ (h y log hidle)
        simp [round, hquit, served, setSession, waiting, hreading]
      · simp only [Connection.onReadLoop, Worker.round, hquit, if_false] at hloop
        apply goes_command hterminated hw hidle hquit
        intro y' log' hidle'
        apply goes_write hterminated hreset
        have hnext := Worker.respond_state (I := fun s : Storage => Interned env s.storage_)
          (fun s command hs => (Storage.handler_ok hs now refresh command).2) hw
          (Command.ofLine token)
        exact ih hnext hidle' hreading hloop

/-- A worker that handles a read alone, while the clock stands still: it gets back to waiting, its
connection is what `onRead` makes of it with `Storage::_do` for the commands, and nobody else sees
more of it than the storage and the level. -/
theorem onRead_alone {n : Network} {bytes : Str} {d : Connection Storage}
    (hw : Interned env n.sys.storage.storage_) (hterminated : n.terminated = false)
    (hreset : (n.sessions c).isReset = false) (hpc : (n.sessions c).pc = .reading)
    (hidle : (n.sys.clients c).pc = .idle)
    (hread : (n.connection c).onRead (Storage.handler env now refresh) bytes = some d) :
    ∃ rounds m,
      run cfg env n (.onRead c (some bytes) :: List.replicate rounds (.go c now refresh)) = .ok m ∧
      Beside c n m ∧ m.Waits c ∧ (m.sys.clients c).pc = .idle ∧ m.connection c = d := by
  let n₁ : Network := n.setSession c
    { n.sessions c with
      pc := .handling ((n.sessions c).tokenizer_.append bytes).begin_
      tokenizer_ := (n.sessions c).tokenizer_.append bytes
      received := (n.sessions c).received ++ bytes }
  let d₁ : Connection Storage :=
    { n.connection c with
      tokenizer_ := (n.sessions c).tokenizer_.append bytes
      reading := false }
  have hstep : n.step cfg env (.onRead c (some bytes)) = .ok n₁ := by
    simp only [step, hterminated, Bool.false_eq_true, if_false, hpc]
    rfl
  have hself : n₁.served c d₁ (n.sys.clients c) n.sys.log
      (.handling ((n.sessions c).tokenizer_.append bytes).begin_) = n₁ := by
    simp [n₁, d₁, served, setSession, connection]
  have hbeside : Beside c n n₁ := by
    refine ⟨fun c' hne => Function.update_of_ne hne .., fun _ _ => rfl, rfl, rfl, ?_, rfl⟩
    simp [n₁]
  have hgoes : Goes cfg env c now refresh n₁
      (fun m => Beside c n m ∧ m.Waits c ∧ (m.sys.clients c).pc = .idle ∧ m.connection c = d) := by
    rw [← hself]
    have hterminated₁ : n₁.terminated = false := hterminated
    apply goes_onReadLoop hterminated₁ (hbeside.isReset.trans hreset) hw hidle rfl hread
    intro y log hy
    refine .refl ⟨hbeside.trans (served_beside n₁ c d y log _), ?_, ?_, ?_⟩
    · unfold Waits waiting
      rw [served_session]
      cases d.reading
      · exact Or.inr rfl
      · exact Or.inl rfl
    · rw [served_client]
      exact hy
    · unfold connection waiting
      rw [served_session]
      cases hreading : d.reading <;> simp [← hreading]
  obtain ⟨moves, m, hrun, hm⟩ := hgoes
  obtain ⟨hmoves, hrun⟩ := Run.exec_only_ok.mp hrun
  refine ⟨moves.length, m, ?_, hm⟩
  rw [← List.eq_replicate_of_mem hmoves]
  exact Run.exec_cons_ok.mpr ⟨n₁, hstep, hrun⟩

end Network

/-! ## A daemon whose handlers run one after the other -/

/-- The daemon with handlers that are not interrupted: its system, the level of its logger, and the
connections by number. -/
structure Serial where
  sys : Sys
  level : LogLevel
  connections : Nat → Connection Storage

/-- What can happen next: a read is handled as a whole, or the filler, its library, the timer or
the destructor of the server goes on. -/
inductive Serial.Move where
  | read (c : Nat) (bytes : Str) (now refresh : TimeType)
  | daemon (action : Action)
  deriving DecidableEq, Repr

namespace Serial

/-- The daemon after `create_server`. -/
def start (storage : Storage) (level : LogLevel) : Serial :=
  { sys := .init storage
    level := level
    connections := fun _ => .init { state := storage, level := level } }

/-- The connection of `c`, on the storage and the level as they are. -/
def connection (s : Serial) (c : Nat) : Connection Storage :=
  { s.connections c with process := { state := s.sys.storage, level := s.level } }

/-- One move. -/
def step (cfg : FillerConfig) (env : Env) (s : Serial) : Serial.Move → Except Halt Serial
  | .read c bytes now refresh =>
      if (s.connections c).reading then
        match (s.connection c).onRead (Storage.handler env now refresh) bytes with
        | some d =>
            .ok
              { sys := { s.sys with storage := d.process.state }
                level := d.process.level
                connections := Function.update s.connections c d }
        | none => .error .blocked
      else .error .blocked
  | .daemon action =>
      match action with
      | .request _ _ | .client _ _ _ => .error .blocked
      | _ =>
          match s.sys.step cfg env action with
          | .ok sys => .ok { s with sys := sys }
          | .error halt => .error halt

/-- The moves one after the other. -/
def run (cfg : FillerConfig) (env : Env) (s : Serial) (moves : List Serial.Move) :
    Except Halt Serial :=
  Run.exec (step cfg env) s moves

end Serial

/-- The network is in the state of the serial daemon, with every worker waiting. -/
structure Network.Rests (n : Network) (s : Serial) : Prop where
  storage : n.sys.storage = s.sys.storage
  filler : n.sys.filler = s.sys.filler
  isAlive_ : n.sys.isAlive_ = s.sys.isAlive_
  level : n.level = s.level
  terminated : n.terminated = false
  isReset : ∀ c, (n.sessions c).isReset = false
  waits : ∀ c, n.Waits c
  idle : ∀ c, (n.sys.clients c).pc = .idle
  connections : ∀ c, n.connection c = s.connection c

namespace Network

variable {n : Network} {s t : Serial}

theorem rests_start (storage : Storage) (level : LogLevel) :
    (start storage level).Rests (.start storage level) where
  storage := rfl
  filler := rfl
  isAlive_ := rfl
  level := rfl
  terminated := rfl
  isReset _ := rfl
  waits _ := Or.inl rfl
  idle _ := rfl
  connections _ := rfl

theorem connection_eq_iff {c : Nat} {d : Connection Storage} : n.connection c = d ↔
    n.sys.storage = d.process.state ∧ n.level = d.process.level ∧
      (n.sessions c).tokenizer_ = d.tokenizer_ ∧
      decide ((n.sessions c).pc = .reading) = d.reading ∧
      (n.sessions c).executed = d.executed ∧ (n.sessions c).written = d.written := by
  obtain ⟨⟨state, level⟩, tokenizer, reading, executed, written⟩ := d
  simp [connection, and_assoc]

/-- A handler that is not interrupted is a run of the network. -/
theorem Rests.read (h : n.Rests s) (hn : Sound env n) {bytes : Str}
    (hstep : s.step cfg env (.read c bytes now refresh) = .ok t) :
    ∃ moves m, run cfg env n moves = .ok m ∧ m.Rests t := by
  simp only [Serial.step] at hstep
  split at hstep
  · rename_i hreading
    split at hstep
    · rename_i d hread
      cases hstep
      have hpc : (n.sessions c).pc = .reading := by
        have hsame := congrArg Connection.reading (h.connections c)
        rw [Serial.connection, hreading] at hsame
        exact of_decide_eq_true hsame
      rw [← h.connections c] at hread
      obtain ⟨rounds, m, hrun, hbeside, hwaits, hidle, hd⟩ :=
        onRead_alone hn.provenance.stored.interned h.terminated (h.isReset c) hpc (h.idle c) hread
      obtain ⟨hstorage, hlevel, htokenizer, hreads, hexecuted, hwritten⟩ := connection_eq_iff.mp hd
      refine ⟨_, m, hrun, hstorage, hbeside.filler.trans h.filler,
        hbeside.isAlive_.trans h.isAlive_, hlevel, hbeside.terminated.trans h.terminated, ?_, ?_,
        ?_, ?_⟩
      · intro c'
        rcases eq_or_ne c' c with rfl | hne
        · exact hbeside.isReset.trans (h.isReset c')
        · rw [hbeside.sessions c' hne]
          exact h.isReset c'
      · intro c'
        rcases eq_or_ne c' c with rfl | hne
        · exact hwaits
        · unfold Waits
          rw [hbeside.sessions c' hne]
          exact h.waits c'
      · intro c'
        rcases eq_or_ne c' c with rfl | hne
        · exact hidle
        · rw [hbeside.clients c' hne]
          exact h.idle c'
      · intro c'
        rcases eq_or_ne c' c with rfl | hne
        · simp only [Serial.connection, Function.update_self]
          exact hd
        · obtain ⟨-, -, hother⟩ := connection_eq_iff.mp (h.connections c')
          rw [connection_eq_iff, hbeside.sessions c' hne]
          simp only [Serial.connection, Function.update_of_ne hne]
          exact ⟨hstorage, hlevel, hother⟩
    · cases hstep
  · cases hstep

/-- A step of the filler or the daemon does not look at the clients or the log. -/
theorem daemon_step {x y z : Sys} {action : Action} (hstorage : x.storage = y.storage)
    (hfiller : x.filler = y.filler) (halive : x.isAlive_ = y.isAlive_)
    (hrequest : ∀ c args, action ≠ .request c args)
    (hclient : ∀ c now refresh, action ≠ .client c now refresh)
    (h : y.step cfg env action = .ok z) :
    ∃ w, x.step cfg env action = .ok w ∧ w.storage = z.storage ∧ w.filler = z.filler ∧
      w.isAlive_ = z.isAlive_ ∧ w.clients = x.clients := by
  cases action with
  | request c args => exact absurd rfl (hrequest c args)
  | client c now refresh => exact absurd rfl (hclient c now refresh)
  | filler now =>
    simp only [Sys.step] at h ⊢
    rw [hstorage, hfiller, halive]
    split at h
    · cases h
    · cases h
      exact ⟨_, rfl, rfl, rfl, rfl, rfl⟩
  | isFillerAlive answer =>
    simp only [Sys.step] at h ⊢
    rw [hfiller]
    split at h
    · cases h
      exact ⟨_, rfl, hstorage, rfl, halive, rfl⟩
    · cases h
  | getVals ret vals =>
    simp only [Sys.step] at h ⊢
    rw [hfiller]
    split at h
    · cases h
      exact ⟨_, rfl, hstorage, rfl, halive, rfl⟩
    · cases h
  | expirate =>
    cases h
    exact ⟨_, rfl, congrArg Storage.expirate hstorage, hfiller, halive, rfl⟩
  | shutdown =>
    cases h
    exact ⟨_, rfl, hstorage, hfiller, rfl, rfl⟩

/-- The filler, its library, the timer and the destructor do the same in both. -/
theorem Rests.daemon (h : n.Rests s) {action : Action}
    (hstep : s.step cfg env (.daemon action) = .ok t) :
    ∃ m, n.step cfg env (.daemon action) = .ok m ∧ m.Rests t := by
  have hrequest : ∀ c args, action ≠ .request c args := by
    rintro c args rfl
    cases hstep
  have hclient : ∀ c now refresh, action ≠ .client c now refresh := by
    rintro c now refresh rfl
    cases hstep
  have hserial : s.step cfg env (.daemon action) =
      match s.sys.step cfg env action with
      | .ok sys => .ok { s with sys := sys }
      | .error halt => .error halt := by
    cases action with
    | request c args => exact absurd rfl (hrequest c args)
    | client c now refresh => exact absurd rfl (hclient c now refresh)
    | filler now | isFillerAlive answer | getVals ret vals | expirate | shutdown => rfl
  obtain ⟨y, hy, rfl⟩ : ∃ y, s.sys.step cfg env action = .ok y ∧ t = { s with sys := y } := by
    rw [hserial] at hstep
    split at hstep
    · rename_i y hy
      cases hstep
      exact ⟨y, hy, rfl⟩
    · cases hstep
  obtain ⟨w, hw, hstorage, hfiller, halive, hclients⟩ :=
    daemon_step h.storage h.filler h.isAlive_ hrequest hclient hy
  have hnetwork : n.step cfg env (.daemon action) = .ok { n with sys := w } := by
    unfold step
    rw [if_neg (by rw [h.terminated]; exact Bool.false_ne_true)]
    cases action with
    | request c args => exact absurd rfl (hrequest c args)
    | client c now refresh => exact absurd rfl (hclient c now refresh)
    | filler now | isFillerAlive answer | getVals ret vals | expirate | shutdown =>
      dsimp only
      rw [hw]
  refine ⟨_, hnetwork, hstorage, hfiller, halive, h.level, h.terminated, h.isReset, h.waits, ?_, ?_⟩
  · intro c
    dsimp only
    rw [hclients]
    exact h.idle c
  · intro c
    obtain ⟨-, hlevel, hconnection⟩ := connection_eq_iff.mp (h.connections c)
    exact connection_eq_iff.mpr ⟨hstorage, hlevel, hconnection⟩

/-- A daemon whose handlers run one after the other, each while the clock stands still, is one of
the interleavings: for each of its runs there is a run of the network that comes to the same
storage, level and connections. -/
theorem run_serial {time : TimeType} {ttl : Nat}
    {maxStorageSize maxQueueSize expirateSize : UInt64} {level : LogLevel}
    {moves : List Serial.Move}
    (h : Serial.run cfg env
      (.start (.init time ttl maxStorageSize maxQueueSize expirateSize) level) moves = .ok s) :
    ∃ moves' n, run cfg env (start (.init time ttl maxStorageSize maxQueueSize expirateSize) level)
      moves' = .ok n ∧ n.Rests s := by
  refine Run.exec_induction (P := fun _ s => ∃ moves' n,
    run cfg env (start (.init time ttl maxStorageSize maxQueueSize expirateSize) level) moves' =
      .ok n ∧ n.Rests s) ?_ ?_ h
  · exact ⟨[], _, rfl, rests_start _ _⟩
  · rintro moves s move t - ⟨front, n, hn, hrests⟩ hstep
    obtain ⟨back, m, hback, hm⟩ : ∃ moves m, run cfg env n moves = .ok m ∧ m.Rests t := by
      cases move with
      | read c bytes now refresh => exact hrests.read (run_sound hn) hstep
      | daemon action =>
        obtain ⟨m, hm, hrests⟩ := hrests.daemon hstep
        exact ⟨[.daemon action], m, Run.exec_cons_ok.mpr ⟨m, hm, rfl⟩, hrests⟩
    exact ⟨front ++ back, m, Run.exec_append_ok.mpr ⟨n, hn, hback⟩, hm⟩

/-- A connection asks for a key, the filler stores it, and the connection asks for it again. -/
theorem run_serial_refill :
    ∃ s, Serial.run ⟨false, 1⟩ .plain (.start (.init 0 10 100 100 1) .debug)
        (.read 0 (text "get k\r\n") 0 0 :: List.replicate 8 (.daemon (.filler 1)) ++
          .daemon (.getVals true [[118]]) :: List.replicate 3 (.daemon (.filler 1)) ++
          [.read 0 (text "get k\r\nstats\r\nquit\r\n") 2 2]) = .ok s ∧
      (s.connections 0).written.length = 3 ∧
      ∃ moves n, run ⟨false, 1⟩ .plain (start (.init 0 10 100 100 1) .debug) moves = .ok n ∧
        (n.connection 0).written = (s.connections 0).written := by
  obtain ⟨s, hrun, hwritten⟩ := Run.yields_iff.mp (by decide +kernel :
    Run.Yields (Serial.step ⟨false, 1⟩ .plain) (fun s => (s.connections 0).written.length = 3)
      (.start (.init 0 10 100 100 1) .debug)
      (.read 0 (text "get k\r\n") 0 0 :: List.replicate 8 (.daemon (.filler 1)) ++
        .daemon (.getVals true [[118]]) :: List.replicate 3 (.daemon (.filler 1)) ++
        [.read 0 (text "get k\r\nstats\r\nquit\r\n") 2 2]))
  obtain ⟨moves, n, hn, hrests⟩ := run_serial hrun
  have hsame : (n.connection 0).written = (s.connection 0).written := by
    rw [hrests.connections 0]
  exact ⟨s, hrun, hwritten, moves, n, hn, hsame⟩

end Network

end Swordfish
