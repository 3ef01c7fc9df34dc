import Swordfish.System.Network
import Swordfish.System.Provenance

/-!
# From the bytes of a client to the bytes it gets

What is written on a connection, in any run of all connections, the filler and its library: one
response after the other, for the lines of the connection's own stream in their order, up to a
`quit`. A response to `get` has values that the library has returned for its own arguments. The
invariant says of every connection where its stream is cut (`Session.Follows`) and what is owed
(`Session.Serving`), and of the system where its values come from (`Provenance`).
-/

namespace Swordfish
open Delimited

variable {cfg : FillerConfig} {env : Env}

/-! ## What answers a command -/

/-- The response answers the command, with values that are in the log. -/
inductive Answers (env : Env) (log : List Event) (command : Command) : Str → Prop
  | get (hname : command.name = text "get") (items : List (Str × Str))
      (hkeys : (items.map Prod.fst).Sublist command.arguments)
      (hvalues : ∀ item ∈ items, item.2 ≠ [] ∧ Fetched log (env.normalize item.1) item.2) :
      Answers env log command (render items ++ text "END\r\n")
  | stats (hname : command.name = text "stats") (x : Stats) (now : TimeType) :
      Answers env log command (x.get now)
  | logLevel (hname : command.name = text "log_level") (level : LogLevel) :
      Answers env log command (Worker.logLevel level command).2
  | other (hlevel : command.name ≠ text "log_level") (hstats : command.name ≠ text "stats")
      (hget : command.name ≠ text "get") : Answers env log command (text "END\r\n")

/-- What has been fetched stays fetched. -/
def Grows (log log' : List Event) : Prop := ∀ key val, Fetched log key val → Fetched log' key val

theorem Grows.refl (log : List Event) : Grows log log := fun _ _ h => h

theorem grows_cons (event : Event) (log : List Event) : Grows log (event :: log) :=
  fun _ _ h => h.record (some event)

theorem Answers.mono {log log' : List Event} {command : Command} {response : Str}
    (h : Answers env log command response) (hlog : Grows log log') :
    Answers env log' command response := by
  cases h with
  | get hname items hkeys hvalues =>
    exact .get hname items hkeys (fun item hitem =>
      ⟨(hvalues item hitem).1, hlog _ _ (hvalues item hitem).2⟩)
  | stats hname x now => exact .stats hname x now
  | logLevel hname level => exact .logLevel hname level
  | other hlevel hstats hget => exact .other hlevel hstats hget

/-- A client on its way through `get_val`: what it has looked up is behind it, and its items are
for arguments it has looked up. -/
structure Client.Amid (arguments : List Str) (x : Client) : Prop where
  busy : x.pc ≠ .idle
  split : ∃ done, arguments = done ++ x.args ∧ (x.items.map Prod.fst).Sublist done
  nonempty : ∀ item ∈ x.items, item.2 ≠ []

theorem Client.amid_start (arguments : List Str) : (Client.start arguments).Amid arguments where
  busy := by simp [Client.start]
  split := ⟨[], rfl, List.Sublist.refl _⟩
  nonempty := by simp [Client.start]

theorem ClientCase.amid {s t : Storage} {now refresh : TimeType} {c : Nat} {x y : Client}
    (h : ClientCase env s now refresh c x (t, y, none)) {arguments : List Str}
    (hx : x.Amid arguments) : y.Amid arguments := by
  have hnext : ∀ {out : DHashmap.GetResult},
      (if out.ret then ClientPc.lookup else .sizeTest out.normalizedKey) ≠ .idle := by
    intro out
    split <;> simp
  obtain ⟨done, hsplit, hitems⟩ := hx.split
  cases h with
  | @found arg args storage out hpc hargs hget hval =>
    refine ⟨hnext, ⟨done ++ [arg], ?_, ?_⟩, ?_⟩
    · rw [hsplit, hargs, List.append_assoc]
      rfl
    · rw [List.map_append]
      exact hitems.append (List.Sublist.refl _)
    · intro item hitem
      rcases List.mem_append.mp hitem with hold | hnew
      · exact hx.nonempty item hold
      · rw [List.mem_singleton.mp hnew]
        exact hval
  | @silent arg args storage out hpc hargs hget hval =>
    refine ⟨hnext, ⟨done ++ [arg], ?_, ?_⟩, hx.nonempty⟩
    · rw [hsplit, hargs, List.append_assoc]
      rfl
    · exact hitems.trans (List.sublist_append_left _ _)
  | sizeTest hpc =>
    refine ⟨?_, ⟨done, hsplit, hitems⟩, hx.nonempty⟩
    dsimp only
    split <;> simp
  | push hpc => exact ⟨by simp, ⟨done, hsplit, hitems⟩, hx.nonempty⟩
  | setQueueSize hpc => exact ⟨by simp, ⟨done, hsplit, hitems⟩, hx.nonempty⟩

/-! ## Where a connection stands -/

/-- The lines behind the line of the iterator, and what is left behind them. -/
def CommandTokenizer.Iterator.behind (remainder : Str) :
    CommandTokenizer.Iterator → Option (List Str × Str)
  | .here _ offset => some (cut crlf (remainder.drop offset))
  | .end_ => none

/-- The worker is in the command of its iterator, or before the write of its response. -/
inductive WorkerPc.InCommand (x : CommandTokenizer.Iterator) : WorkerPc → Prop
  | getting : InCommand x (.getting x)
  | reporting (pc : StatsPc) : InCommand x (.reporting x pc)
  | writing (response : Str) : InCommand x (.writing x response)

namespace Session

/-- The lines that have come and are not begun, and what is behind them; `none` when the rest is
not looked at. -/
def ahead (session : Session) : Option (List Str × Str) :=
  match session.pc with
  | .reading => some ([], session.tokenizer_.remainder_)
  | .handling x => some (x.ahead session.tokenizer_.remainder_)
  | .getting x | .reporting x _ | .writing x _ => x.behind session.tokenizer_.remainder_
  | .closed => none

/-- The iterator of the worker. -/
def iterator (session : Session) : Option CommandTokenizer.Iterator :=
  match session.pc with
  | .handling x | .getting x | .reporting x _ | .writing x _ => some x
  | .reading | .closed => none

/-- In a command, what is ahead is behind its line. -/
theorem ahead_of_inCommand (session : Session) {x : CommandTokenizer.Iterator}
    (h : session.pc.InCommand x) :
    session.ahead = x.behind session.tokenizer_.remainder_ ∧ session.iterator = some x ∧
      session.pc ≠ .closed := by
  generalize hpc : session.pc = q at h
  cases h <;> simp [ahead, iterator, hpc]

/-- The commands that were begun are those of the lines in front of what is ahead, and none of them
is a `quit`. -/
structure Follows (session : Session) : Prop where
  within : ∀ x ∈ session.iterator, x.Within session.tokenizer_.remainder_
  lines : session.pc ≠ .closed → ∃ done lines rest, session.ahead = some (lines, rest) ∧
    cut crlf session.received = (done ++ lines, rest) ∧ ¬ Quits done ∧
    session.executed = done.map Command.ofLine
  closed : session.pc = .closed → session.executed = upToQuit (cut crlf session.received).1

/-- What is owed to the connection: between two commands nothing, and in a command its response,
which is what the client `x` of the system is at work for when the command is `get`. -/
def Serving (env : Env) (log : List Event) (x : Client) (session : Session) : Prop :=
  match session.pc with
  | .reading | .handling _ | .closed =>
      x.pc = .idle ∧ List.Forall₂ (Answers env log) session.executed session.written
  | .getting _ =>
      ∃ done command, session.executed = done ++ [command] ∧
        List.Forall₂ (Answers env log) done session.written ∧
        command.name = text "get" ∧ x.Amid command.arguments
  | .reporting _ _ =>
      x.pc = .idle ∧ ∃ done command, session.executed = done ++ [command] ∧
        List.Forall₂ (Answers env log) done session.written ∧ command.name = text "stats"
  | .writing _ response =>
      x.pc = .idle ∧ ∃ done command, session.executed = done ++ [command] ∧
        List.Forall₂ (Answers env log) done session.written ∧ Answers env log command response

theorem forall₂_mono {log log' : List Event} (hlog : Grows log log') {commands : List Command}
    {responses : List Str} (h : List.Forall₂ (Answers env log) commands responses) :
    List.Forall₂ (Answers env log') commands responses :=
  h.imp (fun _ _ hanswers => hanswers.mono hlog)

theorem Serving.mono {log log' : List Event} {x : Client} {session : Session}
    (h : session.Serving env log x) (hlog : Grows log log') : session.Serving env log' x := by
  unfold Serving at h ⊢
  cases hpc : session.pc with
  | reading | handling y | closed =>
    rw [hpc] at h
    exact ⟨h.1, forall₂_mono hlog h.2⟩
  | getting y =>
    rw [hpc] at h
    obtain ⟨done, command, hexecuted, hdone, hname, hx⟩ := h
    exact ⟨done, command, hexecuted, forall₂_mono hlog hdone, hname, hx⟩
  | reporting y pc =>
    rw [hpc] at h
    obtain ⟨hidle, done, command, hexecuted, hdone, hname⟩ := h
    exact ⟨hidle, done, command, hexecuted, forall₂_mono hlog hdone, hname⟩
  | writing y response =>
    rw [hpc] at h
    obtain ⟨hidle, done, command, hexecuted, hdone, hanswers⟩ := h
    exact ⟨hidle, done, command, hexecuted, forall₂_mono hlog hdone, hanswers.mono hlog⟩

/-! ## The stream, move by move -/

theorem upToQuit_eq_map {lines : List Str} (h : ¬ Quits lines) :
    upToQuit lines = lines.map Command.ofLine := by
  apply List.takeWhile_eq_self_iff.mpr
  intro command hcommand
  obtain ⟨line, hline, rfl⟩ := List.mem_map.mp hcommand
  exact decide_eq_true (fun hname => h ⟨line, hline, hname⟩)

theorem not_quits_concat {lines : List Str} {line : Str} (h : ¬ Quits lines)
    (hline : (Command.ofLine line).name ≠ text "quit") : ¬ Quits (lines ++ [line]) := by
  rintro ⟨line', hmem, hname⟩
  rcases List.mem_append.mp hmem with hmem | hmem
  · exact h ⟨line', hmem, hname⟩
  · rw [List.mem_singleton.mp hmem] at hname
    exact hline hname

namespace Follows

variable {session session' : Session}

/-- A worker that goes on with the same lines ahead. -/
theorem of_ahead (h : session.Follows) (hopen : session.pc ≠ .closed)
    (hopen' : session'.pc ≠ .closed) (hreceived : session'.received = session.received)
    (hexecuted : session'.executed = session.executed) (hahead : session'.ahead = session.ahead)
    (hwithin : ∀ x ∈ session'.iterator, x.Within session'.tokenizer_.remainder_) :
    session'.Follows where
  within := hwithin
  lines _ := by
    rw [hahead, hreceived, hexecuted]
    exact h.lines hopen
  closed hclosed := absurd hclosed hopen'

/-- A worker that stays in its command. -/
theorem stays (h : session.Follows) {x : CommandTokenizer.Iterator} {pc : WorkerPc}
    (hbefore : session.pc.InCommand x) (hafter : pc.InCommand x) :
    Follows { session with pc := pc } := by
  obtain ⟨hahead₁, hiterator₁, hopen₁⟩ := ahead_of_inCommand session hbefore
  obtain ⟨hahead₂, hiterator₂, hopen₂⟩ := ahead_of_inCommand { session with pc := pc } hafter
  refine h.of_ahead hopen₁ hopen₂ rfl rfl (hahead₂.trans hahead₁.symm) (fun y hy => ?_)
  rw [hiterator₂, ← hiterator₁] at hy
  exact h.within y hy

/-- A read brings the lines that are complete with it. -/
theorem receive (h : session.Follows) (hpc : session.pc = .reading) (bytes : Str) :
    Follows { session with
      pc := .handling (session.tokenizer_.append bytes).begin_
      tokenizer_ := session.tokenizer_.append bytes
      received := session.received ++ bytes } := by
  obtain ⟨hwithin, hbegin⟩ := CommandTokenizer.Iterator.ofRemainder_spec
    (session.tokenizer_.append bytes).remainder_
  refine ⟨fun x hx => ?_, fun _ => ?_, fun hclosed => ?_⟩
  · cases hx
    exact hwithin
  · obtain ⟨done, lines, rest, hahead, hcut, hquits, hexecuted⟩ := h.lines (by simp [hpc])
    simp only [ahead, hpc, Option.some.injEq, Prod.mk.injEq] at hahead
    obtain ⟨rfl, rfl⟩ := hahead
    refine ⟨done, _, _, congrArg some hbegin, ?_, hquits, hexecuted⟩
    rw [CommandTokenizer.cut_remainder_append, hcut, List.append_nil]
    rfl
  · cases hclosed

/-- A read that fails is the last. -/
theorem readFails (h : session.Follows) (hpc : session.pc = .reading) :
    Follows { session with pc := .closed } where
  within x hx := by cases hx
  lines hopen := absurd rfl hopen
  closed _ := by
    obtain ⟨done, lines, rest, hahead, hcut, hquits, hexecuted⟩ := h.lines (by simp [hpc])
    simp only [ahead, hpc, Option.some.injEq, Prod.mk.injEq] at hahead
    obtain ⟨rfl, rfl⟩ := hahead
    change session.executed = upToQuit (cut crlf session.received).1
    rw [hcut, List.append_nil, upToQuit_eq_map hquits, hexecuted]

/-- A `quit` ends the lines that are executed. -/
theorem quit (h : session.Follows) {token : Str} {offset : Nat}
    (hpc : session.pc = .handling (.here token offset))
    (hname : (Command.ofLine token).name = text "quit") :
    Follows { session with pc := .closed } where
  within x hx := by cases hx
  lines hopen := absurd rfl hopen
  closed _ := by
    obtain ⟨done, lines, rest, hahead, hcut, hquits, hexecuted⟩ := h.lines (by simp [hpc])
    simp only [ahead, hpc, CommandTokenizer.Iterator.ahead, Option.some.injEq,
      Prod.mk.injEq] at hahead
    obtain ⟨rfl, rfl⟩ := hahead
    have hnone : ∀ later, upToQuit (token :: later) = [] := by
      intro later
      simp [upToQuit, hname]
    change session.executed = upToQuit (cut crlf session.received).1
    rw [hcut, upToQuit_of_not_quits hquits, hnone, List.append_nil, upToQuit_eq_map hquits,
      hexecuted]

/-- A command that is begun is behind the iterator. -/
theorem begin_ (h : session.Follows) {token : Str} {offset : Nat}
    (hpc : session.pc = .handling (.here token offset))
    (hname : (Command.ofLine token).name ≠ text "quit")
    (htokenizer : session'.tokenizer_ = session.tokenizer_)
    (hreceived : session'.received = session.received)
    (hexecuted : session'.executed = session.executed ++ [Command.ofLine token])
    (hiterator : session'.iterator = some (.here token offset))
    (hahead : session'.ahead = some (cut crlf (session.tokenizer_.remainder_.drop offset))) :
    session'.Follows where
  within x hx := by
    rw [hiterator] at hx
    cases hx
    rw [htokenizer]
    exact h.within _ (by simp [iterator, hpc])
  lines _ := by
    obtain ⟨done, lines, rest, hbefore, hcut, hquits, hdone⟩ := h.lines (by simp [hpc])
    simp only [ahead, hpc, CommandTokenizer.Iterator.ahead, Option.some.injEq,
      Prod.mk.injEq] at hbefore
    obtain ⟨rfl, rfl⟩ := hbefore
    refine ⟨done ++ [token], _, _, hahead, ?_, not_quits_concat hquits hname, ?_⟩
    · rw [hreceived, hcut, List.append_assoc]
      rfl
    · rw [hexecuted, hdone, List.map_append]
      rfl
  closed hclosed := by
    rw [iterator, hclosed] at hiterator
    cases hiterator

/-- After the write the iterator goes on to what is ahead. -/
theorem write (h : session.Follows) {x y : CommandTokenizer.Iterator} {response remainder : Str}
    (hpc : session.pc = .writing x response)
    (hnext : x.next session.tokenizer_.remainder_ = (remainder, y)) :
    Follows { session with
      pc := .handling y
      tokenizer_ := ⟨remainder⟩
      written := session.written ++ [response] } := by
  obtain ⟨done, lines, rest, hahead, -⟩ := h.lines (by simp [hpc])
  cases x with
  | end_ =>
    rw [ahead, hpc] at hahead
    cases hahead
  | here token offset =>
    have hwithin : offset ≤ session.tokenizer_.remainder_.length :=
      h.within (.here token offset) (by simp [iterator, hpc])
    obtain ⟨hwithin', hahead'⟩ := CommandTokenizer.Iterator.next_spec hwithin hnext
    refine h.of_ahead (by simp [hpc]) (by simp) rfl rfl ?_ ?_
    · simp only [ahead, hpc, hahead', CommandTokenizer.Iterator.behind]
    · intro z hz
      cases hz
      exact hwithin'

end Follows

end Session

/-! ## The network, move by move -/

/-- A change of the storage that leaves every value where it is. -/
theorem Provenance.of_view {s : Sys} (h : Provenance env s) {storage : Storage}
    (hw : DHashmap.Interned env storage.storage_)
    (hview : storage.storage_.view = s.storage.storage_.view) :
    Provenance env { s with storage := storage } where
  stored := ⟨hw, fun key val hkey => h.stored.stored key val (hview ▸ hkey)⟩
  clients := h.clients
  batch := h.batch
  served := h.served

theorem Provenance.read {s : Sys} (h : Provenance env s) (f : Figure) :
    Provenance env { s with storage := (f.read s.storage).1 } := by
  have hw := h.stored.interned
  cases f with
  | storageSize => exact h.of_view hw rfl
  | deleted => exact h.of_view (hw.of_same_owners rfl rfl rfl) rfl
  | queueSize => exact h.of_view hw rfl
  | gets => exact h.of_view (hw.of_same_owners rfl rfl rfl) rfl
  | valuesSize => exact h.of_view hw rfl
  | updates => exact h.of_view (hw.of_same_owners rfl rfl rfl) rfl

theorem SysCase.grows {s t : Sys} {action : Action} (h : SysCase cfg env s action t) :
    Grows s.log t.log := by
  cases h with
  | client h => exact fun _ _ hfetched => hfetched.record _
  | filler h => exact fun _ _ hfetched => hfetched.record _
  | getVals ret vals hpc => exact grows_cons _ _
  | request args hpc => exact Grows.refl _
  | isFillerAlive answer hpc => exact Grows.refl _
  | expirate => exact Grows.refl _
  | shutdown => exact Grows.refl _

namespace Network
open Session

/-- The invariant: every connection is where its stream says, it is owed what its commands ask for,
and every value in the system was fetched. -/
structure Sound (env : Env) (n : Network) : Prop where
  provenance : Provenance env n.sys
  follows : ∀ c, (n.sessions c).Follows
  serving : ∀ c, (n.sessions c).Serving env n.sys.log (n.sys.clients c)

theorem follows_update {sessions : Nat → Session} (h : ∀ c, (sessions c).Follows) {c : Nat}
    {session : Session} (hself : session.Follows) (c' : Nat) :
    (Function.update sessions c session c').Follows := by
  rcases eq_or_ne c' c with rfl | hne
  · rw [Function.update_self]
    exact hself
  · rw [Function.update_of_ne hne]
    exact h c'

/-- What one worker and its client do leaves what is owed to the others. -/
theorem serving_update {sessions : Nat → Session} {clients : Nat → Client} {log log' : List Event}
    (h : ∀ c, (sessions c).Serving env log (clients c)) (hlog : Grows log log') {c : Nat}
    {session : Session} {x : Client} (hself : session.Serving env log' x) (c' : Nat) :
    (Function.update sessions c session c').Serving env log'
      (Function.update clients c x c') := by
  rcases eq_or_ne c' c with rfl | hne
  · rw [Function.update_self, Function.update_self]
    exact hself
  · rw [Function.update_of_ne hne, Function.update_of_ne hne]
    exact (h c').mono hlog

theorem serving_setSession {n : Network} (h : Sound env n) {c : Nat} {session : Session}
    (hself : session.Serving env n.sys.log (n.sys.clients c)) (c' : Nat) :
    (Function.update n.sessions c session c').Serving env n.sys.log (n.sys.clients c') := by
  have hall := serving_update (c := c) h.serving (Grows.refl _) hself c'
  rwa [Function.update_eq_self] at hall

/-- Between two commands nothing is owed. -/
theorem Sound.between {n : Network} (h : Sound env n) {c : Nat}
    {x : CommandTokenizer.Iterator} (hpc : (n.sessions c).pc = .handling x) :
    (n.sys.clients c).pc = .idle ∧
      List.Forall₂ (Answers env n.sys.log) (n.sessions c).executed (n.sessions c).written := by
  have hserving := h.serving c
  rwa [Serving, hpc] at hserving

theorem RoundCase.sound {n m : Network} {c : Nat} {x : CommandTokenizer.Iterator}
    (h : RoundCase n c x m) (hpc : (n.sessions c).pc = .handling x) (hn : Sound env n) :
    Sound env m := by
  obtain ⟨hidle, hanswers⟩ := hn.between hpc
  have hfollows := hn.follows c
  cases h with
  | readAgain =>
    refine ⟨hn.provenance, follows_update hn.follows ?_, serving_setSession hn ⟨hidle, hanswers⟩⟩
    refine hfollows.of_ahead (by simp [hpc]) (by simp) rfl rfl ?_ (fun x hx => by cases hx)
    simp only [ahead, hpc]
    rfl
  | quit hname =>
    exact ⟨hn.provenance, follows_update hn.follows (hfollows.quit hpc hname),
      serving_setSession hn ⟨hidle, hanswers⟩⟩
  | logLevel hquit hname =>
    refine ⟨hn.provenance, follows_update hn.follows ?_, serving_setSession hn ?_⟩
    · exact hfollows.begin_ hpc hquit rfl rfl rfl rfl rfl
    · exact ⟨hidle, _, _, rfl, hanswers, .logLevel hname n.level⟩
  | stats hquit hname =>
    refine ⟨hn.provenance, follows_update hn.follows ?_, serving_setSession hn ?_⟩
    · exact hfollows.begin_ hpc hquit rfl rfl rfl rfl rfl
    · exact ⟨hidle, _, _, rfl, hanswers, hname⟩
  | @get token offset hquit hname hidle' =>
    refine ⟨?_, follows_update hn.follows ?_, serving_update hn.serving (Grows.refl _) ?_⟩
    · have hrequest : SysCase ⟨false, 0⟩ env n.sys (.request c _) _ :=
        .request (Command.ofLine token).arguments hidle'
      exact hrequest.provenance hn.provenance
    · exact hfollows.begin_ hpc hquit rfl rfl rfl rfl rfl
    · exact ⟨_, _, rfl, hanswers, hname, Client.amid_start _⟩
  | other hquit hlevel hstats hget =>
    refine ⟨hn.provenance, follows_update hn.follows ?_, serving_setSession hn ?_⟩
    · exact hfollows.begin_ hpc hquit rfl rfl rfl rfl rfl
    · exact ⟨hidle, _, _, rfl, hanswers, .other hlevel hstats hget⟩

theorem WorkCase.sound {n m : Network} {c : Nat} {now refresh : TimeType}
    (h : WorkCase env n c now refresh m) (hn : Sound env n) : Sound env m := by
  have hserving := hn.serving c
  cases h with
  | round hpc h => exact h.sound hpc hn
  | @getting x storage y hpc h =>
    rw [Serving, hpc] at hserving
    obtain ⟨done, command, hexecuted, hdone, hname, hx⟩ := hserving
    refine ⟨?_, follows_update hn.follows ?_, serving_update hn.serving (Grows.refl _) ?_⟩
    · have hclient : SysCase ⟨false, 0⟩ env n.sys _ _ := .client h
      exact hclient.provenance hn.provenance
    · exact (hn.follows c).stays (hpc ▸ .getting) .getting
    · exact ⟨done, command, hexecuted, hdone, hname, h.amid hx⟩
  | @got x hpc hlookup hargs =>
    rw [Serving, hpc] at hserving
    obtain ⟨done, command, hexecuted, hdone, hname, hx⟩ := hserving
    have hcase : ClientCase env n.sys.storage now refresh c (n.sys.clients c)
        (n.sys.storage, .idle, some (.sent c (n.sys.clients c).items
          ((n.sys.clients c).res ++ text "END\r\n"))) := .answer hlookup hargs
    have hclient := hn.provenance.clients c
    have hlog := grows_cons (.sent c (n.sys.clients c).items
      ((n.sys.clients c).res ++ text "END\r\n")) n.sys.log
    refine ⟨?_, follows_update hn.follows ?_, serving_update hn.serving hlog ?_⟩
    · have hsys : SysCase ⟨false, 0⟩ env n.sys _ _ := .client hcase
      exact hsys.provenance hn.provenance
    · exact (hn.follows c).stays (hpc ▸ .getting) (.writing _)
    · refine ⟨rfl, done, command, hexecuted, forall₂_mono hlog hdone, ?_⟩
      obtain ⟨looked, hsplit, hitems⟩ := hx.split
      rw [hargs, List.append_nil] at hsplit
      have hget : Answers env n.sys.log command
          (render (n.sys.clients c).items ++ text "END\r\n") :=
        .get hname _ (hsplit ▸ hitems)
          (fun item hitem => ⟨hx.nonempty item hitem, hclient.served item hitem⟩)
      rw [← hclient.rendered] at hget
      exact hget.mono hlog
  | @read x f hpc =>
    rw [Serving, hpc] at hserving
    refine ⟨hn.provenance.read f, follows_update hn.follows ?_, serving_setSession hn hserving⟩
    exact (hn.follows c).stays (hpc ▸ .reporting _) (.reporting _)
  | @set x f k hpc =>
    rw [Serving, hpc] at hserving
    refine ⟨?_, follows_update hn.follows ?_, serving_setSession hn hserving⟩
    · exact hn.provenance.of_view hn.provenance.stored.interned rfl
    · exact (hn.follows c).stays (hpc ▸ .reporting _) (.reporting _)
  | @print x hpc =>
    rw [Serving, hpc] at hserving
    obtain ⟨hidle, done, command, hexecuted, hdone, hname⟩ := hserving
    refine ⟨hn.provenance, follows_update hn.follows ?_, serving_setSession hn ?_⟩
    · exact (hn.follows c).stays (hpc ▸ .reporting _) (.writing _)
    · exact ⟨hidle, done, command, hexecuted, hdone, .stats hname _ now⟩
  | @write x y response remainder hpc hpresent hnext =>
    rw [Serving, hpc] at hserving
    obtain ⟨hidle, done, command, hexecuted, hdone, hanswers⟩ := hserving
    refine ⟨hn.provenance, follows_update hn.follows ((hn.follows c).write hpc hnext),
      serving_setSession hn ⟨hidle, ?_⟩⟩
    rw [hexecuted]
    exact List.rel_append hdone (.cons hanswers .nil)
  | broken hpc hreset => exact ⟨hn.provenance, hn.follows, hn.serving⟩

theorem StepCase.sound {n m : Network} {move : Move} (h : StepCase cfg env n move m)
    (hn : Sound env n) : Sound env m := by
  cases h with
  | @receive c bytes hpc =>
    have hserving := hn.serving c
    rw [Serving, hpc] at hserving
    exact ⟨hn.provenance, follows_update hn.follows ((hn.follows c).receive hpc bytes),
      serving_setSession hn hserving⟩
  | @readFails c hpc =>
    have hserving := hn.serving c
    rw [Serving, hpc] at hserving
    exact ⟨hn.provenance, follows_update hn.follows ((hn.follows c).readFails hpc),
      serving_setSession hn hserving⟩
  | reset c =>
    have hfollows := hn.follows c
    exact ⟨hn.provenance, follows_update hn.follows
      ⟨hfollows.within, hfollows.lines, hfollows.closed⟩, serving_setSession hn (hn.serving c)⟩
  | go h => exact h.sound hn
  | @daemon action sys h hclients =>
    refine ⟨h.provenance hn.provenance, hn.follows, fun c => ?_⟩
    rw [hclients]
    exact (hn.serving c).mono h.grows

/-! ## Whole runs -/

theorem start_sound (env : Env) (now : TimeType) (ttl : Nat)
    (maxStorageSize maxQueueSize expirateSize : UInt64) (level : LogLevel) :
    Sound env (start (.init now ttl maxStorageSize maxQueueSize expirateSize) level) where
  provenance := provenance_init env now ttl maxStorageSize maxQueueSize expirateSize
  follows _ :=
    { within := fun x hx => by cases hx
      lines := fun _ => ⟨[], [], [], rfl, rfl, Connection.not_quits_nil, rfl⟩
      closed := fun hclosed => by cases hclosed }
  serving _ := ⟨rfl, .nil⟩

theorem run_sound {now : TimeType} {ttl : Nat} {maxStorageSize maxQueueSize expirateSize : UInt64}
    {level : LogLevel} {moves : List Move} {n : Network}
    (h : run cfg env (start (.init now ttl maxStorageSize maxQueueSize expirateSize) level) moves =
      .ok n) : Sound env n :=
  Run.exec_invariant (I := Sound env) (fun _ _ _ hn hstep => (step_cases hstep).2.sound hn)
    (start_sound env now ttl maxStorageSize maxQueueSize expirateSize level) h

/-- What has been executed is a first part of the lines up to a `quit`. -/
theorem Sound.executed_prefix {n : Network} (h : Sound env n) (c : Nat) :
    (n.sessions c).executed <+: upToQuit (cut crlf (n.sessions c).received).1 := by
  by_cases hclosed : (n.sessions c).pc = .closed
  · rw [(h.follows c).closed hclosed]
  · obtain ⟨done, lines, rest, -, hcut, hquits, hexecuted⟩ := (h.follows c).lines hclosed
    rw [hcut, upToQuit_of_not_quits hquits, upToQuit_eq_map hquits, ← hexecuted]
    exact List.prefix_append _ _

/-- What has been written answers what has been executed, but for the last command. -/
theorem Sound.answers {n : Network} (h : Sound env n) (c : Nat) :
    ∃ done pending, (n.sessions c).executed = done ++ pending ∧ pending.length ≤ 1 ∧
      List.Forall₂ (Answers env n.sys.log) done (n.sessions c).written := by
  have hserving := h.serving c
  unfold Serving at hserving
  cases hpc : (n.sessions c).pc with
  | reading | handling x | closed =>
    rw [hpc] at hserving
    exact ⟨_, [], (List.append_nil _).symm, Nat.zero_le 1, hserving.2⟩
  | getting x =>
    rw [hpc] at hserving
    obtain ⟨done, command, hexecuted, hdone, -⟩ := hserving
    exact ⟨done, [command], hexecuted, Nat.le_refl 1, hdone⟩
  | reporting x pc | writing x response =>
    rw [hpc] at hserving
    obtain ⟨-, done, command, hexecuted, hdone, -⟩ := hserving
    exact ⟨done, [command], hexecuted, Nat.le_refl 1, hdone⟩

/-- A connection that waits for bytes, or is closed, has got everything. -/
theorem Sound.answered {n : Network} (h : Sound env n) {c : Nat}
    (hpc : (n.sessions c).pc = .reading ∨ (n.sessions c).pc = .closed) :
    (n.sessions c).executed = upToQuit (cut crlf (n.sessions c).received).1 ∧
      List.Forall₂ (Answers env n.sys.log) (n.sessions c).executed (n.sessions c).written := by
  have hserving := h.serving c
  rcases hpc with hpc | hpc
  · rw [Serving, hpc] at hserving
    refine ⟨?_, hserving.2⟩
    obtain ⟨done, lines, rest, hahead, hcut, hquits, hexecuted⟩ :=
      (h.follows c).lines (by simp [hpc])
    simp only [ahead, hpc, Option.some.injEq, Prod.mk.injEq] at hahead
    rw [hcut, ← hahead.1, List.append_nil, upToQuit_eq_map hquits, hexecuted]
  · rw [Serving, hpc] at hserving
    exact ⟨(h.follows c).closed hpc, hserving.2⟩

/-- From the bytes of a client to the bytes it gets: in every run of all connections, the filler
and its library, however the streams are cut into reads, the commands begun on a connection are
those of its own lines in their order, none behind a `quit`. Each response written answers the
command at its place, where only the last command may still be at work; the items of a `get` are
for arguments of that very line, in their order, each with a value that the library has returned
for the argument's normal form. A connection that waits for bytes or is closed has got a response
for every line. -/
theorem run_answers {now : TimeType} {ttl : Nat}
    {maxStorageSize maxQueueSize expirateSize : UInt64} {level : LogLevel} {moves : List Move}
    {n : Network}
    (h : run cfg env (start (.init now ttl maxStorageSize maxQueueSize expirateSize) level) moves =
      .ok n) (c : Nat) :
    (n.sessions c).executed <+: upToQuit (cut crlf (n.sessions c).received).1 ∧
      (∃ done pending, (n.sessions c).executed = done ++ pending ∧ pending.length ≤ 1 ∧
        List.Forall₂ (Answers env n.sys.log) done (n.sessions c).written) ∧
      ((n.sessions c).pc = .reading ∨ (n.sessions c).pc = .closed →
        (n.sessions c).executed = upToQuit (cut crlf (n.sessions c).received).1 ∧
          List.Forall₂ (Answers env n.sys.log) (n.sessions c).executed
            (n.sessions c).written) :=
  have hn : Sound env n := run_sound h
  ⟨hn.executed_prefix c, hn.answers c, hn.answered⟩

/-- Two connections ask for `"k"`, the first in two reads, while the filler fetches it; the first
asks again, behind a `stats`, and quits. -/
def refillScript : List Move :=
  [.onRead 0 (some (text "ge")), .go 0 0 0, .onRead 1 (some (text "get k\r\n")),
    .onRead 0 (some (text "t k\r\n"))] ++
    List.replicate 4 (.go 0 0 0) ++ List.replicate 8 (.go 1 0 0) ++
    List.replicate 4 (.go 0 0 0) ++
    List.replicate 8 (.daemon (.filler 1)) ++ [.daemon (.getVals true [[118]])] ++
    List.replicate 3 (.daemon (.filler 1)) ++
    [.onRead 0 (some (text "stats\r\nget k\r\nquit\r\nget k\r\n"))] ++
    List.replicate 20 (.go 0 2 2)

theorem run_answers_refill :
    ∃ n, run ⟨false, 1⟩ .plain (start (.init 0 10 100 100 1) .debug) refillScript = .ok n ∧
      (n.sessions 0).pc = .closed ∧ (n.sessions 0).written.length = 3 ∧
      List.Forall₂ (Answers .plain n.sys.log) (n.sessions 0).executed (n.sessions 0).written := by
  obtain ⟨n, hrun, hpc, hwritten⟩ := Run.yields_iff.mp (by decide +kernel :
    Run.Yields (step ⟨false, 1⟩ .plain)
      (fun n => (n.sessions 0).pc = .closed ∧ (n.sessions 0).written.length = 3)
      (start (.init 0 10 100 100 1) .debug) refillScript)
  exact ⟨n, hrun, hpc, hwritten, ((run_answers hrun 0).2.2 (Or.inr hpc)).2⟩

end Network

end Swordfish
