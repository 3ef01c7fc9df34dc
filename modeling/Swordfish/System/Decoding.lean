import Swordfish.Connection.Wire
import Swordfish.System.EndToEnd

/-!
# What the client of a connection makes of the bytes it gets

The client knows the lines it has sent, and the bytes come in pieces. In every run, what it reads
of the bytes that have come so far answers its first commands, in their order, and more bytes only
add to it; of all that was written it reads one reply for each response, and nothing is left.
-/

namespace Swordfish
open Delimited

variable {cfg : FillerConfig} {env : Env}

/-- What a reply may tell about a command. -/
inductive Tells (env : Env) (log : List Event) (command : Command) : Wire.Reply → Prop
  | items (hname : command.name = text "get") (items : List (Str × Str))
      (hkeys : (items.map Prod.fst).Sublist command.arguments)
      (hvalues : ∀ item ∈ items, item.2 ≠ [] ∧ Fetched log (env.normalize item.1) item.2) :
      Tells env log command (.items items)
  | report (hname : command.name = text "stats") (x : Stats) (now : TimeType) :
      Tells env log command (.report (x.told now))
  | status (hname : command.name = text "log_level") :
      Tells env log command (.status (decide (command.argc = 1)))
  | done (hlevel : command.name ≠ text "log_level") (hstats : command.name ≠ text "stats")
      (hget : command.name ≠ text "get") : Tells env log command .done

/-- The replies in the bytes, and the bytes behind them, for a client that has sent what the
worker has got. -/
def Session.replies (session : Session) (bytes : Str) : List Wire.Reply × Str :=
  Reader.all Wire.reply (upToQuit (cut crlf session.received).1) bytes

/-! ## One response -/

theorem render_eq_itemsText (items : List (Str × Str)) : render items = itemsText items := by
  have happend : ∀ (items : List (Str × Str)) (res : Str),
      items.foldl (fun res item => Storage.resAppend item.1 item.2 res) res =
        res ++ itemsText items := by
    intro items
    induction items with
    | nil => exact fun res => (List.append_nil res).symm
    | cons item items ih =>
      intro res
      rw [List.foldl_cons, ih, resAppend_eq, List.append_assoc]
      rfl
  exact happend items []

theorem reads_logLevel {command : Command} (hname : command.name = text "log_level")
    (level : LogLevel) :
    Reader.Reads (Wire.reply command) (Worker.logLevel level command).2
      (.status (decide (command.argc = 1))) := by
  have hread : ∀ {s : Str} {ok : Bool}, 13 ∉ s → Wire.status? s = some ok →
      Reader.Reads (Wire.reply command) (s ++ crlf ++ text "END\r\n") (.status ok) := by
    intro s ok hs hok
    unfold Wire.reply
    rw [if_pos hname]
    exact ((Wire.reads_line hs).check hok).bind (Wire.reads_end_ _)
  by_cases hargc : command.argc = 1
  · rw [Worker.logLevel, dif_pos hargc, decide_eq_true hargc]
    exact hread (s := text "OK") (by decide) rfl
  · rw [Worker.logLevel, dif_neg hargc, decide_eq_false hargc]
    exact hread (s := text "ERROR") (by decide) rfl

/-- A response that answers a line is read as a reply that answers it. -/
theorem Answers.reads {log : List Event} {command : Command} {response : Str}
    (h : Answers env log command response) (hline : ∃ line, command = .ofLine line) :
    ∃ reply, Reader.Reads (Wire.reply command) response reply ∧ Tells env log command reply := by
  cases h with
  | get hname items hkeys hvalues =>
    have hspace : ∀ item ∈ items, spacebar ∉ item.1 := by
      intro item hitem
      obtain ⟨line, rfl⟩ := hline
      exact Command.not_mem_arguments (hkeys.subset (List.mem_map_of_mem hitem))
    refine ⟨.items items, ?_, .items hname items hkeys hvalues⟩
    have hlevel : command.name ≠ text "log_level" := hname ▸ by decide
    have hstats : command.name ≠ text "stats" := hname ▸ by decide
    unfold Wire.reply
    rw [if_neg hlevel, if_neg hstats, if_pos hname, render_eq_itemsText]
    exact (Wire.reads_readResponse hspace).check rfl
  | stats hname x now =>
    refine ⟨.report (x.told now), ?_, .report hname x now⟩
    have hlevel : command.name ≠ text "log_level" := hname ▸ by decide
    unfold Wire.reply
    rw [if_neg hlevel, if_pos hname]
    exact (Wire.reads_report x now).check rfl
  | logLevel hname level => exact ⟨_, reads_logLevel hname level, .status hname⟩
  | other hlevel hstats hget =>
    refine ⟨.done, ?_, .done hlevel hstats hget⟩
    unfold Wire.reply
    rw [if_neg hlevel, if_neg hstats, if_neg hget]
    exact Wire.reads_end_ _

/-! ## All responses -/

theorem exists_line_of_mem_upToQuit {lines : List Str} {command : Command}
    (h : command ∈ upToQuit lines) : ∃ line, command = .ofLine line := by
  obtain ⟨line, -, rfl⟩ := List.mem_map.mp ((List.takeWhile_prefix _).subset h)
  exact ⟨line, rfl⟩

namespace Network

/-- Of all that was written the client reads one reply for each response. -/
theorem Sound.replies {n : Network} (h : Sound env n) (c : Nat) :
    ∃ commands, commands <+: upToQuit (cut crlf (n.sessions c).received).1 ∧
      commands.length = (n.sessions c).written.length ∧
      ((n.sessions c).replies (n.sessions c).written.flatten).2 = [] ∧
      List.Forall₂ (Tells env n.sys.log) commands
        ((n.sessions c).replies (n.sessions c).written.flatten).1 := by
  obtain ⟨done, pending, hexecuted, -, hanswers⟩ := h.answers c
  obtain ⟨later, hlater⟩ := h.executed_prefix c
  have hsplit : upToQuit (cut crlf (n.sessions c).received).1 = done ++ (pending ++ later) := by
    rw [← hlater, hexecuted, List.append_assoc]
  have hreads : List.Forall₂ (fun command response => ∃ reply,
      Reader.Reads (Wire.reply command) response reply ∧ Tells env n.sys.log command reply)
      done (n.sessions c).written := by
    have hlines : ∀ command ∈ done, ∃ line, command = .ofLine line := by
      intro command hcommand
      have hmem : command ∈ upToQuit (cut crlf (n.sessions c).received).1 := by
        rw [hsplit]
        exact List.mem_append_left _ hcommand
      exact exists_line_of_mem_upToQuit hmem
    apply ((List.forall₂_and_left _ _).mpr ⟨hlines, hanswers⟩).imp
    intro command response hresponse
    exact hresponse.2.reads hresponse.1
  have hall := Reader.all_of_reads hreads (pending ++ later) Wire.reply_nil
  rw [← hsplit] at hall
  exact ⟨done, ⟨_, hsplit.symm⟩, hanswers.length_eq, hall.1, hall.2⟩

/-- In every run, whatever bytes of a connection have come so far: the client reads replies to its
first commands, one after the other, each telling what is true of its command; all bytes that come
later leave these replies as they are. When everything written has come, it has one reply for each
response, and no byte is left. -/
theorem run_decodes {now : TimeType} {ttl : Nat}
    {maxStorageSize maxQueueSize expirateSize : UInt64} {level : LogLevel} {moves : List Move}
    {n : Network}
    (h : run cfg env (start (.init now ttl maxStorageSize maxQueueSize expirateSize) level) moves =
      .ok n) (c : Nat) {bytes later : Str}
    (hbytes : (n.sessions c).written.flatten = bytes ++ later) :
    List.Forall₂ (Tells env n.sys.log)
        ((upToQuit (cut crlf (n.sessions c).received).1).take
          ((n.sessions c).replies bytes).1.length)
        ((n.sessions c).replies bytes).1 ∧
      ((n.sessions c).replies bytes).1 <+:
        ((n.sessions c).replies (n.sessions c).written.flatten).1 ∧
      (later = [] → ((n.sessions c).replies bytes).1.length = (n.sessions c).written.length ∧
        ((n.sessions c).replies bytes).2 = []) := by
  obtain ⟨commands, hprefix, hlength, hnothing, htells⟩ := (run_sound h).replies c
  have hgrows : ((n.sessions c).replies bytes).1 <+:
      ((n.sessions c).replies (n.sessions c).written.flatten).1 := by
    rw [hbytes]
    exact Reader.all_prefix Wire.stable_reply _ bytes later
  refine ⟨?_, hgrows, ?_⟩
  · have hshort := hgrows.length_le
    rw [← htells.length_eq] at hshort
    obtain ⟨more, hmore⟩ := hprefix
    rw [← hmore, List.take_append_of_le_length hshort]
    exact Reader.forall₂_of_prefix htells hgrows
  · rintro rfl
    rw [List.append_nil] at hbytes
    rw [← hbytes, ← htells.length_eq]
    exact ⟨hlength, hnothing⟩

/-- The first connection of `refillScript` has asked for a value, for the statistics, and for the
value again. -/
theorem run_decodes_refill :
    ∃ n, run ⟨false, 1⟩ .plain (start (.init 0 10 100 100 1) .debug) refillScript = .ok n ∧
      (n.sessions 0).written.length = 3 ∧
      ((n.sessions 0).replies (n.sessions 0).written.flatten).1.length = 3 ∧
      ((n.sessions 0).replies (n.sessions 0).written.flatten).2 = [] := by
  obtain ⟨n, hrun, hwritten⟩ := Run.yields_iff.mp (by decide +kernel :
    Run.Yields (step ⟨false, 1⟩ .plain) (fun n => (n.sessions 0).written.length = 3)
      (start (.init 0 10 100 100 1) .debug) refillScript)
  obtain ⟨hlength, hnothing⟩ := (run_decodes hrun 0 (List.append_nil _).symm).2.2 rfl
  exact ⟨n, hrun, hwritten, hlength.trans hwritten, hnothing⟩

end Network

end Swordfish
