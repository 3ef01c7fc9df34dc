import Swordfish.Connection.Worker
import Swordfish.Lib.Reader
import Swordfish.Storage.ResetStats

/-!
# The protocol, read by a client

A client that knows what it has asked reads one reply for each of its commands: items for a `get`,
figures for a `stats`, a status for a `log_level`, and a bare `END` for the others. Every response
the daemon writes is read back, whatever follows it, and what a client has read it keeps when more
bytes come in.
-/

namespace Swordfish
open Delimited

namespace Wire
open Reader

/-! ## The client -/

/-- What a `stats` tells. -/
structure Report where
  uptime : Int
  storageSize : Nat
  deleted : Nat
  getsCount : Nat
  updatesCount : Nat
  queueSize : Nat
  valuesSize : Nat
  deriving DecidableEq, Repr

/-- What a client reads for a command. -/
inductive Reply where
  | items (items : List (Str × Str))
  | report (report : Report)
  | status (ok : Bool)
  | done
  deriving DecidableEq, Repr

/-- A decimal number. -/
def number? (s : Str) : Option Nat :=
  if s.isEmpty = false ∧ s.all isDigit = true then some (decimal s) else none

/-- Hours, minutes and seconds, as seconds. -/
def hms? (s : Str) : Option Nat :=
  match words 58 s with
  | [hours, minutes, seconds] =>
      match number? hours, number? minutes, number? seconds with
      | some h, some m, some s => some (3600 * h + 60 * m + s)
      | _, _, _ => none
  | _ => none

/-- A duration, which is negative when the clock has been set back. -/
def uptime? (s : Str) : Option Int :=
  if s.head? = some 45 then (hms? s.tail).map (fun n : Nat => -(n : Int))
  else (hms? s).map (fun n : Nat => (n : Int))

/-- What a `log_level` says. -/
def status? (s : Str) : Option Bool :=
  if s = text "OK" then some true else if s = text "ERROR" then some false else none

/-- The text of a line. -/
def line : Reader UInt8 Str := field (fun b => decide (b ≠ 13)) crlf

/-- A line of a report. -/
def stat (title : String) (value : Str → Option β) : Reader UInt8 β :=
  (literal (text "STAT " ++ text title ++ text " ")).bind (fun _ => line.check value)

/-- The end of a response. -/
def end_ (reply : β) : Reader UInt8 β := (literal (text "END\r\n")).check (fun _ => some reply)

/-- The seven lines of a `stats`. -/
def report : Reader UInt8 Report :=
  (stat "uptime" uptime?).bind fun uptime =>
  (stat "storage_size" number?).bind fun storageSize =>
  (stat "deleted" number?).bind fun deleted =>
  (stat "gets_count" number?).bind fun getsCount =>
  (stat "updates_count" number?).bind fun updatesCount =>
  (stat "queue_size" number?).bind fun queueSize =>
  (stat "values_size" number?).bind fun valuesSize =>
  end_
    { uptime := uptime
      storageSize := storageSize
      deleted := deleted
      getsCount := getsCount
      updatesCount := updatesCount
      queueSize := queueSize
      valuesSize := valuesSize }

/-- The reply to a command. -/
def reply (command : Command) : Reader UInt8 Reply :=
  if command.name = text "log_level" then
    (line.check status?).bind fun ok => end_ (.status ok)
  else if command.name = text "stats" then report.check (fun x => some (.report x))
  else if command.name = text "get" then
    Reader.check readResponse (fun items => some (.items items))
  else end_ .done

end Wire

/-! ## Reading back -/

/-- What a client is told by the statistics. -/
def Stats.told (x : Stats) (now : TimeType) : Wire.Report :=
  { uptime := (now : Int) - x.startTime_
    storageSize := x.storageSize_.toNat
    deleted := x.deleted_.toNat
    getsCount := x.gets_.toNat
    updatesCount := x.updates_.toNat
    queueSize := x.queueSize_.toNat
    valuesSize := x.valuesSize_.toNat }

namespace Wire
open Reader

theorem number?_eq {s : Str} (hne : s ≠ []) (hs : ∀ b ∈ s, isDigit b = true) :
    number? s = some (decimal s) :=
  if_pos ⟨List.isEmpty_eq_false_iff.mpr hne, List.all_eq_true.mpr hs⟩

theorem number?_toString (n : Nat) : number? (text (toString n)) = some n := by
  obtain ⟨hne, hdigits, hdecimal⟩ := digits_spec n
  rw [number?_eq hne hdigits, hdecimal]

/-- A number of at least two digits is digits, and stands for it. -/
theorem twoDigits_spec (n : Nat) :
    Stats.twoDigits n ≠ [] ∧ (∀ b ∈ Stats.twoDigits n, isDigit b = true) ∧
      decimal (Stats.twoDigits n) = n := by
  obtain ⟨hne, hdigits, hdecimal⟩ := digits_spec n
  unfold Stats.twoDigits
  split
  · have htext : text ("0" ++ toString n) = 48 :: text (toString n) := by
      rw [Storage.text_append]
      rfl
    rw [htext]
    refine ⟨List.cons_ne_nil _ _, ?_, ?_⟩
    · intro b hb
      rcases List.mem_cons.mp hb with rfl | hb
      · decide
      · exact hdigits b hb
    · exact hdecimal
  · exact ⟨hne, hdigits, hdecimal⟩

theorem number?_twoDigits (n : Nat) : number? (Stats.twoDigits n) = some n := by
  obtain ⟨hne, hdigits, hdecimal⟩ := twoDigits_spec n
  rw [number?_eq hne hdigits, hdecimal]

theorem colon_not_mem_twoDigits (n : Nat) : 58 ∉ Stats.twoDigits n := by
  intro hmem
  exact absurd ((twoDigits_spec n).2.1 58 hmem) (by decide)

theorem words_twoDigits (n : Nat) : words 58 (Stats.twoDigits n) = [Stats.twoDigits n] := by
  have hnil : words (58 : UInt8) [] = [[]] := rfl
  have h := words_append (colon_not_mem_twoDigits n) hnil
  rwa [List.append_nil] at h

/-- A number in front of a colon is a word of its own. -/
theorem words_twoDigits_colon (n : Nat) {s : Str} (hs : s.head? ≠ some 58) :
    words 58 (Stats.twoDigits n ++ 58 :: s) = Stats.twoDigits n :: words 58 s := by
  have hcolon : words 58 (58 :: s) = [] :: words 58 s := words_replicate 0 hs
  have h := words_append (colon_not_mem_twoDigits n) hcolon
  rwa [List.append_nil] at h

theorem head?_twoDigits (n : Nat) (s : Str) {b : UInt8} (hb : isDigit b = false) :
    (Stats.twoDigits n ++ s).head? ≠ some b := by
  obtain ⟨hne, hdigits, -⟩ := twoDigits_spec n
  obtain ⟨a, digits, hcons⟩ := List.exists_cons_of_ne_nil hne
  rw [hcons] at hdigits ⊢
  rintro ⟨⟩
  rw [hdigits b List.mem_cons_self] at hb
  cases hb

theorem hms?_hms (seconds : Nat) : hms? (Stats.hms seconds) = some seconds := by
  have htext : Stats.hms seconds = Stats.twoDigits (seconds / 3600) ++
      58 :: (Stats.twoDigits (seconds / 60 % 60) ++
        58 :: Stats.twoDigits (seconds % 60)) := by
    simp [Stats.hms, text]
  have hlast : (Stats.twoDigits (seconds % 60)).head? ≠ some 58 := by
    have h := head?_twoDigits (seconds % 60) [] (b := 58) (by decide)
    rwa [List.append_nil] at h
  rw [hms?, htext, words_twoDigits_colon _ (head?_twoDigits _ _ (by decide)),
    words_twoDigits_colon _ hlast, words_twoDigits]
  simp only [number?_twoDigits, Option.some.injEq]
  omega

theorem uptime?_uptime (now start : TimeType) :
    uptime? (Stats.uptime now start) = some ((now : Int) - start) := by
  unfold Stats.uptime
  by_cases hback : now < start
  · have htext : text "-" ++ Stats.hms (start - now) = 45 :: Stats.hms (start - now) := rfl
    rw [if_pos hback, htext, uptime?, if_pos List.head?_cons, List.tail_cons, hms?_hms,
      Option.map_some, Int.ofNat_sub (Nat.le_of_lt hback), Int.neg_sub]
  · have hhead : (Stats.hms (now - start)).head? ≠ some 45 := by
      simp only [Stats.hms, List.append_assoc]
      exact head?_twoDigits _ _ (by decide)
    rw [if_neg hback, uptime?, if_neg hhead, hms?_hms, Option.map_some,
      Int.ofNat_sub (Nat.not_lt.mp hback)]

/-! ### Responses -/

theorem reads_line {s : Str} (hs : 13 ∉ s) : Reads line (s ++ crlf) s := by
  apply reads_field (by decide)
  intro b hb
  exact decide_eq_true (fun h => hs (h ▸ hb))

theorem reads_stat {title : String} {value : Str → Option β} {s : Str} {b : β} (hs : 13 ∉ s)
    (hvalue : value s = some b) : Reads (stat title value) (Stats.stat title s) b := by
  have htext : Stats.stat title s = (text "STAT " ++ text title ++ text " ") ++ (s ++ crlf) := by
    simp only [Stats.stat, crlf, List.append_assoc]
  rw [htext]
  exact (reads_literal _).bind ((reads_line hs).check hvalue)

theorem reads_end_ (b : β) : Reads (end_ b) (text "END\r\n") b := (reads_literal _).check rfl

theorem reads_report (x : Stats) (now : TimeType) : Reads report (x.get now) (x.told now) := by
  have hnumber : ∀ (title : String) (n : UInt32),
      Reads (stat title number?) (Stats.stat title (text (toString n))) n.toNat :=
    fun title n => reads_stat (Storage.cr_not_mem_number n.toNat) (number?_toString n.toNat)
  simp only [Stats.get, List.append_assoc]
  apply Reads.bind (reads_stat (Storage.cr_not_mem_uptime _ _) (uptime?_uptime _ _))
  apply Reads.bind (hnumber _ _)
  apply Reads.bind (hnumber _ _)
  apply Reads.bind (hnumber _ _)
  apply Reads.bind (hnumber _ _)
  apply Reads.bind (hnumber _ _)
  apply Reads.bind (hnumber _ _)
  exact reads_end_ _

theorem reads_readResponse {items : List (Str × Str)} (hkeys : ∀ item ∈ items, spacebar ∉ item.1) :
    Reads readResponse (itemsText items ++ text "END\r\n") items := by
  intro s
  rw [List.append_assoc]
  exact readResponse_itemsText hkeys s

/-! ## More input -/

theorem stable_line : Stable line := stable_field (by decide)

theorem stable_stat (title : String) (value : Str → Option β) : Stable (stat title value) :=
  (stable_literal _).bind (fun _ => stable_line.check value)

theorem stable_end_ (b : β) : Stable (end_ b) := (stable_literal _).check _

theorem stable_report : Stable report := by
  apply (stable_stat _ _).bind
  intro uptime
  apply (stable_stat _ _).bind
  intro storageSize
  apply (stable_stat _ _).bind
  intro deleted
  apply (stable_stat _ _).bind
  intro getsCount
  apply (stable_stat _ _).bind
  intro updatesCount
  apply (stable_stat _ _).bind
  intro queueSize
  apply (stable_stat _ _).bind
  intro valuesSize
  exact stable_end_ _

theorem literal_eq (w s : Str) : literal w s = (expect w s).map (fun r => ((), r)) := by
  rw [literal, expect]
  split <;> rfl

/-- An item, piece by piece. -/
def item : Reader UInt8 (Str × Str) :=
  (literal (text "VALUE ")).bind fun _ =>
  (field (fun b => decide (b ≠ spacebar)) (text " 0 ")).bind fun key =>
  ((field isDigit crlf).check
    (fun digits => if digits = [] then none else some (decimal digits))).bind fun length =>
  (count length).bind fun value =>
  (literal crlf).check (fun _ => some (key, value))

theorem readItem_eq (s : Str) : readItem s = item s := by
  simp only [readItem, item, Reader.bind, Reader.check, field, count, literal_eq]
  cases expect (text "VALUE ") s with
  | none => rfl
  | some s =>
    simp only [Option.bind_eq_bind, Option.bind_some, Option.map_some]
    cases expect (text " 0 ") (s.dropWhile (fun b => decide (b ≠ spacebar))) with
    | none => rfl
    | some s =>
      simp only [Option.bind_some, Option.map_some]
      cases hline : expect crlf (s.dropWhile isDigit) with
      | none => split <;> rfl
      | some t =>
        simp only [Option.bind_some, Option.map_some]
        split
        · rfl
        · rw [Option.map_some, Option.bind_some]
          by_cases hshort : t.length < decimal (s.takeWhile isDigit)
          · rw [if_pos hshort, if_pos hshort]
            rfl
          · rw [if_neg hshort, if_neg hshort, Option.bind_some]
            cases expect crlf (t.drop (decimal (s.takeWhile isDigit))) <;> rfl

theorem stable_item : Stable item := by
  apply (stable_literal _).bind
  intro
  apply (stable_field (by decide)).bind
  intro key
  apply ((stable_field (by decide)).check _).bind
  intro length
  apply (stable_count length).bind
  intro value
  exact (stable_literal _).check _

/-- An item starts with `VALUE`, so it is not the end of a response. -/
theorem expect_end_of_readItem {s r : Str} {x : Str × Str} (h : readItem s = some (x, r)) :
    expect (text "END\r\n") s = none := by
  rw [readItem_eq] at h
  obtain ⟨⟨u, t⟩, hvalue, -⟩ := Option.bind_eq_some_iff.mp h
  rw [literal_eq_some_iff.mp hvalue, expect, if_neg]
  rintro ⟨tail, htail⟩
  have hhead := congrArg List.head? htail
  simp [text] at hhead

theorem readItems_append {n : Nat} {s r : Str} {items : List (Str × Str)}
    (h : readItems n s = some (items, r)) (x : Str) {m : Nat} (hm : n ≤ m) :
    readItems m (s ++ x) = some (items, r ++ x) := by
  induction n generalizing s r items m with
  | zero => cases h
  | succ n ih =>
    obtain ⟨m, rfl⟩ := Nat.exists_eq_succ_of_ne_zero (Nat.ne_zero_of_lt hm)
    rw [readItems] at h ⊢
    split at h
    · rename_i rest hend
      cases h
      have hliteral := stable_literal (text "END\r\n") s () r x (by rw [literal_eq, hend]; rfl)
      rw [literal_eq] at hliteral
      obtain ⟨rest', hexpect, hrest⟩ := Option.map_eq_some_iff.mp hliteral
      cases hrest
      rw [hexpect]
    · obtain ⟨⟨first, t⟩, hitem, hmore⟩ := Option.bind_eq_some_iff.mp h
      obtain ⟨⟨later, r'⟩, hlater, hr⟩ := Option.bind_eq_some_iff.mp hmore
      cases hr
      have hitem' : readItem (s ++ x) = some (first, t ++ x) := by
        rw [readItem_eq] at hitem ⊢
        exact stable_item s first t x hitem
      rw [expect_end_of_readItem hitem', hitem']
      simp only [Option.bind_eq_bind, Option.bind_some]
      rw [ih hlater (Nat.le_of_succ_le_succ hm)]
      rfl

theorem stable_readResponse : Stable readResponse := by
  intro s items r x h
  apply readItems_append h
  rw [List.length_append]
  omega

theorem stable_reply (command : Command) : Stable (reply command) := by
  unfold reply
  split
  · exact (stable_line.check status?).bind (fun ok => stable_end_ _)
  · split
    · exact stable_report.check _
    · split
      · exact stable_readResponse.check _
      · exact stable_end_ _

/-- There is no reply in nothing. -/
theorem reply_nil (command : Command) : reply command [] = none := by
  unfold reply
  split
  · rfl
  · split
    · rfl
    · split
      · rfl
      · rfl

end Wire

end Swordfish
