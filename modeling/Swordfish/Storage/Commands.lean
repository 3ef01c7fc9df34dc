import Swordfish.Connection.Command
import Swordfish.Storage.Model

/-!
# The commands of the storage

`Storage::_do`: what a client's command makes of the storage, and its response. A command that is
neither `stats` nor `get` has no response.
-/

namespace Swordfish.Storage

/-- `Storage::reset_stats` (`storage.cpp:50-59`) at time `now`. -/
def resetStats (s : Storage) (now : TimeType) : Storage :=
  let stats := s.stats_.setStartTime now
  let stats := stats.setStorageSize s.storage_.getStorageSize
  let stats := stats.setDeleted 0
  let stats := stats.setQueueSize s.queue_.size
  let stats := stats.setGets 0
  let stats := stats.setValuesSize s.storage_.getValuesSize
  { s with stats_ := stats }

/-- `Storage::refresh_stats` (`storage.cpp:89-98`). -/
def refreshStats (s : Storage) : Storage :=
  let stats := s.stats_.setStorageSize s.storage_.getStorageSize
  let (storage, deleted) := s.storage_.getDeleted
  let stats := stats.setDeleted deleted
  let stats := stats.setQueueSize s.queue_.size
  let (storage, gets) := storage.getGets
  let stats := stats.setGets gets
  let stats := stats.setValuesSize storage.getValuesSize
  let (storage, updates) := storage.getUpdates
  let stats := stats.setUpdates updates
  { s with storage_ := storage, stats_ := stats }

/-- `Storage::get_stats` (`storage.cpp:101-105`). -/
def getStats (s : Storage) (now : TimeType) : Storage × Str :=
  let s := s.refreshStats
  (s, s.stats_.get now)

/-- The arguments of a command, with the readings of the clock that their lookups make. -/
def Lookup.ofArguments (clock : Nat → TimeType × TimeType) (args : List Str) : List Lookup :=
  args.zipIdx.map (fun x => ⟨x.1, (clock x.2).1, (clock x.2).2⟩)

/-- `Storage::_do` (`storage.cpp:20-36`). The clock is read at `now` by `stats`, and by `get` at
the readings of `clock` for each argument. -/
def _do (env : Env) (clock : Nat → TimeType × TimeType) (now : TimeType) (s : Storage)
    (command : Command) : Except Stop (Storage × Str) :=
  if command.name = text "stats" then .ok (s.getStats now)
  else if command.name = text "get" then
    s.getVal env (Lookup.ofArguments clock command.arguments)
  else .ok (s, [])

/-- What `_do` answers ends with `END`, unless it answers nothing. -/
theorem _do_framed {env : Env} {clock : Nat → TimeType × TimeType} {now : TimeType}
    {s t : Storage} {command : Command} {res : Str}
    (h : s._do env clock now command = .ok (t, res)) : res = [] ∨ text "END\r\n" <:+ res := by
  unfold _do at h
  split at h
  · cases h
    exact Or.inr (List.suffix_append _ _)
  · split at h
    · obtain ⟨items, -, rfl⟩ := getVal_ok.mp h
      exact Or.inr (List.suffix_append _ _)
    · cases h
      exact Or.inl rfl

end Swordfish.Storage
