import Swordfish.Basic

/-!
# The statistics

`Stats` (`daemon-src/include/stats.hpp`, `daemon-src/src/stats.cpp`). Each operation runs under
`mutex_`, so here it is one function. The setters of `deleted_`, `gets_` and `updates_` add.
-/

namespace Swordfish

/-- The data members of `Stats`. -/
structure Stats where
  startTime_ : TimeType
  storageSize_ : UInt32
  deleted_ : UInt32
  queueSize_ : UInt32
  gets_ : UInt32
  valuesSize_ : UInt32
  updates_ : UInt32
  deriving DecidableEq, Repr

namespace Stats

/-- `Stats::reset` at time `now`, which the constructor runs. -/
def reset (now : TimeType) : Stats :=
  { startTime_ := now
    storageSize_ := 0
    deleted_ := 0
    queueSize_ := 0
    gets_ := 0
    valuesSize_ := 0
    updates_ := 0 }

/-- `Stats::set_start_time` at time `now`. -/
def setStartTime (x : Stats) (now : TimeType) : Stats := { x with startTime_ := now }

/-- `Stats::set_storage_size`. -/
def setStorageSize (x : Stats) (size : UInt32) : Stats := { x with storageSize_ := size }

/-- `Stats::set_values_size`. -/
def setValuesSize (x : Stats) (size : UInt32) : Stats := { x with valuesSize_ := size }

/-- `Stats::set_deleted`. -/
def setDeleted (x : Stats) (count : UInt32) : Stats := { x with deleted_ := x.deleted_ + count }

/-- `Stats::set_queue_size`. -/
def setQueueSize (x : Stats) (size : UInt32) : Stats := { x with queueSize_ := size }

/-- `Stats::set_gets`. -/
def setGets (x : Stats) (count : UInt32) : Stats := { x with gets_ := x.gets_ + count }

/-- `Stats::set_updates`. -/
def setUpdates (x : Stats) (count : UInt32) : Stats := { x with updates_ := x.updates_ + count }

/-- A number of at least two digits. -/
def twoDigits (n : Nat) : Str := text (if n < 10 then "0" ++ toString n else toString n)

/-- How a `time_duration` of whole seconds is written: `hh:mm:ss`. -/
def hms (seconds : Nat) : Str :=
  twoDigits (seconds / 3600) ++ text ":" ++ twoDigits (seconds / 60 % 60) ++ text ":" ++
    twoDigits (seconds % 60)

/-- The duration from `start` to `now`. -/
def uptime (now start : TimeType) : Str :=
  if now < start then text "-" ++ hms (start - now) else hms (now - start)

/-- A line of the answer of `Stats::get`. -/
def stat (name : String) (value : Str) : Str :=
  text "STAT " ++ text name ++ text " " ++ value ++ text "\r\n"

/-- `Stats::get` (`stats.cpp:12-36`) at time `now`. -/
def get (x : Stats) (now : TimeType) : Str :=
  stat "uptime" (uptime now x.startTime_) ++
    stat "storage_size" (text (toString x.storageSize_)) ++
    stat "deleted" (text (toString x.deleted_)) ++
    stat "gets_count" (text (toString x.gets_)) ++
    stat "updates_count" (text (toString x.updates_)) ++
    stat "queue_size" (text (toString x.queueSize_)) ++
    stat "values_size" (text (toString x.valuesSize_)) ++
    text "END\r\n"

end Stats

end Swordfish
