import Mathlib.Tactic.Common

/-!
# Machine types

The types the daemon's sources share: `std::string`, `size_t` (64 bits) and `uint` (32 bits),
with the clock read through `boost::date_time::second_clock`.
-/

namespace Swordfish

/-- `std::string`: a sequence of bytes. -/
abbrev Str := List UInt8

/-- `std::string::length` as the `size_t` that the byte counters add up. -/
def strLength (x : Str) : UInt64 := UInt64.ofNat x.length

/-- The bytes of a string literal; those of the sources that are modelled are ASCII. -/
def text (x : String) : Str := x.toList.map (fun c => UInt8.ofNat c.toNat)

/-- `boost::posix_time::ptime` as `second_clock` produces it: whole seconds. -/
abbrev TimeType := Nat

end Swordfish
