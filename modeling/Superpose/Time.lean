/-!
# Times

A time is a 64-bit count of milliseconds. What lies between two times is counted from the earlier
one, and a clock that was set back makes no time pass at all.
-/

namespace Superpose

/-- The milliseconds from `since` to `now`, 0 if `now` comes first. -/
def elapsed (since now : UInt64) : UInt64 := if since ≤ now then now - since else 0

/-- A world in which the time can be read. Reading may itself change the world, as it does where
time passes between two readings. -/
class Clocked (ω : Type) where
  read : ω → UInt64 × ω

end Superpose
