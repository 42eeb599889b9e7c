import AppBroker.Value.Moment

/-!
# The clock

The clock counts nanoseconds for ordering and tells the time of day. Each reading moves it on: the
count by its tick, which need not be positive, and the time by a bit more than a minute.
-/

namespace AppBroker

/-- A clock. -/
structure Clock where
  nanos : Int := 1000
  tick : Int := 7
  moment : Moment := ⟨⟨2024, 1, 2⟩, 3, 4, 5, 0, some 0⟩
  deriving DecidableEq, Repr

namespace Clock

/-- Seconds between two readings of the time. -/
def stride : Nat := 61

/-- The clock after a reading of the count. -/
def afterCount (c : Clock) : Clock := { c with nanos := c.nanos + c.tick }

/-- The clock after a reading of the time. -/
def afterNow (c : Clock) : Clock := { c with moment := c.moment.addSeconds stride }

end Clock

end AppBroker
