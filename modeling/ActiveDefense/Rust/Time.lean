import ActiveDefense.Rust.Arith

/-!
# `std::time`

Readings of the monotonic clock and spans of time are nanoseconds. A `Duration` made from seconds
always exists; an `Instant` has its seconds in an `i64`, and an addition that leaves the range is a
panic.
-/

namespace ActiveDefense

/-- `Instant`: nanoseconds of the monotonic clock. -/
abbrev Instant := Nat

/-- `Duration`: nanoseconds. -/
abbrev Duration := Nat

/-- `Duration::from_secs`. -/
def Duration.fromSecs (secs : UInt64) : Duration := secs.toNat * 10 ^ 9

/-- The last `Instant` there is. -/
def Instant.last : Instant := (2 ^ 63 - 1) * 10 ^ 9 + (10 ^ 9 - 1)

/-- `Instant::duration_since`, which is zero for a later instant. -/
def Instant.durationSince (now earlier : Instant) : Duration := now - earlier

/-- `Instant + Duration`. -/
def Instant.add (t : Instant) (d : Duration) : Except Panic Instant :=
  if t + d ≤ Instant.last then .ok (t + d) else .error .overflow

end ActiveDefense
