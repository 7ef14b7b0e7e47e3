import ActiveDefense.Lib.Table
import ActiveDefense.Rust.Net
import ActiveDefense.Rust.Time

/-!
# Matches of a rule counted towards a ban

`ThresholdTracker` counts the matches of each rule by each source, and reports when a count reaches
the rule's threshold within its window.
-/

namespace ActiveDefense.Firewall

structure ThresholdTracker where
  counts : Table (Nat × IpAddr) (UInt32 × Instant)

namespace ThresholdTracker

/-- `ThresholdTracker::new`. -/
def new : ThresholdTracker := ⟨∅⟩

/-- `record_and_check`: counts a match and tells whether the threshold is reached, in which case
the count starts again. -/
def recordAndCheck (t : ThresholdTracker) (ruleIdx : Nat) (ip : IpAddr) (threshold : UInt32)
    (window : Duration) (now : Instant) : Bool × ThresholdTracker :=
  if threshold ≤ 1 then (true, t)
  else
    let entry := (t.counts.lookup (ruleIdx, ip)).getD (0, now)
    let entry := if window < now.durationSince entry.2 then (0, now) else entry
    let count := entry.1 + 1
    if threshold ≤ count then (true, ⟨t.counts.insert (ruleIdx, ip) (0, now)⟩)
    else (false, ⟨t.counts.insert (ruleIdx, ip) (count, entry.2)⟩)

/-- `sweep`. -/
def sweep (t : ThresholdTracker) (maxIdle : Duration) (now : Instant) : ThresholdTracker :=
  ⟨t.counts.retain fun _ e => now.durationSince e.2 < maxIdle⟩

end ThresholdTracker

end ActiveDefense.Firewall
