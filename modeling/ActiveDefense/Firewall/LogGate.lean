import ActiveDefense.Lib.Machine
import ActiveDefense.Rust.Time

/-!
# The gate before the policy log

`LogGate` lets so many log lines of a second through and counts the others, which the maintenance
loop takes for its summary line every ten seconds. A `check` in a new second sets both counters to
zero. A count that is pending then is in no summary: the gate accounts for the lines it suppressed
exactly where no second ends on a pending count (`accounted_iff`).
-/

namespace ActiveDefense.Firewall

structure LogGate where
  maxPerSec : UInt64
  windowStart : Instant
  emittedThisWindow : UInt64
  suppressedThisWindow : UInt64
deriving DecidableEq, Repr

inductive GateResult where
  | emit
  | suppress
deriving DecidableEq, Repr

namespace LogGate

/-- `LogGate::new`. -/
def new (maxPerSec : UInt64) (now : Instant) : LogGate := ⟨maxPerSec, now, 0, 0⟩

/-- Whether the window of the gate is over: `window_start.elapsed()` is a second. -/
def windowOver (g : LogGate) (now : Instant) : Prop :=
  Duration.fromSecs 1 ≤ now.durationSince g.windowStart

instance decidableWindowOver (g : LogGate) (now : Instant) : Decidable (g.windowOver now) :=
  inferInstanceAs (Decidable (_ ≤ _))

/-- `check`. The clock is read for `elapsed`, and again for the start of a new window. -/
def check (g : LogGate) (now restart : Instant) : GateResult × LogGate :=
  if g.maxPerSec = 0 then (.emit, g)
  else
    let g :=
      if g.windowOver now then
        { g with windowStart := restart, emittedThisWindow := 0, suppressedThisWindow := 0 }
      else g
    -- `fetch_add` wraps and gives the value from before
    let counted := { g with emittedThisWindow := g.emittedThisWindow + 1 }
    if g.emittedThisWindow < g.maxPerSec then (.emit, counted)
    else (.suppress, { counted with suppressedThisWindow := g.suppressedThisWindow + 1 })

/-- `take_suppressed_count`. -/
def takeSuppressedCount (g : LogGate) : UInt64 × LogGate :=
  (g.suppressedThisWindow, { g with suppressedThisWindow := 0 })

section
variable {g : LogGate} {now restart : Instant}

theorem check_of_unlimited (h : g.maxPerSec = 0) : g.check now restart = (.emit, g) := if_pos h

/-- The first line of a new window is let through. -/
theorem check_of_over (hmax : g.maxPerSec ≠ 0) (h : g.windowOver now) :
    g.check now restart = (.emit, ⟨g.maxPerSec, restart, 1, 0⟩) := by
  have hpos : (0 : UInt64) < g.maxPerSec := UInt64.pos_iff_ne_zero.mpr hmax
  simp [check, hmax, h, hpos]

/-- A line within the window is let through as long as the window has room. -/
theorem check_of_room (h : ¬ g.windowOver now) (hroom : g.emittedThisWindow < g.maxPerSec) :
    g.check now restart =
      (.emit, { g with emittedThisWindow := g.emittedThisWindow + 1 }) := by
  have hmax : g.maxPerSec ≠ 0 :=
    UInt64.pos_iff_ne_zero.mp (UInt64.lt_of_le_of_lt UInt64.zero_le hroom)
  simp [check, hmax, h, hroom]

theorem check_of_full (hmax : g.maxPerSec ≠ 0) (h : ¬ g.windowOver now)
    (hfull : g.maxPerSec ≤ g.emittedThisWindow) :
    g.check now restart =
      (.suppress, { g with
        emittedThisWindow := g.emittedThisWindow + 1
        suppressedThisWindow := g.suppressedThisWindow + 1 }) := by
  have hroom : ¬ g.emittedThisWindow < g.maxPerSec := UInt64.not_lt.mpr hfull
  simp [check, hmax, h, hroom]

end

/-- A call on the gate, with the times that the clock shows it. -/
inductive Call where
  | check (now restart : Instant)
  | takeSuppressedCount
deriving DecidableEq, Repr

/-- What a call returns. -/
inductive Reply where
  | checked (result : GateResult)
  | took (count : UInt64)
deriving DecidableEq, Repr

/-- The gate, call by call. -/
def call : Machine LogGate Call Reply := fun g c =>
  match c with
  | .check now restart => (.checked (g.check now restart).1, (g.check now restart).2)
  | .takeSuppressedCount => (.took g.takeSuppressedCount.1, g.takeSuppressedCount.2)

/-- The suppressed lines that a call returns the count of. -/
def Reply.taken : Reply → Nat
  | .took count => count.toNat
  | .checked _ => 0

/-- The lines that a call suppresses. -/
def Reply.suppressed : Reply → Nat
  | .checked .suppress => 1
  | .checked .emit => 0
  | .took _ => 0

/-- The lines that are suppressed and not taken yet. -/
def pending (g : LogGate) : Nat := g.suppressedThisWindow.toNat

/-! ## What a call loses of the count -/

/-- What a call drops of the pending count: all of it at the start of a new window, and all of it
with one more line where the counter wraps. -/
def dropped (g : LogGate) : Call → Nat
  | .check now _ =>
    if g.maxPerSec = 0 then 0
    else if g.windowOver now then g.pending
    else if g.maxPerSec ≤ g.emittedThisWindow ∧ g.pending + 1 = 2 ^ 64 then 2 ^ 64
    else 0
  | .takeSuppressedCount => 0

/-- The call drops nothing: the gate is unlimited, or the window is over and no count is pending,
or it is not over and the counter has room for one more line. -/
def Keeps (g : LogGate) : Call → Prop
  | .check now _ =>
    g.maxPerSec = 0 ∨
      if g.windowOver now then g.pending = 0
      else g.maxPerSec ≤ g.emittedThisWindow → g.pending + 1 ≠ 2 ^ 64
  | .takeSuppressedCount => True

theorem dropped_eq_zero_iff (g : LogGate) (c : Call) : g.dropped c = 0 ↔ g.Keeps c := by
  cases c with
  | check now restart =>
    simp only [dropped, Keeps]
    split
    · next h => exact iff_of_true rfl (.inl h)
    · next h =>
      rw [or_iff_right h]
      split
      · exact Iff.rfl
      · split
        · next hwrap =>
          exact iff_of_false (by decide) fun hkeeps => hkeeps hwrap.1 hwrap.2
        · next hwrap =>
          exact iff_of_true rfl fun hfull hcount => hwrap ⟨hfull, hcount⟩
  | takeSuppressedCount => exact iff_of_true rfl trivial

/-- One line more is pending, or the counter wraps. -/
theorem toNat_succ (n : UInt64) :
    (n + 1).toNat + (if n.toNat + 1 = 2 ^ 64 then 2 ^ 64 else 0) = n.toNat + 1 := by
  have hlt := n.toNat_lt
  rw [UInt64.toNat_add, UInt64.toNat_one]
  split <;> omega

/-- A call accounts for the suppressed lines up to what it drops. -/
theorem accounts : call.Accounts pending Reply.suppressed Reply.taken dropped := by
  intro g c
  cases c with
  | takeSuppressedCount =>
    simp [call, takeSuppressedCount, Reply.taken, Reply.suppressed, pending, dropped]
  | check now restart =>
    simp only [call, dropped]
    split
    · next hmax => simp [check_of_unlimited hmax, Reply.taken, Reply.suppressed]
    · next hmax =>
      split
      · next hover => simp [check_of_over hmax hover, Reply.taken, Reply.suppressed, pending]
      · next hover =>
        have hsucc := toNat_succ g.suppressedThisWindow
        rcases UInt64.lt_or_le g.emittedThisWindow g.maxPerSec with hroom | hfull
        · have hnot : ¬ g.maxPerSec ≤ g.emittedThisWindow := UInt64.not_le.mpr hroom
          simp [check_of_room hover hroom, hnot, Reply.taken, Reply.suppressed, pending]
        · rw [check_of_full hmax hover hfull]
          simp only [hfull, true_and, Reply.taken, Reply.suppressed, pending]
          omega

/-! ## The counts over a sequence of calls -/

/-- Whatever the calls and their times: the counts that were taken and the one that is pending add
up to the lines that were suppressed exactly where every call kept what was pending. -/
theorem accounted_iff (maxPerSec : UInt64) (start : Instant) (calls : List Call) :
    ((call.run (new maxPerSec start) calls).1.map Reply.taken).sum +
        (call.run (new maxPerSec start) calls).2.pending =
      ((call.run (new maxPerSec start) calls).1.map Reply.suppressed).sum ↔
    call.Each Keeps (new maxPerSec start) calls := by
  rw [accounts.balanced_iff rfl]
  exact Machine.Each.congr dropped_eq_zero_iff

/-- Two lines in one second, of which one is let through, and a third a second later. -/
theorem not_accounted :
    ¬ ∀ (maxPerSec : UInt64) (start : Instant) (calls : List Call),
      ((call.run (new maxPerSec start) calls).1.map Reply.taken).sum +
          (call.run (new maxPerSec start) calls).2.pending =
        ((call.run (new maxPerSec start) calls).1.map Reply.suppressed).sum := by
  intro h
  have hlost := h 1 0 [.check 0 0, .check 0 0, .check 1000000000 1000000000, .takeSuppressedCount]
  exact absurd hlost (by decide)

end LogGate

end ActiveDefense.Firewall
