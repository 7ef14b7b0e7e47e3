import ActiveDefense.Firewall.Threshold
import ActiveDefense.Lib.Machine
import Mathlib.Data.Finset.Card
import Mathlib.Data.Finset.Range

/-!
# The matches behind a ban

The tracker keeps one count and one start for a rule and a source, in place of the times of the
matches. The count stands for a set of matches, by their positions in the sequence (`Tallies`):
those since the last ban that no restart of the window and no sweep has discarded (`kept`). A
match of a rule with a threshold above one leads to a ban exactly if the matches that are kept reach
the threshold (`fired_iff`). All of them are within the window, and each counts towards one ban
(`fired_backed`). But the window does not roll: it begins with one match, and what is discarded when
it is over (`mem_kept_iff`) can still be within the window of a later match (`complete_iff`).
-/

namespace ActiveDefense.Firewall.ThresholdTracker

/-- A call on the tracker: a match of a rule by a source, or a sweep. -/
inductive Event where
  | matched (key : Nat × IpAddr) (threshold : UInt32) (window : Duration) (now : Instant)
  | sweep (maxIdle : Duration) (now : Instant)
deriving DecidableEq, Repr

namespace Event

def time : Event → Instant
  | matched _ _ _ now => now
  | sweep _ now => now

/-- A match of the rule by the source. -/
def isMatch (key : Nat × IpAddr) : Event → Bool
  | matched key' _ _ _ => key' = key
  | sweep _ _ => false

/-- A match that is counted: that of a rule with a threshold of one fires at once. -/
def isTracked (key : Nat × IpAddr) : Event → Bool
  | matched key' threshold _ _ => key' = key && 1 < threshold
  | sweep _ _ => false

end Event

/-- The tracker, call by call: whether the call reports a threshold that is reached. -/
def call : Machine ThresholdTracker Event Bool := fun t e =>
  match e with
  | .matched key threshold window now => t.recordAndCheck key.1 key.2 threshold window now
  | .sweep maxIdle now => (false, t.sweep maxIdle now)

/-- The call discards the count of a rule and a source: a match finds that the window started more
than its length ago, or a sweep that it started too long ago. -/
def discards (t : ThresholdTracker) (key : Nat × IpAddr) : Event → Bool
  | .matched key' threshold window now =>
    (key' = key && 1 < threshold) &&
      (t.counts.lookup key).any fun e => window < now.durationSince e.2
  | .sweep maxIdle now => (t.counts.lookup key).any fun e => maxIdle ≤ now.durationSince e.2

/-! ## What a count stands for -/

/-- An entry stands for a set of matches: its count is their number and has room for one more, and
none of them is from before its start. -/
structure StandsFor (entry : UInt32 × Instant) (time : ℕ → Instant) (ids : Finset ℕ)
    (clock : Instant) : Prop where
  count : entry.1.toNat = ids.card
  room : entry.1.toNat + 1 < 2 ^ 32
  since : ∀ j ∈ ids, entry.2 ≤ time j
  past : entry.2 ≤ clock

/-- What the tracker has for a rule and a source stands for a set of matches. -/
structure Tallies (t : ThresholdTracker) (key : Nat × IpAddr) (time : ℕ → Instant)
    (ids : Finset ℕ) (clock : Instant) : Prop where
  absent : t.counts.lookup key = none → ids = ∅
  present : ∀ entry, t.counts.lookup key = some entry → StandsFor entry time ids clock

section
variable {t : ThresholdTracker} {key key' : Nat × IpAddr} {time : ℕ → Instant} {ids : Finset ℕ}
  {threshold : UInt32} {window maxIdle : Duration} {clock now : Instant} {i : ℕ}

/-- An entry without matches. -/
theorem standsFor_empty : StandsFor (0, now) time ∅ now where
  count := rfl
  room := Nat.one_lt_two_pow (by decide)
  since j hj := absurd hj (Finset.notMem_empty j)
  past := Nat.le_refl now

theorem StandsFor.later {entry : UInt32 × Instant} (h : StandsFor entry time ids clock)
    (hle : clock ≤ now) : StandsFor entry time ids now :=
  { h with past := h.past.trans hle }

theorem tallies_new : new.Tallies key time ∅ clock where
  absent _ := rfl
  present entry h := by cases h

/-- The entry alone decides. -/
theorem Tallies.congr {t' : ThresholdTracker} (h : t.Tallies key time ids clock)
    (heq : t'.counts.lookup key = t.counts.lookup key) (hle : clock ≤ now) :
    t'.Tallies key time ids now where
  absent hnone := h.absent (heq ▸ hnone)
  present entry hsome := (h.present entry (heq ▸ hsome)).later hle

/-- A new entry. -/
theorem tallies_insert {entry : UInt32 × Instant} (h : StandsFor entry time ids clock) :
    Tallies ⟨t.counts.insert key entry⟩ key time ids clock where
  absent hnone := by
    rw [AList.lookup_insert] at hnone
    cases hnone
  present entry' hsome := by
    rw [AList.lookup_insert] at hsome
    cases hsome
    exact h

/-- A sweep discards the entry or leaves it. -/
theorem Tallies.sweep (h : t.Tallies key time ids clock) (hle : clock ≤ now) :
    (t.sweep maxIdle now).Tallies key time
      (if t.discards key (.sweep maxIdle now) then ∅ else ids) now := by
  cases hentry : t.counts.lookup key with
  | none =>
    have hgone : (t.sweep maxIdle now).counts.lookup key = none := by
      rw [Option.eq_none_iff_forall_ne_some]
      intro entry he
      cases hentry.symm.trans (Table.lookup_retain.mp he).1
    simp only [discards, hentry, Option.any_none, Bool.false_eq_true, if_false]
    exact h.congr (hgone.trans hentry.symm) hle
  | some entry =>
    simp only [discards, hentry, Option.any_some, decide_eq_true_eq]
    split
    · next hold =>
      refine ⟨fun _ => rfl, fun entry' he' => ?_⟩
      obtain ⟨hlookup, hkeep⟩ := Table.lookup_retain.mp he'
      cases hentry.symm.trans hlookup
      exact absurd (of_decide_eq_true hkeep) (Nat.not_lt.mpr hold)
    · next hnew =>
      refine h.congr (Eq.trans ?_ hentry.symm) hle
      exact Table.lookup_retain.mpr ⟨hentry, decide_eq_true (Nat.not_le.mp hnew)⟩

/-- A match of another rule or source leaves the entry. -/
theorem lookup_recordAndCheck_of_ne (hne : key' ≠ key) :
    (t.recordAndCheck key.1 key.2 threshold window now).2.counts.lookup key' =
      t.counts.lookup key' := by
  unfold recordAndCheck
  split
  · rfl
  · dsimp only
    split <;> split <;> exact AList.lookup_insert_ne hne

variable (key) in
/-- The fast path. -/
theorem recordAndCheck_of_le_one (h : threshold ≤ 1) :
    t.recordAndCheck key.1 key.2 threshold window now = (true, t) := if_pos h

/-- The entry that a match is counted in: the one there is, or a new one where there is none or its
window is over. -/
def openEntry (t : ThresholdTracker) (key : Nat × IpAddr) (window : Duration) (now : Instant) :
    UInt32 × Instant :=
  let entry := (t.counts.lookup key).getD (0, now)
  if window < now.durationSince entry.2 then (0, now) else entry

variable (key) in
/-- The slow path. -/
theorem recordAndCheck_eq (h : 1 < threshold) :
    t.recordAndCheck key.1 key.2 threshold window now =
      if threshold ≤ (t.openEntry key window now).1 + 1 then
        (true, ⟨t.counts.insert key (0, now)⟩)
      else
        (false, ⟨t.counts.insert key
          ((t.openEntry key window now).1 + 1, (t.openEntry key window now).2)⟩) := by
  rw [recordAndCheck, if_neg (UInt32.not_le.mpr h)]
  rfl

variable (window) in
/-- It stands for what is not discarded, and its window is not over. -/
theorem Tallies.openEntry (h : t.Tallies key time ids clock) (hthreshold : 1 < threshold)
    (hle : clock ≤ now) :
    StandsFor (t.openEntry key window now) time
        (if t.discards key (.matched key threshold window now) then ∅ else ids) now ∧
      now ≤ window + (t.openEntry key window now).2 := by
  simp only [ThresholdTracker.openEntry, discards, hthreshold, decide_true, Bool.and_self,
    Bool.true_and]
  cases hentry : t.counts.lookup key with
  | none =>
    simp only [h.absent hentry, Option.getD_none, ite_self]
    exact ⟨standsFor_empty, Nat.le_add_left now window⟩
  | some entry =>
    simp only [Option.any_some, decide_eq_true_eq, Option.getD_some]
    split
    · exact ⟨standsFor_empty, Nat.le_add_left now window⟩
    · next hnew =>
      exact ⟨(h.present entry hentry).later hle, Nat.sub_le_iff_le_add.mp (Nat.not_lt.mp hnew)⟩

/-- The matches that count with a new one: those of the entry, unless they are discarded. -/
def counting (t : ThresholdTracker) (key : Nat × IpAddr) (e : Event) (ids : Finset ℕ) (i : ℕ) :
    Finset ℕ :=
  insert i (if t.discards key e then ∅ else ids)

/-- They are within the window. -/
theorem Tallies.within_window (h : t.Tallies key time ids clock) (hthreshold : 1 < threshold)
    (hle : clock ≤ now) (htime : time i = now) {j : ℕ}
    (hj : j ∈ t.counting key (.matched key threshold window now) ids i) :
    now ≤ window + time j := by
  obtain ⟨hstands, hwindow⟩ := h.openEntry window hthreshold hle
  rcases Finset.mem_insert.mp hj with rfl | hj
  · exact htime ▸ Nat.le_add_left now window
  · exact hwindow.trans (Nat.add_le_add_left (hstands.since j hj) window)

/-- A match that is counted: it fires exactly if the matches that count with it reach the threshold,
and then the count starts again. -/
theorem Tallies.recordAndCheck (h : t.Tallies key time ids clock) (hthreshold : 1 < threshold)
    (hle : clock ≤ now) (hi : i ∉ ids) (htime : time i = now) {counts : Finset ℕ}
    (hcounts : t.counting key (.matched key threshold window now) ids i = counts) :
    (t.recordAndCheck key.1 key.2 threshold window now).1 =
        decide (threshold.toNat ≤ counts.card) ∧
      (t.recordAndCheck key.1 key.2 threshold window now).2.Tallies key time
        (if threshold.toNat ≤ counts.card then ∅ else counts) now := by
  obtain ⟨hstands, -⟩ := h.openEntry window hthreshold hle
  subst hcounts
  rw [recordAndCheck_eq key hthreshold, counting]
  generalize t.openEntry key window now = entry at hstands
  have hbase : i ∉ if t.discards key (.matched key threshold window now) then ∅ else ids := by
    split
    · exact Finset.notMem_empty i
    · exact hi
  generalize (if t.discards key (.matched key threshold window now) then ∅ else ids) = base
    at hstands hbase
  have hsucc : (entry.1 + 1).toNat = (insert i base).card := by
    rw [UInt32.toNat_add, UInt32.toNat_one, Nat.mod_eq_of_lt hstands.room,
      Finset.card_insert_of_notMem hbase, hstands.count]
  simp only [← hsucc, ← UInt32.le_iff_toNat_le]
  split
  · next hreached => exact ⟨(decide_eq_true hreached).symm, tallies_insert standsFor_empty⟩
  · next hreached =>
    have hlt : (entry.1 + 1).toNat < threshold.toNat :=
      UInt32.lt_iff_toNat_lt.mp (UInt32.not_le.mp hreached)
    have hroom := threshold.toNat_lt
    refine ⟨(decide_eq_false hreached).symm,
      tallies_insert ⟨hsucc, ?_, fun j hj => ?_, hstands.past⟩⟩
    · dsimp only
      omega
    · rcases Finset.mem_insert.mp hj with rfl | hj
      · exact hstands.past.trans htime.ge
      · exact hstands.since j hj

end

/-! ## Sequences of calls -/

section
variable (events : List Event)

/-- The tracker before the call at a position. -/
def before (n : ℕ) : ThresholdTracker := call.stateAt new events n

/-- The call at a position reports a threshold that is reached. -/
def firedAt (n : ℕ) : Bool := events[n]?.any fun e => (call (before events n) e).1

/-- The call at a position is a match that is counted. -/
def trackedAt (key : Nat × IpAddr) (n : ℕ) : Bool := events[n]?.any fun e => e.isTracked key

/-- The call at a position discards the count. -/
def discardedAt (key : Nat × IpAddr) (n : ℕ) : Bool :=
  events[n]?.any fun e => (before events n).discards key e

def timeAt (n : ℕ) : Instant := (events[n]?.map Event.time).getD 0

/-- The matches before a position that the entry stands for there: none since has fired, and nothing
has discarded them. -/
def counted (key : Nat × IpAddr) (n : ℕ) : Finset ℕ :=
  (Finset.range n).filter fun j =>
    trackedAt events key j = true ∧
      (∀ m < n, j ≤ m → trackedAt events key m = true → firedAt events m = false) ∧
      ∀ m < n, j < m → discardedAt events key m = false

/-- The matches up to a position that count there: as before, but the position itself may fire. -/
def kept (key : Nat × IpAddr) (n : ℕ) : Finset ℕ :=
  (Finset.range (n + 1)).filter fun j =>
    trackedAt events key j = true ∧
      (∀ m < n, j ≤ m → trackedAt events key m = true → firedAt events m = false) ∧
      ∀ m < n + 1, j < m → discardedAt events key m = false

end

section
variable {events : List Event} {key : Nat × IpAddr} {n : ℕ} {e : Event}

theorem before_succ (h : events[n]? = some e) :
    before events (n + 1) = (call (before events n) e).2 := Machine.stateAt_succ h

theorem firedAt_of_getElem? (h : events[n]? = some e) :
    firedAt events n = (call (before events n) e).1 := by
  rw [firedAt, h, Option.any_some]

variable (key) in
theorem trackedAt_of_getElem? (h : events[n]? = some e) :
    trackedAt events key n = e.isTracked key := by
  rw [trackedAt, h, Option.any_some]

/-- A match of a rule with a threshold above one is counted. -/
theorem trackedAt_of_matched {threshold : UInt32} {window : Duration} {now : Instant}
    (h : events[n]? = some (.matched key threshold window now)) (hthreshold : 1 < threshold) :
    trackedAt events key n = true := by
  rw [trackedAt_of_getElem? _ h]
  simp [Event.isTracked, hthreshold]

theorem discardedAt_of_getElem? (h : events[n]? = some e) :
    discardedAt events key n = (before events n).discards key e := by
  rw [discardedAt, h, Option.any_some]

theorem timeAt_of_getElem? (h : events[n]? = some e) : timeAt events n = e.time := by
  rw [timeAt, h]
  rfl

/-- A call that is no such match adds nothing to what is counted. -/
theorem counted_succ_of_not_tracked (h : trackedAt events key n = false) :
    counted events key (n + 1) = if discardedAt events key n then ∅ else counted events key n := by
  ext j
  simp only [counted, Finset.mem_filter, Finset.mem_range]
  constructor
  · rintro ⟨hj, htracked, hfired, hdiscarded⟩
    have hlt : j < n := by
      rcases Nat.lt_succ_iff_lt_or_eq.mp hj with hlt | rfl
      · exact hlt
      · rw [h] at htracked
        cases htracked
    rw [if_neg (by rw [hdiscarded n (Nat.lt_succ_self n) hlt]; exact Bool.false_ne_true)]
    exact Finset.mem_filter.mpr ⟨Finset.mem_range.mpr hlt, htracked,
      fun m hm => hfired m (by omega), fun m hm => hdiscarded m (by omega)⟩
  · intro hj
    split at hj
    · exact absurd hj (Finset.notMem_empty j)
    · next hkept =>
      obtain ⟨hlt, htracked, hfired, hdiscarded⟩ := Finset.mem_filter.mp hj
      have hlt := Finset.mem_range.mp hlt
      refine ⟨by omega, htracked, fun m hm hjm hm' => ?_, fun m hm hjm => ?_⟩
      · rcases Nat.lt_succ_iff_lt_or_eq.mp hm with hm | rfl
        · exact hfired m hm hjm hm'
        · rw [h] at hm'
          cases hm'
      · rcases Nat.lt_succ_iff_lt_or_eq.mp hm with hm | rfl
        · exact hdiscarded m hm hjm
        · exact Bool.not_eq_true _ ▸ hkept

/-- A match that is counted counts with those that are not discarded. -/
theorem kept_eq_counting (h : events[n]? = some e) (htracked : trackedAt events key n = true) :
    (before events n).counting key e (counted events key n) n = kept events key n := by
  ext j
  rw [counting, ← discardedAt_of_getElem? h, Finset.mem_insert]
  simp only [kept, Finset.mem_filter, Finset.mem_range]
  constructor
  · rintro (rfl | hj)
    · exact ⟨Nat.lt_succ_self j, htracked, fun m hm hjm => absurd hjm (by omega),
        fun m hm hjm => absurd hjm (by omega)⟩
    · split at hj
      · exact absurd hj (Finset.notMem_empty j)
      · next hkept =>
        obtain ⟨hlt, hj, hfired, hdiscarded⟩ := Finset.mem_filter.mp hj
        have hlt := Finset.mem_range.mp hlt
        refine ⟨by omega, hj, hfired, fun m hm hjm => ?_⟩
        rcases Nat.lt_succ_iff_lt_or_eq.mp hm with hm | rfl
        · exact hdiscarded m hm hjm
        · exact Bool.not_eq_true _ ▸ hkept
  · rintro ⟨hj, hj', hfired, hdiscarded⟩
    rcases Nat.lt_succ_iff_lt_or_eq.mp hj with hlt | rfl
    · right
      rw [if_neg (by rw [hdiscarded n (Nat.lt_succ_self n) hlt]; exact Bool.false_ne_true)]
      exact Finset.mem_filter.mpr ⟨Finset.mem_range.mpr hlt, hj', hfired,
        fun m hm => hdiscarded m (by omega)⟩
    · exact .inl rfl

/-- After a match that fires nothing is counted; after another one, all that counted with it. -/
theorem counted_succ_of_tracked (htracked : trackedAt events key n = true) :
    counted events key (n + 1) = if firedAt events n then ∅ else kept events key n := by
  ext j
  simp only [counted, Finset.mem_filter, Finset.mem_range]
  constructor
  · rintro ⟨hj, hj', hfired, hdiscarded⟩
    have hn := hfired n (Nat.lt_succ_self n) (by omega) htracked
    rw [if_neg (by rw [hn]; exact Bool.false_ne_true)]
    exact Finset.mem_filter.mpr ⟨Finset.mem_range.mpr hj, hj', fun m hm => hfired m (by omega),
      hdiscarded⟩
  · intro hj
    split at hj
    · exact absurd hj (Finset.notMem_empty j)
    · next hn =>
      obtain ⟨hlt, hj', hfired, hdiscarded⟩ := Finset.mem_filter.mp hj
      refine ⟨Finset.mem_range.mp hlt, hj', fun m hm hjm hm' => ?_, hdiscarded⟩
      rcases Nat.lt_succ_iff_lt_or_eq.mp hm with hm | rfl
      · exact hfired m hm hjm hm'
      · exact Bool.not_eq_true _ ▸ hn

/-- The times of the calls do not decrease. -/
def Sorted (events : List Event) : Prop := (events.map Event.time).Pairwise (· ≤ ·)

theorem Sorted.timeAt_le (h : Sorted events) {j : ℕ} (hj : j < n) (hn : n < events.length) :
    timeAt events j ≤ timeAt events n := by
  have hjlen : j < events.length := hj.trans hn
  have hle := List.pairwise_iff_getElem.mp h j n (by simpa using hjlen) (by simpa using hn) hj
  rw [List.getElem_map, List.getElem_map] at hle
  rwa [timeAt_of_getElem? (List.getElem?_eq_getElem hjlen),
    timeAt_of_getElem? (List.getElem?_eq_getElem hn)]

theorem not_mem_counted : n ∉ counted events key n := fun h =>
  absurd (Finset.mem_range.mp (Finset.mem_filter.mp h).1) (Nat.lt_irrefl n)

/-- A match that is counted fires exactly if the matches that count with it reach the threshold. -/
theorem Tallies.firedAt_eq {threshold : UInt32} {window : Duration} {clock now : Instant}
    (htallies : (before events n).Tallies key (timeAt events) (counted events key n) clock)
    (h : events[n]? = some (.matched key threshold window now)) (hle : clock ≤ now)
    (hthreshold : 1 < threshold) :
    firedAt events n = decide (threshold.toNat ≤ (kept events key n).card) := by
  rw [firedAt_of_getElem? h]
  exact (htallies.recordAndCheck hthreshold hle not_mem_counted (timeAt_of_getElem? h)
    (kept_eq_counting h (trackedAt_of_matched h hthreshold))).1

/-- A match of another rule or source, or one that is not counted, leaves the entry. -/
theorem lookup_call_of_not_tracked {t : ThresholdTracker} {key' : Nat × IpAddr}
    {threshold : UInt32} {window : Duration} {now : Instant}
    (h : (Event.matched key' threshold window now).isTracked key = false) :
    (call t (.matched key' threshold window now)).2.counts.lookup key = t.counts.lookup key := by
  rcases Bool.and_eq_false_iff.mp h with hkey | hthreshold
  · exact lookup_recordAndCheck_of_ne (Ne.symm (of_decide_eq_false hkey))
  · have hone : threshold ≤ 1 := UInt32.not_lt.mp (of_decide_eq_false hthreshold)
    simp only [ThresholdTracker.call, recordAndCheck_of_le_one key' hone]

/-- A call leaves what the tracker has standing for the matches that are counted after it. -/
theorem Tallies.call {clock : Instant} (h : events[n]? = some e) (hle : clock ≤ e.time)
    (htallies : (before events n).Tallies key (timeAt events) (counted events key n) clock) :
    (before events (n + 1)).Tallies key (timeAt events) (counted events key (n + 1)) e.time := by
  have htracked := trackedAt_of_getElem? key h
  cases e with
  | sweep maxIdle now =>
    rw [before_succ h, counted_succ_of_not_tracked htracked, discardedAt_of_getElem? h]
    exact htallies.sweep hle
  | matched key' threshold window now =>
    rcases hcase : decide (key' = key) && decide (1 < threshold) with _ | _
    · have hsame : (before events (n + 1)).counts.lookup key =
          (before events n).counts.lookup key := by
        rw [before_succ h]
        exact lookup_call_of_not_tracked hcase
      have hkept : discardedAt events key n = false := by
        rw [discardedAt_of_getElem? h, discards, hcase, Bool.false_and]
      rw [counted_succ_of_not_tracked (htracked.trans hcase), hkept]
      exact htallies.congr hsame hle
    · obtain ⟨hkey, hthreshold⟩ := (Bool.and_eq_true _ _).mp hcase
      cases of_decide_eq_true hkey
      have hthreshold := of_decide_eq_true hthreshold
      rw [counted_succ_of_tracked (htracked.trans hcase), before_succ h,
        htallies.firedAt_eq h hle hthreshold]
      simp only [decide_eq_true_eq]
      exact (htallies.recordAndCheck hthreshold hle not_mem_counted (timeAt_of_getElem? h)
        (kept_eq_counting h (htracked.trans hcase))).2

/-- Before each call the tracker stands for the matches that are counted there. -/
theorem tallies_before (hsorted : Sorted events) (hn : n ≤ events.length) {now : Instant}
    (hnow : ∀ j < n, timeAt events j ≤ now) :
    (before events n).Tallies key (timeAt events) (counted events key n) now := by
  induction n generalizing now with
  | zero =>
    rw [before, Machine.stateAt_zero]
    exact tallies_new
  | succ n ih =>
    have he := List.getElem?_eq_getElem (Nat.lt_of_succ_le hn)
    have htime := timeAt_of_getElem? he
    have hpast : ∀ j < n, timeAt events j ≤ timeAt events n := fun j hj =>
      hsorted.timeAt_le hj (Nat.lt_of_succ_le hn)
    have hafter := Tallies.call he htime.le (ih (Nat.le_of_succ_le hn) hpast)
    exact hafter.congr rfl (htime ▸ hnow n (Nat.lt_succ_self n))

theorem lt_length (h : events[n]? = some e) : n < events.length :=
  (List.getElem?_eq_some_iff.mp h).1

/-- At each call the tracker stands for the matches that are counted there. -/
theorem tallies_at (hsorted : Sorted events) (h : events[n]? = some e) :
    (before events n).Tallies key (timeAt events) (counted events key n) e.time :=
  tallies_before hsorted (lt_length h).le fun _ hj =>
    timeAt_of_getElem? h ▸ hsorted.timeAt_le hj (lt_length h)

variable {threshold : UInt32} {window : Duration} {now : Instant}

/-- A match of a rule with a threshold above one fires exactly if the matches that are kept reach
the threshold. -/
theorem fired_iff (hsorted : Sorted events)
    (h : events[n]? = some (.matched key threshold window now)) (hthreshold : 1 < threshold) :
    firedAt events n = true ↔ threshold.toNat ≤ (kept events key n).card := by
  rw [(tallies_at hsorted h).firedAt_eq h (Nat.le_refl now) hthreshold, decide_eq_true_eq]

/-- Without one it fires at once. -/
theorem fired_of_le_one (h : events[n]? = some (.matched key threshold window now))
    (hthreshold : threshold ≤ 1) : firedAt events n = true := by
  rw [firedAt_of_getElem? h]
  exact congrArg Prod.fst (recordAndCheck_of_le_one key hthreshold)

theorem exists_of_tracked {j : ℕ} (h : trackedAt events key j = true) :
    ∃ threshold window now, events[j]? = some (.matched key threshold window now) := by
  obtain ⟨e, he, htracked⟩ := (Option.any_eq_true _ _).mp h
  cases e with
  | matched key' threshold window now =>
    have hkey := of_decide_eq_true ((Bool.and_eq_true _ _).mp htracked).1
    subst hkey
    exact ⟨threshold, window, now, he⟩
  | sweep maxIdle now => cases htracked

/-- A position is a counted match of one rule and source. -/
theorem tracked_unique {key' : Nat × IpAddr} {j : ℕ} (h : trackedAt events key j = true)
    (h' : trackedAt events key' j = true) : key = key' := by
  obtain ⟨_, _, _, hj⟩ := exists_of_tracked h
  obtain ⟨_, _, _, hj'⟩ := exists_of_tracked h'
  cases hj.symm.trans hj'
  rfl

end

/-! ## What a ban rests on -/

section
variable (events : List Event)

/-- The matches that the report at a position rests on: those that are kept, or the one at the
position where the threshold is one. -/
def evidence (n : ℕ) : Finset ℕ :=
  match events[n]? with
  | some (.matched key threshold _ _) => if 1 < threshold then kept events key n else {n}
  | _ => ∅

variable {events} {n i j : ℕ} {key : Nat × IpAddr} {threshold : UInt32} {window : Duration}
  {now : Instant}

theorem evidence_of_tracked (h : events[n]? = some (.matched key threshold window now))
    (hthreshold : 1 < threshold) : evidence events n = kept events key n := by
  rw [evidence, h]
  exact if_pos hthreshold

theorem evidence_of_le_one (h : events[n]? = some (.matched key threshold window now))
    (hthreshold : threshold ≤ 1) : evidence events n = {n} := by
  rw [evidence, h]
  exact if_neg (UInt32.not_lt.mpr hthreshold)

/-- A match in the evidence of a position is that position, or was counted there and not spent
before. -/
theorem mem_evidence (h : j ∈ evidence events n) :
    j ≤ n ∧ (j = n ∨ ∃ key, trackedAt events key j = true ∧ trackedAt events key n = true ∧
      ∀ m < n, j ≤ m → trackedAt events key m = true → firedAt events m = false) := by
  unfold evidence at h
  split at h
  · next key threshold window now hn =>
    split at h
    · next hthreshold =>
      obtain ⟨hj, htracked, hfired, -⟩ := Finset.mem_filter.mp h
      exact ⟨Nat.le_of_lt_succ (Finset.mem_range.mp hj),
        .inr ⟨key, htracked, trackedAt_of_matched hn hthreshold, hfired⟩⟩
    · cases Finset.mem_singleton.mp h
      exact ⟨Nat.le_refl n, .inl rfl⟩
  · exact absurd h (Finset.notMem_empty j)

/-- What one report rests on, no later one does. -/
theorem disjoint_evidence (hlt : i < n) (hfired : firedAt events i = true) :
    Disjoint (evidence events i) (evidence events n) := by
  rw [Finset.disjoint_left]
  intro j hi hn
  obtain ⟨hle, hspent⟩ := mem_evidence hi
  obtain ⟨-, hnew⟩ := mem_evidence hn
  rcases hnew with rfl | ⟨key, hj, -, hfree⟩
  · exact absurd hlt (Nat.not_lt.mpr hle)
  · have htracked : trackedAt events key i = true := by
      rcases hspent with rfl | ⟨key', hj', hi', -⟩
      · exact hj
      · rw [tracked_unique hj hj']
        exact hi'
    exact Bool.false_ne_true ((hfree i hlt hle htracked).symm.trans hfired)

end

/-- Whatever the matches and the sweeps, at times that do not decrease: each report of a threshold
that is reached rests on as many matches of the rule by the source, up to the one that is reported
and within its window, and no match is part of what two reports rest on. -/
theorem fired_backed {events : List Event} (hsorted : Sorted events) :
    ∃ evidence : ℕ → Finset ℕ,
      (∀ n key threshold window now, events[n]? = some (.matched key threshold window now) →
        firedAt events n = true →
          threshold.toNat ≤ (evidence n).card ∧
          ∀ j ∈ evidence n, j ≤ n ∧ ∃ threshold' window' now',
            events[j]? = some (.matched key threshold' window' now') ∧
              now' ≤ now ∧ now ≤ window + now') ∧
      ∀ i n, i ≠ n → firedAt events i = true → firedAt events n = true →
        Disjoint (evidence i) (evidence n) := by
  refine ⟨evidence events, fun n key threshold window now h hfired => ?_, fun i n hne hi hn => ?_⟩
  · rcases UInt32.lt_or_le 1 threshold with hthreshold | hthreshold
    · rw [evidence_of_tracked h hthreshold]
      refine ⟨(fired_iff hsorted h hthreshold).mp hfired, fun j hj => ?_⟩
      obtain ⟨hle, htracked, -, -⟩ := Finset.mem_filter.mp hj
      have hle := Nat.le_of_lt_succ (Finset.mem_range.mp hle)
      obtain ⟨threshold', window', now', he⟩ := exists_of_tracked htracked
      refine ⟨hle, threshold', window', now', he, ?_, ?_⟩
      · have htime : timeAt events j ≤ timeAt events n := by
          rcases hle.lt_or_eq with hlt | rfl
          · exact hsorted.timeAt_le hlt (lt_length h)
          · exact Nat.le_refl _
        rwa [timeAt_of_getElem? he, timeAt_of_getElem? h] at htime
      · rw [← kept_eq_counting h (trackedAt_of_matched h hthreshold)] at hj
        have hwithin := (tallies_at hsorted h).within_window hthreshold (Nat.le_refl now)
          (timeAt_of_getElem? h) hj
        rwa [timeAt_of_getElem? he] at hwithin
    · rw [evidence_of_le_one h hthreshold]
      refine ⟨UInt32.le_iff_toNat_le.mp hthreshold, fun j hj => ?_⟩
      cases Finset.mem_singleton.mp hj
      exact ⟨Nat.le_refl n, threshold, window, now, h, Nat.le_refl now,
        Nat.le_add_left now window⟩
  · rcases Nat.lt_or_gt_of_ne hne with hlt | hlt
    · exact disjoint_evidence hlt hi
    · exact (disjoint_evidence hlt hn).symm

/-- Three matches of a rule by a source, within ten seconds. -/
def sampleMatches : List Event :=
  [0, 4, 9].map fun secs => .matched (0, .v4 1) 3 (10 * 10 ^ 9) (secs * 10 ^ 9)

/-- The third of them is reported. -/
theorem fired_backed_sample :
    firedAt sampleMatches 2 = true ∧
    ∃ evidence : ℕ → Finset ℕ,
      (∀ n key threshold window now,
        sampleMatches[n]? = some (.matched key threshold window now) →
        firedAt sampleMatches n = true →
          threshold.toNat ≤ (evidence n).card ∧
          ∀ j ∈ evidence n, j ≤ n ∧ ∃ threshold' window' now',
            sampleMatches[j]? = some (.matched key threshold' window' now') ∧
              now' ≤ now ∧ now ≤ window + now') ∧
      ∀ i n, i ≠ n → firedAt sampleMatches i = true → firedAt sampleMatches n = true →
        Disjoint (evidence i) (evidence n) :=
  ⟨by decide, fired_backed (by unfold Sorted; decide)⟩

/-! ## What is kept, by the times of the calls -/

/-- A window that began then is over at the call: it is a match with a shorter window, or a sweep
that allows no longer time. -/
def Event.ends (key : Nat × IpAddr) (start : Instant) : Event → Bool
  | matched key' threshold window now =>
    (key' = key && 1 < threshold) && window < now.durationSince start
  | sweep maxIdle now => maxIdle ≤ now.durationSince start

/-- The call at a position ends a window that began then. -/
def endsAt (events : List Event) (key : Nat × IpAddr) (n : ℕ) (start : Instant) : Bool :=
  events[n]?.any fun e => e.ends key start

/-- The match that the window began with, after so many calls: one that was reported, or else the
first one after the window before was over. -/
def opener (events : List Event) (key : Nat × IpAddr) : ℕ → Option ℕ
  | 0 => none
  | n + 1 =>
    let current := (opener events key n).filter fun i => !endsAt events key n (timeAt events i)
    if trackedAt events key n then
      if firedAt events n then some n else some (current.getD n)
    else current

section
variable {events : List Event} {key : Nat × IpAddr} {n j : ℕ} {e : Event}

theorem endsAt_of_getElem? (h : events[n]? = some e) (start : Instant) :
    endsAt events key n start = e.ends key start := by
  rw [endsAt, h, Option.any_some]

/-- A call discards the entry whose window is over. -/
theorem discards_eq (t : ThresholdTracker) :
    t.discards key e = (t.counts.lookup key).any fun entry => e.ends key entry.2 := by
  cases e with
  | sweep maxIdle now => rfl
  | matched key' threshold window now =>
    simp only [discards, Event.ends]
    cases t.counts.lookup key with
    | none => exact Bool.and_false _
    | some entry => rfl

/-- The window after a call begins where the one before did, if it is not over. -/
theorem start_recordAndCheck {t : ThresholdTracker} {threshold : UInt32} {window : Duration}
    {now : Instant} (hthreshold : 1 < threshold) :
    ((t.recordAndCheck key.1 key.2 threshold window now).2.counts.lookup key).map (·.2) =
      if (t.recordAndCheck key.1 key.2 threshold window now).1 then some now
      else some ((((t.counts.lookup key).map (·.2)).filter fun start =>
        !(Event.matched key threshold window now).ends key start).getD now) := by
  rw [recordAndCheck_eq key hthreshold]
  split
  · rw [AList.lookup_insert]
    rfl
  · rw [AList.lookup_insert, openEntry]
    simp only [Event.ends, hthreshold, decide_true, Bool.true_and]
    cases t.counts.lookup key with
    | none => simp [Instant.durationSince]
    | some entry =>
      by_cases hover : window < now.durationSince entry.2
      · simp [Option.filter_some, hover]
      · simp [Option.filter_some, hover]

/-- After a sweep the window is the one before, if it is not over. -/
theorem start_sweep {t : ThresholdTracker} {maxIdle : Duration} {now : Instant} :
    ((t.sweep maxIdle now).counts.lookup key).map (·.2) =
      ((t.counts.lookup key).map (·.2)).filter fun start =>
        !(Event.sweep maxIdle now).ends key start := by
  have hlookup : (t.sweep maxIdle now).counts.lookup key =
      (t.counts.lookup key).filter fun entry => !(Event.sweep maxIdle now).ends key entry.2 := by
    refine Option.ext fun entry => ?_
    rw [Option.filter_eq_some_iff]
    refine Table.lookup_retain.trans (and_congr_right fun _ => ?_)
    simp [Event.ends]
  rw [hlookup, Option.filter_map]
  rfl

/-- A match that is not counted ends no window. -/
theorem ends_of_not_tracked {key' : Nat × IpAddr} {threshold : UInt32} {window : Duration}
    {now : Instant} (h : (Event.matched key' threshold window now).isTracked key = false)
    (start : Instant) : (Event.matched key' threshold window now).ends key start = false := by
  have hboth : (decide (key' = key) && decide (1 < threshold)) = false := h
  rw [Event.ends, hboth, Bool.false_and]

/-- The window that is open is left by a call that does not end it. -/
theorem map_filter_opener (he : events[n]? = some e)
    (h : ((before events n).counts.lookup key).map (·.2) =
      (opener events key n).map (timeAt events)) :
    ((opener events key n).filter fun i => !endsAt events key n (timeAt events i)).map
        (timeAt events) =
      (((before events n).counts.lookup key).map (·.2)).filter fun start => !e.ends key start := by
  rw [h, Option.filter_map]
  simp only [endsAt_of_getElem? he]
  rfl

/-- The start of the window is the time of the match that it began with. -/
theorem start_before :
    ((before events n).counts.lookup key).map (·.2) = (opener events key n).map (timeAt events) := by
  induction n with
  | zero => rfl
  | succ n ih =>
    rw [opener]
    cases he : events[n]? with
    | none =>
      have hsame : before events (n + 1) = before events n := Machine.stateAt_succ_of_none he
      have hall : (opener events key n).filter (fun i => !endsAt events key n (timeAt events i)) =
          opener events key n := by
        simp only [endsAt, he, Option.any_none, Bool.not_false]
        cases opener events key n <;> rfl
      simp [hsame, ih, trackedAt, he, hall]
    | some e =>
      have hfilter := map_filter_opener he ih
      rw [before_succ he, trackedAt_of_getElem? key he, firedAt_of_getElem? he]
      cases e with
      | sweep maxIdle now => exact start_sweep.trans hfilter.symm
      | matched key' threshold window now =>
        cases htracked : (Event.matched key' threshold window now).isTracked key with
        | false =>
          rw [lookup_call_of_not_tracked htracked]
          refine Eq.trans ?_ hfilter.symm
          simp only [ends_of_not_tracked htracked, Bool.not_false]
          cases ((before events n).counts.lookup key).map (·.2) <;> rfl
        | true =>
          obtain ⟨hkey, hthreshold⟩ := (Bool.and_eq_true _ _).mp htracked
          cases of_decide_eq_true hkey
          refine (start_recordAndCheck (of_decide_eq_true hthreshold)).trans ?_
          have hcall : call (before events n) (.matched key threshold window now) =
              (before events n).recordAndCheck key.1 key.2 threshold window now := rfl
          have htime : timeAt events n = now := timeAt_of_getElem? he
          rw [← hfilter, if_pos rfl, hcall]
          split
          · rw [Option.map_some, htime]
          · rw [Option.map_some, ← htime, Option.getD_map]

/-- A call discards what is counted if the window is over there. -/
theorem discardedAt_eq : discardedAt events key n =
    (opener events key n).any fun i => endsAt events key n (timeAt events i) := by
  cases he : events[n]? with
  | none => simp [discardedAt, endsAt, he]
  | some e =>
    have hstart : ((before events n).counts.lookup key).map (·.2) =
        (opener events key n).map (timeAt events) := start_before
    rw [discardedAt_of_getElem? he, discards_eq]
    simp only [endsAt_of_getElem? he]
    have hany : ((before events n).counts.lookup key).any (fun entry => e.ends key entry.2) =
        (((before events n).counts.lookup key).map (·.2)).any (e.ends key) := by
      rw [Option.any_map]
    rw [hany, hstart, Option.any_map]

/-- The matches that are kept at a position are those since the last report at which no call since
has found that the window was over. -/
theorem mem_kept_iff : j ∈ kept events key n ↔ j ≤ n ∧ trackedAt events key j = true ∧
    (∀ m < n, j ≤ m → trackedAt events key m = true → firedAt events m = false) ∧
    ∀ m ≤ n, j < m → ∀ i, opener events key m = some i →
      endsAt events key m (timeAt events i) = false := by
  simp only [kept, Finset.mem_filter, Finset.mem_range, Nat.lt_succ_iff, discardedAt_eq,
    Option.any_eq_false]

end

/-! ## What a rolling window would report -/

/-- The matches of a rule by a source since the last report for them that are within a window
before `now`. -/
def recent (events : List Event) (key : Nat × IpAddr) (window : Duration) (now : Instant) (n : ℕ) :
    Finset ℕ :=
  (Finset.range (n + 1)).filter fun j =>
    (events[j]?.any fun e => e.isMatch key && decide (now.durationSince e.time ≤ window)) = true ∧
      ∀ m < n, j ≤ m → (events[m]?.any fun e => e.isMatch key) = true → firedAt events m = false

/-- Each match that has the threshold in the window before it is reported, exactly if in each such
case the matches that no restart of the window and no sweep has discarded reach the threshold. -/
theorem complete_iff {events : List Event} (hsorted : Sorted events) :
    (∀ n key threshold window now, events[n]? = some (.matched key threshold window now) →
      threshold.toNat ≤ (recent events key window now n).card → firedAt events n = true) ↔
    ∀ n key threshold window now, events[n]? = some (.matched key threshold window now) →
      1 < threshold → threshold.toNat ≤ (recent events key window now n).card →
        threshold.toNat ≤ (kept events key n).card := by
  constructor
  · intro h n key threshold window now hn hthreshold hrecent
    exact (fired_iff hsorted hn hthreshold).mp (h n key threshold window now hn hrecent)
  · intro h n key threshold window now hn hrecent
    rcases UInt32.lt_or_le 1 threshold with hthreshold | hthreshold
    · exact (fired_iff hsorted hn hthreshold).mpr
        (h n key threshold window now hn hthreshold hrecent)
    · exact fired_of_le_one hn hthreshold

/-- Four matches of a rule that calls for three within ten seconds, of which the last three are
within three seconds. -/
def sampleMisses : List Event :=
  [0, 9, 11, 12].map fun secs => .matched (0, .v4 1) 3 (10 * 10 ^ 9) (secs * 10 ^ 9)

theorem complete_iff_sample :
    ((∀ n key threshold window now,
        sampleMatches[n]? = some (.matched key threshold window now) →
        threshold.toNat ≤ (recent sampleMatches key window now n).card →
          firedAt sampleMatches n = true) ↔
      ∀ n key threshold window now, sampleMatches[n]? = some (.matched key threshold window now) →
        1 < threshold → threshold.toNat ≤ (recent sampleMatches key window now n).card →
          threshold.toNat ≤ (kept sampleMatches key n).card) ∧
      3 ≤ (recent sampleMatches (0, .v4 1) (10 * 10 ^ 9) (9 * 10 ^ 9) 2).card :=
  ⟨complete_iff (by unfold Sorted; decide), by decide⟩

/-- The window of the first match is over at the third, which starts a window of its own. -/
theorem not_complete :
    ¬ ∀ events : List Event, Sorted events →
      ∀ n key threshold window now, events[n]? = some (.matched key threshold window now) →
        threshold.toNat ≤ (recent events key window now n).card → firedAt events n = true := by
  intro h
  have hlast := h sampleMisses (by unfold Sorted; decide) 3 (0, .v4 1) 3 (10 * 10 ^ 9) (12 * 10 ^ 9)
    (by decide) (by decide)
  exact absurd hlast (by decide)

end ActiveDefense.Firewall.ThresholdTracker
