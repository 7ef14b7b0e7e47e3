import ActiveDefense.Clam.PeEntropy
import ActiveDefense.Lib.Spread
import ActiveDefense.Nsm.DnsTunnel
import ActiveDefense.Rust.FloatFns

/-!
# The beacon detector

For each source, destination and port `BeaconDetector` keeps the last twenty intervals of more than
half a second between connection attempts, and reports the pair where six or more of them hardly
differ: their deviation is at most 15 percent of their mean. Over the real numbers, intervals that
jitter upwards by no more than 30 percent are always reported, and where a pair is reported each
interval is within 68 percent of their mean (`beacon_report`).
-/

namespace ActiveDefense

open Clam (Log2Arith)

/-- The functions that the detectors take of an `f64`. -/
class DetectArith (φ : Type) extends FloatFns φ, Log2Arith φ

instance : DetectArith Float where

namespace Nsm

open scoped Clam

noncomputable scoped instance : DetectArith ℝ where

/-! ## The detector -/

/-- `History` of a pair. -/
structure BeaconDetector.History (φ : Type) where
  lastConn : Option Nat
  intervals : List φ

/-- `BeaconDetector`. -/
structure BeaconDetector (φ : Type) where
  perPair : Table (IpAddr × IpAddr × UInt16) (BeaconDetector.History φ)

namespace BeaconDetector

/-- `MIN_SAMPLES`. -/
def minSamples : Nat := 6

/-- `MAX_HISTORY`. -/
def maxHistory : Nat := 20

section
variable {φ : Type} [DetectArith φ]

/-- `CV_THRESHOLD`. -/
def cvThreshold : φ := 0.15

/-- `BeaconDetector::new`. -/
def new : BeaconDetector φ := ⟨∅⟩

/-- One interval more, of which the oldest go. -/
def pushInterval (intervals : List φ) (dt : φ) : List φ :=
  let intervals := intervals ++ [dt]
  if maxHistory < intervals.length then intervals.drop 1 else intervals

/-- The history of a pair after one more connection attempt. -/
def advance (h : Option (History φ)) (s : Sighting) : History φ :=
  let h := h.getD ⟨none, []⟩
  let intervals :=
    match h.lastConn with
    | some last =>
      let dt : φ := Duration.asSecsF64 (s.instant - last)
      if (0.5 : φ) < dt then pushInterval h.intervals dt else h.intervals
    | none => h.intervals
  ⟨some s.instant, intervals⟩

/-- The mean of the intervals, and their deviation in parts of the mean. -/
def meanAndCv (intervals : List φ) : φ × φ :=
  let len : φ := FloatArith.ofUsize intervals.length
  let mean := intervals.foldl (· + ·) 0.0 / len
  let variance := (intervals.map fun v => (v - mean) * (v - mean)).foldl (· + ·) 0.0 / len
  (mean, FloatFns.sqrt variance / mean)

/-- What is reported of a pair with such intervals. -/
def report (s : Sighting) (intervals : List φ) : Option (MeasuredAlert φ) :=
  if intervals.length < minSamples then none
  else
    let (mean, cv) := meanAndCv intervals
    if mean < 0.3 then none
    else if cv ≤ cvThreshold then
      some
        { tsUnix := s.tsUnix
          severity := .medium
          detector := "beacon".toList
          message := s.pkt.srcIp.display ++ " -> ".toList ++ s.pkt.dstIp.display ++ ":".toList ++
            decimal s.pkt.dstPort.toNat ++ " reconnects every ~".toList ++
            FloatArith.fixed 1 mean ++ "s with low jitter (cv=".toList ++ FloatArith.fixed 3 cv ++
            ") across ".toList ++ decimal intervals.length ++
            " samples: possible C2 beacon".toList
          srcIp := some s.pkt.srcIp
          dstIp := some s.pkt.dstIp
          extra := [("samples".toList, .number intervals.length)]
          measures := [("mean_interval_s".toList, mean), ("cv".toList, cv)] }
    else none

variable (φ) in
/-- `BeaconDetector::observe`. -/
def observe : Machine (BeaconDetector φ) Sighting (Option (MeasuredAlert φ)) := fun d s =>
  if isSynOnly s.pkt.tcpFlags then
    let key := (s.pkt.srcIp, s.pkt.dstIp, s.pkt.dstPort)
    let h := advance (d.perPair.lookup key) s
    (report s h.intervals, ⟨AList.insert key h d.perPair⟩)
  else (none, d)

/-! ## The intervals of a pair -/

/-- The pair of a connection attempt. -/
def key (s : Sighting) : Option (IpAddr × IpAddr × UInt16) :=
  if isSynOnly s.pkt.tcpFlags then some (s.pkt.srcIp, s.pkt.dstIp, s.pkt.dstPort) else none

variable (φ) in
/-- The intervals between some times. -/
def intervalsBetween (times : List Nat) : List φ :=
  List.zipWith (fun t t' => Duration.asSecsF64 (t' - t)) times times.tail

variable (φ) in
/-- Those that are long enough for a reconnect, the last twenty of them. -/
def recentIntervals (times : List Nat) : List φ :=
  ((intervalsBetween φ times).filter fun dt => decide ((0.5 : φ) < dt)).rtake maxHistory

variable {packets : List Sighting} {s : Sighting} {k : IpAddr × IpAddr × UInt16}

theorem keyed_observe : (observe φ).Keyed (fun _ => True) perPair key advance where
  keeps _ _ _ := trivial
  other d s _ hkey := by
    have hnot : ¬ isSynOnly s.pkt.tcpFlags = true := fun h => by simp [key, h] at hkey
    rw [observe, if_neg hnot]
  own d s k _ hkey := by
    have hsyn : isSynOnly s.pkt.tcpFlags = true := by
      by_contra hnot
      rw [key, if_neg hnot] at hkey
      cases hkey
    rw [key, if_pos hsyn] at hkey
    cases hkey
    rw [observe, if_pos hsyn]

omit [DetectArith φ] in
/-- One interval more. -/
theorem pushInterval_rtake (intervals : List φ) (dt : φ) :
    pushInterval (intervals.rtake maxHistory) dt = (intervals ++ [dt]).rtake maxHistory := by
  unfold pushInterval List.rtake maxHistory
  simp only [List.length_append, List.length_drop, List.length_singleton]
  by_cases hfull : 20 ≤ intervals.length
  · rw [if_pos (by omega), List.drop_append_of_le_length (by rw [List.length_drop]; omega),
      List.drop_drop, List.drop_append_of_le_length (by omega)]
    congr 2
    omega
  · rw [if_neg (by omega), Nat.sub_eq_zero_of_le (by omega), Nat.sub_eq_zero_of_le (by omega)]
    rfl

/-- One time more. -/
theorem intervalsBetween_snoc (times : List Nat) (last t : Nat) :
    intervalsBetween φ (times ++ [last] ++ [t]) =
      intervalsBetween φ (times ++ [last]) ++ [Duration.asSecsF64 (t - last)] := by
  induction times with
  | nil => rfl
  | cons t₀ times ih =>
    cases times with
    | nil => rfl
    | cons t₁ times =>
      simp only [List.cons_append] at ih ⊢
      exact congrArg (Duration.asSecsF64 (t₁ - t₀) :: ·) ih

/-- One connection attempt more. -/
theorem advance_recent (times : List Nat) (last : Nat) (s : Sighting) :
    advance (some ⟨some last, recentIntervals φ (times ++ [last])⟩) s =
      ⟨some s.instant, recentIntervals φ (times ++ [last] ++ [s.instant])⟩ := by
  rw [recentIntervals, recentIntervals, intervalsBetween_snoc, List.filter_append, advance]
  dsimp only [Option.getD_some]
  by_cases hlong : (0.5 : φ) < Duration.asSecsF64 (s.instant - last)
  · rw [if_pos hlong, pushInterval_rtake, List.filter_cons_of_pos (by simpa using hlong),
      List.filter_nil]
  · rw [if_neg hlong, List.filter_cons_of_neg (by simpa using hlong), List.filter_nil,
      List.append_nil]

/-- The history of a pair is that of its connection attempts. -/
theorem foldl_advance (ss : List Sighting) (last : Sighting) :
    (ss ++ [last]).foldl (fun h s => some (advance h s)) (none : Option (History φ)) =
      some ⟨some last.instant, recentIntervals φ ((ss ++ [last]).map (·.instant))⟩ := by
  induction ss using List.reverseRecOn generalizing last with
  | nil => rfl
  | append_singleton ss s ih =>
    have hstep := advance_recent (φ := φ) (ss.map (·.instant)) s.instant last
    rw [List.foldl_append, ih, List.foldl_cons, List.foldl_nil, List.map_append, List.map_singleton,
      hstep, List.map_append, List.map_append, List.map_singleton, List.map_singleton]

variable (φ) in
/-- The detector after any packets. -/
def after (packets : List Sighting) : BeaconDetector φ := ((observe φ).run new packets).2

variable (φ) in
/-- The recent intervals of a pair. -/
def intervalsOf (k : IpAddr × IpAddr × UInt16) (packets : List Sighting) : List φ :=
  recentIntervals φ ((ofKey key k packets).map (·.instant))

/-- A connection attempt is answered with the report of the recent intervals of its pair. -/
theorem observe_after (hkey : key s = some k) : (observe φ (after φ packets) s).1 =
    report s (intervalsOf φ k (packets ++ [s])) := by
  have hsyn : isSynOnly s.pkt.tcpFlags = true := by
    by_contra hnot
    rw [key, if_neg hnot] at hkey
    cases hkey
  have hpair : (s.pkt.srcIp, s.pkt.dstIp, s.pkt.dstPort) = k := by
    rw [key, if_pos hsyn] at hkey
    exact Option.some.inj hkey
  have hlookup : (after φ packets).perPair.lookup k =
      (ofKey key k packets).foldl (fun h s => some (advance h s)) none :=
    (keyed_observe (φ := φ)).lookup_run trivial
  have hadvance := foldl_advance (φ := φ) (ofKey key k packets) s
  rw [List.foldl_append, ← hlookup, List.foldl_cons, List.foldl_nil] at hadvance
  rw [observe, if_pos hsyn]
  dsimp only
  rw [hpair, Option.some.inj hadvance, intervalsOf, ofKey_append, ofKey_singleton hkey]

end

/-! ## What is reported -/

theorem meanAndCv_eq (xs : List ℝ) : meanAndCv xs = (mean xs, √(variance xs) / mean xs) := by
  have hzero : (0.0 : ℝ) = 0 := by norm_num
  have hsum (ys : List ℝ) : ys.foldl (· + ·) 0.0 = ys.sum := by
    rw [hzero, ← List.sum_eq_foldl]
  unfold meanAndCv
  dsimp only
  rw [hsum, hsum]
  rfl

/-- The recent intervals are longer than half a second, and twenty at most. -/
theorem mem_intervalsOf {k : IpAddr × IpAddr × UInt16} {packets : List Sighting} {dt : ℝ}
    (h : dt ∈ intervalsOf ℝ k packets) : 0.5 < dt := by
  have hmem := List.drop_subset _ _ h
  exact of_decide_eq_true (List.mem_filter.mp hmem).2

theorem length_intervalsOf_le {k : IpAddr × IpAddr × UInt16} {packets : List Sighting} :
    (intervalsOf ℝ k packets).length ≤ 20 := by
  rw [intervalsOf, recentIntervals, List.rtake, List.length_drop]
  unfold maxHistory
  omega

/-- Intervals that jitter upwards by no more than 30 percent are reported. -/
theorem exists_report_of_regular {s : Sighting} {xs : List ℝ} {a : ℝ} (hmany : 6 ≤ xs.length)
    (hlong : ∀ x ∈ xs, 0.5 < x) (h : ∀ x ∈ xs, a ≤ x ∧ x ≤ 1.3 * a) :
    ∃ alert, report s xs = some alert := by
  have hne : xs ≠ [] := List.ne_nil_of_length_pos (by omega)
  obtain ⟨hlo, hhi⟩ := mean_mem hne h
  obtain ⟨x, hx⟩ := List.exists_mem_of_ne_nil xs hne
  have ha : 0.3 < a := by
    have := hlong x hx
    have := (h x hx).2
    linarith
  have hvariance : variance xs ≤ (0.15 * a) * (0.15 * a) := by
    have hle := variance_le_of_mem hne h
    linarith
  have hdeviation : √(variance xs) ≤ 0.15 * mean xs := by
    calc √(variance xs) ≤ √((0.15 * a) * (0.15 * a)) := Real.sqrt_le_sqrt hvariance
      _ = 0.15 * a := Real.sqrt_mul_self (by linarith)
      _ ≤ 0.15 * mean xs := by linarith
  have hmean : ¬ mean xs < 0.3 := by linarith
  have hcv : √(variance xs) / mean xs ≤ (cvThreshold : ℝ) :=
    (div_le_iff₀ (by linarith)).mpr hdeviation
  rw [report, if_neg (by unfold minSamples; omega), meanAndCv_eq]
  dsimp only
  rw [if_neg hmean, if_pos hcv]
  exact ⟨_, rfl⟩

/-- Where there is a report the intervals are near their mean. -/
theorem regular_of_report {s : Sighting} {xs : List ℝ} {alert : MeasuredAlert ℝ}
    (hfew : xs.length ≤ 20) (h : report s xs = some alert) :
    6 ≤ xs.length ∧ 0.3 ≤ mean xs ∧ ∀ x ∈ xs, |x - mean xs| ≤ 0.68 * mean xs := by
  rw [report, meanAndCv_eq] at h
  split at h
  · cases h
  · next hmany =>
    dsimp only at h
    split at h
    · cases h
    · next hmean =>
      split at h
      · next hcv =>
        have hpos : 0 < mean xs := by linarith
        have hdeviation : √(variance xs) ≤ 0.15 * mean xs := (div_le_iff₀ hpos).mp hcv
        refine ⟨by unfold minSamples at hmany; omega, by linarith, fun x hx => ?_⟩
        have hvariance : variance xs ≤ (0.15 * mean xs) * (0.15 * mean xs) := by
          have hsq := Real.mul_self_sqrt (variance_nonneg xs)
          have hle := mul_self_le_mul_self (Real.sqrt_nonneg _) hdeviation
          linarith
        have hlen : (xs.length : ℝ) ≤ 20 := by exact_mod_cast hfew
        have hfar := sq_sub_mean_le hx
        refine abs_le_of_sq_le_sq' ?_ (by linarith) |> abs_le.mpr
        nlinarith [variance_nonneg xs]
      · cases h

end BeaconDetector

/-- After any packets, a connection attempt of a pair is reported where the recent intervals of the
pair, six or more, are between one length and 1.3 times that; and where it is reported there are six
or more, and each is within 68 percent of their mean. -/
theorem beacon_report (packets : List Sighting) (s : Sighting)
    (hsyn : isSynOnly s.pkt.tcpFlags = true) :
    let recent := BeaconDetector.intervalsOf ℝ (s.pkt.srcIp, s.pkt.dstIp, s.pkt.dstPort)
      (packets ++ [s])
    let answer := (BeaconDetector.observe ℝ (.after ℝ packets) s).1
    (6 ≤ recent.length → (∃ a, ∀ dt ∈ recent, a ≤ dt ∧ dt ≤ 1.3 * a) →
      ∃ alert, answer = some alert) ∧
    ∀ alert, answer = some alert → 6 ≤ recent.length ∧ 0.3 ≤ mean recent ∧
      ∀ dt ∈ recent, |dt - mean recent| ≤ 0.68 * mean recent := by
  have hkey : BeaconDetector.key s = some (s.pkt.srcIp, s.pkt.dstIp, s.pkt.dstPort) := if_pos hsyn
  dsimp only
  rw [BeaconDetector.observe_after hkey]
  constructor
  · rintro hmany ⟨a, hregular⟩
    exact BeaconDetector.exists_report_of_regular hmany
      (fun _ => BeaconDetector.mem_intervalsOf) hregular
  · intro alert halert
    exact BeaconDetector.regular_of_report BeaconDetector.length_intervalsOf_le halert

/-- Connection attempts a minute apart. -/
def minutely (n : Nat) : List Sighting := (List.range n).map fun i => synAt (60 * i) 443

theorem intervalsOf_minutely : BeaconDetector.intervalsOf ℝ
    (.v4 (Ipv4Addr.new 10 0 0 5), .v4 (Ipv4Addr.new 10 0 0 1), 443)
    (minutely 6 ++ [synAt 360 443]) = List.replicate 6 60 := by
  have hminute : (Duration.asSecsF64 (60 * 10 ^ 9) : ℝ) = 60 := by
    norm_num [Duration.asSecsF64, FloatArith.ofUsize]
  have htimes : (ofKey BeaconDetector.key
      (.v4 (Ipv4Addr.new 10 0 0 5), .v4 (Ipv4Addr.new 10 0 0 1), 443)
      (minutely 6 ++ [synAt 360 443])).map (·.instant) =
        [0, 60 * 10 ^ 9, 120 * 10 ^ 9, 180 * 10 ^ 9, 240 * 10 ^ 9, 300 * 10 ^ 9, 360 * 10 ^ 9] := by
    decide
  have hbetween : BeaconDetector.intervalsBetween ℝ
      [0, 60 * 10 ^ 9, 120 * 10 ^ 9, 180 * 10 ^ 9, 240 * 10 ^ 9, 300 * 10 ^ 9, 360 * 10 ^ 9] =
        List.replicate 6 (Duration.asSecsF64 (60 * 10 ^ 9)) := rfl
  have hlong : (0.5 : ℝ) < 60 := by norm_num
  rw [BeaconDetector.intervalsOf, BeaconDetector.recentIntervals, htimes, hbetween, hminute,
    List.filter_replicate_of_pos (by simpa using hlong)]
  rfl

/-- Seven of them are reported. -/
theorem beacon_report_minutely : ∃ alert, (BeaconDetector.observe ℝ
    (.after ℝ (minutely 6)) (synAt 360 443)).1 = some alert := by
  refine (beacon_report (minutely 6) (synAt 360 443) (by decide)).1 ?_ ⟨60, ?_⟩
  · exact (congrArg List.length intervalsOf_minutely).ge
  · intro dt hdt
    have hsixty := List.eq_of_mem_replicate (intervalsOf_minutely ▸ hdt)
    rw [hsixty]
    norm_num

end Nsm

end ActiveDefense
