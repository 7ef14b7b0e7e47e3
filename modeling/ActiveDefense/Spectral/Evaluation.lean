import ActiveDefense.Rust.Text
import ActiveDefense.Rust.FloatFns

/-!
# The evaluation of the stored flows

`query_and_evaluate` scrolls through the vector store, page by page, and counts how often the flag
of a stored flow and its label agree. The store hands out its points in the order of their ids, and
with a page the id of the point after it (`Pages`), so the loop comes to an end and counts every
point, once (`evaluate_counts`). The measures that are printed are shares of these counts, and
`f1` lies between precision and recall (`evaluation_measures`).
-/

namespace ActiveDefense.Spectral

/-! ## The store -/

/-- What the evaluation reads of a stored point, with the defaults for what is not in its
payload. -/
structure StoredPoint where
  id : Nat
  cicLabel : Option Str
  isAnomaly : Option Bool
deriving DecidableEq

/-- A scroll of the vector store: from the point of the offset, if there is one, so many points at
most, with the offset of the next page. -/
abbrev PageScroll := Option Nat → Nat → List StoredPoint × Option Nat

/-- A page of the points that are left, and the id of the first one after it. -/
def pageOf (rest : List StoredPoint) (limit : Nat) : List StoredPoint × Option Nat :=
  (rest.take limit, (rest.drop limit).head?.map (·.id))

/-- The scroll hands out these points in the order of their ids. -/
structure Pages (scroll : PageScroll) (points : List StoredPoint) : Prop where
  first : ∀ limit, scroll none limit = pageOf points limit
  next : ∀ before pt rest limit, points = before ++ pt :: rest →
    scroll (some pt.id) limit = pageOf (pt :: rest) limit

/-- A store of these points. -/
def scrollOf (points : List StoredPoint) : PageScroll
  | none, limit => pageOf points limit
  | some id, limit => pageOf (points.dropWhile fun pt => pt.id ≠ id) limit

theorem pages_scrollOf {points : List StoredPoint} (h : (points.map (·.id)).Nodup) :
    Pages (scrollOf points) points where
  first _ := rfl
  next before pt rest limit hpoints := by
    have hbefore : ∀ p ∈ before, decide (p.id ≠ pt.id) = true := by
      intro p hp
      rw [hpoints, List.map_append, List.map_cons] at h
      have hne := (List.nodup_append.mp h).2.2 p.id (List.mem_map_of_mem hp) pt.id (.head _)
      exact decide_eq_true hne
    rw [scrollOf, hpoints, List.dropWhile_append_of_pos hbefore, List.dropWhile_cons_of_neg]
    simp

/-! ## The loop -/

/-- The loop of `query_and_evaluate`, for so many turns at most; `none` where it is not over by
then. -/
def scrollLoop (scroll : PageScroll) : Nat → List StoredPoint → Option Nat →
    Option (List StoredPoint)
  | 0, _, _ => none
  | turns + 1, allPoints, offset =>
    let (result, nextPageOffset) := scroll offset 500
    let allPoints := allPoints ++ result
    match nextPageOffset with
    | some next => if 0 < result.length then scrollLoop scroll turns allPoints (some next)
      else some allPoints
    | none => some allPoints

/-- `TestMetrics`, without the rows that are printed. -/
structure TestMetrics where
  tp : UInt32 := 0
  fp : UInt32 := 0
  tn : UInt32 := 0
  fn : UInt32 := 0
deriving DecidableEq

/-- The point was flagged. -/
def StoredPoint.detected (pt : StoredPoint) : Bool := pt.isAnomaly.getD false

/-- The point is labelled as an attack. -/
def StoredPoint.isAttack (pt : StoredPoint) : Bool :=
  pt.cicLabel.getD "Benign".toList ≠ "Benign".toList

/-- A turn of the loop over the points. -/
def TestMetrics.count (m : TestMetrics) (pt : StoredPoint) : TestMetrics :=
  match pt.detected, pt.isAttack with
  | true, true => { m with tp := m.tp + 1 }
  | true, false => { m with fp := m.fp + 1 }
  | false, false => { m with tn := m.tn + 1 }
  | false, true => { m with fn := m.fn + 1 }

/-- `query_and_evaluate`. -/
def queryAndEvaluate (scroll : PageScroll) (turns : Nat) : Option TestMetrics :=
  (scrollLoop scroll turns [] none).map fun points => points.foldl TestMetrics.count {}

/-! ## The measures -/

namespace TestMetrics

section
variable {φ : Type} [FloatArith φ]

/-- `TestMetrics::precision`. -/
def precision (m : TestMetrics) : φ :=
  let d := m.tp + m.fp
  if d = 0 then 0.0 else FloatArith.ofUsize m.tp.toNat / FloatArith.ofUsize d.toNat

/-- `TestMetrics::recall`. -/
def «recall» (m : TestMetrics) : φ :=
  let d := m.tp + m.fn
  if d = 0 then 0.0 else FloatArith.ofUsize m.tp.toNat / FloatArith.ofUsize d.toNat

/-- `TestMetrics::f1`; a sum is equal to zero if it is neither less nor more. -/
def f1 (m : TestMetrics) : φ :=
  let (p, r) := (m.precision (φ := φ), m.recall (φ := φ))
  if p + r ≤ 0.0 ∧ (0.0 : φ) ≤ p + r then 0.0 else 2.0 * p * r / (p + r)

/-- `TestMetrics::accuracy`. -/
def accuracy (m : TestMetrics) : φ :=
  let t := m.tp + m.fp + m.tn + m.fn
  if t = 0 then 0.0 else FloatArith.ofUsize (m.tp + m.tn).toNat / FloatArith.ofUsize t.toNat

end

end TestMetrics

/-! ## Every point is counted -/

variable {scroll : PageScroll} {points : List StoredPoint}

/-- The loop collects the points that are left, if it may take a turn for each page of them. -/
theorem scrollLoop_eq (h : Pages scroll points) {turns : Nat} {allPoints rest : List StoredPoint}
    {offset : Option Nat} (hrest : ∃ before, points = before ++ rest)
    (hpage : scroll offset 500 = pageOf rest 500) (hturns : rest.length < 500 * turns) :
    scrollLoop scroll turns allPoints offset = some (allPoints ++ rest) := by
  induction turns generalizing allPoints rest offset with
  | zero => exact absurd hturns (Nat.not_lt_zero _)
  | succ turns ih =>
    rw [scrollLoop, hpage, pageOf]
    dsimp only
    cases hlater : rest.drop 500 with
    | nil =>
      have hall : rest.take 500 = rest := List.take_of_length_le (List.drop_eq_nil_iff.mp hlater)
      rw [hall]
      rfl
    | cons pt later =>
      have hmore : 500 < rest.length := by
        rw [← Nat.not_le, ← List.drop_eq_nil_iff, hlater]
        exact List.cons_ne_nil _ _
      obtain ⟨before, hbefore⟩ := hrest
      have hsplit : points = (before ++ rest.take 500) ++ pt :: later := by
        rw [← hlater, List.append_assoc, List.take_append_drop, hbefore]
      have hlen : (rest.drop 500).length < 500 * turns := by
        rw [List.length_drop]
        omega
      have hpos : 0 < (rest.take 500).length := by
        rw [List.length_take]
        omega
      rw [List.head?_cons, Option.map_some]
      dsimp only
      rw [if_pos hpos, ih ⟨_, hsplit⟩ (h.next _ pt later 500 hsplit) (hlater ▸ hlen), ← hlater,
        List.append_assoc, List.take_append_drop]

/-- A flag and a label that are both there. -/
def truePositive (pt : StoredPoint) : Bool := pt.detected && pt.isAttack

def falsePositive (pt : StoredPoint) : Bool := pt.detected && !pt.isAttack

def trueNegative (pt : StoredPoint) : Bool := !pt.detected && !pt.isAttack

def falseNegative (pt : StoredPoint) : Bool := !pt.detected && pt.isAttack

theorem foldl_count (points : List StoredPoint) (m : TestMetrics) :
    points.foldl TestMetrics.count m = {
      tp := m.tp + .ofNat (points.countP truePositive)
      fp := m.fp + .ofNat (points.countP falsePositive)
      tn := m.tn + .ofNat (points.countP trueNegative)
      fn := m.fn + .ofNat (points.countP falseNegative) } := by
  have hsucc : ∀ (a : UInt32) (n : Nat), a + 1 + .ofNat n = a + .ofNat (n + 1) := by
    intro a n
    rw [UInt32.ofNat_add, UInt32.add_assoc, UInt32.add_comm 1]
    rfl
  have hzero : ∀ a : UInt32, a + .ofNat 0 = a := UInt32.add_zero
  induction points generalizing m with
  | nil => simp only [List.foldl_nil, List.countP_nil, hzero]
  | cons pt points ih =>
    rw [List.foldl_cons, ih, TestMetrics.count]
    cases hdetected : pt.detected <;> cases hattack : pt.isAttack <;>
      simp [truePositive, falsePositive, trueNegative, falseNegative, hdetected, hattack, hsucc]

/-- The evaluation comes to an end and counts every stored point, once, by its flag and label. -/
theorem evaluate_counts (h : Pages scroll points) {turns : Nat}
    (hturns : points.length < 500 * turns) : queryAndEvaluate scroll turns = some {
      tp := .ofNat (points.countP truePositive)
      fp := .ofNat (points.countP falsePositive)
      tn := .ofNat (points.countP trueNegative)
      fn := .ofNat (points.countP falseNegative) } := by
  have hzero : ∀ a : UInt32, 0 + a = a := UInt32.zero_add
  rw [queryAndEvaluate, scrollLoop_eq h ⟨[], rfl⟩ (h.first 500) hturns, Option.map_some,
    List.nil_append, foldl_count]
  simp only [hzero]

/-! ## The measures are shares -/

/-- The flag and the label agree. -/
def agrees (pt : StoredPoint) : Bool := pt.detected == pt.isAttack

theorem counts_eq (points : List StoredPoint) :
    points.countP truePositive + points.countP falsePositive = points.countP (·.detected) ∧
    points.countP truePositive + points.countP falseNegative = points.countP (·.isAttack) ∧
    points.countP truePositive + points.countP trueNegative = points.countP agrees ∧
    points.countP truePositive + points.countP falsePositive + points.countP trueNegative +
      points.countP falseNegative = points.length := by
  induction points with
  | nil => exact ⟨rfl, rfl, rfl, rfl⟩
  | cons pt points ih =>
    obtain ⟨hdetections, hattacks, hagree, hall⟩ := ih
    simp only [List.countP_cons, List.length_cons, truePositive, falsePositive, trueNegative,
      falseNegative, agrees] at hdetections hattacks hagree hall ⊢
    obtain ⟨d, hd⟩ : ∃ d, pt.detected = d := ⟨_, rfl⟩
    obtain ⟨a, ha⟩ : ∃ a, pt.isAttack = a := ⟨_, rfl⟩
    simp only [hd, ha]
    cases d <;> cases a <;> simp <;> omega

/-- A share of 32-bit counters that do not overflow. -/
theorem share_eq {a b n : Nat} (hn : n < 2 ^ 32) (ha : a ≤ n) (hb : b = n) :
    (if UInt32.ofNat b = 0 then (0.0 : ℝ)
      else FloatArith.ofUsize (UInt32.ofNat a).toNat / FloatArith.ofUsize (UInt32.ofNat b).toNat) =
      (a : ℝ) / n := by
  have hcast : ∀ k : Nat, (FloatArith.ofUsize k : ℝ) = k := fun _ => rfl
  subst hb
  rw [UInt32.toNat_ofNat_of_lt' hn, UInt32.toNat_ofNat_of_lt' (ha.trans_lt hn), hcast, hcast]
  split
  · next hzero =>
    have hnone : b = 0 := by
      have htoNat := congrArg UInt32.toNat hzero
      rwa [UInt32.toNat_ofNat_of_lt' hn] at htoNat
    rw [hnone, Nat.cast_zero, div_zero]
    norm_num
  · rfl

/-- A harmonic mean lies between the numbers. -/
theorem harmonic_mem {p r : ℝ} (hp : 0 ≤ p) (hr : 0 ≤ r) (hpos : 0 < p + r) :
    min p r ≤ 2 * p * r / (p + r) ∧ 2 * p * r / (p + r) ≤ max p r := by
  rw [le_div_iff₀ hpos, div_le_iff₀ hpos]
  rcases le_total p r with hle | hle
  · rw [min_eq_left hle, max_eq_right hle]
    constructor <;> nlinarith
  · rw [min_eq_right hle, max_eq_left hle]
    constructor <;> nlinarith

/-- The harmonic mean of two shares with the same numerator. -/
theorem harmonic_eq {t d a : ℝ} (ht : 0 < t) (hd : 0 < d) (ha : 0 < a) :
    2 * (t / d) * (t / a) / (t / d + t / a) = 2 * t / (d + a) := by
  have hsum : t / d + t / a = t * (d + a) / (d * a) := by
    field_simp
    ring
  rw [hsum]
  field_simp

/-- As long as the 32-bit counters hold the number of points, the measures over the real numbers are
shares of what is stored: the precision of the flagged points, the recall of the attacks, the
accuracy of all. `f1` lies between precision and recall, and is 0 only where no attack was
flagged. -/
theorem evaluation_measures (h : Pages scroll points) {turns : Nat}
    (hturns : points.length < 500 * turns) (hsize : points.length < 2 ^ 32) :
    ∃ m, queryAndEvaluate scroll turns = some m ∧
      m.precision (φ := ℝ) = points.countP truePositive / points.countP (·.detected) ∧
      m.recall (φ := ℝ) = points.countP truePositive / points.countP (·.isAttack) ∧
      m.f1 (φ := ℝ) = 2 * points.countP truePositive /
        (points.countP (·.detected) + points.countP (·.isAttack)) ∧
      m.accuracy (φ := ℝ) = points.countP agrees / points.length ∧
      min (m.precision (φ := ℝ)) m.recall ≤ m.f1 ∧
      m.f1 ≤ max (m.precision (φ := ℝ)) m.recall := by
  obtain ⟨hdetections, hattacks, hagree, hall⟩ := counts_eq points
  have hadd : ∀ a b : Nat, UInt32.ofNat a + .ofNat b = .ofNat (a + b) := fun a b =>
    (UInt32.ofNat_add a b).symm
  refine ⟨_, evaluate_counts h hturns, ?_⟩
  obtain ⟨m, hm⟩ : ∃ m : TestMetrics, m = {
      tp := .ofNat (points.countP truePositive)
      fp := .ofNat (points.countP falsePositive)
      tn := .ofNat (points.countP trueNegative)
      fn := .ofNat (points.countP falseNegative) } := ⟨_, rfl⟩
  rw [← hm]
  have hprecision : m.precision (φ := ℝ) =
      points.countP truePositive / points.countP (·.detected) := by
    rw [TestMetrics.precision, hm]
    dsimp only
    rw [hadd]
    exact share_eq (by omega) (by omega) hdetections
  have hrecall : m.recall (φ := ℝ) =
      points.countP truePositive / points.countP (·.isAttack) := by
    rw [TestMetrics.recall, hm]
    dsimp only
    rw [hadd]
    exact share_eq (by omega) (by omega) hattacks
  have haccuracy : m.accuracy (φ := ℝ) = points.countP agrees / points.length := by
    rw [TestMetrics.accuracy, hm]
    dsimp only
    rw [hadd, hadd, hadd, hadd, hagree]
    exact share_eq hsize (by omega) hall
  have hp : 0 ≤ m.precision (φ := ℝ) := hprecision ▸ by positivity
  have hr : 0 ≤ m.recall (φ := ℝ) := hrecall ▸ by positivity
  have hzero : (0.0 : ℝ) = 0 := by norm_num
  have htwo : (2.0 : ℝ) = 2 := by norm_num
  have hf1 : m.f1 (φ := ℝ) =
      if m.precision (φ := ℝ) + m.recall ≤ 0 then 0
      else 2 * m.precision * m.recall / (m.precision + m.recall) := by
    simp only [TestMetrics.f1, hzero, htwo, add_nonneg hp hr, and_true]
  rcases Nat.eq_zero_or_pos (points.countP truePositive) with hnone | hsome
  · have hpnone : m.precision (φ := ℝ) = 0 := by rw [hprecision, hnone, Nat.cast_zero, zero_div]
    have hrnone : m.recall (φ := ℝ) = 0 := by rw [hrecall, hnone, Nat.cast_zero, zero_div]
    have hf1none : m.f1 (φ := ℝ) = 0 := by
      rw [hf1, if_pos]
      rw [hpnone, hrnone, add_zero]
    refine ⟨hprecision, hrecall, ?_, haccuracy, ?_, ?_⟩
    · rw [hf1none, hnone, Nat.cast_zero, mul_zero, zero_div]
    · rw [hf1none, hpnone, hrnone, min_self]
    · rw [hf1none, hpnone, hrnone, max_self]
  · have ht : (0 : ℝ) < points.countP truePositive := by exact_mod_cast hsome
    have hd : (0 : ℝ) < points.countP (·.detected) := by exact_mod_cast (by omega)
    have ha : (0 : ℝ) < points.countP (·.isAttack) := by exact_mod_cast (by omega)
    have hpos : 0 < m.precision (φ := ℝ) + m.recall := by
      rw [hprecision, hrecall]
      positivity
    have hmean := harmonic_mem hp hr hpos
    rw [if_neg (not_le_of_gt hpos)] at hf1
    refine ⟨hprecision, hrecall, ?_, haccuracy, ?_, ?_⟩
    · rw [hf1, hprecision, hrecall, harmonic_eq ht hd ha]
    · rw [hf1]
      exact hmean.1
    · rw [hf1]
      exact hmean.2

/-- An attack that is flagged, one that is not, and a false alarm. -/
def threePoints : List StoredPoint :=
  [⟨1, some "DoS".toList, some true⟩, ⟨2, some "DoS".toList, some false⟩, ⟨3, none, some true⟩]

theorem evaluation_measures_three : ∃ m, queryAndEvaluate (scrollOf threePoints) 1 = some m ∧
    m.precision (φ := ℝ) = 1 / 2 ∧ m.recall (φ := ℝ) = 1 / 2 ∧ m.f1 (φ := ℝ) = 1 / 2 := by
  have h : Pages (scrollOf threePoints) threePoints := pages_scrollOf (by decide)
  obtain ⟨m, hm, hprecision, hrecall, hf1, -⟩ :=
    evaluation_measures h (show threePoints.length < 500 * 1 by decide) (by decide)
  have hboth : threePoints.countP truePositive = 1 := by decide
  have hdetections : threePoints.countP (·.detected) = 2 := by decide
  have hattacks : threePoints.countP (·.isAttack) = 2 := by decide
  rw [hboth, hdetections] at hprecision
  rw [hboth, hattacks] at hrecall
  rw [hboth, hdetections, hattacks] at hf1
  refine ⟨m, hm, ?_, ?_, ?_⟩
  · rw [hprecision]
    norm_num
  · rw [hrecall]
    norm_num
  · rw [hf1]
    norm_num

end ActiveDefense.Spectral
