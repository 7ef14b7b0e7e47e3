import ActiveDefense.Lib.Run
import ActiveDefense.Spectral.Fiedler
import Mathlib.Analysis.Real.Pi.Bounds
import Mathlib.Combinatorics.SimpleGraph.Connectivity.Connected

/-!
# What the estimates say

Over the real numbers a turn of the loop makes the eigenvalue `x` heavier by `(10 - x)²`, so after
the last turn the heaviest one is that furthest from 10: with heavy edges this is the largest and
not the smallest. The raw estimate of a graph that is not connected is below its bound exactly if
the mean of the eigenvalues, weighed so, is (`active_of_disconnected_iff`). The other estimate is no
less than `epsilon` where the loop normalises, and next to 10 it may not
(`epsilon_le_lambda2Regularized_iff`).
-/

namespace ActiveDefense.Spectral

variable {n : Nat}

namespace Regularizer

/-! ## The raw estimate -/

theorem balanced_physicalOnly (self : Regularizer n ℝ) :
    Balanced self.epsilon self.buildPhysicalOnly :=
  (balanced_zero.foldl self.physicalEdges).addDiagonal self.epsilon

theorem form_physicalOnly (self : Regularizer n ℝ) (x : Fin n → ℝ) :
    form self.buildPhysicalOnly x =
      form (physicalRows self.physicalEdges) x + self.epsilon * ∑ i, x i ^ 2 :=
  form_addDiagonal _ _ _

/-- The graph of the physical edges. -/
def graph (self : Regularizer n ℝ) : SimpleGraph (Fin n) :=
  SimpleGraph.fromRel fun u v => ∃ w, (u, v, w) ∈ self.physicalEdges

/-- The eigenvalues, as heavy as 60 turns make them, are small. -/
def RawSmall {self : Regularizer n ℝ}
    (e : Eigenbasis (operator self.buildPhysicalOnly) (Fin n)) : Prop :=
  (Normalises e 60 → weighed e 60 < 0.05 * weights e 60) ∧
    (¬ Normalises e 60 → weighed e 60 < 0.05)

theorem lambda2Raw_lt_iff (hn : 2 ≤ n) {self : Regularizer n ℝ}
    (e : Eigenbasis (operator self.buildPhysicalOnly) (Fin n)) :
    self.lambda2Raw < 0.05 ↔ RawSmall e := by
  have hsmall : (0 : ℝ) < 0.05 := by norm_num
  by_cases hnormalises : Normalises e 60
  · have hpos := weights_pos e hn hnormalises
    rw [lambda2Raw, fiedlerPowerIter_of_normalises e hn self.balanced_physicalOnly hnormalises,
      max_lt_iff, div_lt_iff₀ hpos]
    exact ⟨fun h => ⟨fun _ => h.1, fun h' => absurd hnormalises h'⟩,
      fun h => ⟨h.1 hnormalises, hsmall⟩⟩
  · rw [lambda2Raw, fiedlerPowerIter_of_not_normalises e hn self.balanced_physicalOnly hnormalises,
      max_lt_iff]
    exact ⟨fun h => ⟨fun h' => absurd h' hnormalises, fun _ => h.1⟩,
      fun h => ⟨h.2 hnormalises, hsmall⟩⟩

/-- A tick that reports an inactive regulariser does so whatever it is called with. -/
theorem tick_of_not_lt {self : Regularizer n ℝ} (h : ¬ self.lambda2Raw < 0.05)
    (checks : OverflowChecks) (currentTick : Nat) :
    ∃ report t, self.tick checks currentTick = .ok (report, t) ∧
      report.regularizerActive = false := by
  have hrefresh : self.refresh checks currentTick = .ok _ := if_neg h
  obtain ⟨report, t, htick⟩ := tick_of_refresh hrefresh
  obtain ⟨_, _, -, hactive, -⟩ := tick_cases htick
  exact ⟨report, t, htick, hactive.trans (decide_eq_false h)⟩

/-- A tick reports a graph that is not connected as one exactly if the eigenvalues of its Laplacian,
weighed with the powers of their distances from 10, have a small mean. -/
theorem active_of_disconnected_iff (hn : 2 ≤ n) (self : Regularizer n ℝ) (checks : OverflowChecks)
    (currentTick : Nat) (e : Eigenbasis (operator self.buildPhysicalOnly) (Fin n)) :
    (¬ self.graph.Connected → ∀ report t, self.tick checks currentTick = .ok (report, t) →
        report.regularizerActive = true) ↔
      self.graph.Connected ∨ RawSmall e := by
  rw [← lambda2Raw_lt_iff hn]
  constructor
  · intro h
    by_contra hneither
    obtain ⟨hdisconnected, hraw⟩ := not_or.mp hneither
    obtain ⟨report, t, htick, hinactive⟩ := tick_of_not_lt hraw checks currentTick
    exact Bool.false_ne_true (hinactive.symm.trans (h hdisconnected report t htick))
  · rintro (hconnected | hraw) hdisconnected report t htick
    · exact absurd hconnected hdisconnected
    · obtain ⟨_, _, -, hactive, -⟩ := tick_cases htick
      exact hactive.trans (decide_eq_true hraw)

/-- Where the eigenvalue is neither of the two of an edge of its own, its ends have nothing of the
eigenvector. -/
theorem eq_zero_of_pair {x y μ w ε : ℝ} (hx : w * (x - y) + ε * x = μ * x)
    (hy : -(w * (x - y)) + ε * y = μ * y) (hsmall : μ ≠ ε) (hlarge : μ ≠ ε + 2 * w) :
    x = 0 ∧ y = 0 := by
  have hdiff : x - y = 0 := by
    refine (mul_eq_zero.mp ?_).resolve_left (sub_ne_zero.mpr hlarge)
    linear_combination hy - hx
  have hsum : x + y = 0 := by
    refine (mul_eq_zero.mp ?_).resolve_left (sub_ne_zero.mpr hsmall)
    linear_combination -hx - hy
  constructor <;> linarith

/-- Two pairs of nodes, each joined by an edge. -/
noncomputable def twoPairs : Regularizer 4 ℝ :=
  (new 4 0.01 0.5).updatePhysicalEdges [(0, 1, 1), (2, 3, 1)]

theorem dot_twoPairs (x : Fin 4 → ℝ) (i : Fin 4) :
    dot (twoPairs.buildPhysicalOnly i) x =
      1 * ends 0 1 i * (x 0 - x 1) + 1 * ends 2 3 i * (x 2 - x 3) + 0.01 * x i := by
  rw [buildPhysicalOnly, dot_addDiagonal]
  change dot (addWeight (addWeight (fun _ _ => 0.0) 0 1 1) 2 3 1 i) x + _ = _
  rw [dot_addWeight, dot_addWeight, dot_zero, zero_add]
  rfl

theorem form_twoPairs (x : Fin 4 → ℝ) :
    form twoPairs.buildPhysicalOnly x =
      1 * (x 0 - x 1) ^ 2 + 1 * (x 2 - x 3) ^ 2 + 0.01 * ∑ i, x i ^ 2 := by
  rw [form_physicalOnly]
  change form (addWeight (addWeight (fun _ _ => 0.0) 0 1 1) 2 3 1) x + _ = _
  rw [form_addWeight, form_addWeight, form_zero, zero_add]
  rfl

/-- The eigenvalues are `epsilon` and one that is 2 above it. -/
theorem value_twoPairs (e : Eigenbasis (operator twoPairs.buildPhysicalOnly) (Fin 4))
    (j : Fin 4) : e.value j = 0.01 ∨ e.value j = 0.01 + 2 * 1 := by
  have heigen : ∀ i, 1 * ends 0 1 i * (e.basis j 0 - e.basis j 1) +
      1 * ends 2 3 i * (e.basis j 2 - e.basis j 3) + 0.01 * e.basis j i =
        e.value j * e.basis j i := by
    intro i
    rw [← dot_twoPairs]
    have happly := e.apply_basis j
    exact congrArg (fun x : EuclideanSpace ℝ (Fin 4) => x i)
      ((operator_toLp _ (e.basis j).ofLp).symm.trans happly)
  by_contra hother
  obtain ⟨hsmall, hlarge⟩ := not_or.mp hother
  have h0 := heigen 0
  have h1 := heigen 1
  have h2 := heigen 2
  have h3 := heigen 3
  simp [ends, unit] at h0 h1 h2 h3
  have hpair : e.basis j 0 = 0 ∧ e.basis j 1 = 0 :=
    eq_zero_of_pair (w := 1) (by linarith) (by linarith) hsmall hlarge
  have hother : e.basis j 2 = 0 ∧ e.basis j 3 = 0 :=
    eq_zero_of_pair (w := 1) (by linarith) (by linarith) hsmall hlarge
  have hnorm := sum_sq_basis e j
  rw [Fin.sum_univ_four, hpair.1, hpair.2, hother.1, hother.2] at hnorm
  norm_num at hnorm

/-- The entries of the start vector on the first pair are smaller than those on the second. -/
theorem sin_pairs : Real.sin 1 + Real.sin 1.37 + 0.02 < Real.sin 1.74 + Real.sin 2.11 := by
  have hcos : (0.0149 : ℝ) < Real.cos 1.555 := by
    have hpi := Real.pi_gt_d2
    have hpi' := Real.pi_lt_d2
    have hcube := Real.sin_gt_sub_cube (x := (0.015 : ℝ)) (by norm_num)
    have hmono : Real.sin 0.015 ≤ Real.sin (Real.pi / 2 - 1.555) :=
      Real.sin_le_sin_of_le_of_le_pi_div_two (by linarith) (by linarith) (by linarith)
    rw [Real.sin_pi_div_two_sub] at hmono
    linarith
  have hnear := Real.sin_gt_sub_cube (x := (0.185 : ℝ)) (by norm_num)
  have hfar := Real.sin_gt_sub_cube (x := (0.555 : ℝ)) (by norm_num)
  have hinner : Real.sin 1.74 - Real.sin 1.37 = 2 * Real.sin 0.185 * Real.cos 1.555 := by
    rw [Real.sin_sub_sin]
    norm_num
  have houter : Real.sin 2.11 - Real.sin 1 = 2 * Real.sin 0.555 * Real.cos 1.555 := by
    rw [Real.sin_sub_sin]
    norm_num
  have hproduct : (0.68 : ℝ) * 0.0149 ≤
      (Real.sin 0.185 + Real.sin 0.555) * Real.cos 1.555 := by
    gcongr
    linarith
  linarith

/-- Without the mean, the entries on the first pair come to less than zero. -/
theorem projectOut_pair_lt :
    projectOut (startVector 4 ℝ) 0 + projectOut (startVector 4 ℝ) 1 < -0.01 := by
  have hentry : ∀ i : Fin 4, startVector 4 ℝ i = Real.sin (i.val * 0.37 + 1.0) := fun _ => rfl
  have hsin := sin_pairs
  rw [projectOut_apply (by decide), projectOut_apply (by decide), Fin.sum_univ_four]
  simp only [hentry]
  norm_num at hsin ⊢
  linarith

/-- The unit vector is not zero on the first pair. -/
theorem le_sq_unitStart_pair :
    (0.01 : ℝ) ^ 2 / 16 ≤ (unitStart 4 0 + unitStart 4 1) ^ 2 := by
  have hlong := norm_projectOut_start (n := 4) (by decide)
  have hshort := norm_sq_projectOut_start_le (n := 4) (by decide)
  have hscaled : unitStart 4 0 + unitStart 4 1 =
      (projectOut (startVector 4 ℝ) 0 + projectOut (startVector 4 ℝ) 1) /
        ‖WithLp.toLp 2 (projectOut (startVector 4 ℝ))‖ := by
    rw [unitStart_eq (by decide)]
    simp only [PiLp.smul_apply, smul_eq_mul]
    ring
  have hsquare : (0.01 : ℝ) ^ 2 ≤
      (projectOut (startVector 4 ℝ) 0 + projectOut (startVector 4 ℝ) 1) ^ 2 := by
    nlinarith [projectOut_pair_lt]
  rw [hscaled, div_pow]
  gcongr
  norm_num at hshort
  exact hshort

/-- The start vector is not the same on both pairs. -/
theorem form_twoPairs_lt : form twoPairs.buildPhysicalOnly (unitStart 4) < 2.00999 := by
  have hsum := sum_normalize (sum_projectOut (n := 4) (by decide) (startVector 4 ℝ))
  have hone : ∑ i, unitStart 4 i ^ 2 = 1 := by
    rw [← EuclideanSpace.real_norm_sq_eq, norm_unitStart (by decide), one_pow]
  have hapart := le_sq_unitStart_pair
  change ∑ i, unitStart 4 i = 0 at hsum
  rw [Fin.sum_univ_four] at hsum hone
  rw [form_twoPairs, Fin.sum_univ_four, hone]
  have hrest : unitStart 4 2 + unitStart 4 3 = -(unitStart 4 0 + unitStart 4 1) := by linarith
  have hsplit : (unitStart 4 0 - unitStart 4 1) ^ 2 + (unitStart 4 2 - unitStart 4 3) ^ 2 =
      2 * 1 - 2 * (unitStart 4 0 + unitStart 4 1) ^ 2 := by
    rw [← hone]
    linear_combination (unitStart 4 0 + unitStart 4 1 - (unitStart 4 2 + unitStart 4 3)) * hrest
  norm_num at hapart ⊢
  linarith

/-- Sixty turns leave next to nothing of the larger eigenvalue. -/
theorem rawSmall_twoPairs (e : Eigenbasis (operator twoPairs.buildPhysicalOnly) (Fin 4)) :
    RawSmall e := by
  have hnormalises : Normalises e 60 := by
    refine normalises_of_forall e (by decide) (fun j => ?_) 60
    rcases value_twoPairs e j with hj | hj <;> rw [hj] <;> norm_num
  have hbound : ∀ j, (10 - e.value j) ^ (2 * 60) * (e.value j - 0.05) ≤
      0.01 * 9.99 ^ (2 * 60) * (e.value j - 2.00999) := by
    intro j
    rcases value_twoPairs e j with hj | hj <;> rw [hj] <;> norm_num
  have hform : e.moment (unitStart 4) (fun x => 0.01 * 9.99 ^ (2 * 60) * (x - 2.00999)) =
      0.01 * 9.99 ^ (2 * 60) * (form twoPairs.buildPhysicalOnly (unitStart 4) - 2.00999) := by
    have hone := e.moment_mul_sub (unitStart 4) (fun _ => 1) 2.00999
    simp only [one_mul] at hone
    rw [e.moment_const_mul, hone, e.moment_id, e.moment_one, norm_unitStart (by decide),
      inner_operator, one_pow, mul_one]
  have hle := e.moment_le (f := fun x => (10 - x) ^ (2 * 60) * (x - 0.05))
    (g := fun x => 0.01 * 9.99 ^ (2 * 60) * (x - 2.00999)) hbound (unitStart 4)
  have hneg :
      0.01 * (9.99 : ℝ) ^ (2 * 60) * (form twoPairs.buildPhysicalOnly (unitStart 4) - 2.00999) < 0 :=
    mul_neg_of_pos_of_neg (by positivity) (sub_neg_of_lt form_twoPairs_lt)
  have hsplit := e.moment_mul_sub (unitStart 4) (fun x => (10 - x) ^ (2 * 60)) 0.05
  refine ⟨fun _ => ?_, fun h => absurd hnormalises h⟩
  rw [hform, hsplit] at hle
  rw [weighed_eq, weights_eq]
  linarith

/-- Without registered nodes no edge is injected. -/
theorem inject_of_empty {self : Regularizer n ℝ} (hmeta : self.nodeMeta = ∅)
    (hthreshold : 0 < self.similarityThreshold) (checks : OverflowChecks) (currentTick : Nat)
    (pairs : List (Fin n × Fin n)) : self.inject checks currentTick pairs = .ok [] := by
  have hlow : ¬ self.similarityThreshold ≤ 0.0 := by
    norm_num
    exact hthreshold
  induction pairs with
  | nil => rfl
  | cons pair pairs ih =>
    rw [inject, ih, hmeta]
    split
    · rfl
    · exact if_neg hlow

/-- No path leads from one pair to the other. -/
theorem not_connected_twoPairs : ¬ twoPairs.graph.Connected := by
  have hside : ∀ u v, twoPairs.graph.Adj u v → (u < 2 ↔ v < 2) := by
    have hedge : ∀ u v, (∃ w, (u, v, w) ∈ twoPairs.physicalEdges) → (u < 2 ↔ v < 2) := by
      rintro u v ⟨w, hmem⟩
      rcases List.mem_cons.mp hmem with h | h
      · cases h
        decide
      · cases List.mem_singleton.mp h
        decide
    rintro u v ⟨-, hadj | hadj⟩
    · exact hedge u v hadj
    · exact (hedge v u hadj).symm
  intro hconnected
  obtain ⟨walk⟩ := hconnected.preconnected 0 2
  have hsides : ∀ u v, twoPairs.graph.Walk u v → (u < 2 ↔ v < 2) := by
    intro u v walk
    induction walk with
    | nil => rfl
    | cons hadj _ ih => exact (hside _ _ hadj).trans ih
  exact absurd ((hsides 0 2 walk).mp (by decide)) (by decide)

/-- The two pairs are reported. -/
theorem active_of_disconnected_iff_twoPairs :
    ∃ report t, twoPairs.tick .on 0 = .ok (report, t) ∧ report.regularizerActive = true := by
  obtain ⟨e⟩ := twoPairs.balanced_physicalOnly.exists_eigenbasis
  have hinject : twoPairs.inject .on 0 (pairs 4) = .ok [] :=
    inject_of_empty rfl (by norm_num [twoPairs, new, updatePhysicalEdges]) .on 0 _
  have hrefresh : twoPairs.refresh .on 0 = .ok (0, twoPairs) := by
    rw [refresh, if_pos ((lambda2Raw_lt_iff (by decide) e).mpr (rawSmall_twoPairs e)), hinject]
    rfl
  obtain ⟨report, t, htick⟩ := tick_of_refresh hrefresh
  have hactive := (active_of_disconnected_iff (by decide) _ .on 0 e).mpr
    (.inr (rawSmall_twoPairs e)) not_connected_twoPairs
  exact ⟨report, t, htick, hactive report t htick⟩

/-- Three nodes, two of which a heavy edge joins. -/
noncomputable def heavyPair : Regularizer 3 ℝ :=
  (new 3 0.01 0.5).updatePhysicalEdges [(0, 1, 500)]

theorem dot_heavyPair (x : Fin 3 → ℝ) (i : Fin 3) :
    dot (heavyPair.buildPhysicalOnly i) x = 500 * ends 0 1 i * (x 0 - x 1) + 0.01 * x i := by
  rw [buildPhysicalOnly, dot_addDiagonal]
  change dot (addWeight (fun _ _ => 0.0) 0 1 500 i) x + _ = _
  rw [dot_addWeight, dot_zero, zero_add]
  rfl

theorem form_heavyPair (x : Fin 3 → ℝ) :
    form heavyPair.buildPhysicalOnly x = 500 * (x 0 - x 1) ^ 2 + 0.01 * ∑ i, x i ^ 2 := by
  rw [form_physicalOnly]
  change form (addWeight (fun _ _ => 0.0) 0 1 500) x + _ = _
  rw [form_addWeight, form_zero, zero_add]
  rfl

/-- The eigenvalues are `epsilon` and one far from 10. -/
theorem value_heavyPair (e : Eigenbasis (operator heavyPair.buildPhysicalOnly) (Fin 3))
    (j : Fin 3) : e.value j = 0.01 ∨ e.value j = 1000.01 := by
  have heigen : ∀ i, 500 * ends 0 1 i * (e.basis j 0 - e.basis j 1) + 0.01 * e.basis j i =
      e.value j * e.basis j i := by
    intro i
    rw [← dot_heavyPair]
    have happly := e.apply_basis j
    exact congrArg (fun x : EuclideanSpace ℝ (Fin 3) => x i)
      ((operator_toLp _ (e.basis j).ofLp).symm.trans happly)
  by_contra hother
  obtain ⟨hsmall, hlarge⟩ := not_or.mp hother
  have h0 := heigen 0
  have h1 := heigen 1
  have h2 := heigen 2
  simp [ends, unit] at h0 h1 h2
  have hpair : e.basis j 0 = 0 ∧ e.basis j 1 = 0 :=
    eq_zero_of_pair (w := 500) (by linarith) (by linarith) hsmall
      fun h => hlarge (h.trans (by norm_num))
  have hlast : e.basis j 2 = 0 := h2.resolve_left (Ne.symm hsmall)
  have hnorm := sum_sq_basis e j
  rw [Fin.sum_univ_three, hpair.1, hpair.2, hlast] at hnorm
  norm_num at hnorm

/-- The start vector is not flat. -/
theorem le_form_heavyPair : 0.05 ≤ form heavyPair.buildPhysicalOnly (unitStart 3) := by
  have hpos : 0 < ‖WithLp.toLp 2 (projectOut (startVector 3 ℝ))‖ := by
    have hlong := norm_projectOut_start (n := 3) (by decide)
    linarith
  have hnorm : ‖WithLp.toLp 2 (projectOut (startVector 3 ℝ))‖ ^ 2 ≤ 12 := by
    have hshort := norm_sq_projectOut_start_le (n := 3) (by decide)
    norm_num at hshort
    exact hshort
  have hstep : 0.1 < projectOut (startVector 3 ℝ) 1 - projectOut (startVector 3 ℝ) 0 :=
    projectOut_start_step (by decide)
  have hdiff : unitStart 3 0 - unitStart 3 1 =
      -(projectOut (startVector 3 ℝ) 1 - projectOut (startVector 3 ℝ) 0) /
        ‖WithLp.toLp 2 (projectOut (startVector 3 ℝ))‖ := by
    rw [unitStart_eq (by decide)]
    simp only [PiLp.smul_apply, smul_eq_mul]
    ring
  have hsquare : (0.01 : ℝ) ≤
      (projectOut (startVector 3 ℝ) 1 - projectOut (startVector 3 ℝ) 0) ^ 2 := by
    calc (0.01 : ℝ) = 0.1 ^ 2 := by norm_num
      _ ≤ _ := by gcongr
  have hrest : 0 ≤ ∑ i, unitStart 3 i ^ 2 := Finset.sum_nonneg fun i _ => sq_nonneg _
  rw [form_heavyPair, hdiff, div_pow, neg_sq]
  have hquot : (0.01 : ℝ) / 12 ≤
      (projectOut (startVector 3 ℝ) 1 - projectOut (startVector 3 ℝ) 0) ^ 2 /
        ‖WithLp.toLp 2 (projectOut (startVector 3 ℝ))‖ ^ 2 := by
    gcongr
  linarith

/-- Where the eigenvalues are small or further from 10 than `epsilon`, their weighed mean is no less
than that of the start. -/
theorem not_rawSmall_heavyPair (e : Eigenbasis (operator heavyPair.buildPhysicalOnly) (Fin 3)) :
    ¬ RawSmall e := by
  have hnormalises : Normalises e 60 := by
    refine normalises_of_forall e (by decide) (fun j => ?_) 60
    rcases value_heavyPair e j with hj | hj <;> rw [hj] <;> norm_num
  have hgrow : ∀ j, (9.99 : ℝ) ^ (2 * 60) * (e.value j - 0.05) ≤
      (10 - e.value j) ^ (2 * 60) * (e.value j - 0.05) := by
    intro j
    rcases value_heavyPair e j with hj | hj
    · have hsame : 10 - e.value j = 9.99 := by
        rw [hj]
        norm_num
      rw [hsame]
    · have hfar : (9.99 : ℝ) ^ 2 ≤ (10 - e.value j) ^ 2 := by
        rw [hj]
        norm_num
      have hlarge : 0 ≤ e.value j - 0.05 := by
        rw [hj]
        norm_num
      rw [pow_mul, pow_mul]
      exact mul_le_mul_of_nonneg_right (pow_le_pow_left₀ (sq_nonneg _) hfar 60) hlarge
  have hstart : e.moment (unitStart 3) (fun x => (9.99 : ℝ) ^ (2 * 60) * (x - 0.05)) =
      (9.99 : ℝ) ^ (2 * 60) * (form heavyPair.buildPhysicalOnly (unitStart 3) - 0.05) := by
    have hone := e.moment_mul_sub (unitStart 3) (fun _ => 1) 0.05
    simp only [one_mul] at hone
    rw [e.moment_const_mul, hone, e.moment_id, e.moment_one, norm_unitStart (by decide),
      inner_operator, one_pow, mul_one]
  have hend := e.moment_mul_sub (unitStart 3) (fun x => (10 - x) ^ (2 * 60)) 0.05
  have hle := e.moment_le (f := fun x => (9.99 : ℝ) ^ (2 * 60) * (x - 0.05))
    (g := fun x => (10 - x) ^ (2 * 60) * (x - 0.05)) hgrow (unitStart 3)
  have hform :
      0 ≤ (9.99 : ℝ) ^ (2 * 60) * (form heavyPair.buildPhysicalOnly (unitStart 3) - 0.05) :=
    mul_nonneg (by positivity) (sub_nonneg.mpr le_form_heavyPair)
  intro hsmall
  have hlt := hsmall.1 hnormalises
  rw [hstart, hend] at hle
  rw [weighed_eq, weights_eq] at hlt
  linarith

/-- A heavy edge hides that a node has no edge. -/
theorem not_active_of_disconnected :
    ¬ ∀ (n : Nat) (self : Regularizer n ℝ) (checks : OverflowChecks) (currentTick : Nat)
      (report : RegularizationReport ℝ) (t : Regularizer n ℝ), 2 ≤ n → self.epsilon = 0.01 →
        (∀ edge ∈ self.physicalEdges, 0 < edge.2.2) → ¬ self.graph.Connected →
        self.tick checks currentTick = .ok (report, t) → report.regularizerActive = true := by
  intro h
  obtain ⟨e⟩ := heavyPair.balanced_physicalOnly.exists_eigenbasis
  have hraw : ¬ heavyPair.lambda2Raw < 0.05 :=
    (lambda2Raw_lt_iff (by decide) e).not.mpr (not_rawSmall_heavyPair e)
  obtain ⟨report, t, htick, hinactive⟩ := tick_of_not_lt hraw .on 0
  have hpositive : ∀ edge ∈ heavyPair.physicalEdges, 0 < edge.2.2 := by
    intro edge hedge
    cases List.mem_singleton.mp hedge
    norm_num
  have hdisconnected : ¬ heavyPair.graph.Connected := by
    intro hconnected
    obtain ⟨v, hadj⟩ := hconnected.preconnected.exists_adj_of_nontrivial 2
    obtain ⟨-, ⟨_, hmem⟩ | ⟨_, hmem⟩⟩ := hadj
    · cases List.mem_singleton.mp hmem
    · cases List.mem_singleton.mp hmem
  have hactive := h 3 heavyPair .on 0 report t (by decide) rfl hpositive hdisconnected htick
  exact Bool.false_ne_true (hinactive.symm.trans hactive)

/-! ## The other estimate -/

theorem balanced_regularized (self : Regularizer n ℝ) :
    Balanced self.epsilon self.buildRegularizedLaplacian :=
  ((balanced_zero.foldl self.physicalEdges).foldl self.virtualEdges).addDiagonal self.epsilon

/-- The parameters and the weights are such that the Laplacian is positive. -/
structure Positive (s : Regularizer n ℝ) : Prop where
  epsilon : 0 < s.epsilon
  alpha : 0 ≤ s.alpha
  threshold : 0 < s.similarityThreshold
  physical : ∀ edge ∈ s.physicalEdges, 0 < edge.2.2
  virtual : ∀ ve ∈ s.virtualEdges, 0 ≤ ve.weight

theorem Positive.le_form {self : Regularizer n ℝ} (h : self.Positive) (x : Fin n → ℝ) :
    self.epsilon * ∑ i, x i ^ 2 ≤ form self.buildRegularizedLaplacian x := by
  have hedges : 0 ≤ form (self.virtualEdges.foldl (fun l ve => addWeight l ve.src ve.dst ve.weight)
      (physicalRows self.physicalEdges)) x := by
    calc 0 = form (fun _ _ => (0.0 : ℝ)) x := (form_zero x).symm
      _ ≤ form (physicalRows self.physicalEdges) x :=
        form_le_foldl (fun edge hedge => (h.physical edge hedge).le) _ x
      _ ≤ _ := form_le_foldl h.virtual _ x
  rw [buildRegularizedLaplacian, form_addDiagonal]
  linarith

end Regularizer

/-- What an action sets is positive. -/
def RegularizerAction.Positive : RegularizerAction n ℝ → Prop
  | .registerNode _ _ => True
  | .updatePhysicalEdges edges => ∀ edge ∈ edges, 0 < edge.2.2
  | .configure epsilon alpha similarityThreshold =>
    0 < epsilon ∧ 0 ≤ alpha ∧ 0 < similarityThreshold
  | .tick _ => True

namespace Regularizer

variable {checks : OverflowChecks} {s t : Regularizer n ℝ}

theorem Positive.refresh {currentTick injected : Nat} (h : s.Positive)
    (hrefresh : s.refresh checks currentTick = .ok (injected, t)) : t.Positive := by
  rcases refresh_cases hrefresh with ⟨-, edges, hedges, rfl⟩ | ⟨-, rfl⟩
  · refine ⟨h.epsilon, h.alpha, h.threshold, h.physical, fun ve hve => ?_⟩
    obtain ⟨-, -, sim, hsim, hweight⟩ := (inject_spec hedges).2 ve hve
    rw [hweight]
    exact mul_nonneg h.alpha (h.threshold.le.trans hsim)
  · exact ⟨h.epsilon, h.alpha, h.threshold, h.physical,
      fun ve hve => h.virtual ve (List.mem_of_mem_filter hve)⟩

theorem Positive.step {a : RegularizerAction n ℝ} (h : s.Positive) (ha : a.Positive)
    (hstep : Step checks s a t) : t.Positive := by
  cases a with
  | registerNode id metadata =>
    cases hstep
    exact ⟨h.epsilon, h.alpha, h.threshold, h.physical, h.virtual⟩
  | updatePhysicalEdges edges =>
    cases hstep
    exact ⟨h.epsilon, h.alpha, h.threshold, ha, h.virtual⟩
  | configure epsilon alpha similarityThreshold =>
    cases hstep
    exact ⟨ha.1, ha.2.1, ha.2.2, h.physical, h.virtual⟩
  | tick currentTick =>
    obtain ⟨report, htick⟩ := step_tick_iff.mp hstep
    obtain ⟨_, r, hrefresh, -, -, _, rfl⟩ := tick_cases htick
    have hr := h.refresh hrefresh
    exact ⟨hr.epsilon, hr.alpha, hr.threshold, hr.physical, hr.virtual⟩

theorem Positive.run {ε α : ℝ} (hε : 0 < ε) (hα : 0 ≤ α) {as : List (RegularizerAction n ℝ)}
    (h : Run (Step checks) (fun _ a => a.Positive) (new n ε α) as s) : s.Positive := by
  refine h.invariant ⟨hε, hα, ?_, ?_, ?_⟩ fun t a u ht ha hstep => ht.step ha hstep
  · change (0 : ℝ) < 0.4
    norm_num
  · exact fun edge hedge => absurd hedge List.not_mem_nil
  · exact fun ve hve => absurd hve List.not_mem_nil

/-- After any run with positive parameters and weights, a tick reports `epsilon` or more exactly if
the loop normalises at all, or what it leaves is no less than `epsilon` without. -/
theorem epsilon_le_lambda2Regularized_iff (hn : 2 ≤ n) {ε α : ℝ} (hε : 0 < ε) (hα : 0 ≤ α)
    {as : List (RegularizerAction n ℝ)}
    (hrun : Run (Step checks) (fun _ a => a.Positive) (new n ε α) as s) {currentTick injected : Nat}
    (hrefresh : s.refresh checks currentTick = .ok (injected, t))
    (e : Eigenbasis (operator t.buildRegularizedLaplacian) (Fin n)) :
    (∀ report u, s.tick checks currentTick = .ok (report, u) →
        s.epsilon ≤ report.lambda2Regularized) ↔
      Normalises e 80 ∨ s.epsilon ≤ weighed e 80 := by
  have hpositive := Positive.run hε hα hrun
  have hsame : t.epsilon = s.epsilon := by
    rcases refresh_cases hrefresh with ⟨-, _, -, rfl⟩ | ⟨-, rfl⟩ <;> rfl
  have hreport : ∀ report u, s.tick checks currentTick = .ok (report, u) →
      report.lambda2Regularized = (fiedlerPowerIter t.buildRegularizedLaplacian 80).1 := by
    intro report u htick
    obtain ⟨_, _, hrefresh', -, hlambda, -⟩ := tick_cases htick
    cases hrefresh.symm.trans hrefresh'
    exact hlambda
  have hiff : (∀ report u, s.tick checks currentTick = .ok (report, u) →
        s.epsilon ≤ report.lambda2Regularized) ↔
      s.epsilon ≤ (fiedlerPowerIter t.buildRegularizedLaplacian 80).1 := by
    constructor
    · intro h
      obtain ⟨report, u, htick⟩ := tick_of_refresh hrefresh
      rw [← hreport report u htick]
      exact h report u htick
    · intro h report u htick
      rw [hreport report u htick]
      exact h
  rw [hiff]
  by_cases hnormalises : Normalises e 80
  · refine iff_of_true ?_ (.inl hnormalises)
    have hvalue := le_value e (hpositive.refresh hrefresh).le_form
    have hpos := weights_pos e hn hnormalises
    rw [fiedlerPowerIter_of_normalises e hn t.balanced_regularized hnormalises]
    refine le_max_of_le_left ((le_div_iff₀ hpos).mpr ?_)
    rw [weighed_eq, weights_eq, ← e.moment_const_mul, ← hsame]
    refine e.moment_le (fun j => ?_) _
    have hweight : 0 ≤ (10 - e.value j) ^ (2 * 80) := by
      rw [pow_mul]
      exact pow_nonneg (sq_nonneg _) 80
    rw [mul_comm]
    exact mul_le_mul_of_nonneg_left (hvalue j) hweight
  · rw [fiedlerPowerIter_of_not_normalises e hn t.balanced_regularized hnormalises, le_max_iff]
    constructor
    · rintro (hle | hle)
      · exact .inr hle
      · exact absurd hpositive.epsilon (not_lt.mpr hle)
    · rintro (h | hle)
      · exact absurd h hnormalises
      · exact .inl hle

/-- Two nodes that an edge joins. -/
noncomputable def pairOf (w : ℝ) : Regularizer 2 ℝ :=
  (new 2 0.01 0.5).updatePhysicalEdges [(0, 1, w)]

theorem physicalRows_pair (w : ℝ) : physicalRows [((0 : Fin 2), (1 : Fin 2), w)] 0 1 = -w := by
  change addWeight (fun _ _ : Fin 2 => (0.0 : ℝ)) 0 1 w 0 1 = _
  rw [addWeight_apply]
  norm_num [ends, unit]

theorem operator_pairOf (w : ℝ) :
    operator (pairOf w).buildRegularizedLaplacian (unitStart 2) =
      (0.01 + 2 * w) • unitStart 2 := by
  have hentry : (pairOf w).buildRegularizedLaplacian 0 1 = -w := physicalRows_pair w
  rw [operator_two (pairOf w).balanced_regularized, hentry]
  change ((0.01 : ℝ) - 2 * -w) • _ = _
  rw [mul_neg, sub_neg_eq_add]

theorem run_pairOf {w : ℝ} (hw : 0 < w) :
    Run (Step checks) (fun _ a => a.Positive) (new 2 0.01 0.5)
      [.updatePhysicalEdges [(0, 1, w)]] (pairOf w) := by
  refine Run.single (fun edge hedge => ?_) rfl
  cases List.mem_singleton.mp hedge
  exact hw

/-- Without virtual edges the two Laplacians are one. -/
theorem lambda2Raw_pairOf (w : ℝ) :
    (pairOf w).lambda2Raw = (fiedlerPowerIter (pairOf w).buildRegularizedLaplacian 60).1 := rfl

/-- An edge of weight 1 leaves the largest eigenvalue under 10. -/
theorem epsilon_le_lambda2Regularized_iff_pair :
    ∃ report u, (pairOf 1).tick .on 0 = .ok (report, u) ∧ 0.01 ≤ report.lambda2Regularized := by
  have hraw : ¬ (pairOf 1).lambda2Raw < 0.05 := by
    rw [lambda2Raw_pairOf, fiedlerPowerIter_of_eigenvector le_rfl (pairOf 1).balanced_regularized
      (operator_pairOf 1) (by norm_num) (by norm_num)]
    norm_num
  have hrefresh : (pairOf 1).refresh .on 0 = .ok (0, pairOf 1) := if_neg hraw
  obtain ⟨e⟩ := (pairOf 1).balanced_regularized.exists_eigenbasis
  have hnormalises : Normalises e 80 := by
    refine (normalises_iff e 80).mpr ((e.scales_iff (by norm_num) 10 _ 80).mpr (.inl ?_))
    rw [shifted_apply, operator_pairOf, ← sub_smul, norm_smul, norm_unitStart le_rfl]
    norm_num
  obtain ⟨report, u, htick⟩ := tick_of_refresh hrefresh
  have hle := (epsilon_le_lambda2Regularized_iff le_rfl (by norm_num) (by norm_num)
    (run_pairOf one_pos) hrefresh e).mpr (.inl hnormalises)
  exact ⟨report, u, htick, hle report u htick⟩

/-- An edge that makes the largest eigenvalue 10 leaves the estimate at zero. -/
theorem not_epsilon_le_lambda2Regularized :
    ¬ ∀ (n : Nat) (ε α : ℝ) (checks : OverflowChecks) (as : List (RegularizerAction n ℝ))
      (s : Regularizer n ℝ) (currentTick : Nat) (report : RegularizationReport ℝ)
      (t : Regularizer n ℝ), 2 ≤ n → 0 < ε → 0 ≤ α →
        Run (Step checks) (fun _ a => a.Positive) (new n ε α) as s →
        s.tick checks currentTick = .ok (report, t) → s.epsilon ≤ report.lambda2Regularized := by
  intro h
  have hten : operator (pairOf 4.995).buildRegularizedLaplacian (unitStart 2) =
      (10 : ℝ) • unitStart 2 := by
    rw [operator_pairOf]
    norm_num
  have hestimate : ∀ k, (fiedlerPowerIter (pairOf 4.995).buildRegularizedLaplacian (k + 1)).1 = 0 :=
    fiedlerPowerIter_of_ten two_pos (pairOf 4.995).balanced_regularized hten
  have hraw : (pairOf 4.995).lambda2Raw < 0.05 := by
    rw [lambda2Raw_pairOf, hestimate]
    norm_num
  have hrefresh : (pairOf 4.995).refresh .on 0 = .ok (0, pairOf 4.995) := if_pos hraw
  obtain ⟨report, t, htick⟩ := tick_of_refresh hrefresh
  have hle := h 2 0.01 0.5 .on _ (pairOf 4.995) 0 report t le_rfl (by norm_num) (by norm_num)
    (run_pairOf (by norm_num)) htick
  obtain ⟨_, s, hrefresh', -, hlambda, -⟩ := tick_cases htick
  cases hrefresh.symm.trans hrefresh'
  rw [hlambda, hestimate] at hle
  change (0.01 : ℝ) ≤ 0 at hle
  norm_num at hle

end Regularizer

end ActiveDefense.Spectral
