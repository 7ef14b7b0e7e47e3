import ActiveDefense.Lib.Jacobi
import Mathlib.Algebra.Polynomial.Sequence
import Mathlib.Analysis.SpecialFunctions.Integrability.Basic
import Mathlib.Topology.Algebra.Polynomial

/-!
# Expansions in orthogonal polynomials

A sequence of polynomials of the degrees `0, 1, ..` has unique coefficients (`coeffs_unique`), and
when its first members are orthogonal for a linear functional, these are the values of the functional
divided by the norms (`eq_sum_of_orthogonal`). For the integral with the weight of the Jacobi
polynomials the norms are positive (`weightIntegral_mul_self_pos`).
-/

namespace ActiveDefense.Orthogonal

open Polynomial MeasureTheory

section
variable {K : Type*} [Field K] (S : Sequence K)

/-- The coefficients of an expansion are unique. -/
theorem coeffs_unique {m : ℕ} {c d : ℕ → K}
    (h : ∑ k ∈ Finset.range m, C (c k) * S k = ∑ k ∈ Finset.range m, C (d k) * S k) {k : ℕ}
    (hk : k < m) : c k = d k := by
  have hzero : ∑ k ∈ Finset.range m, (c k - d k) • S k = 0 := by
    simp only [sub_smul, Finset.sum_sub_distrib, ← C_mul']
    exact sub_eq_zero.mpr h
  have hcoeff := linearIndependent_iff'.mp S.linearIndependent (Finset.range m) _ hzero k
    (Finset.mem_range.mpr hk)
  exact sub_eq_zero.mp hcoeff

/-- A polynomial is the sum of its projections to orthogonal polynomials. -/
theorem eq_sum_of_orthogonal (I : K[X] →ₗ[K] K) {N : ℕ}
    (horth : ∀ j ≤ N, ∀ k ≤ N, j ≠ k → I (S j * S k) = 0) (hnorm : ∀ k ≤ N, I (S k * S k) ≠ 0)
    {f : K[X]} (hf : f.natDegree ≤ N) :
    f = ∑ k ∈ Finset.range (N + 1), C (I (f * S k) / I (S k * S k)) * S k := by
  have hunit : ∀ k < N + 1, IsUnit (S k).leadingCoeff := fun k _ =>
    (leadingCoeff_ne_zero.mpr (S.ne_zero k)).isUnit
  have hmem : f ∈ Submodule.span K (S '' Set.Iio (N + 1)) := by
    rw [S.span_degreeLT hunit, mem_degreeLT]
    exact degree_le_natDegree.trans_lt (Nat.cast_lt.mpr (Nat.lt_succ_of_le hf))
  clear hf
  induction hmem using Submodule.span_induction with
  | mem f hmem =>
    obtain ⟨j, hj, rfl⟩ := hmem
    have hj' : j ≤ N := Nat.lt_succ_iff.mp hj
    rw [Finset.sum_eq_single j]
    · rw [div_self (hnorm j hj'), C_1, one_mul]
    · intro k hk hne
      rw [horth j hj' k (Nat.lt_succ_iff.mp (Finset.mem_range.mp hk)) hne.symm, zero_div, C_0,
        zero_mul]
    · intro hnot
      exact absurd (Finset.mem_range.mpr hj) hnot
  | zero => simp
  | add f g _ _ hf hg =>
    nth_rewrite 1 [hf, hg]
    simp only [add_mul, map_add, add_div, Finset.sum_add_distrib]
  | smul a f _ hf =>
    nth_rewrite 1 [hf]
    rw [Finset.smul_sum]
    refine Finset.sum_congr rfl fun k _ => ?_
    rw [smul_mul_assoc, map_smul, smul_eq_mul, mul_div_assoc, C_mul, mul_assoc, C_mul' a]

/-- Linear functionals that agree on the powers agree on the polynomials of smaller degree. -/
theorem eq_of_pow {I J : K[X] →ₗ[K] K} {m : ℕ} (h : ∀ k < m, I (X ^ k) = J (X ^ k)) {f : K[X]}
    (hf : f.natDegree < m) : I f = J f := by
  rw [f.as_sum_range_C_mul_X_pow' hf, map_sum, map_sum]
  refine Finset.sum_congr rfl fun k hk => ?_
  rw [C_mul', map_smul, map_smul, h k (Finset.mem_range.mp hk)]

end

/-! ## The weight of the Jacobi polynomials -/

/-- The weight of the parameters. -/
noncomputable def weight (α β x : ℝ) : ℝ := (1 - x) ^ α * (1 + x) ^ β

variable {α β : ℝ}

theorem weight_nonneg {x : ℝ} (hx : x ∈ Set.Ioc (-1) 1) : 0 ≤ weight α β x :=
  mul_nonneg (Real.rpow_nonneg (by linarith [hx.2]) α) (Real.rpow_nonneg (by linarith [hx.1]) β)

theorem weight_pos {x : ℝ} (hx : x ∈ Set.Ioo (-1) 1) : 0 < weight α β x :=
  mul_pos (Real.rpow_pos_of_pos (by linarith [hx.2]) α) (Real.rpow_pos_of_pos (by linarith [hx.1]) β)

theorem intervalIntegrable_weight (hα : -1 < α) (hβ : -1 < β) :
    IntervalIntegrable (weight α β) volume (-1) 1 := by
  -- on each side of zero, one of the factors is continuous
  have hleft : IntervalIntegrable (weight α β) volume (-1) 0 := by
    have hpow : IntervalIntegrable (fun x : ℝ => (1 + x) ^ β) volume (-1) 0 := by
      have h := (intervalIntegral.intervalIntegrable_rpow' (a := 0) (b := 1) hβ).comp_add_left 1
      simpa using h
    refine hpow.continuousOn_mul (ContinuousOn.rpow_const (by fun_prop) fun x hx => .inl ?_)
    rw [Set.uIcc_of_le (by norm_num)] at hx
    linarith [hx.2]
  have hright : IntervalIntegrable (weight α β) volume 0 1 := by
    have hpow : IntervalIntegrable (fun x : ℝ => (1 - x) ^ α) volume 0 1 := by
      have h := (intervalIntegral.intervalIntegrable_rpow' (a := 0) (b := 1) hα).comp_sub_left 1
      simpa using h.symm
    refine hpow.mul_continuousOn (ContinuousOn.rpow_const (by fun_prop) fun x hx => .inl ?_)
    rw [Set.uIcc_of_le (by norm_num)] at hx
    linarith [hx.1]
  exact hleft.trans hright

theorem intervalIntegrable_mul_weight (hα : -1 < α) (hβ : -1 < β) (f : ℝ[X]) :
    IntervalIntegrable (fun x => f.eval x * weight α β x) volume (-1) 1 :=
  (intervalIntegrable_weight hα hβ).continuousOn_mul f.continuous.continuousOn

/-- The integral of a polynomial with the weight. -/
noncomputable def weightIntegral (α β : ℝ) (f : ℝ[X]) : ℝ :=
  ∫ x in (-1 : ℝ)..1, f.eval x * weight α β x

theorem weightIntegral_add (hα : -1 < α) (hβ : -1 < β) (f g : ℝ[X]) :
    weightIntegral α β (f + g) = weightIntegral α β f + weightIntegral α β g := by
  rw [weightIntegral, weightIntegral, weightIntegral, ← intervalIntegral.integral_add
    (intervalIntegrable_mul_weight hα hβ f) (intervalIntegrable_mul_weight hα hβ g)]
  simp only [eval_add, add_mul]

theorem weightIntegral_smul (a : ℝ) (f : ℝ[X]) :
    weightIntegral α β (a • f) = a * weightIntegral α β f := by
  rw [weightIntegral, weightIntegral, ← intervalIntegral.integral_const_mul]
  simp only [eval_smul, smul_eq_mul, mul_assoc]

/-- As a linear functional. -/
noncomputable def weightFunctional (hα : -1 < α) (hβ : -1 < β) : ℝ[X] →ₗ[ℝ] ℝ where
  toFun := weightIntegral α β
  map_add' := weightIntegral_add hα hβ
  map_smul' := weightIntegral_smul

/-- The norms are positive. -/
theorem weightIntegral_mul_self_pos (hα : -1 < α) (hβ : -1 < β) {f : ℝ[X]} (hf : f ≠ 0) :
    0 < weightIntegral α β (f * f) := by
  have hnonneg : 0 ≤ᵐ[volume.restrict (Set.uIoc (-1) 1)]
      fun x => (f * f).eval x * weight α β x := by
    rw [Set.uIoc_of_le (by norm_num)]
    refine (ae_restrict_mem measurableSet_Ioc).mono fun x hx => ?_
    dsimp only [Pi.zero_apply]
    rw [eval_mul]
    exact mul_nonneg (mul_self_nonneg _) (weight_nonneg hx)
  rw [weightIntegral, intervalIntegral.integral_pos_iff_support_of_nonneg_ae' hnonneg
    (intervalIntegrable_mul_weight hα hβ (f * f))]
  refine ⟨by norm_num, ?_⟩
  -- outside of the roots, which are finitely many, the integrand is positive
  have hsubset : Set.Ioo (-1 : ℝ) 1 \ f.roots.toFinset ⊆
      Function.support (fun x => (f * f).eval x * weight α β x) ∩ Set.Ioc (-1) 1 := by
    rintro x ⟨hx, hroot⟩
    refine ⟨?_, Set.Ioo_subset_Ioc_self hx⟩
    have heval : f.eval x ≠ 0 := by
      intro hzero
      exact hroot (by simpa [hf] using hzero)
    rw [Function.mem_support, eval_mul]
    exact mul_ne_zero (mul_ne_zero heval heval) (weight_pos hx).ne'
  refine lt_of_lt_of_le ?_ (measure_mono hsubset)
  rw [measure_sdiff_null ((Finset.finite_toSet _).measure_zero _), Real.volume_Ioo]
  norm_num

end ActiveDefense.Orthogonal
