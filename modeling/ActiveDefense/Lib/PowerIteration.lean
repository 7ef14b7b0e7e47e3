import Mathlib.Analysis.InnerProductSpace.Symmetric
import Mathlib.Analysis.InnerProductSpace.PiL2

/-!
# Power iteration with a threshold

A power iteration applies a symmetric operator over and over and scales what it gets to a unit
vector, unless that is no longer than a threshold: then it is left as it is. The lengths
`‖T^k v‖` of the powers are log-convex (`sq_norm_iterate_le`), so an iteration that scales at one
step scales at all later ones, and whether it ever scales shows in the first and the last power
(`powerStep_iterate`). In a basis of eigenvectors the Rayleigh quotient at the end is a quotient of
moments of the start vector (`inner_powerStep_iterate`).
-/

namespace ActiveDefense

variable {E : Type*} [NormedAddCommGroup E] [InnerProductSpace ℝ E] {T : E →ₗ[ℝ] E} {v : E}
  {τ : ℝ}

/-- Scales to a unit vector what is longer than the threshold. -/
noncomputable def scaleAbove (τ : ℝ) (v : E) : E := if τ < ‖v‖ then ‖v‖⁻¹ • v else v

/-- A step of the iteration. -/
noncomputable def powerStep (τ : ℝ) (T : E →ₗ[ℝ] E) (v : E) : E := scaleAbove τ (T v)

/-- The lengths of the powers are log-convex. -/
theorem sq_norm_iterate_le (hT : T.IsSymmetric) (v : E) (k : ℕ) :
    ‖T^[k + 1] v‖ ^ 2 ≤ ‖T^[k] v‖ * ‖T^[k + 2] v‖ := by
  calc ‖T^[k + 1] v‖ ^ 2 = inner ℝ (T^[k + 1] v) (T^[k + 1] v) :=
        (real_inner_self_eq_norm_sq _).symm
    _ = inner ℝ (T^[k] v) (T^[k + 2] v) := by
        rw [Function.iterate_succ_apply' T (k + 1), Function.iterate_succ_apply' T k]
        exact hT _ _
    _ ≤ ‖T^[k] v‖ * ‖T^[k + 2] v‖ := real_inner_le_norm _ _

/-- A step lengthens a power by at least what the first one lengthens a unit vector. -/
theorem mul_norm_le_norm_iterate (hT : T.IsSymmetric) (hv : ‖v‖ = 1) (k : ℕ) :
    ‖T^[k] v‖ * ‖T v‖ ≤ ‖T^[k + 1] v‖ := by
  induction k with
  | zero =>
    rw [Function.iterate_zero_apply, hv, one_mul, Function.iterate_one]
  | succ k ih =>
    have hconv := sq_norm_iterate_le hT v k
    rcases (norm_nonneg (T^[k] v)).eq_or_lt with hzero | hpos
    · have hk : T^[k + 1] v = 0 := by
        rw [Function.iterate_succ_apply', norm_eq_zero.mp hzero.symm, map_zero]
      rw [hk, norm_zero, zero_mul]
      exact norm_nonneg _
    · refine le_of_mul_le_mul_left ?_ hpos
      calc ‖T^[k] v‖ * (‖T^[k + 1] v‖ * ‖T v‖)
          = ‖T^[k + 1] v‖ * (‖T^[k] v‖ * ‖T v‖) := by ring
        _ ≤ ‖T^[k + 1] v‖ * ‖T^[k + 1] v‖ :=
            mul_le_mul_of_nonneg_left ih (norm_nonneg _)
        _ = ‖T^[k + 1] v‖ ^ 2 := (sq _).symm
        _ ≤ ‖T^[k] v‖ * ‖T^[k + 2] v‖ := hconv

/-- Powers that do not grow at one step did not grow before. -/
theorem norm_iterate_le_of_le (hT : T.IsSymmetric) {k : ℕ}
    (h : ‖T^[k + 2] v‖ ≤ ‖T^[k + 1] v‖) : ‖T^[k + 1] v‖ ≤ ‖T v‖ := by
  induction k with
  | zero => exact le_refl _
  | succ k ih =>
    have hback : ‖T^[k + 2] v‖ ≤ ‖T^[k + 1] v‖ := by
      have hconv := sq_norm_iterate_le hT v (k + 1)
      rcases (norm_nonneg (T^[k + 2] v)).eq_or_lt with hzero | hpos
      · rw [← hzero]
        exact norm_nonneg _
      · refine le_of_mul_le_mul_right ?_ hpos
        calc ‖T^[k + 2] v‖ * ‖T^[k + 2] v‖ = ‖T^[k + 2] v‖ ^ 2 := (sq _).symm
          _ ≤ ‖T^[k + 1] v‖ * ‖T^[k + 3] v‖ := hconv
          _ ≤ ‖T^[k + 1] v‖ * ‖T^[k + 2] v‖ := mul_le_mul_of_nonneg_left h (norm_nonneg _)
    exact hback.trans (ih hback)

/-- A power that is longer than the first one is followed by a longer one. -/
theorem norm_iterate_lt (hT : T.IsSymmetric) {k : ℕ} (h : ‖T v‖ < ‖T^[k + 1] v‖) :
    ‖T^[k + 1] v‖ < ‖T^[k + 2] v‖ := by
  by_contra hle
  exact absurd (norm_iterate_le_of_le hT (not_lt.mp hle)) (not_le.mpr h)

theorem norm_scale {w : E} {r : ℝ} (hr : 0 < r) : ‖r⁻¹ • w‖ = ‖w‖ / r := by
  rw [norm_smul, norm_inv, Real.norm_of_nonneg hr.le, inv_mul_eq_div]

/-- A step from a scaled power is the next power, scaled, if that is longer by more than the
threshold. -/
theorem powerStep_scaled {k : ℕ} (hpos : 0 < ‖T^[k] v‖)
    (hlong : τ * ‖T^[k] v‖ < ‖T^[k + 1] v‖) :
    powerStep τ T (‖T^[k] v‖⁻¹ • T^[k] v) = ‖T^[k + 1] v‖⁻¹ • T^[k + 1] v := by
  have hnorm : ‖T (‖T^[k] v‖⁻¹ • T^[k] v)‖ = ‖T^[k + 1] v‖ / ‖T^[k] v‖ := by
    rw [map_smul, norm_scale hpos, ← Function.iterate_succ_apply' T k]
  rw [powerStep, scaleAbove, hnorm, if_pos ((lt_div_iff₀ hpos).mpr hlong), map_smul, smul_smul,
    ← Function.iterate_succ_apply' T k, inv_div, div_mul_eq_mul_div, mul_inv_cancel₀ hpos.ne',
    one_div]

theorem norm_iterate_pos (hT : T.IsSymmetric) (hv : ‖v‖ = 1) (h : 0 < ‖T v‖) (k : ℕ) :
    0 < ‖T^[k] v‖ := by
  induction k with
  | zero =>
    rw [Function.iterate_zero_apply, hv]
    exact one_pos
  | succ k ih => exact (mul_pos ih h).trans_le (mul_norm_le_norm_iterate hT hv k)

/-- An iteration that has scaled scales at the next step. -/
theorem long_next (hT : T.IsSymmetric) (h0 : 0 ≤ τ) (h1 : τ < 1) (hv : ‖v‖ = 1) {k : ℕ}
    (hlong : τ < ‖T v‖ ∨ τ < ‖T^[k + 1] v‖) :
    0 < ‖T^[k + 1] v‖ ∧ τ * ‖T^[k + 1] v‖ < ‖T^[k + 2] v‖ ∧
      (τ < ‖T v‖ ∨ τ < ‖T^[k + 2] v‖) := by
  by_cases hfirst : τ < ‖T v‖
  · have hpos := norm_iterate_pos hT hv (h0.trans_lt hfirst) (k + 1)
    refine ⟨hpos, ?_, .inl hfirst⟩
    calc τ * ‖T^[k + 1] v‖ < ‖T v‖ * ‖T^[k + 1] v‖ := mul_lt_mul_of_pos_right hfirst hpos
      _ = ‖T^[k + 1] v‖ * ‖T v‖ := mul_comm _ _
      _ ≤ ‖T^[k + 2] v‖ := mul_norm_le_norm_iterate hT hv (k + 1)
  · have hlast := hlong.resolve_left hfirst
    have hgrows := norm_iterate_lt hT ((not_lt.mp hfirst).trans_lt hlast)
    have hpos := h0.trans_lt hlast
    refine ⟨hpos, ?_, .inr (hlast.trans hgrows)⟩
    calc τ * ‖T^[k + 1] v‖ ≤ 1 * ‖T^[k + 1] v‖ := mul_le_mul_of_nonneg_right h1.le hpos.le
      _ = ‖T^[k + 1] v‖ := one_mul _
      _ < ‖T^[k + 2] v‖ := hgrows

/-- The iteration from a unit vector gives the power, scaled exactly if the first or the last power
is longer than the threshold. -/
theorem powerStep_iterate (hT : T.IsSymmetric) (h0 : 0 ≤ τ) (h1 : τ < 1) (hv : ‖v‖ = 1) (k : ℕ) :
    (powerStep τ T)^[k + 1] v =
      if τ < ‖T v‖ ∨ τ < ‖T^[k + 1] v‖ then ‖T^[k + 1] v‖⁻¹ • T^[k + 1] v
      else T^[k + 1] v := by
  induction k with
  | zero =>
    simp only [Function.iterate_one, or_self, zero_add]
    rfl
  | succ k ih =>
    rw [Function.iterate_succ_apply', ih]
    by_cases hlong : τ < ‖T v‖ ∨ τ < ‖T^[k + 1] v‖
    · obtain ⟨hpos, hstep, hlong'⟩ := long_next hT h0 h1 hv hlong
      rw [if_pos hlong, if_pos hlong', powerStep_scaled hpos hstep]
    · rw [if_neg hlong, powerStep, scaleAbove, ← Function.iterate_succ_apply' T (k + 1)]
      have hfirst := (not_or.mp hlong).1
      by_cases hlast : τ < ‖T^[k + 2] v‖
      · rw [if_pos hlast, if_pos (.inr hlast)]
      · rw [if_neg hlast, if_neg (not_or.mpr ⟨hfirst, hlast⟩)]

/-! ## In a basis of eigenvectors -/

/-- The operator with the eigenvalues `σ - x`. -/
def shifted (σ : ℝ) (S : E →ₗ[ℝ] E) : E →ₗ[ℝ] E := σ • LinearMap.id - S

theorem shifted_apply (σ : ℝ) (S : E →ₗ[ℝ] E) (v : E) : shifted σ S v = σ • v - S v := rfl

/-- An orthonormal basis of eigenvectors, and their eigenvalues. -/
structure Eigenbasis (S : E →ₗ[ℝ] E) (ι : Type*) [Fintype ι] where
  basis : OrthonormalBasis ι ℝ E
  value : ι → ℝ
  apply_basis : ∀ j, S (basis j) = value j • basis j

namespace Eigenbasis

variable {ι : Type*} [Fintype ι] {S : E →ₗ[ℝ] E} (e : Eigenbasis S ι)

/-- The sum of a function of the eigenvalues, weighted with the squares of a vector's
coordinates. -/
noncomputable def moment (v : E) (f : ℝ → ℝ) : ℝ :=
  ∑ j, f (e.value j) * inner ℝ (e.basis j) v ^ 2

theorem inner_basis_apply (x : E) (j : ι) :
    inner ℝ (e.basis j) (S x) = e.value j * inner ℝ (e.basis j) x := by
  have hx : S x = ∑ i, (inner ℝ (e.basis i) x * e.value i) • e.basis i := by
    calc S x = S (∑ i, inner ℝ (e.basis i) x • e.basis i) := by rw [e.basis.sum_repr']
      _ = ∑ i, (inner ℝ (e.basis i) x * e.value i) • e.basis i := by
        simp only [map_sum, map_smul, e.apply_basis, smul_smul]
  rw [hx, e.basis.orthonormal.inner_right_fintype, mul_comm]

theorem isSymmetric (e : Eigenbasis S ι) : S.IsSymmetric := by
  intro x y
  rw [← e.basis.sum_inner_mul_inner, ← e.basis.sum_inner_mul_inner]
  refine Finset.sum_congr rfl fun j _ => ?_
  rw [real_inner_comm, e.inner_basis_apply, e.inner_basis_apply, real_inner_comm x]
  ring

/-- The basis is one of the shifted operator too. -/
def shift (σ : ℝ) : Eigenbasis (shifted σ S) ι where
  basis := e.basis
  value j := σ - e.value j
  apply_basis j := by rw [shifted_apply, e.apply_basis, sub_smul]

theorem inner_basis_iterate (v : E) (k : ℕ) (j : ι) :
    inner ℝ (e.basis j) (S^[k] v) = e.value j ^ k * inner ℝ (e.basis j) v := by
  induction k with
  | zero => rw [Function.iterate_zero_apply, pow_zero, one_mul]
  | succ k ih => rw [Function.iterate_succ_apply', e.inner_basis_apply, ih, pow_succ', mul_assoc]

/-- The quadratic form at a power of the shifted operator. -/
theorem inner_iterate_shift (σ : ℝ) (v : E) (k : ℕ) :
    inner ℝ ((shifted σ S)^[k] v) (S ((shifted σ S)^[k] v)) =
      e.moment v fun x => (σ - x) ^ (2 * k) * x := by
  rw [← e.basis.sum_inner_mul_inner]
  refine Finset.sum_congr rfl fun j _ => ?_
  have hcoord := (e.shift σ).inner_basis_iterate v k j
  rw [real_inner_comm, e.inner_basis_apply]
  change inner ℝ (e.basis j) _ = (σ - e.value j) ^ k * inner ℝ (e.basis j) v at hcoord
  rw [hcoord]
  ring

theorem sq_norm_iterate_shift (σ : ℝ) (v : E) (k : ℕ) :
    ‖(shifted σ S)^[k] v‖ ^ 2 = e.moment v fun x => (σ - x) ^ (2 * k) := by
  rw [← real_inner_self_eq_norm_sq, ← e.basis.sum_inner_mul_inner]
  refine Finset.sum_congr rfl fun j _ => ?_
  have hcoord := (e.shift σ).inner_basis_iterate v k j
  change inner ℝ (e.basis j) _ = (σ - e.value j) ^ k * inner ℝ (e.basis j) v at hcoord
  rw [real_inner_comm, hcoord]
  ring

/-- Whether the iteration of the shifted operator scales at all in `k` steps. -/
def Scales (τ σ : ℝ) (v : E) (k : ℕ) : Prop :=
  τ ^ 2 < e.moment v (fun x => (σ - x) ^ 2) ∨ τ ^ 2 < e.moment v fun x => (σ - x) ^ (2 * k)

theorem scales_iff (h0 : 0 ≤ τ) (σ : ℝ) (v : E) (k : ℕ) :
    e.Scales τ σ v k ↔ τ < ‖(shifted σ S) v‖ ∨
      τ < ‖(shifted σ S)^[k] v‖ := by
  have hfirst := e.sq_norm_iterate_shift σ v 1
  rw [Function.iterate_one] at hfirst
  rw [Scales, ← hfirst, ← e.sq_norm_iterate_shift, sq_lt_sq₀ h0 (norm_nonneg _),
    sq_lt_sq₀ h0 (norm_nonneg _)]

theorem moment_pos_of_scales (h0 : 0 ≤ τ) (hv : ‖v‖ = 1) {σ : ℝ} {k : ℕ}
    (h : e.Scales τ σ v k) : 0 < e.moment v fun x => (σ - x) ^ (2 * k) := by
  rcases (e.scales_iff h0 σ v k).mp h with hfirst | hlast
  · rw [← e.sq_norm_iterate_shift]
    exact pow_pos (norm_iterate_pos (e.shift σ).isSymmetric hv (h0.trans_lt hfirst) k) 2
  · rw [← e.sq_norm_iterate_shift]
    exact pow_pos (h0.trans_lt hlast) 2

theorem moment_le {f g : ℝ → ℝ} (h : ∀ j, f (e.value j) ≤ g (e.value j)) (v : E) :
    e.moment v f ≤ e.moment v g :=
  Finset.sum_le_sum fun j _ => mul_le_mul_of_nonneg_right (h j) (sq_nonneg _)

theorem moment_mul_sub (v : E) (f : ℝ → ℝ) (c : ℝ) :
    e.moment v (fun x => f x * (x - c)) = e.moment v (fun x => f x * x) - c * e.moment v f := by
  simp only [moment, Finset.mul_sum, ← Finset.sum_sub_distrib]
  refine Finset.sum_congr rfl fun j _ => ?_
  ring

theorem moment_const_mul (v : E) (c : ℝ) (f : ℝ → ℝ) :
    e.moment v (fun x => c * f x) = c * e.moment v f := by
  simp only [moment, mul_assoc, Finset.mul_sum]

theorem moment_one (v : E) : e.moment v (fun _ => 1) = ‖v‖ ^ 2 := by
  have hnorm := e.sq_norm_iterate_shift 0 v 0
  simpa using hnorm.symm

theorem moment_id (v : E) : e.moment v (fun x => x) = inner ℝ v (S v) := by
  have hform := e.inner_iterate_shift 0 v 0
  simpa using hform.symm

/-- The quadratic form where the iteration ends: the Rayleigh quotient of the last power, if the
iteration scales. -/
theorem inner_powerStep_iterate (h0 : 0 ≤ τ) (h1 : τ < 1) (hv : ‖v‖ = 1) (σ : ℝ) (k : ℕ) :
    let w := (powerStep τ (shifted σ S))^[k + 1] v
    (e.Scales τ σ v (k + 1) → inner ℝ w (S w) =
        (e.moment v fun x => (σ - x) ^ (2 * (k + 1)) * x) /
          e.moment v fun x => (σ - x) ^ (2 * (k + 1))) ∧
      (¬ e.Scales τ σ v (k + 1) → inner ℝ w (S w) =
        e.moment v fun x => (σ - x) ^ (2 * (k + 1)) * x) := by
  intro w
  have hw : w = _ := powerStep_iterate (e.shift σ).isSymmetric h0 h1 hv k
  rw [e.scales_iff h0]
  constructor
  · intro hscales
    rw [if_pos hscales] at hw
    rw [hw, map_smul, real_inner_smul_left, real_inner_smul_right, e.inner_iterate_shift,
      ← e.sq_norm_iterate_shift]
    ring
  · intro hscales
    rw [if_neg hscales] at hw
    rw [hw, e.inner_iterate_shift]

end Eigenbasis

end ActiveDefense
