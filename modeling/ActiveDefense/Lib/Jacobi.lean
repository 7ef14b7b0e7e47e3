import Mathlib.Algebra.Order.Field.Basic
import Mathlib.Algebra.Polynomial.Derivative
import Mathlib.Algebra.Polynomial.Eval.SMul
import Mathlib.RingTheory.Polynomial.Pochhammer
import Mathlib.Tactic.FieldSimp
import Mathlib.Tactic.LinearCombination
import Mathlib.Tactic.Positivity

/-!
# Jacobi polynomials by their recurrence

`jacobi α β` are the polynomials of the three-term recurrence, with its coefficients cleared of
denominators (`aCoef`, `bScale`, `bConst`, `cCoef`). Written in powers of `(1 - x) / 2` their
coefficients are products of rising factorials (`jacobi_eq_comp`), by an induction with two previous
terms. That form gives the derivative, which is a Jacobi polynomial of the parameters `α + 1` and
`β + 1` (`derivative_jacobi`); the recurrence gives the degree (`natDegree_jacobi`). A loop that keeps
the last two terms of such a recurrence runs through its terms (`foldl_terms`), and one that adds
them to a total as well has their total (`foldl_total`).
-/

namespace ActiveDefense.Jacobi

open Polynomial

variable {K : Type*} [Field K]

/-! ## The recurrence -/

/-- The coefficient of the polynomial of degree `k`. -/
def aCoef (α β : K) (k : ℕ) : K := 2.0 * k * (k + (α + β)) * (2.0 * k + (α + β) - 2.0)

/-- The coefficient of `x` times the polynomial before it. -/
def bScale (α β : K) (k : ℕ) : K :=
  (2.0 * k + (α + β) - 1) * ((2.0 * k + (α + β)) * (2.0 * k + (α + β) - 2.0))

/-- The coefficient of the polynomial before it. -/
def bConst (α β : K) (k : ℕ) : K := (2.0 * k + (α + β) - 1) * (α * α - β * β)

/-- The coefficient of the polynomial two before it. -/
def cCoef (α β : K) (k : ℕ) : K := 2.0 * (k + α - 1) * (k + β - 1) * (2.0 * k + (α + β))

/-- The Jacobi polynomials. -/
noncomputable def jacobi (α β : K) : ℕ → K[X]
  | 0 => 1
  | 1 => C 0.5 * (C (α + β + 2.0) * X + C (α - β))
  | k + 2 => C (aCoef α β (k + 2))⁻¹ *
      ((C (bScale α β (k + 2)) * X + C (bConst α β (k + 2))) * jacobi α β (k + 1) -
        C (cCoef α β (k + 2)) * jacobi α β k)

section
variable [CharZero K]

theorem two_eq : (2.0 : K) = 2 := by norm_num

theorem half_eq : (0.5 : K) = 1 / 2 := by norm_num

end

variable [LinearOrder K] [IsStrictOrderedRing K] {α β : K}

theorem aCoef_pos (hα : -1 < α) (hβ : -1 < β) {k : ℕ} (hk : 2 ≤ k) : 0 < aCoef α β k := by
  have hcast : (2 : K) ≤ k := by exact_mod_cast hk
  have hsum : 0 < (k : K) + (α + β) := by linarith
  have hlast : 0 < 2 * (k : K) + (α + β) - 2 := by linarith
  rw [aCoef, two_eq]
  positivity

theorem bScale_pos (hα : -1 < α) (hβ : -1 < β) {k : ℕ} (hk : 2 ≤ k) : 0 < bScale α β k := by
  have hcast : (2 : K) ≤ k := by exact_mod_cast hk
  have h0 : 0 < 2 * (k : K) + (α + β) := by linarith
  have h1 : 0 < 2 * (k : K) + (α + β) - 1 := by linarith
  have h2 : 0 < 2 * (k : K) + (α + β) - 2 := by linarith
  rw [bScale, two_eq]
  positivity

/-- The recurrence without its division. -/
theorem jacobi_add_two (hα : -1 < α) (hβ : -1 < β) (k : ℕ) :
    C (aCoef α β (k + 2)) * jacobi α β (k + 2) =
      (C (bScale α β (k + 2)) * X + C (bConst α β (k + 2))) * jacobi α β (k + 1) -
        C (cCoef α β (k + 2)) * jacobi α β k := by
  have hne := (aCoef_pos hα hβ (Nat.le_add_left 2 k)).ne'
  rw [jacobi, ← mul_assoc, ← C_mul, mul_inv_cancel₀ hne, C_1, one_mul]

/-! ## The degree -/

omit [LinearOrder K] [IsStrictOrderedRing K] in
theorem natDegree_jacobi_le (α β : K) (k : ℕ) : (jacobi α β k).natDegree ≤ k := by
  induction k using Nat.twoStepInduction with
  | zero => exact natDegree_one.le
  | one =>
    rw [jacobi]
    exact (natDegree_C_mul_le _ _).trans natDegree_linear_le
  | more k ih ih' =>
    rw [jacobi]
    refine (natDegree_C_mul_le _ _).trans ((natDegree_sub_le _ _).trans (max_le ?_ ?_))
    · refine natDegree_mul_le.trans ?_
      have hlinear := natDegree_linear_le (a := bScale α β (k + 2)) (b := bConst α β (k + 2))
      omega
    · exact (natDegree_C_mul_le _ _).trans (ih.trans (Nat.le_add_right k 2))

/-- The leading coefficients are positive. -/
theorem coeff_jacobi_pos (hα : -1 < α) (hβ : -1 < β) (k : ℕ) : 0 < (jacobi α β k).coeff k := by
  induction k using Nat.twoStepInduction with
  | zero =>
    rw [jacobi, coeff_one_zero]
    exact one_pos
  | one =>
    have hcoeff : (jacobi α β 1).coeff 1 = 1 / 2 * (α + β + 2) := by
      rw [jacobi, two_eq, half_eq]
      simp
    rw [hcoeff]
    linarith
  | more k ih ih' =>
    have ha := aCoef_pos hα hβ (Nat.le_add_left 2 k)
    have hb := bScale_pos hα hβ (Nat.le_add_left 2 k)
    have hbefore : (jacobi α β (k + 1)).coeff (k + 2) = 0 :=
      coeff_eq_zero_of_natDegree_lt (Nat.lt_succ_of_le (natDegree_jacobi_le α β (k + 1)))
    have hbefore' : (jacobi α β k).coeff (k + 2) = 0 :=
      coeff_eq_zero_of_natDegree_lt (Nat.lt_of_le_of_lt (natDegree_jacobi_le α β k) (by omega))
    have hcoeff : (jacobi α β (k + 2)).coeff (k + 2) =
        (aCoef α β (k + 2))⁻¹ * (bScale α β (k + 2) * (jacobi α β (k + 1)).coeff (k + 1)) := by
      rw [jacobi, coeff_C_mul, coeff_sub, coeff_C_mul, hbefore', mul_zero, sub_zero, add_mul,
        coeff_add, coeff_C_mul, hbefore, mul_zero, add_zero, mul_assoc, coeff_C_mul, coeff_X_mul]
    rw [hcoeff]
    positivity

theorem natDegree_jacobi (hα : -1 < α) (hβ : -1 < β) (k : ℕ) : (jacobi α β k).natDegree = k :=
  natDegree_eq_of_le_of_coeff_ne_zero (natDegree_jacobi_le α β k) (coeff_jacobi_pos hα hβ k).ne'

/-! ## The coefficients in powers of `(1 - x) / 2` -/

/-- The rising factorial `x (x + 1) .. (x + k - 1)`. -/
noncomputable def rise (x : K) (k : ℕ) : K := (ascPochhammer K k).eval x

omit [LinearOrder K] [IsStrictOrderedRing K] in
@[simp] theorem rise_zero (x : K) : rise x 0 = 1 := by
  rw [rise, ascPochhammer_zero, eval_one]

omit [LinearOrder K] [IsStrictOrderedRing K] in
theorem rise_succ (x : K) (k : ℕ) : rise x (k + 1) = rise x k * (x + k) :=
  ascPochhammer_succ_eval k x

omit [LinearOrder K] [IsStrictOrderedRing K] in
theorem rise_succ_left (x : K) (k : ℕ) : rise x (k + 1) = x * rise (x + 1) k := by
  rw [rise, ascPochhammer_succ_left, eval_mul, eval_comp, eval_add, eval_X, eval_one]
  rfl

theorem rise_pos {x : K} (hx : 0 < x) (k : ℕ) : 0 < rise x k := by
  induction k with
  | zero =>
    rw [rise_zero]
    exact one_pos
  | succ k ih =>
    rw [rise_succ]
    positivity

/-- The coefficient of the `k`-th power in the polynomial of degree `n`. -/
noncomputable def powerCoeff (α β : K) (n k : ℕ) : K :=
  rise (α + 1) n / n.factorial *
    (rise (-n : K) k * rise (n + (α + β + 1)) k / (rise (α + 1) k * k.factorial))

omit [LinearOrder K] [IsStrictOrderedRing K] in
theorem powerCoeff_of_lt {n k : ℕ} (h : n < k) (α β : K) : powerCoeff α β n k = 0 := by
  have hzero : rise (-n : K) k = 0 := ascPochhammer_eval_neg_coe_nat_of_lt h
  rw [powerCoeff, hzero, zero_mul, zero_div, mul_zero]

/-- The polynomial with these coefficients. -/
noncomputable def powerForm (α β : K) (n : ℕ) : K[X] :=
  ∑ k ∈ Finset.range (n + 1), monomial k (powerCoeff α β n k)

omit [LinearOrder K] [IsStrictOrderedRing K] in
theorem coeff_powerForm (α β : K) (n k : ℕ) :
    (powerForm α β n).coeff k = powerCoeff α β n k := by
  simp only [powerForm, finsetSum_coeff, coeff_monomial, Finset.sum_ite_eq', Finset.mem_range]
  split
  · rfl
  · next h => exact (powerCoeff_of_lt (Nat.lt_of_succ_le (Nat.not_lt.mp h)) α β).symm

/-- The recurrence of the constant coefficients. -/
theorem powerCoeff_recurrence_zero (α β : K) (m : ℕ) :
    aCoef α β (m + 2) * powerCoeff α β (m + 2) 0 =
      (bScale α β (m + 2) + bConst α β (m + 2)) * powerCoeff α β (m + 1) 0 -
        cCoef α β (m + 2) * powerCoeff α β m 0 := by
  have hfact : (m.factorial : K) ≠ 0 := Nat.cast_ne_zero.mpr m.factorial_ne_zero
  have hm1 : (m : K) + 1 ≠ 0 := by positivity
  have hm2 : (m : K) + 1 + 1 ≠ 0 := by positivity
  simp only [powerCoeff, rise_zero, Nat.factorial_zero, Nat.cast_one, mul_one, div_one,
    rise_succ _ (m + 1), rise_succ _ m, Nat.factorial_succ, Nat.cast_mul, Nat.cast_add,
    Nat.cast_ofNat, aCoef, bScale, bConst, cCoef, two_eq]
  field_simp
  ring

/-- The recurrence of the other coefficients; a factor `x` moves them by one place. -/
theorem powerCoeff_recurrence_succ (hα : -1 < α) (hβ : -1 < β) (m j : ℕ) :
    aCoef α β (m + 2) * powerCoeff α β (m + 2) (j + 1) =
      (bScale α β (m + 2) + bConst α β (m + 2)) * powerCoeff α β (m + 1) (j + 1) -
        2 * bScale α β (m + 2) * powerCoeff α β (m + 1) j -
        cCoef α β (m + 2) * powerCoeff α β m (j + 1) := by
  have hfact : (m.factorial : K) ≠ 0 := Nat.cast_ne_zero.mpr m.factorial_ne_zero
  have hfact' : (j.factorial : K) ≠ 0 := Nat.cast_ne_zero.mpr j.factorial_ne_zero
  have hm0 : (0 : K) ≤ m := Nat.cast_nonneg m
  have hj0 : (0 : K) ≤ j := Nat.cast_nonneg j
  have hm1 : (m : K) + 1 ≠ 0 := by positivity
  have hm2 : (m : K) + 1 + 1 ≠ 0 := by positivity
  have hj1 : (j : K) + 1 ≠ 0 := by positivity
  have hrise : rise (α + 1) j ≠ 0 := (rise_pos (by linarith) j).ne'
  have hα' : α + 1 + j ≠ 0 := by linarith
  have hs : (m : K) + 1 + (α + β + 1) ≠ 0 := by linarith
  -- the rising factorials, from those that all the terms share
  have hneg : rise (-((m : K) + 1 + 1)) (j + 1) =
      -((m : K) + 1 + 1) * rise (-((m : K) + 1)) j := by
    rw [rise_succ_left]
    congr 2
    ring
  have hneg0 : rise (-(m : K)) (j + 1) =
      ((m : K) - j) / (m + 1) * ((j - ((m : K) + 1)) * rise (-((m : K) + 1)) j) := by
    have hleft := rise_succ_left (-((m : K) + 1)) (j + 1)
    have harg : -((m : K) + 1) + 1 = -m := by ring
    rw [harg, rise_succ, rise_succ] at hleft
    field_simp
    push_cast at hleft
    linear_combination hleft
  have htop : rise ((m : K) + 1 + 1 + (α + β + 1)) (j + 1) =
      rise ((m : K) + 1 + (α + β + 1)) j * ((m : K) + 1 + (α + β + 1) + j) *
        ((m : K) + 1 + (α + β + 1) + (j + 1)) / ((m : K) + 1 + (α + β + 1)) := by
    have hleft := rise_succ_left ((m : K) + 1 + (α + β + 1)) (j + 1)
    have harg : (m : K) + 1 + (α + β + 1) + 1 = m + 1 + 1 + (α + β + 1) := by ring
    rw [harg, rise_succ, rise_succ] at hleft
    rw [eq_div_iff hs]
    push_cast at hleft
    linear_combination -hleft
  have htop0 : rise ((m : K) + (α + β + 1)) (j + 1) =
      ((m : K) + (α + β + 1)) * rise ((m : K) + 1 + (α + β + 1)) j := by
    rw [rise_succ_left]
    congr 2
    ring
  have hneg1 := rise_succ (-((m : K) + 1)) j
  have htop1 := rise_succ ((m : K) + 1 + (α + β + 1)) j
  have hcast : ((m + 2 : ℕ) : K) = m + 1 + 1 := by
    push_cast
    ring
  simp only [powerCoeff, hcast, Nat.cast_add, Nat.cast_one, hneg, hneg0, hneg1, htop, htop0, htop1,
    rise_succ (α + 1), Nat.factorial_succ, Nat.cast_mul, aCoef, bScale, bConst, cCoef, two_eq]
  field_simp
  ring

/-- The recurrence of the polynomials with these coefficients. -/
theorem powerForm_add_two (hα : -1 < α) (hβ : -1 < β) (m : ℕ) :
    C (aCoef α β (m + 2)) * powerForm α β (m + 2) =
      (C (bScale α β (m + 2) + bConst α β (m + 2)) - C (2 * bScale α β (m + 2)) * X) *
          powerForm α β (m + 1) -
        C (cCoef α β (m + 2)) * powerForm α β m := by
  ext k
  cases k with
  | zero =>
    simp only [coeff_sub, sub_mul, coeff_C_mul, mul_assoc, coeff_X_mul_zero, coeff_powerForm,
      mul_zero, sub_zero]
    exact powerCoeff_recurrence_zero α β m
  | succ j =>
    simp only [coeff_sub, sub_mul, coeff_C_mul, mul_assoc, coeff_X_mul, coeff_powerForm]
    rw [powerCoeff_recurrence_succ hα hβ]
    ring

theorem powerForm_one (hα : -1 < α) : powerForm α β 1 = C (α + 1) - C (α + β + 2) * X := by
  have hα' : α + 1 ≠ 0 := by linarith
  have h0 : powerCoeff α β 1 0 = α + 1 := by
    simp [powerCoeff, rise_succ]
  have h1 : powerCoeff α β 1 1 = -(α + β + 2) := by
    simp only [powerCoeff, rise_succ _ 0, rise_zero, Nat.factorial_one, Nat.cast_one, Nat.cast_zero,
      add_zero]
    field_simp
    ring
  rw [powerForm, Finset.sum_range_succ, Finset.sum_range_one, h0, h1, monomial_zero_left,
    ← C_mul_X_eq_monomial, C_neg]
  ring

omit [LinearOrder K] [IsStrictOrderedRing K] in
theorem C_two : (C 2 : K[X]) = 2 := rfl

theorem C_half_mul_two : (C (1 / 2 : K)) * 2 = 1 := by
  rw [← C_two, ← C_mul, one_div, inv_mul_cancel₀ two_ne_zero, C_1]

/-- A Jacobi polynomial, in powers of `(1 - x) / 2`. -/
theorem jacobi_eq_comp (hα : -1 < α) (hβ : -1 < β) (n : ℕ) :
    jacobi α β n = (powerForm α β n).comp (C (1 / 2) * (1 - X)) := by
  induction n using Nat.twoStepInduction with
  | zero =>
    simp [jacobi, powerForm, powerCoeff]
  | one =>
    rw [powerForm_one hα, jacobi, two_eq, half_eq]
    simp only [sub_comp, mul_comp, C_comp, X_comp]
    simp only [C_add, C_sub, C_1, C_two]
    linear_combination (C α + 1) * C_half_mul_two (K := K)
  | more m ih ih' =>
    have ha := (aCoef_pos hα hβ (Nat.le_add_left 2 m)).ne'
    have hform := congrArg (fun p : K[X] => p.comp (C (1 / 2) * (1 - X))) (powerForm_add_two hα hβ m)
    simp only [mul_comp, sub_comp, C_comp, X_comp, ← ih, ← ih'] at hform
    refine mul_left_cancel₀ (C_ne_zero.mpr ha) ?_
    rw [jacobi_add_two hα hβ, hform]
    simp only [C_add, C_mul, C_two]
    linear_combination (C (bScale α β (m + 2)) - C (bScale α β (m + 2)) * X) * jacobi α β (m + 1) *
      C_half_mul_two (K := K)

/-- The derivative of a Jacobi polynomial. -/
theorem derivative_jacobi (hα : -1 < α) (hβ : -1 < β) (n : ℕ) :
    derivative (jacobi α β (n + 1)) =
      C (1 / 2 * (n + 2 + α + β)) * jacobi (α + 1) (β + 1) n := by
  have hcoeff : derivative (powerForm α β (n + 1)) =
      C (-(n + 2 + α + β)) * powerForm (α + 1) (β + 1) n := by
    ext k
    have hfact : (n.factorial : K) ≠ 0 := Nat.cast_ne_zero.mpr n.factorial_ne_zero
    have hfact' : (k.factorial : K) ≠ 0 := Nat.cast_ne_zero.mpr k.factorial_ne_zero
    have hn : (n : K) + 1 ≠ 0 := by positivity
    have hk : (k : K) + 1 ≠ 0 := by positivity
    have hα' : α + 1 ≠ 0 := by linarith
    have hrise : rise (α + 1 + 1) k ≠ 0 := (rise_pos (by linarith) k).ne'
    have hneg : -((n : K) + 1) + 1 = -n := by ring
    have htop : (n : K) + 1 + (α + β + 1) + 1 = n + (α + 1 + (β + 1) + 1) := by ring
    rw [coeff_derivative, coeff_C_mul, coeff_powerForm, coeff_powerForm]
    simp only [powerCoeff, Nat.cast_add, Nat.cast_one, rise_succ_left, Nat.factorial_succ,
      Nat.cast_mul, hneg, htop]
    field_simp
    ring
  rw [jacobi_eq_comp hα hβ, jacobi_eq_comp (by linarith) (by linarith), derivative_comp, hcoeff]
  simp only [derivative_C_mul, derivative_sub, derivative_one, derivative_X, mul_comp, C_comp]
  simp only [C_neg, C_mul]
  ring

/-! ## Loops over a recurrence with two previous terms -/

section
variable {V : Type*} {P : ℕ → V} {next : ℕ → V → V → V}

theorem foldl_terms (h : ∀ k, next (k + 2) (P k) (P (k + 1)) = P (k + 2)) (m : ℕ) :
    (List.range' 2 m).foldl (fun last k => (last.2, next k last.1 last.2)) (P 0, P 1) =
      (P m, P (m + 1)) := by
  induction m with
  | zero => rfl
  | succ m ih =>
    rw [List.range'_1_concat, List.foldl_append, ih, List.foldl_cons, List.foldl_nil,
      Nat.add_comm 2 m, h]

theorem foldl_total {S : Type*} {T : ℕ → S} {A : S → ℕ → V → S}
    (h : ∀ k, next (k + 2) (P k) (P (k + 1)) = P (k + 2))
    (hadd : ∀ k, A (T k) k (P k) = T (k + 1)) (m : ℕ) :
    (List.range' 2 m).foldl (fun s k => (A s.1 k (next k s.2.1 s.2.2), s.2.2,
      next k s.2.1 s.2.2)) (T 2, P 0, P 1) = (T (m + 2), P m, P (m + 1)) := by
  induction m with
  | zero => rfl
  | succ m ih =>
    rw [List.range'_1_concat, List.foldl_append, ih, List.foldl_cons, List.foldl_nil,
      Nat.add_comm 2 m, h, hadd]

end

end ActiveDefense.Jacobi
