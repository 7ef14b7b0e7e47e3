import ActiveDefense.Lib.Jacobi
import Mathlib.Algebra.Polynomial.BigOperators
import Mathlib.Data.List.GetD

/-!
# Expansions in Jacobi polynomials

`jacobi_value` runs the three-term recurrence at a number, and a `JacobiPoly` is a list of
coefficients in the basis of two parameters. Both are functions of polynomials (`jacobiValue_eq`,
`JacobiPoly.eval_eq`): of the Jacobi polynomial, and of the sum of the coefficients times these
(`JacobiPoly.toPolynomial`). `derivative` moves the coefficients to the basis of the next parameters
and is the derivative of that polynomial (`JacobiPoly.toPolynomial_derivative`). The numbers are
those of an arbitrary ordered field: exact arithmetic.
-/

namespace ActiveDefense.Spectral

open Polynomial Jacobi

/-- `JacobiError`. -/
inductive JacobiError (K : Type) where
  | emptyCoefficients
  | invalidParameters (alpha beta : K)
  | outOfDomain (x : K)
  | invalidPointCount
  | parameterMismatch (expected found : K × K)
  | degreeExceeded (max found : Nat)
  | convergenceFailure (msg : String)
deriving DecidableEq, Repr

variable {K : Type} [Field K]

/-- `p_curr` of a turn of the recurrence, from the two values before it. -/
def pCurr (alpha beta x : K) (k : Nat) (pPrev2 pPrev1 : K) : K :=
  let nf : K := k
  let aPlusB := alpha + beta
  let t := 2.0 * nf + aPlusB
  let aCoef := 2.0 * nf * (nf + aPlusB) * (t - 2.0)
  let bCoef := (t - 1) * (t * (t - 2.0) * x + alpha * alpha - beta * beta)
  let cCoef := 2.0 * (nf + alpha - 1) * (nf + beta - 1) * t
  (bCoef * pPrev1 - cCoef * pPrev2) / aCoef

/-- The value of the polynomial of degree one. -/
def p1 (alpha beta x : K) : K := 0.5 * ((alpha + beta + 2.0) * x + (alpha - beta))

/-- `jacobi_value`. -/
def jacobiValue (n : Nat) (alpha beta x : K) : K :=
  if n = 0 then 1
  else if n = 1 then p1 alpha beta x
  else ((List.range' 2 (n - 1)).foldl (fun p k => (p.2, pCurr alpha beta x k p.1 p.2))
    (1, p1 alpha beta x)).2

/-- `jacobi_derivative_value`. -/
def jacobiDerivativeValue (n : Nat) (alpha beta x : K) : K :=
  if n = 0 then 0
  else 0.5 * (n + alpha + beta + 1) * jacobiValue (n - 1) (alpha + 1) (beta + 1) x

/-! ## The values are those of the polynomials -/

theorem p1_eq (alpha beta x : K) : p1 alpha beta x = (jacobi alpha beta 1).eval x := by
  simp [p1, jacobi]

theorem pCurr_eq (alpha beta x : K) (k : Nat) :
    pCurr alpha beta x (k + 2) ((jacobi alpha beta k).eval x) ((jacobi alpha beta (k + 1)).eval x) =
      (jacobi alpha beta (k + 2)).eval x := by
  rw [jacobi]
  simp only [eval_mul, eval_sub, eval_add, eval_C, eval_X, pCurr, bScale, bConst]
  rw [div_eq_inv_mul, aCoef, cCoef]
  ring

theorem jacobiValue_eq (n : Nat) (alpha beta x : K) :
    jacobiValue n alpha beta x = (jacobi alpha beta n).eval x := by
  rw [jacobiValue]
  split
  · next h =>
    rw [h, jacobi, eval_one]
  · split
    · next h =>
      rw [h, p1_eq]
    · next h0 h1 =>
      have hterms := foldl_terms (P := fun k => (jacobi alpha beta k).eval x)
        (pCurr_eq alpha beta x) (n - 1)
      have hzero : (jacobi alpha beta 0).eval x = 1 := by rw [jacobi, eval_one]
      rw [hzero, ← p1_eq, Nat.sub_add_cancel (Nat.pos_of_ne_zero h0)] at hterms
      rw [hterms]

/-! ## Expansions -/

variable [LinearOrder K]

/-- `check_params`, of numbers that are finite. -/
def checkParams (alpha beta : K) : Except (JacobiError K) (PLift (-1 < alpha ∧ -1 < beta)) :=
  if h : alpha ≤ -1 ∨ beta ≤ -1 then .error (.invalidParameters alpha beta)
  else .ok ⟨not_le.mp fun ha => h (.inl ha), not_le.mp fun hb => h (.inr hb)⟩

/-- `JacobiPoly`. The fields are private, and what builds one has made these checks. -/
structure JacobiPoly (K : Type) [Field K] [LinearOrder K] where
  alpha : K
  beta : K
  coeffs : List K
  alpha_gt : -1 < alpha
  beta_gt : -1 < beta
  coeffs_ne : coeffs ≠ []

namespace JacobiPoly

/-- `JacobiPoly::new`. -/
def new (alpha beta : K) (coeffs : List K) : Except (JacobiError K) (JacobiPoly K) :=
  match checkParams alpha beta with
  | .error e => .error e
  | .ok ⟨h⟩ =>
    if hc : coeffs = [] then .error .emptyCoefficients
    else .ok { alpha, beta, coeffs, alpha_gt := h.1, beta_gt := h.2, coeffs_ne := hc }

/-- `params`. -/
def params (p : JacobiPoly K) : K × K := (p.alpha, p.beta)

/-- `self.coeffs[k]`. -/
def coeff (p : JacobiPoly K) (k : Nat) : K := p.coeffs.getD k 0

/-- `degree`. -/
def degree (p : JacobiPoly K) : Nat :=
  ((List.range' 1 (p.coeffs.length - 1)).reverse.find? fun i => 0 < |p.coeff i|).getD 0

/-- `eval`. -/
def eval (p : JacobiPoly K) (x : K) : K :=
  let n := p.coeffs.length
  let sum := p.coeff 0
  if n = 1 then sum
  else
    let first := p1 p.alpha p.beta x
    let sum := sum + p.coeff 1 * first
    if n = 2 then sum
    else ((List.range' 2 (n - 2)).foldl (fun s k =>
      let curr := pCurr p.alpha p.beta x k s.2.1 s.2.2
      (s.1 + p.coeff k * curr, s.2.2, curr)) (sum, 1, first)).1

variable [IsStrictOrderedRing K]

/-- `derivative`. -/
def derivative (p : JacobiPoly K) : JacobiPoly K :=
  let n := p.degree
  if h : n = 0 then
    { alpha := p.alpha + 1, beta := p.beta + 1, coeffs := [0]
      alpha_gt := lt_add_of_lt_of_pos p.alpha_gt one_pos
      beta_gt := lt_add_of_lt_of_pos p.beta_gt one_pos
      coeffs_ne := List.cons_ne_nil 0 [] }
  else
    { alpha := p.alpha + 1, beta := p.beta + 1
      coeffs := (List.range n).map fun k =>
        0.5 * ((k + 2 : Nat) + p.alpha + p.beta) * p.coeff (k + 1)
      alpha_gt := lt_add_of_lt_of_pos p.alpha_gt one_pos
      beta_gt := lt_add_of_lt_of_pos p.beta_gt one_pos
      coeffs_ne := fun hnil => h (by simpa using hnil) }

/-! ## The polynomial of an expansion -/

omit [IsStrictOrderedRing K]

/-- The sum of the coefficients times the Jacobi polynomials. -/
noncomputable def toPolynomial (p : JacobiPoly K) : K[X] :=
  ∑ k ∈ Finset.range p.coeffs.length, C (p.coeff k) * jacobi p.alpha p.beta k

theorem length_pos (p : JacobiPoly K) : 0 < p.coeffs.length := List.length_pos_iff.mpr p.coeffs_ne

theorem eval_eq (p : JacobiPoly K) (x : K) : p.eval x = p.toPolynomial.eval x := by
  have hsum : ∀ m, (∑ k ∈ Finset.range m, C (p.coeff k) * jacobi p.alpha p.beta k).eval x =
      ∑ k ∈ Finset.range m, p.coeff k * (jacobi p.alpha p.beta k).eval x := by
    intro m
    rw [eval_finsetSum]
    exact Finset.sum_congr rfl fun k _ => by rw [eval_mul, eval_C]
  have hzero : (jacobi p.alpha p.beta 0).eval x = 1 := by rw [jacobi, eval_one]
  have hloop := foldl_total (P := fun k => (jacobi p.alpha p.beta k).eval x)
    (T := fun m => ∑ k ∈ Finset.range m, p.coeff k * (jacobi p.alpha p.beta k).eval x)
    (A := fun sum k value => sum + p.coeff k * value) (pCurr_eq p.alpha p.beta x)
    (fun k => (Finset.sum_range_succ _ k).symm) (p.coeffs.length - 2)
  simp only [Finset.sum_range_succ _ 1, Finset.sum_range_one, hzero, mul_one, ← p1_eq] at hloop
  rw [eval, toPolynomial, hsum]
  dsimp only
  split
  · next h1 =>
    rw [h1, Finset.sum_range_one, hzero, mul_one]
  · split
    · next h2 =>
      rw [h2, Finset.sum_range_succ, Finset.sum_range_one, hzero, mul_one, p1_eq]
    · next h1 h2 =>
      have hpos := p.length_pos
      rw [hloop, Nat.sub_add_cancel (by omega)]

/-! ## The degree -/

theorem coeff_of_length_le (p : JacobiPoly K) {k : Nat} (h : p.coeffs.length ≤ k) :
    p.coeff k = 0 := List.getD_eq_default _ _ h

variable [IsStrictOrderedRing K]

/-- The coefficient at the degree is not zero, unless the degree is; those after it are zero. -/
theorem degree_spec (p : JacobiPoly K) :
    p.degree < p.coeffs.length ∧ (p.degree ≠ 0 → p.coeff p.degree ≠ 0) ∧
      ∀ k, p.degree < k → p.coeff k = 0 := by
  have hpos := p.length_pos
  rw [degree]
  cases hfind : (List.range' 1 (p.coeffs.length - 1)).reverse.find? fun i => 0 < |p.coeff i| with
  | none =>
    refine ⟨hpos, fun h => absurd rfl h, fun k hk => ?_⟩
    by_cases hlen : p.coeffs.length ≤ k
    · exact p.coeff_of_length_le hlen
    · have hmem : k ∈ (List.range' 1 (p.coeffs.length - 1)).reverse := by
        rw [List.mem_reverse, List.mem_range'_1]
        rw [Option.getD_none] at hk
        omega
      simpa using List.find?_eq_none.mp hfind k hmem
  | some i =>
    obtain ⟨hi, before, after, heq, hbefore⟩ := List.find?_eq_some_iff_append.mp hfind
    have hmem : i ∈ (List.range' 1 (p.coeffs.length - 1)).reverse := heq ▸ by simp
    rw [List.mem_reverse, List.mem_range'_1] at hmem
    rw [Option.getD_some]
    refine ⟨by omega, fun _ => by simpa using hi, fun k hk => ?_⟩
    by_cases hlen : p.coeffs.length ≤ k
    · exact p.coeff_of_length_le hlen
    · -- the indices before the one that is found are those above it
      have hk' : k ∈ before ++ i :: after := by
        rw [← heq, List.mem_reverse, List.mem_range'_1]
        omega
      have hsorted : (before ++ i :: after).Pairwise (· > ·) := by
        rw [← heq, List.pairwise_reverse]
        exact List.pairwise_lt_range'
      rcases List.mem_append.mp hk' with hb | ha
      · simpa using hbefore k hb
      · rcases List.mem_cons.mp ha with rfl | ha
        · exact absurd hk (lt_irrefl _)
        · have hlt := (List.pairwise_cons.mp (List.pairwise_append.mp hsorted).2.1).1 k ha
          omega

/-- The coefficients after the degree make no difference. -/
theorem toPolynomial_eq (p : JacobiPoly K) :
    p.toPolynomial = ∑ k ∈ Finset.range (p.degree + 1), C (p.coeff k) * jacobi p.alpha p.beta k := by
  obtain ⟨hlt, -, hzero⟩ := p.degree_spec
  rw [toPolynomial]
  refine (Finset.sum_subset (Finset.range_mono hlt) fun k _ hk => ?_).symm
  rw [hzero k (by simpa using hk), C_0, zero_mul]

theorem natDegree_toPolynomial_le (p : JacobiPoly K) : p.toPolynomial.natDegree ≤ p.degree := by
  rw [toPolynomial_eq]
  refine natDegree_sum_le_of_forall_le _ _ fun k hk => ?_
  exact (natDegree_C_mul_le _ _).trans
    ((natDegree_jacobi_le _ _ k).trans (Nat.lt_succ_iff.mp (Finset.mem_range.mp hk)))

/-- `degree` is the degree. -/
theorem natDegree_toPolynomial (p : JacobiPoly K) : p.toPolynomial.natDegree = p.degree := by
  obtain ⟨-, hne, -⟩ := p.degree_spec
  refine le_antisymm p.natDegree_toPolynomial_le ?_
  by_cases h0 : p.degree = 0
  · rw [h0]
    exact Nat.zero_le _
  · have hlow : (∑ k ∈ Finset.range p.degree,
        C (p.coeff k) * jacobi p.alpha p.beta k).coeff p.degree = 0 := by
      rw [finsetSum_coeff]
      refine Finset.sum_eq_zero fun k hk => ?_
      rw [coeff_C_mul, coeff_eq_zero_of_natDegree_lt, mul_zero]
      exact (natDegree_jacobi_le _ _ k).trans_lt (Finset.mem_range.mp hk)
    have htop : p.toPolynomial.coeff p.degree =
        p.coeff p.degree * (jacobi p.alpha p.beta p.degree).coeff p.degree := by
      rw [toPolynomial_eq, Finset.sum_range_succ, coeff_add, hlow, zero_add, coeff_C_mul]
    refine le_natDegree_of_ne_zero ?_
    rw [htop]
    exact mul_ne_zero (hne h0) (coeff_jacobi_pos p.alpha_gt p.beta_gt _).ne'

/-! ## The derivative -/

theorem toPolynomial_derivative (p : JacobiPoly K) :
    p.derivative.toPolynomial = Polynomial.derivative p.toPolynomial := by
  rw [p.toPolynomial_eq, Finset.sum_range_succ', derivative_add, derivative_C_mul, jacobi,
    derivative_one, mul_zero, add_zero, derivative_sum]
  rw [derivative]
  split
  · next h =>
    simp [toPolynomial, coeff, h]
  · simp only [toPolynomial, List.length_map, List.length_range]
    refine Finset.sum_congr rfl fun k hk => ?_
    have hk' := Finset.mem_range.mp hk
    rw [derivative_C_mul, derivative_jacobi p.alpha_gt p.beta_gt, ← mul_assoc, ← C_mul]
    congr 2
    simp only [coeff, List.getD_eq_getElem?_getD, List.getElem?_map, List.getElem?_range hk',
      Option.map_some, Option.getD_some]
    push_cast
    rw [half_eq]
    ring

end JacobiPoly

theorem jacobiDerivativeValue_eq {alpha beta : K} [IsStrictOrderedRing K] (ha : -1 < alpha)
    (hb : -1 < beta) (n : Nat) (x : K) :
    jacobiDerivativeValue n alpha beta x =
      (Polynomial.derivative (jacobi alpha beta n)).eval x := by
  cases n with
  | zero => simp [jacobiDerivativeValue, jacobi]
  | succ n =>
    rw [jacobiDerivativeValue, if_neg n.succ_ne_zero, Nat.add_sub_cancel, jacobiValue_eq,
      derivative_jacobi ha hb, eval_mul, eval_C]
    push_cast
    rw [half_eq]
    ring

/-- `derivative` of an expansion is the derivative of the polynomial function that `eval` computes,
and `jacobi_derivative_value` is that of `jacobi_value`. -/
theorem eval_derivative [IsStrictOrderedRing K] :
    (∀ p : JacobiPoly K, ∃ f : K[X], (∀ x, p.eval x = f.eval x) ∧
      ∀ x, p.derivative.eval x = (Polynomial.derivative f).eval x) ∧
    ∀ alpha beta : K, -1 < alpha → -1 < beta → ∀ n, ∃ f : K[X],
      (∀ x, jacobiValue n alpha beta x = f.eval x) ∧
      ∀ x, jacobiDerivativeValue n alpha beta x = (Polynomial.derivative f).eval x := by
  refine ⟨fun p => ⟨p.toPolynomial, p.eval_eq, fun x => ?_⟩, fun alpha beta ha hb n =>
    ⟨jacobi alpha beta n, fun x => jacobiValue_eq n alpha beta x,
      jacobiDerivativeValue_eq ha hb n⟩⟩
  rw [JacobiPoly.eval_eq, JacobiPoly.toPolynomial_derivative]

/-- Of an expansion in Legendre polynomials, and of the one of degree three. -/
theorem eval_derivative_legendre :
    (∃ p : JacobiPoly ℚ, JacobiPoly.new 0 0 [2, -1, 3] = .ok p ∧ p.derivative.coeffs = [-1, 9 / 2] ∧
      ∃ f : ℚ[X], (∀ x, p.eval x = f.eval x) ∧
        ∀ x, p.derivative.eval x = (Polynomial.derivative f).eval x) ∧
    ∃ f : ℚ[X], (∀ x, jacobiValue 3 0 0 x = f.eval x) ∧
      ∀ x, jacobiDerivativeValue 3 0 0 x = (Polynomial.derivative f).eval x :=
  ⟨⟨_, rfl, by decide +kernel, eval_derivative.1 _⟩,
    eval_derivative.2 0 0 (by norm_num) (by norm_num) 3⟩

end ActiveDefense.Spectral
