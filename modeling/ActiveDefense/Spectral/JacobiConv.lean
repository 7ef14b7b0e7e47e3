import ActiveDefense.Lib.Orthogonal
import ActiveDefense.Rust.FloatFns
import ActiveDefense.Spectral.JacobiDs
import Mathlib.Analysis.SpecialFunctions.Integrals.Basic

/-!
# Conversion between Jacobi bases

`JacobiConv::convert` computes the coefficients in the target basis as sums over quadrature nodes.
When the nodes and weights integrate with the target weight what is of small enough degree, the sums
are the projections of the polynomial (`target_eq`), so the result is the same polynomial
(`toPolynomial_of_convert`), and so is what a second operator makes of it. The solver of the nodes
and the norms are parameters of `new`: what they compute in floating point is not exact.
-/

namespace ActiveDefense.Spectral

open Polynomial Jacobi Orthogonal

/-- `JacobiConv`. The fields are private, and `new` has checked the parameters. -/
structure JacobiConv (K : Type) [Field K] [LinearOrder K] where
  alphaFrom : K
  betaFrom : K
  alphaTo : K
  betaTo : K
  maxDegree : Nat
  nodes : List K
  weights : List K
  normSq : List K
  from_gt : -1 < alphaFrom ∧ -1 < betaFrom
  to_gt : -1 < alphaTo ∧ -1 < betaTo

namespace JacobiConv

section
variable {K : Type} [Field K] [LinearOrder K]

/-- `JacobiConv::new`, from the results of `gauss_jacobi` and `jacobi_norm_squared`. -/
def new (gaussJacobi : Nat → K → K → Except (JacobiError K) (List K × List K))
    (jacobiNormSquared : Nat → K → K → K) (alphaFrom betaFrom alphaTo betaTo : K)
    (maxDegree : Nat) : Except (JacobiError K) (JacobiConv K) :=
  match checkParams alphaFrom betaFrom with
  | .error e => .error e
  | .ok ⟨from_gt⟩ =>
    match checkParams alphaTo betaTo with
    | .error e => .error e
    | .ok ⟨to_gt⟩ =>
      match gaussJacobi (maxDegree + 4) alphaTo betaTo with
      | .error e => .error e
      | .ok (nodes, weights) =>
        .ok { alphaFrom, betaFrom, alphaTo, betaTo, maxDegree, nodes, weights, from_gt, to_gt
              normSq := (List.range (maxDegree + 1)).map (jacobiNormSquared · alphaTo betaTo) }

/-- `target[k]`. -/
def target (op : JacobiConv K) (fVals : List K) (k : Nat) : K :=
  (List.range op.nodes.length).foldl (fun sum j =>
    let pk := jacobiValue k op.alphaTo op.betaTo (op.nodes.getD j 0)
    sum + op.weights.getD j 0 * fVals.getD j 0 * pk) 0 / op.normSq.getD k 0

/-- `convert`. -/
def convert (op : JacobiConv K) (poly : JacobiPoly K) : Except (JacobiError K) (JacobiPoly K) :=
  if 1e-9 < |poly.alpha - op.alphaFrom| ∨ 1e-9 < |poly.beta - op.betaFrom| then
    .error (.parameterMismatch (op.alphaFrom, op.betaFrom) poly.params)
  else if op.maxDegree < poly.degree then .error (.degreeExceeded op.maxDegree poly.degree)
  else
    let fVals := op.nodes.map poly.eval
    JacobiPoly.new op.alphaTo op.betaTo ((List.range (op.maxDegree + 1)).map (op.target fVals))

/-- The sum over the nodes. -/
def quadrature (op : JacobiConv K) (f : K → K) : K :=
  ∑ j ∈ Finset.range op.nodes.length, op.weights.getD j 0 * f (op.nodes.getD j 0)

theorem target_eq (op : JacobiConv K) (f : K → K) (k : Nat) :
    op.target (op.nodes.map f) k =
      op.quadrature (fun x => f x * (jacobi op.alphaTo op.betaTo k).eval x) /
        op.normSq.getD k 0 := by
  have hsum : ∀ m ≤ op.nodes.length, (List.range m).foldl (fun sum j =>
      sum + op.weights.getD j 0 * (op.nodes.map f).getD j 0 *
        jacobiValue k op.alphaTo op.betaTo (op.nodes.getD j 0)) 0 =
      ∑ j ∈ Finset.range m, op.weights.getD j 0 *
        (f (op.nodes.getD j 0) * (jacobi op.alphaTo op.betaTo k).eval (op.nodes.getD j 0)) := by
    intro m hm
    induction m with
    | zero => rfl
    | succ m ih =>
      have hget : (op.nodes.map f).getD m 0 = f (op.nodes.getD m 0) := by
        simp only [List.getD_eq_getElem?_getD, List.getElem?_map,
          List.getElem?_eq_getElem (Nat.lt_of_succ_le hm), Option.map_some, Option.getD_some]
      rw [List.range_succ, List.foldl_append, ih (Nat.le_of_succ_le hm), List.foldl_cons,
        List.foldl_nil, Finset.sum_range_succ, hget, jacobiValue_eq, mul_assoc]
  rw [target, quadrature, hsum _ (le_refl _)]

end

/-- The nodes and weights integrate what they have to, and the target polynomials are orthogonal with
the norms of the operator. -/
structure Exact (op : JacobiConv ℝ) : Prop where
  quadrature_eq : ∀ f : ℝ[X], f.natDegree ≤ 2 * (op.maxDegree + 4) - 1 →
    op.quadrature f.eval = weightIntegral op.alphaTo op.betaTo f
  orthogonal : ∀ j ≤ op.maxDegree, ∀ k ≤ op.maxDegree, j ≠ k →
    weightIntegral op.alphaTo op.betaTo
      (jacobi op.alphaTo op.betaTo j * jacobi op.alphaTo op.betaTo k) = 0
  normSq_eq : ∀ k ≤ op.maxDegree, weightIntegral op.alphaTo op.betaTo
    (jacobi op.alphaTo op.betaTo k * jacobi op.alphaTo op.betaTo k) = op.normSq.getD k 0

/-- The Jacobi polynomials, as a sequence of the degrees. -/
noncomputable def jacobiSequence {α β : ℝ} (hα : -1 < α) (hβ : -1 < β) : Sequence ℝ where
  elems' := jacobi α β
  degree_eq' k := by
    have hne : jacobi α β k ≠ 0 := by
      intro hzero
      have hpos := coeff_jacobi_pos hα hβ k
      rw [hzero, coeff_zero] at hpos
      exact lt_irrefl 0 hpos
    rw [degree_eq_natDegree hne, natDegree_jacobi hα hβ]

variable {op : JacobiConv ℝ}

/-- The coefficients that `convert` computes are those of the projection. -/
theorem Exact.target_eq (h : op.Exact) {f : ℝ[X]} (hf : f.natDegree ≤ op.maxDegree) {k : Nat}
    (hk : k ≤ op.maxDegree) :
    op.target (op.nodes.map f.eval) k =
      weightIntegral op.alphaTo op.betaTo (f * jacobi op.alphaTo op.betaTo k) /
        weightIntegral op.alphaTo op.betaTo
          (jacobi op.alphaTo op.betaTo k * jacobi op.alphaTo op.betaTo k) := by
  have hdegree : (f * jacobi op.alphaTo op.betaTo k).natDegree ≤ 2 * (op.maxDegree + 4) - 1 := by
    have hmul := natDegree_mul_le (p := f) (q := jacobi op.alphaTo op.betaTo k)
    have hjacobi := natDegree_jacobi_le op.alphaTo op.betaTo k
    omega
  have hquadrature := h.quadrature_eq _ hdegree
  simp only [eval_mul] at hquadrature
  rw [JacobiConv.target_eq, h.normSq_eq k hk, ← hquadrature]

/-- The result is the same polynomial. -/
theorem Exact.convert (h : op.Exact) {p : JacobiPoly ℝ} (hα : |p.alpha - op.alphaFrom| ≤ 1e-9)
    (hβ : |p.beta - op.betaFrom| ≤ 1e-9) (hdeg : p.degree ≤ op.maxDegree) :
    ∃ q, op.convert p = .ok q ∧ q.alpha = op.alphaTo ∧ q.beta = op.betaTo ∧
      q.toPolynomial = p.toPolynomial := by
  have hnil : (List.range (op.maxDegree + 1)).map (op.target (op.nodes.map p.eval)) ≠ [] := by
    simp
  have hok : op.convert p = .ok
      { alpha := op.alphaTo, beta := op.betaTo
        coeffs := (List.range (op.maxDegree + 1)).map (op.target (op.nodes.map p.eval))
        alpha_gt := op.to_gt.1, beta_gt := op.to_gt.2, coeffs_ne := hnil } := by
    have hcheck : ¬ (1e-9 < |p.alpha - op.alphaFrom| ∨ 1e-9 < |p.beta - op.betaFrom|) := by
      rintro (hlt | hlt)
      · exact absurd hα (not_le.mpr hlt)
      · exact absurd hβ (not_le.mpr hlt)
    have hparams : ¬ (op.alphaTo ≤ -1 ∨ op.betaTo ≤ -1) := by
      rintro (hle | hle)
      · exact absurd op.to_gt.1 (not_lt.mpr hle)
      · exact absurd op.to_gt.2 (not_lt.mpr hle)
    rw [JacobiConv.convert, if_neg hcheck, if_neg (not_lt.mpr hdeg)]
    simp only [JacobiPoly.new, checkParams, dif_neg hparams]
    rw [dif_neg hnil]
  refine ⟨_, hok, rfl, rfl, ?_⟩
  have hdeg' : p.toPolynomial.natDegree ≤ op.maxDegree := p.natDegree_toPolynomial.trans_le hdeg
  have heval : p.eval = p.toPolynomial.eval := funext p.eval_eq
  have hnorm : ∀ k ≤ op.maxDegree, weightFunctional op.to_gt.1 op.to_gt.2
      (jacobiSequence op.to_gt.1 op.to_gt.2 k * jacobiSequence op.to_gt.1 op.to_gt.2 k) ≠ 0 :=
    fun k _ => (weightIntegral_mul_self_pos op.to_gt.1 op.to_gt.2
      ((jacobiSequence op.to_gt.1 op.to_gt.2).ne_zero k)).ne'
  have hexpansion := eq_sum_of_orthogonal (jacobiSequence op.to_gt.1 op.to_gt.2)
    (weightFunctional op.to_gt.1 op.to_gt.2) h.orthogonal hnorm hdeg'
  rw [hexpansion, JacobiPoly.toPolynomial, List.length_map, List.length_range]
  refine Finset.sum_congr rfl fun k hk => ?_
  have hk' := Finset.mem_range.mp hk
  have htarget : op.target (op.nodes.map p.eval) k = _ :=
    heval ▸ h.target_eq hdeg' (Nat.lt_succ_iff.mp hk')
  rw [JacobiPoly.coeff, List.getD_eq_getElem?_getD, List.getElem?_map, List.getElem?_range hk',
    Option.map_some, Option.getD_some, htarget]
  rfl

/-- Two expansions in the same basis of the same polynomial have the same coefficients. -/
theorem coeff_eq_of_toPolynomial_eq {p q : JacobiPoly ℝ} (hα : q.alpha = p.alpha)
    (hβ : q.beta = p.beta) (h : q.toPolynomial = p.toPolynomial) (k : Nat) :
    q.coeff k = p.coeff k := by
  have hdeg : q.degree = p.degree := by
    rw [← q.natDegree_toPolynomial, h, p.natDegree_toPolynomial]
  by_cases hk : k ≤ p.degree
  · rw [q.toPolynomial_eq, p.toPolynomial_eq, hα, hβ, hdeg] at h
    exact coeffs_unique (jacobiSequence p.alpha_gt p.beta_gt) h (Nat.lt_succ_of_le hk)
  · have hlt := Nat.lt_of_not_le hk
    rw [p.degree_spec.2.2 k hlt, q.degree_spec.2.2 k (hdeg ▸ hlt)]

/-- Whatever polynomial of the source basis that is not of too high a degree: `convert` succeeds with
the same polynomial function, and so does a second operator back; when it is back in the same basis,
the coefficients are the same as well. -/
theorem convert_preserves (h : op.Exact) {p : JacobiPoly ℝ} (hα : |p.alpha - op.alphaFrom| ≤ 1e-9)
    (hβ : |p.beta - op.betaFrom| ≤ 1e-9) (hdeg : p.degree ≤ op.maxDegree) :
    ∃ q, op.convert p = .ok q ∧ (∀ x, q.eval x = p.eval x) ∧
      ∀ back : JacobiConv ℝ, back.Exact → |op.alphaTo - back.alphaFrom| ≤ 1e-9 →
        |op.betaTo - back.betaFrom| ≤ 1e-9 → p.degree ≤ back.maxDegree →
        ∃ r, back.convert q = .ok r ∧ (∀ x, r.eval x = p.eval x) ∧
          (back.alphaTo = p.alpha → back.betaTo = p.beta → ∀ k, r.coeff k = p.coeff k) := by
  obtain ⟨q, hq, hqα, hqβ, hqp⟩ := h.convert hα hβ hdeg
  refine ⟨q, hq, fun x => by rw [q.eval_eq, hqp, p.eval_eq], fun back hback hα' hβ' hdeg' => ?_⟩
  have hqdeg : q.degree ≤ back.maxDegree := by
    rw [← q.natDegree_toPolynomial, hqp, p.natDegree_toPolynomial]
    exact hdeg'
  obtain ⟨r, hr, hrα, hrβ, hrp⟩ := hback.convert (hqα ▸ hα') (hqβ ▸ hβ') hqdeg
  have hrp' := hrp.trans hqp
  refine ⟨r, hr, fun x => by rw [r.eval_eq, hrp', p.eval_eq], fun ha hb k => ?_⟩
  exact coeff_eq_of_toPolynomial_eq (hrα.trans ha) (hrβ.trans hb) hrp' k

/-! ## A rule with five nodes -/

theorem zero_params : (-1 : ℝ) < 0 ∧ (-1 : ℝ) < 0 := ⟨neg_one_lt_zero, neg_one_lt_zero⟩

/-- The operator of a basis into that of the Legendre polynomials, up to the degree one. -/
noncomputable def legendre (a b : ℝ) (from_gt : -1 < a ∧ -1 < b) : JacobiConv ℝ :=
  let q := Real.sqrt 70.0
  let r := Real.sqrt ((35.0 - 2.0 * q) / 63.0)
  let s := Real.sqrt ((35.0 + 2.0 * q) / 63.0)
  { alphaFrom := a, betaFrom := b, alphaTo := 0, betaTo := 0, maxDegree := 1
    nodes := [-s, -r, 0, r, s]
    weights := [(322.0 - 13.0 * q) / 900.0, (322.0 + 13.0 * q) / 900.0, 128.0 / 225.0,
      (322.0 + 13.0 * q) / 900.0, (322.0 - 13.0 * q) / 900.0]
    normSq := [2.0, 2.0 / 3.0]
    from_gt, to_gt := zero_params }

theorem weightIntegral_zero_pow (k : Nat) :
    weightIntegral 0 0 (X ^ k) = (1 - (-1) ^ (k + 1)) / (k + 1) := by
  simp [weightIntegral, weight]

theorem legendre_pow (a b : ℝ) (h : -1 < a ∧ -1 < b) {k : Nat} (hk : k < 10) :
    (legendre a b h).quadrature (fun x => x ^ k) = (1 - (-1) ^ (k + 1)) / (k + 1) := by
  obtain ⟨q, hq, hq0⟩ : ∃ q : ℝ, q = Real.sqrt 70 ∧ q ^ 2 = 70 :=
    ⟨_, rfl, Real.sq_sqrt (by norm_num)⟩
  have hq9 : q ≤ 9 := by
    rw [hq]
    exact Real.sqrt_le_iff.mpr ⟨by norm_num, by norm_num⟩
  have hpos : 0 ≤ q := hq ▸ Real.sqrt_nonneg 70
  obtain ⟨r, hr, hr2⟩ : ∃ r : ℝ, r = Real.sqrt ((35 - 2 * q) / 63) ∧ r ^ 2 = (35 - 2 * q) / 63 :=
    ⟨_, rfl, Real.sq_sqrt (by linarith)⟩
  obtain ⟨s, hs, hs2⟩ : ∃ s : ℝ, s = Real.sqrt ((35 + 2 * q) / 63) ∧ s ^ 2 = (35 + 2 * q) / 63 :=
    ⟨_, rfl, Real.sq_sqrt (by linarith)⟩
  have hsum : (legendre a b h).quadrature (fun x => x ^ k) =
      (322 - 13 * q) / 900 * (-s) ^ k + (322 + 13 * q) / 900 * (-r) ^ k + 128 / 225 * 0 ^ k +
        (322 + 13 * q) / 900 * r ^ k + (322 - 13 * q) / 900 * s ^ k := by
    have h70 : (70.0 : ℝ) = 70 := by norm_num
    have h35 : (35.0 : ℝ) = 35 := by norm_num
    have h63 : (63.0 : ℝ) = 63 := by norm_num
    simp only [quadrature, legendre, List.length_cons, List.length_nil, h70, h35, h63, two_eq, ← hq,
      ← hr, ← hs]
    norm_num [Finset.sum_range_succ]
  rw [hsum]
  -- the odd powers cancel, and the even ones are powers of the squares
  rcases Nat.even_or_odd' k with ⟨j, rfl | rfl⟩
  · have hsign : (-1 : ℝ) ^ (2 * j + 1) = -1 := Odd.neg_one_pow ⟨j, rfl⟩
    rw [pow_mul (-s), pow_mul (-r), pow_mul s, pow_mul r, neg_sq, neg_sq, hs2, hr2, hsign]
    have hj : j < 5 := by omega
    interval_cases j
    · norm_num
      ring
    · norm_num
      linear_combination -26 / 14175 * hq0
    · norm_num
      linear_combination -76 / 127575 * hq0
    · norm_num
      linear_combination (926 / 1607445 - 104 / 56260575 * q ^ 2) * hq0
    · norm_num
      linear_combination (2536 / 2066715 - 64 / 24111675 * q ^ 2) * hq0
  · have hodd : Odd (2 * j + 1) := ⟨j, rfl⟩
    have heven : Even (2 * j + 1 + 1) := ⟨j + 1, by omega⟩
    rw [hodd.neg_pow, hodd.neg_pow, zero_pow (Nat.succ_ne_zero (2 * j)), heven.neg_one_pow]
    ring

theorem jacobi_zero_eq_pow {k : Nat} (hk : k ≤ 1) : jacobi (0 : ℝ) 0 k = X ^ k := by
  interval_cases k
  · exact (pow_zero X).symm
  · rw [jacobi, two_eq, half_eq, zero_add, zero_add, sub_zero, C_0, add_zero, ← mul_assoc, ← C_mul]
    norm_num

theorem weightIntegral_jacobi_mul {j k : Nat} (hj : j ≤ 1) (hk : k ≤ 1) :
    weightIntegral 0 0 (jacobi 0 0 j * jacobi 0 0 k) =
      (1 - (-1) ^ (j + k + 1)) / ((j + k : Nat) + 1) := by
  rw [jacobi_zero_eq_pow hj, jacobi_zero_eq_pow hk, ← pow_add, weightIntegral_zero_pow]

/-- The rule is exact. -/
theorem legendre_exact (a b : ℝ) (h : -1 < a ∧ -1 < b) : (legendre a b h).Exact where
  quadrature_eq f hf := by
    let sum : ℝ[X] →ₗ[ℝ] ℝ :=
      { toFun := fun f => (legendre a b h).quadrature f.eval
        map_add' := fun f g => by
          simp only [quadrature, eval_add, mul_add, Finset.sum_add_distrib]
        map_smul' := fun c f => by
          simp only [quadrature, eval_smul, smul_eq_mul, Finset.mul_sum, RingHom.id_apply]
          exact Finset.sum_congr rfl fun j _ => by ring }
    have hpow : ∀ k < 10, sum (X ^ k) = weightFunctional zero_params.1 zero_params.2 (X ^ k) := by
      intro k hk
      refine Eq.trans ?_ (weightIntegral_zero_pow k).symm
      rw [← legendre_pow a b h hk]
      simp only [sum, LinearMap.coe_mk, AddHom.coe_mk, eval_pow, eval_X]
    exact eq_of_pow hpow (Nat.lt_succ_of_le hf)
  orthogonal j hj k hk hne := by
    have hj' : j ≤ 1 := hj
    have hk' : k ≤ 1 := hk
    refine (weightIntegral_jacobi_mul hj' hk').trans ?_
    have hodd : j + k = 1 := by omega
    rw [hodd]
    norm_num
  normSq_eq k hk := by
    have hk' : k ≤ 1 := hk
    refine (weightIntegral_jacobi_mul hk' hk').trans ?_
    interval_cases k
    · norm_num [legendre]
    · norm_num [legendre]

/-- From the parameters one to the Legendre polynomials, and from these to themselves. -/
theorem convert_preserves_legendre :
    ∃ (op back : JacobiConv ℝ) (p q r : JacobiPoly ℝ), p.params = (1, 1) ∧ p.coeffs = [3, 1] ∧
      op.convert p = .ok q ∧ (∀ x, q.eval x = p.eval x) ∧
      back.convert q = .ok r ∧ ∀ x, r.eval x = p.eval x := by
  have hone : (-1 : ℝ) < 1 := by norm_num
  let p : JacobiPoly ℝ :=
    { alpha := 1, beta := 1, coeffs := [3, 1], alpha_gt := hone, beta_gt := hone
      coeffs_ne := List.cons_ne_nil 3 [1] }
  have hdeg : p.degree ≤ 1 := Nat.lt_succ_iff.mp p.degree_spec.1
  have hself : ∀ a : ℝ, |a - a| ≤ 1e-9 := by
    intro a
    rw [sub_self, abs_zero]
    norm_num
  obtain ⟨q, hq, heval, hback⟩ := convert_preserves (legendre_exact 1 1 ⟨hone, hone⟩) (p := p)
    (hself 1) (hself 1) hdeg
  obtain ⟨r, hr, heval', -⟩ := hback _ (legendre_exact 0 0 zero_params) (hself 0) (hself 0) hdeg
  exact ⟨_, _, p, q, r, rfl, rfl, hq, heval, hr, heval'⟩

end JacobiConv

end ActiveDefense.Spectral
