import ActiveDefense.Spectral.Gershgorin
import ActiveDefense.Spectral.JacobiDs

/-!
# The polynomial filter

`ResolventFilter::apply` runs the recurrence of the Jacobi polynomials with vectors in place of
numbers and the Laplacian, mapped to `[-1, 1]`, in place of `x`. The vectors it keeps are the
polynomials of the mapped Laplacian times the vector it is given (`pCurrVec_eq`), so the result is
the expansion at that matrix (`apply_eq`); it is linear, and on an eigenvector it is `eval` at the
eigenvalue.
-/

namespace ActiveDefense.Spectral

open Polynomial Jacobi Matrix

/-- `ResolventFilter`. The fields are private; `fit` asserts that the interval is not empty, and its
parameters and coefficients are those of an expansion. -/
structure ResolventFilter (K : Type) [Field K] [LinearOrder K] where
  alpha : K
  beta : K
  coeffs : List K
  lambdaMin : K
  lambdaMax : K
  alpha_gt : -1 < alpha
  beta_gt : -1 < beta
  coeffs_ne : coeffs ≠ []
  lambda_lt : lambdaMin < lambdaMax

variable {K : Type} [Field K] [LinearOrder K]

namespace ResolventFilter

/-- `self.coeffs[k]`. -/
def coeff (f : ResolventFilter K) (k : Nat) : K := f.coeffs.getD k 0

/-- `l_mapped`. -/
def lMapped (f : ResolventFilter K) (graph : Graph) (n : Nat) (x : List K) : List K :=
  let lx := graph.laplacianMatvec x
  (List.range n).map fun i =>
    (2.0 * lx.getD i 0 - (f.lambdaMax + f.lambdaMin) * x.getD i 0) / (f.lambdaMax - f.lambdaMin)

/-- The loop `sum[i] += coeff * p[i]`. -/
def addTerm (f : ResolventFilter K) (n : Nat) (sum : List K) (k : Nat) (p : List K) : List K :=
  (List.range n).map fun i => sum.getD i 0 + f.coeff k * p.getD i 0

/-- The first value of `p_prev1`. -/
def p1Vec (f : ResolventFilter K) (graph : Graph) (n : Nat) (v : List K) : List K :=
  let lv := f.lMapped graph n v
  (List.range n).map fun i =>
    0.5 * ((f.alpha + f.beta + 2.0) * lv.getD i 0 + (f.alpha - f.beta) * v.getD i 0)

/-- `p_curr` of a turn of the loop. -/
def pCurrVec (f : ResolventFilter K) (graph : Graph) (n k : Nat) (pPrev2 pPrev1 : List K) :
    List K :=
  let kf : K := k
  let aPlusB := f.alpha + f.beta
  let t := 2.0 * kf + aPlusB
  let aCoef := 2.0 * kf * (kf + aPlusB) * (t - 2.0)
  let bScale := (t - 1) * (t * (t - 2.0))
  let bConst := (t - 1) * (f.alpha * f.alpha - f.beta * f.beta)
  let cCoef := 2.0 * (kf + f.alpha - 1) * (kf + f.beta - 1) * t
  let lPPrev1 := f.lMapped graph n pPrev1
  (List.range n).map fun i =>
    (bScale * lPPrev1.getD i 0 + bConst * pPrev1.getD i 0 - cCoef * pPrev2.getD i 0) / aCoef

/-- `ResolventFilter::apply`. -/
def apply (f : ResolventFilter K) (graph : Graph) (v : List K) : List K :=
  let n := v.length
  let sum := f.addTerm n (List.replicate n 0) 0 v
  if f.coeffs.length = 1 then sum
  else
    let first := f.p1Vec graph n v
    let sum := f.addTerm n sum 1 first
    if f.coeffs.length = 2 then sum
    else ((List.range' 2 (f.coeffs.length - 2)).foldl (fun s k =>
      let curr := f.pCurrVec graph n k s.2.1 s.2.2
      (f.addTerm n s.1 k curr, s.2.2, curr)) (sum, v, first)).1

/-- The expansion with the same parameters and coefficients. -/
def poly (f : ResolventFilter K) : JacobiPoly K :=
  { alpha := f.alpha, beta := f.beta, coeffs := f.coeffs
    alpha_gt := f.alpha_gt, beta_gt := f.beta_gt, coeffs_ne := f.coeffs_ne }

/-- The Laplacian under the map of the interval to `[-1, 1]`. -/
def mapped (f : ResolventFilter K) (g : Graph) : Matrix (Fin g.numNodes) (Fin g.numNodes) K :=
  (f.lambdaMax - f.lambdaMin)⁻¹ • ((2.0 : K) • g.laplacianMatrix K -
    (f.lambdaMax + f.lambdaMin) • (1 : Matrix (Fin g.numNodes) (Fin g.numNodes) K))

/-! ## The loop -/

theorem map_range_eq_ofFn {α : Type} (n : Nat) (f : Nat → α) :
    (List.range n).map f = List.ofFn fun i : Fin n => f i :=
  List.ext_getElem (by simp) fun i _ _ => by simp

variable {g : Graph} (f : ResolventFilter K) (x : Fin g.numNodes → K)

theorem lMapped_ofFn (h : g.Valid) :
    f.lMapped g g.numNodes (List.ofFn x) = List.ofFn (f.mapped g *ᵥ x) := by
  rw [lMapped, map_range_eq_ofFn, Graph.laplacianMatvec_eq h]
  congr 1
  funext i
  rw [Graph.getD_ofFn, Graph.getD_ofFn, mapped, Graph.laplacianMatrix_eq h]
  simp only [smul_mulVec, sub_mulVec, one_mulVec, Pi.smul_apply, Pi.sub_apply, smul_eq_mul]
  rw [div_eq_inv_mul]

/-- A polynomial of the mapped Laplacian, times the vector. -/
noncomputable def term (k : Nat) : Fin g.numNodes → K :=
  aeval (f.mapped g) (jacobi f.alpha f.beta k) *ᵥ x

theorem term_zero : f.term x 0 = x := by
  rw [term, jacobi, map_one, one_mulVec]

theorem p1Vec_eq (h : g.Valid) :
    f.p1Vec g g.numNodes (List.ofFn x) = List.ofFn (f.term x 1) := by
  rw [p1Vec, map_range_eq_ofFn, lMapped_ofFn f x h]
  congr 1
  funext i
  rw [Graph.getD_ofFn, Graph.getD_ofFn, term, jacobi, C_mul', C_mul']
  simp only [map_smul, map_add, aeval_X, aeval_C, Algebra.algebraMap_eq_smul_one,
    smul_mulVec, add_mulVec, one_mulVec, Pi.smul_apply, Pi.add_apply, smul_eq_mul]

/-- A turn of the loop gives the next of the polynomials. -/
theorem pCurrVec_eq (h : g.Valid) (k : Nat) :
    f.pCurrVec g g.numNodes (k + 2) (List.ofFn (f.term x k)) (List.ofFn (f.term x (k + 1))) =
      List.ofFn (f.term x (k + 2)) := by
  have hnext : f.term x (k + 2) = (aCoef f.alpha f.beta (k + 2))⁻¹ •
      (bScale f.alpha f.beta (k + 2) • f.mapped g *ᵥ f.term x (k + 1) +
        bConst f.alpha f.beta (k + 2) • f.term x (k + 1) -
        cCoef f.alpha f.beta (k + 2) • f.term x k) := by
    rw [term, term, term, jacobi]
    simp only [add_mul, C_mul', smul_mul_assoc, map_smul, map_sub, map_add, map_mul, aeval_X,
      smul_mulVec, sub_mulVec, add_mulVec, mulVec_mulVec]
  rw [pCurrVec, map_range_eq_ofFn, lMapped_ofFn f _ h, hnext]
  congr 1
  funext i
  simp only [Graph.getD_ofFn, Pi.smul_apply, Pi.sub_apply, Pi.add_apply, smul_eq_mul]
  rw [aCoef, bScale, bConst, cCoef, div_eq_inv_mul]

theorem addTerm_eq (k : Nat) (sum p : Fin g.numNodes → K) :
    f.addTerm g.numNodes (List.ofFn sum) k (List.ofFn p) = List.ofFn (sum + f.coeff k • p) := by
  rw [addTerm, map_range_eq_ofFn]
  congr 1
  funext i
  rw [Graph.getD_ofFn, Graph.getD_ofFn]
  rfl

/-- `apply` is the expansion at the mapped Laplacian, times the vector. -/
theorem apply_ofFn (h : g.Valid) : f.apply g (List.ofFn x) =
    List.ofFn (∑ k ∈ Finset.range f.coeffs.length, f.coeff k • f.term x k) := by
  have hpos : 0 < f.coeffs.length := List.length_pos_iff.mpr f.coeffs_ne
  have hadd : ∀ k, f.addTerm g.numNodes
      (List.ofFn (∑ j ∈ Finset.range k, f.coeff j • f.term x j)) k (List.ofFn (f.term x k)) =
      List.ofFn (∑ j ∈ Finset.range (k + 1), f.coeff j • f.term x j) := by
    intro k
    rw [addTerm_eq, Finset.sum_range_succ]
  have hzero : f.addTerm g.numNodes (List.replicate g.numNodes 0) 0 (List.ofFn x) =
      List.ofFn (∑ j ∈ Finset.range 1, f.coeff j • f.term x j) := by
    have hreplicate : List.replicate g.numNodes (0 : K) =
        List.ofFn (∑ j ∈ Finset.range 0, f.coeff j • f.term x j) := by
      rw [Finset.sum_range_zero, ← List.ofFn_const]
      rfl
    rw [hreplicate, ← hadd 0, term_zero]
  have hloop := foldl_total (P := fun k => List.ofFn (f.term x k))
    (T := fun m => List.ofFn (∑ j ∈ Finset.range m, f.coeff j • f.term x j))
    (A := f.addTerm g.numNodes) (pCurrVec_eq f x h) hadd (f.coeffs.length - 2)
  rw [apply, List.length_ofFn]
  dsimp only
  rw [hzero, p1Vec_eq f x h, hadd 1]
  split
  · next h1 =>
    rw [h1]
  · split
    · next h2 =>
      rw [h2]
    · next h1 h2 =>
      rw [term_zero] at hloop
      rw [hloop, Nat.sub_add_cancel (by omega)]

/-! ## Eigenvectors -/

omit [LinearOrder K] in
/-- On an eigenvector, a polynomial of a matrix is the polynomial at the eigenvalue. -/
theorem aeval_mulVec_eigenvector {n : Type*} [Fintype n] [DecidableEq n] {M : Matrix n n K}
    {x : n → K} {eigenvalue : K} (hx : M *ᵥ x = eigenvalue • x) (p : K[X]) :
    aeval M p *ᵥ x = p.eval eigenvalue • x := by
  induction p using Polynomial.induction_on' with
  | add p q hp hq => rw [map_add, add_mulVec, hp, hq, eval_add, add_smul]
  | monomial k a =>
    have hpow : M ^ k *ᵥ x = eigenvalue ^ k • x := by
      induction k with
      | zero => rw [pow_zero, one_mulVec, pow_zero, one_smul]
      | succ k ih => rw [pow_succ, ← mulVec_mulVec, hx, mulVec_smul, ih, smul_smul, pow_succ']
    rw [aeval_monomial, eval_monomial, ← Algebra.smul_def, smul_mulVec, hpow, smul_smul]

variable [IsStrictOrderedRing K]

theorem mapped_mulVec_eigenvector (h : g.Valid) {eigenvalue : K}
    (hx : g.laplacianMatvec (List.ofFn x) = (List.ofFn x).map (eigenvalue * ·)) :
    f.mapped g *ᵥ x = ((2 * eigenvalue - (f.lambdaMax + f.lambdaMin)) /
      (f.lambdaMax - f.lambdaMin)) • x := by
  rw [Graph.laplacianMatvec_eq h, List.map_ofFn] at hx
  have hlap : g.simple.lapMatrix K *ᵥ x = eigenvalue • x := List.ofFn_injective hx
  rw [mapped, Graph.laplacianMatrix_eq h, smul_mulVec, sub_mulVec, smul_mulVec, hlap, smul_mulVec,
    one_mulVec, smul_smul, ← sub_smul, smul_smul, div_eq_inv_mul, two_eq]

/-- Over whatever graph: no turn divides by zero; `apply` is the expansion at the mapped Laplacian,
in the polynomials that `jacobi_value` computes, times the vector; so it is linear; and an
eigenvector it multiplies by `eval` at the mapped eigenvalue. -/
theorem apply_eq_aeval (h : g.Built) :
    ((∀ k : Nat, 2 ≤ k →
        2 * (k : K) * (k + (f.alpha + f.beta)) * (2 * k + (f.alpha + f.beta) - 2) ≠ 0) ∧
      f.lambdaMax - f.lambdaMin ≠ 0) ∧
    (∃ P : Nat → K[X], (∀ k t, (P k).eval t = jacobiValue k f.alpha f.beta t) ∧
      ∀ x : Fin g.numNodes → K, f.apply g (List.ofFn x) = List.ofFn
        (∑ k ∈ Finset.range f.coeffs.length, f.coeff k • (aeval (f.mapped g) (P k) *ᵥ x))) ∧
    (∀ (a b : K) (x y : Fin g.numNodes → K), f.apply g (List.ofFn (a • x + b • y)) =
      List.zipWith (fun s t => a * s + b * t) (f.apply g (List.ofFn x))
        (f.apply g (List.ofFn y))) ∧
    ∀ (eigenvalue : K) (x : Fin g.numNodes → K),
      g.laplacianMatvec (List.ofFn x) = (List.ofFn x).map (eigenvalue * ·) →
      f.apply g (List.ofFn x) = (List.ofFn x).map (f.poly.eval
        ((2 * eigenvalue - (f.lambdaMax + f.lambdaMin)) / (f.lambdaMax - f.lambdaMin)) * ·) := by
  have hvalid := h.valid
  refine ⟨⟨fun k hk => ?_, (sub_pos.mpr f.lambda_lt).ne'⟩,
    ⟨jacobi f.alpha f.beta, fun k t => (jacobiValue_eq k f.alpha f.beta t).symm,
      fun x => apply_ofFn f x hvalid⟩, fun a b x y => ?_, fun eigenvalue x hx => ?_⟩
  · have hpos := aCoef_pos f.alpha_gt f.beta_gt hk
    rw [aCoef, two_eq] at hpos
    exact hpos.ne'
  · rw [apply_ofFn f _ hvalid, apply_ofFn f x hvalid, apply_ofFn f y hvalid]
    refine List.ext_getElem (by simp) fun i hi _ => ?_
    simp only [List.getElem_zipWith, List.getElem_ofFn, Finset.sum_apply, Pi.smul_apply,
      smul_eq_mul, Finset.mul_sum]
    rw [← Finset.sum_add_distrib]
    refine Finset.sum_congr rfl fun k _ => ?_
    rw [term, mulVec_add, mulVec_smul, mulVec_smul]
    simp only [Pi.add_apply, Pi.smul_apply, smul_eq_mul, term]
    ring
  · have hmapped := mapped_mulVec_eigenvector f x hvalid hx
    rw [apply_ofFn f x hvalid, JacobiPoly.eval_eq, JacobiPoly.toPolynomial, List.map_ofFn,
      eval_finsetSum]
    congr 1
    funext i
    simp only [Finset.sum_apply, Pi.smul_apply, smul_eq_mul, Function.comp_apply, Finset.sum_mul]
    refine Finset.sum_congr rfl fun k _ => ?_
    rw [term, aeval_mulVec_eigenvector hmapped, eval_mul, eval_C, mul_assoc]
    rfl

/-- On an eigenvector of a path of three nodes, with the parameters of `fit`. -/
theorem apply_eq_aeval_path :
    ∃ (f : ResolventFilter ℚ) (g : Graph), g.Built ∧ f.coeffs = [1, 2, 3] ∧
      f.apply g [1, -2, 1] = [1, -2, 1].map (f.poly.eval (1 / 3) * ·) := by
  let f : ResolventFilter ℚ :=
    { alpha := -1 / 2, beta := -1 / 2, coeffs := [1, 2, 3], lambdaMin := 1, lambdaMax := 4
      alpha_gt := by norm_num, beta_gt := by norm_num, coeffs_ne := List.cons_ne_nil 1 [2, 3]
      lambda_lt := by norm_num }
  have hbuilt : ({ numNodes := 3, adjacency := [[1], [0, 2], [1]] } : Graph).Built :=
    ⟨3, { numNodes := 3, adjacency := [[], [], []] }, [(0, 1), (1, 2)], rfl, rfl⟩
  obtain ⟨-, -, -, heigen⟩ := apply_eq_aeval f hbuilt
  have hmapped : (2 * 3 - (f.lambdaMax + f.lambdaMin)) / (f.lambdaMax - f.lambdaMin) = 1 / 3 := by
    norm_num [f]
  have happly := heigen 3 ![1, -2, 1] (by decide +kernel)
  rw [hmapped] at happly
  exact ⟨f, _, hbuilt, rfl, happly⟩

end ResolventFilter

end ActiveDefense.Spectral
