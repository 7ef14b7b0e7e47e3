import ActiveDefense.Spectral.Laplacian

/-!
# The domain of the polynomial filter

`gershgorin_lambda_max` is twice the largest degree. The quadratic form of the Laplacian is a sum of
squares over the edges, and each of these is at most twice the squares of the two entries; so the
form lies between zero and that bound times the square of the vector, and so does every eigenvalue
(`form_bounds`, `eigenvalue_bounds`).
-/

namespace ActiveDefense.Spectral

/-- The sum of the products of the entries. -/
def dotList {R : Type} [CommRing R] (v w : List R) : R := (List.zipWith (· * ·) v w).sum

theorem dotList_ofFn {R : Type} [CommRing R] {n : Nat} (v w : Fin n → R) :
    dotList (List.ofFn v) (List.ofFn w) = ∑ i, v i * w i := by
  have hzip : List.zipWith (· * ·) (List.ofFn v) (List.ofFn w) = List.ofFn fun i => v i * w i :=
    List.ext_getElem (by simp) fun i _ _ => by simp
  rw [dotList, hzip, List.sum_ofFn]

/-- A list is the list of its entries. -/
theorem exists_ofFn {α : Type} {n : Nat} {v : List α} (h : v.length = n) :
    ∃ x : Fin n → α, v = List.ofFn x := by
  subst h
  exact ⟨v.get, (List.ofFn_get v).symm⟩

namespace Graph

open Matrix

/-- `Graph::degree`. -/
def degree (g : Graph) (idx : Nat) : Except GraphError Nat :=
  match g.validateNode idx with
  | .error e => .error e
  | .ok () => .ok (g.nbrs idx).length

/-- The largest degree, with what `unwrap_or` puts in place of an error. -/
def maxDegree (g : Graph) : Nat :=
  ((List.range g.numNodes).map fun i => (g.degree i).toOption.getD 0).max?.getD 0

variable {K : Type} [Field K]

/-- `gershgorin_lambda_max`. -/
def gershgorinLambdaMax (K : Type) [Field K] (g : Graph) : K := 2.0 * (g.maxDegree : K)

theorem gershgorinLambdaMax_eq [CharZero K] (g : Graph) :
    gershgorinLambdaMax K g = 2 * (g.maxDegree : K) := by
  rw [gershgorinLambdaMax]
  norm_num

variable {g : Graph}

theorem le_maxDegree {i : Nat} (hi : i < g.numNodes) : (g.nbrs i).length ≤ g.maxDegree := by
  have hdegree : g.degree i = .ok (g.nbrs i).length := by
    rw [degree, validateNode, if_neg (Nat.not_le.mpr hi)]
  have hmem : (g.nbrs i).length ∈
      (List.range g.numNodes).map fun i => (g.degree i).toOption.getD 0 :=
    List.mem_map.mpr ⟨i, List.mem_range.mpr hi, by rw [hdegree]; rfl⟩
  rw [maxDegree, List.max?_eq_some_max (List.ne_nil_of_mem hmem)]
  exact List.le_max_of_mem hmem

variable [LinearOrder K] [IsStrictOrderedRing K]

/-- The quadratic form of the Laplacian, over the pairs of neighbours. -/
theorem form_eq (g : Graph) (x : Fin g.numNodes → K) :
    ∑ i, x i * (g.simple.lapMatrix K *ᵥ x) i =
      (∑ i, ∑ j, if g.simple.Adj i j then (x i - x j) ^ 2 else 0) / 2 := by
  rw [← SimpleGraph.lapMatrix_toLinearMap₂', toLinearMap₂'_apply']
  rfl

theorem form_le (h : g.Valid) (x : Fin g.numNodes → K) :
    ∑ i, x i * (g.simple.lapMatrix K *ᵥ x) i ≤ 2 * (g.maxDegree : K) * ∑ i, x i * x i := by
  have hpair : ∀ i j, (if g.simple.Adj i j then (x i - x j) ^ 2 else 0) ≤
      (if g.simple.Adj i j then 2 * x i ^ 2 else 0) +
        if g.simple.Adj j i then 2 * x j ^ 2 else 0 := by
    intro i j
    by_cases hadj : g.simple.Adj i j
    · rw [if_pos hadj, if_pos hadj, if_pos hadj.symm]
      linarith [sq_nonneg (x i + x j)]
    · rw [if_neg hadj, if_neg hadj, if_neg fun hji => hadj hji.symm, add_zero]
  have hdegree : ∀ i, (∑ j, if g.simple.Adj i j then 2 * x i ^ 2 else 0) =
      2 * ((g.simple.degree i : K) * x i ^ 2) := by
    intro i
    rw [SimpleGraph.degree_eq_sum_if_adj, Finset.sum_mul, Finset.mul_sum]
    refine Finset.sum_congr rfl fun j _ => ?_
    split <;> ring
  have hbound : ∀ i, (g.simple.degree i : K) * x i ^ 2 ≤ g.maxDegree * x i ^ 2 := by
    intro i
    refine mul_le_mul_of_nonneg_right (Nat.cast_le.mpr ?_) (sq_nonneg _)
    rw [degree_eq h]
    exact le_maxDegree i.isLt
  have hsum : ∑ i, ∑ j, (if g.simple.Adj i j then (x i - x j) ^ 2 else 0) ≤
      2 * (2 * (g.maxDegree : K) * ∑ i, x i * x i) := by
    calc ∑ i, ∑ j, (if g.simple.Adj i j then (x i - x j) ^ 2 else 0)
        ≤ ∑ i, ∑ j, ((if g.simple.Adj i j then 2 * x i ^ 2 else 0) +
            if g.simple.Adj j i then 2 * x j ^ 2 else 0) :=
          Finset.sum_le_sum fun i _ => Finset.sum_le_sum fun j _ => hpair i j
      _ = 2 * ∑ i, ∑ j, if g.simple.Adj i j then 2 * x i ^ 2 else 0 := by
          simp only [Finset.sum_add_distrib]
          rw [Finset.sum_comm (f := fun i j => if g.simple.Adj j i then 2 * x j ^ 2 else 0),
            two_mul]
      _ = 2 * (2 * ∑ i, (g.simple.degree i : K) * x i ^ 2) := by
          simp only [hdegree, Finset.mul_sum]
      _ ≤ 2 * (2 * ∑ i, (g.maxDegree : K) * x i ^ 2) := by
          have hle := Finset.sum_le_sum fun i (_ : i ∈ Finset.univ) => hbound i
          linarith
      _ = 2 * (2 * (g.maxDegree : K) * ∑ i, x i * x i) := by
          simp only [← Finset.mul_sum, sq]
          ring
  rw [form_eq]
  linarith

/-- The quadratic form of `laplacian_matvec` lies between zero and the bound. -/
theorem form_bounds (h : g.Valid) {v : List K} (hv : v.length = g.numNodes) :
    0 ≤ dotList v (g.laplacianMatvec v) ∧
      dotList v (g.laplacianMatvec v) ≤ gershgorinLambdaMax K g * dotList v v := by
  obtain ⟨x, rfl⟩ := exists_ofFn hv
  rw [laplacianMatvec_eq h, dotList_ofFn, dotList_ofFn, gershgorinLambdaMax_eq]
  refine ⟨?_, form_le h x⟩
  rw [form_eq]
  refine div_nonneg (Finset.sum_nonneg fun i _ => Finset.sum_nonneg fun j _ => ?_) two_pos.le
  split
  · exact sq_nonneg _
  · exact le_refl 0

theorem dotList_self_pos {v : List K} (hv : ∃ a ∈ v, a ≠ 0) : 0 < dotList v v := by
  obtain ⟨n, hn⟩ : ∃ n, v.length = n := ⟨_, rfl⟩
  obtain ⟨x, rfl⟩ := exists_ofFn hn
  obtain ⟨a, ha, hne⟩ := hv
  obtain ⟨i, rfl⟩ := List.mem_ofFn.mp ha
  rw [dotList_ofFn]
  exact Finset.sum_pos' (fun i _ => mul_self_nonneg _) ⟨i, Finset.mem_univ i, mul_self_pos.mpr hne⟩

/-- Whatever calls of `add_edge` made a graph: the quadratic form of its Laplacian is at least zero
and at most the bound times the square of the vector, and so are the eigenvalues. -/
theorem spectrum_of_built (h : g.Built) {v : List K} (hv : v.length = g.numNodes) :
    (0 ≤ dotList v (g.laplacianMatvec v) ∧
      dotList v (g.laplacianMatvec v) ≤ gershgorinLambdaMax K g * dotList v v) ∧
    ∀ eigenvalue : K, g.laplacianMatvec v = v.map (eigenvalue * ·) → (∃ a ∈ v, a ≠ 0) →
      0 ≤ eigenvalue ∧ eigenvalue ≤ gershgorinLambdaMax K g := by
  obtain ⟨hnonneg, hle⟩ := form_bounds h.valid hv
  refine ⟨⟨hnonneg, hle⟩, fun eigenvalue heigen hne => ?_⟩
  have hpos := dotList_self_pos hne
  have hform : dotList v (g.laplacianMatvec v) = eigenvalue * dotList v v := by
    obtain ⟨x, rfl⟩ := exists_ofFn hv
    rw [heigen, List.map_ofFn, dotList_ofFn, dotList_ofFn, Finset.mul_sum]
    refine Finset.sum_congr rfl fun i _ => ?_
    simp only [Function.comp_apply]
    ring
  rw [hform] at hnonneg hle
  exact ⟨nonneg_of_mul_nonneg_left hnonneg hpos, le_of_mul_le_mul_right hle hpos⟩

/-- The largest eigenvalue of a path of three nodes. -/
theorem spectrum_of_built_path :
    ∃ g : Graph, g.Built ∧ g.laplacianMatvec [1, -2, 1] = [1, -2, 1].map ((3 : ℚ) * ·) ∧
      0 ≤ (3 : ℚ) ∧ 3 ≤ gershgorinLambdaMax ℚ g := by
  have hbuilt : ({ numNodes := 3, adjacency := [[1], [0, 2], [1]] } : Graph).Built :=
    ⟨3, { numNodes := 3, adjacency := [[], [], []] }, [(0, 1), (1, 2)], rfl, rfl⟩
  have heigen : ({ numNodes := 3, adjacency := [[1], [0, 2], [1]] } : Graph).laplacianMatvec
      [1, -2, 1] = [1, -2, 1].map ((3 : ℚ) * ·) := by
    decide +kernel
  obtain ⟨-, hspectrum⟩ := spectrum_of_built hbuilt (show [1, -2, (1 : ℚ)].length = 3 from rfl)
  exact ⟨_, hbuilt, heigen, hspectrum 3 heigen ⟨1, .head _, one_ne_zero⟩⟩

end Graph

end ActiveDefense.Spectral
