import ActiveDefense.Spectral.Embedding
import ActiveDefense.Spectral.Observed
import Mathlib.Analysis.SpecialFunctions.Log.Basic

/-!
# Two embeddings compared

`analyse` compares the network embedding with that of a graph of the flows. The network graph may
have a hub, a node that stands for no entity, and the embedding has a row for it. The graph of the
flows is built on as many nodes as the embedding has rows, so the hub's row is among those that are
compared (`blindToHub_iff`).
-/

namespace ActiveDefense.Spectral

/-- `f64` with the natural logarithm, too. -/
class FloatLn (φ : Type) extends FloatFns φ where
  ln : φ → φ

instance : FloatLn Float where
  ln := Float.log

noncomputable instance : FloatLn ℝ where
  ln := Real.log

variable {φ : Type}

/-! ## Statistics -/

section
variable [FloatFns φ] [Neg φ]

/-- `iter().sum()` of a list. -/
def sumOf (xs : List φ) : φ := xs.foldl (· + ·) 0.0

/-- The products of the numbers of two lists, summed up. -/
def sumOfProducts (xs ys : List φ) : φ := sumOf (List.zipWith (· * ·) xs ys)

/-- `cosine_abs`. -/
def cosineAbs (a b : List φ) : φ :=
  let dot := sumOfProducts a b
  let na := FloatFns.sqrt (sumOfProducts a a)
  let nb := FloatFns.sqrt (sumOfProducts b b)
  if na < 1e-12 ∨ nb < 1e-12 then 0.0 else absF64 (dot / (na * nb))

/-- The indexes of a list, in ascending order of their values. -/
def ascending (vals : List φ) : List Nat :=
  (List.range vals.length).mergeSort fun a b => !decide (vals.getD b 0.0 < vals.getD a 0.0)

/-- The outer loop of `rank_of` from the place `i` on, where `order` is what is left of the order:
the values that are close to the first one have one rank. -/
def rankFrom (vals : List φ) (i : Nat) (order : List Nat) (ranks : List φ) : List φ :=
  match order with
  | [] => ranks
  | first :: rest =>
    let tied := rest.takeWhile fun idx =>
      decide (absF64 (vals.getD idx 0.0 - vals.getD first 0.0) < 1e-12)
    let j := i + 1 + tied.length
    let avgRank := FloatArith.ofUsize (i + j - 1) / 2.0 + 1.0
    rankFrom vals j (rest.drop tied.length)
      ((first :: tied).foldl (fun ranks idx => ranks.set idx avgRank) ranks)
termination_by order.length
decreasing_by
  rw [List.length_drop, List.length_cons]
  omega

/-- `rank_of`. -/
def rankOf (vals : List φ) : List φ :=
  rankFrom vals 0 (ascending vals) (List.replicate vals.length 0.0)

/-- The correlation of two lists: what `spearman` makes of the ranks and `pearson` of the values. -/
def correlation (xs ys : List φ) : φ :=
  let mx := sumOf xs / FloatArith.ofUsize xs.length
  let my := sumOf ys / FloatArith.ofUsize xs.length
  let dx := xs.map (· - mx)
  let dy := ys.map (· - my)
  let da := FloatFns.sqrt (sumOfProducts dx dx)
  let db := FloatFns.sqrt (sumOfProducts dy dy)
  if da < 1e-12 ∨ db < 1e-12 then 0.0 else sumOfProducts dx dy / (da * db)

/-- `spearman`. -/
def spearman (xs ys : List φ) : φ :=
  if xs.length < 2 then 0.0 else correlation (rankOf xs) (rankOf ys)

/-- `pearson`. -/
def pearson (xs ys : List φ) : φ := if xs.length < 2 then 0.0 else correlation xs ys

end

/-! ## Distances of an embedding -/

/-- What `GraphError` says of a distance. -/
inductive DistanceError where
  | insufficientNodesForEmbedding (numDims : Nat)
  | nodeOutOfRange (idx numNodes : Nat)
deriving DecidableEq, Repr

namespace SpectralEmbedding

variable [FloatFns φ]

/-- `SpectralEmbedding::validate_node`. -/
def validateNode (e : SpectralEmbedding φ) (idx : Nat) : Except DistanceError Unit :=
  if e.numNodes ≤ idx then .error (.nodeOutOfRange idx e.numNodes) else .ok ()

/-- `SpectralEmbedding::geometric_distance`. -/
def geometricDistance (e : SpectralEmbedding φ) (u v : Nat) : Except DistanceError φ :=
  if e.numDims < 2 then .error (.insufficientNodesForEmbedding e.numDims)
  else do
    e.validateNode u
    e.validateNode v
    return FloatFns.sqrt <| sumOf <| (List.range' 1 (e.numDims - 1)).filterMap fun k =>
      let lambda := e.eigenvalues.getD k 0.0
      if lambda < 1e-10 then none
      else
        let d := e.entry u k - e.entry v k
        some (d * d / lambda)

/-- `pairwise_ct`. -/
def pairwiseCt (e : SpectralEmbedding φ) (n : Nat) : List φ :=
  let n := min n e.numNodes
  (List.range n).flatMap fun i => (List.range' (i + 1) (n - (i + 1))).map fun j =>
    match e.geometricDistance i j with
    | .ok d => d
    | .error _ => 0.0

/-- The first `n` rows of a column. -/
def column (e : SpectralEmbedding φ) (n k : Nat) : List φ := (List.range n).map (e.entry · k)

end SpectralEmbedding

/-! ## The graph of the flows -/

section
variable [FloatFns φ]

/-- What `analyse` reads of a `FlowRecord`. -/
structure FlowRecord (φ : Type) where
  srcIp : Str
  features : List φ

/-- The other flows with their distances, the nearest first. -/
def nearest (flows : List (FlowRecord φ)) (i : Fin flows.length) : List (Fin flows.length × φ) :=
  let dists := ((List.finRange flows.length).filter (· ≠ i)).map fun j =>
    (j, sumOf (List.zipWith (fun a b => (a - b) * (a - b)) flows[i].features flows[j].features))
  dists.mergeSort fun a b => !decide (b.2 < a.2)

/-- The `knn_edges` of `build_hnsw_projection_graph`. -/
def knnEdges (flows : List (FlowRecord φ)) (ipIndex : Str → Option Nat) (k : Nat) :
    List (Nat × Nat) :=
  (List.finRange flows.length).flatMap fun i =>
    ((nearest flows i).take k).filterMap fun near => do
      let u ← ipIndex flows[i].srcIp
      let v ← ipIndex flows[near.1].srcIp
      if u ≠ v then some (u, v) else none

/-- `build_hnsw_projection_graph`. -/
def buildHnswProjectionGraph (flows : List (FlowRecord φ)) (ipIndex : Str → Option Nat)
    (nIps k : Nat) : Graph × Bool :=
  match buildConnectedGraph nIps (knnEdges flows ipIndex k) with
  | .ok built => built
  | .error _ => ({ numNodes := max nIps 1, adjacency := List.replicate (max nIps 1) [] }, false)

end

/-! ## The report -/

/-- `SpectralHomologyReport`. The correlation of the commute times is nothing where it is
`f64::NAN`, and the verdict is an error where it tells that the eigendecomposition failed. -/
structure SpectralHomologyReport (φ : Type) where
  nNodes : Nat
  nFlows : Nat
  k : Nat
  lambda1G : φ
  lambda1Hnsw : φ
  hubInjectedHnsw : Bool
  fiedlerCosine : φ
  subspaceAlignment : φ
  ctRankCorrelation : Option φ
  eigenvalueCorrelation : φ
  perModeCosines : List φ
  verdict : Except (EmbedError φ) Str

section
variable [FloatFns φ] [Neg φ]

/-- `subspace_alignment`. -/
def subspaceAlignment (g h : SpectralEmbedding φ) (k : Nat) : φ :=
  let n := min g.numNodes h.numNodes
  let k := min (min (min k (g.numDims - 1)) (h.numDims - 1)) n
  if k = 0 then 0.0
  else
    let gramSqSum := sumOf <| (List.range' 1 k).flatMap fun ki => (List.range' 1 k).map fun kj =>
      let dot := sumOfProducts (g.column n ki) (h.column n kj)
      dot * dot
    gramSqSum / FloatArith.ofUsize k

/-- `build_verdict`. -/
def buildVerdict (fiedler subspace : φ) (ctRho : Option φ) (evR : φ) : Str :=
  let ctAbs := match ctRho with
    | some rho => absF64 rho
    | none => 0.0
  let avgSignal := (fiedler + subspace + ctAbs) / 3.0
  let base :=
    if 0.80 < avgSignal then
      "STRONG homology: L_HNSW eigenvectors are faithful proxies for L_G. " ++
      "The feature space encodes network topology — HNSW k-NN retrieval " ++
      "respects the spectral partition of the network graph."
    else if 0.55 < avgSignal then
      "MODERATE homology: significant but imperfect alignment. " ++
      "The statistical feature block captures degree-level topology " ++
      "(Fiedler partition), but higher spectral modes are scrambled by " ++
      "flow-level noise and L7 entropy dimensions."
    else if 0.30 < avgSignal then
      "WEAK homology: the Fiedler direction is partially preserved but " ++
      "higher modes do not align. The HNSW index groups flows by " ++
      "traffic-volume similarity, not by network-topology proximity. " ++
      "Spectral distances in L_HNSW should not be interpreted as " ++
      "commute-time distances in L_G."
    else
      "NEGLIGIBLE homology: L_HNSW and L_G eigenvectors are essentially " ++
      "orthogonal. The feature map does not encode network topology. " ++
      "Use spectral distances from L_G directly; do not substitute " ++
      "HNSW proximity for network-graph structural proximity."
  if 0.7 < absF64 evR ∧ avgSignal < 0.30 then
    (base ++ " Note: eigenvalue correlation is high (r=").toList ++ FloatArith.fixed 2 evR ++
      (") despite this — the two graphs have similarly-shaped spectra (comparable " ++
        "size/degree statistics) but that reflects bulk structure, not " ++
        "node-level correspondence, and should not be read as agreement.").toList
  else base.toList

end

section
variable [FloatLn φ] [Neg φ]

open SpectralEmbedding

/-- `analyse`. -/
def analyse (flows : List (FlowRecord φ)) (gEmb : SpectralEmbedding φ) (ipIndex : Str → Option Nat)
    (k : Nat) (jacobiCfg : JacobiConfig φ) : SpectralHomologyReport φ :=
  let nIps := gEmb.numNodes
  let (gH, hubInjectedHnsw) := buildHnswProjectionGraph flows ipIndex nIps k
  match embed gH jacobiCfg with
  | .error e =>
    { nNodes := nIps
      nFlows := flows.length
      k := k
      lambda1G := gEmb.algebraicConnectivity
      lambda1Hnsw := 0.0
      hubInjectedHnsw := hubInjectedHnsw
      fiedlerCosine := 0.0
      subspaceAlignment := 0.0
      ctRankCorrelation := none
      eigenvalueCorrelation := 0.0
      perModeCosines := []
      verdict := .error e }
  | .ok hEmb =>
    let nShared := min gEmb.numNodes hEmb.numNodes
    let fiedlerCosine := cosineAbs (gEmb.column nShared (min 1 (gEmb.numDims - 1)))
      (hEmb.column nShared (min 1 (hEmb.numDims - 1)))
    let subK := min (min 4 (gEmb.numDims - 1)) (hEmb.numDims - 1)
    let subspaceAlign := subspaceAlignment gEmb hEmb subK
    let nModes := min (min 6 (gEmb.numDims - 1)) (hEmb.numDims - 1)
    let perMode := (List.range' 1 nModes).map fun mode =>
      cosineAbs (gEmb.column nShared mode) (hEmb.column nShared mode)
    let ctRankCorr :=
      if 1e-8 < gEmb.algebraicConnectivity ∧ 1e-8 < hEmb.algebraicConnectivity then
        some (spearman (gEmb.pairwiseCt nShared) (hEmb.pairwiseCt nShared))
      else none
    let evCount := min gEmb.eigenvalues.length hEmb.eigenvalues.length
    let logs (e : SpectralEmbedding φ) : List φ :=
      (e.eigenvalues.take evCount).map fun v => FloatLn.ln (v + 1e-8)
    let eigenvalueCorr := pearson (logs gEmb) (logs hEmb)
    { nNodes := nIps
      nFlows := flows.length
      k := k
      lambda1G := gEmb.algebraicConnectivity
      lambda1Hnsw := hEmb.algebraicConnectivity
      hubInjectedHnsw := hubInjectedHnsw
      fiedlerCosine := fiedlerCosine
      subspaceAlignment := subspaceAlign
      ctRankCorrelation := ctRankCorr
      eigenvalueCorrelation := eigenvalueCorr
      perModeCosines := perMode
      verdict := .ok (buildVerdict fiedlerCosine subspaceAlign ctRankCorr eigenvalueCorr) }

end

/-! ## The hub's row -/

/-- The embedding with another `eigenvector_matrix`. -/
def SpectralEmbedding.withMatrix (e : SpectralEmbedding φ) (matrix : List (List φ)) :
    SpectralEmbedding φ :=
  { e with eigenvectorMatrix := matrix }

@[simp]
theorem SpectralEmbedding.withMatrix_eigenvectorMatrix (e : SpectralEmbedding φ)
    (matrix : List (List φ)) : (e.withMatrix matrix).eigenvectorMatrix = matrix := rfl

@[simp]
theorem SpectralEmbedding.withMatrix_numNodes (e : SpectralEmbedding φ)
    (matrix : List (List φ)) : (e.withMatrix matrix).numNodes = e.numNodes := rfl

@[simp]
theorem SpectralEmbedding.withMatrix_numDims (e : SpectralEmbedding φ)
    (matrix : List (List φ)) : (e.withMatrix matrix).numDims = e.numDims := rfl

namespace SpectralSecurityGraph

section
variable {β : Type}

/-- The index of the hub, if there is one. -/
def hub (sg : SpectralSecurityGraph β) : Nat := max sg.entityIndex.length 2

/-- `entity_to_node`. -/
def entityToNode (sg : SpectralSecurityGraph β) (e : Str) : Option Nat := sg.entityIndex.idxOf? e

end

variable [FloatLn φ] [Neg φ]

/-- What the report of `analyse` tells of eigenvectors, when the network embedding has this matrix:
the cosines of the Fiedler vectors, the alignment of the subspaces, the cosines of the modes and the
correlation of the commute times. -/
def comparisons (sg : SpectralSecurityGraph (SpectralEmbedding φ)) (flows : List (FlowRecord φ))
    (k : Nat) (cfg : JacobiConfig φ) (matrix : List (List φ)) : φ × φ × List φ × Option φ :=
  let report := analyse flows (sg.embedding.withMatrix matrix) sg.entityToNode k cfg
  (report.fiedlerCosine, report.subspaceAlignment, report.perModeCosines, report.ctRankCorrelation)

/-- Two matrices of the size of the embedding that differ in the hub's row at most. -/
structure SameButHub (sg : SpectralSecurityGraph (SpectralEmbedding φ)) (m m' : List (List φ)) :
    Prop where
  length_eq : m.length = sg.embedding.numNodes
  length_eq' : m'.length = sg.embedding.numNodes
  width : ∀ row ∈ m, row.length = sg.embedding.numDims
  width' : ∀ row ∈ m', row.length = sg.embedding.numDims
  same : ∀ i, i ≠ sg.hub → m[i]? = m'[i]?

/-- The comparisons do not depend on the hub's row. -/
def BlindToHub (sg : SpectralSecurityGraph (SpectralEmbedding φ)) (flows : List (FlowRecord φ))
    (k : Nat) (cfg : JacobiConfig φ) : Prop :=
  ∀ m m', SameButHub sg m m' → sg.comparisons flows k cfg m = sg.comparisons flows k cfg m'

/-- The graph that the flows of a report make. -/
def projection (sg : SpectralSecurityGraph (SpectralEmbedding φ)) (flows : List (FlowRecord φ))
    (k : Nat) : Graph :=
  (buildHnswProjectionGraph flows sg.entityToNode sg.embedding.numNodes k).1

end SpectralSecurityGraph

/-! ## Sizes -/

theorem numNodes_of_build {n : Nat} {edges : List (Nat × Nat)} {g : Graph} {hub : Bool}
    (h : buildConnectedGraph n edges = .ok (g, hub)) :
    g.Valid ∧ g.numNodes = if hub then n + 1 else n := by
  rw [buildConnectedGraph] at h
  split at h
  · cases h
  · next phys hphys =>
    split at h
    · cases h
      obtain ⟨hvalid, hnum, -⟩ := Graph.of_fromEdges hphys
      exact ⟨hvalid, hnum⟩
    · split at h
      · cases h
      · split at h
        · cases h
        · next aug haug =>
          cases h
          obtain ⟨hvalid, hnum, -⟩ := Graph.of_fromEdges haug
          exact ⟨hvalid, hnum⟩

namespace SpectralSecurityGraph

variable {β : Type}

/-- The embedding is that of the graph, which has one node more where there is a hub. -/
theorem of_build {f : Graph → Option β} {edges : List ObservedEdge} {sg : SpectralSecurityGraph β}
    (h : build f edges = some sg) (hhub : sg.hubInjected = true) :
    f sg.graph = some sg.embedding ∧ sg.graph.Valid ∧ sg.graph.numNodes = sg.hub + 1 := by
  rw [build] at h
  simp only at h
  split at h
  · cases h
  · next graph hubInjected hbuilt =>
    split at h
    · cases h
    · next embedding hembed =>
      cases h
      obtain ⟨hvalid, hnum⟩ := numNodes_of_build hbuilt
      rw [if_pos hhub] at hnum
      exact ⟨hembed, hvalid, hnum⟩

end SpectralSecurityGraph

theorem numNodes_projection [FloatFns φ] {flows : List (FlowRecord φ)} {ipIndex : Str → Option Nat}
    {nIps k : Nat} (hn : 1 ≤ nIps) :
    (buildHnswProjectionGraph flows ipIndex nIps k).1.numNodes = nIps ∨
      (buildHnswProjectionGraph flows ipIndex nIps k).1.numNodes = nIps + 1 := by
  rw [buildHnswProjectionGraph]
  split
  · next built hbuilt =>
    obtain ⟨g, hub⟩ := built
    obtain ⟨-, hnum⟩ := numNodes_of_build hbuilt
    cases hub with
    | false => exact .inl hnum
    | true => exact .inr hnum
  · exact .inl (max_eq_left hn)

/-! ## Cosines of columns -/

theorem sumOf_eq (xs : List ℝ) : sumOf xs = xs.sum := by
  rw [sumOf, zero_lit, List.sum_eq_foldl]

theorem sumOfProducts_range (n : Nat) (f g : Nat → ℝ) :
    sumOfProducts ((List.range n).map f) ((List.range n).map g) =
      ∑ i ∈ Finset.range n, f i * g i := by
  rw [sumOfProducts, sumOf_eq, List.zipWith_map, List.zipWith_self, Finset.sum_range,
    ← List.sum_ofFn, List.ofFn_eq_map, ← List.map_coe_finRange_eq_range, List.map_map]
  rfl

theorem cosineAbs_range (n : Nat) (f g : Nat → ℝ) :
    cosineAbs ((List.range n).map f) ((List.range n).map g) =
      if √(∑ i ∈ Finset.range n, f i * f i) < 1e-12 ∨ √(∑ i ∈ Finset.range n, g i * g i) < 1e-12
      then 0
      else |(∑ i ∈ Finset.range n, f i * g i) /
        (√(∑ i ∈ Finset.range n, f i * f i) * √(∑ i ∈ Finset.range n, g i * g i))| := by
  rw [cosineAbs]
  simp only [sumOfProducts_range, absF64_eq, zero_lit]
  rfl

theorem not_sqrt_lt {x : ℝ} (hx : 1 / 2 ≤ x) : ¬ √x < 1e-12 := by
  rw [not_lt]
  exact Real.le_sqrt_of_sq_le (le_trans (by norm_num) hx)

/-- A sum of products, with another number in the last row of one of the columns. -/
theorem sum_update (f g : Nat → ℝ) (s : Nat) (a : ℝ) :
    ∑ i ∈ Finset.range (s + 1), Function.update f s a i * g i =
      ∑ i ∈ Finset.range s, f i * g i + a * g s := by
  rw [Finset.sum_range_succ, Function.update_self]
  congr 1
  refine Finset.sum_congr rfl fun i hi => ?_
  rw [Function.update_of_ne (Finset.mem_range.mp hi).ne]

theorem sum_update_self (f : Nat → ℝ) (s : Nat) (a : ℝ) :
    ∑ i ∈ Finset.range (s + 1), Function.update f s a i * Function.update f s a i =
      ∑ i ∈ Finset.range s, f i * f i + a * a := by
  rw [sum_update, Function.update_self]
  congr 1
  refine Finset.sum_congr rfl fun i hi => ?_
  rw [Function.update_of_ne (Finset.mem_range.mp hi).ne]

/-- A column that ends in zero has the cosine one with itself, and less with itself and a one in the
last row. -/
theorem cosineAbs_ne_of_zero {s : Nat} {h : Nat → ℝ}
    (hlong : 1 / 2 ≤ ∑ i ∈ Finset.range (s + 1), h i * h i) (hb : h s = 0) :
    cosineAbs ((List.range (s + 1)).map h) ((List.range (s + 1)).map h) ≠
      cosineAbs ((List.range (s + 1)).map (Function.update h s 1))
        ((List.range (s + 1)).map h) := by
  obtain ⟨S, hS⟩ : ∃ S, S = ∑ i ∈ Finset.range s, h i * h i := ⟨_, rfl⟩
  have hsum : ∑ i ∈ Finset.range (s + 1), h i * h i = S := by
    rw [Finset.sum_range_succ, hb, mul_zero, add_zero, hS]
  have hcross : ∑ i ∈ Finset.range (s + 1), Function.update h s 1 i * h i = S := by
    rw [sum_update, hb, mul_zero, add_zero, hS]
  have hself : ∑ i ∈ Finset.range (s + 1),
      Function.update h s 1 i * Function.update h s 1 i = S + 1 := by
    rw [sum_update_self, mul_one, hS]
  rw [hsum] at hlong
  have hpos : 0 < √S := Real.sqrt_pos.mpr (by linarith)
  have hgrow : √S < √(S + 1) := Real.sqrt_lt_sqrt (by linarith) (by linarith)
  have hprod : 0 < √(S + 1) * √S := mul_pos (hpos.trans hgrow) hpos
  have hshort := not_sqrt_lt hlong
  have hshort' : ¬ √(S + 1) < 1e-12 := not_sqrt_lt (by linarith)
  have hone : cosineAbs ((List.range (s + 1)).map h) ((List.range (s + 1)).map h) = 1 := by
    rw [cosineAbs_range, hsum, if_neg (not_or.mpr ⟨hshort, hshort⟩),
      Real.mul_self_sqrt (by linarith), div_self (by linarith), abs_one]
  rw [hone, cosineAbs_range, hsum, hcross, hself, if_neg (not_or.mpr ⟨hshort', hshort⟩),
    abs_of_pos (div_pos (by linarith) hprod)]
  refine ne_of_gt ?_
  rw [div_lt_one hprod]
  calc S = √S * √S := (Real.mul_self_sqrt (by linarith)).symm
    _ < √(S + 1) * √S := mul_lt_mul_of_pos_right hgrow hpos

/-- With a column that does not end in zero, no column has the cosine zero, and one that has nothing
but a one in the last row has another. -/
theorem cosineAbs_ne_of_ne_zero {s : Nat} {h : Nat → ℝ}
    (hlong : 1 / 2 ≤ ∑ i ∈ Finset.range (s + 1), h i * h i) (hb : h s ≠ 0) :
    cosineAbs ((List.range (s + 1)).map (0 : Nat → ℝ)) ((List.range (s + 1)).map h) ≠
      cosineAbs ((List.range (s + 1)).map (Function.update (0 : Nat → ℝ) s 1))
        ((List.range (s + 1)).map h) := by
  obtain ⟨T, hT⟩ : ∃ T, T = ∑ i ∈ Finset.range (s + 1), h i * h i := ⟨_, rfl⟩
  have hcross : ∑ i ∈ Finset.range (s + 1), Function.update (0 : Nat → ℝ) s 1 i * h i = h s := by
    simp [sum_update]
  have hself : ∑ i ∈ Finset.range (s + 1),
      Function.update (0 : Nat → ℝ) s 1 i * Function.update (0 : Nat → ℝ) s 1 i = 1 := by
    simp [sum_update_self]
  rw [← hT] at hlong
  have hpos : 0 < √T := Real.sqrt_pos.mpr (by linarith)
  have hnone : cosineAbs ((List.range (s + 1)).map (0 : Nat → ℝ))
      ((List.range (s + 1)).map h) = 0 := by
    rw [cosineAbs_range]
    exact if_pos (.inl (by norm_num))
  rw [hnone, cosineAbs_range, hcross, hself, ← hT, Real.sqrt_one,
    if_neg (not_or.mpr ⟨by norm_num, not_sqrt_lt hlong⟩), one_mul]
  exact (abs_pos.mpr (div_ne_zero hb hpos.ne')).ne

/-- Whatever the column of one embedding, if it is not short: two columns of the other one that
differ in the last row only have different cosines with it. -/
theorem exists_cosineAbs_ne {s : Nat} {h : Nat → ℝ}
    (hlong : 1 / 2 ≤ ∑ i ∈ Finset.range (s + 1), h i * h i) :
    ∃ f f' : Nat → ℝ, (∀ i, i ≠ s → f i = f' i) ∧
      cosineAbs ((List.range (s + 1)).map f) ((List.range (s + 1)).map h) ≠
        cosineAbs ((List.range (s + 1)).map f') ((List.range (s + 1)).map h) := by
  have hsame : ∀ f : Nat → ℝ, ∀ i, i ≠ s → f i = Function.update f s 1 i :=
    fun f i hi => (Function.update_of_ne hi _ _).symm
  by_cases hb : h s = 0
  · exact ⟨h, Function.update h s 1, hsame h, cosineAbs_ne_of_zero hlong hb⟩
  · exact ⟨0, Function.update 0 s 1, hsame 0, cosineAbs_ne_of_ne_zero hlong hb⟩

/-- One of two columns of an embedding is long, also without its last row. -/
theorem exists_long_column {g : Graph} {cfg : JacobiConfig ℝ} {e : SpectralEmbedding ℝ}
    (h : SpectralEmbedding.embed g cfg = .ok e) (hdims : cfg.dimensions = none) {s : Nat}
    (hs : 3 ≤ s) (hnum : g.numNodes = s ∨ g.numNodes = s + 1) :
    ∃ mode, 1 ≤ mode ∧ mode ≤ 2 ∧
      1 / 2 ≤ ∑ i ∈ Finset.range s, e.entry i mode * e.entry i mode := by
  obtain ⟨-, -, -, v, hv, hentry⟩ := SpectralEmbedding.exists_orthogonal h hdims
  have hrows := (Matrix.mem_orthogonalGroup_iff _ _).mp hv
  have hcols := (Matrix.mem_orthogonalGroup_iff' _ _).mp hv
  have hcol : ∀ j : Fin g.numNodes,
      ∑ i ∈ Finset.range g.numNodes, e.entry i j * e.entry i j = 1 := by
    intro j
    have hone := congrFun (congrFun hcols j) j
    rw [Matrix.mul_apply, Matrix.one_apply_eq] at hone
    rw [Finset.sum_range, ← hone]
    exact Finset.sum_congr rfl fun i _ => by rw [hentry]; rfl
  rcases hnum with hnum | hnum
  · refine ⟨1, le_refl 1, one_le_two, ?_⟩
    rw [← hnum, hcol ⟨1, by omega⟩]
    norm_num
  · have hrow : e.entry s 1 * e.entry s 1 + e.entry s 2 * e.entry s 2 ≤ 1 := by
      have hone := congrFun (congrFun hrows ⟨s, by omega⟩) ⟨s, by omega⟩
      rw [Matrix.mul_apply, Matrix.one_apply_eq] at hone
      have hpair : ({⟨1, by omega⟩, ⟨2, by omega⟩} : Finset (Fin g.numNodes)) ⊆ Finset.univ :=
        Finset.subset_univ _
      have hle := Finset.sum_le_sum_of_subset_of_nonneg hpair
        (f := fun j => v ⟨s, by omega⟩ j * v ⟨s, by omega⟩ j) fun j _ _ => mul_self_nonneg _
      rw [Finset.sum_pair (by simp)] at hle
      rw [← hone, hentry ⟨s, by omega⟩ ⟨1, by omega⟩, hentry ⟨s, by omega⟩ ⟨2, by omega⟩]
      exact hle
    have hsplit : ∀ j : Fin g.numNodes,
        (∑ i ∈ Finset.range s, e.entry i j * e.entry i j) + e.entry s j * e.entry s j = 1 := by
      intro j
      rw [← Finset.sum_range_succ, ← hnum, hcol j]
    have hfirst := hsplit ⟨1, by omega⟩
    have hsecond := hsplit ⟨2, by omega⟩
    by_cases hshort : e.entry s 1 * e.entry s 1 ≤ 1 / 2
    · exact ⟨1, le_refl 1, one_le_two, by linarith⟩
    · exact ⟨2, one_le_two, le_refl 2, by linarith⟩

/-! ## What the comparisons depend on -/

namespace SpectralSecurityGraph

open SpectralEmbedding

variable {sg : SpectralSecurityGraph (SpectralEmbedding ℝ)} {flows : List (FlowRecord ℝ)} {k : Nat}
  {cfg : JacobiConfig ℝ}

/-- Where the eigendecomposition fails, nothing is compared. -/
theorem comparisons_of_error {err : EmbedError ℝ}
    (h : embed (sg.projection flows k) cfg = .error err) (m : List (List ℝ)) :
    sg.comparisons flows k cfg m = (0.0, 0.0, [], none) := by
  obtain ⟨⟨gH, hub⟩, hproj⟩ : ∃ r,
    buildHnswProjectionGraph flows sg.entityToNode sg.embedding.numNodes k = r := ⟨_, rfl⟩
  have hgH : embed gH cfg = .error err := by
    rw [projection, hproj] at h
    exact h
  simp only [comparisons, analyse, withMatrix_numNodes, hproj, hgH]

/-- Where it succeeds, all rows of the smaller embedding are compared. -/
theorem comparisons_of_ok {e : SpectralEmbedding ℝ} (h : embed (sg.projection flows k) cfg = .ok e)
    (m : List (List ℝ)) :
    let g := sg.embedding.withMatrix m
    let nShared := min g.numNodes e.numNodes
    sg.comparisons flows k cfg m =
      (cosineAbs (g.column nShared (min 1 (g.numDims - 1)))
        (e.column nShared (min 1 (e.numDims - 1))),
      subspaceAlignment g e (min (min 4 (g.numDims - 1)) (e.numDims - 1)),
      (List.range' 1 (min (min 6 (g.numDims - 1)) (e.numDims - 1))).map fun mode =>
        cosineAbs (g.column nShared mode) (e.column nShared mode),
      if 1e-8 < g.algebraicConnectivity ∧ 1e-8 < e.algebraicConnectivity then
        some (spearman (g.pairwiseCt nShared) (e.pairwiseCt nShared))
      else none) := by
  obtain ⟨⟨gH, hub⟩, hproj⟩ : ∃ r,
    buildHnswProjectionGraph flows sg.entityToNode sg.embedding.numNodes k = r := ⟨_, rfl⟩
  have hgH : embed gH cfg = .ok e := by
    rw [projection, hproj] at h
    exact h
  simp only [comparisons, analyse, withMatrix_numNodes, hproj, hgH]

/-- A matrix with one column that is not zero. -/
def columnMatrix (n mode : Nat) (f : Nat → ℝ) : List (List ℝ) :=
  (List.range n).map fun i => (List.range n).map fun j => if j = mode then f i else 0

theorem column_columnMatrix {e : SpectralEmbedding ℝ} {n mode : Nat} (hmode : mode < n)
    (f : Nat → ℝ) : (e.withMatrix (columnMatrix n mode f)).column n mode =
      (List.range n).map f := by
  refine List.map_congr_left fun i hi => ?_
  have hi' : i < n := List.mem_range.mp hi
  simp [entry, columnMatrix, List.getD_eq_getElem?_getD, hi', hmode]

theorem sameButHub_columnMatrix (hnodes : sg.embedding.numNodes = sg.hub + 1)
    (hdims : sg.embedding.numDims = sg.hub + 1) (mode : Nat) {f f' : Nat → ℝ}
    (hsame : ∀ i, i ≠ sg.hub → f i = f' i) :
    SameButHub sg (columnMatrix (sg.hub + 1) mode f) (columnMatrix (sg.hub + 1) mode f') := by
  have hlen : ∀ f, (columnMatrix (sg.hub + 1) mode f).length = sg.embedding.numNodes := by
    intro f
    rw [columnMatrix, List.length_map, List.length_range, hnodes]
  have hwidth : ∀ f, ∀ row ∈ columnMatrix (sg.hub + 1) mode f,
      row.length = sg.embedding.numDims := by
    intro f row hrow
    obtain ⟨i, -, rfl⟩ := List.mem_map.mp hrow
    rw [List.length_map, List.length_range, hdims]
  refine ⟨hlen f, hlen f', hwidth f, hwidth f', fun i hi => ?_⟩
  rw [columnMatrix, columnMatrix, List.getElem?_map, List.getElem?_map]
  cases hget : (List.range (sg.hub + 1))[i]? with
  | none => rfl
  | some j =>
    obtain rfl : i = j := by
      rw [List.getElem?_eq_some_iff] at hget
      obtain ⟨-, rfl⟩ := hget
      rw [List.getElem_range]
    simp only [Option.map_some, hsame i hi]

/-- The embedding of a graph with a hub has a row for the hub. -/
theorem size_of_build {edges : List ObservedEdge} {cfgG : JacobiConfig ℝ}
    (hbuild : build (fun g => (embed g cfgG).toOption) edges = some sg)
    (hhub : sg.hubInjected = true) (hdimsG : cfgG.dimensions = none) :
    sg.embedding.numNodes = sg.hub + 1 ∧ sg.embedding.numDims = sg.hub + 1 := by
  obtain ⟨hsome, -, hnum⟩ := of_build hbuild hhub
  cases hembed : embed sg.graph cfgG with
  | error err =>
    rw [hembed] at hsome
    cases hsome
  | ok e =>
    rw [hembed] at hsome
    obtain ⟨-, hnodes, hdims, -⟩ := exists_orthogonal hembed hdimsG
    rw [← Option.some.inj hsome, ← hnum]
    exact ⟨hnodes, hdims⟩

/-- Two matrices that differ in the hub's row only make a difference where modes are compared. -/
theorem exists_comparisons_ne (hnodes : sg.embedding.numNodes = sg.hub + 1)
    (hnum : sg.embedding.numDims = sg.hub + 1) (hdims : cfg.dimensions = none)
    {e : SpectralEmbedding ℝ} (h : embed (sg.projection flows k) cfg = .ok e) :
    ∃ m m', SameButHub sg m m' ∧ sg.comparisons flows k cfg m ≠ sg.comparisons flows k cfg m' := by
  have htwo : 2 ≤ sg.hub := le_max_right _ _
  have hsize : (sg.projection flows k).numNodes = sg.hub + 1 ∨
      (sg.projection flows k).numNodes = sg.hub + 1 + 1 := by
    rw [projection, hnodes]
    exact numNodes_projection (Nat.succ_pos _)
  obtain ⟨-, hnodesH, hdimsH, -⟩ := exists_orthogonal h hdims
  obtain ⟨mode, hone, hmode, hlong⟩ := exists_long_column h hdims (Nat.succ_le_succ htwo) hsize
  obtain ⟨f, f', hsame, hne⟩ := exists_cosineAbs_ne hlong
  refine ⟨_, _, sameButHub_columnMatrix hnodes hnum mode hsame, fun heq => hne ?_⟩
  have hmodes := congrArg (fun c => c.2.2.1[mode - 1]?) heq
  have hshared : min sg.embedding.numNodes e.numNodes = sg.hub + 1 := by omega
  have hlt : mode - 1 < min (min 6 (sg.embedding.numDims - 1)) (e.numDims - 1) := by omega
  have hlast : 1 + (mode - 1) = mode := by omega
  simp only [comparisons_of_ok h, withMatrix_numNodes, withMatrix_numDims, hshared,
    List.getElem?_map] at hmodes
  rw [List.getElem?_range' hlt, one_mul, hlast] at hmodes
  simp only [Option.map_some, Option.some.injEq,
    column_columnMatrix (show mode < sg.hub + 1 by omega)] at hmodes
  exact hmodes

/-- For every list of observed edges whose graph has a hub, and every list of flows: the comparisons
of eigenvectors do not depend on the hub's row of the network embedding, if and only if the
eigendecomposition of the graph of the flows fails, so that nothing is compared. -/
theorem blindToHub_iff {edges : List ObservedEdge} {cfgG : JacobiConfig ℝ}
    (hbuild : build (fun g => (embed g cfgG).toOption) edges = some sg)
    (hhub : sg.hubInjected = true) (hdimsG : cfgG.dimensions = none)
    (hdims : cfg.dimensions = none) (flows : List (FlowRecord ℝ)) (k : Nat) :
    BlindToHub sg flows k cfg ↔ ∃ err, embed (sg.projection flows k) cfg = .error err := by
  obtain ⟨hnodes, hnum⟩ := size_of_build hbuild hhub hdimsG
  constructor
  · intro hblind
    cases h : embed (sg.projection flows k) cfg with
    | error err => exact ⟨err, rfl⟩
    | ok e =>
      obtain ⟨m, m', hsame, hne⟩ := exists_comparisons_ne hnodes hnum hdims h
      exact absurd (hblind m m' hsame) hne
  · rintro ⟨err, h⟩ m m' -
    rw [comparisons_of_error h, comparisons_of_error h]

end SpectralSecurityGraph

/-! ## Stars -/

section

open Matrix Rotation

/-- A graph whose last node is joined with all others. -/
def star (leaves : Nat) : Graph where
  numNodes := leaves + 1
  adjacency := List.replicate leaves [leaves] ++ [List.range leaves]

theorem build_star_two : buildConnectedGraph 2 [(0, 0), (1, 1)] = .ok (star 2, true) := by
  decide +kernel

theorem build_star_three : buildConnectedGraph 3 [] = .ok (star 3, true) := by
  decide +kernel

theorem laplacian_star_two : (star 2).laplacianMatrix ℝ =
    !![1, 0, -1; 0, 1, -1; -1, -1, 2] := by
  ext i j
  fin_cases i <;> fin_cases j <;>
    simp [star, Graph.laplacianMatrix, Graph.laplacian, Graph.laplacianRow, Graph.nbrs,
      List.range_succ]

theorem laplacian_star_three : (star 3).laplacianMatrix ℝ =
    !![1, 0, 0, -1; 0, 1, 0, -1; 0, 0, 1, -1; -1, -1, -1, 3] := by
  ext i j
  fin_cases i <;> fin_cases j <;>
    simp [star, Graph.laplacianMatrix, Graph.laplacian, Graph.laplacianRow, Graph.nbrs,
      List.range_succ]

theorem offSq_star_two : offSq ((star 2).laplacianMatrix ℝ) = 4 := by
  have hoff : offSq !![(1 : ℝ), 0, -1; 0, 1, -1; -1, -1, 2] = 4 := by
    simp [offSq, Fin.sum_univ_three]
    norm_num
  exact laplacian_star_two ▸ hoff

theorem offSq_star_three : offSq ((star 3).laplacianMatrix ℝ) = 6 := by
  have hoff : offSq !![(1 : ℝ), 0, 0, -1; 0, 1, 0, -1; 0, 0, 1, -1; -1, -1, -1, 3] = 6 := by
    simp [offSq, Fin.sum_univ_four]
    norm_num
  exact laplacian_star_three ▸ hoff

theorem sumSq_star_three : sumSq ((star 3).laplacianMatrix ℝ) = 18 := by
  have hsum : sumSq !![(1 : ℝ), 0, 0, -1; 0, 1, 0, -1; 0, 0, 1, -1; -1, -1, -1, 3] = 18 := by
    simp [sumSq, Fin.sum_univ_four]
    norm_num
  exact laplacian_star_three ▸ hsum

/-- The hub is the one neighbour that two leaves share. -/
theorem mul_self_star_three : ((star 3).laplacianMatrix ℝ * (star 3).laplacianMatrix ℝ)
    (0 : Fin 4) (2 : Fin 4) = 1 := by
  have hstar : (!![(1 : ℝ), 0, 0, -1; 0, 1, 0, -1; 0, 0, 1, -1; -1, -1, -1, 3] *
      !![(1 : ℝ), 0, 0, -1; 0, 1, 0, -1; 0, 0, 1, -1; -1, -1, -1, 3]) 0 2 = 1 := by
    simp [Matrix.mul_apply, Fin.sum_univ_four]
  rw [laplacian_star_three]
  exact hstar

/-- More turns leave less. -/
theorem pow_share_lt {n k m : Nat} (hn : 2 ≤ n) (hk : m ≤ k) {off ε : ℝ} (hoff : 0 ≤ off)
    (h : share ℝ n ^ m * off < ε) : share ℝ n ^ k * off < ε := by
  have hone : share ℝ n ≤ 1 := by
    have hcast : (2 : ℝ) ≤ n := by exact_mod_cast hn
    rw [share, sub_le_self_iff]
    exact div_nonneg (by norm_num) (mul_nonneg (by linarith) (by linarith))
  refine lt_of_le_of_lt (mul_le_mul_of_nonneg_right ?_ hoff) h
  exact pow_le_pow_of_le_one (share_nonneg hn) hone hk

theorem exists_embed_star_two :
    ∃ e, SpectralEmbedding.embed (star 2) (JacobiConfig.standard (φ := ℝ)) = .ok e := by
  refine SpectralEmbedding.exists_embed (numNodes_of_build build_star_two).1 (by decide) ?_ ?_ ?_
  · norm_num [JacobiConfig.standard]
  · norm_num [JacobiConfig.standard]
  · rw [offSq_star_two]
    refine pow_share_lt (m := 200) (by decide) (by decide) (by norm_num) ?_
    norm_num [share, star, JacobiConfig.standard]

theorem exists_embed_star_three :
    ∃ e, SpectralEmbedding.embed (star 3) (JacobiConfig.relaxed (φ := ℝ)) = .ok e := by
  refine SpectralEmbedding.exists_embed (numNodes_of_build build_star_three).1 (by decide) ?_ ?_ ?_
  · norm_num [JacobiConfig.relaxed]
  · norm_num [JacobiConfig.relaxed]
  · rw [offSq_star_three]
    refine pow_share_lt (m := 200) (by decide) (by decide) (by norm_num) ?_
    norm_num [share, star, JacobiConfig.relaxed]

theorem scale_star_three :
    SpectralEmbedding.scale (SpectralEmbedding.start (φ := ℝ) (star 3)).l ≤ 3 := by
  refine SpectralEmbedding.scale_le (by norm_num) fun i => ?_
  have hl := congrFun (congrFun (laplacianRows_eq (numNodes_of_build build_star_three).1) i) i
  rw [laplacian_star_three] at hl
  have hdiag : ∀ i : Fin 4,
      |!![(1 : ℝ), 0, 0, -1; 0, 1, 0, -1; 0, 0, 1, -1; -1, -1, -1, 3] i i| ≤ 3 := by
    intro i
    fin_cases i <;> norm_num
  exact (congrArg abs hl).trans_le (hdiag i)

/-- The third leaf's row has an entry in one of the columns that are compared. -/
theorem exists_entry_ne {e : SpectralEmbedding ℝ}
    (h : SpectralEmbedding.embed (star 3) (JacobiConfig.relaxed (φ := ℝ)) = .ok e) :
    e.entry 2 1 ≠ 0 ∨ e.entry 2 2 ≠ 0 := by
  obtain ⟨v, d, hv, hentry, hprod, hsmall⟩ := SpectralEmbedding.exists_nearly_diagonal
    (numNodes_of_build build_star_three).1 (by norm_num [JacobiConfig.relaxed]) h rfl
  by_contra hnot
  obtain ⟨hone, htwo⟩ := not_or.mp hnot
  rw [not_not] at hone htwo
  have hrows := (mem_orthogonalGroup_iff _ _).mp hv
  have hcols := (mem_orthogonalGroup_iff' _ _).mp hv
  have hoff : ∀ i j, i ≠ j → |d i j| ≤ 3e-3 := by
    intro i j hij
    refine (hsmall i j hij).trans ?_
    have hmax : max (JacobiConfig.relaxed (φ := ℝ)).epsilon 1e-3 = 1e-3 := by
      norm_num [JacobiConfig.relaxed]
    rw [hmax]
    linarith [scale_star_three]
  have hsum : sumSq d = 18 := by
    rw [← sumSq_conj hcols d, hprod]
    exact sumSq_star_three
  have hbound : ∀ i j, |d i j| ≤ 4.25 := by
    intro i j
    have hle := sq_le_sumSq d i j
    rw [hsum] at hle
    exact abs_le_of_sq_le_sq (hle.trans (by norm_num)) (by norm_num)
  have hrow : ∀ j : Fin 4, j ≠ 0 → j ≠ 3 → v (2 : Fin 4) j = 0 := by
    intro j hzero hthree
    fin_cases j
    · exact absurd rfl hzero
    · exact (hentry (2 : Fin 4) (1 : Fin 4)).symm.trans hone
    · exact (hentry (2 : Fin 4) (2 : Fin 4)).symm.trans htwo
    · exact absurd rfl hthree
  have hentryZero : (v * d * vᵀ) (0 : Fin 4) (2 : Fin 4) = 0 := by
    rw [hprod, laplacian_star_three]
    rfl
  have hsquare : (v * d * vᵀ * (v * d * vᵀ)) (0 : Fin 4) (2 : Fin 4) = 1 := by
    rw [hprod]
    exact mul_self_star_three
  have hle := abs_mul_self_apply_le hrows hcols (p := (0 : Fin 4)) (q := (3 : Fin 4))
    (r := (2 : Fin 4)) (s := (0 : Fin 4)) (show (0 : Fin 4) ≠ 3 by decide) hrow
    (show (0 : Fin 4) ≠ 2 by decide) hentryZero hoff (by norm_num) hbound
  rw [hsquare, abs_one, Fintype.card_fin] at hle
  norm_num [star] at hle

end

namespace SpectralSecurityGraph

open SpectralEmbedding

/-- The alignment of the subspaces of two modes, over three rows. -/
theorem subspaceAlignment_two {g h : SpectralEmbedding ℝ} (hnodes : min g.numNodes h.numNodes = 3)
    (hg : g.numDims = 3) (hh : h.numDims = 4) :
    subspaceAlignment g h 2 =
      ((g.entry 0 1 * h.entry 0 1 + g.entry 1 1 * h.entry 1 1 + g.entry 2 1 * h.entry 2 1) ^ 2 +
        (g.entry 0 1 * h.entry 0 2 + g.entry 1 1 * h.entry 1 2 + g.entry 2 1 * h.entry 2 2) ^ 2 +
        (g.entry 0 2 * h.entry 0 1 + g.entry 1 2 * h.entry 1 1 + g.entry 2 2 * h.entry 2 1) ^ 2 +
        (g.entry 0 2 * h.entry 0 2 + g.entry 1 2 * h.entry 1 2 + g.entry 2 2 * h.entry 2 2) ^ 2) /
        2 := by
  simp only [subspaceAlignment, hnodes, hg, hh, column, sumOfProducts_range, sumOf_eq]
  have hcast : (FloatArith.ofUsize 2 : ℝ) = 2 := rfl
  simp [List.range', Finset.sum_range_succ, hcast]
  ring

theorem entry_set {e : SpectralEmbedding ℝ} {r : Nat} (hr : r < e.eigenvectorMatrix.length)
    (row : List ℝ) (i k : Nat) :
    (e.withMatrix (e.eigenvectorMatrix.set r row)).entry i k =
      if i = r then row.getD k 0 else e.entry i k := by
  simp only [entry, zero_lit, withMatrix_eigenvectorMatrix, List.getD_eq_getElem?_getD,
    List.getElem?_set]
  by_cases hir : i = r
  · rw [if_pos hir.symm, if_pos hir, if_pos (hir ▸ hr), Option.getD_some]
  · rw [if_neg (Ne.symm hir), if_neg hir]

/-- Two entities that are not joined, and no flows. -/
theorem exists_star : ∃ (sg : SpectralSecurityGraph (SpectralEmbedding ℝ))
    (h : SpectralEmbedding ℝ), build (fun g => (embed g JacobiConfig.standard).toOption)
      [("a".toList, "a".toList), ("b".toList, "b".toList)] = some sg ∧ sg.hubInjected = true ∧
    sg.hub = 2 ∧ sg.embedding.eigenvectorMatrix.length = 3 ∧
    embed (sg.projection [] 5) JacobiConfig.relaxed = .ok h ∧
    embed (star 3) JacobiConfig.relaxed = .ok h := by
  obtain ⟨e, he⟩ := exists_embed_star_two
  obtain ⟨h, hh⟩ := exists_embed_star_three
  obtain ⟨-, hnodes, -⟩ := exists_orthogonal he rfl
  let sg : SpectralSecurityGraph (SpectralEmbedding ℝ) := {
    graph := star 2
    embedding := e
    entityIndex := ["a".toList, "b".toList]
    hubInjected := true }
  refine ⟨sg, h, ?_, rfl, rfl, ?_, ?_, hh⟩
  · have hrun : internEdge.run [] [("a".toList, "a".toList), ("b".toList, "b".toList)] =
        ([(0, 0), (1, 1)], ["a".toList, "b".toList]) := by decide
    have hmax : max ["a".toList, "b".toList].length 2 = 2 := rfl
    simp only [build, hrun, hmax, build_star_two, he, Except.toOption]
    rfl
  · obtain ⟨-, w, rfl, -⟩ := of_embed he
    exact List.length_map _
  · have hstar : ∀ ipIndex : Str → Option Nat,
        buildHnswProjectionGraph ([] : List (FlowRecord ℝ)) ipIndex 3 5 = (star 3, true) := by
      intro ipIndex
      have hedges : knnEdges ([] : List (FlowRecord ℝ)) ipIndex 5 = [] := rfl
      rw [buildHnswProjectionGraph, hedges, build_star_three]
    have hthree : e.numNodes = 3 := hnodes
    rw [projection, hthree, hstar]
    exact hh

theorem blindToHub_iff_star : ∃ sg : SpectralSecurityGraph (SpectralEmbedding ℝ),
    build (fun g => (embed g JacobiConfig.standard).toOption)
      [("a".toList, "a".toList), ("b".toList, "b".toList)] = some sg ∧ sg.hubInjected = true ∧
    ¬ BlindToHub sg [] 5 .relaxed := by
  obtain ⟨sg, h, hbuild, hhub, -, -, hproj, -⟩ := exists_star
  refine ⟨sg, hbuild, hhub, fun hblind => ?_⟩
  obtain ⟨err, herr⟩ := (blindToHub_iff hbuild hhub rfl rfl [] 5).mp hblind
  rw [hproj] at herr
  cases herr

/-- There the subspaces are compared over the hub's row, too. -/
theorem not_blindToHub : ¬ ∀ (edges : List ObservedEdge) (flows : List (FlowRecord ℝ))
    (sg : SpectralSecurityGraph (SpectralEmbedding ℝ)),
    build (fun g => (embed g JacobiConfig.standard).toOption) edges = some sg →
    sg.hubInjected = true → ∀ row : List ℝ, row.length = sg.embedding.numDims →
      sg.comparisons flows 5 .relaxed (sg.embedding.eigenvectorMatrix.set sg.hub row) =
        sg.comparisons flows 5 .relaxed sg.embedding.eigenvectorMatrix := by
  intro hclaim
  obtain ⟨sg, h, hbuild, hhub, htwo, hlen, hproj, hstar⟩ := exists_star
  obtain ⟨hnodes, hdims⟩ := size_of_build hbuild hhub rfl
  obtain ⟨-, hnodesH, hdimsH, -⟩ := exists_orthogonal hstar rfl
  rw [htwo] at hnodes hdims
  have hshared : min sg.embedding.numNodes h.numNodes = 3 := by
    rw [hnodes, hnodesH]
    rfl
  have hmodes : min (min 4 (sg.embedding.numDims - 1)) (h.numDims - 1) = 2 := by
    rw [hdims, hdimsH]
    rfl
  have hvalue : ∀ row : List ℝ, row.length = 3 →
      subspaceAlignment (sg.embedding.withMatrix (sg.embedding.eigenvectorMatrix.set 2 row)) h 2 =
        subspaceAlignment sg.embedding h 2 := by
    intro row hrow
    have heq := hclaim _ [] sg hbuild hhub row (hrow.trans hdims.symm)
    simp only [htwo, comparisons_of_ok hproj, withMatrix_numDims, hmodes, Prod.mk.injEq] at heq
    exact heq.2.1
  have hrow : ∀ x : ℝ, subspaceAlignment (sg.embedding.withMatrix
      (sg.embedding.eigenvectorMatrix.set 2 [0, x, 0])) h 2 =
      ((sg.embedding.entry 0 1 * h.entry 0 1 + sg.embedding.entry 1 1 * h.entry 1 1 +
          x * h.entry 2 1) ^ 2 +
        (sg.embedding.entry 0 1 * h.entry 0 2 + sg.embedding.entry 1 1 * h.entry 1 2 +
          x * h.entry 2 2) ^ 2 +
        (sg.embedding.entry 0 2 * h.entry 0 1 + sg.embedding.entry 1 2 * h.entry 1 1) ^ 2 +
        (sg.embedding.entry 0 2 * h.entry 0 2 + sg.embedding.entry 1 2 * h.entry 1 2) ^ 2) / 2 := by
    intro x
    have htwoModes := subspaceAlignment_two (h := h)
      (g := sg.embedding.withMatrix (sg.embedding.eigenvectorMatrix.set 2 [0, x, 0])) hshared hdims
      hdimsH
    rw [htwoModes]
    have hset := entry_set (e := sg.embedding) (by rw [hlen]; exact Nat.lt_succ_self 2) [0, x, 0]
    simp only [hset]
    simp
  have hzero := (hrow 0).symm.trans (hvalue [0, 0, 0] rfl)
  have hup := (hrow 1).symm.trans (hvalue [0, 1, 0] rfl)
  have hdown := (hrow (-1)).symm.trans (hvalue [0, -1, 0] rfl)
  have hsum : h.entry 2 1 ^ 2 + h.entry 2 2 ^ 2 = 0 := by linarith
  rcases exists_entry_ne hstar with hne | hne
  · exact absurd hsum (add_pos_of_pos_of_nonneg (sq_pos_of_ne_zero hne) (sq_nonneg _)).ne'
  · exact absurd hsum (add_pos_of_nonneg_of_pos (sq_nonneg _) (sq_pos_of_ne_zero hne)).ne'

end SpectralSecurityGraph

end ActiveDefense.Spectral
